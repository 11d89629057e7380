import LexScript.Parse.Program
import Mathlib.Data.List.Basic

/-!
# Reading by index, without fuel

A tape holds a whole list of tokens and the index of the next one. The readers of a tape call each other as
they like: `Readers.next` says what each of them does in terms of the others, and nothing bounds how deep the
calls go. `Readers.unrolled` follows the calls to a depth and leaves open what stands below it. What does not
depend on that, ends.
-/

namespace LexScript

/-- All tokens, of which the last one is an end of file, the index of the next one, and the identity that the
next identifier gets. -/
structure Tape where
  tokens : List Token
  index : Nat
  nextId : Nat
  closed : tokens.getLast?.map Token.kind = some .eof

namespace Tape

/-- A list of tokens that does not end in an end of file gets one, on the line of its last token. -/
def close (tokens : List Token) : List Token :=
  if tokens.getLast?.map Token.kind = some .eof then tokens
  else tokens ++ [.endOfFile ((tokens.getLast?.map Token.line).getD 1)]

theorem closed_close (tokens : List Token) : (close tokens).getLast?.map Token.kind = some .eof := by
  rw [close]
  split
  · assumption
  · rw [List.getLast?_concat]
    rfl

/-- The start of a list of tokens. Only its end matters: an end of file may stand anywhere else in it. -/
def start (tokens : List Token) : Tape := ⟨close tokens, 0, 0, closed_close tokens⟩

theorem tokens_ne_nil (t : Tape) : t.tokens ≠ [] := by
  intro hnil
  have hclosed := t.closed
  rw [hnil] at hclosed
  cases hclosed

theorem last_lt (t : Tape) : min t.index (t.tokens.length - 1) < t.tokens.length := by
  have hpos := List.length_pos_of_ne_nil t.tokens_ne_nil
  omega

def token (t : Tape) : Token := t.tokens.get ⟨min t.index (t.tokens.length - 1), t.last_lt⟩

/-- The tape behind its token; an end of file is never passed. -/
def next (t : Tape) : Tape := if t.token.kind = .eof then t else { t with index := t.index + 1 }

abbrev Reader := StateT Tape (Except Error)

variable {α : Type}

def peek : Reader TokenKind := return (← get).token.kind

def line : Reader Nat := return (← get).token.line

def advance : Reader Token := modifyGet fun t => (t.token, t.next)

def unexpected : Reader α := do
  let token := (← get).token
  throw ⟨.unexpectedToken token.value, token.line⟩

def refuse (message : String) : Reader α := do
  let token := (← get).token
  throw ⟨.unexpectedTokenBecause token.value message, token.line⟩

def skip : Reader Unit := modify next

def expect (kind : TokenKind) : Reader Unit := do
  if (← peek) = kind then skip else unexpected

def expectOr (kind : TokenKind) (message : String) : Reader Unit := do
  if (← peek) = kind then skip else refuse message

def fresh (name : String) : Reader Identifier :=
  modifyGet fun t => (⟨name, t.nextId⟩, { t with nextId := t.nextId + 1 })

def identifier (message : String) : Reader Identifier := do
  if (← peek) = .identifier then fresh (← advance).value else refuse message

structure Readers where
  type : Reader Ty
  types : Reader (List Ty)
  returnType : Reader Ty
  expr : (floor : Nat) → Reader Expr
  operand : Reader Expr
  extend : (floor : Nat) → (left : Expr) → Reader Expr
  arguments : Reader (List Expr)
  someArguments : Reader (List Expr)
  parameters : Reader (List Parameter)
  decl : Reader Decl
  stmt : Reader Stmt
  block : Reader (List Decl)
  blockRest : Reader (List Decl)
  decls : Reader (List Decl)

namespace Readers

variable (r : Readers)

/-! ## Types -/

def typeBody : Reader Ty := do
  match ← peek with
  | .identifier =>
    let token ← advance
    match token.value with
    | "number" => return .number
    | "bool" => return .boolean
    | "string" => return .string
    | other => throw ⟨.unexpectedTokenBecause other "unknown type", token.line⟩
  | .fnWord =>
    skip
    expectOr .openParen "expected `(` in function type"
    let parameters ← r.types
    expectOr .closeParen "expected `)` in function type"
    return .function parameters (← r.returnType)
  | _ => refuse "expected a type"

def typesBody : Reader (List Ty) := do
  if (← peek) = .closeParen then return []
  let first ← r.type
  if (← peek) ≠ .comma then return [first]
  skip
  return first :: (← r.types)

def returnTypeBody : Reader Ty := do
  if (← peek) ≠ .arrow then return .void
  skip
  r.type

/-! ## Expressions -/

def exprBody (floor : Nat) : Reader Expr := do r.extend floor (← r.operand)

def operandBody : Reader Expr := do
  match ← peek with
  | .number =>
    let token ← advance
    match Number.ofText? token.value with
    | some value => return .literal (.number value)
    | none => throw ⟨.malformedNumber token.value, token.line⟩
  | .string => return .literal (.string (← advance).value)
  | .trueWord =>
    skip
    return .literal (.boolean true)
  | .falseWord =>
    skip
    return .literal (.boolean false)
  | .identifier => return .name (← fresh (← advance).value)
  | .dash =>
    skip
    return .unary .negate (← r.expr Parse.unaryPower)
  | .not =>
    skip
    return .unary .not (← r.expr Parse.unaryPower)
  | .openParen =>
    skip
    let inner ← r.expr 0
    expectOr .closeParen "expected `)` after expression"
    return inner
  | _ => unexpected

def extendBody (floor : Nat) (left : Expr) : Reader Expr := do
  let kind ← peek
  if Parse.power kind ≤ floor then return left
  let token ← advance
  match Parse.binaryOperator? kind with
  | some operator =>
    let right ← r.expr (Parse.power kind)
    r.extend floor (.binary operator left right)
  | none =>
    if kind = .openParen then
      let arguments ← r.arguments
      expectOr .closeParen "expected `)` after arguments"
      r.extend floor (.call left arguments)
    else
      match left with
      | .name target => r.extend floor (.assign target (← r.expr 0))
      | _ => throw ⟨.invalidAssignmentTarget, token.line⟩

def argumentsBody : Reader (List Expr) := do
  if (← peek) = .closeParen then return []
  r.someArguments

def someArgumentsBody : Reader (List Expr) := do
  let first ← r.expr 0
  if (← peek) ≠ .comma then return [first]
  skip
  return first :: (← r.someArguments)

/-! ## Statements and declarations -/

def parametersBody : Reader (List Parameter) := do
  if (← peek) = .closeParen then return []
  let name ← identifier "expected parameter name"
  expectOr .colon "expected `:` and a parameter type"
  let first : Parameter := ⟨name, ← r.type⟩
  if (← peek) ≠ .comma then return [first]
  skip
  return first :: (← r.parameters)

def functionHeader : Reader FunctionHeader := do
  let name ← identifier "expected function name"
  expect .openParen
  let parameters ← r.parameters
  expectOr .closeParen "expected `)` after parameters"
  return ⟨name, parameters, ← r.returnType⟩

def binding (line : Nat) : Reader Decl := do
  let name ← identifier "expected identifier during variable declaration"
  expectOr .colon "expected `:` and a type after the variable name"
  let declared ← r.type
  expectOr .assignment "expected `=` and an initial value"
  let value ← r.expr 0
  expectOr .semicolon "expected `;` after variable declaration"
  return .binding line name declared value

def printStmt (line : Nat) : Reader Stmt := do
  expectOr .openParen "expected `(` after print"
  let value ← r.expr 0
  expectOr .closeParen "expected `)` after print argument"
  expectOr .semicolon "expected `;` after print"
  return .print line value

def returnStmt (line : Nat) : Reader Stmt := do
  let value ← if (← peek) = .semicolon then pure none else some <$> r.expr 0
  expectOr .semicolon "expected `;` after return"
  return .ret line value

def exprStmt : Reader Stmt := do
  let start ← line
  let value ← r.expr 0
  expectOr .semicolon "expected `;` after expression"
  return .expression start value

def declBody : Reader Decl := do
  match ← peek with
  | .letWord => r.binding (← advance).line
  | .fnWord =>
    let start := (← advance).line
    let header ← r.functionHeader
    if (← peek) = .semicolon then
      skip
      return .forward start header
    return .function start header (← r.block)
  | _ => return .statement (← r.stmt)

def stmtBody : Reader Stmt := do
  match ← peek with
  | .printWord => r.printStmt (← advance).line
  | .returnWord => r.returnStmt (← advance).line
  | .ifWord =>
    let start := (← advance).line
    let condition ← r.expr 0
    let thenBranch ← r.stmt
    if (← peek) ≠ .elseWord then return .ifThen start condition thenBranch
    skip
    return .ifElse start condition thenBranch (← r.stmt)
  | .whileWord =>
    let start := (← advance).line
    let condition ← r.expr 0
    return .whileLoop start condition (← r.stmt)
  | .forWord =>
    let start := (← advance).line
    let first ← r.decl
    let condition ← r.expr 0
    expectOr .semicolon "expected `;` after loop condition"
    let stepLine ← line
    let step ← r.expr 0
    return .forLoop start first condition stepLine step (← r.stmt)
  | .openCurly =>
    let start ← line
    return .block start (← r.block)
  | .letWord | .fnWord => refuse "declarations are not allowed here"
  | _ => r.exprStmt

def blockBody : Reader (List Decl) := do
  expectOr .openCurly "expected `\x7b` to start a block"
  r.blockRest

def blockRestBody : Reader (List Decl) := do
  match ← peek with
  | .closeCurly =>
    skip
    return []
  | .eof => unexpected
  | _ =>
    let first ← r.decl
    return first :: (← r.blockRest)

def declsBody : Reader (List Decl) := do
  if (← peek) = .eof then return []
  let first ← r.decl
  return first :: (← r.decls)

/-- What each reader does, if the readers that it calls are the given ones. -/
def next : Readers where
  type := r.typeBody
  types := r.typesBody
  returnType := r.returnTypeBody
  expr := r.exprBody
  operand := r.operandBody
  extend := r.extendBody
  arguments := r.argumentsBody
  someArguments := r.someArgumentsBody
  parameters := r.parametersBody
  decl := r.declBody
  stmt := r.stmtBody
  block := r.blockBody
  blockRest := r.blockRestBody
  decls := r.declsBody

/-- The readers down to a depth of calls, below which any others may stand. -/
def unrolled (bottom : Readers) : Nat → Readers
  | 0 => bottom
  | depth + 1 => (unrolled bottom depth).next

def program (tokens : List Token) : Except Error Program := do
  let (declarations, finish) ← r.decls.run (.start tokens)
  return ⟨declarations, finish.nextId⟩

end Readers
end Tape
end LexScript
