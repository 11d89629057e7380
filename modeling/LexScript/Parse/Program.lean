import LexScript.Parse.Expr
import LexScript.Parse.Types
import LexScript.Tree.Program

/-!
# Reading programs

Declarations stand at the top level and in blocks; the branches and bodies of other statements are
single statements. A condition needs no parentheses: it ends where the statement after it begins.
-/

namespace LexScript.Parse

/-- Reads the parameters of a function. The list may end in a comma. -/
def parametersWithin : Nat → Parse (List Parameter)
  | 0 => unexpected
  | fuel + 1 => do
    if (← peek) = .closeParen then return []
    let name ← identifier "expected parameter name"
    expectOr .colon "expected `:` and a parameter type"
    let first : Parameter := ⟨name, ← type⟩
    if (← peek) ≠ .comma then return [first]
    skip
    return first :: (← parametersWithin fuel)

def functionHeader : Parse FunctionHeader := do
  let name ← identifier "expected function name"
  expect .openParen
  let parameters ← withFuel parametersWithin
  expectOr .closeParen "expected `)` after parameters"
  return ⟨name, parameters, ← returnType⟩

def binding (line : Nat) : Parse Decl := do
  let name ← identifier "expected identifier during variable declaration"
  expectOr .colon "expected `:` and a type after the variable name"
  let declared ← type
  expectOr .assignment "expected `=` and an initial value"
  let value ← expr
  expectOr .semicolon "expected `;` after variable declaration"
  return .binding line name declared value

def printStmt (line : Nat) : Parse Stmt := do
  expectOr .openParen "expected `(` after print"
  let value ← expr
  expectOr .closeParen "expected `)` after print argument"
  expectOr .semicolon "expected `;` after print"
  return .print line value

def returnStmt (line : Nat) : Parse Stmt := do
  let value ← if (← peek) = .semicolon then pure none else some <$> expr
  expectOr .semicolon "expected `;` after return"
  return .ret line value

def exprStmt : Parse Stmt := do
  let start ← line
  let value ← expr
  expectOr .semicolon "expected `;` after expression"
  return .expression start value

mutual

def declWithin : Nat → Parse Decl
  | 0 => unexpected
  | fuel + 1 => do
    match ← peek with
    | .letWord => binding (← advance).line
    | .fnWord =>
      let start := (← advance).line
      let header ← functionHeader
      if (← peek) = .semicolon then
        skip
        return .forward start header
      return .function start header (← blockWithin fuel)
    | _ => return .statement (← stmtWithin fuel)

def stmtWithin : Nat → Parse Stmt
  | 0 => unexpected
  | fuel + 1 => do
    match ← peek with
    | .printWord => printStmt (← advance).line
    | .returnWord => returnStmt (← advance).line
    | .ifWord =>
      let start := (← advance).line
      let condition ← expr
      let thenBranch ← stmtWithin fuel
      if (← peek) ≠ .elseWord then return .ifThen start condition thenBranch
      skip
      return .ifElse start condition thenBranch (← stmtWithin fuel)
    | .whileWord =>
      let start := (← advance).line
      let condition ← expr
      return .whileLoop start condition (← stmtWithin fuel)
    | .forWord =>
      let start := (← advance).line
      let first ← declWithin fuel
      let condition ← expr
      expectOr .semicolon "expected `;` after loop condition"
      let stepLine ← line
      let step ← expr
      return .forLoop start first condition stepLine step (← stmtWithin fuel)
    | .openCurly =>
      let start ← line
      return .block start (← blockWithin fuel)
    | .letWord | .fnWord => refuse "declarations are not allowed here"
    | _ => exprStmt

def blockWithin : Nat → Parse (List Decl)
  | 0 => unexpected
  | fuel + 1 => do
    expectOr .openCurly "expected `\x7b` to start a block"
    blockRestWithin fuel

def blockRestWithin : Nat → Parse (List Decl)
  | 0 => unexpected
  | fuel + 1 => do
    match ← peek with
    | .closeCurly =>
      skip
      return []
    | .eof => unexpected
    | _ =>
      let first ← declWithin fuel
      return first :: (← blockRestWithin fuel)

end

def decl : Parse Decl := withFuel declWithin

def declsWithin : Nat → Parse (List Decl)
  | 0 => unexpected
  | fuel + 1 => do
    if (← peek) = .eof then return []
    let first ← decl
    return first :: (← declsWithin fuel)

end LexScript.Parse

namespace LexScript.Program

/-- The program that the tokens spell, up to their first end of file. -/
def ofTokens (tokens : List Token) : Except Error Program := do
  let (declarations, finish) ← (Parse.withFuel Parse.declsWithin).run (.start tokens)
  return ⟨declarations, finish.nextId⟩

end LexScript.Program
