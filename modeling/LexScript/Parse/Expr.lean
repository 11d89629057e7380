import LexScript.Number.Read
import LexScript.Parse.Cursor

/-!
# Reading expressions

Operators bind by power. Those between two operands group to the left, and an assignment, whose target
must be a name, takes everything to its right.
-/

namespace LexScript.Parse

def binaryOperator? : TokenKind → Option BinaryOperator
  | .plus => some .plus
  | .dash => some .minus
  | .star => some .multiply
  | .slash => some .divide
  | .percent => some .modulo
  | .and => some .and
  | .or => some .or
  | .notEquals => some .notEqual
  | .equals => some .equal
  | .greater => some .greater
  | .greaterEquals => some .greaterEqual
  | .less => some .less
  | .lessEquals => some .lessEqual
  | _ => none

/-- How strongly a token binds what stands before it. Zero ends an expression. -/
def power : TokenKind → Nat
  | .assignment => 1
  | .and | .or => 2
  | .less | .lessEquals | .greater | .greaterEquals | .equals | .notEquals => 3
  | .plus | .dash => 4
  | .star | .slash | .percent => 5
  | .openParen => 7
  | _ => 0

/-- How strongly an operator before its operand binds: more than any operator between two, and less
than a call. -/
def unaryPower : Nat := 6

mutual

/-- Reads an expression of operators that bind more strongly than `floor`. -/
def exprWithin : Nat → (floor : Nat) → Parse Expr
  | 0, _ => unexpected
  | fuel + 1, floor => do extendWithin fuel floor (← operandWithin fuel)

/-- Reads an operand: a literal, a name, an operator before an operand, or parentheses. -/
def operandWithin : Nat → Parse Expr
  | 0 => unexpected
  | fuel + 1 => do
    match ← peek with
    | .number =>
      let token ← advance
      match Number.ofText? token.value with
      | some value => return .literal (.number value)
      | none => throw ⟨.malformedNumber token.value, token.line⟩
    | .string => return .literal (.string (← advance).value)
    | .trueWord =>
      skip
      return .literal (.boolean true)
    | .falseWord =>
      skip
      return .literal (.boolean false)
    | .identifier => return .name (← fresh (← advance).value)
    | .dash =>
      skip
      return .unary .negate (← exprWithin fuel unaryPower)
    | .not =>
      skip
      return .unary .not (← exprWithin fuel unaryPower)
    | .openParen =>
      skip
      let inner ← exprWithin fuel 0
      expectOr .closeParen "expected `)` after expression"
      return inner
    | _ => unexpected

/-- Goes on with an expression that begins with `left`, as long as the next token binds more strongly
than `floor`. -/
def extendWithin : Nat → (floor : Nat) → (left : Expr) → Parse Expr
  | 0, _, _ => unexpected
  | fuel + 1, floor, left => do
    let kind ← peek
    if power kind ≤ floor then return left
    let token ← advance
    match binaryOperator? kind with
    | some operator =>
      let right ← exprWithin fuel (power kind)
      extendWithin fuel floor (.binary operator left right)
    | none =>
      if kind = .openParen then
        let arguments ← argumentsWithin fuel
        expectOr .closeParen "expected `)` after arguments"
        extendWithin fuel floor (.call left arguments)
      else
        match left with
        | .name target => extendWithin fuel floor (.assign target (← exprWithin fuel 0))
        | _ => throw ⟨.invalidAssignmentTarget, token.line⟩

def argumentsWithin : Nat → Parse (List Expr)
  | 0 => unexpected
  | fuel + 1 => do
    if (← peek) = .closeParen then return []
    someArgumentsWithin fuel

/-- Reads arguments until no comma follows. -/
def someArgumentsWithin : Nat → Parse (List Expr)
  | 0 => unexpected
  | fuel + 1 => do
    let first ← exprWithin fuel 0
    if (← peek) ≠ .comma then return [first]
    skip
    return first :: (← someArgumentsWithin fuel)

end

def expr : Parse Expr := withFuel fun fuel => exprWithin fuel 0

end LexScript.Parse
