import LexScript.Scope.Stack

/-!
# The types of expressions

Typing an expression reads the types of the names in scope and changes nothing.
-/

namespace LexScript

/-- The type of an operation between two operands, if the operator accepts operands of these types.
Equality compares operands of any one type. -/
def BinaryOperator.resultType? : BinaryOperator → Ty → Ty → Option Ty
  | .plus, .string, .string => some .string
  | .multiply, .string, .number => some .string
  | .plus, .number, .number | .minus, .number, .number | .multiply, .number, .number
  | .divide, .number, .number | .modulo, .number, .number => some .number
  | .greater, .number, .number | .greaterEqual, .number, .number | .less, .number, .number
  | .lessEqual, .number, .number => some .boolean
  | .and, .boolean, .boolean | .or, .boolean, .boolean => some .boolean
  | .equal, left, right | .notEqual, left, right => if left = right then some .boolean else none
  | _, _, _ => none

def UnaryOperator.resultType? : UnaryOperator → Ty → Option Ty
  | .negate, .number => some .number
  | .not, .boolean => some .boolean
  | _, _ => none

namespace Typing

section

variable {m : Type → Type} [Monad m] [MonadExcept Error m] (lookup : Identifier → m Ty) (line : Nat)

def requireValue (type : Ty) : m Ty :=
  if type.isVoid then throw ⟨.voidValue, line⟩ else pure type

mutual

/-- Finds the type of an expression, given how the types of names are found. Every expression inside it
must have a value. -/
def typeExpr : Expr → m Ty
  | .literal value => pure value.type
  | .name identifier => lookup identifier
  | .assign target value => do
    let received ← requireValue line (← typeExpr value)
    let expected ← lookup target
    if received = expected then pure expected
    else throw ⟨.assignmentTypeMismatch expected.text received.text, line⟩
  | .unary operator operand => do
    let operand ← requireValue line (← typeExpr operand)
    match operator.resultType? operand with
    | some type => pure type
    | none => throw ⟨.invalidUnaryOperation operator.symbol operand.text, line⟩
  | .binary operator left right => do
    let left ← requireValue line (← typeExpr left)
    let right ← requireValue line (← typeExpr right)
    match operator.resultType? left right with
    | some type => pure type
    | none => throw ⟨.invalidBinaryOperation operator.symbol left.text right.text, line⟩
  | .call callee arguments => do
    match ← requireValue line (← typeExpr callee) with
    | .function parameters returns =>
      fitArguments parameters arguments
      pure returns
    | other => throw ⟨.notCallable other.text, line⟩

/-- Checks arguments against parameters, as far as both go: the number of arguments is free. -/
def fitArguments : List Ty → List Expr → m Unit
  | expected :: parameters, argument :: arguments => do
    let received ← requireValue line (← typeExpr argument)
    if received = expected then fitArguments parameters arguments
    else throw ⟨.argumentTypeMismatch expected.text received.text, line⟩
  | _, _ => pure ()

end

end

/-- What expressions are typed against: the addresses of the names, the types bound so far, and the
line that errors report. -/
structure Context where
  addresses : Resolutions
  scopes : ScopeStack Ty
  line : Nat

namespace Context

def lookup (c : Context) (identifier : Identifier) : Except Error Ty := do
  match c.scopes.get? (← c.addresses.find identifier c.line) with
  | some type => .ok type
  | none => .error ⟨.typeNotKnown identifier.name, c.line⟩

def typeOf (c : Context) (e : Expr) : Except Error Ty := typeExpr c.lookup c.line e

def valueTypeOf (c : Context) (e : Expr) : Except Error Ty := do requireValue c.line (← c.typeOf e)

end Context
end Typing
end LexScript
