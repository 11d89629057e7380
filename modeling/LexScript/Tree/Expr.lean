import LexScript.Ty

/-!
# Expressions
-/

namespace LexScript

inductive BinaryOperator
  | plus | minus | multiply | divide | modulo
  | and | or
  | notEqual | equal | greater | greaterEqual | less | lessEqual
  deriving DecidableEq

def BinaryOperator.symbol : BinaryOperator → String
  | plus => "+"
  | minus => "-"
  | multiply => "*"
  | divide => "/"
  | modulo => "%"
  | and => "&&"
  | or => "||"
  | notEqual => "!="
  | equal => "=="
  | greater => ">"
  | greaterEqual => ">="
  | less => "<"
  | lessEqual => "<="

inductive UnaryOperator
  | negate | not
  deriving DecidableEq

def UnaryOperator.symbol : UnaryOperator → String
  | negate => "-"
  | not => "!"

/-- A name in the source. Every occurrence has an identity of its own, by which later phases look up
what they know of it. -/
structure Identifier where
  name : String
  id : Nat
  deriving DecidableEq

inductive Literal
  | number (value : Float)
  | boolean (value : Bool)
  | string (value : String)

def Literal.type : Literal → Ty
  | number _ => .number
  | boolean _ => .boolean
  | string _ => .string

/-- Expressions. Parentheses leave no trace. -/
inductive Expr
  | literal (value : Literal)
  | name (identifier : Identifier)
  | assign (target : Identifier) (value : Expr)
  | unary (operator : UnaryOperator) (operand : Expr)
  | binary (operator : BinaryOperator) (left right : Expr)
  | call (callee : Expr) (arguments : List Expr)

end LexScript
