import LexScript.Text.Characters

/-!
# Errors

Every error has a cause and a line. The cause fixes the kind, which names the phase that found it, and
the wording.
-/

namespace LexScript

inductive ErrorKind
  | reading
  | resolution
  | typing
  | runtime
  deriving DecidableEq

def ErrorKind.name : ErrorKind → String
  | reading => "SyntaxError"
  | resolution => "ResolveError"
  | typing => "TypeError"
  | runtime => "RuntimeError"

/-- What went wrong. The fields are the texts that the message quotes. -/
inductive Cause
  | unrecognisedToken (token : String)
  | unexpectedToken (token : String)
  | unexpectedTokenBecause (token message : String)
  | malformedNumber (token : String)
  | invalidAssignmentTarget
  | variableNotDeclared (variableName : String)
  | invalidBinaryOperation (operator left right : String)
  | invalidUnaryOperation (operator operand : String)
  | assignmentTypeMismatch (expected received : String)
  | declarationTypeMismatch (expected received : String)
  | functionRedeclarationMismatch (previous received : String)
  | variableRedeclarationMismatch (variableName previous received : String)
  | notCallable (type : String)
  | argumentTypeMismatch (expected received : String)
  | invalidCondition (type : String)
  | returnTypeMismatch (expected received : String)
  | returnOutsideFunction
  | voidValue
  | typeNotKnown (variableName : String)
  | divisionByZero
  | undefinedVariable (variableName : String)
  | notAFunction (value : String)
  | invalidOperands (operator left right : String)
  | invalidOperand (operator operand : String)
  | invalidConditionValue (value : String)
  | missingReturn (function : String)
  | repeatTooLarge (count : String) (limit : Nat)
  | recursionLimitExceeded (limit : Nat)
  | outputFailed (message : String)
  deriving DecidableEq

namespace Cause

def kind : Cause → ErrorKind
  | unrecognisedToken _ | unexpectedToken _ | unexpectedTokenBecause .. | malformedNumber _
  | invalidAssignmentTarget => .reading
  | variableNotDeclared _ => .resolution
  | invalidBinaryOperation .. | invalidUnaryOperation .. | assignmentTypeMismatch ..
  | declarationTypeMismatch .. | functionRedeclarationMismatch ..
  | variableRedeclarationMismatch .. | notCallable _ | argumentTypeMismatch ..
  | invalidCondition _ | returnTypeMismatch .. | returnOutsideFunction | voidValue
  | typeNotKnown _ => .typing
  | divisionByZero | undefinedVariable _ | notAFunction _ | invalidOperands .. | invalidOperand ..
  | invalidConditionValue _ | missingReturn _ | repeatTooLarge .. | recursionLimitExceeded _
  | outputFailed _ => .runtime

/-- The wording of the cause. Source text is quoted, types and operators are not. -/
def detail : Cause → String
  | unrecognisedToken token => s!"unrecognised token {Text.quoted token}"
  | unexpectedToken token => s!"unexpected token {Text.quoted token}"
  | unexpectedTokenBecause token message => s!"unexpected token {Text.quoted token}, {message}"
  | malformedNumber token => s!"invalid number {Text.quoted token}"
  | invalidAssignmentTarget => "invalid assignment target"
  | variableNotDeclared variableName => s!"variable {Text.quoted variableName} is not declared"
  | invalidBinaryOperation operator left right =>
    s!"invalid {operator} operation between {left} and {right}"
  | invalidUnaryOperation operator operand => s!"invalid {operator} operation for {operand}"
  | assignmentTypeMismatch expected received =>
    s!"invalid variable assignment with type {received} for type {expected}"
  | declarationTypeMismatch expected received =>
    s!"invalid variable declaration with type {expected} for type {received}"
  | functionRedeclarationMismatch previous received =>
    s!"invalid function declaration with type {received} for type {previous}"
  | variableRedeclarationMismatch variableName previous received =>
    s!"invalid redeclaration of {Text.quoted variableName} with type {received}, " ++
      s!"already declared as {previous}"
  | notCallable type => s!"invalid {type} type is not a function"
  | argumentTypeMismatch expected received =>
    s!"invalid argument of type {received} for parameter of type {expected}"
  | invalidCondition type => s!"invalid type for condition: {type}"
  | returnTypeMismatch expected received =>
    s!"invalid return of type {received} for function returning {expected}"
  | returnOutsideFunction => "return outside of function"
  | voidValue => "void value can not be used"
  | typeNotKnown variableName =>
    s!"type of {Text.quoted variableName} is not known at this point"
  | divisionByZero => "can not do division by zero"
  | undefinedVariable variableName => s!"variable {Text.quoted variableName} is not defined"
  | notAFunction value => s!"{value} is not a function"
  | invalidOperands operator left right =>
    s!"invalid {operator} operation between {left} and {right}"
  | invalidOperand operator operand => s!"invalid {operator} operation for {operand}"
  | invalidConditionValue value => s!"condition must be a boolean, found {value}"
  | missingReturn function => s!"function {function} ended without returning a value"
  | repeatTooLarge count limit => s!"string repeated {count} times would exceed {limit} bytes"
  | recursionLimitExceeded limit => s!"maximum call depth of {limit} exceeded"
  | outputFailed message => s!"failed to write output: {message}"

end Cause

structure Error where
  cause : Cause
  line : Nat
  deriving DecidableEq

namespace Error

def kind (e : Error) : ErrorKind := e.cause.kind

/-- The full text: kind, wording and line. -/
def message (e : Error) : String :=
  e.kind.name ++ ": " ++ e.cause.detail ++ " at line " ++ toString e.line

end Error
end LexScript
