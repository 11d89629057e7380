import LexScript.Number.Text
import LexScript.Scope.Stack
import LexScript.Tree.Program

/-!
# Values
-/

namespace LexScript

/-- A function at work: its declaration, and the frame in which it was declared. -/
structure Closure where
  header : FunctionHeader
  body : List Decl
  frame : FrameId

/-- Two closures are the same if they come from one declaration in one frame. -/
def Closure.same (c d : Closure) : Bool :=
  c.header.identifier.id = d.header.identifier.id && c.frame = d.frame

/-- The values of a run. `void` is what a call without a value gives. -/
inductive Value
  | number (value : Float)
  | boolean (value : Bool)
  | string (value : String)
  | function (closure : Closure)
  | void

namespace Value

def kindName : Value → String
  | number _ => "number"
  | boolean _ => "bool"
  | string _ => "string"
  | function _ => "function"
  | void => "void"

def text : Value → String
  | number x => Number.text x
  | boolean b => if b then "true" else "false"
  | string s => s
  | function c => "<fn " ++ c.header.identifier.name ++ ">"
  | void => "void"

/-- Equality as programs see it. Values of different kinds differ, and so does NaN from itself. -/
def same : Value → Value → Bool
  | number x, number y => x == y
  | boolean a, boolean b => a == b
  | string s, string t => s == t
  | function c, function d => c.same d
  | void, void => true
  | _, _ => false

end Value

def Literal.toValue : Literal → Value
  | number x => .number x
  | boolean b => .boolean b
  | string s => .string s

end LexScript
