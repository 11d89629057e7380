import LexScript.Value

/-!
# The state of a run

A run is a sequence of small steps. What is left to do is a list of continuations, each of which waits
for the outcome of what runs before it.
-/

namespace LexScript

/-- Where printed lines go. A sink with limited room takes that many more lines and refuses the
next. -/
structure Sink where
  lines : Array String
  room : Option Nat

namespace Sink

def unlimited : Sink := ⟨#[], none⟩

/-- Writes a line, and tells whether there was room for it. -/
def write (s : Sink) (line : String) : Bool × Sink :=
  match s with
  | ⟨lines, none⟩ => (true, ⟨lines.push line, none⟩)
  | ⟨lines, some 0⟩ => (false, ⟨lines, some 0⟩)
  | ⟨lines, some (room + 1)⟩ => (true, ⟨lines.push line, some room⟩)

def text (s : Sink) : String := s.lines.foldl (fun text line => text ++ line ++ "\n") ""

def drained (s : Sink) : Sink := { s with lines := #[] }

end Sink

/-- What a run changes: the bindings, the number of calls in progress, and the output. -/
structure Store where
  scopes : ScopeStack Value
  depth : Nat
  sink : Sink

namespace Store

def start (sink : Sink) : Store := ⟨.global, 0, sink⟩

def drained (σ : Store) : Store := { σ with sink := σ.sink.drained }

end Store

/-- How a part of a run ends: an expression with a value, a statement at its end or with a return, and
either with an error. -/
inductive Outcome
  | value (v : Value)
  | normal
  | returned (v : Value)
  | failed (e : Error)

/-- A loop. The step runs after the body, on a line of its own. -/
structure Loop where
  line : Nat
  condition : Expr
  step : Option (Nat × Expr)
  body : Stmt

/-- What is to be done with the outcome of a part of a run. -/
inductive Continuation
  /-- Awaits the left operand, to go on with the right one. -/
  | operand (operator : BinaryOperator) (right : Expr) (line : Nat)
  /-- Awaits the right operand. -/
  | binary (operator : BinaryOperator) (left : Value) (line : Nat)
  /-- Awaits the operand. -/
  | unary (operator : UnaryOperator) (line : Nat)
  /-- Awaits the value to assign. -/
  | assign (target : Identifier) (line : Nat)
  /-- Awaits the function to call. -/
  | callee (arguments : List Expr) (line : Nat)
  /-- Awaits an argument. The values of those before it are kept with the last one first. -/
  | argument (closure : Closure) (values : List Value) (rest : List Expr) (line : Nat)
  /-- Awaits a value that is of no use. -/
  | discard
  /-- Awaits the value to print. -/
  | print (line : Nat)
  /-- Awaits the condition. -/
  | branch (line : Nat) (thenBranch : Stmt) (elseBranch : Option Stmt)
  /-- Awaits the condition of a loop. -/
  | test (loop : Loop)
  /-- Awaits the end of the body of a loop, to take the step. -/
  | step (loop : Loop)
  /-- Awaits the end of what comes before the condition of a loop. -/
  | again (loop : Loop)
  /-- Awaits the value to return. -/
  | ret
  /-- Awaits the first value of a variable. -/
  | bind (identifier : Identifier) (line : Nat)
  /-- Awaits the end of a declaration, to go on with those after it. -/
  | sequence (rest : List Decl)
  /-- Awaits the end of a scope, to make the frame around it current again. -/
  | leave (frame : FrameId)
  /-- Awaits the end of a call, to make the frame of the caller current again. -/
  | endCall (frame : FrameId) (closure : Closure) (line : Nat)

/-- What a run does next. -/
inductive Control
  /-- Evaluates an expression. -/
  | eval (line : Nat) (e : Expr)
  /-- Executes a statement. -/
  | exec (s : Stmt)
  /-- Runs the declarations of a scope, functions first. -/
  | enter (declarations : List Decl)
  /-- Calls a function. -/
  | call (closure : Closure) (arguments : List Value) (line : Nat)
  /-- Hands an outcome to the next continuation. -/
  | ended (outcome : Outcome)

structure Machine where
  control : Control
  stack : List Continuation
  store : Store

namespace Machine

def outcome? (m : Machine) : Option Outcome :=
  match m.control, m.stack with
  | .ended outcome, [] => some outcome
  | _, _ => none

def error? (m : Machine) : Option Error :=
  match m.outcome? with
  | some (.failed e) => some e
  | _ => none

end Machine
end LexScript
