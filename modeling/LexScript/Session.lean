import LexScript.Machine.Step
import LexScript.Typing.Program

/-!
# Sessions

A session takes the declarations of a program one at a time, checks each and runs it, and keeps the
types and the bindings for the next. An error ends only the check or the run that it belongs to.
-/

namespace LexScript

structure Session where
  types : Typing.State
  store : Store

namespace Session

def start : Session := ⟨.start, .start .unlimited⟩

/-- What a session answers: an expression has a type and a value, any other declaration an error or
none. -/
inductive Reply
  | expression (type : Except Error Ty) (value : Except Error Value)
  | declaration (check run : Option Error)

def result : Option Outcome → Except Error Value
  | some (.value v) | some (.returned v) => .ok v
  | some (.failed e) => .error e
  | some .normal | none => .ok .void

def evaluate (setting : Setting) (steps : Nat) (line : Nat) (e : Expr) (s : Session) :
    Reply × Session :=
  let context : Typing.Context := ⟨setting.addresses, s.types.scopes, line⟩
  let finish := Machine.run setting steps ⟨.eval line e, [], s.store⟩
  (.expression (context.typeOf e) (result finish.outcome?), { s with store := finish.store })

/-- Checks and runs a declaration as if it were a whole program. -/
def declare (setting : Setting) (steps : Nat) (d : Decl) (s : Session) : Reply × Session :=
  let finish := Machine.run setting steps ⟨.enter [d], [], s.store⟩
  let (error, types) :=
    match Typing.Check.declarations setting.addresses [d] s.types with
    | .ok () types => (none, types)
    | .error e types => (some e, types)
  (.declaration error finish.error?, ⟨types, finish.store⟩)

def next (setting : Setting) (steps : Nat) (d : Decl) (s : Session) : Reply × Session :=
  match d with
  | .statement (.expression line e) => s.evaluate setting steps line e
  | d => s.declare setting steps d

end Session
end LexScript
