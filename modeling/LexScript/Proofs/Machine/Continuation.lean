import LexScript.Machine.Step
import Mathlib.Logic.Function.Iterate

/-!
# Outcomes and continuations

A continuation acts on the outcomes that it accepts; any other outcome passes it by. Only the end of a
scope and the end of a call change the current frame, and these accept every outcome.
-/

namespace LexScript

namespace Continuation

inductive Accepts : Continuation → Outcome → Prop
  | operand (operator : BinaryOperator) (right : Expr) (line : Nat) (left : Value) :
    Accepts (.operand operator right line) (.value left)
  | binary (operator : BinaryOperator) (left : Value) (line : Nat) (right : Value) :
    Accepts (.binary operator left line) (.value right)
  | unary (operator : UnaryOperator) (line : Nat) (operand : Value) :
    Accepts (.unary operator line) (.value operand)
  | assign (target : Identifier) (line : Nat) (v : Value) : Accepts (.assign target line) (.value v)
  | callee (arguments : List Expr) (line : Nat) (v : Value) :
    Accepts (.callee arguments line) (.value v)
  | argument (closure : Closure) (values : List Value) (rest : List Expr) (line : Nat) (v : Value) :
    Accepts (.argument closure values rest line) (.value v)
  | discard (v : Value) : Accepts .discard (.value v)
  | print (line : Nat) (v : Value) : Accepts (.print line) (.value v)
  | branch (line : Nat) (thenBranch : Stmt) (elseBranch : Option Stmt) (v : Value) :
    Accepts (.branch line thenBranch elseBranch) (.value v)
  | test (loop : Loop) (v : Value) : Accepts (.test loop) (.value v)
  | step (loop : Loop) : Accepts (.step loop) .normal
  | again (loop : Loop) : Accepts (.again loop) .normal
  | ret (v : Value) : Accepts .ret (.value v)
  | bind (identifier : Identifier) (line : Nat) (v : Value) :
    Accepts (.bind identifier line) (.value v)
  | sequence (d : Decl) (ds : List Decl) : Accepts (.sequence (d :: ds)) .normal
  | leave (frame : FrameId) (outcome : Outcome) : Accepts (.leave frame) outcome
  | endCall (frame : FrameId) (closure : Closure) (line : Nat) (outcome : Outcome) :
    Accepts (.endCall frame closure line) outcome

/-- The frame that is current after a continuation, if this one is before. -/
def after (f : FrameId) : Continuation → FrameId
  | .leave g | .endCall g _ _ => g
  | _ => f

/-- An outcome that a continuation does not accept passes it by. -/
structure Passes (c : Continuation) (outcome : Outcome) : Prop where
  not_accepts : ¬ c.Accepts outcome
  resume : ∀ setting k σ, Machine.resume setting k σ c outcome = ⟨.ended outcome, k, σ⟩
  after : ∀ f, c.after f = f

theorem accepts_or_passes (c : Continuation) (outcome : Outcome) :
    c.Accepts outcome ∨ c.Passes outcome := by
  cases c with
  | step loop | again loop =>
    cases outcome with
    | normal => exact .inl (by constructor)
    | _ => exact .inr ⟨by rintro ⟨⟩, fun _ _ _ => rfl, fun _ => rfl⟩
  | sequence rest =>
    cases rest with
    | nil => exact .inr ⟨by rintro ⟨⟩, fun _ _ _ => rfl, fun _ => rfl⟩
    | cons d ds =>
      cases outcome with
      | normal => exact .inl (.sequence d ds)
      | _ => exact .inr ⟨by rintro ⟨⟩, fun _ _ _ => rfl, fun _ => rfl⟩
  | leave frame => exact .inl (.leave frame outcome)
  | endCall frame closure line => exact .inl (.endCall frame closure line outcome)
  | _ =>
    cases outcome with
    | value v => exact .inl (by constructor)
    | _ => exact .inr ⟨by rintro ⟨⟩, fun _ _ _ => rfl, fun _ => rfl⟩

end Continuation

def Closure.begin (c : Closure) : Outcome → Control
  | .normal => .enter c.body
  | outcome => .ended outcome

namespace Machine

variable {setting : Setting} {k : List Continuation} {σ : Store} {closure : Closure}
  {arguments : List Value} {line : Nat}

theorem call_of_le (h : setting.maxCallDepth ≤ σ.depth) :
    call setting k σ closure arguments line =
      ⟨.ended (.failed ⟨.recursionLimitExceeded setting.maxCallDepth, line⟩), k, σ⟩ :=
  if_pos h

theorem call_of_lt (h : ¬ setting.maxCallDepth ≤ σ.depth) :
    call setting k σ closure arguments line =
      let bound := (σ.enterCall closure.frame).bind setting.addresses
        (Binding.ofArguments closure.header.parameters arguments line)
      ⟨closure.begin bound.1, .endCall σ.scopes.current closure line :: k, bound.2⟩ := by
  rw [call, if_neg h]
  dsimp only
  obtain ⟨outcome, τ⟩ := (σ.enterCall closure.frame).bind setting.addresses
    (Binding.ofArguments closure.header.parameters arguments line)
  cases outcome <;> rfl

/-- A run that is over has an outcome and nothing left to do. -/
theorem of_outcome? {m : Machine} {outcome : Outcome} (h : m.outcome? = some outcome) :
    m.control = .ended outcome ∧ m.stack = [] := by
  rw [outcome?] at h
  split at h
  · rename_i hcontrol hstack
    obtain rfl := Option.some.inj h
    exact ⟨hcontrol, hstack⟩
  · cases h

theorem step_of_outcome? {m : Machine} (h : m.outcome?.isSome) : m.step setting = m := by
  obtain ⟨outcome, houtcome⟩ := Option.isSome_iff_exists.1 h
  obtain ⟨hcontrol, hstack⟩ := of_outcome? houtcome
  obtain ⟨control, k, σ⟩ := m
  obtain rfl := hcontrol
  obtain rfl := hstack
  rfl

/-- A run that is over stays as it is, so a run is its steps one after the other. -/
theorem run_eq_iterate (setting : Setting) (steps : Nat) (m : Machine) :
    m.run setting steps = (Machine.step setting)^[steps] m := by
  induction steps generalizing m with
  | zero => rfl
  | succ steps ih =>
    rw [Machine.run, Function.iterate_succ_apply]
    split
    · rename_i hover
      simp [step_of_outcome? hover, Function.iterate_fixed (step_of_outcome? hover)]
    · exact ih _

theorem run_succ (setting : Setting) (steps : Nat) (m : Machine) :
    m.run setting (steps + 1) = (m.run setting steps).step setting := by
  simp [run_eq_iterate, Function.iterate_succ_apply']

theorem run_step (setting : Setting) (steps : Nat) (m : Machine) :
    (m.step setting).run setting steps = m.run setting (steps + 1) := by
  simp [run_eq_iterate]

theorem run_add (setting : Setting) (steps more : Nat) (m : Machine) :
    m.run setting (steps + more) = (m.run setting steps).run setting more := by
  rw [run_eq_iterate, run_eq_iterate, run_eq_iterate, Nat.add_comm, Function.iterate_add_apply]

theorem run_over {m : Machine} {steps : Nat} (h : (m.run setting steps).outcome?.isSome) (more : Nat) :
    m.run setting (steps + more) = m.run setting steps := by
  simpa [run_add, run_eq_iterate setting more] using Function.iterate_fixed (step_of_outcome? h) more

end Machine
end LexScript
