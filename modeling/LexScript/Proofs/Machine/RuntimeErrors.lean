import LexScript.Proofs.Machine.Addresses
import LexScript.Proofs.Value.Operator

/-!
# Runs only raise errors of their own

Every name that a run looks up or binds has an address, so no error of a run is about a name that is not
declared: `Run.error_kind`.
-/

namespace LexScript

def Outcome.Runtime : Outcome → Prop
  | .failed e => e.kind = .runtime
  | _ => True

def Control.Runtime : Control → Prop
  | .ended outcome => outcome.Runtime
  | _ => True

variable {setting : Setting} {program : Program} {h : History} {m : Machine}
  {activations : List Activation} {k : List Continuation} {σ : Store}

theorem Outcome.ofResult_runtime {r : Except Cause Value}
    (h : ∀ cause, r = .error cause → cause.OfOperation) (line : Nat) :
    (Outcome.ofResult line r).Runtime := by
  cases r with
  | ok v => trivial
  | error cause => exact (h cause rfl).kind

/-- Names that have addresses are all bound. -/
theorem Store.bind_eq_normal {addresses : Resolutions} {bs : List Binding}
    (hbs : ∀ b ∈ bs, ∃ a, addresses.get? b.identifier.id = some a) (σ : Store) :
    (σ.bind addresses bs).1 = .normal := by
  induction bs generalizing σ with
  | nil => rfl
  | cons b bs ih =>
    rw [List.forall_mem_cons] at hbs
    rcases hbs with ⟨⟨a, ha⟩, hrest⟩
    simpa [Store.bind, Resolutions.find_of_get? ha] using ih hrest _

theorem Closure.answer_runtime {c : Closure} {outcome : Outcome} (h : outcome.Runtime) (line : Nat) :
    (c.answer line outcome).Runtime := by
  cases outcome with
  | normal =>
    rw [Closure.answer]
    split
    · trivial
    · rfl
  | _ => exact h

section

variable (hids : program.DistinctIdentities)
  (haddresses : Resolutions.ofProgram program = .ok setting.addresses)
include hids haddresses

theorem Store.read_runtime {n : Identifier} {line : Nat} {places : List Place}
    (huse : .use n line places ∈ program.occurrences) (σ : Store) :
    (σ.read setting.addresses n line).Runtime := by
  obtain ⟨distance, place, -, hget⟩ := Resolutions.get?_use hids haddresses huse
  rw [Store.read, Resolutions.find_of_get? hget]
  simp only
  split
  · trivial
  · rfl

theorem Store.assign_runtime {n : Identifier} {line : Nat} {places : List Place}
    (huse : .use n line places ∈ program.occurrences) (σ : Store) (v : Value) (assignedLine : Nat) :
    (σ.assign setting.addresses n v assignedLine).1.Runtime := by
  obtain ⟨distance, place, -, hget⟩ := Resolutions.get?_use hids haddresses huse
  rw [Store.assign_eq, Resolutions.find_of_get? hget]
  simp only
  split
  · trivial
  · rfl

/-- The functions of a scope that is entered have addresses, and so do the parameters of a call. -/
theorem ScopeStack.Scoped.bind_functions (hσ : σ.scopes.Scoped program activations) {a : Activation}
    (ha : activations[σ.scopes.current]? = some a) :
    (σ.bind setting.addresses (Binding.ofFunctions σ.scopes.current a.scope.declarations)).1 =
      .normal := by
  obtain ⟨outer, -, hopening, -⟩ := hσ.activation _ _ ha
  have hget : ∀ b ∈ Binding.ofFunctions σ.scopes.current a.scope.declarations,
      ∃ address, setting.addresses.get? b.identifier.id = some address := by
    intro b hb
    have hearly := Binding.early_of_mem_ofFunctions hb
    exact ⟨_, Resolutions.get?_early hids haddresses hopening hearly⟩
  exact Store.bind_eq_normal hget σ

theorem ScopeStack.Scoped.bind_parameters (hσ : σ.scopes.Scoped program activations) {c : Closure}
    (hc : c.Scoped activations) (arguments : List Value) (line : Nat) (τ : Store) :
    (τ.bind setting.addresses (Binding.ofArguments c.header.parameters arguments line)).1 =
      .normal := by
  obtain ⟨outer, -, hopening, -⟩ := hσ.function hc
  have hget : ∀ b ∈ Binding.ofArguments c.header.parameters arguments line,
      ∃ address, setting.addresses.get? b.identifier.id = some address := by
    intro b hb
    have hearly := Binding.early_of_mem_ofArguments c.body hb
    exact ⟨_, Resolutions.get?_early hids haddresses hopening hearly⟩
  exact Store.bind_eq_normal hget τ

/-- The body of a function begins in the new frame of the call. -/
theorem Machine.Scoped.body_begins {closure : Closure} {arguments : List Value} {line : Nat}
    (hm : Machine.Scoped program activations ⟨.call closure arguments line, k, σ⟩)
    (hdepth : ¬ setting.maxCallDepth ≤ σ.depth) :
    (Machine.call setting k σ closure arguments line).control = .enter closure.body ∧
      (Machine.call setting k σ closure arguments line).store.scopes.current =
        σ.scopes.frames.size := by
  have hnormal := hm.scopes.bind_parameters hids haddresses hm.control.1 arguments line
    (σ.enterCall closure.frame)
  rw [Machine.call_of_lt hdepth]
  exact ⟨congrArg closure.begin hnormal, Store.current_bind ..⟩

theorem Continuation.Scoped.resume_runtime {c : Continuation} {outcome : Outcome}
    (hc : c.Scoped program activations σ.scopes.current) (ho : outcome.Runtime) :
    (Machine.resume setting k σ c outcome).control.Runtime := by
  rcases c.accepts_or_passes outcome with haccepts | hpasses
  · cases haccepts with
    | binary operator left line right =>
      exact Outcome.ofResult_runtime (fun cause hcause => BinaryOperator.apply_error hcause) line
    | unary operator line operand =>
      exact Outcome.ofResult_runtime (fun cause hcause => UnaryOperator.apply_error hcause) line
    | assign target line v =>
      rcases hc with ⟨places, -, huse⟩
      exact Store.assign_runtime hids haddresses huse σ v line
    | callee arguments line v =>
      cases v with
      | function closure => cases arguments <;> trivial
      | _ => rfl
    | argument closure values rest line v => cases rest <;> trivial
    | print line v =>
      rw [Machine.resume, Store.print]
      simp only
      split
      · trivial
      · rfl
    | branch line thenBranch elseBranch v =>
      cases v with
      | boolean b => cases b <;> cases elseBranch <;> trivial
      | _ => rfl
    | test loop v =>
      cases v with
      | boolean b => cases b <;> trivial
      | _ => rfl
    | step loop =>
      obtain ⟨line, condition, step, body⟩ := loop
      cases step <;> trivial
    | bind identifier line v =>
      rcases hc with ⟨a, -, hbinding⟩
      have hget := Resolutions.get?_binding hids haddresses hbinding
      have hnormal : (σ.bind setting.addresses [⟨identifier, v, line⟩]).1 = .normal :=
        Store.bind_eq_normal (List.forall_mem_singleton.2 ⟨_, hget⟩) σ
      change (σ.bind setting.addresses [⟨identifier, v, line⟩]).1.Runtime
      rw [hnormal]
      trivial
    | sequence d ds => cases d <;> trivial
    | leave frame outcome => exact ho
    | endCall frame closure line outcome => exact closure.answer_runtime ho line
    | _ => trivial
  · rw [hpasses.resume]
    exact ho

theorem Machine.Scoped.step_runtime (hm : m.Scoped program activations) (hcontrol : m.control.Runtime) :
    (m.step setting).control.Runtime := by
  obtain ⟨control, k, σ⟩ := m
  rcases hm with ⟨hσ, hscoped, hk⟩
  cases control with
  | eval line e =>
    cases e with
    | name identifier =>
      rcases hscoped with ⟨places, -, huse⟩
      exact Store.read_runtime hids haddresses (huse (List.mem_singleton_self _)) σ
    | _ => trivial
  | exec s =>
    cases s with
    | ret line value => cases value <;> trivial
    | _ => trivial
  | enter declarations =>
    rcases hscoped with ⟨a, ha, rfl⟩
    have hnormal := hσ.bind_functions hids haddresses ha
    change (σ.bind setting.addresses
      (Binding.ofFunctions σ.scopes.current a.scope.declarations)).1.Runtime
    rw [hnormal]
    trivial
  | call closure arguments line =>
    change (Machine.call setting k σ closure arguments line).control.Runtime
    by_cases hdepth : setting.maxCallDepth ≤ σ.depth
    · rw [call_of_le hdepth]
      rfl
    · rw [call_of_lt hdepth]
      simp only
      rw [hσ.bind_parameters hids haddresses hscoped.1]
      trivial
  | ended outcome =>
    cases k with
    | nil => exact hcontrol
    | cons c k => exact hk.1.resume_runtime hids haddresses hcontrol

/-- Every error of a run is one of running. -/
theorem Run.error_kind (hrun : Run setting program m h) {e : Error}
    (he : m.control = .ended (.failed e)) : e.kind = .runtime := by
  have hruntime : m.control.Runtime := by
    clear he
    induction hrun with
    | start sink => trivial
    | step before ih => exact before.scoped.step_runtime hids haddresses ih
    | again before finished sink ih => trivial
  rw [he] at hruntime
  exact hruntime

end
end LexScript
