import LexScript.Proofs.Machine.RuntimeErrors

/-!
# Where errors come from

A step hands on the error that it finds, or it raises one: for a name without an address, for a name
without a value, for a call too many, or for values with which an operation can do nothing.
`Machine.raised` says what there was at the moment before an error.
-/

namespace LexScript

/-- The name is looked up next, on the line: it is evaluated, or it is the target of an assignment whose
value is known. -/
def Machine.LooksUpAt (m : Machine) (n : Identifier) (line : Nat) : Prop :=
  m.control = .eval line (.name n) ∨
    ∃ v k, m.control = .ended (.value v) ∧ m.stack = .assign n line :: k

def Machine.Refuses (setting : Setting) (m : Machine) : Prop :=
  ∃ closure arguments line, m.control = .call closure arguments line ∧
    setting.maxCallDepth ≤ m.store.depth

/-- The causes of errors that only depend on values and on where they are printed. -/
def Cause.OfValues : Cause → Prop
  | .notAFunction _ | .invalidConditionValue _ | .missingReturn _ | .outputFailed _ => True
  | cause => cause.OfOperation

inductive Machine.Raises (setting : Setting) (m : Machine) : Error → Prop
  | undeclared {i : Identifier} (line : Nat) (address : setting.addresses.get? i.id = none) :
    Raises setting m ⟨.variableNotDeclared i.name, line⟩
  | undefined {n : Identifier} {line : Nat} {a : Address} (looks : m.LooksUpAt n line)
    (address : setting.addresses.get? n.id = some a) (empty : m.store.scopes.get? a = none) :
    Raises setting m ⟨.undefinedVariable n.name, line⟩
  | refused (line : Nat) (refuses : m.Refuses setting) :
    Raises setting m ⟨.recursionLimitExceeded setting.maxCallDepth, line⟩
  | values {cause : Cause} (line : Nat) (values : cause.OfValues) : Raises setting m ⟨cause, line⟩

/-- If this is an error, the step from here raises it. -/
def Outcome.RaisedAt (setting : Setting) (m : Machine) : Outcome → Prop
  | .failed e => m.Raises setting e
  | _ => True

/-- If this is an error, it was there already, or the step from here raises it. -/
def Control.RaisedAt (setting : Setting) (m : Machine) : Control → Prop
  | .ended outcome => m.control = .ended outcome ∨ outcome.RaisedAt setting m
  | _ => True

variable {setting : Setting} {m : Machine} {k : List Continuation} {σ τ : Store}

theorem Cause.OfOperation.ofValues {cause : Cause} (h : cause.OfOperation) : cause.OfValues := by
  cases cause with
  | divisionByZero | repeatTooLarge | invalidOperands | invalidOperand => trivial
  | _ => exact h.elim

theorem Resolutions.find_error {addresses : Resolutions} {i : Identifier} {line : Nat} {e : Error}
    (h : addresses.find i line = .error e) :
    addresses.get? i.id = none ∧ e = ⟨.variableNotDeclared i.name, line⟩ := by
  rw [find] at h
  split at h
  · cases h
  · rename_i hget
    exact ⟨hget, (Except.error.inj h).symm⟩

theorem Resolutions.find_ok {addresses : Resolutions} {i : Identifier} {line : Nat} {a : Address}
    (h : addresses.find i line = .ok a) : addresses.get? i.id = some a := by
  rw [find] at h
  split at h
  · rename_i hget
    exact hget.trans (congrArg some (Except.ok.inj h))
  · cases h

namespace Outcome

theorem raisedAt_of_find {i : Identifier} {line : Nat} {e : Error}
    (h : setting.addresses.find i line = .error e) : (Outcome.failed e).RaisedAt setting m := by
  obtain ⟨hget, rfl⟩ := Resolutions.find_error h
  exact .undeclared line hget

theorem raisedAt_ofResult {r : Except Cause Value}
    (h : ∀ cause, r = .error cause → cause.OfOperation) (line : Nat) :
    (Outcome.ofResult line r).RaisedAt setting m := by
  cases r with
  | ok v => trivial
  | error cause => exact .values line (h cause rfl).ofValues

end Outcome

theorem Closure.begin_raisedAt (c : Closure) {outcome : Outcome} (h : outcome.RaisedAt setting m) :
    (c.begin outcome).RaisedAt setting m := by
  cases outcome with
  | normal => trivial
  | _ => exact .inr h

namespace Store

theorem bind_raisedAt (bs : List Binding) (σ : Store) :
    (σ.bind setting.addresses bs).1.RaisedAt setting m := by
  induction bs generalizing σ with
  | nil => trivial
  | cons b bs ih =>
    rw [Store.bind]
    cases hfind : setting.addresses.find b.identifier b.line with
    | error e => exact Outcome.raisedAt_of_find hfind
    | ok a => exact ih _

theorem read_raisedAt (n : Identifier) (line : Nat) :
    (σ.read setting.addresses n line).RaisedAt setting ⟨.eval line (.name n), k, σ⟩ := by
  rw [read]
  cases hfind : setting.addresses.find n line with
  | error e => exact Outcome.raisedAt_of_find hfind
  | ok a =>
    simp only
    split
    · trivial
    · rename_i hempty
      exact .undefined (.inl rfl) (Resolutions.find_ok hfind) hempty

theorem assign_raisedAt (n : Identifier) (v : Value) (line : Nat) :
    (σ.assign setting.addresses n v line).1.RaisedAt setting
      ⟨.ended (.value v), .assign n line :: k, σ⟩ := by
  rw [assign_eq]
  cases hfind : setting.addresses.find n line with
  | error e => exact Outcome.raisedAt_of_find hfind
  | ok a =>
    simp only
    split
    · trivial
    · rename_i hlocate
      exact .undefined (.inr ⟨v, k, rfl, rfl⟩) (Resolutions.find_ok hfind)
        (ScopeStack.get?_of_locate? hlocate)

theorem print_raisedAt (v : Value) (line : Nat) : (σ.print v line).1.RaisedAt setting m := by
  rw [print]
  simp only
  split
  · trivial
  · exact .values line trivial

end Store

namespace Machine

theorem nextArgument_raisedAt (closure : Closure) (values : List Value) (line : Nat)
    (rest : List Expr) : (nextArgument k τ closure values line rest).control.RaisedAt setting m := by
  cases rest <;> trivial

theorem badCondition_raisedAt (v : Value) (line : Nat) :
    (badCondition k τ v line).control.RaisedAt setting m :=
  .inr (.values line trivial)

theorem resume_raisedAt (c : Continuation) (outcome : Outcome) :
    (resume setting k σ c outcome).control.RaisedAt setting ⟨.ended outcome, c :: k, σ⟩ := by
  rcases c.accepts_or_passes outcome with haccepts | hpasses
  · cases haccepts with
    | binary operator left line right =>
      exact .inr (Outcome.raisedAt_ofResult (fun _ => BinaryOperator.apply_error) line)
    | unary operator line operand =>
      exact .inr (Outcome.raisedAt_ofResult (fun _ => UnaryOperator.apply_error) line)
    | assign target line v => exact .inr (Store.assign_raisedAt target v line)
    | callee arguments line v =>
      cases v with
      | function closure => exact nextArgument_raisedAt closure [] line arguments
      | _ => exact .inr (.values line trivial)
    | argument closure values rest line v => exact nextArgument_raisedAt closure _ line rest
    | print line v => exact .inr (Store.print_raisedAt v line)
    | branch line thenBranch elseBranch v =>
      cases v with
      | boolean b => cases b <;> cases elseBranch <;> first | trivial | exact .inr trivial
      | _ => exact badCondition_raisedAt _ line
    | test loop v =>
      cases v with
      | boolean b =>
        cases b with
        | true => trivial
        | false => exact .inr trivial
      | _ => exact badCondition_raisedAt _ loop.line
    | step loop =>
      obtain ⟨line, condition, step, body⟩ := loop
      cases step <;> trivial
    | again loop => trivial
    | operand operator right line left => trivial
    | bind identifier line v => exact .inr (Store.bind_raisedAt [⟨identifier, v, line⟩] σ)
    | sequence d ds =>
      cases d with
      | binding | statement => trivial
      | function | forward => exact .inr trivial
    | leave frame => exact .inl rfl
    | endCall frame closure line =>
      cases outcome with
      | normal =>
        refine .inr ?_
        rw [Closure.answer]
        split
        · trivial
        · exact .values line trivial
      | failed e => exact .inl rfl
      | _ => exact .inr trivial
    | _ => exact .inr trivial
  · rw [hpasses.resume]
    exact .inl rfl

theorem call_raisedAt (closure : Closure) (arguments : List Value) (line : Nat) :
    (call setting k σ closure arguments line).control.RaisedAt setting
      ⟨.call closure arguments line, k, σ⟩ := by
  by_cases hdepth : setting.maxCallDepth ≤ σ.depth
  · rw [call_of_le hdepth]
    exact .inr (.refused line ⟨_, _, _, rfl, hdepth⟩)
  · rw [call_of_lt hdepth]
    exact closure.begin_raisedAt (Store.bind_raisedAt ..)

theorem step_raisedAt (setting : Setting) (m : Machine) :
    (m.step setting).control.RaisedAt setting m := by
  obtain ⟨control, k, σ⟩ := m
  cases control with
  | eval line e =>
    cases e with
    | literal literal => exact .inr trivial
    | name n => exact .inr (Store.read_raisedAt n line)
    | _ => trivial
  | exec s =>
    cases s with
    | ret line value =>
      cases value with
      | none => exact .inr trivial
      | some e => trivial
    | _ => trivial
  | enter declarations => exact .inr (Store.bind_raisedAt _ σ)
  | call closure arguments line => exact call_raisedAt closure arguments line
  | ended outcome =>
    cases k with
    | nil => exact .inl rfl
    | cons c k => exact resume_raisedAt c outcome

/-- An error after a step was there before, or the step raises it. -/
theorem raised {e : Error} (h : (m.step setting).control = .ended (.failed e)) :
    m.control = .ended (.failed e) ∨ m.Raises setting e := by
  have hstep := step_raisedAt setting m
  rw [h] at hstep
  exact hstep

/-- An error during a run was raised by one of its steps. -/
theorem raised_of_run {e : Error} (hstart : m.control ≠ .ended (.failed e)) {steps : Nat}
    (h : (m.run setting steps).control = .ended (.failed e)) :
    ∃ earlier < steps, (m.run setting earlier).Raises setting e := by
  induction steps with
  | zero => exact absurd h hstart
  | succ steps ih =>
    rw [run_succ] at h
    rcases raised h with hbefore | hraises
    · obtain ⟨earlier, hlt, hraises⟩ := ih hbefore
      exact ⟨earlier, Nat.lt_succ_of_lt hlt, hraises⟩
    · exact ⟨steps, Nat.lt_succ_self steps, hraises⟩

end Machine
end LexScript
