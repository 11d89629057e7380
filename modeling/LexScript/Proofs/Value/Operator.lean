import LexScript.Value.Operator

/-!
# What operations look at

Operations raise errors of four kinds, all of them of running. Operators, conditions and kinds tell whether a value
is a function, but not which one. Only equality does, by the identity of the declaration and by the frame.
-/

namespace LexScript

def Cause.OfOperation : Cause → Prop
  | .divisionByZero | .repeatTooLarge .. | .invalidOperands .. | .invalidOperand .. => True
  | _ => False

theorem Cause.OfOperation.kind {cause : Cause} (h : cause.OfOperation) : cause.kind = .runtime := by
  cases cause with
  | divisionByZero | repeatTooLarge | invalidOperands | invalidOperand => rfl
  | _ => exact h.elim

theorem repeated_error {s : String} {x : Float} {cause : Cause} (h : repeated s x = .error cause) :
    cause.OfOperation := by
  rcases repeated_cases s x with ⟨t, hrepeated⟩ | hrepeated <;> rw [hrepeated] at h
  · cases h
  · obtain rfl := Except.error.inj h
    trivial

theorem BinaryOperator.apply_error {operator : BinaryOperator} {l r : Value} {cause : Cause}
    (h : operator.apply l r = .error cause) : cause.OfOperation := by
  unfold apply at h
  split at h <;> try cases h
  · rename_i l r
    cases hrepeated : repeated l r with
    | ok s =>
      rw [hrepeated] at h
      cases h
    | error c =>
      rw [hrepeated] at h
      obtain rfl := Except.error.inj h
      exact repeated_error hrepeated
  · split at h
    · obtain rfl := Except.error.inj h
      trivial
    · cases h
  · split at h
    · obtain rfl := Except.error.inj h
      trivial
    · cases h
  · trivial

theorem UnaryOperator.apply_error {operator : UnaryOperator} {v : Value} {cause : Cause}
    (h : operator.apply v = .error cause) : cause.OfOperation := by
  unfold apply at h
  split at h <;> cases h
  trivial

/-- The values are the same, or both are functions. -/
inductive Value.Alike : Value → Value → Prop
  | refl (v : Value) : Alike v v
  | functions (c d : Closure) : Alike (.function c) (.function d)

variable {l r l' r' : Value}

theorem BinaryOperator.apply_alike (hl : l.Alike l') (hr : r.Alike r') (hsame : l'.same r' = l.same r)
    (operator : BinaryOperator) : operator.apply l' r' = operator.apply l r := by
  cases operator with
  | equal | notEqual => simp [apply, hsame]
  | _ =>
    cases hl with
    | refl => cases hr <;> cases l <;> rfl
    | functions => cases hr <;> rfl

theorem UnaryOperator.apply_alike (hr : r.Alike r') (operator : UnaryOperator) :
    operator.apply r' = operator.apply r := by
  cases hr with
  | refl => rfl
  | functions => cases operator <;> rfl

end LexScript
