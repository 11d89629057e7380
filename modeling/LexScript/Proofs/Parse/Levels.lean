import LexScript.Proofs.Parse.Expressions

/-!
# Levels and powers

The reader of expressions compares powers, and the grammar has levels. A level is read above some powers
and ends before others, and the two tables say which.
-/

namespace LexScript

namespace Level

/-- The largest power above which expressions of the level are read. -/
def floor : Level → Nat
  | assignment => 0
  | logical => 1
  | relational => 2
  | additive => 3
  | multiplicative => 4
  | unary | call => 6
  | primary => 7

/-- The largest power of a token that may follow an expression of the level. -/
def follow : Level → Nat
  | assignment => 0
  | logical => 2
  | relational => 3
  | additive => 4
  | multiplicative => 5
  | unary => 6
  | call => 7
  | primary => 8

variable {level inner other : Level} {kind : TokenKind} {operator : BinaryOperator}

theorem follow_le_floor_inner (h : level.inner? = some inner) : level.follow ≤ inner.floor := by
  cases level <;> cases h <;> decide

theorem floor_mono (h : level.inner? = some inner) : level.floor ≤ inner.floor := by
  cases level <;> cases h <;> decide

theorem follow_mono (h : level.inner? = some inner) : level.follow ≤ inner.follow := by
  cases level <;> cases h <;> decide

theorem follow_le_succ_floor (level : Level) : level.follow ≤ level.floor + 1 := by
  cases level <;> decide

/-- Between a level and one further on lies the next one. -/
theorem exists_inner (hle : level.follow ≤ other.follow) (hne : level ≠ other) :
    ∃ inner, level.inner? = some inner ∧ inner.follow ≤ other.follow ∧ level.follow < inner.follow := by
  revert hle hne
  cases level <;> cases other <;> simp [follow, inner?]

/-- The tables agree on the operators between two operands. -/
theorem operator?_eq_some (h : level.operator? kind = some operator) :
    Parse.binaryOperator? kind = some operator ∧ Parse.power kind = level.follow ∧
      level.floor < level.follow ∧ level.follow ≤ Parse.unaryPower := by
  unfold operator? at h
  split at h
  case h_14 => cases h
  all_goals exact ⟨h, rfl, by decide, by decide⟩

theorem exists_operator? (h : Parse.binaryOperator? kind = some operator) :
    ∃ level inner : Level, level.inner? = some inner ∧ level.operator? kind = some operator := by
  cases kind with
  | and | or => exact ⟨.logical, .relational, rfl, h⟩
  | equals | notEquals | less | lessEquals | greater | greaterEquals =>
    exact ⟨.relational, .additive, rfl, h⟩
  | plus | dash => exact ⟨.additive, .multiplicative, rfl, h⟩
  | star | slash | percent => exact ⟨.multiplicative, .unary, rfl, h⟩
  | _ => cases h

/-- What is read above the power of an operator belongs to the next level. -/
theorem follow_inner_le (hoperator : level.operator? kind = some operator)
    (hinner : level.inner? = some inner) (h : level.follow ≤ other.floor) :
    inner.follow ≤ other.follow := by
  have hlt := (operator?_eq_some hoperator).2.2.1
  revert hlt h
  cases level <;> cases hinner <;> cases other <;> decide

end Level

namespace Parse

theorem endsExpression_iff {kind : TokenKind} : kind.EndsExpression ↔ power kind = 0 := by
  constructor
  · intro h
    refine Nat.eq_zero_of_not_pos fun hpower => ?_
    cases hoperator : binaryOperator? kind with
    | some operator =>
      obtain ⟨level, -, -, hlevel⟩ := Level.exists_operator? hoperator
      rw [h.operator?_eq] at hlevel
      cases hlevel
    | none =>
      exact h.ne_assignment (kind_of_power hpower hoperator h.ne_openParen)
  · intro h
    refine ⟨?_, ?_, fun level => ?_⟩
    · rintro rfl
      cases h
    · rintro rfl
      cases h
    · cases hoperator : level.operator? kind with
      | none => rfl
      | some operator =>
        obtain ⟨-, hpower, hlt, -⟩ := Level.operator?_eq_some hoperator
        omega

end Parse

/-- An expression of a level is one of any level around it. -/
theorem Derives.lift {level other : Level} {tokens : List Token} {e : Expr}
    (hle : level.follow ≤ other.follow) (h : Derives other tokens e) : Derives level tokens e := by
  by_cases hsame : level = other
  · rw [hsame]
    exact h
  · obtain ⟨inner, hinner, hother, hlt⟩ := Level.exists_inner hle hsame
    exact .inner hinner (h.lift hother)
termination_by other.follow - level.follow

end LexScript
