import LexScript.Proofs.Number.Exact
import LexScript.Value.Operator

/-!
# Repeated strings

A string is repeated by the integer part of a number, however large: `BinaryOperator.repetition_exact`. The count
saturates at the greatest word and the size is a checked product of words, but a count that saturates makes too
large a string anyway, and so does a product that overflows.
-/

namespace LexScript

theorem Text.times_eq_join (s : String) (n : Nat) : Text.times s n = String.join (List.replicate n s) := by
  simp [← String.toList_inj, Text.toList_times, String.toList_join, List.flatMap_def, List.map_replicate]

/-- A product that overflows is past any limit. -/
theorem checkedProduct_any_le_iff (m n : Nat) {limit : Nat} (hlimit : limit < UInt64.size) :
    (checkedProduct m n).any (·.toNat ≤ limit) ↔ m * n ≤ limit := by
  rw [checkedProduct]
  split
  · rename_i hfits
    rw [Option.any_some, UInt64.toNat_ofNat_of_lt' hfits, decide_eq_true_eq]
  · rename_i hoverflows
    exact iff_of_false Bool.false_ne_true (by omega)

/-- A count that saturates is past any limit. -/
theorem mul_min_le_iff {size n limit : Nat} (hsize : 0 < size) (hlimit : limit < UInt64.size - 1) :
    size * min n (UInt64.size - 1) ≤ limit ↔ size * n ≤ limit := by
  rcases Nat.le_total n (UInt64.size - 1) with h | h
  · rw [Nat.min_eq_left h]
  · rw [Nat.min_eq_right h]
    have hgreatest : UInt64.size - 1 ≤ size * (UInt64.size - 1) := Nat.le_mul_of_pos_left _ hsize
    have hcount : n ≤ size * n := Nat.le_mul_of_pos_left _ hsize
    omega

variable {s : String} {x : Float} {q : ℚ}

theorem repeated_of_nothing (h : (∀ q, Number.value? x = some q → q < 1) ∨ s = "") : repeated s x = .ok "" := by
  rw [repeated, if_pos]
  rcases h with hsmall | rfl
  · cases hx : Number.value? x with
    | none => simp [Number.isFinite_eq, hx]
    | some q => simp [(Number.lt_one_iff hx).2 (hsmall q hx)]
  · simp

theorem repeated_of_exact (hx : Number.value? x = some q) (hq : 1 ≤ q) (hs : s ≠ "") :
    repeated s x =
      if s.utf8ByteSize * ⌊q⌋₊ ≤ repeatLimit then .ok (String.join (List.replicate ⌊q⌋₊ s))
      else .error (.repeatTooLarge (Number.text (Number.truncate x)) repeatLimit) := by
  have hpos : 0 < s.utf8ByteSize := Nat.pos_of_ne_zero (mt String.utf8ByteSize_eq_zero_iff.1 hs)
  have hlimit : repeatLimit < UInt64.size - 1 := by decide
  have hrepeats : ¬ (!x.isFinite || x < 1 || s.isEmpty) = true := by
    simp [Number.isFinite_eq, hx, (Number.lt_one_iff hx).not.2 (not_lt.2 hq), hs]
  have htruncate := Number.value?_truncate hx (one_pos.trans_le hq)
  have htimes := Number.toNat_toUInt64 htruncate
  rw [Nat.floor_natCast] at htimes
  rw [repeated, if_neg hrepeats]
  dsimp only
  have hfits : (checkedProduct s.utf8ByteSize (Number.truncate x).toUInt64.toNat).any (·.toNat ≤ repeatLimit) ↔
      s.utf8ByteSize * ⌊q⌋₊ ≤ repeatLimit := by
    rw [checkedProduct_any_le_iff _ _ (by omega), htimes, mul_min_le_iff hpos hlimit]
  by_cases hle : s.utf8ByteSize * ⌊q⌋₊ ≤ repeatLimit
  · have hcount : ⌊q⌋₊ ≤ s.utf8ByteSize * ⌊q⌋₊ := Nat.le_mul_of_pos_left _ hpos
    rw [if_pos (hfits.2 hle), if_pos hle, htimes, Nat.min_eq_left (by omega), Text.times_eq_join]
  · simp [mt hfits.1 hle, hle]

/-- A string is repeated as often as the integer part of a number says, if what is made takes no more than `2 ^ 28`
bytes. Otherwise the count that the error tells is that integer part. -/
theorem BinaryOperator.repetition_exact (s : String) (x : Float) :
    (Number.value? x = none ↔ x.isNaN ∨ x.isInf) ∧
    (BinaryOperator.multiply.apply (.string s) (.number x) =
      match Number.value? x with
      | none => .ok (.string "")
      | some q =>
        if q < 1 ∨ s = "" then .ok (.string "")
        else if s.utf8ByteSize * ⌊q⌋₊ ≤ 2 ^ 28 then .ok (.string (String.join (List.replicate ⌊q⌋₊ s)))
        else .error (.repeatTooLarge (Number.text (Number.truncate x)) (2 ^ 28))) ∧
    ∀ q, Number.value? x = some q → 1 ≤ q → Number.value? (Number.truncate x) = some (⌊q⌋₊ : ℚ) := by
  refine ⟨Number.value?_eq_none_iff x, ?_, fun q hx hq => Number.value?_truncate hx (one_pos.trans_le hq)⟩
  rw [apply]
  cases hx : Number.value? x with
  | none =>
    rw [repeated_of_nothing (.inl fun q hq => by cases hx.symm.trans hq)]
    rfl
  | some q =>
    dsimp only
    split
    · rename_i hnothing
      rw [repeated_of_nothing (hnothing.imp_left fun hq r hr => Option.some.inj (hx.symm.trans hr) ▸ hq)]
      rfl
    · rename_i hrepeats
      rw [repeated_of_exact hx (not_lt.1 fun hq => hrepeats (.inl hq)) fun hs => hrepeats (.inr hs)]
      change Except.map Value.string (if s.utf8ByteSize * ⌊q⌋₊ ≤ 2 ^ 28 then _ else _) = _
      split <;> rfl

/-- Two characters of two bytes each, and a count past every word. -/
theorem BinaryOperator.repetition_exact_accentedSample :
    BinaryOperator.multiply.apply (.string "é") (.number 2.5) = .ok (.string "éé") ∧
    Number.value? (Number.truncate 2.5) = some 2 ∧
    BinaryOperator.multiply.apply (.string "é") (.number 1180591620717411303424) =
      .error (.repeatTooLarge (Number.text (Number.truncate 1180591620717411303424)) (2 ^ 28)) := by
  have hparts : Number.parts 2.5 = .finite false (5 * 2 ^ 50) (-51) := by decide
  have hexact : Number.value? 2.5 = some (5 / 2) := by
    rw [Number.value?_of_parts hparts, Number.sign_false, Number.scaled_positive]
    norm_num
  have hfloor : ⌊(5 / 2 : ℚ)⌋₊ = 2 := by norm_num
  have hparts' : Number.parts 1180591620717411303424 = .finite false (2 ^ 52) 18 := by decide
  have hexact' : Number.value? 1180591620717411303424 = some (2 ^ 70) := by
    rw [Number.value?_of_parts hparts', Number.sign_false, Number.scaled_positive]
    norm_num
  have hfloor' : ⌊(2 ^ 70 : ℚ)⌋₊ = 2 ^ 70 := by norm_num
  have hbytes : "é".utf8ByteSize = 2 := by decide
  have hne : "é" ≠ "" := by decide
  obtain ⟨-, hresult, htruncate⟩ := repetition_exact "é" 2.5
  obtain ⟨-, hresult', -⟩ := repetition_exact "é" 1180591620717411303424
  refine ⟨?_, ?_, ?_⟩
  · rw [hresult, hexact]
    norm_num [hfloor, hbytes, hne]
    decide
  · rw [htruncate _ hexact (by norm_num), hfloor, Nat.cast_ofNat]
  · rw [hresult', hexact']
    norm_num [hfloor', hbytes, hne]

end LexScript
