import Mathlib
import LexScript.Number.Parts

/-!
# Exact values of floats

A finite float stands for one rational number, `value?`, which is taken from the logical model of floats and not
from `parts`. The two agree: `unpack_toModel`. So comparison with one, conversion to a machine word and
truncation are said of the exact value: `lt_one_iff`, `toNat_toUInt64`, `value?_truncate`.
-/

namespace LexScript.Number

open Float.Model (UnpackedFloat Format)
open Float.Model.UnpackedFloat (Sign)

def scaled (sign : Sign) (mantissa : Nat) (exponent : Int) : ℚ := sign.apply mantissa * 2 ^ exponent

def value? (x : Float) : Option ℚ :=
  match x.toModel.unpack with
  | .zero _ => some 0
  | .finite sign mantissa exponent _ => some (scaled sign mantissa exponent)
  | .infinity _ | .notANumber => none

def sign (negative : Bool) : Sign := if negative then .negative else .positive

@[simp] theorem sign_false : sign false = .positive := rfl

/-- The parts of a float as the logical model has them, where zero is apart. -/
def Parts.unpacked : Parts → UnpackedFloat
  | .nan => .notANumber
  | .infinite negative => .infinity (sign negative)
  | .finite negative mantissa exponent =>
    if h : 0 < mantissa then .finite (sign negative) mantissa exponent h else .zero (sign negative)

/-! ## The fields of the bits -/

section Fields

variable (b : BitVec 64)

theorem toNat_unpackMantissa :
    (@UnpackedFloat.unpackMantissa .binary64 b).toNat = b.toNat % leadingBit := by
  rw [UnpackedFloat.unpackMantissa_def, BitVec.extractLsb'_toNat, Nat.shiftRight_zero]
  rfl

theorem toNat_unpackExponent :
    (@UnpackedFloat.unpackExponent .binary64 b).toNat =
      b.toNat / leadingBit % Nat.pow 2 11 := by
  rw [UnpackedFloat.unpackExponent_def, BitVec.extractLsb'_toNat, Nat.shiftRight_eq_div_pow]
  rfl

theorem sign_unpackSign :
    Sign.ofBitVec (@UnpackedFloat.unpackSign .binary64 b) =
      sign (b.toNat / Nat.pow 2 63 = 1) := by
  have hlt := b.isLt
  have h : (@UnpackedFloat.unpackSign .binary64 b).toNat = b.toNat / Nat.pow 2 63 := by
    rw [UnpackedFloat.unpackSign_def, BitVec.extractLsb'_toNat, Nat.shiftRight_eq_div_pow]
    simp only [Nat.pow_eq]
    omega
  by_cases hone : b.toNat / Nat.pow 2 63 = 1
  · have hbit : @UnpackedFloat.unpackSign .binary64 b ≠ 0#1 := by
      intro hzero
      rw [hzero, hone] at h
      cases h
    rw [Sign.ofBitVec, if_neg hbit, decide_eq_true hone]
    rfl
  · have hbit : @UnpackedFloat.unpackSign .binary64 b = 0#1 := by
      refine BitVec.eq_of_toNat_eq (h.trans ?_)
      rw [Nat.pow_eq] at hone ⊢
      simp
      omega
    simp [Sign.ofBitVec, hbit, decide_eq_false hone]

end Fields

theorem unpack_toModel (x : Float) : x.toModel.unpack = (parts x).unpacked := by
  have hm := toNat_unpackMantissa x.toBits.toBitVec
  have he := toNat_unpackExponent x.toBits.toBitVec
  have hs := sign_unpackSign x.toBits.toBitVec
  have hfull : @UnpackedFloat.unpackExponent .binary64 x.toBits.toBitVec = -1#11 ↔
      x.toBits.toNat / leadingBit % Nat.pow 2 11 = 2047 := by
    rw [← BitVec.toNat_inj, he]; rfl
  have hleast : @UnpackedFloat.unpackExponent .binary64 x.toBits.toBitVec = 0#11 ↔
      x.toBits.toNat / leadingBit % Nat.pow 2 11 = 0 := by
    rw [← BitVec.toNat_inj, he]; rfl
  have hnone : @UnpackedFloat.unpackMantissa .binary64 x.toBits.toBitVec = 0#52 ↔
      x.toBits.toNat % leadingBit = 0 := by
    rw [← BitVec.toNat_inj, hm]; rfl
  change UnpackedFloat.unpack Format.binary64 x.toBits.toBitVec = _
  fun_cases UnpackedFloat.unpack with
  | case1 m e _ s hexp hman =>
    rw [parts, if_pos (hfull.1 hexp), if_pos (hnone.1 hman)]
    exact congrArg _ hs
  | case2 m e hexp hman =>
    rw [parts, if_pos (hfull.1 hexp), if_neg (mt hnone.2 hman)]
    rfl
  | case3 m e _ s hexp hzero hman =>
    have hnot : ¬ 0 < x.toBits.toNat % leadingBit := by simp [hnone.1 hman]
    simp only [parts, if_neg (mt hfull.2 hexp), if_pos (hleast.1 hzero), Parts.unpacked, dif_neg hnot]
    exact congrArg _ hs
  | case4 m e exponent _ s hexp hzero hman =>
    have hpos : 0 < x.toBits.toNat % leadingBit := Nat.pos_of_ne_zero (mt hnone.2 hman)
    simp only [parts, if_neg (mt hfull.2 hexp), if_pos (hleast.1 hzero), Parts.unpacked, dif_pos hpos,
      UnpackedFloat.finite.injEq]
    refine ⟨hs, hm, ?_⟩
    rw [show exponent = (e.toNat : ℤ) - 1075 from rfl, hzero]
    rfl
  | case5 m e exponent _ s hexp hzero =>
    have hpos : 0 < x.toBits.toNat % leadingBit + leadingBit := Nat.add_pos_right _ (by decide)
    have happend : (1#1 ++ m).toNat = m.toNat + leadingBit := by
      rw [BitVec.toNat_append, ← Nat.shiftLeft_add_eq_or_of_lt m.isLt, Nat.add_comm]
      rfl
    simp only [parts, if_neg (mt hfull.2 hexp), if_neg (mt hleast.2 hzero), Parts.unpacked, dif_pos hpos,
      UnpackedFloat.finite.injEq]
    refine ⟨hs, happend.trans (congrArg (· + leadingBit) hm), ?_⟩
    rw [show exponent = (e.toNat : ℤ) - 1075 from rfl, he]
    rfl

variable {x : Float} {negative : Bool} {m : Nat} {e : Int} {q : ℚ}

/-- The mantissa has its leading bit in place, unless the exponent is the least. -/
theorem parts_shape (h : parts x = .finite negative m e) :
    m < 2 ^ 53 ∧ -1074 ≤ e ∧ e ≤ 971 ∧ (2 ^ 52 ≤ m ∨ e = -1074) := by
  unfold parts at h
  dsimp only [leadingBit, Nat.pow_eq] at h
  split at h
  · split at h <;> cases h
  · split at h
    · cases h
      omega
    · cases h
      omega

/-! ## The exact value -/

@[simp] theorem scaled_zero (s : Sign) (e : Int) : scaled s 0 e = 0 := by
  cases s <;> simp [scaled, Sign.apply]

theorem scaled_positive (m : Nat) (e : Int) : scaled .positive m e = m * 2 ^ e := by
  simp [scaled, Sign.apply, Int.cast_natCast]

theorem scaled_negative_nonpos (m : Nat) (e : Int) : scaled .negative m e ≤ 0 := by
  simp only [scaled, Sign.apply, Int.cast_neg, Int.cast_natCast, neg_mul]
  exact neg_nonpos.2 (by positivity)

/-- The mantissa is shifted up as the exponent goes down. -/
theorem scaled_shift (s : Sign) (m shift : Nat) (e : Int) :
    scaled s (m * 2 ^ shift) (e - shift) = scaled s m e := by
  have hpow : (2 : ℚ) ^ shift * 2 ^ (e - shift) = 2 ^ e := by
    rw [← zpow_natCast, ← zpow_add₀ two_ne_zero, add_sub_cancel]
  have happly : ((s.apply ((m * 2 ^ shift : Nat) : Int) : ℤ) : ℚ) = s.apply m * 2 ^ shift := by
    cases s <;> simp [Sign.apply]
  simp only [scaled, happly, mul_assoc, hpow]

theorem value?_of_parts (h : parts x = .finite negative m e) :
    value? x = some (scaled (sign negative) m e) := by
  simp only [value?, unpack_toModel, h, Parts.unpacked]
  by_cases hpos : 0 < m
  · rw [dif_pos hpos]
  · obtain rfl : m = 0 := by omega
    simp [scaled_zero]

theorem exists_parts (h : value? x = some q) :
    ∃ negative m e, parts x = .finite negative m e ∧ q = scaled (sign negative) m e := by
  cases hparts : parts x with
  | finite negative m e =>
    rw [value?_of_parts hparts] at h
    exact ⟨negative, m, e, rfl, (Option.some.inj h).symm⟩
  | nan | infinite =>
    rw [value?, unpack_toModel, hparts] at h
    cases h

theorem isFinite_eq (x : Float) : x.isFinite = (value? x).isSome := by
  change x.toModel.unpack.isFinite = _
  rw [value?]
  cases x.toModel.unpack <;> rfl

theorem value?_eq_none_iff (x : Float) : value? x = none ↔ x.isNaN ∨ x.isInf := by
  change _ ↔ x.toModel.unpack.isNaN ∨ x.toModel.unpack.isInf
  rw [value?]
  cases x.toModel.unpack <;> simp [UnpackedFloat.isNaN, UnpackedFloat.isInf]

/-! ## The integer part -/

theorem wholePart_eq_floor (m : Nat) (e : Int) : wholePart m e = ⌊(m : ℚ) * 2 ^ e⌋₊ := by
  rw [wholePart]
  rcases le_or_gt 0 e with he | he
  · obtain ⟨n, rfl⟩ := Int.eq_ofNat_of_zero_le he
    have hcast : (m : ℚ) * 2 ^ (n : ℤ) = ((m * 2 ^ n : ℕ) : ℚ) := by push_cast; rfl
    rw [hcast, Nat.floor_natCast]
    simp
  · obtain ⟨n, hn⟩ := Int.eq_ofNat_of_zero_le (Int.neg_nonneg_of_nonpos he.le)
    obtain rfl : e = -(n : ℤ) := by omega
    have hcast : (m : ℚ) * 2 ^ (-(n : ℤ)) = (m : ℚ) / ((2 ^ n : ℕ) : ℚ) := by
      rw [zpow_neg, zpow_natCast, div_eq_mul_inv]; push_cast; rfl
    rw [hcast, Nat.floor_div_eq_div]
    simp

theorem floor_scaled (negative : Bool) (m : Nat) (e : Int) :
    ⌊scaled (sign negative) m e⌋₊ = if negative then 0 else wholePart m e := by
  cases negative with
  | false =>
    simp [sign_false, scaled_positive, ← wholePart_eq_floor]
  | true => exact Nat.floor_of_nonpos (scaled_negative_nonpos m e)

theorem wholePart_zero (e : Int) : wholePart 0 e = 0 := by
  simp [wholePart]

theorem wholePart_eq_zero_iff (hm : 0 < m) : wholePart m e = 0 ↔ e < 0 ∧ m < 2 ^ (-e).toNat := by
  simp only [wholePart, Nat.pow_eq, Nat.div_eq_zero_iff_lt (Nat.two_pow_pos _)]
  rcases le_or_gt 0 e with he | he
  · have hzero : (-e).toNat = 0 := by omega
    have hpos := Nat.mul_pos hm (Nat.two_pow_pos e.toNat)
    rw [hzero]
    constructor
    · intro hlt
      omega
    · rintro ⟨hneg, -⟩
      omega
  · have hzero : e.toNat = 0 := by omega
    rw [hzero]
    simp [he]

theorem wholePart_le_of_neg (he : e < 0) : wholePart m e ≤ m := by
  have hzero : e.toNat = 0 := by omega
  simpa [wholePart, hzero] using (Nat.div_le_self ..).trans (Nat.mul_one m).le

theorem scaled_wholePart_of_nonneg (s : Sign) (he : 0 ≤ e) : scaled s (wholePart m e) 0 = scaled s m e := by
  obtain ⟨n, rfl⟩ := Int.eq_ofNat_of_zero_le he
  have hwhole : wholePart m n = m * 2 ^ n := by
    rw [wholePart]; simp
  simp [hwhole, ← scaled_shift s m n n, sub_self]

/-! ## Conversion to a word -/

theorem mantissa_shiftRight (em : UnpackedFloat.ExtendedMantissa) (k : Nat) :
    (em >>> k).mantissa = em.mantissa / 2 ^ k := by
  change (k.repeat UnpackedFloat.ExtendedMantissa.shiftRightOne em).mantissa = _
  induction k with
  | zero => simp [Nat.repeat]
  | succ k ih =>
    simp [Nat.repeat, UnpackedFloat.ExtendedMantissa.shiftRightOne, ih, Nat.div_div_eq_div_mul,
      Nat.pow_succ]

theorem roundToInt_eq (s : Sign) (m : Nat) (e : Int) :
    UnpackedFloat.roundToInt s m e = s.apply (wholePart m e) := by
  have hup : (e - 0).toNat = e.toNat := by omega
  have hdown : (0 - (e - ((e - 0).toNat : ℤ))).toNat = (-e).toNat := by omega
  unfold UnpackedFloat.roundToInt UnpackedFloat.decreaseExponent UnpackedFloat.shiftToExponent
  dsimp only
  rw [mantissa_shiftRight, hdown, hup, Nat.shiftLeft_eq]
  rfl

theorem toNat_ofNatClamp (n : Nat) : (UInt64.ofNatClamp n).toNat = min n (UInt64.size - 1) := by
  rcases Nat.lt_or_ge n UInt64.size with h | h
  · rw [UInt64.toNat_ofNatClamp_of_lt h]; omega
  · rw [UInt64.toNat_ofNatClamp_of_le h]; omega

/-- The word is the integer part, or the greatest word. -/
theorem toNat_toUInt64 (h : value? x = some q) : x.toUInt64.toNat = min ⌊q⌋₊ (UInt64.size - 1) := by
  obtain ⟨negative, m, e, hparts, rfl⟩ := exists_parts h
  change (UInt64.ofNatClamp (x.toModel.unpack.toInt 0 (UInt64.size - 1)).toNat).toNat = _
  simp only [toNat_ofNatClamp, unpack_toModel, hparts, Parts.unpacked, floor_scaled]
  congr 1
  by_cases hpos : 0 < m
  · rw [dif_pos hpos, UnpackedFloat.toInt, roundToInt_eq]
    cases negative with
    | false => rfl
    | true => exact Int.toNat_eq_zero.2 (neg_nonpos.2 (Int.natCast_nonneg _))
  · obtain rfl : m = 0 := by omega
    rw [dif_neg hpos, wholePart_zero, ite_self]
    rfl

/-! ## Comparison with one -/

theorem parts_one : parts 1 = .finite false (2 ^ 52) (-52) := by decide

theorem lt_iff_compare (x y : Float) :
    x < y ↔ (parts x).unpacked.compare (parts y).unpacked = some .lt := by
  simp only [← unpack_toModel]
  change decide (x.toModel < y.toModel) = true ↔ _
  rw [decide_eq_true_iff]
  change ((x.toModel.unpack.compare y.toModel.unpack) == some .lt) = true ↔ _
  rw [beq_iff_eq]

theorem lt_one_iff (h : value? x = some q) : x < 1 ↔ q < 1 := by
  obtain ⟨negative, m, e, hparts, rfl⟩ := exists_parts h
  obtain ⟨hm, -, -, hnormal⟩ := parts_shape hparts
  simp only [lt_iff_compare, parts_one, hparts, ← Nat.floor_eq_zero, floor_scaled]
  by_cases hpos : 0 < m
  · rw [Parts.unpacked, dif_pos hpos]
    cases negative with
    | true => exact iff_of_true rfl rfl
    | false =>
      -- Exponents are compared first, which is right for mantissas that have the leading bit in place.
      have hcompare : ((compare e (-52)).then (compare m (2 ^ 52))) = .lt ↔ e < -52 ∨ e = -52 ∧ m < 2 ^ 52 := by
        simp [Ordering.then_eq_lt, compare_lt_iff_lt]
      change some ((compare e (-52)).then (compare m (2 ^ 52))) = some .lt ↔ wholePart m e = 0
      rw [Option.some_inj, hcompare, wholePart_eq_zero_iff hpos]
      constructor
      · rintro (he | ⟨rfl, hmantissa⟩)
        · exact ⟨by omega, hm.trans_le (Nat.pow_le_pow_right two_pos (by omega))⟩
        · exact ⟨by omega, hmantissa⟩
      · rintro ⟨he, hmantissa⟩
        by_contra hge
        have hlarge : 2 ^ 52 ≤ m := by omega
        have hle : 2 ^ (-e).toNat ≤ 2 ^ 52 := Nat.pow_le_pow_right two_pos (by omega)
        omega
  · obtain rfl : m = 0 := by omega
    refine iff_of_true ?_ ?_
    · rw [Parts.unpacked, dif_neg hpos]
      rfl
    · simp [wholePart_zero, ite_self]

/-! ## A float from its parts -/

/-- Bits are kept, unless they do not make a number. -/
theorem toNat_toBits_ofBits {n : Nat} (hn : n < 2 ^ 64) (hfinite : n / leadingBit % Nat.pow 2 11 ≠ 2047) :
    (Float.ofBits (.ofNat n)).toBits.toNat = n := by
  have hbits : (UInt64.ofNat n).toBitVec.toNat = n := UInt64.toNat_ofNat_of_lt hn
  have hexponent : @UnpackedFloat.unpackExponent .binary64 (UInt64.ofNat n).toBitVec ≠ -1#11 := by
    simpa [ne_eq, ← BitVec.toNat_inj, toNat_unpackExponent, hbits] using hfinite
  have hnan : @UnpackedFloat.isNaNBits .binary64 (UInt64.ofNat n).toBitVec = false :=
    decide_eq_false fun hnan => hexponent hnan.1
  have hpack := @UnpackedFloat.pack_unpack .binary64 (UInt64.ofNat n).toBitVec (by decide)
  rw [hnan] at hpack
  exact (congrArg BitVec.toNat hpack).trans hbits

/-- The three fields stand side by side. -/
theorem parts_ofBits (negative : Bool) (exponent fraction : Nat) (hexponent : exponent < 2047)
    (hfraction : fraction < 2 ^ 52) :
    parts (Float.ofBits (.ofNat ((if negative then Nat.pow 2 63 else 0) + (exponent * leadingBit + fraction)))) =
      if exponent = 0 then .finite negative fraction (-1074)
      else .finite negative (fraction + leadingBit) (exponent - 1075) := by
  have hlead : leadingBit = 2 ^ 52 := rfl
  generalize hn : (if negative then Nat.pow 2 63 else 0) + (exponent * leadingBit + fraction) = n
  have hsum : n = (if negative then 2 ^ 63 else 0) + (exponent * 2 ^ 52 + fraction) := hn.symm
  have hlt : n < 2 ^ 64 := by split at hsum <;> omega
  have hfield : n / leadingBit % Nat.pow 2 11 = exponent := by
    rw [hlead, Nat.pow_eq]; split at hsum <;> omega
  have hrest : n % leadingBit = fraction := by
    rw [hlead]; split at hsum <;> omega
  have htop : (n / Nat.pow 2 63 = 1) ↔ negative = true := by
    rw [Nat.pow_eq]
    cases negative with
    | false =>
      rw [if_neg Bool.false_ne_true] at hsum
      exact iff_of_false (by omega) Bool.false_ne_true
    | true =>
      rw [if_pos rfl] at hsum
      exact iff_of_true (by omega) rfl
  rw [parts, toNat_toBits_ofBits hlt (by omega), hfield, hrest, if_neg (by omega)]
  simp only [htop, Bool.decide_eq_true]

theorem shifted_lt {shift : Nat} (hm : m < 2 ^ 53) (hshift : shift ≤ 52 - m.log2) : m * 2 ^ shift < 2 ^ 53 := by
  rcases Nat.eq_zero_or_pos m with rfl | hpos
  · rw [Nat.zero_mul]; decide
  have hlog : m.log2 < 53 := (Nat.log2_lt hpos.ne').2 hm
  calc
    m * 2 ^ shift < 2 ^ (m.log2 + 1) * 2 ^ shift :=
      Nat.mul_lt_mul_of_pos_right Nat.lt_log2_self (Nat.two_pow_pos _)
    _ = 2 ^ (m.log2 + 1 + shift) := (Nat.pow_add ..).symm
    _ ≤ 2 ^ 53 := Nat.pow_le_pow_right two_pos (by omega)

theorem le_shifted (hm : m < 2 ^ 53) (hpos : m ≠ 0) : 2 ^ 52 ≤ m * 2 ^ (52 - m.log2) := by
  have hlog : m.log2 < 53 := (Nat.log2_lt hpos).2 hm
  calc
    2 ^ 52 = 2 ^ m.log2 * 2 ^ (52 - m.log2) := by rw [← Nat.pow_add, Nat.add_sub_cancel' (by omega)]
    _ ≤ m * 2 ^ (52 - m.log2) := Nat.mul_le_mul_right _ (Nat.log2_self_le hpos)

/-- Numbers with few enough digits are not rounded. -/
theorem value?_ofParts (negative : Bool) (hm : m < 2 ^ 53) (hlow : -1074 ≤ e) (hhigh : e ≤ 971) :
    value? (ofParts negative m e) = some (scaled (sign negative) m e) := by
  have hlead : leadingBit = 2 ^ 52 := rfl
  unfold ofParts
  extract_lets shift shifted magnitude
  have hleft : shift ≤ 52 - m.log2 := Nat.min_le_left ..
  have hright : shift ≤ (e + 1074).toNat := Nat.min_le_right ..
  have hlt : shifted < 2 ^ 53 := shifted_lt hm hleft
  have hscaled : scaled (sign negative) shifted (e - shift) = scaled (sign negative) m e := scaled_shift ..
  rw [← hscaled]
  by_cases hsmall : shifted < leadingBit
  · have hmagnitude : magnitude = 0 * leadingBit + shifted := by
      rw [Nat.zero_mul, Nat.zero_add]
      exact if_pos hsmall
    rw [hmagnitude, value?_of_parts ((parts_ofBits negative 0 shifted (by decide) hsmall).trans (if_pos rfl))]
    -- A mantissa that stays short is zero, or its exponent is the least.
    by_cases hzero : m = 0
    · have hnone : shifted = 0 := by simp [show shifted = m * 2 ^ shift from rfl, hzero]
      simp [hnone, scaled_zero]
    · have hshift : shift ≠ 52 - m.log2 := by
        intro heq
        have hle := le_shifted hm hzero
        rw [← heq] at hle
        exact absurd hle (not_le.2 hsmall)
      have hleast : e - shift = -1074 := by omega
      rw [hleast]
  · have hmagnitude : magnitude = (e - shift + 1075).toNat * leadingBit + (shifted - leadingBit) :=
      if_neg hsmall
    have hparts := (parts_ofBits negative (e - shift + 1075).toNat (shifted - leadingBit)
      (by omega) (by omega)).trans (if_neg (by omega))
    have hmantissa : shifted - leadingBit + leadingBit = shifted := by omega
    have hexponent : ((e - shift + 1075).toNat : ℤ) - 1075 = e - shift := by omega
    simp only [hmagnitude, value?_of_parts hparts, hmantissa, hexponent]

/-! ## Truncation -/

theorem value?_truncate_of_parts (h : parts x = .finite negative m e) :
    value? (truncate x) = some (scaled (sign negative) (wholePart m e) 0) := by
  obtain ⟨hm, -⟩ := parts_shape h
  rw [truncate, h]
  dsimp only
  split
  · rename_i he
    exact value?_ofParts negative ((wholePart_le_of_neg he).trans_lt hm) (by decide) (by decide)
  · rename_i he
    simp [value?_of_parts h, scaled_wholePart_of_nonneg _ (not_lt.1 he)]

/-- A positive number without its fraction is its integer part. -/
theorem value?_truncate (h : value? x = some q) (hq : 0 < q) : value? (truncate x) = some (⌊q⌋₊ : ℚ) := by
  obtain ⟨negative, m, e, hparts, rfl⟩ := exists_parts h
  cases negative with
  | true => exact absurd hq (not_lt.2 (scaled_negative_nonpos m e))
  | false =>
    rw [value?_truncate_of_parts hparts, floor_scaled, sign_false, scaled_positive, zpow_zero, mul_one]
    rfl

end LexScript.Number
