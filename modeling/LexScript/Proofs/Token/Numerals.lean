import LexScript.Number.Read
import LexScript.Token.Lexeme
import Mathlib.Data.List.TakeWhile

/-!
# The numbers among the tokens

A number token is a run of digits, with a point and more digits or without, and every such text can be
read as a number. An error of a scan is about the text, never about a number.
-/

namespace LexScript

inductive IsNumeral : List Char → Prop
  | whole {digits : List Char} (nonempty : digits ≠ []) (all : ∀ c ∈ digits, c.isDigit = true) :
    IsNumeral digits
  | fraction {digits more : List Char} (nonempty : digits ≠ [])
    (all : ∀ c ∈ digits, c.isDigit = true) (rest : ∀ c ∈ more, c.isDigit = true) :
    IsNumeral (digits ++ '.' :: more)

namespace Number

theorem takeWhile_isDigit {digits : List Char} (h : ∀ c ∈ digits, c.isDigit = true) :
    digits.takeWhile Char.isDigit = digits ∧ digits.dropWhile Char.isDigit = [] :=
  ⟨List.takeWhile_eq_self_iff.2 h, List.dropWhile_eq_nil_iff.2 h⟩

theorem takeWhile_isDigit_point {digits : List Char} (h : ∀ c ∈ digits, c.isDigit = true)
    (more : List Char) :
    (digits ++ '.' :: more).takeWhile Char.isDigit = digits ∧
      (digits ++ '.' :: more).dropWhile Char.isDigit = '.' :: more := by
  have hpoint : Char.isDigit '.' = false := by decide
  constructor
  · rw [List.takeWhile_append_of_pos h, List.takeWhile_cons_of_neg (by simp [hpoint]), List.append_nil]
  · rw [List.dropWhile_append_of_pos h, List.dropWhile_cons_of_neg (by simp [hpoint])]

theorem isSome_readDecimal? {text : List Char} (h : IsNumeral text) : (readDecimal? text).isSome := by
  cases h with
  | whole nonempty all =>
    obtain ⟨htake, hdrop⟩ := takeWhile_isDigit all
    simp only [readDecimal?, htake, hdrop]
    rw [if_neg fun hnil => nonempty hnil.1]
    rfl
  | @fraction digits more nonempty all rest =>
    obtain ⟨htake, hdrop⟩ := takeWhile_isDigit_point all more
    obtain ⟨htakeMore, hdropMore⟩ := takeWhile_isDigit rest
    simp only [readDecimal?, htake, hdrop, htakeMore, hdropMore]
    rw [if_neg fun hnil => nonempty hnil.1]
    rfl

theorem isSome_readUnsigned? {text : List Char} (h : IsNumeral text) : (readUnsigned? text).isSome := by
  unfold readUnsigned?
  split
  · rfl
  · rfl
  · rfl
  · rw [Option.isSome_map]
    exact isSome_readDecimal? h

theorem takeSign_of_isDigit {c : Char} (h : c.isDigit = true) (rest : List Char) :
    takeSign (c :: rest) = (false, c :: rest) := by
  unfold takeSign
  split
  · rename_i heq
    obtain ⟨rfl, -⟩ := List.cons.inj heq
    simp at h
  · rename_i heq
    obtain ⟨rfl, -⟩ := List.cons.inj heq
    simp at h
  · rfl

/-- Every numeral reads as a number. -/
theorem isSome_ofText? {text : List Char} (h : IsNumeral text) :
    (ofText? (String.ofList text)).isSome := by
  obtain ⟨c, rest, hc, rfl⟩ : ∃ c rest, c.isDigit = true ∧ text = c :: rest := by
    cases h with
    | whole nonempty all =>
      obtain ⟨c, rest, rfl⟩ := List.exists_cons_of_ne_nil nonempty
      exact ⟨c, rest, all c (List.mem_cons_self ..), rfl⟩
    | fraction nonempty all =>
      obtain ⟨c, rest, rfl⟩ := List.exists_cons_of_ne_nil nonempty
      exact ⟨c, _, all c (List.mem_cons_self ..), rfl⟩
  rw [ofText?, String.toList_ofList, takeSign_of_isDigit hc]
  simp only [Option.isSome_map]
  exact isSome_readUnsigned? h

end Number

namespace Lexeme

theorem splitNumber_isNumeral {c : Char} (h : c.isDigit = true) (rest : List Char) :
    IsNumeral (splitNumber (c :: rest)).1 := by
  have hwhole : (run Char.isDigit (c :: rest)).1 ≠ [] := run_ne_nil h
  have hall : ∀ d ∈ (run Char.isDigit (c :: rest)).1, d.isDigit = true := by
    intro d hd
    exact List.mem_takeWhile_imp hd
  unfold splitNumber
  split
  · rename_i whole d after heq
    rw [heq] at hwhole hall
    split
    · refine .fraction hwhole hall fun e he => ?_
      exact List.mem_takeWhile_imp he
    · exact .whole hwhole hall
  · exact .whole hwhole hall

theorem wordKind_ne_number (word : String) : wordKind word ≠ .number := by
  unfold wordKind
  split <;> simp

theorem punctuation?_ne_number {c : Char} {rest : List Char} {l : Lexeme} {kind : TokenKind}
    {value : String} (h : punctuation? c rest = some l) (hl : l.token = some (kind, value)) :
    kind ≠ .number := by
  rcases Option.or_eq_some_iff.1 h with h | ⟨_, h⟩
  · obtain ⟨d, hd, h⟩ := Option.bind_eq_some_iff.1 h
    obtain ⟨k, hk, rfl⟩ := Option.map_eq_some_iff.1 h
    obtain ⟨rfl, -⟩ := Prod.mk.inj (Option.some.inj hl)
    rintro rfl
    unfold pairKind? at hk
    split at hk <;> cases hk
  · obtain ⟨k, hk, rfl⟩ := Option.map_eq_some_iff.1 h
    obtain ⟨rfl, -⟩ := Prod.mk.inj (Option.some.inj hl)
    rintro rfl
    unfold markKind? at hk
    split at hk <;> cases hk

/-- The value of a number token is a numeral. -/
theorem isNumeral_of_first {c : Char} {rest : List Char} {l : Lexeme} {value : String}
    (h : first c rest = .ok l) (hl : l.token = some (.number, value)) :
    ∃ text, IsNumeral text ∧ value = String.ofList text := by
  unfold first at h
  split at h
  · obtain rfl := Except.ok.inj h
    exact absurd (Prod.mk.inj (Option.some.inj hl)).1 (wordKind_ne_number _)
  split at h
  · rename_i hc
    obtain rfl := Except.ok.inj h
    exact ⟨_, splitNumber_isNumeral hc rest, (Prod.mk.inj (Option.some.inj hl)).2.symm⟩
  split at h
  · obtain rfl := Except.ok.inj h
    cases hl
  split at h
  · split at h
    · obtain rfl := Except.ok.inj h
      cases hl
    · cases h
  split at h
  · obtain rfl := Except.ok.inj h
    cases hl
  · split at h
    · rename_i hp
      obtain rfl := Except.ok.inj h
      exact absurd rfl (punctuation?_ne_number hp hl)
    · cases h

theorem error_of_first {c : Char} {rest : List Char} {cause : Cause} (h : first c rest = .error cause) :
    cause.kind = .reading ∧ ∀ text, cause ≠ .malformedNumber text := by
  unfold first at h
  split at h
  · cases h
  split at h
  · cases h
  split at h
  · cases h
  split at h
  · split at h
    · cases h
    · obtain rfl := Except.error.inj h
      exact ⟨rfl, by simp⟩
  split at h
  · cases h
  · split at h
    · cases h
    · obtain rfl := Except.error.inj h
      exact ⟨rfl, by simp⟩

end Lexeme

namespace Token

/-- Every number token of a text reads as a number. -/
theorem number_of_scan {line : Nat} {source : List Char} {tokens : List Token}
    (h : scan line source = .ok tokens) :
    ∀ t ∈ tokens, t.kind = .number → (Number.ofText? t.value).isSome := by
  fun_induction scan line source generalizing tokens with
  | case1 line =>
    obtain rfl := Except.ok.inj h
    intro t ht hkind
    obtain rfl := List.mem_singleton.1 ht
    cases hkind
  | case2 => cases h
  | case3 => cases h
  | case4 line c rest lexeme hfirst hshorter following hscan hnone ih =>
    obtain rfl := Except.ok.inj h
    exact ih hscan
  | case5 line c rest lexeme hfirst hshorter following hscan kind value htoken ih =>
    obtain rfl := Except.ok.inj h
    rw [List.forall_mem_cons]
    refine ⟨?_, ih hscan⟩
    rintro rfl
    obtain ⟨text, hnumeral, rfl⟩ := Lexeme.isNumeral_of_first hfirst htoken
    exact Number.isSome_ofText? hnumeral

/-- An error of a scan is about the text. -/
theorem error_of_scan {line : Nat} {source : List Char} {e : Error} (h : scan line source = .error e) :
    e.cause.kind = .reading ∧ ∀ text, e.cause ≠ .malformedNumber text := by
  fun_induction scan line source with
  | case1 line => cases h
  | case2 line c rest cause hfirst =>
    obtain rfl := Except.error.inj h
    exact Lexeme.error_of_first hfirst
  | case3 line c rest lexeme hfirst hshorter e' hscan ih =>
    obtain rfl := Except.error.inj h
    exact ih hscan
  | case4 => cases h
  | case5 => cases h

end Token
end LexScript
