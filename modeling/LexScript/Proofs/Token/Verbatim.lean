import LexScript.Proofs.Token.Munch

/-!
# Words, numbers and marks

The value of a token is its text, unless the token is a string. `Lexeme.verbatim_of_first` says which texts
these are, and `Lexeme.IsVerbatim.first` that the scanner takes such a text again wherever white space or
nothing at all follows it.
-/

namespace LexScript

/-- Nothing follows, or white space does. -/
def Text.IsSevered (after : List Char) : Prop := ∀ c ∈ after.head?, Text.isBlank c = true

namespace Lexeme

/-- The text of a token that has this text as its value. -/
inductive IsVerbatim : TokenKind → List Char → Prop
  | word {c : Char} {more : List Char} (begins : isNameStart c = true) (all : ∀ d ∈ more, isNamePart d = true) :
    IsVerbatim (wordKind (String.ofList (c :: more))) (c :: more)
  | number {text : List Char} (digits : Pattern.number.Matches text) : IsVerbatim .number text
  | mark {c : Char} {kind : TokenKind} (single : markKind? c = some kind) : IsVerbatim kind [c]
  | pair {c d : Char} {kind : TokenKind} (double : pairKind? c d = some kind) : IsVerbatim kind [c, d]

theorem markKind?_other {c : Char} {kind : TokenKind} (h : markKind? c = some kind) :
    (isNameStart c = false ∧ c.isDigit = false ∧ Text.isBlank c = false) ∧ c ≠ '"' ∧ c ≠ '\n' ∧
      kind ≠ .string ∧ kind ≠ .eof := by
  unfold markKind? at h
  split at h
  case h_17 => cases h
  all_goals
    obtain rfl := Option.some.inj h
    decide

theorem pairKind?_other {c d : Char} {kind : TokenKind} (h : pairKind? c d = some kind) :
    Text.isBlank d = false ∧ c ≠ '\n' ∧ d ≠ '\n' ∧ kind ≠ .string ∧ kind ≠ .eof := by
  unfold pairKind? at h
  split at h
  case h_8 => cases h
  all_goals
    obtain rfl := Option.some.inj h
    decide

theorem wordKind_other (word : String) : wordKind word ≠ .string ∧ wordKind word ≠ .eof := by
  unfold wordKind
  split <;> decide

theorem verbatim_of_punctuation? {c : Char} {rest : List Char} {l : Lexeme} {kind : TokenKind} {value : String}
    (h : punctuation? c rest = some l) (hl : l.token = some (kind, value)) :
    IsVerbatim kind l.text ∧ value = String.ofList l.text := by
  rcases Option.or_eq_some_iff.1 h with h | ⟨-, h⟩
  · obtain ⟨d, -, h⟩ := Option.bind_eq_some_iff.1 h
    obtain ⟨k, hk, rfl⟩ := Option.map_eq_some_iff.1 h
    obtain ⟨rfl, rfl⟩ := Prod.mk.inj (Option.some.inj hl)
    exact ⟨.pair hk, rfl⟩
  · obtain ⟨k, hk, rfl⟩ := Option.map_eq_some_iff.1 h
    obtain ⟨rfl, rfl⟩ := Prod.mk.inj (Option.some.inj hl)
    exact ⟨.mark hk, rfl⟩

/-- Only a string stands for anything but its text. -/
theorem verbatim_of_first {c : Char} {rest : List Char} {l : Lexeme} {kind : TokenKind} {value : String}
    (h : first c rest = .ok l) (hl : l.token = some (kind, value)) (hkind : kind ≠ .string) :
    IsVerbatim kind l.text ∧ value = String.ofList l.text := by
  unfold first at h
  split at h
  · rename_i hc
    obtain rfl := Except.ok.inj h
    obtain ⟨rfl, rfl⟩ := Prod.mk.inj (Option.some.inj hl)
    have hword : (c :: rest).takeWhile isNamePart = c :: rest.takeWhile isNamePart :=
      List.takeWhile_cons_of_pos (isNamePart_of_isNameStart hc)
    refine ⟨?_, rfl⟩
    change IsVerbatim (wordKind (String.ofList ((c :: rest).takeWhile isNamePart))) ((c :: rest).takeWhile isNamePart)
    rw [hword]
    exact .word hc fun d hd => List.mem_takeWhile_imp hd
  split at h
  · rename_i hc
    obtain rfl := Except.ok.inj h
    obtain ⟨rfl, rfl⟩ := Prod.mk.inj (Option.some.inj hl)
    exact ⟨.number (Pattern.matches_of_preferred? (preferred?_number hc)).1, rfl⟩
  split at h
  · obtain rfl := Except.ok.inj h
    cases hl
  split at h
  · split at h
    · obtain rfl := Except.ok.inj h
      exact absurd (Prod.mk.inj (Option.some.inj hl)).1.symm hkind
    · cases h
  split at h
  · obtain rfl := Except.ok.inj h
    cases hl
  · split at h
    · rename_i hp
      obtain rfl := Except.ok.inj h
      exact verbatim_of_punctuation? hp hl
    · cases h

theorem first_word {c : Char} {more after : List Char} (hc : isNameStart c = true)
    (hmore : ∀ d ∈ more, isNamePart d = true) (hafter : ∀ d ∈ after.head?, isNamePart d = false) :
    first c (more ++ after) = .ok (verbatim (wordKind (String.ofList (c :: more))) (c :: more) after) := by
  have hall : ∀ d ∈ c :: more, isNamePart d = true := List.forall_mem_cons.2 ⟨isNamePart_of_isNameStart hc, hmore⟩
  simp only [first, if_pos hc, ← List.cons_append, run_eq hall hafter]

/-- A number ends before anything but a digit and a point. -/
theorem splitNumber_eq {text after : List Char} (h : Pattern.number.Matches text)
    (hafter : ∀ c ∈ after.head?, c.isDigit = false ∧ c ≠ '.') : splitNumber (text ++ after) = (text, after) := by
  obtain ⟨d, digits, more, rfl, hd, hdigits, hmore⟩ := matches_number_iff.1 h
  have hall : ∀ c ∈ d :: digits, c.isDigit = true := List.forall_mem_cons.2 ⟨hd, hdigits⟩
  have hstop : ∀ c ∈ after.head?, c.isDigit = false := fun c hc => (hafter c hc).1
  rcases hmore with hmore | rfl
  · obtain ⟨e, others, rfl, he, hothers⟩ := matches_fraction_iff.1 hmore
    have hrun : run Char.isDigit (d :: digits ++ '.' :: e :: (others ++ after)) =
        (d :: digits, '.' :: e :: (others ++ after)) := by
      refine run_eq hall ?_
      simp
    have hfraction : run Char.isDigit (e :: others ++ after) = (e :: others, after) :=
      run_eq (List.forall_mem_cons.2 ⟨he, hothers⟩) hstop
    have happend : d :: (digits ++ '.' :: e :: others) ++ after = d :: digits ++ '.' :: e :: (others ++ after) := by
      simp
    rw [List.cons_append] at hfraction
    rw [happend, splitNumber, hrun]
    simp [he, hfraction]
  · rw [List.append_nil, splitNumber, run_eq hall hstop]
    split
    · rename_i whole c rest heq
      obtain ⟨-, rfl⟩ := Prod.mk.inj heq
      exact absurd rfl (hafter '.' rfl).2
    · rfl

theorem isDigit_or_eq_point {text : List Char} (h : Pattern.number.Matches text) :
    ∀ c ∈ text, c.isDigit = true ∨ c = '.' := by
  obtain ⟨d, digits, more, rfl, hd, hdigits, hmore⟩ := matches_number_iff.1 h
  have hwhole : ∀ c ∈ d :: digits, c.isDigit = true := List.forall_mem_cons.2 ⟨hd, hdigits⟩
  intro c hc
  rcases List.mem_append.1 (show c ∈ (d :: digits) ++ more from hc) with hc | hc
  · exact .inl (hwhole c hc)
  rcases hmore with hmore | rfl
  · obtain ⟨e, others, rfl, he, hothers⟩ := matches_fraction_iff.1 hmore
    have hfraction : ∀ c ∈ e :: others, c.isDigit = true := List.forall_mem_cons.2 ⟨he, hothers⟩
    rcases List.mem_cons.1 hc with hpoint | hc
    · exact .inr hpoint
    · exact .inl (hfraction c hc)
  · cases hc

theorem first_number {c : Char} {more after : List Char} (h : Pattern.number.Matches (c :: more))
    (hafter : ∀ d ∈ after.head?, d.isDigit = false ∧ d ≠ '.') :
    first c (more ++ after) = .ok (verbatim .number (c :: more) after) := by
  obtain ⟨d, digits, others, heq, hd, -⟩ := matches_number_iff.1 h
  obtain ⟨rfl, -⟩ := List.cons.inj heq
  rw [first_of_isDigit hd, ← List.cons_append, splitNumber_eq h hafter]

/-- A mark of one character is taken where it is not the first half of a longer one, or of a comment. -/
theorem first_mark {c : Char} {kind : TokenKind} {after : List Char} (h : markKind? c = some kind)
    (hpair : ∀ d ∈ after.head?, pairKind? c d = none) (hcomment : c = '/' → after.head? ≠ some '/') :
    first c after = .ok (verbatim kind [c] after) := by
  obtain ⟨⟨hstart, hdigit, hblank⟩, hquote, -⟩ := markKind?_other h
  have hnone : (after.head?.bind fun d => (pairKind? c d).map (verbatim · [c, d] after.tail)) = none := by
    rw [Option.bind_eq_none_iff]
    intro d hd
    simp [hpair d hd]
  have hpunctuation : punctuation? c after = some (verbatim kind [c] after) := by
    simp [punctuation?, hnone, h]
  have hcomment : ¬(c = '/' ∧ after.head? = some '/') := fun hc => hcomment hc.1 hc.2
  simp [first, hstart, hdigit, hblank, hquote, hcomment, hpunctuation]

theorem first_pair {c d : Char} {kind : TokenKind} (h : pairKind? c d = some kind) (after : List Char) :
    first c (d :: after) = .ok (verbatim kind [c, d] after) := by
  unfold pairKind? at h
  split at h
  case h_8 => cases h
  all_goals
    obtain rfl := Option.some.inj h
    rfl

/-- A comment ends before its line feed. -/
theorem first_comment {text : List Char} (h : ∀ c ∈ text, c ≠ '\n') (rest : List Char) :
    first '/' ('/' :: (text ++ '\n' :: rest)) = .ok ⟨none, '/' :: '/' :: text, '\n' :: rest⟩ := by
  have hall : ∀ c ∈ '/' :: '/' :: text, decide (c ≠ '\n') = true := by simpa using h
  have hrun : run (· ≠ '\n') ('/' :: '/' :: text ++ '\n' :: rest) = ('/' :: '/' :: text, '\n' :: rest) :=
    run_eq hall (by simp)
  have hother : isNameStart '/' = false ∧ '/'.isDigit = false ∧ Text.isBlank '/' = false := by decide
  simp only [List.cons_append] at hrun
  simp only [first, hother, hrun]
  rfl

theorem isNamePart_of_isBlank {c : Char} (h : Text.isBlank c = true) : isNamePart c = false := by
  have hblank := toNat_of_isBlank h
  rw [Bool.eq_false_iff]
  intro hpart
  rcases Bool.or_eq_true_iff.1 hpart with hletter | hunderscore
  · rcases Bool.or_eq_true_iff.1 hletter with halpha | hdigit
    · have := toNat_of_isNameStart (Bool.or_eq_true_iff.2 (.inl halpha))
      omega
    · have := toNat_of_isDigit hdigit
      omega
  · have := toNat_of_isNameStart (Bool.or_eq_true_iff.2 (.inr hunderscore))
    omega

namespace IsVerbatim

variable {kind : TokenKind} {text : List Char}

theorem kind_ne (h : IsVerbatim kind text) : kind ≠ .string ∧ kind ≠ .eof := by
  cases h with
  | word => exact wordKind_other _
  | number => decide
  | mark single => exact (markKind?_other single).2.2.2
  | pair double => exact (pairKind?_other double).2.2.2

/-- No such text has a line feed. -/
theorem not_mem_lineFeed (h : IsVerbatim kind text) : '\n' ∉ text := by
  cases h with
  | @word c more begins all =>
    have hall : ∀ d ∈ c :: more, isNamePart d = true :=
      List.forall_mem_cons.2 ⟨isNamePart_of_isNameStart begins, all⟩
    exact fun hmem => absurd (hall _ hmem) (by decide)
  | number digits =>
    intro hmem
    rcases isDigit_or_eq_point digits _ hmem with hdigit | hpoint
    · exact absurd hdigit (by decide)
    · exact absurd hpoint (by decide)
  | mark single =>
    rw [List.mem_singleton]
    exact (markKind?_other single).2.2.1.symm
  | pair double =>
    obtain ⟨-, hc, hd, -⟩ := pairKind?_other double
    simp [hc.symm, hd.symm]

/-- Where nothing can belong to it, the whole text is taken. -/
theorem first (h : IsVerbatim kind text) {after : List Char} (hafter : Text.IsSevered after) :
    ∃ c more, text = c :: more ∧ Lexeme.first c (more ++ after) = .ok (verbatim kind text after) := by
  cases h with
  | word begins all =>
    exact ⟨_, _, rfl, first_word begins all fun d hd => isNamePart_of_isBlank (hafter d hd)⟩
  | number digits =>
    obtain ⟨c, whole, more, rfl, -⟩ := matches_number_iff.1 digits
    refine ⟨c, _, rfl, first_number digits fun d hd => ?_⟩
    have hblank := toNat_of_isBlank (hafter d hd)
    refine ⟨Bool.eq_false_iff.2 fun hdigit => ?_, ?_⟩
    · have := toNat_of_isDigit hdigit
      omega
    · rintro rfl
      exact absurd (hafter '.' hd) (by decide)
  | @mark c _ single =>
    refine ⟨c, [], rfl, first_mark single (fun d hd => ?_) fun _ hslash => ?_⟩
    · rw [Option.eq_none_iff_forall_ne_some]
      intro k hk
      exact absurd (hafter d hd) (Bool.eq_false_iff.1 (pairKind?_other hk).1)
    · exact absurd (hafter '/' hslash) (by decide)
  | pair double => exact ⟨_, _, rfl, first_pair double after⟩

end IsVerbatim

end Lexeme
end LexScript
