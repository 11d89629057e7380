import LexScript.Proofs.Token.Rules
import LexScript.Token.Lexeme

/-!
# Maximal munch

What the scanner takes is as long as any match of any rule at the same place, `Lexeme.length_le_of_matches`,
so the order of the table never cuts a lexeme short. `Token.maximal_munch` puts the whole scan together.
-/

namespace LexScript

namespace Lexeme

theorem toNat_of_isDigit {c : Char} (h : c.isDigit = true) : 48 ≤ c.toNat ∧ c.toNat ≤ 57 := by
  simp only [Char.isDigit, Bool.and_eq_true, decide_eq_true_eq] at h
  exact h

theorem toNat_of_isNameStart {c : Char} (h : isNameStart c = true) : 65 ≤ c.toNat ∧ c.toNat ≤ 122 := by
  rcases Bool.or_eq_true_iff.1 h with hletter | hunderscore
  · rcases Bool.or_eq_true_iff.1 hletter with hupper | hlower
    · have hbounds : 65 ≤ c.toNat ∧ c.toNat ≤ 90 := of_decide_eq_true hupper
      omega
    · obtain ⟨hlow, hhigh⟩ := Bool.and_eq_true_iff.1 hlower
      have hlow : 97 ≤ c.toNat := of_decide_eq_true hlow
      have hhigh : c.toNat ≤ 122 := of_decide_eq_true hhigh
      omega
  · rw [of_decide_eq_true hunderscore]
    decide

theorem toNat_of_isBlank {c : Char} (h : Text.isBlank c = true) : c.toNat ≤ 32 ∨ 123 ≤ c.toNat := by
  have hranges : ∀ range ∈ Text.blankRanges, range.2 ≤ 32 ∨ 123 ≤ range.1 := by decide
  obtain ⟨range, hmem, hrange⟩ := List.any_eq_true.1 h
  simp only [Bool.and_eq_true, decide_eq_true_eq] at hrange
  have := hranges range hmem
  omega

/-- A number is no word, since no digit begins a name. -/
theorem first_of_isDigit {c : Char} (h : c.isDigit = true) (rest : List Char) :
    first c rest =
      .ok (verbatim .number (splitNumber (c :: rest)).1 (splitNumber (c :: rest)).2) := by
  have hstart : isNameStart c ≠ true := by
    intro hstart
    have := toNat_of_isDigit h
    have := toNat_of_isNameStart hstart
    omega
  simp [first, hstart, h]

theorem first_of_isBlank {c : Char} (h : Text.isBlank c = true) (rest : List Char) :
    first c rest = .ok ⟨none, (run Text.isBlank (c :: rest)).1, (run Text.isBlank (c :: rest)).2⟩ := by
  have hblank := toNat_of_isBlank h
  have hstart : isNameStart c ≠ true := by
    intro hstart
    have := toNat_of_isNameStart hstart
    omega
  have hdigit : c.isDigit ≠ true := by
    intro hdigit
    have := toNat_of_isDigit hdigit
    omega
  simp [first, hstart, hdigit, h]

theorem length_le_takeWhile {accepts : Char → Bool} {a s : List Char} (hall : ∀ c ∈ a, accepts c = true)
    (ha : a <+: s) : a.length ≤ (s.takeWhile accepts).length := by
  obtain ⟨after, rfl⟩ := ha
  rw [List.takeWhile_append_of_pos hall, List.length_append]
  omega

/-- A run ends where its class does. -/
theorem run_eq {p : Char → Bool} {text after : List Char} (hall : ∀ c ∈ text, p c = true)
    (hafter : ∀ c ∈ after.head?, p c = false) : run p (text ++ after) = (text, after) := by
  rw [run, List.takeWhile_append_of_pos hall, List.dropWhile_append_of_pos hall]
  cases after with
  | nil => simp
  | cons c rest =>
    have hc := hafter c rfl
    simp [hc]

theorem matches_number_iff {a : List Char} : Pattern.Matches .number a ↔
    ∃ d digits more, a = d :: (digits ++ more) ∧ d.isDigit = true ∧ (∀ c ∈ digits, c.isDigit = true) ∧
      (Pattern.Matches .fraction more ∨ more = []) := by
  rw [Pattern.number, Pattern.matches_one_both_iff]
  simp only [Pattern.matches_both_iff, Pattern.matches_many_one_iff, Pattern.matches_either_iff,
    Pattern.matches_nothing_iff]
  constructor
  · rintro ⟨d, _, hd, ⟨digits, more, hdigits, hmore, rfl⟩, rfl⟩
    exact ⟨d, digits, more, rfl, hd, hdigits, hmore⟩
  · rintro ⟨d, digits, more, rfl, hd, hdigits, hmore⟩
    exact ⟨d, _, hd, ⟨digits, more, hdigits, hmore, rfl⟩, rfl⟩

theorem length_le_splitNumber {a s : List Char} (h : Pattern.Matches .number a) (ha : a <+: s) :
    a.length ≤ (splitNumber s).1.length := by
  obtain ⟨d, digits, more, rfl, hd, hdigits, hmore⟩ := matches_number_iff.1 h
  have hall : ∀ c ∈ d :: digits, c.isDigit = true := List.forall_mem_cons.2 ⟨hd, hdigits⟩
  rcases hmore with hmore | rfl
  · obtain ⟨e, others, rfl, he, hothers⟩ := matches_fraction_iff.1 hmore
    obtain ⟨after, rfl⟩ := ha
    have hrun : run Char.isDigit (d :: (digits ++ '.' :: e :: others) ++ after) =
        (d :: digits, '.' :: e :: (others ++ after)) := by
      have happend : d :: (digits ++ '.' :: e :: others) ++ after =
          (d :: digits) ++ '.' :: e :: (others ++ after) := by simp
      rw [happend, run_eq hall (by simp)]
    have hlen : (e :: others).length ≤ ((e :: (others ++ after)).takeWhile Char.isDigit).length :=
      length_le_takeWhile (List.forall_mem_cons.2 ⟨he, hothers⟩) ⟨after, rfl⟩
    rw [splitNumber, hrun]
    simp only [he, if_true, run, List.length_append, List.length_cons] at hlen ⊢
    omega
  · rw [List.append_nil] at ha ⊢
    have hlen := length_le_takeWhile hall ha
    have hwhole : (run Char.isDigit s).1.length ≤ (splitNumber s).1.length := by
      unfold splitNumber
      split
      · rename_i heq
        rw [heq]
        split <;> simp
      · exact Nat.le_refl _
    exact Nat.le_trans hlen hwhole

theorem first_quote (rest : List Char) : first '"' rest = match StringLiteral.split rest with
    | some (body, after) =>
      .ok ⟨some (.string, String.ofList (StringLiteral.unescape body)), '"' :: body ++ ['"'], after⟩
    | none => .error (.unexpectedTokenBecause "\"" "unterminated string literal") :=
  rfl

/-- A mark is taken, or a longer one. -/
theorem length_le_of_mark {c : Char} {rest : List Char} {l : Lexeme} (h : first c rest = .ok l)
    {mark : List Char × TokenKind} (hmark : mark ∈ marks) (hfront : mark.1 <+: c :: rest) :
    mark.1.length ≤ l.text.length := by
  obtain ⟨text, kind⟩ := mark
  have hkind := mem_marks_iff.1 hmark
  unfold kindOfMark? at hkind
  split at hkind
  · exact List.length_pos_iff.2 (append_of_first h).2
  · rename_i x y
    obtain ⟨after, hafter⟩ := hfront
    obtain ⟨rfl, rfl⟩ := List.cons.inj hafter
    have hfirst : first x (y :: after) = .ok (verbatim kind [x, y] after) := by
      unfold pairKind? at hkind
      split at hkind
      case h_8 => cases hkind
      all_goals
        obtain rfl := Option.some.inj hkind
        rfl
    obtain rfl := Except.ok.inj (hfirst.symm.trans h)
    exact Nat.le_refl _
  · cases hkind

/-- No rule matches more than what is taken. -/
theorem length_le_of_matches {c : Char} {rest : List Char} {l : Lexeme} (h : first c rest = .ok l)
    {rule : Rule} (hrule : rule ∈ rules) {a : List Char} (ha : a <+: c :: rest)
    (hmatch : rule.pattern.Matches a) : a.length ≤ l.text.length := by
  rcases List.mem_append.1 hrule with hmem | hmem
  · simp only [List.mem_cons, List.not_mem_nil, or_false] at hmem
    rcases hmem with rfl | rfl | rfl | rfl | rfl | rfl
    · obtain ⟨d, more, hd, hmore, rfl⟩ := Pattern.matches_one_both_iff.1 hmatch
      obtain ⟨rfl, -⟩ := List.cons_prefix_cons.1 ha
      rw [first, if_pos hd] at h
      obtain rfl := Except.ok.inj h
      refine length_le_takeWhile (List.forall_mem_cons.2 ⟨isNamePart_of_isNameStart hd, ?_⟩) ha
      exact Pattern.matches_many_one_iff.1 hmore
    · obtain ⟨d, digits, more, rfl, hd, -⟩ := matches_number_iff.1 hmatch
      obtain ⟨rfl, -⟩ := List.cons_prefix_cons.1 ha
      rw [first_of_isDigit hd] at h
      obtain rfl := Except.ok.inj h
      exact length_le_splitNumber hmatch ha
    · obtain ⟨d, more, hd, hmore, rfl⟩ := Pattern.matches_one_both_iff.1 hmatch
      obtain ⟨rfl, -⟩ := List.cons_prefix_cons.1 ha
      rw [first_of_isBlank hd] at h
      obtain rfl := Except.ok.inj h
      refine length_le_takeWhile (List.forall_mem_cons.2 ⟨hd, ?_⟩) ha
      exact Pattern.matches_many_one_iff.1 hmore
    · obtain ⟨body, hbody, rfl⟩ := StringLiteral.matches_string_iff.1 hmatch
      obtain ⟨after, hafter⟩ := ha
      obtain ⟨rfl, hrest⟩ := List.cons.inj hafter
      have hsplit : StringLiteral.split rest = some (body, after) :=
        StringLiteral.split_eq_some_iff.2 ⟨hbody, by rw [← hrest]; simp⟩
      rw [first_quote, hsplit] at h
      obtain rfl := Except.ok.inj h
      exact Nat.le_refl _
    · rw [Pattern.matches_literal_iff.1 hmatch]
      exact List.length_pos_iff.2 (append_of_first h).2
    · obtain ⟨more, rfl, hmore⟩ := matches_comment_iff.1 hmatch
      have hall : ∀ c ∈ '/' :: '/' :: more, decide (c ≠ '\n') = true := by
        simpa using hmore
      have hlen := length_le_takeWhile hall ha
      obtain ⟨after, hafter⟩ := ha
      obtain ⟨rfl, rfl⟩ := List.cons.inj hafter
      obtain rfl := Except.ok.inj h
      exact hlen
  · obtain ⟨mark, hmark, rfl⟩ := List.mem_map.1 hmem
    rw [Pattern.matches_literal_iff.1 hmatch] at ha ⊢
    exact length_le_of_mark h hmark ha

def Rule.Misses (source : List Char) (rule : Rule) : Prop := ∀ a, a <+: source → ¬ rule.pattern.Matches a

theorem Rule.take?_eq_none_iff {rule : Rule} {source : List Char} :
    rule.take? source = none ↔ rule.Misses source := by
  rw [Rule.take?, Option.map_eq_none_iff]
  exact Pattern.preferred?_eq_none_iff

/-- A rule takes the whole of its preferred match. -/
theorem Rule.text_of_take {rule : Rule} (h : rule ∈ rules) {source matched after : List Char} {l : Lexeme}
    (hmatched : rule.pattern.preferred? source = some (matched, after))
    (htake : rule.action.take source matched after = .ok l) : l.text = matched ∧ l.rest = after := by
  rcases List.mem_append.1 h with hmem | hmem
  · simp only [List.mem_cons, List.not_mem_nil, or_false] at hmem
    rcases hmem with rfl | rfl | rfl | rfl | rfl | rfl
    case inr.inr.inr.inr.inl => cases htake
    all_goals
      obtain rfl := Except.ok.inj htake
      exact ⟨rfl, rfl⟩
  · obtain ⟨mark, -, rfl⟩ := List.mem_map.1 hmem
    obtain ⟨hmatch, rfl⟩ := Pattern.matches_of_preferred? hmatched
    obtain rfl := Pattern.matches_literal_iff.1 hmatch
    obtain rfl := Except.ok.inj htake
    exact ⟨rfl, List.drop_left ..⟩

def reservedWords : List (String × TokenKind) :=
  [("let", .letWord), ("fn", .fnWord), ("return", .returnWord), ("if", .ifWord), ("else", .elseWord),
    ("while", .whileWord), ("for", .forWord), ("print", .printWord), ("true", .trueWord),
    ("false", .falseWord)]

/-- A word has the kind of a reserved word exactly if it is that word. -/
theorem wordKind_eq_iff {word : String} {kind : TokenKind} (hkind : kind ≠ .identifier) :
    wordKind word = kind ↔ (word, kind) ∈ reservedWords := by
  constructor
  · rintro rfl
    unfold wordKind at hkind ⊢
    split
    case h_11 => simp at hkind
    all_goals decide
  · have hwords : ∀ reserved ∈ reservedWords, wordKind reserved.1 = reserved.2 := by decide
    exact fun h => hwords _ h

/-- The lexeme at the front of a text: it is what the first rule that matches prefers, no rule matches
more, and a word is reserved only as a whole. -/
structure Munch (source : List Char) (l : Lexeme) : Prop where
  firstRule : ∃ earlier rule later, rules = earlier ++ rule :: later ∧
    (∀ r ∈ earlier, r.Misses source) ∧ rule.pattern.preferred? source = some (l.text, l.rest) ∧
      rule.action.take source l.text l.rest = .ok l
  longest : ∀ rule ∈ rules, ∀ a, a <+: source → rule.pattern.Matches a → a.length ≤ l.text.length
  nonempty : l.text ≠ []
  word : Pattern.word.Matches l.text → ∃ kind, l.token = some (kind, String.ofList l.text) ∧
    ∀ k, k ≠ .identifier → (kind = k ↔ (String.ofList l.text, k) ∈ reservedWords)

/-- The text can not go on with a lexeme: no rule matches, or a quote is never closed. -/
inductive Refused : List Char → Cause → Prop
  | unrecognised {c : Char} {rest : List Char} (misses : ∀ rule ∈ rules, rule.Misses (c :: rest)) :
    Refused (c :: rest) (.unrecognisedToken (String.ofList [c]))
  | unterminated {rest : List Char}
    (unclosed : ∀ body after, Pattern.stringPart.many.Matches body → rest ≠ body ++ '"' :: after) :
    Refused ('"' :: rest) (.unexpectedTokenBecause "\"" "unterminated string literal")

theorem Refused.exists_cons {source : List Char} {cause : Cause} (h : Refused source cause) :
    ∃ c rest, source = c :: rest := by
  cases h with
  | unrecognised misses => exact ⟨_, _, rfl⟩
  | unterminated unclosed => exact ⟨_, _, rfl⟩

theorem munch_of_first {c : Char} {rest : List Char} {l : Lexeme} (h : first c rest = .ok l) :
    Munch (c :: rest) l where
  firstRule := by
    have hrules : rules.findSome? (Rule.take? (c :: rest)) = some (.ok l) := by
      rw [first_eq_ofRules, ofRules] at h
      cases hfind : rules.findSome? (Rule.take? (c :: rest)) with
      | none =>
        rw [hfind] at h
        cases h
      | some result =>
        rw [hfind] at h
        simp [← h]
    obtain ⟨earlier, rule, later, heq, htake, hearlier⟩ := List.findSome?_eq_some_iff.1 hrules
    obtain ⟨⟨matched, after⟩, hmatched, htake⟩ := Option.map_eq_some_iff.1 htake
    have hmem : rule ∈ rules := by
      rw [heq]
      exact List.mem_append_right _ (List.mem_cons_self ..)
    obtain ⟨rfl, rfl⟩ := Rule.text_of_take hmem hmatched htake
    exact ⟨earlier, rule, later, heq, fun r hr => Rule.take?_eq_none_iff.1 (hearlier r hr), hmatched, htake⟩
  longest rule hrule a ha hmatch := length_le_of_matches h hrule ha hmatch
  nonempty := (append_of_first h).2
  word hword := by
    obtain ⟨d, more, hd, -, htext⟩ := Pattern.matches_one_both_iff.1 hword
    have happend := (append_of_first h).1
    rw [htext] at happend
    obtain ⟨rfl, -⟩ := List.cons.inj happend
    rw [first, if_pos hd] at h
    obtain rfl := Except.ok.inj h
    exact ⟨_, rfl, fun k hk => wordKind_eq_iff hk⟩

/-- Only a quote that is not closed makes a rule fail. -/
theorem Rule.eq_quote_of_error {rule : Rule} (h : rule ∈ rules) {source : List Char} {cause : Cause}
    (htake : rule.take? source = some (.error cause)) : ∃ rest, source = '"' :: rest := by
  obtain ⟨⟨matched, after⟩, hmatched, htake⟩ := Option.map_eq_some_iff.1 htake
  rcases List.mem_append.1 h with hmem | hmem
  · simp only [List.mem_cons, List.not_mem_nil, or_false] at hmem
    rcases hmem with rfl | rfl | rfl | rfl | rfl | rfl
    case inr.inr.inr.inr.inl =>
      obtain ⟨hmatch, rfl⟩ := Pattern.matches_of_preferred? hmatched
      rw [Pattern.matches_literal_iff.1 hmatch]
      exact ⟨after, rfl⟩
    all_goals cases htake
  · obtain ⟨mark, -, rfl⟩ := List.mem_map.1 hmem
    cases htake

theorem first_quote_eq_error_iff {rest : List Char} {cause : Cause} : first '"' rest = .error cause ↔
    (∀ body after, Pattern.stringPart.many.Matches body → rest ≠ body ++ '"' :: after) ∧
      cause = .unexpectedTokenBecause "\"" "unterminated string literal" := by
  rw [first_quote]
  cases hsplit : StringLiteral.split rest with
  | none =>
    refine ⟨fun h => ⟨fun body after hbody hrest => ?_, (Except.error.inj h).symm⟩, fun h => h.2 ▸ rfl⟩
    rw [StringLiteral.split_eq_some_iff.2 ⟨hbody, hrest⟩] at hsplit
    cases hsplit
  | some parts =>
    obtain ⟨hbody, hrest⟩ := StringLiteral.split_eq_some_iff.1 hsplit
    exact ⟨nofun, fun h => absurd hrest (h.1 _ _ hbody)⟩

theorem first_eq_error_iff {c : Char} {rest : List Char} {cause : Cause} :
    first c rest = .error cause ↔ Refused (c :: rest) cause := by
  constructor
  · intro h
    have hrules := h
    rw [first_eq_ofRules, ofRules] at hrules
    cases hfind : rules.findSome? (Rule.take? (c :: rest)) with
    | none =>
      rw [hfind] at hrules
      obtain rfl := Except.error.inj hrules
      exact .unrecognised fun rule hrule =>
        Rule.take?_eq_none_iff.1 (List.findSome?_eq_none_iff.1 hfind rule hrule)
    | some result =>
      obtain ⟨rule, hrule, htake⟩ := List.exists_of_findSome?_eq_some hfind
      rw [hfind] at hrules
      obtain rfl : result = .error cause := hrules
      obtain ⟨after, hquote⟩ := rule.eq_quote_of_error hrule htake
      obtain ⟨rfl, rfl⟩ := List.cons.inj hquote
      obtain ⟨hunclosed, rfl⟩ := first_quote_eq_error_iff.1 h
      exact .unterminated hunclosed
  · intro h
    cases h with
    | unrecognised misses =>
      have hnone : rules.findSome? (Rule.take? (c :: rest)) = none :=
        List.findSome?_eq_none_iff.2 fun rule hrule => Rule.take?_eq_none_iff.2 (misses rule hrule)
      simp [first_eq_ofRules, ofRules, hnone]
    | unterminated unclosed => exact first_quote_eq_error_iff.2 ⟨unclosed, rfl⟩

end Lexeme

namespace Token

/-- The scanner takes these lexemes from the front of the text, and then stands before `after`. -/
inductive Takes : (source : List Char) → List Lexeme → (after : List Char) → Prop
  | start (source : List Char) : Takes source [] source
  | next {c : Char} {rest after : List Char} {l : Lexeme} {ls : List Lexeme}
    (first : Lexeme.first c rest = .ok l) (more : Takes l.rest ls after) : Takes (c :: rest) (l :: ls) after

def ofLexeme? (line : Nat) (l : Lexeme) : Option Token := l.token.map fun (kind, value) => ⟨kind, value, line⟩

/-- The tokens of lexemes that begin on a line, and the end of file. -/
def ofLexemes (line : Nat) : List Lexeme → List Token
  | [] => [endOfFile line]
  | l :: ls => (ofLexeme? line l).toList ++ ofLexemes (line + l.text.count '\n') ls

/-- Lexemes and what is left make up the text. -/
theorem Takes.append {source after : List Char} {ls : List Lexeme} (h : Takes source ls after) :
    ls.flatMap Lexeme.text ++ after = source := by
  induction h with
  | start source => rfl
  | next first more ih => simp [ih, (Lexeme.append_of_first first).1]

theorem scan_of_first {line : Nat} {c : Char} {rest : List Char} {l : Lexeme}
    (h : Lexeme.first c rest = .ok l) : scan line (c :: rest) =
      (scan (line + l.text.count '\n') l.rest).map ((ofLexeme? line l).toList ++ ·) := by
  rw [scan]
  split
  · rename_i cause herror
    rw [herror] at h
    cases h
  · rename_i l' hok
    obtain rfl := Except.ok.inj (hok.symm.trans h)
    cases scan (line + l'.text.count '\n') l'.rest with
    | error e => rfl
    | ok following => cases htoken : l'.token <;> simp [Except.map, ofLexeme?, htoken]

theorem scan_of_error {line : Nat} {c : Char} {rest : List Char} {cause : Cause}
    (h : Lexeme.first c rest = .error cause) : scan line (c :: rest) = .error ⟨cause, line⟩ := by
  rw [scan]
  split
  · rename_i cause' herror
    obtain rfl := Except.error.inj (herror.symm.trans h)
    rfl
  · rename_i l hok
    rw [hok] at h
    cases h

theorem Takes.scan_eq_ok {source after : List Char} {ls : List Lexeme} (h : Takes source ls after)
    (hafter : after = []) (line : Nat) : scan line source = .ok (ofLexemes line ls) := by
  induction h generalizing line with
  | start source =>
    subst hafter
    rw [scan]
    rfl
  | next first more ih =>
    rw [scan_of_first first, ih hafter]
    rfl

theorem Takes.scan_eq_error {source after : List Char} {ls : List Lexeme} (h : Takes source ls after)
    {cause : Cause} (hafter : Lexeme.Refused after cause) (line : Nat) :
    scan line source = .error ⟨cause, line + (ls.flatMap Lexeme.text).count '\n'⟩ := by
  induction h generalizing line with
  | start source =>
    obtain ⟨c, rest, rfl⟩ := hafter.exists_cons
    exact scan_of_error (Lexeme.first_eq_error_iff.2 hafter)
  | next first more ih =>
    simp only [scan_of_first first, ih hafter, List.flatMap_cons, List.count_append, Nat.add_assoc]
    rfl

/-- The scanner goes on to the end of the text or to a place where it is refused. -/
theorem exists_takes (source : List Char) :
    ∃ ls after, Takes source ls after ∧ (after = [] ∨ ∃ cause, Lexeme.Refused after cause) := by
  induction hlen : source.length using Nat.strong_induction_on generalizing source with
  | _ n ih =>
    subst hlen
    cases source with
    | nil => exact ⟨[], [], .start [], .inl rfl⟩
    | cons c rest =>
      cases hfirst : Lexeme.first c rest with
      | error cause => exact ⟨[], _, .start _, .inr ⟨cause, Lexeme.first_eq_error_iff.1 hfirst⟩⟩
      | ok l =>
        obtain ⟨ls, after, htakes, hafter⟩ := ih _ (Lexeme.length_rest_lt hfirst) l.rest rfl
        exact ⟨l :: ls, after, .next hfirst htakes, hafter⟩

theorem scan_eq_ok_iff {line : Nat} {source : List Char} {tokens : List Token} :
    scan line source = .ok tokens ↔ ∃ ls, Takes source ls [] ∧ tokens = ofLexemes line ls := by
  constructor
  · intro h
    obtain ⟨ls, after, htakes, rfl | ⟨cause, hrefused⟩⟩ := exists_takes source
    · exact ⟨ls, htakes, Except.ok.inj (h.symm.trans (htakes.scan_eq_ok rfl line))⟩
    · cases h.symm.trans (htakes.scan_eq_error hrefused line)
  · rintro ⟨ls, htakes, rfl⟩
    exact htakes.scan_eq_ok rfl line

theorem scan_eq_error_iff {line : Nat} {source : List Char} {e : Error} : scan line source = .error e ↔
    ∃ ls after, Takes source ls after ∧ Lexeme.Refused after e.cause ∧
      e.line = line + (ls.flatMap Lexeme.text).count '\n' := by
  constructor
  · intro h
    obtain ⟨ls, after, htakes, rfl | ⟨cause, hrefused⟩⟩ := exists_takes source
    · cases h.symm.trans (htakes.scan_eq_ok rfl line)
    · obtain rfl := Except.error.inj (h.symm.trans (htakes.scan_eq_error hrefused line))
      exact ⟨ls, after, htakes, hrefused, rfl⟩
  · rintro ⟨ls, after, htakes, hrefused, hline⟩
    simp [htakes.scan_eq_error hrefused line, ← hline]

/-- The scanner takes the longest lexeme everywhere. At every place that it reaches, what it takes is the
preferred match of the first rule that matches, and no rule matches more there; what it has taken and what is
left make up the text. The tokens are those of the lexemes up to the end of the text, and the scan fails
exactly if it reaches a place where no rule matches or a quote is never closed. -/
theorem maximal_munch (source : String) :
    (∀ ls c rest l, Takes source.toList ls (c :: rest) → Lexeme.first c rest = .ok l →
      Lexeme.Munch (c :: rest) l) ∧
    (∀ ls after, Takes source.toList ls after → ls.flatMap Lexeme.text ++ after = source.toList) ∧
    (∀ tokens, ofSource source = .ok tokens ↔
      ∃ ls, Takes source.toList ls [] ∧ tokens = ofLexemes 1 ls) ∧
    ∀ e, ofSource source = .error e ↔ ∃ ls after, Takes source.toList ls after ∧
      Lexeme.Refused after e.cause ∧ e.line = 1 + (ls.flatMap Lexeme.text).count '\n' :=
  ⟨fun _ _ _ _ _ hfirst => Lexeme.munch_of_first hfirst, fun _ _ htakes => htakes.append,
    fun _ => scan_eq_ok_iff, fun _ => scan_eq_error_iff⟩

/-- Two equal signs are one mark, and the quote behind them is never closed. -/
theorem maximal_munch_openQuoteSample :
    Lexeme.Munch ['=', '=', '"'] ⟨some (.equals, "=="), ['=', '='], ['"']⟩ ∧
      ∃ ls after, Takes "x==\"".toList ls after ∧ ls.flatMap Lexeme.text ++ after = "x==\"".toList ∧
        Lexeme.Refused after (.unexpectedTokenBecause "\"" "unterminated string literal") := by
  obtain ⟨hmunch, happend, -, herror⟩ := maximal_munch "x==\""
  refine ⟨hmunch [⟨some (.identifier, "x"), ['x'], ['=', '=', '"']⟩] '=' ['=', '"'] _ ?_ rfl, ?_⟩
  · exact .next rfl (.start _)
  · have hfails : ofSource "x==\"" =
        .error ⟨.unexpectedTokenBecause "\"" "unterminated string literal", 1⟩ := by
      decide +kernel
    obtain ⟨ls, after, htakes, hrefused, -⟩ := (herror _).1 hfails
    exact ⟨ls, after, htakes, happend ls after htakes, hrefused⟩

end Token
end LexScript
