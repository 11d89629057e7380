import LexScript.Proofs.Token.Pattern
import LexScript.Token.Lexeme

/-!
# The table of rules

The scanner as a table of patterns, of which the first that matches at the front of the text decides what
is taken. `Lexeme.first_eq_ofRules` says that this is the lexeme that the scanner takes.
-/

namespace LexScript

namespace Pattern

def word : Pattern := both (one Lexeme.isNameStart) (many (one Lexeme.isNamePart))

def fraction : Pattern :=
  both (one fun c => c = '.') (both (one Char.isDigit) (many (one Char.isDigit)))

def number : Pattern :=
  both (one Char.isDigit) (both (many (one Char.isDigit)) (either fraction nothing))

def blanks : Pattern := both (one Text.isBlank) (many (one Text.isBlank))

/-- A backslash with any character but a line feed, or any character but a backslash or a quote. -/
def stringPart : Pattern :=
  either (both (one fun c => c = '\\') (one fun c => c ≠ '\n')) (one fun c => c ≠ '"' && c ≠ '\\')

def string : Pattern := both (one fun c => c = '"') (both (many stringPart) (literal ['"']))

def comment : Pattern :=
  both (one fun c => c = '/') (both (one fun c => c = '/') (many (one fun c => c ≠ '\n')))

end Pattern

namespace Lexeme

/-- What is done with a match. A mark is taken by the length of its own text. -/
inductive Action
  | word | number | skip | string | unterminated
  | mark (text : List Char) (kind : TokenKind)

/-- The lexeme at the front of a text whose preferred match is split off. -/
def Action.take (source matched rest : List Char) : Action → Except Cause Lexeme
  | word => .ok (verbatim (wordKind (String.ofList matched)) matched rest)
  | number => .ok (verbatim .number matched rest)
  | skip => .ok ⟨none, matched, rest⟩
  | string =>
    let value := StringLiteral.unescape matched.tail.dropLast
    .ok ⟨some (.string, String.ofList value), matched, rest⟩
  | unterminated => .error (.unexpectedTokenBecause "\"" "unterminated string literal")
  | mark text kind => .ok (verbatim kind text (source.drop text.length))

structure Rule where
  pattern : Pattern
  action : Action

/-- The punctuation marks with their kinds, each before the marks that it begins with. -/
def marks : List (List Char × TokenKind) :=
  [(['\x7b'], .openCurly), (['\x7d'], .closeCurly), (['('], .openParen), ([')'], .closeParen),
    (['=', '='], .equals), (['!', '='], .notEquals), (['!'], .not), (['='], .assignment),
    (['<', '='], .lessEquals), (['<'], .less), (['>', '='], .greaterEquals), (['>'], .greater),
    (['|', '|'], .or), (['&', '&'], .and), ([';'], .semicolon), ([':'], .colon), ([','], .comma),
    (['-', '>'], .arrow), (['+'], .plus), (['-'], .dash), (['/'], .slash), (['*'], .star),
    (['%'], .percent)]

def Rule.ofMark (mark : List Char × TokenKind) : Rule := ⟨.literal mark.1, .mark mark.1 mark.2⟩

def rules : List Rule :=
  [⟨.word, .word⟩, ⟨.number, .number⟩, ⟨.blanks, .skip⟩, ⟨.string, .string⟩,
    ⟨.literal ['"'], .unterminated⟩, ⟨.comment, .skip⟩] ++ marks.map Rule.ofMark

/-- What a rule takes from the front of a text, if its pattern matches there. -/
def Rule.take? (source : List Char) (rule : Rule) : Option (Except Cause Lexeme) :=
  (rule.pattern.preferred? source).map fun (matched, rest) => rule.action.take source matched rest

/-- What the first of the rules that match takes from the front of `c :: rest`. -/
def ofRules (c : Char) (rest : List Char) : Except Cause Lexeme :=
  (rules.findSome? (Rule.take? (c :: rest))).getD (.error (.unrecognisedToken (String.ofList [c])))

def mark? (source : List Char) : Option (List Char × TokenKind) :=
  marks.find? fun mark => mark.1.isPrefixOf source

theorem take?_ofMark (source : List Char) (mark : List Char × TokenKind) :
    (Rule.ofMark mark).take? source =
      if mark.1.isPrefixOf source then some (.ok (verbatim mark.2 mark.1 (source.drop mark.1.length)))
      else none := by
  split
  · rename_i h
    obtain ⟨rest, rfl⟩ := List.isPrefixOf_iff_prefix.1 h
    simp [Rule.take?, Rule.ofMark, Pattern.preferred?_literal, Action.take]
  · rename_i h
    have hnone : (Pattern.literal mark.1).preferred? source = none := by
      refine Pattern.preferred?_eq_none_iff.2 fun a ha hmatch => h ?_
      rw [Pattern.matches_literal_iff.1 hmatch] at ha
      exact List.isPrefixOf_iff_prefix.2 ha
    simp [Rule.take?, Rule.ofMark, hnone]

theorem findSome?_marks (source : List Char) :
    (marks.map Rule.ofMark).findSome? (Rule.take? source) =
      (mark? source).map fun mark => .ok (verbatim mark.2 mark.1 (source.drop mark.1.length)) := by
  rw [mark?]
  induction marks with
  | nil => rfl
  | cons mark marks ih =>
    simp only [List.map_cons, List.findSome?_cons, take?_ofMark, List.find?_cons]
    cases mark.1.isPrefixOf source with
    | true => rfl
    | false => exact ih

/-- No mark begins with one that stands before it in the table. -/
theorem pairwise_marks : marks.Pairwise fun mark later => ¬ mark.1 <+: later.1 := by decide

/-- The first mark at the front of a text is the longest. -/
theorem prefix_of_mark? {source : List Char} {mark other : List Char × TokenKind}
    (h : mark? source = some mark) (hother : other ∈ marks) (hsource : other.1 <+: source) :
    other.1 <+: mark.1 := by
  obtain ⟨hmark, before, after, hmarks, hbefore⟩ := List.find?_eq_some_iff_append.1 h
  have hmarkSource : mark.1 <+: source := List.isPrefixOf_iff_prefix.1 hmark
  rw [hmarks] at hother
  rcases List.mem_append.1 hother with hmem | hmem
  · have := hbefore other hmem
    simp [List.isPrefixOf_iff_prefix.2 hsource] at this
  rcases List.mem_cons.1 hmem with rfl | hmem
  · exact List.prefix_rfl
  · refine (List.prefix_or_prefix_of_prefix hsource hmarkSource).resolve_right fun hfront => ?_
    have hpairwise := pairwise_marks
    rw [hmarks] at hpairwise
    exact List.rel_of_pairwise_cons (List.pairwise_append.1 hpairwise).2.1 hmem hfront

def kindOfMark? : List Char → Option TokenKind
  | [c] => markKind? c
  | [c, d] => pairKind? c d
  | _ => none

theorem mem_marks_iff {text : List Char} {kind : TokenKind} :
    (text, kind) ∈ marks ↔ kindOfMark? text = some kind := by
  constructor
  · have hmarks : ∀ mark ∈ marks, kindOfMark? mark.1 = some mark.2 := by decide
    exact fun h => hmarks _ h
  · intro h
    unfold kindOfMark? at h
    split at h
    · unfold markKind? at h
      split at h
      case h_17 => cases h
      all_goals
        obtain rfl := Option.some.inj h
        decide
    · unfold pairKind? at h
      split at h
      case h_8 => cases h
      all_goals
        obtain rfl := Option.some.inj h
        decide
    · cases h

theorem mark?_eq_none_iff {source : List Char} :
    mark? source = none ↔ ∀ mark ∈ marks, ¬ mark.1 <+: source := by
  simp [mark?, List.find?_eq_none]

theorem prefix_source_of_mark? {source : List Char} {mark : List Char × TokenKind}
    (h : mark? source = some mark) : mark.1 <+: source := by
  have hfound := List.find?_some h
  exact List.isPrefixOf_iff_prefix.1 hfound

/-- A mark at the front of a text is its first character or its first two. -/
theorem eq_of_mark? {c : Char} {rest text : List Char} {kind : TokenKind}
    (h : mark? (c :: rest) = some (text, kind)) :
    (text = [c] ∧ markKind? c = some kind) ∨
      ∃ d, text = [c, d] ∧ rest.head? = some d ∧ pairKind? c d = some kind := by
  have hkind := mem_marks_iff.1 (List.mem_of_find?_eq_some h)
  obtain ⟨after, hafter⟩ := prefix_source_of_mark? h
  unfold kindOfMark? at hkind
  split at hkind
  · obtain ⟨rfl, -⟩ := List.cons.inj hafter
    exact .inl ⟨rfl, hkind⟩
  · obtain ⟨rfl, rfl⟩ := List.cons.inj hafter
    exact .inr ⟨_, rfl, rfl, hkind⟩
  · cases hkind

/-- Two characters are no mark where every mark is shorter. -/
theorem pairKind?_eq_none {c : Char} {rest : List Char}
    (h : ∀ mark ∈ marks, mark.1 <+: c :: rest → mark.1.length ≤ 1) :
    (rest.head?.bind fun d => pairKind? c d) = none := by
  by_contra hne
  obtain ⟨kind, hkind⟩ := Option.ne_none_iff_exists'.1 hne
  obtain ⟨d, hd, hpair⟩ := Option.bind_eq_some_iff.1 hkind
  obtain ⟨after, rfl⟩ := List.head?_eq_some_iff.1 hd
  have hmark : ([c, d], kind) ∈ marks := mem_marks_iff.2 hpair
  exact Nat.not_succ_le_self 1 (h _ hmark ⟨after, rfl⟩)

theorem punctuation?_eq (c : Char) (rest : List Char) :
    punctuation? c rest =
      (mark? (c :: rest)).map fun mark => verbatim mark.2 mark.1 ((c :: rest).drop mark.1.length) := by
  have hpunctuation : punctuation? c rest =
      ((rest.head?.bind fun d => pairKind? c d).map (verbatim · (c :: rest.head?.toList) rest.tail)).or
        ((markKind? c).map (verbatim · [c] rest)) := by
    cases rest <;> rfl
  rw [hpunctuation]
  cases h : mark? (c :: rest) with
  | none =>
    have hnone := mark?_eq_none_iff.1 h
    have hsingle : markKind? c = none := by
      by_contra hne
      obtain ⟨kind, hkind⟩ := Option.ne_none_iff_exists'.1 hne
      exact hnone ([c], kind) (mem_marks_iff.2 hkind) ⟨rest, rfl⟩
    rw [pairKind?_eq_none fun mark hmark hfront => absurd hfront (hnone mark hmark), hsingle]
    rfl
  | some mark =>
    obtain ⟨text, kind⟩ := mark
    rcases eq_of_mark? h with ⟨rfl, hkind⟩ | ⟨d, rfl, hd, hkind⟩
    · rw [pairKind?_eq_none fun mark hmark hfront => (prefix_of_mark? h hmark hfront).length_le, hkind]
      rfl
    · obtain ⟨after, rfl⟩ := List.head?_eq_some_iff.1 hd
      simp [hkind]

/-- A rule takes nothing where its pattern needs another first character. -/
theorem take?_eq_none {source : List Char} {action : Action} {accepts : Char → Bool} {q : Pattern} {c : Char}
    (h : accepts c = false) : Rule.take? (c :: source) ⟨.both (.one accepts) q, action⟩ = none := by
  simp [Rule.take?, Pattern.preferred?_both_of_not h]

/-- A word, a number or white space goes on as far as its class does. -/
theorem preferred?_class {accepts more : Char → Bool} {c : Char} {rest : List Char}
    (h : accepts c = true) (hmore : more c = true) :
    (Pattern.both (.one accepts) (.many (.one more))).preferred? (c :: rest) =
      some (run more (c :: rest)) := by
  rw [Pattern.preferred?_one_both h (Pattern.preferred?_many_one ..)]
  simp [run, hmore]

theorem matches_fraction_iff {a : List Char} : Pattern.Matches .fraction a ↔
    ∃ d more, a = '.' :: d :: more ∧ d.isDigit = true ∧ ∀ c ∈ more, c.isDigit = true := by
  simp only [Pattern.fraction, Pattern.matches_one_both_iff, Pattern.matches_many_one_iff,
    decide_eq_true_eq]
  constructor
  · rintro ⟨_, _, rfl, ⟨d, more, hd, hmore, rfl⟩, rfl⟩
    exact ⟨d, more, rfl, hd, hmore⟩
  · rintro ⟨d, more, rfl, hd, hmore⟩
    exact ⟨_, _, rfl, ⟨d, more, hd, hmore, rfl⟩, rfl⟩

theorem preferred?_fraction {d : Char} (h : d.isDigit = true) (rest : List Char) :
    Pattern.fraction.preferred? ('.' :: d :: rest) =
      some ('.' :: (run Char.isDigit (d :: rest)).1, (run Char.isDigit (d :: rest)).2) :=
  Pattern.preferred?_one_both rfl (preferred?_class h h)

theorem preferred?_number {c : Char} {rest : List Char} (h : c.isDigit = true) :
    Pattern.number.preferred? (c :: rest) = some (splitNumber (c :: rest)) := by
  have hrun : run Char.isDigit (c :: rest) =
      (c :: rest.takeWhile Char.isDigit, rest.dropWhile Char.isDigit) := by
    simp [run, h]
  have hnumber : ∀ {b after},
      (Pattern.either .fraction .nothing).preferred? (rest.dropWhile Char.isDigit) = some (b, after) →
        Pattern.number.preferred? (c :: rest) = some (c :: rest.takeWhile Char.isDigit ++ b, after) :=
    fun hb => Pattern.preferred?_one_both h (Pattern.preferred?_both (Pattern.preferred?_many_one ..) hb)
  have hwhole : Pattern.fraction.preferred? (rest.dropWhile Char.isDigit) = none →
      Pattern.number.preferred? (c :: rest) =
        some (c :: rest.takeWhile Char.isDigit, rest.dropWhile Char.isDigit) := by
    intro hnone
    simp [hnumber (Pattern.preferred?_either_of_none hnone)]
  unfold splitNumber
  rw [hrun]
  split
  · rename_i whole d more heq
    obtain ⟨rfl, hdrop⟩ := Prod.mk.inj heq
    rw [hdrop] at hnumber hwhole
    split
    · rename_i hd
      exact hnumber (Pattern.preferred?_either (preferred?_fraction hd more))
    · rename_i hd
      refine hwhole (Pattern.preferred?_eq_none_iff.2 fun a ha hmatch => hd ?_)
      obtain ⟨e, _, rfl, he, -⟩ := matches_fraction_iff.1 hmatch
      obtain ⟨rfl, -⟩ := List.cons_prefix_cons.1 (List.cons_prefix_cons.1 ha).2
      exact he
  · rename_i hpoint
    refine hwhole (Pattern.preferred?_eq_none_iff.2 fun a ha hmatch => ?_)
    obtain ⟨e, more, rfl, -, -⟩ := matches_fraction_iff.1 hmatch
    obtain ⟨after, hafter⟩ := ha
    exact hpoint _ _ _ (congrArg (Prod.mk _) hafter.symm)

end Lexeme

namespace StringLiteral

open Pattern

theorem matches_stringPart_iff {a : List Char} : Matches stringPart a ↔
    (∃ c, c ≠ '\n' ∧ a = ['\\', c]) ∨ ∃ c, c ≠ '"' ∧ c ≠ '\\' ∧ a = [c] := by
  simp only [stringPart, matches_either_iff, matches_one_both_iff, matches_one_iff, decide_eq_true_eq,
    Bool.and_eq_true, ne_eq]
  constructor
  · rintro (⟨_, _, rfl, ⟨c, hc, rfl⟩, rfl⟩ | ⟨c, ⟨hquote, hslash⟩, rfl⟩)
    · exact .inl ⟨c, hc, rfl⟩
    · exact .inr ⟨c, hquote, hslash, rfl⟩
  · rintro (⟨c, hc, rfl⟩ | ⟨c, hquote, hslash, rfl⟩)
    · exact .inl ⟨_, _, rfl, ⟨c, hc, rfl⟩, rfl⟩
    · exact .inr ⟨c, ⟨hquote, hslash⟩, rfl⟩

/-- A literal is split where its parts end in a quote, and this is the only place. -/
theorem split_eq_some_iff {source body after : List Char} : split source = some (body, after) ↔
    Matches (many stringPart) body ∧ source = body ++ '"' :: after := by
  constructor
  · intro h
    refine ⟨?_, eq_of_split h⟩
    fun_induction split source generalizing body after with
    | case1 => cases h
    | case2 rest =>
      obtain ⟨rfl, -⟩ := Prod.mk.inj (Option.some.inj h)
      exact .done
    | case3 => cases h
    | case4 => cases h
    | case5 c rest hc ih =>
      obtain ⟨⟨b, _⟩, hs, he⟩ := Option.map_eq_some_iff.1 h
      obtain ⟨rfl, rfl⟩ := Prod.mk.inj he
      exact .more (a := ['\\', c]) (matches_stringPart_iff.2 (.inl ⟨c, hc, rfl⟩)) (ih hs)
    | case6 c rest hquote hlast hpair ih =>
      obtain ⟨⟨b, _⟩, hs, he⟩ := Option.map_eq_some_iff.1 h
      obtain ⟨rfl, rfl⟩ := Prod.mk.inj he
      refine .more (a := [c]) (matches_stringPart_iff.2 (.inr ⟨c, hquote, ?_, rfl⟩)) (ih hs)
      -- A backslash is left only at the end of a text, where nothing can be split.
      rintro rfl
      cases rest with
      | nil => exact hlast rfl rfl
      | cons d rest => exact hpair d rest rfl rfl
  · rintro ⟨h, rfl⟩
    generalize hq : many stringPart = q at h
    induction h with
    | done => rfl
    | more first rest _ ihRest =>
      obtain rfl := many.inj hq
      have ih := ihRest rfl
      rcases matches_stringPart_iff.1 first with ⟨c, hc, rfl⟩ | ⟨c, hquote, hslash, rfl⟩
      · simp [split, hc, ih]
      · simp [split, hslash, ih]
    | _ => cases hq

theorem matches_string_iff {a : List Char} : Matches .string a ↔
    ∃ body, Matches (many stringPart) body ∧ a = '"' :: (body ++ ['"']) := by
  rw [Pattern.string, matches_one_both_iff]
  simp only [matches_both_iff, matches_literal_iff, decide_eq_true_eq]
  constructor
  · rintro ⟨_, _, rfl, ⟨body, _, hbody, rfl, rfl⟩, rfl⟩
    exact ⟨body, hbody, rfl⟩
  · rintro ⟨body, hbody, rfl⟩
    exact ⟨_, _, rfl, ⟨body, _, hbody, rfl, rfl⟩, rfl⟩

theorem preferred?_string (rest : List Char) : Pattern.string.preferred? ('"' :: rest) =
    (split rest).map fun (body, after) => ('"' :: (body ++ ['"']), after) := by
  cases h : Pattern.string.preferred? ('"' :: rest) with
  | none =>
    cases hsplit : split rest with
    | none => rfl
    | some parts =>
      obtain ⟨body, after⟩ := parts
      obtain ⟨hbody, rfl⟩ := split_eq_some_iff.1 hsplit
      refine absurd (matches_string_iff.2 ⟨body, hbody, rfl⟩) (preferred?_eq_none_iff.1 h _ ⟨after, ?_⟩)
      simp
  | some parts =>
    obtain ⟨a, after⟩ := parts
    obtain ⟨hmatch, happend⟩ := matches_of_preferred? h
    obtain ⟨body, hbody, rfl⟩ := matches_string_iff.1 hmatch
    have hrest : rest = body ++ '"' :: after := by simpa using happend.symm
    simp [split_eq_some_iff.2 ⟨hbody, hrest⟩]

end StringLiteral

namespace Lexeme

theorem matches_comment_iff {a : List Char} : Pattern.Matches .comment a ↔
    ∃ more, a = '/' :: '/' :: more ∧ ∀ c ∈ more, c ≠ '\n' := by
  simp only [Pattern.comment, Pattern.matches_one_both_iff, Pattern.matches_many_one_iff,
    decide_eq_true_eq]
  constructor
  · rintro ⟨_, _, rfl, ⟨_, more, rfl, hmore, rfl⟩, rfl⟩
    exact ⟨more, rfl, hmore⟩
  · rintro ⟨more, rfl, hmore⟩
    exact ⟨_, _, rfl, ⟨_, more, rfl, hmore, rfl⟩, rfl⟩

theorem preferred?_comment (rest : List Char) :
    Pattern.comment.preferred? ('/' :: '/' :: rest) = some (run (· ≠ '\n') ('/' :: '/' :: rest)) :=
  Pattern.preferred?_one_both rfl (preferred?_class rfl rfl)

theorem preferred?_comment_eq_none {c : Char} {rest : List Char}
    (h : ¬ (c = '/' ∧ rest.head? = some '/')) : Pattern.comment.preferred? (c :: rest) = none := by
  refine Pattern.preferred?_eq_none_iff.2 fun a ha hmatch => h ?_
  obtain ⟨more, rfl, -⟩ := matches_comment_iff.1 hmatch
  obtain ⟨after, hafter⟩ := ha
  obtain ⟨rfl, rfl⟩ := List.cons.inj hafter
  exact ⟨rfl, rfl⟩

theorem take?_of_preferred {rule : Rule} {source matched after : List Char}
    (h : rule.pattern.preferred? source = some (matched, after)) :
    rule.take? source = some (rule.action.take source matched after) := by
  simp [Rule.take?, h]

/-- The scanner takes what the first rule that matches takes. -/
theorem first_eq_ofRules (c : Char) (rest : List Char) : first c rest = ofRules c rest := by
  simp only [ofRules, rules, List.findSome?_append, findSome?_marks]
  unfold first
  split
  · rename_i hc
    have hword : Pattern.word.preferred? (c :: rest) = some (run isNamePart (c :: rest)) :=
      preferred?_class hc (isNamePart_of_isNameStart hc)
    rw [List.findSome?_cons, take?_of_preferred hword]
    rfl
  rename_i hstart
  have hstart : isNameStart c = false := (Bool.not_eq_true _).mp hstart
  rw [List.findSome?_cons, Pattern.word, take?_eq_none hstart]
  split
  · rename_i hc
    rw [List.findSome?_cons, take?_of_preferred (preferred?_number hc)]
    rfl
  rename_i hdigit
  have hdigit : c.isDigit = false := (Bool.not_eq_true _).mp hdigit
  rw [List.findSome?_cons, Pattern.number, take?_eq_none hdigit]
  split
  · rename_i hc
    rw [List.findSome?_cons, take?_of_preferred (preferred?_class hc hc)]
    rfl
  rename_i hblank
  have hblank : Text.isBlank c = false := (Bool.not_eq_true _).mp hblank
  rw [List.findSome?_cons, Pattern.blanks, take?_eq_none hblank]
  split
  · rename_i hc
    subst hc
    rw [List.findSome?_cons, Rule.take?, StringLiteral.preferred?_string]
    cases hsplit : StringLiteral.split rest with
    | none =>
      have hquote : (Pattern.literal ['"']).preferred? ('"' :: rest) = some (['"'], rest) :=
        Pattern.preferred?_literal ['"'] rest
      rw [Option.map_none, Option.map_none, List.findSome?_cons, take?_of_preferred hquote]
      rfl
    | some parts =>
      simp [Action.take]
  rename_i hquote
  have hquote : decide (c = '"') = false := decide_eq_false hquote
  rw [List.findSome?_cons, Pattern.string, take?_eq_none hquote, List.findSome?_cons, Pattern.literal,
    take?_eq_none hquote, List.findSome?_singleton, punctuation?_eq]
  split
  · rename_i hc
    obtain ⟨rfl, hhead⟩ := hc
    obtain ⟨after, rfl⟩ := List.head?_eq_some_iff.1 hhead
    rw [take?_of_preferred (preferred?_comment after)]
    rfl
  · rename_i hc
    rw [Rule.take?, preferred?_comment_eq_none hc]
    cases mark? (c :: rest) <;> rfl

end Lexeme
end LexScript
