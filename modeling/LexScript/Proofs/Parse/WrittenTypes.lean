import LexScript.Proofs.Parse.Language
import LexScript.Proofs.Token.Written

/-!
# Types that are read back

A type that has void nowhere but as a return type is read back from its written form, up to the end:
`Ty.reads_back`. An arrow belongs to the last function that has none yet, and a function that returns nothing is
written without one, so nothing that follows a written type can be taken for its return type.
-/

namespace LexScript

namespace Ty

/-- The type stands at the place of a parameter, at any depth. -/
inductive HasParameter : Ty → Ty → Prop
  | here {parameters : List Ty} {returns t : Ty} (mem : t ∈ parameters) :
    HasParameter (.function parameters returns) t
  | parameter {parameters : List Ty} {returns p t : Ty} (mem : p ∈ parameters) (inner : HasParameter p t) :
    HasParameter (.function parameters returns) t
  | returned {parameters : List Ty} {returns t : Ty} (inner : HasParameter returns t) :
    HasParameter (.function parameters returns) t

/-- The type has a written form of its own. Void has one as a missing return type only. -/
inductive IsWritable : Ty → Prop
  | number : IsWritable .number
  | boolean : IsWritable .boolean
  | string : IsWritable .string
  | procedure {parameters : List Ty} (each : ∀ p ∈ parameters, IsWritable p) :
    IsWritable (.function parameters .void)
  | function {parameters : List Ty} {returns : Ty} (each : ∀ p ∈ parameters, IsWritable p)
    (returned : IsWritable returns) : IsWritable (.function parameters returns)

/-- These are the types without void in any place but that of a return type. -/
theorem isWritable_of_not_hasParameter : ∀ t : Ty, t ≠ .void → ¬ t.HasParameter .void → t.IsWritable
  | .number, _, _ => .number
  | .boolean, _, _ => .boolean
  | .string, _, _ => .string
  | .void, hvalued, _ => absurd rfl hvalued
  | .function parameters returns, _, hparameters => by
    have heach : ∀ p ∈ parameters, p.IsWritable := by
      intro p hp
      refine isWritable_of_not_hasParameter p ?_ fun hinner => hparameters (.parameter hp hinner)
      rintro rfl
      exact hparameters (.here hp)
    by_cases hreturns : returns = .void
    · subst hreturns
      exact .procedure heach
    · exact .function heach
        (isWritable_of_not_hasParameter returns hreturns fun hinner => hparameters (.returned hinner))

theorem IsWritable.not_hasParameter {t : Ty} (h : t.IsWritable) : ¬ t.HasParameter .void := by
  induction h with
  | number | boolean | string => exact nofun
  | procedure each ih =>
    intro hparameter
    cases hparameter with
    | here mem => nomatch each _ mem
    | parameter mem inner => exact ih _ mem inner
    | returned inner => cases inner
  | function each returned ih ihReturned =>
    intro hparameter
    cases hparameter with
    | here mem => nomatch each _ mem
    | parameter mem inner => exact ih _ mem inner
    | returned inner => exact ihReturned inner

theorem IsWritable.isVoid_eq_false {t : Ty} (h : t.IsWritable) : t.isVoid = false := by
  cases h <;> rfl

def comma : Token := ⟨.comma, ",", 1⟩

mutual

def tokens : Ty → List Token
  | number => [⟨.identifier, "number", 1⟩]
  | boolean => [⟨.identifier, "bool", 1⟩]
  | string => [⟨.identifier, "string", 1⟩]
  | void => [⟨.identifier, "void", 1⟩]
  | function parameters returns =>
    ⟨.fnWord, "fn", 1⟩ :: ⟨.openParen, "(", 1⟩ :: ([comma].intercalate (tokenLists parameters) ++
      ⟨.closeParen, ")", 1⟩ :: if returns.isVoid then [] else ⟨.arrow, "->", 1⟩ :: returns.tokens)

def tokenLists : List Ty → List (List Token)
  | [] => []
  | t :: ts => t.tokens :: tokenLists ts

end

theorem tokenLists_eq_map (ts : List Ty) : tokenLists ts = ts.map tokens := by
  induction ts with
  | nil => rfl
  | cons t ts ih => simp [tokenLists, ih]

/-- The first token of a type does not end a list. -/
theorem tokens_begin (t : Ty) : ∃ first after, t.tokens = first :: after ∧ first.kind ≠ .closeParen := by
  cases t <;> exact ⟨_, _, rfl, by decide⟩

end Ty

/-! ## The tokens of the text -/

namespace Token

/-- The text gives these tokens on line one, before any text that does not go on with a word. -/
def Gives (text : List Char) (tokens : List Token) : Prop :=
  ∀ rest following, scan 1 rest = .ok following → (∀ c ∈ rest.head?, Lexeme.isNamePart c = false) →
    scan 1 (text ++ rest) = .ok (tokens ++ following)

/-- A text that begins with this character does not go on with a word. -/
theorem not_isNamePart_head? {c : Char} (h : Lexeme.isNamePart c = false) (rest : List Char) :
    ∀ d ∈ (c :: rest).head?, Lexeme.isNamePart d = false := by
  intro d hd
  obtain rfl := Option.some.inj hd
  exact h

theorem Gives.word {c : Char} {more : List Char} (hc : Lexeme.isNameStart c = true)
    (hmore : ∀ d ∈ more, Lexeme.isNamePart d = true) :
    Gives (c :: more) [⟨Lexeme.wordKind (String.ofList (c :: more)), String.ofList (c :: more), 1⟩] := by
  intro rest following hscan hrest
  rw [scan_of_verbatim (.word hc hmore) (Lexeme.first_word hc hmore hrest), hscan]
  rfl

theorem scan_mark {c : Char} {kind : TokenKind} (h : Lexeme.markKind? c = some kind) {rest : List Char}
    (hpair : ∀ d, Lexeme.pairKind? c d = none) (hslash : c ≠ '/') {following : List Token}
    (hscan : scan 1 rest = .ok following) :
    scan 1 (c :: rest) = .ok (⟨kind, String.ofList [c], 1⟩ :: following) := by
  have hfirst := Lexeme.first_mark h (fun d (_ : d ∈ rest.head?) => hpair d) fun hc => absurd hc hslash
  have hmark := @scan_of_verbatim c [] rest kind (.mark h) hfirst 1
  rw [hscan] at hmark
  exact hmark

theorem scan_pair {c d : Char} {kind : TokenKind} (h : Lexeme.pairKind? c d = some kind) {rest : List Char}
    {following : List Token} (hscan : scan 1 rest = .ok following) :
    scan 1 (c :: d :: rest) = .ok (⟨kind, String.ofList [c, d], 1⟩ :: following) := by
  have hmark := @scan_of_verbatim c [d] rest kind (.pair h) (Lexeme.first_pair h rest) 1
  rw [hscan] at hmark
  exact hmark

theorem scan_space (rest : List Char) : scan 1 (' ' :: rest) = scan 1 rest := scan_blank (by decide) 1 rest

end Token

namespace Ty

open Token

theorem toList_text_function (parameters : List Ty) (returns : Ty) :
    (Ty.function parameters returns).text.toList =
      ['f', 'n'] ++ '(' :: ([',', ' '].intercalate (parameters.map fun p => p.text.toList) ++
        ')' :: if returns.isVoid then [] else ' ' :: '-' :: '>' :: ' ' :: returns.text.toList) := by
  rw [text, texts_eq_map]
  split <;> simp [String.toList_intercalate, Function.comp_def]

/-- The parameters give their tokens with commas between them. -/
theorem scan_parameters {parameters : List Ty} (h : ∀ p ∈ parameters, Gives p.text.toList p.tokens)
    {rest : List Char} {following : List Token} (hscan : scan 1 rest = .ok following)
    (hrest : ∀ c ∈ rest.head?, Lexeme.isNamePart c = false) :
    scan 1 ([',', ' '].intercalate (parameters.map fun p => p.text.toList) ++ rest) =
      .ok ([comma].intercalate (parameters.map tokens) ++ following) := by
  induction parameters with
  | nil => exact hscan
  | cons p parameters ih =>
    obtain ⟨hp, hparameters⟩ := List.forall_mem_cons.1 h
    cases parameters with
    | nil => simpa using hp rest following hscan hrest
    | cons q parameters =>
      have hmore := ih hparameters
      have hcomma := scan_mark (c := ',') rfl (fun _ => rfl) (by decide) ((scan_space _).trans hmore)
      have hall := hp _ _ hcomma (not_isNamePart_head? (by decide) _)
      simpa [List.intercalate_cons_cons, comma] using hall

/-- The text of a function up to its closing parenthesis gives its tokens, whatever follows. -/
theorem scan_function {parameters : List Ty} (h : ∀ p ∈ parameters, Gives p.text.toList p.tokens)
    {rest : List Char} {following : List Token} (hscan : scan 1 rest = .ok following) :
    scan 1 (['f', 'n'] ++ '(' :: ([',', ' '].intercalate (parameters.map fun p => p.text.toList) ++ ')' :: rest)) =
      .ok (⟨.fnWord, "fn", 1⟩ :: ⟨.openParen, "(", 1⟩ ::
        ([comma].intercalate (parameters.map tokens) ++ ⟨.closeParen, ")", 1⟩ :: following)) := by
  have hword : Gives ['f', 'n'] [⟨.fnWord, "fn", 1⟩] := .word (by decide) (List.all_eq_true.1 rfl)
  have hclose := scan_mark (c := ')') rfl (fun _ => rfl) (by decide) hscan
  have hparameters := scan_parameters h hclose (not_isNamePart_head? (by decide) _)
  have hopen := scan_mark (c := '(') rfl (fun _ => rfl) (by decide) hparameters
  exact hword _ _ hopen (not_isNamePart_head? (by decide) _)

/-- A writable type gives its tokens. -/
theorem IsWritable.gives {t : Ty} (h : t.IsWritable) : Gives t.text.toList t.tokens := by
  induction h with
  | number => exact .word (c := 'n') (by decide) (List.all_eq_true.1 rfl)
  | boolean => exact .word (c := 'b') (by decide) (List.all_eq_true.1 rfl)
  | string => exact .word (c := 's') (by decide) (List.all_eq_true.1 rfl)
  | procedure each ih =>
    intro rest following hscan hrest
    have hfunction := scan_function ih hscan
    rw [toList_text_function, tokens, tokenLists_eq_map]
    simpa [isVoid] using hfunction
  | function each returned ih ihReturned =>
    intro rest following hscan hrest
    have hreturned := (scan_space _).trans (ihReturned rest following hscan hrest)
    have harrow := (scan_space _).trans (scan_pair (c := '-') (d := '>') rfl hreturned)
    have hfunction := scan_function ih harrow
    rw [toList_text_function, tokens, tokenLists_eq_map]
    simpa [returned.isVoid_eq_false] using hfunction

end Ty

/-! ## Reading the tokens -/

namespace Parse

section Lists

variable {α : Type} {item : Parse α} {others : Parse (List α)} {c c' c'' : Cursor} {a : α} {as : List α}

theorem listOf_last (hc : c.token.kind ≠ .closeParen) (hitem : item c = .ok (a, c'))
    (hc' : c'.token.kind ≠ .comma) : listOf item others c = .ok ([a], c') := by
  rw [listOf, peek_bind, if_neg hc]
  refine bind_eq_ok.2 ⟨a, c', hitem, ?_⟩
  rw [peek_bind, if_pos hc']
  rfl

theorem listOf_more (hc : c.token.kind ≠ .closeParen) (hitem : item c = .ok (a, c')) (hc' : c'.token.kind = .comma)
    (hothers : others c'.next = .ok (as, c'')) : listOf item others c = .ok (a :: as, c'') := by
  rw [listOf, peek_bind, if_neg hc]
  refine bind_eq_ok.2 ⟨a, c', hitem, ?_⟩
  rw [peek_bind, if_neg (not_not_intro hc'), skip_bind]
  exact bind_eq_ok.2 ⟨as, c'', hothers, rfl⟩

end Lists

/-- Where no arrow follows, the reader reads the value from the tokens, given fuel in proportion to them. -/
def Yields {α : Type} (reader : Nat → Parse α) (tokens : List Token) (a : α) : Prop :=
  ∀ fuel rest stop n, 2 * tokens.length + 1 ≤ fuel → (rest.headD stop).kind ≠ .arrow →
    reader fuel ⟨tokens ++ rest, stop, n⟩ = .ok (a, ⟨rest, stop, n⟩)

/-- Parameters are read up to the closing parenthesis. -/
theorem typesWithin_yields {parameters : List Ty} (h : ∀ p ∈ parameters, Yields typeWithin p.tokens p)
    {fuel : Nat} (hfuel : 2 * ([Ty.comma].intercalate (parameters.map Ty.tokens)).length + 2 ≤ fuel)
    {rest : List Token} {stop : Token} (hrest : (rest.headD stop).kind = .closeParen) (n : Nat) :
    typesWithin fuel ⟨[Ty.comma].intercalate (parameters.map Ty.tokens) ++ rest, stop, n⟩ =
      .ok (parameters, ⟨rest, stop, n⟩) := by
  induction parameters generalizing fuel with
  | nil =>
    obtain ⟨fuel, rfl⟩ := Nat.exists_eq_add_of_le' (show 1 ≤ fuel by omega)
    rw [typesWithin_succ, listOf, peek_bind]
    exact congrFun (if_pos hrest) _
  | cons p parameters ih =>
    obtain ⟨hp, hparameters⟩ := List.forall_mem_cons.1 h
    obtain ⟨fuel, rfl⟩ := Nat.exists_eq_add_of_le' (show 1 ≤ fuel by omega)
    obtain ⟨first, after, htokens, hfirst⟩ := p.tokens_begin
    have hpeek : ∀ us : List Token, (Cursor.token ⟨p.tokens ++ us, stop, n⟩).kind ≠ .closeParen := by
      rw [htokens]
      exact fun _ => hfirst
    rw [typesWithin_succ]
    cases parameters with
    | nil =>
      rw [List.map_singleton, List.intercalate_singleton] at hfuel ⊢
      refine listOf_last (hpeek rest) (hp fuel rest stop n (by omega) ?_) ?_
      · rw [hrest]
        decide
      · rw [Cursor.token, hrest]
        decide
    | cons q parameters =>
      rw [List.map_cons, List.map_cons, List.intercalate_cons_cons, ← List.map_cons] at hfuel ⊢
      simp only [List.length_append, List.length_singleton] at hfuel
      simp only [List.append_assoc]
      refine listOf_more (hpeek _) (hp fuel _ stop n (by omega) ?_) rfl (ih hparameters (by omega))
      exact (by decide : TokenKind.comma ≠ .arrow)

/-- A function is read where its parameters and its return type are. -/
theorem typeWithin_function {parameters : List Ty} (h : ∀ p ∈ parameters, Yields typeWithin p.tokens p)
    {fuel : Nat} (hfuel : 2 * ([Ty.comma].intercalate (parameters.map Ty.tokens)).length + 2 ≤ fuel)
    {tail rest : List Token} {stop : Token} {n : Nat} {returns : Ty}
    (hreturned : returnTypeWithin fuel ⟨tail ++ rest, stop, n⟩ = .ok (returns, ⟨rest, stop, n⟩)) :
    typeWithin (fuel + 1) ⟨⟨.fnWord, "fn", 1⟩ :: ⟨.openParen, "(", 1⟩ ::
        ([Ty.comma].intercalate (parameters.map Ty.tokens) ++ ⟨.closeParen, ")", 1⟩ :: tail) ++ rest, stop, n⟩ =
      .ok (.function parameters returns, ⟨rest, stop, n⟩) := by
  have hparameters := @typesWithin_yields parameters h fuel hfuel (⟨.closeParen, ")", 1⟩ :: tail ++ rest) stop rfl n
  simp only [List.cons_append, List.append_assoc, typeWithin, peek_bind]
  refine bind_eq_ok.2 ⟨(), _, rfl, bind_eq_ok.2 ⟨(), _, expectOr_eq_ok.2 ⟨rfl, rfl⟩, ?_⟩⟩
  refine bind_eq_ok.2 ⟨parameters, _, hparameters, bind_eq_ok.2 ⟨(), _, expectOr_eq_ok.2 ⟨rfl, rfl⟩, ?_⟩⟩
  exact bind_eq_ok.2 ⟨returns, _, hreturned, rfl⟩

end Parse

namespace Ty

open Token

/-- A writable type is read from its tokens. -/
theorem IsWritable.yields {t : Ty} (h : t.IsWritable) : Parse.Yields Parse.typeWithin t.tokens t := by
  induction h with
  | number | boolean | string =>
    intro fuel rest stop n hfuel hrest
    obtain ⟨fuel, rfl⟩ := Nat.exists_eq_add_of_le' (show 1 ≤ fuel by omega)
    rfl
  | procedure each ih =>
    intro fuel rest stop n hfuel hrest
    rw [tokens, tokenLists_eq_map] at hfuel ⊢
    simp only [isVoid, if_true, List.length_cons, List.length_append] at hfuel ⊢
    obtain ⟨fuel, rfl⟩ := Nat.exists_eq_add_of_le' (show 2 ≤ fuel by omega)
    refine Parse.typeWithin_function ih (by omega) ?_
    rw [Parse.returnTypeWithin, Parse.peek_bind, List.nil_append]
    exact congrFun (if_pos hrest) _
  | function each returned ih ihReturned =>
    intro fuel rest stop n hfuel hrest
    rw [tokens, tokenLists_eq_map] at hfuel ⊢
    simp only [returned.isVoid_eq_false, Bool.false_eq_true, if_false, List.length_cons, List.length_append]
      at hfuel ⊢
    obtain ⟨fuel, rfl⟩ := Nat.exists_eq_add_of_le' (show 2 ≤ fuel by omega)
    refine Parse.typeWithin_function ih (by omega) ?_
    exact ihReturned fuel rest stop n (by omega) hrest

/-- The whole text of a writable type is read, up to the end of file. -/
theorem IsWritable.read {t : Ty} (h : t.IsWritable) : ofSource t.text = .ok (t.tokens ++ [endOfFile 1]) ∧
    Parse.type (.start (t.tokens ++ [endOfFile 1])) = .ok (t, ⟨[], endOfFile 1, 0⟩) := by
  have hscan := h.gives [] [endOfFile 1] (by rw [scan]) nofun
  rw [List.append_nil] at hscan
  refine ⟨hscan, ?_⟩
  have hkinds : ∀ u ∈ t.tokens, u.kind ≠ .eof := by
    obtain ⟨ts, last, htokens, hall⟩ := lexical_of_scan hscan
    obtain ⟨rfl, -⟩ := List.append_inj' htokens rfl
    exact fun u hu => (hall u hu).2
  have hread := h.yields (8 * t.tokens.length + 8) [] (endOfFile 1) 0 (by omega) (by decide)
  rw [List.append_nil] at hread
  rw [Cursor.start_append_stop hkinds rfl]
  exact hread

/-- The written form of a type that has void nowhere but as a return type gives tokens that are read as this
type, up to the end of file. So no two such types are written in the same way. -/
theorem reads_back {t : Ty} (hvalued : t ≠ .void) (hparameters : ¬ t.HasParameter .void) :
    (∃ tokens c, ofSource t.text = .ok tokens ∧ Parse.type (.start tokens) = .ok (t, c) ∧ c.token.kind = .eof) ∧
      ∀ u : Ty, u ≠ .void → ¬ u.HasParameter .void → u.text = t.text → u = t := by
  obtain ⟨hsource, hread⟩ := (isWritable_of_not_hasParameter t hvalued hparameters).read
  refine ⟨⟨_, _, hsource, hread, rfl⟩, fun u huvalued huparameters htext => ?_⟩
  obtain ⟨husource, huread⟩ := (isWritable_of_not_hasParameter u huvalued huparameters).read
  rw [htext] at husource
  rw [← Except.ok.inj (hsource.symm.trans husource)] at huread
  exact (Prod.mk.inj (Except.ok.inj (huread.symm.trans hread))).1

/-- A function that takes one that returns nothing and one that returns a string, and returns a function. -/
def nestedSample : Ty := .function [.function [.boolean] .void, .function [] .string] (.function [.number] .void)

theorem reads_back_nestedSample :
    (nestedSample ≠ .void ∧ ¬ nestedSample.HasParameter .void) ∧
      ∃ tokens c, ofSource "fn(fn(bool), fn() -> string) -> fn(number)" = .ok tokens ∧
        Parse.type (.start tokens) = .ok (nestedSample, c) ∧ c.token.kind = .eof := by
  have hwritable : nestedSample.IsWritable := by
    refine .function ?_ (.procedure (List.forall_mem_singleton.2 .number))
    refine List.forall_mem_cons.2 ⟨.procedure (List.forall_mem_singleton.2 .boolean), ?_⟩
    exact List.forall_mem_singleton.2 (.function (List.forall_mem_nil _) .string)
  have hvalued : nestedSample ≠ .void := nofun
  have htext : nestedSample.text = "fn(fn(bool), fn() -> string) -> fn(number)" := rfl
  exact ⟨⟨hvalued, hwritable.not_hasParameter⟩, htext ▸ (reads_back hvalued hwritable.not_hasParameter).1⟩

end Ty

end LexScript
