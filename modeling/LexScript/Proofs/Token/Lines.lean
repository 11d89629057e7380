import LexScript.Proofs.Token.Verbatim

/-!
# Lines

Only white space, comments and strings are searched for line feeds, and the counter has 32 bits. Where a text
has no more lines than that, the counter stands at every token and at every refusal one above the line feeds
before it: `Token.line_counts_feeds`.
-/

namespace LexScript

namespace Lexeme

/-- The line feeds that are counted when the lexeme is passed. Words, numbers and marks are not searched. -/
def feeds (l : Lexeme) : Nat :=
  match l.token with
  | none | some (.string, _) => l.text.count '\n'
  | some _ => 0

/-- No line feed is missed. -/
theorem feeds_eq_count {c : Char} {rest : List Char} {l : Lexeme} (h : first c rest = .ok l) :
    l.feeds = l.text.count '\n' := by
  unfold feeds
  split
  · rfl
  · rfl
  · rename_i token hstring htoken
    obtain ⟨kind, value⟩ := token
    have hkind : kind ≠ .string := by
      rintro rfl
      exact hstring value rfl
    exact (List.count_eq_zero.2 (verbatim_of_first h htoken hkind).1.not_mem_lineFeed).symm

end Lexeme

namespace Token

def content (t : Token) : TokenKind × String := (t.kind, t.value)

def counter (line : UInt32) (ls : List Lexeme) : UInt32 := ls.foldl (fun n l => n + UInt32.ofNat l.feeds) line

/-- The counter does not overflow before its last line. -/
theorem Takes.toNat_counter {source after : List Char} {ls : List Lexeme} (h : Takes source ls after)
    {line : UInt32} (hline : line.toNat + source.count '\n' < UInt32.size) :
    (counter line ls).toNat = line.toNat + (ls.flatMap Lexeme.text).count '\n' := by
  induction h generalizing line with
  | start source => rfl
  | @next c rest after l ls first more ih =>
    rw [← (Lexeme.append_of_first first).1, List.count_append] at hline
    have hfeeds : (line + UInt32.ofNat l.feeds).toNat = line.toNat + l.text.count '\n' := by
      rw [Lexeme.feeds_eq_count first, UInt32.toNat_add, UInt32.toNat_ofNat']
      unfold UInt32.size at hline
      omega
    have hcounter : counter line (l :: ls) = counter (line + UInt32.ofNat l.feeds) ls := rfl
    rw [hcounter, ih (by omega), hfeeds, List.flatMap_cons, List.count_append, Nat.add_assoc]

/-- The token is read from the front of the text. Only the end of file is read from nothing. -/
inductive Fronts (t : Token) : List Char → Prop
  | lexeme {c : Char} {rest : List Char} {l : Lexeme} (first : Lexeme.first c rest = .ok l)
    (token : l.token = some t.content) : Fronts t (c :: rest)
  | nothing (ends : t = endOfFile t.line) : Fronts t []

/-- The scanner has passed these lexemes, which make up the text `before`, and stands on the line before the
text `after`. -/
structure Stands (source : List Char) (ls : List Lexeme) (before after : List Char) (line : Nat) : Prop where
  taken : Takes source ls after
  whole : before ++ after = source
  counted : (counter 1 ls).toNat = line
  feeds : line = 1 + before.count '\n'

theorem Takes.stands {source after : List Char} {ls : List Lexeme} (h : Takes source ls after)
    (hsource : source.count '\n' < UInt32.size - 1) {line : Nat}
    (hline : line = 1 + (ls.flatMap Lexeme.text).count '\n') :
    Stands source ls (ls.flatMap Lexeme.text) after line where
  taken := h
  whole := h.append
  counted := by
    have hbound : (1 : UInt32).toNat + source.count '\n' < UInt32.size := by
      simp
      omega
    simp [h.toNat_counter hbound, hline]
  feeds := hline

/-- Every token is read where the lexemes before it have been passed. -/
theorem Takes.exists_fronts {source after : List Char} {ls : List Lexeme} (h : Takes source ls after)
    (hafter : after = []) {line : Nat} {earlier later : List Token} {t : Token}
    (htokens : ofLexemes line ls = earlier ++ t :: later) :
    ∃ passed rest, Takes source passed rest ∧ passed.filterMap Lexeme.token = earlier.map content ∧
      t.Fronts rest ∧ t.line = line + (passed.flatMap Lexeme.text).count '\n' := by
  induction h generalizing line earlier with
  | start source =>
    subst hafter
    obtain ⟨rfl, hmore⟩ | ⟨rfl, hmore⟩ := List.append_eq_singleton_iff.1 htokens.symm
    · obtain ⟨rfl, -⟩ := List.cons.inj hmore
      exact ⟨[], [], .start [], rfl, .nothing rfl, rfl⟩
    · cases hmore
  | @next c rest after l ls first more ih =>
    rw [ofLexemes, ofLexeme?] at htokens
    cases htoken : l.token with
    | none =>
      rw [htoken] at htokens
      obtain ⟨passed, place, htakes, hpassed, hfronts, hline⟩ := ih hafter htokens
      refine ⟨l :: passed, place, .next first htakes, ?_, hfronts, ?_⟩
      · simp [List.filterMap_cons_none htoken, hpassed]
      · simp [hline, List.flatMap_cons, List.count_append, Nat.add_assoc]
    | some token =>
      rw [htoken] at htokens
      cases earlier with
      | nil =>
        obtain ⟨rfl, -⟩ := List.cons.inj htokens
        exact ⟨[], _, .start _, rfl, .lexeme first htoken, rfl⟩
      | cons u earlier =>
        obtain ⟨rfl, hmore⟩ := List.cons.inj htokens
        obtain ⟨passed, place, htakes, hpassed, hfronts, hline⟩ := ih hafter hmore
        refine ⟨l :: passed, place, .next first htakes, ?_, hfronts, ?_⟩
        · rw [List.filterMap_cons_some htoken, hpassed]
          rfl
        · simp [hline, List.flatMap_cons, List.count_append, Nat.add_assoc]

/-- The line of a token is one above the line feeds before its first character, or in the whole text at the end
of file; that of an error is one above those before the place that is refused. -/
theorem line_counts_feeds {source : String} (hsource : source.toList.count '\n' < UInt32.size - 1) :
    (∀ tokens, ofSource source = .ok tokens → ∀ earlier t later, tokens = earlier ++ t :: later →
      ∃ ls before after, Stands source.toList ls before after t.line ∧
        ls.filterMap Lexeme.token = earlier.map content ∧ t.Fronts after) ∧
    ∀ e, ofSource source = .error e →
      ∃ ls before after, Stands source.toList ls before after e.line ∧ Lexeme.Refused after e.cause := by
  constructor
  · intro tokens htokens earlier t later hsplit
    obtain ⟨ls, htakes, rfl⟩ := scan_eq_ok_iff.1 htokens
    obtain ⟨passed, after, htakes, hpassed, hfronts, hline⟩ := htakes.exists_fronts rfl hsplit
    exact ⟨passed, _, after, htakes.stands hsource hline, hpassed, hfronts⟩
  · intro e herror
    obtain ⟨ls, after, htakes, hrefused, hline⟩ := scan_eq_error_iff.1 herror
    exact ⟨ls, _, after, htakes.stands hsource hline, hrefused⟩

/-- A line feed in a string moves what follows to the next line, and an escaped one does not. The line feed that
ends a comment counts as well. -/
theorem line_counts_feeds_stringSample :
    ("\"a\\n\nb\"\r\nx".toList.count '\n' < UInt32.size - 1 ∧
      ∃ ls before after, Stands "\"a\\n\nb\"\r\nx".toList ls before after 3 ∧
        ls.filterMap Lexeme.token = [(.string, "a\n\nb")] ∧ Fronts ⟨.identifier, "x", 3⟩ after) ∧
    "// one\n@".toList.count '\n' < UInt32.size - 1 ∧
      ∃ ls before after, Stands "// one\n@".toList ls before after 2 ∧
        Lexeme.Refused after (.unrecognisedToken "@") := by
  have hstring : "\"a\\n\nb\"\r\nx".toList.count '\n' < UInt32.size - 1 := by decide
  have hcomment : "// one\n@".toList.count '\n' < UInt32.size - 1 := by decide
  have htokens : ofSource "\"a\\n\nb\"\r\nx" =
      .ok [⟨.string, "a\n\nb", 1⟩, ⟨.identifier, "x", 3⟩, ⟨.eof, "EOF", 3⟩] := by
    decide +kernel
  have herror : ofSource "// one\n@" = .error ⟨.unrecognisedToken "@", 2⟩ := by decide +kernel
  exact ⟨⟨hstring, (line_counts_feeds hstring).1 _ htokens [_] _ [_] rfl⟩,
    hcomment, (line_counts_feeds hcomment).2 _ herror⟩

end Token
end LexScript
