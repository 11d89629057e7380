import LexScript.Proofs.Token.Lines
import LexScript.Proofs.Token.Literals

/-!
# Tokens written as text

The tokens of a text can be written again with white space and comments between them: strings as literals with
their backslashes and quotes escaped, and all others by their values. What is written gives the same tokens,
apart from their lines: `Token.tokens_of_joined`.
-/

namespace LexScript

namespace Text

/-- White space, and comments that end with their lines. -/
inductive IsFiller : List Char → Prop
  | nil : IsFiller []
  | blank {c : Char} {rest : List Char} (white : isBlank c = true) (more : IsFiller rest) : IsFiller (c :: rest)
  | comment {text rest : List Char} (line : ∀ c ∈ text, c ≠ '\n') (more : IsFiller rest) :
    IsFiller ('/' :: '/' :: (text ++ '\n' :: rest))

/-- White space and comments, with white space first. -/
structure IsSeparator (text : List Char) : Prop where
  filler : IsFiller text
  begins : ∃ c ∈ text.head?, isBlank c = true

theorem IsSeparator.severs {text : List Char} (h : IsSeparator text) (after : List Char) :
    IsSevered (text ++ after) := by
  obtain ⟨c, hc, hblank⟩ := h.begins
  obtain ⟨rest, rfl⟩ := List.head?_eq_some_iff.1 hc
  intro d hd
  obtain rfl := Option.some.inj hd
  exact hblank

end Text

namespace Token

def written (t : Token) : List Char :=
  match t.kind with
  | .string => '"' :: (StringLiteral.escape t.value.toList ++ ['"'])
  | _ => t.value.toList

/-- The tokens as text, with a separator between each two of them. -/
inductive Joined : List Token → List Char → Prop
  | none : Joined [] []
  | one (t : Token) : Joined [t] t.written
  | more {t u : Token} {ts : List Token} {separator text : List Char} (separates : Text.IsSeparator separator)
    (after : Joined (u :: ts) text) : Joined (t :: u :: ts) (t.written ++ separator ++ text)

def IsLexical (t : Token) : Prop := t.kind = .string ∨ Lexeme.IsVerbatim t.kind t.value.toList

/-! ## What stands between tokens -/

theorem scan_of_skip {c : Char} {rest text after : List Char} (h : Lexeme.first c rest = .ok ⟨none, text, after⟩)
    (line : Nat) : scan line (c :: rest) = scan (line + text.count '\n') after := by
  rw [scan_of_first h]
  cases scan (line + text.count '\n') after <;> rfl

/-- White space at the front of a text only counts for the line. -/
theorem scan_dropWhile_isBlank (line : Nat) (source : List Char) : scan line source =
    scan (line + (source.takeWhile Text.isBlank).count '\n') (source.dropWhile Text.isBlank) := by
  cases source with
  | nil => rfl
  | cons c rest =>
    by_cases hc : Text.isBlank c = true
    · exact scan_of_skip (Lexeme.first_of_isBlank hc rest) line
    · simp [hc]

theorem scan_blank {c : Char} (h : Text.isBlank c = true) (line : Nat) (rest : List Char) :
    scan line (c :: rest) = scan (line + [c].count '\n') rest := by
  rw [scan_dropWhile_isBlank, scan_dropWhile_isBlank _ rest]
  simp [h, ← List.count_append, Nat.add_assoc]

theorem scan_comment {text : List Char} (h : ∀ c ∈ text, c ≠ '\n') (line : Nat) (rest : List Char) :
    scan line ('/' :: '/' :: (text ++ '\n' :: rest)) = scan line ('\n' :: rest) := by
  have hcount : ('/' :: '/' :: text).count '\n' = 0 := by
    rw [List.count_eq_zero]
    simpa using fun hmem => h _ hmem rfl
  simp [scan_of_skip (Lexeme.first_comment h rest), hcount]

/-- What fills the space between tokens only counts for the line. -/
theorem scan_filler {filler : List Char} (h : Text.IsFiller filler) (line : Nat) (rest : List Char) :
    scan line (filler ++ rest) = scan (line + filler.count '\n') rest := by
  induction h generalizing line with
  | nil => rfl
  | @blank c filler white more ih =>
    simp [List.cons_append, scan_blank white, ih, Nat.add_assoc, ← List.count_append]
  | @comment text filler hline more ih =>
    have hcount : ('/' :: '/' :: (text ++ '\n' :: filler)).count '\n' = ['\n'].count '\n' + filler.count '\n' := by
      have htext : text.count '\n' = 0 := List.count_eq_zero.2 fun hmem => hline _ hmem rfl
      simp [htext, Nat.add_comm]
    have hblank : Text.isBlank '\n' = true := by decide
    simp [scan_comment hline, scan_blank hblank, ih, hcount, Nat.add_assoc]

/-! ## The tokens themselves -/

/-- Words, numbers and marks leave the line as it is. -/
theorem scan_of_verbatim {c : Char} {more after : List Char} {kind : TokenKind}
    (h : Lexeme.IsVerbatim kind (c :: more))
    (hfirst : Lexeme.first c (more ++ after) = .ok (.verbatim kind (c :: more) after)) (line : Nat) :
    scan line (c :: more ++ after) = (scan line after).map (⟨kind, String.ofList (c :: more), line⟩ :: ·) := by
  have hcount : (Lexeme.verbatim kind (c :: more) after).text.count '\n' = 0 :=
    List.count_eq_zero.2 h.not_mem_lineFeed
  simp only [List.cons_append, scan_of_first hfirst, hcount, Nat.add_zero]
  rfl

/-- A written token is read again where it can not go on. -/
theorem IsLexical.scan_written {t : Token} (h : t.IsLexical) {after : List Char} (hafter : Text.IsSevered after)
    (line : Nat) : scan line (t.written ++ after) =
      (scan (line + t.written.count '\n') after).map (⟨t.kind, t.value, line⟩ :: ·) := by
  obtain ⟨kind, value, line'⟩ := t
  rcases h with (rfl : kind = .string) | (hverbatim : Lexeme.IsVerbatim kind value.toList)
  · obtain ⟨hsplit, hvalue⟩ := (StringLiteral.escaped_escape value.toList).split after
    have hwritten : written ⟨.string, value, line'⟩ = '"' :: (StringLiteral.escape value.toList ++ ['"']) := rfl
    have hcount : ('"' :: (StringLiteral.escape value.toList ++ ['"'])).count '\n' =
        (StringLiteral.escape value.toList).count '\n' := by simp
    simp [hwritten, hcount, scan_of_split hsplit, hvalue]
  · have hwritten : written ⟨kind, value, line'⟩ = value.toList := by
      unfold written
      split
      · rename_i hkind
        exact absurd hkind hverbatim.kind_ne.1
      · rfl
    obtain ⟨c, more, htext, hfirst⟩ := hverbatim.first hafter
    have hvalue : value = String.ofList (c :: more) := by
      simp [← htext]
    have hcount : value.toList.count '\n' = 0 := List.count_eq_zero.2 hverbatim.not_mem_lineFeed
    rw [htext] at hfirst hverbatim
    rw [hwritten, hcount, htext, scan_of_verbatim hverbatim hfirst, ← hvalue]
    rfl

/-- Before its end of file, a scan gives lexical tokens only. -/
theorem Takes.lexical {source after : List Char} {ls : List Lexeme} (h : Takes source ls after) (line : Nat) :
    ∃ ts last, ofLexemes line ls = ts ++ [endOfFile last] ∧ ∀ t ∈ ts, t.IsLexical ∧ t.kind ≠ .eof := by
  induction h generalizing line with
  | start source => exact ⟨[], line, rfl, List.forall_mem_nil _⟩
  | @next c rest after l ls first more ih =>
    obtain ⟨ts, last, hrest, hall⟩ := ih (line + l.text.count '\n')
    rw [ofLexemes, hrest, ofLexeme?]
    cases htoken : l.token with
    | none => exact ⟨ts, last, rfl, hall⟩
    | some token =>
      obtain ⟨kind, value⟩ := token
      refine ⟨⟨kind, value, line⟩ :: ts, last, rfl, List.forall_mem_cons.2 ⟨?_, hall⟩⟩
      by_cases hkind : kind = .string
      · exact ⟨.inl hkind, by simp [hkind]⟩
      · obtain ⟨hverbatim, rfl⟩ := Lexeme.verbatim_of_first first htoken hkind
        refine ⟨.inr ?_, hverbatim.kind_ne.2⟩
        rw [String.toList_ofList]
        exact hverbatim

theorem lexical_of_scan {line : Nat} {source : List Char} {tokens : List Token}
    (h : scan line source = .ok tokens) :
    ∃ ts last, tokens = ts ++ [endOfFile last] ∧ ∀ t ∈ ts, t.IsLexical ∧ t.kind ≠ .eof := by
  obtain ⟨ls, htakes, rfl⟩ := scan_eq_ok_iff.1 h
  exact htakes.lexical line

/-- Joined tokens are read one after the other. -/
theorem Joined.scan {ts : List Token} {text : List Char} (h : Joined ts text) (hts : ∀ t ∈ ts, t.IsLexical)
    (line : Nat) : ∃ again last, Token.scan line text = .ok (again ++ [endOfFile last]) ∧
      again.map content = ts.map content := by
  induction h generalizing line with
  | none => exact ⟨[], line, by simp [Token.scan], rfl⟩
  | one t =>
    have hsevered : Text.IsSevered [] := by simp [Text.IsSevered]
    have hscan := (hts t (List.mem_singleton_self t)).scan_written hsevered line
    rw [List.append_nil] at hscan
    refine ⟨[⟨t.kind, t.value, line⟩], line + t.written.count '\n', ?_, rfl⟩
    rw [hscan, Token.scan]
    rfl
  | @more t u ts separator text separates after ih =>
    obtain ⟨ht, hts⟩ := List.forall_mem_cons.1 hts
    obtain ⟨again, last, hscan, hagain⟩ := ih hts (line + t.written.count '\n' + separator.count '\n')
    refine ⟨⟨t.kind, t.value, line⟩ :: again, last, ?_, congrArg (t.content :: ·) hagain⟩
    simp only [List.append_assoc, ht.scan_written (separates.severs text), scan_filler separates.filler,
      hscan]
    rfl

/-- The tokens of a text, written again with any separators between them, are the tokens of what is written. -/
theorem tokens_of_joined {source : String} {tokens : List Token} (h : ofSource source = .ok tokens)
    {text : List Char} (hjoined : Joined (tokens.takeWhile (·.kind ≠ .eof)) text) :
    ∃ again, ofSource (String.ofList text) = .ok again ∧ again.map content = tokens.map content := by
  obtain ⟨ts, last, rfl, hall⟩ := lexical_of_scan h
  have hahead : (ts ++ [endOfFile last]).takeWhile (·.kind ≠ .eof) = ts := by
    rw [List.takeWhile_append_of_pos fun t ht => decide_eq_true (hall t ht).2]
    simp [endOfFile]
  rw [hahead] at hjoined
  obtain ⟨again, last', hscan, hagain⟩ := hjoined.scan (fun t ht => (hall t ht).1) 1
  refine ⟨_, by simpa [ofSource] using hscan, ?_⟩
  simp only [List.map_append, hagain]
  rfl

def backslashSample : List Token :=
  [⟨.identifier, "x", 1⟩, ⟨.assignment, "=", 1⟩, ⟨.string, "\\", 1⟩, ⟨.semicolon, ";", 1⟩]

/-- An ideographic space separates as well, and so does a comment, even with a quote in it. The backslash of the
string is written twice. -/
theorem tokens_of_joined_backslashSample :
    (ofSource "x=\"\\\\\";" = .ok (backslashSample ++ [endOfFile 1]) ∧
      Joined ((backslashSample ++ [endOfFile 1]).takeWhile (·.kind ≠ .eof)) "x\u3000=\t//\"\n \"\\\\\"\n;".toList) ∧
    ∃ again, ofSource "x\u3000=\t//\"\n \"\\\\\"\n;" = .ok again ∧
      again.map content = (backslashSample ++ [endOfFile 1]).map content := by
  have htokens : ofSource "x=\"\\\\\";" = .ok (backslashSample ++ [endOfFile 1]) := by decide +kernel
  have hblank : ∀ c, Text.isBlank c = true → Text.IsSeparator [c] := fun c hc => ⟨.blank hc .nil, c, rfl, hc⟩
  have hquote : Text.IsFiller ['/', '/', '"', '\n', ' '] :=
    @Text.IsFiller.comment ['"'] [' '] (by simp) (.blank (by decide) .nil)
  have hcomment : Text.IsSeparator ['\t', '/', '/', '"', '\n', ' '] :=
    ⟨.blank (by decide) hquote, '\t', rfl, by decide⟩
  have hjoined : Joined backslashSample "x\u3000=\t//\"\n \"\\\\\"\n;".toList :=
    .more (hblank '\u3000' (by decide)) (.more hcomment (.more (hblank '\n' (by decide)) (.one _)))
  exact ⟨⟨htokens, hjoined⟩, tokens_of_joined htokens hjoined⟩

end Token
end LexScript
