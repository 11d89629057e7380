import LexScript.Proofs.Token.Munch

/-!
# Where a string literal ends

A text is read in pieces from left to right: a backslash with the character behind it, or a character on its
own. A literal ends at the first quote that is a piece of its own, and its value is made of what the pieces
before that quote stand for: `Token.literal_in_pieces`. So every string can be written as a literal, with a
backslash before each backslash and each quote.
-/

namespace LexScript

namespace StringLiteral

/-- A character on its own, or a backslash with the character behind it. -/
inductive Piece
  | plain (c : Char)
  | pair (c : Char)
  deriving DecidableEq

def escapeTable : List (Char × Char) :=
  [('n', '\n'), ('t', '\t'), ('r', '\r'), ('\\', '\\'), ('"', '"'), ('0', '\x00')]

namespace Piece

def text : Piece → List Char
  | plain c => [c]
  | pair c => ['\\', c]

def value : Piece → List Char
  | plain c => [c]
  | pair c =>
    match escapeTable.lookup c with
    | some d => [d]
    | none => ['\\', c]

end Piece

/-- The pieces of a text, from left to right. Only at the end of the text a backslash is on its own. -/
def pieces : List Char → List Piece
  | '\\' :: c :: rest => .pair c :: pieces rest
  | c :: rest => .plain c :: pieces rest
  | [] => []

def body (source : List Char) : List Piece := (pieces source).takeWhile (· ≠ .plain '"')

def behind (source : List Char) : List Piece := ((pieces source).dropWhile (· ≠ .plain '"')).tail

/-- There is a quote on its own, and no backslash before it stands at the end of a line. -/
def Closes (source : List Char) : Prop := .plain '"' ∈ pieces source ∧ .pair '\n' ∉ body source

instance (source : List Char) : Decidable (Closes source) := inferInstanceAs (Decidable (_ ∧ _))

/-- Decodes with a look at the next character: behind a backslash it is passed if the two have a meaning, and
else it is left for the next round. -/
def decode : List Char → List Char
  | [] => []
  | [c] => [c]
  | c :: d :: rest =>
    if c = '\\' then
      match escapedChar? d with
      | some e => e :: decode rest
      | none => c :: decode (d :: rest)
    else c :: decode (d :: rest)

/-- The string with each backslash and each quote escaped, and any other character that has an escape escaped
or not. -/
inductive Escaped : List Char → List Char → Prop
  | nil : Escaped [] []
  | plain {c : Char} {s e : List Char} (slash : c ≠ '\\') (quote : c ≠ '"') (more : Escaped s e) :
    Escaped (c :: s) (c :: e)
  | pair {c d : Char} {s e : List Char} (listed : (c, d) ∈ escapeTable) (more : Escaped s e) :
    Escaped (d :: s) ('\\' :: c :: e)

def escape (s : List Char) : List Char := s.flatMap fun c => if c = '\\' ∨ c = '"' then ['\\', c] else [c]

theorem escaped_escape (s : List Char) : Escaped s (escape s) := by
  induction s with
  | nil => exact .nil
  | cons c s ih =>
    rw [escape, List.flatMap_cons]
    split
    · rename_i hc
      refine .pair ?_ ih
      rcases hc with rfl | rfl <;> decide
    · rename_i hc
      obtain ⟨hslash, hquote⟩ := not_or.1 hc
      exact .plain hslash hquote ih

theorem lookup_escapeTable (c : Char) : escapeTable.lookup c = escapedChar? c := by
  unfold escapedChar?
  split
  case h_7 hn ht hr hslash hquote hzero =>
    simp [escapeTable, List.lookup_cons, beq_false_of_ne hn, beq_false_of_ne ht, beq_false_of_ne hr,
      beq_false_of_ne hslash, beq_false_of_ne hquote, beq_false_of_ne hzero]
  all_goals rfl

/-! ## Single steps -/

section Steps

variable {c : Char} {rest : List Char}

theorem pieces_plain (h : c ≠ '\\') (rest : List Char) : pieces (c :: rest) = .plain c :: pieces rest := by
  rw [pieces]
  rintro d more rfl
  exact absurd rfl h

theorem split_plain (hslash : c ≠ '\\') (hquote : c ≠ '"') :
    split (c :: rest) = (split rest).map fun (b, after) => (c :: b, after) := by
  rw [split] <;> simp_all

theorem split_pair (h : c ≠ '\n') :
    split ('\\' :: c :: rest) = (split rest).map fun (b, after) => ('\\' :: c :: b, after) := by
  simp [split, h]

theorem unescape_plain (h : c ≠ '\\') : unescape (c :: rest) = c :: unescape rest := by
  rw [unescape]
  rintro d more rfl
  exact absurd rfl h

theorem unescape_pair : unescape ('\\' :: c :: rest) = (Piece.pair c).value ++ unescape rest := by
  rw [unescape, Piece.value, lookup_escapeTable]
  cases escapedChar? c <;> rfl

end Steps

section Cons

variable {source rest : List Char} {p : Piece}

theorem closes_cons (h : pieces source = p :: pieces rest) (hp : p ≠ .plain '"') :
    Closes source ↔ p ≠ .pair '\n' ∧ Closes rest := by
  rw [Closes, Closes, body, body, h, List.takeWhile_cons_of_pos (by simpa using hp), List.mem_cons,
    List.mem_cons, not_or]
  constructor
  · rintro ⟨hquote, hpair, hbody⟩
    exact ⟨Ne.symm hpair, hquote.resolve_left (Ne.symm hp), hbody⟩
  · rintro ⟨hpair, hquote, hbody⟩
    exact ⟨.inr hquote, Ne.symm hpair, hbody⟩

theorem body_cons (h : pieces source = p :: pieces rest) (hp : p ≠ .plain '"') :
    body source = p :: body rest := by
  rw [body, h, List.takeWhile_cons_of_pos (by simpa using hp), body]

theorem behind_cons (h : pieces source = p :: pieces rest) (hp : p ≠ .plain '"') :
    behind source = behind rest := by
  rw [behind, h, List.dropWhile_cons_of_pos (by simpa using hp), behind]

end Cons

theorem body_quote (rest : List Char) : body ('"' :: rest) = [] := by
  simp [body, pieces_plain]

theorem behind_quote (rest : List Char) : behind ('"' :: rest) = pieces rest := by
  simp [behind, pieces_plain]

theorem closes_quote (rest : List Char) : Closes ('"' :: rest) := by
  refine ⟨?_, ?_⟩
  · simp [pieces_plain]
  · simp [body_quote]

/-- What holds of a text follows from the text behind its first piece, up to the first quote on its own. -/
theorem pieces_induction {motive : List Char → Prop} (nil : motive []) (slash : motive ['\\'])
    (quote : ∀ rest, motive ('"' :: rest))
    (plain : ∀ c rest, c ≠ '\\' → c ≠ '"' → motive rest → motive (c :: rest))
    (pair : ∀ c rest, motive rest → motive ('\\' :: c :: rest)) (source : List Char) : motive source := by
  induction source using pieces.induct with
  | case1 c rest ih => exact pair c rest ih
  | case2 c rest hpair ih =>
    by_cases hslash : c = '\\'
    · cases rest with
      | nil => exact hslash ▸ slash
      | cons d more => exact absurd rfl (hpair d more hslash)
    by_cases hquote : c = '"'
    · exact hquote ▸ quote rest
    · exact plain c rest hslash hquote ih
  | case3 => exact nil

/-! ## The literal and its value -/

/-- The pieces make up the text. -/
theorem flatMap_pieces (source : List Char) : (pieces source).flatMap Piece.text = source := by
  induction source using pieces.induct with
  | case1 c rest ih => simp [pieces, ih, Piece.text]
  | case2 c rest hpair ih => rw [pieces, List.flatMap_cons, ih, Piece.text, List.singleton_append]; exact hpair
  | case3 => rfl

/-- A literal is split off behind the pieces before the first quote on its own. -/
theorem split_eq (source : List Char) : split source =
    if Closes source then some ((body source).flatMap Piece.text, (behind source).flatMap Piece.text) else none := by
  induction source using pieces_induction with
  | nil => rfl
  | slash => rfl
  | quote rest =>
    simp only [if_pos (closes_quote rest), body_quote, behind_quote, flatMap_pieces]
    rfl
  | plain c rest hslash hquote ih =>
    have hpieces := pieces_plain hslash rest
    have hplain : Piece.plain c ≠ .plain '"' := fun h => hquote (Piece.plain.inj h)
    simp only [closes_cons hpieces hplain, body_cons hpieces hplain, behind_cons hpieces hplain]
    rw [split_plain hslash hquote, ih]
    by_cases hcloses : Closes rest <;> simp [hcloses, Piece.text]
  | pair c rest ih =>
    have hpieces : pieces ('\\' :: c :: rest) = .pair c :: pieces rest := rfl
    simp only [closes_cons hpieces nofun, body_cons hpieces nofun, behind_cons hpieces nofun]
    by_cases hc : c = '\n'
    · simp [split, hc]
    · rw [split_pair hc, ih]
      by_cases hcloses : Closes rest <;> simp [hc, hcloses, Piece.text]

/-- The body of a literal stands for what its pieces stand for. -/
theorem unescape_body {source : List Char} (h : Closes source) :
    unescape ((body source).flatMap Piece.text) = (body source).flatMap Piece.value := by
  induction source using pieces_induction with
  | nil => rfl
  | slash => exact absurd h (by decide)
  | quote rest =>
    rw [body_quote]
    rfl
  | plain c rest hslash hquote ih =>
    have hpieces := pieces_plain hslash rest
    have hplain : Piece.plain c ≠ .plain '"' := fun h => hquote (Piece.plain.inj h)
    simp only [body_cons hpieces hplain, List.flatMap_cons, ← ih ((closes_cons hpieces hplain).1 h).2]
    exact unescape_plain hslash
  | pair c rest ih =>
    have hpieces : pieces ('\\' :: c :: rest) = .pair c :: pieces rest := rfl
    simp only [body_cons hpieces nofun, List.flatMap_cons, ← ih ((closes_cons hpieces nofun).1 h).2]
    exact unescape_pair

/-- It makes no difference whether a character that has no meaning behind a backslash is passed together with
it or in the next round. -/
theorem decode_eq_unescape (source : List Char) : decode source = unescape source := by
  induction source using decode.induct with
  | case1 => rfl
  | case2 c => rw [decode, unescape, unescape]; exact nofun
  | case3 d rest e he ih => simp [decode, he, unescape, ih]
  | case4 d rest hd ih =>
    have hslash : d ≠ '\\' := by
      rintro rfl
      cases hd
    simp [decode, hd, unescape, ih, unescape_plain hslash]
  | case5 c d rest hc ih => simp [decode, hc, ih, unescape_plain hc]

/-- An escaped string is the body of a literal that stands for the string. -/
theorem Escaped.split {s e : List Char} (h : Escaped s e) (after : List Char) :
    StringLiteral.split (e ++ '"' :: after) = some (e, after) ∧ unescape e = s := by
  induction h with
  | nil => exact ⟨rfl, rfl⟩
  | plain slash quote more ih =>
    simp [split_plain slash quote, ih, unescape_plain slash]
  | @pair c d s e listed more ih =>
    have hentries : ∀ entry ∈ escapeTable, entry.1 ≠ '\n' ∧ (Piece.pair entry.1).value = [entry.2] := by decide
    obtain ⟨hline, hvalue⟩ := hentries _ listed
    simp only [List.cons_append, split_pair hline, ih.1, unescape_pair, hvalue, ih.2]
    exact ⟨rfl, rfl⟩

end StringLiteral

namespace Token

open StringLiteral

theorem scan_of_split {rest body after : List Char} (h : split rest = some (body, after)) (line : Nat) :
    scan line ('"' :: rest) = (scan (line + body.count '\n') after).map
      (⟨.string, String.ofList (unescape body), line⟩ :: ·) := by
  have hfirst : Lexeme.first '"' rest =
      .ok ⟨some (.string, String.ofList (unescape body)), '"' :: body ++ ['"'], after⟩ := by
    simp [Lexeme.first_quote, h]
  have hcount : ('"' :: body ++ ['"']).count '\n' = body.count '\n' := by simp
  rw [scan_of_first hfirst, hcount]
  rfl

/-- A text is the pieces that it is read in. Behind an opening quote, a literal ends at the first quote that is a
piece of its own, and stands for what the pieces before it stand for; if there is none, or a backslash before it
stands at the end of a line, the scan fails there. So every string is the value of each literal in which its
backslashes and quotes are escaped. -/
theorem literal_in_pieces (line : Nat) (rest : List Char) :
    (pieces rest).flatMap Piece.text = rest ∧
    (Closes rest →
      Pattern.string.preferred? ('"' :: rest) =
        some ('"' :: ((body rest).flatMap Piece.text ++ ['"']), (behind rest).flatMap Piece.text) ∧
      decode ((body rest).flatMap Piece.text) = (body rest).flatMap Piece.value ∧
      scan line ('"' :: rest) =
        (scan (line + ((body rest).flatMap Piece.text).count '\n') ((behind rest).flatMap Piece.text)).map
          (⟨.string, String.ofList ((body rest).flatMap Piece.value), line⟩ :: ·)) ∧
    (¬ Closes rest →
      Pattern.string.preferred? ('"' :: rest) = none ∧
      scan line ('"' :: rest) = .error ⟨.unexpectedTokenBecause "\"" "unterminated string literal", line⟩) ∧
    ∀ s e, Escaped s e → ∀ after, scan line ('"' :: (e ++ '"' :: after)) =
      (scan (line + e.count '\n') after).map (⟨.string, String.ofList s, line⟩ :: ·) := by
  refine ⟨flatMap_pieces rest, fun hcloses => ?_, fun hopen => ?_, fun s e hescaped after => ?_⟩
  · have hsplit := (split_eq rest).trans (if_pos hcloses)
    refine ⟨?_, ?_, ?_⟩
    · simp [preferred?_string, hsplit]
    · simp [decode_eq_unescape, unescape_body hcloses]
    · simp [scan_of_split hsplit, unescape_body hcloses]
  · have hsplit := (split_eq rest).trans (if_neg hopen)
    refine ⟨?_, scan_of_error ?_⟩
    · simp [preferred?_string, hsplit]
    · simp [Lexeme.first_quote, hsplit]
  · obtain ⟨hsplit, hvalue⟩ := hescaped.split after
    simp [scan_of_split hsplit, hvalue]

/-- Three backslashes before a quote make two pairs, so that the literal goes on behind it. A backslash at the end
of a line leaves the literal open, and a line feed can be written as it is or with a backslash. -/
theorem literal_in_pieces_backslashesSample :
    (Closes "\\\\\\\"q\"".toList ∧
      scan 1 ('"' :: "\\\\\\\"q\"".toList) = .ok [⟨.string, "\\\"q", 1⟩, endOfFile 1]) ∧
    (¬ Closes "\\\n\"".toList ∧ scan 1 ('"' :: "\\\n\"".toList) =
      .error ⟨.unexpectedTokenBecause "\"" "unterminated string literal", 1⟩) ∧
    (Escaped ['\n', '\n'] "\\n\n".toList ∧
      scan 1 ('"' :: ("\\n\n".toList ++ ['"'])) = .ok [⟨.string, "\n\n", 1⟩, endOfFile 2]) := by
  have hcloses : Closes "\\\\\\\"q\"".toList := by decide
  have hopen : ¬ Closes "\\\n\"".toList := by decide
  have hescaped : Escaped ['\n', '\n'] "\\n\n".toList :=
    .pair (c := 'n') (by decide) (.plain (by decide) (by decide) .nil)
  refine ⟨⟨hcloses, ?_⟩, ⟨hopen, ((literal_in_pieces 1 _).2.2.1 hopen).2⟩, hescaped, ?_⟩
  · exact ((literal_in_pieces 1 _).2.1 hcloses).2.2.trans (by decide +kernel)
  · exact ((literal_in_pieces 1 []).2.2.2 _ _ hescaped []).trans (by decide +kernel)

end Token
end LexScript
