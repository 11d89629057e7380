import LexScript.Error
import LexScript.Token
import LexScript.Text.Characters
import LexScript.Token.StringLiteral

/-!
# Lexemes and tokens

A lexeme is the piece of text at the front of a source: a word, a number, a string literal, a punctuation mark, or
white space or a comment, which stand for no token. `append_of_first` says that a lexeme and the text after it make
up the source. Lexemes are taken from the front until none is left. A line number goes up by the line feeds of each
lexeme, so it counts the line feeds before the place it belongs to.
-/

namespace LexScript

/-- A piece of source text, the token it stands for, and the text that follows. -/
structure Lexeme where
  token : Option (TokenKind × String)
  text : List Char
  rest : List Char

namespace Lexeme

def isNameStart (c : Char) : Bool := c.isAlpha || c = '_'

def isNamePart (c : Char) : Bool := c.isAlphanum || c = '_'

/-- The kind of a word: a reserved word has its own, any other is an identifier. -/
def wordKind : String → TokenKind
  | "let" => .letWord
  | "fn" => .fnWord
  | "return" => .returnWord
  | "if" => .ifWord
  | "else" => .elseWord
  | "while" => .whileWord
  | "for" => .forWord
  | "print" => .printWord
  | "true" => .trueWord
  | "false" => .falseWord
  | _ => .identifier

def pairKind? : Char → Char → Option TokenKind
  | '=', '=' => some .equals
  | '!', '=' => some .notEquals
  | '<', '=' => some .lessEquals
  | '>', '=' => some .greaterEquals
  | '|', '|' => some .or
  | '&', '&' => some .and
  | '-', '>' => some .arrow
  | _, _ => none

def markKind? : Char → Option TokenKind
  | '\x7b' => some .openCurly
  | '\x7d' => some .closeCurly
  | '(' => some .openParen
  | ')' => some .closeParen
  | '!' => some .not
  | '=' => some .assignment
  | '<' => some .less
  | '>' => some .greater
  | ';' => some .semicolon
  | ':' => some .colon
  | ',' => some .comma
  | '+' => some .plus
  | '-' => some .dash
  | '/' => some .slash
  | '*' => some .star
  | '%' => some .percent
  | _ => none

/-- A lexeme whose token has the source text as its value. -/
def verbatim (kind : TokenKind) (text rest : List Char) : Lexeme :=
  ⟨some (kind, String.ofList text), text, rest⟩

def run (p : Char → Bool) (source : List Char) : List Char × List Char :=
  (source.takeWhile p, source.dropWhile p)

/-- Splits off digits, and a point with digits if a digit follows the point. -/
def splitNumber (source : List Char) : List Char × List Char :=
  match run Char.isDigit source with
  | (whole, '.' :: d :: rest) =>
    if d.isDigit then
      let (fraction, after) := run Char.isDigit (d :: rest)
      (whole ++ '.' :: fraction, after)
    else (whole, '.' :: d :: rest)
  | split => split

/-- The punctuation mark at the front of `c :: rest`, the longer one if two begin there. -/
def punctuation? (c : Char) (rest : List Char) : Option Lexeme :=
  let pair := rest.head?.bind fun d => (pairKind? c d).map (verbatim · [c, d] rest.tail)
  pair.or ((markKind? c).map (verbatim · [c] rest))

def first (c : Char) (rest : List Char) : Except Cause Lexeme :=
  if isNameStart c then
    let (word, after) := run isNamePart (c :: rest)
    .ok (verbatim (wordKind (String.ofList word)) word after)
  else if c.isDigit then
    let (number, after) := splitNumber (c :: rest)
    .ok (verbatim .number number after)
  else if Text.isBlank c then
    let (blanks, after) := run Text.isBlank (c :: rest)
    .ok ⟨none, blanks, after⟩
  else if c = '"' then
    match StringLiteral.split rest with
    | some (body, after) =>
      let value := String.ofList (StringLiteral.unescape body)
      .ok ⟨some (.string, value), '"' :: body ++ ['"'], after⟩
    | none => .error (.unexpectedTokenBecause "\"" "unterminated string literal")
  else if c = '/' ∧ rest.head? = some '/' then
    let (comment, after) := run (· ≠ '\n') (c :: rest)
    .ok ⟨none, comment, after⟩
  else
    match punctuation? c rest with
    | some lexeme => .ok lexeme
    | none => .error (.unrecognisedToken (String.ofList [c]))

@[simp] theorem run_append (p : Char → Bool) (source : List Char) :
    (run p source).1 ++ (run p source).2 = source :=
  List.takeWhile_append_dropWhile

theorem splitNumber_append (source : List Char) :
    (splitNumber source).1 ++ (splitNumber source).2 = source := by
  have h := run_append Char.isDigit source
  unfold splitNumber
  split
  · rename_i whole d rest hr
    rw [hr] at h
    split
    · simpa [List.append_assoc] using h
    · exact h
  · exact h

theorem run_ne_nil {p : Char → Bool} {c : Char} {rest : List Char} (h : p c = true) :
    (run p (c :: rest)).1 ≠ [] := by
  simp [run, h]

theorem splitNumber_ne_nil {c : Char} {rest : List Char} (h : c.isDigit = true) :
    (splitNumber (c :: rest)).1 ≠ [] := by
  have hr : (run Char.isDigit (c :: rest)).1 ≠ [] := run_ne_nil h
  unfold splitNumber
  split
  · split
    · simp
    · rename_i heq _; rw [heq] at hr; exact hr
  · exact hr

theorem isNamePart_of_isNameStart {c : Char} (h : isNameStart c = true) : isNamePart c = true := by
  simp only [isNameStart, isNamePart, Char.isAlphanum, Bool.or_eq_true] at h ⊢
  exact h.imp_left .inl

theorem punctuation?_append {c : Char} {rest : List Char} {l : Lexeme}
    (h : punctuation? c rest = some l) : l.text ++ l.rest = c :: rest ∧ l.text ≠ [] := by
  obtain h | ⟨_, h⟩ := Option.or_eq_some_iff.1 h
  · obtain ⟨d, hd, h⟩ := Option.bind_eq_some_iff.1 h
    obtain ⟨kind, _, rfl⟩ := Option.map_eq_some_iff.1 h
    obtain ⟨after, rfl⟩ := List.head?_eq_some_iff.1 hd
    simp [verbatim]
  · obtain ⟨kind, _, rfl⟩ := Option.map_eq_some_iff.1 h
    simp [verbatim]

/-- A lexeme has at least one character, and together with the text after it makes up the source. -/
theorem append_of_first {c : Char} {rest : List Char} {l : Lexeme} (h : first c rest = .ok l) :
    l.text ++ l.rest = c :: rest ∧ l.text ≠ [] := by
  unfold first at h
  split at h
  · rename_i hc
    obtain rfl := Except.ok.inj h
    exact ⟨run_append .., run_ne_nil (isNamePart_of_isNameStart hc)⟩
  split at h
  · rename_i hc
    obtain rfl := Except.ok.inj h
    exact ⟨splitNumber_append _, splitNumber_ne_nil hc⟩
  split at h
  · rename_i hc
    obtain rfl := Except.ok.inj h
    exact ⟨run_append .., run_ne_nil hc⟩
  split at h
  · rename_i hc
    subst hc
    split at h
    · rename_i body after hs
      obtain rfl := Except.ok.inj h
      simp [StringLiteral.eq_of_split hs]
    · cases h
  split at h
  · rename_i hc
    obtain rfl := Except.ok.inj h
    exact ⟨run_append .., run_ne_nil (by simp [hc.1])⟩
  · split at h
    · rename_i lexeme hp
      obtain rfl := Except.ok.inj h
      exact punctuation?_append hp
    · cases h

/-- Every lexeme shortens the source. -/
theorem length_rest_lt {c : Char} {rest : List Char} {l : Lexeme} (h : first c rest = .ok l) :
    l.rest.length < (c :: rest).length := by
  obtain ⟨happ, hne⟩ := append_of_first h
  have := List.length_pos_iff.2 hne
  rw [← happ, List.length_append]
  omega

end Lexeme

namespace Token

/-- The tokens of a text that starts on the given line, the end of file included. -/
def scan (line : Nat) : List Char → Except Error (List Token)
  | [] => .ok [endOfFile line]
  | c :: rest =>
    match h : Lexeme.first c rest with
    | .error cause => .error ⟨cause, line⟩
    | .ok lexeme =>
      have := Lexeme.length_rest_lt h
      match scan (line + lexeme.text.count '\n') lexeme.rest with
      | .error e => .error e
      | .ok following =>
        match lexeme.token with
        | none => .ok following
        | some (kind, value) => .ok (⟨kind, value, line⟩ :: following)
termination_by source => source.length
decreasing_by assumption

def ofSource (source : String) : Except Error (List Token) := scan 1 source.toList

end Token
end LexScript
