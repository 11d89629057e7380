/-!
# String literals

A literal runs to the first double quote that is not the second character of a backslash pair, pairs
being read from left to right, and its value is decoded by the same pairing. `eq_of_split` says that
splitting loses nothing but the closing quote.
-/

namespace LexScript.StringLiteral

/-- Splits the text after an opening quote into the body of the literal and what follows its closing
quote. A backslash can not be paired with a line feed, so such a literal never ends. -/
def split : List Char → Option (List Char × List Char)
  | [] => none
  | '"' :: rest => some ([], rest)
  | ['\\'] => none
  | '\\' :: c :: rest =>
    if c = '\n' then none
    else (split rest).map fun (body, after) => ('\\' :: c :: body, after)
  | c :: rest => (split rest).map fun (body, after) => (c :: body, after)

def escapedChar? : Char → Option Char
  | 'n' => some '\n'
  | 't' => some '\t'
  | 'r' => some '\r'
  | '\\' => some '\\'
  | '"' => some '"'
  | '0' => some '\x00'
  | _ => none

/-- The text that the body of a literal stands for. An unknown pair stands for itself. -/
def unescape : List Char → List Char
  | '\\' :: c :: rest =>
    match escapedChar? c with
    | some d => d :: unescape rest
    | none => '\\' :: c :: unescape rest
  | c :: rest => c :: unescape rest
  | [] => []

theorem eq_of_split {source body after : List Char} (h : split source = some (body, after)) :
    source = body ++ '"' :: after := by
  fun_induction split source generalizing body after with
  | case1 => simp at h
  | case2 => simp_all
  | case3 => simp at h
  | case4 => simp at h
  | case5 c rest _ ih | case6 c rest _ _ _ ih =>
    obtain ⟨⟨b, a⟩, hs, he⟩ := Option.map_eq_some_iff.1 h
    obtain ⟨rfl, rfl⟩ := Prod.mk.inj he
    simp [ih hs]

end LexScript.StringLiteral
