import LexScript.Parse.Program
import LexScript.Proofs.Scope.Identifiers

/-!
# What readers do

A reader moves forward through the tokens and numbers the identifiers that it reads one after the
other, or it refuses one of the tokens. Readers that are run in turn read the identifiers of both.
-/

namespace LexScript.Parse

/-- The error is about one of the tokens. A malformed number is a number token that can not be read. -/
structure Blames (tokens : List Token) (e : Error) : Prop where
  kind : e.cause.kind = .reading
  line : ∃ t ∈ tokens, e.line = t.line
  number : ∀ text, e.cause = .malformedNumber text →
    ∃ t ∈ tokens, t.kind = .number ∧ t.value = text ∧ Number.ofText? text = none

/-- The cursor is among the tokens, behind these identifiers, whose identities count up from zero. -/
structure Behind (tokens : List Token) (identifiers : List Identifier) (c : Cursor) : Prop where
  ahead : ∀ t ∈ c.ahead, t ∈ tokens
  stop : c.stop ∈ tokens
  ids : identifiers.map Identifier.id = List.range identifiers.length
  next : c.nextId = identifiers.length

variable {α β : Type} {tokens : List Token} {before : List Identifier}

/-- The result of a reader: a cursor behind the identifiers that are read by then, or a blame. -/
def Ends (tokens : List Token) (after : α → List Identifier) : Except Error (α × Cursor) → Prop
  | .ok (a, c) => Behind tokens (after a) c
  | .error e => Blames tokens e

def Reads (tokens : List Token) (before : List Identifier) (reader : Parse α)
    (after : α → List Identifier) : Prop :=
  ∀ c, Behind tokens before c → Ends tokens after (reader c)

/-- A token is to blame for an error on its line that is not about numbers. -/
theorem Blames.of_mem {t : Token} (ht : t ∈ tokens) {cause : Cause} (hkind : cause.kind = .reading)
    (hnumber : ∀ text, cause ≠ .malformedNumber text) : Blames tokens ⟨cause, t.line⟩ where
  kind := hkind
  line := ⟨t, ht, rfl⟩
  number text hcause := absurd hcause (hnumber text)

namespace Behind

theorem token_mem {c : Cursor} (h : Behind tokens before c) : c.token ∈ tokens := by
  rw [Cursor.token]
  cases hc : c.ahead with
  | nil => exact h.stop
  | cons t ts => exact h.ahead t (by simp [hc])

theorem next_cursor {c : Cursor} (h : Behind tokens before c) : Behind tokens before c.next where
  ahead t ht := h.ahead t (List.mem_of_mem_tail ht)
  stop := h.stop
  ids := h.ids
  next := h.next

end Behind

namespace Reads

theorem bind {reader : Parse α} {f : α → Parse β} {middle : α → List Identifier}
    {after : β → List Identifier} (h : Reads tokens before reader middle)
    (hf : ∀ a, Reads tokens (middle a) (f a) after) : Reads tokens before (reader >>= f) after := by
  intro c hc
  have hreader := h c hc
  change Ends tokens after (reader c >>= fun p => f p.1 p.2)
  cases hr : reader c with
  | error e =>
    rw [hr] at hreader
    exact hreader
  | ok p =>
    rw [hr] at hreader
    exact hf p.1 p.2 hreader

theorem pure {a : α} {after : α → List Identifier} (h : after a = before) :
    Reads tokens before (pure a) after := by
  intro c hc
  change Behind tokens (after a) c
  rw [h]
  exact hc

theorem map {reader : Parse α} {f : α → β} {after : β → List Identifier}
    (h : Reads tokens before reader (after ∘ f)) : Reads tokens before (f <$> reader) after := by
  rw [map_eq_pure_bind]
  exact h.bind fun a => pure rfl

theorem peek : Reads tokens before peek fun _ => before := fun _ hc => hc

theorem line : Reads tokens before line fun _ => before := fun _ hc => hc

theorem advance : Reads tokens before advance fun _ => before := fun _ hc => hc.next_cursor

theorem skip : Reads tokens before skip fun _ => before := fun _ hc => hc.next_cursor

theorem unexpected {after : α → List Identifier} : Reads tokens before unexpected after :=
  fun _ hc => .of_mem hc.token_mem rfl (by simp)

theorem refuse {message : String} {after : α → List Identifier} :
    Reads tokens before (refuse message) after :=
  fun _ hc => .of_mem hc.token_mem rfl (by simp)

theorem expect {kind : TokenKind} : Reads tokens before (expect kind) fun _ => before := by
  apply peek.bind
  intro _
  split
  · exact skip
  · exact unexpected

theorem expectOr {kind : TokenKind} {message : String} :
    Reads tokens before (expectOr kind message) fun _ => before := by
  apply peek.bind
  intro _
  split
  · exact skip
  · exact refuse

theorem fresh {name : String} : Reads tokens before (fresh name) fun i => before ++ [i] := by
  intro c hc
  refine ⟨hc.ahead, hc.stop, ?_, ?_⟩
  · simp [List.map_append, hc.ids, List.length_append, List.range_succ, hc.next]
  · simp [← hc.next]

theorem identifier {message : String} :
    Reads tokens before (identifier message) fun i => before ++ [i] := by
  apply peek.bind
  intro _
  split
  · exact advance.bind fun _ => fresh
  · exact refuse

theorem withFuel {reader : Nat → Parse α} {after : α → List Identifier}
    (h : ∀ fuel, Reads tokens before (reader fuel) after) : Reads tokens before (withFuel reader) after :=
  fun c hc => h _ c hc

/-- A reader may take another way for every kind of token, and knows the token then. -/
theorem peek_bind {f : TokenKind → Parse α} {after : α → List Identifier}
    (h : ∀ c, Behind tokens before c → Ends tokens after (f c.token.kind c)) :
    Reads tokens before (Parse.peek >>= f) after :=
  h

/-- A reader that takes a token may go on to blame it. -/
theorem advance_bind {f : Token → Parse α} {after : α → List Identifier}
    (h : ∀ t ∈ tokens, Reads tokens before (f t) after) :
    Reads tokens before (Parse.advance >>= f) after :=
  fun c hc => h c.token hc.token_mem c.next hc.next_cursor

/-- A token on which a reader stops is to blame. -/
theorem throw {e : Error} {after : α → List Identifier} (h : Blames tokens e) :
    Reads tokens before (throw e) after :=
  fun _ _ => h

end Reads

end LexScript.Parse
