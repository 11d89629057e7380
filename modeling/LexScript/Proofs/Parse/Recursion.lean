import LexScript.Proofs.Parse.Identities
import LexScript.Proofs.Parse.SourceOrder
import LexScript.Proofs.Parse.Tape

/-!
# Reading ends

No reader of a tape is called again before a token is passed: at most five calls stand inside each other at one
token, and none passes an end of file. So the readers end, whatever the tokens are, and what they read is the
program that `Program.ofTokens` gives: `Program.ofTokens_total`.
-/

namespace LexScript

namespace Cursor

theorem next_of_ahead_eq_nil {c : Cursor} (h : c.ahead = []) : c.next = c := by
  obtain ⟨ahead, stop, nextId⟩ := c
  obtain rfl : ahead = [] := h
  rfl

/-- An end of file ends a list of tokens, whatever stands behind it. -/
theorem start_append {stop : Token} (hstop : stop.kind = .eof) (tokens rest : List Token) :
    start (tokens ++ stop :: rest) =
      ⟨tokens.takeWhile (·.kind ≠ .eof), (tokens.find? (·.kind = .eof)).getD stop, 0⟩ := by
  have hahead : (tokens ++ stop :: rest).takeWhile (·.kind ≠ .eof) = tokens.takeWhile (·.kind ≠ .eof) := by
    induction tokens with
    | nil => simp [hstop]
    | cons t tokens ih => simp only [List.cons_append, List.takeWhile_cons, ih]
  have hfind : (stop :: rest).find? (·.kind = .eof) = some stop := by simp [hstop]
  simp only [start, hahead, List.find?_append, hfind]
  cases tokens.find? (·.kind = .eof) <;> rfl

end Cursor

namespace Tape

variable {α β : Type}

/-! ## The cursor of a tape -/

theorem last_kind (t : Tape) : (t.tokens.getLast t.tokens_ne_nil).kind = .eof := by
  have hclosed := t.closed
  rw [List.getLast?_eq_some_getLast t.tokens_ne_nil] at hclosed
  exact Option.some.inj hclosed

def cursor (t : Tape) : Cursor where
  ahead := (t.tokens.drop t.index).takeWhile (·.kind ≠ .eof)
  stop := ((t.tokens.drop t.index).find? (·.kind = .eof)).getD (t.tokens.getLast t.tokens_ne_nil)
  nextId := t.nextId

def left (t : Tape) : Nat := t.cursor.ahead.length

theorem token_eq_headD (t : Tape) :
    t.token = (t.tokens.drop t.index).headD (t.tokens.getLast t.tokens_ne_nil) := by
  rw [token, List.get_eq_getElem]
  by_cases h : t.index < t.tokens.length
  · have hmin : min t.index (t.tokens.length - 1) = t.index := by omega
    simp only [hmin, List.drop_eq_getElem_cons h, List.headD_cons]
  · have hmin : min t.index (t.tokens.length - 1) = t.tokens.length - 1 := by omega
    simp only [hmin, List.drop_eq_nil_of_le (Nat.le_of_not_lt h), List.headD_nil, List.getLast_eq_getElem]

@[simp]
theorem cursor_token (t : Tape) : t.cursor.token = t.token := by
  rw [token_eq_headD, Cursor.token, cursor]
  cases t.tokens.drop t.index with
  | nil => rfl
  | cons u rest => by_cases h : u.kind = .eof <;> simp [h]

/-- Before an end of file the index is among the tokens. -/
theorem drop_index (t : Tape) (h : t.token.kind ≠ .eof) :
    t.tokens.drop t.index = t.token :: t.tokens.drop (t.index + 1) := by
  rw [token_eq_headD] at h ⊢
  rw [← List.tail_drop]
  cases hdrop : t.tokens.drop t.index with
  | nil =>
    rw [hdrop] at h
    exact absurd t.last_kind h
  | cons u rest => rfl

/-- At an end of file nothing is left. -/
theorem ahead_of_eof (t : Tape) (h : t.token.kind = .eof) : t.cursor.ahead = [] := by
  rw [token_eq_headD] at h
  rw [cursor]
  cases hdrop : t.tokens.drop t.index with
  | nil => rfl
  | cons u rest =>
    rw [hdrop, List.headD_cons] at h
    simp [h]

theorem next_of_eof {t : Tape} (h : t.token.kind = .eof) : t.next = t := if_pos h

theorem next_index {t : Tape} (h : t.token.kind ≠ .eof) : t.next.index = t.index + 1 := by
  simp [next, h]

@[simp]
theorem cursor_next (t : Tape) : t.next.cursor = t.cursor.next := by
  by_cases h : t.token.kind = .eof
  · simp [next_of_eof h, Cursor.next_of_ahead_eq_nil (t.ahead_of_eof h)]
  · have hdrop := t.drop_index h
    simp [next, h, cursor, Cursor.next, hdrop]

/-- A token that is passed is no longer left. -/
theorem left_next {t : Tape} (h : t.token.kind ≠ .eof) : t.left = t.next.left + 1 := by
  have hdrop := t.drop_index h
  simp [left, next, h, cursor, hdrop]

theorem cursor_start (tokens : List Token) : (start tokens).cursor = Cursor.start tokens := by
  have hclosed := closed_close tokens
  obtain ⟨last, hlast, heof⟩ := Option.map_eq_some_iff.1 hclosed
  have hfind : ((close tokens).find? (·.kind = .eof)).isSome :=
    List.find?_isSome.2 ⟨last, List.mem_of_getLast? hlast, decide_eq_true heof⟩
  obtain ⟨stop, hstop⟩ := Option.isSome_iff_exists.1 hfind
  calc (start tokens).cursor = Cursor.start (close tokens) := by
        simp [cursor, start, Cursor.start, hstop]
    _ = Cursor.start tokens := by
        rw [close]
        split
        · rfl
        · rw [Cursor.start_append rfl]
          rfl

/-! ## Readers that do the same -/

/-- From the tape a reader does what another one does from its cursor. If they succeed, the index has moved by
the tokens that are no longer left, and fewer tokens than the bound are left. -/
structure Follows (reader : Reader α) (other : Parse α) (t : Tape) (bound : Nat) : Prop where
  result : (reader t).map (fun r => (r.1, r.2.cursor)) = other t.cursor
  index : ∀ a t', reader t = .ok (a, t') → t'.index + t'.left = t.index + t.left
  left_lt : ∀ a t', reader t = .ok (a, t') → t'.left < bound

namespace Follows

variable {reader : Reader α} {other : Parse α} {t : Tape} {bound middle : Nat}

theorem bind {f : α → Reader β} {g : α → Parse β} (h : Follows reader other t middle)
    (hf : ∀ a t', t'.left < middle → Follows (f a) (g a) t' bound) :
    Follows (reader >>= f) (other >>= g) t bound := by
  have hresult := h.result
  have hrun : (reader >>= f) t = reader t >>= fun r => f r.1 r.2 := rfl
  have hother : (other >>= g) t.cursor = other t.cursor >>= fun r => g r.1 r.2 := rfl
  cases hreader : reader t with
  | error e =>
    rw [hreader] at hresult hrun
    refine ⟨?_, ?_, ?_⟩
    · rw [hrun, hother, ← hresult]
      rfl
    · rw [hrun]
      nofun
    · rw [hrun]
      nofun
  | ok r =>
    obtain ⟨a, t₁⟩ := r
    rw [hreader] at hresult hrun
    have hrest := hf a t₁ (h.left_lt a t₁ hreader)
    refine ⟨?_, ?_, ?_⟩
    · rw [hrun, hother, ← hresult]
      exact hrest.result
    · intro b t₂ hok
      rw [hrun] at hok
      exact (hrest.index b t₂ hok).trans (h.index a t₁ hreader)
    · intro b t₂ hok
      rw [hrun] at hok
      exact hrest.left_lt b t₂ hok

theorem mono {more : Nat} (h : Follows reader other t bound) (hmore : bound ≤ more) :
    Follows reader other t more :=
  ⟨h.result, h.index, fun a t' hok => Nat.lt_of_lt_of_le (h.left_lt a t' hok) hmore⟩

theorem pure {a : α} (h : t.left < bound) : Follows (pure a) (pure a) t bound := by
  refine ⟨rfl, ?_, ?_⟩
  · rintro _ _ ⟨⟩
    rfl
  · rintro _ _ ⟨⟩
    exact h

theorem map {f : α → β} (h : Follows reader other t bound) : Follows (f <$> reader) (f <$> other) t bound := by
  simp only [map_eq_pure_bind]
  exact h.bind fun _ _ => pure

theorem throw {e : Error} : Follows (α := α) (throw e) (throw e) t bound := ⟨rfl, nofun, nofun⟩

/-- What depends on the token at the tape only. -/
theorem of_token {f : Token → Reader α} {g : Token → Parse α} (h : Follows (f t.token) (g t.token) t bound) :
    Follows (fun t => f t.token t) (fun c => g c.token c) t bound := by
  refine ⟨?_, h.index, h.left_lt⟩
  rw [cursor_token]
  exact h.result

theorem unexpected : Follows (α := α) unexpected Parse.unexpected t bound :=
  of_token (f := fun token => throwThe Error ⟨.unexpectedToken token.value, token.line⟩)
    (g := fun token => throwThe Error ⟨.unexpectedToken token.value, token.line⟩) throw

theorem refuse {message : String} : Follows (α := α) (refuse message) (Parse.refuse message) t bound :=
  of_token (f := fun token => throwThe Error ⟨.unexpectedTokenBecause token.value message, token.line⟩)
    (g := fun token => throwThe Error ⟨.unexpectedTokenBecause token.value message, token.line⟩) throw

theorem peek_bind {f : TokenKind → Reader β} {g : TokenKind → Parse β}
    (h : Follows (f t.token.kind) (g t.token.kind) t bound) : Follows (peek >>= f) (Parse.peek >>= g) t bound :=
  of_token (f := fun token => f token.kind) (g := fun token => g token.kind) h

theorem line_bind {f : Nat → Reader β} {g : Nat → Parse β}
    (h : Follows (f t.token.line) (g t.token.line) t bound) : Follows (line >>= f) (Parse.line >>= g) t bound :=
  of_token (f := fun token => f token.line) (g := fun token => g token.line) h

theorem fresh {name : String} : Follows (fresh name) (Parse.fresh name) t (t.left + 1) := by
  refine ⟨rfl, ?_, ?_⟩
  · rintro _ _ ⟨⟩
    rfl
  · rintro _ _ ⟨⟩
    exact Nat.lt_succ_self t.left

/-- Whatever passes a token leaves fewer. -/
theorem advance (h : t.token.kind ≠ .eof) : Follows advance Parse.advance t t.left := by
  have hleft := left_next h
  refine ⟨?_, ?_, ?_⟩
  · have hother : Parse.advance t.cursor = .ok (t.cursor.token, t.cursor.next) := rfl
    rw [hother, cursor_token, ← cursor_next]
    rfl
  · rintro _ _ ⟨⟩
    simp [next_index h]
    omega
  · rintro _ _ ⟨⟩
    omega

theorem skip (h : t.token.kind ≠ .eof) : Follows skip Parse.skip t t.left :=
  (advance h).map (f := fun _ => ())

theorem expect {kind : TokenKind} (hkind : kind ≠ .eof) :
    Follows (expect kind) (Parse.expect kind) t t.left := by
  apply peek_bind
  split
  · rename_i h
    exact skip (by simpa [h] using hkind)
  · exact unexpected

theorem expectOr {kind : TokenKind} (hkind : kind ≠ .eof) {message : String} :
    Follows (expectOr kind message) (Parse.expectOr kind message) t t.left := by
  apply peek_bind
  split
  · rename_i h
    exact skip (by simpa [h] using hkind)
  · exact refuse

theorem identifier {message : String} :
    Follows (identifier message) (Parse.identifier message) t t.left := by
  apply peek_bind
  split
  · rename_i h
    apply (advance (by simp [h])).bind
    intro token t₁ h₁
    exact fresh.mono h₁
  · exact refuse

theorem withFuel {q : Nat → Parse α} (h : Follows reader (q (8 * t.left + 8)) t bound) :
    Follows reader (Parse.withFuel q) t bound :=
  ⟨h.result, h.index, h.left_lt⟩

end Follows

namespace Readers

variable {bottom : Readers}

/-! ## Types -/

mutual

theorem type_follows : ∀ {depth fuel : Nat} {t : Tape}, 8 * t.left + 1 ≤ min depth fuel →
    Follows (unrolled bottom depth).type (Parse.typeWithin fuel) t t.left
  | 0, _, _, h => by omega
  | _ + 1, 0, _, h => by omega
  | depth + 1, fuel + 1, t, h => by
    apply Follows.peek_bind
    cases hkind : t.token.kind with
    | identifier =>
      apply (Follows.advance (by simp [hkind])).bind
      intro token t₁ h₁
      by_cases hnumber : token.value = "number"
      · simp only [hnumber]
        exact .pure h₁
      by_cases hboolean : token.value = "bool"
      · simp only [hboolean]
        exact .pure h₁
      by_cases hstring : token.value = "string"
      · simp only [hstring]
        exact .pure h₁
      simp only
      exact .throw
    | fnWord =>
      apply (Follows.skip (by simp [hkind])).bind
      intro _ t₁ h₁
      apply (Follows.expectOr (by decide)).bind
      intro _ t₂ h₂
      apply (types_follows (by omega)).bind
      intro parameters t₃ h₃
      apply (Follows.expectOr (by decide)).bind
      intro _ t₄ h₄
      apply (returnType_follows (by omega)).bind
      intro result t₅ h₅
      exact .pure (by omega)
    | _ => exact .refuse

theorem types_follows : ∀ {depth fuel : Nat} {t : Tape}, 8 * t.left + 2 ≤ min depth fuel →
    Follows (unrolled bottom depth).types (Parse.typesWithin fuel) t (t.left + 1)
  | 0, _, _, h => by omega
  | _ + 1, 0, _, h => by omega
  | depth + 1, fuel + 1, t, h => by
    apply Follows.peek_bind
    split
    · exact .pure (Nat.lt_succ_self t.left)
    apply (type_follows (by omega)).bind
    intro first t₁ h₁
    apply Follows.peek_bind
    split
    · exact .pure (by omega)
    · rename_i hcomma
      apply (Follows.skip (by simp [Decidable.not_not.1 hcomma])).bind
      intro _ t₂ h₂
      apply (types_follows (by omega)).bind
      intro rest t₃ h₃
      exact .pure (by omega)

theorem returnType_follows : ∀ {depth fuel : Nat} {t : Tape}, 8 * t.left + 2 ≤ min depth fuel →
    Follows (unrolled bottom depth).returnType (Parse.returnTypeWithin fuel) t (t.left + 1)
  | 0, _, _, h => by omega
  | _ + 1, 0, _, h => by omega
  | depth + 1, fuel + 1, t, h => by
    apply Follows.peek_bind
    split
    · exact .pure (Nat.lt_succ_self t.left)
    · rename_i harrow
      apply (Follows.skip (by simp [Decidable.not_not.1 harrow])).bind
      intro _ t₁ h₁
      exact (type_follows (by omega)).mono (by omega)

end

/-! ## Expressions -/

theorem token_ne_eof_of_power {t : Tape} {floor : Nat} (h : ¬ Parse.power t.token.kind ≤ floor) :
    t.token.kind ≠ .eof := by
  intro heof
  rw [heof] at h
  exact h (Nat.zero_le floor)

mutual

theorem expr_follows : ∀ {depth fuel : Nat} {t : Tape} {floor : Nat}, 8 * t.left + 2 ≤ min depth fuel →
    Follows ((unrolled bottom depth).expr floor) (Parse.exprWithin fuel floor) t t.left
  | 0, _, _, _, h => by omega
  | _ + 1, 0, _, _, h => by omega
  | depth + 1, fuel + 1, t, floor, h => by
    apply (operand_follows (by omega)).bind
    intro operand t₁ h₁
    exact (extend_follows (by omega)).mono h₁

theorem operand_follows : ∀ {depth fuel : Nat} {t : Tape}, 8 * t.left + 1 ≤ min depth fuel →
    Follows (unrolled bottom depth).operand (Parse.operandWithin fuel) t t.left
  | 0, _, _, h => by omega
  | _ + 1, 0, _, h => by omega
  | depth + 1, fuel + 1, t, h => by
    apply Follows.peek_bind
    cases hkind : t.token.kind with
    | number =>
      apply (Follows.advance (by simp [hkind])).bind
      intro token t₁ h₁
      cases Number.ofText? token.value with
      | none => exact .throw
      | some value => exact .pure h₁
    | string =>
      apply (Follows.advance (by simp [hkind])).bind
      intro token t₁ h₁
      exact .pure h₁
    | trueWord | falseWord =>
      apply (Follows.skip (by simp [hkind])).bind
      intro _ t₁ h₁
      exact .pure h₁
    | identifier =>
      apply (Follows.advance (by simp [hkind])).bind
      intro token t₁ h₁
      apply Follows.fresh.bind
      intro name t₂ h₂
      exact .pure (by omega)
    | dash | not =>
      apply (Follows.skip (by simp [hkind])).bind
      intro _ t₁ h₁
      apply (expr_follows (by omega)).bind
      intro operand t₂ h₂
      exact .pure (by omega)
    | openParen =>
      apply (Follows.skip (by simp [hkind])).bind
      intro _ t₁ h₁
      apply (expr_follows (by omega)).bind
      intro inner t₂ h₂
      apply (Follows.expectOr (by decide)).bind
      intro _ t₃ h₃
      exact .pure (by omega)
    | _ => exact .unexpected

theorem extend_follows : ∀ {depth fuel : Nat} {t : Tape} {floor : Nat} {first : Expr},
    8 * t.left + 1 ≤ min depth fuel →
    Follows ((unrolled bottom depth).extend floor first) (Parse.extendWithin fuel floor first) t (t.left + 1)
  | 0, _, _, _, _, h => by omega
  | _ + 1, 0, _, _, _, h => by omega
  | depth + 1, fuel + 1, t, floor, first, h => by
    apply Follows.peek_bind
    split
    · exact .pure (Nat.lt_succ_self t.left)
    rename_i hpower
    apply (Follows.advance (token_ne_eof_of_power hpower)).bind
    intro token t₁ h₁
    cases Parse.binaryOperator? t.token.kind with
    | some operator =>
      apply (expr_follows (by omega)).bind
      intro second t₂ h₂
      exact (extend_follows (by omega)).mono (by omega)
    | none =>
      dsimp only
      split
      · apply (arguments_follows (by omega)).bind
        intro arguments t₂ h₂
        apply (Follows.expectOr (by decide)).bind
        intro _ t₃ h₃
        exact (extend_follows (by omega)).mono (by omega)
      · cases first with
        | name target =>
          apply (expr_follows (by omega)).bind
          intro value t₂ h₂
          exact (extend_follows (by omega)).mono (by omega)
        | _ => exact .throw

theorem arguments_follows : ∀ {depth fuel : Nat} {t : Tape}, 8 * t.left + 4 ≤ min depth fuel →
    Follows (unrolled bottom depth).arguments (Parse.argumentsWithin fuel) t (t.left + 1)
  | 0, _, _, h => by omega
  | _ + 1, 0, _, h => by omega
  | depth + 1, fuel + 1, t, h => by
    apply Follows.peek_bind
    split
    · exact .pure (Nat.lt_succ_self t.left)
    · exact (someArguments_follows (by omega)).mono (Nat.le_succ t.left)

theorem someArguments_follows : ∀ {depth fuel : Nat} {t : Tape}, 8 * t.left + 3 ≤ min depth fuel →
    Follows (unrolled bottom depth).someArguments (Parse.someArgumentsWithin fuel) t t.left
  | 0, _, _, h => by omega
  | _ + 1, 0, _, h => by omega
  | depth + 1, fuel + 1, t, h => by
    apply (expr_follows (by omega)).bind
    intro first t₁ h₁
    apply Follows.peek_bind
    split
    · exact .pure h₁
    · rename_i hcomma
      apply (Follows.skip (by simp [Decidable.not_not.1 hcomma])).bind
      intro _ t₂ h₂
      apply (someArguments_follows (by omega)).bind
      intro rest t₃ h₃
      exact .pure (by omega)

end

/-! ## Statements and declarations -/

section

variable {depth : Nat} {t : Tape}

theorem type_follows_type (h : 8 * t.left + 1 ≤ depth) :
    Follows (unrolled bottom depth).type Parse.type t t.left :=
  .withFuel (type_follows (by omega))

theorem returnType_follows_returnType (h : 8 * t.left + 2 ≤ depth) :
    Follows (unrolled bottom depth).returnType Parse.returnType t (t.left + 1) :=
  .withFuel (returnType_follows (by omega))

theorem expr_follows_expr (h : 8 * t.left + 2 ≤ depth) :
    Follows ((unrolled bottom depth).expr 0) Parse.expr t t.left :=
  .withFuel (expr_follows (by omega))

end

theorem parameters_follows : ∀ {depth fuel : Nat} {t : Tape}, 8 * t.left + 1 ≤ min depth fuel →
    Follows (unrolled bottom depth).parameters (Parse.parametersWithin fuel) t (t.left + 1)
  | 0, _, _, h => by omega
  | _ + 1, 0, _, h => by omega
  | depth + 1, fuel + 1, t, h => by
    apply Follows.peek_bind
    split
    · exact .pure (Nat.lt_succ_self t.left)
    apply Follows.identifier.bind
    intro name t₁ h₁
    apply (Follows.expectOr (by decide)).bind
    intro _ t₂ h₂
    apply (type_follows_type (by omega)).bind
    intro type t₃ h₃
    apply Follows.peek_bind
    split
    · exact .pure (by omega)
    · rename_i hcomma
      apply (Follows.skip (by simp [Decidable.not_not.1 hcomma])).bind
      intro _ t₄ h₄
      apply (parameters_follows (by omega)).bind
      intro rest t₅ h₅
      exact .pure (by omega)

section

variable {depth : Nat} {t : Tape} {line : Nat}

theorem functionHeader_follows (h : 8 * t.left ≤ depth) :
    Follows (unrolled bottom depth).functionHeader Parse.functionHeader t t.left := by
  apply Follows.identifier.bind
  intro name t₁ h₁
  apply (Follows.expect (by decide)).bind
  intro _ t₂ h₂
  apply (Follows.withFuel (parameters_follows (by omega))).bind
  intro parameters t₃ h₃
  apply (Follows.expectOr (by decide)).bind
  intro _ t₄ h₄
  apply (returnType_follows_returnType (by omega)).bind
  intro result t₅ h₅
  exact .pure (by omega)

theorem binding_follows (h : 8 * t.left ≤ depth) :
    Follows ((unrolled bottom depth).binding line) (Parse.binding line) t t.left := by
  apply Follows.identifier.bind
  intro name t₁ h₁
  apply (Follows.expectOr (by decide)).bind
  intro _ t₂ h₂
  apply (type_follows_type (by omega)).bind
  intro declared t₃ h₃
  apply (Follows.expectOr (by decide)).bind
  intro _ t₄ h₄
  apply (expr_follows_expr (by omega)).bind
  intro value t₅ h₅
  apply (Follows.expectOr (by decide)).bind
  intro _ t₆ h₆
  exact .pure (by omega)

theorem printStmt_follows (h : 8 * t.left ≤ depth) :
    Follows ((unrolled bottom depth).printStmt line) (Parse.printStmt line) t t.left := by
  apply (Follows.expectOr (by decide)).bind
  intro _ t₁ h₁
  apply (expr_follows_expr (by omega)).bind
  intro value t₂ h₂
  apply (Follows.expectOr (by decide)).bind
  intro _ t₃ h₃
  apply (Follows.expectOr (by decide)).bind
  intro _ t₄ h₄
  exact .pure (by omega)

theorem returnStmt_follows (h : 8 * t.left + 2 ≤ depth) :
    Follows ((unrolled bottom depth).returnStmt line) (Parse.returnStmt line) t t.left := by
  apply Follows.peek_bind
  split
  · simp only [pure_bind]
    apply (Follows.expectOr (by decide)).bind
    intro _ t₁ h₁
    exact .pure h₁
  · apply (expr_follows_expr h).map.bind
    intro value t₁ h₁
    apply (Follows.expectOr (by decide)).bind
    intro _ t₂ h₂
    exact .pure (by omega)

theorem exprStmt_follows (h : 8 * t.left + 2 ≤ depth) :
    Follows (unrolled bottom depth).exprStmt Parse.exprStmt t t.left := by
  apply Follows.line_bind
  apply (expr_follows_expr h).bind
  intro value t₁ h₁
  apply (Follows.expectOr (by decide)).bind
  intro _ t₂ h₂
  exact .pure (by omega)

end

mutual

theorem decl_follows : ∀ {depth fuel : Nat} {t : Tape}, 8 * t.left + 4 ≤ min depth fuel →
    Follows (unrolled bottom depth).decl (Parse.declWithin fuel) t t.left
  | 0, _, _, h => by omega
  | _ + 1, 0, _, h => by omega
  | depth + 1, fuel + 1, t, h => by
    apply Follows.peek_bind
    cases hkind : t.token.kind with
    | letWord =>
      apply (Follows.advance (by simp [hkind])).bind
      intro word t₁ h₁
      exact (binding_follows (by omega)).mono (by omega)
    | fnWord =>
      apply (Follows.advance (by simp [hkind])).bind
      intro word t₁ h₁
      apply (functionHeader_follows (by omega)).bind
      intro header t₂ h₂
      apply Follows.peek_bind
      split
      · rename_i hending
        apply (Follows.skip (by simp [hending])).bind
        intro _ t₃ h₃
        exact .pure (by omega)
      · apply (block_follows (by omega)).bind
        intro body t₃ h₃
        exact .pure (by omega)
    | _ =>
      apply (stmt_follows (by omega)).bind
      intro s t₁ h₁
      exact .pure h₁

theorem stmt_follows : ∀ {depth fuel : Nat} {t : Tape}, 8 * t.left + 3 ≤ min depth fuel →
    Follows (unrolled bottom depth).stmt (Parse.stmtWithin fuel) t t.left
  | 0, _, _, h => by omega
  | _ + 1, 0, _, h => by omega
  | depth + 1, fuel + 1, t, h => by
    apply Follows.peek_bind
    cases hkind : t.token.kind with
    | printWord =>
      apply (Follows.advance (by simp [hkind])).bind
      intro word t₁ h₁
      exact (printStmt_follows (by omega)).mono (by omega)
    | returnWord =>
      apply (Follows.advance (by simp [hkind])).bind
      intro word t₁ h₁
      exact (returnStmt_follows (by omega)).mono (by omega)
    | ifWord =>
      apply (Follows.advance (by simp [hkind])).bind
      intro word t₁ h₁
      apply (expr_follows_expr (by omega)).bind
      intro condition t₂ h₂
      apply (stmt_follows (by omega)).bind
      intro thenBranch t₃ h₃
      apply Follows.peek_bind
      split
      · exact .pure (by omega)
      · rename_i helse
        apply (Follows.skip (by simp [Decidable.not_not.1 helse])).bind
        intro _ t₄ h₄
        apply (stmt_follows (by omega)).bind
        intro elseBranch t₅ h₅
        exact .pure (by omega)
    | whileWord =>
      apply (Follows.advance (by simp [hkind])).bind
      intro word t₁ h₁
      apply (expr_follows_expr (by omega)).bind
      intro condition t₂ h₂
      apply (stmt_follows (by omega)).bind
      intro body t₃ h₃
      exact .pure (by omega)
    | forWord =>
      apply (Follows.advance (by simp [hkind])).bind
      intro word t₁ h₁
      apply (decl_follows (by omega)).bind
      intro first t₂ h₂
      apply (expr_follows_expr (by omega)).bind
      intro condition t₃ h₃
      apply (Follows.expectOr (by decide)).bind
      intro _ t₄ h₄
      apply Follows.line_bind
      apply (expr_follows_expr (by omega)).bind
      intro step t₅ h₅
      apply (stmt_follows (by omega)).bind
      intro body t₆ h₆
      exact .pure (by omega)
    | openCurly =>
      apply Follows.line_bind
      apply (block_follows (by omega)).bind
      intro body t₁ h₁
      exact .pure h₁
    | letWord | fnWord => exact .refuse
    | _ => exact exprStmt_follows (by omega)

theorem block_follows : ∀ {depth fuel : Nat} {t : Tape}, 8 * t.left + 1 ≤ min depth fuel →
    Follows (unrolled bottom depth).block (Parse.blockWithin fuel) t t.left
  | 0, _, _, h => by omega
  | _ + 1, 0, _, h => by omega
  | depth + 1, fuel + 1, t, h => by
    apply (Follows.expectOr (by decide)).bind
    intro _ t₁ h₁
    exact (blockRest_follows (by omega)).mono (by omega)

theorem blockRest_follows : ∀ {depth fuel : Nat} {t : Tape}, 8 * t.left + 5 ≤ min depth fuel →
    Follows (unrolled bottom depth).blockRest (Parse.blockRestWithin fuel) t t.left
  | 0, _, _, h => by omega
  | _ + 1, 0, _, h => by omega
  | depth + 1, fuel + 1, t, h => by
    apply Follows.peek_bind
    cases hkind : t.token.kind with
    | closeCurly =>
      apply (Follows.skip (by simp [hkind])).bind
      intro _ t₁ h₁
      exact .pure h₁
    | eof => exact .unexpected
    | _ =>
      apply (decl_follows (by omega)).bind
      intro first t₁ h₁
      apply (blockRest_follows (by omega)).bind
      intro rest t₂ h₂
      exact .pure (by omega)

end

theorem decls_follows : ∀ {depth fuel : Nat} {t : Tape}, 8 * t.left + 5 ≤ min depth fuel →
    Follows (unrolled bottom depth).decls (Parse.declsWithin fuel) t (t.left + 1)
  | 0, _, _, h => by omega
  | _ + 1, 0, _, h => by omega
  | depth + 1, fuel + 1, t, h => by
    apply Follows.peek_bind
    split
    · exact .pure (Nat.lt_succ_self t.left)
    have hdecl : Follows (unrolled bottom depth).decl Parse.decl t t.left :=
      .withFuel (decl_follows (by omega))
    apply hdecl.bind
    intro first t₁ h₁
    apply (decls_follows (by omega)).bind
    intro rest t₂ h₂
    exact .pure (by omega)

def refusing : Readers where
  type := unexpected
  types := unexpected
  returnType := unexpected
  expr _ := unexpected
  operand := unexpected
  extend _ _ := unexpected
  arguments := unexpected
  someArguments := unexpected
  parameters := unexpected
  decl := unexpected
  stmt := unexpected
  block := unexpected
  blockRest := unexpected
  decls := unexpected

end Readers

/-! ## The program on a tape -/

theorem left_start (tokens : List Token) : (start tokens).left = (tokens.takeWhile (·.kind ≠ .eof)).length := by
  rw [left, cursor_start]
  rfl

/-- A depth that is enough for all tokens. -/
theorem decls_follows_start (bottom : Readers) {tokens : List Token} {depth : Nat}
    (h : 8 * tokens.length + 5 ≤ depth) :
    Follows (Readers.unrolled bottom depth).decls (Parse.withFuel Parse.declsWithin) (start tokens)
      ((start tokens).left + 1) := by
  have hleft : (start tokens).left ≤ tokens.length := by
    rw [left_start]
    exact (List.takeWhile_sublist _).length_le
  exact .withFuel (Readers.decls_follows (by omega))

theorem program_eq_ofTokens {bottom : Readers} {tokens : List Token} {depth : Nat}
    (h : 8 * tokens.length + 5 ≤ depth) :
    (Readers.unrolled bottom depth).program tokens = Program.ofTokens tokens := by
  have hresult := (decls_follows_start bottom h).result
  rw [cursor_start] at hresult
  have hprogram : (Readers.unrolled bottom depth).program tokens =
      (Readers.unrolled bottom depth).decls (start tokens) >>= fun r => .ok ⟨r.1, r.2.nextId⟩ := rfl
  have hofTokens : Program.ofTokens tokens =
      Parse.withFuel Parse.declsWithin (.start tokens) >>= fun r => .ok ⟨r.1, r.2.nextId⟩ := rfl
  rw [hprogram, hofTokens, ← hresult]
  cases (Readers.unrolled bottom depth).decls (start tokens) <;> rfl

/-- A program is read to its end. -/
theorem decls_reaches_end {bottom : Readers} {tokens : List Token} {depth : Nat}
    (h : 8 * tokens.length + 5 ≤ depth) {program : Program} (hread : Program.ofTokens tokens = .ok program) :
    ∃ finish, (Readers.unrolled bottom depth).decls (start tokens) = .ok (program.declarations, finish) ∧
      finish.index = (tokens.takeWhile (·.kind ≠ .eof)).length := by
  have hfollows := decls_follows_start bottom h
  have hresult := hfollows.result
  obtain ⟨c, hdecls, -⟩ := Program.ofTokens_eq_ok.1 hread
  rw [cursor_start, hdecls] at hresult
  cases hrun : (Readers.unrolled bottom depth).decls (start tokens) with
  | error e =>
    rw [hrun] at hresult
    cases hresult
  | ok r =>
    obtain ⟨ds, finish⟩ := r
    rw [hrun] at hresult
    obtain ⟨rfl, rfl⟩ := Prod.mk.inj (Except.ok.inj hresult)
    refine ⟨finish, rfl, ?_⟩
    have hahead := (Parse.declsWithin_reaches_end hdecls).1
    have hindex := hfollows.index _ _ hrun
    have hleft : finish.left = 0 := by simp [left, hahead]
    have hstart : (start tokens).index = 0 := rfl
    rw [left_start] at hindex
    omega

end Tape

/-- What a cursor can reach from the start has the line of one of the tokens. -/
theorem Cursor.line_mem_start {tokens : List Token} (hne : tokens ≠ []) {t : Token}
    (ht : t ∈ (start tokens).tokens) : ∃ u ∈ tokens, t.line = u.line := by
  rcases List.mem_append.1 ht with ht | ht
  · exact ⟨t, (List.takeWhile_sublist _).subset ht, rfl⟩
  · obtain rfl := List.mem_singleton.1 ht
    rw [start]
    cases hfind : tokens.find? (·.kind = .eof) with
    | some stop => exact ⟨stop, List.mem_of_find?_eq_some hfind, rfl⟩
    | none =>
      refine ⟨tokens.getLast hne, List.getLast_mem hne, ?_⟩
      rw [List.getLast?_eq_some_getLast hne]
      rfl

namespace Program

variable {tokens : List Token}

theorem error_of_ofTokens {e : Error} (h : ofTokens tokens = .error e) :
    e.cause.kind = .reading ∧ ∃ t ∈ tokens, e.line = t.line := by
  have hblames := blames_of_ofTokens h
  have hne : tokens ≠ [] := by
    rintro rfl
    cases h
  obtain ⟨t, ht, hline⟩ := hblames.line
  obtain ⟨u, hu, huline⟩ := Cursor.line_mem_start hne ht
  exact ⟨hblames.kind, u, hu, hline.trans huline⟩

/-- Reading ends for any tokens, as the readers of a tape need no depth beyond one in proportion to the tokens. It
ends with an error on the line of one of the tokens, or with a program and the index behind all that stands before
the first end of file. What stands behind that is never read. -/
theorem ofTokens_total (bottom : Tape.Readers) {depth : Nat} (hdepth : 8 * tokens.length + 5 ≤ depth) :
    (Tape.Readers.unrolled bottom depth).program tokens = ofTokens tokens ∧
      (∀ e, ofTokens tokens = .error e → e.cause.kind = .reading ∧ ∃ t ∈ tokens, e.line = t.line) ∧
      (∀ program, ofTokens tokens = .ok program →
        ∃ finish, (Tape.Readers.unrolled bottom depth).decls (.start tokens) = .ok (program.declarations, finish) ∧
          finish.index = (tokens.takeWhile (·.kind ≠ .eof)).length) ∧
      ∀ stop rest, stop.kind = .eof → ofTokens (tokens ++ stop :: rest) = ofTokens (tokens ++ [stop]) := by
  refine ⟨Tape.program_eq_ofTokens hdepth, fun e => error_of_ofTokens,
    fun program => Tape.decls_reaches_end hdepth, ?_⟩
  intro stop rest hstop
  simp [ofTokens, Cursor.start_append hstop]

end Program

def Token.unendedSample : List Token :=
  [⟨.printWord, "print", 4⟩, ⟨.openParen, "(", 4⟩, ⟨.string, "x", 5⟩, ⟨.closeParen, ")", 5⟩]

def Token.endedSample : List Token :=
  unendedSample ++ [⟨.semicolon, ";", 6⟩, ⟨.eof, "", 7⟩, ⟨.closeCurly, "\x7d", 8⟩]

/-- The sample lacks its end on the line of its last token, and an end behind the end of file is no help. With its
end, five tokens are read, and the brace is not. -/
theorem Program.ofTokens_total_unendedSample :
    (8 * Token.unendedSample.length + 5 ≤ 37 ∧
      ofTokens Token.unendedSample = .error ⟨.unexpectedTokenBecause "EOF" "expected `;` after print", 5⟩) ∧
      (8 * Token.endedSample.length + 5 ≤ 61 ∧
        ofTokens Token.endedSample = .ok ⟨[.statement (.print 4 (.literal (.string "x")))], 0⟩) ∧
      (Tape.Readers.unrolled .refusing 37).program Token.unendedSample = ofTokens Token.unendedSample ∧
      (∃ t ∈ Token.unendedSample, 5 = t.line) ∧
      ofTokens (Token.unendedSample ++ .endOfFile 6 :: [⟨.semicolon, ";", 6⟩]) =
        ofTokens (Token.unendedSample ++ [.endOfFile 6]) ∧
      ∃ finish, (Tape.Readers.unrolled .refusing 61).decls (.start Token.endedSample) =
          .ok ([.statement (.print 4 (.literal (.string "x")))], finish) ∧ finish.index = 5 := by
  have hshort : 8 * Token.unendedSample.length + 5 ≤ 37 := by decide
  have hlong : 8 * Token.endedSample.length + 5 ≤ 61 := by decide
  have herror : ofTokens Token.unendedSample =
      .error ⟨.unexpectedTokenBecause "EOF" "expected `;` after print", 5⟩ := rfl
  have hread : ofTokens Token.endedSample = .ok ⟨[.statement (.print 4 (.literal (.string "x")))], 0⟩ := rfl
  obtain ⟨hprogram, hblames, -, hbehind⟩ := ofTokens_total .refusing hshort
  obtain ⟨-, -, hends, -⟩ := ofTokens_total .refusing hlong
  exact ⟨⟨hshort, herror⟩, ⟨hlong, hread⟩, hprogram, (hblames _ herror).2, hbehind _ _ rfl, hends _ hread⟩

end LexScript
