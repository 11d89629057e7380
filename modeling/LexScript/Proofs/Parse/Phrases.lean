import LexScript.Parse.Program
import LexScript.Proofs.Parse.Precedence
import LexScript.Proofs.Parse.ProgramGrammar

/-!
# What has been read is a phrase

The tokens between the places where a reader begins and ends are a phrase of the grammar as it is read, and
the reader's result is its tree: `Parse.stmtWithin_meets`, `Parse.declWithin_meets` and the lemmas beside them.
-/

namespace LexScript

/-- These tokens stand between the cursors. -/
structure Cursor.Passes (c : Cursor) (tokens : List Token) (c' : Cursor) : Prop where
  ahead : c.ahead = tokens ++ c'.ahead
  stop : c'.stop = c.stop

namespace Cursor.Passes

variable {c c' c'' : Cursor} {ts us : List Token}

theorem refl (c : Cursor) : c.Passes [] c := ⟨rfl, rfl⟩

theorem trans (h : c.Passes ts c') (h' : c'.Passes us c'') : c.Passes (ts ++ us) c'' :=
  ⟨by simp [h.ahead, h'.ahead], h'.stop.trans h.stop⟩

theorem of_takes {ids : List Identifier} (h : c.Takes ts ids c') : c.Passes ts c' := ⟨h.ahead, h.stop⟩

theorem token (hstop : c.stop.kind = .eof) (hne : c.token.kind ≠ .eof) : c.Passes [c.token] c.next :=
  of_takes (c.takes_token hstop rfl hne)

/-- The token at the first cursor is the first of those between. -/
theorem head? (h : c.Passes ts c') (hne : ts ≠ []) : ts.head? = some c.token := by
  obtain ⟨t, rest, rfl⟩ := List.exists_cons_of_ne_nil hne
  simp [Cursor.token, h.ahead]

end Cursor.Passes

namespace Parse

variable {α β : Type} {c : Cursor}

/-- What the reader reads from the cursor, if it succeeds, meets a condition together with the tokens that it
takes. -/
def Meets (reader : Parse α) (c : Cursor) (post : α → List Token → Prop) : Prop :=
  c.stop.kind = .eof → ∀ a c', reader c = .ok (a, c') → ∃ tokens, c.Passes tokens c' ∧ post a tokens

namespace Meets

variable {reader : Parse α} {f : α → Parse β} {P : α → List Token → Prop} {Q : β → List Token → Prop}

theorem bind (h : Meets reader c P)
    (hf : ∀ a ts c', c.Passes ts c' → P a ts → Meets (f a) c' fun b us => Q b (ts ++ us)) :
    Meets (reader >>= f) c Q := by
  intro hstop b c'' hok
  obtain ⟨a, c', hreader, hrest⟩ := bind_eq_ok.1 hok
  obtain ⟨ts, hpasses, hP⟩ := h hstop a c' hreader
  obtain ⟨us, hpasses', hQ⟩ := hf a ts c' hpasses hP (by simpa [hpasses.stop] using hstop) b c'' hrest
  exact ⟨ts ++ us, hpasses.trans hpasses', hQ⟩

theorem imp {P' : α → List Token → Prop} (h : Meets reader c P) (himp : ∀ a ts, P a ts → P' a ts) :
    Meets reader c P' := by
  intro hstop a c' hok
  obtain ⟨ts, hpasses, hP⟩ := h hstop a c' hok
  exact ⟨ts, hpasses, himp a ts hP⟩

theorem pure {a : α} (h : P a []) : Meets (pure a) c P := by
  intro _ a' c' hok
  cases hok
  exact ⟨[], .refl c, h⟩

theorem unexpected : Meets unexpected c P := nofun

theorem refuse {message : String} : Meets (refuse message) c P := nofun

theorem throw {e : Error} : Meets (throw e) c P := nofun

theorem peek_bind {f : TokenKind → Parse β} (h : Meets (f c.token.kind) c Q) : Meets (peek >>= f) c Q := h

theorem line_bind {f : Nat → Parse β} (h : Meets (f c.token.line) c Q) : Meets (line >>= f) c Q := h

theorem advance_bind {f : Token → Parse β} (hne : c.token.kind ≠ .eof)
    (h : Meets (f c.token) c.next fun b us => Q b (c.token :: us)) : Meets (advance >>= f) c Q := by
  intro hstop b c' hok
  obtain ⟨us, hpasses, hQ⟩ := h hstop b c' hok
  exact ⟨c.token :: us, (Cursor.Passes.token hstop hne).trans hpasses, hQ⟩

theorem skip_bind {f : Unit → Parse β} (hne : c.token.kind ≠ .eof)
    (h : Meets (f ()) c.next fun b us => Q b (c.token :: us)) : Meets (skip >>= f) c Q :=
  advance_bind (f := fun _ => f ()) hne h

theorem expectOr_bind {kind : TokenKind} {message : String} {f : Unit → Parse β} (hne : kind ≠ .eof)
    (h : ∀ t c', t.kind = kind → Meets (f ()) c' fun b us => Q b (t :: us)) :
    Meets (expectOr kind message >>= f) c Q := by
  intro hstop b c' hok
  obtain ⟨_, c₁, hexpect, hrest⟩ := bind_eq_ok.1 hok
  obtain ⟨hkind, rfl⟩ := expectOr_eq_ok.1 hexpect
  exact skip_bind (by simpa [hkind] using hne) (h c.token c.next hkind) hstop b c' hrest

theorem expect_bind {kind : TokenKind} {f : Unit → Parse β} (hne : kind ≠ .eof)
    (h : ∀ t c', t.kind = kind → Meets (f ()) c' fun b us => Q b (t :: us)) :
    Meets (expect kind >>= f) c Q := by
  intro hstop b c' hok
  obtain ⟨_, c₁, hexpect, hrest⟩ := bind_eq_ok.1 hok
  rw [expect, Parse.peek_bind] at hexpect
  split at hexpect
  · rename_i hkind
    cases hexpect
    exact skip_bind (by simpa [hkind] using hne) (h c.token c.next hkind) hstop b c' hrest
  · cases hexpect

theorem identifier_bind {message : String} {f : Identifier → Parse β}
    (h : ∀ t id c', t.kind = .identifier → Meets (f ⟨t.value, id⟩) c' fun b us => Q b (t :: us)) :
    Meets (identifier message >>= f) c Q := by
  intro hstop b c' hok
  obtain ⟨i, c₁, hname, hrest⟩ := bind_eq_ok.1 hok
  rw [identifier, Parse.peek_bind] at hname
  split at hname
  · rename_i hkind
    cases hname
    have hf := h c.token c.nextId { c.next with nextId := c.nextId + 1 } hkind
    obtain ⟨us, hpasses, hQ⟩ := hf hstop b c' hrest
    have htoken := Cursor.Passes.token hstop (by simp [hkind])
    exact ⟨c.token :: us, ⟨by rw [htoken.ahead]; exact congrArg _ hpasses.ahead, hpasses.stop⟩, hQ⟩
  · cases hname

/-- An expression is read up to a token that can not go on with it. -/
theorem expr_bind {f : Expr → Parse β} (h : ∀ e ts c', c.Passes ts c' → Derives .assignment ts e →
    c'.token.kind.EndsExpression → Meets (f e) c' fun b us => Q b (ts ++ us)) :
    Meets (expr >>= f) c Q := by
  intro hstop b c'' hok
  obtain ⟨e, c', hexpr, hrest⟩ := bind_eq_ok.1 hok
  obtain ⟨⟨ts, hderives, htakes⟩, hends⟩ := (expr_eq_ok hstop).1 hexpr
  have hpasses := Cursor.Passes.of_takes htakes
  obtain ⟨us, hpasses', hQ⟩ :=
    h e ts c' hpasses hderives hends (by simpa [htakes.stop] using hstop) b c'' hrest
  exact ⟨ts ++ us, hpasses.trans hpasses', hQ⟩

theorem withFuel {reader : Nat → Parse α} (h : ∀ fuel, Meets (reader fuel) c P) :
    Meets (withFuel reader) c P :=
  h (8 * c.ahead.length + 8)

end Meets

def ListMeets (P : α → List Token → Prop) (items : List α) (tokens : List Token) : Prop :=
  ∃ parts : List (List Token × α), items = parts.map Prod.snd ∧
    Listed .effective (parts.map Prod.fst) tokens ∧ ∀ part ∈ parts, P part.2 part.1

def listOf (item : Parse α) (others : Parse (List α)) : Parse (List α) := do
  if (← peek) = .closeParen then return []
  let first ← item
  if (← peek) ≠ .comma then return [first]
  skip
  return first :: (← others)

theorem listOf_meets {item : Parse α} {others : Parse (List α)} {P : α → List Token → Prop}
    (hitem : ∀ c, Meets item c P) (hothers : ∀ c, Meets others c (ListMeets P)) :
    Meets (listOf item others) c (ListMeets P) := by
  apply Meets.peek_bind
  split
  · exact .pure ⟨[], rfl, .none, nofun⟩
  apply (hitem c).bind
  intro first ts c' hpasses hfirst
  apply Meets.peek_bind
  split
  · refine .pure ⟨[(ts, first)], rfl, ?_, List.forall_mem_singleton.2 hfirst⟩
    rw [List.append_nil]
    exact .last ts
  · rename_i hcomma
    have hcomma := Decidable.not_not.1 hcomma
    apply Meets.skip_bind (by simp [hcomma])
    apply (hothers c'.next).bind
    rintro rest us c'' - ⟨parts, rfl, hlisted, hparts⟩
    refine .pure ⟨(ts, first) :: parts, rfl, ?_, List.forall_mem_cons.2 ⟨hfirst, hparts⟩⟩
    rw [List.append_nil]
    cases parts with
    | nil =>
      cases hlisted
      exact .final ts rfl hcomma
    | cons part parts => exact .more ts hcomma hlisted

theorem typesWithin_succ (fuel : Nat) :
    typesWithin (fuel + 1) = listOf (typeWithin fuel) (typesWithin fuel) := rfl

mutual

theorem typeWithin_meets : ∀ fuel c, Meets (typeWithin fuel) c fun t ts => SpellsType .effective (.type t) ts
  | 0, _ => .unexpected
  | fuel + 1, c => by
    apply Meets.peek_bind
    split
    · rename_i hkind
      apply Meets.advance_bind (by simp [hkind])
      split
      · rename_i hvalue
        exact .pure (.number hkind hvalue)
      · rename_i hvalue
        exact .pure (.boolean hkind hvalue)
      · rename_i hvalue
        exact .pure (.string hkind hvalue)
      · exact .throw
    · rename_i hkind
      apply Meets.skip_bind (by simp [hkind])
      apply Meets.expectOr_bind (by decide)
      intro opening c₁ hopens
      apply (typesWithin_meets fuel c₁).bind
      rintro _ tokens c₂ - ⟨parts, rfl, hlisted, hparts⟩
      apply Meets.expectOr_bind (by decide)
      intro closing c₃ hcloses
      apply (returnTypeWithin_meets fuel c₃).bind
      intro r result c₄ _ hresult
      refine .pure ?_
      rw [List.append_nil]
      exact .function hkind hopens hlisted hparts hcloses hresult
    · exact .refuse

theorem typesWithin_meets : ∀ fuel c,
    Meets (typesWithin fuel) c (ListMeets fun t ts => SpellsType .effective (.type t) ts)
  | 0, _ => .unexpected
  | fuel + 1, _ => listOf_meets (typeWithin_meets fuel) (typesWithin_meets fuel)

theorem returnTypeWithin_meets : ∀ fuel c,
    Meets (returnTypeWithin fuel) c fun t ts => SpellsType .effective (.returns t) ts
  | 0, _ => .unexpected
  | fuel + 1, c => by
    apply Meets.peek_bind
    split
    · exact .pure .nothing
    · rename_i hkind
      have hkind := Decidable.not_not.1 hkind
      apply Meets.skip_bind (by simp [hkind])
      exact (typeWithin_meets fuel c.next).imp fun t ts h => .arrow hkind h

end

theorem type_meets : Meets type c fun t ts => SpellsType .effective (.type t) ts :=
  .withFuel fun fuel => typeWithin_meets fuel c

theorem returnType_meets : Meets returnType c fun t ts => SpellsType .effective (.returns t) ts :=
  .withFuel fun fuel => returnTypeWithin_meets fuel c

def parameter : Parse Parameter := do
  let name ← identifier "expected parameter name"
  expectOr .colon "expected `:` and a parameter type"
  return ⟨name, ← type⟩

theorem parametersWithin_succ (fuel : Nat) :
    parametersWithin (fuel + 1) = listOf parameter (parametersWithin fuel) := by
  simp only [parametersWithin, listOf, parameter, bind_assoc, pure_bind]

theorem parameter_meets : Meets parameter c fun p ts => SpellsParameter .effective p ts := by
  apply Meets.identifier_bind
  intro name id c₁ hkind
  apply Meets.expectOr_bind (by decide)
  intro colon c₂ hcolon
  apply type_meets.bind
  intro t ts c₃ _ ht
  refine .pure ?_
  rw [List.append_nil]
  exact .named hkind id hcolon ht

theorem parametersWithin_meets : ∀ fuel c,
    Meets (parametersWithin fuel) c (ListMeets fun p ts => SpellsParameter .effective p ts)
  | 0, _ => .unexpected
  | fuel + 1, c => by
    rw [parametersWithin_succ]
    exact listOf_meets (fun _ => parameter_meets) (parametersWithin_meets fuel)

theorem functionHeader_meets : Meets functionHeader c fun h ts => SpellsHeader .effective h ts := by
  apply Meets.identifier_bind
  intro name id c₁ hkind
  apply Meets.expect_bind (by decide)
  intro opening c₂ hopens
  apply (Meets.withFuel fun fuel => parametersWithin_meets fuel c₂).bind
  rintro _ tokens c₃ - ⟨parts, rfl, hlisted, hparts⟩
  apply Meets.expectOr_bind (by decide)
  intro closing c₄ hcloses
  apply returnType_meets.bind
  intro r result c₅ _ hresult
  refine .pure ?_
  rw [List.append_nil]
  exact .named hkind id hopens hlisted hparts hcloses hresult

theorem binding_meets {word : Token} (hword : word.kind = .letWord) : Meets (binding word.line) c
    fun x ts => Spells .effective (.declaration x) (word :: ts) := by
  apply Meets.identifier_bind
  intro name id c₁ hkind
  apply Meets.expectOr_bind (by decide)
  intro colon c₂ hcolon
  apply type_meets.bind
  intro t ts c₃ _ ht
  apply Meets.expectOr_bind (by decide)
  intro sign c₄ hsign
  apply Meets.expr_bind
  intro e us c₅ _ he _
  apply Meets.expectOr_bind (by decide)
  intro ending c₆ hending
  exact .pure (.binding hword hkind id hcolon ht hsign he hending)

theorem printStmt_meets {word : Token} (hword : word.kind = .printWord) : Meets (printStmt word.line) c
    fun s ts => Spells .effective (.statement s) (word :: ts) := by
  apply Meets.expectOr_bind (by decide)
  intro opening c₁ hopens
  apply Meets.expr_bind
  intro e ts c₂ _ he _
  apply Meets.expectOr_bind (by decide)
  intro closing c₃ hcloses
  apply Meets.expectOr_bind (by decide)
  intro ending c₄ hending
  exact .pure (.print hword hopens he hcloses hending)

theorem returnStmt_meets {word : Token} (hword : word.kind = .returnWord) : Meets (returnStmt word.line) c
    fun s ts => Spells .effective (.statement s) (word :: ts) := by
  apply Meets.peek_bind
  split
  · rw [pure_bind]
    apply Meets.expectOr_bind (by decide)
    intro ending c₁ hending
    exact .pure (.ret hword hending)
  · rw [map_eq_pure_bind, bind_assoc]
    apply Meets.expr_bind
    intro e ts c₁ _ he _
    rw [pure_bind]
    apply Meets.expectOr_bind (by decide)
    intro ending c₂ hending
    exact .pure (.retValue hword he hending)

/-- The line of an expression is that of its first token. -/
theorem begins_of_passes {ts : List Token} {e : Expr} {c' : Cursor} (he : Derives .assignment ts e)
    (h : c.Passes ts c') : ts.head?.map Token.line = some c.token.line := by
  obtain ⟨t, rest, rfl, -⟩ := he.head
  simp [h.head? (List.cons_ne_nil t rest)]

theorem exprStmt_meets : Meets exprStmt c fun s ts => Spells .effective (.statement s) ts := by
  apply Meets.line_bind
  apply Meets.expr_bind
  intro e ts c₁ hpasses he _
  apply Meets.expectOr_bind (by decide)
  intro ending c₂ hending
  exact .pure (.expression he (begins_of_passes he hpasses) hending)

/-- A statement is separated from the expression that ends before it. -/
theorem separates_of_passes {ts : List Token} {s : Stmt} {c' : Cursor}
    (hends : c.token.kind.EndsExpression) (hs : Spells .effective (.statement s) ts) (h : c.Passes ts c') :
    Dialect.effective.Separates ts := by
  intro _ t ht
  rw [h.head? hs.ne_nil] at ht
  cases ht
  exact hends

mutual

theorem declWithin_meets : ∀ fuel c,
    Meets (declWithin fuel) c fun x ts => Spells .effective (.declaration x) ts
  | 0, _ => .unexpected
  | fuel + 1, c => by
    apply Meets.peek_bind
    split
    · rename_i hkind
      apply Meets.advance_bind (by simp [hkind])
      exact binding_meets hkind
    · rename_i hkind
      apply Meets.advance_bind (by simp [hkind])
      apply functionHeader_meets.bind
      intro h header c₁ _ hheader
      apply Meets.peek_bind
      split
      · rename_i hending
        apply Meets.skip_bind (by simp [hending])
        exact .pure (.forward hkind hheader hending)
      · apply (blockWithin_meets fuel c₁).bind
        rintro body _ c₂ - ⟨opening, closing, tokens, hopens, hbody, hcloses, rfl⟩
        refine .pure ?_
        rw [List.append_nil]
        exact .function hkind hheader hopens hbody hcloses
    · apply (stmtWithin_meets fuel c).bind
      intro s ts c₁ _ hs
      refine .pure ?_
      rw [List.append_nil]
      exact .statement hs

theorem stmtWithin_meets : ∀ fuel c,
    Meets (stmtWithin fuel) c fun s ts => Spells .effective (.statement s) ts
  | 0, _ => .unexpected
  | fuel + 1, c => by
    apply Meets.peek_bind
    split
    · rename_i hkind
      apply Meets.advance_bind (by simp [hkind])
      exact printStmt_meets hkind
    · rename_i hkind
      apply Meets.advance_bind (by simp [hkind])
      exact returnStmt_meets hkind
    · rename_i hkind
      apply Meets.advance_bind (by simp [hkind])
      apply Meets.expr_bind
      intro e test c₁ _ he hends
      apply (stmtWithin_meets fuel c₁).bind
      intro s branch c₂ hpasses hs
      have hseparates := separates_of_passes hends hs hpasses
      apply Meets.peek_bind
      split
      · refine .pure ?_
        rw [List.append_nil]
        exact .ifThen hkind he hseparates hs
      · rename_i helse
        have helse := Decidable.not_not.1 helse
        apply Meets.skip_bind (by simp [helse])
        apply (stmtWithin_meets fuel c₂.next).bind
        intro u rest c₃ _ hu
        refine .pure ?_
        simp only [List.append_nil, ← List.append_assoc]
        exact .ifElse hkind he hseparates hs helse hu
    · rename_i hkind
      apply Meets.advance_bind (by simp [hkind])
      apply Meets.expr_bind
      intro e test c₁ _ he hends
      apply (stmtWithin_meets fuel c₁).bind
      intro s tokens c₂ hpasses hs
      refine .pure ?_
      rw [List.append_nil]
      exact .whileLoop hkind he (separates_of_passes hends hs hpasses) hs
    · rename_i hkind
      apply Meets.advance_bind (by simp [hkind])
      apply (declWithin_meets fuel c.next).bind
      intro first start c₁ _ hfirst
      apply Meets.expr_bind
      intro e test c₂ _ he _
      apply Meets.expectOr_bind (by decide)
      intro ending c₃ hending
      apply Meets.line_bind
      apply Meets.expr_bind
      intro step advance c₄ hadvance hstep hends
      apply (stmtWithin_meets fuel c₄).bind
      intro s tokens c₅ hpasses hs
      refine .pure ?_
      rw [List.append_nil, ← List.append_assoc]
      exact .forLoop hkind hfirst he hending hstep (begins_of_passes hstep hadvance)
        (separates_of_passes hends hs hpasses) hs
    · apply Meets.line_bind
      apply (blockWithin_meets fuel c).bind
      rintro body ts c₁ hpasses ⟨opening, closing, tokens, hopens, hbody, hcloses, rfl⟩
      cases hpasses.head? (List.cons_ne_nil _ _)
      refine .pure ?_
      rw [List.append_nil]
      exact .block hopens hbody hcloses
    · exact .refuse
    · exact .refuse
    · exact exprStmt_meets

theorem blockWithin_meets : ∀ fuel c, Meets (blockWithin fuel) c fun body ts =>
    ∃ opening closing tokens, opening.kind = .openCurly ∧ Spells .effective (.declarations body) tokens ∧
      closing.kind = .closeCurly ∧ ts = opening :: (tokens ++ [closing])
  | 0, _ => .unexpected
  | fuel + 1, c => by
    apply Meets.expectOr_bind (by decide)
    intro opening c₁ hopens
    refine (blockRestWithin_meets fuel c₁).imp ?_
    rintro body _ ⟨closing, tokens, hbody, hcloses, rfl⟩
    exact ⟨opening, closing, tokens, hopens, hbody, hcloses, rfl⟩

theorem blockRestWithin_meets : ∀ fuel c, Meets (blockRestWithin fuel) c fun body ts =>
    ∃ closing tokens, Spells .effective (.declarations body) tokens ∧ closing.kind = .closeCurly ∧
      ts = tokens ++ [closing]
  | 0, _ => .unexpected
  | fuel + 1, c => by
    apply Meets.peek_bind
    split
    · rename_i hkind
      apply Meets.skip_bind (by simp [hkind])
      exact .pure ⟨c.token, [], .nil, hkind, rfl⟩
    · exact .unexpected
    · apply (declWithin_meets fuel c).bind
      intro first ts c₁ _ hfirst
      apply (blockRestWithin_meets fuel c₁).bind
      rintro body _ c₂ - ⟨closing, tokens, hbody, hcloses, rfl⟩
      refine .pure ⟨closing, ts ++ tokens, .cons hfirst hbody, hcloses, ?_⟩
      simp

end

theorem declsWithin_meets : ∀ fuel c, Meets (declsWithin fuel) c fun ds ts =>
    Spells .effective (.declarations ds) ts
  | 0, _ => .unexpected
  | fuel + 1, c => by
    apply Meets.peek_bind
    split
    · exact .pure .nil
    · apply (Meets.withFuel fun fuel => declWithin_meets fuel c).bind
      intro first ts c₁ _ hfirst
      apply (declsWithin_meets fuel c₁).bind
      intro rest us c₂ _ hrest
      refine .pure ?_
      rw [List.append_nil]
      exact .cons hfirst hrest

end Parse
end LexScript
