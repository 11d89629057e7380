import LexScript.Proofs.Parse.Phrases

/-!
# Phrases are read

A phrase of the grammar as it is read is accepted to its end, from any number for the next identifier, where
the token behind it can not belong to it: `Spells.accepts`. The trees of the grammar leave identities open, so
only that something is read is said here.
-/

namespace LexScript

/-- The identities of the identifiers count up from here. -/
def NumberedFrom (first : Nat) (identifiers : List Identifier) : Prop :=
  identifiers.map Identifier.id = List.range' first identifiers.length

theorem Target.renumber {tokens : List Token} {i : Identifier} (h : Target tokens i) (id : Nat) :
    Target tokens ⟨i.name, id⟩ := by
  induction h with
  | name kind => exact .name kind id
  | group opens inner closes ih => exact .group opens ih closes

/-- Parts that can each be numbered from anywhere can be numbered one after the other. -/
theorem exists_numberedFrom_parts {parts : List (List Token × Expr)}
    (hparts : ∀ part ∈ parts, ∀ first, ∃ e, Derives .assignment part.1 e ∧ NumberedFrom first e.identifiers)
    (first : Nat) : ∃ parts' : List (List Token × Expr), parts'.map Prod.fst = parts.map Prod.fst ∧
      (∀ part ∈ parts', Derives .assignment part.1 part.2) ∧
      NumberedFrom first (Expr.identifiersOf (parts'.map Prod.snd)) := by
  induction parts generalizing first with
  | nil => exact ⟨[], rfl, List.forall_mem_nil _, rfl⟩
  | cons part parts ih =>
    obtain ⟨hpart, hparts⟩ := List.forall_mem_cons.1 hparts
    obtain ⟨e, hderives, hnumbered⟩ := hpart first
    obtain ⟨parts', hfst, hall, hrest⟩ := ih hparts (first + e.identifiers.length)
    refine ⟨(part.1, e) :: parts', congrArg (part.1 :: ·) hfst, List.forall_mem_cons.2 ⟨hderives, hall⟩, ?_⟩
    exact Cursor.Takes.ids_append.2 ⟨hnumbered, hrest⟩

/-- The grammar leaves the identities open. -/
theorem Derives.renumber {level : Level} {tokens : List Token} {e : Expr} (h : Derives level tokens e) :
    ∀ first, ∃ e', Derives level tokens e' ∧ NumberedFrom first e'.identifiers := by
  induction h with
  | @assign target value sign i e left assigns right ih =>
    intro first
    obtain ⟨e', hright, hnumbered⟩ := ih (first + 1)
    exact ⟨_, .assign (left.renumber first) assigns hright, congrArg (first :: ·) hnumbered⟩
  | operation next first operates second ihFirst ihSecond =>
    intro n
    obtain ⟨l, hl, hleft⟩ := ihFirst n
    obtain ⟨r, hr, hright⟩ := ihSecond (n + l.identifiers.length)
    exact ⟨_, .operation next hl operates hr, Cursor.Takes.ids_append.2 ⟨hleft, hright⟩⟩
  | inner next derives ih =>
    intro first
    obtain ⟨e, he, hnumbered⟩ := ih first
    exact ⟨e, .inner next he, hnumbered⟩
  | unary operates operand ih =>
    intro first
    obtain ⟨e, he, hnumbered⟩ := ih first
    exact ⟨_, .unary operates he, hnumbered⟩
  | call called opens separated passed closes ihCalled ihPassed =>
    intro first
    obtain ⟨e, he, hcallee⟩ := ihCalled first
    obtain ⟨parts, hfst, hall, hparts⟩ :=
      exists_numberedFrom_parts ihPassed (first + e.identifiers.length)
    rw [← hfst] at separated
    exact ⟨_, .call he opens separated hall closes, Cursor.Takes.ids_append.2 ⟨hcallee, hparts⟩⟩
  | number kind value => exact fun _ => ⟨_, .number kind value, rfl⟩
  | string kind => exact fun _ => ⟨_, .string kind, rfl⟩
  | isTrue kind => exact fun _ => ⟨_, .isTrue kind, rfl⟩
  | isFalse kind => exact fun _ => ⟨_, .isFalse kind, rfl⟩
  | name kind id => exact fun first => ⟨_, .name kind first, rfl⟩
  | group opens derives closes ih =>
    intro first
    obtain ⟨e, he, hnumbered⟩ := ih first
    exact ⟨e, .group opens he closes, hnumbered⟩

/-- The first token of a type does not end a list. -/
theorem SpellsType.begins {d : Dialect} {t : Ty} {tokens : List Token} (h : SpellsType d (.type t) tokens) :
    ∃ first after, tokens = first :: after ∧ first.kind ≠ .closeParen := by
  cases h with
  | number kind | boolean kind | string kind => exact ⟨_, [], rfl, by simp [kind]⟩
  | function begins => exact ⟨_, _, rfl, by simp [begins]⟩

/-- The first token of a parameter does not end a list. -/
theorem SpellsParameter.begins {d : Dialect} {p : Parameter} {tokens : List Token}
    (h : SpellsParameter d p tokens) : ∃ first after, tokens = first :: after ∧ first.kind ≠ .closeParen := by
  cases h with
  | named kind => exact ⟨_, _, rfl, by simp [kind]⟩

namespace Parse

variable {α β : Type} {tokens us rest : List Token} {stop : Token}

/-- The reader reads the tokens and stops before the others, whatever number the next identifier has. -/
def Accepts (reader : Parse α) (tokens rest : List Token) (stop : Token) : Prop :=
  ∀ n, ∃ a n', reader ⟨tokens ++ rest, stop, n⟩ = .ok (a, ⟨rest, stop, n'⟩)

def AcceptsFrom (bound : Nat) (reader : Nat → Parse α) (tokens rest : List Token) (stop : Token) : Prop :=
  ∀ fuel, bound ≤ fuel → Accepts (reader fuel) tokens rest stop

namespace AcceptsFrom

variable {bound : Nat} {reader : Nat → Parse α}

/-- A reader that takes a step of its own needs one more than those that it calls. -/
theorem succ (h : ∀ fuel, bound ≤ fuel → Accepts (reader (fuel + 1)) tokens rest stop) :
    AcceptsFrom (bound + 1) reader tokens rest stop := by
  intro fuel hfuel
  obtain ⟨fuel, rfl⟩ := Nat.exists_eq_add_of_le' (Nat.le_trans (Nat.le_add_left 1 bound) hfuel)
  exact h fuel (Nat.le_of_succ_le_succ hfuel)

theorem mono {bound' : Nat} (h : AcceptsFrom bound reader tokens rest stop) (hbound : bound ≤ bound') :
    AcceptsFrom bound' reader tokens rest stop :=
  fun fuel hfuel => h fuel (Nat.le_trans hbound hfuel)

end AcceptsFrom

namespace Accepts

variable {reader : Parse α} {f : α → Parse β} {t : Token}

theorem bind (h : Accepts reader tokens (us ++ rest) stop) (hf : ∀ a, Accepts (f a) us rest stop) :
    Accepts (reader >>= f) (tokens ++ us) rest stop := by
  intro n
  obtain ⟨a, n', hreader⟩ := h n
  obtain ⟨b, n'', hrest⟩ := hf a n'
  rw [← List.append_assoc] at hreader
  exact ⟨b, n'', bind_eq_ok.2 ⟨a, _, hreader, hrest⟩⟩

theorem pure {a : α} : Accepts (pure a) [] rest stop := fun n => ⟨a, n, rfl⟩

/-- Only a value is computed behind the reader. -/
theorem bind_pure {f : α → β} (h : Accepts reader tokens rest stop) :
    Accepts (reader >>= fun a => Pure.pure (f a)) tokens rest stop := by
  intro n
  obtain ⟨a, n', hreader⟩ := h n
  exact ⟨f a, n', bind_eq_ok.2 ⟨a, _, hreader, rfl⟩⟩

theorem peek_bind {f : TokenKind → Parse β} (h : Accepts (f ((tokens ++ rest).headD stop).kind) tokens rest stop) :
    Accepts (peek >>= f) tokens rest stop := h

/-- What is read depends on the kind of the first token. -/
theorem peek_kind {kind : TokenKind} {f : TokenKind → Parse β} (ht : t.kind = kind)
    (h : Accepts (f kind) (t :: tokens) rest stop) : Accepts (peek >>= f) (t :: tokens) rest stop := by
  subst ht
  exact h

theorem peek_pos {p : TokenKind → Prop} [DecidablePred p] {yes no : Parse β}
    (hp : p ((tokens ++ rest).headD stop).kind) (h : Accepts yes tokens rest stop) :
    Accepts (peek >>= fun kind => if p kind then yes else no) tokens rest stop := by
  apply peek_bind
  rw [if_pos hp]
  exact h

theorem peek_neg {p : TokenKind → Prop} [DecidablePred p] {yes no : Parse β}
    (hp : ¬ p ((tokens ++ rest).headD stop).kind) (h : Accepts no tokens rest stop) :
    Accepts (peek >>= fun kind => if p kind then yes else no) tokens rest stop := by
  apply peek_bind
  rw [if_neg hp]
  exact h

theorem line_bind {f : Nat → Parse β} (h : ∀ line, Accepts (f line) tokens rest stop) :
    Accepts (line >>= f) tokens rest stop :=
  fun n => h (Cursor.token ⟨tokens ++ rest, stop, n⟩).line n

theorem advance_bind {f : Token → Parse β} (h : Accepts (f t) tokens rest stop) :
    Accepts (advance >>= f) (t :: tokens) rest stop := h

theorem skip_bind {f : Unit → Parse β} (h : Accepts (f ()) tokens rest stop) :
    Accepts (skip >>= f) (t :: tokens) rest stop := h

theorem expectOr_bind {kind : TokenKind} {message : String} {f : Unit → Parse β} (ht : t.kind = kind)
    (h : Accepts (f ()) tokens rest stop) : Accepts (expectOr kind message >>= f) (t :: tokens) rest stop := by
  intro n
  obtain ⟨b, n', hrest⟩ := h n
  exact ⟨b, n', bind_eq_ok.2 ⟨(), _, expectOr_eq_ok.2 ⟨ht, rfl⟩, hrest⟩⟩

theorem expect_bind {kind : TokenKind} {f : Unit → Parse β} (ht : t.kind = kind)
    (h : Accepts (f ()) tokens rest stop) : Accepts (expect kind >>= f) (t :: tokens) rest stop := by
  intro n
  obtain ⟨b, n', hrest⟩ := h n
  refine ⟨b, n', bind_eq_ok.2 ⟨(), _, ?_, hrest⟩⟩
  rw [expect, Parse.peek_bind]
  exact congrFun (if_pos ht) _

theorem identifier_bind {message : String} {f : Identifier → Parse β} (ht : t.kind = .identifier)
    (h : ∀ i, Accepts (f i) tokens rest stop) :
    Accepts (identifier message >>= f) (t :: tokens) rest stop := by
  intro n
  obtain ⟨b, n', hrest⟩ := h ⟨t.value, n⟩ (n + 1)
  refine ⟨b, n', bind_eq_ok.2 ⟨⟨t.value, n⟩, ⟨tokens ++ rest, stop, n + 1⟩, ?_, hrest⟩⟩
  rw [identifier, Parse.peek_bind]
  exact congrFun (if_pos ht) _

theorem withFuel {reader : Nat → Parse α}
    (h : AcceptsFrom (8 * tokens.length + 8) reader tokens rest stop) :
    Accepts (withFuel reader) tokens rest stop := by
  intro n
  refine h (8 * (tokens ++ rest).length + 8) ?_ n
  rw [List.length_append]
  omega

end Accepts

/-- An expression is accepted where it ends. -/
theorem expr_accepts (hstop : stop.kind = .eof) {e : Expr} (h : Derives .assignment tokens e)
    (hends : (rest.headD stop).kind.EndsExpression) : Accepts expr tokens rest stop := by
  intro n
  obtain ⟨e', hderives, hids⟩ := h.renumber n
  exact ⟨e', _, (expr_eq_ok hstop).2 ⟨⟨tokens, hderives, rfl, rfl, hids, rfl⟩, hends⟩⟩

theorem Accepts.expr_bind (hstop : stop.kind = .eof) {e : Expr} {f : Expr → Parse β}
    (h : Derives .assignment tokens e) (hends : ((us ++ rest).headD stop).kind.EndsExpression)
    (hf : ∀ e, Accepts (f e) us rest stop) : Accepts (expr >>= f) (tokens ++ us) rest stop :=
  (expr_accepts hstop h hends).bind hf

variable {parts : List (List Token)}

/-- A part of a list is accepted before a comma and before the end of the list, given fuel for its tokens. -/
structure AcceptsPart (item : Nat → Parse α) (stop : Token) (part : List Token) : Prop where
  begins : ∃ t after, part = t :: after ∧ t.kind ≠ .closeParen
  accepts : ∀ rest, (rest.headD stop).kind = .comma ∨ (rest.headD stop).kind = .closeParen →
    AcceptsFrom (2 * part.length + 1) item part rest stop

section

variable {item : Nat → Parse α} {others : Nat → Parse (List α)}

/-- A part and a comma are read before the rest of a list. -/
theorem listOf_accepts_comma (hothers : ∀ fuel, others (fuel + 1) = listOf (item fuel) (others fuel))
    {part after : List Token} {comma : Token} (hpart : AcceptsPart item stop part) (hcomma : comma.kind = .comma)
    (hafter : AcceptsFrom (2 * after.length + 2) others after rest stop) :
    AcceptsFrom (2 * (part ++ comma :: after).length + 2) others (part ++ comma :: after) rest stop := by
  obtain ⟨⟨t, ts, rfl, ht⟩, haccepts⟩ := hpart
  refine .succ fun fuel hfuel => ?_
  simp only [List.length_append, List.length_cons] at hfuel haccepts
  have hpart := haccepts (comma :: after ++ rest) (.inl hcomma) fuel (by omega)
  have hothers' := hafter fuel (by omega)
  rw [hothers]
  refine .peek_neg ht (hpart.bind fun _ => ?_)
  exact .peek_neg (not_not_intro hcomma) (.skip_bind hothers'.bind_pure)

/-- A list is read to its end, if each part of it is. -/
theorem listOf_accepts (hothers : ∀ fuel, others (fuel + 1) = listOf (item fuel) (others fuel))
    (hlisted : Listed .effective parts tokens) (hparts : ∀ part ∈ parts, AcceptsPart item stop part)
    (hend : (rest.headD stop).kind = .closeParen) :
    AcceptsFrom (2 * tokens.length + 2) others tokens rest stop := by
  have hnone : AcceptsFrom 2 others [] rest stop := by
    refine .succ fun fuel _ => ?_
    rw [hothers]
    exact .peek_pos hend .pure
  induction hlisted with
  | none => exact hnone
  | last part =>
    obtain ⟨⟨t, ts, rfl, ht⟩, haccepts⟩ := hparts part (List.mem_singleton_self _)
    refine .succ fun fuel hfuel => ?_
    have hpart := haccepts rest (.inr hend) fuel (by omega)
    rw [hothers]
    refine .peek_neg ht ?_
    rw [← List.append_nil (t :: ts)]
    refine hpart.bind fun first => .peek_pos ?_ .pure
    rw [List.nil_append, hend]
    decide
  | final part allowed ends =>
    exact listOf_accepts_comma hothers (hparts part (List.mem_singleton_self _)) ends hnone
  | more part separates after ih =>
    obtain ⟨hpart, hparts⟩ := List.forall_mem_cons.1 hparts
    exact listOf_accepts_comma hothers hpart separates (ih hparts)

end

/-- What reads a type, or an optional return type. -/
def typePhraseWithin (fuel : Nat) : TypePhrase → Parse Ty
  | .type _ => typeWithin fuel
  | .returns _ => returnTypeWithin fuel

theorem typePhraseWithin_accepts {phrase : TypePhrase} (h : SpellsType .effective phrase tokens)
    (hnext : (rest.headD stop).kind ≠ .arrow) :
    AcceptsFrom (2 * tokens.length + 1) (typePhraseWithin · phrase) tokens rest stop := by
  induction h generalizing rest with
  | number kind value | boolean kind value | string kind value =>
    refine .succ fun fuel _ => ?_
    rw [typePhraseWithin, typeWithin]
    refine .peek_kind kind (.advance_bind ?_)
    simp only [value]
    exact .pure
  | @function word opening closing parameters tokens result r begins opens listed each closes returned ihEach
      ihReturned =>
    refine .succ fun fuel hfuel => ?_
    simp only [List.length_cons, List.length_append] at hfuel
    have hparts : ∀ part ∈ parameters.map Prod.fst, AcceptsPart typeWithin stop part := by
      intro part hpart
      obtain ⟨p, hp, rfl⟩ := List.mem_map.1 hpart
      refine ⟨(each p hp).begins, fun rest hrest => ihEach p hp ?_⟩
      rcases hrest with hrest | hrest <;> rw [hrest] <;> decide
    have hlist : AcceptsFrom _ typesWithin tokens (closing :: result ++ rest) stop :=
      listOf_accepts typesWithin_succ listed hparts closes
    have hreturned : Accepts (returnTypeWithin fuel) result rest stop := ihReturned hnext fuel (by omega)
    rw [typePhraseWithin, typeWithin]
    refine .peek_kind begins (.skip_bind (.expectOr_bind opens ?_))
    exact (hlist fuel (by omega)).bind fun ts => .expectOr_bind closes hreturned.bind_pure
  | nothing =>
    refine .succ fun fuel _ => ?_
    rw [typePhraseWithin, returnTypeWithin]
    exact .peek_pos hnext .pure
  | arrow points spells ih =>
    refine .succ fun fuel hfuel => ?_
    rw [List.length_cons] at hfuel
    rw [typePhraseWithin, returnTypeWithin]
    exact .peek_neg (not_not_intro points) (.skip_bind (ih hnext fuel (by omega)))

theorem type_accepts {t : Ty} (h : SpellsType .effective (.type t) tokens)
    (hnext : (rest.headD stop).kind ≠ .arrow) : Accepts type tokens rest stop :=
  .withFuel ((typePhraseWithin_accepts h hnext).mono (by omega))

theorem returnType_accepts {t : Ty} (h : SpellsType .effective (.returns t) tokens)
    (hnext : (rest.headD stop).kind ≠ .arrow) : Accepts returnType tokens rest stop :=
  .withFuel ((typePhraseWithin_accepts h hnext).mono (by omega))

theorem parameter_accepts {p : Parameter} (h : SpellsParameter .effective p tokens)
    (hnext : (rest.headD stop).kind ≠ .arrow) : Accepts parameter tokens rest stop := by
  obtain ⟨kind, id, separates, spells⟩ := h
  exact .identifier_bind kind fun i => .expectOr_bind separates (type_accepts spells hnext).bind_pure

theorem functionHeader_accepts {header : FunctionHeader} (h : SpellsHeader .effective header tokens)
    (hnext : (rest.headD stop).kind ≠ .arrow) : Accepts functionHeader tokens rest stop := by
  obtain @⟨name, opening, closing, parameters, tokens, result, r, kind, id, opens, listed, each, closes,
    returned⟩ := h
  have hparts : ∀ part ∈ parameters.map Prod.fst, AcceptsPart (fun _ => parameter) stop part := by
    intro part hpart
    obtain ⟨p, hp, rfl⟩ := List.mem_map.1 hpart
    refine ⟨(each p hp).begins, fun rest hrest fuel _ => parameter_accepts (each p hp) ?_⟩
    rcases hrest with hrest | hrest <;> rw [hrest] <;> decide
  have hlist : AcceptsFrom _ parametersWithin tokens (closing :: result ++ rest) stop :=
    listOf_accepts parametersWithin_succ listed hparts closes
  refine .identifier_bind kind fun i => .expect_bind opens (.bind (.withFuel (hlist.mono ?_)) fun ps => ?_)
  · omega
  · exact .expectOr_bind closes (returnType_accepts returned hnext).bind_pure

end Parse
end LexScript
