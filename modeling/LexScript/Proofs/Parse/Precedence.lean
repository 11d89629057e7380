import LexScript.Proofs.Parse.Spans

/-!
# Reading by powers follows the grammar

What the grammar derives is read as far as it goes, with fuel for every token. With what is known of
expressions that have been read, an expression is read exactly where the grammar derives one that can not
go on: `Parse.expr_grammatical`.
-/

namespace LexScript
namespace Parse

/-- With enough fuel, the expression between the cursors is read, and reading goes on behind it. -/
def ReadsOn (cost floor : Nat) (c : Cursor) (e : Expr) (c' : Cursor) : Prop :=
  ∀ enough r, (∀ fuel, enough ≤ fuel → extendWithin fuel floor e c' = .ok r) →
    ∀ fuel, enough + cost ≤ fuel → exprWithin fuel floor c = .ok r

namespace ReadsOn

variable {cost floor : Nat} {c c₁ c' : Cursor} {left e : Expr}

theorem mono {more : Nat} (h : ReadsOn cost floor c e c') (hle : cost ≤ more) :
    ReadsOn more floor c e c' :=
  fun enough r hrest fuel hfuel => h enough r hrest fuel (by omega)

theorem of_operand (need : Nat)
    (h : ∀ fuel, need ≤ fuel → operandWithin (fuel + 1) c = .ok (e, c')) :
    ReadsOn (need + 2) floor c e c' := by
  intro enough r hrest fuel hfuel
  obtain ⟨fuel, rfl⟩ := Nat.exists_eq_add_of_le' (show 2 ≤ fuel by omega)
  exact exprWithin_eq_ok.2 ⟨e, c', h fuel (by omega), hrest (fuel + 1) (by omega)⟩

/-- What is read is the beginning of something longer. -/
theorem extend (h : ReadsOn cost floor c left c₁) (need : Nat)
    (hextends : ∀ fuel r, need ≤ fuel → extendWithin fuel floor e c' = .ok r →
      extendWithin (fuel + 1) floor left c₁ = .ok r) : ReadsOn (cost + need + 1) floor c e c' := by
  intro enough r hrest fuel hfuel
  refine h (max enough need + 1) r (fun fuel hfuel => ?_) fuel (by omega)
  obtain ⟨fuel, rfl⟩ := Nat.exists_eq_add_of_le' (show 1 ≤ fuel by omega)
  exact hextends fuel r (by omega) (hrest fuel (by omega))

/-- Reading stops at a token that does not bind more strongly than the floor. -/
theorem stop (h : ReadsOn cost floor c e c') (hweak : power c'.token.kind ≤ floor) :
    ∀ fuel, cost + 1 ≤ fuel → exprWithin fuel floor c = .ok (e, c') := by
  intro fuel hfuel
  refine h 1 (e, c') (fun fuel hfuel => ?_) fuel (by omega)
  obtain ⟨fuel, rfl⟩ := Nat.exists_eq_add_of_le' hfuel
  exact extendWithin_eq_ok.2 (.stop hweak rfl)

end ReadsOn

/-- Arguments are read to their end, if each of them is. -/
theorem someArgumentsWithin_complete {arguments : List (List Token × Expr)} {tokens : List Token}
    {c c' : Cursor} (hseparated : Separated (arguments.map Prod.fst) tokens) (hne : arguments ≠ [])
    (hread : ∀ argument ∈ arguments, ∀ c c' : Cursor,
      c.Takes argument.1 argument.2.identifiers c' → power c'.token.kind ≤ 0 →
        ReadsOn (4 * argument.1.length) 0 c argument.2 c')
    (htakes : c.Takes tokens (Expr.identifiersOf (arguments.map Prod.snd)) c')
    (hcloses : c'.token.kind = .closeParen) :
    ∀ fuel, 4 * tokens.length + 2 ≤ fuel →
      someArgumentsWithin fuel c = .ok (arguments.map Prod.snd, c') := by
  induction arguments generalizing tokens c with
  | nil => exact absurd rfl hne
  | cons argument arguments ih =>
    obtain ⟨part, e⟩ := argument
    obtain ⟨hfirst, hrest⟩ := List.forall_mem_cons.1 hread
    intro fuel hfuel
    obtain ⟨fuel, rfl⟩ := Nat.exists_eq_add_of_le' (show 1 ≤ fuel by omega)
    cases arguments with
    | nil =>
      cases hseparated
      have htakes : c.Takes part e.identifiers c' := by
        rw [← Expr.identifiersOf_singleton]
        exact htakes
      have hweak : power c'.token.kind ≤ 0 := by rw [hcloses]; decide
      have hexpr := (hfirst c c' htakes hweak).stop hweak fuel (by omega)
      exact someArgumentsWithin_eq_ok.2 ⟨e, c', hexpr, .inl ⟨by simp [hcloses], rfl⟩⟩
    | cons next arguments =>
      cases hseparated with
      | @more comma rest _ _ _ separates after =>
      obtain ⟨c₁, hpart, hmore⟩ := Cursor.Takes.append_iff.1 htakes
      obtain ⟨-, rfl, hothers⟩ := Cursor.Takes.cons_iff.1 hmore
      rw [List.length_append, List.length_cons] at hfuel
      have hweak : power c₁.token.kind ≤ 0 := by rw [separates]; decide
      have hexpr := (hfirst c c₁ hpart hweak).stop hweak fuel (by omega)
      have hmore := ih after nofun hrest hothers fuel (by omega)
      exact someArgumentsWithin_eq_ok.2 ⟨e, c₁, hexpr, .inr ⟨separates, _, c', hmore, rfl⟩⟩

theorem argumentsWithin_complete {arguments : List (List Token × Expr)} {tokens : List Token}
    {c c' : Cursor} (hseparated : Separated (arguments.map Prod.fst) tokens)
    (hderives : ∀ argument ∈ arguments, Derives .assignment argument.1 argument.2)
    (hread : ∀ argument ∈ arguments, ∀ c c' : Cursor,
      c.Takes argument.1 argument.2.identifiers c' → power c'.token.kind ≤ 0 →
        ReadsOn (4 * argument.1.length) 0 c argument.2 c')
    (htakes : c.Takes tokens (Expr.identifiersOf (arguments.map Prod.snd)) c')
    (hcloses : c'.token.kind = .closeParen) :
    ∀ fuel, 4 * tokens.length + 3 ≤ fuel →
      argumentsWithin fuel c = .ok (arguments.map Prod.snd, c') := by
  intro fuel hfuel
  obtain ⟨fuel, rfl⟩ := Nat.exists_eq_add_of_le' (show 1 ≤ fuel by omega)
  cases arguments with
  | nil =>
    cases hseparated
    obtain rfl := Cursor.Takes.nil_iff.1 htakes
    exact argumentsWithin_eq_ok.2 (.inl ⟨hcloses, rfl⟩)
  | cons argument arguments =>
    obtain ⟨rest, rfl⟩ := hseparated.exists_rest
    obtain ⟨t, more, ht, hopen⟩ := (hderives argument (List.mem_cons_self ..)).head
    have htoken : c.token = t := by
      rw [ht] at htakes
      exact (Cursor.Takes.cons_iff.1 htakes).2.1
    have hsome := someArgumentsWithin_complete hseparated nofun hread htakes hcloses fuel (by omega)
    exact argumentsWithin_eq_ok.2 (.inr ⟨by simpa [htoken] using hopen, hsome⟩)

/-- A literal is read. -/
theorem readsOn_literal {floor : Nat} {c c' : Cursor} {t : Token} {literal : Literal}
    (htakes : c.Takes [t] [] c')
    (hoperand : ∀ fuel (c : Cursor), c.token = t → Operand fuel c (.literal literal, c.next)) :
    ReadsOn 4 floor c (.literal literal) c' := by
  obtain ⟨-, ht, hrest⟩ := Cursor.Takes.cons_iff.1 htakes
  obtain rfl := Cursor.Takes.nil_iff.1 hrest
  have hread : ReadsOn 2 floor c (.literal literal) c.next :=
    .of_operand 0 fun fuel _ => operandWithin_eq_ok.2 (hoperand fuel c ht)
  exact hread.mono (by omega)

theorem readsOn_name {floor : Nat} {c c' : Cursor} {t : Token} {id : Nat} (kind : t.kind = .identifier)
    (htakes : c.Takes [t] [⟨t.value, id⟩] c') : ReadsOn 4 floor c (.name ⟨t.value, id⟩) c' := by
  obtain ⟨-, rfl, hid, rfl⟩ := Cursor.Takes.name_iff.1 htakes
  obtain rfl : id = c.nextId := hid
  refine ReadsOn.mono (.of_operand 0 fun fuel _ => operandWithin_eq_ok.2 ?_) (by omega)
  exact .name kind

theorem readsOn_group {floor cost : Nat} {c c₁ : Cursor} {e : Expr} (opens : c.token.kind = .openParen)
    (hread : ReadsOn cost 0 c.next e c₁) (closes : c₁.token.kind = .closeParen) :
    ReadsOn (cost + 3) floor c e c₁.next := by
  have hweak : power c₁.token.kind ≤ 0 := by rw [closes]; decide
  exact .of_operand (cost + 1)
    fun fuel hfuel => operandWithin_eq_ok.2 (.group opens (hread.stop hweak fuel hfuel) closes)

section

variable {floor cost need : Nat} {c c₁ c' : Cursor} {left right e : Expr}

theorem readsOn_assign {i : Identifier} (htarget : ReadsOn cost floor c (.name i) c₁)
    (assigns : c₁.token.kind = .assignment) (hfloor : floor ≤ 0)
    (hvalue : ∀ fuel, need ≤ fuel → exprWithin fuel 0 c₁.next = .ok (e, c')) :
    ReadsOn (cost + need + 1) floor c (.assign i e) c' := by
  have hstrong : floor < power c₁.token.kind := by
    rw [assigns]
    exact Nat.lt_succ_of_le hfloor
  refine htarget.extend need fun fuel r hfuel hrest => extendWithin_eq_ok.2 ?_
  exact .assign hstrong assigns rfl (hvalue fuel hfuel) hrest

theorem readsOn_operation {operator : BinaryOperator} (hleft : ReadsOn cost floor c left c₁)
    (hoperator : binaryOperator? c₁.token.kind = some operator)
    (hstrong : floor < power c₁.token.kind)
    (hright : ∀ fuel, need ≤ fuel → exprWithin fuel (power c₁.token.kind) c₁.next = .ok (right, c')) :
    ReadsOn (cost + need + 1) floor c (.binary operator left right) c' := by
  refine hleft.extend need fun fuel r hfuel hrest => extendWithin_eq_ok.2 ?_
  exact .operation hstrong hoperator (hright fuel hfuel) hrest

theorem readsOn_call {arguments : List Expr} (hcallee : ReadsOn cost floor c e c₁)
    (opens : c₁.token.kind = .openParen) (hstrong : floor < power c₁.token.kind)
    (harguments : ∀ fuel, need ≤ fuel → argumentsWithin fuel c₁.next = .ok (arguments, c'))
    (closes : c'.token.kind = .closeParen) :
    ReadsOn (cost + need + 1) floor c (.call e arguments) c'.next := by
  refine hcallee.extend need fun fuel r hfuel hrest => extendWithin_eq_ok.2 ?_
  exact .call hstrong opens (harguments fuel hfuel) closes hrest

end

end Parse

open Parse in
theorem Target.readsOn {tokens : List Token} {i : Identifier} (h : Target tokens i) {floor : Nat}
    {c c' : Cursor} (htakes : c.Takes tokens [i] c') :
    ReadsOn (4 * tokens.length) floor c (.name i) c' := by
  induction h generalizing floor c c' with
  | name kind id => exact readsOn_name kind htakes
  | group opens inner closes ih =>
    obtain ⟨-, rfl, hrest⟩ := Cursor.Takes.cons_iff.1 htakes
    obtain ⟨c₁, hinner, -, rfl, rfl⟩ := Cursor.Takes.concat_iff.1 hrest
    refine (readsOn_group opens (ih hinner) closes).mono ?_
    simp
    omega

open Parse in
/-- What the grammar derives is read, above any power that its level allows and up to any token that may
follow. -/
theorem Derives.readsOn {level : Level} {tokens : List Token} {e : Expr} (h : Derives level tokens e)
    {floor : Nat} {c c' : Cursor} (hfloor : floor ≤ level.floor)
    (htakes : c.Takes tokens e.identifiers c') (hfollows : power c'.token.kind ≤ level.follow) :
    ReadsOn (4 * tokens.length) floor c e c' := by
  induction h generalizing floor c c' with
  | @assign target value sign i e left assigns right ih =>
    have hids : (Expr.assign i e).identifiers = [i] ++ e.identifiers := rfl
    rw [hids] at htakes
    obtain ⟨c₁, hleft, hrest⟩ := Cursor.Takes.append_iff.1 htakes
    obtain ⟨-, rfl, hright⟩ := Cursor.Takes.cons_iff.1 hrest
    have hvalue := (ih (Nat.le_refl _) hright hfollows).stop hfollows
    refine (readsOn_assign (left.readsOn hleft) assigns hfloor hvalue).mono ?_
    simp
    omega
  | @operation level inner left right sign operator l r next first operates second ihFirst ihSecond =>
    obtain ⟨c₁, hleft, hrest⟩ := Cursor.Takes.append_iff.1 htakes
    obtain ⟨-, rfl, hright⟩ := Cursor.Takes.cons_iff.1 hrest
    obtain ⟨hoperator, hpower, hlt, -⟩ := Level.operator?_eq_some operates
    have hoperand := (ihSecond (Level.follow_le_floor_inner next) hright
      (Nat.le_trans hfollows (Level.follow_mono next))).stop hfollows
    rw [← hpower] at hoperand hlt
    have hfirst := ihFirst hfloor hleft (Nat.le_of_eq hpower)
    refine (readsOn_operation hfirst hoperator (Nat.lt_of_le_of_lt hfloor hlt) hoperand).mono ?_
    simp
    omega
  | inner next derives ih =>
    exact ih (Nat.le_trans hfloor (Level.floor_mono next)) htakes
      (Nat.le_trans hfollows (Level.follow_mono next))
  | @unary sign operator tokens e operates operand ih =>
    obtain ⟨-, rfl, hrest⟩ := Cursor.Takes.cons_iff.1 htakes
    have hoperand := (ih (Nat.le_refl _) hrest hfollows).stop hfollows
    refine ReadsOn.mono (.of_operand (4 * tokens.length + 1) fun fuel hfuel =>
      operandWithin_eq_ok.2 (.unary operates (hoperand fuel hfuel))) ?_
    simp
    omega
  | @call callee tokens opening closing e arguments called opens separated passed closes ihCalled
      ihPassed =>
    obtain ⟨c₁, hcallee, hrest⟩ := Cursor.Takes.append_iff.1 htakes
    obtain ⟨-, rfl, hpassed⟩ := Cursor.Takes.cons_iff.1 hrest
    obtain ⟨c₂, harguments, -, rfl, rfl⟩ := Cursor.Takes.concat_iff.1 hpassed
    have hread := argumentsWithin_complete separated passed
      (fun argument hmem c c' htakes hweak => ihPassed argument hmem (Nat.le_refl _) htakes hweak)
      harguments closes
    have hcalled := ihCalled hfloor hcallee (power_le_call _)
    have hstrong : floor < power c₁.token.kind := by
      rw [opens]
      exact Nat.lt_succ_of_le hfloor
    refine (readsOn_call hcalled opens hstrong hread closes).mono ?_
    simp
    omega
  | number kind value =>
    refine readsOn_literal htakes fun fuel c hc => ?_
    subst hc
    exact .number kind value
  | string kind =>
    refine readsOn_literal htakes fun fuel c hc => ?_
    subst hc
    exact .string kind
  | isTrue kind =>
    refine readsOn_literal htakes fun fuel c hc => ?_
    subst hc
    exact .isTrue kind
  | isFalse kind =>
    refine readsOn_literal htakes fun fuel c hc => ?_
    subst hc
    exact .isFalse kind
  | name kind id => exact readsOn_name kind htakes
  | group opens derives closes ih =>
    obtain ⟨-, rfl, hrest⟩ := Cursor.Takes.cons_iff.1 htakes
    obtain ⟨c₁, hinner, -, rfl, rfl⟩ := Cursor.Takes.concat_iff.1 hrest
    have hweak : power c₁.token.kind ≤ 0 := by rw [closes]; decide
    refine (readsOn_group opens (ih (Nat.zero_le _) hinner hweak) closes).mono ?_
    simp
    omega

/-- Between the cursors stands an expression that can not go on behind them. -/
structure WholeExpression (c : Cursor) (e : Expr) (c' : Cursor) : Prop where
  derives : ∃ tokens, Derives .assignment tokens e ∧ c.Takes tokens e.identifiers c'
  ends : c'.token.kind.EndsExpression

namespace Parse

theorem expr_eq_ok {c : Cursor} (hstop : c.stop.kind = .eof) {e : Expr} {c' : Cursor} :
    expr c = .ok (e, c') ↔ WholeExpression c e c' := by
  change exprWithin (8 * c.ahead.length + 8) 0 c = .ok (e, c') ↔ _
  constructor
  · intro h
    obtain ⟨level, tokens, hspans, -, hweak⟩ := exprWithin_sound hstop (Nat.zero_le _) h
    exact ⟨⟨tokens, hspans.derives.lift (Nat.zero_le _), hspans.takes⟩,
      endsExpression_iff.2 (Nat.le_zero.1 hweak)⟩
  · rintro ⟨⟨tokens, hderives, htakes⟩, hends⟩
    have hweak : power c'.token.kind ≤ 0 := Nat.le_of_eq (endsExpression_iff.1 hends)
    refine (hderives.readsOn (Nat.le_refl _) htakes hweak).stop hweak _ ?_
    simp [htakes.ahead]
    omega

/-- Tokens that are one expression are no other. -/
theorem eq_of_derives {tokens : List Token} {e e' : Expr} {first : Nat}
    (h : Derives .assignment tokens e) (h' : Derives .assignment tokens e')
    (hids : e.identifiers.map Identifier.id = List.range' first e.identifiers.length)
    (hids' : e'.identifiers.map Identifier.id = List.range' first e'.identifiers.length) : e = e' := by
  -- Both are what is read where the end of file comes after the tokens.
  have hread : ∀ {e : Expr}, Derives .assignment tokens e →
      e.identifiers.map Identifier.id = List.range' first e.identifiers.length →
        expr ⟨tokens, .endOfFile 1, first⟩ =
          .ok (e, ⟨[], .endOfFile 1, first + e.identifiers.length⟩) := by
    intro e hderives hids
    refine (expr_eq_ok rfl).2 ⟨⟨tokens, hderives, ?_⟩, endsExpression_iff.2 rfl⟩
    exact ⟨(List.append_nil _).symm, rfl, hids, rfl⟩
  have heq := (hread h hids).symm.trans (hread h' hids')
  exact congrArg Prod.fst (Except.ok.inj heq)

/-- Reading by powers follows the grammar. From any place in a list of tokens, an expression is read up to
a token exactly if the grammar derives it from the tokens between, the identifiers are numbered in the
order in which they are written, and the expression may end before that token. Everything else is an
error, and tokens are one expression at most. -/
theorem expr_grammatical :
    (∀ c : Cursor, c.stop.kind = .eof →
      (∀ e c', expr c = .ok (e, c') ↔ WholeExpression c e c') ∧
        ((∀ e c', ¬ WholeExpression c e c') → ∃ error, expr c = .error error)) ∧
    ∀ tokens e e' first, Derives .assignment tokens e → Derives .assignment tokens e' →
      e.identifiers.map Identifier.id = List.range' first e.identifiers.length →
        e'.identifiers.map Identifier.id = List.range' first e'.identifiers.length → e = e' := by
  refine ⟨fun c hstop => ⟨fun e c' => expr_eq_ok hstop, fun hnone => ?_⟩,
    fun tokens e e' first h h' hids hids' => eq_of_derives h h' hids hids'⟩
  cases hread : expr c with
  | error error => exact ⟨error, rfl⟩
  | ok r => exact absurd ((expr_eq_ok hstop).1 hread) (hnone r.1 r.2)

end Parse

/-- The tokens of an assignment, whose value has operators of three levels and a call. -/
def Token.assignmentSample : List Token :=
  [⟨.identifier, "a", 1⟩, ⟨.assignment, "=", 1⟩, ⟨.identifier, "b", 1⟩, ⟨.dash, "-", 1⟩,
    ⟨.identifier, "c", 1⟩, ⟨.star, "*", 1⟩, ⟨.not, "!", 1⟩, ⟨.identifier, "d", 1⟩, ⟨.openParen, "(", 1⟩,
    ⟨.identifier, "e", 1⟩, ⟨.comma, ",", 1⟩, ⟨.trueWord, "true", 1⟩, ⟨.closeParen, ")", 1⟩,
    ⟨.dash, "-", 1⟩, ⟨.identifier, "f", 1⟩]

def Expr.assignmentSample : Expr :=
  .assign ⟨"a", 0⟩
    (.binary .minus
      (.binary .minus (.name ⟨"b", 1⟩)
        (.binary .multiply (.name ⟨"c", 2⟩)
          (.unary .not (.call (.name ⟨"d", 3⟩) [.name ⟨"e", 4⟩, .literal (.boolean true)]))))
      (.name ⟨"f", 5⟩))

def Token.sumSample : List Token :=
  [⟨.identifier, "a", 1⟩, ⟨.plus, "+", 1⟩, ⟨.identifier, "b", 1⟩, ⟨.assignment, "=", 1⟩,
    ⟨.identifier, "c", 1⟩]

/-- The assignment of the sample is read up to the semicolon and is the only expression with its tokens,
and an assignment to a sum is refused. -/
theorem Parse.expr_grammatical_assignmentSample :
    WholeExpression (.start (Token.assignmentSample ++ [⟨.semicolon, ";", 1⟩])) .assignmentSample
        ⟨[⟨.semicolon, ";", 1⟩], .endOfFile 1, 6⟩ ∧
      (∀ e, Derives .assignment Token.assignmentSample e →
        e.identifiers.map Identifier.id = List.range' 0 e.identifiers.length → e = .assignmentSample) ∧
      ¬ ∃ e c', WholeExpression (.start Token.sumSample) e c' := by
  obtain ⟨hreads, hunique⟩ := expr_grammatical
  have hwhole := ((hreads (.start (Token.assignmentSample ++ [⟨.semicolon, ";", 1⟩])) rfl).1
    .assignmentSample ⟨[⟨.semicolon, ";", 1⟩], .endOfFile 1, 6⟩).1 rfl
  refine ⟨hwhole, fun e hderives hids => ?_, ?_⟩
  · obtain ⟨tokens, hsample, htakes⟩ := hwhole.derives
    have htokens : tokens = Token.assignmentSample := List.append_cancel_right htakes.ahead.symm
    subst htokens
    exact hunique _ e .assignmentSample 0 hderives hsample hids rfl
  · rintro ⟨e, c', hwhole⟩
    have hread := ((hreads (.start Token.sumSample) rfl).1 e c').2 hwhole
    have herror : expr (.start Token.sumSample) = .error ⟨.invalidAssignmentTarget, 1⟩ := rfl
    rw [herror] at hread
    cases hread

end LexScript
