import LexScript.Proofs.Parse.Acceptance

/-!
# Programs are read

A statement or a declaration of the grammar as it is read, whose elses are settled, is accepted to its end with
fuel for every token: `Parse.accepts_of_spells`, `Parse.declsWithin_accepts`.
-/

namespace LexScript

namespace TokenKind

def beginsExpression : TokenKind → Bool
  | number | string | trueWord | falseWord | identifier | dash | not | openParen => true
  | _ => false

def beginsStatement : TokenKind → Bool
  | printWord | returnWord | ifWord | whileWord | forWord | openCurly => true
  | kind => kind.beginsExpression

def beginsDeclaration : TokenKind → Bool
  | letWord | fnWord => true
  | kind => kind.beginsStatement

theorem beginsDeclaration_of_beginsStatement {kind : TokenKind} (h : kind.beginsStatement = true) :
    kind.beginsDeclaration = true := by
  cases kind <;> first | rfl | cases h

theorem beginsStatement_of_beginsExpression {kind : TokenKind} (h : kind.beginsExpression = true) :
    kind.beginsStatement = true := by
  cases kind <;> first | rfl | cases h

end TokenKind

theorem Target.begins {tokens : List Token} {i : Identifier} (h : Target tokens i) :
    ∃ t after, tokens = t :: after ∧ t.kind.beginsExpression = true := by
  cases h with
  | name kind => exact ⟨_, _, rfl, by rw [kind]; rfl⟩
  | group opens => exact ⟨_, _, rfl, by rw [opens]; rfl⟩

theorem Derives.begins {level : Level} {tokens : List Token} {e : Expr} (h : Derives level tokens e) :
    ∃ t after, tokens = t :: after ∧ t.kind.beginsExpression = true := by
  induction h with
  | assign left assigns right ih =>
    obtain ⟨t, after, rfl, ht⟩ := left.begins
    exact ⟨t, _, rfl, ht⟩
  | operation next first operates second ihFirst ihSecond =>
    obtain ⟨t, after, rfl, ht⟩ := ihFirst
    exact ⟨t, _, rfl, ht⟩
  | inner next derives ih => exact ih
  | @unary sign operator tokens e operates operand ih =>
    refine ⟨sign, tokens, rfl, ?_⟩
    cases hkind : sign.kind with
    | dash | not => rfl
    | _ =>
      rw [hkind] at operates
      cases operates
  | call called opens separated passed closes ihCalled ihPassed =>
    obtain ⟨t, after, rfl, ht⟩ := ihCalled
    exact ⟨t, _, rfl, ht⟩
  | number kind | string kind | isTrue kind | isFalse kind | name kind =>
    exact ⟨_, [], rfl, by rw [kind]; rfl⟩
  | group opens derives closes ih => exact ⟨_, _, rfl, by rw [opens]; rfl⟩

namespace Spells

variable {d : Dialect} {tokens : List Token}

theorem begins_statement {s : Stmt} (h : Spells d (.statement s) tokens) :
    ∃ t after, tokens = t :: after ∧ t.kind.beginsStatement = true := by
  cases h with
  | expression value begins ends =>
    obtain ⟨t, after, rfl, ht⟩ := value.begins
    exact ⟨t, _, rfl, TokenKind.beginsStatement_of_beginsExpression ht⟩
  | print begins | ret begins | retValue begins | block begins | ifThen begins | ifElse begins
  | whileLoop begins | forLoop begins => exact ⟨_, _, rfl, by rw [begins]; rfl⟩

theorem begins_declaration {x : Decl} (h : Spells d (.declaration x) tokens) :
    ∃ t after, tokens = t :: after ∧ t.kind.beginsDeclaration = true := by
  cases h with
  | binding begins | function begins | forward begins => exact ⟨_, _, rfl, by rw [begins]; rfl⟩
  | statement spells =>
    obtain ⟨t, after, rfl, ht⟩ := spells.begins_statement
    exact ⟨t, _, rfl, TokenKind.beginsDeclaration_of_beginsStatement ht⟩

end Spells

namespace Parse

variable {tokens us rest : List Token} {stop : Token}

theorem endsExpression_of_eq {t : Token} {kind : TokenKind} (h : t.kind = kind) (hpower : power kind = 0) :
    t.kind.EndsExpression := by
  rw [h]
  exact endsExpression_iff.2 hpower

/-- An expression ends before a statement that is separated from it. -/
theorem endsExpression_of_separates {s : Stmt} (h : Spells .effective (.statement s) tokens)
    (hseparates : Dialect.effective.Separates tokens) :
    ((tokens ++ rest).headD stop).kind.EndsExpression := by
  obtain ⟨t, after, rfl⟩ := List.exists_cons_of_ne_nil h.ne_nil
  exact hseparates rfl t rfl

/-- Nothing that begins with such a token is an else. -/
theorem ne_elseWord_of_begins {t : Token} (h : t.kind.beginsDeclaration = true) : t.kind ≠ .elseWord := by
  intro hkind
  rw [hkind] at h
  cases h

/-- Behind a declaration in a list, no else comes. -/
theorem ne_elseWord_of_declarations {xs : List Decl} (h : Spells .effective (.declarations xs) tokens)
    (hrest : (rest.headD stop).kind ≠ .elseWord) : ((tokens ++ rest).headD stop).kind ≠ .elseWord := by
  cases h with
  | nil => exact hrest
  | cons first more =>
    obtain ⟨t, after, rfl, ht⟩ := first.begins_declaration
    exact ne_elseWord_of_begins ht

/-! ## A production at a time

Beyond what the parts of a phrase need, one unit of fuel is enough for the phrase, and two where it has a
block.
-/

section

variable {bound bound' : Nat} {us vs : List Token} {e : Expr} {word opening closing ending : Token}

section Statements

variable (hstop : stop.kind = .eof) (hvalue : Derives .assignment tokens e)
  (hending : ending.kind = .semicolon)

include hstop hvalue hending

theorem exprStmt_accepts : Accepts exprStmt (tokens ++ [ending]) rest stop :=
  .line_bind fun _ => .expr_bind hstop hvalue (endsExpression_of_eq hending rfl) fun _ =>
    .expectOr_bind hending .pure

theorem stmtWithin_expression : AcceptsFrom 1 stmtWithin (tokens ++ [ending]) rest stop := by
  have haccepts : Accepts exprStmt (tokens ++ [ending]) rest stop := exprStmt_accepts hstop hvalue hending
  obtain ⟨t, after, rfl, ht⟩ := hvalue.begins
  refine .succ fun fuel _ => ?_
  apply Accepts.peek_bind
  simp only [List.cons_append, List.headD_cons]
  revert ht
  cases t.kind <;> intro ht <;> first | contradiction | exact haccepts

theorem stmtWithin_print (hword : word.kind = .printWord) (hopens : opening.kind = .openParen)
    (hcloses : closing.kind = .closeParen) :
    AcceptsFrom 1 stmtWithin (word :: opening :: (tokens ++ [closing, ending])) rest stop := by
  refine .succ fun fuel _ => ?_
  refine .peek_kind hword (.advance_bind (.expectOr_bind hopens ?_))
  refine .expr_bind hstop hvalue (endsExpression_of_eq hcloses rfl) fun _ => ?_
  exact .expectOr_bind hcloses (.expectOr_bind hending .pure)

theorem stmtWithin_retValue (hword : word.kind = .returnWord) :
    AcceptsFrom 1 stmtWithin (word :: (tokens ++ [ending])) rest stop := by
  obtain ⟨t, after, rfl, ht⟩ := hvalue.begins
  refine .succ fun fuel _ => ?_
  refine .peek_kind hword (.advance_bind (.peek_neg ?_ ?_))
  · intro hkind
    have hkind : t.kind = .semicolon := hkind
    rw [hkind] at ht
    cases ht
  · rw [map_eq_pure_bind, bind_assoc]
    refine .expr_bind hstop hvalue (endsExpression_of_eq hending rfl) fun _ => ?_
    rw [pure_bind]
    exact .expectOr_bind hending .pure

theorem declWithin_binding {name colon sign : Token} {t : Ty} (hword : word.kind = .letWord)
    (hname : name.kind = .identifier) (hcolon : colon.kind = .colon)
    (htype : SpellsType .effective (.type t) us) (hsign : sign.kind = .assignment) :
    AcceptsFrom 1 declWithin (word :: name :: colon :: (us ++ sign :: (tokens ++ [ending]))) rest stop := by
  have hnext : sign.kind ≠ .arrow := by simp [hsign]
  refine .succ fun fuel _ => ?_
  refine .peek_kind hword (.advance_bind (.identifier_bind hname fun _ => .expectOr_bind hcolon ?_))
  refine .bind (type_accepts htype hnext) fun _ => .expectOr_bind hsign ?_
  refine .expr_bind hstop hvalue (endsExpression_of_eq hending rfl) fun _ => ?_
  exact .expectOr_bind hending .pure

end Statements

theorem stmtWithin_ret (hword : word.kind = .returnWord) (hending : ending.kind = .semicolon) :
    AcceptsFrom 1 stmtWithin [word, ending] rest stop := by
  refine .succ fun fuel _ => ?_
  refine .peek_kind hword (.advance_bind (.peek_pos hending ?_))
  rw [pure_bind]
  exact .expectOr_bind hending .pure

theorem blockWithin_accepts (hopens : opening.kind = .openCurly)
    (hbody : AcceptsFrom bound blockRestWithin (tokens ++ [closing]) rest stop) :
    AcceptsFrom (bound + 1) blockWithin (opening :: (tokens ++ [closing])) rest stop := by
  refine .succ fun fuel hfuel => ?_
  exact .expectOr_bind hopens (hbody fuel hfuel)

theorem stmtWithin_block (hopens : opening.kind = .openCurly)
    (hbody : AcceptsFrom bound blockRestWithin (tokens ++ [closing]) rest stop) :
    AcceptsFrom (bound + 2) stmtWithin (opening :: (tokens ++ [closing])) rest stop := by
  have hblock := blockWithin_accepts hopens hbody
  refine .succ fun fuel hfuel => ?_
  exact .peek_kind hopens (.line_bind fun _ => (hblock fuel hfuel).bind_pure)

section Conditions

variable (hstop : stop.kind = .eof) (hcondition : Derives .assignment tokens e)

include hstop hcondition

theorem stmtWithin_ifThen (hword : word.kind = .ifWord) {s : Stmt}
    (hbranch : Spells .effective (.statement s) us) (hseparates : Dialect.effective.Separates us)
    (hthen : AcceptsFrom bound stmtWithin us rest stop) (hnext : (rest.headD stop).kind ≠ .elseWord) :
    AcceptsFrom (bound + 1) stmtWithin (word :: (tokens ++ us)) rest stop := by
  refine .succ fun fuel hfuel => ?_
  refine .peek_kind hword (.advance_bind ?_)
  refine .expr_bind hstop hcondition (endsExpression_of_separates hbranch hseparates) fun _ => ?_
  rw [← List.append_nil us]
  exact (hthen fuel hfuel).bind fun _ => .peek_pos hnext .pure

theorem stmtWithin_ifElse {other : Token} (hword : word.kind = .ifWord) {s : Stmt}
    (hbranch : Spells .effective (.statement s) us) (hseparates : Dialect.effective.Separates us)
    (hthen : AcceptsFrom bound stmtWithin us (other :: vs ++ rest) stop) (hother : other.kind = .elseWord)
    (helse : AcceptsFrom bound' stmtWithin vs rest stop) :
    AcceptsFrom (max bound bound' + 1) stmtWithin (word :: (tokens ++ us ++ other :: vs)) rest stop := by
  refine .succ fun fuel hfuel => ?_
  obtain ⟨hfuel, hfuel'⟩ := Nat.max_le.1 hfuel
  rw [List.append_assoc]
  refine .peek_kind hword (.advance_bind (.expr_bind hstop hcondition ?_ fun _ => ?_))
  · rw [List.append_assoc]
    exact endsExpression_of_separates hbranch hseparates
  · refine (hthen fuel hfuel).bind fun _ => ?_
    exact .peek_neg (not_not_intro hother) (.skip_bind (helse fuel hfuel').bind_pure)

theorem stmtWithin_whileLoop (hword : word.kind = .whileWord) {s : Stmt}
    (hloop : Spells .effective (.statement s) us) (hseparates : Dialect.effective.Separates us)
    (hbody : AcceptsFrom bound stmtWithin us rest stop) :
    AcceptsFrom (bound + 1) stmtWithin (word :: (tokens ++ us)) rest stop := by
  refine .succ fun fuel hfuel => ?_
  refine .peek_kind hword (.advance_bind ?_)
  refine .expr_bind hstop hcondition (endsExpression_of_separates hloop hseparates) fun _ => ?_
  exact (hbody fuel hfuel).bind_pure

theorem stmtWithin_forLoop {step : Expr} {start advance : List Token} (hword : word.kind = .forWord)
    (hfirst : AcceptsFrom bound declWithin start (tokens ++ ending :: (advance ++ us) ++ rest) stop)
    (hending : ending.kind = .semicolon) (hstep : Derives .assignment advance step) {s : Stmt}
    (hloop : Spells .effective (.statement s) us) (hseparates : Dialect.effective.Separates us)
    (hbody : AcceptsFrom bound' stmtWithin us rest stop) :
    AcceptsFrom (max bound bound' + 1) stmtWithin (word :: (start ++ tokens ++ ending :: (advance ++ us)))
      rest stop := by
  refine .succ fun fuel hfuel => ?_
  obtain ⟨hfuel, hfuel'⟩ := Nat.max_le.1 hfuel
  rw [List.append_assoc]
  refine .peek_kind hword (.advance_bind ((hfirst fuel hfuel).bind fun _ => ?_))
  refine .expr_bind hstop hcondition (endsExpression_of_eq hending rfl) fun _ => .expectOr_bind hending ?_
  refine .line_bind fun _ => .expr_bind hstop hstep (endsExpression_of_separates hloop hseparates) fun _ => ?_
  exact (hbody fuel hfuel').bind_pure

end Conditions

theorem declWithin_function {header : FunctionHeader} (hword : word.kind = .fnWord)
    (hheader : SpellsHeader .effective header us) (hopens : opening.kind = .openCurly)
    (hbody : AcceptsFrom bound blockRestWithin (tokens ++ [closing]) rest stop) :
    AcceptsFrom (bound + 2) declWithin (word :: (us ++ opening :: (tokens ++ [closing]))) rest stop := by
  have hblock := blockWithin_accepts hopens hbody
  have harrow : opening.kind ≠ .arrow := by simp [hopens]
  have hsemicolon : opening.kind ≠ .semicolon := by simp [hopens]
  refine .succ fun fuel hfuel => ?_
  refine .peek_kind hword (.advance_bind (.bind (functionHeader_accepts hheader harrow) fun _ => ?_))
  exact .peek_neg hsemicolon (hblock fuel hfuel).bind_pure

theorem declWithin_forward {header : FunctionHeader} (hword : word.kind = .fnWord)
    (hheader : SpellsHeader .effective header us) (hending : ending.kind = .semicolon) :
    AcceptsFrom 1 declWithin (word :: (us ++ [ending])) rest stop := by
  have harrow : ending.kind ≠ .arrow := by simp [hending]
  refine .succ fun fuel _ => ?_
  refine .peek_kind hword (.advance_bind (.bind (functionHeader_accepts hheader harrow) fun _ => ?_))
  exact .peek_pos hending (.skip_bind .pure)

theorem declWithin_statement {s : Stmt} (hs : Spells .effective (.statement s) tokens)
    (h : AcceptsFrom bound stmtWithin tokens rest stop) : AcceptsFrom (bound + 1) declWithin tokens rest stop := by
  obtain ⟨t, after, rfl, ht⟩ := hs.begins_statement
  refine .succ fun fuel hfuel => ?_
  have haccepts := h fuel hfuel
  apply Accepts.peek_bind
  simp only [List.cons_append, List.headD_cons]
  revert ht
  cases t.kind <;> intro ht <;> first | contradiction | exact haccepts.bind_pure

theorem blockRestWithin_nil (hcloses : closing.kind = .closeCurly) :
    AcceptsFrom 1 blockRestWithin [closing] rest stop := by
  refine .succ fun fuel _ => ?_
  exact .peek_kind hcloses (.skip_bind .pure)

theorem blockRestWithin_cons {d : Decl} (hd : Spells .effective (.declaration d) tokens)
    (hfirst : AcceptsFrom bound declWithin tokens (us ++ rest) stop)
    (hmore : AcceptsFrom bound' blockRestWithin us rest stop) :
    AcceptsFrom (max bound bound' + 1) blockRestWithin (tokens ++ us) rest stop := by
  obtain ⟨t, after, rfl, ht⟩ := hd.begins_declaration
  refine .succ fun fuel hfuel => ?_
  obtain ⟨hfuel, hfuel'⟩ := Nat.max_le.1 hfuel
  have haccepts := hfirst fuel hfuel
  have hrest := hmore fuel hfuel'
  apply Accepts.peek_bind
  simp only [List.cons_append, List.headD_cons]
  rw [← List.cons_append]
  revert ht
  cases t.kind <;> intro ht <;> first | contradiction | exact haccepts.bind fun _ => hrest.bind_pure

end

def AcceptsPhrase (stop : Token) (tokens : List Token) : Phrase → Prop
  | .statement s => s.Settled → ∀ rest, s.closed = true ∨ (rest.headD stop).kind ≠ .elseWord →
    AcceptsFrom (4 * tokens.length) stmtWithin tokens rest stop
  | .declaration x => x.Settled → ∀ rest, (rest.headD stop).kind ≠ .elseWord →
    AcceptsFrom (4 * tokens.length + 1) declWithin tokens rest stop
  | .declarations xs => Decl.AllSettled xs → ∀ closing rest, closing.kind = .closeCurly →
    AcceptsFrom (4 * tokens.length + 2) blockRestWithin (tokens ++ [closing]) rest stop

theorem accepts_of_spells (hstop : stop.kind = .eof) {p : Phrase} (h : Spells .effective p tokens) :
    AcceptsPhrase stop tokens p := by
  induction h with
  | expression value begins ends =>
    intro _ rest _
    exact (stmtWithin_expression hstop value ends).mono (by simp +arith)
  | print begins opens value closes ends =>
    intro _ rest _
    exact (stmtWithin_print hstop value ends begins opens closes).mono (by simp +arith)
  | ret begins ends =>
    intro _ rest _
    exact (stmtWithin_ret begins ends).mono (by simp)
  | retValue begins value ends =>
    intro _ rest _
    exact (stmtWithin_retValue hstop value ends begins).mono (by simp +arith)
  | block opens inner closes ih =>
    intro hsettled rest _
    exact (stmtWithin_block opens (ih hsettled _ rest closes)).mono (by simp +arith)
  | ifThen begins condition separates thenBranch ih =>
    intro hsettled rest hrest
    have hnext : (rest.headD stop).kind ≠ .elseWord := hrest.resolve_left nofun
    have hthen := ih hsettled rest (.inr hnext)
    exact (stmtWithin_ifThen hstop condition begins thenBranch separates hthen hnext).mono (by simp +arith)
  | @ifElse word other test branch more e s u begins condition separates thenBranch divides elseBranch ihThen
      ihElse =>
    intro hsettled rest hrest
    obtain ⟨hclosed, hs, hu⟩ := hsettled
    have hthen := ihThen hs (other :: more ++ rest) (.inl hclosed)
    have helse := ihElse hu rest hrest
    exact (stmtWithin_ifElse hstop condition begins thenBranch separates hthen divides helse).mono
      (by simp only [List.length_append, List.length_cons]; omega)
  | whileLoop begins condition separates body ih =>
    intro hsettled rest hrest
    have hbody := ih hsettled rest hrest
    exact (stmtWithin_whileLoop hstop condition begins body separates hbody).mono (by simp +arith)
  | @forLoop word ending start test advance tokens first e step stepLine s begins init condition ends increment
      beginsStep separates body ihFirst ihBody =>
    intro hsettled rest hrest
    obtain ⟨t, after, rfl, ht⟩ := condition.begins
    have hnext : t.kind ≠ .elseWord := ne_elseWord_of_begins
      (TokenKind.beginsDeclaration_of_beginsStatement (TokenKind.beginsStatement_of_beginsExpression ht))
    have hfirst := ihFirst hsettled.1 (t :: after ++ ending :: (advance ++ tokens) ++ rest) hnext
    have hbody := ihBody hsettled.2 rest hrest
    exact (stmtWithin_forLoop hstop condition begins hfirst ends increment body separates hbody).mono
      (by simp only [List.length_append, List.length_cons]; omega)
  | binding begins kind id declares declared assigns initial ends =>
    intro _ rest _
    exact (declWithin_binding hstop initial ends begins kind declares declared assigns).mono (by simp)
  | function begins headed opens inner closes ih =>
    intro hsettled rest _
    exact (declWithin_function begins headed opens (ih hsettled _ rest closes)).mono (by simp +arith)
  | forward begins headed ends =>
    intro _ rest _
    exact (declWithin_forward begins headed ends).mono (by simp)
  | statement spells ih =>
    intro hsettled rest hrest
    exact declWithin_statement spells (ih hsettled rest (.inr hrest))
  | nil =>
    intro _ closing rest hcloses
    exact (blockRestWithin_nil hcloses).mono (by simp)
  | @cons tokens more x xs first others ihFirst ihMore =>
    intro hsettled closing rest hcloses
    have hcurly : closing.kind ≠ .elseWord := by simp [hcloses]
    have hnext := @ne_elseWord_of_declarations _ (closing :: rest) stop _ others hcurly
    have hpositive : 0 < tokens.length := by
      obtain ⟨t, after, rfl, -⟩ := first.begins_declaration
      exact Nat.zero_lt_succ _
    have hfirst := ihFirst hsettled.1 (more ++ [closing] ++ rest) (by simpa using hnext)
    have hmore := ihMore hsettled.2 closing rest hcloses
    rw [List.append_assoc]
    exact (blockRestWithin_cons first hfirst hmore).mono (by rw [List.length_append]; omega)

/-- Declarations are read up to the end of file. -/
theorem declsWithin_accepts (hstop : stop.kind = .eof) : ∀ {xs : List Decl} {tokens : List Token} {fuel : Nat},
    Spells .effective (.declarations xs) tokens → Decl.AllSettled xs → tokens.length + 1 ≤ fuel →
      Accepts (declsWithin fuel) tokens [] stop
  | [], _, fuel, .nil, _, hfuel => by
    obtain ⟨fuel, rfl⟩ := Nat.exists_eq_add_of_le' (show 1 ≤ fuel by omega)
    rw [declsWithin]
    exact .peek_pos hstop .pure
  | x :: xs, _, fuel, .cons first more, hsettled, hfuel => by
    obtain ⟨fuel, rfl⟩ := Nat.exists_eq_add_of_le' (show 1 ≤ fuel by omega)
    have heof : (([] : List Token).headD stop).kind ≠ .elseWord := by
      rw [List.headD_nil, hstop]
      decide
    have hfirst := accepts_of_spells hstop first hsettled.1 _ (ne_elseWord_of_declarations more heof)
    obtain ⟨t, after, rfl, ht⟩ := first.begins_declaration
    rw [List.length_append, List.length_cons] at hfuel
    have ht : t.kind ≠ .eof := by
      intro hkind
      rw [hkind] at ht
      cases ht
    rw [declsWithin]
    refine .peek_neg ht (.bind (.withFuel fun fuel hfuel => hfirst fuel (by omega)) fun _ => ?_)
    exact (declsWithin_accepts hstop more hsettled.2 (by omega)).bind_pure

end Parse
end LexScript
