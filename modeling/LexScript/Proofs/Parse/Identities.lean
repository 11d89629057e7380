import LexScript.Proofs.Parse.Readers

/-!
# The identities of the identifiers of a program

The identifiers of a program that is read are numbered from zero in the order in which they are
written, so no two of them have one identity. A text that is no program is refused at one of its
tokens.
-/

namespace LexScript.Parse

variable {tokens : List Token} {before : List Identifier}

mutual

theorem typeWithin_reads : ∀ fuel, Reads tokens before (typeWithin fuel) fun _ => before
  | 0 => .unexpected
  | fuel + 1 => by
    apply Reads.peek.bind
    intro _
    split
    · apply Reads.advance_bind
      intro t ht
      split
      · exact .pure rfl
      · exact .pure rfl
      · exact .pure rfl
      · exact .throw (.of_mem ht rfl (by simp))
    · apply Reads.skip.bind
      intro _
      apply Reads.expectOr.bind
      intro _
      apply (typesWithin_reads fuel).bind
      intro _
      apply Reads.expectOr.bind
      intro _
      exact (returnTypeWithin_reads fuel).bind fun _ => .pure rfl
    · exact .refuse

theorem typesWithin_reads : ∀ fuel, Reads tokens before (typesWithin fuel) fun _ => before
  | 0 => .unexpected
  | fuel + 1 => by
    apply Reads.peek.bind
    intro _
    split
    · exact .pure rfl
    apply (typeWithin_reads fuel).bind
    intro _
    apply Reads.peek.bind
    intro _
    split
    · exact .pure rfl
    apply Reads.skip.bind
    intro _
    exact (typesWithin_reads fuel).bind fun _ => .pure rfl

theorem returnTypeWithin_reads : ∀ fuel, Reads tokens before (returnTypeWithin fuel) fun _ => before
  | 0 => .unexpected
  | fuel + 1 => by
    apply Reads.peek.bind
    intro _
    split
    · exact .pure rfl
    · exact Reads.skip.bind fun _ => typeWithin_reads fuel

end

mutual

theorem exprWithin_reads : ∀ fuel floor before,
    Reads tokens before (exprWithin fuel floor) fun e => before ++ e.identifiers
  | 0, _, _ => .unexpected
  | fuel + 1, floor, before =>
    (operandWithin_reads fuel before).bind fun left => extendWithin_reads fuel floor before left

theorem operandWithin_reads : ∀ fuel before,
    Reads tokens before (operandWithin fuel) fun e => before ++ e.identifiers
  | 0, _ => .unexpected
  | fuel + 1, before => by
    rw [operandWithin]
    apply Reads.peek_bind
    intro c hc
    generalize hkind : c.token.kind = kind
    split
    · change Ends tokens _ ((match Number.ofText? c.token.value with
        | some value => pure (.literal (.number value))
        | none => throw ⟨.malformedNumber c.token.value, c.token.line⟩ : Parse Expr) c.next)
      cases hread : Number.ofText? c.token.value with
      | some value => exact Reads.pure (List.append_nil before) c.next hc.next_cursor
      | none =>
        refine Reads.throw ⟨rfl, ⟨_, hc.token_mem, rfl⟩, fun text htext => ?_⟩ c.next hc.next_cursor
        obtain rfl := Cause.malformedNumber.inj htext
        exact ⟨_, hc.token_mem, hkind, rfl, hread⟩
    · refine Reads.bind .advance (fun _ => ?_) c hc
      exact .pure (List.append_nil before)
    · refine Reads.bind .skip (fun _ => ?_) c hc
      exact .pure (List.append_nil before)
    · refine Reads.bind .skip (fun _ => ?_) c hc
      exact .pure (List.append_nil before)
    · refine Reads.bind .advance (fun _ => ?_) c hc
      exact Reads.fresh.bind fun i => .pure rfl
    · refine Reads.bind .skip (fun _ => ?_) c hc
      exact (exprWithin_reads fuel unaryPower before).bind fun _ => .pure rfl
    · refine Reads.bind .skip (fun _ => ?_) c hc
      exact (exprWithin_reads fuel unaryPower before).bind fun _ => .pure rfl
    · refine Reads.bind .skip (fun _ => ?_) c hc
      apply (exprWithin_reads fuel 0 before).bind
      intro inner
      exact Reads.expectOr.bind fun _ => .pure rfl
    · exact Reads.unexpected c hc

theorem extendWithin_reads : ∀ fuel floor before (left : Expr),
    Reads tokens (before ++ left.identifiers) (extendWithin fuel floor left)
      fun e => before ++ e.identifiers
  | 0, _, _, _ => .unexpected
  | fuel + 1, floor, before, left => by
    apply Reads.peek.bind
    intro kind
    split
    · exact .pure rfl
    apply Reads.advance_bind
    intro t ht
    split
    · rename_i operator _
      apply (exprWithin_reads fuel (power kind) _).bind
      intro right
      rw [List.append_assoc]
      exact extendWithin_reads fuel floor before (.binary operator left right)
    split
    · apply (argumentsWithin_reads fuel _).bind
      intro arguments
      apply Reads.expectOr.bind
      intro _
      rw [List.append_assoc]
      exact extendWithin_reads fuel floor before (.call left arguments)
    split
    · rename_i target
      apply (exprWithin_reads fuel 0 _).bind
      intro value
      rw [List.append_assoc]
      exact extendWithin_reads fuel floor before (.assign target value)
    · exact .throw (.of_mem ht rfl (by simp))

theorem argumentsWithin_reads : ∀ fuel before,
    Reads tokens before (argumentsWithin fuel) fun es => before ++ Expr.identifiersOf es
  | 0, _ => .unexpected
  | fuel + 1, before => by
    apply Reads.peek.bind
    intro _
    split
    · exact .pure (List.append_nil _)
    · exact someArgumentsWithin_reads fuel before

theorem someArgumentsWithin_reads : ∀ fuel before,
    Reads tokens before (someArgumentsWithin fuel) fun es => before ++ Expr.identifiersOf es
  | 0, _ => .unexpected
  | fuel + 1, before => by
    apply (exprWithin_reads fuel 0 before).bind
    intro first
    apply Reads.peek.bind
    intro _
    split
    · exact .pure (by simp [Expr.identifiersOf])
    apply Reads.skip.bind
    intro _
    refine (someArgumentsWithin_reads fuel _).bind fun rest => .pure ?_
    simp [Expr.identifiersOf]

end

theorem type_reads : Reads tokens before type fun _ => before := .withFuel typeWithin_reads

theorem returnType_reads : Reads tokens before returnType fun _ => before :=
  .withFuel returnTypeWithin_reads

theorem expr_reads : Reads tokens before expr fun e => before ++ e.identifiers :=
  .withFuel fun fuel => exprWithin_reads fuel 0 before

theorem parametersWithin_reads : ∀ fuel before, Reads tokens before (parametersWithin fuel)
    fun ps => before ++ ps.map Parameter.identifier
  | 0, _ => .unexpected
  | fuel + 1, before => by
    apply Reads.peek.bind
    intro _
    split
    · exact .pure (List.append_nil before)
    apply Reads.identifier.bind
    intro name
    apply Reads.expectOr.bind
    intro _
    apply type_reads.bind
    intro type
    apply Reads.peek.bind
    intro _
    split
    · exact .pure rfl
    apply Reads.skip.bind
    intro _
    refine (parametersWithin_reads fuel _).bind fun rest => .pure ?_
    simp

theorem functionHeader_reads :
    Reads tokens before functionHeader fun h => before ++ h.identifiers := by
  apply Reads.identifier.bind
  intro name
  apply Reads.expect.bind
  intro _
  apply (Reads.withFuel fun fuel => parametersWithin_reads fuel _).bind
  intro parameters
  apply Reads.expectOr.bind
  intro _
  refine returnType_reads.bind fun _ => .pure ?_
  rw [List.append_assoc]
  rfl

theorem binding_reads (start : Nat) :
    Reads tokens before (binding start) fun d => before ++ d.identifiers := by
  apply Reads.identifier.bind
  intro name
  apply Reads.expectOr.bind
  intro _
  apply type_reads.bind
  intro declared
  apply Reads.expectOr.bind
  intro _
  apply expr_reads.bind
  intro value
  refine Reads.expectOr.bind fun _ => .pure ?_
  rw [List.append_assoc]
  rfl

theorem printStmt_reads (start : Nat) :
    Reads tokens before (printStmt start) fun s => before ++ s.identifiers := by
  apply Reads.expectOr.bind
  intro _
  apply expr_reads.bind
  intro value
  apply Reads.expectOr.bind
  intro _
  exact Reads.expectOr.bind fun _ => .pure rfl

theorem returnStmt_reads (start : Nat) :
    Reads tokens before (returnStmt start) fun s => before ++ s.identifiers := by
  have hnone : Reads tokens before (pure none) fun value => before ++ (Stmt.ret start value).identifiers :=
    .pure (List.append_nil before)
  have hsome : Reads tokens before (some <$> expr)
      fun value => before ++ (Stmt.ret start value).identifiers := Reads.map expr_reads
  apply Reads.peek.bind
  intro _
  split
  · apply hnone.bind
    intro value
    exact Reads.expectOr.bind fun _ => .pure rfl
  · apply hsome.bind
    intro value
    exact Reads.expectOr.bind fun _ => .pure rfl

theorem exprStmt_reads : Reads tokens before exprStmt fun s => before ++ s.identifiers := by
  apply Reads.line.bind
  intro start
  apply expr_reads.bind
  intro value
  exact Reads.expectOr.bind fun _ => .pure rfl

mutual

theorem declWithin_reads : ∀ fuel before,
    Reads tokens before (declWithin fuel) fun d => before ++ d.identifiers
  | 0, _ => .unexpected
  | fuel + 1, before => by
    apply Reads.peek.bind
    intro _
    split
    · exact Reads.advance.bind fun t => binding_reads t.line
    · apply Reads.advance.bind
      intro _
      apply functionHeader_reads.bind
      intro header
      apply Reads.peek.bind
      intro _
      split
      · exact Reads.skip.bind fun _ => .pure rfl
      · refine (blockWithin_reads fuel _).bind fun body => .pure ?_
        rw [List.append_assoc]
        rfl
    · exact (stmtWithin_reads fuel before).bind fun s => .pure rfl

theorem stmtWithin_reads : ∀ fuel before,
    Reads tokens before (stmtWithin fuel) fun s => before ++ s.identifiers
  | 0, _ => .unexpected
  | fuel + 1, before => by
    apply Reads.peek.bind
    intro _
    split
    · exact Reads.advance.bind fun t => printStmt_reads t.line
    · exact Reads.advance.bind fun t => returnStmt_reads t.line
    · apply Reads.advance.bind
      intro _
      apply expr_reads.bind
      intro condition
      apply (stmtWithin_reads fuel _).bind
      intro thenBranch
      apply Reads.peek.bind
      intro _
      split
      · exact .pure (List.append_assoc ..).symm
      apply Reads.skip.bind
      intro _
      refine (stmtWithin_reads fuel _).bind fun elseBranch => .pure ?_
      simp [Stmt.identifiers]
    · apply Reads.advance.bind
      intro _
      apply expr_reads.bind
      intro condition
      exact (stmtWithin_reads fuel _).bind fun body => .pure (List.append_assoc ..).symm
    · apply Reads.advance.bind
      intro _
      apply (declWithin_reads fuel _).bind
      intro first
      apply expr_reads.bind
      intro condition
      apply Reads.expectOr.bind
      intro _
      apply Reads.line.bind
      intro stepLine
      apply expr_reads.bind
      intro step
      refine (stmtWithin_reads fuel _).bind fun body => .pure ?_
      simp [Stmt.identifiers]
    · apply Reads.line.bind
      intro _
      exact (blockWithin_reads fuel before).bind fun body => .pure rfl
    · exact .refuse
    · exact .refuse
    · exact exprStmt_reads

theorem blockWithin_reads : ∀ fuel before,
    Reads tokens before (blockWithin fuel) fun ds => before ++ Decl.identifiersOf ds
  | 0, _ => .unexpected
  | fuel + 1, before => Reads.expectOr.bind fun _ => blockRestWithin_reads fuel before

theorem blockRestWithin_reads : ∀ fuel before,
    Reads tokens before (blockRestWithin fuel) fun ds => before ++ Decl.identifiersOf ds
  | 0, _ => .unexpected
  | fuel + 1, before => by
    apply Reads.peek.bind
    intro _
    split
    · exact Reads.skip.bind fun _ => .pure (List.append_nil before)
    · exact .unexpected
    · apply (declWithin_reads fuel before).bind
      intro first
      exact (blockRestWithin_reads fuel _).bind fun rest => .pure (List.append_assoc ..).symm

end

theorem declsWithin_reads : ∀ fuel before,
    Reads tokens before (declsWithin fuel) fun ds => before ++ Decl.identifiersOf ds
  | 0, _ => .unexpected
  | fuel + 1, before => by
    apply Reads.peek.bind
    intro _
    split
    · exact .pure (List.append_nil before)
    apply (Reads.withFuel fun fuel => declWithin_reads fuel before).bind
    intro first
    exact (declsWithin_reads fuel _).bind fun rest => .pure (List.append_assoc ..).symm

end LexScript.Parse

namespace LexScript

/-- The tokens that a reader can see, up to the first end of file. -/
def Cursor.tokens (c : Cursor) : List Token := c.ahead ++ [c.stop]

namespace Program

theorem ofTokens_ends (tokens : List Token) :
    Parse.Ends (Cursor.start tokens).tokens Decl.identifiersOf
      ((Parse.withFuel Parse.declsWithin).run (.start tokens)) := by
  refine Parse.Reads.withFuel (fun fuel => Parse.declsWithin_reads fuel []) (.start tokens) ?_
  exact ⟨fun t ht => List.mem_append_left _ ht, List.mem_append_right _ (by simp), rfl, rfl⟩

/-- The identifiers of a program that is read are numbered in source order. -/
theorem ids_ofTokens {tokens : List Token} {program : Program} (h : ofTokens tokens = .ok program) :
    program.identifiers.map Identifier.id = List.range program.identifierCount := by
  have hends := ofTokens_ends tokens
  rw [ofTokens] at h
  cases hrun : (Parse.withFuel Parse.declsWithin).run (.start tokens) with
  | error e =>
    rw [hrun] at h
    cases h
  | ok p =>
    rw [hrun] at h hends
    obtain rfl := Except.ok.inj h
    have hbehind : Parse.Behind _ _ _ := hends
    simpa [identifiers, hbehind.next] using hbehind.ids

theorem DistinctIdentities.ofTokens {tokens : List Token} {program : Program}
    (h : ofTokens tokens = .ok program) : program.DistinctIdentities := by
  simpa [DistinctIdentities, ids_ofTokens h] using List.nodup_range

/-- A list of tokens that is no program is refused at one of its tokens. -/
theorem blames_of_ofTokens {tokens : List Token} {e : Error} (h : ofTokens tokens = .error e) :
    Parse.Blames (Cursor.start tokens).tokens e := by
  have hends := ofTokens_ends tokens
  rw [Program.ofTokens] at h
  cases hrun : (Parse.withFuel Parse.declsWithin).run (.start tokens) with
  | error e' =>
    rw [hrun] at h hends
    obtain rfl := Except.error.inj h
    exact hends
  | ok p =>
    rw [hrun] at h
    cases h

end Program
end LexScript
