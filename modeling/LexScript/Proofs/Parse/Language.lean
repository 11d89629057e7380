import LexScript.Proofs.Parse.Completeness

/-!
# The language that is read

A list of tokens with an end of file behind it is read as a program exactly if it is one by the grammar as it
is read: `Program.ofTokens_accepts`. That grammar is the documented one up to lists that end in a comma and
expressions that a statement follows directly.
-/

namespace LexScript

namespace Parse

/-- Reading declarations stops at the end of file only. -/
theorem declsWithin_ends {fuel : Nat} {c c' : Cursor} {xs : List Decl}
    (h : declsWithin fuel c = .ok (xs, c')) : c'.token.kind = .eof := by
  induction fuel generalizing c xs with
  | zero => cases h
  | succ fuel ih =>
    rw [declsWithin, Parse.peek_bind] at h
    split at h
    · rename_i heof
      cases h
      exact heof
    · obtain ⟨first, c₁, -, h⟩ := bind_eq_ok.1 h
      obtain ⟨others, c₂, hmore, h⟩ := bind_eq_ok.1 h
      cases h
      exact ih hmore

end Parse

theorem Cursor.start_append_stop {tokens : List Token} {stop : Token} (htokens : ∀ t ∈ tokens, t.kind ≠ .eof)
    (hstop : stop.kind = .eof) : Cursor.start (tokens ++ [stop]) = ⟨tokens, stop, 0⟩ := by
  have hahead : (tokens ++ [stop]).takeWhile (·.kind ≠ .eof) = tokens := by
    rw [List.takeWhile_append_of_pos (by simpa using htokens)]
    simp [hstop]
  have hfind : (tokens ++ [stop]).find? (·.kind = .eof) = some stop := by
    rw [List.find?_append, List.find?_eq_none.2 (by simpa using htokens)]
    simp [hstop]
  rw [Cursor.start, hahead, hfind]
  rfl

namespace Program

/-- A program is read where its declarations are. -/
theorem ofTokens_eq_ok {tokens : List Token} {p : Program} : ofTokens tokens = .ok p ↔
    ∃ c, Parse.withFuel Parse.declsWithin (.start tokens) = .ok (p.declarations, c) ∧
      p.identifierCount = c.nextId := by
  change ((Parse.withFuel Parse.declsWithin) (.start tokens) >>= fun r =>
    (pure ⟨r.1, r.2.nextId⟩ : Except Error Program)) = .ok p ↔ _
  cases Parse.withFuel Parse.declsWithin (.start tokens) with
  | error e => exact ⟨nofun, fun ⟨_, h, _⟩ => nomatch h⟩
  | ok r =>
    constructor
    · intro h
      cases h
      exact ⟨r.2, rfl, rfl⟩
    · rintro ⟨c, h, hcount⟩
      cases h
      exact congrArg Except.ok (congrArg (Program.mk _) hcount.symm)

/-- Up to its end of file, a list of tokens is read as a program exactly if it is one by the grammar as it is
read: by the documented productions, where a list of parameters or types may end in a comma, and where no
statement that directly follows an expression begins with a token that could go on with it. A number that can
not be read is no expression of either grammar. -/
theorem ofTokens_accepts (tokens : List Token) (stop : Token) (htokens : ∀ t ∈ tokens, t.kind ≠ .eof)
    (hstop : stop.kind = .eof) :
    (∃ p, ofTokens (tokens ++ [stop]) = .ok p) ↔ ∃ ds, Spells .effective (.declarations ds) tokens := by
  have hstart := Cursor.start_append_stop htokens hstop
  constructor
  · rintro ⟨p, hread⟩
    obtain ⟨c, hread, -⟩ := ofTokens_eq_ok.1 hread
    rw [hstart] at hread
    have hread : Parse.declsWithin (8 * tokens.length + 8) ⟨tokens, stop, 0⟩ = .ok (p.declarations, c) := hread
    obtain ⟨ts, hpasses, hspells⟩ := Parse.declsWithin_meets _ _ hstop _ _ hread
    have hahead : c.ahead = [] := by
      refine List.eq_nil_iff_forall_not_mem.2 fun t ht => ?_
      obtain ⟨u, rest, hc⟩ := List.exists_cons_of_ne_nil (List.ne_nil_of_mem ht)
      have heof := Parse.declsWithin_ends hread
      rw [Cursor.token, hc] at heof
      refine htokens u ?_ heof
      rw [show tokens = ts ++ c.ahead from hpasses.ahead, hc]
      exact List.mem_append_right _ (List.mem_cons_self ..)
    have htokens : tokens = ts ++ c.ahead := hpasses.ahead
    rw [hahead, List.append_nil] at htokens
    exact ⟨p.declarations, htokens ▸ hspells⟩
  · rintro ⟨ds, hspells⟩
    obtain ⟨xs, hxs, hsettled⟩ := hspells.settles
    have haccepts : Parse.Accepts (Parse.withFuel Parse.declsWithin) tokens [] stop :=
      .withFuel fun fuel hfuel => Parse.declsWithin_accepts hstop hxs hsettled (by omega)
    obtain ⟨ys, n, hread⟩ := haccepts 0
    rw [List.append_nil] at hread
    exact ⟨⟨ys, n⟩, ofTokens_eq_ok.2 ⟨⟨[], stop, n⟩, by simpa [hstart] using hread, rfl⟩⟩

end Program

/-- The tokens of a function with a comma behind its parameter, and of two ifs before one else. -/
def Token.danglingSample : List Token :=
  [⟨.fnWord, "fn", 1⟩, ⟨.identifier, "f", 1⟩, ⟨.openParen, "(", 1⟩, ⟨.identifier, "a", 1⟩, ⟨.colon, ":", 1⟩,
    ⟨.identifier, "bool", 1⟩, ⟨.comma, ",", 1⟩, ⟨.closeParen, ")", 1⟩, ⟨.openCurly, "\x7b", 1⟩, ⟨.ifWord, "if", 1⟩,
    ⟨.identifier, "a", 1⟩, ⟨.ifWord, "if", 1⟩, ⟨.identifier, "a", 1⟩, ⟨.openCurly, "\x7b", 1⟩,
    ⟨.closeCurly, "\x7d", 1⟩, ⟨.elseWord, "else", 1⟩, ⟨.dash, "-", 1⟩, ⟨.number, "1", 1⟩, ⟨.semicolon, ";", 1⟩,
    ⟨.closeCurly, "\x7d", 1⟩]

/-- The sample is a program by the grammar as it is read, since it is read. -/
theorem Program.ofTokens_accepts_danglingSample :
    ((∀ t ∈ Token.danglingSample, t.kind ≠ .eof) ∧ (Token.endOfFile 1).kind = .eof) ∧
      ∃ ds, Spells .effective (.declarations ds) Token.danglingSample := by
  have htokens : ∀ t ∈ Token.danglingSample, t.kind ≠ .eof := by decide
  exact ⟨⟨htokens, rfl⟩, (ofTokens_accepts Token.danglingSample (.endOfFile 1) htokens rfl).1 ⟨_, rfl⟩⟩

def EndsInComma (tokens : List Token) : Prop := ∃ t, tokens.getLast? = some t ∧ t.kind = .comma

namespace EndsInComma

variable {ts us : List Token} {t : Token}

@[simp] theorem nil_iff : EndsInComma [] ↔ False := by simp [EndsInComma]

@[simp] theorem append_iff : EndsInComma (ts ++ us) ↔ EndsInComma us ∨ us = [] ∧ EndsInComma ts := by
  cases us <;> simp [EndsInComma]

@[simp] theorem cons_iff : EndsInComma (t :: ts) ↔ EndsInComma ts ∨ ts = [] ∧ t.kind = .comma := by
  cases ts <;> simp [EndsInComma]

end EndsInComma

theorem SpellsType.not_endsInComma {d : Dialect} {phrase : TypePhrase} {tokens : List Token}
    (h : SpellsType d phrase tokens) : ¬ EndsInComma tokens := by
  induction h with
  | number kind | boolean kind | string kind => simp [kind]
  | function begins opens listed each closes returned _ ih => simp [closes, ih]
  | nothing => simp
  | arrow points spells ih => simp [points, ih]

theorem SpellsParameter.not_endsInComma {d : Dialect} {p : Parameter} {tokens : List Token}
    (h : SpellsParameter d p tokens) : ¬ EndsInComma tokens := by
  obtain ⟨kind, id, separates, spells⟩ := h
  simp [spells.not_endsInComma, separates]

/-- A list of the documented grammar ends in a comma only if its last part does. -/
theorem Listed.not_endsInComma {parts : List (List Token)} {tokens : List Token}
    (h : Listed .documented parts tokens) (hparts : ∀ part ∈ parts, part ≠ [] ∧ ¬ EndsInComma part) :
    ¬ EndsInComma tokens := by
  induction h with
  | none => simp
  | last part => exact (hparts part (List.mem_singleton_self _)).2
  | final part allowed => cases allowed
  | @more comma rest next parts part separates after ih =>
    have hmore := (List.forall_mem_cons.1 hparts).2
    have hrest : rest ≠ [] := by
      cases after with
      | last => exact (hmore _ (List.mem_singleton_self _)).1
      | final | more => simp
    simp [ih hmore, hrest]

/-- The tokens of an if whose condition could go on with the statement behind it. -/
def Token.conditionSample : List Token :=
  [⟨.ifWord, "if", 1⟩, ⟨.identifier, "x", 1⟩, ⟨.openParen, "(", 1⟩, ⟨.identifier, "y", 1⟩,
    ⟨.closeParen, ")", 1⟩, ⟨.semicolon, ";", 1⟩]

def Token.commaSample : List Token :=
  [⟨.fnWord, "fn", 1⟩, ⟨.identifier, "f", 1⟩, ⟨.openParen, "(", 1⟩, ⟨.identifier, "a", 1⟩, ⟨.colon, ":", 1⟩,
    ⟨.identifier, "number", 1⟩, ⟨.comma, ",", 1⟩, ⟨.closeParen, ")", 1⟩, ⟨.semicolon, ";", 1⟩]

theorem conditionSample_documented :
    ∃ ds, Spells .documented (.declarations ds) Token.conditionSample := by
  have hname : ∀ (t : Token) (id : Nat), t.kind = .identifier → Derives .assignment [t] (.name ⟨t.value, id⟩) :=
    fun t id ht => (Derives.name ht id).lift (by decide)
  have hgroup : Derives .assignment [⟨.openParen, "(", 1⟩, ⟨.identifier, "y", 1⟩, ⟨.closeParen, ")", 1⟩]
      (.name ⟨"y", 1⟩) := (Derives.group rfl (hname ⟨.identifier, "y", 1⟩ 1 rfl) rfl).lift (by decide)
  have hbranch : Spells .documented (.statement (.expression 1 (.name ⟨"y", 1⟩)))
      [⟨.openParen, "(", 1⟩, ⟨.identifier, "y", 1⟩, ⟨.closeParen, ")", 1⟩, ⟨.semicolon, ";", 1⟩] :=
    .expression hgroup rfl rfl
  have hword : (⟨.ifWord, "if", 1⟩ : Token).kind = .ifWord := rfl
  have hif : Spells .documented (.statement (.ifThen 1 (.name ⟨"x", 0⟩) _)) Token.conditionSample :=
    .ifThen hword (hname ⟨.identifier, "x", 1⟩ 0 rfl) (fun hgreedy => absurd hgreedy (by decide)) hbranch
  exact ⟨_, .cons (.statement hif) .nil⟩

/-- The only closing parenthesis of the sample comes behind the comma. -/
theorem commaSample_header {h : FunctionHeader} {header rest : List Token}
    (hspells : SpellsHeader .documented h header) : Token.commaSample ≠ ⟨.fnWord, "fn", 1⟩ :: (header ++ rest) := by
  intro heq
  obtain @⟨name, opening, closing, parameters, tokens, result, r, kind, id, opens, listed, each, closes,
    returned⟩ := hspells
  have hlast : ¬ EndsInComma tokens := by
    refine listed.not_endsInComma fun part hpart => ?_
    obtain ⟨p, hp, rfl⟩ := List.mem_map.1 hpart
    obtain ⟨t, after, hpart, -⟩ := (each p hp).begins
    exact ⟨by rw [hpart]; exact List.cons_ne_nil t after, (each p hp).not_endsInComma⟩
  have htail : Token.commaSample.drop 3 = tokens ++ closing :: (result ++ rest) := by
    rw [heq]
    simp
  have hclosing : (Token.commaSample.drop 3)[tokens.length]? = some closing := by
    rw [htail]
    simp
  have honly : ∀ n < 6, ∀ t ∈ (Token.commaSample.drop 3)[n]?, t.kind = .closeParen → n = 4 := by decide
  have hlength : tokens.length = 4 :=
    honly _ (List.getElem?_eq_some_iff.1 hclosing).1 closing hclosing closes
  have htokens : tokens = (Token.commaSample.drop 3).take 4 := by
    simp [htail, ← hlength]
  rw [htokens] at hlast
  exact hlast ⟨_, rfl, rfl⟩

theorem commaSample_undocumented :
    ¬ ∃ ds, Spells .documented (.declarations ds) Token.commaSample := by
  rintro ⟨ds, h⟩
  generalize hts : Token.commaSample = ts at h
  cases h with
  | nil => cases hts
  | cons first more =>
    obtain ⟨t, after, rfl, ht⟩ := first.begins_declaration
    obtain rfl : (⟨.fnWord, "fn", 1⟩ : Token) = t := List.head_eq_of_cons_eq hts
    generalize hfirst : _ :: after = us at first
    cases first with
    | binding begins =>
      obtain rfl := List.head_eq_of_cons_eq hfirst
      cases begins
    | function begins headed | forward begins headed =>
      obtain rfl := List.tail_eq_of_cons_eq hfirst
      rw [List.cons_append, List.append_assoc] at hts
      exact commaSample_header headed hts
    | statement spells =>
      obtain ⟨t, after', rfl, ht⟩ := spells.begins_statement
      obtain rfl := List.head_eq_of_cons_eq hfirst
      cases ht

/-- The grammar that is read is not the documented one. A condition takes in what could belong to it, so that
the statement behind it is missing, and a list of parameters may end in a comma. -/
theorem Program.ofTokens_not_documented :
    ((∃ ds, Spells .documented (.declarations ds) Token.conditionSample) ∧
        ofTokens (Token.conditionSample ++ [.endOfFile 1]) = .error ⟨.unexpectedToken ";", 1⟩) ∧
      (¬ ∃ ds, Spells .documented (.declarations ds) Token.commaSample) ∧
        ∃ p, ofTokens (Token.commaSample ++ [.endOfFile 1]) = .ok p :=
  ⟨⟨conditionSample_documented, rfl⟩, commaSample_undocumented, _, rfl⟩

end LexScript
