import LexScript.Proofs.Parse.Levels
import LexScript.Proofs.Scope.Identifiers

/-!
# What has been read

What the reader of expressions has read is an expression of the grammar, at a level that is read above the
power it started with, up to a token that may follow this level: `Parse.exprWithin_sound`.
-/

namespace LexScript

theorem Expr.identifiersOf_singleton (e : Expr) : Expr.identifiersOf [e] = e.identifiers := by
  simp [identifiersOf]

/-- These tokens stand between the cursors, and these identifiers are numbered on the way. -/
structure Cursor.Takes (c : Cursor) (tokens : List Token) (identifiers : List Identifier)
    (c' : Cursor) : Prop where
  ahead : c.ahead = tokens ++ c'.ahead
  stop : c'.stop = c.stop
  ids : identifiers.map Identifier.id = List.range' c.nextId identifiers.length
  nextId : c'.nextId = c.nextId + identifiers.length

namespace Cursor.Takes

variable {c c' c'' : Cursor} {ts us : List Token} {is js : List Identifier} {t : Token}

theorem nil_iff : c.Takes [] [] c' ↔ c' = c := by
  constructor
  · intro h
    obtain ⟨ahead, stop, nextId⟩ := c
    obtain ⟨ahead', stop', nextId'⟩ := c'
    obtain rfl : ahead = ahead' := h.ahead
    obtain rfl : stop' = stop := h.stop
    obtain rfl : nextId' = nextId := h.nextId
    rfl
  · rintro rfl
    exact ⟨rfl, rfl, rfl, rfl⟩

theorem ids_append {n : Nat} :
    (is ++ js).map Identifier.id = List.range' n (is ++ js).length ↔
      is.map Identifier.id = List.range' n is.length ∧
        js.map Identifier.id = List.range' (n + is.length) js.length := by
  rw [List.map_append, List.length_append, ← List.range'_append_1]
  constructor
  · exact fun h => List.append_inj h (by simp)
  · rintro ⟨his, hjs⟩
    simp [his, hjs]

theorem append_iff : c.Takes (ts ++ us) (is ++ js) c'' ↔
    ∃ c', c.Takes ts is c' ∧ c'.Takes us js c'' := by
  constructor
  · rintro ⟨hahead, hstop, hids, hnext⟩
    obtain ⟨his, hjs⟩ := ids_append.1 hids
    refine ⟨⟨us ++ c''.ahead, c.stop, c.nextId + is.length⟩,
      ⟨by simp [hahead], rfl, his, rfl⟩, ⟨rfl, hstop, hjs, ?_⟩⟩
    simp [hnext, List.length_append, Nat.add_assoc]
  · rintro ⟨c', h, h'⟩
    refine ⟨by simp [h.ahead, h'.ahead], h'.stop.trans h.stop,
      ids_append.2 ⟨h.ids, h.nextId ▸ h'.ids⟩, ?_⟩
    simp [h'.nextId, h.nextId, List.length_append, Nat.add_assoc]

theorem cons_iff : c.Takes (t :: ts) is c' ↔
    c.ahead ≠ [] ∧ c.token = t ∧ c.next.Takes ts is c' := by
  obtain ⟨ahead, stop, nextId⟩ := c
  cases ahead with
  | nil => exact ⟨fun h => (nomatch h.ahead), fun h => absurd rfl h.1⟩
  | cons u us =>
    constructor
    · rintro ⟨hahead, hstop, hids, hnext⟩
      obtain ⟨rfl, rfl⟩ := List.cons.inj hahead
      exact ⟨nofun, rfl, rfl, hstop, hids, hnext⟩
    · rintro ⟨-, rfl, hahead, hstop, hids, hnext⟩
      exact ⟨congrArg (List.cons u) hahead, hstop, hids, hnext⟩

theorem concat_iff : c.Takes (ts ++ [t]) is c'' ↔
    ∃ c', c.Takes ts is c' ∧ c'.ahead ≠ [] ∧ c'.token = t ∧ c'' = c'.next := by
  have happend : c.Takes (ts ++ [t]) (is ++ []) c'' ↔
      ∃ c', c.Takes ts is c' ∧ c'.Takes [t] [] c'' := append_iff
  rw [List.append_nil] at happend
  simp only [happend, cons_iff, nil_iff]

/-- A name gets the next identity. -/
theorem name_iff {i : Identifier} : c.Takes [t] [i] c' ↔
    c.ahead ≠ [] ∧ c.token = t ∧ i.id = c.nextId ∧
      c' = { c.next with nextId := c.nextId + 1 } := by
  rw [cons_iff]
  refine and_congr_right fun _ => and_congr_right fun _ => ?_
  obtain ⟨ahead', stop', nextId'⟩ := c'
  constructor
  · rintro ⟨hahead, hstop, hids, hnext⟩
    obtain rfl : c.next.ahead = ahead' := hahead
    obtain rfl : stop' = c.next.stop := hstop
    obtain rfl : nextId' = c.next.nextId + 1 := hnext
    exact ⟨List.head_eq_of_cons_eq hids, rfl⟩
  · rintro ⟨hid, heq⟩
    obtain ⟨rfl, rfl, rfl⟩ := Cursor.mk.inj heq
    exact ⟨rfl, rfl, congrArg (· :: []) hid, rfl⟩

end Cursor.Takes

/-- The end of file is no token of an expression. -/
theorem Cursor.ahead_ne_nil {c : Cursor} (hstop : c.stop.kind = .eof) {kind : TokenKind}
    (hkind : c.token.kind = kind) (hne : kind ≠ .eof) : c.ahead ≠ [] := by
  intro hahead
  rw [token, hahead] at hkind
  exact hne (hkind.symm.trans hstop)

theorem Cursor.takes_token {c : Cursor} (hstop : c.stop.kind = .eof) {kind : TokenKind}
    (hkind : c.token.kind = kind) (hne : kind ≠ .eof) : c.Takes [c.token] [] c.next :=
  Takes.cons_iff.2 ⟨c.ahead_ne_nil hstop hkind hne, rfl, Takes.nil_iff.2 rfl⟩

/-- Between the cursors stands an expression of the level, and the next token may follow it. -/
structure Spans (level : Level) (tokens : List Token) (c : Cursor) (e : Expr) (c' : Cursor) : Prop where
  derives : Derives level tokens e
  takes : c.Takes tokens e.identifiers c'
  follows : Parse.power c'.token.kind ≤ level.follow

/-- Between the cursors stands an expression that is read above the power, up to a token that is not. -/
def SpansAbove (floor : Nat) (c : Cursor) (e : Expr) (c' : Cursor) : Prop :=
  ∃ level tokens, Spans level tokens c e c' ∧ floor ≤ level.floor ∧ Parse.power c'.token.kind ≤ floor

def SpansArguments (c : Cursor) (es : List Expr) (c' : Cursor) : Prop :=
  ∃ (arguments : List (List Token × Expr)) (tokens : List Token), es = arguments.map Prod.snd ∧
    Separated (arguments.map Prod.fst) tokens ∧
    (∀ argument ∈ arguments, Derives .assignment argument.1 argument.2) ∧
    c.Takes tokens (Expr.identifiersOf es) c'

/-- What is read above power 0 is an assignment. -/
theorem SpansAbove.assignment {c c' : Cursor} {e : Expr} (h : SpansAbove 0 c e c') :
    ∃ tokens, Derives .assignment tokens e ∧ c.Takes tokens e.identifiers c' := by
  obtain ⟨level, tokens, hspans, -, -⟩ := h
  exact ⟨tokens, hspans.derives.lift (Nat.zero_le _), hspans.takes⟩

namespace Parse

/-- Any token may follow an operand of one token or in parentheses. -/
theorem power_le_primary (kind : TokenKind) : power kind ≤ Level.primary.follow := by
  cases kind <;> decide

theorem power_le_call (kind : TokenKind) : power kind ≤ Level.call.follow := by
  cases kind <;> decide

/-- One token is an operand. -/
theorem spans_token {c : Cursor} (hstop : c.stop.kind = .eof) {kind : TokenKind}
    (hkind : c.token.kind = kind) (hne : kind ≠ .eof) {e : Expr} (hderives : Derives .primary [c.token] e)
    (hids : e.identifiers = []) : Spans .primary [c.token] c e c.next where
  derives := hderives
  takes := by rw [hids]; exact c.takes_token hstop hkind hne
  follows := power_le_primary _

mutual

theorem exprWithin_sound : ∀ {fuel floor c e c'}, c.stop.kind = .eof → floor ≤ unaryPower →
    exprWithin fuel floor c = .ok (e, c') → SpansAbove floor c e c'
  | 0, _, _, _, _, _, _, h => nomatch h
  | fuel + 1, floor, c, e, c', hstop, hfloor, h => by
    obtain ⟨left, c₁, hleft, hrest⟩ := exprWithin_eq_ok.1 h
    obtain ⟨level, tokens, hspans, hlevel⟩ := operandWithin_sound hstop hleft
    exact extendWithin_sound hstop hfloor hspans (Nat.le_trans hfloor hlevel) hrest

theorem operandWithin_sound : ∀ {fuel c e c'}, c.stop.kind = .eof →
    operandWithin fuel c = .ok (e, c') →
      ∃ level tokens, Spans level tokens c e c' ∧ unaryPower ≤ level.floor
  | 0, _, _, _, _, h => nomatch h
  | fuel + 1, c, e, c', hstop, h => by
    cases operandWithin_eq_ok.1 h with
    | number kind value =>
      exact ⟨_, _, spans_token hstop kind (by decide) (.number kind value) rfl, by decide⟩
    | string kind => exact ⟨_, _, spans_token hstop kind (by decide) (.string kind) rfl, by decide⟩
    | isTrue kind => exact ⟨_, _, spans_token hstop kind (by decide) (.isTrue kind) rfl, by decide⟩
    | isFalse kind => exact ⟨_, _, spans_token hstop kind (by decide) (.isFalse kind) rfl, by decide⟩
    | name kind =>
      refine ⟨.primary, [c.token], ⟨.name kind c.nextId, ?_, power_le_primary _⟩, by decide⟩
      exact Cursor.Takes.name_iff.2 ⟨c.ahead_ne_nil hstop kind (by decide), rfl, rfl, rfl⟩
    | unary operates operand =>
      obtain ⟨level, tokens, hspans, hlevel, hfollows⟩ :=
        exprWithin_sound (c := c.next) hstop (Nat.le_refl unaryPower) operand
      have hsign : c.token.kind ≠ .eof := by
        intro heof
        rw [heof] at operates
        cases operates
      have hunary : Level.unary.follow ≤ level.follow := by
        revert hlevel
        cases level <;> decide
      refine ⟨.unary, c.token :: tokens, ⟨.unary operates (hspans.derives.lift hunary), ?_, hfollows⟩,
        by decide⟩
      exact Cursor.Takes.cons_iff.2 ⟨c.ahead_ne_nil hstop rfl hsign, rfl, hspans.takes⟩
    | group opens inner closes =>
      obtain ⟨tokens, hderives, htakes⟩ :=
        (exprWithin_sound (c := c.next) hstop (Nat.zero_le _) inner).assignment
      rename_i c₁
      have hstop₁ : c₁.stop.kind = .eof := by rw [htakes.stop]; exact hstop
      refine ⟨.primary, c.token :: (tokens ++ [c₁.token]), ⟨.group opens hderives closes, ?_,
        power_le_primary _⟩, by decide⟩
      refine Cursor.Takes.cons_iff.2 ⟨c.ahead_ne_nil hstop opens (by decide), rfl, ?_⟩
      exact Cursor.Takes.concat_iff.2
        ⟨c₁, htakes, c₁.ahead_ne_nil hstop₁ closes (by decide), rfl, rfl⟩

theorem extendWithin_sound : ∀ {fuel floor c₀ left c level tokens e c'}, c₀.stop.kind = .eof →
    floor ≤ unaryPower → Spans level tokens c₀ left c → floor ≤ level.floor →
    extendWithin fuel floor left c = .ok (e, c') → SpansAbove floor c₀ e c'
  | 0, _, _, _, _, _, _, _, _, _, _, _, _, h => nomatch h
  | fuel + 1, floor, c₀, left, c, level, tokens, e, c', hstop, hfloor, hspans, hlevel, h => by
    have hstopc : c.stop.kind = .eof := by simpa [hspans.takes.stop] using hstop
    cases extendWithin_eq_ok.1 h with
    | stop weak result =>
      cases result
      exact ⟨level, tokens, hspans, hlevel, weak⟩
    | @operation operator right c₁ strong operates second rest =>
      -- The left operand is taken up to the level of the operator.
      obtain ⟨around, inner, hinner, hoperator⟩ := Level.exists_operator? operates
      obtain ⟨-, hpower, -, haround⟩ := Level.operator?_eq_some hoperator
      have hfollows := hspans.follows
      rw [hpower] at strong second hfollows
      have hstop₁ : c.next.stop.kind = .eof := hstopc
      obtain ⟨level', tokens', hright, hlevel', hfollows'⟩ := exprWithin_sound hstop₁ haround second
      have hinner' := Level.follow_inner_le hoperator hinner hlevel'
      have hsign : c.token.kind ≠ .eof := by
        intro heof
        rw [heof] at operates
        cases operates
      have htakes : c₀.Takes (tokens ++ c.token :: tokens') (left.identifiers ++ right.identifiers) c₁ :=
        Cursor.Takes.append_iff.2 ⟨c, hspans.takes,
          Cursor.Takes.cons_iff.2 ⟨c.ahead_ne_nil hstopc rfl hsign, rfl, hright.takes⟩⟩
      have hlonger : Spans around (tokens ++ c.token :: tokens') c₀ (.binary operator left right) c₁ :=
        ⟨.operation hinner (hspans.derives.lift hfollows) hoperator (hright.derives.lift hinner'),
          htakes, hfollows'⟩
      have haround' := Nat.lt_of_lt_of_le strong around.follow_le_succ_floor
      exact extendWithin_sound hstop hfloor hlonger (Nat.le_of_lt_succ haround') rest
    | @call arguments c₁ strong opens passed closes rest =>
      have hstop₁ : c.next.stop.kind = .eof := hstopc
      obtain ⟨parts, tokens', rfl, hseparated, hparts, htakes⟩ := argumentsWithin_sound hstop₁ passed
      have hstop₂ : c₁.stop.kind = .eof := by simpa [htakes.stop] using hstop₁
      have hfollows := hspans.follows
      rw [opens] at hfollows
      have hpassed : c.Takes (c.token :: (tokens' ++ [c₁.token]))
          (Expr.identifiersOf (parts.map Prod.snd)) c₁.next :=
        Cursor.Takes.cons_iff.2 ⟨c.ahead_ne_nil hstopc opens (by decide), rfl,
          Cursor.Takes.concat_iff.2
            ⟨c₁, htakes, c₁.ahead_ne_nil hstop₂ closes (by decide), rfl, rfl⟩⟩
      have hlonger : Spans .call (tokens ++ c.token :: (tokens' ++ [c₁.token])) c₀
          (.call left (parts.map Prod.snd)) c₁.next :=
        ⟨.call (hspans.derives.lift hfollows) opens hseparated hparts closes,
          Cursor.Takes.append_iff.2 ⟨c, hspans.takes, hpassed⟩, power_le_call _⟩
      exact extendWithin_sound hstop hfloor hlonger hfloor rest
    | @assign target value c₁ strong assigns named right rest =>
      have hstop₁ : c.next.stop.kind = .eof := hstopc
      obtain ⟨level', tokens', hright, -, hfollows⟩ := exprWithin_sound hstop₁ (Nat.zero_le _) right
      rw [assigns] at strong
      have hzero : floor = 0 := Nat.lt_one_iff.1 strong
      subst named
      have htakes : c₀.Takes (tokens ++ c.token :: tokens') (target :: value.identifiers) c₁ :=
        Cursor.Takes.append_iff.2 ⟨c, hspans.takes, Cursor.Takes.cons_iff.2
          ⟨c.ahead_ne_nil hstopc assigns (by decide), rfl, hright.takes⟩⟩
      have hlonger : Spans .assignment (tokens ++ c.token :: tokens') c₀ (.assign target value) c₁ :=
        ⟨.assign (hspans.derives.target rfl) assigns (hright.derives.lift (Nat.zero_le _)), htakes,
          hfollows⟩
      exact extendWithin_sound hstop hfloor hlonger (Nat.le_of_eq hzero) rest

theorem argumentsWithin_sound : ∀ {fuel c es c'}, c.stop.kind = .eof →
    argumentsWithin fuel c = .ok (es, c') → SpansArguments c es c'
  | 0, _, _, _, _, h => nomatch h
  | fuel + 1, c, es, c', hstop, h => by
    rcases argumentsWithin_eq_ok.1 h with ⟨-, heq⟩ | ⟨-, hsome⟩
    · cases heq
      exact ⟨[], [], rfl, .none, nofun, Cursor.Takes.nil_iff.2 rfl⟩
    · exact (someArgumentsWithin_sound hstop hsome).2

theorem someArgumentsWithin_sound : ∀ {fuel c es c'}, c.stop.kind = .eof →
    someArgumentsWithin fuel c = .ok (es, c') → es ≠ [] ∧ SpansArguments c es c'
  | 0, _, _, _, _, h => nomatch h
  | fuel + 1, c, es, c', hstop, h => by
    obtain ⟨first, c₁, hfirst, hrest⟩ := someArgumentsWithin_eq_ok.1 h
    obtain ⟨tokens, hderives, htakes⟩ := (exprWithin_sound hstop (Nat.zero_le _) hfirst).assignment
    rcases hrest with ⟨-, heq⟩ | ⟨hcomma, rest, c₂, hrest, heq⟩
    · cases heq
      refine ⟨nofun, [(tokens, first)], tokens, rfl, .one tokens, ?_, ?_⟩
      · exact List.forall_mem_singleton.2 hderives
      · rw [Expr.identifiersOf_singleton]
        exact htakes
    · cases heq
      have hstop₁ : c₁.stop.kind = .eof := by simpa [htakes.stop] using hstop
      obtain ⟨hne, parts, tokens', rfl, hseparated, hparts, htakes'⟩ :=
        someArgumentsWithin_sound (c := c₁.next) hstop₁ hrest
      cases parts with
      | nil => exact absurd rfl hne
      | cons part parts =>
        refine ⟨nofun, (tokens, first) :: part :: parts, tokens ++ c₁.token :: tokens', rfl,
          .more tokens hcomma hseparated, List.forall_mem_cons.2 ⟨hderives, hparts⟩, ?_⟩
        exact Cursor.Takes.append_iff.2 ⟨c₁, htakes, Cursor.Takes.cons_iff.2
          ⟨c₁.ahead_ne_nil hstop₁ hcomma (by decide), rfl, htakes'⟩⟩

end

end Parse
end LexScript
