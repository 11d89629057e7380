import LexScript.Parse.Expr
import LexScript.Proofs.Parse.Grammar

/-!
# How expressions are read

What the readers of expressions do when they succeed, one step at a time: `operandWithin_eq_ok`,
`extendWithin_eq_ok` and the lemmas beside them. Nothing else needs to look at how the readers are
written.
-/

namespace LexScript.Parse

variable {α β : Type} {fuel floor : Nat} {c : Cursor}

theorem bind_eq_ok {reader : Parse α} {f : α → Parse β} {r : β × Cursor} :
    (reader >>= f) c = .ok r ↔ ∃ a c', reader c = .ok (a, c') ∧ f a c' = .ok r := by
  change (reader c >>= fun p => f p.1 p.2) = .ok r ↔ _
  cases reader c with
  | error e => exact ⟨nofun, fun ⟨_, _, h, _⟩ => nomatch h⟩
  | ok p =>
    refine ⟨fun h => ⟨p.1, p.2, rfl, h⟩, ?_⟩
    rintro ⟨a, c', h, hr⟩
    obtain rfl := Except.ok.inj h
    exact hr

theorem peek_bind (f : TokenKind → Parse β) (c : Cursor) : (peek >>= f) c = f c.token.kind c := rfl

theorem advance_bind (f : Token → Parse β) (c : Cursor) : (advance >>= f) c = f c.token c.next := rfl

theorem skip_bind (f : Unit → Parse β) (c : Cursor) : (skip >>= f) c = f () c.next := rfl

theorem expectOr_eq_ok {kind : TokenKind} {message : String} {u : Unit} {c' : Cursor} :
    expectOr kind message c = .ok (u, c') ↔ c.token.kind = kind ∧ c' = c.next := by
  rw [expectOr, peek_bind]
  split
  · rename_i hkind
    exact ⟨fun h => ⟨hkind, (congrArg Prod.snd (Except.ok.inj h)).symm⟩, fun h => h.2 ▸ rfl⟩
  · rename_i hkind
    exact ⟨nofun, fun h => absurd h.1 hkind⟩

theorem exprWithin_eq_ok {r : Expr × Cursor} :
    exprWithin (fuel + 1) floor c = .ok r ↔
      ∃ left c', operandWithin fuel c = .ok (left, c') ∧ extendWithin fuel floor left c' = .ok r := by
  rw [exprWithin]
  exact bind_eq_ok

inductive Operand (fuel : Nat) (c : Cursor) : Expr × Cursor → Prop
  | number {x : Float} (kind : c.token.kind = .number) (value : Number.ofText? c.token.value = some x) :
    Operand fuel c (.literal (.number x), c.next)
  | string (kind : c.token.kind = .string) : Operand fuel c (.literal (.string c.token.value), c.next)
  | isTrue (kind : c.token.kind = .trueWord) : Operand fuel c (.literal (.boolean true), c.next)
  | isFalse (kind : c.token.kind = .falseWord) : Operand fuel c (.literal (.boolean false), c.next)
  | name (kind : c.token.kind = .identifier) :
    Operand fuel c (.name ⟨c.token.value, c.nextId⟩, { c.next with nextId := c.nextId + 1 })
  | unary {operator : UnaryOperator} {e : Expr} {c' : Cursor}
    (operates : c.token.kind.sign? = some operator)
    (operand : exprWithin fuel unaryPower c.next = .ok (e, c')) : Operand fuel c (.unary operator e, c')
  | group {e : Expr} {c' : Cursor} (opens : c.token.kind = .openParen)
    (inner : exprWithin fuel 0 c.next = .ok (e, c')) (closes : c'.token.kind = .closeParen) :
    Operand fuel c (e, c'.next)

theorem operandWithin_eq_ok {r : Expr × Cursor} :
    operandWithin (fuel + 1) c = .ok r ↔ Operand fuel c r := by
  rw [operandWithin, peek_bind]
  constructor
  · intro h
    cases hkind : c.token.kind with
    | number =>
      simp only [hkind, advance_bind] at h
      cases hvalue : Number.ofText? c.token.value with
      | none =>
        rw [hvalue] at h
        cases h
      | some x =>
        rw [hvalue] at h
        cases h
        exact .number hkind hvalue
    | string =>
      simp only [hkind, advance_bind] at h
      cases h
      exact .string hkind
    | trueWord =>
      simp only [hkind, skip_bind] at h
      cases h
      exact .isTrue hkind
    | falseWord =>
      simp only [hkind, skip_bind] at h
      cases h
      exact .isFalse hkind
    | identifier =>
      simp only [hkind, advance_bind] at h
      cases h
      exact .name hkind
    | dash | not =>
      simp only [hkind, skip_bind] at h
      obtain ⟨e, c', he, h⟩ := bind_eq_ok.1 h
      cases h
      exact .unary (by rw [hkind]; rfl) he
    | openParen =>
      simp only [hkind, skip_bind] at h
      obtain ⟨e, c', he, h⟩ := bind_eq_ok.1 h
      obtain ⟨_, c'', hclose, h⟩ := bind_eq_ok.1 h
      obtain ⟨hcloses, rfl⟩ := expectOr_eq_ok.1 hclose
      cases h
      exact .group hkind he hcloses
    | _ =>
      simp only [hkind] at h
      cases h
  · intro h
    cases h with
    | number kind value =>
      simp only [kind, advance_bind, value]
      rfl
    | string kind | isTrue kind | isFalse kind | name kind =>
      rw [kind]
      rfl
    | unary operates operand =>
      cases hkind : c.token.kind with
      | dash | not =>
        rw [hkind] at operates
        cases operates
        simp only [skip_bind]
        exact bind_eq_ok.2 ⟨_, _, operand, rfl⟩
      | _ =>
        rw [hkind] at operates
        cases operates
    | group opens inner closes =>
      simp only [opens, skip_bind]
      exact bind_eq_ok.2 ⟨_, _, inner, bind_eq_ok.2 ⟨(), _, expectOr_eq_ok.2 ⟨closes, rfl⟩, rfl⟩⟩

inductive Extension (fuel floor : Nat) (left : Expr) (c : Cursor) (r : Expr × Cursor) : Prop
  | stop (weak : power c.token.kind ≤ floor) (result : r = (left, c))
  | operation {operator : BinaryOperator} {right : Expr} {c' : Cursor}
    (strong : floor < power c.token.kind) (operates : binaryOperator? c.token.kind = some operator)
    (second : exprWithin fuel (power c.token.kind) c.next = .ok (right, c'))
    (rest : extendWithin fuel floor (.binary operator left right) c' = .ok r)
  | call {arguments : List Expr} {c' : Cursor} (strong : floor < power c.token.kind)
    (opens : c.token.kind = .openParen) (passed : argumentsWithin fuel c.next = .ok (arguments, c'))
    (closes : c'.token.kind = .closeParen)
    (rest : extendWithin fuel floor (.call left arguments) c'.next = .ok r)
  | assign {target : Identifier} {value : Expr} {c' : Cursor} (strong : floor < power c.token.kind)
    (assigns : c.token.kind = .assignment) (named : left = .name target)
    (right : exprWithin fuel 0 c.next = .ok (value, c'))
    (rest : extendWithin fuel floor (.assign target value) c' = .ok r)

theorem kind_of_power {kind : TokenKind} (hpower : 0 < power kind)
    (hoperator : binaryOperator? kind = none) (hparen : kind ≠ .openParen) : kind = .assignment := by
  revert hpower hoperator hparen
  cases kind <;> decide

theorem extendWithin_eq_ok {left : Expr} {r : Expr × Cursor} :
    extendWithin (fuel + 1) floor left c = .ok r ↔ Extension fuel floor left c r := by
  rw [extendWithin, peek_bind]
  constructor
  · intro h
    split at h
    · rename_i hweak
      exact .stop hweak (Except.ok.inj h).symm
    rename_i hstrong
    have hstrong := Nat.lt_of_not_le hstrong
    rw [advance_bind] at h
    cases hoperator : binaryOperator? c.token.kind with
    | some operator =>
      rw [hoperator] at h
      obtain ⟨right, c', hright, h⟩ := bind_eq_ok.1 h
      exact .operation hstrong hoperator hright h
    | none =>
      rw [hoperator] at h
      simp only at h
      split at h
      · rename_i hopens
        obtain ⟨arguments, c', harguments, h⟩ := bind_eq_ok.1 h
        obtain ⟨_, c'', hclose, h⟩ := bind_eq_ok.1 h
        obtain ⟨hcloses, rfl⟩ := expectOr_eq_ok.1 hclose
        exact .call hstrong hopens harguments hcloses h
      rename_i hparen
      have hassigns := kind_of_power (Nat.zero_lt_of_lt hstrong) hoperator hparen
      split at h
      · obtain ⟨value, c', hvalue, h⟩ := bind_eq_ok.1 h
        exact .assign hstrong hassigns rfl hvalue h
      · cases h
  · intro h
    cases h with
    | stop weak result =>
      rw [if_pos weak, result]
      rfl
    | operation strong operates second rest =>
      simpa [Nat.not_le_of_lt strong, advance_bind, operates] using bind_eq_ok.2 ⟨_, _, second, rest⟩
    | call strong opens passed closes rest =>
      rw [if_neg (Nat.not_le_of_lt strong), advance_bind, opens]
      exact bind_eq_ok.2 ⟨_, _, passed, bind_eq_ok.2 ⟨(), _, expectOr_eq_ok.2 ⟨closes, rfl⟩, rest⟩⟩
    | assign strong assigns named right rest =>
      rw [if_neg (Nat.not_le_of_lt strong), advance_bind, assigns, named]
      exact bind_eq_ok.2 ⟨_, _, right, rest⟩

theorem argumentsWithin_eq_ok {r : List Expr × Cursor} :
    argumentsWithin (fuel + 1) c = .ok r ↔
      (c.token.kind = .closeParen ∧ r = ([], c)) ∨
        (c.token.kind ≠ .closeParen ∧ someArgumentsWithin fuel c = .ok r) := by
  rw [argumentsWithin, peek_bind]
  split
  · rename_i hkind
    constructor
    · exact fun h => .inl ⟨hkind, (Except.ok.inj h).symm⟩
    · rintro (⟨-, rfl⟩ | ⟨hne, -⟩)
      · rfl
      · exact absurd hkind hne
  · rename_i hkind
    constructor
    · exact fun h => .inr ⟨hkind, h⟩
    · rintro (⟨heq, -⟩ | ⟨-, h⟩)
      · exact absurd heq hkind
      · exact h

theorem someArgumentsWithin_eq_ok {r : List Expr × Cursor} :
    someArgumentsWithin (fuel + 1) c = .ok r ↔
      ∃ first c', exprWithin fuel 0 c = .ok (first, c') ∧
        ((c'.token.kind ≠ .comma ∧ r = ([first], c')) ∨
          (c'.token.kind = .comma ∧ ∃ rest c'', someArgumentsWithin fuel c'.next = .ok (rest, c'') ∧
            r = (first :: rest, c''))) := by
  rw [someArgumentsWithin, bind_eq_ok]
  refine exists_congr fun first => exists_congr fun c' => and_congr_right fun _ => ?_
  rw [peek_bind]
  split
  · rename_i hkind
    constructor
    · exact fun h => .inl ⟨hkind, (Except.ok.inj h).symm⟩
    · rintro (⟨-, rfl⟩ | ⟨heq, -⟩)
      · rfl
      · exact absurd heq hkind
  · rename_i hkind
    have hkind := Decidable.not_not.1 hkind
    rw [skip_bind, bind_eq_ok]
    constructor
    · rintro ⟨rest, c'', hrest, h⟩
      exact .inr ⟨hkind, rest, c'', hrest, (Except.ok.inj h).symm⟩
    · rintro (⟨hne, -⟩ | ⟨-, rest, c'', hrest, rfl⟩)
      · exact absurd hkind hne
      · exact ⟨rest, c'', hrest, rfl⟩

end LexScript.Parse
