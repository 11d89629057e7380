import LexScript.Number.Read
import LexScript.Token
import LexScript.Tree.Expr

/-!
# The grammar of expressions

Expressions are written in levels, from assignments down to single tokens. The operators between two
operands are spread over four of the levels. Those of one level group to the left, since the right operand
belongs to the next level.
-/

namespace LexScript

/-- The levels of the grammar, from the one that holds the others together. -/
inductive Level
  | assignment | logical | relational | additive | multiplicative | unary | call | primary
  deriving DecidableEq

namespace Level

def inner? : Level → Option Level
  | assignment => some logical
  | logical => some relational
  | relational => some additive
  | additive => some multiplicative
  | multiplicative => some unary
  | unary => some call
  | call => some primary
  | primary => none

def operator? : Level → TokenKind → Option BinaryOperator
  | logical, .and => some .and
  | logical, .or => some .or
  | relational, .equals => some .equal
  | relational, .notEquals => some .notEqual
  | relational, .less => some .less
  | relational, .lessEquals => some .lessEqual
  | relational, .greater => some .greater
  | relational, .greaterEquals => some .greaterEqual
  | additive, .plus => some .plus
  | additive, .dash => some .minus
  | multiplicative, .star => some .multiply
  | multiplicative, .slash => some .divide
  | multiplicative, .percent => some .modulo
  | _, _ => none

end Level

def TokenKind.sign? : TokenKind → Option UnaryOperator
  | .dash => some .negate
  | .not => some .not
  | _ => none

/-- An expression may end before such a token: it is no operator between two operands, and begins neither
the value of an assignment nor the arguments of a call. -/
structure TokenKind.EndsExpression (kind : TokenKind) : Prop where
  ne_assignment : kind ≠ .assignment
  ne_openParen : kind ≠ .openParen
  operator?_eq : ∀ level : Level, level.operator? kind = none

/-- The target of an assignment is a name, which may stand in parentheses. -/
inductive Target : List Token → Identifier → Prop
  | name {t : Token} (kind : t.kind = .identifier) (id : Nat) : Target [t] ⟨t.value, id⟩
  | group {opening closing : Token} {tokens : List Token} {i : Identifier}
    (opens : opening.kind = .openParen) (inner : Target tokens i) (closes : closing.kind = .closeParen) :
    Target (opening :: (tokens ++ [closing])) i

inductive Separated : List (List Token) → List Token → Prop
  | none : Separated [] []
  | one (part : List Token) : Separated [part] part
  | more {comma : Token} {rest : List Token} {next : List Token} {parts : List (List Token)}
    (part : List Token) (separates : comma.kind = .comma) (after : Separated (next :: parts) rest) :
    Separated (part :: next :: parts) (part ++ comma :: rest)

/-- The tokens are an expression of the level. The identities of its identifiers are left open. An argument
of a call stands with its tokens. -/
inductive Derives : Level → List Token → Expr → Prop
  | assign {target value : List Token} {sign : Token} {i : Identifier} {e : Expr}
    (left : Target target i) (assigns : sign.kind = .assignment) (right : Derives .assignment value e) :
    Derives .assignment (target ++ sign :: value) (.assign i e)
  | operation {level inner : Level} {left right : List Token} {sign : Token} {operator : BinaryOperator}
    {l r : Expr} (next : level.inner? = some inner) (first : Derives level left l)
    (operates : level.operator? sign.kind = some operator) (second : Derives inner right r) :
    Derives level (left ++ sign :: right) (.binary operator l r)
  | inner {level inner : Level} {tokens : List Token} {e : Expr} (next : level.inner? = some inner)
    (derives : Derives inner tokens e) : Derives level tokens e
  | unary {sign : Token} {operator : UnaryOperator} {tokens : List Token} {e : Expr}
    (operates : sign.kind.sign? = some operator) (operand : Derives .unary tokens e) :
    Derives .unary (sign :: tokens) (.unary operator e)
  | call {callee tokens : List Token} {opening closing : Token} {e : Expr}
    {arguments : List (List Token × Expr)} (called : Derives .call callee e)
    (opens : opening.kind = .openParen) (separated : Separated (arguments.map Prod.fst) tokens)
    (passed : ∀ argument ∈ arguments, Derives .assignment argument.1 argument.2)
    (closes : closing.kind = .closeParen) :
    Derives .call (callee ++ opening :: (tokens ++ [closing])) (.call e (arguments.map Prod.snd))
  | number {t : Token} {x : Float} (kind : t.kind = .number) (value : Number.ofText? t.value = some x) :
    Derives .primary [t] (.literal (.number x))
  | string {t : Token} (kind : t.kind = .string) : Derives .primary [t] (.literal (.string t.value))
  | isTrue {t : Token} (kind : t.kind = .trueWord) : Derives .primary [t] (.literal (.boolean true))
  | isFalse {t : Token} (kind : t.kind = .falseWord) : Derives .primary [t] (.literal (.boolean false))
  | name {t : Token} (kind : t.kind = .identifier) (id : Nat) : Derives .primary [t] (.name ⟨t.value, id⟩)
  | group {opening closing : Token} {tokens : List Token} {e : Expr} (opens : opening.kind = .openParen)
    (derives : Derives .assignment tokens e) (closes : closing.kind = .closeParen) :
    Derives .primary (opening :: (tokens ++ [closing])) e

theorem Separated.exists_rest {part tokens : List Token} {parts : List (List Token)}
    (h : Separated (part :: parts) tokens) : ∃ rest, tokens = part ++ rest := by
  cases h with
  | one => exact ⟨[], (List.append_nil _).symm⟩
  | more _ separates after => exact ⟨_, rfl⟩

/-- What is read as a name can be a target. -/
theorem Derives.target {level : Level} {tokens : List Token} {e : Expr} (h : Derives level tokens e)
    {i : Identifier} (he : e = .name i) : Target tokens i := by
  induction h with
  | inner next derives ih => exact ih he
  | name kind id =>
    obtain rfl := Expr.name.inj he
    exact .name kind id
  | group opens derives closes ih => exact .group opens (ih he) closes
  | _ => cases he

/-- An expression does not begin with the end of arguments. -/
theorem Target.head {tokens : List Token} {i : Identifier} (h : Target tokens i) :
    ∃ t rest, tokens = t :: rest ∧ t.kind ≠ .closeParen := by
  cases h with
  | name kind id => exact ⟨_, [], rfl, by simp [kind]⟩
  | group opens inner closes => exact ⟨_, _, rfl, by simp [opens]⟩

theorem Derives.head {level : Level} {tokens : List Token} {e : Expr} (h : Derives level tokens e) :
    ∃ t rest, tokens = t :: rest ∧ t.kind ≠ .closeParen := by
  induction h with
  | assign left assigns right ih =>
    obtain ⟨t, rest, rfl, ht⟩ := left.head
    exact ⟨t, _, rfl, ht⟩
  | operation next first operates second ihFirst ihSecond =>
    obtain ⟨t, rest, rfl, ht⟩ := ihFirst
    exact ⟨t, _, rfl, ht⟩
  | inner next derives ih => exact ih
  | @unary sign operator tokens e operates operand ih =>
    refine ⟨sign, tokens, rfl, fun hkind => ?_⟩
    rw [hkind] at operates
    cases operates
  | call called opens separated passed closes ihCalled ihPassed =>
    obtain ⟨t, rest, rfl, ht⟩ := ihCalled
    exact ⟨t, _, rfl, ht⟩
  | number kind | string kind | isTrue kind | isFalse kind | name kind =>
    exact ⟨_, [], rfl, by simp [kind]⟩
  | group opens derives closes ih => exact ⟨_, _, rfl, by simp [opens]⟩

end LexScript
