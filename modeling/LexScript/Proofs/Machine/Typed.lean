import LexScript.Proofs.Machine.Addresses
import LexScript.Proofs.Typing.Rules

/-!
# Typed machines

A machine is typed if what it does next comes to what the first continuation awaits, and each
continuation to what the next one awaits. Expressions come to values of their types, statements to their
end or to a return that fits the function around them. An error passes everything by, and its cause is
one of those that types do not rule out.

Where calls may have more arguments than parameters, nothing is known of the types of these arguments, but
their assignments and calls are typed as everywhere. Then any error may come.
-/

namespace LexScript

def Value.type : Value → Ty
  | number _ => .number
  | boolean _ => .boolean
  | string _ => .string
  | function c => c.header.type
  | void => .void

def Cause.Dynamic : Cause → Prop
  | .divisionByZero | .repeatTooLarge .. | .undefinedVariable _ | .missingReturn _
  | .recursionLimitExceeded _ | .outputFailed _ => True
  | _ => False

/-- Whether calls have at most as many arguments as parameters, or may have more. -/
inductive Arity
  | bounded
  | free

def Cause.Allowed : Arity → Cause → Prop
  | .bounded, cause => cause.Dynamic
  | .free, _ => True

/-- No call has too many arguments, or the assignments and the calls in them have types as well. -/
def Expr.Admitted (addresses : Resolutions) (scopes : List Scope) : Arity → Expr → Prop
  | .bounded, e => e.Saturated addresses scopes
  | .free, e => e.Orderly addresses scopes

def Expr.AllAdmitted (addresses : Resolutions) (scopes : List Scope) : Arity → List Expr → Prop
  | .bounded, es => Expr.AllSaturated addresses scopes es
  | .free, es => Expr.AllOrderly addresses scopes es

/-- What a part of a run comes to, unless it fails: an expression to a value, a statement to its end. -/
inductive Awaited
  | value (type : Ty)
  | anyValue
  | finish

inductive Outcome.Typed (arity : Arity) (scopes : List Scope) : Awaited → Outcome → Prop
  | value {v : Value} {t : Ty} (typed : v.type = t) : Typed arity scopes (.value t) (.value v)
  | anyValue (v : Value) : Typed arity scopes .anyValue (.value v)
  | normal : Typed arity scopes .finish .normal
  | returned {v : Value} (expected : Scope.returns? scopes = some v.type) :
    Typed arity scopes .finish (.returned v)
  | failed {awaited : Awaited} {e : Error} (dynamic : e.cause.Allowed arity) :
    Typed arity scopes awaited (.failed e)

section

variable (addresses : Resolutions) (activations : List Activation) (arity : Arity)

def Closure.Takes (c : Closure) (arguments : List Value) : Prop :=
  ∀ p v, (p, v) ∈ c.header.parameters.zip arguments → v.type = p.type ∧ v.type ≠ .void

/-- What is done next at nested scopes comes to what is awaited. An argument without a parameter comes to
any value. -/
inductive Control.Typed (scopes : List Scope) : Awaited → Control → Prop
  | eval {line : Nat} {e : Expr} {t : Ty} (typed : HasType addresses scopes e t)
    (admitted : e.Admitted addresses scopes arity) : Typed scopes (.value t) (.eval line e)
  | evalAny {line : Nat} {e : Expr} (free : arity = .free)
    (admitted : e.Admitted addresses scopes arity) : Typed scopes .anyValue (.eval line e)
  | exec (s : Stmt) : Typed scopes .finish (.exec s)
  | enter (declarations : List Decl) : Typed scopes .finish (.enter declarations)
  | call {closure : Closure} {arguments : List Value} {line : Nat} (takes : closure.Takes arguments) :
    Typed scopes (.value closure.header.returns) (.call closure arguments line)
  | ended {awaited : Awaited} {outcome : Outcome} (typed : outcome.Typed arity scopes awaited) :
    Typed scopes awaited (.ended outcome)

/-- A continuation at nested scopes, with what it awaits and what it comes to itself. -/
inductive Continuation.Typed (scopes : List Scope) : Awaited → Continuation → Awaited → Prop
  | operand {operator : BinaryOperator} {right : Expr} {line : Nat} {u v t : Ty}
    (typed : HasType addresses scopes right v) (admitted : right.Admitted addresses scopes arity)
    (result : operator.resultType? u v = some t) :
    Typed scopes (.value u) (.operand operator right line) (.value t)
  | operandAny {operator : BinaryOperator} {right : Expr} {line : Nat} {awaited : Awaited}
    (free : arity = .free) (valued : awaited ≠ .finish)
    (admitted : right.Admitted addresses scopes arity) :
    Typed scopes awaited (.operand operator right line) .anyValue
  | binary {operator : BinaryOperator} {left : Value} {line : Nat} {v t : Ty}
    (result : operator.resultType? left.type v = some t) :
    Typed scopes (.value v) (.binary operator left line) (.value t)
  | binaryAny {operator : BinaryOperator} {left : Value} {line : Nat} {awaited : Awaited}
    (free : arity = .free) (valued : awaited ≠ .finish) :
    Typed scopes awaited (.binary operator left line) .anyValue
  | unary {operator : UnaryOperator} {line : Nat} {u t : Ty}
    (result : operator.resultType? u = some t) :
    Typed scopes (.value u) (.unary operator line) (.value t)
  | unaryAny {operator : UnaryOperator} {line : Nat} {awaited : Awaited} (free : arity = .free)
    (valued : awaited ≠ .finish) : Typed scopes awaited (.unary operator line) .anyValue
  | assign {target : Identifier} {line : Nat} {t : Ty} (valued : t ≠ .void)
    (declared : target.HasType addresses scopes t) :
    Typed scopes (.value t) (.assign target line) (.value t)
  | callee {arguments : List Expr} {line : Nat} {parameters : List Ty} {returns : Ty}
    (fit : Fits addresses scopes arguments parameters)
    (admitted : Expr.AllAdmitted addresses scopes arity arguments)
    (enough : arity = .bounded → arguments.length ≤ parameters.length) :
    Typed scopes (.value (.function parameters returns)) (.callee arguments line) (.value returns)
  | argument {closure : Closure} {values : List Value} {rest : List Expr} {line : Nat} {t : Ty}
    {parameters : List Ty}
    (typed : closure.header.parameters.map Parameter.type =
      values.reverse.map Value.type ++ t :: parameters)
    (valued : t ≠ .void ∧ ∀ v ∈ values, v.type ≠ .void)
    (fit : Fits addresses scopes rest parameters)
    (admitted : Expr.AllAdmitted addresses scopes arity rest)
    (enough : arity = .bounded → rest.length ≤ parameters.length) :
    Typed scopes (.value t) (.argument closure values rest line) (.value closure.header.returns)
  | argumentAny {closure : Closure} {values : List Value} {rest : List Expr} {line : Nat}
    {awaited : Awaited} (free : arity = .free) (valued : awaited ≠ .finish)
    (takes : closure.Takes values.reverse) (surplus : closure.header.parameters.length ≤ values.length)
    (admitted : Expr.AllAdmitted addresses scopes arity rest) :
    Typed scopes awaited (.argument closure values rest line) (.value closure.header.returns)
  | discard (t : Ty) : Typed scopes (.value t) .discard .finish
  | print {line : Nat} {t : Ty} (valued : t ≠ .void) : Typed scopes (.value t) (.print line) .finish
  | branch (line : Nat) (thenBranch : Stmt) (elseBranch : Option Stmt) :
    Typed scopes (.value .boolean) (.branch line thenBranch elseBranch) .finish
  | test (loop : Loop) : Typed scopes (.value .boolean) (.test loop) .finish
  | step (loop : Loop) : Typed scopes .finish (.step loop) .finish
  | again (loop : Loop) : Typed scopes .finish (.again loop) .finish
  | ret {t : Ty} (expected : Scope.returns? scopes = some t) : Typed scopes (.value t) .ret .finish
  | bind {identifier : Identifier} {line : Nat} {t : Ty} {scope : Scope} (valued : t ≠ .void)
    (here : scopes.head? = some scope) (declared : scope.typeOf? identifier.name = some t) :
    Typed scopes (.value t) (.bind identifier line) .finish
  | sequence (rest : List Decl) : Typed scopes .finish (.sequence rest) .finish
  | leave {f : FrameId} {outer : List Scope} (nest : Nest activations f outer)
    (returns : Scope.returns? scopes = Scope.returns? outer) :
    Typed scopes .finish (.leave f) .finish
  | endCall {f : FrameId} {closure : Closure} {line : Nat}
    (returns : Scope.returns? scopes = some closure.header.returns) :
    Typed scopes .finish (.endCall f closure line) (.value closure.header.returns)

/-- The continuations await each other, if the first waits while the frame is current. -/
inductive Continuation.AllTyped : FrameId → Awaited → List Continuation → Prop
  | nil (f : FrameId) : AllTyped f .finish []
  | cons {f : FrameId} {scopes : List Scope} {awaited next : Awaited} {c : Continuation}
    {k : List Continuation} (nest : Nest activations f scopes)
    (typed : c.Typed addresses activations arity scopes awaited next)
    (rest : AllTyped (c.after f) next k) : AllTyped f awaited (c :: k)

def Machine.Typed (m : Machine) : Prop :=
  ∃ scopes awaited, Nest activations m.store.scopes.current scopes ∧
    m.control.Typed addresses arity scopes awaited ∧
    Continuation.AllTyped addresses activations arity m.store.scopes.current awaited m.stack

end

def Write.Typed (activations : List Activation) (w : Write) : Prop :=
  w.value.type ≠ .void ∧
    ∀ a, activations[w.frame]? = some a → a.scope.typeOf? w.name = some w.value.type

def History.Typed (h : History) : Prop :=
  ∀ f i x v, h.stored f i = some (x, v) → Write.Typed h.activations ⟨f, i, x, v⟩

/-! ## Later activations -/

section

variable {addresses : Resolutions} {activations : List Activation} {arity : Arity}
  {scopes : List Scope} {awaited next : Awaited}

theorem Cause.Dynamic.allowed {cause : Cause} (h : cause.Dynamic) : cause.Allowed arity := by
  cases arity with
  | bounded => exact h
  | free => trivial

theorem Continuation.Typed.append {c : Continuation}
    (h : c.Typed addresses activations arity scopes awaited next) (later : List Activation) :
    c.Typed addresses (activations ++ later) arity scopes awaited next := by
  cases h with
  | leave nest returns => exact .leave (nest.append later) returns
  | operandAny free valued admitted => exact .operandAny free valued admitted
  | binaryAny free valued => exact .binaryAny free valued
  | unaryAny free valued => exact .unaryAny free valued
  | argumentAny free valued takes surplus admitted =>
    exact .argumentAny free valued takes surplus admitted
  | operand typed admitted result => exact .operand typed admitted result
  | binary result => exact .binary result
  | unary result => exact .unary result
  | argument typed valued fit admitted enough => exact .argument typed valued fit admitted enough
  | _ => constructor <;> assumption

theorem Continuation.AllTyped.append {f : FrameId} {k : List Continuation}
    (h : AllTyped addresses activations arity f awaited k) (later : List Activation) :
    AllTyped addresses (activations ++ later) arity f awaited k := by
  induction h with
  | nil f => exact .nil f
  | cons nest typed _ ih => exact .cons (nest.append later) (typed.append later) ih

/-- What awaits any value takes one of a type as well. -/
theorem Continuation.AllTyped.of_anyValue {f : FrameId} {k : List Continuation} (t : Ty)
    (h : AllTyped addresses activations arity f .anyValue k) :
    AllTyped addresses activations arity f (.value t) k := by
  cases h with
  | cons nest typed rest =>
    cases typed with
    | operandAny free _ admitted => exact .cons nest (.operandAny free nofun admitted) rest
    | binaryAny free _ => exact .cons nest (.binaryAny free nofun) rest
    | unaryAny free _ => exact .cons nest (.unaryAny free nofun) rest
    | argumentAny free _ takes surplus admitted =>
      exact .cons nest (.argumentAny free nofun takes surplus admitted) rest

theorem Outcome.Typed.of_returns {outcome : Outcome} {outer : List Scope}
    (h : outcome.Typed arity scopes awaited)
    (hreturns : Scope.returns? scopes = Scope.returns? outer) : outcome.Typed arity outer awaited := by
  cases h with
  | value typed => exact .value typed
  | anyValue v => exact .anyValue v
  | normal => exact .normal
  | returned expected => exact .returned (hreturns.symm.trans expected)
  | failed dynamic => exact .failed dynamic

/-- What passes a continuation by is what the continuation comes to. -/
theorem Continuation.Typed.of_passes {c : Continuation} {outcome : Outcome}
    (h : c.Typed addresses activations arity scopes awaited next)
    (ho : outcome.Typed arity scopes awaited) (hpasses : c.Passes outcome) :
    outcome.Typed arity scopes next := by
  cases ho with
  | failed dynamic => exact .failed dynamic
  | value | anyValue =>
    -- Whatever awaits a value accepts it.
    refine absurd ?_ hpasses.not_accepts
    cases h <;> constructor
  | normal =>
    cases h with
    | sequence rest =>
      cases rest with
      | nil => exact .normal
      | cons d ds => exact absurd (.sequence d ds) hpasses.not_accepts
    | step loop => exact absurd (.step loop) hpasses.not_accepts
    | again loop => exact absurd (.again loop) hpasses.not_accepts
    | leave | endCall =>
      refine absurd ?_ hpasses.not_accepts
      constructor
    | operandAny _ valued | binaryAny _ valued | unaryAny _ valued | argumentAny _ valued =>
      exact absurd rfl valued
  | returned expected =>
    cases h with
    | leave | endCall =>
      refine absurd ?_ hpasses.not_accepts
      constructor
    | operandAny _ valued | binaryAny _ valued | unaryAny _ valued | argumentAny _ valued =>
      exact absurd rfl valued
    | _ => exact .returned expected

end

/-! ## Values of a type -/

namespace Value

variable {v : Value}

theorem eq_number (h : v.type = .number) : ∃ x, v = .number x := by
  cases v <;> cases h
  exact ⟨_, rfl⟩

theorem eq_boolean (h : v.type = .boolean) : ∃ b, v = .boolean b := by
  cases v <;> cases h
  exact ⟨_, rfl⟩

theorem eq_string (h : v.type = .string) : ∃ s, v = .string s := by
  cases v <;> cases h
  exact ⟨_, rfl⟩

theorem eq_function {parameters : List Ty} {returns : Ty} (h : v.type = .function parameters returns) :
    ∃ c : Closure, v = .function c ∧ c.header.parameters.map Parameter.type = parameters ∧
      c.header.returns = returns := by
  cases v with
  | function c =>
    obtain ⟨hparameters, hreturns⟩ := Ty.function.inj h
    exact ⟨c, rfl, hparameters, hreturns⟩
  | _ => cases h

end Value

theorem Literal.type_toValue (literal : Literal) : literal.toValue.type = literal.type := by
  cases literal <;> rfl

section

variable {arity : Arity} {scopes : List Scope} {l r v : Value} {t : Ty}

namespace BinaryOperator

variable {operator : BinaryOperator}

/-- Operands of any one type are compared, a string is repeated a number of times, and other operations
take two strings, two numbers or two booleans. -/
theorem cases_of_resultType? {u v : Ty} (h : operator.resultType? u v = some t) :
    ((operator = .equal ∨ operator = .notEqual) ∧ t = .boolean) ∨
      (operator = .multiply ∧ u = .string ∧ v = .number ∧ t = .string) ∨
      (u = .string ∧ v = .string) ∨ (u = .number ∧ v = .number) ∨ u = .boolean ∧ v = .boolean := by
  unfold resultType? at h
  split at h <;> simp_all

theorem apply_strings_typed {x y : String} (h : operator.resultType? .string .string = some t)
    (line : Nat) :
    (Outcome.ofResult line (operator.apply (.string x) (.string y))).Typed arity scopes (.value t) := by
  cases operator <;> cases h <;> exact .value rfl

theorem apply_booleans_typed {x y : Bool} (h : operator.resultType? .boolean .boolean = some t)
    (line : Nat) :
    (Outcome.ofResult line (operator.apply (.boolean x) (.boolean y))).Typed arity scopes (.value t) := by
  cases operator <;> cases h <;> exact .value rfl

theorem apply_numbers_typed {x y : Float} (h : operator.resultType? .number .number = some t)
    (line : Nat) :
    (Outcome.ofResult line (operator.apply (.number x) (.number y))).Typed arity scopes (.value t) := by
  cases operator with
  | divide | modulo =>
    obtain rfl := Option.some.inj h
    rw [apply]
    split
    · exact .failed (Cause.Dynamic.allowed trivial)
    · exact .value rfl
  | and | or => cases h
  | _ =>
    obtain rfl := Option.some.inj h
    exact .value rfl

theorem repeated_typed (x : String) (y : Float) (line : Nat) :
    (Outcome.ofResult line (apply .multiply (.string x) (.number y))).Typed arity scopes
      (.value .string) := by
  rw [apply]
  rcases repeated_cases x y with ⟨t, hrepeated⟩ | hrepeated <;> rw [hrepeated]
  · exact .value rfl
  · exact .failed (Cause.Dynamic.allowed trivial)

/-- Operands of the right types have a result of the right type, or fail for another reason. -/
theorem apply_typed (h : operator.resultType? l.type r.type = some t) (line : Nat) :
    (Outcome.ofResult line (operator.apply l r)).Typed arity scopes (.value t) := by
  rcases cases_of_resultType? h with
    ⟨hequality, rfl⟩ | ⟨rfl, hl, hr, rfl⟩ | ⟨hl, hr⟩ | ⟨hl, hr⟩ | ⟨hl, hr⟩
  · rcases hequality with rfl | rfl <;> exact .value rfl
  · obtain ⟨x, rfl⟩ := Value.eq_string hl
    obtain ⟨y, rfl⟩ := Value.eq_number hr
    exact repeated_typed x y line
  · obtain ⟨x, rfl⟩ := Value.eq_string hl
    obtain ⟨y, rfl⟩ := Value.eq_string hr
    exact apply_strings_typed h line
  · obtain ⟨x, rfl⟩ := Value.eq_number hl
    obtain ⟨y, rfl⟩ := Value.eq_number hr
    exact apply_numbers_typed h line
  · obtain ⟨x, rfl⟩ := Value.eq_boolean hl
    obtain ⟨y, rfl⟩ := Value.eq_boolean hr
    exact apply_booleans_typed h line

end BinaryOperator

theorem UnaryOperator.apply_typed {operator : UnaryOperator}
    (h : operator.resultType? v.type = some t) (line : Nat) :
    (Outcome.ofResult line (operator.apply v)).Typed arity scopes (.value t) := by
  unfold resultType? at h
  split at h
  · rename_i htype
    obtain rfl := Option.some.inj h
    obtain ⟨x, rfl⟩ := Value.eq_number htype
    exact .value rfl
  · rename_i htype
    obtain rfl := Option.some.inj h
    obtain ⟨b, rfl⟩ := Value.eq_boolean htype
    exact .value rfl
  · cases h

end
end LexScript
