import LexScript.Proofs.Scope.Part
import LexScript.Typing.Expr

/-!
# Typing rules

The type of a name is that of its declaration, and the type of an expression follows from the scopes
around it and the addresses of its names. No checker is at work here: the rules say what a check is
about. A call may leave out arguments, and arguments beyond the parameters are not looked at.
-/

namespace LexScript

def Decl.functionType? : Decl → Option (Identifier × Ty)
  | .function _ header _ | .forward _ header => some (header.identifier, header.type)
  | _ => none

def Decl.variableType? : Decl → Option (Identifier × Ty)
  | .binding _ identifier type _ => some (identifier, type)
  | _ => none

def typeIn? (types : List (Identifier × Ty)) (name : String) : Option Ty :=
  (types.find? (·.1.name = name)).map Prod.snd

namespace Scope

def parameterTypes : Scope → List (Identifier × Ty)
  | function header _ => header.parameters.map fun p => (p.identifier, p.type)
  | _ => []

/-- The names of the scope with the types that they are declared with. Of parameters with one name the
last comes first, since its type is bound last. -/
def types (s : Scope) : List (Identifier × Ty) :=
  s.parameterTypes.reverse ++ s.declarations.filterMap Decl.functionType? ++
    s.declarations.filterMap Decl.variableType?

def typeOf? (s : Scope) (name : String) : Option Ty := typeIn? s.types name

def Consistent (s : Scope) : Prop :=
  ∀ d ∈ s.declarations, ∀ i t, d.functionType? = some (i, t) ∨ d.variableType? = some (i, t) →
    s.typeOf? i.name = some t

def returns? : List Scope → Option Ty
  | [] => none
  | function header _ :: _ => some header.returns
  | _ :: scopes => returns? scopes

end Scope

section

variable (addresses : Resolutions) (scopes : List Scope)

def Identifier.HasType (i : Identifier) (t : Ty) : Prop :=
  ∃ a scope, addresses.get? i.id = some a ∧ scopes[a.distance]? = some scope ∧
    scope.typeOf? i.name = some t

mutual

inductive HasType : Expr → Ty → Prop
  | literal (value : Literal) : HasType (.literal value) value.type
  | name {i : Identifier} {t : Ty} (declared : i.HasType addresses scopes t) : HasType (.name i) t
  | assign {target : Identifier} {value : Expr} {t : Ty} (typed : HasType value t)
    (valued : t ≠ .void) (declared : target.HasType addresses scopes t) :
    HasType (.assign target value) t
  | unary {operator : UnaryOperator} {operand : Expr} {u t : Ty} (typed : HasType operand u)
    (valued : u ≠ .void) (result : operator.resultType? u = some t) :
    HasType (.unary operator operand) t
  | binary {operator : BinaryOperator} {left right : Expr} {u v t : Ty} (first : HasType left u)
    (second : HasType right v) (valued : u ≠ .void ∧ v ≠ .void)
    (result : operator.resultType? u v = some t) : HasType (.binary operator left right) t
  | call {callee : Expr} {arguments : List Expr} {parameters : List Ty} {returns : Ty}
    (typed : HasType callee (.function parameters returns)) (fit : Fits arguments parameters) :
    HasType (.call callee arguments) returns

/-- The arguments have the types of the parameters, as far as both go. -/
inductive Fits : List Expr → List Ty → Prop
  | missing (parameters : List Ty) : Fits [] parameters
  | surplus (arguments : List Expr) : Fits arguments []
  | cons {argument : Expr} {arguments : List Expr} {parameter : Ty} {parameters : List Ty}
    (typed : HasType argument parameter) (valued : parameter ≠ .void)
    (rest : Fits arguments parameters) : Fits (argument :: arguments) (parameter :: parameters)

end

mutual

/-- No call in the expression has more arguments than the type of its callee has parameters. -/
def Expr.Saturated : Expr → Prop
  | .literal _ | .name _ => True
  | .assign _ value => value.Saturated
  | .unary _ operand => operand.Saturated
  | .binary _ left right => left.Saturated ∧ right.Saturated
  | .call callee arguments =>
    callee.Saturated ∧ Expr.AllSaturated arguments ∧
      ∀ parameters returns, HasType addresses scopes callee (.function parameters returns) →
        arguments.length ≤ parameters.length

def Expr.AllSaturated : List Expr → Prop
  | [] => True
  | e :: es => e.Saturated ∧ Expr.AllSaturated es

end

mutual

/-- Every assignment and every call in the expression has a type, also in arguments that are not looked
at. -/
def Expr.Orderly : Expr → Prop
  | .literal _ | .name _ => True
  | .assign target value => (∃ t, HasType addresses scopes (.assign target value) t) ∧ value.Orderly
  | .unary _ operand => operand.Orderly
  | .binary _ left right => left.Orderly ∧ right.Orderly
  | .call callee arguments =>
    (∃ t, HasType addresses scopes (.call callee arguments) t) ∧ callee.Orderly ∧
      Expr.AllOrderly arguments

def Expr.AllOrderly : List Expr → Prop
  | [] => True
  | e :: es => e.Orderly ∧ Expr.AllOrderly es

end

def Role.Accepts : Role → Ty → Prop
  | discarded, _ => True
  | printed, t => t ≠ .void
  | condition, t => t = .boolean
  | returned, t => Scope.returns? scopes = some t
  | initial type, t => t = type ∧ t ≠ .void

end

section

variable {addresses : Resolutions} {scopes : List Scope}

theorem Identifier.HasType.unique {i : Identifier} {t u : Ty} (h : i.HasType addresses scopes t)
    (h' : i.HasType addresses scopes u) : t = u := by
  rcases h with ⟨a, scope, ha, hscope, ht⟩
  obtain ⟨b, other, hb, hother, hu⟩ := h'
  obtain rfl := Option.some.inj (ha.symm.trans hb)
  obtain rfl := Option.some.inj (hscope.symm.trans hother)
  exact Option.some.inj (ht.symm.trans hu)

/-- An expression has at most one type. -/
theorem HasType.unique : ∀ (e : Expr) {t u : Ty}, HasType addresses scopes e t →
    HasType addresses scopes e u → t = u
  | .literal value, _, _, h, h' => by
    cases h
    cases h'
    rfl
  | .name i, _, _, h, h' => by
    cases h with | name declared =>
    cases h' with | name declared' =>
    exact declared.unique declared'
  | .assign target value, _, _, h, h' => by
    cases h with | assign _ _ declared =>
    cases h' with | assign _ _ declared' =>
    exact declared.unique declared'
  | .unary operator operand, _, _, h, h' => by
    cases h with | unary typed _ result =>
    cases h' with | unary typed' _ result' =>
    obtain rfl := HasType.unique operand typed typed'
    exact Option.some.inj (result.symm.trans result')
  | .binary operator left right, _, _, h, h' => by
    cases h with | binary first second _ result =>
    cases h' with | binary first' second' _ result' =>
    obtain rfl := HasType.unique left first first'
    obtain rfl := HasType.unique right second second'
    exact Option.some.inj (result.symm.trans result')
  | .call callee arguments, _, _, h, h' => by
    cases h with | call typed _ =>
    cases h' with | call typed' _ =>
    exact (Ty.function.inj (HasType.unique callee typed typed')).2

end

def Part.WellTyped (addresses : Resolutions) : Part → Prop
  | opening scope _ => scope.Consistent
  | expression role _ e places =>
    ∃ t, HasType addresses (places.map Place.scope) e t ∧
      role.Accepts (places.map Place.scope) t
  | bareReturn places => Scope.returns? (places.map Place.scope) = some .void
  | binding _ _ => True

namespace Program

/-- No function repeats the name of a parameter. -/
def DistinctParameters (program : Program) : Prop :=
  ∀ header body outer, .opening (.function header body) outer ∈ program.parts →
    (header.parameters.map fun p => p.identifier.name).Nodup

/-- Parameters of one function that share a name have one type. -/
def AgreeingParameters (program : Program) : Prop :=
  ∀ header body outer, .opening (.function header body) outer ∈ program.parts →
    ∀ p ∈ header.parameters, ∀ q ∈ header.parameters,
      p.identifier.name = q.identifier.name → p.type = q.type

theorem DistinctParameters.agreeing {program : Program} (h : program.DistinctParameters) :
    program.AgreeingParameters := by
  intro header body outer hopening p hp q hq hname
  rw [List.inj_on_of_nodup_map (h header body outer hopening) hp hq hname]

/-- No call has more arguments than the type of its callee has parameters. -/
def Saturated (program : Program) (addresses : Resolutions) : Prop :=
  ∀ role line e places, .expression role line e places ∈ program.parts →
    e.Saturated addresses (places.map Place.scope)

/-- Every assignment and every call has a type, also in arguments that are not looked at. -/
def Orderly (program : Program) (addresses : Resolutions) : Prop :=
  ∀ role line e places, .expression role line e places ∈ program.parts →
    e.Orderly addresses (places.map Place.scope)

end Program
end LexScript
