import LexScript.Proofs.Machine.TypeSoundness
import LexScript.Proofs.Typing.Recorded

/-!
# Arguments without a parameter

The check does not look at arguments beyond the parameters, but a run evaluates them, and an assignment
in such an argument may store a value of any type: `Run.slots_mistyped_surplusSample`. Where the
assignments and the calls in these arguments obey the typing rules, each slot holds a value of the type
that the check recorded for it, whatever else the arguments are: `Run.slots_as_checked`.
-/

namespace LexScript

/-! ## Arguments that are looked at -/

section

variable {addresses : Resolutions} {scopes : List Scope}

mutual

/-- The assignments and the calls in an expression with a type have types, unless a call has too many
arguments. -/
theorem HasType.orderly : ∀ (e : Expr) {t : Ty}, HasType addresses scopes e t →
    e.Saturated addresses scopes → e.Orderly addresses scopes
  | .literal _, _, _, _ | .name _, _, _, _ => trivial
  | .assign target value, _, h, hsaturated => by
    cases h with | assign typed valued declared =>
    exact ⟨⟨_, .assign typed valued declared⟩, HasType.orderly value typed hsaturated⟩
  | .unary operator operand, _, h, hsaturated => by
    cases h with | unary typed =>
    exact HasType.orderly operand typed hsaturated
  | .binary operator left right, _, h, hsaturated => by
    cases h with | binary first second =>
    exact ⟨HasType.orderly left first hsaturated.1, HasType.orderly right second hsaturated.2⟩
  | .call callee arguments, _, h, hsaturated => by
    rcases hsaturated with ⟨hcallee, harguments, hlength⟩
    cases h with | call typed fit =>
    exact ⟨⟨_, .call typed fit⟩, HasType.orderly callee typed hcallee,
      Fits.orderly arguments fit harguments (hlength _ _ typed)⟩

theorem Fits.orderly : ∀ (es : List Expr) {parameters : List Ty}, Fits addresses scopes es parameters →
    Expr.AllSaturated addresses scopes es → es.length ≤ parameters.length →
      Expr.AllOrderly addresses scopes es
  | [], _, _, _, _ => trivial
  | e :: es, _, h, hsaturated, hlength => by
    cases h with
    | surplus => simp at hlength
    | cons typed valued rest =>
      exact ⟨HasType.orderly e typed hsaturated.1,
        Fits.orderly es rest hsaturated.2 (Nat.le_of_succ_le_succ hlength)⟩

end

end

variable {program : Program}

/-- In a checked program without too many arguments, every assignment and every call has a type. -/
theorem Program.Saturated.orderly {addresses : Resolutions} (h : program.Saturated addresses)
    (htyped : ∀ p ∈ program.parts, p.WellTyped addresses) : program.Orderly addresses := by
  intro role line e places hpart
  obtain ⟨t, htype, -⟩ := htyped _ hpart
  exact htype.orderly e (h role line e places hpart)

/-! ## The slots of a run and those of the check -/

/-- Each slot holds a value of the type that the check recorded for it: a frame of the check holds the
types of the same scope, and the same slot of it holds the type of the value. -/
def History.AsChecked (h : History) (s : ScopeStack Value) (checked : Typing.State) : Prop :=
  ∀ f i v, s.slot? f i = some v → v.type ≠ .void ∧
    ∃ a g, h.activations[f]? = some a ∧ checked.scopes.Holds g a.scope a.scope.types ∧
      checked.scopes.slot? g i = some v.type

variable {h : History} {m : Machine}

/-- A program is resolved and checked, no function in it repeats the name of a parameter, and every
assignment and every call has a type, also in arguments without a parameter. Then at every moment of a
run, each slot holds a value of the type that the check recorded for it. -/
theorem Run.slots_as_checked {tokens : List Token} {addresses : Resolutions} {maxCallDepth : Nat}
    (hprogram : Program.ofTokens tokens = .ok program)
    (haddresses : Resolutions.ofProgram program = .ok addresses)
    (hcheck : program.check addresses = .ok ()) (hparameters : program.DistinctParameters)
    (horderly : program.Orderly addresses) (hrun : Run ⟨addresses, maxCallDepth⟩ program m h) :
    ∃ checked, Typing.Check.declarations addresses program.declarations .start = .ok () checked ∧
      h.AsChecked m.store.scopes checked := by
  have hids : program.DistinctIdentities := .ofTokens hprogram
  have htyped := (Program.check_wellTyped hids haddresses).1 hcheck
  obtain ⟨checked, hchecked⟩ := Program.exists_checked hcheck
  refine ⟨checked, hchecked, fun f i v hslot => ?_⟩
  obtain ⟨-, hstored⟩ := hrun.typed_of_admitted
    (⟨hids, haddresses, htyped, hparameters, horderly⟩ : program.Admitted .free addresses)
  have hnamed := hrun.named hids haddresses
  rw [hrun.records.slots] at hslot
  obtain ⟨⟨x, v⟩, hx, rfl⟩ := Option.map_eq_some_iff.1 hslot
  have hlt := hrun.stored_lt hx
  have ha := List.getElem?_eq_getElem hlt
  obtain ⟨hvalued, htype⟩ := hstored f i x v hx
  obtain ⟨-, hi⟩ := hnamed f i x v hx _ ha
  dsimp only at hi htype
  subst hi
  obtain ⟨outer, -, hopening, -⟩ := hrun.scoped.scopes.activation f _ ha
  obtain ⟨g, hholds⟩ := Program.check_records hids haddresses hchecked hopening
  exact ⟨hvalued, _, g, ha, hholds, hholds.slot?_of_typeIn? (htype _ ha)⟩

/-! ## A variable that an argument assigns to -/

/-- The tokens of a program that declares a boolean and a function without parameters, and calls the
function with the given arguments. -/
def Token.surplusSample (arguments : List Token) : List Token :=
  [⟨.letWord, "let", 1⟩, ⟨.identifier, "x", 1⟩, ⟨.colon, ":", 1⟩, ⟨.identifier, "bool", 1⟩,
    ⟨.assignment, "=", 1⟩, ⟨.trueWord, "true", 1⟩, ⟨.semicolon, ";", 1⟩,
    ⟨.fnWord, "fn", 2⟩, ⟨.identifier, "f", 2⟩, ⟨.openParen, "(", 2⟩, ⟨.closeParen, ")", 2⟩,
    ⟨.openCurly, "\x7b", 2⟩, ⟨.closeCurly, "\x7d", 2⟩,
    ⟨.identifier, "f", 3⟩, ⟨.openParen, "(", 3⟩] ++ arguments ++
    [⟨.closeParen, ")", 3⟩, ⟨.semicolon, ";", 3⟩]

def Program.surplusSample (arguments : List Expr) : Program where
  declarations :=
    [.binding 1 ⟨"x", 0⟩ .boolean (.literal (.boolean true)),
      .function 2 ⟨⟨"f", 1⟩, [], .void⟩ [],
      .statement (.expression 3 (.call (.name ⟨"f", 2⟩) arguments))]
  identifierCount := 5

def Resolutions.surplusSample : Resolutions :=
  ⟨#[some ⟨0, 1⟩, some ⟨0, 0⟩, some ⟨0, 0⟩, some ⟨0, 1⟩, some ⟨0, 1⟩]⟩

/-- The arguments of `f(x = !x, -true)`. The second one has no type. -/
def Token.negatedArguments : List Token :=
  [⟨.identifier, "x", 3⟩, ⟨.assignment, "=", 3⟩, ⟨.not, "!", 3⟩, ⟨.identifier, "x", 3⟩,
    ⟨.comma, ",", 3⟩, ⟨.dash, "-", 3⟩, ⟨.trueWord, "true", 3⟩]

def Expr.negatedArguments : List Expr :=
  [.assign ⟨"x", 3⟩ (.unary .not (.name ⟨"x", 4⟩)), .unary .negate (.literal (.boolean true))]

def Token.mistypedArguments : List Token :=
  [⟨.identifier, "x", 3⟩, ⟨.assignment, "=", 3⟩, ⟨.string, "s", 3⟩, ⟨.comma, ",", 3⟩,
    ⟨.identifier, "x", 3⟩]

def Expr.mistypedArguments : List Expr :=
  [.assign ⟨"x", 3⟩ (.literal (.string "s")), .name ⟨"x", 4⟩]

namespace Program

theorem distinctParameters_surplusSample (arguments : List Expr) :
    (surplusSample arguments).DistinctParameters := by
  intro header body outer hopening
  simp only [parts, scope, surplusSample, Decl.partsFrom, Decl.parts, Stmt.parts] at hopening
  simp at hopening
  obtain ⟨⟨rfl, -⟩, -⟩ := hopening
  exact List.nodup_nil

/-- What is assigned is a boolean, and the call has a type since its arguments are not looked at. -/
theorem orderly_negatedArguments :
    (surplusSample Expr.negatedArguments).Orderly .surplusSample := by
  intro role line e places hpart
  have he : e = .literal (.boolean true) ∨ e = .call (.name ⟨"f", 2⟩) Expr.negatedArguments ∧
      places.map Place.scope = [(surplusSample Expr.negatedArguments).scope] := by
    simp only [parts, scope, surplusSample, Decl.partsFrom, Decl.parts, Stmt.parts] at hpart
    simp at hpart
    rcases hpart with ⟨-, -, he, -⟩ | ⟨-, -, he, hplaces⟩
    · exact .inl he
    · subst hplaces
      exact .inr ⟨he, rfl⟩
  rcases he with rfl | ⟨rfl, hscopes⟩
  · trivial
  · rw [hscopes]
    have hx : ∀ id : Nat, Resolutions.surplusSample.get? id = some ⟨0, 1⟩ →
        Identifier.HasType .surplusSample [(surplusSample Expr.negatedArguments).scope] ⟨"x", id⟩
          .boolean := fun id hid => ⟨⟨0, 1⟩, _, hid, rfl, rfl⟩
    have hf : HasType .surplusSample [(surplusSample Expr.negatedArguments).scope] (.name ⟨"f", 2⟩)
        (.function [] .void) := .name ⟨⟨0, 0⟩, _, rfl, rfl, rfl⟩
    have hassign : HasType .surplusSample [(surplusSample Expr.negatedArguments).scope]
        (.assign ⟨"x", 3⟩ (.unary .not (.name ⟨"x", 4⟩))) .boolean :=
      .assign (.unary (.name (hx 4 rfl)) Ty.noConfusion rfl) Ty.noConfusion (hx 3 rfl)
    exact ⟨⟨.void, .call hf (.surplus _)⟩, trivial, ⟨⟨.boolean, hassign⟩, trivial⟩, trivial, trivial⟩

end Program

/-- The first argument is assigned before the second one fails, and the variable stays a boolean. -/
theorem Run.slots_as_checked_surplusSample :
    Program.ofTokens (Token.surplusSample Token.negatedArguments) =
        .ok (.surplusSample Expr.negatedArguments) ∧
      Resolutions.ofProgram (.surplusSample Expr.negatedArguments) = .ok .surplusSample ∧
      (Program.surplusSample Expr.negatedArguments).check .surplusSample = .ok () ∧
      (Program.surplusSample Expr.negatedArguments).DistinctParameters ∧
      (Program.surplusSample Expr.negatedArguments).Orderly .surplusSample ∧
      ∃ m h checked, Run ⟨.surplusSample, 10⟩ (.surplusSample Expr.negatedArguments) m h ∧
        m.outcome? = some (.failed ⟨.invalidOperand "-" "bool", 3⟩) ∧
        m.store.scopes.slot? 0 1 = some (.boolean false) ∧ h.AsChecked m.store.scopes checked := by
  have hprogram : Program.ofTokens (Token.surplusSample Token.negatedArguments) =
      .ok (.surplusSample Expr.negatedArguments) := rfl
  have haddresses : Resolutions.ofProgram (.surplusSample Expr.negatedArguments) =
      .ok .surplusSample := rfl
  have hcheck : (Program.surplusSample Expr.negatedArguments).check .surplusSample = .ok () := rfl
  have hparameters := Program.distinctParameters_surplusSample Expr.negatedArguments
  have horderly := Program.orderly_negatedArguments
  obtain ⟨h, hrun⟩ := (@Run.start ⟨.surplusSample, 10⟩ (.surplusSample Expr.negatedArguments)
    .unlimited).run 40
  obtain ⟨checked, -, hslots⟩ :=
    slots_as_checked hprogram haddresses hcheck hparameters horderly hrun
  exact ⟨hprogram, haddresses, hcheck, hparameters, horderly, _, h, checked, hrun, rfl, rfl, hslots⟩

/-- The check records a boolean for the variable, which holds a string in the end. -/
theorem Run.slots_mistyped_surplusSample :
    Program.ofTokens (Token.surplusSample Token.mistypedArguments) =
        .ok (.surplusSample Expr.mistypedArguments) ∧
      Resolutions.ofProgram (.surplusSample Expr.mistypedArguments) = .ok .surplusSample ∧
      (Program.surplusSample Expr.mistypedArguments).check .surplusSample = .ok () ∧
      (Program.surplusSample Expr.mistypedArguments).DistinctParameters ∧
      ∃ m h, Run ⟨.surplusSample, 10⟩ (.surplusSample Expr.mistypedArguments) m h ∧
        m.store.scopes.slot? 0 1 = some (.string "s") ∧
        ¬ ∃ checked, Typing.Check.declarations .surplusSample
            (Program.surplusSample Expr.mistypedArguments).declarations .start = .ok () checked ∧
          h.AsChecked m.store.scopes checked := by
  obtain ⟨h, hrun⟩ := (@Run.start ⟨.surplusSample, 10⟩ (.surplusSample Expr.mistypedArguments)
    .unlimited).run 40
  refine ⟨rfl, rfl, rfl, Program.distinctParameters_surplusSample _, _, h, hrun, rfl, ?_⟩
  rintro ⟨checked, -, hslots⟩
  obtain ⟨-, a, g, ha, hholds, hslot⟩ := hslots 0 1 (.string "s") rfl
  obtain rfl := Option.some.inj (ha.symm.trans hrun.scoped.scopes.global)
  have hx : (Program.surplusSample Expr.mistypedArguments).scope.typeOf? "x" = some .boolean := rfl
  have hboolean : checked.scopes.slot? g 1 = some .boolean := hholds.slot?_of_typeIn? hx
  exact Ty.noConfusion (Option.some.inj (hslot.symm.trans hboolean))

end LexScript
