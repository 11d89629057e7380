import LexScript.Proofs.Machine.RuntimeErrors
import LexScript.Proofs.Machine.Typed

/-!
# Every run of a checked program is typed

Each kind of step keeps `Machine.Typed`, and what it stores has the type of the name that it is stored
under. Code that stands in the program obeys the typing rules, so what is asked of the machine alone
concerns the values that it holds.
-/

namespace LexScript

/-- A program that is resolved and checked, in which no function repeats the name of a parameter and no
call has too many arguments. -/
structure Program.Accepted (program : Program) (addresses : Resolutions) : Prop where
  identities : program.DistinctIdentities
  resolved : Resolutions.ofProgram program = .ok addresses
  typed : ∀ p ∈ program.parts, p.WellTyped addresses
  parameters : program.DistinctParameters
  saturated : program.Saturated addresses

/-- A program that is resolved and checked, in which no function repeats the name of a parameter and
arguments without a parameter are admitted. -/
structure Program.Admitted (arity : Arity) (program : Program) (addresses : Resolutions) : Prop where
  identities : program.DistinctIdentities
  resolved : Resolutions.ofProgram program = .ok addresses
  typed : ∀ p ∈ program.parts, p.WellTyped addresses
  parameters : program.DistinctParameters
  admitted : ∀ role line e places, .expression role line e places ∈ program.parts →
    e.Admitted addresses (places.map Place.scope) arity

theorem Program.Accepted.admitted {program : Program} {addresses : Resolutions}
    (h : program.Accepted addresses) : program.Admitted .bounded addresses :=
  ⟨h.identities, h.resolved, h.typed, h.parameters, h.saturated⟩

/-- A program that is resolved and checked, in which parameters of a function that share a name have one
type and arguments without a parameter are admitted. -/
structure Program.Settled (arity : Arity) (program : Program) (addresses : Resolutions) : Prop where
  identities : program.DistinctIdentities
  resolved : Resolutions.ofProgram program = .ok addresses
  typed : ∀ p ∈ program.parts, p.WellTyped addresses
  parameters : program.AgreeingParameters
  admitted : ∀ role line e places, .expression role line e places ∈ program.parts →
    e.Admitted addresses (places.map Place.scope) arity

theorem Program.Admitted.settled {arity : Arity} {program : Program} {addresses : Resolutions}
    (h : program.Admitted arity addresses) : program.Settled arity addresses :=
  ⟨h.identities, h.resolved, h.typed, h.parameters.agreeing, h.admitted⟩

variable {setting : Setting} {program : Program} {h : History} {activations : List Activation}
  {arity : Arity} {m : Machine} {k : List Continuation} {σ : Store} {scopes : List Scope} {t : Ty}

theorem Program.Settled.expression {addresses : Resolutions} (hp : program.Settled arity addresses)
    {role : Role} {line : Nat} {e : Expr} {places : List Place}
    (hpart : .expression role line e places ∈ program.parts) :
    ∃ t, HasType addresses (places.map Place.scope) e t ∧
      e.Admitted addresses (places.map Place.scope) arity ∧
      role.Accepts (places.map Place.scope) t := by
  obtain ⟨t, htype, haccepts⟩ := hp.typed _ hpart
  exact ⟨t, htype, hp.admitted _ _ _ _ hpart, haccepts⟩

namespace Expr.Admitted

variable {addresses : Resolutions}

theorem assign {target : Identifier} {value : Expr}
    (h : (Expr.assign target value).Admitted addresses scopes arity) :
    value.Admitted addresses scopes arity := by
  cases arity with
  | bounded => exact h
  | free => exact h.2

theorem unary {operator : UnaryOperator} {operand : Expr}
    (h : (Expr.unary operator operand).Admitted addresses scopes arity) :
    operand.Admitted addresses scopes arity := by
  cases arity <;> exact h

theorem binary {operator : BinaryOperator} {left right : Expr}
    (h : (Expr.binary operator left right).Admitted addresses scopes arity) :
    left.Admitted addresses scopes arity ∧ right.Admitted addresses scopes arity := by
  cases arity <;> exact h

theorem call {callee : Expr} {arguments : List Expr}
    (h : (Expr.call callee arguments).Admitted addresses scopes arity) :
    callee.Admitted addresses scopes arity ∧ Expr.AllAdmitted addresses scopes arity arguments ∧
      (arity = .bounded → ∀ parameters returns,
        HasType addresses scopes callee (.function parameters returns) →
          arguments.length ≤ parameters.length) := by
  cases arity with
  | bounded => exact ⟨h.1, h.2.1, fun _ => h.2.2⟩
  | free => exact ⟨h.2.1, h.2.2, nofun⟩

theorem cons {e : Expr} {es : List Expr}
    (h : Expr.AllAdmitted addresses scopes arity (e :: es)) :
    e.Admitted addresses scopes arity ∧ Expr.AllAdmitted addresses scopes arity es := by
  cases arity <;> exact h

end Expr.Admitted

namespace Closure

variable {closure : Closure} {values : List Value}

theorem takes_of_types {parameters : List Ty}
    (htypes : closure.header.parameters.map Parameter.type = values.map Value.type ++ parameters)
    (hvalued : ∀ v ∈ values, v.type ≠ .void) : closure.Takes values := by
  intro p v hmem
  obtain ⟨i, hi⟩ := List.mem_iff_getElem?.1 hmem
  obtain ⟨hp, hv⟩ := List.getElem?_zip_eq_some.1 hi
  refine ⟨?_, hvalued v (List.mem_of_getElem? hv)⟩
  have htype : (closure.header.parameters.map Parameter.type)[i]? =
      (values.map Value.type ++ parameters)[i]? := by rw [htypes]
  rw [List.getElem?_map, hp, List.getElem?_append_left, List.getElem?_map, hv] at htype
  · exact (Option.some.inj htype).symm
  · rw [List.length_map]
    exact (List.getElem?_eq_some_iff.1 hv).1

/-- Arguments without a parameter are not looked at. -/
theorem Takes.concat (h : closure.Takes values)
    (hsurplus : closure.header.parameters.length ≤ values.length) (v : Value) : closure.Takes (values ++ [v]) := by
  intro p w hmem
  obtain ⟨i, hi⟩ := List.mem_iff_getElem?.1 hmem
  obtain ⟨hp, hw⟩ := List.getElem?_zip_eq_some.1 hi
  have hlt := (List.getElem?_eq_some_iff.1 hp).1
  rw [List.getElem?_append_left (Nat.lt_of_lt_of_le hlt hsurplus)] at hw
  exact h p w (List.mem_iff_getElem?.2 ⟨i, List.getElem?_zip_eq_some.2 ⟨hp, hw⟩⟩)

end Closure

/-- The frame of an activation lies in activations of the scopes around it. -/
theorem ScopeStack.Scoped.nest (hσ : σ.scopes.Scoped program activations) {f : FrameId}
    (hf : f < activations.length) : ∃ scopes, Nest activations f scopes := by
  obtain ⟨outer, hnest, -⟩ := hσ.activation f _ (List.getElem?_eq_getElem hf)
  exact ⟨_, hnest⟩

/-- A name that is read has a value of its type, or none. -/
theorem Store.read_typed (hp : program.Settled arity setting.addresses) (hrecords : h.Records σ.scopes)
    (hnamed : h.Named) (htyped : h.Typed) {places : List Place}
    (hnest : Nest h.activations σ.scopes.current (places.map Place.scope)) {i : Identifier}
    {used : Nat} (huse : .use i used places ∈ program.occurrences)
    (hi : i.HasType setting.addresses (places.map Place.scope) t) (line : Nat) :
    (σ.read setting.addresses i line).Typed arity (places.map Place.scope) (.value t) := by
  obtain ⟨a, place, f, outer, hget, hnearest, hslot, hancestor, ha⟩ :=
    hnest.locates hp.identities hp.resolved hrecords huse
  rcases hi with ⟨b, scope, hb, hscope, htype⟩
  obtain rfl := Option.some.inj (hget.symm.trans hb)
  rw [List.getElem?_map, hnearest.at_distance] at hscope
  obtain rfl := Option.some.inj hscope
  rw [Store.read_eq (Resolutions.find_of_get? hget line) hancestor]
  cases hv : σ.scopes.slot? f a.slot with
  | none => exact .failed (Cause.Dynamic.allowed trivial)
  | some v =>
    rw [hslot] at hv
    have hstored := hnamed.stored_of_slot? hrecords ha hnearest.sees.registered hv
    have hvalue := (htyped _ _ _ _ hstored).2 _ ha
    exact .value (Option.some.inj (hvalue.symm.trans htype))

theorem Store.assign_typed {addresses : Resolutions} {i : Identifier}
    (hi : i.HasType addresses scopes t) {v : Value} (hv : v.type = t) (line : Nat) :
    (σ.assign addresses i v line).1.Typed arity scopes (.value t) := by
  rcases hi with ⟨a, scope, hget, -⟩
  rw [Store.assign_eq, Resolutions.find_of_get? hget]
  simp only
  split
  · exact .value hv
  · exact .failed (Cause.Dynamic.allowed trivial)

theorem Store.read_anyValue (addresses : Resolutions) (i : Identifier) (line : Nat) :
    (σ.read addresses i line).Typed .free scopes .anyValue := by
  rw [Store.read]
  split
  · exact .failed trivial
  · split
    · exact .anyValue _
    · exact .failed trivial

theorem Outcome.ofResult_anyValue (line : Nat) (result : Except Cause Value) :
    (Outcome.ofResult line result).Typed .free scopes .anyValue := by
  cases result with
  | ok v => exact .anyValue v
  | error cause => exact .failed trivial

/-- A call comes to a value of the return type of its function. -/
theorem Closure.answer_typed {c : Closure} {outcome : Outcome} {outer : List Scope}
    (hreturns : Scope.returns? scopes = some c.header.returns) (ho : outcome.Typed arity scopes .finish)
    (line : Nat) : (c.answer line outcome).Typed arity outer (.value c.header.returns) := by
  cases ho with
  | normal =>
    rw [Closure.answer]
    split
    · rename_i hvoid
      exact .value (Ty.isVoid_eq_true_iff.1 hvoid).symm
    · exact .failed (Cause.Dynamic.allowed trivial)
  | returned expected => exact .value (Option.some.inj (expected.symm.trans hreturns))
  | failed dynamic => exact .failed dynamic

namespace Machine.Typed

variable {addresses : Resolutions}

theorem eval {line : Nat} {e : Expr} (hnest : Nest activations σ.scopes.current scopes)
    (htype : HasType setting.addresses scopes e t)
    (hadmitted : e.Admitted setting.addresses scopes arity)
    (hread : ∀ i, e = .name i → (σ.read setting.addresses i line).Typed arity scopes (.value t))
    (hk : Continuation.AllTyped setting.addresses activations arity σ.scopes.current (.value t) k) :
    (Machine.eval setting line k σ e).Typed setting.addresses activations arity := by
  cases htype with
  | literal literal => exact ⟨scopes, _, hnest, .ended (.value literal.type_toValue), hk⟩
  | name declared => exact ⟨scopes, _, hnest, .ended (hread _ rfl), hk⟩
  | assign typed valued declared =>
    exact ⟨scopes, _, hnest, .eval typed hadmitted.assign, .cons hnest (.assign valued declared) hk⟩
  | unary typed valued result =>
    exact ⟨scopes, _, hnest, .eval typed hadmitted.unary, .cons hnest (.unary result) hk⟩
  | binary first second valued result =>
    exact ⟨scopes, _, hnest, .eval first hadmitted.binary.1,
      .cons hnest (.operand second hadmitted.binary.2 result) hk⟩
  | call typed fit =>
    obtain ⟨hcallee, harguments, henough⟩ := hadmitted.call
    exact ⟨scopes, _, hnest, .eval typed hcallee,
      .cons hnest (.callee fit harguments fun h => henough h _ _ typed) hk⟩

/-- What is stored and who is called is the matter of assignments and calls, and these have types even in
an argument without a parameter. -/
theorem evalAny {line : Nat} {e : Expr} (hnest : Nest activations σ.scopes.current scopes)
    (hadmitted : e.Admitted setting.addresses scopes .free)
    (hk : Continuation.AllTyped setting.addresses activations .free σ.scopes.current .anyValue k) :
    (Machine.eval setting line k σ e).Typed setting.addresses activations .free := by
  cases e with
  | literal literal => exact ⟨scopes, _, hnest, .ended (.anyValue _), hk⟩
  | name i => exact ⟨scopes, _, hnest, .ended (Store.read_anyValue _ i line), hk⟩
  | unary operator operand =>
    exact ⟨scopes, _, hnest, .evalAny rfl hadmitted.unary, .cons hnest (.unaryAny rfl nofun) hk⟩
  | binary operator left right =>
    exact ⟨scopes, _, hnest, .evalAny rfl hadmitted.binary.1,
      .cons hnest (.operandAny rfl nofun hadmitted.binary.2) hk⟩
  | assign target value =>
    obtain ⟨t, htype⟩ := hadmitted.1
    exact eval hnest htype hadmitted nofun (hk.of_anyValue t)
  | call callee arguments =>
    obtain ⟨t, htype⟩ := hadmitted.1
    exact eval hnest htype hadmitted nofun (hk.of_anyValue t)

/-- A statement that opens no scope goes on in the same frame. -/
theorem exec_within (hp : program.Settled arity addresses) {s : Stmt} (hnone : s.scope? = none)
    (hs : Around activations σ.scopes.current (s.At program))
    (hk : Continuation.AllTyped addresses activations arity σ.scopes.current .finish k) :
    (Machine.exec k σ s).Typed addresses activations arity := by
  obtain ⟨places, hnest, hat⟩ := hs
  cases s with
  | block | forLoop => cases hnone
  | expression line value =>
    obtain ⟨t, htype, hadmitted, -⟩ := hp.expression (Stmt.at_expression.1 hat)
    exact ⟨_, _, hnest, .eval htype hadmitted, .cons hnest (.discard t) hk⟩
  | print line value =>
    obtain ⟨t, htype, hadmitted, hvalued⟩ := hp.expression (Stmt.at_print.1 hat)
    exact ⟨_, _, hnest, .eval htype hadmitted, .cons hnest (.print hvalued) hk⟩
  | ifThen line condition thenBranch =>
    obtain ⟨t, htype, hadmitted, rfl⟩ := hp.expression (Stmt.at_ifThen.1 hat).1
    exact ⟨_, _, hnest, .eval htype hadmitted, .cons hnest (.branch ..) hk⟩
  | ifElse line condition thenBranch elseBranch =>
    obtain ⟨t, htype, hadmitted, rfl⟩ := hp.expression (Stmt.at_ifElse.1 hat).1
    exact ⟨_, _, hnest, .eval htype hadmitted, .cons hnest (.branch ..) hk⟩
  | whileLoop line condition body =>
    obtain ⟨t, htype, hadmitted, rfl⟩ := hp.expression (Stmt.at_whileLoop.1 hat).condition
    exact ⟨_, _, hnest, .eval htype hadmitted, .cons hnest (.test _) hk⟩
  | ret line value =>
    cases value with
    | none =>
      have hreturns := hp.typed _ (hat (List.mem_singleton_self _))
      exact ⟨_, _, hnest, .ended (.returned hreturns), hk⟩
    | some e =>
      obtain ⟨t, htype, hadmitted, hreturns⟩ := hp.expression (Stmt.at_ret.1 hat)
      exact ⟨_, _, hnest, .eval htype hadmitted, .cons hnest (.ret hreturns) hk⟩

theorem exec (hp : program.Settled arity addresses) {s : Stmt}
    (hs : Around activations σ.scopes.current (s.At program))
    (hk : Continuation.AllTyped addresses activations arity σ.scopes.current .finish k)
    (hσ : σ.scopes.Scoped program activations) :
    (Machine.exec k σ s).Typed addresses (activations ++ begun setting ⟨.exec s, k, σ⟩) arity := by
  obtain ⟨places, hnest, -⟩ := id hs
  cases s with
  | block line body =>
    have hnew := hσ.activation_new ⟨.block body, some σ.scopes.current⟩
    have houter := hnest.append [⟨.block body, some σ.scopes.current⟩]
    exact ⟨_, _, .inner hnew houter, .enter body,
      .cons (.inner hnew houter) (.leave houter rfl) (hk.append _)⟩
  | forLoop line first condition stepLine step body =>
    have hnew := hσ.activation_new ⟨.loop first, some σ.scopes.current⟩
    have houter := hnest.append [⟨.loop first, some σ.scopes.current⟩]
    exact ⟨_, _, .inner hnew houter, .enter [first], .cons (.inner hnew houter) (.again _)
      (.cons (.inner hnew houter) (.leave houter rfl) (hk.append _))⟩
  | _ => simpa [Stmt.scope?] using exec_within hp rfl hs hk

theorem declare (hp : program.Settled arity addresses) {d : Decl} {ds : List Decl}
    (hds : Around activations σ.scopes.current (Decl.AllAt program (d :: ds)))
    (hk : Continuation.AllTyped addresses activations arity σ.scopes.current .finish k)
    (hσ : σ.scopes.Scoped program activations) :
    (Machine.declare (.sequence ds :: k) σ d).Typed addresses activations arity := by
  rcases hds with ⟨places, hnest, here, outer, rfl, hdeclared, hparts⟩
  obtain ⟨hd, -⟩ := List.append_subset.1 hparts
  have hrest : Continuation.AllTyped addresses activations arity σ.scopes.current .finish
      (.sequence ds :: k) :=
    .cons hnest (.sequence ds) hk
  cases d with
  | binding line identifier type value =>
    obtain ⟨hvalue, -⟩ := List.cons_subset.1 hd
    obtain ⟨t, htype, hadmitted, rfl, hvalued⟩ := hp.expression hvalue
    obtain ⟨_, ha⟩ := hnest.head
    obtain ⟨_, -, hopening, -⟩ := hσ.activation _ _ ha
    have hconsistent := hp.typed _ hopening _ (List.cons_subset.1 hdeclared).1 identifier t (.inr rfl)
    exact ⟨_, _, hnest, .eval htype hadmitted, .cons hnest (.bind hvalued rfl hconsistent) hrest⟩
  | function | forward => exact ⟨_, _, hnest, .ended .normal, hrest⟩
  | statement s => exact ⟨_, _, hnest, .exec s, hrest⟩

theorem enter (hp : program.Settled arity setting.addresses)
    (hσ : σ.scopes.Scoped program activations) {a : Activation}
    (ha : activations[σ.scopes.current]? = some a)
    (hk : Continuation.AllTyped setting.addresses activations arity σ.scopes.current .finish k) :
    (Machine.enter setting k σ a.scope.declarations).Typed setting.addresses activations arity := by
  obtain ⟨scopes, hnest⟩ := hσ.nest hσ.current
  have hnormal := hσ.bind_functions hp.identities hp.resolved ha
  have hcurrent := Store.current_bind setting.addresses
    (Binding.ofFunctions σ.scopes.current a.scope.declarations) σ
  have hstack : Continuation.AllTyped setting.addresses activations arity σ.scopes.current .finish
      (.sequence a.scope.declarations :: k) := .cons hnest (.sequence _) hk
  rw [← hcurrent] at hnest hstack
  refine ⟨scopes, .finish, hnest, .ended ?_, hstack⟩
  rw [hnormal]
  exact .normal

theorem call (hp : program.Settled arity setting.addresses)
    (hσ : σ.scopes.Scoped program activations) {closure : Closure} {arguments : List Value}
    {line : Nat} (hclosure : closure.Scoped activations)
    (hk : Continuation.AllTyped setting.addresses activations arity σ.scopes.current
      (.value closure.header.returns) k) :
    (Machine.call setting k σ closure arguments line).Typed setting.addresses
      (activations ++ begun setting ⟨.call closure arguments line, k, σ⟩) arity := by
  by_cases hdepth : setting.maxCallDepth ≤ σ.depth
  · rw [begun_call_of_le hdepth, List.append_nil, call_of_le hdepth]
    obtain ⟨scopes, hnest⟩ := hσ.nest hσ.current
    exact ⟨scopes, _, hnest, .ended (.failed (Cause.Dynamic.allowed trivial)), hk⟩
  rw [begun_call_of_lt hdepth, call_of_lt hdepth]
  obtain ⟨outer, hnest, -⟩ := hσ.function hclosure
  have hinside : Nest (activations ++ [closure.activation]) σ.scopes.frames.size
      (.function closure.header closure.body :: outer.map Place.scope) :=
    .inner (hσ.activation_new closure.activation) (hnest.append _)
  have hnormal := hσ.bind_parameters hp.identities hp.resolved hclosure arguments line
    (σ.enterCall closure.frame)
  have hcurrent := Store.current_bind setting.addresses
    (Binding.ofArguments closure.header.parameters arguments line) (σ.enterCall closure.frame)
  have hstack : Continuation.AllTyped setting.addresses (activations ++ [closure.activation]) arity
      σ.scopes.frames.size .finish (.endCall σ.scopes.current closure line :: k) :=
    .cons hinside (.endCall rfl) (hk.append _)
  have hentered : (σ.enterCall closure.frame).scopes.current = σ.scopes.frames.size := rfl
  rw [← hentered, ← hcurrent] at hinside hstack
  refine ⟨_, .finish, hinside, ?_, hstack⟩
  simp only
  rw [hnormal]
  exact .enter closure.body

theorem nextSurplus {closure : Closure} {values : List Value} {line : Nat} {rest : List Expr}
    (hnest : Nest activations σ.scopes.current scopes) (htakes : closure.Takes values.reverse)
    (hsurplus : closure.header.parameters.length ≤ values.length)
    (hadmitted : Expr.AllAdmitted addresses scopes .free rest)
    (hk : Continuation.AllTyped addresses activations .free σ.scopes.current
      (.value closure.header.returns) k) :
    (Machine.nextArgument k σ closure values line rest).Typed addresses activations .free := by
  cases rest with
  | nil => exact ⟨scopes, _, hnest, .call htakes, hk⟩
  | cons e es =>
    obtain ⟨he, hes⟩ := Expr.Admitted.cons hadmitted
    exact ⟨scopes, _, hnest, .evalAny rfl he,
      .cons hnest (.argumentAny rfl nofun htakes hsurplus hes) hk⟩

theorem nextArgument {closure : Closure} {values : List Value} {line : Nat} {rest : List Expr}
    {parameters : List Ty} (hnest : Nest activations σ.scopes.current scopes)
    (htypes : closure.header.parameters.map Parameter.type =
      values.reverse.map Value.type ++ parameters)
    (hvalued : ∀ v ∈ values, v.type ≠ .void) (hfit : Fits addresses scopes rest parameters)
    (hadmitted : Expr.AllAdmitted addresses scopes arity rest)
    (henough : arity = .bounded → rest.length ≤ parameters.length)
    (hk : Continuation.AllTyped addresses activations arity σ.scopes.current
      (.value closure.header.returns) k) :
    (Machine.nextArgument k σ closure values line rest).Typed addresses activations arity := by
  have htakes : closure.Takes values.reverse :=
    Closure.takes_of_types htypes fun v hv => hvalued v (List.mem_reverse.1 hv)
  cases rest with
  | nil => exact ⟨scopes, _, hnest, .call htakes, hk⟩
  | cons e es =>
    cases hfit with
    | surplus =>
      cases arity with
      | bounded => simp at henough
      | free =>
        have hlength := congrArg List.length htypes
        simp only [List.append_nil, List.length_map, List.length_reverse] at hlength
        exact nextSurplus hnest htakes (Nat.le_of_eq hlength) hadmitted hk
    | cons typed valued rest =>
      obtain ⟨he, hes⟩ := Expr.Admitted.cons hadmitted
      have hargument : Continuation.Typed addresses activations arity scopes (.value _)
          (.argument closure values es line) (.value closure.header.returns) :=
        .argument htypes ⟨valued, hvalued⟩ rest hes fun h => Nat.le_of_succ_le_succ (henough h)
      exact ⟨scopes, _, hnest, .eval typed he, .cons hnest hargument hk⟩

/-- A loop begins with its condition. -/
theorem condition_typed (hp : program.Settled arity addresses) {loop : Loop}
    (hloop : Around activations σ.scopes.current (loop.At program))
    (hk : Continuation.AllTyped addresses activations arity σ.scopes.current .finish k) :
    Machine.Typed addresses activations arity ⟨.eval loop.line loop.condition, .test loop :: k, σ⟩ := by
  rcases hloop with ⟨places, hnest, hat⟩
  obtain ⟨t, htype, hadmitted, rfl⟩ := hp.expression hat.condition
  exact ⟨_, _, hnest, .eval htype hadmitted, .cons hnest (.test loop) hk⟩

/-! ### An outcome for each kind of continuation -/

section

variable {awaited next : Awaited} {line : Nat} {v : Value}
  (hnest : Nest activations σ.scopes.current scopes) (ho : (Outcome.value v).Typed arity scopes awaited)
  (hk : Continuation.AllTyped setting.addresses activations arity σ.scopes.current next k)

include hnest ho hk

theorem resume_operand {operator : BinaryOperator} {right : Expr}
    (hc : (Continuation.operand operator right line).Typed setting.addresses activations arity scopes
      awaited next) :
    (Machine.resume setting k σ (.operand operator right line) (.value v)).Typed setting.addresses
      activations arity := by
  cases hc with
  | operand typed admitted result =>
    cases ho with | value hleft =>
    subst hleft
    exact ⟨scopes, _, hnest, .eval typed admitted, .cons hnest (.binary result) hk⟩
  | operandAny free _ admitted =>
    exact ⟨scopes, _, hnest, .evalAny free admitted, .cons hnest (.binaryAny free nofun) hk⟩

theorem resume_binary {operator : BinaryOperator} {left : Value}
    (hc : (Continuation.binary operator left line).Typed setting.addresses activations arity scopes
      awaited next) :
    (Machine.resume setting k σ (.binary operator left line) (.value v)).Typed setting.addresses
      activations arity := by
  cases hc with
  | binary result =>
    cases ho with | value hright =>
    subst hright
    exact ⟨scopes, _, hnest, .ended (BinaryOperator.apply_typed result line), hk⟩
  | binaryAny free _ =>
    subst free
    exact ⟨scopes, _, hnest, .ended (Outcome.ofResult_anyValue line _), hk⟩

theorem resume_unary {operator : UnaryOperator}
    (hc : (Continuation.unary operator line).Typed setting.addresses activations arity scopes
      awaited next) :
    (Machine.resume setting k σ (.unary operator line) (.value v)).Typed setting.addresses activations
      arity := by
  cases hc with
  | unary result =>
    cases ho with | value hoperand =>
    subst hoperand
    exact ⟨scopes, _, hnest, .ended (UnaryOperator.apply_typed result line), hk⟩
  | unaryAny free _ =>
    subst free
    exact ⟨scopes, _, hnest, .ended (Outcome.ofResult_anyValue line _), hk⟩

theorem resume_assign {target : Identifier}
    (hc : (Continuation.assign target line).Typed setting.addresses activations arity scopes
      awaited next) :
    (Machine.resume setting k σ (.assign target line) (.value v)).Typed setting.addresses activations
      arity := by
  cases hc with | assign valued declared =>
  cases ho with | value hv =>
  rw [← σ.current_assign setting.addresses target v line] at hnest hk
  exact ⟨scopes, _, hnest, .ended (Store.assign_typed declared hv line), hk⟩

theorem resume_callee {arguments : List Expr}
    (hc : (Continuation.callee arguments line).Typed setting.addresses activations arity scopes
      awaited next) :
    (Machine.resume setting k σ (.callee arguments line) (.value v)).Typed setting.addresses activations
      arity := by
  cases hc with | callee fit admitted enough =>
  cases ho with | value hv =>
  obtain ⟨closure, rfl, rfl, rfl⟩ := Value.eq_function hv
  exact nextArgument hnest rfl (by simp) fit admitted enough hk

theorem resume_argument {closure : Closure} {values : List Value} {rest : List Expr}
    (hc : (Continuation.argument closure values rest line).Typed setting.addresses activations arity scopes
      awaited next) :
    (Machine.resume setting k σ (.argument closure values rest line) (.value v)).Typed setting.addresses
      activations arity := by
  cases hc with
  | argument typed valued fit admitted enough =>
    cases ho with | value hv =>
    subst hv
    have hvalued : ∀ w ∈ v :: values, w.type ≠ .void := by simpa using valued
    exact nextArgument hnest (by simp [typed]) hvalued fit admitted enough hk
  | argumentAny free _ takes surplus admitted =>
    subst free
    have hsurplus : closure.header.parameters.length ≤ values.reverse.length := by simpa using surplus
    have htakes : closure.Takes (v :: values).reverse := by simpa using takes.concat hsurplus v
    exact nextSurplus hnest htakes (Nat.le_succ_of_le surplus) admitted hk

theorem resume_print
    (hc : (Continuation.print line).Typed setting.addresses activations arity scopes awaited next) :
    (Machine.resume setting k σ (.print line) (.value v)).Typed setting.addresses activations arity := by
  cases hc
  rw [Machine.resume, Store.print]
  simp only
  split
  · exact ⟨scopes, _, hnest, .ended .normal, hk⟩
  · exact ⟨scopes, _, hnest, .ended (.failed (Cause.Dynamic.allowed trivial)), hk⟩

theorem resume_branch {thenBranch : Stmt} {elseBranch : Option Stmt}
    (hc : (Continuation.branch line thenBranch elseBranch).Typed setting.addresses activations arity scopes
      awaited next) :
    (Machine.resume setting k σ (.branch line thenBranch elseBranch) (.value v)).Typed setting.addresses
      activations arity := by
  cases hc
  cases ho with | value hv =>
  obtain ⟨b, rfl⟩ := Value.eq_boolean hv
  cases b with
  | true => exact ⟨scopes, _, hnest, .exec thenBranch, hk⟩
  | false =>
    cases elseBranch with
    | none => exact ⟨scopes, _, hnest, .ended .normal, hk⟩
    | some s => exact ⟨scopes, _, hnest, .exec s, hk⟩

theorem resume_test {loop : Loop}
    (hc : (Continuation.test loop).Typed setting.addresses activations arity scopes awaited next) :
    (Machine.resume setting k σ (.test loop) (.value v)).Typed setting.addresses activations arity := by
  cases hc
  cases ho with | value hv =>
  obtain ⟨b, rfl⟩ := Value.eq_boolean hv
  cases b with
  | true => exact ⟨scopes, _, hnest, .exec loop.body, .cons hnest (.step loop) hk⟩
  | false => exact ⟨scopes, _, hnest, .ended .normal, hk⟩

theorem resume_bind (hp : program.Settled arity setting.addresses) {identifier : Identifier}
    (hscoped : (Continuation.bind identifier line).Scoped program activations σ.scopes.current)
    (hc : (Continuation.bind identifier line).Typed setting.addresses activations arity scopes awaited next) :
    (Machine.resume setting k σ (.bind identifier line) (.value v)).Typed setting.addresses activations
      arity := by
  cases hc
  obtain ⟨a, -, hbinding⟩ := hscoped
  have hget := Resolutions.get?_binding hp.identities hp.resolved hbinding
  have hnormal : (σ.bind setting.addresses [⟨identifier, v, line⟩]).1 = .normal :=
    Store.bind_eq_normal (List.forall_mem_singleton.2 ⟨_, hget⟩) σ
  have houtcome : (σ.bind setting.addresses [⟨identifier, v, line⟩]).1.Typed arity scopes .finish := by
    rw [hnormal]
    exact .normal
  rw [← Store.current_bind setting.addresses [⟨identifier, v, line⟩] σ] at hnest hk
  exact ⟨scopes, .finish, hnest, .ended houtcome, hk⟩

end

theorem resume_step (hp : program.Settled arity setting.addresses) {loop : Loop}
    (hloop : Around activations σ.scopes.current (loop.At program))
    (hnest : Nest activations σ.scopes.current scopes)
    (hk : Continuation.AllTyped setting.addresses activations arity σ.scopes.current .finish k) :
    (Machine.resume setting k σ (.step loop) .normal).Typed setting.addresses activations arity := by
  obtain ⟨line, condition, step, body⟩ := loop
  cases step with
  | none => exact condition_typed hp hloop hk
  | some step => exact ⟨scopes, _, hnest, .exec _, .cons hnest (.again _) hk⟩

theorem resume (hp : program.Settled arity setting.addresses)
    (hσ : σ.scopes.Scoped program activations) {c : Continuation} {outcome : Outcome}
    {awaited next : Awaited} (hscoped : c.Scoped program activations σ.scopes.current)
    (hnest : Nest activations σ.scopes.current scopes)
    (hc : c.Typed setting.addresses activations arity scopes awaited next)
    (ho : outcome.Typed arity scopes awaited)
    (hk : Continuation.AllTyped setting.addresses activations arity (c.after σ.scopes.current) next k) :
    (Machine.resume setting k σ c outcome).Typed setting.addresses activations arity := by
  rcases c.accepts_or_passes outcome with haccepts | hpasses
  · cases haccepts with
    | operand => exact resume_operand hnest ho hk hc
    | binary => exact resume_binary hnest ho hk hc
    | unary => exact resume_unary hnest ho hk hc
    | assign => exact resume_assign hnest ho hk hc
    | callee => exact resume_callee hnest ho hk hc
    | argument => exact resume_argument hnest ho hk hc
    | print => exact resume_print hnest ho hk hc
    | branch => exact resume_branch hnest ho hk hc
    | test => exact resume_test hnest ho hk hc
    | bind => exact resume_bind hnest ho hk hp hscoped hc
    | discard =>
      cases hc
      exact ⟨scopes, _, hnest, .ended .normal, hk⟩
    | step =>
      cases hc
      exact resume_step hp hscoped hnest hk
    | again =>
      cases hc
      exact condition_typed hp hscoped hk
    | ret =>
      cases hc with | ret expected =>
      cases ho with | value hv =>
      subst hv
      exact ⟨scopes, _, hnest, .ended (.returned expected), hk⟩
    | sequence =>
      cases hc
      exact declare hp hscoped hk hσ
    | leave =>
      cases hc with | leave nest returns =>
      exact ⟨_, _, nest, .ended (ho.of_returns returns), hk⟩
    | endCall frame closure line outcome =>
      cases hc with | endCall returns =>
      obtain ⟨outer, houter⟩ := hσ.nest hscoped
      exact ⟨outer, _, houter, .ended (closure.answer_typed returns ho line), hk⟩
  · rw [hpasses.after] at hk
    rw [hpasses.resume]
    exact ⟨scopes, _, hnest, .ended (hc.of_passes ho hpasses), hk⟩

theorem step (hp : program.Settled arity setting.addresses) (hrecords : h.Records m.store.scopes)
    (hnamed : h.Named) (hstored : h.Typed) (hm : m.Scoped program h.activations)
    (htyped : m.Typed setting.addresses h.activations arity) :
    (m.step setting).Typed setting.addresses (h.activations ++ m.begun setting) arity := by
  obtain ⟨control, k, σ⟩ := m
  obtain ⟨hσ, hscoped, hstack⟩ := hm
  obtain ⟨scopes, awaited, hnest, hcontrol, hk⟩ := id htyped
  cases hcontrol with
  | @eval line e t typed admitted =>
    obtain ⟨places, hplaces, he⟩ := hscoped
    obtain rfl := hnest.unique hplaces
    have hread : ∀ i, e = .name i →
        (σ.read setting.addresses i line).Typed arity (places.map Place.scope) (.value t) := by
      rintro i rfl
      cases typed with | name declared =>
      have huse := he (List.mem_singleton_self _)
      exact Store.read_typed hp hrecords hnamed hstored hnest huse declared line
    simpa [Machine.step] using eval hnest typed admitted hread hk
  | evalAny free admitted =>
    subst free
    simpa [Machine.step] using evalAny hnest admitted hk
  | exec s => exact exec hp hscoped hk hσ
  | enter declarations =>
    obtain ⟨a, ha, rfl⟩ := hscoped
    simpa [Machine.step] using enter hp hσ ha hk
  | call takes => exact call hp hσ hscoped.1 hk
  | @ended _ outcome typed =>
    cases hk with
    | nil => simpa [Machine.step] using htyped
    | @cons _ scopes' _ next c k nest ctyped rest =>
      -- The scopes around a frame are unique, so the outcome is typed where the continuation waits.
      obtain rfl := hnest.unique nest
      simpa [Machine.step] using resume hp hσ hstack.1 hnest ctyped typed rest

/-- The start of a run in the global frame. -/
theorem launch (hm : (program.launch σ).Scoped program activations) :
    (program.launch σ).Typed addresses activations arity := by
  obtain ⟨scopes, hnest⟩ := hm.scopes.nest hm.scopes.current
  exact ⟨scopes, .finish, hnest, .enter _, .nil _⟩

end Machine.Typed
end LexScript
