import LexScript.Proofs.Machine.Entered
import LexScript.Proofs.Machine.Raises

/-!
# Definite initialisation

A name that is looked up during the first run of a program has a value, with three exceptions: a variable
outside the function whose body is run, a parameter without an argument, and a function without a body.
Only these raise the error of a name that is not defined: `Program.definite_initialisation`.
-/

namespace LexScript

/-- A name that is looked up at nested places, with the nearest of them that sees the name, its distance
and its frame. -/
structure Lookup where
  identifier : Identifier
  places : List Place
  distance : Nat
  place : Place
  frame : FrameId

namespace Lookup

def address (l : Lookup) : Address := ⟨l.distance, l.place.scope.slot l.identifier.name⟩

/-- The name is looked up next, on the line. It is used at the places, its address is that of the nearest
one that sees it, and leads to the frame. -/
structure Next (program : Program) (setting : Setting) (m : Machine) (line : Nat) (l : Lookup) :
    Prop where
  looks : m.LooksUpAt l.identifier line
  use : .use l.identifier line l.places ∈ program.occurrences
  nearest : Place.Nearest l.places l.identifier.name l.distance l.place
  address : setting.addresses.get? l.identifier.id = some l.address
  frame : m.store.scopes.ancestor? l.distance m.store.scopes.current = some l.frame

def Defined (l : Lookup) (m : Machine) : Prop := (m.store.scopes.get? l.address).isSome

/-- The names that may be without a value after so many steps of a run. -/
inductive Excused (setting : Setting) (moment : Nat → Machine) (steps : Nat) (l : Lookup) : Prop
  /-- A variable that is declared outside a function in which the name is used. -/
  | variable {i : Identifier}
    (declared : i ∈ Decl.variables (l.place.scope.declarations.take l.place.position))
    (name : i.name = l.identifier.name) {d : Nat} (inside : d < l.distance) {p : Place}
    (around : l.places[d]? = some p) (function : p.scope.IsFunction) :
    Excused setting moment steps l
  /-- A parameter for whose name the call that has made the frame has no argument. -/
  | parameter {earlier : Nat} (before : earlier < steps) {closure : Closure} {arguments : List Value}
    (makes : (moment earlier).MakesFrame setting closure arguments l.frame)
    (scope : l.place.scope = .function closure.header closure.body) {p : Parameter}
    (declared : p ∈ closure.header.parameters) (name : p.identifier.name = l.identifier.name)
    (missing : ∀ q ∈ closure.header.parameters.take arguments.length,
      q.identifier.name ≠ l.identifier.name) :
    Excused setting moment steps l
  /-- A function that its scope declares, but never with a body. -/
  | forward {line : Nat} {header : FunctionHeader}
    (declared : .forward line header ∈ l.place.scope.declarations)
    (name : header.identifier.name = l.identifier.name)
    (bodyless : ∀ line header body, .function line header body ∈ l.place.scope.declarations →
      header.identifier.name ≠ l.identifier.name) :
    Excused setting moment steps l

end Lookup

variable {setting : Setting} {program : Program} {h : History} {m : Machine}
  {activations : List Activation}

/-- Where no function lies in between, the variables before a place have values in the frame that is found
by going outwards. -/
theorem ScopeStack.Ready.filled {s : ScopeStack Value} {f g : FrameId} {places : List Place}
    (hready : s.Ready [] f places) {distance : Nat} {place : Place}
    (hplace : places[distance]? = some place)
    (hbetween : ∀ d < distance, ∀ p, places[d]? = some p → ¬ p.scope.IsFunction)
    (hg : s.ancestor? distance f = some g) {i : Identifier}
    (hi : i ∈ Decl.variables (place.scope.declarations.take place.position)) :
    (s.slot? g (place.scope.slot i.name)).isSome := by
  induction distance generalizing f places with
  | zero =>
    obtain rfl := Option.some.inj hg
    have hhere : s.Declared [] f place := by
      cases hready with
      | function here | outermost here | inner here => exact Option.some.inj hplace ▸ here
    exact (hhere i hi).resolve_left List.not_mem_nil
  | succ distance ih =>
    cases hready with
    | function here function => exact absurd function (hbetween 0 (Nat.succ_pos _) _ rfl)
    | outermost here => cases hplace
    | inner here parent outer =>
      rw [ancestor?, parent] at hg
      exact ih outer hplace (fun d hd p hp => hbetween (d + 1) (Nat.succ_lt_succ hd) p hp) hg

/-- While a name is looked up, no scope is about to be entered. -/
theorem Machine.LooksUpAt.not_enter {n : Identifier} {line : Nat} (h : m.LooksUpAt n line)
    (declarations : List Decl) : m.control ≠ .enter declarations := by
  rcases h with hcontrol | ⟨v, k, hcontrol, -⟩ <;> rw [hcontrol] <;> exact Control.noConfusion

/-- A name is looked up at places before which the variables have values. -/
theorem Machine.Ready.around_lookup (hm : m.Ready program activations) {n : Identifier} {line : Nat}
    (hn : m.LooksUpAt n line) :
    ReadyAround activations m.store.scopes [] m.store.scopes.current fun places =>
      .use n line places ∈ program.occurrences := by
  obtain ⟨control, k, σ⟩ := m
  obtain ⟨promise, hcontrol, hk⟩ := hm
  rcases hn with heq | ⟨v, k', -, hstack⟩
  · obtain rfl := heq
    cases hcontrol with | eval code =>
    exact code.imp fun places h => h (List.mem_singleton_self _)
  · obtain rfl := hstack
    cases hk with | cons ready rest =>
    cases ready with | assign code =>
    exact code

namespace Lookup

/-- The frame of a lookup is an activation of the scope of its place. -/
theorem Next.of_looksUpAt (hids : program.DistinctIdentities)
    (haddresses : Resolutions.ofProgram program = .ok setting.addresses)
    (hrun : Run setting program m h) {n : Identifier} {line : Nat} (hn : m.LooksUpAt n line) :
    ∃ l : Lookup, l.identifier = n ∧ l.Next program setting m line ∧
      m.store.scopes.Ready [] m.store.scopes.current l.places ∧
      ∃ outer, h.activations[l.frame]? = some ⟨l.place.scope, outer⟩ := by
  obtain ⟨places, hnest, hready, huse⟩ := (hrun.ready hids haddresses).around_lookup hn
  obtain ⟨⟨distance, slot⟩, place, f, outer, hget, hnearest, hslot, hancestor, ha⟩ :=
    hnest.locates hids haddresses hrun.records huse
  obtain rfl := hslot
  exact ⟨⟨n, places, distance, place, f⟩, rfl, ⟨hn, huse, hnearest, hget, hancestor⟩, hready, outer, ha⟩

variable {l : Lookup} {line : Nat}

/-- What a lookup finds. -/
theorem Next.get?_eq (hl : l.Next program setting m line) :
    m.store.scopes.get? l.address = m.store.scopes.slot? l.frame l.address.slot := by
  rw [ScopeStack.get?]
  change (m.store.scopes.ancestor? l.distance _).bind _ = _
  simp [hl.frame]

theorem Next.defined_of_slot? (hl : l.Next program setting m line)
    (hslot : (m.store.scopes.slot? l.frame (l.place.scope.slot l.identifier.name)).isSome) :
    l.Defined m := by
  rw [Defined, hl.get?_eq]
  exact hslot

/-- A name that is found to be without a value is not defined. -/
theorem Next.not_defined (hl : l.Next program setting m line) {a : Address}
    (haddress : setting.addresses.get? l.identifier.id = some a)
    (hempty : m.store.scopes.get? a = none) : ¬ l.Defined m := by
  obtain rfl := Option.some.inj (haddress.symm.trans hl.address)
  rw [Defined, hempty]
  exact Bool.noConfusion

/-! ## The three kinds of names -/

variable {moment : Nat → Machine} {steps : Nat} {outer : Option FrameId}

theorem Next.variable (hl : l.Next program setting (moment steps) line)
    (hready : (moment steps).store.scopes.Ready [] (moment steps).store.scopes.current l.places)
    {i : Identifier} (hi : i ∈ Decl.variables (l.place.scope.declarations.take l.place.position))
    (hname : i.name = l.identifier.name) :
    l.Defined (moment steps) ∨ l.Excused setting moment steps := by
  by_cases hcrosses : ∃ d < l.distance, ∃ p, l.places[d]? = some p ∧ p.scope.IsFunction
  · obtain ⟨d, hd, p, hp, hfunction⟩ := hcrosses
    exact .inr (.variable hi hname hd hp hfunction)
  · have hbetween : ∀ d < l.distance, ∀ p, l.places[d]? = some p → ¬ p.scope.IsFunction :=
      fun d hd p hp hfunction => hcrosses ⟨d, hd, p, hp, hfunction⟩
    have hfilled := hready.filled hl.nearest.at_distance hbetween hl.frame hi
    rw [hname] at hfilled
    exact .inl (hl.defined_of_slot? hfilled)

theorem Next.parameter (hl : l.Next program setting (moment steps) line)
    (hcalls : h.RecordsCalls setting moment steps)
    (ha : h.activations[l.frame]? = some ⟨l.place.scope, outer⟩) {i : Identifier}
    (hi : i ∈ l.place.scope.parameters) (hname : i.name = l.identifier.name) :
    l.Defined (moment steps) ∨ l.Excused setting moment steps := by
  have hfunction : l.place.scope.IsFunction := by
    cases hscope : l.place.scope with
    | function => trivial
    | _ =>
      rw [hscope] at hi
      cases hi
  obtain ⟨earlier, hlt, closure, arguments, hmakes, hscope, hfilled⟩ := hcalls _ _ ha hfunction
  dsimp only at hscope hfilled
  by_cases hsupplied : ∃ q ∈ closure.header.parameters.take arguments.length,
      q.identifier.name = l.identifier.name
  · obtain ⟨q, hq, hqname⟩ := hsupplied
    have hslot := hfilled q hq
    rw [hqname] at hslot
    exact .inl (hl.defined_of_slot? hslot)
  · rw [hscope] at hi
    obtain ⟨p, hp, rfl⟩ := List.mem_map.1 hi
    exact .inr (.parameter hlt hmakes hscope hp hname fun q hq hqname => hsupplied ⟨q, hq, hqname⟩)

theorem Next.function (hids : program.DistinctIdentities)
    (haddresses : Resolutions.ofProgram program = .ok setting.addresses)
    (hl : l.Next program setting (moment steps) line) (hrun : Run setting program (moment steps) h)
    (ha : h.activations[l.frame]? = some ⟨l.place.scope, outer⟩) {i : Identifier}
    (hi : i ∈ l.place.scope.declarations.filterMap Resolution.hoisted?)
    (hname : i.name = l.identifier.name) :
    l.Defined (moment steps) ∨ l.Excused setting moment steps := by
  by_cases hbody : ∃ line header body, .function line header body ∈ l.place.scope.declarations ∧
      header.identifier.name = l.identifier.name
  · obtain ⟨line, header, body, hd, hheader⟩ := hbody
    have hentered : ∀ declarations, (moment steps).control = .enter declarations →
        l.frame ≠ (moment steps).store.scopes.current :=
      fun declarations hcontrol => absurd hcontrol (hl.looks.not_enter declarations)
    have hfilled := hrun.functions_filled hids haddresses ha hentered hd
    rw [hheader] at hfilled
    exact .inl (hl.defined_of_slot? hfilled)
  · have hbodyless : ∀ line header body, .function line header body ∈ l.place.scope.declarations →
        header.identifier.name ≠ l.identifier.name :=
      fun line header body hd hheader => hbody ⟨line, header, body, hd, hheader⟩
    obtain ⟨d, hd, hhoisted⟩ := List.mem_filterMap.1 hi
    cases d with
    | function line header body =>
      obtain rfl := Option.some.inj hhoisted
      exact absurd hname (hbodyless line header body hd)
    | forward line header =>
      obtain rfl := Option.some.inj hhoisted
      exact .inr (.forward hd hname hbodyless)
    | _ => cases hhoisted

end Lookup

/-- A name that is looked up has a value, with three exceptions. -/
theorem Machine.LooksUpAt.defined_or_excused (hids : program.DistinctIdentities)
    (haddresses : Resolutions.ofProgram program = .ok setting.addresses) {sink : Sink} {steps : Nat}
    {n : Identifier} {line : Nat} (hn : (program.moment setting sink steps).LooksUpAt n line) :
    ∃ l : Lookup, l.identifier = n ∧ l.Next program setting (program.moment setting sink steps) line ∧
      (l.Defined (program.moment setting sink steps) ∨
        l.Excused setting (program.moment setting sink) steps) := by
  obtain ⟨h, hrun, hcalls⟩ := program.records_calls hids haddresses sink steps
  obtain ⟨l, hidentifier, hl, hready, outer, ha⟩ := Lookup.Next.of_looksUpAt hids haddresses hrun hn
  refine ⟨l, hidentifier, hl, ?_⟩
  obtain ⟨i, hi, hname⟩ := List.mem_map.1 hl.nearest.sees
  rcases List.mem_append.1 hi with hearly | hvariable
  · rcases List.mem_append.1 hearly with hparameter | hfunction
    · exact hl.parameter hcalls ha hparameter hname
    · exact hl.function hids haddresses hrun ha hfunction hname
  · exact hl.variable hready hvariable hname

/-- Definite initialisation. At every moment of the first run of a program, a name that is looked up has a
value, unless it is that of a variable outside a function in which it is used, that of a parameter for
which the call that made its frame has no argument, or that of a function that its scope only declares
without a body. The error of a name that is not defined is raised on the line of such a lookup, and
nothing else raises it. -/
theorem Program.definite_initialisation (hids : program.DistinctIdentities)
    (haddresses : Resolutions.ofProgram program = .ok setting.addresses) (sink : Sink) (steps : Nat) :
    (∀ n line, (program.moment setting sink steps).LooksUpAt n line →
      ∃ l : Lookup, l.identifier = n ∧
        l.Next program setting (program.moment setting sink steps) line ∧
        (l.Defined (program.moment setting sink steps) ∨
          l.Excused setting (program.moment setting sink) steps)) ∧
    ∀ x line, (program.moment setting sink steps).control =
        .ended (.failed ⟨.undefinedVariable x, line⟩) →
      ∃ earlier < steps, ∃ l : Lookup, l.identifier.name = x ∧
        l.Next program setting (program.moment setting sink earlier) line ∧
        ¬ l.Defined (program.moment setting sink earlier) ∧
        l.Excused setting (program.moment setting sink) earlier := by
  refine ⟨fun n line hn => hn.defined_or_excused hids haddresses, fun x line hfailed => ?_⟩
  obtain ⟨earlier, hlt, hraises⟩ := Machine.raised_of_run (fun heq => by cases heq) hfailed
  cases hraises with
  | undefined looks address empty =>
    obtain ⟨l, rfl, hl, hcases⟩ := Machine.LooksUpAt.defined_or_excused hids haddresses looks
    have hnot := hl.not_defined address empty
    exact ⟨earlier, hlt, l, rfl, hl, hnot, hcases.resolve_left hnot⟩
  | values line values => exact values.elim

/-- A function is called before the variable that it prints has a value. -/
def Program.earlySample : Program where
  declarations :=
    [.statement (.expression 1 (.call (.name ⟨"g", 0⟩) [])),
      .binding 2 ⟨"x", 1⟩ .boolean (.literal (.boolean true)),
      .function 3 ⟨⟨"g", 2⟩, [], .void⟩ [.statement (.print 3 (.name ⟨"x", 3⟩))]]
  identifierCount := 4

def Resolutions.earlySample : Resolutions := ⟨#[some ⟨0, 0⟩, some ⟨0, 1⟩, some ⟨0, 0⟩, some ⟨1, 1⟩]⟩

/-- Its run fails at the variable, which is looked up in the function and declared outside it. -/
theorem Program.definite_initialisation_earlySample :
    Program.earlySample.DistinctIdentities ∧
      Resolutions.ofProgram .earlySample = .ok .earlySample ∧
      (Program.earlySample.moment ⟨.earlySample, 10⟩ .unlimited 20).error? =
        some ⟨.undefinedVariable "x", 3⟩ ∧
      ∃ earlier < 20, ∃ l : Lookup, l.identifier.name = "x" ∧
        l.Next .earlySample ⟨.earlySample, 10⟩
          (Program.earlySample.moment ⟨.earlySample, 10⟩ .unlimited earlier) 3 ∧
        l.Excused ⟨.earlySample, 10⟩ (Program.earlySample.moment ⟨.earlySample, 10⟩ .unlimited)
          earlier := by
  have hids : Program.earlySample.DistinctIdentities := by decide
  have haddresses : Resolutions.ofProgram .earlySample = .ok .earlySample := rfl
  obtain ⟨-, hraised⟩ := @definite_initialisation ⟨.earlySample, 10⟩ .earlySample hids haddresses
    .unlimited 20
  obtain ⟨earlier, hlt, l, hname, hl, -, hexcused⟩ := hraised "x" 3 rfl
  exact ⟨hids, haddresses, rfl, earlier, hlt, l, hname, hl, hexcused⟩

end LexScript
