import LexScript.Proofs.Machine.TypeSoundness

/-!
# Calls with missing arguments

The check binds the types of all parameters in order, and a call binds the arguments that there are. Both
do so in slots that parameters of one name share. Where such parameters have one type, every slot of the
frame of a call is empty or holds a value of the type that the check records for it, however many
arguments there are: `Run.parameters_as_checked`. The check does not ask for this, and where the types
differ, a slot may hold a value of another type: `Run.parameter_mistyped_repeatedSample`.
-/

namespace LexScript

variable {addresses : Resolutions} {setting : Setting} {program : Program} {h : History}
  {k : List Continuation} {σ : Store} {closure : Closure} {arguments : List Value} {line : Nat}

/-! ## The slots that the check binds -/

/-- Binding the types of parameters leaves in each slot the type of one to which the slot belongs, or what
was there. -/
theorem Typing.Check.bindParameters_slots (line : Nat) {scope : Scope} {parameters : List Parameter}
    (hget : ∀ p ∈ parameters,
      addresses.get? p.identifier.id = some ⟨0, scope.slot p.identifier.name⟩)
    {s : State} (hs : s.scopes.current < s.scopes.frames.size) :
    ∃ t, bindParameters addresses line parameters s = .ok () t ∧
      t.scopes.current = s.scopes.current ∧
      ∀ i, (∃ p ∈ parameters, scope.slot p.identifier.name = i ∧
          t.scopes.slot? s.scopes.current i = some p.type) ∨
        (∀ p ∈ parameters, scope.slot p.identifier.name ≠ i) ∧
          t.scopes.slot? s.scopes.current i = s.scopes.slot? s.scopes.current i := by
  induction parameters generalizing s with
  | nil => exact ⟨s, rfl, rfl, fun i => .inr ⟨by simp, rfl⟩⟩
  | cons p ps ih =>
    rw [List.forall_mem_cons] at hget
    let defined : State :=
      { s with scopes := s.scopes.define (scope.slot p.identifier.name) p.type }
    have hdefined : defined.scopes.current < defined.scopes.frames.size := by
      change s.scopes.current < (s.scopes.frames.modify _ _).size
      rwa [Array.size_modify]
    obtain ⟨t, ht, hcurrent, hslots⟩ := ih hget.2 hdefined
    refine ⟨t, ?_, hcurrent, fun i => ?_⟩
    · rw [bindParameters, Resolutions.find_of_get? hget.1]
      exact ht
    · rcases hslots i with ⟨q, hq, hslot, htype⟩ | ⟨hothers, hsame⟩
      · exact .inl ⟨q, List.mem_cons_of_mem _ hq, hslot, htype⟩
      · have hwrite := s.scopes.slot?_write hs s.scopes.current (scope.slot p.identifier.name) i p.type
        by_cases hp : scope.slot p.identifier.name = i
        · rw [if_pos ⟨rfl, hp⟩] at hwrite
          exact .inl ⟨p, List.mem_cons_self .., hp, hsame.trans hwrite⟩
        · rw [if_neg (fun hboth => hp hboth.2)] at hwrite
          exact .inr ⟨List.forall_mem_cons.2 ⟨hp, hothers⟩, hsame.trans hwrite⟩

/-! ## The slots that a call binds -/

/-- The slots of parameters tell their names apart. -/
theorem Scope.name_eq_of_slot {header : FunctionHeader} (body : List Decl) {p q : Parameter}
    (hp : p ∈ header.parameters) (hq : q ∈ header.parameters)
    (hslot : (Scope.function header body).slot p.identifier.name =
      (Scope.function header body).slot q.identifier.name) :
    p.identifier.name = q.identifier.name := by
  have hregistered : ∀ r ∈ header.parameters,
      r.identifier.name ∈ (Scope.function header body).registered.map Identifier.name := by
    intro r hr
    have hearly : r.identifier ∈ (Scope.function header body).early :=
      List.mem_append_left _ (List.mem_map_of_mem hr)
    exact List.mem_map_of_mem (Scope.early_subset_registered _ hearly)
  exact ScopeNames.eq_of_rank_eq (hregistered p hp) (hregistered q hq) hslot

/-- What the frame of a call holds when the body begins are arguments, in the slots of their parameters. -/
theorem Run.slot_of_call (hids : program.DistinctIdentities)
    (haddresses : Resolutions.ofProgram program = .ok setting.addresses)
    (hrun : Run setting program ⟨.call closure arguments line, k, σ⟩ h) {i : Nat} {v : Value}
    (hv : (Machine.call setting k σ closure arguments line).store.scopes.slot? σ.scopes.frames.size i =
      some v) :
    ∃ p, (p, v) ∈ closure.header.parameters.zip arguments ∧
      (Scope.function closure.header closure.body).slot p.identifier.name = i := by
  obtain ⟨outer, -, hopening, -⟩ := hrun.scoped.scopes.function hrun.scoped.control.1
  have hslots := hrun.step.records.slots σ.scopes.frames.size i
  obtain ⟨⟨x, w⟩, hstored, rfl⟩ := Option.map_eq_some_iff.1 (hslots.symm.trans hv)
  rcases History.stored_next hstored with hbefore | hnow
  · have hlt := hrun.stored_lt hbefore
    rw [← hrun.scoped.scopes.size] at hlt
    exact absurd hlt (Nat.lt_irrefl _)
  · cases Machine.writes_of_mem hnow with
    | @parameter _ _ _ _ _ b a depth bound found =>
      obtain ⟨p, hpair, hidentifier⟩ := Binding.mem_zip_of_mem_ofArguments bound
      have hearly := Binding.early_of_mem_ofArguments closure.body bound
      rw [Resolutions.get?_early hids haddresses hopening hearly] at found
      obtain rfl := Option.some.inj found
      exact ⟨p, hpair, by rw [hidentifier]⟩

theorem Parameter.mem_take_of_mem_zip {parameters : List Parameter} {arguments : List Value}
    {p : Parameter} {v : Value} (h : (p, v) ∈ parameters.zip arguments) :
    p ∈ parameters.take arguments.length := by
  rw [List.zip_eq_zip_take_min] at h
  exact (List.take_subset_take_left _ (Nat.min_le_right ..)) (List.of_mem_zip h).1

/-- What the frame holds has the types that the check has bound in its current frame. -/
def ScopeStack.FrameAsChecked (s : ScopeStack Value) (f : FrameId) (checked : Typing.State) : Prop :=
  ∀ i v, s.slot? f i = some v →
    v.type ≠ .void ∧ checked.scopes.slot? checked.scopes.current i = some v.type

/-- Missing arguments leave parameters unbound. A program is resolved and checked, parameters of a function
that share a name have one type, and no call has more arguments than the type of its callee has
parameters. At every call of every run, when the body begins, a slot of the new frame that is not empty
holds a value of the type that the check has bound there before it comes to the body, in whatever state
it begins with the function. The slot of a parameter is empty if there is no argument for its name. -/
theorem Run.parameters_as_checked {tokens : List Token} {maxCallDepth : Nat} {m : Machine}
    (hprogram : Program.ofTokens tokens = .ok program)
    (haddresses : Resolutions.ofProgram program = .ok addresses)
    (hcheck : program.check addresses = .ok ()) (hagreeing : program.AgreeingParameters)
    (hsaturated : program.Saturated addresses) (hrun : Run ⟨addresses, maxCallDepth⟩ program m h)
    (hcall : m.control = .call closure arguments line) (hdepth : ¬ maxCallDepth ≤ m.store.depth) :
    (m.step ⟨addresses, maxCallDepth⟩).control = .enter closure.body ∧
      (m.step ⟨addresses, maxCallDepth⟩).store.scopes.current = m.store.scopes.frames.size ∧
      (∀ (state : Typing.State) (headerLine : Nat), ∃ checked,
        Typing.Check.bindParameters addresses headerLine closure.header.parameters
            ⟨state.scopes.enter, closure.header.returns :: state.returns⟩ = .ok () checked ∧
          (m.step ⟨addresses, maxCallDepth⟩).store.scopes.FrameAsChecked m.store.scopes.frames.size
            checked) ∧
      ∀ p ∈ closure.header.parameters, ∀ a, addresses.get? p.identifier.id = some a →
        (∀ q ∈ closure.header.parameters.take arguments.length,
          q.identifier.name ≠ p.identifier.name) →
        (m.step ⟨addresses, maxCallDepth⟩).store.scopes.slot? m.store.scopes.frames.size a.slot =
          none := by
  have hids : program.DistinctIdentities := .ofTokens hprogram
  have hsettled : program.Settled .bounded addresses :=
    ⟨hids, haddresses, (Program.check_wellTyped hids haddresses).1 hcheck, hagreeing, hsaturated⟩
  obtain ⟨⟨scopes, awaited, -, hcontrol, -⟩, -⟩ := hrun.typed_of_settled hsettled
  obtain ⟨control, k, σ⟩ := m
  obtain rfl := hcall
  cases hcontrol with | call takes =>
  obtain ⟨outer, -, hopening, -⟩ := hrun.scoped.scopes.function hrun.scoped.control.1
  have hbegin : ¬ (Setting.mk addresses maxCallDepth).maxCallDepth ≤ σ.depth := hdepth
  obtain ⟨hbegins, hcurrent⟩ := hrun.scoped.body_begins hids haddresses hbegin
  have hget : ∀ p ∈ closure.header.parameters, addresses.get? p.identifier.id =
      some ⟨0, (Scope.function closure.header closure.body).slot p.identifier.name⟩ := by
    intro p hp
    exact Resolutions.get?_early hids haddresses hopening
      (List.mem_append_left _ (List.mem_map_of_mem hp))
  refine ⟨hbegins, hcurrent, fun state headerLine => ?_, fun p hp a ha hothers => ?_⟩
  · have hentered : state.scopes.enter.current < state.scopes.enter.frames.size := by
      change state.scopes.frames.size < (state.scopes.frames.push _).size
      rw [Array.size_push]
      exact Nat.lt_succ_self _
    obtain ⟨checked, hchecked, hsame, hslots⟩ :=
      Typing.Check.bindParameters_slots headerLine hget (s := ⟨state.scopes.enter, _⟩) hentered
    refine ⟨checked, hchecked, fun i v hv => ?_⟩
    obtain ⟨p, hpair, hslot⟩ := hrun.slot_of_call hids haddresses hv
    have hp := (List.of_mem_zip hpair).1
    obtain ⟨htype, hvalued⟩ := takes p v hpair
    refine ⟨hvalued, ?_⟩
    rw [hsame, htype]
    rcases hslots i with ⟨q, hq, hslot', hrecorded⟩ | ⟨hnone, -⟩
    · -- The check may have bound the slot for another parameter, of the same name and type.
      have hname := Scope.name_eq_of_slot closure.body hq hp (hslot'.trans hslot.symm)
      simp [hrecorded, hagreeing _ _ _ hopening q hq p hp hname]
    · exact absurd hslot (hnone p hp)
  · obtain rfl := Option.some.inj (ha.symm.trans (hget p hp))
    refine Option.eq_none_iff_forall_not_mem.2 fun v hv => ?_
    obtain ⟨q, hpair, hslot⟩ := hrun.slot_of_call hids haddresses hv
    refine hothers q (Parameter.mem_take_of_mem_zip hpair) ?_
    exact Scope.name_eq_of_slot closure.body (List.of_mem_zip hpair).1 hp hslot

/-! ## A name that is repeated -/

/-- The tokens of a program with a function that repeats the name of a parameter, with the given type, and
is called with one argument for three parameters. -/
def Token.repeatedSample (type : String) : List Token :=
  [⟨.fnWord, "fn", 1⟩, ⟨.identifier, "f", 1⟩, ⟨.openParen, "(", 1⟩, ⟨.identifier, "a", 1⟩,
    ⟨.colon, ":", 1⟩, ⟨.identifier, "bool", 1⟩, ⟨.comma, ",", 1⟩, ⟨.identifier, "a", 1⟩,
    ⟨.colon, ":", 1⟩, ⟨.identifier, type, 1⟩, ⟨.comma, ",", 1⟩, ⟨.identifier, "b", 1⟩,
    ⟨.colon, ":", 1⟩, ⟨.identifier, "string", 1⟩, ⟨.closeParen, ")", 1⟩, ⟨.openCurly, "\x7b", 1⟩,
    ⟨.printWord, "print", 1⟩, ⟨.openParen, "(", 1⟩, ⟨.identifier, "a", 1⟩, ⟨.closeParen, ")", 1⟩,
    ⟨.semicolon, ";", 1⟩, ⟨.closeCurly, "\x7d", 1⟩,
    ⟨.identifier, "f", 2⟩, ⟨.openParen, "(", 2⟩, ⟨.trueWord, "true", 2⟩, ⟨.closeParen, ")", 2⟩,
    ⟨.semicolon, ";", 2⟩]

def FunctionHeader.repeatedSample (t : Ty) : FunctionHeader :=
  ⟨⟨"f", 0⟩, [⟨⟨"a", 1⟩, .boolean⟩, ⟨⟨"a", 2⟩, t⟩, ⟨⟨"b", 3⟩, .string⟩], .void⟩

def Program.repeatedSample (t : Ty) : Program where
  declarations :=
    [.function 1 (.repeatedSample t) [.statement (.print 1 (.name ⟨"a", 4⟩))],
      .statement (.expression 2 (.call (.name ⟨"f", 5⟩) [.literal (.boolean true)]))]
  identifierCount := 6

def Resolutions.repeatedSample : Resolutions :=
  ⟨#[some ⟨0, 0⟩, some ⟨0, 0⟩, some ⟨0, 0⟩, some ⟨0, 1⟩, some ⟨0, 0⟩, some ⟨0, 0⟩]⟩

/-- The moment of its run at which the function is called. -/
def Machine.repeatedSample (t : Ty) : Machine :=
  .run ⟨.repeatedSample, 10⟩ 9 ((Program.repeatedSample t).launch (.start .unlimited))

namespace Program

theorem agreeingParameters_repeatedSample : (repeatedSample .boolean).AgreeingParameters := by
  intro header body outer hopening
  have hheader : header = .repeatedSample .boolean := by
    simp only [parts, scope, repeatedSample, Decl.partsFrom, Decl.parts, Stmt.parts] at hopening
    simp at hopening
    exact hopening.1.1
  subst hheader
  decide

/-- The call has one argument for three parameters. -/
theorem saturated_repeatedSample (t : Ty) : (repeatedSample t).Saturated .repeatedSample := by
  intro role line e places hpart
  have he : e = .name ⟨"a", 4⟩ ∨ e = .call (.name ⟨"f", 5⟩) [.literal (.boolean true)] ∧
      places.map Place.scope = [(repeatedSample t).scope] := by
    simp only [parts, scope, repeatedSample, Decl.partsFrom, Decl.parts, Stmt.parts] at hpart
    simp at hpart
    rcases hpart with ⟨-, -, he, -⟩ | ⟨-, -, he, hplaces⟩
    · exact .inl he
    · subst hplaces
      exact .inr ⟨he, rfl⟩
  rcases he with rfl | ⟨rfl, hscopes⟩
  · trivial
  · have hf : HasType .repeatedSample [(repeatedSample t).scope] (.name ⟨"f", 5⟩)
        (.function [.boolean, t, .string] .void) := .name ⟨⟨0, 0⟩, _, rfl, rfl, rfl⟩
    rw [hscopes]
    refine ⟨trivial, ⟨trivial, trivial⟩, fun parameters returns htype => ?_⟩
    obtain ⟨rfl, -⟩ := Ty.function.inj (HasType.unique _ htype hf)
    simp

end Program

/-- With one type for both, the slot that the first two parameters share holds the argument, and that of the
third one is empty. -/
theorem Run.parameters_as_checked_repeatedSample :
    Program.ofTokens (Token.repeatedSample "bool") = .ok (.repeatedSample .boolean) ∧
      Resolutions.ofProgram (.repeatedSample .boolean) = .ok .repeatedSample ∧
      (Program.repeatedSample .boolean).check .repeatedSample = .ok () ∧
      (Program.repeatedSample .boolean).AgreeingParameters ∧
      (Program.repeatedSample .boolean).Saturated .repeatedSample ∧
      ∃ h line checked, Run ⟨.repeatedSample, 10⟩ (.repeatedSample .boolean)
          (Machine.repeatedSample .boolean) h ∧
        (Machine.repeatedSample .boolean).control = .call
          ⟨.repeatedSample .boolean, [.statement (.print 1 (.name ⟨"a", 4⟩))], 0⟩ [.boolean true] line ∧
        ((Machine.repeatedSample .boolean).step ⟨.repeatedSample, 10⟩).store.scopes.FrameAsChecked 1
          checked ∧
        ((Machine.repeatedSample .boolean).step ⟨.repeatedSample, 10⟩).store.scopes.slot? 1 0 =
          some (.boolean true) ∧
        ((Machine.repeatedSample .boolean).step ⟨.repeatedSample, 10⟩).store.scopes.slot? 1 1 =
          none := by
  have hprogram : Program.ofTokens (Token.repeatedSample "bool") = .ok (.repeatedSample .boolean) := rfl
  have haddresses : Resolutions.ofProgram (.repeatedSample .boolean) = .ok .repeatedSample := rfl
  have hcheck : (Program.repeatedSample .boolean).check .repeatedSample = .ok () := rfl
  have hagreeing := Program.agreeingParameters_repeatedSample
  have hsaturated := Program.saturated_repeatedSample .boolean
  obtain ⟨h, hrun⟩ := (@Run.start ⟨.repeatedSample, 10⟩ (.repeatedSample .boolean) .unlimited).run 9
  obtain ⟨-, -, hslots, hunbound⟩ := parameters_as_checked hprogram haddresses hcheck hagreeing
    hsaturated hrun rfl (by decide)
  obtain ⟨checked, -, hchecked⟩ := hslots .start 1
  have hthird := hunbound ⟨⟨"b", 3⟩, .string⟩ (.tail _ (.tail _ (.head _))) ⟨0, 1⟩ rfl (by decide)
  exact ⟨hprogram, haddresses, hcheck, hagreeing, hsaturated, h, _, checked, hrun, rfl, hchecked, rfl,
    hthird⟩

/-- With two types, the check binds the second one, and the slot holds an argument of the first one. -/
theorem Run.parameter_mistyped_repeatedSample :
    Program.ofTokens (Token.repeatedSample "string") = .ok (.repeatedSample .string) ∧
      Resolutions.ofProgram (.repeatedSample .string) = .ok .repeatedSample ∧
      (Program.repeatedSample .string).check .repeatedSample = .ok () ∧
      (Program.repeatedSample .string).Saturated .repeatedSample ∧
      ∃ h line, Run ⟨.repeatedSample, 10⟩ (.repeatedSample .string) (Machine.repeatedSample .string) h ∧
        (Machine.repeatedSample .string).control = .call
          ⟨.repeatedSample .string, [.statement (.print 1 (.name ⟨"a", 4⟩))], 0⟩ [.boolean true] line ∧
        ((Machine.repeatedSample .string).step ⟨.repeatedSample, 10⟩).control =
          .enter [.statement (.print 1 (.name ⟨"a", 4⟩))] ∧
        ¬ ∃ checked,
          Typing.Check.bindParameters .repeatedSample 1 (FunctionHeader.repeatedSample .string).parameters
              ⟨Typing.State.start.scopes.enter, [.void]⟩ = .ok () checked ∧
            ((Machine.repeatedSample .string).step ⟨.repeatedSample, 10⟩).store.scopes.FrameAsChecked 1
              checked := by
  obtain ⟨h, hrun⟩ := (@Run.start ⟨.repeatedSample, 10⟩ (.repeatedSample .string) .unlimited).run 9
  refine ⟨rfl, rfl, rfl, Program.saturated_repeatedSample .string, h, _, hrun, rfl, rfl, ?_⟩
  rintro ⟨checked, hchecked, hslots⟩
  obtain ⟨-, hslot⟩ := hslots 0 (.boolean true) rfl
  cases hchecked
  cases hslot

end LexScript
