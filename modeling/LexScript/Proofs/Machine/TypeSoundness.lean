import LexScript.Proofs.Machine.TypedRun
import LexScript.Proofs.Typing.Checked

/-!
# Type soundness

A program that passes the check runs without the errors that types are to rule out, its names have
values of their types, and it prints no call that gives no value: `Run.type_sound`. A run may still
divide by zero, repeat a string too often, read a variable before it has a value or a parameter without
an argument, end a function without the return that its type asks for, call too deep, or fail to print.
-/

namespace LexScript

variable {setting : Setting} {program : Program} {h : History} {m : Machine} {arity : Arity}

/-- A function has the type that its scope gives to its name. -/
theorem Binding.typed_of_mem_ofFunctions {frame : FrameId} {scope : Scope} (hscope : scope.Consistent)
    {b : Binding} (hb : b ∈ ofFunctions frame scope.declarations) :
    b.value.type ≠ .void ∧ scope.typeOf? b.identifier.name = some b.value.type := by
  obtain ⟨d, hd, heq⟩ := List.mem_filterMap.1 hb
  cases d with
  | function line header body =>
    obtain rfl := Option.some.inj heq
    exact ⟨Ty.noConfusion, hscope _ hd _ _ (.inl rfl)⟩
  | _ => cases heq

theorem typeIn?_of_agreeing {types : List (Identifier × Ty)} {p : Identifier × Ty}
    (hagreeing : ∀ q ∈ types, q.1.name = p.1.name → q.2 = p.2) (hp : p ∈ types) :
    typeIn? types p.1.name = some p.2 := by
  induction types with
  | nil => cases hp
  | cons q types ih =>
    rw [List.forall_mem_cons] at hagreeing
    rw [typeIn?_cons]
    by_cases hname : q.1.name = p.1.name
    · simp [hname, hagreeing.1 hname]
    · rw [if_neg hname]
      rcases List.mem_cons.1 hp with rfl | hp
      · exact absurd rfl hname
      · exact ih hagreeing.2 hp

/-- A parameter has the type that it is declared with. -/
theorem Scope.typeOf?_parameter {header : FunctionHeader} {body : List Decl} {p : Parameter}
    (hagreeing : ∀ q ∈ header.parameters, q.identifier.name = p.identifier.name → q.type = p.type)
    (hmem : p ∈ header.parameters) :
    (Scope.function header body).typeOf? p.identifier.name = some p.type := by
  have hall : ∀ q ∈ (Scope.function header body).parameterTypes.reverse,
      q.1.name = p.identifier.name → q.2 = p.type := by
    intro q hq hname
    obtain ⟨r, hr, rfl⟩ := List.mem_map.1 (List.mem_reverse.1 hq)
    exact hagreeing r hr hname
  have hin : (p.identifier, p.type) ∈ (Scope.function header body).parameterTypes.reverse :=
    List.mem_reverse.2 (List.mem_map_of_mem hmem)
  have hinitial : (Scope.function header body).parameterTypes.reverse <+:
      (Scope.function header body).types := by
    rw [types, List.append_assoc]
    exact List.prefix_append ..
  exact typeIn?_of_initial hinitial (typeIn?_of_agreeing hall hin)

theorem Write.Typed.of_activation {activations : List Activation} {f : FrameId} {a : Activation}
    (ha : activations[f]? = some a) {name : String} {v : Value} (hvalued : v.type ≠ .void)
    (htype : a.scope.typeOf? name = some v.type) (slot : Nat) :
    Write.Typed activations ⟨f, slot, name, v⟩ := by
  refine ⟨hvalued, fun b hb => ?_⟩
  obtain rfl := Option.some.inj (ha.symm.trans hb)
  exact htype

/-- What a step stores has the type of its name. -/
theorem Machine.Typed.writes_typed (hp : program.Settled arity setting.addresses)
    (hm : m.Scoped program h.activations) (hrecords : h.Records m.store.scopes)
    (htyped : m.Typed setting.addresses h.activations arity) {w : Write} (hw : m.Writes setting w) :
    w.Typed (h.next setting m).activations := by
  rcases htyped with ⟨scopes, awaited, hnest, hcontrol, hk⟩
  cases hw with
  | @function k σ declarations b address bound found =>
    obtain ⟨a, ha, rfl⟩ := hm.control
    obtain ⟨outer, -, hopening, -⟩ := hm.scopes.activation _ _ ha
    obtain ⟨hvalued, htype⟩ := Binding.typed_of_mem_ofFunctions (hp.typed _ hopening) bound
    exact .of_activation (activation_next ha) hvalued htype _
  | @parameter k σ closure arguments line b address depth bound found =>
    -- The scope gives a name the type of its last declaration, and those before it have the same type.
    obtain ⟨outer, -, hopening, -⟩ := hm.scopes.function hm.control.1
    cases hcontrol with | call takes =>
    obtain ⟨p, hmem, hidentifier⟩ := Binding.mem_zip_of_mem_ofArguments bound
    obtain ⟨htype, hvalued⟩ := takes p _ hmem
    refine .of_activation (hm.activation_call depth) hvalued ?_ _
    rw [hidentifier, htype]
    have hp' := (List.of_mem_zip hmem).1
    exact Scope.typeOf?_parameter (fun q hq => hp.parameters _ _ _ hopening q hq p hp') hp'
  | @binding k σ identifier line v address found =>
    cases hcontrol with | ended typed =>
    cases hk with | cons nest ctyped rest =>
    cases ctyped with | bind valued here declared =>
    cases typed with | value hv =>
    subst hv
    obtain ⟨a, ha, -⟩ := hm.stack.1
    obtain ⟨outer, rfl⟩ := nest.cons_of_activation ha
    obtain rfl := Option.some.inj here
    exact .of_activation (activation_next ha) valued declared _
  | @assignment k σ target line v address f found located =>
    cases hcontrol with | ended typed =>
    cases hk with | cons nest ctyped rest =>
    cases ctyped with | assign valued declared =>
    cases typed with | value hv =>
    subst hv
    obtain ⟨a, scope, hget, hscope, htype⟩ := declared
    obtain rfl := Option.some.inj (found.symm.trans hget)
    obtain ⟨g, outer, hancestor, ha⟩ := nest.ancestor hrecords.parents hscope
    obtain ⟨hf, -⟩ := Option.filter_eq_some_iff.1 located
    obtain rfl := Option.some.inj (hf.symm.trans hancestor)
    exact .of_activation (activation_next ha) valued htype _

/-- At every moment of a run of a settled program, the machine and its slots are typed. -/
theorem Run.typed_of_settled (hp : program.Settled arity setting.addresses)
    (hrun : Run setting program m h) :
    m.Typed setting.addresses h.activations arity ∧ h.Typed := by
  induction hrun with
  | start sink => exact ⟨.launch (.start program sink), fun f i x v hs => by cases hs⟩
  | @step m h before ih =>
    obtain ⟨hm, hstored⟩ := ih
    have hnamed := before.named hp.identities hp.resolved
    constructor
    · rw [History.activations_next]
      exact hm.step hp before.records hnamed hstored before.scoped
    · intro f i x v hs
      rcases History.stored_next hs with hbefore | hnow
      · obtain ⟨hvalued, htype⟩ := hstored f i x v hbefore
        refine ⟨hvalued, fun a ha => htype a ?_⟩
        simpa [History.activations_next, List.getElem?_append_left (before.stored_lt hbefore)] using ha
      · exact hm.writes_typed hp before.scoped before.records (Machine.writes_of_mem hnow)
  | again before finished sink ih =>
    have hagain := (Run.again before finished sink).scoped
    exact ⟨.launch hagain, ih.2⟩

theorem Run.typed_of_admitted (hp : program.Admitted arity setting.addresses)
    (hrun : Run setting program m h) :
    m.Typed setting.addresses h.activations arity ∧ h.Typed :=
  hrun.typed_of_settled hp.settled

theorem Run.typed (hp : program.Accepted setting.addresses) (hrun : Run setting program m h) :
    m.Typed setting.addresses h.activations .bounded ∧ h.Typed :=
  hrun.typed_of_admitted hp.admitted

/-- Type soundness. A program is resolved and checked, no function in it repeats the name of a parameter,
and no call has more arguments than the type of its callee has parameters. Then no slot ever holds
`void`, `void` is never printed, and an error is one that types do not rule out, whatever the bound on
the depth of calls and however long the run. -/
theorem Run.type_sound {tokens : List Token} {addresses : Resolutions} {maxCallDepth : Nat}
    (hprogram : Program.ofTokens tokens = .ok program)
    (haddresses : Resolutions.ofProgram program = .ok addresses)
    (hcheck : program.check addresses = .ok ()) (hparameters : program.DistinctParameters)
    (hsaturated : program.Saturated addresses) (hrun : Run ⟨addresses, maxCallDepth⟩ program m h) :
    (∀ f i, m.store.scopes.slot? f i ≠ some .void) ∧
      (∀ v line k, m.control = .ended (.value v) → m.stack = .print line :: k → v ≠ .void) ∧
      ∀ e, m.control = .ended (.failed e) → e.cause.Dynamic := by
  have hids : program.DistinctIdentities := .ofTokens hprogram
  have htyped := (Program.check_wellTyped hids haddresses).1 hcheck
  obtain ⟨hm, hstored⟩ := hrun.typed ⟨hids, haddresses, htyped, hparameters, hsaturated⟩
  refine ⟨fun f i hslot => ?_, fun v line k hcontrol hstack hvoid => ?_, fun e hcontrol => ?_⟩
  · rw [hrun.records.slots] at hslot
    obtain ⟨⟨x, v⟩, hx, rfl⟩ := Option.map_eq_some_iff.1 hslot
    exact (hstored f i x _ hx).1 rfl
  · rcases hm with ⟨scopes, awaited, hnest, hc, hk⟩
    rw [hcontrol] at hc
    rw [hstack] at hk
    cases hk with | cons nest ctyped rest =>
    cases ctyped with | print valued =>
    cases hc with | ended typed =>
    cases typed with | value hv =>
    subst hvoid
    exact valued hv.symm
  · rcases hm with ⟨scopes, awaited, hnest, hc, hk⟩
    rw [hcontrol] at hc
    cases hc with | ended typed =>
    cases typed with | failed dynamic =>
    exact dynamic

/-- The tokens of a program with a function that gives a function, which remembers its parameter. -/
def Token.keepSample : List Token :=
  [⟨.fnWord, "fn", 1⟩, ⟨.identifier, "keep", 1⟩, ⟨.openParen, "(", 1⟩, ⟨.identifier, "a", 1⟩,
    ⟨.colon, ":", 1⟩, ⟨.identifier, "bool", 1⟩, ⟨.comma, ",", 1⟩, ⟨.identifier, "b", 1⟩,
    ⟨.colon, ":", 1⟩, ⟨.identifier, "bool", 1⟩, ⟨.closeParen, ")", 1⟩, ⟨.arrow, "->", 1⟩,
    ⟨.fnWord, "fn", 1⟩, ⟨.openParen, "(", 1⟩, ⟨.closeParen, ")", 1⟩, ⟨.arrow, "->", 1⟩,
    ⟨.identifier, "bool", 1⟩, ⟨.openCurly, "\x7b", 1⟩,
    ⟨.fnWord, "fn", 2⟩, ⟨.identifier, "get", 2⟩, ⟨.openParen, "(", 2⟩, ⟨.closeParen, ")", 2⟩,
    ⟨.arrow, "->", 2⟩, ⟨.identifier, "bool", 2⟩, ⟨.openCurly, "\x7b", 2⟩, ⟨.returnWord, "return", 2⟩,
    ⟨.identifier, "a", 2⟩, ⟨.semicolon, ";", 2⟩, ⟨.closeCurly, "\x7d", 2⟩,
    ⟨.returnWord, "return", 3⟩, ⟨.identifier, "get", 3⟩, ⟨.semicolon, ";", 3⟩,
    ⟨.closeCurly, "\x7d", 4⟩,
    ⟨.printWord, "print", 5⟩, ⟨.openParen, "(", 5⟩, ⟨.identifier, "keep", 5⟩, ⟨.openParen, "(", 5⟩,
    ⟨.trueWord, "true", 5⟩, ⟨.closeParen, ")", 5⟩, ⟨.openParen, "(", 5⟩, ⟨.closeParen, ")", 5⟩,
    ⟨.closeParen, ")", 5⟩, ⟨.semicolon, ";", 5⟩]

/-- The program with these tokens. It calls the function with one argument less than it has parameters,
and prints what the function that it gets remembers. -/
def Program.keepSample : Program where
  declarations :=
    [.function 1 ⟨⟨"keep", 0⟩, [⟨⟨"a", 1⟩, .boolean⟩, ⟨⟨"b", 2⟩, .boolean⟩], .function [] .boolean⟩
        [.function 2 ⟨⟨"get", 3⟩, [], .boolean⟩ [.statement (.ret 2 (some (.name ⟨"a", 4⟩)))],
          .statement (.ret 3 (some (.name ⟨"get", 5⟩)))],
      .statement (.print 5 (.call (.call (.name ⟨"keep", 6⟩) [.literal (.boolean true)]) []))]
  identifierCount := 7

def Resolutions.keepSample : Resolutions :=
  ⟨#[some ⟨0, 0⟩, some ⟨0, 0⟩, some ⟨0, 1⟩, some ⟨0, 2⟩, some ⟨1, 0⟩, some ⟨0, 2⟩, some ⟨0, 0⟩]⟩

namespace Program

theorem distinctParameters_keepSample : keepSample.DistinctParameters := by
  intro header body outer hopening
  have hheader : header.parameters = [⟨⟨"a", 1⟩, .boolean⟩, ⟨⟨"b", 2⟩, .boolean⟩] ∨
      header.parameters = [] := by
    simp only [parts, scope, keepSample, Decl.partsFrom, Decl.parts, Stmt.parts] at hopening
    simp at hopening
    rcases hopening with ⟨⟨rfl, -⟩, -⟩ | ⟨⟨rfl, -⟩, -⟩
    · exact .inl rfl
    · exact .inr rfl
  rcases hheader with hheader | hheader <;> rw [hheader] <;> decide

/-- The inner call has one argument for two parameters, and the outer call none for none. -/
theorem saturated_keepSample : keepSample.Saturated .keepSample := by
  intro role line e places hpart
  have he : e = .name ⟨"a", 4⟩ ∨ e = .name ⟨"get", 5⟩ ∨
      e = .call (.call (.name ⟨"keep", 6⟩) [.literal (.boolean true)]) [] ∧
        places.map Place.scope = [keepSample.scope] := by
    simp only [parts, scope, keepSample, Decl.partsFrom, Decl.parts, Stmt.parts] at hpart
    simp at hpart
    rcases hpart with ⟨-, -, he, -⟩ | ⟨-, -, he, -⟩ | ⟨-, -, he, hplaces⟩
    · exact .inl he
    · exact .inr (.inl he)
    · subst hplaces
      exact .inr (.inr ⟨he, rfl⟩)
  rcases he with rfl | rfl | ⟨rfl, hscopes⟩
  · trivial
  · trivial
  · have hkeep : HasType .keepSample [keepSample.scope] (.name ⟨"keep", 6⟩)
        (.function [.boolean, .boolean] (.function [] .boolean)) :=
      .name ⟨⟨0, 0⟩, keepSample.scope, rfl, rfl, rfl⟩
    rw [hscopes]
    refine ⟨⟨trivial, ⟨trivial, trivial⟩, ?_⟩, trivial, fun _ _ _ => Nat.zero_le _⟩
    intro parameters returns htype
    obtain ⟨rfl, -⟩ := Ty.function.inj (HasType.unique _ htype hkeep)
    decide

end Program

/-- The sample is checked, and what it prints is a boolean. -/
theorem Run.type_sound_keepSample :
    Program.ofTokens Token.keepSample = .ok .keepSample ∧
      Resolutions.ofProgram .keepSample = .ok .keepSample ∧
      Program.keepSample.check .keepSample = .ok () ∧ Program.keepSample.DistinctParameters ∧
      Program.keepSample.Saturated .keepSample ∧
      ∃ m h, Run ⟨.keepSample, 10⟩ .keepSample m h ∧ m.control = .ended (.value (.boolean true)) ∧
        (∃ k, m.stack = .print 5 :: k) ∧ ∀ f i, m.store.scopes.slot? f i ≠ some .void := by
  have hprogram : Program.ofTokens Token.keepSample = .ok .keepSample := rfl
  have haddresses : Resolutions.ofProgram .keepSample = .ok .keepSample := rfl
  have hcheck : Program.keepSample.check .keepSample = .ok () := rfl
  have hparameters := Program.distinctParameters_keepSample
  have hsaturated := Program.saturated_keepSample
  obtain ⟨h, hrun⟩ := (@Run.start ⟨.keepSample, 10⟩ .keepSample .unlimited).run 28
  have hsound := type_sound hprogram haddresses hcheck hparameters hsaturated hrun
  exact ⟨hprogram, haddresses, hcheck, hparameters, hsaturated, _, h, hrun, rfl, ⟨_, rfl⟩, hsound.1⟩

end LexScript
