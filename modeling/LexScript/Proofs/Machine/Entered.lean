import LexScript.Proofs.Machine.ReadyRun
import LexScript.Proofs.Machine.RuntimeErrors

/-!
# What is bound on entering a scope

A frame is made by a block, a loop or a call, and its scope is entered at once. From then on the functions
of the scope that have bodies are bound in it, `Run.functions_filled`, and so are the parameters of a call
that have arguments, `Program.records_calls`.
-/

namespace LexScript

variable {setting : Setting} {program : Program} {h : History} {m : Machine} {k : List Continuation}
  {σ : Store} {activations : List Activation}

/-- A parameter that has an argument is bound. -/
theorem Binding.exists_mem_ofArguments {parameters : List Parameter} {arguments : List Value}
    {p : Parameter} (hp : p ∈ parameters.take arguments.length) (line : Nat) :
    ∃ v, ⟨p.identifier, v, line⟩ ∈ ofArguments parameters arguments line := by
  induction parameters generalizing arguments with
  | nil => simp at hp
  | cons q parameters ih =>
    cases arguments with
    | nil => cases hp
    | cons v arguments =>
      rcases List.mem_cons.1 hp with rfl | hp
      · exact ⟨v, List.mem_cons_self ..⟩
      · obtain ⟨w, hw⟩ := ih hp
        exact ⟨w, List.mem_cons_of_mem _ hw⟩

/-- When names that have addresses are bound, the slot of each is filled. -/
theorem Store.bind_fills {addresses : Resolutions} {bs : List Binding}
    (hbs : ∀ b ∈ bs, ∃ a, addresses.get? b.identifier.id = some a)
    (hσ : σ.scopes.current < σ.scopes.frames.size) {b : Binding} (hb : b ∈ bs) {a : Address}
    (ha : addresses.get? b.identifier.id = some a) :
    ((σ.bind addresses bs).2.scopes.slot? σ.scopes.current a.slot).isSome := by
  induction bs generalizing σ with
  | nil => cases hb
  | cons c bs ih =>
    rw [List.forall_mem_cons] at hbs
    obtain ⟨⟨address, hc⟩, hrest⟩ := hbs
    rw [Store.bind, Resolutions.find_of_get? hc]
    let defined : Store := { σ with scopes := σ.scopes.define address.slot c.value }
    have hdefined : defined.scopes.current < defined.scopes.frames.size := by
      change σ.scopes.current < (σ.scopes.frames.modify _ _).size
      rwa [Array.size_modify]
    rcases List.mem_cons.1 hb with rfl | hb
    · obtain rfl := Option.some.inj (ha.symm.trans hc)
      refine (Store.bind_grows addresses bs defined).slots _ _ ?_
      change ((σ.scopes.write σ.scopes.current a.slot b.value).slot? _ _).isSome
      simp [ScopeStack.slot?_write _ hσ]
    · exact ih hrest hdefined hb

/-- An activation after a step was there before, or its frame has just been made. -/
theorem Machine.Scoped.activation_of_next (hm : m.Scoped program h.activations) {f : FrameId}
    {a : Activation} (ha : (h.next setting m).activations[f]? = some a) :
    h.activations[f]? = some a ∨
      f = m.store.scopes.frames.size ∧ ∃ outer, m.activates? setting = some (a.scope, outer) := by
  rw [History.activations_next] at ha
  by_cases hf : f < h.activations.length
  · rw [List.getElem?_append_left hf] at ha
    exact .inl ha
  · rw [List.getElem?_append_right (Nat.le_of_not_lt hf), Machine.begun] at ha
    cases hactivates : m.activates? setting with
    | none => simp [hactivates] at ha
    | some new =>
      obtain ⟨hfirst, rfl⟩ : f - h.activations.length = 0 ∧ ⟨new.1, some new.2⟩ = a := by
        simpa [hactivates, List.getElem?_singleton] using ha
      have hnew : f = h.activations.length :=
        Nat.le_antisymm (Nat.le_of_sub_eq_zero hfirst) (Nat.le_of_not_lt hf)
      exact .inr ⟨hnew.trans hm.scopes.size.symm, new.2, rfl⟩

section

variable (hids : program.DistinctIdentities)
  (haddresses : Resolutions.ofProgram program = .ok setting.addresses)
include hids haddresses

/-- A frame that is made is current, and its scope is entered next. -/
theorem Machine.Scoped.enters_activation (hm : m.Scoped program activations) {a : Scope × FrameId}
    (ha : m.activates? setting = some a) :
    (∃ declarations, (m.step setting).control = .enter declarations) ∧
      (m.step setting).store.scopes.current = m.store.scopes.frames.size := by
  obtain ⟨control, k, σ⟩ := m
  cases control with
  | exec s =>
    cases s with
    | block line body => exact ⟨⟨_, rfl⟩, rfl⟩
    | forLoop line first condition stepLine step body => exact ⟨⟨_, rfl⟩, rfl⟩
    | _ => cases ha
  | call closure arguments line =>
    by_cases hdepth : setting.maxCallDepth ≤ σ.depth
    · rw [activates?_call_of_le hdepth] at ha
      cases ha
    · obtain ⟨hbegins, hcurrent⟩ := hm.body_begins hids haddresses hdepth
      exact ⟨⟨_, hbegins⟩, hcurrent⟩
  | _ => cases ha

/-- On entering a scope, its functions with bodies are bound. -/
theorem ScopeStack.Scoped.functions_filled (hσ : σ.scopes.Scoped program activations) {a : Activation}
    (ha : activations[σ.scopes.current]? = some a) {line : Nat} {header : FunctionHeader}
    {body : List Decl} (hd : .function line header body ∈ a.scope.declarations) :
    ((σ.bind setting.addresses (Binding.ofFunctions σ.scopes.current a.scope.declarations)).2.scopes.slot?
      σ.scopes.current (a.scope.slot header.identifier.name)).isSome := by
  obtain ⟨outer, -, hopening, -⟩ := hσ.activation _ _ ha
  have hget : ∀ b ∈ Binding.ofFunctions σ.scopes.current a.scope.declarations,
      setting.addresses.get? b.identifier.id = some ⟨0, a.scope.slot b.identifier.name⟩ :=
    fun b hb => Resolutions.get?_early hids haddresses hopening (Binding.early_of_mem_ofFunctions hb)
  have hbinding : ⟨header.identifier, .function ⟨header, body, σ.scopes.current⟩, line⟩ ∈
      Binding.ofFunctions σ.scopes.current a.scope.declarations :=
    List.mem_filterMap.2 ⟨_, hd, rfl⟩
  have hfills := Store.bind_fills (fun b hb => ⟨_, hget b hb⟩) hσ.current_lt hbinding
    (hget _ hbinding)
  exact hfills

/-- In every frame but one whose scope is entered next, the functions of the scope that have bodies are
bound. -/
theorem Run.functions_filled (hrun : Run setting program m h) {f : FrameId} {a : Activation}
    (ha : h.activations[f]? = some a)
    (hentered : ∀ declarations, m.control = .enter declarations → f ≠ m.store.scopes.current)
    {line : Nat} {header : FunctionHeader} {body : List Decl}
    (hd : .function line header body ∈ a.scope.declarations) :
    (m.store.scopes.slot? f (a.scope.slot header.identifier.name)).isSome := by
  induction hrun with
  | start sink =>
    -- The global frame, the only one, is about to be entered.
    have hf : f = 0 := Nat.lt_one_iff.1 (List.getElem?_eq_some_iff.1 ha).1
    exact absurd hf (hentered _ rfl)
  | @step m h before ih =>
    rcases before.scoped.activation_of_next ha with ha | ⟨rfl, outer, hactivates⟩
    · -- Either this step binds the functions of the frame, or they were bound before.
      by_cases hnow : ∃ declarations, m.control = .enter declarations ∧ f = m.store.scopes.current
      · obtain ⟨declarations, hcontrol, rfl⟩ := hnow
        obtain ⟨b, hb, rfl⟩ : ∃ b, h.activations[m.store.scopes.current]? = some b ∧
            declarations = b.scope.declarations := by
          have hscoped := before.scoped.control
          rw [hcontrol] at hscoped
          exact hscoped
        obtain rfl := Option.some.inj (ha.symm.trans hb)
        have hfilled := before.scoped.scopes.functions_filled hids haddresses ha hd
        obtain ⟨control, k, σ⟩ := m
        obtain rfl := hcontrol
        exact hfilled
      · have hbefore := ih ha fun declarations hcontrol heq => hnow ⟨declarations, hcontrol, heq⟩
        exact (m.scopes_grow setting).slots _ _ hbefore
    · obtain ⟨⟨declarations, hcontrol⟩, hcurrent⟩ :=
        before.scoped.enters_activation hids haddresses hactivates
      exact absurd hcurrent.symm (hentered declarations hcontrol)
  | @again m h before outcome finished sink ih =>
    refine ih ha fun declarations hcontrol => ?_
    rw [(Machine.of_outcome? finished).1] at hcontrol
    cases hcontrol

end

/-! ## Calls -/

/-- The next step makes the frame, for a call of the closure. -/
structure Machine.MakesFrame (setting : Setting) (m : Machine) (closure : Closure)
    (arguments : List Value) (f : FrameId) : Prop where
  control : ∃ line, m.control = .call closure arguments line
  accepted : ¬ setting.maxCallDepth ≤ m.store.depth
  frame : f = m.store.scopes.frames.size

/-- The frame of a function is made by a call. -/
theorem Machine.makesFrame_of_activates? {scope : Scope} {outer : FrameId}
    (ha : m.activates? setting = some (scope, outer)) (hfunction : scope.IsFunction) :
    ∃ closure arguments, m.MakesFrame setting closure arguments m.store.scopes.frames.size ∧
      scope = .function closure.header closure.body := by
  obtain ⟨control, k, σ⟩ := m
  cases control with
  | exec s =>
    cases s with
    | block | forLoop =>
      cases ha
      exact hfunction.elim
    | _ => cases ha
  | call closure arguments line =>
    by_cases hdepth : setting.maxCallDepth ≤ σ.depth
    · rw [activates?_call_of_le hdepth] at ha
      cases ha
    · rw [activates?_call_of_lt hdepth] at ha
      cases ha
      exact ⟨closure, arguments, ⟨⟨line, rfl⟩, hdepth, rfl⟩, rfl⟩
  | _ => cases ha

/-- The arguments of a call fill the slots of their parameters. -/
theorem Machine.Scoped.parameters_filled (hids : program.DistinctIdentities)
    (haddresses : Resolutions.ofProgram program = .ok setting.addresses)
    (hm : m.Scoped program activations) {closure : Closure} {arguments : List Value} {f : FrameId}
    (hmakes : m.MakesFrame setting closure arguments f) {p : Parameter}
    (hp : p ∈ closure.header.parameters.take arguments.length) :
    ((m.step setting).store.scopes.slot? f
      ((Scope.function closure.header closure.body).slot p.identifier.name)).isSome := by
  obtain ⟨⟨line, hcontrol⟩, hdepth, rfl⟩ := hmakes
  obtain ⟨control, k, σ⟩ := m
  obtain rfl := hcontrol
  obtain ⟨outer, -, hopening, -⟩ := hm.scopes.function hm.control.1
  have hget : ∀ b ∈ Binding.ofArguments closure.header.parameters arguments line,
      setting.addresses.get? b.identifier.id =
        some ⟨0, (Scope.function closure.header closure.body).slot b.identifier.name⟩ :=
    fun b hb => Resolutions.get?_early hids haddresses hopening
      (Binding.early_of_mem_ofArguments closure.body hb)
  obtain ⟨v, hbinding⟩ : ∃ v, ⟨p.identifier, v, line⟩ ∈
      Binding.ofArguments closure.header.parameters arguments line :=
    Binding.exists_mem_ofArguments hp line
  have hcurrent : (σ.enterCall closure.frame).scopes.current <
      (σ.enterCall closure.frame).scopes.frames.size := by
    change σ.scopes.frames.size < (σ.scopes.frames.push _).size
    rw [Array.size_push]
    exact Nat.lt_succ_self _
  change ((Machine.call setting k σ closure arguments line).store.scopes.slot? _ _).isSome
  rw [call_of_lt hdepth]
  have hfills := Store.bind_fills (fun b hb => ⟨_, hget b hb⟩) hcurrent hbinding (hget _ hbinding)
  exact hfills

def Program.moment (program : Program) (setting : Setting) (sink : Sink) (steps : Nat) : Machine :=
  (program.launch (.start sink)).run setting steps

/-- Each frame of a function was made by a call before, and the parameters that had arguments are bound
in it. -/
def History.RecordsCalls (h : History) (setting : Setting) (moment : Nat → Machine) (steps : Nat) :
    Prop :=
  ∀ f a, h.activations[f]? = some a → a.scope.IsFunction →
    ∃ earlier < steps, ∃ closure arguments,
      (moment earlier).MakesFrame setting closure arguments f ∧
      a.scope = .function closure.header closure.body ∧
      ∀ p ∈ closure.header.parameters.take arguments.length,
        ((moment steps).store.scopes.slot? f (a.scope.slot p.identifier.name)).isSome

theorem Program.records_calls (hids : program.DistinctIdentities)
    (haddresses : Resolutions.ofProgram program = .ok setting.addresses) (sink : Sink) (steps : Nat) :
    ∃ h, Run setting program (program.moment setting sink steps) h ∧
      h.RecordsCalls setting (program.moment setting sink) steps := by
  induction steps with
  | zero =>
    refine ⟨_, .start sink, fun f a ha hfunction => ?_⟩
    obtain rfl := List.mem_singleton.1 (List.mem_of_getElem? ha)
    exact hfunction.elim
  | succ steps ih =>
    obtain ⟨h, hrun, hcalls⟩ := ih
    have hnext : program.moment setting sink (steps + 1) =
        (program.moment setting sink steps).step setting := Machine.run_succ ..
    have hlater : Run setting program (program.moment setting sink (steps + 1))
        (h.next setting (program.moment setting sink steps)) := hnext ▸ hrun.step
    refine ⟨_, hlater, fun f a ha hfunction => ?_⟩
    rw [hnext]
    rcases hrun.scoped.activation_of_next ha with ha | ⟨rfl, outer, hactivates⟩
    · obtain ⟨earlier, hlt, closure, arguments, hmakes, hscope, hfilled⟩ := hcalls f a ha hfunction
      refine ⟨earlier, Nat.lt_succ_of_lt hlt, closure, arguments, hmakes, hscope, fun p hp => ?_⟩
      exact (Machine.scopes_grow setting _).slots _ _ (hfilled p hp)
    · -- The step has made the frame, and so it is the call.
      obtain ⟨closure, arguments, hmakes, hscope⟩ :=
        Machine.makesFrame_of_activates? hactivates hfunction
      rw [hscope]
      exact ⟨steps, Nat.lt_succ_self steps, closure, arguments, hmakes, rfl, fun p hp =>
        hrun.scoped.parameters_filled hids haddresses hmakes hp⟩

end LexScript
