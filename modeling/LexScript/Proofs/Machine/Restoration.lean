import LexScript.Proofs.Machine.Balance

/-!
# What is put back at the end

Whatever an interpreter does, in the end the frame and the depth are those from before, if it ends with
a value, at its end, with a return or with an error: `Machine.frame_and_depth_restored`. Nothing is asked
of the code, of the addresses of its names or of the state.
-/

namespace LexScript

variable {setting : Setting} {m now : Machine}

/-- The moments of what a machine does before it comes to its continuations: it evaluates an expression,
executes a statement, runs the declarations of a scope or calls a function. The output may go to another
sink at any moment, so every line may be taken or refused. -/
inductive Machine.Extent (setting : Setting) (m : Machine) : Machine → Prop
  | start : Extent setting m m
  | step {now : Machine} (before : Extent setting m now) (unfinished : ¬ now.HasEnded m.stack) :
    Extent setting m (now.step setting)
  | sink {now : Machine} (before : Extent setting m now) (sink : Sink) :
    Extent setting m { now with store := { now.store with sink } }

/-- The stores of an interpreter between the things that it does, each of which may be done in a setting of
its own and end in any way. -/
inductive Store.Idle : Store → Prop
  | start (sink : Sink) : Idle (.start sink)
  | ended {setting : Setting} {σ : Store} {control : Control} {now : Machine} (before : Idle σ)
    (extent : Machine.Extent setting ⟨control, [], σ⟩ now) (ended : now.HasEnded []) : Idle now.store

namespace Machine

theorem Extent.returns (h : m.Extent setting now) :
    ∃ above, now.Returns above m.stack m.store.scopes.current m.store.depth := by
  induction h with
  | start => exact ⟨[], .here m.control m.stack m.store⟩
  | step before unfinished ih =>
    obtain ⟨above, hreturns⟩ := ih
    exact hreturns.step unfinished
  | sink before sink ih =>
    obtain ⟨above, hreturns⟩ := ih
    exact ⟨above, hreturns.stack, hreturns.frame, hreturns.depth, hreturns.outwards⟩

theorem Extent.restores (h : m.Extent setting now) (hended : now.HasEnded m.stack) :
    now.store.scopes.current = m.store.scopes.current ∧ now.store.depth = m.store.depth := by
  obtain ⟨above, hreturns⟩ := h.returns
  obtain ⟨outcome, -, hstack⟩ := hended
  have habove : above = [] := List.self_eq_append_left.1 (hstack.symm.trans hreturns.stack)
  subst habove
  exact ⟨hreturns.frame, hreturns.depth⟩

/-- A scope that is left lies in the frame that is put back. -/
theorem Extent.exit (h : m.Extent setting now) {frame : FrameId} {rest : List Continuation}
    (hstack : now.stack = .leave frame :: rest) (hinside : m.stack <:+ rest) :
    now.store.scopes.exit = now.store.scopes.restore frame := by
  obtain ⟨above, hreturns⟩ := h.returns
  rcases hinside with ⟨inner, rfl⟩
  have habove : above = .leave frame :: inner := by
    have heq : above ++ m.stack = (.leave frame :: inner) ++ m.stack := hreturns.stack.symm.trans hstack
    exact List.append_cancel_right heq
  subst habove
  simp [ScopeStack.exit, hreturns.outwards.1 frame rfl]

theorem hasEnded_nil_iff : m.HasEnded [] ↔ m.outcome?.isSome := by
  constructor
  · rintro ⟨outcome, hcontrol, hstack⟩
    simp [outcome?, hcontrol, hstack]
  · intro h
    obtain ⟨outcome, houtcome⟩ := Option.isSome_iff_exists.1 h
    exact ⟨outcome, of_outcome? houtcome⟩

/-- The steps of a machine that has no continuations belong to what it does. -/
theorem Extent.run (h : m.Extent setting now) (hstack : m.stack = []) (steps : Nat) :
    m.Extent setting (now.run setting steps) := by
  induction steps generalizing now with
  | zero => exact h
  | succ steps ih =>
    rw [Machine.run]
    split
    · exact h
    · rename_i hrunning
      refine ih (h.step ?_)
      simpa [hstack, hasEnded_nil_iff] using hrunning

end Machine

/-- Between the things that an interpreter does, the global frame is current and no call is in progress. -/
theorem Store.Idle.at_rest {σ : Store} (h : σ.Idle) : σ.scopes.current = 0 ∧ σ.depth = 0 := by
  induction h with
  | start sink => exact ⟨rfl, rfl⟩
  | ended before extent ended ih =>
    obtain ⟨hcurrent, hdepth⟩ := extent.restores ended
    exact ⟨hcurrent.trans ih.1, hdepth.trans ih.2⟩

/-- The frame and the depth are put back. In any setting and from any state, once an evaluation, a
statement, the declarations of a scope or a call has ended, whatever the outcome and the output, the
frame that was current is current again, and as many calls are in progress as before. On the way, to make
the frame around the current one current is what brings every scope back to where it was entered. So
whatever an interpreter did before, the next run starts in the global frame with no call in progress. -/
theorem Machine.frame_and_depth_restored :
    (∀ (setting : Setting) (m now : Machine), m.Extent setting now →
      (now.HasEnded m.stack →
        now.store.scopes.current = m.store.scopes.current ∧ now.store.depth = m.store.depth) ∧
      ∀ outcome frame rest, now.control = .ended outcome → now.stack = .leave frame :: rest →
        m.stack <:+ rest → now.store.scopes.exit = now.store.scopes.restore frame) ∧
    ∀ σ : Store, σ.Idle → σ.scopes.current = 0 ∧ σ.depth = 0 := by
  refine ⟨fun setting m now hextent => ⟨hextent.restores, ?_⟩, fun σ hidle => hidle.at_rest⟩
  intro outcome frame rest _ hstack hinside
  exact hextent.exit hstack hinside

/-- A function whose parameter gets no argument is called in a block, and reads the parameter in a block
of its own. -/
def Program.unboundSample : Program where
  declarations :=
    [.function 1 ⟨⟨"f", 0⟩, [⟨⟨"a", 1⟩, .boolean⟩], .boolean⟩
        [.statement (.block 1 [.statement (.ret 1 (some (.name ⟨"a", 2⟩)))])],
      .statement (.block 2 [.statement (.expression 2 (.call (.name ⟨"f", 3⟩) []))])]
  identifierCount := 4

def Resolutions.unboundSample : Resolutions :=
  ⟨#[some ⟨0, 0⟩, some ⟨0, 0⟩, some ⟨1, 0⟩, some ⟨1, 0⟩]⟩

def Machine.unboundSample (steps : Nat) : Machine :=
  .run ⟨.unboundSample, 10⟩ steps (Program.unboundSample.launch (.start .unlimited))

/-- The call in the sample fails. Then the frame of the block around the call is current again, and on
the way the frame of the function is the one around the inner block. After the run the global frame is
current. -/
theorem Machine.frame_and_depth_restored_unboundSample :
    ∃ m inner now : Machine, m.store = (Machine.unboundSample 10).store ∧
      m.Extent ⟨.unboundSample, 10⟩ inner ∧ m.Extent ⟨.unboundSample, 10⟩ now ∧
      (inner.stack.head? = some (.leave 2) ∧
        inner.store.scopes.exit = inner.store.scopes.restore 2) ∧
      (now.error? = some ⟨.undefinedVariable "a", 1⟩ ∧ m.store.scopes.current = 1 ∧
        now.store.scopes.current = 1 ∧ now.store.depth = 0) ∧
      (Machine.unboundSample 27).store.Idle ∧
      (Machine.unboundSample 27).store.scopes.current = 0 := by
  obtain ⟨hextents, hidle⟩ := frame_and_depth_restored
  let m : Machine := { Machine.unboundSample 10 with stack := [] }
  have hstart : m.Extent ⟨.unboundSample, 10⟩ m := .start
  have hinner := hstart.run rfl 10
  have hnow := hstart.run rfl 13
  have hexit := (hextents _ m _ hinner).2 _ 2 _ rfl rfl (List.nil_suffix)
  have hrestored := (hextents _ m _ hnow).1 ⟨_, rfl, rfl⟩
  have hrun : (Program.unboundSample.launch (.start .unlimited)).Extent ⟨.unboundSample, 10⟩
      (Machine.unboundSample 27) := Extent.start.run rfl 27
  have hended : (Machine.unboundSample 27).store.Idle := .ended (.start .unlimited) hrun ⟨_, rfl, rfl⟩
  exact ⟨m, _, _, rfl, hinner, hnow, ⟨rfl, hexit⟩, ⟨rfl, rfl, hrestored.1, hrestored.2⟩, hended,
    (hidle _ hended).1⟩

end LexScript
