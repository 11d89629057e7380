import LexScript.Proofs.Machine.Renaming

/-!
# Running a program again

An interpreter keeps its frames between runs, so a later run finds the global frame filled by those
before it. A first run that succeeds has never come to an empty slot, and so a later run goes the same way
in frames of its own: `Program.rerun_prints_same`.
-/

namespace LexScript

variable {setting : Setting} {m now : Machine} {σ : Store}

/-- Frames stay. -/
theorem Machine.Extent.size_le (h : m.Extent setting now) :
    m.store.scopes.frames.size ≤ now.store.scopes.frames.size := by
  induction h with
  | start => exact Nat.le_refl _
  | step before unfinished ih => exact Nat.le_trans ih (scopes_grow ..).size
  | sink before sink ih => exact ih

/-- The global frame is always there. -/
theorem Store.Idle.size_pos (h : σ.Idle) : 0 < σ.scopes.frames.size := by
  induction h with
  | start sink => exact Nat.zero_lt_one
  | ended before extent ended ih => exact Nat.lt_of_lt_of_le ih extent.size_le

/-! ## The frames of a later run -/

/-- The global frame is the same for all runs, and a later run makes its frames behind those that are
there. -/
def Store.laterFrame (σ : Store) : FrameId → FrameId
  | 0 => 0
  | f + 1 => σ.scopes.frames.size + f

theorem Store.laterFrame_injective (h : 0 < σ.scopes.frames.size) : σ.laterFrame.Injective := by
  intro f g heq
  match f, g with
  | 0, 0 => rfl
  | 0, g + 1 =>
    have hsize : 0 = σ.scopes.frames.size + g := heq
    omega
  | f + 1, 0 =>
    have hsize : σ.scopes.frames.size + f = 0 := heq
    omega
  | f + 1, g + 1 => exact congrArg (· + 1) (Nat.add_left_cancel heq)

/-- At the start of a first run there is nothing to be found in a later one. -/
theorem Store.Idle.renames (h : σ.Idle) (hroom : σ.sink.room = none) :
    (Store.start .unlimited).Renames σ.laterFrame σ.sink.lines σ where
  scopes :=
    { current := h.at_rest.1
      parents f g hg := by
        cases f <;> cases hg
      slots f i v hv := by
        change ScopeStack.global.slot? f i = some v at hv
        rw [ScopeStack.slot?_global] at hv
        cases hv
      old f hf := by
        obtain rfl : f = 0 := Nat.lt_one_iff.1 hf
        exact h.size_pos
      new n := by
        change σ.laterFrame (1 + n) = _
        rw [Nat.add_comm]
        rfl }
  depth := h.at_rest.2
  room := rfl
  sink := by
    obtain ⟨scopes, depth, lines, room⟩ := σ
    obtain rfl : room = none := hroom
    exact congrArg (Sink.mk · none) Array.append_empty.symm

/-- The store after so many runs of a program, each of so many steps, one after the other. -/
def Program.storeAfter (program : Program) (setting : Setting) (steps : Nat) : (runs : Nat) → Store
  | 0 => .start .unlimited
  | runs + 1 => ((program.launch (program.storeAfter setting steps runs)).run setting steps).store

/-- Running a program again changes nothing. With any addresses and any limit on calls, if the first run
of a program ends without an error, then so does a run after whatever the interpreter has done in the
meantime, and it prints the same lines. In particular this holds for every further run of the program. -/
theorem Program.rerun_prints_same (program : Program) (setting : Setting) (steps : Nat)
    (hover : ((program.launch (.start .unlimited)).run setting steps).outcome?.isSome)
    (hok : ((program.launch (.start .unlimited)).run setting steps).error? = none) :
    (∀ σ : Store, σ.Idle → σ.sink.room = none →
      ((program.launch σ).run setting steps).outcome?.isSome ∧
        ((program.launch σ).run setting steps).error? = none ∧
        ((program.launch σ).run setting steps).store.sink.lines =
          σ.sink.lines ++ ((program.launch (.start .unlimited)).run setting steps).store.sink.lines) ∧
    ∀ runs : Nat,
      ((program.launch (program.storeAfter setting steps runs)).run setting steps).outcome?.isSome ∧
        ((program.launch (program.storeAfter setting steps runs)).run setting steps).error? = none ∧
        (program.storeAfter setting steps (runs + 1)).sink.lines =
          (program.storeAfter setting steps runs).sink.lines ++
            (program.storeAfter setting steps 1).sink.lines := by
  have hlater : ∀ σ : Store, σ.Idle → σ.sink.room = none →
      ((program.launch σ).run setting steps).outcome?.isSome ∧
        ((program.launch σ).run setting steps).error? = none ∧
        ((program.launch σ).run setting steps).store.sink =
          ⟨σ.sink.lines ++ ((program.launch (.start .unlimited)).run setting steps).store.sink.lines,
            none⟩ := by
    intro σ hidle hroom
    have hstart : (program.launch (.start .unlimited)).Follows σ.laterFrame σ.sink.lines
        (program.launch σ) := .renamed (hidle.renames hroom)
    exact (hstart.run (Store.laterFrame_injective hidle.size_pos) steps).succeeded hover hok
  have hafter : ∀ runs, (program.storeAfter setting steps runs).Idle ∧
      (program.storeAfter setting steps runs).sink.room = none := by
    intro runs
    induction runs with
    | zero => exact ⟨.start .unlimited, rfl⟩
    | succ runs ih =>
      obtain ⟨hidle, hroom⟩ := ih
      obtain ⟨hended, -, hsink⟩ := hlater _ hidle hroom
      exact ⟨.ended hidle (Machine.Extent.start.run rfl steps) (Machine.hasEnded_nil_iff.2 hended),
        congrArg Sink.room hsink⟩
  constructor
  · intro σ hidle hroom
    obtain ⟨hended, herror, hsink⟩ := hlater σ hidle hroom
    exact ⟨hended, herror, congrArg Sink.lines hsink⟩
  · intro runs
    obtain ⟨hidle, hroom⟩ := hafter runs
    obtain ⟨hended, herror, hsink⟩ := hlater _ hidle hroom
    exact ⟨hended, herror, congrArg Sink.lines hsink⟩

/-- A function is replaced by one that a block declares, and both are compared and printed. -/
def Program.replacedSample : Program where
  declarations :=
    [.function 1 ⟨⟨"f", 0⟩, [], .void⟩ [],
      .binding 2 ⟨"g", 1⟩ (.function [] .void) (.name ⟨"f", 2⟩),
      .statement (.block 3
        [.function 3 ⟨⟨"h", 3⟩, [], .void⟩ [],
          .statement (.print 3 (.binary .equal (.name ⟨"g", 4⟩) (.name ⟨"h", 5⟩))),
          .statement (.expression 3 (.assign ⟨"g", 6⟩ (.name ⟨"h", 7⟩))),
          .statement (.print 3 (.binary .equal (.name ⟨"g", 8⟩) (.name ⟨"h", 9⟩)))]),
      .statement (.print 4 (.name ⟨"g", 10⟩))]
  identifierCount := 11

def Resolutions.replacedSample : Resolutions :=
  ⟨#[some ⟨0, 0⟩, some ⟨0, 1⟩, some ⟨0, 0⟩, some ⟨0, 0⟩, some ⟨1, 1⟩, some ⟨0, 0⟩, some ⟨1, 1⟩,
    some ⟨0, 0⟩, some ⟨1, 1⟩, some ⟨0, 0⟩, some ⟨0, 1⟩]⟩

/-- Its third run prints what the first has, although the function of the first run's block is still
there when it starts. -/
theorem Program.rerun_prints_same_replacedSample :
    let later := Program.replacedSample.storeAfter ⟨.replacedSample, 10⟩ 50
    ((later 1).sink.lines = #["false", "true", "<fn h>"] ∧
      (later 2).scopes.slot? 0 1 = some (.function ⟨⟨⟨"h", 3⟩, [], .void⟩, [], 2⟩)) ∧
    (later 3).sink.lines = (later 2).sink.lines ++ #["false", "true", "<fn h>"] := by
  obtain ⟨-, hruns⟩ := Program.replacedSample.rerun_prints_same ⟨.replacedSample, 10⟩ 50 rfl rfl
  exact ⟨⟨rfl, rfl⟩, (hruns 2).2.2⟩

end LexScript
