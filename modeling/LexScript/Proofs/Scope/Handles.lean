import LexScript.Proofs.Scope.Frames

/-!
# Frames that are shared

The user of a scope stack may keep handles of frames, enter new frames through them long after their scopes
have ended, and go back from there. Whatever the order of all this, the frames stay a tree: each one leads out
to the global frame, by the way that it had when it was made. A binding that is made or changed is seen by
every way that leads to it, and nothing else changes: `ScopeStack.Held.shared_frames`.
-/

namespace LexScript.ScopeStack

/-- What the user of a scope stack does. Handles are counted in the order in which they were given. -/
inductive Operation (α : Type u)
  | enter
  | exit
  /-- Takes a handle of the current frame. -/
  | capture
  /-- Makes a new frame inside the one with this handle current, and takes a handle of the frame that was. -/
  | enterFrame (handle : Nat)
  /-- Goes back to a frame whose handle was taken when another was entered. -/
  | restore (saved : Nat)
  | define (slot : Nat) (value : α)
  | get (address : Address)
  | assign (address : Address) (value : α)

/-- A scope stack, all handles that its user has, and those of them that lead back. -/
structure Held (α : Type u) where
  stack : ScopeStack α
  handles : List FrameId
  saved : List FrameId

variable {α : Type u}

namespace Held

def start : Held α := ⟨global, [], []⟩

/-- Nothing happens for a handle that was never given. -/
def perform (h : Held α) : Operation α → Held α
  | .enter => { h with stack := h.stack.enter }
  | .exit => { h with stack := h.stack.exit }
  | .capture => { h with handles := h.handles ++ [h.stack.current] }
  | .enterFrame handle =>
    match h.handles[handle]? with
    | some f => ⟨h.stack.enterAt f, h.handles ++ [h.stack.current], h.saved ++ [h.stack.current]⟩
    | none => h
  | .restore saved =>
    match h.saved[saved]? with
    | some f => { h with stack := h.stack.restore f }
    | none => h
  | .define slot value => { h with stack := h.stack.define slot value }
  | .get _ => h
  | .assign address value => { h with stack := (h.stack.assign address value).2 }

def run (h : Held α) (operations : List (Operation α)) : Held α := operations.foldl perform h

end Held

/-- What a handle finds at an address that is counted from its frame. -/
def read (s : ScopeStack α) (f : FrameId) (a : Address) : Option α :=
  (s.ancestor? a.distance f).bind (s.slot? · a.slot)

/-- From one stack to the other, the slot of the frame has got the value, by whatever way it is read, and all
else reads as before. -/
def Updates (s t : ScopeStack α) (g : FrameId) (slot : Nat) (value : α) : Prop :=
  t.current = s.current ∧
    ∀ f a, t.read f a = if s.ancestor? a.distance f = some g ∧ a.slot = slot then some value else s.read f a

/-- The frames form a tree. The global frame is its root, and a frame is newer than the one around it. -/
structure Rooted (s : ScopeStack α) : Prop where
  current : s.current < s.frames.size
  outermost : s.parent? 0 = none
  inside : ∀ f < s.frames.size, f ≠ 0 → ∃ g < f, s.parent? f = some g

/-! ## Ways out -/

section

variable {s t : ScopeStack α}

theorem ancestor?_add (s : ScopeStack α) (d e : Nat) (f : FrameId) :
    s.ancestor? (d + e) f = (s.ancestor? d f).bind (s.ancestor? e) := by
  induction d generalizing f with
  | zero => simp [ancestor?]
  | succ d ih =>
    simp only [Nat.succ_add, ancestor?, Option.bind_assoc]
    exact Option.bind_congr fun g _ => ih g

theorem assign_of_get?_eq_none {a : Address} (h : s.get? a = none) (v : α) : s.assign a v = (false, s) := by
  have hlocate : s.locate? a = none := by
    rw [get?, Option.bind_eq_none_iff] at h
    rw [locate?, Option.filter_eq_none_iff]
    intro f hf
    rw [h f hf]
    exact Bool.false_ne_true
  simp [assign, hlocate]

theorem assign_of_get?_eq_some {a : Address} {b : α} (h : s.get? a = some b) (v : α) :
    ∃ g, s.ancestor? a.distance s.current = some g ∧ g < s.frames.size ∧
      s.assign a v = (true, s.write g a.slot v) := by
  obtain ⟨g, hg, hslot⟩ := Option.bind_eq_some_iff.1 h
  have hlocate : s.locate? a = some g := by
    simp [locate?_of_ancestor hg, hslot]
  refine ⟨g, hg, lt_of_slot? hslot, ?_⟩
  simp [assign, hlocate]

theorem updates_write {g : FrameId} (hg : g < s.frames.size) (i : Nat) (v : α) :
    s.Updates (s.write g i v) g i v := by
  refine ⟨rfl, fun f a => ?_⟩
  have hancestor := ancestor?_congr (fun e => parent?_write s g e i v) a.distance f
  simp only [read, hancestor]
  cases s.ancestor? a.distance f with
  | none => rfl
  | some e =>
    simp only [Option.bind_some, slot?_write s hg, Option.some.injEq, eq_comm]

theorem assign_succeeds_iff (a : Address) (v : α) : (s.assign a v).1 = true ↔ (s.get? a).isSome := by
  cases hget : s.get? a with
  | none => simp [assign_of_get?_eq_none hget]
  | some b =>
    obtain ⟨g, -, -, heq⟩ := assign_of_get?_eq_some hget v
    simp [heq]

theorem assign_of_fails {a : Address} {v : α} (h : (s.assign a v).1 = false) : (s.assign a v).2 = s := by
  have hget : s.get? a = none := by
    rw [← Option.not_isSome_iff_eq_none, ← assign_succeeds_iff a v, h]
    exact Bool.false_ne_true
  rw [assign_of_get?_eq_none hget]

theorem updates_assign {a : Address} {v : α} (h : (s.assign a v).1 = true) :
    ∃ g, s.ancestor? a.distance s.current = some g ∧ s.Updates (s.assign a v).2 g a.slot v := by
  obtain ⟨b, hget⟩ := Option.isSome_iff_exists.1 ((assign_succeeds_iff a v).1 h)
  obtain ⟨g, hancestor, hg, heq⟩ := assign_of_get?_eq_some hget v
  rw [heq]
  exact ⟨g, hancestor, updates_write hg a.slot v⟩

namespace Rooted

theorem global : (global : ScopeStack α).Rooted where
  current := Nat.zero_lt_one
  outermost := rfl
  inside _ hf hne := absurd (Nat.lt_one_iff.1 hf) hne

theorem restore (h : s.Rooted) {f : FrameId} (hf : f < s.frames.size) : (s.restore f).Rooted :=
  ⟨hf, h.outermost, h.inside⟩

theorem exit (h : s.Rooted) : s.exit.Rooted := by
  unfold ScopeStack.exit
  split
  · rename_i outer houter
    have hne : s.current ≠ 0 := by
      intro hzero
      rw [hzero, h.outermost] at houter
      cases houter
    obtain ⟨g, hg, hparent⟩ := h.inside _ h.current hne
    obtain rfl := Option.some.inj (houter.symm.trans hparent)
    exact h.restore (Nat.lt_trans hg h.current)
  · exact h

theorem enterAt (h : s.Rooted) {f : FrameId} (hf : f < s.frames.size) : (s.enterAt f).Rooted := by
  have hsize : (s.enterAt f).frames.size = s.frames.size + 1 := Array.size_push ..
  have hpos : 0 < s.frames.size := Nat.zero_lt_of_lt h.current
  refine ⟨?_, ?_, fun g hg hne => ?_⟩
  · rw [hsize]
    exact Nat.lt_succ_self _
  · simp [parent?_enterAt, Nat.ne_of_lt hpos, h.outermost]
  · rw [hsize] at hg
    rw [parent?_enterAt]
    by_cases hnew : g = s.frames.size
    · rw [if_pos hnew]
      exact ⟨f, hnew ▸ hf, rfl⟩
    · rw [if_neg hnew]
      exact h.inside g (by omega) hne

theorem write (h : s.Rooted) (f : FrameId) (i : Nat) (v : α) : (s.write f i v).Rooted := by
  have hsize : (s.write f i v).frames.size = s.frames.size := Array.size_modify ..
  refine ⟨?_, ?_, fun g hg hne => ?_⟩
  · rw [hsize]
    exact h.current
  · simp [parent?_write, h.outermost]
  · rw [parent?_write]
    exact h.inside g (hsize ▸ hg) hne

theorem assign (h : s.Rooted) (a : Address) (v : α) : (s.assign a v).2.Rooted := by
  unfold ScopeStack.assign
  split
  · exact h.write ..
  · exact h

/-- By induction on the age of the frame, since the one around it is older. -/
theorem exists_depth (h : s.Rooted) {f : FrameId} (hf : f < s.frames.size) :
    ∃ depth, s.ancestor? depth f = some 0 := by
  induction f using Nat.strongRecOn with
  | ind f ih =>
    by_cases hzero : f = 0
    · exact ⟨0, congrArg some hzero⟩
    · obtain ⟨g, hg, hparent⟩ := h.inside f hf hzero
      obtain ⟨depth, hdepth⟩ := ih g hg (Nat.lt_trans hg hf)
      refine ⟨depth + 1, ?_⟩
      simp [ancestor?, hparent, hdepth]

/-- The way out ends at the global frame and not before. -/
theorem isSome_ancestor?_iff (h : s.Rooted) {f : FrameId} {depth : Nat}
    (hdepth : s.ancestor? depth f = some 0) (d : Nat) : (s.ancestor? d f).isSome ↔ d ≤ depth := by
  constructor
  · refine fun hd => Nat.le_of_not_lt fun hlt => ?_
    obtain ⟨e, rfl⟩ := Nat.exists_eq_add_of_lt hlt
    rw [Nat.add_assoc, ancestor?_add, hdepth, Option.bind_some, ancestor?, h.outermost] at hd
    cases hd
  · intro hle
    obtain ⟨e, rfl⟩ := Nat.exists_eq_add_of_le hle
    rw [ancestor?_add] at hdepth
    obtain ⟨g, hg, -⟩ := Option.bind_eq_some_iff.1 hdepth
    simp [hg]

theorem get?_beyond (h : s.Rooted) {depth : Nat} (hdepth : s.ancestor? depth s.current = some 0) {d : Nat}
    (hd : depth < d) (i : Nat) : s.get? ⟨d, i⟩ = none := by
  have hnone : s.ancestor? d s.current = none := by
    simpa [← Option.not_isSome_iff_eq_none, h.isSome_ancestor?_iff hdepth] using Nat.not_le_of_lt hd
  simp [get?, hnone]

theorem parent?_of_grows (h : s.Rooted) (ht : t.Rooted) (hst : s.Grows t) {f : FrameId}
    (hf : f < s.frames.size) : t.parent? f = s.parent? f := by
  by_cases hzero : f = 0
  · simp [hzero, h.outermost, ht.outermost]
  · obtain ⟨g, -, hparent⟩ := h.inside f hf hzero
    simp [hparent, hst.parents f g hparent]

/-- The way out from a frame is the one that it had when it was made. -/
theorem ancestor?_of_grows (h : s.Rooted) (ht : t.Rooted) (hst : s.Grows t) {f : FrameId}
    (hf : f < s.frames.size) (d : Nat) : t.ancestor? d f = s.ancestor? d f := by
  induction d generalizing f with
  | zero => rfl
  | succ d ih =>
    simp only [ancestor?, h.parent?_of_grows ht hst hf]
    refine Option.bind_congr fun g hg => ih ?_
    by_cases hzero : f = 0
    · rw [hzero, h.outermost] at hg
      cases hg
    · obtain ⟨outer, houter, hparent⟩ := h.inside f hf hzero
      obtain rfl := Option.some.inj (hparent.symm.trans hg)
      exact Nat.lt_trans houter hf

/-- A scope that is entered through a handle sees, one step further out, what the handle finds. -/
theorem get?_enterAt (h : s.Rooted) {f : FrameId} (hf : f < s.frames.size) (d i : Nat) :
    (s.enterAt f).get? ⟨d + 1, i⟩ = s.read f ⟨d, i⟩ := by
  have hancestor := h.ancestor?_of_grows (h.enterAt hf) (.enterAt s f) hf
  simp [get?, read, ancestor?, parent?_enterAt, hancestor, slot?_enterAt]

end Rooted
end

/-! ## Histories -/

namespace Held

/-- The frames form a tree, and every handle leads into it. -/
structure Sound (h : Held α) : Prop where
  rooted : h.stack.Rooted
  handles : ∀ f ∈ h.handles, f < h.stack.frames.size
  saved : ∀ f ∈ h.saved, f < h.stack.frames.size

theorem grows_perform (h : Held α) (op : Operation α) : h.stack.Grows (h.perform op).stack := by
  cases op with
  | enter => exact .enterAt ..
  | exit => exact (Grows.refl _).congr (frames_exit _)
  | capture | get => exact .refl _
  | enterFrame handle =>
    rw [perform]
    split
    · exact .enterAt ..
    · exact .refl _
  | restore saved =>
    rw [perform]
    split
    · exact .restore ..
    · exact .refl _
  | define slot value => exact .write ..
  | assign address value =>
    unfold perform assign
    dsimp only
    split
    · exact .write ..
    · exact .refl _

theorem Sound.start : (start : Held α).Sound := ⟨.global, nofun, nofun⟩

theorem Sound.perform {h : Held α} (hs : h.Sound) (op : Operation α) : (h.perform op).Sound := by
  have hsize := (h.grows_perform op).size
  have hhandles : ∀ f ∈ h.handles, f < (h.perform op).stack.frames.size := fun f hf =>
    Nat.lt_of_lt_of_le (hs.handles f hf) hsize
  have hsaved : ∀ f ∈ h.saved, f < (h.perform op).stack.frames.size := fun f hf =>
    Nat.lt_of_lt_of_le (hs.saved f hf) hsize
  have hcurrent : h.stack.current < (h.perform op).stack.frames.size :=
    Nat.lt_of_lt_of_le hs.rooted.current hsize
  cases op with
  | enter => exact ⟨hs.rooted.enterAt hs.rooted.current, hhandles, hsaved⟩
  | exit => exact ⟨hs.rooted.exit, hhandles, hsaved⟩
  | capture =>
    refine ⟨hs.rooted, ?_, hsaved⟩
    simpa [Held.perform, or_imp, forall_and] using ⟨hhandles, hcurrent⟩
  | enterFrame handle =>
    cases hf : h.handles[handle]? with
    | none =>
      have hperform : h.perform (.enterFrame handle) = h := by simp [Held.perform, hf]
      rw [hperform]
      exact hs
    | some f =>
      have hperform : h.perform (.enterFrame handle) =
          ⟨h.stack.enterAt f, h.handles ++ [h.stack.current], h.saved ++ [h.stack.current]⟩ := by
        simp [Held.perform, hf]
      rw [hperform] at hhandles hsaved hcurrent ⊢
      have hlt := hs.handles f (List.mem_of_getElem? hf)
      refine ⟨hs.rooted.enterAt hlt, ?_, ?_⟩
      · simpa [or_imp, forall_and] using ⟨hhandles, hcurrent⟩
      · simpa [or_imp, forall_and] using ⟨hsaved, hcurrent⟩
  | restore saved =>
    cases hf : h.saved[saved]? with
    | none =>
      have hperform : h.perform (.restore saved) = h := by simp [Held.perform, hf]
      rw [hperform]
      exact hs
    | some f =>
      have hperform : h.perform (.restore saved) = { h with stack := h.stack.restore f } := by
        simp [Held.perform, hf]
      rw [hperform]
      exact ⟨hs.rooted.restore (hs.saved f (List.mem_of_getElem? hf)), hs.handles, hs.saved⟩
  | define slot value => exact ⟨hs.rooted.write .., hhandles, hsaved⟩
  | get address => exact hs
  | assign address value => exact ⟨hs.rooted.assign .., hhandles, hsaved⟩

theorem Sound.run {h : Held α} (hs : h.Sound) (ops : List (Operation α)) : (h.run ops).Sound := by
  induction ops generalizing h with
  | nil => exact hs
  | cons op ops ih => exact ih (hs.perform op)

theorem grows_run (h : Held α) (ops : List (Operation α)) : h.stack.Grows (h.run ops).stack := by
  induction ops generalizing h with
  | nil => exact .refl _
  | cons op ops ih => exact (h.grows_perform op).trans (ih (h.perform op))

/-- Frames may be shared. After any operations, and whatever comes later:
every frame that a handle leads to is there, and so is the current one; the way out from a frame that is there
is finite, ends at the global frame and never changes, and a scope entered through a handle sees what the handle
finds; beyond the way out nothing is found; an assignment succeeds exactly if something is found at its address,
and otherwise changes nothing; a definition, and an assignment that succeeds, change one slot of one frame, for
all ways that lead there; and a slot that holds something always will. -/
theorem shared_frames (before after : List (Operation α)) :
    let h := start.run before
    let s := h.stack
    let t := (h.run after).stack
    (∀ f, f = s.current ∨ f ∈ h.handles ∨ f ∈ h.saved → f < s.frames.size) ∧
      (∀ f < s.frames.size,
        (∃ depth, s.ancestor? depth f = some 0 ∧ ∀ d, (s.ancestor? d f).isSome ↔ d ≤ depth) ∧
        (∀ d, t.ancestor? d f = s.ancestor? d f) ∧
        ∀ d i, (s.enterAt f).get? ⟨d + 1, i⟩ = s.read f ⟨d, i⟩) ∧
      (∀ depth, s.ancestor? depth s.current = some 0 → ∀ d > depth, ∀ i, s.get? ⟨d, i⟩ = none) ∧
      (∀ a v, ((s.assign a v).1 = true ↔ (s.get? a).isSome) ∧
        ((s.assign a v).1 = false → (s.assign a v).2 = s)) ∧
      (∀ i v, s.Updates (s.define i v) s.current i v) ∧
      (∀ a v, (s.assign a v).1 = true →
        ∃ g, s.ancestor? a.distance s.current = some g ∧ s.Updates (s.assign a v).2 g a.slot v) ∧
      ∀ f i, (s.slot? f i).isSome → (t.slot? f i).isSome := by
  intro h s t
  have hs : h.Sound := Sound.start.run before
  have ht : (h.run after).Sound := hs.run after
  have hgrows : s.Grows t := h.grows_run after
  refine ⟨?_, fun f hf => ⟨?_, ?_, ?_⟩, fun depth hdepth d hd => ?_, fun a v => ?_, ?_, fun a v => ?_, ?_⟩
  · rintro f (rfl | hf | hf)
    · exact hs.rooted.current
    · exact hs.handles f hf
    · exact hs.saved f hf
  · obtain ⟨depth, hdepth⟩ := hs.rooted.exists_depth hf
    exact ⟨depth, hdepth, hs.rooted.isSome_ancestor?_iff hdepth⟩
  · exact hs.rooted.ancestor?_of_grows ht.rooted hgrows hf
  · exact hs.rooted.get?_enterAt hf
  · exact hs.rooted.get?_beyond hdepth hd
  · exact ⟨assign_succeeds_iff a v, assign_of_fails⟩
  · exact updates_write hs.rooted.current
  · exact updates_assign
  · exact hgrows.slots

/-- A frame is captured and left, and another one is made inside it. The assignment from there is seen through
the handle. -/
theorem shared_frames_capturedSample :
    let h : Held Nat := start.run [.enter, .define 0 10, .capture, .exit, .define 0 20, .enterFrame 0]
    h.handles = [1, 0] ∧ (h.stack.assign ⟨1, 0⟩ 7).1 = true ∧
      (h.stack.assign ⟨1, 0⟩ 7).2.read 1 ⟨0, 0⟩ = some 7 ∧
      (h.stack.assign ⟨1, 0⟩ 7).2.read 1 ⟨1, 0⟩ = some 20 ∧ h.stack.get? ⟨3, 0⟩ = none := by
  intro h
  obtain ⟨-, -, hbeyond, hassign, -, hupdates, -⟩ :=
    shared_frames (α := Nat) [.enter, .define 0 10, .capture, .exit, .define 0 20, .enterFrame 0] []
  have hthere : (h.stack.assign ⟨1, 0⟩ 7).1 = true := (hassign ⟨1, 0⟩ 7).1.2 (by decide)
  obtain ⟨g, hg, -, hread⟩ := hupdates ⟨1, 0⟩ 7 hthere
  obtain rfl : 1 = g := Option.some.inj (Eq.trans (by decide) hg)
  refine ⟨by decide, hthere, (hread 1 ⟨0, 0⟩).trans (by decide), (hread 1 ⟨1, 0⟩).trans (by decide), ?_⟩
  exact hbeyond 2 (by decide) 3 (by decide) 0

end Held
end LexScript.ScopeStack
