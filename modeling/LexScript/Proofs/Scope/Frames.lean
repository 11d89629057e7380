import LexScript.Scope.Stack

/-!
# Frames

What the changes to a scope stack do to its frames, whatever they hold. Frames are only ever added, never
move, and a slot that holds something goes on holding something: `ScopeStack.Grows`.
-/

namespace LexScript.ScopeStack

variable {α : Type u}

@[simp] theorem slot?_global (f : FrameId) (i : Nat) : (global : ScopeStack α).slot? f i = none := by
  cases f with
  | zero => simp [slot?, global]
  | succ f => rfl

section

variable {s t : ScopeStack α}

theorem slot?_write_cases {f g : FrameId} {i j : Nat} {a b : α} (h : (s.write f i a).slot? g j = some b) :
    b = a ∨ s.slot? g j = some b := by
  by_cases hf : f < s.frames.size
  · rw [slot?_write s hf] at h
    split at h
    · exact .inl (Option.some.inj h).symm
    · exact .inr h
  · rw [slot?, write, Array.getElem?_modify] at h
    split at h
    · rename_i hfg
      subst hfg
      simp [Array.getElem?_eq_none (Nat.le_of_not_lt hf)] at h
    · exact .inr h

/-- Where there is no frame, nothing is written. -/
theorem slot?_write_of_le {f : FrameId} (h : s.frames.size ≤ f) (i : Nat) (a : α) (g : FrameId) (j : Nat) :
    (s.write f i a).slot? g j = s.slot? g j := by
  rw [slot?, write, Array.getElem?_modify]
  split
  · rename_i heq
    subst heq
    simp [slot?, Array.getElem?_eq_none h]
  · rfl

theorem lt_of_locate? {a : Address} {f : FrameId} (h : s.locate? a = some f) : f < s.frames.size := by
  obtain ⟨-, hslot⟩ := Option.filter_eq_some_iff.1 h
  obtain ⟨v, hv⟩ := Option.isSome_iff_exists.1 hslot
  exact lt_of_slot? hv

theorem locate?_of_ancestor {a : Address} {f : FrameId}
    (hancestor : s.ancestor? a.distance s.current = some f) :
    s.locate? a = (some f).filter fun g => (s.slot? g a.slot).isSome := by
  simp [locate?, hancestor]

theorem get?_of_locate? {a : Address} (h : s.locate? a = none) : s.get? a = none := by
  rw [locate?] at h
  rw [get?]
  cases hf : s.ancestor? a.distance s.current with
  | none => rfl
  | some f =>
    rw [hf, Option.filter_eq_none_iff] at h
    exact Option.not_isSome_iff_eq_none.1 (h f rfl)

end

theorem ancestor?_congr {α : Type u} {β : Type v} {s : ScopeStack α} {t : ScopeStack β}
    (hparents : ∀ f, t.parent? f = s.parent? f) (distance : Nat) (f : FrameId) :
    t.ancestor? distance f = s.ancestor? distance f := by
  induction distance generalizing f with
  | zero => rfl
  | succ distance ih =>
    simp only [ancestor?, hparents]
    exact Option.bind_congr fun outer _ => ih outer

/-- Frames stay where they are, and slots stay filled. -/
structure Grows (s t : ScopeStack α) : Prop where
  size : s.frames.size ≤ t.frames.size
  parents : ∀ f g, s.parent? f = some g → t.parent? f = some g
  slots : ∀ f i, (s.slot? f i).isSome → (t.slot? f i).isSome

namespace Grows

variable {s t u : ScopeStack α}

theorem refl (s : ScopeStack α) : s.Grows s := ⟨Nat.le_refl _, fun _ _ => id, fun _ _ => id⟩

theorem trans (h : s.Grows t) (h' : t.Grows u) : s.Grows u where
  size := Nat.le_trans h.size h'.size
  parents f g hg := h'.parents f g (h.parents f g hg)
  slots f i hi := h'.slots f i (h.slots f i hi)

theorem congr (h : s.Grows t) (hu : u.frames = t.frames) : s.Grows u where
  size := hu ▸ h.size
  parents f g hg := by
    simpa [parent?, hu] using h.parents f g hg
  slots f i hi := by
    simpa [slot?, hu] using h.slots f i hi

theorem restore (s : ScopeStack α) (f : FrameId) : s.Grows (s.restore f) := (refl s).congr rfl

theorem enterAt (s : ScopeStack α) (outer : FrameId) : s.Grows (s.enterAt outer) where
  size := by
    rw [ScopeStack.enterAt, Array.size_push]
    exact Nat.le_succ _
  parents f g hg := by
    rw [parent?_enterAt, if_neg, hg]
    rintro rfl
    rw [parent?, Array.getElem?_eq_none (Nat.le_refl _)] at hg
    cases hg
  slots f i hi := by rwa [slot?_enterAt]

theorem write (s : ScopeStack α) (f : FrameId) (i : Nat) (a : α) : s.Grows (s.write f i a) where
  size := Nat.le_of_eq (Array.size_modify ..).symm
  parents g e hg := by rwa [parent?_write]
  slots g j hj := by
    by_cases hf : f < s.frames.size
    · rw [slot?_write s hf]
      split
      · rfl
      · exact hj
    · rwa [slot?_write_of_le (Nat.le_of_not_lt hf)]

end Grows
end LexScript.ScopeStack
