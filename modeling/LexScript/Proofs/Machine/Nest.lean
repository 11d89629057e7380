import LexScript.Proofs.Machine.History

/-!
# Nested activations

A frame lies within the activations of the scopes around it, out to the global one. Later activations
change nothing about it, and the frames that are found by going outwards are these activations.
-/

namespace LexScript

/-- The frame is an activation of the first of these scopes, and lies in frames of the others. -/
inductive Nest (activations : List Activation) : FrameId → List Scope → Prop
  | global {f : FrameId} {scope : Scope} (here : activations[f]? = some ⟨scope, none⟩) :
    Nest activations f [scope]
  | inner {f g : FrameId} {scope : Scope} {scopes : List Scope}
    (here : activations[f]? = some ⟨scope, some g⟩) (outer : Nest activations g scopes) :
    Nest activations f (scope :: scopes)

theorem activation_append {activations : List Activation} {f : FrameId} {a : Activation}
    (h : activations[f]? = some a) (later : List Activation) :
    (activations ++ later)[f]? = some a := by
  simp [List.getElem?_append_left (List.getElem?_eq_some_iff.1 h).1, h]

namespace Nest

variable {activations : List Activation} {f : FrameId} {scope : Scope} {scopes : List Scope}

theorem append (h : Nest activations f scopes) (later : List Activation) :
    Nest (activations ++ later) f scopes := by
  induction h with
  | global here => exact .global (activation_append here later)
  | inner here _ ih => exact .inner (activation_append here later) ih

theorem unique {other : List Scope} (h : Nest activations f scopes)
    (hother : Nest activations f other) : scopes = other := by
  induction h generalizing other with
  | global here =>
    cases hother with
    | global there =>
      obtain ⟨rfl, -⟩ := Activation.mk.inj (Option.some.inj (here.symm.trans there))
      rfl
    | inner there outer => simp [here] at there
  | inner here outer ih =>
    cases hother with
    | global there => simp [here] at there
    | inner there outer' =>
      obtain ⟨rfl, hg⟩ := Activation.mk.inj (Option.some.inj (here.symm.trans there))
      obtain rfl := Option.some.inj hg
      rw [ih outer']

theorem head (h : Nest activations f (scope :: scopes)) :
    ∃ outer, activations[f]? = some ⟨scope, outer⟩ := by
  cases h with
  | global here => exact ⟨_, here⟩
  | inner here _ => exact ⟨_, here⟩

theorem cons_of_activation (h : Nest activations f scopes) {a : Activation}
    (ha : activations[f]? = some a) : ∃ rest, scopes = a.scope :: rest := by
  cases h with
  | global here =>
    obtain rfl := Option.some.inj (ha.symm.trans here)
    exact ⟨_, rfl⟩
  | inner here _ =>
    obtain rfl := Option.some.inj (ha.symm.trans here)
    exact ⟨_, rfl⟩

/-- Going outwards from a frame leads through activations of the scopes around it. -/
theorem ancestor {α : Type} {s : ScopeStack α}
    (hparent : ∀ g, s.parent? g = activations[g]?.bind Activation.outer)
    (h : Nest activations f scopes) {distance : Nat} (hd : scopes[distance]? = some scope) :
    ∃ g outer, s.ancestor? distance f = some g ∧ activations[g]? = some ⟨scope, outer⟩ := by
  induction distance generalizing f scopes with
  | zero =>
    cases h with
    | global here =>
      obtain rfl := Option.some.inj hd
      exact ⟨f, _, rfl, here⟩
    | inner here _ =>
      obtain rfl := Option.some.inj hd
      exact ⟨f, _, rfl, here⟩
  | succ distance ih =>
    cases h with
    | global here => simp at hd
    | inner here outer =>
      obtain ⟨g, hg⟩ := ih outer hd
      refine ⟨g, ?_⟩
      simpa [ScopeStack.ancestor?, hparent, here] using hg

end Nest
end LexScript
