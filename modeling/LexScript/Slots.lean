/-!
# Numbered slots

A growable row of slots, each empty or filled. `get?_put` says what a slot holds after one is filled.
-/

namespace LexScript

/-- A row of slots. The slots beyond its end are empty. -/
structure Slots (α : Type u) where
  entries : Array (Option α)

namespace Slots

variable {α : Type u}

def empty : Slots α := ⟨#[]⟩

/-- The length of the row: one more than the highest slot that was ever filled. -/
def size (s : Slots α) : Nat := s.entries.size

def get? (s : Slots α) (i : Nat) : Option α := s.entries[i]?.join

/-- Fills a slot, making the row longer if need be. -/
def put (s : Slots α) (i : Nat) (a : α) : Slots α :=
  if i < s.entries.size then ⟨s.entries.setIfInBounds i (some a)⟩
  else ⟨(s.entries ++ Array.replicate (i - s.entries.size) none).push (some a)⟩

def count (s : Slots α) : Nat := s.entries.countP Option.isSome

@[simp] theorem get?_empty (i : Nat) : (empty : Slots α).get? i = none := by
  simp [get?, empty]

/-- Filling a slot changes no other. -/
theorem get?_put (s : Slots α) (i j : Nat) (a : α) :
    (s.put i a).get? j = if i = j then some a else s.get? j := by
  unfold put
  split
  · by_cases hij : i = j <;> simp [get?, Array.getElem?_setIfInBounds, hij]
    · subst hij; simp [*]
  · rename_i hi
    have hlen : s.entries.size + (i - s.entries.size) = i := by omega
    simp only [get?, Array.getElem?_push, Array.size_append, Array.size_replicate, hlen]
    by_cases hij : i = j
    · simp [hij]
    · simp only [Ne.symm hij, hij, if_false, Array.getElem?_append, Array.getElem?_replicate]
      split
      · rfl
      · rename_i hj
        rw [Array.getElem?_eq_none (by omega)]
        split <;> rfl

end Slots
end LexScript
