import LexScript.Scope.Names
import Mathlib.Data.List.Dedup
import Mathlib.Data.List.Induction

/-!
# Slots as ranks

A scope lists its names without repetition, so the slot of a name is the number of distinct names that
were declared before it. More declarations change no slot.
-/

namespace LexScript.ScopeNames

/-- The number of distinct names before the first occurrence of a name. -/
def rank (names : List String) (name : String) : Nat := (names.takeWhile (· ≠ name)).dedup.length

def ofList (names : List String) : ScopeNames := names.foldl declare []

theorem ofList_append (xs ys : List String) : ofList (xs ++ ys) = ys.foldl declare (ofList xs) :=
  List.foldl_append

theorem mem_declare {names : ScopeNames} {x name : String} :
    x ∈ names.declare name ↔ x ∈ names ∨ x = name := by
  unfold declare
  split
  · rename_i h
    exact ⟨.inl, fun hx => hx.elim id (· ▸ h)⟩
  · simp

theorem mem_foldl_declare {names : ScopeNames} {ys : List String} {x : String} :
    x ∈ ys.foldl declare names ↔ x ∈ names ∨ x ∈ ys := by
  induction ys generalizing names with
  | nil => simp
  | cons y ys ih => simp [List.foldl_cons, ih, mem_declare, List.mem_cons, or_assoc]

@[simp] theorem mem_ofList {names : List String} {x : String} : x ∈ ofList names ↔ x ∈ names := by
  rw [ofList, mem_foldl_declare]
  simp

theorem nodup_declare {names : ScopeNames} (h : names.Nodup) (name : String) :
    (names.declare name).Nodup := by
  unfold declare
  split
  · exact h
  · rename_i hn
    exact List.nodup_append.2 ⟨h, by simp, by rintro a ha b hb rfl; simp_all⟩

theorem nodup_ofList (names : List String) : (ofList names).Nodup := by
  induction names using List.reverseRecOn with
  | nil => exact List.nodup_nil
  | append_singleton xs x ih => rw [ofList_append]; exact nodup_declare ih x

theorem prefix_foldl_declare (names : ScopeNames) (ys : List String) :
    names <+: ys.foldl declare names := by
  induction ys generalizing names with
  | nil => exact List.prefix_rfl
  | cons y ys ih =>
    refine List.IsPrefix.trans ?_ (ih (names.declare y))
    unfold declare
    split
    · exact List.prefix_rfl
    · exact List.prefix_append ..

/-- A name that is in a scope keeps its slot. -/
theorem slot_foldl_declare {names : ScopeNames} {name : String} (h : name ∈ names)
    (ys : List String) : slot (ys.foldl declare names) name = slot names name := by
  obtain ⟨zs, hz⟩ := prefix_foldl_declare names ys
  simp [slot, ← hz, List.idxOf_append_of_mem h]

/-- The scope has as many names as there are distinct ones among the declarations. -/
theorem length_ofList (names : List String) : (ofList names).length = names.dedup.length := by
  refine List.Perm.length_eq ((List.perm_ext_iff_of_nodup (nodup_ofList names) names.nodup_dedup).2 ?_)
  simp

theorem rank_append_cons {before : List String} {name : String} (h : name ∉ before)
    (after : List String) : rank (before ++ name :: after) name = before.dedup.length := by
  have hall : ∀ x ∈ before, decide (x ≠ name) = true := by
    intro x hx
    exact decide_eq_true fun hxn => h (hxn ▸ hx)
  rw [rank, List.takeWhile_append_of_pos hall]
  simp

/-- The slot of a declared name is its rank. -/
theorem slot_ofList {names : List String} {name : String} (h : name ∈ names) :
    slot (ofList names) name = rank names name := by
  obtain ⟨before, after, rfl, hname⟩ := List.eq_append_cons_of_mem h
  have hnot : name ∉ ofList before := by simpa using hname
  have hfirst : slot (ofList (before ++ [name])) name = (ofList before).length := by
    simp only [ofList_append, List.foldl_cons, List.foldl_nil, declare, if_neg hnot, slot,
      List.idxOf_append_of_notMem hnot]
    simp
  calc slot (ofList (before ++ name :: after)) name
      = slot (after.foldl declare (ofList (before ++ [name]))) name := by
        simp [← ofList_append]
    _ = (ofList before).length := by rw [slot_foldl_declare (by simp), hfirst]
    _ = rank (before ++ name :: after) name := by simp [length_ofList, rank_append_cons hname]

/-- Later declarations change no rank. -/
theorem rank_append {xs : List String} {name : String} (h : name ∈ xs) (ys : List String) :
    rank (xs ++ ys) name = rank xs name := by
  rw [← slot_ofList h, ← slot_ofList (List.mem_append_left ys h), ofList_append]
  exact slot_foldl_declare (by simpa using h) ys

/-- Distinct names have distinct ranks. -/
theorem eq_of_rank_eq {names : List String} {x y : String} (hx : x ∈ names) (hy : y ∈ names)
    (h : rank names x = rank names y) : x = y := by
  rw [← slot_ofList hx, ← slot_ofList hy] at h
  exact (List.idxOf_inj (by simpa using hx)).1 h

end LexScript.ScopeNames
