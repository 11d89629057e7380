import LexScript.Proofs.Scope.Names
import LexScript.Scope.Resolution
import Mathlib.Data.List.Basic

/-!
# Scopes and places

A scope is a part of a program that has a frame of its own, and a place is a point between its
declarations. What a name refers to at nested places is said here by rank and by nearness, without a
walk over the program: `address?_eq_some_iff` says that the addresses of names are these.
-/

namespace LexScript

/-- A part of a program that has a frame of its own. -/
inductive Scope
  | global (declarations : List Decl)
  | block (body : List Decl)
  | function (header : FunctionHeader) (body : List Decl)
  | loop (first : Decl)

def Decl.variable? : Decl → Option Identifier
  | .binding _ identifier _ _ => some identifier
  | _ => none

namespace Scope

def parameters : Scope → List Identifier
  | function header _ => header.parameters.map Parameter.identifier
  | _ => []

def declarations : Scope → List Decl
  | global declarations => declarations
  | block body | function _ body => body
  | loop first => [first]

/-- The names that are declared as soon as the scope is entered: parameters, and functions wherever
they stand. -/
def early (s : Scope) : List Identifier :=
  s.parameters ++ s.declarations.filterMap Resolution.hoisted?

/-- All names that the scope declares, in the order in which they take their slots. -/
def registered (s : Scope) : List Identifier := s.early ++ s.declarations.filterMap Decl.variable?

/-- The slot of a name of the scope: its rank among the distinct names. -/
def slot (s : Scope) (name : String) : Nat :=
  ScopeNames.rank (s.registered.map Identifier.name) name

theorem early_subset_registered (s : Scope) : s.early ⊆ s.registered := List.subset_append_left ..

theorem early_global (ds : List Decl) : (global ds).early = ds.filterMap Resolution.hoisted? := rfl

theorem early_block (ds : List Decl) : (block ds).early = ds.filterMap Resolution.hoisted? := rfl

theorem early_loop (d : Decl) : (loop d).early = [d].filterMap Resolution.hoisted? := rfl

theorem early_function (header : FunctionHeader) (ds : List Decl) : (function header ds).early =
    header.parameters.map Parameter.identifier ++ ds.filterMap Resolution.hoisted? := rfl

end Scope

/-- A point in a scope, behind so many of its declarations. -/
structure Place where
  scope : Scope
  position : Nat

namespace Place

/-- The declarations of the scope that are visible: the early ones, and the variables that stand
before the point. -/
def visible (p : Place) : List Identifier :=
  p.scope.early ++ (p.scope.declarations.take p.position).filterMap Decl.variable?

def Sees (p : Place) (name : String) : Prop := name ∈ p.visible.map Identifier.name

def names (p : Place) : ScopeNames := .ofList (p.visible.map Identifier.name)

/-- Of nested places, listed from the innermost, the nearest that sees the name. -/
structure Nearest (places : List Place) (name : String) (distance : Nat) (place : Place) : Prop where
  at_distance : places[distance]? = some place
  sees : place.Sees name
  nearest : ∀ i < distance, ∀ q, places[i]? = some q → ¬ q.Sees name

def address? (places : List Place) (name : String) : Option Address :=
  ScopeNames.address? (places.map names) name

theorem visible_initial (p : Place) : p.visible <+: p.scope.registered :=
  List.prefix_append_right_inj _ |>.2 ((List.take_prefix ..).filterMap _)

theorem Sees.registered {p : Place} {name : String} (h : p.Sees name) :
    name ∈ p.scope.registered.map Identifier.name :=
  (p.visible_initial.map Identifier.name).subset h

@[simp] theorem mem_names {p : Place} {name : String} : name ∈ p.names ↔ p.Sees name :=
  ScopeNames.mem_ofList

/-- The slot of a visible name is known before the rest of the scope. -/
theorem slot_names {p : Place} {name : String} (h : p.Sees name) :
    ScopeNames.slot p.names name = p.scope.slot name := by
  obtain ⟨rest, hrest⟩ := p.visible_initial.map Identifier.name
  simp [names, ScopeNames.slot_ofList h, Scope.slot, ← hrest, ScopeNames.rank_append h]

theorem Nearest.zero {p : Place} {places : List Place} {name : String} (h : p.Sees name) :
    Nearest (p :: places) name 0 p :=
  ⟨rfl, h, by simp⟩

theorem Nearest.succ {p q : Place} {places : List Place} {name : String} {distance : Nat}
    (hp : ¬ p.Sees name) (h : Nearest places name distance q) :
    Nearest (p :: places) name (distance + 1) q := by
  refine ⟨h.at_distance, h.sees, fun i hi r hr => ?_⟩
  cases i with
  | zero => obtain rfl := Option.some.inj hr; exact hp
  | succ i => exact h.nearest i (by omega) r hr

theorem Nearest.cases {p q : Place} {places : List Place} {name : String} {distance : Nat}
    (h : Nearest (p :: places) name distance q) :
    distance = 0 ∧ p = q ∨
      ∃ d, distance = d + 1 ∧ ¬ p.Sees name ∧ Nearest places name d q := by
  cases distance with
  | zero => exact .inl ⟨rfl, Option.some.inj h.at_distance⟩
  | succ d =>
    exact .inr ⟨d, rfl, h.nearest 0 (by omega) p rfl, h.at_distance, h.sees,
      fun i hi r hr => h.nearest (i + 1) (by omega) r hr⟩

/-- A name has the address of the nearest place that sees it. -/
theorem address?_eq_some_iff {places : List Place} {name : String} {a : Address} :
    address? places name = some a ↔
      ∃ p, Nearest places name a.distance p ∧ a.slot = p.scope.slot name := by
  induction places generalizing a with
  | nil =>
    simp only [address?, List.map_nil, ScopeNames.address?, reduceCtorEq, false_iff]
    rintro ⟨p, h, -⟩
    simpa using h.at_distance
  | cons p places ih =>
    rw [address?, List.map_cons, ScopeNames.address?]
    split
    · rename_i hsees
      rw [mem_names] at hsees
      constructor
      · intro h
        obtain rfl := Option.some.inj h
        exact ⟨p, .zero hsees, slot_names hsees⟩
      · rintro ⟨q, hq, hslot⟩
        rcases hq.cases with ⟨hd, rfl⟩ | ⟨d, hd, hnot, -⟩
        · simp [slot_names hsees, ← hslot, ← hd]
        · exact absurd hsees hnot
    · rename_i hnot
      rw [mem_names] at hnot
      constructor
      · intro h
        obtain ⟨b, hb, rfl⟩ := Option.map_eq_some_iff.1 h
        obtain ⟨q, hq, hslot⟩ := ih.1 hb
        exact ⟨q, hq.succ hnot, hslot⟩
      · rintro ⟨q, hq, hslot⟩
        rcases hq.cases with ⟨hd, rfl⟩ | ⟨d, hd, -, hq⟩
        · exact absurd hq.sees hnot
        · refine Option.map_eq_some_iff.2 ⟨⟨d, a.slot⟩, ih.2 ⟨q, hq, hslot⟩, ?_⟩
          rw [← hd]

/-- A name has no address where no place sees it. -/
theorem address?_eq_none_iff {places : List Place} {name : String} :
    address? places name = none ↔ ∀ p ∈ places, ¬ p.Sees name := by
  induction places with
  | nil => simp [address?, ScopeNames.address?]
  | cons p places ih =>
    simp only [address?, List.map_cons, ScopeNames.address?, List.forall_mem_cons, ← ih]
    split
    · rename_i hsees
      simp [mem_names.1 hsees]
    · rename_i hnot
      rw [mem_names] at hnot
      simp [hnot]

end Place
end LexScript
