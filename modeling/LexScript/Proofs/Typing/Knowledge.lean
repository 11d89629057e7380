import LexScript.Proofs.Typing.Rules
import LexScript.Scope.Stack

/-!
# What the frames of a check know

The frames of a check lie one within the other like the scopes around the code that is checked, and each
holds the types of the names that are visible there: `Knows`. Looking up a name then finds its type.
-/

namespace LexScript

theorem typeIn?_append (xs ys : List (Identifier × Ty)) (name : String) :
    typeIn? (xs ++ ys) name = (typeIn? xs name).or (typeIn? ys name) := by
  simp only [typeIn?, List.find?_append]
  cases xs.find? (·.1.name = name) <;> rfl

theorem typeIn?_singleton (i : Identifier) (t : Ty) (name : String) :
    typeIn? [(i, t)] name = if i.name = name then some t else none := by
  rw [typeIn?, List.find?_singleton]
  by_cases h : i.name = name <;> simp [h]

theorem typeIn?_cons (i : Identifier) (t : Ty) (types : List (Identifier × Ty)) (name : String) :
    typeIn? ((i, t) :: types) name = if i.name = name then some t else typeIn? types name := by
  rw [← List.singleton_append, typeIn?_append, typeIn?_singleton]
  by_cases h : i.name = name <;> simp [h]

theorem exists_typeIn? {types : List (Identifier × Ty)} {p : Identifier × Ty} (hp : p ∈ types) :
    ∃ t, typeIn? types p.1.name = some t := by
  simp only [← Option.isSome_iff_exists, typeIn?, Option.isSome_map, List.find?_isSome]
  exact ⟨p, hp, by simp⟩

theorem exists_mem_of_typeIn? {types : List (Identifier × Ty)} {name : String} {t : Ty}
    (h : typeIn? types name = some t) : ∃ p ∈ types, p.1.name = name := by
  obtain ⟨p, hp, -⟩ := Option.map_eq_some_iff.1 h
  exact ⟨p, List.mem_of_find?_eq_some hp, by simpa using List.find?_some hp⟩

/-- A type that is found among the first entries is found among all. -/
theorem typeIn?_of_initial {xs ys : List (Identifier × Ty)} (h : xs <+: ys) {name : String} {t : Ty}
    (ht : typeIn? xs name = some t) : typeIn? ys name = some t := by
  rcases h with ⟨zs, rfl⟩
  simp [typeIn?_append, ht]

theorem Decl.map_functionType? (d : Decl) :
    d.functionType?.map Prod.fst = Resolution.hoisted? d := by
  cases d <;> rfl

theorem Decl.map_variableType? (d : Decl) : d.variableType?.map Prod.fst = d.variable? := by
  cases d <;> rfl

def Place.types (p : Place) : List (Identifier × Ty) :=
  p.scope.parameterTypes.reverse ++ p.scope.declarations.filterMap Decl.functionType? ++
    (p.scope.declarations.take p.position).filterMap Decl.variableType?

theorem Scope.map_parameterTypes (s : Scope) : s.parameterTypes.map Prod.fst = s.parameters := by
  cases s with
  | function header body =>
    simp [parameterTypes, parameters]
  | _ => rfl

namespace Place

theorem types_initial (p : Place) : p.types <+: p.scope.types :=
  List.prefix_append_right_inj _ |>.2 ((List.take_prefix ..).filterMap _)

theorem mem_visible {p : Place} {i : Identifier} :
    i ∈ p.visible ↔ i ∈ p.types.map Prod.fst := by
  simp only [visible, Scope.early, types, List.map_append, List.map_reverse, p.scope.map_parameterTypes,
    List.map_filterMap]
  simp only [Decl.map_functionType?, Decl.map_variableType?, List.mem_append, List.mem_reverse]

/-- A name that a place sees has the type that its scope gives it. -/
theorem exists_typeOf? {p : Place} {name : String} (h : p.Sees name) :
    ∃ t, typeIn? p.types name = some t ∧ p.scope.typeOf? name = some t := by
  obtain ⟨i, hi, rfl⟩ := List.mem_map.1 h
  rw [mem_visible] at hi
  obtain ⟨q, hq, rfl⟩ := List.mem_map.1 hi
  obtain ⟨t, ht⟩ := exists_typeIn? hq
  exact ⟨t, ht, typeIn?_of_initial p.types_initial ht⟩

end Place

structure ScopeStack.Holds (s : ScopeStack Ty) (f : FrameId) (scope : Scope)
    (types : List (Identifier × Ty)) : Prop where
  registered : ∀ p ∈ types, p.1 ∈ scope.registered
  slots : ∀ p ∈ types, s.slot? f (scope.slot p.1.name) = typeIn? types p.1.name

/-- The frame and those around it hold the types of names of nested scopes. A frame is newer than the
one around it. -/
inductive Knows (s : ScopeStack Ty) : FrameId → List (Scope × List (Identifier × Ty)) → Prop
  | global {f : FrameId} {scope : Scope} {types : List (Identifier × Ty)}
    (size : f < s.frames.size) (outermost : s.parent? f = none) (holds : s.Holds f scope types) :
    Knows s f [(scope, types)]
  | inner {f g : FrameId} {scope : Scope} {types : List (Identifier × Ty)}
    {views : List (Scope × List (Identifier × Ty))} (size : f < s.frames.size)
    (parent : s.parent? f = some g) (newer : g < f) (holds : s.Holds f scope types)
    (outer : Knows s g views) : Knows s f ((scope, types) :: views)

/-- A place, as the frames of a check know it. -/
def Place.view (p : Place) : Scope × List (Identifier × Ty) := (p.scope, p.types)

namespace ScopeStack.Holds

variable {s t : ScopeStack Ty} {f : FrameId} {scope : Scope} {types : List (Identifier × Ty)}

theorem congr (h : s.Holds f scope types) (hslots : ∀ i, t.slot? f i = s.slot? f i) :
    t.Holds f scope types where
  registered := h.registered
  slots p hp := by simp [hslots, h.slots p hp]

theorem slot?_of_typeIn? (h : s.Holds f scope types) {name : String} {t : Ty}
    (ht : typeIn? types name = some t) : s.slot? f (scope.slot name) = some t := by
  obtain ⟨p, hp, rfl⟩ := exists_mem_of_typeIn? ht
  simp [h.slots p hp, ht]

/-- Writing the type of a name does not touch those of others. -/
theorem slot?_write_of_ne (h : s.Holds f scope types) (hf : f < s.frames.size) {i : Identifier}
    (hi : i ∈ scope.registered) {p : Identifier × Ty} (hp : p ∈ types) (hne : p.1.name ≠ i.name)
    (type : Ty) :
    (s.write f (scope.slot i.name) type).slot? f (scope.slot p.1.name) = typeIn? types p.1.name := by
  rw [slot?_write s hf, if_neg, h.slots p hp]
  rintro ⟨-, hslot⟩
  exact hne (ScopeNames.eq_of_rank_eq (List.mem_map_of_mem (h.registered p hp))
    (List.mem_map_of_mem hi) hslot.symm)

theorem slot?_write_self (hf : f < s.frames.size) (i : Identifier) (type : Ty) :
    (s.write f (scope.slot i.name) type).slot? f (scope.slot i.name) = some type := by
  rw [slot?_write s hf, if_pos ⟨rfl, rfl⟩]

/-- A name that is bound again keeps its type. -/
theorem append (h : s.Holds f scope types) (hf : f < s.frames.size) {i : Identifier}
    (hi : i ∈ scope.registered) {type : Ty}
    (hagree : ∀ u, typeIn? types i.name = some u → u = type) :
    (s.write f (scope.slot i.name) type).Holds f scope (types ++ [(i, type)]) := by
  have hself : typeIn? (types ++ [(i, type)]) i.name = some type := by
    rw [typeIn?_append, typeIn?_singleton, if_pos rfl]
    cases hu : typeIn? types i.name with
    | none => rfl
    | some u => rw [hagree u hu]; rfl
  constructor
  · intro p hp
    rcases List.mem_append.1 hp with hp | hp
    · exact h.registered p hp
    · rw [List.mem_singleton.1 hp]
      exact hi
  · intro p hp
    by_cases hname : p.1.name = i.name
    · simp [hname, slot?_write_self hf, hself]
    · have hp : p ∈ types := by
        rcases List.mem_append.1 hp with hp | hp
        · exact hp
        · rw [List.mem_singleton.1 hp] at hname
          exact absurd rfl hname
      simp [h.slot?_write_of_ne hf hi hp hname, typeIn?_append, typeIn?_singleton, Ne.symm hname]

/-- A parameter that is bound again gets the later type. -/
theorem cons (h : s.Holds f scope types) (hf : f < s.frames.size) {i : Identifier}
    (hi : i ∈ scope.registered) (type : Ty) :
    (s.write f (scope.slot i.name) type).Holds f scope ((i, type) :: types) := by
  refine ⟨List.forall_mem_cons.2 ⟨hi, h.registered⟩, fun p hp => ?_⟩
  rw [typeIn?_cons]
  by_cases hname : p.1.name = i.name
  · simp [hname, slot?_write_self hf]
  · have hp : p ∈ types := by
      rcases List.mem_cons.1 hp with rfl | hp
      · exact absurd rfl hname
      · exact hp
    simp [h.slot?_write_of_ne hf hi hp hname, Ne.symm hname]

end ScopeStack.Holds

namespace Knows

variable {s t : ScopeStack Ty} {f : FrameId} {scope : Scope} {types : List (Identifier × Ty)}
  {views : List (Scope × List (Identifier × Ty))}

theorem lt (h : Knows s f views) : f < s.frames.size := by
  cases h with
  | global size | inner size => exact size

theorem holds (h : Knows s f ((scope, types) :: views)) : s.Holds f scope types := by
  cases h with
  | global _ _ holds | inner _ _ _ holds => exact holds

/-- Frames that do not change know what they knew. -/
theorem of_frames (h : Knows s f views) (hsize : s.frames.size ≤ t.frames.size)
    (hframes : ∀ g < s.frames.size, t.frames[g]? = s.frames[g]?) : Knows t f views := by
  have hparent : ∀ g < s.frames.size, t.parent? g = s.parent? g := by
    intro g hg
    simp [ScopeStack.parent?, hframes g hg]
  have hslot : ∀ g < s.frames.size, ∀ i, t.slot? g i = s.slot? g i := by
    intro g hg i
    simp [ScopeStack.slot?, hframes g hg]
  induction h with
  | global size outermost holds =>
    exact .global (Nat.lt_of_lt_of_le size hsize) ((hparent _ size).trans outermost)
      (holds.congr (hslot _ size))
  | inner size parent newer holds outer ih =>
    exact .inner (Nat.lt_of_lt_of_le size hsize) ((hparent _ size).trans parent) newer
      (holds.congr (hslot _ size)) ih

/-- Writing to a newer frame changes nothing. -/
theorem write_newer (h : Knows s f views) {g : FrameId} (hg : g < s.frames.size) (hfg : f < g)
    (i : Nat) (type : Ty) : Knows (s.write g i type) f views := by
  have hsize : (s.write g i type).frames.size = s.frames.size := Array.size_modify ..
  have hslot : ∀ f' < g, ∀ j, (s.write g i type).slot? f' j = s.slot? f' j := by
    intro f' hf' j
    rw [ScopeStack.slot?_write s hg, if_neg]
    rintro ⟨rfl, -⟩
    exact Nat.lt_irrefl g hf'
  induction h with
  | global size outermost holds =>
    refine .global ?_ ((ScopeStack.parent?_write ..).trans outermost) (holds.congr (hslot _ hfg))
    rw [hsize]
    exact size
  | inner size parent newer holds outer ih =>
    refine .inner ?_ ((ScopeStack.parent?_write ..).trans parent) newer (holds.congr (hslot _ hfg))
      (ih (Nat.lt_trans newer hfg))
    rw [hsize]
    exact size

/-- Writing to the innermost frame changes what is known of it alone. -/
theorem write (h : Knows s f ((scope, types) :: views)) {i : Nat} {type : Ty}
    {later : List (Identifier × Ty)} (hlater : (s.write f i type).Holds f scope later) :
    Knows (s.write f i type) f ((scope, later) :: views) := by
  have hsize : f < (s.write f i type).frames.size := by
    simpa [ScopeStack.write] using h.lt
  cases h with
  | global size outermost holds =>
    exact .global hsize ((ScopeStack.parent?_write ..).trans outermost) hlater
  | inner size parent newer holds outer =>
    exact .inner hsize ((ScopeStack.parent?_write ..).trans parent) newer hlater
      (outer.write_newer size newer i type)

/-- A new frame knows nothing yet. -/
theorem enterAt (h : Knows s f views) (scope : Scope) :
    Knows (s.enterAt f) s.frames.size ((scope, []) :: views) := by
  have hsize : (s.enterAt f).frames.size = s.frames.size + 1 := Array.size_push ..
  have hparent := s.parent?_enterAt f s.frames.size
  rw [if_pos rfl] at hparent
  refine .inner ?_ hparent h.lt ⟨by simp, by simp⟩ (h.of_frames ?_ fun g hg => ?_)
  · rw [hsize]
    exact Nat.lt_succ_self _
  · rw [hsize]
    exact Nat.le_succ _
  · simp [ScopeStack.enterAt, Array.getElem?_push_lt hg, Array.getElem?_eq_getElem hg]

/-- A name that is looked up has the type that the nearest scope gives it. -/
theorem lookup {places : List Place} (h : Knows s f (places.map Place.view)) {name : String}
    {distance : Nat} {p : Place} (hp : Place.Nearest places name distance p) :
    ∃ g t, s.ancestor? distance f = some g ∧ s.slot? g (p.scope.slot name) = some t ∧
      p.scope.typeOf? name = some t := by
  induction places generalizing f distance with
  | nil => cases hp.at_distance
  | cons q places ih =>
    rcases hp.cases with ⟨rfl, rfl⟩ | ⟨d, rfl, -, hd⟩
    · obtain ⟨t, ht, htype⟩ := Place.exists_typeOf? hp.sees
      exact ⟨f, t, rfl, h.holds.slot?_of_typeIn? ht, htype⟩
    · rw [List.map_cons] at h
      generalize hviews : places.map Place.view = views at h
      cases h with
      | global size outermost holds =>
        rw [List.map_eq_nil_iff] at hviews
        rw [hviews] at hd
        cases hd.at_distance
      | inner size parent newer holds outer =>
        subst hviews
        obtain ⟨g, t, hg, ht, htype⟩ := ih outer hd
        refine ⟨g, t, ?_, ht, htype⟩
        simpa [ScopeStack.ancestor?, parent] using hg

end Knows
end LexScript
