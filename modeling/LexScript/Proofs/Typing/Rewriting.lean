import LexScript.Proofs.Scope.RewrittenParts
import LexScript.Proofs.Typing.Swaps

/-!
# Checking rewritten programs

A name that is used has the type that its nearest scope gives it. A loop that is unrolled leaves the types in a scope
as they are. So does a function without a body that is left out, if the scope gives all functions of one name one type,
as it does in a program that passes the check: `Program.Rewrites.check`.
-/

namespace LexScript

variable {r : Rewriting}

/-! ## Scopes around parts -/

def Part.places : Part → List Place
  | opening _ outer => outer
  | expression _ _ _ places | bareReturn places => places
  | binding _ _ => []

def Place.Opened (program : Program) (p : Place) : Prop := ∃ outer, .opening p.scope outer ∈ program.parts

def Part.Enclosed (program : Program) (part : Part) : Prop := ∀ p ∈ part.places, p.Opened program

section

variable {program : Program}

mutual

theorem Stmt.enclosed_parts {places : List Place} (h : ∀ p ∈ places, p.Opened program) :
    ∀ s : Stmt, s.parts places ⊆ program.parts → ∀ part ∈ s.parts places, part.Enclosed program
  | .expression .., _ | .print .., _ | .ret _ none, _ | .ret _ (some _), _ => by
    simpa [Stmt.parts, Part.Enclosed, Part.places] using h
  | .block _ body, hparts => by
    simp only [Stmt.parts, List.cons_subset] at hparts
    simp only [Stmt.parts, List.forall_mem_cons]
    exact ⟨h, Decl.enclosed_partsFrom ⟨_, hparts.1⟩ h body hparts.2⟩
  | .ifThen _ _ thenBranch, hparts => by
    simp only [Stmt.parts, List.cons_subset] at hparts
    simp only [Stmt.parts, List.forall_mem_cons]
    exact ⟨h, Stmt.enclosed_parts h thenBranch hparts.2⟩
  | .ifElse _ _ thenBranch elseBranch, hparts => by
    simp only [Stmt.parts, List.cons_subset, List.append_subset] at hparts
    obtain ⟨-, hthen, helse⟩ := hparts
    simp only [Stmt.parts, List.forall_mem_cons, List.forall_mem_append]
    exact ⟨h, Stmt.enclosed_parts h thenBranch hthen, Stmt.enclosed_parts h elseBranch helse⟩
  | .whileLoop _ _ body, hparts => by
    simp only [Stmt.parts, List.cons_subset] at hparts
    simp only [Stmt.parts, List.forall_mem_cons]
    exact ⟨h, Stmt.enclosed_parts h body hparts.2⟩
  | .forLoop _ first _ _ _ body, hparts => by
    simp only [Stmt.parts, List.cons_subset, List.append_subset] at hparts
    obtain ⟨hopening, hfirst, -, -, hbody⟩ := hparts
    have hinside : ∀ p ∈ ⟨.loop first, 1⟩ :: places, p.Opened program :=
      List.forall_mem_cons.2 ⟨⟨_, hopening⟩, h⟩
    simp only [Stmt.parts, List.forall_mem_cons, List.forall_mem_append]
    exact ⟨h, Decl.enclosed_parts ⟨.loop first, 0⟩ ⟨_, hopening⟩ h first hfirst, hinside, hinside,
      Stmt.enclosed_parts hinside body hbody⟩

theorem Decl.enclosed_parts (here : Place) {outer : List Place} (hhere : here.Opened program)
    (h : ∀ p ∈ outer, p.Opened program) : ∀ d : Decl, d.parts here outer ⊆ program.parts →
      ∀ part ∈ d.parts here outer, part.Enclosed program
  | .binding .., _ => by
    simpa [Decl.parts, Part.Enclosed, Part.places] using ⟨hhere, h⟩
  | .function _ header body, hparts => by
    simp only [Decl.parts, List.cons_subset] at hparts
    have hinside : ∀ p ∈ here :: outer, p.Opened program := List.forall_mem_cons.2 ⟨hhere, h⟩
    simp only [Decl.parts, List.forall_mem_cons]
    exact ⟨hinside, Decl.enclosed_partsFrom ⟨_, hparts.1⟩ hinside body hparts.2⟩
  | .forward .., _ => by simp [Decl.parts]
  | .statement s, hparts => by
    have hinside : ∀ p ∈ here :: outer, p.Opened program := List.forall_mem_cons.2 ⟨hhere, h⟩
    exact Stmt.enclosed_parts hinside s hparts

theorem Decl.enclosed_partsFrom {scope : Scope} {position : Nat} {outer : List Place}
    (hscope : ∃ outer, .opening scope outer ∈ program.parts) (h : ∀ p ∈ outer, p.Opened program) :
    ∀ ds : List Decl, Decl.partsFrom scope position outer ds ⊆ program.parts →
      ∀ part ∈ Decl.partsFrom scope position outer ds, part.Enclosed program
  | [], _ => by simp [Decl.partsFrom]
  | d :: ds, hparts => by
    simp only [Decl.partsFrom, List.append_subset] at hparts
    simp only [Decl.partsFrom, List.forall_mem_append]
    exact ⟨Decl.enclosed_parts ⟨scope, position⟩ hscope h d hparts.1,
      Decl.enclosed_partsFrom hscope h ds hparts.2⟩

end

theorem Program.enclosed_parts (program : Program) : ∀ part ∈ program.parts, part.Enclosed program := by
  have hparts := List.Subset.refl program.parts
  rw [Program.parts, List.cons_subset] at hparts
  rw [Program.parts, List.forall_mem_cons]
  exact ⟨by simp [Part.Enclosed, Part.places], Decl.enclosed_partsFrom ⟨_, hparts.1⟩ (by simp) _ hparts.2⟩

end

/-! ## Types in scopes -/

theorem Decl.Rewrites.functionType? {d d' : Decl} (h : d.Rewrites r d') : d'.functionType? = d.functionType? := by
  cases h <;> rfl

theorem Decl.Rewrites.variableType? {d d' : Decl} (h : d.Rewrites r d') : d'.variableType? = d.variableType? := by
  cases h <;> rfl

theorem typeIn?_eq_none_iff {types : List (Identifier × Ty)} {name : String} :
    typeIn? types name = none ↔ name ∉ types.map (·.1.name) := by
  rw [typeIn?, Option.map_eq_none_iff, List.find?_eq_none]
  simp

theorem exists_of_typeIn? {types : List (Identifier × Ty)} {name : String} {t : Ty}
    (h : typeIn? types name = some t) : ∃ i, (i, t) ∈ types ∧ i.name = name := by
  obtain ⟨⟨i, u⟩, hfound, rfl⟩ := Option.map_eq_some_iff.1 h
  exact ⟨i, List.mem_of_find?_eq_some hfound, by simpa using List.find?_some hfound⟩

namespace Scope.Rewrites

variable {s s' : Scope}

theorem parameterTypes (h : s.Rewrites r s') : s'.parameterTypes = s.parameterTypes := by
  cases h <;> rfl

/-- The types of a scope come from the parameters, the functions and the variables. -/
theorem typeOf?_eq (s : Scope) (name : String) : s.typeOf? name =
    ((typeIn? s.parameterTypes.reverse name).or (typeIn? (s.declarations.filterMap Decl.functionType?) name)).or
      (typeIn? (s.declarations.filterMap Decl.variableType?) name) := by
  simp only [Scope.typeOf?, types, typeIn?_append]

/-- The variables have the types that they had. -/
theorem variableTypes (h : s.Rewrites r s') :
    s'.declarations.filterMap Decl.variableType? = s.declarations.filterMap Decl.variableType? := by
  obtain ⟨ds', rest, hinside, hds'⟩ := h.declarations
  have hrest : (rest.map Decl.statement).filterMap Decl.variableType? = [] := by
    simp [List.filterMap_eq_nil_iff, Decl.variableType?]
  simp only [hds', List.filterMap_append, hrest, List.append_nil]
  exact hinside.filterMap_eq (fun d d' hd => hd.variableType?) fun _ _ _ => rfl

/-- So have the functions, if none is left out. -/
theorem functionTypes (h : s.Rewrites .unrolling s') :
    s'.declarations.filterMap Decl.functionType? = s.declarations.filterMap Decl.functionType? := by
  obtain ⟨ds', rest, hinside, hds'⟩ := h.declarations
  have hrest : (rest.map Decl.statement).filterMap Decl.functionType? = [] := by
    simp [List.filterMap_eq_nil_iff, Decl.functionType?]
  simp only [hds', List.filterMap_append, hrest, List.append_nil]
  exact hinside.filterMap_eq (fun d d' hd => hd.functionType?) fun hway => by cases hway

/-- A declaration of the second scope has a partner in the first, with the same types. -/
theorem exists_types (h : s.Rewrites r s') {d' : Decl} (hd' : d' ∈ s'.declarations) {i : Identifier} {t : Ty}
    (ht : d'.functionType? = some (i, t) ∨ d'.variableType? = some (i, t)) :
    ∃ d ∈ s.declarations, d.functionType? = some (i, t) ∨ d.variableType? = some (i, t) := by
  obtain ⟨ds', rest, hinside, hds'⟩ := h.declarations
  rw [hds'] at hd'
  rcases List.mem_append.1 hd' with hd' | hrest
  · obtain ⟨d, hd, hrewrites⟩ := hinside.exists_mem hd'
    rw [hrewrites.functionType?, hrewrites.variableType?] at ht
    exact ⟨d, hd, ht⟩
  · obtain ⟨statement, -, rfl⟩ := List.mem_map.1 hrest
    rcases ht with ht | ht <;> cases ht

/-- The functions of both scopes have the same names. -/
theorem mem_functionTypes_iff (h : s.Rewrites r s') (name : String) :
    name ∈ (s'.declarations.filterMap Decl.functionType?).map (·.1.name) ↔
      name ∈ (s.declarations.filterMap Decl.functionType?).map (·.1.name) := by
  have hnames (ds : List Decl) : (ds.filterMap Decl.functionType?).map (·.1.name) =
      (ds.filterMap Resolution.hoisted?).map Identifier.name := by
    simp only [List.map_filterMap]
    congr 1
    funext d
    rw [← Decl.map_functionType?, Option.map_map]
    rfl
  obtain ⟨ds', rest, hinside, hds'⟩ := h.declarations
  have hrest : (rest.map Decl.statement).filterMap Resolution.hoisted? = [] := by
    simp [List.filterMap_eq_nil_iff, Resolution.hoisted?]
  rw [hnames, hnames, hds', List.filterMap_append, hrest, List.append_nil, hinside.mem_hoisted_iff]

/-- A name keeps its type, since all functions of this name have it. -/
theorem typeOf?_of_consistent (h : s.Rewrites r s') (hs : s.Consistent) (name : String) :
    s'.typeOf? name = s.typeOf? name := by
  rw [typeOf?_eq s', h.parameterTypes, h.variableTypes]
  cases hfunction : typeIn? (s'.declarations.filterMap Decl.functionType?) name with
  | none =>
    have hnone : typeIn? (s.declarations.filterMap Decl.functionType?) name = none := by
      rw [typeIn?_eq_none_iff] at hfunction ⊢
      rwa [← h.mem_functionTypes_iff]
    simp [typeOf?_eq s, hnone]
  | some t =>
    obtain ⟨i, hi, rfl⟩ := exists_of_typeIn? hfunction
    obtain ⟨d', hd', hd't⟩ := List.mem_filterMap.1 hi
    obtain ⟨d, hd, hdt⟩ := h.exists_types hd' (.inl hd't)
    have htype := hs d hd i t hdt
    have hscope := typeOf?_eq s i.name
    rw [htype] at hscope ⊢
    cases hparameter : typeIn? s.parameterTypes.reverse i.name with
    | none => rfl
    | some u =>
      rw [hparameter] at hscope
      exact hscope.symm

/-- A name keeps its type, if no function is left out or all functions of this name have it. -/
theorem typeOf? (h : s.Rewrites r s') (hs : r = .unrolling ∨ s.Consistent) (name : String) :
    s'.typeOf? name = s.typeOf? name := by
  rcases hs with rfl | hs
  · simp [typeOf?_eq, h.parameterTypes, h.functionTypes, h.variableTypes]
  · exact h.typeOf?_of_consistent hs name

theorem consistent (h : s.Rewrites r s') (hs : s.Consistent) : s'.Consistent := by
  intro d' hd' i t ht
  obtain ⟨d, hd, hsame⟩ := h.exists_types hd' ht
  rw [h.typeOf? (.inr hs)]
  exact hs d hd i t hsame

theorem consistent_iff (h : s.Rewrites .unrolling s') : s'.Consistent ↔ s.Consistent := by
  refine ⟨fun hs d hd i t ht => ?_, h.consistent⟩
  have hmem : (i, t) ∈ s.declarations.filterMap Decl.functionType? ∨
      (i, t) ∈ s.declarations.filterMap Decl.variableType? :=
    ht.imp (fun h => List.mem_filterMap.2 ⟨d, hd, h⟩) fun h => List.mem_filterMap.2 ⟨d, hd, h⟩
  simp only [← h.functionTypes, ← h.variableTypes, List.mem_filterMap] at hmem
  rw [← h.typeOf? (.inl rfl)]
  rcases hmem with ⟨d', hd', hd't⟩ | ⟨d', hd', hd't⟩
  · exact hs d' hd' i t (.inl hd't)
  · exact hs d' hd' i t (.inr hd't)

end Scope.Rewrites

/-- The innermost function is the same. -/
theorem Place.AllRewrites.returns? {places places' : List Place} (h : AllRewrites r places places') :
    Scope.returns? (places'.map Place.scope) = Scope.returns? (places.map Place.scope) := by
  induction h with
  | nil => rfl
  | @cons p p' places places' here outer ih =>
    obtain ⟨scope, position⟩ := p
    obtain ⟨scope', position'⟩ := p'
    have hscope : scope.Rewrites r scope' := here.scope
    cases hscope with
    | function header inside => rfl
    | _ => exact ih
  | @idle q places places' here outer ih =>
    obtain ⟨body, step, hscope⟩ := here
    rw [List.map_cons, hscope]
    exact ih

/-- A scope without declarations obeys the rules. -/
theorem Part.Idle.wellTyped {part : Part} (h : part.Idle) (addresses : Resolutions) : part.WellTyped addresses := by
  obtain ⟨body, step, outer, rfl⟩ := h
  intro d hd i t ht
  rcases List.mem_pair.1 hd with rfl | rfl <;> rcases ht with ht | ht <;> cases ht

/-! ## Rules -/

theorem Place.Nearest.unique {places : List Place} {name : String} {d d' : Nat} {p p' : Place}
    (h : Nearest places name d p) (h' : Nearest places name d' p') : d = d' ∧ p = p' := by
  have hd : d = d' := by
    refine Nat.le_antisymm (Nat.le_of_not_lt fun hlt => ?_) (Nat.le_of_not_lt fun hlt => ?_)
    · exact h.nearest d' hlt p' h'.at_distance h'.sees
    · exact h'.nearest d hlt p h.at_distance h.sees
  subst hd
  exact ⟨rfl, Option.some.inj (h.at_distance.symm.trans h'.at_distance)⟩

/-- The type of a name that is used is what the scope of its nearest place says. -/
theorem Resolutions.hasType_iff {program : Program} {addresses : Resolutions} (hids : program.DistinctIdentities)
    (hp : Resolutions.ofProgram program = .ok addresses) {i : Identifier} {line : Nat} {places : List Place}
    (huse : .use i line places ∈ program.occurrences) {t : Ty} :
    i.HasType addresses (places.map Place.scope) t ↔
      ∃ distance p, Place.Nearest places i.name distance p ∧ p.scope.typeOf? i.name = some t := by
  obtain ⟨distance, p, hnearest, hget⟩ := Resolutions.get?_use hids hp huse
  constructor
  · rintro ⟨a, scope, ha, hscope, htype⟩
    obtain rfl := Option.some.inj (hget.symm.trans ha)
    rw [List.getElem?_map, hnearest.at_distance, Option.map_some] at hscope
    obtain rfl := Option.some.inj hscope
    exact ⟨distance, p, hnearest, htype⟩
  · rintro ⟨distance', p', hnearest', htype⟩
    obtain ⟨rfl, rfl⟩ := hnearest.unique hnearest'
    refine ⟨_, p.scope, hget, ?_, htype⟩
    simp [hnearest.at_distance]

section

variable {p p' : Program} {addresses addresses' : Resolutions} (hids : p.DistinctIdentities)
  (hids' : p'.DistinctIdentities) (hp : Resolutions.ofProgram p = .ok addresses)
  (hp' : Resolutions.ofProgram p' = .ok addresses')

include hids hids' hp hp'

/-- A name that is used has the same types in both programs. -/
theorem Place.AllRewrites.hasType_iff {places places' : List Place} (h : AllRewrites r places places')
    (hkeeps : ∀ p ∈ places, r = .unrolling ∨ p.scope.Consistent) {i : Identifier} {line : Nat}
    (huse : .use i line places ∈ p.occurrences) (huse' : .use i line places' ∈ p'.occurrences) (t : Ty) :
    i.HasType addresses' (places'.map Place.scope) t ↔ i.HasType addresses (places.map Place.scope) t := by
  rw [Resolutions.hasType_iff hids hp huse, Resolutions.hasType_iff hids' hp' huse']
  constructor
  · rintro ⟨d', q', hnearest', htype⟩
    obtain ⟨d, q, hnearest, hrewrites⟩ := h.exists_nearest hnearest'
    have hscope := hkeeps q (List.mem_of_getElem? hnearest.at_distance)
    exact ⟨d, q, hnearest, (hrewrites.scope.typeOf? hscope i.name).symm.trans htype⟩
  · rintro ⟨d, q, hnearest, htype⟩
    obtain ⟨d', q', hnearest', hrewrites⟩ := h.nearest hnearest
    have hscope := hkeeps q (List.mem_of_getElem? hnearest.at_distance)
    exact ⟨d', q', hnearest', (hrewrites.scope.typeOf? hscope i.name).trans htype⟩

/-- So has an expression. -/
theorem Part.Rewrites.wellTyped_iff {role : Role} {line : Nat} {e : Expr} {places places' : List Place}
    (h : Place.AllRewrites r places places') (hkeeps : ∀ p ∈ places, r = .unrolling ∨ p.scope.Consistent)
    (hpart : .expression role line e places ∈ p.parts) (hpart' : .expression role line e places' ∈ p'.parts) :
    Part.WellTyped addresses' (.expression role line e places') ↔
      Part.WellTyped addresses (.expression role line e places) := by
  have hnames : ∀ i ∈ e.identifiers, ∀ t, i.HasType addresses' (places'.map Place.scope) t ↔
      i.HasType addresses (places.map Place.scope) t := fun i hi t =>
    h.hasType_iff hids hids' hp hp' hkeeps (Program.use_of_expression hpart hi)
      (Program.use_of_expression hpart' hi) t
  have haccepts : ∀ t, role.Accepts (places'.map Place.scope) t ↔ role.Accepts (places.map Place.scope) t := by
    intro t
    cases role with
    | returned => simp [Role.Accepts, h.returns?]
    | _ => exact Iff.rfl
  constructor
  · rintro ⟨t, ht, hrole⟩
    exact ⟨t, ht.imp fun i hi t => (hnames i hi t).1, (haccepts t).1 hrole⟩
  · rintro ⟨t, ht, hrole⟩
    exact ⟨t, ht.imp fun i hi t => (hnames i hi t).2, (haccepts t).2 hrole⟩

end

namespace Program.Rewrites

variable {p p' : Program} {addresses addresses' : Resolutions}

/-- If a program passes the check, so does the rewritten one. -/
theorem check (h : p.Rewrites r p') (hids : p.DistinctIdentities)
    (hp : Resolutions.ofProgram p = .ok addresses) (hp' : Resolutions.ofProgram p' = .ok addresses')
    (hcheck : p.check addresses = .ok ()) : p'.check addresses' = .ok () := by
  have hids' := h.distinctIdentities hids
  rw [check_eq_ok_iff hids hp] at hcheck
  rw [check_eq_ok_iff hids' hp']
  intro part' hpart'
  rcases h.parts.back part' hpart' with hidle | ⟨part, hpart, hrewrites⟩
  · exact hidle.wellTyped addresses'
  · have hwell := hcheck part hpart
    cases hrewrites with
    | opening here => exact here.consistent hwell
    | expression role line value around =>
      refine (Part.Rewrites.wellTyped_iff hids hids' hp hp' around (fun q hq => .inr ?_) hpart hpart').2 hwell
      obtain ⟨outer, hopening⟩ := p.enclosed_parts _ hpart q hq
      exact hcheck _ hopening
    | bareReturn around => exact around.returns?.trans hwell
    | binding => trivial

/-- If loops are unrolled, it does so only then. -/
theorem check_iff (h : p.Rewrites .unrolling p') (hids : p.DistinctIdentities)
    (hp : Resolutions.ofProgram p = .ok addresses) (hp' : Resolutions.ofProgram p' = .ok addresses') :
    p'.check addresses' = .ok () ↔ p.check addresses = .ok () := by
  refine ⟨fun hcheck => ?_, h.check hids hp hp'⟩
  have hids' := h.distinctIdentities hids
  rw [check_eq_ok_iff hids' hp'] at hcheck
  rw [check_eq_ok_iff hids hp]
  intro part hpart
  obtain ⟨part', hpart', hrewrites⟩ := h.parts.forth part hpart
  have hwell := hcheck part' hpart'
  cases hrewrites with
  | opening here => exact here.consistent_iff.1 hwell
  | expression role line value around =>
    exact (Part.Rewrites.wellTyped_iff hids hids' hp hp' around (fun _ _ => .inl rfl) hpart hpart').1 hwell
  | bareReturn around => exact around.returns?.symm.trans hwell
  | binding => trivial

end Program.Rewrites

end LexScript
