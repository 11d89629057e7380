import LexScript.Proofs.Scope.Lexical
import LexScript.Proofs.Scope.Swaps

/-!
# The parts of a program in another order

When neighbouring functions change places, every part of the program keeps its scopes, but for the swaps inside
them, and the names that are seen around it. So names are declared or undeclared as before, and a name is found
as many scopes outside as before: `Program.Swaps.resolves` and `Program.Swaps.distance`. Only slots change.
-/

namespace LexScript

/-- The place is in the scope with functions swapped, and the same names are seen there. -/
structure Place.Swaps (p p' : Place) : Prop where
  scope : p.scope.Swaps p'.scope
  sees : ∀ name, p'.Sees name ↔ p.Sees name

namespace Place.Swaps

variable {p p' : Place} {places places' : List Place}

theorem symm (h : p.Swaps p') : p'.Swaps p := ⟨h.scope.symm, fun name => (h.sees name).symm⟩

theorem symm_all (h : List.Forall₂ Swaps places places') : List.Forall₂ Swaps places' places := by
  induction h with
  | nil => exact .nil
  | cons first _ ih => exact .cons first.symm ih

theorem of_scope {s s' : Scope} (h : s.Swaps s') (n : Nat) : Swaps ⟨s, n⟩ ⟨s', n⟩ := by
  refine ⟨h, fun name => ?_⟩
  have hvariables : (s'.declarations.take n).filterMap Decl.variable? =
      (s.declarations.take n).filterMap Decl.variable? := by
    have htypes := congrArg (List.map Prod.fst) (h.declarations.variableTypes_take n)
    simpa only [List.map_filterMap, Decl.map_variableType?] using htypes
  have hvisible : (Place.mk s n).visible.Perm (Place.mk s' n).visible := by
    simpa [visible, hvariables] using h.early.append_right _
  exact ((hvisible.map Identifier.name).mem_iff (a := name)).symm

/-- Behind a declaration of a function the same names are seen as before it. -/
theorem behind {s s' : Scope} {n m : Nat} (h : Swaps ⟨s, n⟩ ⟨s', m⟩) {d : Decl}
    (hd : s'.declarations[m]? = some d) {i : Identifier} (hi : Resolution.hoisted? d = some i) :
    Swaps ⟨s, n⟩ ⟨s', m + 1⟩ := by
  have hvariable : d.variable? = none := by
    simp [← Decl.map_variableType?, Decl.variableType?_of_hoisted? hi]
  refine ⟨h.scope, fun name => ?_⟩
  simp [← h.sees, ← Place.mem_names, Resolution.names_succ hd hvariable]

theorem scopes (h : List.Forall₂ Swaps places places') :
    List.Forall₂ Scope.Swaps (places.map Place.scope) (places'.map Place.scope) := by
  induction h with
  | nil => exact .nil
  | cons first _ ih => exact .cons first.scope ih

/-- A name is found as many places outside as before. -/
theorem distance (h : List.Forall₂ Swaps places places') (name : String) :
    (Place.address? places' name).map Address.distance =
      (Place.address? places name).map Address.distance := by
  induction h with
  | nil => rfl
  | @cons p p' places places' first _ ih =>
    simp only [Place.address?] at ih ⊢
    simp only [List.map_cons, ScopeNames.address?]
    by_cases hsees : p.Sees name
    · simp [Place.mem_names.2 hsees, Place.mem_names.2 ((first.sees name).2 hsees)]
    · simp only [if_neg (mt Place.mem_names.1 hsees),
        if_neg (mt Place.mem_names.1 (mt (first.sees name).1 hsees)), Option.map_map]
      have hsucc := congrArg (Option.map (· + 1)) ih
      rwa [Option.map_map, Option.map_map] at hsucc

end Place.Swaps

/-! ## Parts -/

inductive Part.Swaps : Part → Part → Prop
  | opening {scope scope' : Scope} {outer outer' : List Place} (here : scope.Swaps scope')
    (around : List.Forall₂ Place.Swaps outer outer') : Swaps (.opening scope outer) (.opening scope' outer')
  | expression (role : Role) (line : Nat) (value : Expr) {places places' : List Place}
    (around : List.Forall₂ Place.Swaps places places') :
    Swaps (.expression role line value places) (.expression role line value places')
  | bareReturn {places places' : List Place} (around : List.Forall₂ Place.Swaps places places') :
    Swaps (.bareReturn places) (.bareReturn places')
  | binding (identifier : Identifier) {scope scope' : Scope} (here : scope.Swaps scope') :
    Swaps (.binding identifier scope) (.binding identifier scope')

theorem Part.Swaps.symm {p q : Part} (h : p.Swaps q) : q.Swaps p := by
  cases h with
  | opening here around => exact .opening here.symm (Place.Swaps.symm_all around)
  | expression role line value around => exact .expression role line value (Place.Swaps.symm_all around)
  | bareReturn around => exact .bareReturn (Place.Swaps.symm_all around)
  | binding identifier here => exact .binding identifier here.symm

def Part.Covered (ps qs : List Part) : Prop := ∀ p ∈ ps, ∃ q ∈ qs, p.Swaps q

namespace Part.Covered

variable {ps ps' qs qs' rs rs' : List Part} {p q : Part}

theorem nil : Covered [] qs := List.forall_mem_nil _

theorem cons (h : p.Swaps q) (hps : Covered ps qs) : Covered (p :: ps) (q :: qs) := by
  refine List.forall_mem_cons.2 ⟨⟨q, List.mem_cons_self, h⟩, fun r hr => ?_⟩
  obtain ⟨r', hr', hswaps⟩ := hps r hr
  exact ⟨r', List.mem_cons_of_mem _ hr', hswaps⟩

theorem mono (h : Covered ps qs) (hqs : qs ⊆ rs) : Covered ps rs := by
  intro p hp
  obtain ⟨q, hq, hswaps⟩ := h p hp
  exact ⟨q, hqs hq, hswaps⟩

theorem append (h : Covered ps ps') (h' : Covered qs qs') : Covered (ps ++ qs) (ps' ++ qs') :=
  List.forall_mem_append.2
    ⟨h.mono (List.subset_append_left ..), h'.mono (List.subset_append_right ..)⟩

theorem swap (h : Covered ps ps') (h' : Covered qs qs') (hrest : Covered rs rs') :
    Covered (ps ++ (qs ++ rs)) (qs' ++ (ps' ++ rs')) := by
  refine List.forall_mem_append.2 ⟨?_, List.forall_mem_append.2 ⟨?_, ?_⟩⟩
  · exact (h.mono (List.subset_append_left ..)).mono (List.subset_append_right ..)
  · exact h'.mono (List.subset_append_left ..)
  · exact (hrest.mono (List.subset_append_right ..)).mono (List.subset_append_right ..)

end Part.Covered

open LexScript.Part (Covered)

mutual

theorem Stmt.Swaps.parts {s s' : Stmt} {places places' : List Place} : s.Swaps s' →
    List.Forall₂ Place.Swaps places places' → Covered (s.parts places) (s'.parts places')
  | .expression line value, h | .print line value, h => .cons (.expression _ line value h) .nil
  | .block _ inside, h => .cons (.opening (.block inside) h) (inside.parts (.block inside) rfl rfl h)
  | .ifThen line condition inside, h => .cons (.expression _ line condition h) (inside.parts h)
  | .ifElse line condition first second, h =>
    .cons (.expression _ line condition h) ((first.parts h).append (second.parts h))
  | .whileLoop line condition inside, h => .cons (.expression _ line condition h) (inside.parts h)
  | .forLoop line condition stepLine step start inside, h => by
    have hscope : Scope.Swaps _ _ := .loop start
    have hinside := List.Forall₂.cons (Place.Swaps.of_scope hscope 1) h
    refine .cons (.opening hscope h) ((start.parts (.of_scope hscope 0) h).append ?_)
    exact .cons (.expression _ line condition hinside)
      (.cons (.expression _ stepLine step hinside) (inside.parts hinside))
  | .ret _ none, h => .cons (.bareReturn h) .nil
  | .ret line (some value), h => .cons (.expression _ line value h) .nil

theorem Decl.Swaps.parts {d d' : Decl} {here here' : Place} {outer outer' : List Place} : d.Swaps d' →
    here.Swaps here' → List.Forall₂ Place.Swaps outer outer' →
      Covered (d.parts here outer) (d'.parts here' outer')
  | .binding line identifier type value, hhere, h =>
    .cons (.expression _ line value (.cons hhere h)) (.cons (.binding identifier hhere.scope) .nil)
  | .function _ header inside, hhere, h =>
    .cons (.opening (.function header inside) (.cons hhere h))
      (inside.parts (.function header inside) rfl rfl (.cons hhere h))
  | .forward .., _, _ => .nil
  | .statement inside, hhere, h => inside.parts (.cons hhere h)

theorem Decl.AllSwaps.parts {ds ds' : List Decl} {scope scope' : Scope} {position : Nat}
    {outer outer' : List Place} : Decl.AllSwaps ds ds' → scope.Swaps scope' →
    scope.declarations.drop position = ds → scope'.declarations.drop position = ds' →
    List.Forall₂ Place.Swaps outer outer' →
      Covered (Decl.partsFrom scope position outer ds) (Decl.partsFrom scope' position outer' ds')
  | .nil, _, _, _, _ => .nil
  | .cons first rest, hscope, hds, hds', h => by
    have hhere := Place.Swaps.of_scope hscope position
    exact (first.parts hhere h).append
      (rest.parts hscope (Resolution.drop_succ hds) (Resolution.drop_succ hds') h)
  | .swap first second declared declared' _ rest, hscope, hds, hds', h => by
    -- Each of the two functions sees the same names from the place that it has now.
    have hhere := Place.Swaps.of_scope hscope position
    have hfirst := hhere.behind (Resolution.getElem?_of_drop hds') (second.hoisted?.trans declared')
    have hsecond := (hhere.symm.behind (Resolution.getElem?_of_drop hds) declared).symm
    have hrest := Resolution.drop_succ (Resolution.drop_succ hds)
    have hrest' := Resolution.drop_succ (Resolution.drop_succ hds')
    exact (first.parts hfirst h).swap (second.parts hsecond h) (rest.parts hscope hrest hrest' h)

end

/-- Every part of a program is among those of the program with functions swapped. -/
theorem Program.Swaps.parts {p p' : Program} (h : p.Swaps p') : Covered p.parts p'.parts := by
  have hscope : p.scope.Swaps p'.scope := .global h
  exact .cons (.opening hscope .nil) (Decl.AllSwaps.parts h hscope rfl rfl .nil)

/-! ## Occurrences -/

/-- An expression uses the names that stand in it. -/
theorem Expr.mem_occurrences_iff {e : Expr} {i : Identifier} {places : List Place} {line : Nat} :
    .use i line places ∈ e.occurrences places line ↔ i ∈ e.identifiers := by
  have hcount := Expr.count_occurrences i places line e
  simp only [← List.count_pos_iff (l := e.identifiers), ← hcount, List.count_pos_iff, List.mem_map]
  constructor
  · exact fun h => ⟨_, h, rfl⟩
  · rintro ⟨o, ho, rfl⟩
    obtain ⟨j, rfl⟩ := e.eq_use_of_mem ho
    exact ho

inductive Occurrence.Swaps : Occurrence → Occurrence → Prop
  | use (identifier : Identifier) (line : Nat) {places places' : List Place}
    (around : List.Forall₂ Place.Swaps places places') :
    Swaps (.use identifier line places) (.use identifier line places')
  | declaration (identifier : Identifier) {scope scope' : Scope} (here : scope.Swaps scope') :
    Swaps (.declaration identifier scope) (.declaration identifier scope')

namespace Occurrence.Swaps

variable {o o' : Occurrence}

theorem identifier (h : o.Swaps o') : o'.identifier = o.identifier := by
  cases h <;> rfl

theorem distance (h : o.Swaps o') : o'.address?.map Address.distance = o.address?.map Address.distance := by
  cases h with
  | use identifier _ around => exact Place.Swaps.distance around identifier.name
  | declaration => rfl

theorem undeclared (h : o.Swaps o') (ho : o.Undeclared) : o'.Undeclared := by
  rw [undeclared_iff, ← Option.map_eq_none_iff (f := Address.distance)] at ho ⊢
  simp [h.distance, ho]

end Occurrence.Swaps

namespace Program.Swaps

variable {p p' : Program}

theorem occurrence (h : p.Swaps p') {o : Occurrence} (ho : o ∈ p.occurrences) :
    ∃ o' ∈ p'.occurrences, o.Swaps o' := by
  obtain ⟨part, hpart, ho⟩ := List.mem_flatMap.1 ho
  obtain ⟨part', hpart', hswaps⟩ := h.parts part hpart
  suffices ∃ o' ∈ part'.occurrences, o.Swaps o' by
    obtain ⟨o', ho', hoswaps⟩ := this
    exact ⟨o', Program.occurrences_of_part hpart' ho', hoswaps⟩
  cases hswaps with
  | opening here =>
    obtain ⟨i, hi, rfl⟩ := List.mem_map.1 ho
    exact ⟨_, List.mem_map_of_mem (here.early.subset hi), .declaration i here⟩
  | expression role line value around =>
    obtain ⟨i, rfl⟩ := value.eq_use_of_mem ho
    exact ⟨_, Expr.mem_occurrences_iff.2 (Expr.mem_occurrences_iff.1 ho), .use i line around⟩
  | bareReturn => cases ho
  | binding identifier here =>
    obtain rfl := List.mem_singleton.1 ho
    exact ⟨_, List.mem_singleton_self _, .declaration identifier here⟩

/-- If every name is declared, so it is with functions swapped. -/
theorem resolves (h : p.Swaps p') {addresses : Resolutions} (hp : Resolutions.ofProgram p = .ok addresses) :
    ∃ addresses', Resolutions.ofProgram p' = .ok addresses' := by
  rw [Resolutions.ofProgram_eq] at hp ⊢
  have hdeclared : ∀ o' ∈ p'.occurrences, ¬ o'.Undeclared := by
    intro o' ho' hundeclared
    obtain ⟨o, ho, hswaps⟩ := h.symm.occurrence ho'
    exact Occurrence.not_undeclared_of_recordAll hp o ho (hswaps.undeclared hundeclared)
  obtain ⟨addresses', haddresses', -⟩ := Occurrence.recordAll_of_declared hdeclared .empty
  exact ⟨addresses', haddresses'⟩

/-- Every identifier is found as many scopes outside as before. -/
theorem distance (h : p.Swaps p') (hids : p.DistinctIdentities) {addresses addresses' : Resolutions}
    (hp : Resolutions.ofProgram p = .ok addresses) (hp' : Resolutions.ofProgram p' = .ok addresses')
    (id : Nat) :
    (addresses'.get? id).map Address.distance = (addresses.get? id).map Address.distance := by
  obtain ⟨hown, hother⟩ := Resolutions.get?_of_ofProgram hids hp
  obtain ⟨hown', hother'⟩ := Resolutions.get?_of_ofProgram (h.distinctIdentities hids) hp'
  by_cases hid : id ∈ p.occurrences.map (·.identifier.id)
  · obtain ⟨o, ho, rfl⟩ := List.mem_map.1 hid
    obtain ⟨o', ho', hswaps⟩ := h.occurrence ho
    have haddress' := (hown' o' ho').1
    rw [hswaps.identifier] at haddress'
    simp [(hown o ho).1, haddress', hswaps.distance]
  · rw [hother id hid, hother']
    intro hid'
    obtain ⟨o', ho', rfl⟩ := List.mem_map.1 hid'
    obtain ⟨o, ho, hswaps⟩ := h.symm.occurrence ho'
    rw [← hswaps.identifier] at hid
    exact hid (List.mem_map_of_mem ho)

end Program.Swaps

end LexScript
