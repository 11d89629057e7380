import LexScript.Proofs.Scope.SwappedParts
import LexScript.Proofs.Typing.Completeness

/-!
# Checking functions in another order

The typing rules look at names and at how far outside they are found, so they hold of a program exactly if they
hold with neighbouring functions swapped: `Program.Swaps.check`.
-/

namespace LexScript

section

variable {addresses addresses' : Resolutions} {scopes scopes' : List Scope}

mutual

/-- An expression keeps its type where its names keep theirs. -/
theorem HasType.imp {e : Expr} {t : Ty}
    (hnames : ∀ i ∈ e.identifiers, ∀ t, i.HasType addresses scopes t → i.HasType addresses' scopes' t) :
    HasType addresses scopes e t → HasType addresses' scopes' e t
  | .literal value => .literal value
  | .name declared => .name (hnames _ (List.mem_singleton_self _) _ declared)
  | .assign typed valued declared => by
    obtain ⟨htarget, hvalue⟩ := List.forall_mem_cons.1 hnames
    exact .assign (typed.imp hvalue) valued (htarget _ declared)
  | .unary typed valued result => .unary (typed.imp hnames) valued result
  | .binary first second valued result => by
    obtain ⟨hleft, hright⟩ := List.forall_mem_append.1 hnames
    exact .binary (first.imp hleft) (second.imp hright) valued result
  | .call typed fit => by
    obtain ⟨hcallee, harguments⟩ := List.forall_mem_append.1 hnames
    exact .call (typed.imp hcallee) (fit.imp harguments)

theorem Fits.imp {es : List Expr} {ts : List Ty}
    (hnames : ∀ i ∈ Expr.identifiersOf es, ∀ t, i.HasType addresses scopes t → i.HasType addresses' scopes' t) :
    Fits addresses scopes es ts → Fits addresses' scopes' es ts
  | .missing parameters => .missing parameters
  | .surplus arguments => .surplus arguments
  | .cons typed valued rest => by
    obtain ⟨hfirst, hrest⟩ := List.forall_mem_append.1 hnames
    exact .cons (typed.imp hfirst) valued (rest.imp hrest)

end

/-- In swapped scopes a name has the same type, if it is found as many scopes outside. -/
theorem Identifier.HasType.swaps {i : Identifier} {t : Ty} (h : i.HasType addresses scopes t)
    (hscopes : List.Forall₂ Scope.Swaps scopes scopes')
    (hdistance : (addresses'.get? i.id).map Address.distance = (addresses.get? i.id).map Address.distance) :
    i.HasType addresses' scopes' t := by
  obtain ⟨a, scope, ha, hscope, htype⟩ := h
  rw [ha, Option.map_some] at hdistance
  obtain ⟨b, hb, hab⟩ := Option.map_eq_some_iff.1 hdistance
  obtain ⟨hlt, rfl⟩ := List.getElem?_eq_some_iff.1 hscope
  have hlt' : a.distance < scopes'.length := hscopes.length_eq ▸ hlt
  refine ⟨b, scopes'[a.distance], hb, ?_, ?_⟩
  · simp [hab, List.getElem?_eq_getElem hlt']
  · have hswaps : scopes[a.distance].Swaps scopes'[a.distance] := hscopes.get hlt hlt'
    exact (hswaps.typeOf? i.name).trans htype

theorem Role.Accepts.swaps {role : Role} {t : Ty} (h : role.Accepts scopes t)
    (hscopes : List.Forall₂ Scope.Swaps scopes scopes') : role.Accepts scopes' t := by
  cases role with
  | returned => exact (Scope.Swaps.returns? hscopes).trans h
  | _ => exact h

/-- A part keeps to the typing rules. -/
theorem Part.WellTyped.swaps {part part' : Part} (h : part.WellTyped addresses) (hswaps : part.Swaps part')
    (hdistance : ∀ id, (addresses'.get? id).map Address.distance = (addresses.get? id).map Address.distance) :
    part'.WellTyped addresses' := by
  cases hswaps with
  | opening here => exact here.consistent h
  | expression role line value around =>
    obtain ⟨t, ht, haccepts⟩ := h
    have hscopes := Place.Swaps.scopes around
    exact ⟨t, ht.imp fun i _ u hu => hu.swaps hscopes (hdistance i.id), haccepts.swaps hscopes⟩
  | bareReturn around => exact (Scope.Swaps.returns? (Place.Swaps.scopes around)).trans h
  | binding => trivial

end

/-- If a program passes the check, so it does with functions swapped. -/
theorem Program.Swaps.check {p p' : Program} (h : p.Swaps p') (hids : p.DistinctIdentities)
    {addresses addresses' : Resolutions} (hp : Resolutions.ofProgram p = .ok addresses)
    (hp' : Resolutions.ofProgram p' = .ok addresses') (hcheck : p.check addresses = .ok ()) :
    p'.check addresses' = .ok () := by
  rw [check_eq_ok_iff hids hp] at hcheck
  rw [check_eq_ok_iff (h.distinctIdentities hids) hp']
  intro part' hpart'
  obtain ⟨part, hpart, hswaps⟩ := h.symm.parts part' hpart'
  exact (hcheck part hpart).swaps hswaps.symm (h.distance hids hp hp')

end LexScript
