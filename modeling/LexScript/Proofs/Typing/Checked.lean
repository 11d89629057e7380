import LexScript.Proofs.Typing.Expressions
import LexScript.Proofs.Typing.Frames

/-!
# Checked programs

A check that succeeds has seen every part of the program, and all of them obey the typing rules. A check
that fails does so with an error of typing: `Program.check_wellTyped`.
-/

namespace LexScript

theorem Place.map_scope_view (places : List Place) :
    (places.map Place.view).map Prod.fst = places.map Place.scope := by
  rw [List.map_map]
  rfl

/-- Behind a declaration, the variable that it declares has its type. -/
theorem Place.types_succ {scope : Scope} {position : Nat} {d : Decl}
    (h : scope.declarations[position]? = some d) :
    (Place.mk scope (position + 1)).types =
      (Place.mk scope position).types ++ d.variableType?.toList := by
  simp only [types, List.take_add_one, h, List.filterMap_append, List.append_assoc]
  cases hd : d.variableType? <;> simp [hd]

namespace Typing

/-- The state of a check inside nested scopes, of whose names so much is known. -/
structure State.Inside (s : State) (views : List (Scope × List (Identifier × Ty))) : Prop where
  knows : Knows s.scopes s.scopes.current views
  returns : Scope.returns? (views.map Prod.fst) = s.returns.head?

namespace State.Inside

variable {s t : State} {views : List (Scope × List (Identifier × Ty))}

theorem of_extends (h : s.Inside views) (hextends : s.Extends t) : t.Inside views where
  knows := by
    rw [hextends.current]
    exact h.knows.of_frames hextends.size hextends.frames
  returns := by simp [hextends.returns, h.returns]

theorem define {scope : Scope} {types later : List (Identifier × Ty)} {i : Nat} {type : Ty}
    (h : s.Inside ((scope, types) :: views))
    (hlater : (s.scopes.define i type).Holds s.scopes.current scope later) :
    State.Inside ⟨s.scopes.define i type, s.returns⟩ ((scope, later) :: views) where
  knows := h.knows.write hlater
  returns := h.returns

theorem enter (h : s.Inside views) {scope : Scope} {returns : List Ty}
    (hreturns : Scope.returns? (scope :: views.map Prod.fst) = returns.head?) :
    State.Inside ⟨s.scopes.enter, returns⟩ ((scope, []) :: views) where
  knows := h.knows.enterAt scope
  returns := hreturns

end State.Inside

namespace Check

variable {α β : Type}

/-- The check ends as expected, or else with an error of typing. -/
def Meets (c : Check α) (s : State) (expected : α → State → Prop) : Prop :=
  match c s with
  | .ok a t => expected a t
  | .error e _ => e.IsTyping

namespace Meets

variable {c : Check α} {s : State} {first expected : α → State → Prop}

theorem bind {f : α → Check β} {expected : β → State → Prop} (h : c.Meets s first)
    (hf : ∀ a t, first a t → (f a).Meets t expected) : (c >>= f).Meets s expected := by
  rw [Meets] at h
  change (match EStateM.bind c f s with | .ok a t => expected a t | .error e _ => e.IsTyping)
  rw [EStateM.bind]
  cases hc : c s with
  | ok a t =>
    rw [hc] at h
    exact hf a t h
  | error e t =>
    rw [hc] at h
    exact h

theorem imp (h : c.Meets s first) (himp : ∀ a t, first a t → expected a t) : c.Meets s expected := by
  rw [Meets] at h ⊢
  cases hc : c s with
  | ok a t =>
    rw [hc] at h
    exact himp a t h
  | error e t =>
    rw [hc] at h
    exact h

theorem and_final (h : c.Meets s first) {left : State → Prop} (hfinal : left (c.final s)) :
    c.Meets s fun a t => first a t ∧ left t := by
  rw [final] at hfinal
  rw [Meets] at h ⊢
  cases hr : c s with
  | ok a t =>
    rw [hr] at h hfinal
    exact ⟨h, hfinal⟩
  | error e t =>
    rw [hr] at h
    exact h

theorem and_extends (h : c.Meets s first) (hc : c.Extends) :
    c.Meets s fun a t => first a t ∧ s.Extends t :=
  h.and_final (hc s)

theorem ofExcept {r : Except Error α} {found : α → Prop} (h : Finds r found) (s : State) :
    (ofExcept r).Meets s fun a t => found a ∧ t = s := by
  cases r with
  | ok a => exact ⟨h, rfl⟩
  | error e => exact h

theorem pure (a : α) (s : State) : (Pure.pure a : Check α).Meets s fun b t => b = a ∧ t = s :=
  ⟨rfl, rfl⟩

theorem get (s : State) : (MonadState.get : Check State).Meets s fun a t => a = s ∧ t = s := ⟨rfl, rfl⟩

theorem context {addresses : Resolutions} {line : Nat} {f : Context → Check β}
    {expected : β → State → Prop} (h : (f ⟨addresses, s.scopes, line⟩).Meets s expected) :
    (context addresses line >>= f).Meets s expected := h

theorem throw {e : Error} (h : e.IsTyping) (s : State) (expected : α → State → Prop) :
    (MonadExcept.throw e : Check α).Meets s expected := h

theorem within {prepare leave : State → State} {found : α → Prop}
    (h : c.Meets (prepare s) fun a _ => found a) :
    (within prepare leave c).Meets s fun a _ => found a := by
  rw [Meets] at h ⊢
  rw [Check.within]
  cases hc : c (prepare s) with
  | ok a t =>
    rw [hc] at h
    exact h
  | error e t =>
    rw [hc] at h
    exact h

end Meets

variable {program : Program} {addresses : Resolutions} {s : State} {scope : Scope}
  {types : List (Identifier × Ty)} {views : List (Scope × List (Identifier × Ty))}

theorem declare_meets (h : s.Inside ((scope, types) :: views)) {i : Identifier}
    (hi : i ∈ scope.registered) (haddress : addresses.get? i.id = some ⟨0, scope.slot i.name⟩)
    (line : Nat) (type : Ty) {clash : Ty → Cause} (hclash : ∀ t, (Error.mk (clash t) line).IsTyping) :
    (declare addresses line i type clash).Meets s fun _ t =>
      typeIn? (types ++ [(i, type)]) i.name = some type ∧
        t.Inside ((scope, types ++ [(i, type)]) :: views) := by
  have hfind : addresses.find i line = .ok ⟨0, scope.slot i.name⟩ := by
    simp [Resolutions.find, haddress]
  -- Whether the slot is empty or not, a type that the name has already is the new one.
  have hdefine : (∀ u, typeIn? types i.name = some u → u = type) →
      (define (scope.slot i.name) type).Meets s fun _ t =>
        typeIn? (types ++ [(i, type)]) i.name = some type ∧
          t.Inside ((scope, types ++ [(i, type)]) :: views) := by
    intro hagree
    have hholds := h.knows.holds.append h.knows.lt hi hagree
    have hself := hholds.slots (i, type) (by simp)
    rw [ScopeStack.Holds.slot?_write_self h.knows.lt] at hself
    exact ⟨hself.symm, h.define hholds⟩
  rw [declare, hfind]
  apply (Meets.pure _ s).bind
  intro _ _ hfound
  rcases hfound with ⟨rfl, rfl⟩
  apply (Meets.get _).bind
  intro _ _ hstate
  rcases hstate with ⟨rfl, rfl⟩
  split
  · rename_i previous hprevious
    split
    · exact (Meets.throw (hclash previous) _ fun _ _ => False).bind fun _ _ hfalse => hfalse.elim
    · rename_i hsame
      apply hdefine
      intro u hu
      have hslot := h.knows.holds.slot?_of_typeIn? hu
      obtain rfl := Option.some.inj (hslot.symm.trans hprevious)
      exact not_not.1 hsame
  · rename_i hfree
    apply hdefine
    intro u hu
    have hslot := h.knows.holds.slot?_of_typeIn? hu
    cases hslot.symm.trans hfree

theorem hoist_meets (hids : program.DistinctIdentities)
    (haddresses : Resolutions.ofProgram program = .ok addresses) {outer : List Place}
    (hopening : .opening scope outer ∈ program.parts) : ∀ {s : State}
    {types : List (Identifier × Ty)} (ds : List Decl),
    ds.filterMap Resolution.hoisted? ⊆ scope.early → s.Inside ((scope, types) :: views) →
      (hoist addresses ds).Meets s fun _ t =>
        (∀ d ∈ ds, ∀ p, d.functionType? = some p →
          typeIn? (types ++ ds.filterMap Decl.functionType?) p.1.name = some p.2) ∧
        t.Inside ((scope, types ++ ds.filterMap Decl.functionType?) :: views)
  | s, types, [], _, h => ⟨by simp, by simpa using h⟩
  | s, types, .binding line i t v :: ds, hds, h | s, types, .statement st :: ds, hds, h =>
    (hoist_meets hids haddresses hopening ds hds h).imp fun _ t ht =>
      ⟨List.forall_mem_cons.2 ⟨by simp [Decl.functionType?], ht.1⟩, ht.2⟩
  | s, types, .function line header body :: ds, hds, h
  | s, types, .forward line header :: ds, hds, h => by
    rw [hoist]
    have hearly : header.identifier ∈ scope.early := hds (List.mem_cons_self ..)
    have hrest : ds.filterMap Resolution.hoisted? ⊆ scope.early := fun i hi =>
      hds (List.mem_cons_of_mem _ hi)
    have haddress := Resolutions.get?_early hids haddresses hopening hearly
    refine Meets.bind (declare_meets h (scope.early_subset_registered hearly) haddress line
      header.type fun previous => ⟨rfl, by simp⟩) fun _ t ht => ?_
    apply (hoist_meets hids haddresses hopening ds hrest ht.2).imp
    intro _ u hu
    rw [List.append_assoc] at hu
    refine ⟨List.forall_mem_cons.2 ⟨?_, hu.1⟩, hu.2⟩
    rintro p hp
    obtain rfl := Option.some.inj hp
    have hinitial := List.prefix_append (types ++ [(header.identifier, header.type)])
      (ds.filterMap Decl.functionType?)
    rw [List.append_assoc] at hinitial
    exact typeIn?_of_initial hinitial ht.1

theorem bindParameters_meets (hids : program.DistinctIdentities)
    (haddresses : Resolutions.ofProgram program = .ok addresses) {outer : List Place}
    (hopening : .opening scope outer ∈ program.parts) (line : Nat) : ∀ {s : State}
    {types : List (Identifier × Ty)} (ps : List Parameter),
    ps.map Parameter.identifier ⊆ scope.early → s.Inside ((scope, types) :: views) →
      (bindParameters addresses line ps).Meets s fun _ t =>
        t.Inside ((scope, (ps.map fun p => (p.identifier, p.type)).reverse ++ types) :: views)
  | s, types, [], _, h => h
  | s, types, p :: ps, hps, h => by
    rw [List.map_cons, List.cons_subset] at hps
    have hfind : addresses.find p.identifier line = .ok ⟨0, scope.slot p.identifier.name⟩ := by
      simp [Resolutions.find, Resolutions.get?_early hids haddresses hopening hps.1]
    rw [bindParameters, hfind]
    have hholds := h.knows.holds.cons h.knows.lt (scope.early_subset_registered hps.1) p.type
    have hnext := bindParameters_meets hids haddresses hopening line ps hps.2 (h.define hholds)
    rw [List.map_cons, List.reverse_cons, List.append_assoc]
    exact hnext

section

variable (hids : program.DistinctIdentities)
  (haddresses : Resolutions.ofProgram program = .ok addresses) {places : List Place}
  (h : s.Inside (places.map Place.view)) {role : Role} {line : Nat} {e : Expr}
  (hpart : .expression role line e places ∈ program.parts)

include hids haddresses h hpart

theorem typeOf_meets : (ofExcept (Context.typeOf ⟨addresses, s.scopes, line⟩ e)).Meets s fun type t =>
    HasType addresses (places.map Place.scope) e type ∧ t = s :=
  .ofExcept (Context.typeOf_finds ⟨hids, haddresses, h.knows⟩ e (Program.occurrences_of_part hpart)) s

theorem valueTypeOf_meets :
    (ofExcept (Context.valueTypeOf ⟨addresses, s.scopes, line⟩ e)).Meets s fun type t =>
      (HasType addresses (places.map Place.scope) e type ∧ type ≠ .void) ∧ t = s :=
  .ofExcept (Context.valueTypeOf_finds ⟨hids, haddresses, h.knows⟩ (Program.occurrences_of_part hpart)) s

omit hpart in
theorem condition_meets (hpart : .expression .condition line e places ∈ program.parts) :
    (condition addresses line e).Meets s fun _ t =>
      (Part.expression .condition line e places).WellTyped addresses ∧ t = s := by
  rw [condition]
  refine .context (Meets.bind (typeOf_meets hids haddresses h hpart) fun type t ht => ?_)
  rcases ht with ⟨htype, rfl⟩
  split
  · exact ⟨rfl, by simp⟩
  · rename_i hboolean
    exact ⟨⟨type, htype, not_not.1 hboolean⟩, rfl⟩

omit hpart in
theorem ret_meets {value : Option Expr} (hparts : (Stmt.ret line value).parts places ⊆ program.parts) :
    (ret addresses line value).Meets s fun _ t =>
      (∀ p ∈ (Stmt.ret line value).parts places, p.WellTyped addresses) ∧ t = s := by
  have hreturns := h.returns
  rw [Place.map_scope_view] at hreturns
  rw [ret]
  apply (Meets.get _).bind
  intro _ _ hstate
  rcases hstate with ⟨rfl, rfl⟩
  split
  · exact ⟨rfl, by simp⟩
  · rename_i expected rest hstack
    rw [hstack, List.head?_cons] at hreturns
    split
    · rename_i e
      have hpart := hparts (List.mem_singleton_self _)
      refine .context (Meets.bind (typeOf_meets hids haddresses h hpart) fun type t ht => ?_)
      rcases ht with ⟨htype, rfl⟩
      beta_reduce
      split
      · exact ⟨rfl, by simp⟩
      · rename_i hsame
        obtain rfl := not_not.1 hsame
        refine ⟨?_, rfl⟩
        simp only [Stmt.parts, List.forall_mem_singleton]
        exact ⟨type, htype, hreturns⟩
    · apply (Meets.pure _ _).bind
      intro type t ht
      rcases ht with ⟨rfl, rfl⟩
      beta_reduce
      split
      · exact ⟨rfl, by simp⟩
      · rename_i hsame
        obtain rfl := not_not.1 hsame
        refine ⟨?_, rfl⟩
        rw [Stmt.parts, List.forall_mem_singleton]
        exact hreturns

end

theorem binding_meets (hids : program.DistinctIdentities)
    (haddresses : Resolutions.ofProgram program = .ok addresses) {line : Nat} {e : Expr} {type : Ty}
    {position : Nat} {outer : List Place} {i : Identifier} {d : Decl}
    (hd : scope.declarations[position]? = some d)
    (hvariable : d.variableType? = some (i, type))
    (h : s.Inside ((Place.mk scope position :: outer).map Place.view))
    (hpart : .expression (.initial type) line e (⟨scope, position⟩ :: outer) ∈ program.parts)
    (hbinding : .binding i scope ∈ program.parts) :
    (binding addresses line i type e).Meets s fun _ t =>
      (Part.expression (.initial type) line e (⟨scope, position⟩ :: outer)).WellTyped addresses ∧
        scope.typeOf? i.name = some type ∧
        t.Inside ((Place.mk scope (position + 1) :: outer).map Place.view) := by
  rw [binding]
  refine .context (Meets.bind (valueTypeOf_meets hids haddresses h hpart) fun received t ht => ?_)
  rcases ht with ⟨⟨htype, hvoid⟩, rfl⟩
  split
  · exact (Meets.throw ⟨rfl, by simp⟩ _ fun _ _ => False).bind fun _ _ hfalse => hfalse.elim
  · rename_i hsame
    obtain rfl := not_not.1 hsame
    have haddress := Resolutions.get?_binding hids haddresses hbinding
    refine (declare_meets h (program.registered_parts _ hbinding) haddress line received
      fun previous => ⟨rfl, by simp⟩).imp fun _ u hu => ?_
    have htypes := Place.types_succ hd
    rw [hvariable, Option.toList_some] at htypes
    have hinitial := Place.types_initial ⟨scope, position + 1⟩
    rw [htypes] at hinitial
    refine ⟨⟨received, htype, rfl, hvoid⟩, typeIn?_of_initial hinitial hu.1, ?_⟩
    simpa [Place.view, htypes] using hu.2

/-- The functions and the variables of a scope have their types if they had them when they were bound. -/
theorem consistent_of_bound
    (hfunctions : ∀ d ∈ scope.declarations, ∀ p, d.functionType? = some p →
      typeIn? (Place.mk scope 0).types p.1.name = some p.2)
    (hvariables : ∀ d ∈ scope.declarations, ∀ p, d.variableType? = some p →
      scope.typeOf? p.1.name = some p.2) : scope.Consistent := by
  intro d hd i t hbound
  rcases hbound with hbound | hbound
  · exact typeIn?_of_initial (Place.types_initial ⟨scope, 0⟩) (hfunctions d hd _ hbound)
  · exact hvariables d hd _ hbound

/-- What is checked in a new scope starts with the types of its functions. -/
theorem opened_meets (hids : program.DistinctIdentities)
    (haddresses : Resolutions.ofProgram program = .ok addresses) {outer : List Place}
    (hopening : .opening scope outer ∈ program.parts) {ds : List Decl} (hds : scope.declarations = ds)
    (h : s.Inside ((scope, scope.parameterTypes.reverse) :: outer.map Place.view)) {c : Check Unit}
    {parts : List Part}
    (hc : ∀ t : State, t.Inside ((Place.mk scope 0 :: outer).map Place.view) →
      c.Meets t fun _ _ => (∀ p ∈ parts, p.WellTyped addresses) ∧
        ∀ d ∈ ds, ∀ p, d.variableType? = some p → scope.typeOf? p.1.name = some p.2) :
    (hoist addresses ds >>= fun _ => c).Meets s fun _ _ =>
      ∀ p ∈ .opening scope outer :: parts, p.WellTyped addresses := by
  subst hds
  have htypes : (Place.mk scope 0).types =
      scope.parameterTypes.reverse ++ scope.declarations.filterMap Decl.functionType? := by
    simp [Place.types]
  refine Meets.bind (hoist_meets hids haddresses hopening scope.declarations
    (List.subset_append_right ..) h) fun _ t ht => ?_
  rw [← htypes] at ht
  refine (hc t ht.2).imp fun _ u hu => List.forall_mem_cons.2 ⟨?_, hu.1⟩
  exact consistent_of_bound ht.1 hu.2

/-- A declaration that declares no variable leaves what is known as it is. -/
theorem unbound_meets {position : Nat} {outer : List Place} {d : Decl} {c : Check Unit}
    {parts : List Part} (hd : scope.declarations[position]? = some d) (hnone : d.variableType? = none)
    (hextends : c.Extends) (h : s.Inside ((Place.mk scope position :: outer).map Place.view))
    (hc : c.Meets s fun _ _ => ∀ p ∈ parts, p.WellTyped addresses) :
    c.Meets s fun _ t => (∀ p ∈ parts, p.WellTyped addresses) ∧
      (∀ p, d.variableType? = some p → scope.typeOf? p.1.name = some p.2) ∧
      t.Inside ((Place.mk scope (position + 1) :: outer).map Place.view) := by
  have htypes := Place.types_succ hd
  rw [hnone, Option.toList_none, List.append_nil] at htypes
  refine (hc.and_extends hextends).imp fun _ t ht => ⟨ht.1, by simp [hnone], ?_⟩
  simpa [Place.view, htypes] using h.of_extends ht.2

-- The induction is on the text of the program, and `State.Inside` carries it: a statement changes no
-- frame, so what follows it is checked against the same types, and a declaration adds the type of its
-- variable to what is known of its own scope.
mutual

theorem stmt_meets (hids : program.DistinctIdentities)
    (haddresses : Resolutions.ofProgram program = .ok addresses) {places : List Place} :
    ∀ {s : State} (st : Stmt), st.parts places ⊆ program.parts → s.Inside (places.map Place.view) →
      (stmt addresses st).Meets s fun _ _ => ∀ p ∈ st.parts places, p.WellTyped addresses
  | s, .expression line value, hparts, h => by
    have hpart := hparts (List.mem_singleton_self _)
    rw [stmt, Stmt.parts, List.forall_mem_singleton]
    refine .context (Meets.bind (typeOf_meets hids haddresses h hpart) fun type t ht => ?_)
    exact ⟨type, ht.1, trivial⟩
  | s, .print line value, hparts, h => by
    have hpart := hparts (List.mem_singleton_self _)
    rw [stmt, Stmt.parts, List.forall_mem_singleton]
    refine .context (Meets.bind (valueTypeOf_meets hids haddresses h hpart) fun type t ht => ?_)
    exact ⟨type, ht.1⟩
  | s, .block line body, hparts, h => by
    rw [Stmt.parts, List.cons_subset] at hparts
    rw [stmt, Stmt.parts]
    refine .within (opened_meets hids haddresses hparts.1 rfl (h.enter ?_) fun t ht => ?_)
    · exact h.returns
    · exact decls_meets hids haddresses body rfl hparts.2 ht
  | s, .ifThen line test thenBranch, hparts, h => by
    rw [Stmt.parts, List.cons_subset] at hparts
    rw [stmt, Stmt.parts]
    apply Meets.bind (condition_meets hids haddresses h hparts.1)
    intro _ t ht
    rcases ht with ⟨htest, rfl⟩
    apply (stmt_meets hids haddresses thenBranch hparts.2 h).imp
    intro _ u hu
    exact List.forall_mem_cons.2 ⟨htest, hu⟩
  | s, .ifElse line test thenBranch elseBranch, hparts, h => by
    rw [Stmt.parts, List.cons_subset, List.append_subset] at hparts
    rw [stmt, Stmt.parts]
    apply Meets.bind (condition_meets hids haddresses h hparts.1)
    intro _ t ht
    rcases ht with ⟨htest, rfl⟩
    have hthen := stmt_meets hids haddresses thenBranch hparts.2.1 h
    apply Meets.bind (hthen.and_extends (Extends.stmt addresses thenBranch))
    intro _ u hu
    have hinside := h.of_extends hu.2
    apply (stmt_meets hids haddresses elseBranch hparts.2.2 hinside).imp
    intro _ v hv
    exact List.forall_mem_cons.2 ⟨htest, List.forall_mem_append.2 ⟨hu.1, hv⟩⟩
  | s, .whileLoop line test body, hparts, h => by
    rw [Stmt.parts, List.cons_subset] at hparts
    rw [stmt, Stmt.parts]
    apply Meets.bind (condition_meets hids haddresses h hparts.1)
    intro _ t ht
    rcases ht with ⟨htest, rfl⟩
    apply (stmt_meets hids haddresses body hparts.2 h).imp
    intro _ u hu
    exact List.forall_mem_cons.2 ⟨htest, hu⟩
  | s, .forLoop line first test stepLine step body, hparts, h => by
    simp only [Stmt.parts, List.cons_subset, List.append_subset] at hparts
    rcases hparts with ⟨hopening, hfirst, htest, hstep, hbody⟩
    rw [stmt, Stmt.parts]
    refine .within (opened_meets hids haddresses hopening rfl (h.enter ?_) fun t ht => ?_)
    · exact h.returns
    · apply Meets.bind (decl_meets hids haddresses first rfl hfirst ht)
      intro _ u hu
      rcases hu with ⟨hfirst, hvariable, hinside⟩
      apply Meets.bind (condition_meets hids haddresses hinside htest)
      intro _ v hv
      rcases hv with ⟨htest, rfl⟩
      refine .context (Meets.bind (typeOf_meets hids haddresses hinside hstep) fun type w hw => ?_)
      rcases hw with ⟨hstep, rfl⟩
      apply (stmt_meets hids haddresses body hbody hinside).imp
      intro _ x hx
      refine ⟨List.forall_mem_append.2 ⟨hfirst, ?_⟩, List.forall_mem_singleton.2 hvariable⟩
      exact List.forall_mem_cons.2 ⟨htest, List.forall_mem_cons.2 ⟨⟨type, hstep, trivial⟩, hx⟩⟩
  | s, .ret line value, hparts, h => by
    rw [stmt]
    exact (ret_meets hids haddresses h hparts).imp fun _ t ht => ht.1

theorem decl_meets (hids : program.DistinctIdentities)
    (haddresses : Resolutions.ofProgram program = .ok addresses) {scope : Scope} {position : Nat}
    {outer : List Place} : ∀ {s : State} (d : Decl), scope.declarations[position]? = some d →
    d.parts ⟨scope, position⟩ outer ⊆ program.parts →
    s.Inside ((Place.mk scope position :: outer).map Place.view) →
      (decl addresses d).Meets s fun _ t =>
        (∀ p ∈ d.parts ⟨scope, position⟩ outer, p.WellTyped addresses) ∧
        (∀ p, d.variableType? = some p → scope.typeOf? p.1.name = some p.2) ∧
        t.Inside ((Place.mk scope (position + 1) :: outer).map Place.view)
  | s, .binding line i type value, hd, hparts, h => by
    simp only [Decl.parts, List.cons_subset] at hparts
    rw [decl, Decl.parts]
    apply (binding_meets hids haddresses hd rfl h hparts.1 hparts.2.1).imp
    intro _ t ht
    refine ⟨List.forall_mem_cons.2 ⟨ht.1, List.forall_mem_singleton.2 trivial⟩, ?_, ht.2.2⟩
    rintro p hp
    obtain rfl := Option.some.inj hp
    exact ht.2.1
  | s, .function line header body, hd, hparts, h => by
    rw [Decl.parts, List.cons_subset] at hparts
    rw [decl, Decl.parts]
    refine unbound_meets hd rfl (.inFunction ?_ header.returns) h (.within ?_)
    · apply (Keeps.bindParameters addresses line header.parameters).bind
      intro _
      exact (Keeps.hoist addresses body).bind fun _ => .decls addresses body
    · have hreturns : Scope.returns? (.function header body ::
          ((Place.mk scope position :: outer).map Place.view).map Prod.fst) =
          (header.returns :: s.returns).head? := rfl
      have hearly : header.parameters.map Parameter.identifier ⊆ (Scope.function header body).early :=
        List.subset_append_left ..
      refine Meets.bind (bindParameters_meets hids haddresses hparts.1 line header.parameters hearly
        (h.enter hreturns)) fun _ t ht => ?_
      rw [List.append_nil] at ht
      exact opened_meets hids haddresses hparts.1 rfl ht fun u hu =>
        decls_meets hids haddresses body rfl hparts.2 hu
  | s, .forward line header, hd, hparts, h => by
    rw [decl, Decl.parts]
    exact unbound_meets hd rfl (.pure ()) h (by simp [Meets, Pure.pure, EStateM.pure])
  | s, .statement st, hd, hparts, h => by
    rw [decl, Decl.parts]
    exact unbound_meets hd rfl (.stmt addresses st) h (stmt_meets hids haddresses st hparts h)

theorem decls_meets (hids : program.DistinctIdentities)
    (haddresses : Resolutions.ofProgram program = .ok addresses) {scope : Scope} {outer : List Place} :
    ∀ {s : State} {position : Nat} (ds : List Decl), scope.declarations.drop position = ds →
    Decl.partsFrom scope position outer ds ⊆ program.parts →
    s.Inside ((Place.mk scope position :: outer).map Place.view) →
      (decls addresses ds).Meets s fun _ _ =>
        (∀ p ∈ Decl.partsFrom scope position outer ds, p.WellTyped addresses) ∧
        (∀ d ∈ ds, ∀ p, d.variableType? = some p → scope.typeOf? p.1.name = some p.2)
  | s, position, [], hds, hparts, h => by
    rw [decls, Decl.partsFrom]
    exact ⟨by simp, by simp⟩
  | s, position, d :: ds, hds, hparts, h => by
    rw [Decl.partsFrom, List.append_subset] at hparts
    rw [decls, Decl.partsFrom]
    have hd := Resolution.getElem?_of_drop hds
    apply Meets.bind (decl_meets hids haddresses d hd hparts.1 h)
    intro _ t ht
    refine (decls_meets hids haddresses ds (Resolution.drop_succ hds) hparts.2 ht.2.2).imp
      fun _ u hu => ?_
    exact ⟨List.forall_mem_append.2 ⟨ht.1, hu.1⟩, List.forall_mem_cons.2 ⟨ht.2.1, hu.2⟩⟩

end

end Check
end Typing

/-- A check sees every part of the program, and an error is one of typing. -/
theorem Program.check_wellTyped {program : Program} {addresses : Resolutions}
    (hids : program.DistinctIdentities) (haddresses : Resolutions.ofProgram program = .ok addresses) :
    (program.check addresses = .ok () → ∀ p ∈ program.parts, p.WellTyped addresses) ∧
      ∀ e, program.check addresses = .error e → e.IsTyping := by
  have hstart : Typing.State.start.Inside [(program.scope, [])] :=
    ⟨.global (Nat.zero_lt_one) rfl ⟨by simp, by simp⟩, rfl⟩
  have hds : program.scope.declarations = program.declarations := rfl
  have hmeets := Typing.Check.opened_meets hids haddresses (List.mem_cons_self ..) hds hstart
    fun t ht => Typing.Check.decls_meets hids haddresses program.declarations rfl
      (List.subset_cons_self ..) ht
  rw [Typing.Check.Meets] at hmeets
  rw [check, Typing.Check.declarations]
  split
  · rename_i t hrun
    rw [hrun] at hmeets
    exact ⟨fun _ => hmeets, fun e he => by cases he⟩
  · rename_i e t hrun
    rw [hrun] at hmeets
    refine ⟨fun hok => (by cases hok), fun e' he => ?_⟩
    obtain rfl := Except.error.inj he
    exact hmeets

end LexScript
