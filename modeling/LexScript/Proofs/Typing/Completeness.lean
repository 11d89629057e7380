import LexScript.Proofs.Typing.Checked

/-!
# Well-typed programs pass

A program whose parts obey the typing rules passes the check. Together with the converse this says what a check
is: `Program.check_eq_ok_iff`.
-/

namespace LexScript.Typing

/-! ## Expressions -/

namespace Context

variable {program : Program} {c : Context} {places : List Place} {line : Nat}

theorem requireValue_of_ne (line : Nat) {t : Ty} (h : t ≠ .void) :
    (requireValue line t : Except Error Ty) = .ok t := by
  cases t with
  | void => exact absurd rfl h
  | _ => rfl

theorem lookup_of_hasType (hc : c.At program places) {i : Identifier} {t : Ty}
    (huse : .use i line places ∈ program.occurrences)
    (ht : i.HasType c.addresses (places.map Place.scope) t) : c.lookup i = .ok t := by
  obtain ⟨u, hlookup, hu⟩ := exists_lookup hc huse
  simp [hlookup, hu.unique ht]

mutual

theorem typeExpr_of_hasType (hc : c.At program places) : ∀ (e : Expr) {t : Ty},
    e.occurrences places line ⊆ program.occurrences →
      HasType c.addresses (places.map Place.scope) e t → typeExpr c.lookup c.line e = .ok t
  | .literal _, _, _, .literal _ => rfl
  | .name i, t, h, .name declared => by
    rw [typeExpr]
    exact lookup_of_hasType hc (h (List.mem_singleton_self _)) declared
  | .assign target value, t, h, .assign typed valued declared => by
    rw [Expr.occurrences, List.append_subset] at h
    have hvalue := typeExpr_of_hasType hc value h.1 typed
    have htarget := lookup_of_hasType hc (h.2 (List.mem_singleton_self _)) declared
    simp [typeExpr, hvalue, htarget, requireValue_of_ne c.line valued, bind, Except.bind]
    rfl
  | .unary operator operand, t, h, .unary typed valued result => by
    have hoperand := typeExpr_of_hasType hc operand h typed
    simp [typeExpr, hoperand, result, requireValue_of_ne c.line valued, bind, Except.bind]
    rfl
  | .binary operator left right, t, h, .binary first second valued result => by
    rw [Expr.occurrences, List.append_subset] at h
    have hleft := typeExpr_of_hasType hc left h.1 first
    have hright := typeExpr_of_hasType hc right h.2 second
    simp [typeExpr, hleft, hright, result, requireValue_of_ne c.line valued.1,
      requireValue_of_ne c.line valued.2, bind, Except.bind]
    rfl
  | .call callee arguments, t, h, @HasType.call _ _ _ _ parameters _ typed fit => by
    rw [Expr.occurrences, List.append_subset] at h
    have hcallee := typeExpr_of_hasType hc callee h.1 typed
    have harguments := fitArguments_of_fits hc arguments h.2 fit
    have hfunction : Ty.function parameters t ≠ .void := by simp
    simp [typeExpr, hcallee, harguments, requireValue_of_ne c.line hfunction, bind, Except.bind]
    rfl

theorem fitArguments_of_fits (hc : c.At program places) : ∀ (es : List Expr) {ts : List Ty},
    Expr.occurrencesOf places line es ⊆ program.occurrences →
      Fits c.addresses (places.map Place.scope) es ts → fitArguments c.lookup c.line ts es = .ok ()
  | [], ts, _, _ => by cases ts <;> rfl
  | _ :: _, [], _, _ => rfl
  | e :: es, t :: ts, h, .cons typed valued rest => by
    rw [Expr.occurrencesOf, List.append_subset] at h
    have hargument := typeExpr_of_hasType hc e h.1 typed
    have hrest := fitArguments_of_fits hc es h.2 rest
    simp [fitArguments, hargument, hrest, requireValue_of_ne c.line valued, bind, Except.bind]

end

theorem valueTypeOf_of_hasType (hc : c.At program places) {e : Expr} {t : Ty}
    (h : e.occurrences places line ⊆ program.occurrences)
    (ht : HasType c.addresses (places.map Place.scope) e t) (hvoid : t ≠ .void) :
    c.valueTypeOf e = .ok t := by
  rw [valueTypeOf, typeOf, typeExpr_of_hasType hc e h ht]
  exact requireValue_of_ne c.line hvoid

end Context

/-! ## States -/

/-- The state is inside the scope, and the slots of names that are not known yet are empty. -/
structure State.Precise (s : State) (scope : Scope) (types : List (Identifier × Ty))
    (views : List (Scope × List (Identifier × Ty))) : Prop where
  inside : s.Inside ((scope, types) :: views)
  empty : ∀ i ∈ scope.registered, typeIn? types i.name = none →
    s.scopes.slot? s.scopes.current (scope.slot i.name) = none

namespace State.Precise

variable {s t : State} {scope : Scope} {types later : List (Identifier × Ty)}
  {views : List (Scope × List (Identifier × Ty))}

theorem of_extends (h : s.Precise scope types views) (hextends : s.Extends t) :
    t.Precise scope types views where
  inside := h.inside.of_extends hextends
  empty i hi hnone := by
    simpa [hextends.current, ScopeStack.slot?, hextends.frames _ h.inside.knows.lt] using h.empty i hi hnone

theorem enter (h : s.Inside views) {returns : List Ty}
    (hreturns : Scope.returns? (scope :: views.map Prod.fst) = returns.head?) :
    State.Precise ⟨s.scopes.enter, returns⟩ scope [] views where
  inside := h.enter hreturns
  empty i _ _ := by
    rw [ScopeStack.enter, ScopeStack.slot?_enterAt, ScopeStack.current_enterAt, ScopeStack.slot?,
      Array.getElem?_eq_none (Nat.le_refl _)]
    rfl

theorem define (h : s.Precise scope types views) {i : Identifier} (hi : i ∈ scope.registered) {type : Ty}
    (hholds : (s.scopes.define (scope.slot i.name) type).Holds s.scopes.current scope later)
    (hlater : ∀ name, typeIn? later name = none → i.name ≠ name ∧ typeIn? types name = none) :
    State.Precise ⟨s.scopes.define (scope.slot i.name) type, s.returns⟩ scope later views where
  inside := h.inside.define hholds
  empty j hj hnone := by
    obtain ⟨hne, hnone⟩ := hlater j.name hnone
    change (s.scopes.write s.scopes.current (scope.slot i.name) type).slot? s.scopes.current _ = none
    rw [ScopeStack.slot?_write _ h.inside.knows.lt, if_neg, h.empty j hj hnone]
    rintro ⟨-, hslot⟩
    exact hne (ScopeNames.eq_of_rank_eq (List.mem_map_of_mem hi) (List.mem_map_of_mem hj) hslot)

/-- A name is bound, perhaps again, with the type that it has. -/
theorem append (h : s.Precise scope types views) {i : Identifier} (hi : i ∈ scope.registered) {type : Ty}
    (hagree : ∀ u, typeIn? types i.name = some u → u = type) :
    State.Precise ⟨s.scopes.define (scope.slot i.name) type, s.returns⟩ scope (types ++ [(i, type)]) views := by
  refine h.define hi (h.inside.knows.holds.append h.inside.knows.lt hi hagree) fun name hnone => ?_
  rw [typeIn?_append, Option.or_eq_none_iff, typeIn?_singleton] at hnone
  refine ⟨fun hname => ?_, hnone.1⟩
  rw [if_pos hname] at hnone
  cases hnone.2

/-- A parameter is bound. -/
theorem cons (h : s.Precise scope types views) {i : Identifier} (hi : i ∈ scope.registered) (type : Ty) :
    State.Precise ⟨s.scopes.define (scope.slot i.name) type, s.returns⟩ scope ((i, type) :: types) views := by
  refine h.define hi (h.inside.knows.holds.cons h.inside.knows.lt hi type) fun name hnone => ?_
  rw [typeIn?_cons] at hnone
  by_cases hname : i.name = name
  · rw [if_pos hname] at hnone
    cases hnone
  · exact ⟨hname, by rwa [if_neg hname] at hnone⟩

end State.Precise

/-! ## Checks -/

namespace Check

def Passes (c : Check Unit) (s : State) (expected : State → Prop) : Prop := ∃ t, c s = .ok () t ∧ expected t

namespace Passes

variable {c d : Check Unit} {s : State} {first expected : State → Prop}

theorem bind (h : c.Passes s first) (hd : ∀ t, first t → d.Passes t expected) :
    (c >>= fun _ => d).Passes s expected := by
  obtain ⟨t, ht, hfirst⟩ := h
  obtain ⟨u, hu, hexpected⟩ := hd t hfirst
  refine ⟨u, ?_, hexpected⟩
  change EStateM.bind c (fun _ => d) s = _
  simpa [EStateM.bind, ht] using hu

theorem imp (h : c.Passes s first) (himp : ∀ t, first t → expected t) : c.Passes s expected := by
  obtain ⟨t, ht, hfirst⟩ := h
  exact ⟨t, ht, himp t hfirst⟩

theorem and_extends (h : c.Passes s first) (hc : c.Extends) : c.Passes s fun t => first t ∧ s.Extends t := by
  obtain ⟨t, ht, hfirst⟩ := h
  have hextends := hc s
  rw [final, ht] at hextends
  exact ⟨t, ht, hfirst, hextends⟩

theorem within {prepare leave : State → State} (h : c.Passes (prepare s) fun _ => True) :
    (within prepare leave c).Passes s fun _ => True := by
  obtain ⟨t, ht, -⟩ := h
  refine ⟨leave t, ?_, trivial⟩
  simp [Check.within, ht]

end Passes

variable {program : Program} {addresses : Resolutions} {s : State} {scope : Scope}
  {types : List (Identifier × Ty)} {views : List (Scope × List (Identifier × Ty))}

theorem declare_passes (h : s.Precise scope types views) {i : Identifier} (hi : i ∈ scope.registered)
    (haddress : addresses.get? i.id = some ⟨0, scope.slot i.name⟩) (line : Nat) (type : Ty)
    (clash : Ty → Cause) (hagree : ∀ u, typeIn? types i.name = some u → u = type) :
    (declare addresses line i type clash).Passes s fun t => t.Precise scope (types ++ [(i, type)]) views := by
  refine ⟨_, ?_, h.append hi hagree⟩
  have hfind : addresses.find i line = .ok ⟨0, scope.slot i.name⟩ := by
    simp [Resolutions.find, haddress]
  have hget : (get : Check State) s = .ok s s := rfl
  have hslot : s.scopes.get? ⟨0, scope.slot i.name⟩ = s.scopes.slot? s.scopes.current (scope.slot i.name) := rfl
  cases hknown : typeIn? types i.name with
  | none =>
    rw [h.empty i hi hknown] at hslot
    simp [declare, hfind, ofExcept, bind, EStateM.bind, pure, EStateM.pure, hget, hslot]
    rfl
  | some u =>
    obtain rfl := hagree u hknown
    rw [h.inside.knows.holds.slot?_of_typeIn? hknown] at hslot
    simp [declare, hfind, ofExcept, bind, EStateM.bind, pure, EStateM.pure, hget, hslot]
    rfl

/-- In a scope whose names have their types, a type that is known is the type of the name. -/
theorem agrees_of_initial {i : Identifier} {type : Ty} (htypes : types <+: scope.types)
    (htype : scope.typeOf? i.name = some type) : ∀ u, typeIn? types i.name = some u → u = type :=
  fun _ hu => Option.some.inj ((typeIn?_of_initial htypes hu).symm.trans htype)

theorem hoist_passes (hids : program.DistinctIdentities)
    (haddresses : Resolutions.ofProgram program = .ok addresses) {outer : List Place}
    (hopening : .opening scope outer ∈ program.parts) (hconsistent : scope.Consistent) : ∀ {s : State}
    {types : List (Identifier × Ty)} (ds : List Decl), ds ⊆ scope.declarations →
    types ++ ds.filterMap Decl.functionType? <+: scope.types → s.Precise scope types views →
      (hoist addresses ds).Passes s fun t =>
        t.Precise scope (types ++ ds.filterMap Decl.functionType?) views
  | s, types, [], _, _, h => ⟨s, rfl, by simpa using h⟩
  | s, types, .binding .. :: ds, hds, htypes, h | s, types, .statement _ :: ds, hds, htypes, h =>
    hoist_passes hids haddresses hopening hconsistent ds (List.cons_subset.1 hds).2 htypes h
  | s, types, .function line header body :: ds, hds, htypes, h
  | s, types, .forward line header :: ds, hds, htypes, h => by
    rw [hoist]
    rw [List.cons_subset] at hds
    have hearly : header.identifier ∈ scope.early :=
      List.mem_append_right _ (List.mem_filterMap.2 ⟨_, hds.1, rfl⟩)
    have htype : scope.typeOf? header.identifier.name = some header.type :=
      hconsistent _ hds.1 _ _ (.inl rfl)
    have haddress := Resolutions.get?_early hids haddresses hopening hearly
    have hagree := agrees_of_initial ((List.prefix_append ..).trans htypes) htype
    refine (declare_passes h (scope.early_subset_registered hearly) haddress line _ _ hagree).bind
      fun t ht => ?_
    have hnext : types ++ [(header.identifier, header.type)] ++ ds.filterMap Decl.functionType? <+:
        scope.types := by
      rw [List.append_assoc]
      exact htypes
    have hrest := hoist_passes hids haddresses hopening hconsistent ds hds.2 hnext ht
    rw [List.append_assoc] at hrest
    exact hrest

theorem bindParameters_passes (hids : program.DistinctIdentities)
    (haddresses : Resolutions.ofProgram program = .ok addresses) {outer : List Place}
    (hopening : .opening scope outer ∈ program.parts) (line : Nat) : ∀ {s : State}
    {types : List (Identifier × Ty)} (ps : List Parameter),
    ps.map Parameter.identifier ⊆ scope.early → s.Precise scope types views →
      (bindParameters addresses line ps).Passes s fun t =>
        t.Precise scope ((ps.map fun p => (p.identifier, p.type)).reverse ++ types) views
  | s, types, [], _, h => ⟨s, rfl, h⟩
  | s, types, p :: ps, hps, h => by
    rw [List.map_cons, List.cons_subset] at hps
    have hfind : addresses.find p.identifier line = .ok ⟨0, scope.slot p.identifier.name⟩ := by
      simp [Resolutions.find, Resolutions.get?_early hids haddresses hopening hps.1]
    rw [bindParameters, hfind]
    have hparameter := h.cons (scope.early_subset_registered hps.1) p.type
    have hrest := bindParameters_passes hids haddresses hopening line ps hps.2 hparameter
    rw [List.map_cons, List.reverse_cons, List.append_assoc]
    exact hrest

/-- What is checked in a new scope starts with the types of its functions. -/
theorem opened_passes (hids : program.DistinctIdentities)
    (haddresses : Resolutions.ofProgram program = .ok addresses) {outer : List Place}
    (hopening : .opening scope outer ∈ program.parts) (hconsistent : scope.Consistent)
    {ds : List Decl} (hds : scope.declarations = ds)
    (h : s.Precise scope scope.parameterTypes.reverse (outer.map Place.view)) :
    (hoist addresses ds).Passes s fun t =>
      t.Precise scope (Place.mk scope 0).types (outer.map Place.view) := by
  subst hds
  have htypes : scope.parameterTypes.reverse ++ scope.declarations.filterMap Decl.functionType? =
      (Place.mk scope 0).types := by
    simp [Place.types]
  have hinitial := (Place.mk scope 0).types_initial
  rw [← htypes] at hinitial ⊢
  exact hoist_passes hids haddresses hopening hconsistent _ (List.Subset.refl _) hinitial h

section

variable (hids : program.DistinctIdentities)
  (haddresses : Resolutions.ofProgram program = .ok addresses)
  (hwell : ∀ p ∈ program.parts, p.WellTyped addresses)

include hids haddresses hwell

theorem typeOf_passes {places : List Place} (h : s.Inside (places.map Place.view)) {role : Role}
    {line : Nat} {e : Expr} (hpart : .expression role line e places ∈ program.parts) :
    ∃ t, Context.typeOf ⟨addresses, s.scopes, line⟩ e = .ok t ∧
      role.Accepts (places.map Place.scope) t := by
  obtain ⟨t, ht, haccepts⟩ := hwell _ hpart
  have hc : Context.At ⟨addresses, s.scopes, line⟩ program places := ⟨hids, haddresses, h.knows⟩
  exact ⟨t, Context.typeExpr_of_hasType hc e (Program.occurrences_of_part hpart) ht, haccepts⟩

theorem condition_passes {places : List Place} (h : s.Inside (places.map Place.view)) {line : Nat}
    {e : Expr} (hpart : .expression .condition line e places ∈ program.parts) :
    (condition addresses line e).Passes s (· = s) := by
  obtain ⟨t, ht, rfl⟩ := typeOf_passes hids haddresses hwell h hpart
  refine ⟨s, ?_, rfl⟩
  rw [condition]
  change (ofExcept (Context.typeOf ⟨addresses, s.scopes, line⟩ e) >>= _ : Check Unit) s = _
  rw [ht]
  rfl

theorem ret_passes {places : List Place} (h : s.Inside (places.map Place.view)) {line : Nat}
    {value : Option Expr} (hparts : (Stmt.ret line value).parts places ⊆ program.parts) :
    (ret addresses line value).Passes s (· = s) := by
  refine ⟨s, ?_, rfl⟩
  have hreturns := h.returns
  rw [Place.map_scope_view] at hreturns
  cases value with
  | none =>
    have hexpected : Scope.returns? (places.map Place.scope) = some .void :=
      hwell _ (hparts (List.mem_singleton_self _))
    rw [hexpected] at hreturns
    obtain ⟨rest, hstack⟩ := List.head?_eq_some_iff.1 hreturns.symm
    have hs : s = { s with returns := .void :: rest } := by rw [← hstack]
    rw [hs]
    rfl
  | some e =>
    obtain ⟨t, ht, hexpected⟩ :=
      typeOf_passes hids haddresses hwell h (hparts (List.mem_singleton_self _))
    rw [hexpected] at hreturns
    obtain ⟨rest, hstack⟩ := List.head?_eq_some_iff.1 hreturns.symm
    have hs : s = { s with returns := t :: rest } := by rw [← hstack]
    rw [hs, ret]
    change (ofExcept (Context.typeOf ⟨addresses, s.scopes, line⟩ e) >>= fun received =>
      (if received ≠ t then _ else _ : Check Unit)) { s with returns := t :: rest } = _
    rw [ht]
    change (if t ≠ t then _ else _ : Check Unit) { s with returns := t :: rest } = _
    rw [if_neg (not_not.2 rfl)]
    rfl

theorem binding_passes {line : Nat} {e : Expr} {type : Ty} {position : Nat} {outer : List Place}
    {i : Identifier} {d : Decl} (hd : scope.declarations[position]? = some d)
    (hvariable : d.variableType? = some (i, type)) (htype : scope.typeOf? i.name = some type)
    (h : s.Precise scope (Place.mk scope position).types (outer.map Place.view))
    (hpart : .expression (.initial type) line e (⟨scope, position⟩ :: outer) ∈ program.parts)
    (hbinding : .binding i scope ∈ program.parts) :
    (binding addresses line i type e).Passes s fun t =>
      t.Precise scope (Place.mk scope (position + 1)).types (outer.map Place.view) := by
  obtain ⟨received, hreceived, rfl, hvoid⟩ := hwell _ hpart
  have hc : Context.At ⟨addresses, s.scopes, line⟩ program (⟨scope, position⟩ :: outer) :=
    ⟨hids, haddresses, h.inside.knows⟩
  have hvalue := Context.valueTypeOf_of_hasType hc (Program.occurrences_of_part hpart) hreceived hvoid
  have htypes := Place.types_succ hd
  rw [hvariable, Option.toList_some] at htypes
  have hagree := agrees_of_initial (Place.mk scope position).types_initial htype
  have hdeclared := declare_passes h (program.registered_parts _ hbinding)
    (Resolutions.get?_binding hids haddresses hbinding) line received
    (fun previous => .variableRedeclarationMismatch i.name previous.text received.text) hagree
  rw [binding, htypes]
  refine Exists.imp (fun t ht => ⟨?_, ht.2⟩) hdeclared
  change (ofExcept (Context.valueTypeOf ⟨addresses, s.scopes, line⟩ e) >>= fun t =>
    (if t ≠ received then _ else _ : Check Unit)) s = _
  rw [hvalue]
  change (if received ≠ received then _ else _ : Check Unit) s = _
  rw [if_neg (not_not.2 rfl)]
  exact ht.1

end

/-- A declaration that declares no variable leaves what is known as it is. -/
theorem unbound_passes {position : Nat} {outer : List Place} {d : Decl} {c : Check Unit}
    (hd : scope.declarations[position]? = some d) (hnone : d.variableType? = none) (hextends : c.Extends)
    (h : s.Precise scope (Place.mk scope position).types (outer.map Place.view))
    (hc : c.Passes s fun _ => True) :
    c.Passes s fun t => t.Precise scope (Place.mk scope (position + 1)).types (outer.map Place.view) := by
  have htypes := Place.types_succ hd
  rw [hnone, Option.toList_none, List.append_nil] at htypes
  rw [htypes]
  exact (hc.and_extends hextends).imp fun t ht => h.of_extends ht.2

-- The induction is the one of `stmt_meets`, and the rules now say that no step fails.
mutual

theorem stmt_passes (hids : program.DistinctIdentities)
    (haddresses : Resolutions.ofProgram program = .ok addresses)
    (hwell : ∀ p ∈ program.parts, p.WellTyped addresses) {places : List Place} :
    ∀ {s : State} (st : Stmt), st.parts places ⊆ program.parts → s.Inside (places.map Place.view) →
      (stmt addresses st).Passes s fun _ => True
  | s, .expression line value, hparts, h => by
    obtain ⟨t, ht, -⟩ := typeOf_passes hids haddresses hwell h (hparts (List.mem_singleton_self _))
    refine ⟨s, ?_, trivial⟩
    rw [stmt]
    change (ofExcept (Context.typeOf ⟨addresses, s.scopes, line⟩ value) >>= _ : Check Unit) s = _
    rw [ht]
    rfl
  | s, .print line value, hparts, h => by
    obtain ⟨t, ht, hvoid⟩ := hwell _ (hparts (List.mem_singleton_self _))
    have hc : Context.At ⟨addresses, s.scopes, line⟩ program places := ⟨hids, haddresses, h.knows⟩
    have hvalue := Context.valueTypeOf_of_hasType hc
      (Program.occurrences_of_part (hparts (List.mem_singleton_self _))) ht hvoid
    refine ⟨s, ?_, trivial⟩
    rw [stmt]
    change (ofExcept (Context.valueTypeOf ⟨addresses, s.scopes, line⟩ value) >>= _ : Check Unit) s = _
    rw [hvalue]
    rfl
  | s, .block line body, hparts, h => by
    rw [Stmt.parts, List.cons_subset] at hparts
    have hconsistent : (Scope.block body).Consistent := hwell _ hparts.1
    rw [stmt]
    refine .within ((opened_passes hids haddresses hparts.1 hconsistent rfl (.enter h h.returns)).bind
      fun t ht => ?_)
    exact decls_passes hids haddresses hwell body hconsistent rfl hparts.2 ht
  | s, .ifThen line test thenBranch, hparts, h => by
    rw [Stmt.parts, List.cons_subset] at hparts
    rw [stmt]
    refine (condition_passes hids haddresses hwell h hparts.1).bind fun t ht => ?_
    obtain rfl := ht
    exact stmt_passes hids haddresses hwell thenBranch hparts.2 h
  | s, .ifElse line test thenBranch elseBranch, hparts, h => by
    rw [Stmt.parts, List.cons_subset, List.append_subset] at hparts
    rw [stmt]
    refine (condition_passes hids haddresses hwell h hparts.1).bind fun t ht => ?_
    obtain rfl := ht
    have hthen := stmt_passes hids haddresses hwell thenBranch hparts.2.1 h
    refine (hthen.and_extends (.stmt addresses thenBranch)).bind fun u hu => ?_
    exact stmt_passes hids haddresses hwell elseBranch hparts.2.2 (h.of_extends hu.2)
  | s, .whileLoop line test body, hparts, h => by
    rw [Stmt.parts, List.cons_subset] at hparts
    rw [stmt]
    refine (condition_passes hids haddresses hwell h hparts.1).bind fun t ht => ?_
    obtain rfl := ht
    exact stmt_passes hids haddresses hwell body hparts.2 h
  | s, .forLoop line first test stepLine step body, hparts, h => by
    simp only [Stmt.parts, List.cons_subset, List.append_subset] at hparts
    obtain ⟨hopening, hfirst, htest, hstep, hbody⟩ := hparts
    have hconsistent : (Scope.loop first).Consistent := hwell _ hopening
    rw [stmt]
    refine .within ((opened_passes hids haddresses hopening hconsistent rfl (.enter h h.returns)).bind
      fun t ht => ?_)
    refine (decl_passes hids haddresses hwell first hconsistent rfl hfirst ht).bind fun u hu => ?_
    refine (condition_passes hids haddresses hwell hu.inside htest).bind fun v hv => ?_
    obtain rfl := hv
    obtain ⟨type, htype, -⟩ := typeOf_passes hids haddresses hwell hu.inside hstep
    refine Exists.imp (fun w hw => ⟨?_, hw.2⟩) (stmt_passes hids haddresses hwell body hbody hu.inside)
    change (ofExcept (Context.typeOf ⟨addresses, v.scopes, stepLine⟩ step) >>= _ : Check Unit) v = _
    rw [htype]
    exact hw.1
  | s, .ret line value, hparts, h => by
    rw [stmt]
    exact (ret_passes hids haddresses hwell h hparts).imp fun _ _ => trivial

theorem decl_passes (hids : program.DistinctIdentities)
    (haddresses : Resolutions.ofProgram program = .ok addresses)
    (hwell : ∀ p ∈ program.parts, p.WellTyped addresses) {scope : Scope} {position : Nat}
    {outer : List Place} : ∀ {s : State} (d : Decl), scope.Consistent →
    scope.declarations[position]? = some d → d.parts ⟨scope, position⟩ outer ⊆ program.parts →
    s.Precise scope (Place.mk scope position).types (outer.map Place.view) →
      (decl addresses d).Passes s fun t =>
        t.Precise scope (Place.mk scope (position + 1)).types (outer.map Place.view)
  | s, .binding line i type value, hconsistent, hd, hparts, h => by
    simp only [Decl.parts, List.cons_subset] at hparts
    have htype := hconsistent _ (List.mem_of_getElem? hd) i type (.inr rfl)
    rw [decl]
    exact binding_passes hids haddresses hwell hd rfl htype h hparts.1 hparts.2.1
  | s, .function line header body, hconsistent, hd, hparts, h => by
    rw [Decl.parts, List.cons_subset] at hparts
    have hinside : (Scope.function header body).Consistent := hwell _ hparts.1
    have hearly : header.parameters.map Parameter.identifier ⊆ (Scope.function header body).early :=
      List.subset_append_left ..
    rw [decl]
    refine unbound_passes hd rfl (.inFunction ?_ header.returns) h (.within ?_)
    · apply (Keeps.bindParameters addresses line header.parameters).bind
      intro _
      exact (Keeps.hoist addresses body).bind fun _ => .decls addresses body
    · have hreturns : Scope.returns? (.function header body ::
          ((Place.mk scope position :: outer).map Place.view).map Prod.fst) =
          (header.returns :: s.returns).head? := rfl
      refine (bindParameters_passes hids haddresses hparts.1 line header.parameters hearly
        (.enter h.inside hreturns)).bind fun t ht => ?_
      rw [List.append_nil] at ht
      refine (opened_passes hids haddresses hparts.1 hinside rfl ht).bind fun u hu => ?_
      exact decls_passes hids haddresses hwell body hinside rfl hparts.2 hu
  | s, .forward line header, _, hd, _, h => by
    rw [decl]
    exact unbound_passes hd rfl (.pure ()) h ⟨s, rfl, trivial⟩
  | s, .statement st, _, hd, hparts, h => by
    rw [decl]
    exact unbound_passes hd rfl (.stmt addresses st) h
      (stmt_passes hids haddresses hwell st hparts h.inside)

theorem decls_passes (hids : program.DistinctIdentities)
    (haddresses : Resolutions.ofProgram program = .ok addresses)
    (hwell : ∀ p ∈ program.parts, p.WellTyped addresses) {scope : Scope} {outer : List Place} :
    ∀ {s : State} {position : Nat} (ds : List Decl), scope.Consistent →
    scope.declarations.drop position = ds → Decl.partsFrom scope position outer ds ⊆ program.parts →
    s.Precise scope (Place.mk scope position).types (outer.map Place.view) →
      (decls addresses ds).Passes s fun _ => True
  | s, position, [], _, _, _, _ => ⟨s, rfl, trivial⟩
  | s, position, d :: ds, hconsistent, hds, hparts, h => by
    rw [Decl.partsFrom, List.append_subset] at hparts
    rw [decls]
    refine (decl_passes hids haddresses hwell d hconsistent (Resolution.getElem?_of_drop hds) hparts.1
      h).bind fun t ht => ?_
    exact decls_passes hids haddresses hwell ds hconsistent (Resolution.drop_succ hds) hparts.2 ht

end

end Check
end LexScript.Typing

namespace LexScript

/-- A check accepts a program whose names are resolved exactly if all its parts obey the typing rules. -/
theorem Program.check_eq_ok_iff {program : Program} {addresses : Resolutions}
    (hids : program.DistinctIdentities) (haddresses : Resolutions.ofProgram program = .ok addresses) :
    program.check addresses = .ok () ↔ ∀ p ∈ program.parts, p.WellTyped addresses := by
  refine ⟨(check_wellTyped hids haddresses).1, fun hwell => ?_⟩
  obtain ⟨hopening, hrest⟩ := List.cons_subset.1 (List.Subset.refl program.parts)
  have hconsistent : program.scope.Consistent := hwell _ hopening
  have hstart : Typing.State.start.Precise program.scope [] [] := by
    refine ⟨⟨.global (Nat.zero_lt_one) rfl ⟨by simp, by simp⟩, rfl⟩, fun i _ _ => ?_⟩
    simp [Typing.State.start, ScopeStack.global, ScopeStack.slot?]
  obtain ⟨t, ht, -⟩ := (Typing.Check.opened_passes hids haddresses hopening hconsistent rfl hstart).bind
    fun t ht => Typing.Check.decls_passes hids haddresses hwell program.declarations hconsistent rfl hrest ht
  have hchecked : Typing.Check.declarations addresses program.declarations .start = .ok () t := ht
  simp [check, hchecked]

end LexScript
