import LexScript.Proofs.Typing.Checked

/-!
# The types that a check records

A check makes a frame for each scope and binds there the types of its names, and later checks leave the
frame alone. So after the check of a program each of its scopes has a frame that holds the types of all
its names: `Program.check_records`.
-/

namespace LexScript

/-- Behind its last declaration, all names of a scope are known. -/
theorem Place.types_of_length_le {scope : Scope} {position : Nat}
    (h : scope.declarations.length ≤ position) : (Place.mk scope position).types = scope.types := by
  rw [types, List.take_of_length_le h]
  rfl

namespace Typing

/-- A frame that is no older than the given one holds the types of all names of the scope. -/
def State.Records (s : State) (oldest : FrameId) : Part → Prop
  | .opening scope _ =>
    ∃ f, oldest ≤ f ∧ f < s.scopes.frames.size ∧ s.scopes.Holds f scope scope.types
  | _ => True

namespace State.Records

variable {s t : State} {oldest older : FrameId} {p : Part}

theorem of_le (h : s.Records oldest p) (hle : older ≤ oldest) : s.Records older p := by
  cases p with
  | opening scope outer =>
    obtain ⟨f, hf, hsize, hholds⟩ := h
    exact ⟨f, Nat.le_trans hle hf, hsize, hholds⟩
  | _ => trivial

/-- Frames inside the current one do not change any more. -/
theorem of_keeps (h : s.Records oldest p) (hkeeps : s.Keeps t) (hinside : s.scopes.current < oldest) :
    t.Records oldest p := by
  cases p with
  | opening scope outer =>
    obtain ⟨f, hf, hsize, hholds⟩ := h
    have hframe := hkeeps.others f hsize (Nat.ne_of_gt (Nat.lt_of_lt_of_le hinside hf))
    refine ⟨f, hf, Nat.lt_of_lt_of_le hsize hkeeps.size, hholds.congr fun i => ?_⟩
    simp [ScopeStack.slot?, hframe]
  | _ => trivial

end State.Records

namespace Check

section

variable {α : Type} {c : Check α} {s : State} {first second : α → State → Prop}

theorem Meets.and (h : c.Meets s first) (h' : c.Meets s second) :
    c.Meets s fun a t => first a t ∧ second a t := by
  rw [Meets] at h h' ⊢
  cases hc : c s with
  | ok a t =>
    rw [hc] at h h'
    exact ⟨h, h'⟩
  | error e t =>
    rw [hc] at h
    exact h

theorem Meets.and_keeps (h : c.Meets s first) (hc : c.Keeps) :
    c.Meets s fun a t => first a t ∧ s.Keeps t :=
  h.and_final (hc s)

/-- What is recorded in a new scope is recorded behind the frames that were there. -/
theorem Meets.within_records {prepare leave : State → State} {parts : List Part}
    (hprepare : (prepare s).scopes = s.scopes.enter) (hleave : ∀ t, (leave t).scopes = t.scopes.exit)
    (h : c.Meets (prepare s) fun _ t => ∀ p ∈ parts, t.Records (prepare s).scopes.current p) :
    (Check.within prepare leave c).Meets s fun _ t => ∀ p ∈ parts, t.Records s.scopes.frames.size p := by
  rw [hprepare] at h
  rw [Meets] at h ⊢
  rw [Check.within]
  cases hc : c (prepare s) with
  | ok a t =>
    rw [hc] at h
    intro p hp
    cases p with
    | opening scope outer =>
      obtain ⟨f, hf, hsize, hholds⟩ := h _ hp
      have hframes : (leave t).scopes.frames = t.scopes.frames := by simp [hleave, ScopeStack.frames_exit]
      refine ⟨f, hf, ?_, hholds.congr fun i => ?_⟩
      · rw [hframes]
        exact hsize
      · simp [ScopeStack.slot?, hframes]
    | _ => trivial
  | error e t =>
    rw [hc] at h
    exact h

end

variable {program : Program} {addresses : Resolutions}

/-- A scope is recorded in the frame that is current when its declarations have been checked. -/
theorem opened_records (hids : program.DistinctIdentities)
    (haddresses : Resolutions.ofProgram program = .ok addresses) {s : State} {scope : Scope}
    {outer : List Place} (hopening : .opening scope outer ∈ program.parts) {ds : List Decl}
    (hds : scope.declarations = ds)
    (h : s.Inside ((scope, scope.parameterTypes.reverse) :: outer.map Place.view)) {c : Check Unit}
    {parts : List Part}
    (hc : ∀ t : State, t.Inside ((Place.mk scope 0 :: outer).map Place.view) →
      c.Meets t fun _ u => (∀ p ∈ parts, u.Records t.scopes.frames.size p) ∧
        u.Inside ((scope, scope.types) :: outer.map Place.view) ∧ t.Keeps u) :
    (hoist addresses ds >>= fun _ => c).Meets s fun _ u =>
      ∀ p ∈ .opening scope outer :: parts, u.Records s.scopes.current p := by
  subst hds
  have htypes : (Place.mk scope 0).types =
      scope.parameterTypes.reverse ++ scope.declarations.filterMap Decl.functionType? := by
    simp [Place.types]
  have hhoist := hoist_meets hids haddresses hopening scope.declarations
    (List.subset_append_right ..) h
  refine (hhoist.and_keeps (Keeps.hoist addresses _)).bind fun _ t ht => ?_
  rcases ht with ⟨⟨-, hinside⟩, hst⟩
  rw [← htypes] at hinside
  refine (hc t hinside).imp fun _ u hu => ?_
  rcases hu with ⟨hparts, hlast, htu⟩
  have hcurrent : u.scopes.current = s.scopes.current := htu.current.trans hst.current
  rw [List.forall_mem_cons]
  constructor
  · exact ⟨u.scopes.current, Nat.le_of_eq hcurrent.symm, hlast.knows.lt, hlast.knows.holds⟩
  · intro p hp
    exact (hparts p hp).of_le (Nat.le_of_lt (Nat.lt_of_lt_of_le h.knows.lt hst.size))

-- The induction follows that of `stmt_meets`, which says what the frames know in between. Every frame
-- that is made on the way is newer than the current one, so that what is checked later does not touch it.
mutual

theorem stmt_records (hids : program.DistinctIdentities)
    (haddresses : Resolutions.ofProgram program = .ok addresses) {places : List Place} :
    ∀ {s : State} (st : Stmt), st.parts places ⊆ program.parts → s.Inside (places.map Place.view) →
      (stmt addresses st).Meets s fun _ t => ∀ p ∈ st.parts places, t.Records s.scopes.frames.size p
  | s, .expression line value, hparts, h | s, .print line value, hparts, h =>
    (stmt_meets hids haddresses _ hparts h).imp fun _ t _ => List.forall_mem_singleton.2 trivial
  | s, .ret line none, hparts, h | s, .ret line (some value), hparts, h =>
    (stmt_meets hids haddresses _ hparts h).imp fun _ t _ => List.forall_mem_singleton.2 trivial
  | s, .block line body, hparts, h => by
    rw [Stmt.parts, List.cons_subset] at hparts
    rw [stmt, Stmt.parts]
    refine .within_records rfl (fun _ => rfl) (opened_records hids haddresses hparts.1 rfl (h.enter h.returns)
      fun t ht => ?_)
    exact decls_records hids haddresses body rfl hparts.2 ht
  | s, .ifThen line test thenBranch, hparts, h => by
    rw [Stmt.parts, List.cons_subset] at hparts
    rw [stmt, Stmt.parts]
    apply Meets.bind (condition_meets hids haddresses h hparts.1)
    rintro _ t ⟨-, rfl⟩
    apply (stmt_records hids haddresses thenBranch hparts.2 h).imp
    intro _ u hu
    exact List.forall_mem_cons.2 ⟨trivial, hu⟩
  | s, .ifElse line test thenBranch elseBranch, hparts, h => by
    rw [Stmt.parts, List.cons_subset, List.append_subset] at hparts
    rw [stmt, Stmt.parts]
    apply Meets.bind (condition_meets hids haddresses h hparts.1)
    rintro _ t ⟨-, rfl⟩
    have hthen := stmt_records hids haddresses thenBranch hparts.2.1 h
    apply Meets.bind (hthen.and_extends (.stmt addresses thenBranch))
    rintro _ u ⟨hu, htu⟩
    have hinside := h.of_extends htu
    have helse := stmt_records hids haddresses elseBranch hparts.2.2 hinside
    apply (helse.and_extends (.stmt addresses elseBranch)).imp
    rintro _ v ⟨hv, huv⟩
    refine List.forall_mem_cons.2 ⟨trivial, List.forall_mem_append.2 ⟨fun p hp => ?_, fun p hp => ?_⟩⟩
    · refine (hu p hp).of_keeps huv.keeps ?_
      rw [htu.current]
      exact h.knows.lt
    · exact (hv p hp).of_le htu.size
  | s, .whileLoop line test body, hparts, h => by
    rw [Stmt.parts, List.cons_subset] at hparts
    rw [stmt, Stmt.parts]
    apply Meets.bind (condition_meets hids haddresses h hparts.1)
    rintro _ t ⟨-, rfl⟩
    apply (stmt_records hids haddresses body hparts.2 h).imp
    intro _ u hu
    exact List.forall_mem_cons.2 ⟨trivial, hu⟩
  | s, .forLoop line first test stepLine step body, hparts, h => by
    simp only [Stmt.parts, List.cons_subset, List.append_subset] at hparts
    rcases hparts with ⟨hopening, hfirst, htest, hstep, hbody⟩
    rw [stmt, Stmt.parts]
    refine .within_records rfl (fun _ => rfl) (opened_records hids haddresses hopening rfl (h.enter h.returns)
      fun t ht => ?_)
    have hdecl := (decl_records hids haddresses first rfl hfirst ht).and
      (decl_meets hids haddresses first rfl hfirst ht)
    apply Meets.bind (hdecl.and_keeps (.decl addresses first))
    rintro _ u ⟨⟨hu, -, -, hinside⟩, htu⟩
    apply Meets.bind (condition_meets hids haddresses hinside htest)
    rintro _ v ⟨-, rfl⟩
    refine .context (Meets.bind (typeOf_meets hids haddresses hinside hstep) fun type w hw => ?_)
    rcases hw with ⟨-, rfl⟩
    have hlast := stmt_records hids haddresses body hbody hinside
    apply (hlast.and_extends (.stmt addresses body)).imp
    rintro _ x ⟨hx, hwx⟩
    have hkeeps := hwx.keeps
    refine ⟨List.forall_mem_append.2 ⟨fun p hp => ?_, ?_⟩, hinside.of_extends hwx, htu.trans hkeeps⟩
    · refine (hu p hp).of_keeps hkeeps ?_
      rw [htu.current]
      exact ht.knows.lt
    · refine List.forall_mem_cons.2 ⟨trivial, List.forall_mem_cons.2 ⟨trivial, fun p hp => ?_⟩⟩
      exact (hx p hp).of_le htu.size

theorem decl_records (hids : program.DistinctIdentities)
    (haddresses : Resolutions.ofProgram program = .ok addresses) {scope : Scope} {position : Nat}
    {outer : List Place} : ∀ {s : State} (d : Decl), scope.declarations[position]? = some d →
    d.parts ⟨scope, position⟩ outer ⊆ program.parts →
    s.Inside ((Place.mk scope position :: outer).map Place.view) →
      (decl addresses d).Meets s fun _ t =>
        ∀ p ∈ d.parts ⟨scope, position⟩ outer, t.Records s.scopes.frames.size p
  | s, .binding line i type value, hd, hparts, h =>
    (decl_meets hids haddresses _ hd hparts h).imp fun _ t _ =>
      List.forall_mem_cons.2 ⟨trivial, List.forall_mem_singleton.2 trivial⟩
  | s, .function line header body, hd, hparts, h => by
    rw [Decl.parts, List.cons_subset] at hparts
    rw [decl, Decl.parts]
    have hreturns : Scope.returns? (.function header body ::
        ((Place.mk scope position :: outer).map Place.view).map Prod.fst) =
        (header.returns :: s.returns).head? := rfl
    have hentered := h.enter hreturns
    have hbind := bindParameters_meets hids haddresses hparts.1 line header.parameters
      (List.subset_append_left ..) hentered
    have hkeeps := Keeps.bindParameters addresses line header.parameters
    refine .within_records rfl (fun _ => rfl) ((hbind.and_keeps hkeeps).bind ?_)
    rintro _ t ⟨ht, hst⟩
    rw [List.append_nil] at ht
    rw [← hst.current]
    exact opened_records hids haddresses hparts.1 rfl ht fun u hu =>
      decls_records hids haddresses body rfl hparts.2 hu
  | s, .forward line header, hd, hparts, h =>
    (decl_meets hids haddresses _ hd hparts h).imp fun _ t _ => by simp [Decl.parts]
  | s, .statement st, hd, hparts, h => stmt_records hids haddresses st hparts h

theorem decls_records (hids : program.DistinctIdentities)
    (haddresses : Resolutions.ofProgram program = .ok addresses) {scope : Scope} {outer : List Place} :
    ∀ {s : State} {position : Nat} (ds : List Decl), scope.declarations.drop position = ds →
    Decl.partsFrom scope position outer ds ⊆ program.parts →
    s.Inside ((Place.mk scope position :: outer).map Place.view) →
      (decls addresses ds).Meets s fun _ t =>
        (∀ p ∈ Decl.partsFrom scope position outer ds, t.Records s.scopes.frames.size p) ∧
        t.Inside ((scope, scope.types) :: outer.map Place.view) ∧ s.Keeps t
  | s, position, [], hds, hparts, h => by
    rw [List.map_cons, Place.view, Place.types_of_length_le (List.drop_eq_nil_iff.1 hds)] at h
    rw [decls, Decl.partsFrom]
    exact ⟨by simp, h, .refl s⟩
  | s, position, d :: ds, hds, hparts, h => by
    rw [Decl.partsFrom, List.append_subset] at hparts
    rw [decls, Decl.partsFrom]
    have hd := Resolution.getElem?_of_drop hds
    have hdecl := (decl_records hids haddresses d hd hparts.1 h).and
      (decl_meets hids haddresses d hd hparts.1 h)
    apply Meets.bind (hdecl.and_keeps (.decl addresses d))
    rintro _ t ⟨⟨hhead, -, -, hinside⟩, hst⟩
    apply (decls_records hids haddresses ds (Resolution.drop_succ hds) hparts.2 hinside).imp
    rintro _ u ⟨htail, hlast, htu⟩
    refine ⟨List.forall_mem_append.2 ⟨fun p hp => ?_, fun p hp => ?_⟩, hlast, hst.trans htu⟩
    · refine (hhead p hp).of_keeps htu ?_
      rw [hst.current]
      exact h.knows.lt
    · exact (htail p hp).of_le hst.size

end

end Check
end Typing

/-- A check that succeeds ends in some state. -/
theorem Program.exists_checked {program : Program} {addresses : Resolutions}
    (h : program.check addresses = .ok ()) :
    ∃ checked, Typing.Check.declarations addresses program.declarations .start = .ok () checked := by
  rw [check] at h
  split at h
  · exact ⟨_, by assumption⟩
  · cases h

/-- After the check of a program, each of its scopes has a frame that holds the types of its names. -/
theorem Program.check_records {program : Program} {addresses : Resolutions} {checked : Typing.State}
    (hids : program.DistinctIdentities) (haddresses : Resolutions.ofProgram program = .ok addresses)
    (hcheck : Typing.Check.declarations addresses program.declarations .start = .ok () checked)
    {scope : Scope} {outer : List Place} (hopening : .opening scope outer ∈ program.parts) :
    ∃ f, checked.scopes.Holds f scope scope.types := by
  have hstart : Typing.State.start.Inside [(program.scope, [])] :=
    ⟨.global (Nat.zero_lt_one) rfl ⟨by simp, by simp⟩, rfl⟩
  have hds : program.scope.declarations = program.declarations := rfl
  have hmeets := Typing.Check.opened_records hids haddresses (List.mem_cons_self ..) hds hstart
    fun t ht => Typing.Check.decls_records hids haddresses program.declarations rfl
      (List.subset_cons_self ..) ht
  rw [Typing.Check.declarations] at hcheck
  rw [Typing.Check.Meets, hcheck] at hmeets
  obtain ⟨f, -, -, hholds⟩ := hmeets _ hopening
  exact ⟨f, hholds⟩

end LexScript
