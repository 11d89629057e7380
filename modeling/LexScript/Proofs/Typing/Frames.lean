import LexScript.Typing.Program

/-!
# What a check leaves alone

A check puts the current frame and the return types back, whether it ends with an error or not. A
statement leaves all frames as they were, and a declaration all but the current one, in which no slot
becomes empty. The reason is the same at any depth: a new frame lies in the one that was current, and
nothing moves a frame.
-/

namespace LexScript.Typing

/-- From one state to the other, the current frame and the return types are the same, and of the frames
that were there none has another parent, and only the current one may have changed, in slots that are
filled. -/
structure State.Keeps (s t : State) : Prop where
  current : t.scopes.current = s.scopes.current
  returns : t.returns = s.returns
  size : s.scopes.frames.size ≤ t.scopes.frames.size
  others : ∀ f < s.scopes.frames.size, f ≠ s.scopes.current →
    t.scopes.frames[f]? = s.scopes.frames[f]?
  parents : ∀ f < s.scopes.frames.size, t.scopes.parent? f = s.scopes.parent? f
  filled : ∀ i, (s.scopes.slot? s.scopes.current i).isSome →
    (t.scopes.slot? s.scopes.current i).isSome

structure State.Extends (s t : State) : Prop where
  current : t.scopes.current = s.scopes.current
  returns : t.returns = s.returns
  size : s.scopes.frames.size ≤ t.scopes.frames.size
  frames : ∀ f < s.scopes.frames.size, t.scopes.frames[f]? = s.scopes.frames[f]?

namespace State

variable {s t u : State}

theorem Keeps.refl (s : State) : s.Keeps s :=
  ⟨rfl, rfl, Nat.le_refl _, fun _ _ _ => rfl, fun _ _ => rfl, fun _ h => h⟩

theorem Keeps.trans (h : s.Keeps t) (h' : t.Keeps u) : s.Keeps u where
  current := h'.current.trans h.current
  returns := h'.returns.trans h.returns
  size := Nat.le_trans h.size h'.size
  others f hf hne := by
    have hne' : f ≠ t.scopes.current := by simpa [h.current] using hne
    simp [h'.others f (Nat.lt_of_lt_of_le hf h.size) hne', h.others f hf hne]
  parents f hf := by simp [h'.parents f (Nat.lt_of_lt_of_le hf h.size), h.parents f hf]
  filled i hi := by
    have hfilled := h'.filled i
    rw [h.current] at hfilled
    exact hfilled (h.filled i hi)

theorem Extends.refl (s : State) : s.Extends s := ⟨rfl, rfl, Nat.le_refl _, fun _ _ => rfl⟩

theorem Extends.trans (h : s.Extends t) (h' : t.Extends u) : s.Extends u where
  current := h'.current.trans h.current
  returns := h'.returns.trans h.returns
  size := Nat.le_trans h.size h'.size
  frames f hf := by simp [h'.frames f (Nat.lt_of_lt_of_le hf h.size), h.frames f hf]

theorem Extends.keeps (h : s.Extends t) : s.Keeps t where
  current := h.current
  returns := h.returns
  size := h.size
  others f hf _ := h.frames f hf
  parents f hf := by simp [ScopeStack.parent?, h.frames f hf]
  filled i hi := by
    obtain ⟨type, htype⟩ := Option.isSome_iff_exists.1 hi
    simpa [ScopeStack.slot?, h.frames _ (ScopeStack.lt_of_slot? htype)] using hi

end State

namespace Check

variable {α β : Type}

def final (c : Check α) (s : State) : State :=
  match c s with
  | .ok _ t | .error _ t => t

def Extends (c : Check α) : Prop := ∀ s : State, s.Extends (c.final s)

def Keeps (c : Check α) : Prop := ∀ s : State, s.Keeps (c.final s)

/-- What holds from the beginning to the end of either of two checks holds of them in turn, wherever they end. -/
theorem final_bind (R : State → State → Prop) (htrans : ∀ {s t u}, R s t → R t u → R s u) {c : Check α}
    {f : α → Check β} (h : ∀ s, R s (c.final s)) (hf : ∀ a s, R s ((f a).final s)) (s : State) :
    R s ((c >>= f).final s) := by
  have hc := h s
  rw [final] at hc
  change R s (match EStateM.bind c f s with | .ok _ t | .error _ t => t)
  rw [EStateM.bind]
  cases hcs : c s with
  | ok a t =>
    rw [hcs] at hc
    exact htrans hc (hf a t)
  | error e t =>
    rw [hcs] at hc
    exact hc

theorem Extends.keeps {c : Check α} (h : c.Extends) : c.Keeps := fun s => (h s).keeps

theorem Extends.bind {c : Check α} {f : α → Check β} (h : c.Extends) (hf : ∀ a, (f a).Extends) :
    (c >>= f).Extends := final_bind State.Extends State.Extends.trans h hf

theorem Keeps.bind {c : Check α} {f : α → Check β} (h : c.Keeps) (hf : ∀ a, (f a).Keeps) :
    (c >>= f).Keeps := final_bind State.Keeps State.Keeps.trans h hf

theorem Extends.pure (a : α) : (Pure.pure a : Check α).Extends := State.Extends.refl

theorem Extends.throw (e : Error) : (MonadExcept.throw e : Check α).Extends := State.Extends.refl

theorem Extends.ofExcept (r : Except Error α) : (ofExcept r).Extends := by
  cases r with
  | ok a => exact .pure a
  | error e => exact .throw e

theorem Extends.get : (MonadState.get : Check State).Extends := State.Extends.refl

theorem Extends.context (addresses : Resolutions) (line : Nat) : (context addresses line).Extends :=
  State.Extends.refl

/-- What runs in a new frame leaves the others alone. When it has ended, the frame around the current one is
the one that was current before, since the new frame still lies there. -/
theorem Extends.within {c : Check α} (h : c.Keeps) {prepare leave : State → State}
    (hprepare : ∀ s, (prepare s).scopes = s.scopes.enter) (hleave : ∀ t, (leave t).scopes = t.scopes.exit)
    (hreturns : ∀ s t, t.returns = (prepare s).returns → (leave t).returns = s.returns) :
    (within prepare leave c).Extends := by
  intro s
  have hsize : (prepare s).scopes.frames.size = s.scopes.frames.size + 1 := by
    rw [hprepare]
    exact Array.size_push ..
  have hcurrent : (prepare s).scopes.current = s.scopes.frames.size := by
    rw [hprepare]
    rfl
  have hparent : (prepare s).scopes.parent? s.scopes.frames.size = some s.scopes.current := by
    simp [hprepare, ScopeStack.enter, ScopeStack.parent?_enterAt]
  have hstate : ∀ t, (prepare s).Keeps t → s.Extends (leave t) := by
    intro t ht
    have hle := ht.size
    rw [hsize] at hle
    have hexit : (leave t).scopes = t.scopes.restore s.scopes.current := by
      simp only [hleave, ScopeStack.exit, ht.current, hcurrent,
        ht.parents _ (by rw [hsize]; exact Nat.lt_succ_self _), hparent]
    refine ⟨?_, hreturns s t ht.returns, ?_, fun f hf => ?_⟩
    · simp [hexit, ScopeStack.current_restore]
    · rw [hexit]
      exact Nat.le_of_succ_le hle
    · have hother := ht.others f (by rw [hsize]; exact Nat.lt_succ_of_lt hf)
        (by rw [hcurrent]; exact Nat.ne_of_lt hf)
      rw [hexit]
      refine Eq.trans hother ?_
      simp only [hprepare, ScopeStack.enter, ScopeStack.enterAt, Array.getElem?_push_lt hf]
      exact (Array.getElem?_eq_getElem hf).symm
  have hc := h (prepare s)
  rw [final] at hc ⊢
  rw [Check.within]
  cases hcs : c (prepare s) with
  | ok a t =>
    rw [hcs] at hc
    exact hstate t hc
  | error e t =>
    rw [hcs] at hc
    exact hstate t hc

theorem Extends.inScope {c : Check α} (h : c.Keeps) : (inScope c).Extends :=
  .within h (fun _ => rfl) (fun _ => rfl) fun _ _ hreturns => hreturns

theorem Extends.inFunction {c : Check α} (h : c.Keeps) (returns : Ty) :
    (inFunction returns c).Extends :=
  .within h (fun _ => rfl) (fun _ => rfl) fun _ _ hreturns => congrArg List.tail hreturns

theorem Keeps.define (slot : Nat) (type : Ty) : (define slot type).Keeps := by
  intro s
  refine ⟨rfl, rfl, ?_, fun f hf hne => ?_, fun f _ => ScopeStack.parent?_write .., fun i hi => ?_⟩
  · exact Nat.le_of_eq (Array.size_modify ..).symm
  · refine Eq.trans (Array.getElem?_modify ..) ?_
    rw [if_neg (Ne.symm hne)]
  · change ((s.scopes.write s.scopes.current slot type).slot? s.scopes.current i).isSome
    obtain ⟨before, hbefore⟩ := Option.isSome_iff_exists.1 hi
    rw [ScopeStack.slot?_write _ (ScopeStack.lt_of_slot? hbefore)]
    split
    · rfl
    · exact hi

variable (addresses : Resolutions)

theorem Keeps.declare (line : Nat) (identifier : Identifier) (type : Ty) (clash : Ty → Cause) :
    (declare addresses line identifier type clash).Keeps := by
  apply (Extends.ofExcept _).keeps.bind
  intro address
  apply Extends.get.keeps.bind
  intro s
  split
  · split
    · exact (Extends.throw _).keeps.bind fun _ => .define address.slot type
    · exact (Extends.pure ()).keeps.bind fun _ => .define address.slot type
  · exact (Extends.pure ()).keeps.bind fun _ => .define address.slot type

theorem Keeps.hoist : ∀ ds : List Decl, (hoist addresses ds).Keeps
  | [] => (Extends.pure ()).keeps
  | .function line header _ :: ds | .forward line header :: ds =>
    (Keeps.declare addresses line header.identifier header.type _).bind fun _ => Keeps.hoist ds
  | .binding .. :: ds | .statement _ :: ds => Keeps.hoist ds

theorem Keeps.bindParameters (line : Nat) : ∀ ps : List Parameter,
    (bindParameters addresses line ps).Keeps
  | [] => (Extends.pure ()).keeps
  | p :: ps => by
    apply (Extends.ofExcept _).keeps.bind
    intro address
    exact (Keeps.define address.slot p.type).bind fun _ => Keeps.bindParameters line ps

theorem Extends.condition (line : Nat) (e : Expr) : (condition addresses line e).Extends := by
  apply (Extends.context addresses line).bind
  intro c
  apply (Extends.ofExcept _).bind
  intro type
  split
  · exact .throw _
  · exact .pure ()

theorem Keeps.binding (line : Nat) (identifier : Identifier) (type : Ty) (value : Expr) :
    (binding addresses line identifier type value).Keeps := by
  apply (Extends.context addresses line).keeps.bind
  intro c
  apply (Extends.ofExcept _).keeps.bind
  intro received
  split
  · exact (Extends.throw _).keeps.bind fun _ => .declare addresses line identifier type _
  · exact .declare addresses line identifier type _

theorem Extends.ret (line : Nat) (value : Option Expr) : (ret addresses line value).Extends := by
  have hfinish : ∀ expected received : Ty, Check.Extends
      (if received ≠ expected then
        MonadExcept.throw ⟨.returnTypeMismatch expected.text received.text, line⟩
      else Pure.pure ()) := by
    intro expected received
    split
    · exact .throw _
    · exact .pure ()
  apply Extends.get.bind
  intro s
  split
  · exact .throw _
  · split
    · apply (Extends.context addresses line).bind
      intro c
      exact (Extends.ofExcept _).bind fun received => hfinish _ received
    · exact (Extends.pure Ty.void).bind fun received => hfinish _ received

mutual

theorem Extends.stmt : ∀ s : Stmt, (stmt addresses s).Extends
  | .expression line value | .print line value => by
    apply (Extends.context addresses line).bind
    intro c
    exact (Extends.ofExcept _).bind fun _ => .pure ()
  | .block _ body => .inScope ((Keeps.hoist addresses body).bind fun _ => Keeps.decls body)
  | .ifThen line test thenBranch =>
    (Extends.condition addresses line test).bind fun _ => Extends.stmt thenBranch
  | .ifElse line test thenBranch elseBranch =>
    (Extends.condition addresses line test).bind fun _ =>
      (Extends.stmt thenBranch).bind fun _ => Extends.stmt elseBranch
  | .whileLoop line test body =>
    (Extends.condition addresses line test).bind fun _ => Extends.stmt body
  | .forLoop line first test stepLine step body => by
    refine .inScope ((Keeps.hoist addresses [first]).bind fun _ => ?_)
    apply (Keeps.decl first).bind
    intro _
    apply (Extends.condition addresses line test).keeps.bind
    intro _
    apply (Extends.context addresses stepLine).keeps.bind
    intro c
    exact (Extends.ofExcept _).keeps.bind fun _ => (Extends.stmt body).keeps
  | .ret line value => .ret addresses line value

theorem Keeps.decl : ∀ d : Decl, (decl addresses d).Keeps
  | .binding line identifier type value => .binding addresses line identifier type value
  | .function line header body => by
    refine (Extends.inFunction ?_ header.returns).keeps
    apply (Keeps.bindParameters addresses line header.parameters).bind
    intro _
    exact (Keeps.hoist addresses body).bind fun _ => Keeps.decls body
  | .forward .. => (Extends.pure ()).keeps
  | .statement s => (Extends.stmt s).keeps

theorem Keeps.decls : ∀ ds : List Decl, (decls addresses ds).Keeps
  | [] => (Extends.pure ()).keeps
  | d :: ds => (Keeps.decl d).bind fun _ => Keeps.decls ds

end

end Check
end LexScript.Typing
