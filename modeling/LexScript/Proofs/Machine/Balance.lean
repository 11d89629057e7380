import LexScript.Proofs.Machine.Records

/-!
# What a run goes back to

A step takes at most one continuation away and puts others in its place. When all that it puts there is
done, the frame and the number of calls are those from which the rest of the continuations goes on, and
every scope that is left on the way is left for the frame around its own: `Machine.Returns.step`.
-/

namespace LexScript

namespace Continuation

def allAfter (f : FrameId) : List Continuation → FrameId
  | [] => f
  | c :: k => allAfter (c.after f) k

def calls : Continuation → Nat
  | .endCall .. => 1
  | _ => 0

def allCalls : List Continuation → Nat
  | [] => 0
  | c :: k => c.calls + allCalls k

def IsPlain : Continuation → Prop
  | .leave _ | .endCall .. => False
  | _ => True

theorem IsPlain.after_eq {c : Continuation} (h : c.IsPlain) (f : FrameId) : c.after f = f := by
  cases c with
  | leave | endCall => exact h.elim
  | _ => rfl

theorem IsPlain.calls_eq {c : Continuation} (h : c.IsPlain) : c.calls = 0 := by
  cases c with
  | leave | endCall => exact h.elim
  | _ => rfl

theorem IsPlain.ne_leave {c : Continuation} (h : c.IsPlain) (g : FrameId) : c ≠ .leave g := by
  rintro rfl
  exact h

theorem Passes.isPlain {c : Continuation} {outcome : Outcome} (h : c.Passes outcome) : c.IsPlain := by
  cases c with
  | leave frame => exact h.not_accepts (.leave frame outcome)
  | endCall frame closure line => exact h.not_accepts (.endCall frame closure line outcome)
  | _ => trivial

/-- Every scope is left for the frame around its own, if the given frame is current before. -/
def LeaveOutwards (s : ScopeStack Value) : FrameId → List Continuation → Prop
  | _, [] => True
  | f, c :: k => (∀ g, c = .leave g → s.parent? f = some g) ∧ LeaveOutwards s (c.after f) k

theorem allAfter_append (f : FrameId) (k l : List Continuation) :
    allAfter f (k ++ l) = allAfter (allAfter f k) l := by
  induction k generalizing f with
  | nil => rfl
  | cons c k ih => exact ih _

theorem allCalls_append (k l : List Continuation) : allCalls (k ++ l) = allCalls k + allCalls l := by
  induction k with
  | nil => exact (Nat.zero_add _).symm
  | cons c k ih => simp [List.cons_append, allCalls, ih, Nat.add_assoc]

theorem IsPlain.leaveOutwards {c : Continuation} (h : c.IsPlain) (s : ScopeStack Value) (f : FrameId) :
    LeaveOutwards s f [c] :=
  ⟨fun g hg => absurd hg (h.ne_leave g), trivial⟩

theorem LeaveOutwards.append {s : ScopeStack Value} {f : FrameId} {k l : List Continuation}
    (hk : LeaveOutwards s f k) (hl : LeaveOutwards s (allAfter f k) l) : LeaveOutwards s f (k ++ l) := by
  induction k generalizing f with
  | nil => exact hl
  | cons c k ih => exact ⟨hk.1, ih hk.2 hl⟩

theorem LeaveOutwards.mono {s t : ScopeStack Value} {f : FrameId} {k : List Continuation}
    (h : LeaveOutwards s f k) (hparents : ∀ f g, s.parent? f = some g → t.parent? f = some g) :
    LeaveOutwards t f k := by
  induction k generalizing f with
  | nil => trivial
  | cons c k ih => exact ⟨fun g hg => hparents f g (h.1 g hg), ih h.2⟩

end Continuation

/-- Binding names changes the bindings alone. -/
theorem Store.bind_eq_scopes (addresses : Resolutions) (bs : List Binding) (σ : Store) :
    (σ.bind addresses bs).2 = { σ with scopes := (σ.bind addresses bs).2.scopes } := by
  induction bs generalizing σ with
  | nil => rfl
  | cons b bs ih =>
    rw [Store.bind]
    cases addresses.find b.identifier b.line with
    | error e => rfl
    | ok a => exact ih _

theorem Store.depth_bind (addresses : Resolutions) (bs : List Binding) (σ : Store) :
    (σ.bind addresses bs).2.depth = σ.depth := by
  rw [bind_eq_scopes]

/-- So does an assignment. -/
theorem Store.assign_eq_scopes (addresses : Resolutions) (target : Identifier) (v : Value) (line : Nat)
    (σ : Store) : (σ.assign addresses target v line).2 =
      { σ with scopes := (σ.assign addresses target v line).2.scopes } := by
  rw [Store.assign_eq]
  cases addresses.find target line with
  | error e => rfl
  | ok a =>
    simp only
    cases σ.scopes.locate? a <;> rfl

theorem Store.depth_assign (addresses : Resolutions) (target : Identifier) (v : Value) (line : Nat)
    (σ : Store) : (σ.assign addresses target v line).2.depth = σ.depth := by
  rw [assign_eq_scopes]

namespace Machine

variable {setting : Setting} {m : Machine} {k : List Continuation} {σ : Store}

/-- The machine has the continuations `above` left to do before it comes to `k`. Then the frame `f` is
current again, so many calls are in progress, and until then scopes are left outwards. -/
structure Returns (m : Machine) (above k : List Continuation) (f : FrameId) (depth : Nat) : Prop where
  stack : m.stack = above ++ k
  frame : Continuation.allAfter m.store.scopes.current above = f
  depth : m.store.depth = depth + Continuation.allCalls above
  outwards : Continuation.LeaveOutwards m.store.scopes m.store.scopes.current above

def HasEnded (m : Machine) (k : List Continuation) : Prop :=
  ∃ outcome, m.control = .ended outcome ∧ m.stack = k

namespace Returns

theorem here (control : Control) (k : List Continuation) (σ : Store) :
    Returns ⟨control, k, σ⟩ [] k σ.scopes.current σ.depth :=
  ⟨rfl, rfl, rfl, trivial⟩

theorem push {c : Continuation} (hc : c.IsPlain) (control : Control) (k : List Continuation)
    (σ : Store) : Returns ⟨control, c :: k, σ⟩ [c] k σ.scopes.current σ.depth := by
  refine ⟨rfl, hc.after_eq _, ?_, hc.leaveOutwards _ _⟩
  change σ.depth = σ.depth + (c.calls + 0)
  simp [hc.calls_eq]

/-- What is put in the place of a continuation goes back to where the next one goes on from. -/
theorem trans {above rest : List Continuation} {f g : FrameId} {depth calls : Nat}
    (h : m.Returns above (rest ++ k) f calls) (hframe : Continuation.allAfter f rest = g)
    (hcalls : calls = depth + Continuation.allCalls rest)
    (houtwards : Continuation.LeaveOutwards m.store.scopes f rest) :
    m.Returns (above ++ rest) k g depth where
  stack := by simp [h.stack]
  frame := by simp [Continuation.allAfter_append, h.frame, hframe]
  depth := by rw [h.depth, hcalls, Continuation.allCalls_append]; omega
  outwards := h.outwards.append (by simpa [h.frame] using houtwards)

end Returns

/-- An expression goes back to the frame and the depth at which it is begun. -/
theorem returns_eval (setting : Setting) (line : Nat) (k : List Continuation) (σ : Store) (e : Expr) :
    ∃ above, (eval setting line k σ e).Returns above k σ.scopes.current σ.depth := by
  cases e with
  | literal | name => exact ⟨_, .here _ _ _⟩
  | assign | unary | binary | call => exact ⟨_, .push (by trivial) _ _ _⟩

/-- The frame of a scope lies in the one that is current when it is entered. -/
theorem parent?_enterAt_current (σ : Store) :
    (σ.enterAt σ.scopes.current).scopes.parent? (σ.enterAt σ.scopes.current).scopes.current =
      some σ.scopes.current :=
  (ScopeStack.parent?_enterAt ..).trans (if_pos rfl)

theorem returns_exec (k : List Continuation) (σ : Store) (s : Stmt) :
    ∃ above, (exec k σ s).Returns above k σ.scopes.current σ.depth := by
  cases s with
  | block line body =>
    refine ⟨[.leave σ.scopes.current], rfl, rfl, rfl, ?_, trivial⟩
    rintro g ⟨⟩
    exact parent?_enterAt_current σ
  | forLoop line first condition stepLine step body =>
    refine ⟨[.again _, .leave σ.scopes.current], rfl, rfl, rfl, nofun, ?_, trivial⟩
    rintro g ⟨⟩
    exact parent?_enterAt_current σ
  | ret line value =>
    cases value with
    | none => exact ⟨_, .here _ _ _⟩
    | some e => exact ⟨_, .push (by trivial) _ _ _⟩
  | _ => exact ⟨_, .push (by trivial) _ _ _⟩

theorem returns_declare (k : List Continuation) (σ : Store) (d : Decl) :
    ∃ above, (declare k σ d).Returns above k σ.scopes.current σ.depth := by
  cases d with
  | binding => exact ⟨_, .push (by trivial) _ _ _⟩
  | _ => exact ⟨_, .here _ _ _⟩

theorem returns_enter (setting : Setting) (k : List Continuation) (σ : Store)
    (declarations : List Decl) :
    ∃ above, (enter setting k σ declarations).Returns above k σ.scopes.current σ.depth := by
  have hreturns := Returns.push (c := .sequence declarations) trivial
    (.ended (σ.bind setting.addresses (Binding.ofFunctions σ.scopes.current declarations)).1) k
    (σ.bind setting.addresses (Binding.ofFunctions σ.scopes.current declarations)).2
  rw [Store.current_bind, Store.depth_bind] at hreturns
  exact ⟨_, hreturns⟩

/-- A call goes back to the frame of the caller, and it is not in progress any more. -/
theorem returns_call (setting : Setting) (k : List Continuation) (σ : Store) (closure : Closure)
    (arguments : List Value) (line : Nat) :
    ∃ above, (call setting k σ closure arguments line).Returns above k σ.scopes.current σ.depth := by
  by_cases hdepth : setting.maxCallDepth ≤ σ.depth
  · rw [call_of_le hdepth]
    exact ⟨_, .here _ _ _⟩
  · rw [call_of_lt hdepth]
    refine ⟨[.endCall σ.scopes.current closure line], rfl, rfl, ?_, nofun, trivial⟩
    exact Store.depth_bind ..

theorem returns_nextArgument (k : List Continuation) (σ : Store) (closure : Closure)
    (values : List Value) (line : Nat) (rest : List Expr) :
    ∃ above, (nextArgument k σ closure values line rest).Returns above k σ.scopes.current σ.depth := by
  cases rest with
  | nil => exact ⟨_, .here _ _ _⟩
  | cons e es => exact ⟨_, .push (by trivial) _ _ _⟩

/-- Behind a continuation that has acted, the next one goes on from the frame and the depth behind it. -/
theorem returns_resume (setting : Setting) (k : List Continuation) (σ : Store) (c : Continuation)
    (outcome : Outcome) :
    ∃ above, (resume setting k σ c outcome).Returns above k (c.after σ.scopes.current)
      (σ.depth - c.calls) := by
  rcases c.accepts_or_passes outcome with haccepts | hpasses
  · cases haccepts with
    | assign target line v =>
      have hreturns := Returns.here (.ended (σ.assign setting.addresses target v line).1) k
        (σ.assign setting.addresses target v line).2
      rw [Store.current_assign, Store.depth_assign] at hreturns
      exact ⟨_, hreturns⟩
    | callee arguments line v =>
      cases v with
      | function closure => exact returns_nextArgument k σ closure [] line arguments
      | _ => exact ⟨_, .here _ _ _⟩
    | argument closure values rest line v => exact returns_nextArgument k σ closure _ line rest
    | print line v =>
      simp only [resume, Store.print]
      exact ⟨_, .here _ _ _⟩
    | branch line thenBranch elseBranch v =>
      cases v with
      | boolean b => cases b <;> cases elseBranch <;> exact ⟨_, .here _ _ _⟩
      | _ => exact ⟨_, .here _ _ _⟩
    | test loop v =>
      cases v with
      | boolean b =>
        cases b with
        | true => exact ⟨_, .push (by trivial) _ _ _⟩
        | false => exact ⟨_, .here _ _ _⟩
      | _ => exact ⟨_, .here _ _ _⟩
    | step loop =>
      obtain ⟨line, condition, step, body⟩ := loop
      cases step <;> exact ⟨_, .push (by trivial) _ _ _⟩
    | again loop => exact ⟨_, .push (by trivial) _ _ _⟩
    | bind identifier line v =>
      have hreturns := Returns.here (.ended (σ.bind setting.addresses [⟨identifier, v, line⟩]).1) k
        (σ.bind setting.addresses [⟨identifier, v, line⟩]).2
      rw [Store.current_bind, Store.depth_bind] at hreturns
      exact ⟨_, hreturns⟩
    | sequence d ds =>
      obtain ⟨above, hreturns⟩ := returns_declare ([.sequence ds] ++ k) σ d
      have hplain : (Continuation.sequence ds).IsPlain := trivial
      exact ⟨_, hreturns.trans rfl rfl (hplain.leaveOutwards _ _)⟩
    | operand => exact ⟨_, .push (by trivial) _ _ _⟩
    | _ => exact ⟨_, .here _ _ _⟩
  · simp only [hpasses.resume, hpasses.isPlain.after_eq, hpasses.isPlain.calls_eq]
    exact ⟨_, .here _ _ _⟩

/-- Until a machine has come to its end before `k`, every step goes back there as well. -/
theorem Returns.step {above : List Continuation} {f : FrameId} {depth : Nat}
    (h : m.Returns above k f depth) (hunfinished : ¬ m.HasEnded k) :
    ∃ later, (m.step setting).Returns later k f depth := by
  obtain ⟨control, stack, σ⟩ := m
  obtain rfl := h.stack
  have hmono := (scopes_grow setting ⟨control, above ++ k, σ⟩).parents
  cases control with
  | eval line e =>
    obtain ⟨new, hnew⟩ := returns_eval setting line (above ++ k) σ e
    exact ⟨new ++ above, hnew.trans h.frame h.depth (h.outwards.mono hmono)⟩
  | exec s =>
    obtain ⟨new, hnew⟩ := returns_exec (above ++ k) σ s
    exact ⟨new ++ above, hnew.trans h.frame h.depth (h.outwards.mono hmono)⟩
  | enter declarations =>
    obtain ⟨new, hnew⟩ := returns_enter setting (above ++ k) σ declarations
    exact ⟨new ++ above, hnew.trans h.frame h.depth (h.outwards.mono hmono)⟩
  | call closure arguments line =>
    obtain ⟨new, hnew⟩ := returns_call setting (above ++ k) σ closure arguments line
    exact ⟨new ++ above, hnew.trans h.frame h.depth (h.outwards.mono hmono)⟩
  | ended outcome =>
    cases above with
    | nil => exact absurd ⟨outcome, rfl, rfl⟩ hunfinished
    | cons c above =>
      obtain ⟨new, hnew⟩ := returns_resume setting (above ++ k) σ c outcome
      have hdepth : σ.depth = depth + (c.calls + Continuation.allCalls above) := h.depth
      have hbehind : σ.depth - c.calls = depth + Continuation.allCalls above := by omega
      exact ⟨new ++ above, hnew.trans h.frame hbehind (h.outwards.2.mono hmono)⟩

end Machine
end LexScript
