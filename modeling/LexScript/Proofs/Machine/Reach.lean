import LexScript.Proofs.Machine.Restoration

/-!
# What a call can reach

A call starts from the frames that its closure and its arguments have captured. From a frame one reaches
the frame around it and the frames that the functions in its slots have captured. Whatever the body of
the function does, it stays within these frames and the new ones: `Machine.call_confined`.
-/

namespace LexScript

inductive ScopeStack.Reach (s : ScopeStack Value) (roots : FrameId → Prop) : FrameId → Prop
  | root {f : FrameId} (here : roots f) : Reach s roots f
  | outer {f g : FrameId} (inside : Reach s roots f) (parent : s.parent? f = some g) : Reach s roots g
  | captured {f : FrameId} {i : Nat} {c : Closure} (holder : Reach s roots f)
    (held : s.slot? f i = some (.function c)) : Reach s roots c.frame

def Closure.Captures (c : Closure) (arguments : List Value) (f : FrameId) : Prop :=
  f = c.frame ∨ ∃ d : Closure, .function d ∈ arguments ∧ f = d.frame

section

variable (region : FrameId → Prop)

/-- A value has captured no frame outside the region. -/
def Value.Within : Value → Prop
  | .function c => region c.frame
  | _ => True

def Outcome.Within : Outcome → Prop
  | .value v | .returned v => v.Within region
  | _ => True

def Continuation.Within : Continuation → Prop
  | .binary _ left _ => left.Within region
  | .argument closure values _ _ => region closure.frame ∧ ∀ v ∈ values, v.Within region
  | .leave f | .endCall f _ _ => region f
  | _ => True

def Control.Within : Control → Prop
  | .call closure arguments _ => region closure.frame ∧ ∀ v ∈ arguments, v.Within region
  | .ended outcome => outcome.Within region
  | _ => True

/-- Nothing leads out of the region, and all frames that are not made yet belong to it. -/
structure ScopeStack.Closed (s : ScopeStack Value) : Prop where
  outer : ∀ f g, region f → s.parent? f = some g → region g
  values : ∀ f i v, region f → s.slot? f i = some v → v.Within region
  new : ∀ f, s.frames.size ≤ f → region f

/-- The current frame and all that a machine holds before it comes to `k` lie in the region. -/
structure Machine.Confined (m : Machine) (above k : List Continuation) : Prop where
  stack : m.stack = above ++ k
  control : m.control.Within region
  above : ∀ c ∈ above, c.Within region
  current : region m.store.scopes.current

structure Machine.Acts (setting : Setting) (m : Machine) : Prop where
  enters : ∀ a, m.activates? setting = some a → region a.2
  stores : ∀ w ∈ m.writes setting, region w.frame ∧ w.value.Within region

end

variable {setting : Setting} {region : FrameId → Prop} {m now : Machine} {above k : List Continuation}
  {σ : Store}

/-- Operations do not give functions. -/
theorem Value.Scoped.within {v : Value} (h : v.Scoped []) : v.Within region := by
  cases v with
  | function c => exact absurd h c.not_scoped_nil
  | _ => trivial

theorem Outcome.ofResult_within {r : Except Cause Value} (h : ∀ v, r = .ok v → v.Scoped []) (line : Nat) :
    (Outcome.ofResult line r).Within region := by
  cases r with
  | ok v => exact (h v rfl).within
  | error cause => trivial

theorem Literal.toValue_within (literal : Literal) : literal.toValue.Within region := by
  cases literal <;> trivial

theorem Closure.answer_within {c : Closure} {outcome : Outcome} (h : outcome.Within region)
    (line : Nat) : (c.answer line outcome).Within region := by
  cases outcome with
  | normal =>
    rw [Closure.answer]
    split <;> trivial
  | _ => exact h

theorem Closure.begin_within {c : Closure} {outcome : Outcome} (h : outcome.Within region) :
    (c.begin outcome).Within region := by
  cases outcome with
  | normal => trivial
  | _ => exact h

theorem Store.bind_within (addresses : Resolutions) (bs : List Binding) (σ : Store) :
    (σ.bind addresses bs).1.Within region := by
  induction bs generalizing σ with
  | nil => trivial
  | cons b bs ih =>
    rw [Store.bind]
    cases addresses.find b.identifier b.line with
    | error e => trivial
    | ok a => exact ih _

theorem Store.assign_within {v : Value} (hv : v.Within region) (addresses : Resolutions)
    (target : Identifier) (line : Nat) (σ : Store) :
    (σ.assign addresses target v line).1.Within region := by
  rw [Store.assign_eq]
  cases addresses.find target line with
  | error e => trivial
  | ok a =>
    simp only
    cases σ.scopes.locate? a with
    | none => trivial
    | some f => exact hv

namespace ScopeStack.Closed

variable {s : ScopeStack Value}

theorem ancestor (h : s.Closed region) {f g : FrameId} (hf : region f) {distance : Nat}
    (hg : s.ancestor? distance f = some g) : region g := by
  induction distance generalizing f with
  | zero =>
    obtain rfl := Option.some.inj hg
    exact hf
  | succ distance ih =>
    rw [ancestor?] at hg
    obtain ⟨outer, houter, hrest⟩ := Option.bind_eq_some_iff.1 hg
    exact ih (h.outer f outer hf houter) hrest

theorem read (h : σ.scopes.Closed region) (hcurrent : region σ.scopes.current)
    (addresses : Resolutions) (i : Identifier) (line : Nat) :
    (σ.read addresses i line).Within region := by
  rw [Store.read]
  cases addresses.find i line with
  | error e => trivial
  | ok a =>
    cases hget : σ.scopes.get? a with
    | none => simp only [hget]; trivial
    | some v =>
      simp only [hget]
      obtain ⟨f, hf, hslot⟩ := Option.bind_eq_some_iff.1 hget
      exact h.values f _ v (h.ancestor hcurrent hf) hslot

theorem enterAt (h : s.Closed region) {f : FrameId} (hf : region f) : (s.enterAt f).Closed region where
  outer g e hg he := by
    rw [parent?_enterAt] at he
    split at he
    · obtain rfl := Option.some.inj he
      exact hf
    · exact h.outer g e hg he
  values g i v hg hv := by
    rw [slot?_enterAt] at hv
    exact h.values g i v hg hv
  new g hg := by
    have hsize : (s.enterAt f).frames.size = s.frames.size + 1 := Array.size_push _
    exact h.new g (by omega)

theorem store (h : s.Closed region) {w : Write} (hw : w.value.Within region) :
    (s.store w).Closed region where
  outer f g hf hg := by
    rw [ScopeStack.store, parent?_write] at hg
    exact h.outer f g hf hg
  values f i v hf hv := by
    rcases slot?_write_cases hv with rfl | hbefore
    · exact hw
    · exact h.values f i v hf hbefore
  new f hf := by
    rw [ScopeStack.store, write, Array.size_modify] at hf
    exact h.new f hf

theorem foldl_store (h : s.Closed region) {writes : List Write}
    (hwrites : ∀ w ∈ writes, region w.frame ∧ w.value.Within region) :
    (writes.foldl ScopeStack.store s).Closed region := by
  induction writes generalizing s with
  | nil => exact h
  | cons w writes ih =>
    rw [List.forall_mem_cons] at hwrites
    exact ih (h.store hwrites.1.2) hwrites.2

theorem congr (h : s.Closed region) {t : ScopeStack Value} (ht : t.frames = s.frames) :
    t.Closed region where
  outer f g hf hg := by
    rw [parent?, ht] at hg
    exact h.outer f g hf hg
  values f i v hf hv := by
    rw [slot?, ht] at hv
    exact h.values f i v hf hv
  new f hf := h.new f (ht ▸ hf)

end ScopeStack.Closed

/-- Frames outside the region do not change when values are stored inside. -/
theorem ScopeStack.getElem?_foldl_store {writes : List Write}
    (hwrites : ∀ w ∈ writes, region w.frame ∧ w.value.Within region) {f : FrameId} (hf : ¬ region f)
    (s : ScopeStack Value) : (writes.foldl store s).frames[f]? = s.frames[f]? := by
  induction writes generalizing s with
  | nil => rfl
  | cons w writes ih =>
    rw [List.forall_mem_cons] at hwrites
    have hne : w.frame ≠ f := fun heq => hf (heq ▸ hwrites.1.1)
    simp [List.foldl_cons, ih hwrites.2, store, write, Array.getElem?_modify, if_neg hne]

/-- The frames that a call can reach in a store, and those that are not made yet. -/
def Store.CallRegion (σ : Store) (closure : Closure) (arguments : List Value) (f : FrameId) : Prop :=
  σ.scopes.Reach (closure.Captures arguments) f ∨ σ.scopes.frames.size ≤ f

theorem Store.callRegion_closed (σ : Store) (closure : Closure) (arguments : List Value) :
    σ.scopes.Closed (σ.CallRegion closure arguments) where
  outer f g hf hg := by
    rcases hf with hf | hf
    · exact .inl (.outer hf hg)
    · rw [ScopeStack.parent?, Array.getElem?_eq_none hf] at hg
      cases hg
  values f i v hf hv := by
    cases v with
    | function c =>
      rcases hf with hf | hf
      · exact .inl (.captured hf hv)
      · exact absurd (ScopeStack.lt_of_slot? hv) (Nat.not_lt_of_le hf)
    | _ => trivial
  new _ hf := .inr hf

/-- The frames that a call can reach are closed, and those that it cannot reach are as they were. -/
structure Store.Apart (region : FrameId → Prop) (σ τ : Store) : Prop where
  closed : τ.scopes.Closed region
  apart : ∀ f, ¬ region f → τ.scopes.frames[f]? = σ.scopes.frames[f]?

namespace Machine

/-- A call makes its frame inside the one of the closure and stores the arguments in it. -/
theorem Acts.call {closure : Closure} {arguments : List Value} {line : Nat}
    (hcontrol : m.control = .call closure arguments line) (hm : m.control.Within region)
    (hscopes : m.store.scopes.Closed region) : m.Acts region setting := by
  obtain ⟨control, stack, σ⟩ := m
  obtain rfl := hcontrol
  rcases hm with ⟨hclosure, harguments⟩
  constructor
  · intro a ha
    by_cases hdepth : setting.maxCallDepth ≤ σ.depth
    · rw [activates?_call_of_le hdepth] at ha
      cases ha
    · rw [activates?_call_of_lt hdepth] at ha
      obtain rfl := Option.some.inj ha
      exact hclosure
  · intro w hw
    cases writes_of_mem hw with
    | parameter depth bound address =>
      obtain ⟨v, hv, hvalue⟩ := Binding.value_of_mem_ofArguments bound
      rw [hvalue]
      exact ⟨hscopes.new _ (Nat.le_refl _), harguments v hv⟩

namespace Confined

theorem acts (h : m.Confined region above k) (hscopes : m.store.scopes.Closed region) :
    m.Acts region setting := by
  have hcurrent := h.current
  have hm := h.control
  obtain ⟨control, stack, σ⟩ := m
  cases control with
  | call closure arguments line => exact .call rfl hm hscopes
  | eval line e => exact ⟨nofun, nofun⟩
  | exec s =>
    refine ⟨fun a ha => ?_, nofun⟩
    cases s with
    | block | forLoop =>
      obtain rfl := Option.some.inj ha
      exact hcurrent
    | _ => cases ha
  | enter declarations =>
    refine ⟨nofun, fun w hw => ?_⟩
    cases writes_of_mem hw with
    | function bound address =>
      obtain ⟨d, -, heq⟩ := List.mem_filterMap.1 bound
      cases d with
      | function line header body =>
        obtain rfl := Option.some.inj heq
        exact ⟨hcurrent, hcurrent⟩
      | _ => cases heq
  | ended outcome =>
    refine ⟨nofun, fun w hw => ?_⟩
    cases writes_of_mem hw with
    | binding address => exact ⟨hcurrent, hm⟩
    | assignment address located =>
      obtain ⟨hancestor, -⟩ := Option.filter_eq_some_iff.1 located
      exact ⟨hscopes.ancestor hcurrent hancestor, hm⟩

end Confined

/-- A step inside the region leaves the region closed and the other frames alone. -/
theorem Acts.step (h : m.Acts region setting) (hscopes : m.store.scopes.Closed region) :
    (m.step setting).store.scopes.Closed region ∧
      ∀ f, ¬ region f → (m.step setting).store.scopes.frames[f]? = m.store.scopes.frames[f]? := by
  have hframes := m.frames_step setting
  have hentered : (m.entered setting).Closed region ∧
      ∀ f, ¬ region f → (m.entered setting).frames[f]? = m.store.scopes.frames[f]? := by
    rw [entered]
    cases hactivates : m.activates? setting with
    | none => exact ⟨hscopes, fun _ _ => rfl⟩
    | some a =>
      refine ⟨hscopes.enterAt (h.enters a hactivates), fun f hf => ?_⟩
      have hlt : f < m.store.scopes.frames.size := by
        by_contra hle
        exact hf (hscopes.new f (Nat.le_of_not_lt hle))
      exact Array.getElem?_push_lt hlt ▸ (Array.getElem?_eq_getElem hlt).symm
  refine ⟨(hentered.1.foldl_store h.stores).congr hframes, fun f hf => ?_⟩
  simp [hframes, ScopeStack.getElem?_foldl_store h.stores hf, hentered.2 f hf]

namespace Confined

theorem here {control : Control} (hcontrol : control.Within region) (hcurrent : region σ.scopes.current) :
    Confined region ⟨control, k, σ⟩ [] k :=
  ⟨rfl, hcontrol, by simp, hcurrent⟩

theorem push {control : Control} {c : Continuation} (hcontrol : control.Within region)
    (hc : c.Within region) (hcurrent : region σ.scopes.current) :
    Confined region ⟨control, c :: k, σ⟩ [c] k :=
  ⟨rfl, hcontrol, List.forall_mem_singleton.2 hc, hcurrent⟩

theorem trans {rest : List Continuation} (h : m.Confined region above (rest ++ k))
    (hrest : ∀ c ∈ rest, c.Within region) : m.Confined region (above ++ rest) k where
  stack := by simp [h.stack]
  control := h.control
  above := List.forall_mem_append.2 ⟨h.above, hrest⟩
  current := h.current

end Confined

section

variable (setting k) (hcurrent : region σ.scopes.current)
include hcurrent

theorem confined_eval (hscopes : σ.scopes.Closed region) (line : Nat) (e : Expr) :
    ∃ above, (eval setting line k σ e).Confined region above k := by
  cases e with
  | literal literal => exact ⟨_, .here literal.toValue_within hcurrent⟩
  | name i => exact ⟨_, .here (hscopes.read hcurrent setting.addresses i line) hcurrent⟩
  | assign | unary | binary | call => exact ⟨_, .push (by trivial) (by trivial) hcurrent⟩

theorem confined_exec (hscopes : σ.scopes.Closed region) (s : Stmt) :
    ∃ above, (exec k σ s).Confined region above k := by
  have hnew : region σ.scopes.frames.size := hscopes.new _ (Nat.le_refl _)
  cases s with
  | block line body => exact ⟨_, .push trivial hcurrent hnew⟩
  | forLoop line first condition stepLine step body =>
    exact ⟨[.again _, .leave σ.scopes.current], rfl, trivial, by simp [Continuation.Within, hcurrent], hnew⟩
  | ret line value =>
    cases value with
    | none => exact ⟨_, .here trivial hcurrent⟩
    | some e => exact ⟨_, .push (by trivial) (by trivial) hcurrent⟩
  | _ => exact ⟨_, .push (by trivial) (by trivial) hcurrent⟩

theorem confined_declare (d : Decl) : ∃ above, (declare k σ d).Confined region above k := by
  cases d with
  | binding => exact ⟨_, .push (by trivial) (by trivial) hcurrent⟩
  | _ => exact ⟨_, .here (by trivial) hcurrent⟩

theorem confined_enter (declarations : List Decl) :
    ∃ above, (enter setting k σ declarations).Confined region above k := by
  refine ⟨_, .push (Store.bind_within ..) trivial ?_⟩
  rw [Store.current_bind]
  exact hcurrent

theorem confined_call (hscopes : σ.scopes.Closed region) (closure : Closure) (arguments : List Value)
    (line : Nat) : ∃ above, (call setting k σ closure arguments line).Confined region above k := by
  by_cases hdepth : setting.maxCallDepth ≤ σ.depth
  · rw [call_of_le hdepth]
    exact ⟨_, .here trivial hcurrent⟩
  · rw [call_of_lt hdepth]
    refine ⟨_, .push (Closure.begin_within (Store.bind_within ..)) hcurrent ?_⟩
    rw [Store.current_bind]
    exact hscopes.new _ (Nat.le_refl _)

theorem confined_nextArgument {closure : Closure} {values : List Value} (hclosure : region closure.frame)
    (hvalues : ∀ v ∈ values, v.Within region) (line : Nat) (rest : List Expr) :
    ∃ above, (nextArgument k σ closure values line rest).Confined region above k := by
  cases rest with
  | nil => exact ⟨_, .here ⟨hclosure, fun v hv => hvalues v (List.mem_reverse.1 hv)⟩ hcurrent⟩
  | cons e es => exact ⟨_, .push (by trivial) ⟨hclosure, hvalues⟩ hcurrent⟩

theorem confined_resume {c : Continuation} {outcome : Outcome} (hc : c.Within region)
    (ho : outcome.Within region) : ∃ above, (resume setting k σ c outcome).Confined region above k := by
  rcases c.accepts_or_passes outcome with haccepts | hpasses
  · cases haccepts with
    | operand operator right line left => exact ⟨_, .push trivial ho hcurrent⟩
    | binary operator left line right =>
      exact ⟨_, .here (Outcome.ofResult_within (fun _ => BinaryOperator.apply_scoped) line) hcurrent⟩
    | unary operator line operand =>
      exact ⟨_, .here (Outcome.ofResult_within (fun _ => UnaryOperator.apply_scoped) line) hcurrent⟩
    | assign target line v =>
      refine ⟨_, .here (Store.assign_within ho setting.addresses target line σ) ?_⟩
      change region (σ.assign setting.addresses target v line).2.scopes.current
      rw [Store.current_assign]
      exact hcurrent
    | callee arguments line v =>
      cases v with
      | function closure => exact confined_nextArgument k hcurrent ho (by simp) line arguments
      | _ => exact ⟨_, .here trivial hcurrent⟩
    | argument closure values rest line v =>
      exact confined_nextArgument k hcurrent hc.1 (List.forall_mem_cons.2 ⟨ho, hc.2⟩) line rest
    | print line v =>
      rw [resume, Store.print]
      simp only
      split <;> exact ⟨_, .here trivial hcurrent⟩
    | branch line thenBranch elseBranch v =>
      cases v with
      | boolean b => cases b <;> cases elseBranch <;> exact ⟨_, .here trivial hcurrent⟩
      | _ => exact ⟨_, .here trivial hcurrent⟩
    | test loop v =>
      cases v with
      | boolean b =>
        cases b with
        | true => exact ⟨_, .push trivial trivial hcurrent⟩
        | false => exact ⟨_, .here trivial hcurrent⟩
      | _ => exact ⟨_, .here trivial hcurrent⟩
    | step loop =>
      obtain ⟨line, condition, step, body⟩ := loop
      cases step <;> exact ⟨_, .push trivial trivial hcurrent⟩
    | again loop => exact ⟨_, .push trivial trivial hcurrent⟩
    | ret v => exact ⟨_, .here ho hcurrent⟩
    | bind identifier line v =>
      refine ⟨_, .here (Store.bind_within setting.addresses [⟨identifier, v, line⟩] σ) ?_⟩
      change region (σ.bind setting.addresses [⟨identifier, v, line⟩]).2.scopes.current
      rw [Store.current_bind]
      exact hcurrent
    | sequence d ds =>
      obtain ⟨above, hconfined⟩ := confined_declare ([.sequence ds] ++ k) hcurrent d
      exact ⟨_, hconfined.trans (List.forall_mem_singleton.2 trivial)⟩
    | leave frame outcome => exact ⟨_, .here ho hc⟩
    | endCall frame closure line outcome => exact ⟨_, .here (Closure.answer_within ho line) hc⟩
    | discard v => exact ⟨_, .here trivial hcurrent⟩
  · rw [hpasses.resume]
    exact ⟨_, .here ho hcurrent⟩

end

/-- Until a machine has come to its end before `k`, it stays inside the region. -/
theorem Confined.step (h : m.Confined region above k) (hscopes : m.store.scopes.Closed region)
    (hunfinished : ¬ m.HasEnded k) : ∃ later, (m.step setting).Confined region later k := by
  obtain ⟨control, stack, σ⟩ := m
  obtain rfl := h.stack
  have hcurrent := h.current
  have habove := h.above
  cases control with
  | eval line e =>
    obtain ⟨new, hnew⟩ := confined_eval setting (above ++ k) hcurrent hscopes line e
    exact ⟨_, hnew.trans habove⟩
  | exec s =>
    obtain ⟨new, hnew⟩ := confined_exec (above ++ k) hcurrent hscopes s
    exact ⟨_, hnew.trans habove⟩
  | enter declarations =>
    obtain ⟨new, hnew⟩ := confined_enter setting (above ++ k) hcurrent declarations
    exact ⟨_, hnew.trans habove⟩
  | call closure arguments line =>
    obtain ⟨new, hnew⟩ :=
      confined_call setting (above ++ k) hcurrent hscopes closure arguments line
    exact ⟨_, hnew.trans habove⟩
  | ended outcome =>
    cases above with
    | nil => exact absurd ⟨outcome, rfl, rfl⟩ hunfinished
    | cons c above =>
      rw [List.forall_mem_cons] at habove
      obtain ⟨new, hnew⟩ :=
        confined_resume setting (above ++ k) hcurrent habove.1 h.control
      exact ⟨_, hnew.trans habove.2⟩

/-- The moments of a call: it has not begun, it goes on inside the region, or it is over. -/
theorem Extent.confined {closure : Closure} {arguments : List Value} {line : Nat}
    (hcall : (Control.call closure arguments line).Within region) (hσ : σ.scopes.Closed region)
    (h : Extent setting ⟨.call closure arguments line, k, σ⟩ now) :
    σ.Apart region now.store ∧
      ((now.control = .call closure arguments line ∧ now.stack = k ∧
          now.store.scopes.current = σ.scopes.current) ∨
        now.HasEnded k ∨
        ∃ above, now.Confined region above (.endCall σ.scopes.current closure line :: k)) := by
  induction h with
  | start => exact ⟨⟨hσ, fun _ _ => rfl⟩, .inl ⟨rfl, rfl, rfl⟩⟩
  | @step now before unfinished ih =>
    obtain ⟨hapart, hbegun | hended | ⟨above, hconfined⟩⟩ := ih
    · rcases hbegun with ⟨hcontrol, hstack, hcurrent⟩
      have hacts : now.Acts region setting := .call hcontrol (hcontrol ▸ hcall) hapart.closed
      obtain ⟨hclosed, hothers⟩ := hacts.step hapart.closed
      refine ⟨⟨hclosed, fun f hf => (hothers f hf).trans (hapart.apart f hf)⟩, .inr ?_⟩
      obtain ⟨control, stack, τ⟩ := now
      obtain rfl := hcontrol
      obtain rfl := hstack
      change (call setting stack τ closure arguments line).HasEnded stack ∨ _
      by_cases hdepth : setting.maxCallDepth ≤ τ.depth
      · rw [call_of_le hdepth]
        exact .inl ⟨_, rfl, rfl⟩
      · right
        refine ⟨[], ?_⟩
        change (call setting stack τ closure arguments line).Confined region [] _
        rw [call_of_lt hdepth]
        have hnew : region τ.scopes.frames.size := hapart.closed.new _ (Nat.le_refl _)
        refine ⟨?_, Closure.begin_within (Store.bind_within ..), by simp, ?_⟩
        · simp [← hcurrent]
        · rw [Store.current_bind]
          exact hnew
    · exact absurd hended unfinished
    · have hacts : now.Acts region setting := hconfined.acts hapart.closed
      obtain ⟨hclosed, hothers⟩ := hacts.step hapart.closed
      refine ⟨⟨hclosed, fun f hf => (hothers f hf).trans (hapart.apart f hf)⟩, .inr ?_⟩
      by_cases hlast : now.HasEnded (.endCall σ.scopes.current closure line :: k)
      · obtain ⟨control, stack, τ⟩ := now
        obtain ⟨outcome, hcontrol, hstack⟩ := hlast
        obtain rfl := hcontrol
        obtain rfl := hstack
        exact .inl ⟨_, rfl, rfl⟩
      · exact .inr (hconfined.step hapart.closed hlast)
  | sink before sink ih =>
    obtain ⟨hapart, hphase⟩ := ih
    refine ⟨⟨hapart.closed, hapart.apart⟩, hphase.imp id (Or.imp id ?_)⟩
    rintro ⟨above, hconfined⟩
    exact ⟨above, hconfined.stack, hconfined.control, hconfined.above, hconfined.current⟩

/-- A call touches only what it can reach. In any setting and any state, a frame that was there before the
call, and that is reached neither from the frame that the closure has captured nor from the arguments, is
the same at every moment of the call, and so after the call as well, whatever its outcome. -/
theorem call_confined (setting : Setting) (closure : Closure) (arguments : List Value) (line : Nat)
    (k : List Continuation) (σ : Store) (now : Machine)
    (hcall : Extent setting ⟨.call closure arguments line, k, σ⟩ now) :
    ∀ f < σ.scopes.frames.size, ¬ σ.scopes.Reach (closure.Captures arguments) f →
      now.store.scopes.frames[f]? = σ.scopes.frames[f]? := by
  intro f hf hreach
  have hwithin : (Control.call closure arguments line).Within (σ.CallRegion closure arguments) := by
    refine ⟨.inl (.root (.inl rfl)), fun v hv => ?_⟩
    cases v with
    | function d => exact .inl (.root (.inr ⟨d, hv, rfl⟩))
    | _ => trivial
  obtain ⟨hapart, -⟩ := hcall.confined hwithin (σ.callRegion_closed closure arguments)
  exact hapart.apart f (not_or.2 ⟨hreach, Nat.not_le_of_lt hf⟩)

end Machine

/-- A function that assigns to a global variable is called in a block with a variable of its own. -/
def Program.blockCallSample : Program where
  declarations :=
    [.binding 1 ⟨"x", 0⟩ .boolean (.literal (.boolean true)),
      .function 2 ⟨⟨"f", 1⟩, [], .void⟩
        [.statement (.expression 2 (.assign ⟨"x", 2⟩ (.literal (.boolean false))))],
      .statement (.block 3
        [.binding 3 ⟨"y", 3⟩ .boolean (.literal (.boolean true)),
          .statement (.expression 3 (.call (.name ⟨"f", 4⟩) []))])]
  identifierCount := 5

def Resolutions.blockCallSample : Resolutions :=
  ⟨#[some ⟨0, 1⟩, some ⟨0, 0⟩, some ⟨1, 1⟩, some ⟨0, 0⟩, some ⟨1, 0⟩]⟩

def Closure.blockCallSample : Closure where
  header := ⟨⟨"f", 1⟩, [], .void⟩
  body := [.statement (.expression 2 (.assign ⟨"x", 2⟩ (.literal (.boolean false))))]
  frame := 0

def Machine.blockCallSample (steps : Nat) : Machine :=
  .run ⟨.blockCallSample, 10⟩ steps (Program.blockCallSample.launch (.start .unlimited))

/-- The frame of the block is current when the function is called, but the call does not reach it. -/
theorem Machine.not_reach_blockCallSample :
    ¬ (Machine.blockCallSample 16).store.scopes.Reach (Closure.blockCallSample.Captures []) 1 := by
  have hglobal : ∀ f, (Machine.blockCallSample 16).store.scopes.Reach
      (Closure.blockCallSample.Captures []) f → f = 0 := by
    intro f hf
    induction hf with
    | root here =>
      rcases here with rfl | ⟨d, hd, -⟩
      · rfl
      · cases hd
    | outer inside parent ih =>
      subst ih
      cases parent
    | @captured f i c holder held ih =>
      subst ih
      match i with
      | 0 =>
        cases held
        rfl
      | 1 => cases held
      | i + 2 => cases held
  exact fun h => Nat.one_ne_zero (hglobal 1 h)

/-- The call in the sample changes the global variable, and leaves the frame of the block alone. -/
theorem Machine.call_confined_blockCallSample :
    ∃ now, (Machine.blockCallSample 16).control = .call .blockCallSample [] 3 ∧
      Machine.Extent ⟨.blockCallSample, 10⟩
        ⟨.call .blockCallSample [] 3, [], (Machine.blockCallSample 16).store⟩ now ∧
      now.outcome?.isSome ∧
      ((Machine.blockCallSample 16).store.scopes.slot? 0 1 = some (.boolean true) ∧
        now.store.scopes.slot? 0 1 = some (.boolean false)) ∧
      ¬ (Machine.blockCallSample 16).store.scopes.Reach (Closure.blockCallSample.Captures []) 1 ∧
      now.store.scopes.frames[1]? = (Machine.blockCallSample 16).store.scopes.frames[1]? := by
  have hstart : Machine.Extent ⟨.blockCallSample, 10⟩
      ⟨.call .blockCallSample [] 3, [], (Machine.blockCallSample 16).store⟩ _ := .start
  have hcall := hstart.run rfl 10
  have hreach := Machine.not_reach_blockCallSample
  have hframe := call_confined _ _ _ _ _ _ _ hcall 1 (by decide) hreach
  exact ⟨_, rfl, hcall, rfl, ⟨rfl, rfl⟩, hreach, hframe⟩

end LexScript
