import LexScript.Proofs.Machine.DepthLimit

/-!
# Frames under other names

The identities of frames matter to a run only as far as they tell frames apart. If what a store holds is
found in another store under other identities, where more may be found besides, then a run from the one
is followed step by step by a run from the other, unless the first one fails: `Machine.Follows.run`.
-/

namespace LexScript

section

variable (φ : FrameId → FrameId)

def Closure.rename (c : Closure) : Closure := { c with frame := φ c.frame }

def Value.rename : Value → Value
  | .function c => .function (c.rename φ)
  | v => v

def Binding.rename (b : Binding) : Binding := { b with value := b.value.rename φ }

def Outcome.rename : Outcome → Outcome
  | .value v => .value (v.rename φ)
  | .returned v => .returned (v.rename φ)
  | outcome => outcome

def Continuation.rename : Continuation → Continuation
  | .binary operator left line => .binary operator (left.rename φ) line
  | .argument closure values rest line =>
    .argument (closure.rename φ) (values.map (·.rename φ)) rest line
  | .leave f => .leave (φ f)
  | .endCall f closure line => .endCall (φ f) (closure.rename φ) line
  | c => c

def Control.rename : Control → Control
  | .call closure arguments line => .call (closure.rename φ) (arguments.map (·.rename φ)) line
  | .ended outcome => .ended (outcome.rename φ)
  | control => control

/-- What the first frames hold is found in the second ones under other identities. -/
structure ScopeStack.Renames (s t : ScopeStack Value) : Prop where
  current : t.current = φ s.current
  parents : ∀ f g, s.parent? f = some g → t.parent? (φ f) = some (φ g)
  slots : ∀ f i v, s.slot? f i = some v → t.slot? (φ f) i = some (v.rename φ)
  old : ∀ f < s.frames.size, φ f < t.frames.size
  new : ∀ n, φ (s.frames.size + n) = t.frames.size + n

/-- The second store has the frames of the first and as many calls in progress, and its output goes on
from what was printed before with what the first one has printed. -/
structure Store.Renames (before : Array String) (σ τ : Store) : Prop where
  scopes : σ.scopes.Renames φ τ.scopes
  depth : τ.depth = σ.depth
  room : σ.sink.room = none
  sink : τ.sink = ⟨before ++ σ.sink.lines, none⟩

/-- The second machine does what the first does, in renamed frames, unless the first one has failed. -/
inductive Machine.Follows (before : Array String) : Machine → Machine → Prop
  | renamed {control : Control} {k : List Continuation} {σ τ : Store} (store : σ.Renames φ before τ) :
    Follows before ⟨control, k, σ⟩ ⟨control.rename φ, k.map (·.rename φ), τ⟩
  | failed {e : Error} {k : List Continuation} {σ : Store} {m : Machine} :
    Follows before ⟨.ended (.failed e), k, σ⟩ m

end

variable {φ : FrameId → FrameId} {before : Array String} {setting : Setting} {k : List Continuation}
  {σ τ : Store}

/-! ## Values -/

namespace Value

theorem text_rename (v : Value) : (v.rename φ).text = v.text := by
  cases v <;> rfl

/-- Functions are compared by their frames, which the renaming keeps apart. -/
theorem same_rename (hφ : φ.Injective) (v w : Value) : (v.rename φ).same (w.rename φ) = v.same w := by
  cases v with
  | function c =>
    cases w with
    | function d =>
      change (decide _ && decide (φ c.frame = φ d.frame)) = (decide _ && decide (c.frame = d.frame))
      rw [decide_eq_decide.2 hφ.eq_iff]
      rfl
    | _ => rfl
  | _ => cases w <;> rfl

/-- Operations give no functions. -/
theorem Scoped.rename_eq {v : Value} (h : v.Scoped []) : v.rename φ = v := by
  cases v with
  | function c => exact absurd h c.not_scoped_nil
  | _ => rfl

end Value

theorem BinaryOperator.apply_rename (hφ : φ.Injective) (operator : BinaryOperator) (l r : Value) :
    operator.apply (l.rename φ) (r.rename φ) = operator.apply l r := by
  have hsame := Value.same_rename hφ l r
  cases operator with
  | equal | notEqual => simp [apply, hsame]
  | _ => cases l <;> cases r <;> rfl

theorem UnaryOperator.apply_rename (operator : UnaryOperator) (v : Value) :
    operator.apply (v.rename φ) = operator.apply v := by
  cases v <;> cases operator <;> rfl

theorem Literal.toValue_rename (literal : Literal) : literal.toValue = literal.toValue.rename φ := by
  cases literal <;> rfl

theorem Outcome.ofResult_rename {r : Except Cause Value} (h : ∀ v, r = .ok v → v.Scoped [])
    (line : Nat) : .ofResult line r = (Outcome.ofResult line r).rename φ := by
  cases r with
  | ok v => exact congrArg Outcome.value (h v rfl).rename_eq.symm
  | error cause => rfl

theorem Closure.answer_rename (c : Closure) (line : Nat) (outcome : Outcome) :
    (c.rename φ).answer line (outcome.rename φ) = (c.answer line outcome).rename φ := by
  cases outcome with
  | normal =>
    change (if c.header.returns.isVoid then _ else _) = Outcome.rename φ (if _ then _ else _)
    split <;> rfl
  | _ => rfl

theorem Closure.begin_rename (c : Closure) (outcome : Outcome) :
    (c.rename φ).begin (outcome.rename φ) = (c.begin outcome).rename φ := by
  cases outcome <;> rfl

theorem Binding.ofFunctions_rename (f : FrameId) (declarations : List Decl) :
    Binding.ofFunctions (φ f) declarations = (Binding.ofFunctions f declarations).map (·.rename φ) := by
  induction declarations with
  | nil => rfl
  | cons d ds ih =>
    cases d with
    | function line header body => exact congrArg (List.cons _) ih
    | _ => exact ih

theorem Binding.ofArguments_rename (parameters : List Parameter) (arguments : List Value) (line : Nat) :
    Binding.ofArguments parameters (arguments.map (·.rename φ)) line =
      (Binding.ofArguments parameters arguments line).map (·.rename φ) := by
  simp only [Binding.ofArguments, List.map_zipWith, List.zipWith_map_right]
  rfl

/-- What passes a continuation by also passes it in renamed frames. -/
theorem Continuation.Passes.rename {c : Continuation} {outcome : Outcome} (h : c.Passes outcome) :
    (c.rename φ).Passes (outcome.rename φ) := by
  rcases (c.rename φ).accepts_or_passes (outcome.rename φ) with haccepts | hpasses
  · refine absurd ?_ h.not_accepts
    cases c <;> cases outcome <;> cases haccepts <;> constructor
  · exact hpasses

/-! ## Stores -/

namespace ScopeStack.Renames

variable {s t : ScopeStack Value}

theorem ancestor (h : s.Renames φ t) {distance : Nat} {f g : FrameId}
    (hg : s.ancestor? distance f = some g) : t.ancestor? distance (φ f) = some (φ g) := by
  induction distance generalizing f with
  | zero =>
    obtain rfl := Option.some.inj hg
    rfl
  | succ distance ih =>
    obtain ⟨outer, houter, hrest⟩ := Option.bind_eq_some_iff.1 hg
    exact Option.bind_eq_some_iff.2 ⟨φ outer, h.parents f outer houter, ih hrest⟩

theorem get (h : s.Renames φ t) {a : Address} {v : Value} (hv : s.get? a = some v) :
    t.get? a = some (v.rename φ) := by
  obtain ⟨f, hf, hslot⟩ := Option.bind_eq_some_iff.1 hv
  rw [get?, h.current]
  exact Option.bind_eq_some_iff.2 ⟨φ f, h.ancestor hf, h.slots f _ v hslot⟩

theorem locate (h : s.Renames φ t) {a : Address} {f : FrameId} (hf : s.locate? a = some f) :
    t.locate? a = some (φ f) := by
  obtain ⟨hancestor, hslot⟩ := Option.filter_eq_some_iff.1 hf
  obtain ⟨v, hv⟩ := Option.isSome_iff_exists.1 hslot
  rw [locate?, h.current]
  exact Option.filter_eq_some_iff.2 ⟨h.ancestor hancestor, Option.isSome_of_eq_some (h.slots f _ v hv)⟩

theorem restore (h : s.Renames φ t) (f : FrameId) : (s.restore f).Renames φ (t.restore (φ f)) :=
  ⟨rfl, h.parents, h.slots, h.old, h.new⟩

theorem write (h : s.Renames φ t) (hφ : φ.Injective) (f : FrameId) (i : Nat) (v : Value) :
    (s.write f i v).Renames φ (t.write (φ f) i (v.rename φ)) where
  current := h.current
  parents g e hg := by
    rw [parent?_write] at hg ⊢
    exact h.parents g e hg
  slots g j w hw := by
    by_cases hf : f < s.frames.size
    · rw [slot?_write s hf] at hw
      rw [slot?_write t (h.old f hf)]
      simp only [hφ.eq_iff]
      split
      · rw [if_pos ‹_›] at hw
        obtain rfl := Option.some.inj hw
        rfl
      · rw [if_neg ‹_›] at hw
        exact h.slots g j w hw
    · obtain ⟨n, rfl⟩ := Nat.exists_eq_add_of_le (Nat.le_of_not_lt hf)
      rw [slot?_write_of_le (Nat.le_add_right ..)] at hw
      simpa [h.new, slot?_write_of_le (Nat.le_add_right ..)] using h.slots g j w hw
  old g hg := by
    simp only [ScopeStack.write, Array.size_modify] at hg ⊢
    exact h.old g hg
  new n := by
    simp only [ScopeStack.write, Array.size_modify]
    exact h.new n

theorem enterAt (h : s.Renames φ t) (hφ : φ.Injective) (outer : FrameId) :
    (s.enterAt outer).Renames φ (t.enterAt (φ outer)) := by
  have hfresh : φ s.frames.size = t.frames.size := h.new 0
  have hsize : (s.enterAt outer).frames.size = s.frames.size + 1 := Array.size_push _
  have hsize' : (t.enterAt (φ outer)).frames.size = t.frames.size + 1 := Array.size_push _
  refine ⟨hfresh.symm, fun f g hg => ?_, fun f i v hv => ?_, fun f hf => ?_, fun n => ?_⟩
  · rw [parent?_enterAt] at hg ⊢
    simp only [← hfresh, hφ.eq_iff]
    split
    · rw [if_pos ‹_›] at hg
      obtain rfl := Option.some.inj hg
      rfl
    · rw [if_neg ‹_›] at hg
      exact h.parents f g hg
  · rw [slot?_enterAt] at hv ⊢
    exact h.slots f i v hv
  · rw [hsize] at hf
    rw [hsize']
    rcases Nat.lt_succ_iff_lt_or_eq.1 hf with hlt | rfl
    · exact Nat.lt_succ_of_lt (h.old f hlt)
    · exact hfresh ▸ Nat.lt_succ_self _
  · simp [hsize, hsize', Nat.add_assoc, h.new]

theorem define (h : s.Renames φ t) (hφ : φ.Injective) (i : Nat) (v : Value) :
    (s.define i v).Renames φ (t.define i (v.rename φ)) := by
  simpa [ScopeStack.define, h.current] using h.write hφ s.current i v

end ScopeStack.Renames

namespace Store.Renames

theorem bind (h : σ.Renames φ before τ) (hφ : φ.Injective) (addresses : Resolutions)
    (bs : List Binding) :
    (τ.bind addresses (bs.map (·.rename φ))).1 = (σ.bind addresses bs).1.rename φ ∧
      (σ.bind addresses bs).2.Renames φ before (τ.bind addresses (bs.map (·.rename φ))).2 := by
  induction bs generalizing σ τ with
  | nil => exact ⟨rfl, h⟩
  | cons b bs ih =>
    have hname : addresses.find (b.rename φ).identifier (b.rename φ).line =
        addresses.find b.identifier b.line := rfl
    simp only [List.map_cons, Store.bind, hname]
    cases addresses.find b.identifier b.line with
    | error e => exact ⟨rfl, h⟩
    | ok a => exact ih ⟨h.scopes.define hφ a.slot b.value, h.depth, h.room, h.sink⟩

theorem enterAt (h : σ.Renames φ before τ) (hφ : φ.Injective) (f : FrameId) :
    (σ.enterAt f).Renames φ before (τ.enterAt (φ f)) :=
  ⟨h.scopes.enterAt hφ f, h.depth, h.room, h.sink⟩

theorem enterCall (h : σ.Renames φ before τ) (hφ : φ.Injective) (f : FrameId) :
    (σ.enterCall f).Renames φ before (τ.enterCall (φ f)) :=
  ⟨h.scopes.enterAt hφ f, congrArg (· + 1) h.depth, h.room, h.sink⟩

theorem restore (h : σ.Renames φ before τ) (f : FrameId) :
    (σ.restore f).Renames φ before (τ.restore (φ f)) :=
  ⟨h.scopes.restore f, h.depth, h.room, h.sink⟩

theorem leaveCall (h : σ.Renames φ before τ) (f : FrameId) :
    (σ.leaveCall f).Renames φ before (τ.leaveCall (φ f)) :=
  ⟨h.scopes.restore f, congrArg (· - 1) h.depth, h.room, h.sink⟩

theorem read (h : σ.Renames φ before τ) (addresses : Resolutions) (i : Identifier) (line : Nat) :
    (∃ e, σ.read addresses i line = .failed e) ∨
      τ.read addresses i line = (σ.read addresses i line).rename φ := by
  simp only [Store.read]
  cases addresses.find i line with
  | error e => exact .inl ⟨e, rfl⟩
  | ok a =>
    cases hget : σ.scopes.get? a with
    | none =>
      simp only [hget]
      exact .inl ⟨_, rfl⟩
    | some v => exact .inr (by simp only [hget, h.scopes.get hget, Outcome.rename])

theorem assign (h : σ.Renames φ before τ) (hφ : φ.Injective) (addresses : Resolutions)
    (target : Identifier) (v : Value) (line : Nat) :
    (∃ e, (σ.assign addresses target v line).1 = .failed e) ∨
      (τ.assign addresses target (v.rename φ) line).1 =
          (σ.assign addresses target v line).1.rename φ ∧
        (σ.assign addresses target v line).2.Renames φ before
          (τ.assign addresses target (v.rename φ) line).2 := by
  simp only [Store.assign_eq]
  cases addresses.find target line with
  | error e => exact .inl ⟨e, rfl⟩
  | ok a =>
    cases hlocate : σ.scopes.locate? a with
    | none =>
      simp only [hlocate]
      exact .inl ⟨_, rfl⟩
    | some f =>
      simp only [hlocate, h.scopes.locate hlocate]
      exact .inr ⟨rfl, h.scopes.write hφ f a.slot v, h.depth, h.room, h.sink⟩

/-- Both sinks take the line. -/
theorem print (h : σ.Renames φ before τ) (v : Value) (line : Nat) :
    (τ.print (v.rename φ) line).1 = (σ.print v line).1.rename φ ∧
      (σ.print v line).2.Renames φ before (τ.print (v.rename φ) line).2 := by
  obtain ⟨scopes, depth, lines, room⟩ := σ
  obtain ⟨scopes', depth', sink'⟩ := τ
  obtain ⟨hscopes, hdepth, hroom, hsink⟩ := h
  obtain rfl : room = none := hroom
  obtain rfl : sink' = ⟨before ++ lines, none⟩ := hsink
  refine ⟨rfl, hscopes, hdepth, rfl, ?_⟩
  change (⟨(before ++ lines).push (v.rename φ).text, none⟩ : Sink) = ⟨before ++ lines.push v.text, none⟩
  simp [v.text_rename]

end Store.Renames

/-! ## Steps -/

namespace Machine.Follows

variable {m m' : Machine}

theorem of_eq {control control' : Control} (hcontrol : control' = control.rename φ)
    (h : σ.Renames φ before τ) :
    Follows φ before ⟨control, k, σ⟩ ⟨control', k.map (·.rename φ), τ⟩ := by
  obtain rfl := hcontrol
  exact .renamed h

theorem ended {outcome outcome' : Outcome} (houtcome : outcome' = outcome.rename φ)
    (h : σ.Renames φ before τ) :
    Follows φ before ⟨.ended outcome, k, σ⟩ ⟨.ended outcome', k.map (·.rename φ), τ⟩ :=
  of_eq (congrArg Control.ended houtcome) h

theorem eval (h : σ.Renames φ before τ) (line : Nat) (e : Expr) :
    Follows φ before (Machine.eval setting line k σ e)
      (Machine.eval setting line (k.map (·.rename φ)) τ e) := by
  cases e with
  | literal literal =>
    exact .ended (congrArg Outcome.value literal.toValue_rename) h
  | name i =>
    simp only [Machine.eval]
    rcases h.read setting.addresses i line with ⟨e, hfailed⟩ | houtcome
    · rw [hfailed]
      exact .failed
    · exact .ended houtcome h
  | _ => exact .renamed h

theorem exec (h : σ.Renames φ before τ) (hφ : φ.Injective) (s : Stmt) :
    Follows φ before (Machine.exec k σ s) (Machine.exec (k.map (·.rename φ)) τ s) := by
  cases s with
  | block line body =>
    simp only [Machine.exec, h.scopes.current]
    exact .renamed (h.enterAt hφ _)
  | forLoop line first condition stepLine step body =>
    simp only [Machine.exec, h.scopes.current]
    exact .renamed (h.enterAt hφ _)
  | ret line value => cases value <;> exact .renamed h
  | _ => exact .renamed h

theorem declare (h : σ.Renames φ before τ) (d : Decl) :
    Follows φ before (Machine.declare k σ d) (Machine.declare (k.map (·.rename φ)) τ d) := by
  cases d <;> exact .renamed h

theorem enter (h : σ.Renames φ before τ) (hφ : φ.Injective) (declarations : List Decl) :
    Follows φ before (Machine.enter setting k σ declarations)
      (Machine.enter setting (k.map (·.rename φ)) τ declarations) := by
  obtain ⟨houtcome, hstore⟩ := h.bind hφ setting.addresses
    (Binding.ofFunctions σ.scopes.current declarations)
  simp only [Machine.enter, h.scopes.current, Binding.ofFunctions_rename]
  exact .ended houtcome hstore

theorem call (h : σ.Renames φ before τ) (hφ : φ.Injective) (closure : Closure)
    (arguments : List Value) (line : Nat) :
    Follows φ before (Machine.call setting k σ closure arguments line)
      (Machine.call setting (k.map (·.rename φ)) τ (closure.rename φ)
        (arguments.map (·.rename φ)) line) := by
  by_cases hdepth : setting.maxCallDepth ≤ σ.depth
  · rw [call_of_le hdepth]
    exact .failed
  · have hdepth' : ¬ setting.maxCallDepth ≤ τ.depth := by rwa [h.depth]
    obtain ⟨houtcome, hstore⟩ := (h.enterCall hφ closure.frame).bind hφ setting.addresses
      (Binding.ofArguments closure.header.parameters arguments line)
    simp only [call_of_lt hdepth, call_of_lt hdepth', h.scopes.current, Binding.ofArguments_rename]
    exact .of_eq ((congrArg (closure.rename φ).begin houtcome).trans (closure.begin_rename _)) hstore

theorem nextArgument (h : σ.Renames φ before τ) (closure : Closure) (values : List Value) (line : Nat)
    (rest : List Expr) :
    Follows φ before (Machine.nextArgument k σ closure values line rest)
      (Machine.nextArgument (k.map (·.rename φ)) τ (closure.rename φ) (values.map (·.rename φ)) line
        rest) := by
  cases rest with
  | nil =>
    simp only [Machine.nextArgument, ← List.map_reverse]
    exact .renamed h
  | cons e es => exact .renamed h

theorem resume (h : σ.Renames φ before τ) (hφ : φ.Injective) (c : Continuation) (outcome : Outcome) :
    Follows φ before (Machine.resume setting k σ c outcome)
      (Machine.resume setting (k.map (·.rename φ)) τ (c.rename φ) (outcome.rename φ)) := by
  rcases c.accepts_or_passes outcome with haccepts | hpasses
  · cases haccepts with
    | binary operator left line right =>
      have houtcome := congrArg (Outcome.ofResult line) (operator.apply_rename hφ left right)
      exact .ended (houtcome.trans
        (Outcome.ofResult_rename (fun v hv => BinaryOperator.apply_scoped hv) line)) h
    | unary operator line operand =>
      have houtcome : Outcome.ofResult line (operator.apply (operand.rename φ)) = _ :=
        congrArg (Outcome.ofResult line) (operator.apply_rename operand)
      exact .ended (houtcome.trans
        (Outcome.ofResult_rename (fun v hv => UnaryOperator.apply_scoped hv) line)) h
    | assign target line v =>
      rw [Machine.resume]
      rcases h.assign hφ setting.addresses target v line with ⟨e, hfailed⟩ | ⟨houtcome, hstore⟩
      · dsimp only
        rw [hfailed]
        exact .failed
      · exact .ended houtcome hstore
    | callee arguments line v =>
      cases v with
      | function closure => exact nextArgument h closure [] line arguments
      | _ => exact .failed
    | argument closure values rest line v => exact nextArgument h closure (v :: values) line rest
    | print line v =>
      obtain ⟨houtcome, hstore⟩ := h.print v line
      exact .ended houtcome hstore
    | branch line thenBranch elseBranch v =>
      cases v with
      | boolean b => cases b <;> cases elseBranch <;> exact .renamed h
      | _ => exact .failed
    | test loop v =>
      cases v with
      | boolean b => cases b <;> exact .renamed h
      | _ => exact .failed
    | step loop =>
      obtain ⟨line, condition, step, body⟩ := loop
      cases step <;> exact .renamed h
    | bind identifier line v =>
      obtain ⟨houtcome, hstore⟩ := h.bind hφ setting.addresses [⟨identifier, v, line⟩]
      exact .ended houtcome hstore
    | sequence d ds => exact declare h d
    | leave frame outcome => exact .renamed (h.restore frame)
    | endCall frame closure line outcome =>
      exact .ended (closure.answer_rename line outcome) (h.leaveCall frame)
    | _ => exact .renamed h
  · simp only [hpasses.resume, hpasses.rename.resume]
    exact .renamed h

theorem step (h : m.Follows φ before m') (hφ : φ.Injective) :
    (m.step setting).Follows φ before (m'.step setting) := by
  cases h with
  | renamed store =>
    rename_i control k σ τ
    cases control with
    | eval line e => exact eval store line e
    | exec s => exact exec store hφ s
    | enter declarations => exact enter store hφ declarations
    | call closure arguments line => exact call store hφ closure arguments line
    | ended outcome =>
      cases k with
      | nil => exact .renamed store
      | cons c k => exact resume store hφ c outcome
  | failed =>
    rename_i e k σ
    obtain ⟨τ, hstep, -⟩ := step_failed setting k σ e
    rw [hstep]
    exact .failed

theorem run (h : m.Follows φ before m') (hφ : φ.Injective) (steps : Nat) :
    (m.run setting steps).Follows φ before (m'.run setting steps) := by
  simp only [run_eq_iterate]
  induction steps with
  | zero => exact h
  | succ steps ih =>
    simpa [Function.iterate_succ_apply'] using ih.step hφ

/-- If the first run is over without an error, so is the second, and it has printed the same. -/
theorem succeeded (h : m.Follows φ before m') (hover : m.outcome?.isSome) (hok : m.error? = none) :
    m'.outcome?.isSome ∧ m'.error? = none ∧ m'.store.sink = ⟨before ++ m.store.sink.lines, none⟩ := by
  obtain ⟨outcome, houtcome⟩ := Option.isSome_iff_exists.1 hover
  obtain ⟨hcontrol, hstack⟩ := of_outcome? houtcome
  cases h with
  | renamed store =>
    obtain rfl := hcontrol
    obtain rfl := hstack
    refine ⟨rfl, ?_, store.sink⟩
    cases outcome with
    | failed e => cases hok
    | _ => rfl
  | failed =>
    obtain rfl := hstack
    cases hok

end Machine.Follows
end LexScript
