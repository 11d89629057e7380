import LexScript.Proofs.Machine.Addresses
import LexScript.Proofs.Machine.Balance
import LexScript.Proofs.Machine.DepthLimit

/-!
# Programs without loops come to an end

A run goes on through closures, so the size of the code does not bound it. But every call takes one of the calls
that may be in progress. So the code of a call comes to an end if the calls in it do, of which fewer may be in
progress: `Program.loop_free_ends`.
-/

namespace LexScript

mutual

/-- No loop stands in the statement, nor in a function that it declares. -/
def Stmt.LoopFree : Stmt → Prop
  | .whileLoop .. | .forLoop .. => False
  | .block _ body => Decl.AllLoopFree body
  | .ifThen _ _ thenBranch => thenBranch.LoopFree
  | .ifElse _ _ thenBranch elseBranch => thenBranch.LoopFree ∧ elseBranch.LoopFree
  | .expression .. | .print .. | .ret .. => True

def Decl.LoopFree : Decl → Prop
  | .function _ _ body => Decl.AllLoopFree body
  | .statement s => s.LoopFree
  | .binding .. | .forward .. => True

def Decl.AllLoopFree : List Decl → Prop
  | [] => True
  | d :: ds => d.LoopFree ∧ Decl.AllLoopFree ds

end

/-- Whatever function the value is, no loop stands in its body. -/
def Value.LoopFree : Value → Prop
  | .function c => Decl.AllLoopFree c.body
  | _ => True

def Outcome.LoopFree : Outcome → Prop
  | .value v | .returned v => v.LoopFree
  | _ => True

/-- No function with a loop is stored, and so many calls are in progress. -/
structure Store.LoopFree (depth : Nat) (σ : Store) : Prop where
  values : ∀ f i v, σ.scopes.slot? f i = some v → v.LoopFree
  depth_eq : σ.depth = depth

/-- After some steps the machine has ended what it does before it comes to the continuations `k`. Then so many
calls are in progress. -/
inductive Machine.Finishes (setting : Setting) (k : List Continuation) (depth : Nat) : Machine → Prop
  | ended {outcome : Outcome} {σ : Store} (outcomes : outcome.LoopFree) (store : σ.LoopFree depth) :
    Finishes setting k depth ⟨.ended outcome, k, σ⟩
  | step {m : Machine} (rest : Finishes setting k depth (m.step setting)) : Finishes setting k depth m

/-- All calls that are made while so many are in progress come to an end. -/
def CallsFinish (setting : Setting) (depth : Nat) : Prop :=
  ∀ (k : List Continuation) (σ : Store) (closure : Closure) (arguments : List Value) (line : Nat),
    Decl.AllLoopFree closure.body → (∀ v ∈ arguments, v.LoopFree) → σ.LoopFree depth →
      Machine.Finishes setting k depth ⟨.call closure arguments line, k, σ⟩

variable {setting : Setting} {depth : Nat} {k : List Continuation} {σ : Store}

/-! ## Functions without loops stay such -/

theorem Decl.AllLoopFree.of_mem {ds : List Decl} (h : AllLoopFree ds) {d : Decl} (hd : d ∈ ds) : d.LoopFree := by
  induction ds with
  | nil => cases hd
  | cons e ds ih =>
    rcases List.mem_cons.1 hd with rfl | hd
    · exact h.1
    · exact ih h.2 hd

theorem Literal.toValue_loopFree (literal : Literal) : literal.toValue.LoopFree := by
  cases literal <;> trivial

/-- Operations do not give functions. -/
theorem Value.Scoped.loopFree {v : Value} (h : v.Scoped []) : v.LoopFree := by
  cases v with
  | function c => exact absurd h c.not_scoped_nil
  | _ => trivial

theorem Outcome.ofResult_loopFree {r : Except Cause Value} (h : ∀ v, r = .ok v → v.Scoped []) (line : Nat) :
    (Outcome.ofResult line r).LoopFree := by
  cases r with
  | ok v => exact (h v rfl).loopFree
  | error cause => trivial

theorem Closure.answer_loopFree (c : Closure) {outcome : Outcome} (h : outcome.LoopFree) (line : Nat) :
    (c.answer line outcome).LoopFree := by
  cases outcome with
  | normal =>
    rw [Closure.answer]
    split <;> trivial
  | _ => exact h

namespace Binding

theorem loopFree_ofFunctions (frame : FrameId) {ds : List Decl} (hds : Decl.AllLoopFree ds) :
    ∀ b ∈ ofFunctions frame ds, b.value.LoopFree := by
  intro b hb
  obtain ⟨d, hd, heq⟩ := List.mem_filterMap.1 hb
  have hfree := hds.of_mem hd
  cases d with
  | function line header body =>
    obtain rfl := Option.some.inj heq
    exact hfree
  | _ => cases heq

theorem loopFree_ofArguments (parameters : List Parameter) {arguments : List Value}
    (harguments : ∀ v ∈ arguments, v.LoopFree) (line : Nat) :
    ∀ b ∈ ofArguments parameters arguments line, b.value.LoopFree := by
  intro b hb
  obtain ⟨p, hpair, -⟩ := mem_zip_of_mem_ofArguments hb
  exact harguments _ (List.of_mem_zip hpair).2

end Binding

namespace Store.LoopFree

theorem read (h : σ.LoopFree depth) (addresses : Resolutions) (identifier : Identifier) (line : Nat) :
    (σ.read addresses identifier line).LoopFree := by
  rw [Store.read]
  cases addresses.find identifier line with
  | error e => trivial
  | ok a =>
    cases hget : σ.scopes.get? a with
    | none => simp only [hget]; trivial
    | some v =>
      simp only [hget]
      obtain ⟨f, -, hslot⟩ := Option.bind_eq_some_iff.1 hget
      exact h.values f _ v hslot

theorem write (h : σ.LoopFree depth) {v : Value} (hv : v.LoopFree) (f : FrameId) (i : Nat) :
    LoopFree depth { σ with scopes := σ.scopes.write f i v } where
  values g j w hw := by
    rcases ScopeStack.slot?_write_cases hw with rfl | hbefore
    · exact hv
    · exact h.values g j w hbefore
  depth_eq := h.depth_eq

theorem bind (h : σ.LoopFree depth) (addresses : Resolutions) {bs : List Binding}
    (hbs : ∀ b ∈ bs, b.value.LoopFree) :
    (σ.bind addresses bs).1.LoopFree ∧ (σ.bind addresses bs).2.LoopFree depth := by
  induction bs generalizing σ with
  | nil => exact ⟨trivial, h⟩
  | cons b bs ih =>
    rw [List.forall_mem_cons] at hbs
    rw [Store.bind]
    cases addresses.find b.identifier b.line with
    | error e => exact ⟨trivial, h⟩
    | ok a => exact ih (h.write hbs.1 _ _) hbs.2

theorem assign (h : σ.LoopFree depth) {v : Value} (hv : v.LoopFree) (addresses : Resolutions)
    (target : Identifier) (line : Nat) : (σ.assign addresses target v line).1.LoopFree ∧
      (σ.assign addresses target v line).2.LoopFree depth := by
  rw [Store.assign_eq]
  cases addresses.find target line with
  | error e => exact ⟨trivial, h⟩
  | ok a =>
    simp only
    cases σ.scopes.locate? a with
    | none => exact ⟨trivial, h⟩
    | some f => exact ⟨hv, h.write hv f _⟩

theorem print (h : σ.LoopFree depth) (v : Value) (line : Nat) :
    (σ.print v line).1.LoopFree ∧ (σ.print v line).2.LoopFree depth := by
  refine ⟨?_, h.values, h.depth_eq⟩
  change Outcome.LoopFree (if _ then _ else _)
  split <;> trivial

theorem restore (h : σ.LoopFree depth) (frame : FrameId) : (σ.restore frame).LoopFree depth :=
  ⟨h.values, h.depth_eq⟩

theorem enterAt (h : σ.LoopFree depth) (frame : FrameId) : (σ.enterAt frame).LoopFree depth where
  values f i v hv := by
    change (σ.scopes.enterAt frame).slot? f i = some v at hv
    rw [ScopeStack.slot?_enterAt] at hv
    exact h.values f i v hv
  depth_eq := h.depth_eq

theorem enterCall (h : σ.LoopFree depth) (frame : FrameId) : (σ.enterCall frame).LoopFree (depth + 1) where
  values := (h.enterAt frame).values
  depth_eq := congrArg (· + 1) h.depth_eq

theorem leaveCall (h : σ.LoopFree (depth + 1)) (frame : FrameId) : (σ.leaveCall frame).LoopFree depth where
  values := h.values
  depth_eq := congrArg (· - 1) h.depth_eq

end Store.LoopFree

/-! ## Code without loops comes to an end -/

def Continuation.AwaitsValue : Continuation → Prop
  | .step _ | .again _ | .sequence _ | .leave _ | .endCall .. => False
  | _ => True

theorem Continuation.AwaitsValue.of_accepts {c : Continuation} (h : c.AwaitsValue) {outcome : Outcome}
    (haccepts : c.Accepts outcome) : ∃ v, outcome = .value v := by
  cases haccepts with
  | step | again | sequence | leave | endCall => exact h.elim
  | _ => exact ⟨_, rfl⟩

namespace Machine.Finishes

variable {m : Machine}

/-- What comes before a continuation ends, and then what the continuation does. -/
theorem andThen {c : Continuation} {inside : Nat} (h : Finishes setting (c :: k) inside m)
    (hc : ∀ outcome τ, outcome.LoopFree → τ.LoopFree inside →
      Finishes setting k depth (resume setting k τ c outcome)) : Finishes setting k depth m := by
  induction h with
  | ended outcomes store => exact .step (hc _ _ outcomes store)
  | step rest ih => exact .step ih

/-- An outcome that a continuation does not accept ends what is there to end. -/
theorem of_passes {c : Continuation} {outcome : Outcome} (hpasses : c.Passes outcome) (houtcome : outcome.LoopFree)
    (hσ : σ.LoopFree depth) : Finishes setting k depth (resume setting k σ c outcome) := by
  rw [hpasses.resume]
  exact .ended houtcome hσ

theorem andThenValue {c : Continuation} (h : Finishes setting (c :: k) depth m)
    (hawaits : c.AwaitsValue)
    (hc : ∀ v τ, v.LoopFree → τ.LoopFree depth → Finishes setting k depth (resume setting k τ c (.value v))) :
    Finishes setting k depth m := by
  refine h.andThen fun outcome τ houtcome hτ => ?_
  rcases c.accepts_or_passes outcome with hact | hpasses
  · obtain ⟨v, rfl⟩ := hawaits.of_accepts hact
    exact hc v τ houtcome hτ
  · exact of_passes hpasses houtcome hτ

/-- What finishes does so after a number of steps. -/
theorem exists_run (h : Finishes setting k depth m) :
    ∃ steps outcome τ, m.run setting steps = ⟨.ended outcome, k, τ⟩ := by
  induction h with
  | ended outcomes store => exact ⟨0, _, _, rfl⟩
  | @step m rest ih =>
    obtain ⟨steps, outcome, τ, hrun⟩ := ih
    refine ⟨steps + 1, outcome, τ, ?_⟩
    rw [← run_step]
    exact hrun

end Machine.Finishes

mutual

/-- Expressions have no loops of their own. -/
theorem Expr.finishes (hcalls : CallsFinish setting depth) (line : Nat) :
    ∀ (e : Expr) (k : List Continuation) (σ : Store), σ.LoopFree depth →
      Machine.Finishes setting k depth ⟨.eval line e, k, σ⟩
  | .literal value, k, σ, hσ => .step (.ended value.toValue_loopFree hσ)
  | .name identifier, k, σ, hσ => .step (.ended (hσ.read _ _ _) hσ)
  | .assign target value, k, σ, hσ => by
    refine .step ((Expr.finishes hcalls line value _ σ hσ).andThenValue trivial ?_)
    intro v τ hv hτ
    obtain ⟨houtcome, hstore⟩ := hτ.assign hv setting.addresses target line
    exact .ended houtcome hstore
  | .unary operator operand, k, σ, hσ => by
    refine .step ((Expr.finishes hcalls line operand _ σ hσ).andThenValue trivial ?_)
    intro v τ hv hτ
    exact .ended (Outcome.ofResult_loopFree (fun v hv => UnaryOperator.apply_scoped hv) line) hτ
  | .binary operator left right, k, σ, hσ => by
    refine .step ((Expr.finishes hcalls line left _ σ hσ).andThenValue trivial ?_)
    intro v τ hv hτ
    refine (Expr.finishes hcalls line right _ τ hτ).andThenValue trivial ?_
    intro w ρ hw hρ
    exact .ended (Outcome.ofResult_loopFree (fun v hv => BinaryOperator.apply_scoped hv) line) hρ
  | .call callee arguments, k, σ, hσ => by
    refine .step ((Expr.finishes hcalls line callee _ σ hσ).andThenValue trivial ?_)
    intro v τ hv hτ
    cases v with
    | function closure => exact Expr.allFinish hcalls line arguments k τ closure [] hv (by simp) hτ
    | _ => exact .ended trivial hτ

/-- So the call is made that the arguments are for, if none of them fails. -/
theorem Expr.allFinish (hcalls : CallsFinish setting depth) (line : Nat) :
    ∀ (es : List Expr) (k : List Continuation) (σ : Store) (closure : Closure) (values : List Value),
      Decl.AllLoopFree closure.body → (∀ v ∈ values, v.LoopFree) → σ.LoopFree depth →
      Machine.Finishes setting k depth (.nextArgument k σ closure values line es)
  | [], k, σ, closure, values, hclosure, hvalues, hσ =>
    hcalls k σ closure values.reverse line hclosure (fun v hv => hvalues v (List.mem_reverse.1 hv)) hσ
  | e :: es, k, σ, closure, values, hclosure, hvalues, hσ => by
    refine (Expr.finishes hcalls line e _ σ hσ).andThenValue trivial ?_
    intro v τ hv hτ
    exact Expr.allFinish hcalls line es k τ closure (v :: values) hclosure (List.forall_mem_cons.2 ⟨hv, hvalues⟩) hτ

end

mutual

theorem Stmt.finishes (hcalls : CallsFinish setting depth) :
    ∀ (s : Stmt) (k : List Continuation) (σ : Store), s.LoopFree → σ.LoopFree depth →
      Machine.Finishes setting k depth ⟨.exec s, k, σ⟩
  | .expression line value, k, σ, _, hσ => by
    refine .step ((Expr.finishes hcalls line value _ σ hσ).andThenValue trivial ?_)
    intro v τ hv hτ
    exact .ended trivial hτ
  | .print line value, k, σ, _, hσ => by
    refine .step ((Expr.finishes hcalls line value _ σ hσ).andThenValue trivial ?_)
    intro v τ hv hτ
    obtain ⟨houtcome, hstore⟩ := hτ.print v line
    exact .ended houtcome hstore
  | .block line body, k, σ, hs, hσ => by
    refine .step ((Decl.scopeFinishes hcalls body _ _ hs (hσ.enterAt _)).andThen ?_)
    intro outcome τ houtcome hτ
    cases outcome <;> exact .ended houtcome (hτ.restore _)
  | .ifThen line condition thenBranch, k, σ, hs, hσ => by
    refine .step ((Expr.finishes hcalls line condition _ σ hσ).andThenValue trivial ?_)
    intro v τ hv hτ
    cases v with
    | boolean b =>
      cases b with
      | true => exact Stmt.finishes hcalls thenBranch k τ hs hτ
      | false => exact .ended trivial hτ
    | _ => exact .ended trivial hτ
  | .ifElse line condition thenBranch elseBranch, k, σ, hs, hσ => by
    refine .step ((Expr.finishes hcalls line condition _ σ hσ).andThenValue trivial ?_)
    intro v τ hv hτ
    cases v with
    | boolean b =>
      cases b with
      | true => exact Stmt.finishes hcalls thenBranch k τ hs.1 hτ
      | false => exact Stmt.finishes hcalls elseBranch k τ hs.2 hτ
    | _ => exact .ended trivial hτ
  | .whileLoop .., _, _, hs, _ => False.elim hs
  | .forLoop .., _, _, hs, _ => False.elim hs
  | .ret _ none, k, σ, _, hσ => .step (.ended trivial hσ)
  | .ret line (some value), k, σ, _, hσ => by
    refine .step ((Expr.finishes hcalls line value _ σ hσ).andThenValue trivial ?_)
    intro v τ hv hτ
    exact .ended hv hτ

theorem Decl.finishes (hcalls : CallsFinish setting depth) :
    ∀ (d : Decl) (k : List Continuation) (σ : Store), d.LoopFree → σ.LoopFree depth →
      Machine.Finishes setting k depth (.declare k σ d)
  | .binding line identifier _ value, k, σ, _, hσ => by
    refine (Expr.finishes hcalls line value _ σ hσ).andThenValue trivial ?_
    intro v τ hv hτ
    have hbound : ∀ b ∈ [(⟨identifier, v, line⟩ : Binding)], b.value.LoopFree := by simpa using hv
    obtain ⟨houtcome, hstore⟩ := hτ.bind setting.addresses hbound
    exact .ended houtcome hstore
  | .function .., k, σ, _, hσ => .ended trivial hσ
  | .forward .., k, σ, _, hσ => .ended trivial hσ
  | .statement s, k, σ, hd, hσ => Stmt.finishes hcalls s k σ hd hσ

/-- The declarations after one that has ended. -/
theorem Decl.allFinish (hcalls : CallsFinish setting depth) :
    ∀ (ds : List Decl) (k : List Continuation) (σ : Store) (outcome : Outcome), Decl.AllLoopFree ds →
      outcome.LoopFree → σ.LoopFree depth →
        Machine.Finishes setting k depth (.resume setting k σ (.sequence ds) outcome)
  | [], k, σ, outcome, _, houtcome, hσ => by cases outcome <;> exact .ended houtcome hσ
  | d :: ds, k, σ, outcome, hds, houtcome, hσ => by
    cases outcome with
    | normal =>
      refine (Decl.finishes hcalls d (.sequence ds :: k) σ hds.1 hσ).andThen ?_
      intro outcome τ houtcome hτ
      exact Decl.allFinish hcalls ds k τ outcome hds.2 houtcome hτ
    | _ => exact .ended houtcome hσ

theorem Decl.scopeFinishes (hcalls : CallsFinish setting depth) :
    ∀ (ds : List Decl) (k : List Continuation) (σ : Store), Decl.AllLoopFree ds → σ.LoopFree depth →
      Machine.Finishes setting k depth ⟨.enter ds, k, σ⟩
  | ds, k, σ, hds, hσ => by
    obtain ⟨houtcome, hbound⟩ :=
      hσ.bind setting.addresses (Binding.loopFree_ofFunctions σ.scopes.current hds)
    exact .step (.step (Decl.allFinish hcalls ds k _ _ hds houtcome hbound))

end

/-- Nor is a body run if a parameter has no address. -/
theorem Closure.beginFinishes (hcalls : CallsFinish setting depth) (c : Closure) (hbody : Decl.AllLoopFree c.body)
    {outcome : Outcome} (houtcome : outcome.LoopFree) (hσ : σ.LoopFree depth) :
    Machine.Finishes setting k depth ⟨c.begin outcome, k, σ⟩ := by
  cases outcome with
  | normal => exact Decl.scopeFinishes hcalls c.body k σ hbody hσ
  | _ => exact .ended houtcome hσ

/-- Every call comes to an end. Of those that it makes in turn, one fewer may be in progress. -/
theorem callsFinish (setting : Setting) (depth : Nat) : CallsFinish setting depth := by
  induction hroom : setting.maxCallDepth - depth generalizing depth with
  | zero =>
    intro k σ closure arguments line hclosure harguments hσ
    have hdepth : setting.maxCallDepth ≤ σ.depth := by
      rw [hσ.depth_eq]
      exact Nat.sub_eq_zero_iff_le.1 hroom
    refine .step ?_
    simp only [Machine.step, Machine.call_of_le hdepth]
    exact .ended trivial hσ
  | succ room ih =>
    have hinside : CallsFinish setting (depth + 1) := ih (depth + 1) (by omega)
    intro k σ closure arguments line hclosure harguments hσ
    have hdepth : ¬ setting.maxCallDepth ≤ σ.depth := by
      simp [hσ.depth_eq]
      omega
    obtain ⟨houtcome, hbound⟩ := (hσ.enterCall closure.frame).bind setting.addresses
      (Binding.loopFree_ofArguments closure.header.parameters harguments line)
    refine .step ?_
    rw [Machine.step, Machine.call_of_lt hdepth]
    refine (closure.beginFinishes hinside hclosure houtcome hbound).andThen ?_
    intro outcome τ houtcome hτ
    cases outcome <;> exact .ended (closure.answer_loopFree houtcome line) (hτ.leaveCall _)

/-- A program without loops comes to an end, whatever it calls and however its functions call each other, under
every limit on the depth of calls, and with any addresses of its names. -/
theorem Program.loop_free_ends (program : Program) (hfree : Decl.AllLoopFree program.declarations)
    (addresses : Resolutions) (limit : Nat) (sink : Sink) :
    ∃ steps, ((program.launch (.start sink)).run ⟨addresses, limit⟩ steps).outcome?.isSome := by
  have hstart : (Store.start sink).LoopFree 0 := ⟨fun f i v hv => by simp [Store.start] at hv, rfl⟩
  have hfinishes := Decl.scopeFinishes (callsFinish ⟨addresses, limit⟩ 0) program.declarations [] _ hfree hstart
  obtain ⟨steps, outcome, τ, hrun⟩ := hfinishes.exists_run
  exact ⟨steps, by rw [launch, hrun]; rfl⟩

/-- A function is called with itself, and calls what it is called with in the same way. It passes no check. -/
def Program.selfCallSample : Program where
  declarations :=
    [.function 1 ⟨⟨"f", 0⟩, [⟨⟨"g", 1⟩, .number⟩], .void⟩
        [.statement (.expression 1 (.call (.name ⟨"g", 2⟩) [.name ⟨"g", 3⟩]))],
      .statement (.expression 2 (.call (.name ⟨"f", 4⟩) [.name ⟨"f", 5⟩]))]
  identifierCount := 6

def Resolutions.selfCallSample : Resolutions := ⟨Array.replicate 6 (some ⟨0, 0⟩)⟩

/-- Only the limit ends the calls. -/
theorem Program.loop_free_ends_selfCallSample :
    Decl.AllLoopFree selfCallSample.declarations ∧
    Resolutions.ofProgram selfCallSample = .ok .selfCallSample ∧
    (∃ steps, ((selfCallSample.launch (.start .unlimited)).run ⟨.selfCallSample, 3⟩ steps).outcome?.isSome) ∧
    ((selfCallSample.launch (.start .unlimited)).run ⟨.selfCallSample, 3⟩ 60).error? =
      some ⟨.recursionLimitExceeded 3, 1⟩ := by
  have hfree : Decl.AllLoopFree selfCallSample.declarations := ⟨⟨trivial, trivial⟩, trivial, trivial⟩
  exact ⟨hfree, rfl, selfCallSample.loop_free_ends hfree .selfCallSample 3 .unlimited, rfl⟩

end LexScript
