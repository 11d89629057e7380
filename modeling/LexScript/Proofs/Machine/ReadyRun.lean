import LexScript.Proofs.Machine.Ready

/-!
# Every run keeps variables ready

Each kind of step keeps `Machine.Ready`. A scope is entered before its first declaration, each declaration
that comes to its end has given its variable a value, and a call counts on nothing around its function.
-/

namespace LexScript

variable {setting : Setting} {program : Program} {activations : List Activation}
  {k : List Continuation} {σ : Store} {s : ScopeStack Value}

/-! ## Outcomes -/

theorem Outcome.ofResult_keeps (line : Nat) (r : Except Cause Value) :
    (Outcome.ofResult line r).Keeps .value := by
  cases r with
  | ok v => exact .value v
  | error cause => exact .failed _ _

namespace Store

theorem read_keeps (addresses : Resolutions) (i : Identifier) (line : Nat) (σ : Store) :
    (σ.read addresses i line).Keeps .value := by
  rw [read]
  cases addresses.find i line with
  | error e => exact .failed _ e
  | ok a =>
    simp only
    split
    · exact .value _
    · exact .failed _ _

theorem assign_keeps (addresses : Resolutions) (target : Identifier) (v : Value) (line : Nat)
    (σ : Store) : (σ.assign addresses target v line).1.Keeps .value := by
  rw [assign_eq]
  cases addresses.find target line with
  | error e => exact .failed _ e
  | ok a =>
    simp only
    split
    · exact .value v
    · exact .failed _ _

theorem assign_grows (addresses : Resolutions) (target : Identifier) (v : Value) (line : Nat)
    (σ : Store) : σ.scopes.Grows (σ.assign addresses target v line).2.scopes := by
  rw [assign_eq]
  cases addresses.find target line with
  | error e => exact .refl _
  | ok a =>
    simp only
    split
    · exact .write ..
    · exact .refl _

theorem bind_keeps (addresses : Resolutions) (bs : List Binding) (σ : Store) :
    (σ.bind addresses bs).1.Keeps (.finish []) := by
  induction bs generalizing σ with
  | nil => exact .normal
  | cons b bs ih =>
    rw [Store.bind]
    cases addresses.find b.identifier b.line with
    | error e => exact .failed _ e
    | ok a => exact ih _

theorem bind_grows (addresses : Resolutions) (bs : List Binding) (σ : Store) :
    σ.scopes.Grows (σ.bind addresses bs).2.scopes := by
  rw [scopes_bind]
  exact .foldl_store ..

end Store

/-! ## Places -/

/-- Before its first declaration, a scope has no variables. -/
theorem ScopeStack.declared_start (s : ScopeStack Value) (f : FrameId) (scope : Scope) :
    s.Declared [] f ⟨scope, 0⟩ := by
  intro i hi
  simp [Decl.variables] at hi

theorem ReadyAround.enter {f : FrameId} {scope : Scope} {outer : List Place}
    (hnest : Nest activations f (scope :: outer.map Place.scope))
    (hready : s.Ready [] f (⟨scope, 0⟩ :: outer))
    (hparts : Decl.partsFrom scope 0 outer scope.declarations ⊆ program.parts) :
    ReadyAround activations s [] f (Decl.RestAt program scope.declarations) :=
  ⟨⟨scope, 0⟩ :: outer, hnest, hready, _, outer, rfl, List.drop_zero, hparts⟩

/-- Behind a declaration, its variable is pending. -/
theorem ScopeStack.Ready.next {f : FrameId} {scope : Scope} {position : Nat} {outer : List Place}
    {d : Decl} (h : s.Ready [] f (⟨scope, position⟩ :: outer))
    (hd : scope.declarations[position]? = some d) :
    s.Ready (Decl.variables [d]) f (⟨scope, position + 1⟩ :: outer) := by
  refine h.of_head rfl fun hhere i hi => ?_
  have htake : scope.declarations.take (position + 1) = scope.declarations.take position ++ [d] := by
    simp [List.take_add_one, hd]
  rw [Decl.variables, htake, List.filterMap_append] at hi
  rcases List.mem_append.1 hi with hbefore | hnow
  · exact (hhere i hbefore).imp (fun hnone => absurd hnone List.not_mem_nil) id
  · exact .inl hnow

/-! ## Steps -/

theorem Closure.begin_ready {activations : List Activation} {f : FrameId} (c : Closure)
    {outcome : Outcome} (ho : outcome.Keeps (.finish []))
    (hbody : ReadyAround activations s [] f (Decl.RestAt program c.body)) :
    (c.begin outcome).Ready program activations s f (.finish (Decl.variables c.body)) := by
  cases ho with
  | normal => exact .enter hbody
  | returned _ v => exact .ended (.returned _ v)
  | failed _ e => exact .ended (.failed _ e)

namespace Machine.Ready

theorem eval (hk : Continuation.AllReady program activations σ.scopes σ.scopes.current .value k)
    {line : Nat} {e : Expr}
    (he : ReadyAround activations σ.scopes [] σ.scopes.current (e.At program line)) :
    (Machine.eval setting line k σ e).Ready program activations := by
  cases e with
  | literal literal => exact ⟨_, .ended (.value _), hk⟩
  | name i => exact ⟨_, .ended (Store.read_keeps ..), hk⟩
  | assign target value =>
    refine ⟨_, .eval (he.imp fun places h => ?_), .cons (.assign (he.imp fun places h => ?_)) hk⟩
    · exact fun o ho => h (List.mem_append_left _ ho)
    · exact h (List.mem_append_right _ (List.mem_singleton_self _))
  | unary operator operand => exact ⟨_, .eval he, .cons (.unary operator line) hk⟩
  | binary operator left right =>
    refine ⟨_, .eval (he.imp fun places h => ?_), .cons (.operand (he.imp fun places h => ?_)) hk⟩
    · exact fun o ho => h (List.mem_append_left _ ho)
    · exact fun o ho => h (List.mem_append_right _ ho)
  | call callee arguments =>
    refine ⟨_, .eval (he.imp fun places h => ?_), .cons (.callee (he.imp fun places h => ?_)) hk⟩
    · exact fun o ho => h (List.mem_append_left _ ho)
    · exact fun o ho => h (List.mem_append_right _ ho)

/-- A statement that opens no scope goes on in the same frame. -/
theorem exec_within {st : Stmt} (hnone : st.scope? = none)
    (hk : Continuation.AllReady program activations σ.scopes σ.scopes.current (.finish []) k)
    (hst : ReadyAround activations σ.scopes [] σ.scopes.current (st.At program)) :
    (Machine.exec k σ st).Ready program activations := by
  obtain ⟨places, hnest, hready, hat⟩ := hst
  cases st with
  | block | forLoop => cases hnone
  | expression line value =>
    have hvalue := Stmt.at_expression.1 hat
    exact ⟨_, .eval ⟨places, hnest, hready, .of_part hvalue⟩, .cons .discard hk⟩
  | print line value =>
    have hvalue := Stmt.at_print.1 hat
    exact ⟨_, .eval ⟨places, hnest, hready, .of_part hvalue⟩, .cons (.print line) hk⟩
  | ifThen line condition thenBranch =>
    obtain ⟨hcondition, hthen⟩ := Stmt.at_ifThen.1 hat
    exact ⟨_, .eval ⟨places, hnest, hready, .of_part hcondition⟩,
      .cons (.branch ⟨places, hnest, hready, hthen⟩ (by simp)) hk⟩
  | ifElse line condition thenBranch elseBranch =>
    obtain ⟨hcondition, hthen, helse⟩ := Stmt.at_ifElse.1 hat
    refine ⟨_, .eval ⟨places, hnest, hready, .of_part hcondition⟩,
      .cons (.branch ⟨places, hnest, hready, hthen⟩ ?_) hk⟩
    rintro _ ⟨⟩
    exact ⟨places, hnest, hready, helse⟩
  | whileLoop line condition body =>
    have hloop := Stmt.at_whileLoop.1 hat
    exact ⟨_, .eval ⟨places, hnest, hready, .of_part hloop.condition⟩,
      .cons (.test ⟨places, hnest, hready, hloop⟩) hk⟩
  | ret line value =>
    cases value with
    | none => exact ⟨_, .ended (.returned [] .void), hk⟩
    | some e =>
      have he := Stmt.at_ret.1 hat
      exact ⟨_, .eval ⟨places, hnest, hready, .of_part he⟩, .cons .ret hk⟩

/-- In a scope that is entered, no variable is pending. -/
theorem enterAt_ready (hσ : σ.scopes.Scoped program activations) {places : List Place} (scope : Scope)
    (hnest : Nest activations σ.scopes.current (places.map Place.scope))
    (hready : σ.scopes.Ready [] σ.scopes.current places) :
    Nest (activations ++ [⟨scope, some σ.scopes.current⟩]) σ.scopes.frames.size
        (scope :: places.map Place.scope) ∧
      (σ.enterAt σ.scopes.current).scopes.Ready [] σ.scopes.frames.size (⟨scope, 0⟩ :: places) := by
  have hgrows := ScopeStack.Grows.enterAt σ.scopes σ.scopes.current
  exact ⟨.inner (hσ.activation_new _) (hnest.append _),
    .inner (ScopeStack.declared_start _ _ _) (parent?_enterAt_current σ) (hready.mono hgrows)⟩

theorem exec (hσ : σ.scopes.Scoped program activations)
    (hk : Continuation.AllReady program activations σ.scopes σ.scopes.current (.finish []) k) {st : Stmt}
    (hst : ReadyAround activations σ.scopes [] σ.scopes.current (st.At program)) :
    (Machine.exec k σ st).Ready program (activations ++ begun setting ⟨.exec st, k, σ⟩) := by
  have hgrows := ScopeStack.Grows.enterAt σ.scopes σ.scopes.current
  obtain ⟨places, hnest, hready, hat⟩ := id hst
  cases st with
  | block line body =>
    obtain ⟨-, hbody⟩ := Stmt.at_block.1 hat
    obtain ⟨hinside, hentered⟩ := enterAt_ready hσ (.block body) hnest hready
    exact ⟨_, .enter (.enter hinside hentered hbody), .cons (.leave _ _) (hk.mono _ hgrows)⟩
  | forLoop line first condition stepLine step body =>
    obtain ⟨-, hfirst, hloop⟩ := Stmt.at_forLoop.1 hat
    obtain ⟨hinside, hentered⟩ := enterAt_ready hσ (.loop first) hnest hready
    have hagain : ReadyAround (activations ++ [⟨.loop first, some σ.scopes.current⟩])
        (σ.enterAt σ.scopes.current).scopes (Decl.variables [first]) σ.scopes.frames.size
        (Loop.At program ⟨line, condition, some (stepLine, step), body⟩) :=
      ⟨⟨.loop first, 1⟩ :: places, hinside, hentered.next rfl, hloop⟩
    exact ⟨_, .enter (.enter hinside hentered hfirst),
      .cons (.again hagain) (.cons (.leave _ _) (hk.mono _ hgrows))⟩
  | _ => simpa [Stmt.scope?] using exec_within rfl hk hst

theorem declare {d : Decl} {ds : List Decl}
    (hk : Continuation.AllReady program activations σ.scopes σ.scopes.current
      (.finish (Decl.variables (d :: ds))) k)
    (hds : ReadyAround activations σ.scopes [] σ.scopes.current (Decl.RestAt program (d :: ds))) :
    (Machine.declare (.sequence ds :: k) σ d).Ready program activations := by
  obtain ⟨places, hnest, hready, here, outer, rfl, hrest, hparts⟩ := hds
  obtain ⟨hd, hbehind⟩ := List.append_subset.1 hparts
  have hnext : ReadyAround activations σ.scopes (Decl.variables [d]) σ.scopes.current
      (Decl.RestAt program ds) :=
    ⟨⟨here.scope, here.position + 1⟩ :: outer, hnest, hready.next (Resolution.getElem?_of_drop hrest),
      _, outer, rfl, Resolution.drop_succ hrest, hbehind⟩
  cases d with
  | binding line identifier type value =>
    have hvalue := (List.cons_subset.1 hd).1
    exact ⟨_, .eval ⟨_, hnest, hready, .of_part hvalue⟩,
      .cons (.bind identifier line) (.cons (.sequence hnext) hk)⟩
  | function | forward => exact ⟨_, .ended .normal, .cons (.sequence hnext) hk⟩
  | statement st => exact ⟨_, .exec ⟨_, hnest, hready, hd⟩, .cons (.sequence hnext) hk⟩

theorem enter {declarations : List Decl}
    (hk : Continuation.AllReady program activations σ.scopes σ.scopes.current
      (.finish (Decl.variables declarations)) k)
    (hds : ReadyAround activations σ.scopes [] σ.scopes.current (Decl.RestAt program declarations)) :
    (Machine.enter setting k σ declarations).Ready program activations := by
  have hgrows := Store.bind_grows setting.addresses
    (Binding.ofFunctions σ.scopes.current declarations) σ
  have hcurrent := Store.current_bind setting.addresses
    (Binding.ofFunctions σ.scopes.current declarations) σ
  have hstack : Continuation.AllReady program activations
      (σ.bind setting.addresses (Binding.ofFunctions σ.scopes.current declarations)).2.scopes
      σ.scopes.current (.finish []) (.sequence declarations :: k) :=
    .cons (.sequence (hds.of_grows hgrows)) (hk.of_grows hgrows)
  refine ⟨.finish [], .ended (Store.bind_keeps ..), ?_⟩
  simpa [Machine.enter, hcurrent] using hstack

/-- A call begins in a frame of its own, which counts on none around it. -/
theorem call (hσ : σ.scopes.Scoped program activations) {closure : Closure} {arguments : List Value}
    {line : Nat} (hclosure : closure.Scoped activations)
    (hk : Continuation.AllReady program activations σ.scopes σ.scopes.current .value k) :
    (Machine.call setting k σ closure arguments line).Ready program
      (activations ++ begun setting ⟨.call closure arguments line, k, σ⟩) := by
  by_cases hdepth : setting.maxCallDepth ≤ σ.depth
  · simp only [begun_call_of_le hdepth, call_of_le hdepth, List.append_nil]
    exact ⟨_, .ended (.failed .value _), hk⟩
  rw [begun_call_of_lt hdepth, call_of_lt hdepth]
  obtain ⟨outer, hnest, -, hbody⟩ := hσ.function hclosure
  have hentered := ScopeStack.Grows.enterAt σ.scopes closure.frame
  have hbind := Store.bind_grows setting.addresses
    (Binding.ofArguments closure.header.parameters arguments line) (σ.enterCall closure.frame)
  have hcurrent := Store.current_bind setting.addresses
    (Binding.ofArguments closure.header.parameters arguments line) (σ.enterCall closure.frame)
  generalize hbound : (σ.enterCall closure.frame).bind setting.addresses
    (Binding.ofArguments closure.header.parameters arguments line) = bound at hbind hcurrent ⊢
  have hinside : Nest (activations ++ [closure.activation]) σ.scopes.frames.size
      (.function closure.header closure.body :: outer.map Place.scope) :=
    .inner (hσ.activation_new closure.activation) (hnest.append _)
  have hready : bound.2.scopes.Ready [] σ.scopes.frames.size
      (⟨.function closure.header closure.body, 0⟩ :: outer) :=
    .function (ScopeStack.declared_start _ _ _) trivial
  have hkeeps : bound.1.Keeps (.finish []) := hbound ▸ Store.bind_keeps ..
  refine ⟨.finish (Decl.variables closure.body), ?_, ?_⟩
  · change Control.Ready program _ bound.2.scopes bound.2.scopes.current _ (closure.begin bound.1)
    rw [hcurrent]
    exact closure.begin_ready hkeeps (.enter hinside hready hbody)
  · change Continuation.AllReady program _ bound.2.scopes bound.2.scopes.current _ _
    rw [hcurrent]
    exact .cons (.endCall _ _ closure line) (hk.mono _ (hentered.trans hbind))

theorem nextArgument (hk : Continuation.AllReady program activations σ.scopes σ.scopes.current .value k)
    {closure : Closure} {values : List Value} {line : Nat} {rest : List Expr}
    (hrest : ReadyAround activations σ.scopes [] σ.scopes.current (Expr.AllAt program line rest)) :
    (Machine.nextArgument k σ closure values line rest).Ready program activations := by
  cases rest with
  | nil => exact ⟨_, .call closure _ line, hk⟩
  | cons e es =>
    obtain ⟨places, hnest, hready, hes⟩ := hrest
    obtain ⟨he, hes⟩ := List.append_subset.1 hes
    exact ⟨_, .eval ⟨places, hnest, hready, he⟩, .cons (.argument ⟨places, hnest, hready, hes⟩) hk⟩

/-- A variable that gets its first value is not pending any more. -/
theorem bind (hids : program.DistinctIdentities)
    (haddresses : Resolutions.ofProgram program = .ok setting.addresses) {i : Identifier} {line : Nat}
    {v : Value} (hσ : σ.scopes.Scoped program activations) {a : Activation}
    (ha : activations[σ.scopes.current]? = some a) (hbinding : .binding i a.scope ∈ program.parts)
    (hk : Continuation.AllReady program activations σ.scopes σ.scopes.current (.finish [i]) k) :
    Machine.Ready program activations ⟨.ended (σ.bind setting.addresses [⟨i, v, line⟩]).1, k,
      (σ.bind setting.addresses [⟨i, v, line⟩]).2⟩ := by
  have hget := Resolutions.get?_binding hids haddresses hbinding
  have hbound : σ.bind setting.addresses [⟨i, v, line⟩] =
      (.normal, { σ with scopes := σ.scopes.define (a.scope.slot i.name) v }) := by
    simp [Store.bind, Resolutions.find_of_get? hget]
  rw [hbound]
  have hcurrent := hσ.current_lt
  have hgrows := ScopeStack.Grows.write σ.scopes σ.scopes.current (a.scope.slot i.name) v
  have hslot : ∀ j ∈ [i], ((σ.scopes.define (a.scope.slot i.name) v).slot? σ.scopes.current
      (a.scope.slot j.name)).isSome := by
    simp [ScopeStack.define, ScopeStack.slot?_write _ hcurrent]
  exact ⟨.finish [], .ended .normal, (hk.of_grows hgrows).declared ha hslot⟩

/-! ### An outcome for each kind of continuation -/

section

variable {line : Nat} {v : Value}

theorem resume_assign {target : Identifier}
    (hk : Continuation.AllReady program activations σ.scopes σ.scopes.current .value k) :
    (Machine.resume setting k σ (.assign target line) (.value v)).Ready program activations := by
  have hkeeps := Store.assign_keeps setting.addresses target v line σ
  have hstack := hk.of_grows (Store.assign_grows setting.addresses target v line σ)
  rw [← σ.current_assign setting.addresses target v line] at hstack
  exact ⟨.value, .ended hkeeps, hstack⟩

theorem resume_callee {arguments : List Expr}
    (hk : Continuation.AllReady program activations σ.scopes σ.scopes.current .value k)
    (hcode : ReadyAround activations σ.scopes [] σ.scopes.current (Expr.AllAt program line arguments)) :
    (Machine.resume setting k σ (.callee arguments line) (.value v)).Ready program activations := by
  cases v with
  | function closure => exact nextArgument hk hcode
  | _ => exact ⟨_, .ended (.failed .value _), hk⟩

variable (hk : Continuation.AllReady program activations σ.scopes σ.scopes.current (.finish []) k)

include hk

theorem resume_print :
    (Machine.resume setting k σ (.print line) (.value v)).Ready program activations := by
  rw [Machine.resume, Store.print]
  simp only
  split
  · exact ⟨_, .ended .normal, hk⟩
  · exact ⟨_, .ended (.failed (.finish []) _), hk⟩

theorem resume_branch {thenBranch : Stmt} {elseBranch : Option Stmt}
    (hthen : ReadyAround activations σ.scopes [] σ.scopes.current (thenBranch.At program))
    (helse : ∀ st, elseBranch = some st →
      ReadyAround activations σ.scopes [] σ.scopes.current (st.At program)) :
    (Machine.resume setting k σ (.branch line thenBranch elseBranch) (.value v)).Ready program
      activations := by
  cases v with
  | boolean b =>
    cases b with
    | true => exact ⟨_, .exec hthen, hk⟩
    | false =>
      cases elseBranch with
      | none => exact ⟨_, .ended .normal, hk⟩
      | some st => exact ⟨_, .exec (helse st rfl), hk⟩
  | _ => exact ⟨_, .ended (.failed (.finish []) _), hk⟩

variable {loop : Loop} (hloop : ReadyAround activations σ.scopes [] σ.scopes.current (loop.At program))

include hloop

/-- A loop begins with its condition. -/
theorem condition_ready :
    Machine.Ready program activations ⟨.eval loop.line loop.condition, .test loop :: k, σ⟩ := by
  have hcondition : ReadyAround activations σ.scopes [] σ.scopes.current
      (loop.condition.At program loop.line) := hloop.imp fun _ h => .of_part h.condition
  exact ⟨_, .eval hcondition, .cons (.test hloop) hk⟩

theorem resume_test : (Machine.resume setting k σ (.test loop) (.value v)).Ready program activations := by
  cases v with
  | boolean b =>
    cases b with
    | true => exact ⟨_, .exec (hloop.imp fun _ h => h.body), .cons (.step hloop) hk⟩
    | false => exact ⟨_, .ended .normal, hk⟩
  | _ => exact ⟨_, .ended (.failed (.finish []) _), hk⟩

theorem resume_step : (Machine.resume setting k σ (.step loop) .normal).Ready program activations := by
  obtain ⟨line, condition, step, body⟩ := loop
  cases step with
  | none => exact condition_ready hk hloop
  | some step =>
    have hstep : ReadyAround activations σ.scopes [] σ.scopes.current
        ((Stmt.expression step.1 step.2).At program) :=
      hloop.imp fun _ h => Stmt.at_expression.2 (h.step _ _ rfl)
    exact ⟨_, .exec hstep, .cons (.again hloop) hk⟩

end

theorem resume (hids : program.DistinctIdentities)
    (haddresses : Resolutions.ofProgram program = .ok setting.addresses)
    (hσ : σ.scopes.Scoped program activations) {c : Continuation} {outcome : Outcome}
    {promise next : Promise} (hscoped : c.Scoped program activations σ.scopes.current)
    (hc : c.Ready program activations σ.scopes σ.scopes.current promise next)
    (ho : outcome.Keeps promise)
    (hk : Continuation.AllReady program activations σ.scopes (c.after σ.scopes.current) next k) :
    (Machine.resume setting k σ c outcome).Ready program activations := by
  rcases c.accepts_or_passes outcome with haccepts | hpasses
  · cases haccepts with
    | operand operator right line left =>
      cases hc with | operand code =>
      exact ⟨_, .eval code, .cons (.binary operator left line) hk⟩
    | binary | unary =>
      cases hc
      exact ⟨_, .ended (Outcome.ofResult_keeps ..), hk⟩
    | assign =>
      cases hc
      exact resume_assign hk
    | callee =>
      cases hc with | callee code =>
      exact resume_callee hk code
    | argument =>
      cases hc with | argument code =>
      exact nextArgument hk code
    | discard =>
      cases hc
      exact ⟨_, .ended .normal, hk⟩
    | print =>
      cases hc
      exact resume_print hk
    | branch =>
      cases hc with | branch thenCode elseCode =>
      exact resume_branch hk thenCode elseCode
    | test =>
      cases hc with | test code =>
      exact resume_test hk code
    | step =>
      cases hc with | step code =>
      exact resume_step hk code
    | again =>
      cases ho
      cases hc with | again code =>
      exact condition_ready hk code
    | ret v =>
      cases hc
      exact ⟨_, .ended (.returned [] v), hk⟩
    | bind =>
      cases hc
      obtain ⟨a, ha, hbinding⟩ := hscoped
      exact bind hids haddresses hσ ha hbinding hk
    | sequence =>
      cases ho
      cases hc with | sequence code =>
      exact declare hk code
    | leave =>
      cases hc
      exact ⟨_, .ended ho.of_finish, hk.of_grows (.restore ..)⟩
    | endCall frame closure line outcome =>
      cases hc
      exact ⟨_, .ended (closure.answer_keeps ho line), hk.of_grows (.restore ..)⟩
  · rw [hpasses.after] at hk
    rw [hpasses.resume]
    exact ⟨_, .ended (ho.of_passes hc hpasses), hk⟩

theorem step (hids : program.DistinctIdentities)
    (haddresses : Resolutions.ofProgram program = .ok setting.addresses) {m : Machine}
    (hm : m.Scoped program activations) (h : m.Ready program activations) :
    (m.step setting).Ready program (activations ++ m.begun setting) := by
  obtain ⟨control, k, σ⟩ := m
  obtain ⟨promise, hcontrol, hk⟩ := id h
  cases hcontrol with
  | eval code => simpa [Machine.step] using eval hk code
  | exec code => exact exec hm.scopes hk code
  | enter code => simpa [Machine.step] using enter hk code
  | call closure arguments line => exact call hm.scopes hm.control.1 hk
  | ended keeps =>
    cases hk with
    | nil => simpa [Machine.step] using h
    | cons ready rest =>
      simpa [Machine.step] using resume hids haddresses hm.scopes hm.stack.1 ready keeps rest

/-- The start of a run in the global frame. -/
theorem launch (hm : (program.launch σ).Scoped program activations) :
    (program.launch σ).Ready program activations := by
  have hglobal : Nest activations σ.scopes.current [program.scope] := by
    have hcurrent : σ.scopes.current = 0 := hm.stack
    rw [hcurrent]
    exact .global hm.scopes.global
  have hready : σ.scopes.Ready [] σ.scopes.current [⟨program.scope, 0⟩] :=
    .outermost (ScopeStack.declared_start _ _ _)
  exact ⟨_, .enter (.enter hglobal hready (List.subset_cons_self ..)), .nil _ _⟩

end Machine.Ready

/-- At every moment of a run, the variables before the code that is to run have values. -/
theorem Run.ready (hids : program.DistinctIdentities)
    (haddresses : Resolutions.ofProgram program = .ok setting.addresses) {m : Machine} {h : History}
    (hrun : Run setting program m h) : m.Ready program h.activations := by
  induction hrun with
  | start sink => exact .launch (.start program sink)
  | step before ih =>
    rw [History.activations_next]
    exact ih.step hids haddresses before.scoped
  | again before finished sink ih => exact .launch (Run.again before finished sink).scoped

end LexScript
