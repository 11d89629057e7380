import LexScript.Proofs.Machine.DepthLimit
import LexScript.Proofs.Machine.RewrittenStores
import LexScript.Proofs.Machine.ScopedRun

/-!
# Runs of rewritten programs

A step of a program is a step of the rewritten one, and then one of them may have to take a few more: past an
announcement that was left out, or into and out of the block of a round of a loop. So machines that belong together
come to belong together again: `Machine.Rewrites.step`, and runs do so as late as one likes: `Machine.Rewrites.later`.
-/

namespace LexScript

/-- The machines belong together once one and the other have taken a few steps. -/
inductive Machine.Joins (q : Pair) (setting setting' : Setting) : Machine → Machine → Prop
  | now {w : Links} {m m' : Machine} (related : m.Rewrites q w m') : Joins q setting setting' m m'
  | left {m m' : Machine} (rest : Joins q setting setting' (m.step setting) m') : Joins q setting setting' m m'
  | right {m m' : Machine} (rest : Joins q setting setting' m (m'.step setting')) : Joins q setting setting' m m'

variable {q : Pair} {w : Links} {f f' : FrameId} {places : List Place} {key : String → Nat}
  {table table' : Resolutions} {limit line : Nat} {program : Program} {k k' : List Continuation} {σ τ : Store}

section

variable {stepLine : Nat} {condition step : Expr} {body : Stmt}

/-! ## Parts of statements -/

namespace Stmt.At

theorem block {ds : List Decl} (h : (Stmt.block line ds).At program places) :
    Scope.OpenedIn program places (.block ds) := by
  obtain ⟨hopening, hparts⟩ := Stmt.at_block.1 h
  exact ⟨hopening, hparts⟩

theorem forLoop {first : Decl} (h : (Stmt.forLoop line first condition stepLine step body).At program places) :
    Scope.OpenedIn program places (.loop first) ∧
      Loop.At program ⟨line, condition, some (stepLine, step), body⟩ (⟨.loop first, 1⟩ :: places) := by
  obtain ⟨hopening, hfirst, hloop⟩ := Stmt.at_forLoop.1 h
  exact ⟨⟨hopening, hfirst⟩, hloop⟩

/-- The `while` loop stands behind the first declaration of its block. -/
theorem unrolled {first : Decl} {s : Stmt} (h : (Stmt.block line [first, .statement s]).At program places) :
    s.At program (⟨.block [first, .statement s], 1⟩ :: places) := by
  have hparts := h.block.parts
  simp only [Scope.declarations, Decl.partsFrom, List.append_nil, List.append_subset] at hparts
  exact hparts.2

/-- In each round, the body and the step stand in a block. -/
theorem rounds (h : (Stmt.rounds line condition stepLine step body).At program places) :
    let scope : Scope := .block [.statement body, .statement (.expression stepLine step)]
    condition.At program line places ∧ body.At program (⟨scope, 0⟩ :: places) ∧
      (Stmt.expression stepLine step).At program (⟨scope, 1⟩ :: places) := by
  rw [Stmt.At, Stmt.parts_rounds, List.cons_subset, List.cons_subset, List.append_subset] at h
  obtain ⟨hcondition, -, hbody, hstep⟩ := h
  exact ⟨.of_part hcondition, hbody, hstep⟩

end Stmt.At

namespace Unrolled

variable {body' : Stmt} (h : Unrolled q w f f' line condition stepLine step body body')

include h

theorem condition_at : Beside q w f f' (condition.At q.before line) (condition.At q.after line) :=
  h.code.imp (fun _ hloop => .of_part hloop.condition) fun _ hrounds => hrounds.rounds.1

/-- The body and the step are run in a frame that the second run makes for each round. -/
theorem round {g' : FrameId} (houter' : w.outer' g' = some f') :
    body.Paired q w f g' body' ∧
      (Stmt.expression stepLine step).Paired q w f g' (.expression stepLine step) := by
  obtain ⟨places, places', hchain, hloop, hrounds⟩ := h.code
  obtain ⟨-, hbody, hstep⟩ := hrounds.rounds
  refine ⟨⟨h.inside, places, _, .idle ⟨_, _, rfl⟩ houter' hchain, hloop.body, hbody⟩,
    ⟨.expression _ _, places, _, .idle ⟨_, _, rfl⟩ houter' hchain, ?_, hstep⟩⟩
  exact List.cons_subset.2 ⟨hloop.step stepLine step rfl, List.nil_subset _⟩

end Unrolled

namespace Loop.Paired

variable {loop loop' : Loop} (h : loop.Paired q w f f' loop')

include h

theorem bodies : loop.body.Paired q w f f' loop'.body := by
  cases h with
  | intro line condition step inside code =>
    exact ⟨inside, code.imp (fun _ hloop => hloop.body) fun _ hloop => hloop.body⟩

theorem again (hk : Stack q w f f' k k') : Control.Rewrites q w f f' (.test loop :: k) (.test loop' :: k')
    (.eval loop.line loop.condition) (.eval loop'.line loop'.condition) := by
  have hloops := h
  cases h with
  | intro line condition step inside code =>
    exact .eval (code.imp (fun _ hloop => .of_part hloop.condition) fun _ hloop => .of_part hloop.condition)
      (.cons (.test hloops) hk)

end Loop.Paired

/-- The functions of a scope that is entered are bound to partners. -/
theorem Stack.functions (hq : q.Keyed key table table') {ds ds' : List Decl}
    (h : Stack q w f f' (.sequence ds :: k) (.sequence ds' :: k')) :
    w.Linked f f' ∧ List.Forall₂ (Binding.Rewrites q w table table') (Binding.ofFunctions f ds)
      (Binding.ofFunctions f' ds') := by
  cases h with
  | cons first => cases first
  | sequence ahead =>
    have hfunctions := ahead.functions hq
    rw [List.map_nil, List.append_nil] at hfunctions
    exact ⟨ahead.link, hfunctions⟩
  | start ahead => exact ⟨ahead.link, ahead.functions hq⟩

/-- What passes a continuation by also passes the one of the rewritten program. -/
theorem Continuation.Rewrites.passes {c c' : Continuation} (h : c.Rewrites q w f f' c') {outcome outcome' : Outcome}
    (ho : outcome.Rewrites q w outcome') (hpasses : c.Passes outcome) : c'.Passes outcome' := by
  rcases c'.accepts_or_passes outcome' with haccepts | hpasses'
  · refine absurd ?_ hpasses.not_accepts
    cases haccepts with
    | sequence | leave | endCall => cases h
    | _ => cases h; cases ho; constructor
  · exact hpasses'

/-! ## Steps that both take -/

/-- An expression that is a part of both programs. -/
theorem Chain.expression {places' : List Place} (h : Chain q w f f' places places') {role : Role} {e : Expr}
    (hpart : .expression role line e places ∈ q.before.parts)
    (hpart' : .expression role line e places' ∈ q.after.parts) :
    Beside q w f f' (e.At q.before line) (e.At q.after line) :=
  ⟨places, places', h, .of_part hpart, .of_part hpart'⟩

/-- Names that follow each other in code. -/
theorem Beside.append {os os' : List Place → List Occurrence}
    (h : Beside q w f f' (fun places => os places ++ os' places ⊆ q.before.occurrences)
      fun places => os places ++ os' places ⊆ q.after.occurrences) :
    Beside q w f f' (os · ⊆ q.before.occurrences) (os · ⊆ q.after.occurrences) ∧
      Beside q w f f' (os' · ⊆ q.before.occurrences) (os' · ⊆ q.after.occurrences) :=
  ⟨h.imp (fun _ hos => (List.append_subset.1 hos).1) fun _ hos => (List.append_subset.1 hos).1,
    h.imp (fun _ hos => (List.append_subset.1 hos).2) fun _ hos => (List.append_subset.1 hos).2⟩

/-- A single name in code. -/
theorem Beside.use {i : Identifier}
    (h : Beside q w f f' (fun places => [.use i line places] ⊆ q.before.occurrences)
      fun places => [.use i line places] ⊆ q.after.occurrences) :
    Beside q w f f' (fun places => .use i line places ∈ q.before.occurrences)
      fun places => .use i line places ∈ q.after.occurrences :=
  h.imp (fun _ hi => hi (List.mem_singleton_self _)) fun _ hi => hi (List.mem_singleton_self _)

namespace Machine.Rewrites

theorem eval (hq : q.Keyed key table table') (hσ : σ.Rewrites q w τ)
    (hk : Stack q w σ.scopes.current τ.scopes.current k k') {e : Expr}
    (he : Beside q w σ.scopes.current τ.scopes.current (e.At q.before line) (e.At q.after line)) :
    Machine.Rewrites q w (Machine.eval ⟨table, limit⟩ line k σ e) (Machine.eval ⟨table', limit⟩ line k' τ e) := by
  cases e with
  | literal literal => exact ⟨.ended (.value literal.toValue_rewrites) hk, hσ⟩
  | name i => exact ⟨.ended (hσ.read hq he.use) hk, hσ⟩
  | assign target value =>
    obtain ⟨hvalue, htarget⟩ := he.append
    exact ⟨.eval hvalue (.cons (.assign htarget.use) hk), hσ⟩
  | unary operator operand => exact ⟨.eval he (.cons (.unary operator line) hk), hσ⟩
  | binary operator left right =>
    obtain ⟨hleft, hright⟩ := he.append
    exact ⟨.eval hleft (.cons (.operand operator hright) hk), hσ⟩
  | call callee arguments =>
    obtain ⟨hcallee, harguments⟩ := he.append
    exact ⟨.eval hcallee (.cons (.callee harguments) hk), hσ⟩

section

variable (hσ : σ.Rewrites q w τ) (hk : Stack q w σ.scopes.current τ.scopes.current k k')
  {places' : List Place} (hchain : Chain q w σ.scopes.current τ.scopes.current places places')

include hσ hk hchain

theorem exec_block {ds ds' : List Decl} (hrewrites : Decl.AllRewrites q.way ds ds ds')
    (hcode : (Stmt.block line ds).At q.before places) (hcode' : (Stmt.block line ds').At q.after places') :
    ∃ x, Machine.Rewrites q x (Machine.exec k σ (.block line ds)) (Machine.exec k' τ (.block line ds')) := by
  obtain ⟨x, hx, hstore, hlink, houter, houter'⟩ := hσ.enterAt σ.scopes.current τ.scopes.current
  have hin := (hchain.mono hx).inside houter houter'
  have hahead : Ahead q x _ _ [] _ _ := .initial (.block hrewrites) rfl (List.append_nil _).symm hrewrites hlink
    hin hcode.block hcode'.block
  exact ⟨x, .enter (.sequence hahead (.leave (hk.mono hx))), hstore⟩

variable {first first' : Decl} {stepLine : Nat} {condition step : Expr} {body body' : Stmt}
  (hfirst : first.Rewrites q.way first') (hbody : body.Rewrites q.way body')
  (hcode : (Stmt.forLoop line first condition stepLine step body).At q.before places)

include hfirst hbody hcode

theorem exec_forLoop (hcode' : (Stmt.forLoop line first' condition stepLine step body').At q.after places') :
    ∃ x, Machine.Rewrites q x (Machine.exec k σ (.forLoop line first condition stepLine step body))
      (Machine.exec k' τ (.forLoop line first' condition stepLine step body')) := by
  obtain ⟨x, hx, hstore, hlink, houter, houter'⟩ := hσ.enterAt σ.scopes.current τ.scopes.current
  have hscope : Scope.Rewrites q.way _ _ := .loop hfirst
  have hin := (hchain.mono hx).inside houter houter'
  have hahead : Ahead q x _ _ [] _ _ := .initial hscope rfl rfl (.cons hfirst (.nil _)) hlink hin
    hcode.forLoop.1 hcode'.forLoop.1
  have hinside := hin.chain hlink ((Place.Rewrites.initial hscope).succ rfl rfl hfirst)
  have hloops : Loop.Paired q x _ _ ⟨line, condition, some (stepLine, step), body⟩
      ⟨line, condition, some (stepLine, step), body'⟩ :=
    .intro line condition _ hbody ⟨_, _, hinside, hcode.forLoop.2, hcode'.forLoop.2⟩
  exact ⟨x, .enter (.sequence hahead (.cons (.again hloops) (.leave (hk.mono hx)))), hstore⟩

/-- The block of the `while` loop has the frame that the scope of the `for` loop has. -/
theorem exec_unrolled {blockLine : Nat}
    (hcode' : (Stmt.block blockLine [first', .statement (.rounds line condition stepLine step body')]).At q.after
      places') :
    ∃ x, Machine.Rewrites q x (Machine.exec k σ (.forLoop line first condition stepLine step body))
      (Machine.exec k' τ (.block blockLine [first', .statement (.rounds line condition stepLine step body')])) := by
  obtain ⟨x, hx, hstore, hlink, houter, houter'⟩ := hσ.enterAt σ.scopes.current τ.scopes.current
  have hscope : Scope.Rewrites q.way _ _ := .unrolled hfirst (.rounds line condition stepLine step body')
  have hin := (hchain.mono hx).inside houter houter'
  have hahead : Ahead q x _ _ [.rounds line condition stepLine step body'] _ _ :=
    .initial hscope rfl rfl (.cons hfirst (.nil _)) hlink hin hcode.forLoop.1 hcode'.block
  have hinside := hin.chain hlink ((Place.Rewrites.initial hscope).succ rfl rfl hfirst)
  have hloops : Unrolled q x _ _ line condition stepLine step _ _ :=
    ⟨hbody, _, _, hinside, hcode.forLoop.2, hcode'.unrolled⟩
  exact ⟨x, .enter (.start hahead hloops (.leave (hk.mono hx))), hstore⟩

end

theorem exec (hσ : σ.Rewrites q w τ) (hk : Stack q w σ.scopes.current τ.scopes.current k k') {s s' : Stmt}
    (hs : s.Paired q w σ.scopes.current τ.scopes.current s') :
    ∃ x, Machine.Rewrites q x (Machine.exec k σ s) (Machine.exec k' τ s') := by
  obtain ⟨hrewrites, places, places', hchain, hcode, hcode'⟩ := hs
  cases hrewrites with
  | block line inside => exact exec_block hσ hk hchain inside hcode hcode'
  | forLoop line condition stepLine step start inside =>
    exact exec_forLoop hσ hk hchain start inside hcode hcode'
  | unroll _ line condition stepLine step start inside =>
    exact exec_unrolled hσ hk hchain start inside hcode hcode'
  | expression line value =>
    have hvalue := hchain.expression (Stmt.at_expression.1 hcode) (Stmt.at_expression.1 hcode')
    exact ⟨w, .eval hvalue (.cons .discard hk), hσ⟩
  | print line value =>
    have hvalue := hchain.expression (Stmt.at_print.1 hcode) (Stmt.at_print.1 hcode')
    exact ⟨w, .eval hvalue (.cons (.print line) hk), hσ⟩
  | ifThen line condition inside =>
    obtain ⟨hcondition, hthen⟩ := Stmt.at_ifThen.1 hcode
    obtain ⟨hcondition', hthen'⟩ := Stmt.at_ifThen.1 hcode'
    have hbranch : Stmt.Paired q w _ _ _ _ := ⟨inside, _, _, hchain, hthen, hthen'⟩
    exact ⟨w, .eval (hchain.expression hcondition hcondition') (.cons (.branch line hbranch .none) hk), hσ⟩
  | ifElse line condition first second =>
    obtain ⟨hcondition, hthen, helse⟩ := Stmt.at_ifElse.1 hcode
    obtain ⟨hcondition', hthen', helse'⟩ := Stmt.at_ifElse.1 hcode'
    have hfirst : Stmt.Paired q w _ _ _ _ := ⟨first, _, _, hchain, hthen, hthen'⟩
    have hsecond : Stmt.Paired q w _ _ _ _ := ⟨second, _, _, hchain, helse, helse'⟩
    exact ⟨w, .eval (hchain.expression hcondition hcondition')
      (.cons (.branch line hfirst (.some hsecond)) hk), hσ⟩
  | whileLoop line condition inside =>
    have hloop := Stmt.at_whileLoop.1 hcode
    have hloop' := Stmt.at_whileLoop.1 hcode'
    have hloops : Loop.Paired q w _ _ _ _ := .intro line condition none inside ⟨_, _, hchain, hloop, hloop'⟩
    exact ⟨w, .eval (hchain.expression hloop.condition hloop'.condition) (.cons (.test hloops) hk), hσ⟩
  | ret line value =>
    cases value with
    | none => exact ⟨w, .ended (.returned .void) hk, hσ⟩
    | some e =>
      have hvalue := hchain.expression (Stmt.at_ret.1 hcode) (Stmt.at_ret.1 hcode')
      exact ⟨w, .eval hvalue (.cons .ret hk), hσ⟩

theorem declare (hσ : σ.Rewrites q w τ) (hk : Stack q w σ.scopes.current τ.scopes.current k k') {d d' : Decl}
    (hd : d.Paired q w σ.scopes.current τ.scopes.current d') :
    Machine.Rewrites q w (Machine.declare k σ d) (Machine.declare k' τ d') := by
  obtain ⟨hrewrites, hlink, places, places', hchain, hcode, hcode'⟩ := hd
  obtain ⟨here, outer, rfl, -, -, hparts⟩ := hcode
  obtain ⟨here', outer', rfl, -, -, hparts'⟩ := hcode'
  cases hrewrites with
  | binding line i type value =>
    obtain ⟨hvalue, hbinding⟩ := List.cons_subset.1 hparts
    obtain ⟨hvalue', hbinding'⟩ := List.cons_subset.1 hparts'
    have hbound : i.Bound q :=
      ⟨⟨_, hbinding (List.mem_singleton_self _)⟩, ⟨_, hbinding' (List.mem_singleton_self _)⟩⟩
    exact ⟨.eval (hchain.expression hvalue hvalue') (.cons (.bind line hlink hbound) hk), hσ⟩
  | function | forward => exact ⟨.ended .normal hk, hσ⟩
  | statement inside => exact ⟨.exec ⟨inside, _, _, hchain, hparts, hparts'⟩ hk, hσ⟩

theorem enter (hq : q.Keyed key table table') (hσ : σ.Rewrites q w τ) {ds ds' : List Decl}
    (hstack : Stack q w σ.scopes.current τ.scopes.current (.sequence ds :: k) (.sequence ds' :: k')) :
    Machine.Rewrites q w (Machine.enter ⟨table, limit⟩ k σ ds) (Machine.enter ⟨table', limit⟩ k' τ ds') := by
  obtain ⟨hlink, hfunctions⟩ := hstack.functions hq
  obtain ⟨houtcome, houtcome', hstore⟩ := hσ.bind hlink hfunctions
  refine ⟨?_, hstore⟩
  simpa [Machine.enter, houtcome, houtcome', Store.current_bind] using
    Control.Rewrites.ended .normal hstack

theorem call (hq : q.Keyed key table table') (hσ : σ.Rewrites q w τ)
    (hk : Stack q w σ.scopes.current τ.scopes.current k k') {c d : Closure} (hc : c.Rewrites q w d)
    {vs vs' : List Value} (hvs : List.Forall₂ (Value.Rewrites q w) vs vs') (line : Nat) :
    ∃ x, Machine.Rewrites q x (Machine.call ⟨table, limit⟩ k σ c vs line)
      (Machine.call ⟨table', limit⟩ k' τ d vs' line) := by
  by_cases hdepth : limit ≤ σ.depth
  · have hdepth' : limit ≤ τ.depth := by rwa [hσ.depth]
    rw [call_of_le hdepth, call_of_le hdepth']
    exact ⟨w, .ended (.failed _) hk, hσ⟩
  · have hdepth' : ¬ limit ≤ τ.depth := by rwa [hσ.depth]
    obtain ⟨x, hx, hentered, hlink, houter, houter'⟩ := hσ.enterCall c.frame d.frame
    have harguments := Binding.Rewrites.ofArguments ((hc.mono hx).parameters hq)
      (Value.Rewrites.mono_all hvs hx) line
    obtain ⟨houtcome, houtcome', hstore⟩ := hentered.bind hlink harguments
    obtain ⟨places, places', hchain, hopened, hopened'⟩ := (hc.mono hx).code
    have hahead : Ahead q x _ _ [] c.body d.body := .initial (.function c.header hc.body) rfl
      (List.append_nil _).symm hc.body hlink (hchain.inside houter houter') hopened hopened'
    rw [call_of_lt hdepth, call_of_lt hdepth', hc.header]
    dsimp only
    rw [houtcome, houtcome']
    refine ⟨x, .enter ?_, hstore⟩
    dsimp only
    simp only [Store.current_bind]
    exact .sequence hahead (.endCall line (hc.mono hx) (hk.mono hx))

theorem nextArgument (hσ : σ.Rewrites q w τ) (hk : Stack q w σ.scopes.current τ.scopes.current k k')
    {c d : Closure} (hc : c.Rewrites q w d) {vs vs' : List Value} (hvs : List.Forall₂ (Value.Rewrites q w) vs vs')
    {rest : List Expr} (hrest : Beside q w σ.scopes.current τ.scopes.current (Expr.AllAt q.before line rest)
      (Expr.AllAt q.after line rest)) :
    Machine.Rewrites q w (Machine.nextArgument k σ c vs line rest) (Machine.nextArgument k' τ d vs' line rest) := by
  cases rest with
  | nil => exact ⟨.call line hc (List.rel_reverse hvs) hk, hσ⟩
  | cons e es =>
    obtain ⟨hfirst, hothers⟩ := hrest.append
    exact ⟨.eval hfirst (.cons (.argument hc hvs hothers) hk), hσ⟩

/-! ### An outcome for each kind of continuation -/

section

variable (hσ : σ.Rewrites q w τ) (hk : Stack q w σ.scopes.current τ.scopes.current k k') {v v' : Value}
  (hv : v.Rewrites q w v')

include hσ hk hv

theorem resume_binary {operator : BinaryOperator} {left left' : Value} (hleft : left.Rewrites q w left') :
    Machine.Rewrites q w (Machine.resume ⟨table, limit⟩ k σ (.binary operator left line) (.value v))
      (Machine.resume ⟨table', limit⟩ k' τ (.binary operator left' line) (.value v')) := by
  have houtcomes : Outcome.Rewrites q w (.ofResult line (operator.apply left v))
      (.ofResult line (operator.apply left' v')) := by
    rw [operator.apply_alike hleft.alike hv.alike (hleft.same hv hσ.scopes)]
    exact Outcome.ofResult_rewrites (fun _ => BinaryOperator.apply_scoped) line
  exact ⟨.ended houtcomes hk, hσ⟩

theorem resume_unary {operator : UnaryOperator} :
    Machine.Rewrites q w (Machine.resume ⟨table, limit⟩ k σ (.unary operator line) (.value v))
      (Machine.resume ⟨table', limit⟩ k' τ (.unary operator line) (.value v')) := by
  have houtcomes : Outcome.Rewrites q w (.ofResult line (operator.apply v))
      (.ofResult line (operator.apply v')) := by
    rw [operator.apply_alike hv.alike]
    exact Outcome.ofResult_rewrites (fun _ => UnaryOperator.apply_scoped) line
  exact ⟨.ended houtcomes hk, hσ⟩

theorem resume_assign (hq : q.Keyed key table table') {target : Identifier}
    (hcode : Beside q w σ.scopes.current τ.scopes.current
      (fun places => .use target line places ∈ q.before.occurrences)
      fun places => .use target line places ∈ q.after.occurrences) :
    Machine.Rewrites q w (Machine.resume ⟨table, limit⟩ k σ (.assign target line) (.value v))
      (Machine.resume ⟨table', limit⟩ k' τ (.assign target line) (.value v')) := by
  obtain ⟨houtcomes, hstore⟩ := hσ.assign hq hcode hv line
  rw [← σ.current_assign table target v line, ← τ.current_assign table' target v' line] at hk
  exact ⟨.ended houtcomes hk, hstore⟩

theorem resume_callee {arguments : List Expr}
    (hcode : Beside q w σ.scopes.current τ.scopes.current (Expr.AllAt q.before line arguments)
      (Expr.AllAt q.after line arguments)) :
    Machine.Rewrites q w (Machine.resume ⟨table, limit⟩ k σ (.callee arguments line) (.value v))
      (Machine.resume ⟨table', limit⟩ k' τ (.callee arguments line) (.value v')) := by
  cases hv with
  | function closures => exact nextArgument hσ hk closures .nil hcode
  | _ => exact ⟨.ended (.failed _) hk, hσ⟩

theorem resume_branch {thenBranch thenBranch' : Stmt} {elseBranch elseBranch' : Option Stmt}
    (hthen : thenBranch.Paired q w σ.scopes.current τ.scopes.current thenBranch')
    (helse : Option.Rel (Stmt.Paired q w σ.scopes.current τ.scopes.current) elseBranch elseBranch') :
    Machine.Rewrites q w (Machine.resume ⟨table, limit⟩ k σ (.branch line thenBranch elseBranch) (.value v))
      (Machine.resume ⟨table', limit⟩ k' τ (.branch line thenBranch' elseBranch') (.value v')) := by
  cases hv with
  | boolean b =>
    cases b with
    | true => exact ⟨.exec hthen hk, hσ⟩
    | false =>
      cases helse with
      | none => exact ⟨.ended .normal hk, hσ⟩
      | some statements => exact ⟨.exec statements hk, hσ⟩
  | _ => exact ⟨.ended (.failed _) hk, hσ⟩

theorem resume_test {loop loop' : Loop}
    (hloops : loop.Paired q w σ.scopes.current τ.scopes.current loop') :
    Machine.Rewrites q w (Machine.resume ⟨table, limit⟩ k σ (.test loop) (.value v))
      (Machine.resume ⟨table', limit⟩ k' τ (.test loop') (.value v')) := by
  cases hv with
  | boolean b =>
    cases b with
    | true => exact ⟨.exec hloops.bodies (.cons (.step hloops) hk), hσ⟩
    | false => exact ⟨.ended .normal hk, hσ⟩
  | _ =>
    cases hloops
    exact ⟨.ended (.failed _) hk, hσ⟩

theorem resume_bind (hq : q.Keyed key table table') {i : Identifier}
    (hlink : w.Linked σ.scopes.current τ.scopes.current) (hbound : i.Bound q) :
    Machine.Rewrites q w (Machine.resume ⟨table, limit⟩ k σ (.bind i line) (.value v))
      (Machine.resume ⟨table', limit⟩ k' τ (.bind i line) (.value v')) := by
  have hbindings : List.Forall₂ (Binding.Rewrites q w table table') [⟨i, v, line⟩] [⟨i, v', line⟩] :=
    .cons ⟨rfl, hv, hq.bound hbound⟩ .nil
  obtain ⟨houtcome, houtcome', hstore⟩ := hσ.bind hlink hbindings
  have houtcomes : Outcome.Rewrites q w (σ.bind table [⟨i, v, line⟩]).1 (τ.bind table' [⟨i, v', line⟩]).1 := by
    simp only [houtcome, houtcome']
    exact .normal
  rw [← Store.current_bind table [⟨i, v, line⟩] σ, ← Store.current_bind table' [⟨i, v', line⟩] τ] at hk
  exact ⟨.ended houtcomes hk, hstore⟩

end

theorem resume_step (hσ : σ.Rewrites q w τ) (hk : Stack q w σ.scopes.current τ.scopes.current k k')
    {loop loop' : Loop} (hloops : loop.Paired q w σ.scopes.current τ.scopes.current loop') :
    Machine.Rewrites q w (Machine.resume ⟨table, limit⟩ k σ (.step loop) .normal)
      (Machine.resume ⟨table', limit⟩ k' τ (.step loop') .normal) := by
  have hagain := hloops.again hk
  cases hloops with | intro line condition step inside code =>
  cases step with
  | none => exact ⟨hagain, hσ⟩
  | some step =>
    have hstep : Stmt.Paired q w σ.scopes.current τ.scopes.current (.expression step.1 step.2)
        (.expression step.1 step.2) :=
      ⟨.expression .., code.imp (fun _ h => Stmt.at_expression.2 (h.step _ _ rfl))
        fun _ h => Stmt.at_expression.2 (h.step _ _ rfl)⟩
    exact ⟨.exec hstep (.cons (.again (.intro line condition _ inside code)) hk), hσ⟩

theorem resume (hq : q.Keyed key table table') (hσ : σ.Rewrites q w τ)
    (hk : Stack q w σ.scopes.current τ.scopes.current k k') {c c' : Continuation}
    (hc : c.Rewrites q w σ.scopes.current τ.scopes.current c') {outcome outcome' : Outcome}
    (ho : outcome.Rewrites q w outcome') :
    Machine.Rewrites q w (Machine.resume ⟨table, limit⟩ k σ c outcome)
      (Machine.resume ⟨table', limit⟩ k' τ c' outcome') := by
  rcases c.accepts_or_passes outcome with haccepts | hpasses
  · cases haccepts with
    | operand operator right line left =>
      cases hc with | operand _ code =>
      cases ho with | value values =>
      exact ⟨.eval code (.cons (.binary operator line values) hk), hσ⟩
    | binary =>
      cases hc with | binary _ _ values =>
      cases ho with | value values' =>
      exact resume_binary hσ hk values' values
    | unary =>
      cases hc
      cases ho with | value values =>
      exact resume_unary hσ hk values
    | assign =>
      cases hc with | assign code =>
      cases ho with | value values =>
      exact resume_assign hσ hk values hq code
    | callee =>
      cases hc with | callee code =>
      cases ho with | value values =>
      exact resume_callee hσ hk values code
    | argument =>
      cases hc with | argument closures values code =>
      cases ho with | value value =>
      exact nextArgument hσ hk closures (.cons value values) code
    | discard =>
      cases hc
      cases ho
      exact ⟨.ended .normal hk, hσ⟩
    | print line v =>
      cases hc
      cases ho with | value values =>
      obtain ⟨houtcomes, hstore⟩ := hσ.print values line
      exact ⟨.ended houtcomes hk, hstore⟩
    | branch =>
      cases hc with | branch _ first second =>
      cases ho with | value values =>
      exact resume_branch hσ hk values first second
    | test =>
      cases hc with | test loops =>
      cases ho with | value values =>
      exact resume_test hσ hk values loops
    | step =>
      cases hc with | step loops =>
      cases ho
      exact resume_step hσ hk loops
    | again =>
      cases hc with | again loops =>
      cases ho
      exact ⟨loops.again hk, hσ⟩
    | ret =>
      cases hc
      cases ho with | value values =>
      exact ⟨.ended (.returned values) hk, hσ⟩
    | bind =>
      cases hc with | bind _ link bound =>
      cases ho with | value values =>
      exact resume_bind hσ hk values hq link bound
    | sequence | leave | endCall => cases hc
  · simp only [hpasses.resume, (hc.passes ho hpasses).resume]
    exact ⟨.ended ho hk, hσ⟩

end Machine.Rewrites

/-! ## Steps that one takes alone -/

/-- An outcome that ends a list of declarations passes what is left of it. -/
theorem Continuation.sequence_passes {outcome : Outcome} (h : outcome ≠ .normal) (ds : List Decl) :
    (Continuation.sequence ds).Passes outcome := by
  refine ((Continuation.sequence ds).accepts_or_passes outcome).resolve_left fun haccepts => ?_
  cases haccepts
  exact h rfl

namespace Machine.Joins

variable {m m' : Machine} {ds ds' : List Decl} {outcome outcome' : Outcome} {body' : Stmt}

/-- The rest of a list of declarations. -/
theorem sequence (hσ : σ.Rewrites q w τ)
    (hahead : Ahead q w σ.scopes.current τ.scopes.current [] ds ds')
    (hk : Stack q w σ.scopes.current τ.scopes.current k k') :
    Joins q ⟨table, limit⟩ ⟨table', limit⟩ (resume ⟨table, limit⟩ k σ (.sequence ds) .normal)
      (resume ⟨table', limit⟩ k' τ (.sequence ds') .normal) := by
  induction ds generalizing ds' with
  | nil =>
    rw [hahead.eq_nil]
    exact .now ⟨.ended .normal hk, hσ⟩
  | cons d ds ih =>
    rcases hahead.next with ⟨d', es, rfl, hd, hrest⟩ | ⟨⟨line, header, rfl⟩, hrest⟩
    · exact .now (.declare hσ (.sequence hrest hk) hd)
    · exact .left (ih hrest)

/-- The first declaration of a loop that is unrolled, and then the loop. -/
theorem start (hσ : σ.Rewrites q w τ)
    (hahead : Ahead q w σ.scopes.current τ.scopes.current [.rounds line condition stepLine step body'] ds ds')
    (hloops : Unrolled q w σ.scopes.current τ.scopes.current line condition stepLine step body body')
    (hk : Stack q w σ.scopes.current τ.scopes.current k k') :
    Joins q ⟨table, limit⟩ ⟨table', limit⟩
      (resume ⟨table, limit⟩ (.again ⟨line, condition, some (stepLine, step), body⟩ :: k) σ (.sequence ds) .normal)
      (resume ⟨table', limit⟩ k' τ
        (.sequence (ds' ++ [.statement (.rounds line condition stepLine step body')])) .normal) := by
  induction ds generalizing ds' with
  | nil =>
    -- Both come to the condition.
    rw [hahead.eq_nil]
    exact .left (.right (.now ⟨.eval hloops.condition_at (.test hloops hk), hσ⟩))
  | cons d ds ih =>
    rcases hahead.next with ⟨d', es, rfl, hd, hrest⟩ | ⟨⟨line, header, rfl⟩, hrest⟩
    · exact .now (.declare hσ (.start hrest hloops hk) hd)
    · exact .left (ih hrest)

/-- The condition of a loop that is unrolled. -/
theorem test (hσ : σ.Rewrites q w τ)
    (hloops : Unrolled q w σ.scopes.current τ.scopes.current line condition stepLine step body body')
    (hk : Stack q w σ.scopes.current τ.scopes.current k k') (ho : outcome.Rewrites q w outcome') :
    Joins q ⟨table, limit⟩ ⟨table', limit⟩
      (resume ⟨table, limit⟩ k σ (.test ⟨line, condition, some (stepLine, step), body⟩) outcome)
      (resume ⟨table', limit⟩ (.sequence [] :: k') τ (.test ⟨line, condition, none, .round line stepLine step body'⟩)
        outcome') := by
  cases ho with
  | value values =>
    cases values with
    | boolean b =>
      cases b with
      | true =>
        -- The second run enters a frame of its own.
        obtain ⟨x, hx, hstore, houter'⟩ := hσ.enterIdle τ.scopes.current
        have hround := (hloops.mono hx).round houter'
        exact .right (.right (.right (.now
          ⟨.exec hround.1 (.body houter' (hloops.mono hx) (hk.mono hx)), hstore⟩)))
      | false => exact .right (.now ⟨.ended .normal hk, hσ⟩)
    | _ => exact .right (.now ⟨.ended (.failed _) hk, hσ⟩)
  | normal => exact .right (.now ⟨.ended .normal hk, hσ⟩)
  | returned values => exact .right (.now ⟨.ended (.returned values) hk, hσ⟩)
  | failed e => exact .right (.now ⟨.ended (.failed e) hk, hσ⟩)

/-- A round that does not end at its end leaves the loop. -/
theorem leaveRound {loop : Loop} (hσ : σ.Rewrites q w τ) (hk : Stack q w σ.scopes.current f' k k')
    (ho : outcome.Rewrites q w outcome') (hne : outcome ≠ .normal) :
    Joins q ⟨table, limit⟩ ⟨table', limit⟩ ⟨.ended outcome, k, σ⟩
      ⟨.ended outcome', .leave f' :: .step loop :: .sequence [] :: k', τ⟩ := by
  have hstore := hσ.restore_right f'
  cases ho with
  | value values => exact .right (.right (.right (.now ⟨.ended (.value values) hk, hstore⟩)))
  | normal => exact absurd rfl hne
  | returned values => exact .right (.right (.right (.now ⟨.ended (.returned values) hk, hstore⟩)))
  | failed e => exact .right (.right (.right (.now ⟨.ended (.failed e) hk, hstore⟩)))

/-- The body of a loop that is unrolled has ended. -/
theorem bodyEnded (hσ : σ.Rewrites q w τ) (houter' : w.outer' τ.scopes.current = some f')
    (hloops : Unrolled q w σ.scopes.current f' line condition stepLine step body body')
    (hk : Stack q w σ.scopes.current f' k k') (ho : outcome.Rewrites q w outcome') :
    let round : Loop := ⟨line, condition, none, .round line stepLine step body'⟩
    Joins q ⟨table, limit⟩ ⟨table', limit⟩
      (resume ⟨table, limit⟩ k σ (.step ⟨line, condition, some (stepLine, step), body⟩) outcome)
      (resume ⟨table', limit⟩ (.leave f' :: .step round :: .sequence [] :: k') τ
        (.sequence [.statement (.expression stepLine step)]) outcome') := by
  cases ho with
  | normal => exact .now ⟨.exec (hloops.round houter').2 (.step hloops hk), hσ⟩
  | value values => exact .leaveRound hσ hk (.value values) nofun
  | returned values => exact .leaveRound hσ hk (.returned values) nofun
  | failed e => exact .leaveRound hσ hk (.failed e) nofun

/-- The step of a loop that is unrolled has ended. -/
theorem stepEnded (hσ : σ.Rewrites q w τ)
    (hloops : Unrolled q w σ.scopes.current f' line condition stepLine step body body')
    (hk : Stack q w σ.scopes.current f' k k') (ho : outcome.Rewrites q w outcome') :
    let round : Loop := ⟨line, condition, none, .round line stepLine step body'⟩
    Joins q ⟨table, limit⟩ ⟨table', limit⟩
      (resume ⟨table, limit⟩ k σ (.again ⟨line, condition, some (stepLine, step), body⟩) outcome)
      (resume ⟨table', limit⟩ (.leave f' :: .step round :: .sequence [] :: k') τ (.sequence []) outcome') := by
  cases ho with
  | normal =>
    -- The second run leaves the frame of the round and comes to the condition.
    exact .right (.right (.now ⟨.eval hloops.condition_at (.test hloops hk), hσ.restore_right f'⟩))
  | value values => exact .leaveRound hσ hk (.value values) nofun
  | returned values => exact .leaveRound hσ hk (.returned values) nofun
  | failed e => exact .leaveRound hσ hk (.failed e) nofun

/-- Any other outcome passes lists of declarations, and the loop behind them. -/
theorem passes {rest : List Continuation} (hσ : σ.Rewrites q w τ)
    (hk : Stack q w σ.scopes.current τ.scopes.current k k') (ho : outcome.Rewrites q w outcome')
    (hne : outcome ≠ .normal) (hrest : rest = [] ∨ ∃ loop, rest = [.again loop]) :
    Joins q ⟨table, limit⟩ ⟨table', limit⟩ (resume ⟨table, limit⟩ (rest ++ k) σ (.sequence ds) outcome)
      (resume ⟨table', limit⟩ k' τ (.sequence ds') outcome') := by
  have hne' : outcome' ≠ .normal := by
    cases ho with
    | normal => exact hne
    | _ => nofun
  rw [(Continuation.sequence_passes hne ds).resume, (Continuation.sequence_passes hne' ds').resume]
  rcases hrest with rfl | ⟨loop, rfl⟩
  · exact .now ⟨.ended ho hk, hσ⟩
  · refine .left ?_
    cases ho with
    | normal => exact absurd rfl hne
    | value values => exact .now ⟨.ended (.value values) hk, hσ⟩
    | returned values => exact .now ⟨.ended (.returned values) hk, hσ⟩
    | failed e => exact .now ⟨.ended (.failed e) hk, hσ⟩

end Machine.Joins

end

namespace Machine.Rewrites

variable {m m' : Machine}

/-- What belongs together does so again after a step, or after a few. -/
theorem step (hq : q.Keyed key table table') (h : m.Rewrites q w m') :
    Joins q ⟨table, limit⟩ ⟨table', limit⟩ (m.step ⟨table, limit⟩) (m'.step ⟨table', limit⟩) := by
  obtain ⟨control, k, σ⟩ := m
  obtain ⟨control', k', τ⟩ := m'
  obtain ⟨htask, hσ⟩ := h
  dsimp only at htask hσ
  cases htask with
  | eval code stack => exact .now (eval hq hσ stack code)
  | exec statements stack =>
    obtain ⟨x, hx⟩ := exec hσ stack statements
    exact .now hx
  | enter stack => exact .now (enter hq hσ stack)
  | call line closures values stack =>
    obtain ⟨x, hx⟩ := call hq hσ stack closures values line
    exact .now hx
  | @ended outcome outcome' outcomes stack =>
    cases stack with
    | nil => exact .now ⟨.ended outcomes .nil, hσ⟩
    | cons first rest => exact .now (resume hq hσ rest first outcomes)
    | sequence ahead rest =>
      by_cases hnormal : outcome = .normal
      · subst hnormal
        cases outcomes
        exact .sequence hσ ahead rest
      · exact .passes hσ rest outcomes hnormal (.inl rfl)
    | leave rest => exact .now ⟨.ended outcomes rest, hσ.restore _ _⟩
    | endCall line closures rest => exact .now ⟨.ended (closures.answer outcomes line) rest, hσ.leaveCall _ _⟩
    | start ahead loops rest =>
      by_cases hnormal : outcome = .normal
      · subst hnormal
        cases outcomes
        exact .start hσ ahead loops rest
      · exact .passes hσ rest outcomes hnormal (.inr ⟨_, rfl⟩)
    | test loops rest => exact .test hσ loops rest outcomes
    | body outer' loops rest => exact .bodyEnded hσ outer' loops rest outcomes
    | step loops rest => exact .stepEnded hσ loops rest outcomes

end Machine.Rewrites

/-! ## Runs -/

theorem Machine.Joins.exists_run {setting setting' : Setting} {m m' : Machine} (h : Joins q setting setting' m m') :
    ∃ steps steps' x, (m.run setting steps).Rewrites q x (m'.run setting' steps') := by
  induction h with
  | now related => exact ⟨0, 0, _, related⟩
  | left _ ih =>
    obtain ⟨steps, steps', x, hrewrites⟩ := ih
    rw [run_step] at hrewrites
    exact ⟨steps + 1, steps', x, hrewrites⟩
  | right _ ih =>
    obtain ⟨steps, steps', x, hrewrites⟩ := ih
    rw [run_step] at hrewrites
    exact ⟨steps, steps' + 1, x, hrewrites⟩

namespace Machine

/-- The machines have printed the same, and both are over, with the same error or without one, or neither is. -/
structure Alike (m m' : Machine) : Prop where
  sink : m'.store.sink = m.store.sink
  finished : m'.outcome?.isSome = m.outcome?.isSome
  error : m'.error? = m.error?

/-- Whatever the first run prints, the second one prints. If the first one is over at some time, so is the second, and
it has printed the same and has ended with the same error or without one. -/
def RunsAlong (run run' : Nat → Machine) : Prop :=
  ∀ steps, ∃ steps', (run steps).store.sink.lines.toList <+: (run' steps').store.sink.lines.toList ∧
    ((run steps).outcome?.isSome → (run steps).Alike (run' steps'))

/-- The runs print the same. Both are over at some time, with the same error or without one, or neither ever is. -/
structure RunAlike (run run' : Nat → Machine) : Prop where
  forth : RunsAlong run run'
  back : RunsAlong run' run

theorem Alike.symm {m m' : Machine} (h : m.Alike m') : m'.Alike m := ⟨h.sink.symm, h.finished.symm, h.error.symm⟩

theorem Alike.trans {m m' n : Machine} (h : m.Alike m') (h' : m'.Alike n) : m.Alike n :=
  ⟨h'.sink.trans h.sink, h'.finished.trans h.finished, h'.error.trans h.error⟩

theorem Alike.of_outcome {m m' : Machine} (houtcome : m'.outcome? = m.outcome?)
    (hsink : m'.store.sink = m.store.sink) : m.Alike m' :=
  ⟨hsink, by rw [houtcome], by rw [error?, error?, houtcome]⟩

/-- A run goes along with one that it is alike to again and again. -/
theorem RunsAlong.of_later {setting : Setting} {m : Machine} {run' : Nat → Machine}
    (h : ∀ now, ∃ steps ≥ now, ∃ steps', (m.run setting steps).Alike (run' steps')) :
    RunsAlong (m.run setting ·) run' := by
  intro now
  obtain ⟨steps, hsteps, steps', halike⟩ := h now
  obtain ⟨more, rfl⟩ := Nat.exists_eq_add_of_le hsteps
  refine ⟨steps', ?_, fun hover => ?_⟩
  · rw [halike.sink]
    exact lines_run now more m
  · rw [run_over hover more] at halike
    exact halike

theorem RunsAlong.congr {run run' other other' : Nat → Machine} (h : RunsAlong run run')
    (hother : ∀ steps, (other steps).Alike (run steps)) (hother' : ∀ steps, (run' steps).Alike (other' steps)) :
    RunsAlong other other' := by
  intro steps
  obtain ⟨steps', hlines, halike⟩ := h steps
  refine ⟨steps', ?_, fun hover => ?_⟩
  · simpa [← (hother steps).sink, (hother' steps').sink] using hlines
  · rw [← (hother steps).finished] at hover
    exact ((hother steps).trans (halike hover)).trans (hother' steps')

namespace Rewrites

variable {m m' : Machine}

/-- Runs belong together again as late as one likes. -/
theorem later (hq : q.Keyed key table table') (h : m.Rewrites q w m') (limit now : Nat) :
    ∃ steps ≥ now, ∃ steps' ≥ now, ∃ x,
      (m.run ⟨table, limit⟩ steps).Rewrites q x (m'.run ⟨table', limit⟩ steps') := by
  induction now with
  | zero => exact ⟨0, Nat.le_refl _, 0, Nat.le_refl _, w, h⟩
  | succ now ih =>
    obtain ⟨steps, hsteps, steps', hsteps', x, hrewrites⟩ := ih
    have hjoins : Joins q ⟨table, limit⟩ ⟨table', limit⟩ _ _ := hrewrites.step hq
    obtain ⟨more, more', y, hjoined⟩ := hjoins.exists_run
    simp only [← run_succ, ← run_add] at hjoined
    exact ⟨_, by omega, _, by omega, y, hjoined⟩

/-- Both runs are over, or none is, and they end alike. -/
theorem outcome (h : m.Rewrites q w m') : Option.Rel (Outcome.Rewrites q w) m.outcome? m'.outcome? := by
  obtain ⟨control, k, σ⟩ := m
  obtain ⟨control', k', τ⟩ := m'
  obtain ⟨htask, -⟩ := h
  cases htask with
  | ended outcomes stack =>
    cases stack with
    | nil => exact .some outcomes
    | _ => exact .none
  | _ => exact .none

theorem alike (h : m.Rewrites q w m') : m.Alike m' := by
  have houtcome := h.outcome
  refine ⟨h.store.sink, ?_, ?_⟩
  · generalize m.outcome? = outcome at houtcome ⊢
    generalize m'.outcome? = outcome' at houtcome ⊢
    cases houtcome <;> rfl
  · simp only [error?]
    generalize m.outcome? = outcome at houtcome ⊢
    generalize m'.outcome? = outcome' at houtcome ⊢
    cases houtcome with
    | none => rfl
    | some outcomes => cases outcomes <;> rfl

theorem runAlike (hq : q.Keyed key table table') (h : m.Rewrites q w m') (limit : Nat) :
    RunAlike (m.run ⟨table, limit⟩ ·) (m'.run ⟨table', limit⟩ ·) where
  forth := .of_later fun now => by
    obtain ⟨steps, hsteps, steps', -, x, hrewrites⟩ := h.later hq limit now
    exact ⟨steps, hsteps, steps', hrewrites.alike⟩
  back := .of_later fun now => by
    obtain ⟨steps, -, steps', hsteps', x, hrewrites⟩ := h.later hq limit now
    exact ⟨steps', hsteps', steps, hrewrites.alike.symm⟩

/-- The runs of both programs are about to begin. -/
theorem start (h : q.before.Rewrites q.way q.after) (sink : Sink) :
    ∃ w, Machine.Rewrites q w (q.before.launch (.start sink)) (q.after.launch (.start sink)) := by
  let global : ScopeStack Value := .global
  let w : Links := ⟨[0], global.parent?, global.parent?⟩
  have hahead : Ahead q w 0 0 [] q.before.declarations q.after.declarations :=
    .initial (.global h) rfl (List.append_nil _).symm h rfl (.inl ⟨rfl, rfl⟩)
      ⟨List.mem_cons_self, List.subset_cons_self ..⟩ ⟨List.mem_cons_self, List.subset_cons_self ..⟩
  have hscopes : global.Rewrites q w global := by
    refine ⟨rfl, List.nodup_singleton 0, List.forall_mem_singleton.2 Nat.one_pos, rfl, rfl, fun f f' _ i => ?_⟩
    rw [ScopeStack.slot?_global, ScopeStack.slot?_global]
    exact .none
  exact ⟨w, .enter (.sequence hahead .nil), hscopes, rfl, rfl⟩

end Rewrites

theorem Rekeys.alike {activations : List Activation} {m m' : Machine} (h : m.Rekeys key activations m') :
    m.Alike m' :=
  .of_outcome h.outcome.1 h.outcome.2

end Machine

/-- With the addresses that resolution gives to each of the two programs, their runs are alike. -/
theorem Program.Rewrites.runAlike {r : Rewriting} {p p' : Program} (h : p.Rewrites r p') (hids : p.DistinctIdentities)
    {addresses addresses' : Resolutions} (hp : Resolutions.ofProgram p = .ok addresses)
    (hp' : Resolutions.ofProgram p' = .ok addresses') (limit : Nat) (sink : Sink) :
    Machine.RunAlike ((p.launch (.start sink)).run ⟨addresses, limit⟩ ·)
      ((p'.launch (.start sink)).run ⟨addresses', limit⟩ ·) := by
  obtain ⟨key, hkey⟩ := exists_key
  obtain ⟨table, hkeyed⟩ := Resolutions.exists_keyed hids hp hkey
  obtain ⟨table', hkeyed'⟩ := Resolutions.exists_keyed (h.distinctIdentities hids) hp' hkey
  have hfirst (steps : Nat) : ((p.launch (.start sink)).run ⟨addresses, limit⟩ steps).Alike
      ((p.launch (.start sink)).run ⟨table, limit⟩ steps) := by
    obtain ⟨_, -, hrekeys⟩ := Run.rekeyed hkeyed limit sink steps
    exact hrekeys.alike
  have hsecond (steps : Nat) : ((p'.launch (.start sink)).run ⟨addresses', limit⟩ steps).Alike
      ((p'.launch (.start sink)).run ⟨table', limit⟩ steps) := by
    obtain ⟨_, -, hrekeys⟩ := Run.rekeyed hkeyed' limit sink steps
    exact hrekeys.alike
  have hq : Pair.Keyed ⟨r, p, p'⟩ key table table' := ⟨⟨_, hkeyed⟩, ⟨_, hkeyed'⟩⟩
  obtain ⟨w, hstart⟩ := Machine.Rewrites.start (q := ⟨r, p, p'⟩) h sink
  have halike := hstart.runAlike hq limit
  exact ⟨halike.forth.congr hfirst fun steps => (hsecond steps).symm,
    halike.back.congr hsecond fun steps => (hfirst steps).symm⟩

end LexScript
