import LexScript.Proofs.Machine.Rekeying
import LexScript.Proofs.Scope.RewrittenParts
import LexScript.Proofs.Value.Operator
import Mathlib.Data.Option.Basic
import Mathlib.Data.Rel

/-!
# Machines of rewritten programs

A rewritten program makes more frames than the program. Each frame of the first run has a partner in the second, and
code is run in frames that lie one within the other as its places do. So a name that is used leads to partners, and
these hold the same values, as far as closures can be the same whose bodies are rewritten: `Store.Rewrites`. What is
left to do is the same but for a loop that is unrolled, which awaits its rounds in another way: `Stack`.
-/

namespace LexScript

structure Pair where
  way : Rewriting
  before : Program
  after : Program

/-- How the frames of two runs go together: the partner in the second run of each frame of the first, and the frames
around the frames of both. -/
structure Links where
  partners : List FrameId
  outer : FrameId → Option FrameId
  outer' : FrameId → Option FrameId

namespace Links

def Linked (w : Links) (f f' : FrameId) : Prop := w.partners[f]? = some f'

structure Grows (w x : Links) : Prop where
  partners : w.partners <+: x.partners
  outer : ∀ f g, w.outer f = some g → x.outer f = some g
  outer' : ∀ f g, w.outer' f = some g → x.outer' f = some g

end Links

section

variable (q : Pair) (w : Links)

/-- The frames lie in the frames of these places. The second run makes a frame of its own for a place that was not
there before. -/
inductive Chain : FrameId → FrameId → List Place → List Place → Prop
  | outermost {f f' : FrameId} {p p' : Place} (link : w.Linked f f') (here : p.Rewrites q.way p') :
    Chain f f' [p] [p']
  | inner {f f' g g' : FrameId} {p p' : Place} {places places' : List Place} (link : w.Linked f f')
    (here : p.Rewrites q.way p') (outer : w.outer f = some g) (outer' : w.outer' f' = some g')
    (around : Chain g g' places places') : Chain f f' (p :: places) (p' :: places')
  | idle {f f' g' : FrameId} {p : Place} {places places' : List Place} (here : p.Idle)
    (outer' : w.outer' f' = some g') (around : Chain f g' places places') : Chain f f' places (p :: places')

def Inside (f f' : FrameId) (places places' : List Place) : Prop :=
  (places = [] ∧ places' = []) ∨
    ∃ g g', w.outer f = some g ∧ w.outer' f' = some g' ∧ Chain q w g g' places places'

def Beside (f f' : FrameId) (code code' : List Place → Prop) : Prop :=
  ∃ places places', Chain q w f f' places places' ∧ code places ∧ code' places'

structure Scope.OpenedIn (program : Program) (outer : List Place) (scope : Scope) : Prop where
  opening : .opening scope outer ∈ program.parts
  parts : Decl.partsFrom scope 0 outer scope.declarations ⊆ program.parts

/-! ## Values and what is left to do -/

structure Closure.Rewrites (c d : Closure) : Prop where
  header : d.header = c.header
  body : Decl.AllRewrites q.way c.body c.body d.body
  link : w.Linked c.frame d.frame
  code : Beside q w c.frame d.frame (fun places => Scope.OpenedIn q.before places (.function c.header c.body))
    fun places => Scope.OpenedIn q.after places (.function c.header d.body)

inductive Value.Rewrites : Value → Value → Prop
  | number (x : Float) : Rewrites (.number x) (.number x)
  | boolean (b : Bool) : Rewrites (.boolean b) (.boolean b)
  | string (s : String) : Rewrites (.string s) (.string s)
  | function {c d : Closure} (closures : c.Rewrites q w d) : Rewrites (.function c) (.function d)
  | void : Rewrites .void .void

inductive Outcome.Rewrites : Outcome → Outcome → Prop
  | value {v v' : Value} (values : v.Rewrites q w v') : Rewrites (.value v) (.value v')
  | normal : Rewrites .normal .normal
  | returned {v v' : Value} (values : v.Rewrites q w v') : Rewrites (.returned v) (.returned v')
  | failed (e : Error) : Rewrites (.failed e) (.failed e)

structure Stmt.Paired (f f' : FrameId) (s s' : Stmt) : Prop where
  rewrites : s.Rewrites q.way s'
  code : Beside q w f f' (s.At q.before) (s'.At q.after)

inductive Loop.Paired (f f' : FrameId) : Loop → Loop → Prop
  | intro (line : Nat) (condition : Expr) (step : Option (Nat × Expr)) {body body' : Stmt}
    (inside : body.Rewrites q.way body')
    (code : Beside q w f f' (Loop.At q.before ⟨line, condition, step, body⟩)
      (Loop.At q.after ⟨line, condition, step, body'⟩)) :
    Paired f f' ⟨line, condition, step, body⟩ ⟨line, condition, step, body'⟩

/-- A `for` loop that is a `while` loop in the rewritten program. -/
structure Unrolled (f f' : FrameId) (line : Nat) (condition : Expr) (stepLine : Nat) (step : Expr)
    (body body' : Stmt) : Prop where
  inside : body.Rewrites q.way body'
  code : Beside q w f f' (Loop.At q.before ⟨line, condition, some (stepLine, step), body⟩)
    (Stmt.At q.after (.rounds line condition stepLine step body'))

/-- The declarations that are left in scopes of which these frames are activations. In the second scope statements
may follow. -/
inductive Ahead (f f' : FrameId) (rest : List Stmt) : List Decl → List Decl → Prop
  | intro {scope scope' : Scope} {i j : Nat} {outer outer' : List Place} {ds ds' : List Decl}
    (link : w.Linked f f') (here : Place.Rewrites q.way ⟨scope, i⟩ ⟨scope', j⟩)
    (around : Inside q w f f' outer outer') (left : scope.declarations.drop i = ds)
    (left' : scope'.declarations.drop j = ds' ++ rest.map .statement)
    (rewrites : Decl.AllRewrites q.way scope.declarations ds ds')
    (opening : .opening scope outer ∈ q.before.parts) (opening' : .opening scope' outer' ∈ q.after.parts)
    (parts : Decl.partsFrom scope i outer ds ⊆ q.before.parts)
    (parts' : Decl.partsFrom scope' j outer' ds' ⊆ q.after.parts) : Ahead f f' rest ds ds'

structure Identifier.Bound (i : Identifier) : Prop where
  before : ∃ scope, .binding i scope ∈ q.before.parts
  after : ∃ scope, .binding i scope ∈ q.after.parts

/-- Continuations that wait in these frames for the same, but for functions, loops and what stands in declarations. -/
inductive Continuation.Rewrites (f f' : FrameId) : Continuation → Continuation → Prop
  | operand (operator : BinaryOperator) {right : Expr} {line : Nat}
    (code : Beside q w f f' (right.At q.before line) (right.At q.after line)) :
    Rewrites f f' (.operand operator right line) (.operand operator right line)
  | binary (operator : BinaryOperator) {left left' : Value} (line : Nat) (values : left.Rewrites q w left') :
    Rewrites f f' (.binary operator left line) (.binary operator left' line)
  | unary (operator : UnaryOperator) (line : Nat) : Rewrites f f' (.unary operator line) (.unary operator line)
  | assign {target : Identifier} {line : Nat}
    (code : Beside q w f f' (fun places => .use target line places ∈ q.before.occurrences)
      fun places => .use target line places ∈ q.after.occurrences) :
    Rewrites f f' (.assign target line) (.assign target line)
  | callee {arguments : List Expr} {line : Nat}
    (code : Beside q w f f' (Expr.AllAt q.before line arguments) (Expr.AllAt q.after line arguments)) :
    Rewrites f f' (.callee arguments line) (.callee arguments line)
  | argument {c d : Closure} {vs ws : List Value} {rest : List Expr} {line : Nat} (closures : c.Rewrites q w d)
    (values : List.Forall₂ (Value.Rewrites q w) vs ws)
    (code : Beside q w f f' (Expr.AllAt q.before line rest) (Expr.AllAt q.after line rest)) :
    Rewrites f f' (.argument c vs rest line) (.argument d ws rest line)
  | discard : Rewrites f f' .discard .discard
  | print (line : Nat) : Rewrites f f' (.print line) (.print line)
  | branch (line : Nat) {thenBranch thenBranch' : Stmt} {elseBranch elseBranch' : Option Stmt}
    (first : thenBranch.Paired q w f f' thenBranch')
    (second : Option.Rel (Stmt.Paired q w f f') elseBranch elseBranch') :
    Rewrites f f' (.branch line thenBranch elseBranch) (.branch line thenBranch' elseBranch')
  | test {loop loop' : Loop} (loops : loop.Paired q w f f' loop') : Rewrites f f' (.test loop) (.test loop')
  | step {loop loop' : Loop} (loops : loop.Paired q w f f' loop') : Rewrites f f' (.step loop) (.step loop')
  | again {loop loop' : Loop} (loops : loop.Paired q w f f' loop') : Rewrites f f' (.again loop) (.again loop')
  | ret : Rewrites f f' .ret .ret
  | bind {i : Identifier} (line : Nat) (link : w.Linked f f') (bound : i.Bound q) :
    Rewrites f f' (.bind i line) (.bind i line)

/-- What is left to do in both runs, if these frames are current. The last four are the stages of a loop that is
unrolled: its first declaration, its condition, its body and its step. The body and the step are in a frame that only
the second run has. -/
inductive Stack : FrameId → FrameId → List Continuation → List Continuation → Prop
  | nil {f f' : FrameId} : Stack f f' [] []
  | cons {f f' : FrameId} {c c' : Continuation} {k k' : List Continuation} (first : c.Rewrites q w f f' c')
    (rest : Stack f f' k k') : Stack f f' (c :: k) (c' :: k')
  | sequence {f f' : FrameId} {ds ds' : List Decl} {k k' : List Continuation} (ahead : Ahead q w f f' [] ds ds')
    (rest : Stack f f' k k') : Stack f f' (.sequence ds :: k) (.sequence ds' :: k')
  | leave {f f' g g' : FrameId} {k k' : List Continuation} (rest : Stack g g' k k') :
    Stack f f' (.leave g :: k) (.leave g' :: k')
  | endCall {f f' g g' : FrameId} {c d : Closure} (line : Nat) {k k' : List Continuation}
    (closures : c.Rewrites q w d) (rest : Stack g g' k k') :
    Stack f f' (.endCall g c line :: k) (.endCall g' d line :: k')
  | start {f f' : FrameId} {line : Nat} {condition : Expr} {stepLine : Nat} {step : Expr} {body body' : Stmt}
    {ds ds' : List Decl} {k k' : List Continuation}
    (ahead : Ahead q w f f' [.rounds line condition stepLine step body'] ds ds')
    (loops : Unrolled q w f f' line condition stepLine step body body') (rest : Stack f f' k k') :
    Stack f f' (.sequence ds :: .again ⟨line, condition, some (stepLine, step), body⟩ :: k)
      (.sequence (ds' ++ [.statement (.rounds line condition stepLine step body')]) :: k')
  | test {f f' : FrameId} {line : Nat} {condition : Expr} {stepLine : Nat} {step : Expr} {body body' : Stmt}
    {k k' : List Continuation} (loops : Unrolled q w f f' line condition stepLine step body body')
    (rest : Stack f f' k k') :
    Stack f f' (.test ⟨line, condition, some (stepLine, step), body⟩ :: k)
      (.test ⟨line, condition, none, .round line stepLine step body'⟩ :: .sequence [] :: k')
  | body {f f' g' : FrameId} {line : Nat} {condition : Expr} {stepLine : Nat} {step : Expr} {body body' : Stmt}
    {k k' : List Continuation} (outer' : w.outer' g' = some f')
    (loops : Unrolled q w f f' line condition stepLine step body body') (rest : Stack f f' k k') :
    Stack f g' (.step ⟨line, condition, some (stepLine, step), body⟩ :: k)
      (.sequence [.statement (.expression stepLine step)] :: .leave f' ::
        .step ⟨line, condition, none, .round line stepLine step body'⟩ :: .sequence [] :: k')
  | step {f f' g' : FrameId} {line : Nat} {condition : Expr} {stepLine : Nat} {step : Expr} {body body' : Stmt}
    {k k' : List Continuation} (loops : Unrolled q w f f' line condition stepLine step body body')
    (rest : Stack f f' k k') :
    Stack f g' (.again ⟨line, condition, some (stepLine, step), body⟩ :: k)
      (.sequence [] :: .leave f' :: .step ⟨line, condition, none, .round line stepLine step body'⟩ ::
        .sequence [] :: k')

inductive Control.Rewrites (f f' : FrameId) (k k' : List Continuation) : Control → Control → Prop
  | eval {line : Nat} {e : Expr} (code : Beside q w f f' (e.At q.before line) (e.At q.after line))
    (stack : Stack q w f f' k k') : Rewrites f f' k k' (.eval line e) (.eval line e)
  | exec {s s' : Stmt} (statements : s.Paired q w f f' s') (stack : Stack q w f f' k k') :
    Rewrites f f' k k' (.exec s) (.exec s')
  | enter {ds ds' : List Decl} (stack : Stack q w f f' (.sequence ds :: k) (.sequence ds' :: k')) :
    Rewrites f f' k k' (.enter ds) (.enter ds')
  | call {c d : Closure} {vs ws : List Value} (line : Nat) (closures : c.Rewrites q w d)
    (values : List.Forall₂ (Value.Rewrites q w) vs ws) (stack : Stack q w f f' k k') :
    Rewrites f f' k k' (.call c vs line) (.call d ws line)
  | ended {outcome outcome' : Outcome} (outcomes : outcome.Rewrites q w outcome') (stack : Stack q w f f' k k') :
    Rewrites f f' k k' (.ended outcome) (.ended outcome')

structure ScopeStack.Rewrites (s t : ScopeStack Value) : Prop where
  size : w.partners.length = s.frames.size
  distinct : w.partners.Nodup
  lt : ∀ f' ∈ w.partners, f' < t.frames.size
  outer : s.parent? = w.outer
  outer' : t.parent? = w.outer'
  slots : ∀ f f', w.Linked f f' → ∀ i, Option.Rel (Value.Rewrites q w) (s.slot? f i) (t.slot? f' i)

structure Store.Rewrites (σ τ : Store) : Prop where
  scopes : σ.scopes.Rewrites q w τ.scopes
  depth : τ.depth = σ.depth
  sink : τ.sink = σ.sink

structure Machine.Rewrites (m m' : Machine) : Prop where
  task : m.control.Rewrites q w m.store.scopes.current m'.store.scopes.current m.stack m'.stack m'.control
  store : m.store.Rewrites q w m'.store

end

variable {q : Pair} {w x : Links} {f f' g g' : FrameId} {places places' : List Place}

/-! ## Later frames -/

theorem Links.Linked.mono (h : w.Linked f f') (hx : w.Grows x) : x.Linked f f' := by
  obtain ⟨later, hpartners⟩ := hx.partners
  simpa [Links.Linked, ← hpartners, List.getElem?_append_left (List.getElem?_eq_some_iff.1 h).1] using h

theorem Chain.mono (h : Chain q w f f' places places') (hx : w.Grows x) : Chain q x f f' places places' := by
  induction h with
  | outermost link here => exact .outermost (link.mono hx) here
  | inner link here outer outer' _ ih => exact .inner (link.mono hx) here (hx.outer _ _ outer) (hx.outer' _ _ outer') ih
  | idle here outer' _ ih => exact .idle here (hx.outer' _ _ outer') ih

theorem Inside.mono (h : Inside q w f f' places places') (hx : w.Grows x) : Inside q x f f' places places' := by
  rcases h with hempty | ⟨g, g', outer, outer', chain⟩
  · exact .inl hempty
  · exact .inr ⟨g, g', hx.outer _ _ outer, hx.outer' _ _ outer', chain.mono hx⟩

theorem Beside.mono {code code' : List Place → Prop} (h : Beside q w f f' code code') (hx : w.Grows x) :
    Beside q x f f' code code' := by
  obtain ⟨places, places', chain, hcode, hcode'⟩ := h
  exact ⟨places, places', chain.mono hx, hcode, hcode'⟩

theorem Closure.Rewrites.mono {c d : Closure} (h : c.Rewrites q w d) (hx : w.Grows x) : c.Rewrites q x d :=
  ⟨h.header, h.body, h.link.mono hx, h.code.mono hx⟩

theorem Value.Rewrites.mono {v v' : Value} (h : v.Rewrites q w v') (hx : w.Grows x) : v.Rewrites q x v' := by
  cases h with
  | function closures => exact .function (closures.mono hx)
  | _ => constructor

theorem Value.Rewrites.mono_all {vs ws : List Value} (h : List.Forall₂ (Value.Rewrites q w) vs ws)
    (hx : w.Grows x) : List.Forall₂ (Value.Rewrites q x) vs ws :=
  h.imp fun _ _ hv => hv.mono hx

theorem Stmt.Paired.mono {s s' : Stmt} (h : s.Paired q w f f' s') (hx : w.Grows x) : s.Paired q x f f' s' :=
  ⟨h.rewrites, h.code.mono hx⟩

theorem Loop.Paired.mono {loop loop' : Loop} (h : loop.Paired q w f f' loop') (hx : w.Grows x) :
    loop.Paired q x f f' loop' := by
  cases h with
  | intro line condition step inside code => exact .intro line condition step inside (code.mono hx)

theorem Unrolled.mono {line stepLine : Nat} {condition step : Expr} {body body' : Stmt}
    (h : Unrolled q w f f' line condition stepLine step body body') (hx : w.Grows x) :
    Unrolled q x f f' line condition stepLine step body body' :=
  ⟨h.inside, h.code.mono hx⟩

theorem Ahead.mono {rest : List Stmt} {ds ds' : List Decl} (h : Ahead q w f f' rest ds ds') (hx : w.Grows x) :
    Ahead q x f f' rest ds ds' := by
  cases h with
  | intro link here around left left' rewrites opening opening' parts parts' =>
    exact .intro (link.mono hx) here (around.mono hx) left left' rewrites opening opening' parts parts'

theorem Continuation.Rewrites.mono {c c' : Continuation} (h : c.Rewrites q w f f' c') (hx : w.Grows x) :
    c.Rewrites q x f f' c' := by
  cases h with
  | operand operator code => exact .operand operator (code.mono hx)
  | binary operator line values => exact .binary operator line (values.mono hx)
  | assign code => exact .assign (code.mono hx)
  | callee code => exact .callee (code.mono hx)
  | argument closures values code =>
    exact .argument (closures.mono hx) (Value.Rewrites.mono_all values hx) (code.mono hx)
  | branch line first second =>
    refine .branch line (first.mono hx) ?_
    cases second with
    | none => exact .none
    | some statements => exact .some (statements.mono hx)
  | test loops => exact .test (loops.mono hx)
  | step loops => exact .step (loops.mono hx)
  | again loops => exact .again (loops.mono hx)
  | bind line link bound => exact .bind line (link.mono hx) bound
  | _ => constructor

theorem Stack.mono {k k' : List Continuation} (h : Stack q w f f' k k') (hx : w.Grows x) : Stack q x f f' k k' := by
  induction h with
  | nil => exact .nil
  | cons first _ ih => exact .cons (first.mono hx) ih
  | sequence ahead _ ih => exact .sequence (ahead.mono hx) ih
  | leave _ ih => exact .leave ih
  | endCall line closures _ ih => exact .endCall line (closures.mono hx) ih
  | start ahead loops _ ih => exact .start (ahead.mono hx) (loops.mono hx) ih
  | test loops _ ih => exact .test (loops.mono hx) ih
  | body outer' loops _ ih => exact .body (hx.outer' _ _ outer') (loops.mono hx) ih
  | step loops _ ih => exact .step (loops.mono hx) ih

/-! ## Places -/

/-- What is inside the frames of places is in their chain. -/
theorem Inside.chain {p p' : Place} (h : Inside q w f f' places places') (hlink : w.Linked f f')
    (hhere : p.Rewrites q.way p') : Chain q w f f' (p :: places) (p' :: places') := by
  rcases h with ⟨rfl, rfl⟩ | ⟨g, g', outer, outer', chain⟩
  · exact .outermost hlink hhere
  · exact .inner hlink hhere outer outer' chain

/-- New frames lie inside those that they are made in. -/
theorem Chain.inside (h : Chain q w g g' places places') (hf : w.outer f = some g) (hf' : w.outer' f' = some g') :
    Inside q w f f' places places' :=
  .inr ⟨g, g', hf, hf', h⟩

/-- Code at places inside the ones of other code. -/
theorem Beside.imp {code code' other other' : List Place → Prop} (h : Beside q w f f' code code')
    (hcode : ∀ places, code places → other places) (hcode' : ∀ places, code' places → other' places) :
    Beside q w f f' other other' := by
  obtain ⟨places, places', chain, hc, hc'⟩ := h
  exact ⟨places, places', chain, hcode places hc, hcode' places' hc'⟩

/-! ## Values -/

namespace Value.Rewrites

variable {v v' u u' : Value}

theorem alike (h : v.Rewrites q w v') : v.Alike v' := by
  cases h with
  | function => exact .functions ..
  | _ => exact .refl _

theorem text (h : v.Rewrites q w v') : v'.text = v.text := by
  cases h with
  | function closures => simp [Value.text, closures.header]
  | _ => rfl

end Value.Rewrites

/-- Values that are no functions stay as they are. -/
theorem Value.Scoped.rewrites {v : Value} (h : v.Scoped []) : v.Rewrites q w v := by
  cases v with
  | function c => exact absurd h c.not_scoped_nil
  | _ => constructor

theorem Literal.toValue_rewrites (literal : Literal) : literal.toValue.Rewrites q w literal.toValue := by
  cases literal <;> constructor

theorem Outcome.ofResult_rewrites {result : Except Cause Value} (hok : ∀ v, result = .ok v → v.Scoped [])
    (line : Nat) : (Outcome.ofResult line result).Rewrites q w (Outcome.ofResult line result) := by
  cases result with
  | ok v => exact .value (hok v rfl).rewrites
  | error cause => exact .failed _

theorem Closure.Rewrites.answer {c d : Closure} (h : c.Rewrites q w d) {outcome outcome' : Outcome}
    (ho : outcome.Rewrites q w outcome') (line : Nat) :
    (c.answer line outcome).Rewrites q w (d.answer line outcome') := by
  cases ho with
  | value values => exact .value values
  | normal =>
    simp only [Closure.answer, h.header]
    split
    · exact .value .void
    · exact .failed _
  | returned values => exact .value values
  | failed e => exact .failed e

/-! ## Frames -/

namespace ScopeStack.Rewrites

variable {s t : ScopeStack Value}

theorem lt_left (h : s.Rewrites q w t) (hlink : w.Linked f f') : f < s.frames.size := by
  rw [← h.size]
  exact (List.getElem?_eq_some_iff.1 hlink).1

theorem lt_right (h : s.Rewrites q w t) (hlink : w.Linked f f') : f' < t.frames.size :=
  h.lt f' (List.mem_of_getElem? hlink)

/-- No frame has two partners, and none is the partner of two. -/
theorem linked_iff (h : s.Rewrites q w t) (hf : w.Linked f f') (hg : w.Linked g g') : f = g ↔ f' = g' := by
  constructor
  · rintro rfl
    exact Option.some.inj (hf.symm.trans hg)
  · rintro rfl
    exact (List.getElem?_inj (List.getElem?_eq_some_iff.1 hf).1 h.distinct).1 (hf.trans hg.symm)

theorem restore (h : s.Rewrites q w t) (f f' : FrameId) : (s.restore f).Rewrites q w (t.restore f') :=
  ⟨h.size, h.distinct, h.lt, h.outer, h.outer', h.slots⟩

theorem write (h : s.Rewrites q w t) (hlink : w.Linked f f') {v v' : Value} (hv : v.Rewrites q w v') (i : Nat) :
    (s.write f i v).Rewrites q w (t.write f' i v') where
  size := h.size.trans (Array.size_modify ..).symm
  distinct := h.distinct
  lt g' hg' := by
    simpa [ScopeStack.write] using h.lt g' hg'
  outer := by
    rw [← h.outer]
    exact funext fun g => parent?_write ..
  outer' := by
    rw [← h.outer']
    exact funext fun g => parent?_write ..
  slots g g' hg j := by
    rw [slot?_write s (h.lt_left hlink), slot?_write t (h.lt_right hlink)]
    by_cases hslot : f = g ∧ i = j
    · rw [if_pos hslot, if_pos ⟨(h.linked_iff hlink hg).1 hslot.1, hslot.2⟩]
      exact .some hv
    · rw [if_neg hslot, if_neg fun hslot' => hslot ⟨(h.linked_iff hlink hg).2 hslot'.1, hslot'.2⟩]
      exact h.slots g g' hg j

/-- New frames are partners. -/
theorem enterAt (h : s.Rewrites q w t) (f f' : FrameId) :
    ∃ x, w.Grows x ∧ (s.enterAt f).Rewrites q x (t.enterAt f') ∧ x.Linked s.frames.size t.frames.size ∧
      x.outer s.frames.size = some f ∧ x.outer' t.frames.size = some f' := by
  let x : Links := ⟨w.partners ++ [t.frames.size], (s.enterAt f).parent?, (t.enterAt f').parent?⟩
  have hx : w.Grows x := by
    refine ⟨List.prefix_append .., fun g e hg => ?_, fun g e hg => ?_⟩
    · rw [← h.outer] at hg
      exact (Grows.enterAt s f).parents g e hg
    · rw [← h.outer'] at hg
      exact (Grows.enterAt t f').parents g e hg
  have hlink : x.Linked s.frames.size t.frames.size := by
    rw [Links.Linked, ← h.size]
    exact List.getElem?_concat_length
  have hparent : (s.enterAt f).parent? s.frames.size = some f := by simp [parent?_enterAt]
  have hparent' : (t.enterAt f').parent? t.frames.size = some f' := by simp [parent?_enterAt]
  refine ⟨x, hx, ⟨?_, ?_, ?_, rfl, rfl, fun g g' hg i => ?_⟩, hlink, hparent, hparent'⟩
  · rw [ScopeStack.enterAt, Array.size_push, List.length_append, h.size, List.length_singleton]
  · refine List.nodup_append.2 ⟨h.distinct, List.nodup_singleton _, fun a ha b hb => ?_⟩
    rw [List.mem_singleton.1 hb]
    exact Nat.ne_of_lt (h.lt a ha)
  · intro g' hg'
    rw [ScopeStack.enterAt, Array.size_push]
    rcases List.mem_append.1 hg' with hold | hnew
    · exact Nat.lt_succ_of_lt (h.lt g' hold)
    · rw [List.mem_singleton.1 hnew]
      exact Nat.lt_succ_self _
  · simp only [slot?_enterAt]
    by_cases hlt : g < w.partners.length
    · have hold : w.Linked g g' := by
        rw [Links.Linked, ← hg]
        exact (List.getElem?_append_left hlt).symm
      have hrel := h.slots g g' hold i
      generalize s.slot? g i = held at hrel ⊢
      generalize t.slot? g' i = held' at hrel ⊢
      cases hrel with
      | none => exact .none
      | some values => exact .some (values.mono hx)
    · -- The new frames are empty.
      have hle : s.frames.size ≤ g := h.size ▸ Nat.le_of_not_lt hlt
      have hg' : g' = t.frames.size := by
        have hmem := hg
        rw [Links.Linked, List.getElem?_append_right (Nat.le_of_not_lt hlt)] at hmem
        exact List.mem_singleton.1 (List.mem_of_getElem? hmem)
      simp only [slot?, Array.getElem?_eq_none hle, Array.getElem?_eq_none (Nat.le_of_eq hg'.symm)]
      exact .none

/-- The second run may make a frame of its own. -/
theorem enterIdle (h : s.Rewrites q w t) (f' : FrameId) :
    ∃ x, w.Grows x ∧ s.Rewrites q x (t.enterAt f') ∧ x.outer' t.frames.size = some f' := by
  let x : Links := ⟨w.partners, w.outer, (t.enterAt f').parent?⟩
  have hx : w.Grows x := by
    refine ⟨List.prefix_refl _, fun _ _ => id, fun g e hg => ?_⟩
    rw [← h.outer'] at hg
    exact (Grows.enterAt t f').parents g e hg
  have hparent' : (t.enterAt f').parent? t.frames.size = some f' := by simp [parent?_enterAt]
  refine ⟨x, hx, ⟨h.size, h.distinct, fun g' hg' => ?_, h.outer, rfl, fun g g' hg i => ?_⟩, hparent'⟩
  · simpa [ScopeStack.enterAt] using Nat.lt_succ_of_lt (h.lt g' hg')
  · rw [slot?_enterAt]
    have hrel := h.slots g g' hg i
    generalize s.slot? g i = held at hrel ⊢
    generalize t.slot? g' i = held' at hrel ⊢
    cases hrel with
    | none => exact .none
    | some values => exact .some (values.mono hx)

end ScopeStack.Rewrites

end LexScript
