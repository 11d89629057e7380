import LexScript.Proofs.Machine.Addresses
import LexScript.Proofs.Machine.Balance

/-!
# Variables that have values

Where code runs, the variables that stand before it have values, in its own frame and in those around it,
out to that of the nearest function. A continuation may count on variables that are still to be declared,
as long as it acts only after the end of what declares them. `Machine.Ready` says so of all that a machine
is to do.
-/

namespace LexScript

def Decl.variables (ds : List Decl) : List Identifier := ds.filterMap Decl.variable?

def Scope.IsFunction : Scope → Prop
  | .function .. => True
  | _ => False

namespace ScopeStack

variable (s : ScopeStack Value)

/-- The variables before the place have values in the frame, apart from those that are pending. -/
def Declared (pending : List Identifier) (f : FrameId) (p : Place) : Prop :=
  ∀ i ∈ Decl.variables (p.scope.declarations.take p.position),
    i ∈ pending ∨ (s.slot? f (p.scope.slot i.name)).isSome

/-- So do, without exception, those in the frames around, out to that of the nearest function. -/
inductive Ready : List Identifier → FrameId → List Place → Prop
  | function {pending : List Identifier} {f : FrameId} {p : Place} {places : List Place}
    (here : s.Declared pending f p) (function : p.scope.IsFunction) : Ready pending f (p :: places)
  | outermost {pending : List Identifier} {f : FrameId} {p : Place} (here : s.Declared pending f p) :
    Ready pending f [p]
  | inner {pending : List Identifier} {f g : FrameId} {p : Place} {places : List Place}
    (here : s.Declared pending f p) (parent : s.parent? f = some g) (outer : Ready [] g places) :
    Ready pending f (p :: places)

end ScopeStack

/-- What a part of a run comes to, unless it fails or returns: a value, or the end of what declares these
variables of the current frame. -/
inductive Promise
  | value
  | finish (pending : List Identifier)

/-- The outcome is the promised one, and nothing is pending any more, or it is an error or a return. -/
inductive Outcome.Keeps : Promise → Outcome → Prop
  | value (v : Value) : Keeps .value (.value v)
  | normal : Keeps (.finish []) .normal
  | returned (pending : List Identifier) (v : Value) : Keeps (.finish pending) (.returned v)
  | failed (promise : Promise) (e : Error) : Keeps promise (.failed e)

section

variable (program : Program) (activations : List Activation) (s : ScopeStack Value)

/-- These are the last declarations of the innermost scope, from its place on. -/
def Decl.RestAt (ds : List Decl) (places : List Place) : Prop :=
  ∃ here outer, places = here :: outer ∧ here.scope.declarations.drop here.position = ds ∧
    Decl.partsFrom here.scope here.position outer ds ⊆ program.parts

/-- Code with the given property stands at places before which the variables have values. -/
def ReadyAround (pending : List Identifier) (f : FrameId) (code : List Place → Prop) : Prop :=
  ∃ places, Nest activations f (places.map Place.scope) ∧ s.Ready pending f places ∧ code places

/-- The code of a continuation is ready when what it awaits has come, and it comes to the second promise
itself. -/
inductive Continuation.Ready (f : FrameId) : Promise → Continuation → Promise → Prop
  | operand {operator : BinaryOperator} {right : Expr} {line : Nat}
    (code : ReadyAround activations s [] f (right.At program line)) :
    Ready f .value (.operand operator right line) .value
  | binary (operator : BinaryOperator) (left : Value) (line : Nat) :
    Ready f .value (.binary operator left line) .value
  | unary (operator : UnaryOperator) (line : Nat) : Ready f .value (.unary operator line) .value
  | assign {target : Identifier} {line : Nat}
    (code : ReadyAround activations s [] f fun places =>
      .use target line places ∈ program.occurrences) :
    Ready f .value (.assign target line) .value
  | callee {arguments : List Expr} {line : Nat}
    (code : ReadyAround activations s [] f (Expr.AllAt program line arguments)) :
    Ready f .value (.callee arguments line) .value
  | argument {closure : Closure} {values : List Value} {rest : List Expr} {line : Nat}
    (code : ReadyAround activations s [] f (Expr.AllAt program line rest)) :
    Ready f .value (.argument closure values rest line) .value
  | discard : Ready f .value .discard (.finish [])
  | print (line : Nat) : Ready f .value (.print line) (.finish [])
  | branch {line : Nat} {thenBranch : Stmt} {elseBranch : Option Stmt}
    (thenCode : ReadyAround activations s [] f (thenBranch.At program))
    (elseCode : ∀ st, elseBranch = some st → ReadyAround activations s [] f (st.At program)) :
    Ready f .value (.branch line thenBranch elseBranch) (.finish [])
  | test {loop : Loop} (code : ReadyAround activations s [] f (loop.At program)) :
    Ready f .value (.test loop) (.finish [])
  | step {loop : Loop} (code : ReadyAround activations s [] f (loop.At program)) :
    Ready f (.finish []) (.step loop) (.finish [])
  | again {loop : Loop} {pending : List Identifier}
    (code : ReadyAround activations s pending f (loop.At program)) :
    Ready f (.finish pending) (.again loop) (.finish [])
  | ret : Ready f .value .ret (.finish [])
  | bind (identifier : Identifier) (line : Nat) :
    Ready f .value (.bind identifier line) (.finish [identifier])
  | sequence {rest : List Decl} {pending : List Identifier}
    (code : ReadyAround activations s pending f (Decl.RestAt program rest)) :
    Ready f (.finish pending) (.sequence rest) (.finish (pending ++ Decl.variables rest))
  | leave (pending : List Identifier) (g : FrameId) : Ready f (.finish pending) (.leave g) (.finish [])
  | endCall (pending : List Identifier) (g : FrameId) (closure : Closure) (line : Nat) :
    Ready f (.finish pending) (.endCall g closure line) .value

/-- The continuations are ready one after the other, if the first waits while the frame is current. -/
inductive Continuation.AllReady : FrameId → Promise → List Continuation → Prop
  | nil (f : FrameId) (promise : Promise) : AllReady f promise []
  | cons {f : FrameId} {promise next : Promise} {c : Continuation} {k : List Continuation}
    (ready : c.Ready program activations s f promise next) (rest : AllReady (c.after f) next k) :
    AllReady f promise (c :: k)

inductive Control.Ready (f : FrameId) : Promise → Control → Prop
  | eval {line : Nat} {e : Expr} (code : ReadyAround activations s [] f (e.At program line)) :
    Ready f .value (.eval line e)
  | exec {st : Stmt} (code : ReadyAround activations s [] f (st.At program)) :
    Ready f (.finish []) (.exec st)
  | enter {declarations : List Decl}
    (code : ReadyAround activations s [] f (Decl.RestAt program declarations)) :
    Ready f (.finish (Decl.variables declarations)) (.enter declarations)
  | call (closure : Closure) (arguments : List Value) (line : Nat) :
    Ready f .value (.call closure arguments line)
  | ended {promise : Promise} {outcome : Outcome} (keeps : outcome.Keeps promise) :
    Ready f promise (.ended outcome)

def Machine.Ready (m : Machine) : Prop :=
  ∃ promise, m.control.Ready program activations m.store.scopes m.store.scopes.current promise ∧
    Continuation.AllReady program activations m.store.scopes m.store.scopes.current promise m.stack

end

section

variable {program : Program} {activations : List Activation} {s t : ScopeStack Value}
  {pending more : List Identifier} {f : FrameId} {promise next : Promise} {k : List Continuation}

theorem ScopeStack.Declared.mono {p : Place} (h : s.Declared pending f p) (hst : s.Grows t) :
    t.Declared pending f p :=
  fun i hi => (h i hi).imp id (hst.slots f _)

theorem ScopeStack.Ready.mono {places : List Place} (h : s.Ready pending f places) (hst : s.Grows t) :
    t.Ready pending f places := by
  induction h with
  | function here function => exact .function (here.mono hst) function
  | outermost here => exact .outermost (here.mono hst)
  | inner here parent outer ih => exact .inner (here.mono hst) (hst.parents _ _ parent) ih

theorem ReadyAround.imp {P Q : List Place → Prop} (h : ReadyAround activations s pending f P)
    (hPQ : ∀ places, P places → Q places) : ReadyAround activations s pending f Q := by
  obtain ⟨places, hnest, hready, hP⟩ := h
  exact ⟨places, hnest, hready, hPQ places hP⟩

theorem ReadyAround.mono {P : List Place → Prop} (h : ReadyAround activations s pending f P)
    (later : List Activation) (hst : s.Grows t) : ReadyAround (activations ++ later) t pending f P := by
  obtain ⟨places, hnest, hready, hP⟩ := h
  exact ⟨places, hnest.append later, hready.mono hst, hP⟩

theorem ReadyAround.of_grows {P : List Place → Prop} (h : ReadyAround activations s pending f P)
    (hst : s.Grows t) : ReadyAround activations t pending f P := by
  simpa using h.mono [] hst

theorem Continuation.Ready.mono {c : Continuation} (h : c.Ready program activations s f promise next)
    (later : List Activation) (hst : s.Grows t) :
    c.Ready program (activations ++ later) t f promise next := by
  cases h with
  | operand code => exact .operand (code.mono later hst)
  | assign code => exact .assign (code.mono later hst)
  | callee code => exact .callee (code.mono later hst)
  | argument code => exact .argument (code.mono later hst)
  | branch thenCode elseCode =>
    exact .branch (thenCode.mono later hst) fun st hs => (elseCode st hs).mono later hst
  | test code => exact .test (code.mono later hst)
  | step code => exact .step (code.mono later hst)
  | again code => exact .again (code.mono later hst)
  | sequence code => exact .sequence (code.mono later hst)
  | _ => constructor

theorem Continuation.AllReady.mono (h : AllReady program activations s f promise k)
    (later : List Activation) (hst : s.Grows t) :
    AllReady program (activations ++ later) t f promise k := by
  induction h with
  | nil f promise => exact .nil f promise
  | cons ready _ ih => exact .cons (ready.mono later hst) ih

theorem Continuation.AllReady.of_grows (h : AllReady program activations s f promise k)
    (hst : s.Grows t) : AllReady program activations t f promise k := by
  simpa using h.mono [] hst

/-! ## Variables that are declared -/

/-- Only the innermost place and its frame matter to what is pending. -/
theorem ScopeStack.Ready.of_head {p q : Place} {places : List Place}
    (h : s.Ready pending f (p :: places)) (hscope : q.scope = p.scope)
    (hhere : s.Declared pending f p → s.Declared more f q) : s.Ready more f (q :: places) := by
  cases h with
  | function here function => exact .function (hhere here) (hscope ▸ function)
  | outermost here => exact .outermost (hhere here)
  | inner here parent outer => exact .inner (hhere here) parent outer

/-- Variables that have got their values are not pending any more. -/
theorem ReadyAround.declared {a : Activation} (ha : activations[f]? = some a)
    (hpending : ∀ i ∈ pending, (s.slot? f (a.scope.slot i.name)).isSome) {P : List Place → Prop}
    (h : ReadyAround activations s (pending ++ more) f P) : ReadyAround activations s more f P := by
  obtain ⟨places, hnest, hready, hP⟩ := h
  cases places with
  | nil => cases hready
  | cons p places =>
    refine ⟨_, hnest, hready.of_head rfl fun hhere i hi => ?_, hP⟩
    obtain ⟨outer, hp⟩ := hnest.head
    obtain rfl := Option.some.inj (ha.symm.trans hp)
    rcases hhere i hi with hmem | hslot
    · exact (List.mem_append.1 hmem).elim (fun hi => .inr (hpending i hi)) .inl
    · exact .inr hslot

/-- What a continuation comes to when less is pending. -/
theorem Continuation.AllReady.declared {a : Activation} (ha : activations[f]? = some a)
    (hpending : ∀ i ∈ pending, (s.slot? f (a.scope.slot i.name)).isSome)
    (h : AllReady program activations s f (.finish (pending ++ more)) k) :
    AllReady program activations s f (.finish more) k := by
  induction k generalizing more with
  | nil => exact .nil f _
  | cons c k ih =>
    cases h with
    | cons ready rest =>
      generalize hall : pending ++ more = all at ready
      cases ready with
      | step code =>
        obtain ⟨-, rfl⟩ := List.append_eq_nil_iff.1 hall
        exact .cons (.step code) rest
      | again code =>
        subst hall
        exact .cons (.again (code.declared ha hpending)) rest
      | sequence code =>
        subst hall
        rw [List.append_assoc] at rest
        exact .cons (.sequence (code.declared ha hpending)) (ih rest)
      | leave => exact .cons (.leave more _) rest
      | endCall => exact .cons (.endCall more _ _ _) rest

/-- What passes a continuation by keeps the promise of the continuation. -/
theorem Outcome.Keeps.of_passes {c : Continuation} {outcome : Outcome} (ho : outcome.Keeps promise)
    (hc : c.Ready program activations s f promise next) (hpasses : c.Passes outcome) :
    outcome.Keeps next := by
  cases ho with
  | failed _ e => exact .failed next e
  | value v =>
    refine absurd ?_ hpasses.not_accepts
    cases hc <;> constructor
  | normal =>
    generalize hnone : ([] : List Identifier) = none at hc
    cases hc with
    | sequence code =>
      subst hnone
      rename_i rest
      cases rest with
      | nil => exact .normal
      | cons d ds => exact absurd (.sequence d ds) hpasses.not_accepts
    | _ =>
      refine absurd ?_ hpasses.not_accepts
      constructor
  | returned pending v =>
    cases hc with
    | leave | endCall =>
      refine absurd ?_ hpasses.not_accepts
      constructor
    | _ => exact .returned _ v

/-- Behind a scope, nothing of it is pending. -/
theorem Outcome.Keeps.of_finish {outcome : Outcome} (h : outcome.Keeps (.finish pending)) :
    outcome.Keeps (.finish []) := by
  cases h with
  | normal => exact .normal
  | returned _ v => exact .returned [] v
  | failed _ e => exact .failed _ e

/-- A call comes to a value. -/
theorem Closure.answer_keeps {outcome : Outcome} (h : outcome.Keeps (.finish pending)) (c : Closure)
    (line : Nat) : (c.answer line outcome).Keeps .value := by
  cases h with
  | normal =>
    rw [Closure.answer]
    split
    · exact .value .void
    · exact .failed _ _
  | returned _ v => exact .value v
  | failed _ e => exact .failed _ e

end

end LexScript
