import LexScript.Proofs.Machine.Continuation
import LexScript.Proofs.Machine.Nest
import LexScript.Proofs.Scope.Frames
import LexScript.Proofs.Scope.Part

/-!
# Code and frames belong together

At every moment of a run, the frames around the current one are activations of the scopes around the
code that is run, and a closure has captured an activation of the scope that declares its function.
`Machine.Scoped` says so of all that a machine holds, and `scoped_of_run` that it holds in every run.
-/

namespace LexScript

/-- Code with the given property stands at places around which the frame and those around it are
activations. -/
def Around (activations : List Activation) (f : FrameId) (code : List Place → Prop) : Prop :=
  ∃ places, Nest activations f (places.map Place.scope) ∧ code places

def Closure.Scoped (activations : List Activation) (c : Closure) : Prop :=
  ∃ a line, activations[c.frame]? = some a ∧ .function line c.header c.body ∈ a.scope.declarations

/-- Without activations, there is nothing to capture. -/
theorem Closure.not_scoped_nil (c : Closure) : ¬ c.Scoped [] := by
  rintro ⟨a, line, ha, -⟩
  cases ha

def Value.Scoped (activations : List Activation) : Value → Prop
  | .function c => c.Scoped activations
  | _ => True

def Outcome.Scoped (activations : List Activation) : Outcome → Prop
  | .value v | .returned v => v.Scoped activations
  | _ => True

section

variable (program : Program) (activations : List Activation)

/-- The scope of an activation is opened in the program, within the scopes of the frames around it. -/
def Activation.Scoped (f : FrameId) (a : Activation) : Prop :=
  ∃ outer : List Place, Nest activations f (a.scope :: outer.map Place.scope) ∧
    .opening a.scope outer ∈ program.parts ∧
    Decl.partsFrom a.scope 0 outer a.scope.declarations ⊆ program.parts

/-- The code of expressions, statements, loops and declarations, as parts of the program at places. -/
def Expr.At (line : Nat) (e : Expr) (places : List Place) : Prop :=
  e.occurrences places line ⊆ program.occurrences

def Expr.AllAt (line : Nat) (es : List Expr) (places : List Place) : Prop :=
  Expr.occurrencesOf places line es ⊆ program.occurrences

def Stmt.At (s : Stmt) (places : List Place) : Prop := s.parts places ⊆ program.parts

def Decl.AllAt (ds : List Decl) (places : List Place) : Prop :=
  ∃ here outer, places = here :: outer ∧ ds ⊆ here.scope.declarations ∧
    Decl.partsFrom here.scope here.position outer ds ⊆ program.parts

structure Loop.At (loop : Loop) (places : List Place) : Prop where
  condition : .expression .condition loop.line loop.condition places ∈ program.parts
  step : ∀ line e, loop.step = some (line, e) →
    .expression .discarded line e places ∈ program.parts
  body : loop.body.parts places ⊆ program.parts

def Continuation.Scoped (f : FrameId) : Continuation → Prop
  | .operand _ right line => Around activations f (right.At program line)
  | .binary _ left _ => left.Scoped activations
  | .assign target line =>
    Around activations f fun places => .use target line places ∈ program.occurrences
  | .callee arguments line => Around activations f (Expr.AllAt program line arguments)
  | .argument closure values rest line =>
    closure.Scoped activations ∧ (∀ v ∈ values, v.Scoped activations) ∧
      Around activations f (Expr.AllAt program line rest)
  | .branch _ thenBranch elseBranch =>
    Around activations f (thenBranch.At program) ∧
      ∀ s, elseBranch = some s → Around activations f (s.At program)
  | .test loop | .step loop | .again loop => Around activations f (loop.At program)
  | .bind identifier _ =>
    ∃ a, activations[f]? = some a ∧ .binding identifier a.scope ∈ program.parts
  | .sequence rest => Around activations f (Decl.AllAt program rest)
  | .leave g | .endCall g _ _ => g < activations.length
  | .unary .. | .discard | .print _ | .ret => True

/-- What the continuations hold, if the first waits while the frame is current. The last leave the
global frame current. -/
def Continuation.AllScoped : FrameId → List Continuation → Prop
  | f, [] => f = 0
  | f, c :: k => c.Scoped program activations f ∧ AllScoped (c.after f) k

def Control.Scoped (f : FrameId) : Control → Prop
  | .eval line e => Around activations f (e.At program line)
  | .exec s => Around activations f (s.At program)
  | .enter declarations => ∃ a, activations[f]? = some a ∧ declarations = a.scope.declarations
  | .call closure arguments _ => closure.Scoped activations ∧ ∀ v ∈ arguments, v.Scoped activations
  | .ended outcome => outcome.Scoped activations

/-- The frames are those of the activations, and what their slots hold is in order. -/
structure ScopeStack.Scoped (s : ScopeStack Value) : Prop where
  size : s.frames.size = activations.length
  current : s.current < activations.length
  global : activations[0]? = some ⟨program.scope, none⟩
  activation : ∀ (f : FrameId) (a : Activation), activations[f]? = some a →
    a.Scoped program activations f
  values : ∀ f i v, s.slot? f i = some v → v.Scoped activations

structure Machine.Scoped (m : Machine) : Prop where
  scopes : m.store.scopes.Scoped program activations
  control : m.control.Scoped program activations m.store.scopes.current
  stack : Continuation.AllScoped program activations m.store.scopes.current m.stack

end

/-! ## Statements of the program -/

namespace Stmt

variable {program : Program} {places : List Place} {line : Nat} {e : Expr} {s t : Stmt}

theorem at_expression : (expression line e).At program places ↔
    .expression .discarded line e places ∈ program.parts := by
  simp [Stmt.At, parts]

theorem at_print : (print line e).At program places ↔ .expression .printed line e places ∈ program.parts := by
  simp [Stmt.At, parts]

theorem at_ret : (ret line (some e)).At program places ↔
    .expression .returned line e places ∈ program.parts := by
  simp [Stmt.At, parts]

theorem at_block {body : List Decl} : (block line body).At program places ↔
    .opening (.block body) places ∈ program.parts ∧
      Decl.partsFrom (.block body) 0 places body ⊆ program.parts := by
  simp [Stmt.At, parts]

theorem at_ifThen : (ifThen line e s).At program places ↔
    .expression .condition line e places ∈ program.parts ∧ s.At program places := by
  simp [Stmt.At, parts]

theorem at_ifElse : (ifElse line e s t).At program places ↔
    .expression .condition line e places ∈ program.parts ∧ s.At program places ∧ t.At program places := by
  simp [Stmt.At, parts]

theorem at_whileLoop : (whileLoop line e s).At program places ↔
    Loop.At program ⟨line, e, none, s⟩ places := by
  simp only [Stmt.At, parts, List.cons_subset]
  exact ⟨fun h => ⟨h.1, by simp, h.2⟩, fun h => ⟨h.condition, h.body⟩⟩

/-- Only the first declaration stands before the loop, and the loop stands in the scope of its own. -/
theorem at_forLoop {first : Decl} {stepLine : Nat} {step : Expr} :
    (forLoop line first e stepLine step s).At program places ↔
      .opening (.loop first) places ∈ program.parts ∧
        Decl.partsFrom (.loop first) 0 places [first] ⊆ program.parts ∧
          Loop.At program ⟨line, e, some (stepLine, step), s⟩ (⟨.loop first, 1⟩ :: places) := by
  simp only [Stmt.At, parts, List.cons_subset, List.append_subset, Decl.partsFrom, List.append_nil]
  constructor
  · rintro ⟨hopening, hfirst, hcondition, hstep, hbody⟩
    refine ⟨hopening, hfirst, hcondition, ?_, hbody⟩
    rintro _ _ ⟨⟩
    exact hstep
  · rintro ⟨hopening, hfirst, hloop⟩
    exact ⟨hopening, hfirst, hloop.condition, hloop.step _ _ rfl, hloop.body⟩

end Stmt

theorem Around.imp {activations : List Activation} {f : FrameId} {P Q : List Place → Prop}
    (h : Around activations f P) (hPQ : ∀ places, P places → Q places) : Around activations f Q := by
  rcases h with ⟨places, hnest, hP⟩
  exact ⟨places, hnest, hPQ places hP⟩

/-! ## Later activations -/

section

variable {program : Program} {activations : List Activation} {f : FrameId}
  (later : List Activation)

theorem Around.append {P : List Place → Prop} (h : Around activations f P) :
    Around (activations ++ later) f P := by
  rcases h with ⟨places, hnest, hP⟩
  exact ⟨places, hnest.append later, hP⟩

theorem Closure.Scoped.append {c : Closure} (h : c.Scoped activations) :
    c.Scoped (activations ++ later) := by
  rcases h with ⟨a, line, ha, hdeclared⟩
  exact ⟨a, line, activation_append ha later, hdeclared⟩

theorem Value.Scoped.append {v : Value} (h : v.Scoped activations) :
    v.Scoped (activations ++ later) := by
  cases v with
  | function c => exact Closure.Scoped.append later h
  | _ => trivial

theorem Activation.Scoped.append {a : Activation} (h : a.Scoped program activations f) :
    a.Scoped program (activations ++ later) f := by
  rcases h with ⟨outer, hnest, hparts⟩
  exact ⟨outer, hnest.append later, hparts⟩

theorem Continuation.Scoped.append {c : Continuation} (h : c.Scoped program activations f) :
    c.Scoped program (activations ++ later) f := by
  cases c with
  | operand | assign | callee | test | step | again | sequence => exact Around.append later h
  | binary => exact Value.Scoped.append later h
  | argument =>
    exact ⟨h.1.append later, fun v hv => (h.2.1 v hv).append later, h.2.2.append later⟩
  | branch => exact ⟨h.1.append later, fun s hs => (h.2 s hs).append later⟩
  | bind =>
    rcases h with ⟨a, ha, hpart⟩
    exact ⟨a, activation_append ha later, hpart⟩
  | leave | endCall =>
    have hlt : _ < activations.length := h
    exact Nat.lt_of_lt_of_le hlt (by simp)
  | _ => trivial

theorem Continuation.AllScoped.append {k : List Continuation}
    (h : Continuation.AllScoped program activations f k) :
    Continuation.AllScoped program (activations ++ later) f k := by
  induction k generalizing f with
  | nil => exact h
  | cons c k ih => exact ⟨h.1.append later, ih h.2⟩

end

/-! ## Changes to the frames -/

namespace ScopeStack.Scoped

variable {program : Program} {activations : List Activation} {s : ScopeStack Value}

theorem restore (h : s.Scoped program activations) {f : FrameId} (hf : f < activations.length) :
    (s.restore f).Scoped program activations where
  size := h.size
  current := hf
  global := h.global
  activation := h.activation
  values := h.values

theorem write (h : s.Scoped program activations) {v : Value} (hv : v.Scoped activations) (f : FrameId)
    (i : Nat) : (s.write f i v).Scoped program activations where
  size := by simpa [ScopeStack.write] using h.size
  current := h.current
  global := h.global
  activation := h.activation
  values := by
    intro g j w hw
    rcases slot?_write_cases hw with rfl | hbefore
    · exact hv
    · exact h.values g j w hbefore

/-- A new frame is an activation of a scope that is opened around the frame that it lies in. -/
theorem enterAt (h : s.Scoped program activations) {g : FrameId} {scope : Scope} {outer : List Place}
    (hg : Nest activations g (outer.map Place.scope)) (hopening : .opening scope outer ∈ program.parts)
    (hparts : Decl.partsFrom scope 0 outer scope.declarations ⊆ program.parts) :
    (s.enterAt g).Scoped program (activations ++ [⟨scope, some g⟩]) where
  size := by simp [ScopeStack.enterAt, h.size]
  current := by rw [current_enterAt, h.size]; simp
  global := activation_append h.global _
  activation := by
    intro f a ha
    by_cases hf : f < activations.length
    · rw [List.getElem?_append_left hf] at ha
      exact (h.activation f a ha).append _
    · have hmem := ha
      rw [List.getElem?_append_right (Nat.le_of_not_lt hf)] at hmem
      obtain rfl := List.mem_singleton.1 (List.mem_of_getElem? hmem)
      exact ⟨outer, .inner ha (hg.append _), hopening, hparts⟩
  values := by
    intro f i v hv
    rw [slot?_enterAt] at hv
    exact (h.values f i v hv).append _

/-- The function of a closure is opened within the scopes around the frame that it has captured. -/
theorem function (h : s.Scoped program activations) {c : Closure} (hc : c.Scoped activations) :
    ∃ outer : List Place, Nest activations c.frame (outer.map Place.scope) ∧
      .opening (.function c.header c.body) outer ∈ program.parts ∧
      Decl.partsFrom (.function c.header c.body) 0 outer c.body ⊆ program.parts := by
  rcases hc with ⟨a, line, ha, hdeclared⟩
  obtain ⟨outer, hnest, -, hparts⟩ := h.activation _ _ ha
  obtain ⟨i, hi⟩ := Decl.parts_subset_partsFrom outer hdeclared 0
  obtain ⟨hopening, hbody⟩ := List.cons_subset.1 (List.Subset.trans hi hparts)
  exact ⟨⟨a.scope, i⟩ :: outer, hnest, hopening, hbody⟩

theorem current_lt (h : s.Scoped program activations) : s.current < s.frames.size := by
  rw [h.size]
  exact h.current

/-- The frame that is made next gets the next activation. -/
theorem activation_new (h : s.Scoped program activations) (a : Activation) :
    (activations ++ [a])[s.frames.size]? = some a := by
  simp [h.size]

end ScopeStack.Scoped

/-- An assignment writes to the frame in which the address has a binding. -/
theorem Store.assign_eq (σ : Store) (addresses : Resolutions) (target : Identifier) (v : Value)
    (line : Nat) : σ.assign addresses target v line =
      match addresses.find target line with
      | .error e => (.failed e, σ)
      | .ok a =>
        match σ.scopes.locate? a with
        | some f => (.value v, { σ with scopes := σ.scopes.write f a.slot v })
        | none => (.failed ⟨.undefinedVariable target.name, line⟩, σ) := by
  rw [Store.assign]
  cases addresses.find target line with
  | error e => rfl
  | ok a =>
    simp only
    cases hlocate : σ.scopes.locate? a with
    | none =>
      have hassign : σ.scopes.assign a v = (false, σ.scopes) := by simp [ScopeStack.assign, hlocate]
      simp [hassign]
    | some f =>
      have hassign : σ.scopes.assign a v = (true, σ.scopes.write f a.slot v) := by
        simp [ScopeStack.assign, hlocate]
      simp [hassign]

theorem Store.current_bind (addresses : Resolutions) (bs : List Binding) (σ : Store) :
    (σ.bind addresses bs).2.scopes.current = σ.scopes.current := by
  induction bs generalizing σ with
  | nil => rfl
  | cons b bs ih =>
    rw [Store.bind]
    cases addresses.find b.identifier b.line with
    | error e => rfl
    | ok a => exact ih _

theorem Store.current_assign (addresses : Resolutions) (target : Identifier) (v : Value) (line : Nat)
    (σ : Store) : (σ.assign addresses target v line).2.scopes.current = σ.scopes.current := by
  rw [Store.assign_eq]
  cases addresses.find target line with
  | error e => rfl
  | ok a =>
    simp only
    cases σ.scopes.locate? a <;> rfl

theorem ScopeStack.Scoped.bind {program : Program} {activations : List Activation} {σ : Store}
    (h : σ.scopes.Scoped program activations) {addresses : Resolutions} {bs : List Binding}
    (hbs : ∀ b ∈ bs, b.value.Scoped activations) :
    (σ.bind addresses bs).2.scopes.Scoped program activations := by
  induction bs generalizing σ with
  | nil => exact h
  | cons b bs ih =>
    rw [List.forall_mem_cons] at hbs
    rw [Store.bind]
    cases addresses.find b.identifier b.line with
    | error e => exact h
    | ok a => exact ih (h.write hbs.1 _ _) hbs.2

end LexScript
