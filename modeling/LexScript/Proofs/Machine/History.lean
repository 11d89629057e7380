import LexScript.Proofs.Scope.Place
import LexScript.Run

/-!
# What happened in a run

The history of a run says of which scope each frame is an activation, in which frame it lies, and under
which name the value of each slot was stored. A block or a loop lies in the frame that is current when
it is entered, and a call in the frame that its closure was made in, whoever calls it.
-/

namespace LexScript

/-- The scope that a frame is an activation of, and the frame around it. -/
structure Activation where
  scope : Scope
  outer : Option FrameId

structure Write where
  frame : FrameId
  slot : Nat
  name : String
  value : Value

/-- The activations so far, by frame, and the name and the value that were stored last in each slot. -/
structure History where
  activations : List Activation
  stored : FrameId → Nat → Option (String × Value)

namespace History

def start (program : Program) : History := ⟨[⟨.global program.declarations, none⟩], fun _ _ => none⟩

def activate (h : History) (a : Activation) : History := { h with activations := h.activations ++ [a] }

def store (h : History) (w : Write) : History where
  activations := h.activations
  stored f i := if f = w.frame ∧ i = w.slot then some (w.name, w.value) else h.stored f i

end History

def Write.ofBindings (addresses : Resolutions) (frame : FrameId) : List Binding → List Write
  | [] => []
  | b :: bs =>
    match addresses.get? b.identifier.id with
    | some a => ⟨frame, a.slot, b.identifier.name, b.value⟩ :: Write.ofBindings addresses frame bs
    | none => []

theorem Write.mem_ofBindings {addresses : Resolutions} {frame : FrameId} {bs : List Binding} {w : Write}
    (hw : w ∈ Write.ofBindings addresses frame bs) :
    ∃ b a, b ∈ bs ∧ addresses.get? b.identifier.id = some a ∧
      w = ⟨frame, a.slot, b.identifier.name, b.value⟩ := by
  induction bs with
  | nil => cases hw
  | cons b bs ih =>
    rw [Write.ofBindings] at hw
    split at hw
    · rename_i a ha
      rcases List.mem_cons.1 hw with rfl | hw
      · exact ⟨b, a, List.mem_cons_self .., ha, rfl⟩
      · obtain ⟨c, a, hc, ha, rfl⟩ := ih hw
        exact ⟨c, a, List.mem_cons_of_mem _ hc, ha, rfl⟩
    · cases hw

def Write.ofAssignment (addresses : Resolutions) (scopes : ScopeStack Value) (target : Identifier)
    (v : Value) : List Write :=
  match addresses.get? target.id with
  | some a =>
    match scopes.locate? a with
    | some f => [⟨f, a.slot, target.name, v⟩]
    | none => []
  | none => []

def Stmt.scope? : Stmt → Option Scope
  | .block _ body => some (.block body)
  | .forLoop _ first _ _ _ _ => some (.loop first)
  | _ => none

def Closure.activation (c : Closure) : Activation := ⟨.function c.header c.body, some c.frame⟩

namespace Machine

/-- The activation that the next step begins, with the frame around it. -/
def activates? (setting : Setting) (m : Machine) : Option (Scope × FrameId) :=
  match m.control with
  | .exec (.block _ body) => some (.block body, m.store.scopes.current)
  | .exec (.forLoop _ first _ _ _ _) => some (.loop first, m.store.scopes.current)
  | .call closure _ _ =>
    if setting.maxCallDepth ≤ m.store.depth then none
    else some (.function closure.header closure.body, closure.frame)
  | _ => none

def begun (setting : Setting) (m : Machine) : List Activation :=
  ((m.activates? setting).map fun a => ⟨a.1, some a.2⟩).toList

/-- What the next step stores. The parameters of a call are stored in its new frame. -/
def writes (setting : Setting) (m : Machine) : List Write :=
  match m.control, m.stack with
  | .enter declarations, _ =>
    Write.ofBindings setting.addresses m.store.scopes.current
      (Binding.ofFunctions m.store.scopes.current declarations)
  | .call closure arguments line, _ =>
    if setting.maxCallDepth ≤ m.store.depth then []
    else
      Write.ofBindings setting.addresses m.store.scopes.frames.size
        (Binding.ofArguments closure.header.parameters arguments line)
  | .ended (.value v), .bind identifier line :: _ =>
    Write.ofBindings setting.addresses m.store.scopes.current [⟨identifier, v, line⟩]
  | .ended (.value v), .assign target _ :: _ =>
    Write.ofAssignment setting.addresses m.store.scopes target v
  | _, _ => []

theorem activates?_call_of_le {setting : Setting} {k : List Continuation} {σ : Store}
    {closure : Closure} {arguments : List Value} {line : Nat} (h : setting.maxCallDepth ≤ σ.depth) :
    activates? setting ⟨.call closure arguments line, k, σ⟩ = none :=
  if_pos h

theorem activates?_call_of_lt {setting : Setting} {k : List Continuation} {σ : Store}
    {closure : Closure} {arguments : List Value} {line : Nat} (h : ¬ setting.maxCallDepth ≤ σ.depth) :
    activates? setting ⟨.call closure arguments line, k, σ⟩ =
      some (.function closure.header closure.body, closure.frame) :=
  if_neg h

section

variable {setting : Setting} {k : List Continuation} {σ : Store} {line : Nat}

@[simp] theorem begun_eval {e : Expr} : begun setting ⟨.eval line e, k, σ⟩ = [] := rfl

@[simp] theorem begun_enter {declarations : List Decl} : begun setting ⟨.enter declarations, k, σ⟩ = [] := rfl

@[simp] theorem begun_ended {outcome : Outcome} : begun setting ⟨.ended outcome, k, σ⟩ = [] := rfl

@[simp] theorem begun_exec {s : Stmt} : begun setting ⟨.exec s, k, σ⟩ =
    (s.scope?.map fun scope => Activation.mk scope (some σ.scopes.current)).toList := by
  cases s <;> rfl

variable {closure : Closure} {arguments : List Value}

theorem begun_call_of_le (h : setting.maxCallDepth ≤ σ.depth) :
    begun setting ⟨.call closure arguments line, k, σ⟩ = [] := by
  simp [begun, activates?_call_of_le h]

theorem begun_call_of_lt (h : ¬ setting.maxCallDepth ≤ σ.depth) :
    begun setting ⟨.call closure arguments line, k, σ⟩ = [closure.activation] := by
  rw [begun, activates?_call_of_lt h]
  rfl

end

/-- What is stored belongs to a function or a parameter that is bound, to a variable that gets its first
value, or to an assignment. -/
inductive Writes (setting : Setting) : Machine → Write → Prop
  | function {k : List Continuation} {σ : Store} {declarations : List Decl} {b : Binding} {a : Address}
    (bound : b ∈ Binding.ofFunctions σ.scopes.current declarations)
    (address : setting.addresses.get? b.identifier.id = some a) :
    Writes setting ⟨.enter declarations, k, σ⟩ ⟨σ.scopes.current, a.slot, b.identifier.name, b.value⟩
  | parameter {k : List Continuation} {σ : Store} {closure : Closure} {arguments : List Value}
    {line : Nat} {b : Binding} {a : Address} (depth : ¬ setting.maxCallDepth ≤ σ.depth)
    (bound : b ∈ Binding.ofArguments closure.header.parameters arguments line)
    (address : setting.addresses.get? b.identifier.id = some a) :
    Writes setting ⟨.call closure arguments line, k, σ⟩
      ⟨σ.scopes.frames.size, a.slot, b.identifier.name, b.value⟩
  | binding {k : List Continuation} {σ : Store} {identifier : Identifier} {line : Nat} {v : Value}
    {a : Address} (address : setting.addresses.get? identifier.id = some a) :
    Writes setting ⟨.ended (.value v), .bind identifier line :: k, σ⟩
      ⟨σ.scopes.current, a.slot, identifier.name, v⟩
  | assignment {k : List Continuation} {σ : Store} {target : Identifier} {line : Nat} {v : Value}
    {a : Address} {f : FrameId} (address : setting.addresses.get? target.id = some a)
    (located : σ.scopes.locate? a = some f) :
    Writes setting ⟨.ended (.value v), .assign target line :: k, σ⟩ ⟨f, a.slot, target.name, v⟩

theorem writes_of_mem {setting : Setting} {m : Machine} {w : Write} (hw : w ∈ m.writes setting) :
    m.Writes setting w := by
  obtain ⟨control, k, σ⟩ := m
  rw [writes] at hw
  split at hw
  · rename_i declarations hcontrol
    obtain rfl := hcontrol
    obtain ⟨b, a, hb, ha, rfl⟩ := Write.mem_ofBindings hw
    exact .function hb ha
  · rename_i closure arguments line hcontrol
    obtain rfl := hcontrol
    split at hw
    · cases hw
    · rename_i hdepth
      obtain ⟨b, a, hb, ha, rfl⟩ := Write.mem_ofBindings hw
      exact .parameter hdepth hb ha
  · rename_i v identifier line rest hcontrol hstack
    obtain rfl := hcontrol
    obtain rfl := hstack
    obtain ⟨b, a, hb, ha, rfl⟩ := Write.mem_ofBindings hw
    obtain rfl := List.mem_singleton.1 hb
    exact .binding ha
  · rename_i v target line rest hcontrol hstack
    obtain rfl := hcontrol
    obtain rfl := hstack
    rw [Write.ofAssignment] at hw
    split at hw
    · rename_i a ha
      split at hw
      · rename_i f hf
        obtain rfl := List.mem_singleton.1 hw
        exact .assignment ha hf
      · cases hw
    · cases hw
  · cases hw

end Machine

def History.next (setting : Setting) (m : Machine) (h : History) : History :=
  let entered :=
    match m.activates? setting with
    | some (scope, outer) => h.activate ⟨scope, some outer⟩
    | none => h
  (m.writes setting).foldl History.store entered

/-- The moments of the runs of a program, one run after the other on one store. A new run may write to
another sink. -/
inductive Run (setting : Setting) (program : Program) : Machine → History → Prop
  | start (sink : Sink) : Run setting program (program.launch (.start sink)) (.start program)
  | step {m : Machine} {h : History} (before : Run setting program m h) :
    Run setting program (m.step setting) (h.next setting m)
  | again {m : Machine} {h : History} (before : Run setting program m h) {outcome : Outcome}
    (finished : m.outcome? = some outcome) (sink : Sink) :
    Run setting program (program.launch { m.store with sink }) h

/-- So many steps lead to another moment of the run. -/
theorem Run.run {setting : Setting} {program : Program} {m : Machine} {h : History}
    (hrun : Run setting program m h) (steps : Nat) :
    ∃ later, Run setting program (m.run setting steps) later := by
  induction steps generalizing m h with
  | zero => exact ⟨h, hrun⟩
  | succ steps ih =>
    rw [Machine.run]
    split
    · exact ⟨h, hrun⟩
    · exact ih hrun.step

namespace History

@[simp] theorem activations_foldl_store (writes : List Write) (h : History) :
    (writes.foldl store h).activations = h.activations := by
  induction writes generalizing h with
  | nil => rfl
  | cons w writes ih => simp [ih, store]

/-- What is stored was stored before or is stored now. -/
theorem stored_foldl_store {writes : List Write} {h : History} {f : FrameId} {i : Nat} {x : String}
    {v : Value} (hs : (writes.foldl store h).stored f i = some (x, v)) :
    h.stored f i = some (x, v) ∨ ⟨f, i, x, v⟩ ∈ writes := by
  induction writes generalizing h with
  | nil => exact .inl hs
  | cons w writes ih =>
    rw [List.foldl_cons] at hs
    rcases ih hs with hbefore | hlater
    · rw [store] at hbefore
      simp only at hbefore
      split at hbefore
      · rename_i heq
        rcases heq with ⟨rfl, rfl⟩
        obtain ⟨rfl, rfl⟩ := Prod.mk.inj (Option.some.inj hbefore)
        exact .inr (List.mem_cons_self ..)
      · exact .inl hbefore
    · exact .inr (List.mem_cons_of_mem _ hlater)

theorem activations_next (setting : Setting) (m : Machine) (h : History) :
    (h.next setting m).activations = h.activations ++ m.begun setting := by
  rw [next, activations_foldl_store, Machine.begun]
  cases m.activates? setting <;> simp [activate]

theorem stored_next {setting : Setting} {m : Machine} {h : History} {f : FrameId} {i : Nat}
    {x : String} {v : Value} (hs : (h.next setting m).stored f i = some (x, v)) :
    h.stored f i = some (x, v) ∨ ⟨f, i, x, v⟩ ∈ m.writes setting := by
  rcases stored_foldl_store hs with hbefore | hnow
  · left
    cases hactivates : m.activates? setting with
    | none =>
      rw [hactivates] at hbefore
      exact hbefore
    | some a =>
      rw [hactivates] at hbefore
      exact hbefore
  · exact .inr hnow

end History
end LexScript
