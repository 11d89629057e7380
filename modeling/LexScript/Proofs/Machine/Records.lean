import LexScript.Proofs.Machine.ScopedRun

/-!
# The history records the frames

The frames of a run lie where the history says, and their slots hold what it says was stored there last:
`Run.records`. A step changes the frames by what it enters and what it stores, and in no other way.
-/

namespace LexScript

/-- The frames lie where the history says, and their slots hold what was stored there last. -/
structure History.Records (h : History) (s : ScopeStack Value) : Prop where
  parents : ∀ f, s.parent? f = h.activations[f]?.bind Activation.outer
  slots : ∀ f i, s.slot? f i = (h.stored f i).map Prod.snd

def ScopeStack.store (s : ScopeStack Value) (w : Write) : ScopeStack Value :=
  s.write w.frame w.slot w.value

namespace History.Records

variable {h : History} {s : ScopeStack Value}

theorem congr (hrecords : h.Records s) {t : ScopeStack Value} (ht : t.frames = s.frames) :
    h.Records t where
  parents f := by simp [← hrecords.parents, ScopeStack.parent?, ht]
  slots f i := by simp [← hrecords.slots, ScopeStack.slot?, ht]

theorem activate (hrecords : h.Records s) (hsize : s.frames.size = h.activations.length)
    (scope : Scope) (g : FrameId) : (h.activate ⟨scope, some g⟩).Records (s.enterAt g) where
  parents f := by
    rw [ScopeStack.parent?_enterAt, History.activate]
    split
    · rename_i hf
      simp [hf, hsize]
    · rename_i hf
      rw [hrecords.parents]
      by_cases hlt : f < h.activations.length
      · rw [List.getElem?_append_left hlt]
      · have hle : h.activations.length ≤ f := Nat.le_of_not_lt hlt
        have hne : h.activations.length ≠ f := fun heq => hf (heq.symm.trans hsize.symm)
        rw [List.getElem?_eq_none hle, List.getElem?_eq_none]
        rw [List.length_append, List.length_singleton]
        exact Nat.lt_of_le_of_ne hle hne
  slots f i := by
    rw [ScopeStack.slot?_enterAt]
    exact hrecords.slots f i

theorem store (hrecords : h.Records s) {w : Write} (hw : w.frame < s.frames.size) :
    (h.store w).Records (s.store w) where
  parents f := by
    rw [ScopeStack.store, ScopeStack.parent?_write]
    exact hrecords.parents f
  slots f i := by
    simp only [ScopeStack.store, ScopeStack.slot?_write s hw, hrecords.slots, History.store]
    simp only [eq_comm]
    split <;> rfl

theorem foldl_store (hrecords : h.Records s) {writes : List Write}
    (hwrites : ∀ w ∈ writes, w.frame < s.frames.size) :
    (writes.foldl History.store h).Records (writes.foldl ScopeStack.store s) := by
  induction writes generalizing h s with
  | nil => exact hrecords
  | cons w writes ih =>
    rw [List.forall_mem_cons] at hwrites
    apply ih (hrecords.store hwrites.1)
    intro v hv
    simpa [ScopeStack.store, ScopeStack.write] using hwrites.2 v hv

end History.Records

/-- Binding names stores their values, as far as they have addresses. -/
theorem Store.scopes_bind (addresses : Resolutions) (bs : List Binding) (σ : Store) :
    (σ.bind addresses bs).2.scopes =
      (Write.ofBindings addresses σ.scopes.current bs).foldl ScopeStack.store σ.scopes := by
  induction bs generalizing σ with
  | nil => rfl
  | cons b bs ih =>
    rw [Store.bind, Write.ofBindings, Resolutions.find]
    cases addresses.get? b.identifier.id with
    | none => rfl
    | some a => exact ih _

def Machine.entered (setting : Setting) (m : Machine) : ScopeStack Value :=
  match m.activates? setting with
  | some (_, outer) => m.store.scopes.enterAt outer
  | none => m.store.scopes

variable {setting : Setting} {program : Program} {h : History} {m : Machine}

theorem Machine.writes_of_passes {k : List Continuation} {σ : Store} {c : Continuation}
    {outcome : Outcome} (h : c.Passes outcome) :
    writes setting ⟨.ended outcome, c :: k, σ⟩ = [] := by
  cases c with
  | bind | assign =>
    cases outcome with
    | value v => exact absurd (by constructor) h.not_accepts
    | _ => rfl
  | _ => cases outcome <;> rfl

theorem Machine.frames_resume {k : List Continuation} {σ : Store} {c : Continuation}
    {outcome : Outcome} (h : c.Accepts outcome) :
    (Machine.resume setting k σ c outcome).store.scopes.frames =
      ((writes setting ⟨.ended outcome, c :: k, σ⟩).foldl ScopeStack.store σ.scopes).frames := by
  cases h with
  | assign target line v =>
    change (σ.assign setting.addresses target v line).2.scopes.frames =
      ((Write.ofAssignment setting.addresses σ.scopes target v).foldl ScopeStack.store σ.scopes).frames
    rw [Store.assign_eq, Resolutions.find, Write.ofAssignment]
    cases setting.addresses.get? target.id with
    | none => rfl
    | some a =>
      simp only
      cases σ.scopes.locate? a <;> rfl
  | bind identifier line v =>
    exact congrArg ScopeStack.frames (Store.scopes_bind setting.addresses [⟨identifier, v, line⟩] σ)
  | callee arguments line v =>
    cases v with
    | function closure => cases arguments <;> rfl
    | _ => rfl
  | argument closure values rest line v => cases rest <;> rfl
  | branch line thenBranch elseBranch v =>
    cases v with
    | boolean b => cases b <;> cases elseBranch <;> rfl
    | _ => rfl
  | test loop v =>
    cases v with
    | boolean b => cases b <;> rfl
    | _ => rfl
  | step loop =>
    obtain ⟨line, condition, step, body⟩ := loop
    cases step <;> rfl
  | sequence d ds => cases d <;> rfl
  | leave frame outcome | endCall frame closure line outcome => cases outcome <;> rfl
  | _ => rfl

/-- A step changes the frames by what it enters and what it stores. -/
theorem Machine.frames_step (setting : Setting) (m : Machine) :
    (m.step setting).store.scopes.frames =
      ((m.writes setting).foldl ScopeStack.store (m.entered setting)).frames := by
  obtain ⟨control, k, σ⟩ := m
  cases control with
  | eval line e => cases e <;> rfl
  | exec s =>
    cases s with
    | ret line value => cases value <;> rfl
    | _ => rfl
  | enter declarations =>
    exact congrArg ScopeStack.frames (Store.scopes_bind setting.addresses
      (Binding.ofFunctions σ.scopes.current declarations) σ)
  | call closure arguments line =>
    change (Machine.call setting k σ closure arguments line).store.scopes.frames = _
    by_cases hdepth : setting.maxCallDepth ≤ σ.depth
    · simp only [call_of_le hdepth, entered, activates?_call_of_le hdepth, writes]
      simp only [if_pos hdepth]
      rfl
    · simp only [call_of_lt hdepth, entered, activates?_call_of_lt hdepth, writes]
      simp only [if_neg hdepth]
      exact congrArg ScopeStack.frames (Store.scopes_bind setting.addresses
        (Binding.ofArguments closure.header.parameters arguments line) (σ.enterCall closure.frame))
  | ended outcome =>
    cases k with
    | nil => cases outcome <;> rfl
    | cons c k =>
      change (Machine.resume setting k σ c outcome).store.scopes.frames = _
      rcases c.accepts_or_passes outcome with haccepts | hpasses
      · exact frames_resume haccepts
      · rw [hpasses.resume, writes_of_passes hpasses]
        rfl

/-! ## Frames that grow -/

namespace ScopeStack

theorem Grows.foldl_store (writes : List Write) (s : ScopeStack Value) :
    s.Grows (writes.foldl store s) := by
  induction writes generalizing s with
  | nil => exact .refl s
  | cons w writes ih => exact (Grows.write s w.frame w.slot w.value).trans (ih _)

end ScopeStack

/-- A step takes no frame away, moves none and empties no slot. -/
theorem Machine.scopes_grow (setting : Setting) (m : Machine) :
    m.store.scopes.Grows (m.step setting).store.scopes := by
  refine .congr ?_ (m.frames_step setting)
  refine .trans ?_ (.foldl_store (m.writes setting) (m.entered setting))
  rw [entered]
  split
  · exact .enterAt ..
  · exact .refl _

/-! ## The frames of a run -/

/-- What is stored goes to a frame that is there. -/
theorem Machine.Scoped.writes_lt {activations : List Activation} (hm : m.Scoped program activations) :
    ∀ w ∈ m.writes setting, w.frame < (m.entered setting).frames.size := by
  intro w hw
  have hcurrent := hm.scopes.current_lt
  cases Machine.writes_of_mem hw with
  | function bound address => exact hcurrent
  | parameter depth bound address =>
    rw [entered, activates?_call_of_lt depth]
    simp [ScopeStack.enterAt]
  | binding address => exact hcurrent
  | assignment address located => exact ScopeStack.lt_of_locate? located

/-- At every moment of a run, the history records the frames. -/
theorem Run.records (hrun : Run setting program m h) : h.Records m.store.scopes := by
  induction hrun with
  | start sink =>
    refine ⟨fun f => ?_, fun f i => ScopeStack.slot?_global f i⟩
    cases f <;> rfl
  | step before ih =>
    rename_i m h
    refine .congr ?_ (m.frames_step setting)
    have hentered : (match m.activates? setting with
        | some (scope, outer) => h.activate ⟨scope, some outer⟩
        | none => h).Records (m.entered setting) := by
      rw [Machine.entered]
      cases m.activates? setting with
      | none => exact ih
      | some a => exact ih.activate before.scoped.scopes.size a.1 a.2
    exact hentered.foldl_store before.scoped.writes_lt
  | again before finished sink ih => exact ih

/-- What is stored is stored in a frame that is there. -/
theorem Run.stored_lt (hrun : Run setting program m h) {f : FrameId} {i : Nat} {x : String} {v : Value}
    (hs : h.stored f i = some (x, v)) : f < h.activations.length := by
  have hslot : m.store.scopes.slot? f i = some v := by
    simp [hrun.records.slots, hs]
  rw [← hrun.scoped.scopes.size]
  exact ScopeStack.lt_of_slot? hslot

end LexScript
