import LexScript.Scope.Names

/-!
# Scopes at work

Frames hold the bindings of one activation of a scope and know the frame around them. Frames are never
taken away, since a closure may need a frame long after its scope has ended, so the identity of a frame
is its place in the list of all frames. `slot?_write`, `slot?_enterAt` and the lemmas beside them say
what each change does to the slots and the parents of frames.
-/

namespace LexScript

abbrev FrameId := Nat

/-- The bindings of one activation of a scope, and the frame around it. The global frame has none. -/
structure Frame (α : Type u) where
  parent : Option FrameId
  slots : Slots α

/-- All frames, and the one that is current. -/
structure ScopeStack (α : Type u) where
  frames : Array (Frame α)
  current : FrameId

namespace ScopeStack

variable {α : Type u}

def global : ScopeStack α := ⟨#[⟨none, .empty⟩], 0⟩

def parent? (s : ScopeStack α) (f : FrameId) : Option FrameId := s.frames[f]?.bind Frame.parent

def ancestor? (s : ScopeStack α) : (distance : Nat) → FrameId → Option FrameId
  | 0, f => some f
  | distance + 1, f => (s.parent? f).bind (s.ancestor? distance)

def slot? (s : ScopeStack α) (f : FrameId) (slot : Nat) : Option α :=
  s.frames[f]?.bind (·.slots.get? slot)

def get? (s : ScopeStack α) (a : Address) : Option α :=
  (s.ancestor? a.distance s.current).bind (s.slot? · a.slot)

/-- The frame in which the address has a binding, if it has one. -/
def locate? (s : ScopeStack α) (a : Address) : Option FrameId :=
  (s.ancestor? a.distance s.current).filter fun f => (s.slot? f a.slot).isSome

def describe (s : ScopeStack α) (f : FrameId) : String :=
  let size := (s.frames[f]?.map fun frame => frame.slots.size).getD 0
  "FrameRef \x7b slots: " ++ toString size ++ " \x7d"

/-- Makes a new empty frame inside the given one current. The number of frames is taken first, so that
the array is free to grow in place. -/
def enterAt (s : ScopeStack α) (outer : FrameId) : ScopeStack α :=
  let fresh := s.frames.size
  ⟨s.frames.push ⟨some outer, .empty⟩, fresh⟩

def enter (s : ScopeStack α) : ScopeStack α := s.enterAt s.current

def restore (s : ScopeStack α) (f : FrameId) : ScopeStack α := { s with current := f }

/-- Makes the frame around the current one current. The global frame stays. -/
def exit (s : ScopeStack α) : ScopeStack α :=
  match s.parent? s.current with
  | some outer => s.restore outer
  | none => s

def write (s : ScopeStack α) (f : FrameId) (slot : Nat) (a : α) : ScopeStack α :=
  { s with frames := s.frames.modify f fun frame => { frame with slots := frame.slots.put slot a } }

def define (s : ScopeStack α) (slot : Nat) (a : α) : ScopeStack α := s.write s.current slot a

/-- Changes the binding at the address and tells whether there is one. -/
def assign (s : ScopeStack α) (address : Address) (a : α) : Bool × ScopeStack α :=
  match s.locate? address with
  | some f => (true, s.write f address.slot a)
  | none => (false, s)

@[simp] theorem current_enterAt (s : ScopeStack α) (outer : FrameId) :
    (s.enterAt outer).current = s.frames.size := rfl

@[simp] theorem current_restore (s : ScopeStack α) (f : FrameId) : (s.restore f).current = f := rfl

@[simp] theorem current_write (s : ScopeStack α) (f : FrameId) (i : Nat) (a : α) :
    (s.write f i a).current = s.current := rfl

/-- A slot that holds something belongs to a frame. -/
theorem lt_of_slot? {s : ScopeStack α} {f : FrameId} {i : Nat} {a : α} (h : s.slot? f i = some a) :
    f < s.frames.size := by
  refine Nat.lt_of_not_le fun hf => ?_
  rw [slot?, Array.getElem?_eq_none hf] at h
  cases h

/-- Leaving a scope changes no frame. -/
@[simp] theorem frames_exit (s : ScopeStack α) : s.exit.frames = s.frames := by
  unfold exit
  split <;> rfl

/-- A new frame has no bindings and leaves those of the others alone. -/
@[simp] theorem slot?_enterAt (s : ScopeStack α) (outer f : FrameId) (i : Nat) :
    (s.enterAt outer).slot? f i = s.slot? f i := by
  simp only [slot?, enterAt, Array.getElem?_push]
  split
  · subst f; simp
  · rfl

/-- A new frame lies in the frame that it was made in. -/
theorem parent?_enterAt (s : ScopeStack α) (outer f : FrameId) :
    (s.enterAt outer).parent? f = if f = s.frames.size then some outer else s.parent? f := by
  simp only [parent?, enterAt, Array.getElem?_push]
  split <;> rfl

/-- Writing moves no frame. -/
@[simp] theorem parent?_write (s : ScopeStack α) (f g : FrameId) (i : Nat) (a : α) :
    (s.write f i a).parent? g = s.parent? g := by
  simp only [parent?, write, Array.getElem?_modify]
  split
  · cases s.frames[g]? <;> rfl
  · rfl

/-- Writing to a slot of a frame changes no other slot and no other frame. -/
theorem slot?_write (s : ScopeStack α) {f : FrameId} (hf : f < s.frames.size) (g : FrameId)
    (i j : Nat) (a : α) :
    (s.write f i a).slot? g j = if f = g ∧ i = j then some a else s.slot? g j := by
  simp only [slot?, write, Array.getElem?_modify]
  by_cases hfg : f = g
  · subst hfg
    simp [Array.getElem?_eq_getElem hf, Slots.get?_put]
  · simp [hfg]

end ScopeStack
end LexScript
