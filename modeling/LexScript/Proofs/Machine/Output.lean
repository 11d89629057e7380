import LexScript.Proofs.Machine.DepthLimit

/-!
# The values that a run prints

A step prints at most one value, and a line of the output is the text of such a value. So the output of a run
is read off the values it prints, in their order: `Machine.writes_run`.
-/

namespace LexScript

namespace Machine

def prints (m : Machine) : List Value :=
  match m.control, m.stack with
  | .ended (.value v), .print _ :: _ => if m.store.sink.room = some 0 then [] else [v]
  | _, _ => []

def printed (setting : Setting) : (steps : Nat) → Machine → List Value
  | 0, _ => []
  | steps + 1, m => m.prints ++ printed setting steps (m.step setting)

end Machine

variable {setting : Setting} {k : List Continuation} {σ : Store}

/-- Between the two moments the texts of the given values were printed. -/
def Store.Writes (σ : Store) (values : List Value) (τ : Store) : Prop :=
  τ.sink.lines.toList = σ.sink.lines.toList ++ values.map Value.text

theorem Store.Writes.of_eq {τ : Store} (h : τ.sink = σ.sink) : σ.Writes [] τ := by
  simp [Writes, h]

theorem Store.Writes.print (σ : Store) (v : Value) (line : Nat) :
    σ.Writes (if σ.sink.room = some 0 then [] else [v]) (σ.print v line).2 := by
  obtain ⟨scopes, depth, lines, room⟩ := σ
  cases room with
  | none => exact Array.toList_push
  | some room =>
    cases room with
    | zero => exact .of_eq rfl
    | succ room => exact Array.toList_push

namespace Machine

theorem prints_of_passes {c : Continuation} {outcome : Outcome} (h : c.Passes outcome) :
    prints ⟨.ended outcome, c :: k, σ⟩ = [] := by
  cases c with
  | print line =>
    cases outcome with
    | value v => exact absurd (.print line v) h.not_accepts
    | _ => rfl
  | _ => cases outcome <;> rfl

theorem writes_resume (c : Continuation) (outcome : Outcome) :
    σ.Writes (prints ⟨.ended outcome, c :: k, σ⟩) (resume setting k σ c outcome).store := by
  rcases c.accepts_or_passes outcome with haccepts | hpasses
  · cases haccepts with
    | print line v => exact .print σ v line
    | assign target line v =>
      refine .of_eq ?_
      change (σ.assign setting.addresses target v line).2.sink = σ.sink
      rw [Store.assign_eq_scopes]
    | bind identifier line v => exact .of_eq (Store.sink_bind setting.addresses [⟨identifier, v, line⟩] σ)
    | callee arguments line v =>
      cases v with
      | function closure => cases arguments <;> exact .of_eq rfl
      | _ => exact .of_eq rfl
    | argument closure values rest line v => cases rest <;> exact .of_eq rfl
    | branch line thenBranch elseBranch v =>
      cases v with
      | boolean b => cases b <;> cases elseBranch <;> exact .of_eq rfl
      | _ => exact .of_eq rfl
    | test loop v =>
      cases v with
      | boolean b => cases b <;> exact .of_eq rfl
      | _ => exact .of_eq rfl
    | step loop =>
      obtain ⟨line, condition, step, body⟩ := loop
      cases step <;> exact .of_eq rfl
    | sequence d ds => cases d <;> exact .of_eq rfl
    | leave frame => cases outcome <;> exact .of_eq rfl
    | endCall frame closure line => cases outcome <;> exact .of_eq rfl
    | _ => exact .of_eq rfl
  · simp only [hpasses.resume, prints_of_passes hpasses]
    exact .of_eq rfl

theorem writes_step (m : Machine) : m.store.Writes m.prints (m.step setting).store := by
  obtain ⟨control, k, σ⟩ := m
  cases control with
  | eval line e => cases e <;> exact .of_eq rfl
  | exec s =>
    cases s with
    | ret line value => cases value <;> exact .of_eq rfl
    | _ => exact .of_eq rfl
  | enter declarations => exact .of_eq (Store.sink_bind ..)
  | call closure arguments line =>
    refine .of_eq ?_
    change (call setting k σ closure arguments line).store.sink = σ.sink
    by_cases hdepth : setting.maxCallDepth ≤ σ.depth
    · rw [call_of_le hdepth]
    · rw [call_of_lt hdepth, Store.sink_bind]
      rfl
  | ended outcome =>
    cases k with
    | nil => cases outcome <;> exact .of_eq rfl
    | cons c k => exact writes_resume c outcome

/-- The output is what was printed before, and a line for each value that the run prints. -/
theorem writes_run (steps : Nat) (m : Machine) :
    m.store.Writes (m.printed setting steps) (m.run setting steps).store := by
  rw [run_eq_iterate]
  induction steps generalizing m with
  | zero => exact .of_eq rfl
  | succ steps ih =>
    have hrest : _ = _ := ih (m.step setting)
    rw [Store.Writes, Function.iterate_succ_apply, hrest, m.writes_step, printed, List.map_append,
      List.append_assoc]

end Machine
end LexScript
