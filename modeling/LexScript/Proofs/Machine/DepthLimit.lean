import LexScript.Proofs.Machine.Raises
import LexScript.Proofs.Machine.Restoration

/-!
# The limit on calls only cuts off

Two runs of a program with different limits go the same way, step by step, until the one with the smaller
limit has a call refused. From then on this one prints nothing more, and the other one takes nothing
back: `Machine.call_depth_cuts_off`.
-/

namespace LexScript

def Cause.IsLimit : Cause → Prop
  | .recursionLimitExceeded _ => True
  | _ => False

def Outcome.Unrefused : Outcome → Prop
  | .failed e => ¬ e.cause.IsLimit
  | _ => True

def Control.Unrefused : Control → Prop
  | .ended outcome => outcome.Unrefused
  | _ => True

/-- What a step leaves of the bound on the calls in progress and of the output. -/
structure Store.Grows (setting : Setting) (σ τ : Store) : Prop where
  depth : σ.depth ≤ setting.maxCallDepth → τ.depth ≤ setting.maxCallDepth
  lines : σ.sink.lines.toList <+: τ.sink.lines.toList

variable {setting : Setting} {m m' : Machine} {k : List Continuation} {σ : Store}

theorem Cause.OfValues.not_isLimit {cause : Cause} (h : cause.OfValues) : ¬ cause.IsLimit := by
  cases cause with
  | recursionLimitExceeded limit => exact h.elim
  | _ => exact not_false

namespace Store

theorem Grows.of_eq {τ : Store} (hdepth : τ.depth ≤ σ.depth) (hsink : τ.sink = σ.sink) :
    σ.Grows setting τ :=
  ⟨Nat.le_trans hdepth, hsink ▸ List.prefix_refl _⟩

theorem Grows.refl (σ : Store) : σ.Grows setting σ :=
  .of_eq (Nat.le_refl _) rfl

theorem sink_bind (addresses : Resolutions) (bs : List Binding) (σ : Store) :
    (σ.bind addresses bs).2.sink = σ.sink := by
  rw [bind_eq_scopes]

theorem Grows.bind (addresses : Resolutions) (bs : List Binding) (σ : Store) :
    σ.Grows setting (σ.bind addresses bs).2 :=
  .of_eq (Nat.le_of_eq (depth_bind ..)) (sink_bind ..)

theorem Grows.assign (addresses : Resolutions) (target : Identifier) (v : Value) (line : Nat)
    (σ : Store) : σ.Grows setting (σ.assign addresses target v line).2 := by
  refine .of_eq (Nat.le_of_eq (depth_assign ..)) ?_
  rw [assign_eq_scopes]

theorem Grows.print (σ : Store) (v : Value) (line : Nat) : σ.Grows setting (σ.print v line).2 := by
  obtain ⟨scopes, depth, lines, room⟩ := σ
  refine ⟨id, ?_⟩
  have hpush : lines.toList <+: (lines.push v.text).toList := by
    rw [Array.toList_push]
    exact List.prefix_append ..
  cases room with
  | none => exact hpush
  | some room =>
    cases room with
    | zero => exact List.prefix_refl _
    | succ room => exact hpush

end Store

namespace Machine

theorem grows_resume (c : Continuation) (outcome : Outcome) :
    σ.Grows setting (resume setting k σ c outcome).store := by
  rcases c.accepts_or_passes outcome with haccepts | hpasses
  · cases haccepts with
    | assign target line v => exact .assign setting.addresses target v line σ
    | callee arguments line v =>
      cases v with
      | function closure => cases arguments <;> exact .refl σ
      | _ => exact .refl σ
    | argument closure values rest line v => cases rest <;> exact .refl σ
    | print line v => exact .print σ v line
    | branch line thenBranch elseBranch v =>
      cases v with
      | boolean b => cases b <;> cases elseBranch <;> exact .refl σ
      | _ => exact .refl σ
    | test loop v =>
      cases v with
      | boolean b => cases b <;> exact .refl σ
      | _ => exact .refl σ
    | step loop =>
      obtain ⟨line, condition, step, body⟩ := loop
      cases step <;> exact .refl σ
    | bind identifier line v => exact .bind setting.addresses [⟨identifier, v, line⟩] σ
    | sequence d ds => cases d <;> exact .refl σ
    | leave frame => exact .of_eq (Nat.le_refl _) rfl
    | endCall frame closure line => exact .of_eq (Nat.sub_le ..) rfl
    | _ => exact .refl σ
  · rw [hpasses.resume]
    exact .refl σ

theorem grows_call (closure : Closure) (arguments : List Value) (line : Nat) :
    σ.Grows setting (call setting k σ closure arguments line).store := by
  by_cases hdepth : setting.maxCallDepth ≤ σ.depth
  · rw [call_of_le hdepth]
    exact .refl σ
  · rw [call_of_lt hdepth]
    refine ⟨fun _ => ?_, ?_⟩
    · rw [Store.depth_bind]
      exact Nat.lt_of_not_le hdepth
    · rw [Store.sink_bind]
      exact List.prefix_refl _

theorem grows_step (m : Machine) : m.store.Grows setting (m.step setting).store := by
  obtain ⟨control, k, σ⟩ := m
  cases control with
  | eval line e => cases e <;> exact .refl σ
  | exec s =>
    cases s with
    | ret line value => cases value <;> exact .refl σ
    | block | forLoop => exact .of_eq (Nat.le_refl _) rfl
    | _ => exact .refl σ
  | enter declarations => exact .bind setting.addresses _ σ
  | call closure arguments line => exact grows_call closure arguments line
  | ended outcome =>
    cases k with
    | nil => exact .refl σ
    | cons c k => exact grows_resume c outcome

/-- Only a refused call gives the error of one. -/
theorem unrefused_step (h : m.control.Unrefused) (hcall : ¬ m.Refuses setting) :
    (m.step setting).control.Unrefused := by
  cases hcontrol : (m.step setting).control with
  | ended outcome =>
    cases outcome with
    | failed e =>
      rcases raised hcontrol with hbefore | hraises
      · rw [hbefore] at h
        exact h
      · cases hraises with
        | undeclared | undefined => exact not_false
        | refused line refuses => exact absurd refuses hcall
        | values line values => exact values.not_isLimit
    | _ => trivial
  | _ => trivial

/-- A call that is not refused does not depend on the limit. -/
theorem call_congr {addresses : Resolutions} {d d' : Nat} (hd : ¬ d ≤ σ.depth) (hd' : ¬ d' ≤ σ.depth)
    (closure : Closure) (arguments : List Value) (line : Nat) :
    call ⟨addresses, d'⟩ k σ closure arguments line = call ⟨addresses, d⟩ k σ closure arguments line := by
  rw [call_of_lt hd', call_of_lt hd]

/-- Nothing else depends on it. -/
theorem step_congr {addresses : Resolutions} {d d' : Nat} (hle : d ≤ d')
    (hcall : ¬ m.Refuses ⟨addresses, d⟩) : m.step ⟨addresses, d'⟩ = m.step ⟨addresses, d⟩ := by
  obtain ⟨control, k, σ⟩ := m
  cases control with
  | eval line e => cases e <;> rfl
  | exec s => rfl
  | enter declarations => rfl
  | call closure arguments line =>
    have hdepth : ¬ d ≤ σ.depth := fun h => hcall ⟨_, _, _, rfl, h⟩
    exact call_congr hdepth (fun h => hdepth (Nat.le_trans hle h)) closure arguments line
  | ended outcome =>
    cases k with
    | nil => rfl
    | cons c k => rfl

/-- An error is handed on to the end, and nothing more is printed. -/
theorem step_failed (setting : Setting) (k : List Continuation) (σ : Store) (e : Error) :
    ∃ τ, step setting ⟨.ended (.failed e), k, σ⟩ = ⟨.ended (.failed e), k.tail, τ⟩ ∧ τ.sink = σ.sink := by
  cases k with
  | nil => exact ⟨_, rfl, rfl⟩
  | cons c k =>
    rcases c.accepts_or_passes (.failed e) with haccepts | hpasses
    · cases haccepts <;> exact ⟨_, rfl, rfl⟩
    · exact ⟨σ, hpasses.resume .., rfl⟩

end Machine

/-- Two moments of runs of which the first has the smaller limit. They are the same, or the first run has
had a call refused and the second has printed what the first has, and perhaps more. -/
inductive Machine.InStep (d : Nat) : Machine → Machine → Prop
  | same {m : Machine} (unrefused : m.control.Unrefused) : InStep d m m
  | refused {line : Nat} {k : List Continuation} {σ : Store} {m : Machine}
    (lines : σ.sink.lines.toList <+: m.store.sink.lines.toList) :
    InStep d ⟨.ended (.failed ⟨.recursionLimitExceeded d, line⟩), k, σ⟩ m

namespace Machine

theorem InStep.step {addresses : Resolutions} {d d' : Nat} (hle : d ≤ d') (h : InStep d m m') :
    InStep d (m.step ⟨addresses, d⟩) (m'.step ⟨addresses, d'⟩) := by
  cases h with
  | same unrefused =>
    by_cases hcall : m.Refuses ⟨addresses, d⟩
    · have hgrows : m.store.Grows ⟨addresses, d'⟩ (m.step ⟨addresses, d'⟩).store := m.grows_step
      obtain ⟨closure, arguments, line, hcontrol, hdepth⟩ := hcall
      obtain ⟨control, k, σ⟩ := m
      obtain rfl := hcontrol
      change InStep d (call ⟨addresses, d⟩ k σ closure arguments line) _
      rw [call_of_le hdepth]
      exact .refused hgrows.lines
    · rw [step_congr hle hcall]
      exact .same (unrefused_step unrefused hcall)
  | refused lines =>
    rename_i line k σ
    obtain ⟨τ, hstep, hsink⟩ := step_failed ⟨addresses, d⟩ k σ ⟨.recursionLimitExceeded d, line⟩
    rw [hstep]
    refine .refused ?_
    rw [hsink]
    exact lines.trans m'.grows_step.lines

theorem InStep.run {addresses : Resolutions} {d d' : Nat} (hle : d ≤ d') (h : InStep d m m')
    (steps : Nat) : InStep d (m.run ⟨addresses, d⟩ steps) (m'.run ⟨addresses, d'⟩ steps) := by
  simp only [run_eq_iterate]
  induction steps with
  | zero => exact h
  | succ steps ih =>
    simpa [Function.iterate_succ_apply'] using ih.step hle

theorem lines_run (steps more : Nat) (m : Machine) :
    (m.run setting steps).store.sink.lines.toList <+:
      (m.run setting (steps + more)).store.sink.lines.toList := by
  simp only [run_eq_iterate]
  induction more with
  | zero => exact List.prefix_refl _
  | succ more ih =>
    simpa [← Nat.add_assoc, Function.iterate_succ_apply'] using ih.trans (grows_step _).lines

/-- Nothing is printed after a run is over. -/
theorem lines_of_outcome? {steps : Nat} (hover : (m.run setting steps).outcome?.isSome) (other : Nat) :
    (m.run setting other).store.sink.lines.toList <+:
      (m.run setting steps).store.sink.lines.toList := by
  rcases Nat.le_total other steps with hle | hle
  · obtain ⟨more, rfl⟩ := Nat.exists_eq_add_of_le hle
    exact lines_run other more m
  · obtain ⟨more, rfl⟩ := Nat.exists_eq_add_of_le hle
    simp only [run_over hover, List.prefix_refl]

/-- The depth is the number of calls in progress, and within the limit. -/
theorem Extent.depth_le {control : Control} (hdepth : σ.depth ≤ setting.maxCallDepth)
    (h : Extent setting ⟨control, k, σ⟩ m) : m.store.depth ≤ setting.maxCallDepth := by
  induction h with
  | start => exact hdepth
  | step before unfinished ih => exact (grows_step _).depth ih
  | sink before sink ih => exact ih

theorem Extent.depth_eq {control : Control} (hσ : σ.Idle)
    (h : Extent setting ⟨control, [], σ⟩ m) : m.store.depth = Continuation.allCalls m.stack := by
  obtain ⟨above, hreturns⟩ := h.returns
  simp [hreturns.depth, hreturns.stack, hσ.at_rest.2]

/-- The limit on the depth of calls only cuts off. At every moment of what an interpreter does, the depth
is the number of calls in progress and within the limit. A run that ends in any way but with a refused
call ends in the very same state with any larger limit. The error of a refused call reports the limit, and
what was printed until then is the beginning of what a run with a larger limit prints, if this one ends. -/
theorem call_depth_cuts_off (addresses : Resolutions) :
    (∀ (limit : Nat) (σ : Store) (control : Control) (now : Machine), σ.Idle →
      Extent ⟨addresses, limit⟩ ⟨control, [], σ⟩ now →
        now.store.depth = Continuation.allCalls now.stack ∧ now.store.depth ≤ limit) ∧
    ∀ (program : Program) (σ : Store) (d d' steps : Nat) (outcome : Outcome), d ≤ d' →
      ((program.launch σ).run ⟨addresses, d⟩ steps).outcome? = some outcome →
        ((∀ limit line, outcome ≠ .failed ⟨.recursionLimitExceeded limit, line⟩) →
          (program.launch σ).run ⟨addresses, d'⟩ steps =
            (program.launch σ).run ⟨addresses, d⟩ steps) ∧
        ∀ limit line, outcome = .failed ⟨.recursionLimitExceeded limit, line⟩ → limit = d ∧
          ∀ steps', ((program.launch σ).run ⟨addresses, d'⟩ steps').outcome?.isSome →
            ((program.launch σ).run ⟨addresses, d⟩ steps).store.sink.lines.toList <+:
              ((program.launch σ).run ⟨addresses, d'⟩ steps').store.sink.lines.toList := by
  refine ⟨fun limit σ control now hidle hextent => ⟨hextent.depth_eq hidle, ?_⟩, ?_⟩
  · refine hextent.depth_le ?_
    rw [hidle.at_rest.2]
    exact Nat.zero_le _
  · intro program σ d d' steps outcome hle houtcome
    have hstart : InStep d (program.launch σ) (program.launch σ) := .same trivial
    have hinStep : InStep d ((program.launch σ).run ⟨addresses, d⟩ steps)
        ((program.launch σ).run ⟨addresses, d'⟩ steps) := hstart.run hle steps
    have hcontrol := (of_outcome? houtcome).1
    generalize hm : (program.launch σ).run ⟨addresses, d⟩ steps = m at *
    generalize hm' : (program.launch σ).run ⟨addresses, d'⟩ steps = m' at *
    cases hinStep with
    | same unrefused =>
      refine ⟨fun _ => rfl, fun limit line hrefused => ?_⟩
      rw [hcontrol, hrefused] at unrefused
      exact absurd trivial unrefused
    | refused lines =>
      obtain rfl := Control.ended.inj hcontrol
      refine ⟨fun hne => absurd rfl (hne _ _), fun limit line hrefused => ?_⟩
      cases hrefused
      refine ⟨rfl, fun steps' hover => ?_⟩
      rw [← hm'] at lines
      exact lines.trans (lines_of_outcome? hover steps)

end Machine

/-- A function prints and calls another, which prints as well. -/
def Program.nestedSample : Program where
  declarations :=
    [.function 1 ⟨⟨"f", 0⟩, [], .void⟩
        [.statement (.print 1 (.literal (.boolean true))),
          .statement (.expression 1 (.call (.name ⟨"g", 1⟩) []))],
      .function 2 ⟨⟨"g", 2⟩, [], .void⟩ [.statement (.print 2 (.literal (.boolean false)))],
      .statement (.expression 3 (.call (.name ⟨"f", 3⟩) []))]
  identifierCount := 4

def Resolutions.nestedSample : Resolutions :=
  ⟨#[some ⟨0, 0⟩, some ⟨1, 1⟩, some ⟨0, 1⟩, some ⟨0, 0⟩]⟩

def Machine.nestedSample (limit steps : Nat) : Machine :=
  .run ⟨.nestedSample, limit⟩ steps (Program.nestedSample.launch (.start .unlimited))

/-- With one call at a time, the sample only prints the first line. With two it ends, and a larger limit
makes no difference. -/
theorem Machine.call_depth_cuts_off_nestedSample :
    ((Machine.nestedSample 2 20).store.depth = 2 ∧
      Continuation.allCalls (Machine.nestedSample 2 20).stack = 2) ∧
    ((Machine.nestedSample 2 32).outcome?.isSome ∧
      Machine.nestedSample 9 32 = Machine.nestedSample 2 32) ∧
    (Machine.nestedSample 1 25).error? = some ⟨.recursionLimitExceeded 1, 1⟩ ∧
      (Machine.nestedSample 1 25).store.sink.lines = #["true"] ∧
      (Machine.nestedSample 2 32).store.sink.lines = #["true", "false"] ∧
      (Machine.nestedSample 1 25).store.sink.lines.toList <+:
        (Machine.nestedSample 2 32).store.sink.lines.toList := by
  obtain ⟨hdepth, hruns⟩ := call_depth_cuts_off .nestedSample
  have hextent : (Program.nestedSample.launch (.start .unlimited)).Extent ⟨.nestedSample, 2⟩
      (Machine.nestedSample 2 20) := Extent.start.run rfl 20
  have hinside := hdepth 2 _ _ _ (.start .unlimited) hextent
  have hended := hruns .nestedSample (.start .unlimited) 2 9 32 .normal (by decide) rfl
  have hrefused := hruns .nestedSample (.start .unlimited) 1 2 25
    (.failed ⟨.recursionLimitExceeded 1, 1⟩) (by decide) rfl
  refine ⟨⟨rfl, hinside.1.symm⟩, ⟨rfl, hended.1 (fun _ _ => nofun)⟩, rfl, rfl, rfl, ?_⟩
  exact (hrefused.2 1 1 rfl).2 32 rfl
end LexScript
