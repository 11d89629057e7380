import LexScript.Proofs.Machine.Output

/-!
# A sink with limited room

Only printing looks at the sink. So a run whose sink takes a limited number of lines goes the same way, step by
step, as a run whose sink takes all, until a line finds no room. Then the print statement fails, and the error is
handed on to the end: `Program.limited_output`.
-/

namespace LexScript

def Store.withSink (σ : Store) (sink : Sink) : Store := { σ with sink }

namespace Machine

def withSink (m : Machine) (sink : Sink) : Machine := ⟨m.control, m.stack, m.store.withSink sink⟩

/-- The machine with a sink that takes so many lines in all. -/
def limited (capacity : Nat) (m : Machine) : Machine :=
  m.withSink ⟨m.store.sink.lines, some (capacity - m.store.sink.lines.size)⟩

/-- The next step prints the value, for the print statement on the line, and goes on with `k`. -/
structure PrintsNext (m : Machine) (v : Value) (line : Nat) (k : List Continuation) : Prop where
  control : m.control = .ended (.value v)
  stack : m.stack = .print line :: k

end Machine

variable {setting : Setting} {m : Machine} {k : List Continuation} {σ : Store}

/-! ## Only printing looks at the sink -/

namespace Store

theorem bind_withSink (sink : Sink) (addresses : Resolutions) (bs : List Binding) (σ : Store) :
    (σ.withSink sink).bind addresses bs = ((σ.bind addresses bs).1, (σ.bind addresses bs).2.withSink sink) := by
  induction bs generalizing σ with
  | nil => rfl
  | cons b bs ih =>
    simp only [bind]
    cases addresses.find b.identifier b.line with
    | error e => rfl
    | ok a => exact ih { σ with scopes := _ }

theorem assign_withSink (sink : Sink) (addresses : Resolutions) (target : Identifier) (v : Value) (line : Nat) :
    (σ.withSink sink).assign addresses target v line =
      ((σ.assign addresses target v line).1, (σ.assign addresses target v line).2.withSink sink) := by
  simp only [assign]
  cases addresses.find target line <;> rfl

end Store

namespace Machine

theorem call_withSink (sink : Sink) (closure : Closure) (arguments : List Value) (line : Nat) :
    call setting k (σ.withSink sink) closure arguments line =
      (call setting k σ closure arguments line).withSink sink := by
  by_cases hdepth : setting.maxCallDepth ≤ σ.depth
  · have hdepth' : setting.maxCallDepth ≤ (σ.withSink sink).depth := hdepth
    rw [call_of_le hdepth, call_of_le hdepth']
    rfl
  · have hdepth' : ¬ setting.maxCallDepth ≤ (σ.withSink sink).depth := hdepth
    have hbind := (σ.enterCall closure.frame).bind_withSink sink setting.addresses
      (Binding.ofArguments closure.header.parameters arguments line)
    have hentered : (σ.withSink sink).enterCall closure.frame = (σ.enterCall closure.frame).withSink sink := rfl
    simp only [call_of_lt hdepth, call_of_lt hdepth', hentered, hbind]
    rfl

theorem resume_withSink (sink : Sink) {c : Continuation} {outcome : Outcome}
    (h : ∀ v line, outcome = .value v → c ≠ .print line) :
    resume setting k (σ.withSink sink) c outcome = (resume setting k σ c outcome).withSink sink := by
  rcases c.accepts_or_passes outcome with haccepts | hpasses
  · cases haccepts with
    | print line v => exact absurd rfl (h v line rfl)
    | assign target line v =>
      have hassign := σ.assign_withSink sink setting.addresses target v line
      rw [resume, hassign]
      rfl
    | callee arguments line v =>
      cases v with
      | function closure => cases arguments <;> rfl
      | _ => rfl
    | argument closure values rest line v => cases rest <;> rfl
    | branch line thenBranch elseBranch v =>
      cases v with
      | boolean b => cases b <;> cases elseBranch <;> rfl
      | _ => rfl
    | test loop v =>
      cases v with
      | boolean b => cases b <;> rfl
      | _ => rfl
    | step loop =>
      obtain ⟨line, condition, step, body⟩ := loop
      cases step <;> rfl
    | bind identifier line v =>
      have hbind := σ.bind_withSink sink setting.addresses [⟨identifier, v, line⟩]
      rw [resume, hbind]
      rfl
    | sequence d ds => cases d <;> rfl
    | _ => rfl
  · simp only [hpasses.resume]
    rfl

/-- Any step but one that prints is the same with another sink. -/
theorem step_withSink (h : ∀ v line k, ¬ m.PrintsNext v line k) (sink : Sink) :
    (m.withSink sink).step setting = (m.step setting).withSink sink := by
  obtain ⟨control, k, σ⟩ := m
  cases control with
  | eval line e => cases e <;> rfl
  | exec s =>
    cases s with
    | ret line value => cases value <;> rfl
    | _ => rfl
  | enter declarations =>
    have hbind := σ.bind_withSink sink setting.addresses (Binding.ofFunctions σ.scopes.current declarations)
    change enter setting k (σ.withSink sink) declarations = _
    rw [enter, show (σ.withSink sink).scopes = σ.scopes from rfl, hbind]
    rfl
  | call closure arguments line => exact call_withSink sink closure arguments line
  | ended outcome =>
    cases k with
    | nil => rfl
    | cons c k =>
      refine resume_withSink sink fun v line houtcome hc => ?_
      exact h v line k ⟨congrArg Control.ended houtcome, congrArg (· :: k) hc⟩

/-! ## The run that is cut -/

theorem PrintsNext.step_eq {v : Value} {line : Nat} (h : m.PrintsNext v line k) :
    m.step setting = ⟨.ended (m.store.print v line).1, k, (m.store.print v line).2⟩ := by
  obtain ⟨control, stack, σ⟩ := m
  obtain ⟨rfl, rfl⟩ := h
  rfl

/-- A step that does not print leaves the sink alone. -/
theorem sink_step (h : ∀ v line k, ¬ m.PrintsNext v line k) : (m.step setting).store.sink = m.store.sink := by
  have hsame : m.step setting = (m.step setting).withSink m.store.sink := step_withSink h m.store.sink
  rw [hsame]
  rfl

/-- An unlimited sink takes the line. -/
theorem PrintsNext.sink_step {v : Value} {line : Nat} (h : m.PrintsNext v line k)
    (hroom : m.store.sink.room = none) :
    (m.step setting).store.sink = ⟨m.store.sink.lines.push v.text, none⟩ := by
  rw [h.step_eq]
  obtain ⟨control, stack, scopes, depth, lines, room⟩ := m
  obtain rfl := hroom
  rfl

/-- A sink without room refuses it. -/
theorem PrintsNext.step_full {v : Value} {line : Nat} (h : m.PrintsNext v line k)
    (hroom : m.store.sink.room = some 0) :
    m.step setting = ⟨.ended (.failed ⟨.outputFailed "sink closed", line⟩), k, m.store⟩ := by
  rw [h.step_eq]
  obtain ⟨control, stack, scopes, depth, lines, room⟩ := m
  obtain rfl := hroom
  rfl

theorem room_step (hroom : m.store.sink.room = none) : (m.step setting).store.sink.room = none := by
  by_cases hprints : ∃ v line k, m.PrintsNext v line k
  · obtain ⟨v, line, k, hprints⟩ := hprints
    rw [hprints.sink_step hroom]
  · simp only [not_exists] at hprints
    simp [sink_step hprints, hroom]

theorem room_run (hroom : m.store.sink.room = none) (steps : Nat) :
    (m.run setting steps).store.sink.room = none := by
  induction steps with
  | zero => exact hroom
  | succ steps ih =>
    rw [run_succ]
    exact room_step ih

/-- As long as there is room, the limit makes no difference to a step. -/
theorem limited_step {capacity : Nat} (hroom : m.store.sink.room = none)
    (hsize : (m.step setting).store.sink.lines.size ≤ capacity) :
    (m.limited capacity).step setting = (m.step setting).limited capacity := by
  by_cases hprints : ∃ v line k, m.PrintsNext v line k
  · obtain ⟨v, line, k, hprints⟩ := hprints
    rw [hprints.sink_step hroom, Array.size_push] at hsize
    obtain ⟨more, rfl⟩ := Nat.exists_eq_add_of_le hsize
    have hbefore : m.store.sink.lines.size + 1 + more - m.store.sink.lines.size = more + 1 := by omega
    have hafter : m.store.sink.lines.size + 1 + more - (m.store.sink.lines.size + 1) = more := by omega
    have hlimited : (m.limited (m.store.sink.lines.size + 1 + more)).PrintsNext v line k :=
      ⟨hprints.control, hprints.stack⟩
    rw [hlimited.step_eq, limited, limited, hprints.sink_step hroom, hprints.step_eq, hbefore, Array.size_push, hafter]
    obtain ⟨control, stack, scopes, depth, lines, room⟩ := m
    obtain rfl := hroom
    rfl
  · simp only [not_exists] at hprints
    simp [limited, step_withSink hprints, sink_step hprints]

/-- As long as there is room, it makes no difference to the run. -/
theorem limited_run {capacity : Nat} (hroom : m.store.sink.room = none) {steps : Nat}
    (hsize : (m.run setting steps).store.sink.lines.size ≤ capacity) :
    (m.limited capacity).run setting steps = (m.run setting steps).limited capacity := by
  induction steps with
  | zero => rfl
  | succ steps ih =>
    have hbefore : (m.run setting steps).store.sink.lines.size ≤ capacity :=
      Nat.le_trans (lines_run steps 1 m).length_le hsize
    rw [run_succ] at hsize
    simp [run_succ, ih hbefore, limited_step (room_run hroom steps) hsize]

/-- Of a run that prints more, the print statement is known that finds no room. -/
theorem exists_printsNext {capacity : Nat} (hroom : m.store.sink.room = none)
    (hstart : m.store.sink.lines.size ≤ capacity) {steps : Nat}
    (hsize : capacity < (m.run setting steps).store.sink.lines.size) :
    ∃ now < steps, (m.run setting now).store.sink.lines.size = capacity ∧
      ∃ v line k, (m.run setting now).PrintsNext v line k := by
  induction steps with
  | zero => exact absurd hstart (Nat.not_le_of_lt hsize)
  | succ steps ih =>
    by_cases hbefore : capacity < (m.run setting steps).store.sink.lines.size
    · obtain ⟨now, hnow, hprints⟩ := ih hbefore
      exact ⟨now, Nat.lt_succ_of_lt hnow, hprints⟩
    · rw [run_succ] at hsize
      by_cases hprints : ∃ v line k, (m.run setting steps).PrintsNext v line k
      · obtain ⟨v, line, k, hprints⟩ := hprints
        rw [hprints.sink_step (room_run hroom steps), Array.size_push] at hsize
        exact ⟨steps, Nat.lt_succ_self steps, by omega, v, line, k, hprints⟩
      · simp only [not_exists] at hprints
        rw [sink_step hprints] at hsize
        exact absurd hsize hbefore

/-- An error is handed on to the end. -/
theorem run_failed (setting : Setting) (k : List Continuation) (σ : Store) (e : Error) :
    ∃ τ, run setting k.length ⟨.ended (.failed e), k, σ⟩ = ⟨.ended (.failed e), [], τ⟩ ∧ τ.sink = σ.sink := by
  induction k generalizing σ with
  | nil => exact ⟨σ, rfl, rfl⟩
  | cons c k ih =>
    obtain ⟨τ, hstep, hsink⟩ := step_failed setting (c :: k) σ e
    obtain ⟨ρ, hrun, hsame⟩ := ih τ
    refine ⟨ρ, ?_, hsame.trans hsink⟩
    simpa [← run_step, hstep] using hrun

/-- Without room, a print statement ends the run, and nothing more is printed. -/
theorem PrintsNext.run_full {v : Value} {line : Nat} (h : m.PrintsNext v line k) (setting : Setting)
    (hroom : m.store.sink.room = some 0) :
    (m.run setting (k.length + 1)).outcome? = some (.failed ⟨.outputFailed "sink closed", line⟩) ∧
      (m.run setting (k.length + 1)).store.sink = m.store.sink := by
  obtain ⟨τ, hrun, hsink⟩ := run_failed setting k m.store ⟨.outputFailed "sink closed", line⟩
  have hstep : m.run setting 1 = m.step setting := m.run_succ setting 0
  rw [Nat.add_comm, run_add, hstep, h.step_full hroom, hrun]
  exact ⟨rfl, hsink⟩

/-! ## The statement that prints -/

/-- The next step begins the print statement, and `k` comes after it. -/
structure BeginsPrint (m : Machine) (line : Nat) (k : List Continuation) : Prop where
  control : ∃ e, m.control = .exec (.print line e)
  stack : m.stack = k

theorem suffix_of_push {c d : Continuation} {l : List Continuation} (h : c :: k <:+ d :: l) (hne : c ≠ d) :
    c :: k <:+ l := by
  rcases List.suffix_cons_iff.1 h with heq | hsuffix
  · exact absurd (List.cons.inj heq).1 hne
  · exact hsuffix

theorem printsLater_exec {line : Nat} {l : List Continuation} {s : Stmt}
    (h : .print line :: k <:+ (exec l σ s).stack) :
    .print line :: k <:+ l ∨ BeginsPrint ⟨.exec s, l, σ⟩ line k := by
  cases s with
  | print line' e =>
    rcases List.suffix_cons_iff.1 h with heq | hsuffix
    · obtain ⟨hline, hk⟩ := List.cons.inj heq
      obtain rfl := Continuation.print.inj hline
      exact .inr ⟨⟨e, rfl⟩, hk.symm⟩
    · exact .inl hsuffix
  | ret line' value =>
    cases value with
    | none => exact .inl h
    | some e => exact .inl (suffix_of_push h nofun)
  | forLoop line' first condition stepLine step body =>
    exact .inl (suffix_of_push (suffix_of_push h nofun) nofun)
  | _ => exact .inl (suffix_of_push h nofun)

theorem printsLater_resume {line : Nat} {l : List Continuation} {c : Continuation} {outcome : Outcome}
    (h : .print line :: k <:+ (resume setting l σ c outcome).stack) : .print line :: k <:+ l := by
  rcases c.accepts_or_passes outcome with haccepts | hpasses
  · cases haccepts with
    | operand operator right line' left => exact suffix_of_push h nofun
    | callee arguments line' v =>
      cases v with
      | function closure =>
        cases arguments with
        | nil => exact h
        | cons e es => exact suffix_of_push h nofun
      | _ => exact h
    | argument closure values rest line' v =>
      cases rest with
      | nil => exact h
      | cons e es => exact suffix_of_push h nofun
    | branch line' thenBranch elseBranch v =>
      cases v with
      | boolean b => cases b <;> cases elseBranch <;> exact h
      | _ => exact h
    | test loop v =>
      cases v with
      | boolean b =>
        cases b with
        | false => exact h
        | true => exact suffix_of_push h nofun
      | _ => exact h
    | step loop =>
      obtain ⟨line', condition, step, body⟩ := loop
      cases step <;> exact suffix_of_push h nofun
    | again loop => exact suffix_of_push h nofun
    | sequence d ds =>
      cases d with
      | binding => exact suffix_of_push (suffix_of_push h nofun) nofun
      | _ => exact suffix_of_push h nofun
    | _ => exact h
  · rwa [hpasses.resume] at h

/-- A continuation that prints was put on the stack by its statement. -/
theorem printsLater_step {line : Nat} (h : .print line :: k <:+ (m.step setting).stack) :
    .print line :: k <:+ m.stack ∨ m.BeginsPrint line k := by
  obtain ⟨control, l, σ⟩ := m
  cases control with
  | eval line' e =>
    cases e with
    | literal | name => exact .inl h
    | _ => exact .inl (suffix_of_push h nofun)
  | exec s => exact printsLater_exec h
  | enter declarations => exact .inl (suffix_of_push h nofun)
  | call closure arguments line' =>
    change .print line :: k <:+ (call setting l σ closure arguments line').stack at h
    by_cases hdepth : setting.maxCallDepth ≤ σ.depth
    · rw [call_of_le hdepth] at h
      exact .inl h
    · rw [call_of_lt hdepth] at h
      exact .inl (suffix_of_push h nofun)
  | ended outcome =>
    cases l with
    | nil => exact .inl h
    | cons c l => exact .inl ((printsLater_resume h).trans (List.suffix_cons c l))

/-- What prints in a run is a print statement that was begun in it, and has not ended since. -/
theorem exists_beginsPrint {line : Nat} (hstart : m.stack = []) {now : Nat}
    (h : .print line :: k <:+ (m.run setting now).stack) :
    ∃ begun < now, (m.run setting begun).BeginsPrint line k ∧
      ∀ since, begun < since → since ≤ now → .print line :: k <:+ (m.run setting since).stack := by
  induction now with
  | zero =>
    rw [run, hstart] at h
    cases List.suffix_nil.1 h
  | succ now ih =>
    have hnow := h
    rw [run_succ] at hnow
    rcases printsLater_step hnow with hbefore | hbegins
    · obtain ⟨begun, hbegun, hbegins, hsince⟩ := ih hbefore
      refine ⟨begun, Nat.lt_succ_of_lt hbegun, hbegins, fun since hlt hle => ?_⟩
      rcases Nat.le_succ_iff.1 hle with hle | rfl
      · exact hsince since hlt hle
      · exact h
    · refine ⟨now, Nat.lt_succ_self now, hbegins, fun since hlt hle => ?_⟩
      obtain rfl : since = now + 1 := by omega
      exact h

end Machine

def Sink.limited (capacity : Nat) : Sink := ⟨#[], some capacity⟩

/-- Under a sink with limited room the output is a prefix. As long as a run with an unlimited sink has printed no
more than the limit, the limited run has printed the same, and it is over with the same outcome if that one is.
Of a run that prints more, even if it never ends, the print statement is known whose line finds no room. There the
limited run ends: it fails with the line of that statement, and has printed as much as there is room for. -/
theorem Program.limited_output (program : Program) (addresses : Resolutions) (limit capacity : Nat) :
    let whole := (program.launch (.start .unlimited)).run ⟨addresses, limit⟩
    let cut := (program.launch (.start (.limited capacity))).run ⟨addresses, limit⟩
    ∀ steps,
      ((whole steps).store.sink.lines.size ≤ capacity →
        (cut steps).outcome? = (whole steps).outcome? ∧
          (cut steps).store.sink.lines = (whole steps).store.sink.lines) ∧
      (capacity < (whole steps).store.sink.lines.size →
        ∃ begun now v line k, begun < now ∧ now < steps ∧ (whole begun).BeginsPrint line k ∧
          (∀ since, begun < since → since ≤ now → .print line :: k <:+ (whole since).stack) ∧
          (whole now).PrintsNext v line k ∧ (whole now).store.sink.lines.size = capacity ∧
          ∃ more, (cut more).outcome? = some (.failed ⟨.outputFailed "sink closed", line⟩) ∧
            (cut more).store.sink.lines.toList = (whole steps).store.sink.lines.toList.take capacity) := by
  intro whole cut steps
  have hroom : (program.launch (.start .unlimited)).store.sink.room = none := rfl
  have hsame {steps : Nat} (hsize : (whole steps).store.sink.lines.size ≤ capacity) :
      cut steps = (whole steps).limited capacity := Machine.limited_run hroom hsize
  refine ⟨fun hsize => ?_, fun hsize => ?_⟩
  · rw [hsame hsize]
    exact ⟨rfl, rfl⟩
  · obtain ⟨now, hnow, hfull, v, line, k, hprints⟩ := Machine.exists_printsNext hroom (Nat.zero_le _) hsize
    have hstack : .print line :: k <:+ (whole now).stack := ⟨[], hprints.stack.symm⟩
    obtain ⟨begun, hbegun, hbegins, hsince⟩ := Machine.exists_beginsPrint rfl hstack
    refine ⟨begun, now, v, line, k, hbegun, hnow, hbegins, hsince, hprints, hfull, ?_⟩
    have hcut : cut now = (whole now).limited capacity := hsame (Nat.le_of_eq hfull)
    have hcutPrints : (cut now).PrintsNext v line k := by
      rw [hcut]
      exact ⟨hprints.control, hprints.stack⟩
    have hnoRoom : (cut now).store.sink.room = some 0 := by
      rw [hcut]
      exact congrArg some (Nat.sub_eq_zero_of_le (Nat.le_of_eq hfull.symm))
    obtain ⟨houtcome, hsink⟩ := hcutPrints.run_full ⟨addresses, limit⟩ hnoRoom
    have hmore : (cut now).run ⟨addresses, limit⟩ (k.length + 1) = cut (now + (k.length + 1)) :=
      (Machine.run_add _ now _ _).symm
    rw [hmore] at houtcome hsink
    refine ⟨_, houtcome, ?_⟩
    have hprefix : (whole now).store.sink.lines.toList <+:
        (whole (now + (steps - now))).store.sink.lines.toList := Machine.lines_run ..
    rw [Nat.add_sub_cancel' (Nat.le_of_lt hnow)] at hprefix
    rw [hsink, hcut, ← hfull]
    exact List.prefix_iff_eq_take.1 hprefix

/-- The sample prints two lines. A sink with room for both does not change its run. With room for one the second
print statement fails, inside of two calls. -/
theorem Program.limited_output_nestedSample :
    let cut (capacity : Nat) := (nestedSample.launch (.start (.limited capacity))).run ⟨.nestedSample, 2⟩
    ((cut 2 32).outcome? = some .normal ∧ (cut 2 32).store.sink.lines = #["true", "false"]) ∧
    (∃ more line, (cut 1 more).outcome? = some (.failed ⟨.outputFailed "sink closed", line⟩) ∧
      (cut 1 more).store.sink.lines.toList = ["true"]) ∧
    (cut 1 32).error? = some ⟨.outputFailed "sink closed", 2⟩ := by
  refine ⟨(limited_output nestedSample .nestedSample 2 2 32).1 (by decide +kernel), ?_, rfl⟩
  obtain ⟨begun, now, v, line, k, -, -, -, -, -, -, more, houtcome, hlines⟩ :=
    (limited_output nestedSample .nestedSample 2 1 32).2 (by decide +kernel)
  exact ⟨more, line, houtcome, hlines⟩

end LexScript
