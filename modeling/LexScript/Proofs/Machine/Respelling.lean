import LexScript.Proofs.Machine.Output
import LexScript.Proofs.Typing.Respelling
import LexScript.Proofs.Value.Operator

/-!
# Running under another spelling

A run finds bindings by addresses, and compares functions by the identities of their declarations. With
respelled names and the same addresses it takes the same steps, and prints the same values but for the names
of functions: `Program.names_do_not_matter`.
-/

namespace LexScript

/-! ## Bindings under a map -/

def Slots.map {α β : Type} (g : α → β) (s : Slots α) : Slots β := ⟨s.entries.map (Option.map g)⟩

def Frame.map {α β : Type} (g : α → β) (frame : Frame α) : Frame β := ⟨frame.parent, frame.slots.map g⟩

def ScopeStack.map {α β : Type} (g : α → β) (s : ScopeStack α) : ScopeStack β :=
  ⟨s.frames.map (Frame.map g), s.current⟩

section

variable {α β : Type} (g : α → β)

namespace Slots

theorem get?_map (s : Slots α) (i : Nat) : (s.map g).get? i = (s.get? i).map g := by
  simp only [get?, map, Array.getElem?_map]
  cases s.entries[i]? <;> rfl

theorem put_map (s : Slots α) (i : Nat) (a : α) : (s.map g).put i (g a) = (s.put i a).map g := by
  simp only [put, map, Array.size_map]
  split <;> simp

end Slots

namespace ScopeStack

variable (s : ScopeStack α)

theorem parent?_map (f : FrameId) : (s.map g).parent? f = s.parent? f := by
  simp only [parent?, map, Array.getElem?_map]
  cases s.frames[f]? <;> rfl

theorem slot?_map (f : FrameId) (i : Nat) : (s.map g).slot? f i = (s.slot? f i).map g := by
  simp only [slot?, map, Array.getElem?_map]
  cases s.frames[f]? with
  | none => rfl
  | some frame => exact frame.slots.get?_map g i

theorem ancestor?_map (distance : Nat) (f : FrameId) :
    (s.map g).ancestor? distance f = s.ancestor? distance f := by
  induction distance generalizing f with
  | zero => rfl
  | succ distance ih =>
    simp only [ancestor?, parent?_map]
    exact Option.bind_congr fun outer _ => ih outer

theorem get?_map (a : Address) : (s.map g).get? a = (s.get? a).map g := by
  simp only [get?, ancestor?_map]
  cases hancestor : s.ancestor? a.distance s.current with
  | none =>
    change (s.ancestor? a.distance s.current).bind _ = _
    simp [hancestor]
  | some f =>
    change (s.ancestor? a.distance s.current).bind _ = _
    rw [hancestor]
    exact s.slot?_map g f a.slot

theorem locate?_map (a : Address) : (s.map g).locate? a = s.locate? a := by
  simp only [locate?, ancestor?_map]
  change (s.ancestor? a.distance s.current).filter _ = _
  simp only [slot?_map, Option.isSome_map]

theorem enterAt_map (outer : FrameId) : (s.map g).enterAt outer = (s.enterAt outer).map g := by
  simp [enterAt, map, Frame.map, Slots.map, Slots.empty]

theorem write_map (f : FrameId) (i : Nat) (a : α) : (s.map g).write f i (g a) = (s.write f i a).map g := by
  simp only [write, map]
  congr 1
  refine Array.ext_getElem? fun j => ?_
  simp only [Array.getElem?_modify, Array.getElem?_map]
  split
  · cases s.frames[j]? with
    | none => rfl
    | some frame => exact congrArg (fun slots => some (Frame.mk frame.parent slots)) (frame.slots.put_map g i a)
  · rfl

end ScopeStack
end

/-! ## The parts of a machine -/

section

variable (r : String → String)

def Closure.respell (c : Closure) : Closure :=
  ⟨c.header.respell r, Decl.respellAll r c.body, c.frame⟩

def Value.respell : Value → Value
  | .function c => .function (c.respell r)
  | v => v

def Binding.respell (b : Binding) : Binding := ⟨b.identifier.respell r, b.value.respell r, b.line⟩

def Outcome.respell : Outcome → Outcome
  | .value v => .value (v.respell r)
  | .normal => .normal
  | .returned v => .returned (v.respell r)
  | .failed e => .failed (e.respell r)

def Loop.respell (loop : Loop) : Loop :=
  ⟨loop.line, loop.condition.respell r, loop.step.map fun (line, step) => (line, step.respell r),
    loop.body.respell r⟩

def Continuation.respell : Continuation → Continuation
  | .operand operator right line => .operand operator (right.respell r) line
  | .binary operator left line => .binary operator (left.respell r) line
  | .unary operator line => .unary operator line
  | .assign target line => .assign (target.respell r) line
  | .callee arguments line => .callee (Expr.respellAll r arguments) line
  | .argument closure values rest line =>
    .argument (closure.respell r) (values.map (·.respell r)) (Expr.respellAll r rest) line
  | .discard => .discard
  | .print line => .print line
  | .branch line thenBranch elseBranch =>
    .branch line (thenBranch.respell r) (elseBranch.map (·.respell r))
  | .test loop => .test (loop.respell r)
  | .step loop => .step (loop.respell r)
  | .again loop => .again (loop.respell r)
  | .ret => .ret
  | .bind identifier line => .bind (identifier.respell r) line
  | .sequence rest => .sequence (Decl.respellAll r rest)
  | .leave frame => .leave frame
  | .endCall frame closure line => .endCall frame (closure.respell r) line

def Control.respell : Control → Control
  | .eval line e => .eval line (e.respell r)
  | .exec s => .exec (s.respell r)
  | .enter declarations => .enter (Decl.respellAll r declarations)
  | .call closure arguments line => .call (closure.respell r) (arguments.map (·.respell r)) line
  | .ended outcome => .ended (outcome.respell r)

def Store.respell (lines : Array String) (σ : Store) : Store :=
  ⟨σ.scopes.map (Value.respell r), σ.depth, ⟨lines, σ.sink.room⟩⟩

def Machine.respell (lines : Array String) (m : Machine) : Machine :=
  ⟨m.control.respell r, m.stack.map (·.respell r), m.store.respell r lines⟩

end

variable {r : String → String} {lines : Array String} {setting : Setting} {k : List Continuation} {σ : Store}

/-! ## Values -/

namespace Value

theorem respell_alike (v : Value) : v.Alike (v.respell r) := by
  cases v with
  | function c => exact .functions c _
  | _ => exact .refl _

theorem same_respell (v w : Value) : (v.respell r).same (w.respell r) = v.same w := by
  cases v <;> cases w <;> rfl

theorem Scoped.respell_eq {v : Value} (h : v.Scoped []) : v.respell r = v := by
  cases v with
  | function c => exact absurd h c.not_scoped_nil
  | _ => rfl

end Value

theorem Cause.OfOperation.respell_eq {cause : Cause} (h : cause.OfOperation) : cause.respell r = cause := by
  cases cause with
  | divisionByZero | repeatTooLarge | invalidOperands | invalidOperand => rfl
  | _ => exact h.elim

theorem Outcome.ofResult_respell {result : Except Cause Value} (hok : ∀ v, result = .ok v → v.Scoped [])
    (herror : ∀ cause, result = .error cause → cause.OfOperation) (line : Nat) :
    .ofResult line result = (Outcome.ofResult line result).respell r := by
  cases result with
  | ok v => exact congrArg Outcome.value (hok v rfl).respell_eq.symm
  | error cause => exact congrArg (fun c => Outcome.failed ⟨c, line⟩) (herror cause rfl).respell_eq.symm

theorem BinaryOperator.outcome_respell (operator : BinaryOperator) (v w : Value) (line : Nat) :
    .ofResult line (operator.apply (v.respell r) (w.respell r)) =
      (Outcome.ofResult line (operator.apply v w)).respell r := by
  rw [operator.apply_alike v.respell_alike w.respell_alike (v.same_respell w)]
  exact Outcome.ofResult_respell (fun _ => apply_scoped) (fun _ => apply_error) line

theorem UnaryOperator.outcome_respell (operator : UnaryOperator) (v : Value) (line : Nat) :
    .ofResult line (operator.apply (v.respell r)) =
      (Outcome.ofResult line (operator.apply v)).respell r := by
  rw [operator.apply_alike v.respell_alike]
  exact Outcome.ofResult_respell (fun _ => apply_scoped) (fun _ => apply_error) line

theorem Closure.answer_respell (c : Closure) (line : Nat) (outcome : Outcome) :
    (c.respell r).answer line (outcome.respell r) = (c.answer line outcome).respell r := by
  cases outcome with
  | normal =>
    change (if c.header.returns.isVoid then _ else _) = Outcome.respell r (if _ then _ else _)
    split <;> rfl
  | _ => rfl

theorem Closure.begin_respell (c : Closure) (outcome : Outcome) :
    (c.respell r).begin (outcome.respell r) = (c.begin outcome).respell r := by
  cases outcome <;> rfl

theorem Binding.ofFunctions_respell (f : FrameId) (declarations : List Decl) :
    Binding.ofFunctions f (Decl.respellAll r declarations) =
      (Binding.ofFunctions f declarations).map (·.respell r) := by
  induction declarations with
  | nil => rfl
  | cons d ds ih =>
    cases d with
    | function line header body => exact congrArg (List.cons _) ih
    | _ => exact ih

theorem Binding.ofArguments_respell (parameters : List Parameter) (arguments : List Value) (line : Nat) :
    Binding.ofArguments (parameters.map (·.respell r)) (arguments.map (·.respell r)) line =
      (Binding.ofArguments parameters arguments line).map (·.respell r) := by
  simp only [Binding.ofArguments, List.map_zipWith, List.zipWith_map]
  rfl

/-- What passes a continuation by also passes it with respelled names. -/
theorem Continuation.Passes.respell {c : Continuation} {outcome : Outcome} (h : c.Passes outcome) :
    (c.respell r).Passes (outcome.respell r) := by
  rcases (c.respell r).accepts_or_passes (outcome.respell r) with haccepts | hpasses
  · refine absurd ?_ h.not_accepts
    cases c with
    | sequence rest =>
      cases rest with
      | nil => cases haccepts
      | cons d ds =>
        cases outcome <;> cases haccepts
        constructor
    | _ => cases outcome <;> cases haccepts <;> constructor
  · exact hpasses

/-! ## Stores -/

namespace Store

theorem read_respell (lines : Array String) (addresses : Resolutions) (i : Identifier) (line : Nat) :
    (σ.respell r lines).read addresses (i.respell r) line = (σ.read addresses i line).respell r := by
  simp only [read, Resolutions.find_respell]
  cases addresses.find i line with
  | error e => rfl
  | ok a =>
    dsimp only [Except.mapError]
    rw [respell, ScopeStack.get?_map]
    cases σ.scopes.get? a <;> rfl

theorem assign_respell (lines : Array String) (addresses : Resolutions) (target : Identifier) (v : Value)
    (line : Nat) :
    (σ.respell r lines).assign addresses (target.respell r) (v.respell r) line =
      (σ.assign addresses target v line).map (Outcome.respell r) (Store.respell r lines) := by
  simp only [Store.assign_eq, Resolutions.find_respell]
  cases addresses.find target line with
  | error e => rfl
  | ok a =>
    dsimp only [Except.mapError]
    rw [respell, ScopeStack.locate?_map]
    cases σ.scopes.locate? a with
    | none => rfl
    | some f =>
      dsimp only
      rw [ScopeStack.write_map]
      rfl

theorem bind_respell (lines : Array String) (addresses : Resolutions) (bs : List Binding) :
    (σ.respell r lines).bind addresses (bs.map (·.respell r)) =
      (σ.bind addresses bs).map (Outcome.respell r) (Store.respell r lines) := by
  induction bs generalizing σ with
  | nil => rfl
  | cons b bs ih =>
    have hname : addresses.find (b.respell r).identifier (b.respell r).line = _ :=
      addresses.find_respell r b.identifier b.line
    simp only [List.map_cons, Store.bind, hname]
    cases addresses.find b.identifier b.line with
    | error e => rfl
    | ok a =>
      have hdefine : (σ.scopes.map (Value.respell r)).define a.slot (b.value.respell r) = _ :=
        ScopeStack.write_map (Value.respell r) σ.scopes σ.scopes.current a.slot b.value
      rw [← ih]
      exact congrArg (fun scopes => Store.bind addresses _ ⟨scopes, σ.depth, _⟩) hdefine

theorem enterAt_respell (f : FrameId) : (σ.respell r lines).enterAt f = (σ.enterAt f).respell r lines :=
  congrArg (fun scopes => Store.mk scopes σ.depth _) (ScopeStack.enterAt_map (Value.respell r) σ.scopes f)

theorem enterCall_respell (f : FrameId) :
    (σ.respell r lines).enterCall f = (σ.enterCall f).respell r lines :=
  congrArg (fun scopes => Store.mk scopes (σ.depth + 1) _)
    (ScopeStack.enterAt_map (Value.respell r) σ.scopes f)

variable (r) in
/-- The lines, and one more for each of the values with their names respelled. -/
def written (lines : Array String) (values : List Value) : Array String :=
  lines ++ (values.map fun v => (v.respell r).text).toArray

theorem written_nil : written r lines [] = lines := Array.append_empty

theorem print_respell (lines : Array String) (σ : Store) (v : Value) (line : Nat) :
    (σ.respell r lines).print (v.respell r) line = (σ.print v line).map (Outcome.respell r)
      (Store.respell r (written r lines (if σ.sink.room = some 0 then [] else [v]))) := by
  obtain ⟨scopes, depth, before, room⟩ := σ
  have hpush : written r lines [v] = lines.push (v.respell r).text := Array.append_singleton
  cases room with
  | none =>
    rw [if_neg nofun, hpush]
    rfl
  | some room =>
    cases room with
    | zero =>
      rw [if_pos rfl, written_nil]
      rfl
    | succ room =>
      rw [if_neg (by simp), hpush]
      rfl

end Store

/-! ## Steps -/

namespace Machine

open Store (written)

theorem eval_respell (line : Nat) (e : Expr) :
    eval setting line (k.map (·.respell r)) (σ.respell r lines) (e.respell r) =
      (eval setting line k σ e).respell r lines := by
  cases e with
  | literal literal => cases literal <;> rfl
  | name i =>
    have hread := σ.read_respell (r := r) lines setting.addresses i line
    exact congrArg (fun outcome => Machine.mk (.ended outcome) _ _) hread
  | _ => rfl

theorem exec_respell (s : Stmt) : exec (k.map (·.respell r)) (σ.respell r lines) (s.respell r) =
    (exec k σ s).respell r lines := by
  cases s with
  | block | forLoop =>
    exact congrArg (Machine.mk _ _) (Store.enterAt_respell σ.scopes.current)
  | ret line value => cases value <;> rfl
  | _ => rfl

theorem declare_respell (d : Decl) : declare (k.map (·.respell r)) (σ.respell r lines) (d.respell r) =
    (declare k σ d).respell r lines := by
  cases d <;> rfl

theorem enter_respell (declarations : List Decl) :
    enter setting (k.map (·.respell r)) (σ.respell r lines) (Decl.respellAll r declarations) =
      (enter setting k σ declarations).respell r lines := by
  have hfunctions := Binding.ofFunctions_respell (r := r) σ.scopes.current declarations
  simp only [enter]
  change (let bound := (σ.respell r lines).bind setting.addresses (Binding.ofFunctions σ.scopes.current _);
    Machine.mk (.ended bound.1) _ bound.2) = _
  rw [hfunctions, Store.bind_respell]
  rfl

theorem call_respell (closure : Closure) (arguments : List Value) (line : Nat) :
    call setting (k.map (·.respell r)) (σ.respell r lines) (closure.respell r)
        (arguments.map (·.respell r)) line =
      (call setting k σ closure arguments line).respell r lines := by
  by_cases hdepth : setting.maxCallDepth ≤ σ.depth
  · have hdepth' : setting.maxCallDepth ≤ (σ.respell r lines).depth := hdepth
    rw [call_of_le hdepth, call_of_le hdepth']
    rfl
  · have hdepth' : ¬ setting.maxCallDepth ≤ (σ.respell r lines).depth := hdepth
    have harguments := Binding.ofArguments_respell (r := r) closure.header.parameters arguments line
    have hframe : (σ.respell r lines).enterCall (closure.respell r).frame = _ :=
      Store.enterCall_respell closure.frame
    rw [call_of_lt hdepth, call_of_lt hdepth', hframe]
    change (let bound := Store.bind _ (Binding.ofArguments (closure.header.parameters.map _) _ line) _;
      Machine.mk ((closure.respell r).begin bound.1) _ bound.2) = _
    rw [harguments, Store.bind_respell]
    exact congrArg (fun control => Machine.mk control _ _) (closure.begin_respell _)

theorem nextArgument_respell (closure : Closure) (values : List Value) (line : Nat) (rest : List Expr) :
    nextArgument (k.map (·.respell r)) (σ.respell r lines) (closure.respell r) (values.map (·.respell r))
        line (Expr.respellAll r rest) =
      (nextArgument k σ closure values line rest).respell r lines := by
  cases rest with
  | nil =>
    simp only [Expr.respellAll, nextArgument, ← List.map_reverse]
    rfl
  | cons e es => rfl

/-- Something has ended with the result, and what is left is to be done. -/
def ended (k : List Continuation) (result : Outcome × Store) : Machine :=
  ⟨.ended result.1, k, result.2⟩

/-- A step that prints nothing adds no line. -/
theorem respell_of_silent {m m' : Machine} (h : m' = m.respell r lines) :
    m' = m.respell r (written r lines []) := by
  simp [Store.written_nil, h]

theorem resume_respell (c : Continuation) (outcome : Outcome) :
    resume setting (k.map (·.respell r)) (σ.respell r lines) (c.respell r) (outcome.respell r) =
      (resume setting k σ c outcome).respell r (written r lines (prints ⟨.ended outcome, c :: k, σ⟩)) := by
  rcases c.accepts_or_passes outcome with haccepts | hpasses
  · cases haccepts with
    | print line v =>
      have hprint := σ.print_respell (r := r) lines v line
      exact congrArg (ended _) hprint
    | binary operator left line right =>
      have houtcome := operator.outcome_respell (r := r) left right line
      exact respell_of_silent (congrArg (fun outcome => Machine.mk (.ended outcome) _ _) houtcome)
    | unary operator line operand =>
      have houtcome := operator.outcome_respell (r := r) operand line
      exact respell_of_silent (congrArg (fun outcome => Machine.mk (.ended outcome) _ _) houtcome)
    | assign target line v =>
      have hassign := σ.assign_respell (r := r) lines setting.addresses target v line
      exact respell_of_silent (congrArg (ended _) hassign)
    | callee arguments line v =>
      cases v with
      | function closure => exact respell_of_silent (nextArgument_respell closure [] line arguments)
      | _ => exact respell_of_silent rfl
    | argument closure values rest line v =>
      exact respell_of_silent (nextArgument_respell closure (v :: values) line rest)
    | branch line thenBranch elseBranch v =>
      cases v with
      | boolean b => cases b <;> cases elseBranch <;> exact respell_of_silent rfl
      | _ => exact respell_of_silent rfl
    | test loop v =>
      cases v with
      | boolean b => cases b <;> exact respell_of_silent rfl
      | _ => exact respell_of_silent rfl
    | step loop =>
      obtain ⟨line, condition, step, body⟩ := loop
      cases step <;> exact respell_of_silent rfl
    | bind identifier line v =>
      have hbind := σ.bind_respell (r := r) lines setting.addresses [⟨identifier, v, line⟩]
      exact respell_of_silent (congrArg (ended _) hbind)
    | sequence d ds => exact respell_of_silent (declare_respell (k := .sequence ds :: k) d)
    | leave frame => cases outcome <;> exact respell_of_silent rfl
    | endCall frame closure line =>
      have hanswer := closure.answer_respell (r := r) line outcome
      rw [show prints ⟨.ended outcome, .endCall frame closure line :: k, σ⟩ = [] by cases outcome <;> rfl]
      exact respell_of_silent (congrArg (fun outcome => Machine.mk (.ended outcome) _ _) hanswer)
    | _ => exact respell_of_silent rfl
  · rw [hpasses.resume, hpasses.respell.resume, prints_of_passes hpasses]
    exact respell_of_silent rfl

/-- A step of the machine with respelled names. -/
theorem step_respell (m : Machine) : (m.respell r lines).step setting =
    (m.step setting).respell r (written r lines m.prints) := by
  obtain ⟨control, k, σ⟩ := m
  cases control with
  | eval line e => exact respell_of_silent (eval_respell line e)
  | exec s => exact respell_of_silent (exec_respell s)
  | enter declarations => exact respell_of_silent (enter_respell declarations)
  | call closure arguments line => exact respell_of_silent (call_respell closure arguments line)
  | ended outcome =>
    cases k with
    | nil => cases outcome <;> exact respell_of_silent rfl
    | cons c k => exact resume_respell c outcome

theorem run_respell (steps : Nat) (m : Machine) : (m.respell r lines).run setting steps =
    (m.run setting steps).respell r (written r lines (m.printed setting steps)) := by
  simp only [run_eq_iterate]
  induction steps generalizing m lines with
  | zero => exact respell_of_silent rfl
  | succ steps ih =>
    have happend : written r (written r lines m.prints) ((m.step setting).printed setting steps) =
        written r lines (m.printed setting (steps + 1)) := by
      simp [printed, written]
    simp [step_respell, ih, happend]

theorem outcome?_respell (m : Machine) :
    (m.respell r lines).outcome? = m.outcome?.map (Outcome.respell r) := by
  obtain ⟨control, k, σ⟩ := m
  cases k <;> cases control <;> rfl

end Machine

theorem Program.launch_respell (p : Program) (sink : Sink) :
    (p.respell r).launch (.start sink) = (p.launch (.start sink)).respell r sink.lines := by
  simp [launch, Machine.respell, Control.respell, Store.respell, Store.start, respell, ScopeStack.global,
    ScopeStack.map, Frame.map, Slots.map, Slots.empty]

/-- After resolution, names do not matter. If all names are respelled and different names stay different, the
program has the same addresses, or the same error in its resolution; it passes the check with any addresses
or fails it with the same error; and it runs in the same way. It prints the same values, each function under its
new name, and the outcome is the same. In errors there are the new names. -/
theorem Program.names_do_not_matter (hr : r.Injective) (p : Program) :
    Resolutions.ofProgram (p.respell r) = (Resolutions.ofProgram p).mapError (Error.respell r) ∧
    ∀ addresses : Resolutions,
      (p.respell r).check addresses = (p.check addresses).mapError (Error.respell r) ∧
      ∀ (limit : Nat) (sink : Sink) (steps : Nat),
        let setting : Setting := ⟨addresses, limit⟩
        let values := (p.launch (.start sink)).printed setting steps
        let finish := (p.launch (.start sink)).run setting steps
        let finish' := ((p.respell r).launch (.start sink)).run setting steps
        finish.store.sink.lines.toList = sink.lines.toList ++ values.map Value.text ∧
        finish'.store.sink.lines.toList = sink.lines.toList ++ values.map (fun v => (v.respell r).text) ∧
        finish'.outcome? = finish.outcome?.map (Outcome.respell r) := by
  refine ⟨Resolutions.ofProgram_respell hr p, fun addresses => ⟨p.check_respell r addresses, ?_⟩⟩
  intro limit sink steps setting values finish finish'
  have hfinish' : finish' = finish.respell r (Store.written r sink.lines values) := by
    rw [← Machine.run_respell, ← Program.launch_respell]
  have hlines : finish'.store.sink.lines = Store.written r sink.lines values := by rw [hfinish']; rfl
  refine ⟨Machine.writes_run steps _, ?_, ?_⟩
  · simp [hlines, Store.written]
  · simp [hfinish', Machine.outcome?_respell]

/-- A function is printed, and then called. It ends without the number that it has to return. -/
def Program.namedSample : Program where
  declarations :=
    [.function 1 ⟨⟨"f", 0⟩, [], .number⟩ [],
      .statement (.print 2 (.name ⟨"f", 1⟩)),
      .statement (.expression 3 (.call (.name ⟨"f", 2⟩) []))]
  identifierCount := 3

def Program.lengthenedSample : Program := Program.namedSample.respell fun name => name ++ "x"

def Resolutions.namedSample : Resolutions := ⟨#[some ⟨0, 0⟩, some ⟨0, 0⟩, some ⟨0, 0⟩]⟩

/-- The sample prints `<fn f>` and fails for `f`. With longer names it has the same addresses, prints `<fn fx>`
and fails for `fx`. -/
theorem Program.names_do_not_matter_namedSample :
    Function.Injective (fun name : String => name ++ "x") ∧
    Resolutions.ofProgram .lengthenedSample = .ok .namedSample ∧
    Program.lengthenedSample.check .namedSample = .ok () ∧
    ((Program.namedSample.launch (.start .unlimited)).run ⟨.namedSample, 9⟩ 19).store.sink.lines.toList =
      ["<fn f>"] ∧
    ((Program.lengthenedSample.launch (.start .unlimited)).run ⟨.namedSample, 9⟩ 19).store.sink.lines.toList =
      ["<fn fx>"] ∧
    ((Program.lengthenedSample.launch (.start .unlimited)).run ⟨.namedSample, 9⟩ 19).outcome? =
      some (.failed ⟨.missingReturn "fx", 3⟩) := by
  have hr : Function.Injective fun name : String => name ++ "x" := fun a b h => by simpa using h
  obtain ⟨hresolve, hsame⟩ := names_do_not_matter hr .namedSample
  obtain ⟨hcheck, hrun⟩ := hsame .namedSample
  obtain ⟨hlines, hlines', houtcome⟩ := hrun 9 .unlimited 19
  exact ⟨hr, hresolve, hcheck, hlines, hlines', houtcome⟩

end LexScript
