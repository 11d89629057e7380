import LexScript.Proofs.Machine.DepthLimit
import LexScript.Proofs.Machine.Rekeying
import LexScript.Proofs.Typing.Swaps
import LexScript.Proofs.Value.Operator
import Mathlib.Data.Rel

/-!
# Running functions in another order

A program with neighbouring functions swapped takes the same steps, if names have slots that no scope
renumbers. Its closures carry swapped bodies, the functions of a scope are bound in another order, and
everything else is the same. Since slot numbers do not matter, so it is with the numbers that resolution gives:
`Program.function_order_irrelevant`.
-/

namespace LexScript

/-- One table serves both programs. -/
theorem Program.Swaps.keyed {p p' : Program} (h : p.Swaps p') {addresses addresses' table : Resolutions}
    {key : String → Nat} (hkeyed : Resolutions.Keyed key p addresses table)
    (hp' : Resolutions.ofProgram p' = .ok addresses') : Resolutions.Keyed key p' addresses' table := by
  refine ⟨h.distinctIdentities hkeyed.identities, hp', hkeyed.injective, fun o' ho' a' ha' => ?_⟩
  obtain ⟨o, ho, hswaps⟩ := h.symm.occurrence ho'
  have hdistance := h.distance hkeyed.identities hkeyed.resolved hp' o'.identifier.id
  rw [ha', Option.map_some] at hdistance
  obtain ⟨a, ha, hsame⟩ := Option.map_eq_some_iff.1 hdistance.symm
  rw [← hswaps.identifier] at ha ⊢
  simp [hkeyed.keyed o ho a ha, hsame]

/-! ## Machines with functions swapped -/

structure Closure.Swaps (c d : Closure) : Prop where
  header : d.header = c.header
  body : Decl.AllSwaps c.body d.body
  frame : d.frame = c.frame

inductive Value.Swaps : Value → Value → Prop
  | number (x : Float) : Swaps (.number x) (.number x)
  | boolean (b : Bool) : Swaps (.boolean b) (.boolean b)
  | string (s : String) : Swaps (.string s) (.string s)
  | function {c d : Closure} (closures : c.Swaps d) : Swaps (.function c) (.function d)
  | void : Swaps .void .void

inductive Outcome.Swaps : Outcome → Outcome → Prop
  | value {v w : Value} (values : v.Swaps w) : Swaps (.value v) (.value w)
  | normal : Swaps .normal .normal
  | returned {v w : Value} (values : v.Swaps w) : Swaps (.returned v) (.returned w)
  | failed (e : Error) : Swaps (.failed e) (.failed e)

inductive Loop.Swaps : Loop → Loop → Prop
  | intro (line : Nat) (condition : Expr) (step : Option (Nat × Expr)) {body body' : Stmt}
    (inside : body.Swaps body') : Swaps ⟨line, condition, step, body⟩ ⟨line, condition, step, body'⟩

inductive Continuation.Swaps : Continuation → Continuation → Prop
  | operand (operator : BinaryOperator) (right : Expr) (line : Nat) :
    Swaps (.operand operator right line) (.operand operator right line)
  | binary (operator : BinaryOperator) {left left' : Value} (line : Nat) (values : left.Swaps left') :
    Swaps (.binary operator left line) (.binary operator left' line)
  | unary (operator : UnaryOperator) (line : Nat) : Swaps (.unary operator line) (.unary operator line)
  | assign (target : Identifier) (line : Nat) : Swaps (.assign target line) (.assign target line)
  | callee (arguments : List Expr) (line : Nat) : Swaps (.callee arguments line) (.callee arguments line)
  | argument {c d : Closure} {vs ws : List Value} (rest : List Expr) (line : Nat) (closures : c.Swaps d)
    (values : List.Forall₂ Value.Swaps vs ws) : Swaps (.argument c vs rest line) (.argument d ws rest line)
  | discard : Swaps .discard .discard
  | print (line : Nat) : Swaps (.print line) (.print line)
  | branch (line : Nat) {thenBranch thenBranch' : Stmt} {elseBranch elseBranch' : Option Stmt}
    (first : thenBranch.Swaps thenBranch') (second : Option.Rel Stmt.Swaps elseBranch elseBranch') :
    Swaps (.branch line thenBranch elseBranch) (.branch line thenBranch' elseBranch')
  | test {loop loop' : Loop} (loops : loop.Swaps loop') : Swaps (.test loop) (.test loop')
  | step {loop loop' : Loop} (loops : loop.Swaps loop') : Swaps (.step loop) (.step loop')
  | again {loop loop' : Loop} (loops : loop.Swaps loop') : Swaps (.again loop) (.again loop')
  | ret : Swaps .ret .ret
  | bind (identifier : Identifier) (line : Nat) : Swaps (.bind identifier line) (.bind identifier line)
  | sequence {rest rest' : List Decl} (matched : List.Forall₂ Decl.Matches rest rest') :
    Swaps (.sequence rest) (.sequence rest')
  | leave (frame : FrameId) : Swaps (.leave frame) (.leave frame)
  | endCall (frame : FrameId) {c d : Closure} (line : Nat) (closures : c.Swaps d) :
    Swaps (.endCall frame c line) (.endCall frame d line)

inductive Control.Swaps : Control → Control → Prop
  | eval (line : Nat) (e : Expr) : Swaps (.eval line e) (.eval line e)
  | exec {s s' : Stmt} (statements : s.Swaps s') : Swaps (.exec s) (.exec s')
  | enter {ds ds' : List Decl} (declarations : Decl.AllSwaps ds ds') : Swaps (.enter ds) (.enter ds')
  | call {c d : Closure} {vs ws : List Value} (line : Nat) (closures : c.Swaps d)
    (values : List.Forall₂ Value.Swaps vs ws) : Swaps (.call c vs line) (.call d ws line)
  | ended {outcome outcome' : Outcome} (outcomes : outcome.Swaps outcome') :
    Swaps (.ended outcome) (.ended outcome')

structure Binding.Swaps (b b' : Binding) : Prop where
  identifier : b'.identifier = b.identifier
  value : b.value.Swaps b'.value
  line : b'.line = b.line

/-- The second bindings are the first, and neighbours that go to different slots may have changed places. -/
inductive Binding.AllSwaps (table : Resolutions) : List Binding → List Binding → Prop
  | nil : AllSwaps table [] []
  | cons {b b' : Binding} {bs bs' : List Binding} (first : b.Swaps b') (rest : AllSwaps table bs bs') :
    AllSwaps table (b :: bs) (b' :: bs')
  | swap {b b' c c' : Binding} {bs bs' : List Binding} {i j : Address} (first : b.Swaps b')
    (second : c.Swaps c') (found : table.get? b.identifier.id = some i)
    (found' : table.get? c.identifier.id = some j) (apart : i.slot ≠ j.slot) (rest : AllSwaps table bs bs') :
    AllSwaps table (b :: c :: bs) (c' :: b' :: bs')

/-- The frames are the same, and their slots hold values that differ in the order of functions alone. -/
structure ScopeStack.Swaps (s t : ScopeStack Value) : Prop where
  current : t.current = s.current
  size : t.frames.size = s.frames.size
  parents : ∀ f, t.parent? f = s.parent? f
  slots : ∀ f i, Option.Rel Value.Swaps (s.slot? f i) (t.slot? f i)

structure Store.Swaps (σ τ : Store) : Prop where
  scopes : σ.scopes.Swaps τ.scopes
  depth : τ.depth = σ.depth
  sink : τ.sink = σ.sink

structure Machine.Swaps (m m' : Machine) : Prop where
  control : m.control.Swaps m'.control
  stack : List.Forall₂ Continuation.Swaps m.stack m'.stack
  store : m.store.Swaps m'.store

/-! ## Values -/

theorem Closure.Swaps.refl (c : Closure) : c.Swaps c := ⟨rfl, .refl c.body, rfl⟩

namespace Value.Swaps

variable {v v' w w' : Value}

theorem refl : ∀ v : Value, v.Swaps v
  | .number x => .number x
  | .boolean b => .boolean b
  | .string s => .string s
  | .function c => .function (.refl c)
  | .void => .void

theorem alike (h : v.Swaps v') : v.Alike v' := by
  cases h with
  | function => exact .functions ..
  | _ => exact .refl _

theorem text (h : v.Swaps v') : v'.text = v.text := by
  cases h with
  | function closures => simp [Value.text, closures.header]
  | _ => rfl

/-- Functions are compared by the identities of their names. -/
theorem same (h : v.Swaps v') (h' : w.Swaps w') : v'.same w' = v.same w := by
  cases h with
  | function closures =>
    cases h' with
    | function closures' =>
      simp [Value.same, Closure.same, closures.header, closures.frame, closures'.header, closures'.frame]
    | _ => rfl
  | _ => cases h' <;> rfl

end Value.Swaps

theorem Outcome.Swaps.refl : ∀ outcome : Outcome, outcome.Swaps outcome
  | .value v => .value (.refl v)
  | .normal => .normal
  | .returned v => .returned (.refl v)
  | .failed e => .failed e

theorem Outcome.Swaps.of_eq {outcome outcome' : Outcome} (h : outcome' = outcome) : outcome.Swaps outcome' :=
  h ▸ .refl outcome

theorem Closure.Swaps.answer {c d : Closure} (h : c.Swaps d) {outcome outcome' : Outcome}
    (ho : outcome.Swaps outcome') (line : Nat) : (c.answer line outcome).Swaps (d.answer line outcome') := by
  cases ho with
  | value values => exact .value values
  | normal =>
    simp only [Closure.answer, h.header]
    exact .refl _
  | returned values => exact .value values
  | failed e => exact .failed e

theorem Closure.Swaps.begin {c d : Closure} (h : c.Swaps d) {outcome outcome' : Outcome}
    (ho : outcome.Swaps outcome') : (c.begin outcome).Swaps (d.begin outcome') := by
  cases ho with
  | normal => exact .enter h.body
  | value values => exact .ended (.value values)
  | returned values => exact .ended (.returned values)
  | failed e => exact .ended (.failed e)

namespace Binding.AllSwaps

variable {table : Resolutions}

/-- The functions of a scope are bound in either order, since functions of different names have different
slots. -/
theorem ofFunctions {key : String → Nat} (hkey : key.Injective) (f : FrameId) {ds ds' : List Decl}
    (hds : Decl.AllSwaps ds ds')
    (haddress : ∀ i ∈ ds.filterMap Resolution.hoisted?, table.get? i.id = some ⟨0, key i.name⟩) :
    AllSwaps table (Binding.ofFunctions f ds) (Binding.ofFunctions f ds') := by
  cases hds with
  | nil => exact .nil
  | cons first rest =>
    have hrest := ofFunctions hkey f rest
    cases first with
    | binding | statement => exact hrest haddress
    | forward => exact hrest (List.forall_mem_cons.1 haddress).2
    | function line header inside =>
      exact .cons ⟨rfl, .function ⟨rfl, inside, rfl⟩, rfl⟩ (hrest (List.forall_mem_cons.1 haddress).2)
  | swap first second declared declared' names rest =>
    simp only [List.filterMap_cons_some declared, List.filterMap_cons_some declared',
      List.forall_mem_cons] at haddress
    obtain ⟨hi, hj, haddress⟩ := haddress
    have hrest := ofFunctions hkey f rest haddress
    cases first with
    | binding | statement => cases declared
    | forward =>
      cases second with
      | binding | statement => cases declared'
      | forward => exact hrest
      | function line header inside => exact .cons ⟨rfl, .function ⟨rfl, inside, rfl⟩, rfl⟩ hrest
    | function line header inside =>
      cases second with
      | binding | statement => cases declared'
      | forward => exact .cons ⟨rfl, .function ⟨rfl, inside, rfl⟩, rfl⟩ hrest
      | function line' header' inside' =>
        obtain rfl := Option.some.inj declared
        obtain rfl := Option.some.inj declared'
        exact .swap ⟨rfl, .function ⟨rfl, inside, rfl⟩, rfl⟩ ⟨rfl, .function ⟨rfl, inside', rfl⟩, rfl⟩ hi hj
          (fun hslot => names (hkey hslot)) hrest

theorem ofArguments (parameters : List Parameter) {vs ws : List Value} (h : List.Forall₂ Value.Swaps vs ws)
    (line : Nat) :
    AllSwaps table (Binding.ofArguments parameters vs line) (Binding.ofArguments parameters ws line) := by
  induction h generalizing parameters with
  | nil => cases parameters <;> exact .nil
  | cons first _ ih =>
    cases parameters with
    | nil => exact .nil
    | cons p ps => exact .cons ⟨rfl, first, rfl⟩ (ih ps)

end Binding.AllSwaps

/-- What passes a continuation by also passes it with functions swapped. -/
theorem Continuation.Swaps.passes {c c' : Continuation} (h : c.Swaps c') {outcome outcome' : Outcome}
    (ho : outcome.Swaps outcome') (hpasses : c.Passes outcome) : c'.Passes outcome' := by
  rcases c'.accepts_or_passes outcome' with haccepts | hpasses'
  · refine absurd ?_ hpasses.not_accepts
    cases haccepts with
    | sequence d ds =>
      cases h with | sequence matched =>
      cases matched with | cons =>
      cases ho
      constructor
    | leave | endCall => cases h; constructor
    | _ => cases h; cases ho; constructor
  · exact hpasses'

/-! ## Stores -/

namespace ScopeStack.Swaps

variable {s t : ScopeStack Value}

theorem restore (h : s.Swaps t) (f : FrameId) : (s.restore f).Swaps (t.restore f) :=
  ⟨rfl, h.size, h.parents, h.slots⟩

theorem enterAt (h : s.Swaps t) (outer : FrameId) : (s.enterAt outer).Swaps (t.enterAt outer) where
  current := h.size
  size := by simp [ScopeStack.enterAt, h.size]
  parents f := by simp [parent?_enterAt, h.size, h.parents]
  slots f i := by
    simpa [slot?_enterAt] using h.slots f i

theorem write (h : s.Swaps t) {v w : Value} (hv : v.Swaps w) (f : FrameId) (i : Nat) :
    (s.write f i v).Swaps (t.write f i w) where
  current := h.current
  size := (Array.size_modify ..).trans (h.size.trans (Array.size_modify ..).symm)
  parents g := by simp [parent?_write, h.parents]
  slots g j := by
    by_cases hf : f < s.frames.size
    · rw [slot?_write s hf, slot?_write t (h.size ▸ hf)]
      split
      · exact .some hv
      · exact h.slots g j
    · have hle := Nat.le_of_not_lt hf
      simpa [slot?_write_of_le hle, slot?_write_of_le (h.size ▸ hle)] using h.slots g j

/-- Different slots may be written in either order. -/
theorem write_comm (h : s.Swaps t) {v v' w w' : Value} (hv : v.Swaps v') (hw : w.Swaps w') (f : FrameId)
    {i j : Nat} (hij : i ≠ j) : ((s.write f i v).write f j w).Swaps ((t.write f j w').write f i v') := by
  have hordered := (h.write hv f i).write hw f j
  have hsize : ∀ k x, (t.write f k x).frames.size = t.frames.size := fun _ _ => Array.size_modify ..
  have hslots : ∀ g k, ((t.write f j w').write f i v').slot? g k = ((t.write f i v').write f j w').slot? g k := by
    intro g k
    by_cases hf : f < t.frames.size
    · simp only [slot?_write _ (hsize .. ▸ hf), slot?_write _ hf]
      by_cases hi : f = g ∧ i = k
      · rw [if_pos hi, if_neg fun hj => hij (hi.2.trans hj.2.symm), if_pos hi]
      · simp [hi]
    · have hle := Nat.le_of_not_lt hf
      simp [slot?_write_of_le (hsize .. ▸ hle), slot?_write_of_le hle]
  refine ⟨hordered.current, ?_, fun g => ?_, fun g k => ?_⟩
  · simpa [ScopeStack.write] using hordered.size
  · simp [← hordered.parents, parent?_write]
  · rw [hslots]
    exact hordered.slots g k

theorem get? (h : s.Swaps t) (a : Address) : Option.Rel Value.Swaps (s.get? a) (t.get? a) := by
  simp only [ScopeStack.get?, ancestor?_congr h.parents, h.current]
  cases s.ancestor? a.distance s.current with
  | none => exact .none
  | some f => exact h.slots f a.slot

theorem locate? (h : s.Swaps t) (a : Address) : t.locate? a = s.locate? a := by
  simp only [ScopeStack.locate?, ancestor?_congr h.parents, h.current]
  have hfilled : ∀ f, (t.slot? f a.slot).isSome = (s.slot? f a.slot).isSome := by
    intro f
    have hslot := h.slots f a.slot
    generalize s.slot? f a.slot = held at hslot ⊢
    generalize t.slot? f a.slot = held' at hslot ⊢
    cases hslot <;> rfl
  simp only [hfilled]

end ScopeStack.Swaps

variable {addresses table : Resolutions} {key : String → Nat} {setting : Setting} {program : Program}
  {activations : List Activation} {k k' : List Continuation} {σ τ : Store}

namespace Store.Swaps

theorem enterAt (h : σ.Swaps τ) (f : FrameId) : (σ.enterAt f).Swaps (τ.enterAt f) :=
  ⟨h.scopes.enterAt f, h.depth, h.sink⟩

theorem enterCall (h : σ.Swaps τ) (f : FrameId) : (σ.enterCall f).Swaps (τ.enterCall f) :=
  ⟨h.scopes.enterAt f, congrArg (· + 1) h.depth, h.sink⟩

theorem restore (h : σ.Swaps τ) (f : FrameId) : (σ.restore f).Swaps (τ.restore f) :=
  ⟨h.scopes.restore f, h.depth, h.sink⟩

theorem leaveCall (h : σ.Swaps τ) (f : FrameId) : (σ.leaveCall f).Swaps (τ.leaveCall f) :=
  ⟨h.scopes.restore f, congrArg (· - 1) h.depth, h.sink⟩

theorem print (h : σ.Swaps τ) {v w : Value} (hv : v.Swaps w) (line : Nat) :
    (σ.print v line).1.Swaps (τ.print w line).1 ∧ (σ.print v line).2.Swaps (τ.print w line).2 := by
  simp only [Store.print, hv.text, h.sink]
  exact ⟨.refl _, h.scopes, h.depth, rfl⟩

theorem read (h : σ.Swaps τ) (i : Identifier) (line : Nat) :
    (σ.read table i line).Swaps (τ.read table i line) := by
  simp only [Store.read]
  cases table.find i line with
  | error e => exact .failed e
  | ok a =>
    have hget := h.scopes.get? a
    dsimp only
    generalize σ.scopes.get? a = held at hget
    generalize τ.scopes.get? a = held' at hget
    cases hget with
    | none => exact .failed _
    | some values => exact .value values

theorem assign (h : σ.Swaps τ) (table : Resolutions) (i : Identifier) {v w : Value} (hv : v.Swaps w)
    (line : Nat) :
    (σ.assign table i v line).1.Swaps (τ.assign table i w line).1 ∧
      (σ.assign table i v line).2.Swaps (τ.assign table i w line).2 := by
  simp only [Store.assign_eq]
  cases table.find i line with
  | error e => exact ⟨.failed e, h⟩
  | ok a =>
    dsimp only
    rw [h.scopes.locate?]
    cases σ.scopes.locate? a with
    | none => exact ⟨.failed _, h⟩
    | some f => exact ⟨.value hv, h.scopes.write hv f a.slot, h.depth, h.sink⟩

theorem define (h : σ.Swaps τ) {v w : Value} (hv : v.Swaps w) (i : Nat) :
    Store.Swaps { σ with scopes := σ.scopes.define i v } { τ with scopes := τ.scopes.define i w } := by
  refine ⟨?_, h.depth, h.sink⟩
  simpa [ScopeStack.define, h.scopes.current] using h.scopes.write hv _ i

theorem bind (h : σ.Swaps τ) {bs bs' : List Binding} (hbs : Binding.AllSwaps table bs bs') :
    (σ.bind table bs).1.Swaps (τ.bind table bs').1 ∧ (σ.bind table bs).2.Swaps (τ.bind table bs').2 := by
  induction hbs generalizing σ τ with
  | nil => exact ⟨.normal, h⟩
  | @cons b b' bs bs' first _ ih =>
    simp only [Store.bind, first.identifier, first.line]
    cases table.find b.identifier b.line with
    | error e => exact ⟨.failed e, h⟩
    | ok a => exact ih (h.define first.value a.slot)
  | @swap b b' c c' bs bs' i j first second found found' apart _ ih =>
    have hb := Resolutions.find_of_get? found b.line
    have hc := Resolutions.find_of_get? found' c.line
    rw [Store.bind, hb, Store.bind, second.identifier, second.line, hc]
    dsimp only
    simp only [Store.bind, hc, first.identifier, first.line, hb]
    refine ih ⟨?_, h.depth, h.sink⟩
    have hscopes := h.scopes.write_comm first.value second.value σ.scopes.current apart
    simpa [ScopeStack.define, ScopeStack.current_write, h.scopes.current] using hscopes

end Store.Swaps

/-! ## Steps -/

namespace Machine.Swaps

theorem eval (hσ : σ.Swaps τ) (hk : List.Forall₂ Continuation.Swaps k k') (line : Nat) (e : Expr) :
    Machine.Swaps (Machine.eval setting line k σ e) (Machine.eval setting line k' τ e) := by
  cases e with
  | literal => exact ⟨.ended (.refl _), hk, hσ⟩
  | name i => exact ⟨.ended (hσ.read i line), hk, hσ⟩
  | assign target value => exact ⟨.eval line value, .cons (.assign target line) hk, hσ⟩
  | unary operator operand => exact ⟨.eval line operand, .cons (.unary operator line) hk, hσ⟩
  | binary operator left right => exact ⟨.eval line left, .cons (.operand operator right line) hk, hσ⟩
  | call callee arguments => exact ⟨.eval line callee, .cons (.callee arguments line) hk, hσ⟩

theorem exec (hσ : σ.Swaps τ) (hk : List.Forall₂ Continuation.Swaps k k') {s s' : Stmt} (hs : s.Swaps s') :
    Machine.Swaps (Machine.exec k σ s) (Machine.exec k' τ s') := by
  cases hs with
  | expression line value => exact ⟨.eval line value, .cons .discard hk, hσ⟩
  | print line value => exact ⟨.eval line value, .cons (.print line) hk, hσ⟩
  | block line inside =>
    simp only [Machine.exec, hσ.scopes.current]
    exact ⟨.enter inside, .cons (.leave _) hk, hσ.enterAt _⟩
  | ifThen line condition inside =>
    exact ⟨.eval line condition, .cons (.branch line inside .none) hk, hσ⟩
  | ifElse line condition first second =>
    exact ⟨.eval line condition, .cons (.branch line first (.some second)) hk, hσ⟩
  | whileLoop line condition inside =>
    exact ⟨.eval line condition, .cons (.test (.intro line condition none inside)) hk, hσ⟩
  | forLoop line condition stepLine step start inside =>
    simp only [Machine.exec, hσ.scopes.current]
    exact ⟨.enter (.cons start .nil), .cons (.again (.intro line condition _ inside)) (.cons (.leave _) hk),
      hσ.enterAt _⟩
  | ret line value =>
    cases value with
    | none => exact ⟨.ended (.refl _), hk, hσ⟩
    | some e => exact ⟨.eval line e, .cons .ret hk, hσ⟩

theorem declare (hσ : σ.Swaps τ) (hk : List.Forall₂ Continuation.Swaps k k') {d d' : Decl}
    (hd : d.Matches d') : Machine.Swaps (Machine.declare k σ d) (Machine.declare k' τ d') := by
  rcases hd with hswaps | ⟨hfunction, hfunction'⟩
  · cases hswaps with
    | binding line identifier type value => exact ⟨.eval line value, .cons (.bind identifier line) hk, hσ⟩
    | function | forward => exact ⟨.ended .normal, hk, hσ⟩
    | statement inside => exact ⟨.exec inside, hk, hσ⟩
  · cases d with
    | binding | statement => cases hfunction
    | function | forward =>
      cases d' with
      | binding | statement => cases hfunction'
      | function | forward => exact ⟨.ended .normal, hk, hσ⟩

theorem enter (hkeyed : Resolutions.Keyed key program addresses setting.addresses) (hσ : σ.Swaps τ)
    (hk : List.Forall₂ Continuation.Swaps k k') {ds ds' : List Decl} (hds : Decl.AllSwaps ds ds')
    (hm : Machine.Scoped program activations ⟨.enter ds, k, σ⟩) :
    Machine.Swaps (Machine.enter setting k σ ds) (Machine.enter setting k' τ ds') := by
  obtain ⟨a, ha, rfl⟩ := hm.control
  obtain ⟨outer, -, hopening, -⟩ := hm.scopes.activation _ _ ha
  have hfunctions := Binding.AllSwaps.ofFunctions hkeyed.injective σ.scopes.current hds fun i hi =>
    (hkeyed.early hopening (List.mem_append_right _ hi)).rekeyed
  obtain ⟨houtcome, hstore⟩ := hσ.bind hfunctions
  simp only [Machine.enter, hσ.scopes.current]
  exact ⟨.ended houtcome, .cons (.sequence hds.matches) hk, hstore⟩

theorem call (hσ : σ.Swaps τ) (hk : List.Forall₂ Continuation.Swaps k k') {c d : Closure} (hc : c.Swaps d)
    {vs ws : List Value} (hvs : List.Forall₂ Value.Swaps vs ws) (line : Nat) :
    Machine.Swaps (Machine.call setting k σ c vs line) (Machine.call setting k' τ d ws line) := by
  by_cases hdepth : setting.maxCallDepth ≤ σ.depth
  · have hdepth' : setting.maxCallDepth ≤ τ.depth := by rwa [hσ.depth]
    simp only [call_of_le hdepth, call_of_le hdepth']
    exact ⟨.ended (.failed _), hk, hσ⟩
  · have hdepth' : ¬ setting.maxCallDepth ≤ τ.depth := by rwa [hσ.depth]
    have harguments : Binding.AllSwaps setting.addresses _ _ := .ofArguments c.header.parameters hvs line
    obtain ⟨houtcome, hstore⟩ := (hσ.enterCall c.frame).bind harguments
    simp only [call_of_lt hdepth, call_of_lt hdepth', hc.header, hc.frame, hσ.scopes.current]
    exact ⟨hc.begin houtcome, .cons (.endCall _ line hc) hk, hstore⟩

theorem nextArgument (hσ : σ.Swaps τ) (hk : List.Forall₂ Continuation.Swaps k k') {c d : Closure}
    (hc : c.Swaps d) {vs ws : List Value} (hvs : List.Forall₂ Value.Swaps vs ws) (line : Nat)
    (rest : List Expr) :
    Machine.Swaps (Machine.nextArgument k σ c vs line rest) (Machine.nextArgument k' τ d ws line rest) := by
  cases rest with
  | nil => exact ⟨.call line hc (List.rel_reverse hvs), hk, hσ⟩
  | cons e es => exact ⟨.eval line e, .cons (.argument es line hc hvs) hk, hσ⟩

/-! ### An outcome for each kind of continuation -/

section

variable (hσ : σ.Swaps τ) (hk : List.Forall₂ Continuation.Swaps k k') (line : Nat)

include hσ hk

section

variable {v w : Value} (hv : v.Swaps w)

include hv

theorem resume_binary (operator : BinaryOperator) {left left' : Value} (hleft : left.Swaps left') :
    Machine.Swaps (Machine.resume setting k σ (.binary operator left line) (.value v))
      (Machine.resume setting k' τ (.binary operator left' line) (.value w)) := by
  have hresult := operator.apply_alike hleft.alike hv.alike (hleft.same hv)
  exact ⟨.ended (.of_eq (congrArg (Outcome.ofResult line) hresult)), hk, hσ⟩

theorem resume_unary (operator : UnaryOperator) :
    Machine.Swaps (Machine.resume setting k σ (.unary operator line) (.value v))
      (Machine.resume setting k' τ (.unary operator line) (.value w)) := by
  have hresult := operator.apply_alike hv.alike
  exact ⟨.ended (.of_eq (congrArg (Outcome.ofResult line) hresult)), hk, hσ⟩

theorem resume_assign (target : Identifier) :
    Machine.Swaps (Machine.resume setting k σ (.assign target line) (.value v))
      (Machine.resume setting k' τ (.assign target line) (.value w)) := by
  obtain ⟨houtcome, hstore⟩ := hσ.assign setting.addresses target hv line
  exact ⟨.ended houtcome, hk, hstore⟩

theorem resume_callee (arguments : List Expr) :
    Machine.Swaps (Machine.resume setting k σ (.callee arguments line) (.value v))
      (Machine.resume setting k' τ (.callee arguments line) (.value w)) := by
  cases hv with
  | function closures => exact nextArgument hσ hk closures .nil line arguments
  | _ => exact ⟨.ended (.failed _), hk, hσ⟩

theorem resume_print :
    Machine.Swaps (Machine.resume setting k σ (.print line) (.value v))
      (Machine.resume setting k' τ (.print line) (.value w)) := by
  obtain ⟨houtcome, hstore⟩ := hσ.print hv line
  exact ⟨.ended houtcome, hk, hstore⟩

theorem resume_branch {thenBranch thenBranch' : Stmt} {elseBranch elseBranch' : Option Stmt}
    (hthen : thenBranch.Swaps thenBranch') (helse : Option.Rel Stmt.Swaps elseBranch elseBranch') :
    Machine.Swaps (Machine.resume setting k σ (.branch line thenBranch elseBranch) (.value v))
      (Machine.resume setting k' τ (.branch line thenBranch' elseBranch') (.value w)) := by
  cases hv with
  | boolean b =>
    cases b with
    | true => exact ⟨.exec hthen, hk, hσ⟩
    | false =>
      cases helse with
      | none => exact ⟨.ended .normal, hk, hσ⟩
      | some statements => exact ⟨.exec statements, hk, hσ⟩
  | _ => exact ⟨.ended (.failed _), hk, hσ⟩

theorem resume_bind (identifier : Identifier) :
    Machine.Swaps (Machine.resume setting k σ (.bind identifier line) (.value v))
      (Machine.resume setting k' τ (.bind identifier line) (.value w)) := by
  have hbindings : Binding.AllSwaps setting.addresses [⟨identifier, v, line⟩] [⟨identifier, w, line⟩] :=
    .cons ⟨rfl, hv, rfl⟩ .nil
  obtain ⟨houtcome, hstore⟩ := hσ.bind hbindings
  exact ⟨.ended houtcome, hk, hstore⟩

end

omit line in
theorem resume_test {loop loop' : Loop} (hloops : loop.Swaps loop') {v w : Value} (hv : v.Swaps w) :
    Machine.Swaps (Machine.resume setting k σ (.test loop) (.value v))
      (Machine.resume setting k' τ (.test loop') (.value w)) := by
  cases hloops with | intro line condition step inside =>
  cases hv with
  | boolean b =>
    cases b with
    | true => exact ⟨.exec inside, .cons (.step (.intro line condition step inside)) hk, hσ⟩
    | false => exact ⟨.ended .normal, hk, hσ⟩
  | _ => exact ⟨.ended (.failed _), hk, hσ⟩

omit line in
theorem resume_step {loop loop' : Loop} (hloops : loop.Swaps loop') :
    Machine.Swaps (Machine.resume setting k σ (.step loop) .normal)
      (Machine.resume setting k' τ (.step loop') .normal) := by
  cases hloops with | intro line condition step inside =>
  cases step with
  | none => exact ⟨.eval line condition, .cons (.test (.intro line condition none inside)) hk, hσ⟩
  | some step =>
    exact ⟨.exec (.expression step.1 step.2), .cons (.again (.intro line condition _ inside)) hk, hσ⟩

omit line in
theorem resume_again {loop loop' : Loop} (hloops : loop.Swaps loop') :
    Machine.Swaps (Machine.resume setting k σ (.again loop) .normal)
      (Machine.resume setting k' τ (.again loop') .normal) := by
  cases hloops with | intro line condition step inside =>
  exact ⟨.eval line condition, .cons (.test (.intro line condition step inside)) hk, hσ⟩

end

theorem resume (hσ : σ.Swaps τ) (hk : List.Forall₂ Continuation.Swaps k k') {c c' : Continuation}
    (hc : c.Swaps c') {outcome outcome' : Outcome} (ho : outcome.Swaps outcome') :
    Machine.Swaps (Machine.resume setting k σ c outcome) (Machine.resume setting k' τ c' outcome') := by
  rcases c.accepts_or_passes outcome with haccepts | hpasses
  · cases haccepts with
    | operand operator right line left =>
      cases hc
      cases ho with | value values =>
      exact ⟨.eval line right, .cons (.binary operator line values) hk, hσ⟩
    | binary operator left line right =>
      cases hc with | binary _ _ values =>
      cases ho with | value values' =>
      exact resume_binary hσ hk line values' operator values
    | unary operator line operand =>
      cases hc
      cases ho with | value values =>
      exact resume_unary hσ hk line values operator
    | assign target line v =>
      cases hc
      cases ho with | value values =>
      exact resume_assign hσ hk line values target
    | callee arguments line v =>
      cases hc
      cases ho with | value values =>
      exact resume_callee hσ hk line values arguments
    | argument closure vs rest line v =>
      cases hc with | argument _ _ closures values =>
      cases ho with | value value =>
      exact nextArgument hσ hk closures (.cons value values) line rest
    | discard v =>
      cases hc
      cases ho
      exact ⟨.ended .normal, hk, hσ⟩
    | print line v =>
      cases hc
      cases ho with | value values =>
      exact resume_print hσ hk line values
    | branch line thenBranch elseBranch v =>
      cases hc with | branch _ first second =>
      cases ho with | value values =>
      exact resume_branch hσ hk line values first second
    | test loop v =>
      cases hc with | test loops =>
      cases ho with | value values =>
      exact resume_test hσ hk loops values
    | step loop =>
      cases hc with | step loops =>
      cases ho
      exact resume_step hσ hk loops
    | again loop =>
      cases hc with | again loops =>
      cases ho
      exact resume_again hσ hk loops
    | ret v =>
      cases hc
      cases ho with | value values =>
      exact ⟨.ended (.returned values), hk, hσ⟩
    | bind identifier line v =>
      cases hc
      cases ho with | value values =>
      exact resume_bind hσ hk line values identifier
    | sequence d ds =>
      cases hc with | sequence matched =>
      cases ho
      cases matched with | cons first rest =>
      exact declare hσ (.cons (.sequence rest) hk) first
    | leave frame =>
      cases hc
      exact ⟨.ended ho, hk, hσ.restore frame⟩
    | endCall frame closure line =>
      cases hc with | endCall _ _ closures =>
      exact ⟨.ended (closures.answer ho line), hk, hσ.leaveCall frame⟩
  · simp only [hpasses.resume, (hc.passes ho hpasses).resume]
    exact ⟨.ended ho, hk, hσ⟩

theorem step (hkeyed : Resolutions.Keyed key program addresses setting.addresses) {m m' : Machine}
    (hscoped : m.Scoped program activations) (h : m.Swaps m') : (m.step setting).Swaps (m'.step setting) := by
  obtain ⟨control, k, σ⟩ := m
  obtain ⟨control', k', τ⟩ := m'
  obtain ⟨hcontrol, hk, hσ⟩ := h
  cases hcontrol with
  | eval line e => exact eval hσ hk line e
  | exec statements => exact exec hσ hk statements
  | enter declarations => exact enter hkeyed hσ hk declarations hscoped
  | call line closures values => exact call hσ hk closures values line
  | ended outcomes =>
    cases hk with
    | nil => exact ⟨.ended outcomes, .nil, hσ⟩
    | cons first rest => exact resume hσ rest first outcomes

/-- Both runs are over, or none is, and they end alike. -/
theorem outcome {m m' : Machine} (h : m.Swaps m') : Option.Rel Outcome.Swaps m.outcome? m'.outcome? := by
  obtain ⟨control, k, σ⟩ := m
  obtain ⟨control', k', τ⟩ := m'
  obtain ⟨hcontrol, hk, hσ⟩ := h
  cases hk with
  | nil =>
    cases hcontrol with
    | ended outcomes => exact .some outcomes
    | _ => exact .none
  | cons => cases hcontrol <;> exact .none

/-- A program and the program with functions swapped run in step, if no scope renumbers the slots. -/
theorem run {p p' : Program} (h : p.Swaps p')
    (hkeyed : Resolutions.Keyed key p addresses setting.addresses) (sink : Sink) (steps : Nat) :
    ∃ activations, Machine.Scoped p activations ((p.launch (.start sink)).run setting steps) ∧
      ((p.launch (.start sink)).run setting steps).Swaps ((p'.launch (.start sink)).run setting steps) := by
  induction steps with
  | zero =>
    have hslots : ∀ f i, Option.Rel Value.Swaps (ScopeStack.global.slot? f i) (ScopeStack.global.slot? f i) := by
      intro f i
      rw [ScopeStack.slot?_global]
      exact .none
    exact ⟨_, .start p sink, .enter h, .nil, ⟨rfl, rfl, fun _ => rfl, hslots⟩, rfl, rfl⟩
  | succ steps ih =>
    obtain ⟨activations, hscoped, hswaps⟩ := ih
    simp only [run_succ]
    exact ⟨_, hscoped.step, hswaps.step hkeyed hscoped⟩

end Machine.Swaps

/-- With the addresses that resolution gives to each of the two programs, their runs print the same and end
alike. -/
theorem Program.Swaps.run {p p' : Program} (h : p.Swaps p') (hids : p.DistinctIdentities)
    {addresses addresses' : Resolutions} (hp : Resolutions.ofProgram p = .ok addresses)
    (hp' : Resolutions.ofProgram p' = .ok addresses') (limit : Nat) (sink : Sink) (steps : Nat) :
    ((p'.launch (.start sink)).run ⟨addresses', limit⟩ steps).store.sink =
        ((p.launch (.start sink)).run ⟨addresses, limit⟩ steps).store.sink ∧
      Option.Rel Outcome.Swaps ((p.launch (.start sink)).run ⟨addresses, limit⟩ steps).outcome?
        ((p'.launch (.start sink)).run ⟨addresses', limit⟩ steps).outcome? := by
  obtain ⟨key, hkey⟩ := exists_key
  obtain ⟨table, hkeyed⟩ := Resolutions.exists_keyed hids hp hkey
  obtain ⟨_, -, hfirst⟩ := Run.rekeyed hkeyed limit sink steps
  obtain ⟨_, -, hsecond⟩ := Run.rekeyed (h.keyed hkeyed hp') limit sink steps
  have hsetting : Resolutions.Keyed key p addresses (Setting.mk table limit).addresses := hkeyed
  obtain ⟨_, -, hswaps⟩ := Machine.Swaps.run h hsetting sink steps
  obtain ⟨houtcome, hsink⟩ := hfirst.outcome
  obtain ⟨houtcome', hsink'⟩ := hsecond.outcome
  have hrel := hswaps.outcome
  rw [houtcome, houtcome'] at hrel
  refine ⟨?_, hrel⟩
  simp [← hsink', hswaps.store.sink, hsink]

/-- The order of neighbouring functions does not matter. If functions of different names that follow each other
change places, anywhere in a parsed program, then its names are resolved if they were before, it passes the
check if it did before, and it prints the same and ends with the same error or without one, whatever the
limit on the depth of calls. -/
theorem Program.function_order_irrelevant {tokens : List Token} {p p' : Program}
    (hparsed : Program.ofTokens tokens = .ok p) (h : p.Swaps p') :
    ((∃ addresses', Resolutions.ofProgram p' = .ok addresses') ↔
      ∃ addresses, Resolutions.ofProgram p = .ok addresses) ∧
    ∀ addresses addresses', Resolutions.ofProgram p = .ok addresses →
      Resolutions.ofProgram p' = .ok addresses' →
      (p'.check addresses' = .ok () ↔ p.check addresses = .ok ()) ∧
      ∀ (limit : Nat) (sink : Sink) (steps : Nat),
        let finish := (p.launch (.start sink)).run ⟨addresses, limit⟩ steps
        let finish' := (p'.launch (.start sink)).run ⟨addresses', limit⟩ steps
        finish'.store.sink = finish.store.sink ∧ finish'.outcome?.isSome = finish.outcome?.isSome ∧
          finish'.error? = finish.error? := by
  have hids : p.DistinctIdentities := .ofTokens hparsed
  have hids' := h.distinctIdentities hids
  refine ⟨⟨?_, ?_⟩, fun addresses addresses' hp hp' => ⟨⟨?_, ?_⟩, ?_⟩⟩
  · rintro ⟨addresses', hp'⟩
    exact h.symm.resolves hp'
  · rintro ⟨addresses, hp⟩
    exact h.resolves hp
  · exact h.symm.check hids' hp' hp
  · exact h.check hids hp hp'
  · intro limit sink steps finish finish'
    obtain ⟨hsink, hrel⟩ := h.run hids hp hp' limit sink steps
    change Option.Rel Outcome.Swaps finish.outcome? finish'.outcome? at hrel
    refine ⟨hsink, ?_, ?_⟩
    · generalize finish.outcome? = outcome at hrel ⊢
      generalize finish'.outcome? = outcome' at hrel ⊢
      cases hrel <;> rfl
    · simp only [Machine.error?]
      generalize finish.outcome? = outcome at hrel ⊢
      generalize finish'.outcome? = outcome' at hrel ⊢
      cases hrel with
      | none => rfl
      | some outcomes => cases outcomes <;> rfl

/-- The tokens of a program with two functions inside another one. The first calls the second, which prints the
first. -/
def Token.siblingsSample : List Token :=
  [⟨.fnWord, "fn", 1⟩, ⟨.identifier, "main", 1⟩, ⟨.openParen, "(", 1⟩, ⟨.closeParen, ")", 1⟩,
    ⟨.openCurly, "\x7b", 1⟩,
    ⟨.fnWord, "fn", 2⟩, ⟨.identifier, "a", 2⟩, ⟨.openParen, "(", 2⟩, ⟨.closeParen, ")", 2⟩,
    ⟨.openCurly, "\x7b", 2⟩, ⟨.identifier, "b", 2⟩, ⟨.openParen, "(", 2⟩, ⟨.closeParen, ")", 2⟩,
    ⟨.semicolon, ";", 2⟩, ⟨.closeCurly, "\x7d", 2⟩,
    ⟨.fnWord, "fn", 3⟩, ⟨.identifier, "b", 3⟩, ⟨.openParen, "(", 3⟩, ⟨.closeParen, ")", 3⟩,
    ⟨.openCurly, "\x7b", 3⟩, ⟨.printWord, "print", 3⟩, ⟨.openParen, "(", 3⟩, ⟨.identifier, "a", 3⟩,
    ⟨.closeParen, ")", 3⟩, ⟨.semicolon, ";", 3⟩, ⟨.closeCurly, "\x7d", 3⟩,
    ⟨.identifier, "a", 4⟩, ⟨.openParen, "(", 4⟩, ⟨.closeParen, ")", 4⟩, ⟨.semicolon, ";", 4⟩,
    ⟨.closeCurly, "\x7d", 4⟩,
    ⟨.identifier, "main", 5⟩, ⟨.openParen, "(", 5⟩, ⟨.closeParen, ")", 5⟩, ⟨.semicolon, ";", 5⟩]

def Decl.callerSample : Decl :=
  .function 2 ⟨⟨"a", 1⟩, [], .void⟩ [.statement (.expression 2 (.call (.name ⟨"b", 2⟩) []))]

def Decl.printerSample : Decl :=
  .function 3 ⟨⟨"b", 3⟩, [], .void⟩ [.statement (.print 3 (.name ⟨"a", 4⟩))]

def Program.ofSiblings (siblings : List Decl) : Program where
  declarations :=
    [.function 1 ⟨⟨"main", 0⟩, [], .void⟩
        (siblings ++ [.statement (.expression 4 (.call (.name ⟨"a", 5⟩) []))]),
      .statement (.expression 5 (.call (.name ⟨"main", 6⟩) []))]
  identifierCount := 7

def Program.siblingsSample : Program := .ofSiblings [.callerSample, .printerSample]

def Program.swappedSample : Program := .ofSiblings [.printerSample, .callerSample]

def Resolutions.siblingsSample : Resolutions :=
  ⟨#[some ⟨0, 0⟩, some ⟨0, 0⟩, some ⟨1, 1⟩, some ⟨0, 1⟩, some ⟨1, 0⟩, some ⟨0, 0⟩, some ⟨0, 0⟩]⟩

def Resolutions.swappedSample : Resolutions :=
  ⟨#[some ⟨0, 0⟩, some ⟨0, 1⟩, some ⟨1, 0⟩, some ⟨0, 0⟩, some ⟨1, 1⟩, some ⟨0, 1⟩, some ⟨0, 0⟩]⟩

/-- The two functions take each other's slots, and still the first one is printed. -/
theorem Program.function_order_irrelevant_siblingsSample :
    Program.ofTokens Token.siblingsSample = .ok .siblingsSample ∧ Program.siblingsSample.Swaps .swappedSample ∧
    (∃ addresses, Resolutions.ofProgram .swappedSample = .ok addresses) ∧
    Program.swappedSample.check .swappedSample = .ok () ∧
    ((Program.swappedSample.launch (.start .unlimited)).run ⟨.swappedSample, 9⟩ 60).store.sink =
      ⟨#["<fn a>"], none⟩ ∧
    ((Program.swappedSample.launch (.start .unlimited)).run ⟨.swappedSample, 9⟩ 60).outcome?.isSome ∧
    ((Program.swappedSample.launch (.start .unlimited)).run ⟨.swappedSample, 9⟩ 60).error? = none := by
  have hparsed : Program.ofTokens Token.siblingsSample = .ok .siblingsSample := rfl
  have hswaps : Program.siblingsSample.Swaps .swappedSample :=
    .cons (.function 1 _ (.neighbours rfl rfl (by decide) [] _)) (.refl _)
  obtain ⟨hresolves, hsame⟩ := function_order_irrelevant hparsed hswaps
  obtain ⟨hcheck, hrun⟩ := hsame .siblingsSample .swappedSample rfl rfl
  obtain ⟨hsink, hover, herror⟩ := hrun 9 .unlimited 60
  exact ⟨hparsed, hswaps, hresolves.2 ⟨.siblingsSample, rfl⟩, hcheck.2 rfl, hsink, hover, herror⟩

end LexScript
