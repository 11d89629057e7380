import LexScript.Machine.State
import LexScript.Value.Operator

/-!
# The steps of a run

A continuation acts on the outcome that it waits for, and any other outcome passes it by. So a return
leaves the loops and scopes around it, and an error ends the run, while the end of a scope or of a call
puts the current frame back whatever the outcome.
-/

namespace LexScript

/-- What a run depends on and never changes: the addresses of the names, and the number of calls that
may be in progress at a time. -/
structure Setting where
  addresses : Resolutions
  maxCallDepth : Nat

def Outcome.ofResult (line : Nat) : Except Cause Value → Outcome
  | .ok v => .value v
  | .error cause => .failed ⟨cause, line⟩

/-- The outcome of a call whose body ended so. Only a function that returns nothing may end without a
return. -/
def Closure.answer (c : Closure) (line : Nat) : Outcome → Outcome
  | .returned v => .value v
  | .normal =>
    if c.header.returns.isVoid then .value .void
    else .failed ⟨.missingReturn c.header.identifier.name, line⟩
  | outcome => outcome

/-- A name to bind, its value, and the line that an error reports. -/
structure Binding where
  identifier : Identifier
  value : Value
  line : Nat

/-- The functions of a scope whose frame is given. A function without a body is never bound. -/
def Binding.ofFunctions (frame : FrameId) (declarations : List Decl) : List Binding :=
  declarations.filterMap fun
    | .function line header body => some ⟨header.identifier, .function ⟨header, body, frame⟩, line⟩
    | _ => none

/-- The parameters of a call. A parameter without an argument stays unbound, and an argument without a
parameter is dropped. -/
def Binding.ofArguments (parameters : List Parameter) (arguments : List Value) (line : Nat) :
    List Binding :=
  List.zipWith (fun p v => ⟨p.identifier, v, line⟩) parameters arguments

namespace Store

def enterAt (σ : Store) (frame : FrameId) : Store := { σ with scopes := σ.scopes.enterAt frame }

def enterCall (σ : Store) (frame : FrameId) : Store :=
  ⟨σ.scopes.enterAt frame, σ.depth + 1, σ.sink⟩

def leaveCall (σ : Store) (frame : FrameId) : Store :=
  ⟨σ.scopes.restore frame, σ.depth - 1, σ.sink⟩

def restore (σ : Store) (frame : FrameId) : Store := { σ with scopes := σ.scopes.restore frame }

def read (σ : Store) (addresses : Resolutions) (identifier : Identifier) (line : Nat) : Outcome :=
  match addresses.find identifier line with
  | .error e => .failed e
  | .ok address =>
    match σ.scopes.get? address with
    | some v => .value v
    | none => .failed ⟨.undefinedVariable identifier.name, line⟩

def assign (σ : Store) (addresses : Resolutions) (target : Identifier) (v : Value) (line : Nat) :
    Outcome × Store :=
  match addresses.find target line with
  | .error e => (.failed e, σ)
  | .ok address =>
    let (found, scopes) := σ.scopes.assign address v
    let outcome := if found then .value v else .failed ⟨.undefinedVariable target.name, line⟩
    (outcome, { σ with scopes })

/-- Binds names of the current frame in turn, up to the first that has no address. -/
def bind (addresses : Resolutions) : List Binding → Store → Outcome × Store
  | [], σ => (.normal, σ)
  | b :: bs, σ =>
    match addresses.find b.identifier b.line with
    | .error e => (.failed e, σ)
    | .ok address => bind addresses bs { σ with scopes := σ.scopes.define address.slot b.value }

def print (σ : Store) (v : Value) (line : Nat) : Outcome × Store :=
  let (accepted, sink) := σ.sink.write v.text
  (if accepted then .normal else .failed ⟨.outputFailed "sink closed", line⟩, { σ with sink })

end Store

namespace Machine

/-- Begins to evaluate an expression. Both operands of an operator are evaluated, whatever it is. -/
def eval (setting : Setting) (line : Nat) (k : List Continuation) (σ : Store) : Expr → Machine
  | .literal literal => ⟨.ended (.value literal.toValue), k, σ⟩
  | .name identifier => ⟨.ended (σ.read setting.addresses identifier line), k, σ⟩
  | .assign target value => ⟨.eval line value, .assign target line :: k, σ⟩
  | .unary operator operand => ⟨.eval line operand, .unary operator line :: k, σ⟩
  | .binary operator left right => ⟨.eval line left, .operand operator right line :: k, σ⟩
  | .call callee arguments => ⟨.eval line callee, .callee arguments line :: k, σ⟩

def exec (k : List Continuation) (σ : Store) : Stmt → Machine
  | .expression line value => ⟨.eval line value, .discard :: k, σ⟩
  | .print line value => ⟨.eval line value, .print line :: k, σ⟩
  | .block _ body => ⟨.enter body, .leave σ.scopes.current :: k, σ.enterAt σ.scopes.current⟩
  | .ifThen line condition thenBranch =>
    ⟨.eval line condition, .branch line thenBranch none :: k, σ⟩
  | .ifElse line condition thenBranch elseBranch =>
    ⟨.eval line condition, .branch line thenBranch (some elseBranch) :: k, σ⟩
  | .whileLoop line condition body =>
    ⟨.eval line condition, .test ⟨line, condition, none, body⟩ :: k, σ⟩
  | .forLoop line first condition stepLine step body =>
    let loop : Loop := ⟨line, condition, some (stepLine, step), body⟩
    ⟨.enter [first], .again loop :: .leave σ.scopes.current :: k, σ.enterAt σ.scopes.current⟩
  | .ret _ none => ⟨.ended (.returned .void), k, σ⟩
  | .ret line (some value) => ⟨.eval line value, .ret :: k, σ⟩

/-- Begins to run a declaration. Functions are bound already. -/
def declare (k : List Continuation) (σ : Store) : Decl → Machine
  | .binding line identifier _ value => ⟨.eval line value, .bind identifier line :: k, σ⟩
  | .function .. | .forward .. => ⟨.ended .normal, k, σ⟩
  | .statement s => ⟨.exec s, k, σ⟩

/-- Binds the functions of a scope and begins to run its declarations. -/
def enter (setting : Setting) (k : List Continuation) (σ : Store) (declarations : List Decl) :
    Machine :=
  let functions := Binding.ofFunctions σ.scopes.current declarations
  let (outcome, σ) := σ.bind setting.addresses functions
  ⟨.ended outcome, .sequence declarations :: k, σ⟩

/-- Begins a call: the parameters and the body share a new frame inside the one of the closure. -/
def call (setting : Setting) (k : List Continuation) (σ : Store) (closure : Closure)
    (arguments : List Value) (line : Nat) : Machine :=
  if setting.maxCallDepth ≤ σ.depth then
    ⟨.ended (.failed ⟨.recursionLimitExceeded setting.maxCallDepth, line⟩), k, σ⟩
  else
    let k := .endCall σ.scopes.current closure line :: k
    let parameters := Binding.ofArguments closure.header.parameters arguments line
    match (σ.enterCall closure.frame).bind setting.addresses parameters with
    | (.normal, σ) => ⟨.enter closure.body, k, σ⟩
    | (outcome, σ) => ⟨.ended outcome, k, σ⟩

def nextArgument (k : List Continuation) (σ : Store) (closure : Closure) (values : List Value)
    (line : Nat) : List Expr → Machine
  | [] => ⟨.call closure values.reverse line, k, σ⟩
  | e :: es => ⟨.eval line e, .argument closure values es line :: k, σ⟩

def badCondition (k : List Continuation) (σ : Store) (v : Value) (line : Nat) : Machine :=
  ⟨.ended (.failed ⟨.invalidConditionValue v.kindName, line⟩), k, σ⟩

def resume (setting : Setting) (k : List Continuation) (σ : Store) :
    Continuation → Outcome → Machine
  | .operand operator right line, .value left =>
    ⟨.eval line right, .binary operator left line :: k, σ⟩
  | .binary operator left line, .value right =>
    ⟨.ended (.ofResult line (operator.apply left right)), k, σ⟩
  | .unary operator line, .value operand => ⟨.ended (.ofResult line (operator.apply operand)), k, σ⟩
  | .assign target line, .value v =>
    let (outcome, σ) := σ.assign setting.addresses target v line
    ⟨.ended outcome, k, σ⟩
  | .callee arguments line, .value callee =>
    match callee with
    | .function closure => nextArgument k σ closure [] line arguments
    | other => ⟨.ended (.failed ⟨.notAFunction other.text, line⟩), k, σ⟩
  | .argument closure values rest line, .value v => nextArgument k σ closure (v :: values) line rest
  | .discard, .value _ => ⟨.ended .normal, k, σ⟩
  | .print line, .value v =>
    let (outcome, σ) := σ.print v line
    ⟨.ended outcome, k, σ⟩
  | .branch line thenBranch elseBranch, .value v =>
    match v, elseBranch with
    | .boolean true, _ => ⟨.exec thenBranch, k, σ⟩
    | .boolean false, some elseBranch => ⟨.exec elseBranch, k, σ⟩
    | .boolean false, none => ⟨.ended .normal, k, σ⟩
    | other, _ => badCondition k σ other line
  | .test loop, .value v =>
    match v with
    | .boolean true => ⟨.exec loop.body, .step loop :: k, σ⟩
    | .boolean false => ⟨.ended .normal, k, σ⟩
    | other => badCondition k σ other loop.line
  | .step loop, .normal =>
    match loop.step with
    | some (line, step) => ⟨.exec (.expression line step), .again loop :: k, σ⟩
    | none => ⟨.eval loop.line loop.condition, .test loop :: k, σ⟩
  | .again loop, .normal => ⟨.eval loop.line loop.condition, .test loop :: k, σ⟩
  | .ret, .value v => ⟨.ended (.returned v), k, σ⟩
  | .bind identifier line, .value v =>
    let (outcome, σ) := σ.bind setting.addresses [⟨identifier, v, line⟩]
    ⟨.ended outcome, k, σ⟩
  | .sequence (d :: ds), .normal => declare (.sequence ds :: k) σ d
  | .leave frame, outcome => ⟨.ended outcome, k, σ.restore frame⟩
  | .endCall frame closure line, outcome =>
    ⟨.ended (closure.answer line outcome), k, σ.leaveCall frame⟩
  | _, outcome => ⟨.ended outcome, k, σ⟩

/-- One step. A run that is over stays as it is. -/
def step (setting : Setting) : Machine → Machine
  | ⟨.eval line e, k, σ⟩ => eval setting line k σ e
  | ⟨.exec s, k, σ⟩ => exec k σ s
  | ⟨.enter declarations, k, σ⟩ => enter setting k σ declarations
  | ⟨.call closure arguments line, k, σ⟩ => call setting k σ closure arguments line
  | ⟨.ended outcome, c :: k, σ⟩ => resume setting k σ c outcome
  | ⟨.ended outcome, [], σ⟩ => ⟨.ended outcome, [], σ⟩

/-- So many steps, or fewer if the run is over before. -/
def run (setting : Setting) : (steps : Nat) → Machine → Machine
  | 0, m => m
  | steps + 1, m => if m.outcome?.isSome then m else run setting steps (step setting m)

end Machine
end LexScript
