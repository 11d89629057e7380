import LexScript.Tree.Program
import LexScript.Typing.Expr

/-!
# Checking programs

The checker binds types where a run binds values. The functions of a scope are bound first, so that
their types are known everywhere in it. A name may be declared again only with the same type, since a
closure may refer to it. An error ends the check, but the bindings made before it stay, and the current
scope and the enclosing functions are as before.
-/

namespace LexScript.Typing

/-- The types bound so far, and the return types of the functions around, innermost first. -/
structure State where
  scopes : ScopeStack Ty
  returns : List Ty

def State.start : State := ⟨.global, []⟩

/-- A check that ends with the first error; the state outlives it. -/
abbrev Check := EStateM Error State

namespace Check

def ofExcept : Except Error α → Check α
  | .ok a => pure a
  | .error e => throw e

def context (addresses : Resolutions) (line : Nat) : Check Context :=
  return ⟨addresses, (← get).scopes, line⟩

/-- Runs a check in a state of its own making, and then leaves that state, also after an error. -/
def within (prepare leave : State → State) (body : Check α) : Check α := fun s =>
  match body (prepare s) with
  | .ok a t => .ok a (leave t)
  | .error e t => .error e (leave t)

def inScope (body : Check α) : Check α :=
  within (fun s => { s with scopes := s.scopes.enter }) (fun t => { t with scopes := t.scopes.exit }) body

def inFunction (returns : Ty) (body : Check α) : Check α :=
  within (fun s => ⟨s.scopes.enter, returns :: s.returns⟩) (fun t => ⟨t.scopes.exit, t.returns.tail⟩) body

def define (slot : Nat) (type : Ty) : Check Unit :=
  modify fun s => { s with scopes := s.scopes.define slot type }

/-- Binds a type to a declared name, which must not be bound to another type already. -/
def declare (addresses : Resolutions) (line : Nat) (identifier : Identifier) (type : Ty)
    (clash : Ty → Cause) : Check Unit := do
  let address ← ofExcept (addresses.find identifier line)
  match (← get).scopes.get? address with
  | some previous => if previous ≠ type then throw ⟨clash previous, line⟩
  | none => pure ()
  define address.slot type

def hoist (addresses : Resolutions) : List Decl → Check Unit
  | [] => pure ()
  | .function line header _ :: ds | .forward line header :: ds => do
    declare addresses line header.identifier header.type fun previous =>
      .functionRedeclarationMismatch previous.text header.type.text
    hoist addresses ds
  | _ :: ds => hoist addresses ds

def bindParameters (addresses : Resolutions) (line : Nat) : List Parameter → Check Unit
  | [] => pure ()
  | p :: ps => do
    let address ← ofExcept (addresses.find p.identifier line)
    define address.slot p.type
    bindParameters addresses line ps

/-- Checks a variable declaration, its first value before anything else. -/
def binding (addresses : Resolutions) (line : Nat) (identifier : Identifier) (type : Ty)
    (value : Expr) : Check Unit := do
  let received ← ofExcept ((← context addresses line).valueTypeOf value)
  if received ≠ type then throw ⟨.declarationTypeMismatch type.text received.text, line⟩
  declare addresses line identifier type fun previous =>
    .variableRedeclarationMismatch identifier.name previous.text type.text

def condition (addresses : Resolutions) (line : Nat) (e : Expr) : Check Unit := do
  let type ← ofExcept ((← context addresses line).typeOf e)
  if type ≠ .boolean then throw ⟨.invalidCondition type.text, line⟩

def ret (addresses : Resolutions) (line : Nat) (value : Option Expr) : Check Unit := do
  match (← get).returns with
  | [] => throw ⟨.returnOutsideFunction, line⟩
  | expected :: _ =>
    let received ←
      match value with
      | some e => ofExcept ((← context addresses line).typeOf e)
      | none => pure .void
    if received ≠ expected then throw ⟨.returnTypeMismatch expected.text received.text, line⟩

mutual

def stmt (addresses : Resolutions) : Stmt → Check Unit
  | .expression line value => do
    let _ ← ofExcept ((← context addresses line).typeOf value)
  | .print line value => do
    let _ ← ofExcept ((← context addresses line).valueTypeOf value)
  | .block _ body => inScope do
    hoist addresses body
    decls addresses body
  | .ifThen line test thenBranch => do
    condition addresses line test
    stmt addresses thenBranch
  | .ifElse line test thenBranch elseBranch => do
    condition addresses line test
    stmt addresses thenBranch
    stmt addresses elseBranch
  | .whileLoop line test body => do
    condition addresses line test
    stmt addresses body
  | .forLoop line first test stepLine step body => inScope do
    hoist addresses [first]
    decl addresses first
    condition addresses line test
    let _ ← ofExcept ((← context addresses stepLine).typeOf step)
    stmt addresses body
  | .ret line value => ret addresses line value

/-- Checks a declaration, whose function type, if it has one, is bound already. -/
def decl (addresses : Resolutions) : Decl → Check Unit
  | .binding line identifier type value => binding addresses line identifier type value
  | .function line header body => inFunction header.returns do
    bindParameters addresses line header.parameters
    hoist addresses body
    decls addresses body
  | .forward .. => pure ()
  | .statement s => stmt addresses s

def decls (addresses : Resolutions) : List Decl → Check Unit
  | [] => pure ()
  | d :: ds => do
    decl addresses d
    decls addresses ds

end

def declarations (addresses : Resolutions) (ds : List Decl) : Check Unit := do
  hoist addresses ds
  decls addresses ds

end Check
end LexScript.Typing

namespace LexScript.Program

/-- The first violation of the typing rules, if there is one. -/
def check (program : Program) (addresses : Resolutions) : Except Error Unit :=
  match Typing.Check.declarations addresses program.declarations Typing.State.start with
  | .ok () _ => .ok ()
  | .error e _ => .error e

end LexScript.Program
