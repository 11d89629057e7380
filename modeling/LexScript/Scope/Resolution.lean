import LexScript.Error
import LexScript.Scope.Names
import LexScript.Tree.Program

/-!
# The addresses of the names of a program

Every name that is used gets the address of the declaration it refers to, and every declared name the
slot that it takes in its own scope. The functions of a scope are declared before anything in it is
looked at, so they can be used ahead of their declaration; variables can not. The parameters and the
body of a function share one scope, and a `for` loop has a scope for its first declaration.
-/

namespace LexScript.Resolution

/-- What is known inside a scope: its names so far, and the addresses found so far. -/
structure Progress where
  names : ScopeNames
  addresses : Resolutions

def Progress.declare (p : Progress) (identifier : Identifier) : Progress :=
  let names := p.names.declare identifier.name
  ⟨names, p.addresses.put identifier.id ⟨0, names.slot identifier.name⟩⟩

def Progress.declareAll (p : Progress) (identifiers : List Identifier) : Progress :=
  identifiers.foldl Progress.declare p

def name (scopes : List ScopeNames) (line : Nat) (identifier : Identifier)
    (addresses : Resolutions) : Except Error Resolutions :=
  match ScopeNames.address? scopes identifier.name with
  | some address => .ok (addresses.put identifier.id address)
  | none => .error ⟨.variableNotDeclared identifier.name, line⟩

mutual

def expr (scopes : List ScopeNames) (line : Nat) :
    Expr → Resolutions → Except Error Resolutions
  | .literal _, addresses => .ok addresses
  | .name identifier, addresses => name scopes line identifier addresses
  | .assign target value, addresses => do
    name scopes line target (← expr scopes line value addresses)
  | .unary _ operand, addresses => expr scopes line operand addresses
  | .binary _ left right, addresses => do
    expr scopes line right (← expr scopes line left addresses)
  | .call callee arguments, addresses => do
    exprs scopes line arguments (← expr scopes line callee addresses)

def exprs (scopes : List ScopeNames) (line : Nat) :
    List Expr → Resolutions → Except Error Resolutions
  | [], addresses => .ok addresses
  | e :: es, addresses => do exprs scopes line es (← expr scopes line e addresses)

end

/-- The name that a function declaration declares ahead of everything else in its scope. -/
def hoisted? : Decl → Option Identifier
  | .function _ header _ | .forward _ header => some header.identifier
  | _ => none

def hoist (declarations : List Decl) (p : Progress) : Progress :=
  p.declareAll (declarations.filterMap hoisted?)

mutual

def stmt (scopes : List ScopeNames) : Stmt → Resolutions → Except Error Resolutions
  | .expression line value, addresses | .print line value, addresses =>
    expr scopes line value addresses
  | .block _ body, addresses => do
    return (← decls scopes body (hoist body ⟨[], addresses⟩)).addresses
  | .ifThen line condition thenBranch, addresses => do
    stmt scopes thenBranch (← expr scopes line condition addresses)
  | .ifElse line condition thenBranch elseBranch, addresses => do
    let addresses ← expr scopes line condition addresses
    stmt scopes elseBranch (← stmt scopes thenBranch addresses)
  | .whileLoop line condition body, addresses => do
    stmt scopes body (← expr scopes line condition addresses)
  | .forLoop line first condition stepLine step body, addresses => do
    let p ← decl scopes first (hoist [first] ⟨[], addresses⟩)
    let addresses ← expr (p.names :: scopes) line condition p.addresses
    let addresses ← expr (p.names :: scopes) stepLine step addresses
    stmt (p.names :: scopes) body addresses
  | .ret _ none, addresses => .ok addresses
  | .ret line (some value), addresses => expr scopes line value addresses

/-- Finds the names of a declaration in the scope of `p`, which lies within `outer`. A variable is
declared after its first value. -/
def decl (outer : List ScopeNames) : Decl → Progress → Except Error Progress
  | .binding line identifier _ value, p => do
    let addresses ← expr (p.names :: outer) line value p.addresses
    return Progress.declare ⟨p.names, addresses⟩ identifier
  | .function _ header body, p => do
    let parameters := header.parameters.map Parameter.identifier
    let start := hoist body (Progress.declareAll ⟨[], p.addresses⟩ parameters)
    return ⟨p.names, (← decls (p.names :: outer) body start).addresses⟩
  | .forward .., p => .ok p
  | .statement s, p => do return ⟨p.names, ← stmt (p.names :: outer) s p.addresses⟩

def decls (outer : List ScopeNames) : List Decl → Progress → Except Error Progress
  | [], p => .ok p
  | d :: ds, p => do decls outer ds (← decl outer d p)

end

end LexScript.Resolution

namespace LexScript.Resolutions

/-- The addresses of the names of a program, or the first name without a declaration in sight. -/
def ofProgram (program : Program) : Except Error Resolutions := do
  let start := Resolution.hoist program.declarations ⟨[], .empty⟩
  return (← Resolution.decls [] program.declarations start).addresses

end LexScript.Resolutions
