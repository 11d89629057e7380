import LexScript.Scope.Resolution
import Mathlib.Logic.Function.Basic

/-!
# Names under another spelling

Every name of a program is respelled, and identities, lines and types stay. Only resolution looks at names,
and it only asks whether two are the same, so a respelling that keeps different names apart changes no address
and no error but for the name in it: `Resolutions.ofProgram_respell`.
-/

namespace LexScript

variable (r : String → String)

def Identifier.respell (i : Identifier) : Identifier := { i with name := r i.name }

def Parameter.respell (p : Parameter) : Parameter := { p with identifier := p.identifier.respell r }

def FunctionHeader.respell (h : FunctionHeader) : FunctionHeader :=
  ⟨h.identifier.respell r, h.parameters.map (·.respell r), h.returns⟩

mutual

def Expr.respell : Expr → Expr
  | .literal value => .literal value
  | .name identifier => .name (identifier.respell r)
  | .assign target value => .assign (target.respell r) value.respell
  | .unary operator operand => .unary operator operand.respell
  | .binary operator left right => .binary operator left.respell right.respell
  | .call callee arguments => .call callee.respell (Expr.respellAll arguments)

def Expr.respellAll : List Expr → List Expr
  | [] => []
  | e :: es => e.respell :: Expr.respellAll es

end

mutual

def Stmt.respell : Stmt → Stmt
  | .expression line value => .expression line (value.respell r)
  | .print line value => .print line (value.respell r)
  | .block line body => .block line (Decl.respellAll body)
  | .ifThen line condition thenBranch => .ifThen line (condition.respell r) thenBranch.respell
  | .ifElse line condition thenBranch elseBranch =>
    .ifElse line (condition.respell r) thenBranch.respell elseBranch.respell
  | .whileLoop line condition body => .whileLoop line (condition.respell r) body.respell
  | .forLoop line first condition stepLine step body =>
    .forLoop line first.respell (condition.respell r) stepLine (step.respell r) body.respell
  | .ret line value => .ret line (value.map (·.respell r))

def Decl.respell : Decl → Decl
  | .binding line identifier type value => .binding line (identifier.respell r) type (value.respell r)
  | .function line header body => .function line (header.respell r) (Decl.respellAll body)
  | .forward line header => .forward line (header.respell r)
  | .statement s => .statement s.respell

def Decl.respellAll : List Decl → List Decl
  | [] => []
  | d :: ds => d.respell :: Decl.respellAll ds

end

def Program.respell (p : Program) : Program := ⟨Decl.respellAll r p.declarations, p.identifierCount⟩

def Cause.respell : Cause → Cause
  | .variableNotDeclared variableName => .variableNotDeclared (r variableName)
  | .variableRedeclarationMismatch variableName previous received =>
    .variableRedeclarationMismatch (r variableName) previous received
  | .typeNotKnown variableName => .typeNotKnown (r variableName)
  | .undefinedVariable variableName => .undefinedVariable (r variableName)
  | .missingReturn function => .missingReturn (r function)
  | cause => cause

def Error.respell (e : Error) : Error := ⟨e.cause.respell r, e.line⟩

/-! ## Names -/

namespace ScopeNames

variable {r} (hr : r.Injective) (names : ScopeNames) (name : String)

include hr

theorem mem_map_respell : r name ∈ names.map r ↔ name ∈ names := by
  simp [hr.eq_iff]

theorem declare_map : declare (names.map r) (r name) = (names.declare name).map r := by
  simp only [declare]
  by_cases h : name ∈ names
  · simp [h, (mem_map_respell hr names name).2 h]
  · simp [h, mt (mem_map_respell hr names name).1 h]

theorem slot_map : slot (names.map r) (r name) = slot names name := by
  induction names with
  | nil => rfl
  | cons n names ih =>
    rw [slot] at ih ⊢
    have hsame : (r n == r name) = (n == name) := by simp [hr.eq_iff]
    simp [List.map_cons, List.idxOf_cons, slot, ih, hsame]

theorem address?_map (scopes : List ScopeNames) :
    address? (scopes.map (List.map r)) (r name) = address? scopes name := by
  induction scopes with
  | nil => rfl
  | cons names scopes ih =>
    simp only [List.map_cons, address?, slot_map hr, ih]
    simp only [mem_map_respell hr]

end ScopeNames

/-! ## Resolution -/

theorem mapError_bind {ε ε' α β : Type} (x : Except ε α) (f : α → Except ε β) (g : ε → ε') :
    (x >>= f).mapError g = x.mapError g >>= fun a => (f a).mapError g := by
  cases x <;> rfl

namespace Resolution

/-- The names of the scope are respelled, and the addresses are the same. -/
def Progress.respell (p : Progress) : Progress := ⟨p.names.map r, p.addresses⟩

variable {r} (hr : r.Injective)

theorem hoisted?_respell (d : Decl) : hoisted? (d.respell r) = (hoisted? d).map (·.respell r) := by
  cases d <;> rfl

theorem filterMap_hoisted?_respellAll (ds : List Decl) : (Decl.respellAll r ds).filterMap hoisted? =
    (ds.filterMap hoisted?).map (·.respell r) := by
  induction ds with
  | nil => rfl
  | cons d ds ih =>
    simp only [Decl.respellAll, List.filterMap_cons, hoisted?_respell, ih]
    cases hoisted? d <;> rfl

theorem Progress.declare_respell (hr : r.Injective) (p : Progress) (i : Identifier) :
    (p.respell r).declare (i.respell r) = (p.declare i).respell r := by
  have hnames := ScopeNames.declare_map hr p.names i.name
  have hslot := ScopeNames.slot_map hr (p.names.declare i.name) i.name
  simp only [Progress.declare, Progress.respell]
  simp only [Identifier.respell, hnames, hslot]

theorem Progress.declareAll_respell (hr : r.Injective) (p : Progress) (is : List Identifier) :
    (p.respell r).declareAll (is.map (·.respell r)) = (p.declareAll is).respell r := by
  induction is generalizing p with
  | nil => rfl
  | cons i is ih =>
    simpa [Progress.declareAll, Progress.declare_respell hr] using ih (p.declare i)

theorem hoist_respell (hr : r.Injective) (ds : List Decl) (p : Progress) :
    hoist (Decl.respellAll r ds) (p.respell r) = (hoist ds p).respell r := by
  simp [hoist, filterMap_hoisted?_respellAll, Progress.declareAll_respell hr]

theorem name_respell (hr : r.Injective) (scopes : List ScopeNames) (line : Nat) (i : Identifier)
    (t : Resolutions) : name (scopes.map (List.map r)) line (i.respell r) t =
      (name scopes line i t).mapError (Error.respell r) := by
  have haddress := ScopeNames.address?_map hr i.name scopes
  rw [name, name, Identifier.respell]
  dsimp only
  rw [haddress]
  cases ScopeNames.address? scopes i.name <;> rfl

mutual

theorem expr_respell (hr : r.Injective) (scopes : List ScopeNames) (line : Nat) :
    ∀ (e : Expr) (t : Resolutions), expr (scopes.map (List.map r)) line (e.respell r) t =
      (expr scopes line e t).mapError (Error.respell r)
  | .literal _, _ => rfl
  | .name i, t => name_respell hr scopes line i t
  | .assign target value, t => by
    simp only [Expr.respell, expr, mapError_bind, expr_respell hr scopes line value]
    simp only [name_respell hr]
  | .unary _ operand, t => expr_respell hr scopes line operand t
  | .binary _ left right, t => by
    simp only [Expr.respell, expr, mapError_bind, expr_respell hr scopes line left]
    simp only [expr_respell hr scopes line right]
  | .call callee arguments, t => by
    simp only [Expr.respell, expr, mapError_bind, expr_respell hr scopes line callee]
    simp only [exprs_respell hr scopes line arguments]

theorem exprs_respell (hr : r.Injective) (scopes : List ScopeNames) (line : Nat) :
    ∀ (es : List Expr) (t : Resolutions), exprs (scopes.map (List.map r)) line (Expr.respellAll r es) t =
      (exprs scopes line es t).mapError (Error.respell r)
  | [], _ => rfl
  | e :: es, t => by
    simp only [Expr.respellAll, exprs, mapError_bind, expr_respell hr scopes line e]
    simp only [exprs_respell hr scopes line es]

end

variable (r) in
def respellResult (x : Except Error Progress) : Except Error Progress :=
  (x.map (Progress.respell r)).mapError (Error.respell r)

mutual

theorem stmt_respell (hr : r.Injective) (scopes : List ScopeNames) :
    ∀ (s : Stmt) (t : Resolutions), stmt (scopes.map (List.map r)) (s.respell r) t =
      (stmt scopes s t).mapError (Error.respell r)
  | .expression line value, t | .print line value, t => expr_respell hr scopes line value t
  | .block _ body, t => by
    have hstart : hoist (Decl.respellAll r body) ⟨[], t⟩ = _ := hoist_respell hr body ⟨[], t⟩
    simp only [Stmt.respell, stmt, hstart, decls_respell hr scopes body]
    cases decls scopes body (hoist body ⟨[], t⟩) <;> rfl
  | .ifThen line condition thenBranch, t => by
    simp only [Stmt.respell, stmt, mapError_bind, expr_respell hr]
    simp only [stmt_respell hr scopes thenBranch]
  | .ifElse line condition thenBranch elseBranch, t => by
    simp only [Stmt.respell, stmt, expr_respell hr]
    simp only [mapError_bind, stmt_respell hr scopes thenBranch, stmt_respell hr scopes elseBranch]
  | .whileLoop line condition body, t => by
    simp only [Stmt.respell, stmt, mapError_bind, expr_respell hr]
    simp only [stmt_respell hr scopes body]
  | .forLoop line first condition stepLine step body, t => by
    have hstart : hoist [first.respell r] ⟨[], t⟩ = _ := hoist_respell hr [first] ⟨[], t⟩
    have hinside : ∀ (scopes : List ScopeNames) (t : Resolutions),
        (do
          let t ← expr (scopes.map (List.map r)) line (condition.respell r) t
          let t ← expr (scopes.map (List.map r)) stepLine (step.respell r) t
          stmt (scopes.map (List.map r)) (body.respell r) t) =
        (do
          let t ← expr scopes line condition t
          let t ← expr scopes stepLine step t
          stmt scopes body t).mapError (Error.respell r) := by
      intro scopes t
      simp only [mapError_bind, expr_respell hr, stmt_respell hr scopes body]
    simp only [Stmt.respell, stmt, hstart, decl_respell hr scopes first]
    cases decl scopes first (hoist [first] ⟨[], t⟩) with
    | error e => rfl
    | ok p => exact hinside (p.names :: scopes) p.addresses
  | .ret _ none, _ => rfl
  | .ret line (some value), t => expr_respell hr scopes line value t

theorem decl_respell (hr : r.Injective) (outer : List ScopeNames) : ∀ (d : Decl) (p : Progress),
    decl (outer.map (List.map r)) (d.respell r) (p.respell r) = respellResult r (decl outer d p)
  | .binding line identifier _ value, p => by
    have hvalue := expr_respell hr (p.names :: outer) line value p.addresses
    simp only [Decl.respell, decl]
    change expr (List.map _ (p.names :: outer)) line (value.respell r) p.addresses >>= _ = _
    rw [hvalue]
    cases expr (p.names :: outer) line value p.addresses with
    | error e => rfl
    | ok t => exact congrArg Except.ok (Progress.declare_respell hr ⟨p.names, t⟩ identifier)
  | .function _ header body, p => by
    have hmap : (header.respell r).parameters.map Parameter.identifier =
        (header.parameters.map Parameter.identifier).map (·.respell r) := by
      simp [FunctionHeader.respell, Parameter.respell]
    have hparameters := Progress.declareAll_respell hr ⟨[], p.addresses⟩
      (header.parameters.map Parameter.identifier)
    simp only [Decl.respell, decl, hmap]
    change decls ((p.names :: outer).map (List.map r)) _
      (hoist _ (Progress.declareAll (Progress.respell r ⟨[], p.addresses⟩) _)) >>= _ = _
    rw [hparameters, hoist_respell hr, decls_respell hr (p.names :: outer) body]
    cases decls (p.names :: outer) body _ <;> rfl
  | .forward .., _ => rfl
  | .statement s, p => by
    have hs := stmt_respell hr (p.names :: outer) s p.addresses
    simp only [Decl.respell, decl]
    change stmt (List.map _ (p.names :: outer)) (s.respell r) p.addresses >>= _ = _
    rw [hs]
    cases stmt (p.names :: outer) s p.addresses <;> rfl

theorem decls_respell (hr : r.Injective) (outer : List ScopeNames) : ∀ (ds : List Decl) (p : Progress),
    decls (outer.map (List.map r)) (Decl.respellAll r ds) (p.respell r) = respellResult r (decls outer ds p)
  | [], _ => rfl
  | d :: ds, p => by
    simp only [Decl.respellAll, decls, decl_respell hr outer d]
    cases decl outer d p with
    | error e => rfl
    | ok q => exact decls_respell hr outer ds q

end

end Resolution

/-- Resolution of the respelled program gives the same addresses, or the same error but for the name. -/
theorem Resolutions.ofProgram_respell {r : String → String} (hr : r.Injective) (p : Program) :
    ofProgram (p.respell r) = (ofProgram p).mapError (Error.respell r) := by
  have hstart : Resolution.hoist (Decl.respellAll r p.declarations) ⟨[], .empty⟩ = _ :=
    Resolution.hoist_respell hr p.declarations ⟨[], .empty⟩
  have hdecls := Resolution.decls_respell hr [] p.declarations
    (Resolution.hoist p.declarations ⟨[], .empty⟩)
  rw [ofProgram, ofProgram, Program.respell]
  dsimp only
  rw [hstart]
  rw [List.map_nil] at hdecls
  rw [hdecls]
  cases Resolution.decls [] p.declarations _ <;> rfl

end LexScript
