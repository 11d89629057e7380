import LexScript.Proofs.Scope.Respelling
import LexScript.Typing.Program

/-!
# Checking under another spelling

A check looks identifiers up by their identities. With respelled names it does the same, step by step, and an
error is the same but for the name in it: `Program.check_respell`.
-/

namespace LexScript

variable (r : String → String)

theorem Resolutions.find_respell (addresses : Resolutions) (i : Identifier) (line : Nat) :
    addresses.find (i.respell r) line = (addresses.find i line).mapError (Error.respell r) := by
  simp only [find, Identifier.respell]
  cases addresses.get? i.id <;> rfl

theorem FunctionHeader.type_respell (h : FunctionHeader) : (h.respell r).type = h.type := by
  simp only [type, respell, List.map_map]
  rfl

namespace Typing

namespace Context

variable (c : Context)

theorem lookup_respell (i : Identifier) : c.lookup (i.respell r) = (c.lookup i).mapError (Error.respell r) := by
  simp only [lookup, Resolutions.find_respell, mapError_bind]
  refine bind_congr fun a => ?_
  cases c.scopes.get? a <;> rfl

theorem requireValue_mapError (line : Nat) (t : Ty) :
    (requireValue line t : Except Error Ty).mapError (Error.respell r) = requireValue line t := by
  rw [requireValue]
  split <;> rfl

mutual

theorem typeExpr_respell : ∀ e : Expr, typeExpr c.lookup c.line (e.respell r) =
    (typeExpr c.lookup c.line e).mapError (Error.respell r)
  | .literal _ => rfl
  | .name i => c.lookup_respell r i
  | .assign target value => by
    simp only [Expr.respell, typeExpr, typeExpr_respell value, lookup_respell, mapError_bind,
      requireValue_mapError]
    refine bind_congr fun received => bind_congr fun received => bind_congr fun expected => ?_
    split <;> rfl
  | .unary operator operand => by
    simp only [Expr.respell, typeExpr, typeExpr_respell operand, mapError_bind, requireValue_mapError]
    refine bind_congr fun t => bind_congr fun t => ?_
    cases operator.resultType? t <;> rfl
  | .binary operator left right => by
    simp only [Expr.respell, typeExpr, typeExpr_respell left, typeExpr_respell right, mapError_bind,
      requireValue_mapError]
    refine bind_congr fun t => bind_congr fun t => bind_congr fun u => bind_congr fun u => ?_
    cases operator.resultType? t u <;> rfl
  | .call callee arguments => by
    simp only [Expr.respell, typeExpr, typeExpr_respell callee, mapError_bind, requireValue_mapError]
    refine bind_congr fun t => bind_congr fun t => ?_
    cases t with
    | function parameters returns =>
      simp only [fitArguments_respell parameters arguments, mapError_bind]
      rfl
    | _ => rfl

theorem fitArguments_respell : ∀ (ts : List Ty) (es : List Expr),
    fitArguments c.lookup c.line ts (Expr.respellAll r es) =
      (fitArguments c.lookup c.line ts es).mapError (Error.respell r)
  | [], es => by
    simp only [fitArguments]
    rfl
  | _ :: _, [] => rfl
  | t :: ts, e :: es => by
    simp only [Expr.respellAll, fitArguments, typeExpr_respell e, mapError_bind, requireValue_mapError]
    refine bind_congr fun received => bind_congr fun received => ?_
    split
    · exact fitArguments_respell ts es
    · rfl

end

theorem typeOf_respell (e : Expr) :
    c.typeOf (e.respell r) = (c.typeOf e).mapError (Error.respell r) :=
  c.typeExpr_respell r e

theorem valueTypeOf_respell (e : Expr) :
    c.valueTypeOf (e.respell r) = (c.valueTypeOf e).mapError (Error.respell r) := by
  simp only [valueTypeOf, typeOf_respell, mapError_bind]
  simp only [requireValue_mapError]

end Context

namespace Check

variable {α β : Type}

def respell (c : Check α) : Check α := fun s =>
  match c s with
  | .ok a t => .ok a t
  | .error e t => .error (e.respell r) t

theorem respell_bind (c : Check α) (f : α → Check β) :
    (c >>= f).respell r = c.respell r >>= fun a => (f a).respell r := by
  funext s
  change (match EStateM.bind c f s with | .ok a t => _ | .error e t => _) =
    EStateM.bind (respell r c) (fun a => (f a).respell r) s
  simp only [EStateM.bind, respell]
  cases c s <;> rfl

theorem respell_ofExcept (x : Except Error α) :
    (ofExcept x).respell r = ofExcept (x.mapError (Error.respell r)) := by
  cases x <;> rfl

theorem respell_within (prepare leave : State → State) (c : Check α) :
    (within prepare leave c).respell r = within prepare leave (c.respell r) := by
  funext s
  simp only [respell, within]
  cases c (prepare s) <;> rfl

variable (addresses : Resolutions) (line : Nat)

theorem declare_respell (i : Identifier) (t : Ty) (clash clash' : Ty → Cause)
    (hclash : ∀ previous, clash' previous = (clash previous).respell r) :
    declare addresses line (i.respell r) t clash' = (declare addresses line i t clash).respell r := by
  rw [declare, declare, Resolutions.find_respell, respell_bind, respell_ofExcept]
  refine bind_congr fun a => ?_
  rw [respell_bind]
  refine bind_congr fun s => ?_
  cases s.scopes.get? a with
  | none => rfl
  | some previous =>
    dsimp only
    rw [hclash]
    split <;> rfl

theorem hoist_respell : ∀ ds : List Decl,
    hoist addresses (Decl.respellAll r ds) = (hoist addresses ds).respell r
  | [] => rfl
  | .function line header body :: ds | .forward line header :: ds => by
    simp only [Decl.respellAll, Decl.respell, hoist, respell_bind, FunctionHeader.type_respell]
    have hdeclare := declare_respell r addresses line header.identifier header.type
      (fun previous => .functionRedeclarationMismatch previous.text header.type.text) _ fun _ => rfl
    rw [← hdeclare, hoist_respell ds]
    rfl
  | .binding .. :: ds | .statement .. :: ds => hoist_respell ds

theorem bindParameters_respell : ∀ ps : List Parameter,
    bindParameters addresses line (ps.map (·.respell r)) = (bindParameters addresses line ps).respell r
  | [] => rfl
  | p :: ps => by
    simp only [List.map_cons, bindParameters]
    change ofExcept (addresses.find (p.identifier.respell r) line) >>= _ = _
    rw [Resolutions.find_respell, respell_bind, respell_ofExcept]
    refine bind_congr fun a => ?_
    rw [respell_bind, bindParameters_respell ps]
    rfl

theorem binding_respell (i : Identifier) (t : Ty) (e : Expr) :
    binding addresses line (i.respell r) t (e.respell r) = (binding addresses line i t e).respell r := by
  rw [binding, binding, respell_bind]
  refine bind_congr fun c => ?_
  rw [respell_bind, Context.valueTypeOf_respell, respell_ofExcept]
  refine bind_congr fun received => ?_
  split
  · rfl
  · exact declare_respell r addresses line i t _ _ fun _ => rfl

theorem condition_respell (e : Expr) :
    condition addresses line (e.respell r) = (condition addresses line e).respell r := by
  rw [condition, condition, respell_bind]
  refine bind_congr fun c => ?_
  rw [respell_bind, Context.typeOf_respell, respell_ofExcept]
  refine bind_congr fun t => ?_
  split <;> rfl

theorem ret_respell (value : Option Expr) :
    ret addresses line (value.map (·.respell r)) = (ret addresses line value).respell r := by
  simp only [ret, respell_bind]
  refine bind_congr fun s => ?_
  cases s.returns with
  | nil => rfl
  | cons expected returns =>
    cases value with
    | none =>
      dsimp only [Option.map]
      simp only [pure_bind]
      split <;> rfl
    | some e =>
      dsimp only [Option.map]
      simp only [respell_bind, Context.typeOf_respell, respell_ofExcept]
      refine bind_congr fun c => bind_congr fun t => ?_
      split <;> rfl

mutual

theorem stmt_respell : ∀ s : Stmt, stmt addresses (s.respell r) = (stmt addresses s).respell r
  | .expression line value => by
    rw [Stmt.respell, stmt, stmt, respell_bind]
    refine bind_congr fun c => ?_
    rw [respell_bind, Context.typeOf_respell, respell_ofExcept]
    rfl
  | .print line value => by
    rw [Stmt.respell, stmt, stmt, respell_bind]
    refine bind_congr fun c => ?_
    rw [respell_bind, Context.valueTypeOf_respell, respell_ofExcept]
    rfl
  | .block _ body => by
    simp [Stmt.respell, stmt, inScope, respell_within, respell_bind, hoist_respell, decls_respell body]
  | .ifThen line test thenBranch => by
    simp [Stmt.respell, stmt, respell_bind, condition_respell, stmt_respell thenBranch]
  | .ifElse line test thenBranch elseBranch => by
    simp only [Stmt.respell, stmt, condition_respell, stmt_respell thenBranch, stmt_respell elseBranch]
    simp only [respell_bind]
  | .whileLoop line test body => by
    simp [Stmt.respell, stmt, respell_bind, condition_respell, stmt_respell body]
  | .forLoop line first test stepLine step body => by
    have hfirst : hoist addresses [first.respell r] = _ := hoist_respell r addresses [first]
    simp only [Stmt.respell, stmt, inScope, respell_within, hfirst, decl_respell first,
      condition_respell, stmt_respell body]
    simp only [respell_bind, Context.typeOf_respell, ← respell_ofExcept]
    rfl
  | .ret line value => ret_respell r addresses line value

theorem decl_respell : ∀ d : Decl, decl addresses (d.respell r) = (decl addresses d).respell r
  | .binding line identifier type value => binding_respell r addresses line identifier type value
  | .function line header body => by
    simp only [Decl.respell, decl, inFunction, respell_within, FunctionHeader.respell,
      bindParameters_respell, hoist_respell, decls_respell body]
    simp only [respell_bind]
  | .forward .. => rfl
  | .statement s => stmt_respell s

theorem decls_respell : ∀ ds : List Decl,
    decls addresses (Decl.respellAll r ds) = (decls addresses ds).respell r
  | [] => rfl
  | d :: ds => by
    simp [Decl.respellAll, decls, respell_bind, decl_respell d, decls_respell ds]

end

theorem declarations_respell (ds : List Decl) :
    declarations addresses (Decl.respellAll r ds) = (declarations addresses ds).respell r := by
  simp [declarations, respell_bind, hoist_respell, decls_respell]

end Check
end Typing

/-- The check of the respelled program ends in the same way, but for the name in an error. -/
theorem Program.check_respell (p : Program) (addresses : Resolutions) :
    (p.respell r).check addresses = (p.check addresses).mapError (Error.respell r) := by
  simp only [check, respell, Typing.Check.declarations_respell, Typing.Check.respell]
  cases Typing.Check.declarations addresses p.declarations Typing.State.start <;> rfl

end LexScript
