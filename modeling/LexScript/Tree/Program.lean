import LexScript.Tree.Expr

/-!
# Statements, declarations and programs
-/

namespace LexScript

structure Parameter where
  identifier : Identifier
  type : Ty

structure FunctionHeader where
  identifier : Identifier
  parameters : List Parameter
  returns : Ty

def FunctionHeader.type (h : FunctionHeader) : Ty :=
  .function (h.parameters.map Parameter.type) h.returns

mutual

/-- Statements, each with the line on which it starts. The step of a `for` loop has a line of its own,
and its first declaration lives in a scope that holds the loop. -/
inductive Stmt
  | expression (line : Nat) (value : Expr)
  | print (line : Nat) (value : Expr)
  | block (line : Nat) (body : List Decl)
  | ifThen (line : Nat) (condition : Expr) (thenBranch : Stmt)
  | ifElse (line : Nat) (condition : Expr) (thenBranch elseBranch : Stmt)
  | whileLoop (line : Nat) (condition : Expr) (body : Stmt)
  | forLoop (line : Nat) (first : Decl) (condition : Expr) (stepLine : Nat) (step : Expr)
      (body : Stmt)
  | ret (line : Nat) (value : Option Expr)

/-- What may stand in a block. A function without a body only announces its type. -/
inductive Decl
  | binding (line : Nat) (identifier : Identifier) (type : Ty) (value : Expr)
  | function (line : Nat) (header : FunctionHeader) (body : List Decl)
  | forward (line : Nat) (header : FunctionHeader)
  | statement (value : Stmt)

end

def Stmt.line : Stmt → Nat
  | expression line _ | print line _ | block line _ | ifThen line _ _ | ifElse line _ _ _
  | whileLoop line _ _ | forLoop line _ _ _ _ _ | ret line _ => line

def Decl.line : Decl → Nat
  | binding line _ _ _ | function line _ _ | forward line _ => line
  | statement s => s.line

/-- A program: its declarations, and the number of its identifiers, whose identities are the numbers
below it. -/
structure Program where
  declarations : List Decl
  identifierCount : Nat

end LexScript
