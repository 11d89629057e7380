import LexScript.Proofs.Scope.Part

/-!
# Identifiers in source order

The identifiers of a program are listed in the order in which they are written. The order of resolution
only permutes them and leaves out the parameters of functions without a body: `occurrences_perm`.
-/

namespace LexScript

mutual

def Expr.identifiers : Expr → List Identifier
  | .literal _ => []
  | .name identifier => [identifier]
  | .assign target value => target :: value.identifiers
  | .unary _ operand => operand.identifiers
  | .binary _ left right => left.identifiers ++ right.identifiers
  | .call callee arguments => callee.identifiers ++ Expr.identifiersOf arguments

def Expr.identifiersOf : List Expr → List Identifier
  | [] => []
  | e :: es => e.identifiers ++ Expr.identifiersOf es

end

def FunctionHeader.identifiers (h : FunctionHeader) : List Identifier :=
  h.identifier :: h.parameters.map Parameter.identifier

mutual

def Stmt.identifiers : Stmt → List Identifier
  | .expression _ value | .print _ value => value.identifiers
  | .block _ body => Decl.identifiersOf body
  | .ifThen _ condition thenBranch => condition.identifiers ++ thenBranch.identifiers
  | .ifElse _ condition thenBranch elseBranch =>
    condition.identifiers ++ thenBranch.identifiers ++ elseBranch.identifiers
  | .whileLoop _ condition body => condition.identifiers ++ body.identifiers
  | .forLoop _ first condition _ step body =>
    first.identifiers ++ condition.identifiers ++ step.identifiers ++ body.identifiers
  | .ret _ none => []
  | .ret _ (some value) => value.identifiers

def Decl.identifiers : Decl → List Identifier
  | .binding _ identifier _ value => identifier :: value.identifiers
  | .function _ header body => header.identifiers ++ Decl.identifiersOf body
  | .forward _ header => header.identifiers
  | .statement s => s.identifiers

def Decl.identifiersOf : List Decl → List Identifier
  | [] => []
  | d :: ds => d.identifiers ++ Decl.identifiersOf ds

end

mutual

/-- The parameters of the functions without a body in a statement. -/
def Stmt.announced : Stmt → List Identifier
  | .expression .. | .print .. | .ret .. => []
  | .block _ body => Decl.announcedOf body
  | .ifThen _ _ thenBranch => thenBranch.announced
  | .ifElse _ _ thenBranch elseBranch => thenBranch.announced ++ elseBranch.announced
  | .whileLoop _ _ body => body.announced
  | .forLoop _ first _ _ _ body => first.announced ++ body.announced

def Decl.announced : Decl → List Identifier
  | .binding .. => []
  | .function _ _ body => Decl.announcedOf body
  | .forward _ header => header.parameters.map Parameter.identifier
  | .statement s => s.announced

def Decl.announcedOf : List Decl → List Identifier
  | [] => []
  | d :: ds => d.announced ++ Decl.announcedOf ds

end

namespace Program

def identifiers (program : Program) : List Identifier := Decl.identifiersOf program.declarations

/-- The parameters of the functions without a body in a program. They need no address. -/
def announced (program : Program) : List Identifier := Decl.announcedOf program.declarations

def DistinctIdentities (program : Program) : Prop :=
  (program.identifiers.map Identifier.id).Nodup

instance (program : Program) : Decidable program.DistinctIdentities :=
  inferInstanceAs (Decidable (List.Nodup _))

end Program

variable (i : Identifier)

mutual

theorem Expr.count_occurrences (places : List Place) (line : Nat) : ∀ e : Expr,
    ((e.occurrences places line).map Occurrence.identifier).count i = e.identifiers.count i
  | .literal _ => rfl
  | .name _ => rfl
  | .assign target value => by
    have hvalue := Expr.count_occurrences places line value
    simp only [Expr.occurrences, Expr.identifiers, List.map_append, List.map_cons, List.map_nil,
      Occurrence.identifier, List.count_append, List.count_cons, List.count_nil]
    omega
  | .unary _ operand => Expr.count_occurrences places line operand
  | .binary _ left right => by
    have hleft := Expr.count_occurrences places line left
    have hright := Expr.count_occurrences places line right
    simp only [Expr.occurrences, Expr.identifiers, List.map_append, List.count_append]
    omega
  | .call callee arguments => by
    have hcallee := Expr.count_occurrences places line callee
    have harguments := Expr.count_occurrencesOf places line arguments
    simp only [Expr.occurrences, Expr.identifiers, List.map_append, List.count_append]
    omega

theorem Expr.count_occurrencesOf (places : List Place) (line : Nat) : ∀ es : List Expr,
    ((Expr.occurrencesOf places line es).map Occurrence.identifier).count i =
      (Expr.identifiersOf es).count i
  | [] => rfl
  | e :: es => by
    have hfirst := Expr.count_occurrences places line e
    have hrest := Expr.count_occurrencesOf places line es
    simp only [Expr.occurrencesOf, Expr.identifiersOf, List.map_append, List.count_append]
    omega

end

/-- How often an identifier needs an address in some parts. -/
def Part.count (parts : List Part) : Nat :=
  ((parts.flatMap Part.occurrences).map Occurrence.identifier).count i

namespace Part

@[simp] theorem count_nil : count i [] = 0 := rfl

@[simp] theorem count_append (ps qs : List Part) : count i (ps ++ qs) = count i ps + count i qs := by
  simp [count]

theorem count_cons (p : Part) (ps : List Part) :
    count i (p :: ps) = (p.occurrences.map Occurrence.identifier).count i + count i ps := by
  simp [count]

@[simp] theorem count_expression (role : Role) (line : Nat) (e : Expr) (places : List Place)
    (ps : List Part) :
    count i (.expression role line e places :: ps) = e.identifiers.count i + count i ps := by
  simp [count_cons, Part.occurrences, Expr.count_occurrences]

@[simp] theorem count_opening (scope : Scope) (outer : List Place) (ps : List Part) :
    count i (.opening scope outer :: ps) = scope.early.count i + count i ps := by
  have hmap : ∀ is : List Identifier,
      (is.map (Occurrence.declaration · scope)).map Occurrence.identifier = is := by
    intro is
    rw [List.map_map]
    exact List.map_id is
  simp [count_cons, Part.occurrences, hmap]

@[simp] theorem count_binding (j : Identifier) (scope : Scope) (ps : List Part) :
    count i (.binding j scope :: ps) = [j].count i + count i ps := by
  rw [count_cons]
  rfl

end Part

mutual

theorem Stmt.count_parts (places : List Place) : ∀ s : Stmt,
    Part.count i (s.parts places) + s.announced.count i = s.identifiers.count i
  | .expression _ value | .print _ value => by
    simp [Stmt.parts, Stmt.announced, Stmt.identifiers]
  | .block _ body => by
    have hbody := Decl.count_partsFrom (.block body) 0 places body
    simp only [Stmt.parts, Stmt.announced, Stmt.identifiers, Part.count_opening, Scope.early_block]
    omega
  | .ifThen _ condition thenBranch => by
    have hthen := Stmt.count_parts places thenBranch
    simp only [Stmt.parts, Stmt.announced, Stmt.identifiers, Part.count_expression, List.count_append]
    omega
  | .ifElse _ condition thenBranch elseBranch => by
    have hthen := Stmt.count_parts places thenBranch
    have helse := Stmt.count_parts places elseBranch
    simp only [Stmt.parts, Stmt.announced, Stmt.identifiers, Part.count_expression, Part.count_append,
      List.count_append]
    omega
  | .whileLoop _ condition body => by
    have hbody := Stmt.count_parts places body
    simp only [Stmt.parts, Stmt.announced, Stmt.identifiers, Part.count_expression, List.count_append]
    omega
  | .forLoop _ first condition _ step body => by
    have hfirst := Decl.count_parts ⟨.loop first, 0⟩ places first
    have hbody := Stmt.count_parts (⟨.loop first, 1⟩ :: places) body
    have hearly : (Scope.loop first).early.count i = (Resolution.hoisted? first).toList.count i := by
      rw [Scope.early_loop, List.filterMap_cons, List.filterMap_nil]
      cases Resolution.hoisted? first <;> rfl
    simp only [Stmt.parts, Stmt.announced, Stmt.identifiers, Part.count_opening, Part.count_expression,
      Part.count_append, List.count_append, hearly]
    omega
  | .ret _ none => rfl
  | .ret _ (some value) => by simp [Stmt.parts, Stmt.announced, Stmt.identifiers]

theorem Decl.count_parts (here : Place) (outer : List Place) : ∀ d : Decl,
    Part.count i (d.parts here outer) + d.announced.count i + (Resolution.hoisted? d).toList.count i =
      d.identifiers.count i
  | .binding line identifier type value => by
    simp [Decl.parts, Decl.announced, Decl.identifiers, Resolution.hoisted?, List.count_cons]
  | .function line header body => by
    have hbody := Decl.count_partsFrom (.function header body) 0 (here :: outer) body
    simp only [Decl.parts, Decl.announced, Decl.identifiers, Resolution.hoisted?,
      FunctionHeader.identifiers,
      Part.count_opening, Scope.early_function, List.count_append, List.cons_append,
      List.count_cons, Option.toList_some, List.count_nil]
    omega
  | .forward line header => by
    simp [Decl.parts, Decl.announced, Decl.identifiers, Resolution.hoisted?, FunctionHeader.identifiers,
      List.count_cons]
  | .statement s => by
    have hs := Stmt.count_parts (here :: outer) s
    simpa [Decl.parts, Decl.announced, Decl.identifiers, Resolution.hoisted?] using hs

theorem Decl.count_partsFrom (scope : Scope) (position : Nat) (outer : List Place) : ∀ ds : List Decl,
    Part.count i (Decl.partsFrom scope position outer ds) + (Decl.announcedOf ds).count i +
      (ds.filterMap Resolution.hoisted?).count i = (Decl.identifiersOf ds).count i
  | [] => rfl
  | d :: ds => by
    have hfirst := Decl.count_parts ⟨scope, position⟩ outer d
    have hrest := Decl.count_partsFrom scope (position + 1) outer ds
    have hhoisted : ((d :: ds).filterMap Resolution.hoisted?).count i =
        (Resolution.hoisted? d).toList.count i + (ds.filterMap Resolution.hoisted?).count i := by
      rw [List.filterMap_cons]
      cases Resolution.hoisted? d with
      | none => simp
      | some j => simp only [Option.toList_some, List.count_cons, List.count_nil]; omega
    simp only [Decl.partsFrom, Decl.announcedOf, Decl.identifiersOf, Part.count_append,
      List.count_append, hhoisted]
    omega

end

namespace Program

/-- Every identifier needs an address just once, or is a parameter of a function without a body. -/
theorem occurrences_perm (program : Program) :
    (program.occurrences.map Occurrence.identifier ++ program.announced).Perm program.identifiers := by
  rw [List.perm_iff_count]
  intro i
  have h := Decl.count_partsFrom i program.scope 0 [] program.declarations
  have hparts : (program.occurrences.map Occurrence.identifier).count i =
      (program.declarations.filterMap Resolution.hoisted?).count i +
        Part.count i (Decl.partsFrom program.scope 0 [] program.declarations) :=
    Part.count_opening i program.scope [] _
  simp [hparts, identifiers, announced]
  omega

theorem DistinctIdentities.occurrences {program : Program} (h : program.DistinctIdentities) :
    (program.occurrences.map fun o => o.identifier.id).Nodup := by
  have hall := (program.occurrences_perm.map Identifier.id).nodup_iff.2 h
  rw [List.map_append, List.map_map] at hall
  exact (List.nodup_append.1 hall).1

end Program
end LexScript
