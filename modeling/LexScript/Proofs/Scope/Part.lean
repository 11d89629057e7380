import LexScript.Proofs.Scope.Place

/-!
# The parts of a program

A program is listed part by part, in the order of resolution: the scopes that are opened, the
expressions with the role that a statement or declaration gives them, and the variables that are
declared. Every part comes with the places around it, from the innermost to the global one. The
identifiers that need an address are listed from the parts.
-/

namespace LexScript

/-- What a statement or a declaration does with the value of an expression. -/
inductive Role
  | discarded
  | printed
  | condition
  | returned
  | initial (type : Ty)

inductive Part
  | opening (scope : Scope) (outer : List Place)
  | expression (role : Role) (line : Nat) (value : Expr) (places : List Place)
  | bareReturn (places : List Place)
  | binding (identifier : Identifier) (scope : Scope)

mutual

def Stmt.parts (places : List Place) : Stmt → List Part
  | .expression line value => [.expression .discarded line value places]
  | .print line value => [.expression .printed line value places]
  | .block _ body => .opening (.block body) places :: Decl.partsFrom (.block body) 0 places body
  | .ifThen line condition thenBranch =>
    .expression .condition line condition places :: thenBranch.parts places
  | .ifElse line condition thenBranch elseBranch =>
    .expression .condition line condition places ::
      (thenBranch.parts places ++ elseBranch.parts places)
  | .whileLoop line condition body =>
    .expression .condition line condition places :: body.parts places
  | .forLoop line first condition stepLine step body =>
    let inside := ⟨.loop first, 1⟩ :: places
    .opening (.loop first) places :: (first.parts ⟨.loop first, 0⟩ places ++
      .expression .condition line condition inside ::
      .expression .discarded stepLine step inside :: body.parts inside)
  | .ret _ none => [.bareReturn places]
  | .ret line (some value) => [.expression .returned line value places]

/-- The parts of a declaration that stands at `here`. -/
def Decl.parts (here : Place) (outer : List Place) : Decl → List Part
  | .binding line identifier type value =>
    [.expression (.initial type) line value (here :: outer), .binding identifier here.scope]
  | .function _ header body =>
    .opening (.function header body) (here :: outer) ::
      Decl.partsFrom (.function header body) 0 (here :: outer) body
  | .forward .. => []
  | .statement s => s.parts (here :: outer)

def Decl.partsFrom (scope : Scope) (position : Nat) (outer : List Place) : List Decl → List Part
  | [] => []
  | d :: ds => d.parts ⟨scope, position⟩ outer ++ Decl.partsFrom scope (position + 1) outer ds

end

def Program.scope (program : Program) : Scope := .global program.declarations

def Program.parts (program : Program) : List Part :=
  .opening program.scope [] :: Decl.partsFrom program.scope 0 [] program.declarations

/-- An identifier that needs an address: a name that is used, on a line and at nested places, or a name
that is declared in a scope. -/
inductive Occurrence
  | use (identifier : Identifier) (line : Nat) (places : List Place)
  | declaration (identifier : Identifier) (scope : Scope)

namespace Occurrence

def identifier : Occurrence → Identifier
  | use identifier _ _ | declaration identifier _ => identifier

/-- A use has the address of the nearest place that sees the name, a declaration its own slot. -/
def address? : Occurrence → Option Address
  | use identifier _ places => Place.address? places identifier.name
  | declaration identifier scope => some ⟨0, scope.slot identifier.name⟩

end Occurrence

mutual

/-- The names that an expression uses, the value of an assignment before its target. -/
def Expr.occurrences (places : List Place) (line : Nat) : Expr → List Occurrence
  | .literal _ => []
  | .name identifier => [.use identifier line places]
  | .assign target value => value.occurrences places line ++ [.use target line places]
  | .unary _ operand => operand.occurrences places line
  | .binary _ left right => left.occurrences places line ++ right.occurrences places line
  | .call callee arguments =>
    callee.occurrences places line ++ Expr.occurrencesOf places line arguments

def Expr.occurrencesOf (places : List Place) (line : Nat) : List Expr → List Occurrence
  | [] => []
  | e :: es => e.occurrences places line ++ Expr.occurrencesOf places line es

end

mutual

/-- An expression only uses names. -/
theorem Expr.eq_use_of_mem {places : List Place} {line : Nat} {o : Occurrence} : ∀ e : Expr,
    o ∈ e.occurrences places line → ∃ i, o = .use i line places
  | .literal _, h => by cases h
  | .name identifier, h => ⟨identifier, List.mem_singleton.1 h⟩
  | .assign target value, h => by
    rcases List.mem_append.1 h with h | h
    · exact Expr.eq_use_of_mem value h
    · exact ⟨target, List.mem_singleton.1 h⟩
  | .unary _ operand, h => Expr.eq_use_of_mem operand h
  | .binary _ left right, h =>
    (List.mem_append.1 h).elim (Expr.eq_use_of_mem left) (Expr.eq_use_of_mem right)
  | .call callee arguments, h =>
    (List.mem_append.1 h).elim (Expr.eq_use_of_mem callee) (Expr.eq_use_of_mem_of arguments)

theorem Expr.eq_use_of_mem_of {places : List Place} {line : Nat} {o : Occurrence} :
    ∀ es : List Expr, o ∈ Expr.occurrencesOf places line es → ∃ i, o = .use i line places
  | [], h => by cases h
  | e :: es, h => (List.mem_append.1 h).elim (Expr.eq_use_of_mem e) (Expr.eq_use_of_mem_of es)

end

def Part.occurrences : Part → List Occurrence
  | opening scope _ => scope.early.map (.declaration · scope)
  | expression _ line value places => value.occurrences places line
  | bareReturn _ => []
  | binding identifier scope => [.declaration identifier scope]

/-- The identifiers of a program that need an address, in the order of resolution. -/
def Program.occurrences (program : Program) : List Occurrence :=
  program.parts.flatMap Part.occurrences

theorem Program.occurrences_of_part {program : Program} {p : Part} (h : p ∈ program.parts) :
    p.occurrences ⊆ program.occurrences :=
  fun _ ho => List.mem_flatMap.2 ⟨p, h, ho⟩

namespace Decl

theorem partsFrom_append (scope : Scope) (position : Nat) (outer : List Place) (ds es : List Decl) :
    partsFrom scope position outer (ds ++ es) =
      partsFrom scope position outer ds ++ partsFrom scope (position + ds.length) outer es := by
  induction ds generalizing position with
  | nil => simp [partsFrom]
  | cons d ds ih =>
    have hlength : position + 1 + ds.length = position + (d :: ds).length := by
      simp
      omega
    simp [partsFrom, ih, hlength]

/-- A declaration of a list brings its parts. -/
theorem parts_subset_partsFrom {scope : Scope} (outer : List Place) {ds : List Decl} {d : Decl}
    (h : d ∈ ds) (position : Nat) :
    ∃ i, d.parts ⟨scope, i⟩ outer ⊆ partsFrom scope position outer ds := by
  obtain ⟨before, after, rfl⟩ := List.append_of_mem h
  refine ⟨position + before.length, ?_⟩
  rw [partsFrom_append, partsFrom]
  intro part hp
  exact List.mem_append_right _ (List.mem_append_left _ hp)

end Decl

def Part.Registered : Part → Prop
  | binding identifier scope => identifier ∈ scope.registered
  | _ => True

theorem Scope.variable_mem_registered {scope : Scope} {d : Decl} {identifier : Identifier}
    (hd : d ∈ scope.declarations) (h : d.variable? = some identifier) : identifier ∈ scope.registered :=
  List.mem_append_right _ (List.mem_filterMap.2 ⟨d, hd, h⟩)

mutual

theorem Stmt.registered_parts (places : List Place) : ∀ s : Stmt, ∀ p ∈ s.parts places, p.Registered
  | .expression .. | .print .. | .ret _ none | .ret _ (some _) => by
    simp [Stmt.parts, Part.Registered]
  | .block _ body => by
    simp only [Stmt.parts, List.forall_mem_cons]
    exact ⟨trivial, Decl.registered_partsFrom (.block body) 0 places body (List.Subset.refl _)⟩
  | .ifThen _ _ thenBranch => by
    simp only [Stmt.parts, List.forall_mem_cons]
    exact ⟨trivial, Stmt.registered_parts places thenBranch⟩
  | .ifElse _ _ thenBranch elseBranch => by
    simp only [Stmt.parts, List.forall_mem_cons, List.forall_mem_append]
    exact ⟨trivial, Stmt.registered_parts places thenBranch, Stmt.registered_parts places elseBranch⟩
  | .whileLoop _ _ body => by
    simp only [Stmt.parts, List.forall_mem_cons]
    exact ⟨trivial, Stmt.registered_parts places body⟩
  | .forLoop _ first _ _ _ body => by
    simp only [Stmt.parts, List.forall_mem_cons, List.forall_mem_append]
    have hfirst := Decl.registered_parts ⟨.loop first, 0⟩ places first (List.mem_singleton_self _)
    exact ⟨trivial, hfirst, trivial, trivial, Stmt.registered_parts (⟨.loop first, 1⟩ :: places) body⟩

theorem Decl.registered_parts (here : Place) (outer : List Place) : ∀ d : Decl,
    d ∈ here.scope.declarations → ∀ p ∈ d.parts here outer, p.Registered
  | .binding _ identifier _ _, hd => by
    have hidentifier := Scope.variable_mem_registered hd rfl
    simpa [Decl.parts, Part.Registered] using hidentifier
  | .function _ header body, _ => by
    rw [Decl.parts, List.forall_mem_cons]
    exact ⟨trivial, Decl.registered_partsFrom (.function header body) 0 (here :: outer) body
      (List.Subset.refl _)⟩
  | .forward .., _ => by simp [Decl.parts]
  | .statement s, _ => Stmt.registered_parts (here :: outer) s

theorem Decl.registered_partsFrom (scope : Scope) (position : Nat) (outer : List Place) :
    ∀ ds : List Decl, ds ⊆ scope.declarations →
      ∀ p ∈ Decl.partsFrom scope position outer ds, p.Registered
  | [], _ => by simp [Decl.partsFrom]
  | d :: ds, h => by
    rw [List.cons_subset] at h
    rw [Decl.partsFrom, List.forall_mem_append]
    exact ⟨Decl.registered_parts ⟨scope, position⟩ outer d h.1,
      Decl.registered_partsFrom scope (position + 1) outer ds h.2⟩

end

namespace Program

theorem registered_parts (program : Program) : ∀ p ∈ program.parts, p.Registered := by
  rw [parts, List.forall_mem_cons]
  exact ⟨trivial, Decl.registered_partsFrom program.scope 0 [] program.declarations
    (List.Subset.refl _)⟩

/-- A name that is declared in a scope is one of its names. -/
theorem mem_registered {program : Program} {identifier : Identifier} {scope : Scope}
    (h : .declaration identifier scope ∈ program.occurrences) : identifier ∈ scope.registered := by
  obtain ⟨part, hpart, ho⟩ := List.mem_flatMap.1 h
  have hregistered := program.registered_parts part hpart
  cases part with
  | opening s outer =>
    obtain ⟨i, hi, heq⟩ := List.mem_map.1 ho
    obtain ⟨rfl, rfl⟩ := Occurrence.declaration.inj heq
    exact List.mem_append_left _ hi
  | expression role line e places =>
    obtain ⟨i, hi⟩ := e.eq_use_of_mem ho
    cases hi
  | bareReturn places => cases ho
  | binding i s =>
    obtain ⟨rfl, rfl⟩ := Occurrence.declaration.inj (List.mem_singleton.1 ho)
    exact hregistered

end Program
end LexScript
