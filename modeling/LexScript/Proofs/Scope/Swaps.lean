import LexScript.Proofs.Scope.Identifiers
import LexScript.Proofs.Typing.Knowledge

/-!
# Neighbouring functions in another order

Two declarations that follow each other may change places if they declare functions of different names, with
or without a body, in any list of a program. Names, identities and lines stay with the declarations. A scope
declares the same names with the same types before and after.
-/

namespace LexScript

mutual

inductive Stmt.Swaps : Stmt → Stmt → Prop
  | expression (line : Nat) (value : Expr) : Stmt.Swaps (.expression line value) (.expression line value)
  | print (line : Nat) (value : Expr) : Stmt.Swaps (.print line value) (.print line value)
  | block (line : Nat) {body body' : List Decl} (inside : Decl.AllSwaps body body') :
    Stmt.Swaps (.block line body) (.block line body')
  | ifThen (line : Nat) (condition : Expr) {thenBranch thenBranch' : Stmt}
    (inside : Stmt.Swaps thenBranch thenBranch') :
    Stmt.Swaps (.ifThen line condition thenBranch) (.ifThen line condition thenBranch')
  | ifElse (line : Nat) (condition : Expr) {thenBranch thenBranch' elseBranch elseBranch' : Stmt}
    (first : Stmt.Swaps thenBranch thenBranch') (second : Stmt.Swaps elseBranch elseBranch') :
    Stmt.Swaps (.ifElse line condition thenBranch elseBranch) (.ifElse line condition thenBranch' elseBranch')
  | whileLoop (line : Nat) (condition : Expr) {body body' : Stmt} (inside : Stmt.Swaps body body') :
    Stmt.Swaps (.whileLoop line condition body) (.whileLoop line condition body')
  | forLoop (line : Nat) {first first' : Decl} (condition : Expr) (stepLine : Nat) (step : Expr)
    {body body' : Stmt} (start : Decl.Swaps first first') (inside : Stmt.Swaps body body') :
    Stmt.Swaps (.forLoop line first condition stepLine step body)
      (.forLoop line first' condition stepLine step body')
  | ret (line : Nat) (value : Option Expr) : Stmt.Swaps (.ret line value) (.ret line value)

inductive Decl.Swaps : Decl → Decl → Prop
  | binding (line : Nat) (identifier : Identifier) (type : Ty) (value : Expr) :
    Decl.Swaps (.binding line identifier type value) (.binding line identifier type value)
  | function (line : Nat) (header : FunctionHeader) {body body' : List Decl}
    (inside : Decl.AllSwaps body body') : Decl.Swaps (.function line header body) (.function line header body')
  | forward (line : Nat) (header : FunctionHeader) : Decl.Swaps (.forward line header) (.forward line header)
  | statement {s s' : Stmt} (inside : Stmt.Swaps s s') : Decl.Swaps (.statement s) (.statement s')

inductive Decl.AllSwaps : List Decl → List Decl → Prop
  | nil : Decl.AllSwaps [] []
  | cons {d d' : Decl} {ds ds' : List Decl} (first : Decl.Swaps d d') (rest : Decl.AllSwaps ds ds') :
    Decl.AllSwaps (d :: ds) (d' :: ds')
  | swap {f f' g g' : Decl} {ds ds' : List Decl} {i j : Identifier} (first : Decl.Swaps f f')
    (second : Decl.Swaps g g') (declared : Resolution.hoisted? f = some i)
    (declared' : Resolution.hoisted? g = some j) (names : i.name ≠ j.name) (rest : Decl.AllSwaps ds ds') :
    Decl.AllSwaps (f :: g :: ds) (g' :: f' :: ds')

end

/-- The second program is the first, with neighbouring functions swapped here and there. -/
def Program.Swaps (p p' : Program) : Prop := Decl.AllSwaps p.declarations p'.declarations

/-! ## Nothing is swapped, or everything back -/

mutual

theorem Stmt.Swaps.refl : ∀ s : Stmt, s.Swaps s
  | .expression line value => .expression line value
  | .print line value => .print line value
  | .block line body => .block line (Decl.AllSwaps.refl body)
  | .ifThen line condition thenBranch => .ifThen line condition (Stmt.Swaps.refl thenBranch)
  | .ifElse line condition thenBranch elseBranch =>
    .ifElse line condition (Stmt.Swaps.refl thenBranch) (Stmt.Swaps.refl elseBranch)
  | .whileLoop line condition body => .whileLoop line condition (Stmt.Swaps.refl body)
  | .forLoop line first condition stepLine step body =>
    .forLoop line condition stepLine step (Decl.Swaps.refl first) (Stmt.Swaps.refl body)
  | .ret line value => .ret line value

theorem Decl.Swaps.refl : ∀ d : Decl, d.Swaps d
  | .binding line identifier type value => .binding line identifier type value
  | .function line header body => .function line header (Decl.AllSwaps.refl body)
  | .forward line header => .forward line header
  | .statement s => .statement (Stmt.Swaps.refl s)

theorem Decl.AllSwaps.refl : ∀ ds : List Decl, Decl.AllSwaps ds ds
  | [] => .nil
  | d :: ds => .cons (Decl.Swaps.refl d) (Decl.AllSwaps.refl ds)

end

/-- One swap of two functions, whatever stands before and after them. -/
theorem Decl.AllSwaps.neighbours {f g : Decl} {i j : Identifier} (hf : Resolution.hoisted? f = some i)
    (hg : Resolution.hoisted? g = some j) (hne : i.name ≠ j.name) (before after : List Decl) :
    Decl.AllSwaps (before ++ f :: g :: after) (before ++ g :: f :: after) := by
  induction before with
  | nil => exact .swap (.refl f) (.refl g) hf hg hne (.refl after)
  | cons d ds ih => exact .cons (.refl d) ih

theorem Decl.Swaps.hoisted? {d d' : Decl} (h : d.Swaps d') :
    Resolution.hoisted? d' = Resolution.hoisted? d := by
  cases h <;> rfl

theorem Decl.Swaps.functionType? {d d' : Decl} (h : d.Swaps d') : d'.functionType? = d.functionType? := by
  cases h <;> rfl

theorem Decl.Swaps.variableType? {d d' : Decl} (h : d.Swaps d') : d'.variableType? = d.variableType? := by
  cases h <;> rfl

mutual

theorem Stmt.Swaps.symm {s s' : Stmt} : s.Swaps s' → s'.Swaps s
  | .expression line value => .expression line value
  | .print line value => .print line value
  | .block line inside => .block line inside.symm
  | .ifThen line condition inside => .ifThen line condition inside.symm
  | .ifElse line condition first second => .ifElse line condition first.symm second.symm
  | .whileLoop line condition inside => .whileLoop line condition inside.symm
  | .forLoop line condition stepLine step start inside =>
    .forLoop line condition stepLine step start.symm inside.symm
  | .ret line value => .ret line value

theorem Decl.Swaps.symm {d d' : Decl} : d.Swaps d' → d'.Swaps d
  | .binding line identifier type value => .binding line identifier type value
  | .function line header inside => .function line header inside.symm
  | .forward line header => .forward line header
  | .statement inside => .statement inside.symm

theorem Decl.AllSwaps.symm {ds ds' : List Decl} : Decl.AllSwaps ds ds' → Decl.AllSwaps ds' ds
  | .nil => .nil
  | .cons first rest => .cons first.symm rest.symm
  | .swap first second declared declared' names rest =>
    .swap second.symm first.symm (second.hoisted?.trans declared') (first.hoisted?.trans declared) names.symm
      rest.symm

end

theorem Program.Swaps.symm {p p' : Program} (h : p.Swaps p') : p'.Swaps p := Decl.AllSwaps.symm h

/-! ## Names -/

mutual

theorem Stmt.Swaps.identifiers {s s' : Stmt} : s.Swaps s' → s.identifiers.Perm s'.identifiers
  | .expression .. | .print .. | .ret .. => .refl _
  | .block _ inside => inside.identifiers
  | .ifThen _ condition inside => inside.identifiers.append_left _
  | .ifElse _ condition first second => (first.identifiers.append_left _).append second.identifiers
  | .whileLoop _ condition inside => inside.identifiers.append_left _
  | .forLoop _ condition _ step start inside =>
    ((start.identifiers.append_right _).append_right _).append inside.identifiers

theorem Decl.Swaps.identifiers {d d' : Decl} : d.Swaps d' → d.identifiers.Perm d'.identifiers
  | .binding .. | .forward .. => .refl _
  | .function _ header inside => inside.identifiers.append_left _
  | .statement inside => inside.identifiers

theorem Decl.AllSwaps.identifiers {ds ds' : List Decl} :
    Decl.AllSwaps ds ds' → (Decl.identifiersOf ds).Perm (Decl.identifiersOf ds')
  | .nil => .refl _
  | .cons first rest => first.identifiers.append rest.identifiers
  | .swap first second _ _ _ rest => by
    have hpair := (first.identifiers.append second.identifiers).trans List.perm_append_comm
    have hall := hpair.append rest.identifiers
    simp only [List.append_assoc] at hall
    exact hall

end

theorem Program.Swaps.distinctIdentities {p p' : Program} (h : p.Swaps p') (hids : p.DistinctIdentities) :
    p'.DistinctIdentities :=
  (h.identifiers.map Identifier.id).nodup_iff.1 hids

/-- A declaration of a function declares no variable. -/
theorem Decl.variableType?_of_hoisted? {d : Decl} {i : Identifier} (h : Resolution.hoisted? d = some i) :
    d.variableType? = none := by
  cases d with
  | function | forward => rfl
  | _ => cases h

/-- How the declarations of two lists with swaps go together one after the other: they are alike, or both declare
functions. -/
def Decl.Matches (d d' : Decl) : Prop :=
  d.Swaps d' ∨ (Resolution.hoisted? d).isSome ∧ (Resolution.hoisted? d').isSome

namespace Decl.AllSwaps

theorem hoisted {ds ds' : List Decl} : AllSwaps ds ds' →
    (ds.filterMap Resolution.hoisted?).Perm (ds'.filterMap Resolution.hoisted?)
  | .nil => .refl _
  | .cons (d := d) first rest => by
    simp only [List.filterMap_cons, first.hoisted?]
    cases Resolution.hoisted? d with
    | none => exact rest.hoisted
    | some i => exact rest.hoisted.cons i
  | .swap (i := i) (j := j) first second declared declared' _ rest => by
    have hswap := (List.Perm.swap j i _).trans ((rest.hoisted.cons i).cons j)
    simpa [declared, declared', first.hoisted?, second.hoisted?] using hswap

/-- Functions that change places leave the variables before any point as they are. -/
theorem variableTypes_take {ds ds' : List Decl} : AllSwaps ds ds' → ∀ n : Nat,
    (ds'.take n).filterMap Decl.variableType? = (ds.take n).filterMap Decl.variableType?
  | .nil, _ => rfl
  | .cons .., 0 => rfl
  | .cons first rest, n + 1 => by
    simp [List.take_succ_cons, List.filterMap_cons, first.variableType?, rest.variableTypes_take n]
  | .swap .., 0 => rfl
  | .swap first second declared declared' _ rest, 1 => by
    have hf := variableType?_of_hoisted? declared
    have hg := variableType?_of_hoisted? declared'
    simp [hf, hg, second.variableType?]
  | .swap first second declared declared' _ rest, n + 2 => by
    have hf := variableType?_of_hoisted? declared
    have hg := variableType?_of_hoisted? declared'
    simp [hf, hg, first.variableType?, second.variableType?, rest.variableTypes_take n]

theorem variableTypes {ds ds' : List Decl} (h : AllSwaps ds ds') :
    ds'.filterMap Decl.variableType? = ds.filterMap Decl.variableType? := by
  have htake := h.variableTypes_take (ds.length + ds'.length)
  rwa [List.take_of_length_le (Nat.le_add_left ..), List.take_of_length_le (Nat.le_add_right ..)] at htake

/-- The first type for a name is the same, since functions of one name stay in order. -/
theorem typeIn?_functions {ds ds' : List Decl} (name : String) : AllSwaps ds ds' →
    typeIn? (ds'.filterMap Decl.functionType?) name = typeIn? (ds.filterMap Decl.functionType?) name
  | .nil => rfl
  | .cons (d := d) first rest => by
    simp only [List.filterMap_cons, first.functionType?]
    cases d.functionType? with
    | none => exact rest.typeIn?_functions name
    | some p => rw [typeIn?_cons, typeIn?_cons, rest.typeIn?_functions name]
  | .swap first second declared declared' names rest => by
    rw [← Decl.map_functionType?] at declared declared'
    obtain ⟨⟨i, t⟩, hf, rfl⟩ := Option.map_eq_some_iff.1 declared
    obtain ⟨⟨j, u⟩, hg, rfl⟩ := Option.map_eq_some_iff.1 declared'
    simp only [List.filterMap_cons, hf, hg, first.functionType?, second.functionType?, typeIn?_cons,
      rest.typeIn?_functions name]
    by_cases hi : i.name = name
    · rw [if_pos hi, if_pos hi, if_neg fun hj => names (hi.trans hj.symm)]
    · simp [hi]

/-- A declaration of one list has its partner in the other. -/
theorem exists_mem {ds ds' : List Decl} {d : Decl} : AllSwaps ds ds' → d ∈ ds → ∃ d' ∈ ds', d.Swaps d'
  | .nil, hd => by cases hd
  | .cons first rest, hd => by
    rcases List.mem_cons.1 hd with rfl | hd
    · exact ⟨_, List.mem_cons_self, first⟩
    · obtain ⟨d', hd', hswaps⟩ := rest.exists_mem hd
      exact ⟨d', List.mem_cons_of_mem _ hd', hswaps⟩
  | .swap first second _ _ _ rest, hd => by
    rcases List.mem_cons.1 hd with rfl | hd
    · exact ⟨_, List.mem_cons_of_mem _ List.mem_cons_self, first⟩
    rcases List.mem_cons.1 hd with rfl | hd
    · exact ⟨_, List.mem_cons_self, second⟩
    · obtain ⟨d', hd', hswaps⟩ := rest.exists_mem hd
      exact ⟨d', List.mem_cons_of_mem _ (List.mem_cons_of_mem _ hd'), hswaps⟩

end Decl.AllSwaps

theorem Decl.AllSwaps.matches {ds ds' : List Decl} : Decl.AllSwaps ds ds' → List.Forall₂ Decl.Matches ds ds'
  | .nil => .nil
  | .cons first rest => .cons (.inl first) rest.matches
  | .swap first second declared declared' _ rest => by
    have hf := Option.isSome_of_eq_some declared
    have hf' := Option.isSome_of_eq_some (first.hoisted?.trans declared)
    have hg := Option.isSome_of_eq_some declared'
    have hg' := Option.isSome_of_eq_some (second.hoisted?.trans declared')
    exact .cons (.inr ⟨hf, hg'⟩) (.cons (.inr ⟨hg, hf'⟩) rest.matches)

/-! ## Scopes -/

inductive Scope.Swaps : Scope → Scope → Prop
  | global {ds ds' : List Decl} (inside : Decl.AllSwaps ds ds') : Swaps (.global ds) (.global ds')
  | block {body body' : List Decl} (inside : Decl.AllSwaps body body') : Swaps (.block body) (.block body')
  | function (header : FunctionHeader) {body body' : List Decl} (inside : Decl.AllSwaps body body') :
    Swaps (.function header body) (.function header body')
  | loop {first first' : Decl} (inside : first.Swaps first') : Swaps (.loop first) (.loop first')

namespace Scope.Swaps

variable {s s' : Scope}

theorem symm (h : s.Swaps s') : s'.Swaps s := by
  cases h with
  | global inside => exact .global inside.symm
  | block inside => exact .block inside.symm
  | function header inside => exact .function header inside.symm
  | loop inside => exact .loop inside.symm

theorem declarations (h : s.Swaps s') : Decl.AllSwaps s.declarations s'.declarations := by
  cases h with
  | global inside | block inside | function _ inside => exact inside
  | loop inside => exact .cons inside .nil

theorem parameters (h : s.Swaps s') : s'.parameters = s.parameters := by
  cases h <;> rfl

theorem parameterTypes (h : s.Swaps s') : s'.parameterTypes = s.parameterTypes := by
  cases h <;> rfl

theorem early (h : s.Swaps s') : s.early.Perm s'.early := by
  simpa [Scope.early, h.parameters] using h.declarations.hoisted.append_left _

theorem typeOf? (h : s.Swaps s') (name : String) : s'.typeOf? name = s.typeOf? name := by
  simp [Scope.typeOf?, types, h.parameterTypes, typeIn?_append, h.declarations.typeIn?_functions,
    h.declarations.variableTypes]

theorem consistent (h : s.Swaps s') (hs : s.Consistent) : s'.Consistent := by
  intro d' hd' i t hdeclared
  obtain ⟨d, hd, hswaps⟩ := h.declarations.symm.exists_mem hd'
  rw [← hswaps.functionType?, ← hswaps.variableType?] at hdeclared
  rw [h.typeOf?]
  exact hs d hd i t hdeclared

theorem returns? {scopes scopes' : List Scope} (h : List.Forall₂ Scope.Swaps scopes scopes') :
    Scope.returns? scopes' = Scope.returns? scopes := by
  induction h with
  | nil => rfl
  | cons first rest ih =>
    cases first with
    | function => rfl
    | _ => exact ih

end Scope.Swaps

end LexScript
