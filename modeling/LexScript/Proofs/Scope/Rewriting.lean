import LexScript.Proofs.Scope.Identifiers
import LexScript.Proofs.Scope.Recording
import Mathlib.Data.List.Perm.Subperm

/-!
# Programs that are written in another way

Two ways to rewrite a program: a function that is announced without a body may be left out where the same list
declares it with one, and a `for` loop may be written as a `while` loop in a block. Both keep names, identities and
lines. Scopes declare the same names before and after, and what is new is a scope that declares nothing, for the
body and the step of a loop. So a name is found in the same scope: `Place.AllRewrites.nearest`.
-/

namespace LexScript

/-- A way to rewrite programs. -/
inductive Rewriting
  /-- A function without a body is left out of a list that also declares it with one. -/
  | omission
  /-- A `for` loop becomes a `while` loop in a block. -/
  | unrolling

def FunctionHeader.DefinedIn (header : FunctionHeader) (ds : List Decl) : Prop :=
  ∃ line other body, .function line other body ∈ ds ∧ other.identifier.name = header.identifier.name

/-- The body of a `for` loop and its step, in a block. -/
def Stmt.round (line stepLine : Nat) (step : Expr) (body : Stmt) : Stmt :=
  .block line [.statement body, .statement (.expression stepLine step)]

/-- A `for` loop once its first declaration has run, as a `while` loop. -/
def Stmt.rounds (line : Nat) (condition : Expr) (stepLine : Nat) (step : Expr) (body : Stmt) : Stmt :=
  .whileLoop line condition (.round line stepLine step body)

mutual

inductive Stmt.Rewrites (r : Rewriting) : Stmt → Stmt → Prop
  | expression (line : Nat) (value : Expr) : Stmt.Rewrites r (.expression line value) (.expression line value)
  | print (line : Nat) (value : Expr) : Stmt.Rewrites r (.print line value) (.print line value)
  | block (line : Nat) {body body' : List Decl} (inside : Decl.AllRewrites r body body body') :
    Stmt.Rewrites r (.block line body) (.block line body')
  | ifThen (line : Nat) (condition : Expr) {thenBranch thenBranch' : Stmt}
    (inside : Stmt.Rewrites r thenBranch thenBranch') :
    Stmt.Rewrites r (.ifThen line condition thenBranch) (.ifThen line condition thenBranch')
  | ifElse (line : Nat) (condition : Expr) {thenBranch thenBranch' elseBranch elseBranch' : Stmt}
    (first : Stmt.Rewrites r thenBranch thenBranch') (second : Stmt.Rewrites r elseBranch elseBranch') :
    Stmt.Rewrites r (.ifElse line condition thenBranch elseBranch)
      (.ifElse line condition thenBranch' elseBranch')
  | whileLoop (line : Nat) (condition : Expr) {body body' : Stmt} (inside : Stmt.Rewrites r body body') :
    Stmt.Rewrites r (.whileLoop line condition body) (.whileLoop line condition body')
  | forLoop (line : Nat) {first first' : Decl} (condition : Expr) (stepLine : Nat) (step : Expr)
    {body body' : Stmt} (start : Decl.Rewrites r first first') (inside : Stmt.Rewrites r body body') :
    Stmt.Rewrites r (.forLoop line first condition stepLine step body)
      (.forLoop line first' condition stepLine step body')
  | unroll (way : r = .unrolling) (line : Nat) {first first' : Decl} (condition : Expr) (stepLine : Nat)
    (step : Expr) {body body' : Stmt} (start : Decl.Rewrites r first first')
    (inside : Stmt.Rewrites r body body') :
    Stmt.Rewrites r (.forLoop line first condition stepLine step body)
      (.block line [first', .statement (.rounds line condition stepLine step body')])
  | ret (line : Nat) (value : Option Expr) : Stmt.Rewrites r (.ret line value) (.ret line value)

inductive Decl.Rewrites (r : Rewriting) : Decl → Decl → Prop
  | binding (line : Nat) (identifier : Identifier) (type : Ty) (value : Expr) :
    Decl.Rewrites r (.binding line identifier type value) (.binding line identifier type value)
  | function (line : Nat) (header : FunctionHeader) {body body' : List Decl}
    (inside : Decl.AllRewrites r body body body') :
    Decl.Rewrites r (.function line header body) (.function line header body')
  | forward (line : Nat) (header : FunctionHeader) :
    Decl.Rewrites r (.forward line header) (.forward line header)
  | statement {s s' : Stmt} (inside : Stmt.Rewrites r s s') : Decl.Rewrites r (.statement s) (.statement s')

/-- The second list is the first, rewritten here and there. It is a rest of the whole list, whose functions with a
body may be announced no more. -/
inductive Decl.AllRewrites (r : Rewriting) : List Decl → List Decl → List Decl → Prop
  | nil (whole : List Decl) : Decl.AllRewrites r whole [] []
  | cons {whole ds ds' : List Decl} {d d' : Decl} (first : Decl.Rewrites r d d')
    (rest : Decl.AllRewrites r whole ds ds') : Decl.AllRewrites r whole (d :: ds) (d' :: ds')
  | skip (way : r = .omission) {whole ds ds' : List Decl} (line : Nat) {header : FunctionHeader}
    (defined : header.DefinedIn whole) (rest : Decl.AllRewrites r whole ds ds') :
    Decl.AllRewrites r whole (.forward line header :: ds) ds'

end

/-- The second program is the first, rewritten here and there. -/
def Program.Rewrites (r : Rewriting) (p p' : Program) : Prop :=
  Decl.AllRewrites r p.declarations p.declarations p'.declarations

variable {r : Rewriting}

/-! ## One place is rewritten -/

mutual

theorem Stmt.Rewrites.refl (r : Rewriting) : ∀ s : Stmt, s.Rewrites r s
  | .expression line value => .expression line value
  | .print line value => .print line value
  | .block line body => .block line (Decl.AllRewrites.refl r body body)
  | .ifThen line condition thenBranch => .ifThen line condition (Stmt.Rewrites.refl r thenBranch)
  | .ifElse line condition thenBranch elseBranch =>
    .ifElse line condition (Stmt.Rewrites.refl r thenBranch) (Stmt.Rewrites.refl r elseBranch)
  | .whileLoop line condition body => .whileLoop line condition (Stmt.Rewrites.refl r body)
  | .forLoop line first condition stepLine step body =>
    .forLoop line condition stepLine step (Decl.Rewrites.refl r first) (Stmt.Rewrites.refl r body)
  | .ret line value => .ret line value

theorem Decl.Rewrites.refl (r : Rewriting) : ∀ d : Decl, d.Rewrites r d
  | .binding line identifier type value => .binding line identifier type value
  | .function line header body => .function line header (Decl.AllRewrites.refl r body body)
  | .forward line header => .forward line header
  | .statement s => .statement (Stmt.Rewrites.refl r s)

theorem Decl.AllRewrites.refl (r : Rewriting) (whole : List Decl) :
    ∀ ds : List Decl, Decl.AllRewrites r whole ds ds
  | [] => .nil whole
  | d :: ds => .cons (Decl.Rewrites.refl r d) (Decl.AllRewrites.refl r whole ds)

end

/-- One declaration is rewritten, whatever stands before and after it. -/
theorem Decl.AllRewrites.single {d d' : Decl} (h : d.Rewrites r d') (whole before after : List Decl) :
    AllRewrites r whole (before ++ d :: after) (before ++ d' :: after) := by
  induction before with
  | nil => exact .cons h (.refl r whole after)
  | cons e ds ih => exact .cons (.refl r e) ih

/-- One announcement is left out, whatever stands before and after it. -/
theorem Decl.AllRewrites.omission {header : FunctionHeader} {whole : List Decl} (h : header.DefinedIn whole)
    (line : Nat) (before after : List Decl) :
    AllRewrites .omission whole (before ++ .forward line header :: after) (before ++ after) := by
  induction before with
  | nil => exact .skip rfl line h (.refl _ whole after)
  | cons e ds ih => exact .cons (.refl _ e) ih

/-! ## Names -/

mutual

/-- No identifier is added. -/
theorem Stmt.Rewrites.identifiers {s s' : Stmt} : s.Rewrites r s' → s'.identifiers.Subperm s.identifiers
  | .expression .. | .print .. | .ret .. => .refl _
  | .block _ inside => inside.identifiers
  | .ifThen _ condition inside => (List.Subperm.refl _).append inside.identifiers
  | .ifElse _ condition first second => ((List.Subperm.refl _).append first.identifiers).append second.identifiers
  | .whileLoop _ condition inside => (List.Subperm.refl _).append inside.identifiers
  | .forLoop _ condition _ step start inside =>
    ((start.identifiers.append (.refl _)).append (.refl _)).append inside.identifiers
  | .unroll _ line condition stepLine step start inside => by
    rename_i first first' body body'
    have hsame := ((start.identifiers.append (.refl condition.identifiers)).append
      (.refl step.identifiers)).append inside.identifiers
    refine List.Perm.subperm ?_ |>.trans hsame
    have hround : (Stmt.rounds line condition stepLine step body').identifiers =
        condition.identifiers ++ (body'.identifiers ++ step.identifiers) := by
      simp [Stmt.rounds, Stmt.round, Stmt.identifiers, Decl.identifiersOf, Decl.identifiers]
    have hblock : (Stmt.block line [first', .statement (.rounds line condition stepLine step body')]).identifiers =
        first'.identifiers ++ (condition.identifiers ++ (body'.identifiers ++ step.identifiers)) := by
      rw [← hround]
      simp [Stmt.identifiers, Decl.identifiersOf, Decl.identifiers]
    simpa [hblock] using (List.perm_append_comm.append_left _).append_left _

theorem Decl.Rewrites.identifiers {d d' : Decl} : d.Rewrites r d' → d'.identifiers.Subperm d.identifiers
  | .binding .. | .forward .. => .refl _
  | .function _ header inside => (List.Subperm.refl _).append inside.identifiers
  | .statement inside => inside.identifiers

theorem Decl.AllRewrites.identifiers {whole ds ds' : List Decl} : Decl.AllRewrites r whole ds ds' →
    (Decl.identifiersOf ds').Subperm (Decl.identifiersOf ds)
  | .nil _ => .refl _
  | .cons first rest => first.identifiers.append rest.identifiers
  | .skip _ _ _ rest => rest.identifiers.trans (List.sublist_append_right ..).subperm

end

theorem Program.Rewrites.distinctIdentities {p p' : Program} (h : p.Rewrites r p')
    (hids : p.DistinctIdentities) : p'.DistinctIdentities := by
  obtain ⟨os, hperm, hsub⟩ := Decl.AllRewrites.identifiers h
  have hnodup : (os.map Identifier.id).Nodup := (hsub.map _).nodup hids
  exact (hperm.map Identifier.id).nodup_iff.1 hnodup

theorem Decl.Rewrites.hoisted? {d d' : Decl} (h : d.Rewrites r d') :
    Resolution.hoisted? d' = Resolution.hoisted? d := by
  cases h <;> rfl

theorem Decl.Rewrites.variable? {d d' : Decl} (h : d.Rewrites r d') : d'.variable? = d.variable? := by
  cases h <;> rfl

namespace Decl.AllRewrites

variable {whole ds ds' : List Decl} {d d' : Decl}

/-- What is not read off announcements is the same, and all is if none is left out. -/
theorem filterMap_eq {α : Type} {f : Decl → Option α} (hf : ∀ d d', d.Rewrites r d' → f d' = f d)
    (hforward : r = .omission → ∀ line header, f (.forward line header) = none)
    (h : AllRewrites r whole ds ds') : ds'.filterMap f = ds.filterMap f := by
  induction ds generalizing ds' with
  | nil => cases h; rfl
  | cons d ds ih =>
    cases h with
    | cons first rest => simp [List.filterMap_cons, hf _ _ first, ih rest]
    | skip way line defined rest => simp [hforward way, ih rest]

/-- A declaration of the second list has its partner in the first. -/
theorem exists_mem (h : AllRewrites r whole ds ds') (hd' : d' ∈ ds') : ∃ d ∈ ds, d.Rewrites r d' := by
  induction ds generalizing ds' with
  | nil => cases h; cases hd'
  | cons e ds ih =>
    cases h with
    | cons first rest =>
      rcases List.mem_cons.1 hd' with rfl | hd'
      · exact ⟨e, List.mem_cons_self, first⟩
      · obtain ⟨d, hd, hrewrites⟩ := ih rest hd'
        exact ⟨d, List.mem_cons_of_mem _ hd, hrewrites⟩
    | skip _ line defined rest =>
      obtain ⟨d, hd, hrewrites⟩ := ih rest hd'
      exact ⟨d, List.mem_cons_of_mem _ hd, hrewrites⟩

/-- So has a declaration of the first list, if it is not left out. -/
theorem exists_mem_or_omitted (h : AllRewrites r whole ds ds') (hd : d ∈ ds) :
    (∃ d' ∈ ds', d.Rewrites r d') ∨
      r = .omission ∧ ∃ line header, d = .forward line header ∧ header.DefinedIn whole := by
  induction ds generalizing ds' with
  | nil => cases hd
  | cons e ds ih =>
    cases h with
    | cons first rest =>
      rcases List.mem_cons.1 hd with rfl | hd
      · exact .inl ⟨_, List.mem_cons_self, first⟩
      · rcases ih rest hd with ⟨d', hd', hrewrites⟩ | homitted
        · exact .inl ⟨d', List.mem_cons_of_mem _ hd', hrewrites⟩
        · exact .inr homitted
    | skip way line defined rest =>
      rcases List.mem_cons.1 hd with rfl | hd
      · exact .inr ⟨way, line, _, rfl, defined⟩
      · exact ih rest hd

/-- Lists that are rewritten declare functions of the same names. -/
theorem mem_hoisted_iff (h : AllRewrites r ds ds ds') (name : String) :
    name ∈ (ds'.filterMap Resolution.hoisted?).map Identifier.name ↔
      name ∈ (ds.filterMap Resolution.hoisted?).map Identifier.name := by
  simp only [List.mem_map, List.mem_filterMap]
  constructor
  · rintro ⟨i, ⟨d', hd', hi⟩, rfl⟩
    obtain ⟨d, hd, hrewrites⟩ := h.exists_mem hd'
    exact ⟨i, ⟨d, hd, hrewrites.hoisted?.symm.trans hi⟩, rfl⟩
  · rintro ⟨i, ⟨d, hd, hi⟩, rfl⟩
    rcases h.exists_mem_or_omitted hd with ⟨d', hd', hrewrites⟩ |
      ⟨-, line, header, rfl, line', other, body, hmem, hname⟩
    · exact ⟨i, ⟨d', hd', hrewrites.hoisted?.trans hi⟩, rfl⟩
    · -- The function with the body is not left out.
      obtain rfl := Option.some.inj hi
      rcases h.exists_mem_or_omitted hmem with ⟨d', hd', hrewrites⟩ | ⟨-, line, header, heq, -⟩
      · exact ⟨other.identifier, ⟨d', hd', hrewrites.hoisted?⟩, hname⟩
      · cases heq

end Decl.AllRewrites

/-! ## Scopes and places -/

/-- The second scope is the first, rewritten. The scope of a loop becomes that of a block, with the loop itself in
it. -/
inductive Scope.Rewrites (r : Rewriting) : Scope → Scope → Prop
  | global {ds ds' : List Decl} (inside : Decl.AllRewrites r ds ds ds') : Rewrites r (.global ds) (.global ds')
  | block {body body' : List Decl} (inside : Decl.AllRewrites r body body body') :
    Rewrites r (.block body) (.block body')
  | function (header : FunctionHeader) {body body' : List Decl} (inside : Decl.AllRewrites r body body body') :
    Rewrites r (.function header body) (.function header body')
  | loop {first first' : Decl} (start : first.Rewrites r first') : Rewrites r (.loop first) (.loop first')
  | unrolled {first first' : Decl} (start : first.Rewrites r first') (s : Stmt) :
    Rewrites r (.loop first) (.block [first', .statement s])

namespace Scope.Rewrites

variable {s s' : Scope}

theorem parameters (h : s.Rewrites r s') : s'.parameters = s.parameters := by
  cases h <;> rfl

/-- The declarations are rewritten, and statements may follow them. -/
theorem declarations (h : s.Rewrites r s') :
    ∃ (ds' : List Decl) (rest : List Stmt), Decl.AllRewrites r s.declarations s.declarations ds' ∧
      s'.declarations = ds' ++ rest.map Decl.statement := by
  cases h with
  | global inside | block inside | function header inside => exact ⟨_, [], inside, (List.append_nil _).symm⟩
  | loop start => exact ⟨_, [], .cons start (.nil _), rfl⟩
  | unrolled start s => exact ⟨_, [s], .cons start (.nil _), rfl⟩

/-- Scopes declare early names alike. -/
theorem mem_early_iff (h : s.Rewrites r s') (name : String) :
    name ∈ s'.early.map Identifier.name ↔ name ∈ s.early.map Identifier.name := by
  obtain ⟨ds', rest, hinside, hds'⟩ := h.declarations
  have hrest : (rest.map Decl.statement).filterMap Resolution.hoisted? = [] := by
    simp [List.filterMap_eq_nil_iff, Resolution.hoisted?]
  simp [Scope.early, h.parameters, hds', hrest, hinside.mem_hoisted_iff]

end Scope.Rewrites

/-- The place is in the rewritten scope, behind the same variables. -/
structure Place.Rewrites (r : Rewriting) (p p' : Place) : Prop where
  scope : p.scope.Rewrites r p'.scope
  bound : (p'.scope.declarations.take p'.position).filterMap Decl.variable? =
    (p.scope.declarations.take p.position).filterMap Decl.variable?

def Place.Idle (p : Place) : Prop :=
  ∃ body step, p.scope = .block [.statement body, .statement step]

/-- The places around rewritten code. Among them are places in blocks that were not there before. -/
inductive Place.AllRewrites (r : Rewriting) : List Place → List Place → Prop
  | nil : AllRewrites r [] []
  | cons {p p' : Place} {places places' : List Place} (here : p.Rewrites r p')
    (outer : AllRewrites r places places') : AllRewrites r (p :: places) (p' :: places')
  | idle {q : Place} {places places' : List Place} (here : q.Idle) (outer : AllRewrites r places places') :
    AllRewrites r places (q :: places')

theorem Place.Idle.not_sees {p : Place} (h : p.Idle) (name : String) : ¬ p.Sees name := by
  obtain ⟨scope, position⟩ := p
  obtain ⟨body, step, rfl⟩ := h
  have hvariables : ([.statement body, .statement step].take position).filterMap Decl.variable? = [] := by
    refine List.filterMap_eq_nil_iff.2 fun d hd => ?_
    rcases List.mem_pair.1 (List.mem_of_mem_take hd) with rfl | rfl <;> rfl
  have hvisible : Place.visible ⟨.block [.statement body, .statement step], position⟩ = [] := by
    rw [visible, Scope.early_block]
    exact hvariables
  rw [Sees, hvisible]
  exact List.not_mem_nil

namespace Place.Rewrites

variable {p p' : Place} {s s' : Scope} {i j : Nat}

theorem initial (h : s.Rewrites r s') : Rewrites r ⟨s, 0⟩ ⟨s', 0⟩ := ⟨h, rfl⟩

theorem sees (h : p.Rewrites r p') (name : String) : p'.Sees name ↔ p.Sees name := by
  simp [Sees, visible, h.bound, h.scope.mem_early_iff]

/-- Behind a declaration, and in the other scope behind its partner. -/
theorem succ (h : Rewrites r ⟨s, i⟩ ⟨s', j⟩) {d d' : Decl} (hd : s.declarations[i]? = some d)
    (hd' : s'.declarations[j]? = some d') (hrewrites : d.Rewrites r d') :
    Rewrites r ⟨s, i + 1⟩ ⟨s', j + 1⟩ := by
  refine ⟨h.scope, ?_⟩
  have hbefore := h.bound
  dsimp only at hbefore ⊢
  simp only [List.take_add_one, hd, hd', List.filterMap_append, hbefore]
  simp only [Option.toList_some, List.filterMap_cons, hrewrites.variable?]

/-- Behind a declaration that is left out. -/
theorem skip (h : Rewrites r ⟨s, i⟩ ⟨s', j⟩) {line : Nat} {header : FunctionHeader}
    (hd : s.declarations[i]? = some (.forward line header)) : Rewrites r ⟨s, i + 1⟩ ⟨s', j⟩ := by
  refine ⟨h.scope, ?_⟩
  have hbefore := h.bound
  dsimp only at hbefore ⊢
  simp only [List.take_add_one, hd, List.filterMap_append, hbefore]
  exact (List.append_nil _).symm

end Place.Rewrites

namespace Place.AllRewrites

variable {places places' : List Place} {name : String} {distance : Nat} {p p' : Place}

/-- The nearest place that sees a name has its partner among the other places. -/
theorem nearest (h : AllRewrites r places places') (hnearest : Nearest places name distance p) :
    ∃ distance' p', Nearest places' name distance' p' ∧ p.Rewrites r p' := by
  induction h generalizing distance with
  | nil => cases hnearest.at_distance
  | cons here _ ih =>
    rcases hnearest.cases with ⟨-, rfl⟩ | ⟨d, -, hnot, hrest⟩
    · exact ⟨0, _, .zero ((here.sees name).2 hnearest.sees), here⟩
    · obtain ⟨d', p', hnearest', hrewrites⟩ := ih hrest
      exact ⟨d' + 1, p', hnearest'.succ (mt (here.sees name).1 hnot), hrewrites⟩
  | idle here _ ih =>
    obtain ⟨d', p', hnearest', hrewrites⟩ := ih hnearest
    exact ⟨d' + 1, p', hnearest'.succ (here.not_sees name), hrewrites⟩

theorem exists_nearest (h : AllRewrites r places places') (hnearest : Nearest places' name distance p') :
    ∃ distance p, Nearest places name distance p ∧ p.Rewrites r p' := by
  induction h generalizing distance with
  | nil => cases hnearest.at_distance
  | cons here _ ih =>
    rcases hnearest.cases with ⟨-, rfl⟩ | ⟨d, -, hnot, hrest⟩
    · exact ⟨0, _, .zero ((here.sees name).1 hnearest.sees), here⟩
    · obtain ⟨d', p, hnearest', hrewrites⟩ := ih hrest
      exact ⟨d' + 1, p, hnearest'.succ (mt (here.sees name).2 hnot), hrewrites⟩
  | idle here _ ih =>
    rcases hnearest.cases with ⟨-, rfl⟩ | ⟨d, -, -, hrest⟩
    · exact absurd hnearest.sees (here.not_sees name)
    · exact ih hrest

end Place.AllRewrites

end LexScript
