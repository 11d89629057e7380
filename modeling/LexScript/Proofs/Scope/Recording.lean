import LexScript.Proofs.Scope.Part

/-!
# Resolution as recording

Resolution enters the addresses of the identifiers into a table, one after the other in the order of
the parts, and ends at the first name that no place sees: `ofProgram_eq`. What the table holds in the
end, and which error ends a resolution that fails, are facts about lists.
-/

namespace LexScript.Occurrence

def record (addresses : Resolutions) : Occurrence → Except Error Resolutions
  | use identifier line places =>
    Resolution.name (places.map Place.names) line identifier addresses
  | declaration identifier scope =>
    .ok (addresses.put identifier.id ⟨0, scope.slot identifier.name⟩)

def recordAll (occurrences : List Occurrence) (addresses : Resolutions) : Except Error Resolutions :=
  occurrences.foldlM record addresses

theorem recordAll_cons (o : Occurrence) (os : List Occurrence) (addresses : Resolutions) :
    recordAll (o :: os) addresses = record addresses o >>= recordAll os := rfl

theorem recordAll_append (os ps : List Occurrence) (addresses : Resolutions) :
    recordAll (os ++ ps) addresses = recordAll os addresses >>= recordAll ps :=
  List.foldlM_append

@[simp] theorem recordAll_singleton (o : Occurrence) (addresses : Resolutions) :
    recordAll [o] addresses = record addresses o := by
  rw [recordAll_cons]
  cases record addresses o <;> rfl

def recordParts (parts : List Part) : Resolutions → Except Error Resolutions :=
  recordAll (parts.flatMap Part.occurrences)

@[simp] theorem recordParts_nil (addresses : Resolutions) : recordParts [] addresses = .ok addresses := rfl

theorem recordParts_append (ps qs : List Part) (addresses : Resolutions) :
    recordParts (ps ++ qs) addresses = recordParts ps addresses >>= recordParts qs := by
  simp [recordParts, recordAll_append]

theorem recordParts_cons (p : Part) (ps : List Part) (addresses : Resolutions) :
    recordParts (p :: ps) addresses = recordAll p.occurrences addresses >>= recordParts ps := by
  simp [recordParts, recordAll_append]

@[simp] theorem recordParts_singleton (p : Part) (addresses : Resolutions) :
    recordParts [p] addresses = recordAll p.occurrences addresses := by
  simp [recordParts]

end LexScript.Occurrence

namespace LexScript.Resolution

open Occurrence

mutual

theorem expr_eq (places : List Place) (line : Nat) : ∀ (e : Expr) (addresses : Resolutions),
    expr (places.map Place.names) line e addresses =
      recordAll (e.occurrences places line) addresses
  | .literal _, _ => rfl
  | .name identifier, addresses => by
    simp [expr, Expr.occurrences, recordAll_singleton, record]
  | .assign target value, addresses => by
    simp only [expr, Expr.occurrences, recordAll_append, expr_eq places line value]
    congr 1
    funext t
    simp [recordAll_singleton, record]
  | .unary _ operand, addresses => by
    simp [expr, Expr.occurrences, expr_eq places line operand]
  | .binary _ left right, addresses => by
    simp only [expr, Expr.occurrences, recordAll_append, expr_eq places line left]
    congr 1
    funext t
    exact expr_eq places line right t
  | .call callee arguments, addresses => by
    simp only [expr, Expr.occurrences, recordAll_append, expr_eq places line callee]
    congr 1
    funext t
    exact exprs_eq places line arguments t

theorem exprs_eq (places : List Place) (line : Nat) : ∀ (es : List Expr) (addresses : Resolutions),
    exprs (places.map Place.names) line es addresses =
      recordAll (Expr.occurrencesOf places line es) addresses
  | [], _ => rfl
  | e :: es, addresses => by
    simp only [exprs, Expr.occurrencesOf, recordAll_append, expr_eq places line e]
    congr 1
    funext t
    exact exprs_eq places line es t

end

/-- Declaring the next names of a scope enters their slots. -/
theorem declareAll_eq (scope : Scope) (before identifiers : List Identifier)
    (h : before ++ identifiers <+: scope.registered) (addresses : Resolutions) :
    ∃ t, recordAll (identifiers.map (.declaration · scope)) addresses = .ok t ∧
      Progress.declareAll ⟨.ofList (before.map Identifier.name), addresses⟩ identifiers =
        ⟨.ofList ((before ++ identifiers).map Identifier.name), t⟩ := by
  induction identifiers generalizing before addresses with
  | nil => exact ⟨addresses, rfl, by simp [Progress.declareAll]⟩
  | cons i identifiers ih =>
    have hnames : ScopeNames.declare (.ofList (before.map Identifier.name)) i.name =
        .ofList ((before ++ [i]).map Identifier.name) := by
      simp [ScopeNames.ofList_append]
    have hslot : ScopeNames.slot (.ofList ((before ++ [i]).map Identifier.name)) i.name =
        scope.slot i.name := by
      rcases h with ⟨after, hafter⟩
      have hsplit : (before ++ [i]).map Identifier.name ++ (identifiers ++ after).map Identifier.name =
          scope.registered.map Identifier.name := by
        rw [← hafter]
        simp
      rw [ScopeNames.slot_ofList (by simp), Scope.slot, ← hsplit, ScopeNames.rank_append (by simp)]
    rw [List.append_cons] at h
    obtain ⟨t, hrec, hall⟩ := ih _ h (addresses.put i.id ⟨0, scope.slot i.name⟩)
    refine ⟨t, hrec, ?_⟩
    rw [Progress.declareAll, List.foldl_cons, Progress.declare]
    simp only [hnames, hslot]
    rw [← Progress.declareAll, hall, ← List.append_cons]

/-- Entering a scope declares its early names. -/
theorem declareAll_early (scope : Scope) (addresses : Resolutions) :
    ∃ t, recordAll (scope.early.map (.declaration · scope)) addresses = .ok t ∧
      Progress.declareAll ⟨[], addresses⟩ scope.early = ⟨(Place.mk scope 0).names, t⟩ := by
  obtain ⟨t, hrec, hall⟩ :=
    declareAll_eq scope [] scope.early (List.prefix_append ..) addresses
  refine ⟨t, hrec, ?_⟩
  simp only [Place.names, Place.visible, List.take_zero, List.filterMap_nil, List.append_nil]
  exact hall

theorem visible_succ {scope : Scope} {position : Nat} {d : Decl}
    (h : scope.declarations[position]? = some d) :
    (Place.mk scope (position + 1)).visible =
      (Place.mk scope position).visible ++ d.variable?.toList := by
  simp only [Place.visible, List.take_add_one, h, Option.toList_some, List.filterMap_append,
    List.append_assoc, List.filterMap_cons, List.filterMap_nil]
  cases d.variable? <;> rfl

/-- A declaration without a variable leaves the names of its scope alone. -/
theorem names_succ {scope : Scope} {position : Nat} {d : Decl}
    (h : scope.declarations[position]? = some d) (hd : d.variable? = none) :
    (Place.mk scope (position + 1)).names = (Place.mk scope position).names := by
  simp [Place.names, visible_succ h, hd]

theorem getElem?_of_drop {ds : List Decl} {position : Nat} {d : Decl} {rest : List Decl}
    (h : ds.drop position = d :: rest) : ds[position]? = some d := by
  rw [← Nat.add_zero position, ← List.getElem?_drop, h]
  rfl

theorem drop_succ {ds : List Decl} {position : Nat} {d : Decl} {rest : List Decl}
    (h : ds.drop position = d :: rest) : ds.drop (position + 1) = rest := by
  simp [← List.drop_drop, h]

mutual

theorem stmt_eq (places : List Place) : ∀ (s : Stmt) (addresses : Resolutions),
    stmt (places.map Place.names) s addresses = recordParts (s.parts places) addresses
  | .expression line value, addresses | .print line value, addresses => by
    simp [stmt, Stmt.parts, recordParts_singleton, expr_eq, Part.occurrences]
  | .block _ body, addresses => by
    obtain ⟨t, hrec, hall⟩ := declareAll_early (.block body) addresses
    simp only [stmt, Stmt.parts, recordParts_cons, Part.occurrences, hrec]
    rw [Scope.early_block] at hall
    rw [hoist, hall, decls_eq (.block body) 0 places body rfl]
    simp only [bind, Except.bind]
    cases recordParts (Decl.partsFrom (.block body) 0 places body) t <;> rfl
  | .ifThen line condition thenBranch, addresses => by
    simp only [stmt, Stmt.parts, recordParts_cons, Part.occurrences, expr_eq]
    congr 1
    funext t
    exact stmt_eq places thenBranch t
  | .ifElse line condition thenBranch elseBranch, addresses => by
    simp only [stmt, Stmt.parts, recordParts_cons, Part.occurrences, expr_eq]
    congr 1
    funext t
    rw [recordParts_append, stmt_eq places thenBranch t]
    congr 1
    funext u
    exact stmt_eq places elseBranch u
  | .whileLoop line condition body, addresses => by
    simp only [stmt, Stmt.parts, recordParts_cons, Part.occurrences, expr_eq]
    congr 1
    funext t
    exact stmt_eq places body t
  | .forLoop line first condition stepLine step body, addresses => by
    obtain ⟨t, hrec, hall⟩ := declareAll_early (.loop first) addresses
    rw [Scope.early_loop] at hall
    simp only [stmt, Stmt.parts, recordParts_cons, Part.occurrences, hrec, hoist, hall,
      decl_eq (.loop first) 0 places first rfl]
    simp only [bind, Except.bind, recordParts_append]
    cases recordParts (first.parts ⟨.loop first, 0⟩ places) t with
    | error e => rfl
    | ok u =>
      simp only [Except.map, ← List.map_cons (f := Place.names), expr_eq, recordParts_cons,
        Part.occurrences, bind, Except.bind]
      cases recordAll (condition.occurrences (⟨.loop first, 1⟩ :: places) line) u with
      | error e => rfl
      | ok v =>
        simp only
        cases recordAll (step.occurrences (⟨.loop first, 1⟩ :: places) stepLine) v with
        | error e => rfl
        | ok w => exact stmt_eq (⟨.loop first, 1⟩ :: places) body w
  | .ret _ none, _ => rfl
  | .ret line (some value), addresses => by
    simp [stmt, Stmt.parts, recordParts_singleton, expr_eq, Part.occurrences]

theorem decl_eq (scope : Scope) (position : Nat) (outer : List Place) : ∀ (d : Decl),
    scope.declarations[position]? = some d → ∀ addresses : Resolutions,
    decl (outer.map Place.names) d ⟨(Place.mk scope position).names, addresses⟩ =
      (recordParts (d.parts ⟨scope, position⟩ outer) addresses).map
        (⟨(Place.mk scope (position + 1)).names, ·⟩)
  | .binding line identifier type value, h, addresses => by
    simp only [decl, Decl.parts, recordParts_cons, Part.occurrences, ← List.map_cons (f := Place.names),
      expr_eq]
    simp only [bind, Except.bind]
    cases recordAll (value.occurrences (⟨scope, position⟩ :: outer) line) addresses with
    | error e => rfl
    | ok t =>
      obtain ⟨u, hrec, hall⟩ := declareAll_eq scope (Place.mk scope position).visible [identifier]
        (by simpa [visible_succ h, Decl.variable?] using (Place.mk scope (position + 1)).visible_initial) t
      have hnames : (Place.mk scope (position + 1)).names =
          .ofList (((Place.mk scope position).visible ++ [identifier]).map Identifier.name) := by
        rw [Place.names, visible_succ h]
        rfl
      simp only [recordParts_singleton, Part.occurrences, List.map_cons, List.map_nil] at hrec ⊢
      rw [hrec, hnames]
      exact congrArg Except.ok hall
  | .function line header body, h, addresses => by
    obtain ⟨t, hrec, hall⟩ := declareAll_early (.function header body) addresses
    rw [Scope.early_function, Progress.declareAll, List.foldl_append,
      ← Progress.declareAll, ← Progress.declareAll] at hall
    simp only [decl, Decl.parts, recordParts_cons, Part.occurrences, hrec, names_succ h rfl, hoist, hall,
      ← List.map_cons (f := Place.names), decls_eq (.function header body) 0 _ body rfl]
    simp only [bind, Except.bind]
    cases recordParts (Decl.partsFrom (.function header body) 0 (⟨scope, position⟩ :: outer) body) t <;>
      rfl
  | .forward .., h, addresses => by
    simp only [decl, Decl.parts, recordParts_nil, names_succ h rfl]
    rfl
  | .statement s, h, addresses => by
    have hstmt := stmt_eq (⟨scope, position⟩ :: outer) s
    rw [List.map_cons] at hstmt
    simp only [decl, Decl.parts, names_succ h rfl, hstmt]
    cases recordParts (s.parts (⟨scope, position⟩ :: outer)) addresses <;> rfl

theorem decls_eq (scope : Scope) (position : Nat) (outer : List Place) : ∀ (ds : List Decl),
    scope.declarations.drop position = ds → ∀ addresses : Resolutions,
    decls (outer.map Place.names) ds ⟨(Place.mk scope position).names, addresses⟩ =
      (recordParts (Decl.partsFrom scope position outer ds) addresses).map
        (⟨(Place.mk scope (position + ds.length)).names, ·⟩)
  | [], _, _ => rfl
  | d :: ds, h, addresses => by
    simp only [decls, Decl.partsFrom, recordParts_append,
      decl_eq scope position outer d (getElem?_of_drop h)]
    cases recordParts (d.parts ⟨scope, position⟩ outer) addresses with
    | error e => rfl
    | ok t =>
      have hlength : position + 1 + ds.length = position + (d :: ds).length := by
        simp
        omega
      have hrest := decls_eq scope (position + 1) outer ds (drop_succ h) t
      rw [hlength] at hrest
      exact hrest

end

end LexScript.Resolution

namespace LexScript.Resolutions

/-- Resolution of a program enters the addresses of its identifiers. -/
theorem ofProgram_eq (program : Program) :
    ofProgram program = Occurrence.recordAll program.occurrences .empty := by
  obtain ⟨t, hrec, hall⟩ := Resolution.declareAll_early program.scope .empty
  rw [Program.scope, Scope.early_global] at hall
  have hdecls := Resolution.decls_eq program.scope 0 [] program.declarations rfl t
  rw [Program.occurrences, Program.parts, ← Occurrence.recordParts, Occurrence.recordParts_cons,
    Part.occurrences, hrec, ofProgram]
  simp only [Resolution.hoist, hall]
  rw [List.map_nil] at hdecls
  simp only [Program.scope] at hdecls ⊢
  rw [hdecls]
  simp only [bind, Except.bind]
  cases Occurrence.recordParts (Decl.partsFrom (.global program.declarations) 0 []
    program.declarations) t <;> rfl

end LexScript.Resolutions
