import LexScript.Proofs.Scope.Lexical
import LexScript.Proofs.Scope.Rewriting
import LexScript.Proofs.Scope.SwappedParts

/-!
# The parts of a rewritten program

The parts of a program and of the rewritten one go together, in another order and at places that see the same names.
Beside them the rewritten program only opens scopes that declare nothing. So all names are declared in one if they
are in the other: `Program.Rewrites.resolves_iff`.
-/

namespace LexScript

variable {r : Rewriting}

inductive Part.Rewrites (r : Rewriting) : Part → Part → Prop
  | opening {scope scope' : Scope} {outer outer' : List Place} (here : scope.Rewrites r scope')
    (around : Place.AllRewrites r outer outer') : Rewrites r (.opening scope outer) (.opening scope' outer')
  | expression (role : Role) (line : Nat) (value : Expr) {places places' : List Place}
    (around : Place.AllRewrites r places places') :
    Rewrites r (.expression role line value places) (.expression role line value places')
  | bareReturn {places places' : List Place} (around : Place.AllRewrites r places places') :
    Rewrites r (.bareReturn places) (.bareReturn places')
  | binding (identifier : Identifier) {scope scope' : Scope} (here : scope.Rewrites r scope') :
    Rewrites r (.binding identifier scope) (.binding identifier scope')

/-- The part opens a scope that was not there before. -/
def Part.Idle (p : Part) : Prop :=
  ∃ body step outer, p = .opening (.block [.statement body, .statement step]) outer

/-- Each part of one list has its partner in the other, but for scopes that were not there before. -/
structure Part.Matched (r : Rewriting) (ps qs : List Part) : Prop where
  forth : ∀ p ∈ ps, ∃ q ∈ qs, p.Rewrites r q
  back : ∀ q ∈ qs, q.Idle ∨ ∃ p ∈ ps, p.Rewrites r q

namespace Part.Matched

variable {ps ps' qs qs' : List Part} {p q : Part}

theorem nil : Matched r [] [] := ⟨List.forall_mem_nil _, List.forall_mem_nil _⟩

theorem append (h : Matched r ps qs) (h' : Matched r ps' qs') : Matched r (ps ++ ps') (qs ++ qs') where
  forth := by
    refine List.forall_mem_append.2 ⟨fun p hp => ?_, fun p hp => ?_⟩
    · obtain ⟨q, hq, hrewrites⟩ := h.forth p hp
      exact ⟨q, List.mem_append_left _ hq, hrewrites⟩
    · obtain ⟨q, hq, hrewrites⟩ := h'.forth p hp
      exact ⟨q, List.mem_append_right _ hq, hrewrites⟩
  back := by
    refine List.forall_mem_append.2 ⟨fun q hq => ?_, fun q hq => ?_⟩
    · refine (h.back q hq).imp id ?_
      rintro ⟨p, hp, hrewrites⟩
      exact ⟨p, List.mem_append_left _ hp, hrewrites⟩
    · refine (h'.back q hq).imp id ?_
      rintro ⟨p, hp, hrewrites⟩
      exact ⟨p, List.mem_append_right _ hp, hrewrites⟩

theorem single (h : p.Rewrites r q) : Matched r [p] [q] where
  forth := List.forall_mem_singleton.2 ⟨q, List.mem_singleton_self q, h⟩
  back := List.forall_mem_singleton.2 (.inr ⟨p, List.mem_singleton_self p, h⟩)

theorem cons (h : p.Rewrites r q) (hrest : Matched r ps qs) : Matched r (p :: ps) (q :: qs) :=
  (single h).append hrest

theorem idle (h : q.Idle) : Matched r [] [q] := ⟨List.forall_mem_nil _, List.forall_mem_singleton.2 (.inl h)⟩

/-- The order of the parts does not matter. -/
theorem perm (h : Matched r ps qs) (hqs : qs.Perm qs') : Matched r ps qs' where
  forth p hp := by
    obtain ⟨q, hq, hrewrites⟩ := h.forth p hp
    exact ⟨q, hqs.subset hq, hrewrites⟩
  back q hq := h.back q (hqs.symm.subset hq)

end Part.Matched

open LexScript.Part (Matched)

/-- The parts of a `while` loop that was a `for` loop. -/
theorem Stmt.parts_rounds (places : List Place) (line : Nat) (condition : Expr) (stepLine : Nat) (step : Expr)
    (body : Stmt) :
    let scope : Scope := .block [.statement body, .statement (.expression stepLine step)]
    (Stmt.rounds line condition stepLine step body).parts places =
      .expression .condition line condition places :: .opening scope places ::
        (body.parts (⟨scope, 0⟩ :: places) ++
          [.expression .discarded stepLine step (⟨scope, 1⟩ :: places)]) := by
  simp [Stmt.rounds, Stmt.round, Stmt.parts, Decl.partsFrom, Decl.parts]

mutual

theorem Stmt.Rewrites.parts {s s' : Stmt} {places places' : List Place} : s.Rewrites r s' →
    Place.AllRewrites r places places' → Matched r (s.parts places) (s'.parts places')
  | .expression line value, h | .print line value, h => .single (.expression _ line value h)
  | .block _ inside, h =>
    .cons (.opening (.block inside) h) (inside.parts (.initial (.block inside)) rfl rfl h)
  | .ifThen line condition inside, h => .cons (.expression _ line condition h) (inside.parts h)
  | .ifElse line condition first second, h =>
    .cons (.expression _ line condition h) ((first.parts h).append (second.parts h))
  | .whileLoop line condition inside, h => .cons (.expression _ line condition h) (inside.parts h)
  | .forLoop line condition stepLine step start inside, h => by
    have hscope : Scope.Rewrites r _ _ := .loop start
    have hinside := Place.AllRewrites.cons (.succ (.initial hscope) rfl rfl start) h
    refine .cons (.opening hscope h) ((start.parts (.initial hscope) h).append ?_)
    exact .cons (.expression _ line condition hinside)
      (.cons (.expression _ stepLine step hinside) (inside.parts hinside))
  | .unroll _ line condition stepLine step start inside, h => by
    -- The block is the scope of the loop, and the block inside it is idle.
    rename_i first first' body body'
    have hscope : Scope.Rewrites r _ _ := .unrolled start (.rounds line condition stepLine step body')
    have hinside := Place.AllRewrites.cons (.succ (.initial hscope) rfl rfl start) h
    simp only [Stmt.parts, Decl.partsFrom, Decl.parts, List.append_nil, Stmt.parts_rounds]
    refine .cons (.opening hscope h) ((start.parts (.initial hscope) h).append ?_)
    refine .cons (.expression _ line condition hinside) ?_
    have hround (i : Nat) : Place.Idle
        ⟨.block [.statement body', .statement (.expression stepLine step)], i⟩ := ⟨_, _, rfl⟩
    have hbody := inside.parts (.idle (hround 0) hinside)
    have hstep : Matched r _ _ := .single (.expression .discarded stepLine step (.idle (hround 1) hinside))
    exact (Matched.idle ⟨_, _, _, rfl⟩).append ((hstep.append hbody).perm List.perm_append_comm)
  | .ret _ none, h => .single (.bareReturn h)
  | .ret line (some value), h => .single (.expression _ line value h)

theorem Decl.Rewrites.parts {d d' : Decl} {here here' : Place} {outer outer' : List Place} : d.Rewrites r d' →
    here.Rewrites r here' → Place.AllRewrites r outer outer' →
      Matched r (d.parts here outer) (d'.parts here' outer')
  | .binding line identifier type value, hhere, h =>
    .cons (.expression _ line value (.cons hhere h)) (.single (.binding identifier hhere.scope))
  | .function _ header inside, hhere, h =>
    .cons (.opening (.function header inside) (.cons hhere h))
      (inside.parts (.initial (.function header inside)) rfl rfl (.cons hhere h))
  | .forward .., _, _ => .nil
  | .statement inside, hhere, h => inside.parts (.cons hhere h)

theorem Decl.AllRewrites.parts {whole ds ds' : List Decl} {scope scope' : Scope} {i j : Nat}
    {outer outer' : List Place} : Decl.AllRewrites r whole ds ds' → Place.Rewrites r ⟨scope, i⟩ ⟨scope', j⟩ →
    scope.declarations.drop i = ds → scope'.declarations.drop j = ds' → Place.AllRewrites r outer outer' →
      Matched r (Decl.partsFrom scope i outer ds) (Decl.partsFrom scope' j outer' ds')
  | .nil _, _, _, _, _ => .nil
  | .cons first rest, hhere, hds, hds', h => by
    have hnext := hhere.succ (Resolution.getElem?_of_drop hds) (Resolution.getElem?_of_drop hds') first
    exact (first.parts hhere h).append
      (rest.parts hnext (Resolution.drop_succ hds) (Resolution.drop_succ hds') h)
  | .skip _ _ _ rest, hhere, hds, hds', h =>
    rest.parts (hhere.skip (Resolution.getElem?_of_drop hds)) (Resolution.drop_succ hds) hds' h

end

theorem Program.Rewrites.parts {p p' : Program} (h : p.Rewrites r p') : Matched r p.parts p'.parts := by
  have hscope : p.scope.Rewrites r p'.scope := .global h
  exact .cons (.opening hscope .nil) (Decl.AllRewrites.parts h (.initial hscope) rfl rfl .nil)

/-! ## Names are declared as before -/

/-- Addresses are found if every name that is used is in sight. -/
theorem Resolutions.ofProgram_eq_ok_iff (program : Program) :
    (∃ addresses, ofProgram program = .ok addresses) ↔
      ∀ i line places, .use i line places ∈ program.occurrences →
        ∃ distance place, Place.Nearest places i.name distance place := by
  rw [ofProgram_eq]
  constructor
  · rintro ⟨addresses, haddresses⟩ i line places huse
    have hdeclared := Occurrence.not_undeclared_of_recordAll haddresses _ huse
    obtain ⟨a, ha⟩ := Option.ne_none_iff_exists'.1 (mt Occurrence.undeclared_iff.2 hdeclared)
    obtain ⟨place, hnearest, -⟩ := Place.address?_eq_some_iff.1 ha
    exact ⟨a.distance, place, hnearest⟩
  · intro hseen
    have hdeclared : ∀ o ∈ program.occurrences, ¬ o.Undeclared := by
      intro o ho hundeclared
      cases o with
      | use i line places =>
        obtain ⟨distance, place, hnearest⟩ := hseen i line places ho
        exact hundeclared place (List.mem_of_getElem? hnearest.at_distance) hnearest.sees
      | declaration => exact hundeclared
    obtain ⟨addresses, haddresses, -⟩ := Occurrence.recordAll_of_declared hdeclared .empty
    exact ⟨addresses, haddresses⟩

/-- A name is used in an expression of the program. -/
theorem Program.exists_expression {program : Program} {i : Identifier} {line : Nat} {places : List Place}
    (huse : .use i line places ∈ program.occurrences) :
    ∃ role e, .expression role line e places ∈ program.parts ∧ i ∈ e.identifiers := by
  obtain ⟨part, hpart, ho⟩ := List.mem_flatMap.1 huse
  cases part with
  | opening scope outer =>
    obtain ⟨j, -, heq⟩ := List.mem_map.1 ho
    cases heq
  | expression role line' e places' =>
    obtain ⟨j, heq⟩ := e.eq_use_of_mem ho
    obtain ⟨rfl, rfl, rfl⟩ := Occurrence.use.inj heq
    exact ⟨role, e, hpart, Expr.mem_occurrences_iff.1 ho⟩
  | bareReturn => cases ho
  | binding j scope => cases List.mem_singleton.1 ho

theorem Program.use_of_expression {program : Program} {i : Identifier} {role : Role} {line : Nat} {e : Expr}
    {places : List Place} (hpart : .expression role line e places ∈ program.parts) (hi : i ∈ e.identifiers) :
    .use i line places ∈ program.occurrences :=
  Program.occurrences_of_part hpart (Expr.mem_occurrences_iff.2 hi)

/-- All names are declared in the rewritten program if they are in the program, and the other way round. -/
theorem Program.Rewrites.resolves_iff {p p' : Program} (h : p.Rewrites r p') :
    (∃ addresses', Resolutions.ofProgram p' = .ok addresses') ↔
      ∃ addresses, Resolutions.ofProgram p = .ok addresses := by
  simp only [Resolutions.ofProgram_eq_ok_iff]
  constructor
  · intro hseen i line places huse
    obtain ⟨role, e, hpart, hi⟩ := Program.exists_expression huse
    obtain ⟨part', hpart', hrewrites⟩ := h.parts.forth _ hpart
    cases hrewrites with
    | expression _ _ _ around =>
      obtain ⟨d', q, hnearest⟩ := hseen i line _ (Program.use_of_expression hpart' hi)
      obtain ⟨d, q', hfound, -⟩ := around.exists_nearest hnearest
      exact ⟨d, q', hfound⟩
  · intro hseen i line places' huse
    obtain ⟨role, e, hpart', hi⟩ := Program.exists_expression huse
    rcases h.parts.back _ hpart' with ⟨_, _, _, heq⟩ | ⟨part, hpart, hrewrites⟩
    · cases heq
    cases hrewrites with
    | expression _ _ _ around =>
      obtain ⟨d, q, hnearest⟩ := hseen i line _ (Program.use_of_expression hpart hi)
      obtain ⟨d', q', hfound, -⟩ := around.nearest hnearest
      exact ⟨d', q', hfound⟩

end LexScript
