import LexScript.Proofs.Parse.Identities
import LexScript.Proofs.Scope.Recording

/-!
# Lexical scoping

A name refers to the nearest declaration in sight. Resolution fails exactly if some name that is used
has none, at the first such name, and otherwise gives every identifier the address of its declaration:
`resolution_lexical`.
-/

namespace LexScript

namespace Occurrence

def Undeclared : Occurrence → Prop
  | use identifier _ places => ∀ p ∈ places, ¬ p.Sees identifier.name
  | declaration .. => False

/-- The first identifier that is not declared has the name and the line that the error reports. -/
def FirstUndeclared (occurrences : List Occurrence) (e : Error) : Prop :=
  ∃ before identifier line places after,
    occurrences = before ++ use identifier line places :: after ∧ (∀ o ∈ before, ¬ o.Undeclared) ∧
      (use identifier line places).Undeclared ∧ e = ⟨.variableNotDeclared identifier.name, line⟩

variable {o : Occurrence} {os : List Occurrence} {e : Error} {t u : Resolutions}

theorem undeclared_iff : o.Undeclared ↔ o.address? = none := by
  cases o with
  | use identifier line places => exact Place.address?_eq_none_iff.symm
  | declaration identifier scope => simp [Undeclared, address?]

/-- An identifier that is declared is entered with its address. -/
theorem record_of_declared (h : ¬ o.Undeclared) (t : Resolutions) :
    ∃ a, o.address? = some a ∧ record t o = .ok (t.put o.identifier.id a) := by
  obtain ⟨a, ha⟩ := Option.ne_none_iff_exists'.1 (mt undeclared_iff.2 h)
  refine ⟨a, ha, ?_⟩
  cases o with
  | use identifier line places =>
    rw [address?, Place.address?] at ha
    rw [record, Resolution.name, ha]
    rfl
  | declaration identifier scope =>
    obtain rfl := Option.some.inj ha
    rfl

theorem record_of_undeclared {identifier : Identifier} {line : Nat} {places : List Place}
    (h : (use identifier line places).Undeclared) (t : Resolutions) :
    record t (use identifier line places) = .error ⟨.variableNotDeclared identifier.name, line⟩ := by
  rw [undeclared_iff, address?, Place.address?] at h
  simp [record, Resolution.name, h]

/-- Entering identifiers changes nothing about others, and an identifier that is entered once keeps its
address. -/
theorem recordAll_of_declared (h : ∀ o ∈ os, ¬ o.Undeclared) (t : Resolutions) :
    ∃ u, recordAll os t = .ok u ∧
      (∀ id, id ∉ os.map (·.identifier.id) → u.get? id = t.get? id) ∧
      ((os.map (·.identifier.id)).Nodup → ∀ o ∈ os, u.get? o.identifier.id = o.address?) := by
  induction os generalizing t with
  | nil => exact ⟨t, rfl, fun _ _ => rfl, by simp⟩
  | cons o os ih =>
    rw [List.forall_mem_cons] at h
    obtain ⟨a, ha, hrecord⟩ := record_of_declared h.1 t
    obtain ⟨u, hu, hother, hown⟩ := ih h.2 (t.put o.identifier.id a)
    refine ⟨u, ?_, fun id hid => ?_, fun hnodup => ?_⟩
    · rw [recordAll_cons, hrecord]
      exact hu
    · rw [List.map_cons, List.mem_cons, not_or] at hid
      simp [hother id hid.2, Slots.get?_put, Ne.symm hid.1]
    · rw [List.map_cons, List.nodup_cons] at hnodup
      rw [List.forall_mem_cons]
      refine ⟨?_, hown hnodup.2⟩
      simp [hother _ hnodup.1, Slots.get?_put, ha]

theorem exists_firstUndeclared (h : ∃ o ∈ os, o.Undeclared) : ∃ e, FirstUndeclared os e := by
  induction os with
  | nil => simp at h
  | cons o os ih =>
    by_cases ho : o.Undeclared
    · cases o with
      | use identifier line places => exact ⟨_, [], identifier, line, places, os, rfl, by simp, ho, rfl⟩
      | declaration identifier scope => exact ho.elim
    · rw [List.exists_mem_cons_iff, or_iff_right ho] at h
      obtain ⟨e, before, identifier, line, places, after, hos, hbefore, hfirst, he⟩ := ih h
      refine ⟨e, o :: before, identifier, line, places, after, ?_, ?_, hfirst, he⟩
      · simp [hos]
      · exact List.forall_mem_cons.2 ⟨ho, hbefore⟩

theorem FirstUndeclared.recordAll_eq (h : FirstUndeclared os e) (t : Resolutions) :
    recordAll os t = .error e := by
  rcases h with ⟨before, identifier, line, places, after, rfl, hbefore, hfirst, rfl⟩
  obtain ⟨u, hu, -⟩ := recordAll_of_declared hbefore t
  rw [recordAll_append, hu]
  change recordAll (use identifier line places :: after) u = _
  rw [recordAll_cons, record_of_undeclared hfirst]
  rfl

/-- Entering identifiers fails at the first that is not declared, and not without one. -/
theorem recordAll_eq_error_iff (t : Resolutions) :
    recordAll os t = .error e ↔ FirstUndeclared os e := by
  refine ⟨fun h => ?_, fun h => h.recordAll_eq t⟩
  by_cases hall : ∃ o ∈ os, o.Undeclared
  · obtain ⟨e', he'⟩ := exists_firstUndeclared hall
    rw [he'.recordAll_eq t] at h
    exact Except.error.inj h ▸ he'
  · obtain ⟨u, hu, -⟩ := recordAll_of_declared (fun o ho hund => hall ⟨o, ho, hund⟩) t
    rw [hu] at h
    cases h

theorem not_undeclared_of_recordAll (h : recordAll os t = .ok u) : ∀ o ∈ os, ¬ o.Undeclared := by
  intro o ho hund
  obtain ⟨e, he⟩ := exists_firstUndeclared ⟨o, ho, hund⟩
  rw [he.recordAll_eq t] at h
  cases h

end Occurrence

namespace Resolutions

variable {program : Program} {addresses : Resolutions}

/-- The table of a program has the address of every identifier, and no other. -/
theorem get?_of_ofProgram (hids : program.DistinctIdentities)
    (h : ofProgram program = .ok addresses) :
    (∀ o ∈ program.occurrences, addresses.get? o.identifier.id = o.address? ∧ ¬ o.Undeclared) ∧
      ∀ id, id ∉ program.occurrences.map (·.identifier.id) → addresses.get? id = none := by
  rw [ofProgram_eq] at h
  have hdeclared := Occurrence.not_undeclared_of_recordAll h
  obtain ⟨u, hu, hother, hown⟩ := Occurrence.recordAll_of_declared hdeclared .empty
  obtain rfl := Except.ok.inj (hu.symm.trans h)
  refine ⟨fun o ho => ⟨hown hids.occurrences o ho, hdeclared o ho⟩, fun id hid => ?_⟩
  simp [hother id hid, Slots.get?_empty]

/-- The addresses of an identifier that is used and of one that is declared. -/
theorem get?_use (hids : program.DistinctIdentities) (h : ofProgram program = .ok addresses)
    {identifier : Identifier} {line : Nat} {places : List Place}
    (huse : .use identifier line places ∈ program.occurrences) :
    ∃ distance place, Place.Nearest places identifier.name distance place ∧
      addresses.get? identifier.id = some ⟨distance, place.scope.slot identifier.name⟩ := by
  obtain ⟨haddress, hdeclared⟩ := (get?_of_ofProgram hids h).1 _ huse
  obtain ⟨a, ha⟩ := Option.ne_none_iff_exists'.1 (mt Occurrence.undeclared_iff.2 hdeclared)
  obtain ⟨place, hnearest, hslot⟩ := Place.address?_eq_some_iff.1 ha
  refine ⟨a.distance, place, hnearest, ?_⟩
  rw [← hslot]
  exact haddress.trans ha

theorem get?_declaration (hids : program.DistinctIdentities) (h : ofProgram program = .ok addresses)
    {identifier : Identifier} {scope : Scope}
    (hdeclaration : .declaration identifier scope ∈ program.occurrences) :
    addresses.get? identifier.id = some ⟨0, scope.slot identifier.name⟩ :=
  ((get?_of_ofProgram hids h).1 _ hdeclaration).1

/-- The address of a name that is declared as soon as its scope is entered. -/
theorem get?_early (hids : program.DistinctIdentities) (h : ofProgram program = .ok addresses)
    {scope : Scope} {outer : List Place} (hopening : .opening scope outer ∈ program.parts)
    {i : Identifier} (hi : i ∈ scope.early) :
    addresses.get? i.id = some ⟨0, scope.slot i.name⟩ :=
  get?_declaration hids h (Program.occurrences_of_part hopening (List.mem_map_of_mem hi))

/-- The address of a variable that is declared. -/
theorem get?_binding (hids : program.DistinctIdentities) (h : ofProgram program = .ok addresses)
    {i : Identifier} {scope : Scope} (hbinding : .binding i scope ∈ program.parts) :
    addresses.get? i.id = some ⟨0, scope.slot i.name⟩ :=
  get?_declaration hids h (Program.occurrences_of_part hbinding (List.mem_singleton_self _))

/-- The addresses are those of lexical scoping: the parameters of functions without a body have none, a
name that is used has the address of the nearest declaration in sight, and a declared name takes its
slot in its own scope. -/
structure Lexical (program : Program) (addresses : Resolutions) : Prop where
  exact : ∀ i ∈ program.identifiers, (addresses.get? i.id).isSome ↔ i ∉ program.announced
  other : ∀ id, (addresses.get? id).isSome → ∃ i ∈ program.identifiers, i.id = id
  uses : ∀ i line places, .use i line places ∈ program.occurrences →
    ∃ distance place, Place.Nearest places i.name distance place ∧
      addresses.get? i.id = some ⟨distance, place.scope.slot i.name⟩
  declarations : ∀ i scope, .declaration i scope ∈ program.occurrences →
    i ∈ scope.registered ∧ addresses.get? i.id = some ⟨0, scope.slot i.name⟩

theorem Lexical.ofProgram (hids : program.DistinctIdentities)
    (h : ofProgram program = .ok addresses) : addresses.Lexical program := by
  obtain ⟨hown, hother⟩ := get?_of_ofProgram hids h
  have hfilled : ∀ id, (addresses.get? id).isSome ↔
      id ∈ program.occurrences.map (·.identifier.id) := by
    intro id
    constructor
    · intro hsome
      by_contra hid
      rw [hother id hid] at hsome
      cases hsome
    · intro hid
      obtain ⟨o, ho, rfl⟩ := List.mem_map.1 hid
      obtain ⟨haddress, hdeclared⟩ := hown o ho
      simpa [haddress, Option.isSome_iff_ne_none] using mt Occurrence.undeclared_iff.2 hdeclared
  have hperm := program.occurrences_perm
  have hnodup := (hperm.map Identifier.id).nodup_iff.2 hids
  rw [List.map_append, List.map_map, List.nodup_append] at hnodup
  refine ⟨fun i hi => ?_, fun id hid => ?_, fun i line places huse => get?_use hids h huse,
    fun i scope hi => ⟨Program.mem_registered hi, get?_declaration hids h hi⟩⟩
  · rw [hfilled]
    constructor
    · intro hid hannounced
      exact hnodup.2.2 _ hid _ (List.mem_map_of_mem hannounced) rfl
    · intro hannounced
      rcases List.mem_append.1 (hperm.mem_iff.2 hi) with hi | hi
      · obtain ⟨o, ho, rfl⟩ := List.mem_map.1 hi
        exact List.mem_map_of_mem ho
      · exact absurd hi hannounced
  · obtain ⟨o, ho, rfl⟩ := List.mem_map.1 ((hfilled id).1 hid)
    exact ⟨o.identifier, hperm.subset (List.mem_append_left _ (List.mem_map_of_mem ho)), rfl⟩

/-- Resolution is lexical scoping. It fails exactly if some name that is used has no declaration in
sight, with the first such name in the order of resolution and the line of its statement, and otherwise
the addresses are those of lexical scoping. Every identifier is visited once, and the names of a scope
have distinct slots. -/
theorem resolution_lexical {tokens : List Token} {program : Program}
    (hprogram : Program.ofTokens tokens = .ok program) :
    ((∃ e, Resolutions.ofProgram program = .error e) ↔ ∃ o ∈ program.occurrences, o.Undeclared) ∧
    (∀ e, Resolutions.ofProgram program = .error e ↔
      Occurrence.FirstUndeclared program.occurrences e) ∧
    (∀ addresses, Resolutions.ofProgram program = .ok addresses → addresses.Lexical program) ∧
    (program.occurrences.map Occurrence.identifier ++ program.announced).Perm program.identifiers ∧
    ∀ (scope : Scope) (i j : Identifier), i ∈ scope.registered → j ∈ scope.registered →
      scope.slot i.name = scope.slot j.name → i.name = j.name := by
  have herror : ∀ e, Resolutions.ofProgram program = .error e ↔
      Occurrence.FirstUndeclared program.occurrences e := by
    intro e
    rw [ofProgram_eq]
    exact Occurrence.recordAll_eq_error_iff .empty
  refine ⟨?_, herror, ?_, program.occurrences_perm, ?_⟩
  · constructor
    · rintro ⟨e, he⟩
      obtain ⟨before, identifier, line, places, after, hos, -, hfirst, -⟩ := (herror e).1 he
      exact ⟨_, by simp [hos], hfirst⟩
    · intro hundeclared
      obtain ⟨e, he⟩ := Occurrence.exists_firstUndeclared hundeclared
      exact ⟨e, (herror e).2 he⟩
  · exact fun addresses h => .ofProgram (.ofTokens hprogram) h
  · exact fun scope i j hi hj => ScopeNames.eq_of_rank_eq (List.mem_map_of_mem hi) (List.mem_map_of_mem hj)

end Resolutions

/-- The tokens of a program with a function that prints a variable of the scope around it. -/
def Token.closureSample : List Token :=
  [⟨.letWord, "let", 1⟩, ⟨.identifier, "x", 1⟩, ⟨.colon, ":", 1⟩, ⟨.identifier, "bool", 1⟩,
    ⟨.assignment, "=", 1⟩, ⟨.trueWord, "true", 1⟩, ⟨.semicolon, ";", 1⟩,
    ⟨.fnWord, "fn", 2⟩, ⟨.identifier, "f", 2⟩, ⟨.openParen, "(", 2⟩, ⟨.closeParen, ")", 2⟩,
    ⟨.openCurly, "\x7b", 2⟩, ⟨.printWord, "print", 2⟩, ⟨.openParen, "(", 2⟩, ⟨.identifier, "x", 2⟩,
    ⟨.closeParen, ")", 2⟩, ⟨.semicolon, ";", 2⟩, ⟨.closeCurly, "\x7d", 2⟩,
    ⟨.identifier, "f", 3⟩, ⟨.openParen, "(", 3⟩, ⟨.closeParen, ")", 3⟩, ⟨.semicolon, ";", 3⟩]

def Program.closureSample : Program where
  declarations :=
    [.binding 1 ⟨"x", 0⟩ .boolean (.literal (.boolean true)),
      .function 2 ⟨⟨"f", 1⟩, [], .void⟩ [.statement (.print 2 (.name ⟨"x", 2⟩))],
      .statement (.expression 3 (.call (.name ⟨"f", 3⟩) []))]
  identifierCount := 4

def Resolutions.closureSample : Resolutions :=
  ⟨#[some ⟨0, 1⟩, some ⟨0, 0⟩, some ⟨1, 1⟩, some ⟨0, 0⟩]⟩

theorem Program.ofTokens_closureSample :
    Program.ofTokens Token.closureSample = .ok Program.closureSample :=
  rfl

theorem Resolutions.ofProgram_closureSample :
    Resolutions.ofProgram Program.closureSample = .ok Resolutions.closureSample :=
  rfl

theorem Resolutions.lexical_closureSample :
    Program.ofTokens Token.closureSample = .ok Program.closureSample ∧
      Resolutions.closureSample.Lexical Program.closureSample :=
  ⟨Program.ofTokens_closureSample,
    (resolution_lexical Program.ofTokens_closureSample).2.2.1 _ ofProgram_closureSample⟩

end LexScript
