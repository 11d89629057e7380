import LexScript.Proofs.Machine.Rewriting

/-!
# Stores of rewritten programs

A name leads to partners in both runs, however many frames lie between. So it is read, assigned and bound alike, if
the tables of both programs give it the same slot in all scopes: `Store.Rewrites.read`, `Store.Rewrites.assign` and
`Store.Rewrites.bind`.
-/

namespace LexScript

variable {q : Pair} {w x : Links} {f f' g g' : FrameId} {places places' : List Place} {key : String → Nat}
  {table table' : Resolutions} {i : Identifier} {line : Nat} {s t : ScopeStack Value} {σ τ : Store}

/-- The tables of both programs give a name the same slot in all scopes. -/
structure Pair.Keyed (q : Pair) (key : String → Nat) (table table' : Resolutions) : Prop where
  before : ∃ addresses, Resolutions.Keyed key q.before addresses table
  after : ∃ addresses, Resolutions.Keyed key q.after addresses table'

def Identifier.Shared (table table' : Resolutions) (i : Identifier) : Prop :=
  ∃ slot, table.get? i.id = some ⟨0, slot⟩ ∧ table'.get? i.id = some ⟨0, slot⟩

structure Binding.Rewrites (q : Pair) (w : Links) (table table' : Resolutions) (b b' : Binding) : Prop where
  identifier : b'.identifier = b.identifier
  value : b.value.Rewrites q w b'.value
  shared : b.identifier.Shared table table'

/-! ## Addresses -/

theorem Resolutions.Keyed.use {program : Program} {addresses : Resolutions}
    (h : Resolutions.Keyed key program addresses table) (huse : .use i line places ∈ program.occurrences) :
    ∃ distance place, Place.Nearest places i.name distance place ∧
      table.get? i.id = some ⟨distance, key i.name⟩ := by
  obtain ⟨distance, place, hnearest, hget⟩ := Resolutions.get?_use h.identities h.resolved huse
  exact ⟨distance, place, hnearest, h.keyed _ huse _ hget⟩

/-- The nearest places that see a name have frames that are partners. -/
theorem Chain.linked (h : Chain q w f f' places places') (hs : s.Rewrites q w t) {name : String} {d d' : Nat}
    {p p' : Place} (hnearest : Place.Nearest places name d p) (hnearest' : Place.Nearest places' name d' p') :
    ∃ g g', s.ancestor? d f = some g ∧ t.ancestor? d' f' = some g' ∧ w.Linked g g' := by
  induction h generalizing d d' with
  | outermost link here =>
    rcases hnearest.cases with ⟨rfl, rfl⟩ | ⟨_, -, -, hrest⟩
    · rcases hnearest'.cases with ⟨rfl, rfl⟩ | ⟨_, -, -, hrest'⟩
      · exact ⟨_, _, rfl, rfl, link⟩
      · cases hrest'.at_distance
    · cases hrest.at_distance
  | @inner f f' g g' _ _ _ _ link here outer outer' _ ih =>
    rcases hnearest.cases with ⟨rfl, rfl⟩ | ⟨d, rfl, hnot, hrest⟩
    · rcases hnearest'.cases with ⟨rfl, rfl⟩ | ⟨_, -, hnot', -⟩
      · exact ⟨_, _, rfl, rfl, link⟩
      · exact absurd ((here.sees name).2 hnearest.sees) hnot'
    · rcases hnearest'.cases with ⟨-, rfl⟩ | ⟨d', rfl, -, hrest'⟩
      · exact absurd ((here.sees name).1 hnearest'.sees) hnot
      · have hparent : s.parent? f = some g := by simp [hs.outer, outer]
        have hparent' : t.parent? f' = some g' := by simp [hs.outer', outer']
        simpa [ScopeStack.ancestor?, hparent, hparent'] using ih hrest hrest'
  | @idle f f' g' _ _ _ here outer' _ ih =>
    rcases hnearest'.cases with ⟨-, rfl⟩ | ⟨d', rfl, -, hrest'⟩
    · exact absurd hnearest'.sees (here.not_sees name)
    · have hparent' : t.parent? f' = some g' := by simp [hs.outer', outer']
      have hancestor : t.ancestor? (d' + 1) f' = t.ancestor? d' g' := by
        simp [ScopeStack.ancestor?, hparent']
      rw [hancestor]
      exact ih hnearest hrest'

/-- The addresses of a name lead to partners, and to the same slot. -/
theorem Pair.Keyed.locates (hq : q.Keyed key table table') (hs : s.Rewrites q w t)
    (hcode : Beside q w f f' (fun places => .use i line places ∈ q.before.occurrences)
      fun places => .use i line places ∈ q.after.occurrences) :
    ∃ a a' g g', table.get? i.id = some a ∧ table'.get? i.id = some a' ∧ a'.slot = a.slot ∧
      s.ancestor? a.distance f = some g ∧ t.ancestor? a'.distance f' = some g' ∧ w.Linked g g' := by
  obtain ⟨places, places', chain, huse, huse'⟩ := hcode
  obtain ⟨_, hbefore⟩ := hq.before
  obtain ⟨_, hafter⟩ := hq.after
  obtain ⟨d, p, hnearest, hget⟩ := hbefore.use huse
  obtain ⟨d', p', hnearest', hget'⟩ := hafter.use huse'
  obtain ⟨g, g', hg, hg', hlink⟩ := chain.linked hs hnearest hnearest'
  exact ⟨_, _, g, g', hget, hget', rfl, hg, hg', hlink⟩

theorem Pair.Keyed.early (hq : q.Keyed key table table') {scope scope' : Scope} {outer outer' : List Place}
    (hopening : .opening scope outer ∈ q.before.parts) (hopening' : .opening scope' outer' ∈ q.after.parts)
    (hi : i ∈ scope.early) (hi' : i ∈ scope'.early) : i.Shared table table' := by
  obtain ⟨_, hbefore⟩ := hq.before
  obtain ⟨_, hafter⟩ := hq.after
  exact ⟨_, (hbefore.early hopening hi).rekeyed, (hafter.early hopening' hi').rekeyed⟩

theorem Pair.Keyed.bound (hq : q.Keyed key table table') (hi : i.Bound q) : i.Shared table table' := by
  obtain ⟨_, hbefore⟩ := hq.before
  obtain ⟨_, hafter⟩ := hq.after
  obtain ⟨scope, hbinding⟩ := hi.before
  obtain ⟨scope', hbinding'⟩ := hi.after
  exact ⟨_, (hbefore.binding hbinding).rekeyed, (hafter.binding hbinding').rekeyed⟩

/-! ## Values and outcomes -/

/-- Functions are the same if their names and their frames are, and partners keep frames apart. -/
theorem Value.Rewrites.same {u u' v v' : Value} (h : u.Rewrites q w u') (h' : v.Rewrites q w v')
    (hs : s.Rewrites q w t) : u'.same v' = u.same v := by
  cases h with
  | @function c d closures =>
    cases h' with
    | @function c' d' closures' =>
      simp only [Value.same, Closure.same, closures.header, closures'.header]
      have hframes : decide (d.frame = d'.frame) = decide (c.frame = c'.frame) :=
        decide_eq_decide.2 (hs.linked_iff closures.link closures'.link).symm
      rw [hframes]
    | _ => rfl
  | _ => cases h' <;> rfl

theorem Outcome.Rewrites.ofSlot {held held' : Option Value} (h : Option.Rel (Value.Rewrites q w) held held')
    (e : Error) : (held.elim (.failed e) Outcome.value).Rewrites q w (held'.elim (.failed e) .value) := by
  cases h with
  | none => exact .failed e
  | some values => exact .value values

/-! ## Changes of stores -/

namespace Store.Rewrites

theorem enterAt (h : σ.Rewrites q w τ) (f f' : FrameId) :
    ∃ x, w.Grows x ∧ (σ.enterAt f).Rewrites q x (τ.enterAt f') ∧
      x.Linked (σ.enterAt f).scopes.current (τ.enterAt f').scopes.current ∧
      x.outer (σ.enterAt f).scopes.current = some f ∧ x.outer' (τ.enterAt f').scopes.current = some f' := by
  obtain ⟨x, hx, hscopes, hframes⟩ := h.scopes.enterAt f f'
  exact ⟨x, hx, ⟨hscopes, h.depth, h.sink⟩, hframes⟩

theorem enterCall (h : σ.Rewrites q w τ) (f f' : FrameId) :
    ∃ x, w.Grows x ∧ (σ.enterCall f).Rewrites q x (τ.enterCall f') ∧
      x.Linked (σ.enterCall f).scopes.current (τ.enterCall f').scopes.current ∧
      x.outer (σ.enterCall f).scopes.current = some f ∧ x.outer' (τ.enterCall f').scopes.current = some f' := by
  obtain ⟨x, hx, hscopes, hframes⟩ := h.scopes.enterAt f f'
  exact ⟨x, hx, ⟨hscopes, congrArg (· + 1) h.depth, h.sink⟩, hframes⟩

theorem enterIdle (h : σ.Rewrites q w τ) (f' : FrameId) :
    ∃ x, w.Grows x ∧ σ.Rewrites q x (τ.enterAt f') ∧ x.outer' (τ.enterAt f').scopes.current = some f' := by
  obtain ⟨x, hx, hscopes, houter'⟩ := h.scopes.enterIdle f'
  exact ⟨x, hx, ⟨hscopes, h.depth, h.sink⟩, houter'⟩

theorem restore (h : σ.Rewrites q w τ) (f f' : FrameId) : (σ.restore f).Rewrites q w (τ.restore f') :=
  ⟨h.scopes.restore f f', h.depth, h.sink⟩

/-- Only the second run leaves a frame that only it has. -/
theorem restore_right (h : σ.Rewrites q w τ) (f' : FrameId) : σ.Rewrites q w (τ.restore f') :=
  ⟨h.scopes.restore σ.scopes.current f', h.depth, h.sink⟩

theorem leaveCall (h : σ.Rewrites q w τ) (f f' : FrameId) : (σ.leaveCall f).Rewrites q w (τ.leaveCall f') :=
  ⟨h.scopes.restore f f', congrArg (· - 1) h.depth, h.sink⟩

theorem print (h : σ.Rewrites q w τ) {v v' : Value} (hv : v.Rewrites q w v') (line : Nat) :
    (σ.print v line).1.Rewrites q w (τ.print v' line).1 ∧ (σ.print v line).2.Rewrites q w (τ.print v' line).2 := by
  rw [Store.print, Store.print, hv.text, h.sink]
  refine ⟨?_, h.scopes, h.depth, rfl⟩
  dsimp only
  split
  · exact .normal
  · exact .failed _

section

variable (hq : q.Keyed key table table') (h : σ.Rewrites q w τ)
  (hcode : Beside q w σ.scopes.current τ.scopes.current (fun places => .use i line places ∈ q.before.occurrences)
    fun places => .use i line places ∈ q.after.occurrences)

include hq h hcode

theorem read : (σ.read table i line).Rewrites q w (τ.read table' i line) := by
  obtain ⟨a, a', g, g', hget, hget', hslot, hg, hg', hlink⟩ := hq.locates h.scopes hcode
  simp only [Store.read_eq (Resolutions.find_of_get? hget line) hg,
    Store.read_eq (Resolutions.find_of_get? hget' line) hg', hslot]
  exact .ofSlot (h.scopes.slots g g' hlink a.slot) _

theorem assign {v v' : Value} (hv : v.Rewrites q w v') (line : Nat) :
    (σ.assign table i v line).1.Rewrites q w (τ.assign table' i v' line).1 ∧
      (σ.assign table i v line).2.Rewrites q w (τ.assign table' i v' line).2 := by
  obtain ⟨a, a', g, g', hget, hget', hslot, hg, hg', hlink⟩ := hq.locates h.scopes hcode
  rw [Store.assign_eq, Store.assign_eq, Resolutions.find_of_get? hget line, Resolutions.find_of_get? hget' line]
  dsimp only
  simp only [ScopeStack.locate?_of_ancestor hg, ScopeStack.locate?_of_ancestor hg', Option.filter_some,
    hslot]
  have hheld := h.scopes.slots g g' hlink a.slot
  generalize σ.scopes.slot? g a.slot = held at hheld ⊢
  generalize τ.scopes.slot? g' a.slot = held' at hheld ⊢
  cases hheld with
  | none => exact ⟨.failed _, h⟩
  | some => exact ⟨.value hv, h.scopes.write hlink hv a.slot, h.depth, h.sink⟩

end

/-- Names of partners are bound alike. -/
theorem bind (h : σ.Rewrites q w τ) (hlink : w.Linked σ.scopes.current τ.scopes.current) {bs bs' : List Binding}
    (hbs : List.Forall₂ (Binding.Rewrites q w table table') bs bs') :
    (σ.bind table bs).1 = .normal ∧ (τ.bind table' bs').1 = .normal ∧
      (σ.bind table bs).2.Rewrites q w (τ.bind table' bs').2 := by
  induction hbs generalizing σ τ with
  | nil => exact ⟨rfl, rfl, h⟩
  | cons first _ ih =>
    obtain ⟨slot, hget, hget'⟩ := first.shared
    rw [← first.identifier] at hget'
    simp only [Store.bind, Resolutions.find_of_get? hget, Resolutions.find_of_get? hget']
    exact ih ⟨h.scopes.write hlink first.value slot, h.depth, h.sink⟩ hlink

end Store.Rewrites

/-! ## Scopes that are entered -/

def Decl.At (program : Program) (d : Decl) (places : List Place) : Prop :=
  ∃ here outer, places = here :: outer ∧ d ∈ here.scope.declarations ∧
    .opening here.scope outer ∈ program.parts ∧ d.parts here outer ⊆ program.parts

structure Decl.Paired (q : Pair) (w : Links) (f f' : FrameId) (d d' : Decl) : Prop where
  rewrites : d.Rewrites q.way d'
  link : w.Linked f f'
  code : Beside q w f f' (d.At q.before) (d'.At q.after)

namespace Ahead

variable {rest : List Stmt} {d : Decl} {ds ds' : List Decl}

/-- At first all declarations of a scope are left. -/
theorem initial {scope scope' : Scope} (hscope : scope.Rewrites q.way scope')
    (hds : scope.declarations = ds) (hds' : scope'.declarations = ds' ++ rest.map Decl.statement)
    (hrewrites : Decl.AllRewrites q.way ds ds ds') (hlink : w.Linked f f') (hin : Inside q w f f' places places')
    (hopened : Scope.OpenedIn q.before places scope) (hopened' : Scope.OpenedIn q.after places' scope') :
    Ahead q w f f' rest ds ds' := by
  subst hds
  have hparts' := hopened'.parts
  rw [hds', Decl.partsFrom_append, List.append_subset] at hparts'
  exact .intro hlink (.initial hscope) hin rfl hds' hrewrites hopened.opening hopened'.opening hopened.parts
    hparts'.1

/-- The next declaration is run in both programs, or it is an announcement that was left out. -/
theorem next (h : Ahead q w f f' rest (d :: ds) ds') :
    (∃ d' es, ds' = d' :: es ∧ d.Paired q w f f' d' ∧ Ahead q w f f' rest ds es) ∨
      (∃ line header, d = .forward line header) ∧ Ahead q w f f' rest ds ds' := by
  cases h with
  | intro link here around left left' rewrites opening opening' parts parts' =>
    rw [Decl.partsFrom, List.append_subset] at parts
    cases rewrites with
    | @cons _ _ es _ d' first others =>
      rw [Decl.partsFrom, List.append_subset] at parts'
      have hd := Resolution.getElem?_of_drop left
      have hd' := Resolution.getElem?_of_drop left'
      refine .inl ⟨d', es, rfl, ⟨first, link, _, _, around.chain link here, ?_, ?_⟩, ?_⟩
      · exact ⟨_, _, rfl, List.mem_of_getElem? hd, opening, parts.1⟩
      · exact ⟨_, _, rfl, List.mem_of_getElem? hd', opening', parts'.1⟩
      · exact .intro link (here.succ hd hd' first) around (Resolution.drop_succ left) (Resolution.drop_succ left')
          others opening opening' parts.2 parts'.2
    | skip way line defined others =>
      exact .inr ⟨⟨line, _, rfl⟩, .intro link (here.skip (Resolution.getElem?_of_drop left)) around
        (Resolution.drop_succ left) left' others opening opening' parts.2 parts'⟩

theorem eq_nil (h : Ahead q w f f' rest [] ds') : ds' = [] := by
  cases h with
  | intro _ _ _ _ _ rewrites => cases rewrites; rfl

theorem link (h : Ahead q w f f' rest ds ds') : w.Linked f f' := by
  cases h with
  | intro link => exact link

/-- The functions that are left are bound to partners. -/
theorem functions (hq : q.Keyed key table table') (h : Ahead q w f f' rest ds ds') :
    List.Forall₂ (Binding.Rewrites q w table table') (Binding.ofFunctions f ds)
      (Binding.ofFunctions f' (ds' ++ rest.map .statement)) := by
  induction ds generalizing ds' with
  | nil =>
    have hnone : Binding.ofFunctions f' (rest.map .statement) = [] := by
      refine List.filterMap_eq_nil_iff.2 (List.forall_mem_map.2 fun s _ => rfl)
    rw [h.eq_nil, List.nil_append, hnone]
    exact .nil
  | cons d ds ih =>
    rcases h.next with ⟨d', es, rfl, hd, hrest⟩ | ⟨⟨line, header, rfl⟩, hrest⟩
    · obtain ⟨hrewrites, hlink, places, places', hchain, hcode, hcode'⟩ := hd
      have hothers := ih hrest
      cases hrewrites with
      | binding | forward | statement => exact hothers
      | function line header inside =>
        obtain ⟨here, outer, rfl, hmem, hopening, hparts⟩ := hcode
        obtain ⟨here', outer', rfl, hmem', hopening', hparts'⟩ := hcode'
        have hbody := List.cons_subset.1 hparts
        have hbody' := List.cons_subset.1 hparts'
        have hshared := hq.early hopening hopening' (List.mem_append_right _ (List.mem_filterMap.2 ⟨_, hmem, rfl⟩))
          (List.mem_append_right _ (List.mem_filterMap.2 ⟨_, hmem', rfl⟩))
        refine .cons ⟨rfl, .function ⟨rfl, inside, hlink, ?_⟩, hshared⟩ hothers
        exact ⟨_, _, hchain, ⟨hbody.1, hbody.2⟩, ⟨hbody'.1, hbody'.2⟩⟩
    · exact ih hrest

end Ahead

theorem Binding.Rewrites.ofArguments {parameters : List Parameter}
    (hshared : ∀ p ∈ parameters, p.identifier.Shared table table') {vs vs' : List Value}
    (hvs : List.Forall₂ (Value.Rewrites q w) vs vs') (line : Nat) :
    List.Forall₂ (Binding.Rewrites q w table table') (Binding.ofArguments parameters vs line)
      (Binding.ofArguments parameters vs' line) := by
  induction hvs generalizing parameters with
  | nil => cases parameters <;> exact .nil
  | cons first _ ih =>
    cases parameters with
    | nil => exact .nil
    | cons p ps =>
      rw [List.forall_mem_cons] at hshared
      exact .cons ⟨rfl, first, hshared.1⟩ (ih hshared.2)

/-- The parameters of both functions have the same slots. -/
theorem Closure.Rewrites.parameters {c d : Closure} (h : c.Rewrites q w d) (hq : q.Keyed key table table') :
    ∀ p ∈ c.header.parameters, p.identifier.Shared table table' := by
  intro p hp
  obtain ⟨places, places', -, hopened, hopened'⟩ := h.code
  have hparameter := List.mem_map_of_mem (f := Parameter.identifier) hp
  exact hq.early hopened.opening hopened'.opening (List.mem_append_left _ hparameter)
    (List.mem_append_left _ hparameter)

end LexScript
