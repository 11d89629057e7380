import LexScript.Proofs.Machine.Addresses
import Mathlib.Logic.Equiv.List

/-!
# Slots under other numbers

The number of a slot matters to a run only as far as it keeps the names of a scope apart. A run goes the same
way, step by step, if every name has a slot number of its own, whatever scopes declare it: `Run.rekeyed`. With
such numbers two programs can be compared that number their slots in different orders.
-/

namespace LexScript

/-- Another table of addresses, in which a name has the same slot in all scopes. -/
structure Resolutions.Keyed (key : String → Nat) (program : Program) (addresses keyed : Resolutions) : Prop where
  identities : program.DistinctIdentities
  resolved : Resolutions.ofProgram program = .ok addresses
  injective : key.Injective
  keyed : ∀ o ∈ program.occurrences, ∀ a, addresses.get? o.identifier.id = some a →
    keyed.get? o.identifier.id = some ⟨a.distance, key o.identifier.name⟩

structure Scope.Rekeys (key : String → Nat) (addresses keyed : Resolutions) (scope : Scope) (i : Identifier) :
    Prop where
  registered : i ∈ scope.registered
  address : addresses.get? i.id = some ⟨0, scope.slot i.name⟩
  rekeyed : keyed.get? i.id = some ⟨0, key i.name⟩

/-- The second frames hold what the first ones do, in slots that are numbered by names. -/
structure ScopeStack.Rekeys (key : String → Nat) (activations : List Activation) (s t : ScopeStack Value) :
    Prop where
  current : t.current = s.current
  size : s.frames.size = activations.length
  other : t.frames.size = activations.length
  parents : ∀ f, t.parent? f = s.parent? f
  slots : ∀ f a, activations[f]? = some a → ∀ name ∈ a.scope.registered.map Identifier.name,
    t.slot? f (key name) = s.slot? f (a.scope.slot name)

structure Store.Rekeys (key : String → Nat) (activations : List Activation) (σ τ : Store) : Prop where
  scopes : σ.scopes.Rekeys key activations τ.scopes
  depth : τ.depth = σ.depth
  sink : τ.sink = σ.sink

inductive Machine.Rekeys (key : String → Nat) (activations : List Activation) : Machine → Machine → Prop
  | intro (control : Control) (k : List Continuation) {σ τ : Store} (store : σ.Rekeys key activations τ) :
    Rekeys key activations ⟨control, k, σ⟩ ⟨control, k, τ⟩

/-! ## A slot for each name -/

theorem exists_key : ∃ key : String → Nat, key.Injective := by
  obtain ⟨code, hcode⟩ := exists_injective_nat (List Nat)
  have hchar : Function.Injective Char.toNat := fun a b h => Char.ext (UInt32.toNat_inj.1 h)
  have hname : Function.Injective fun name : String => name.toList := fun a b h => String.toList_inj.1 h
  exact ⟨_, hcode.comp ((List.map_injective_iff.2 hchar).comp hname)⟩

/-- A table that has any addresses one likes for identifiers with distinct identities. -/
theorem Slots.exists_table {α β : Type} (id : β → Nat) (value : β → α) {os : List β}
    (hnodup : (os.map id).Nodup) : ∃ t : Slots α, ∀ o ∈ os, t.get? (id o) = some (value o) := by
  induction os with
  | nil => exact ⟨.empty, List.forall_mem_nil _⟩
  | cons o os ih =>
    rw [List.map_cons, List.nodup_cons] at hnodup
    obtain ⟨t, ht⟩ := ih hnodup.2
    refine ⟨t.put (id o) (value o), List.forall_mem_cons.2 ⟨?_, fun o' ho' => ?_⟩⟩
    · simp [Slots.get?_put]
    · rw [Slots.get?_put, if_neg, ht o' ho']
      exact fun heq => hnodup.1 (heq ▸ List.mem_map_of_mem ho')

theorem Resolutions.exists_keyed {program : Program} {addresses : Resolutions} {key : String → Nat}
    (hids : program.DistinctIdentities) (haddresses : Resolutions.ofProgram program = .ok addresses)
    (hkey : key.Injective) : ∃ keyed, Resolutions.Keyed key program addresses keyed := by
  obtain ⟨keyed, hkeyed⟩ := Slots.exists_table (fun o : Occurrence => o.identifier.id)
    (fun o =>
      Address.mk (((addresses.get? o.identifier.id).map Address.distance).getD 0) (key o.identifier.name))
    hids.occurrences
  refine ⟨keyed, hids, haddresses, hkey, fun o ho a ha => ?_⟩
  simp [hkeyed o ho, ha]

/-! ## Bindings and addresses -/

variable {key : String → Nat} {program : Program} {addresses keyed : Resolutions} {limit : Nat}
  {activations : List Activation} {h : History} {k : List Continuation} {σ τ : Store}

namespace Resolutions.Keyed

variable (hkeyed : Resolutions.Keyed key program addresses keyed)

include hkeyed

theorem early {scope : Scope} {outer : List Place} (hopening : .opening scope outer ∈ program.parts)
    {i : Identifier} (hi : i ∈ scope.early) : scope.Rekeys key addresses keyed i where
  registered := scope.early_subset_registered hi
  address := get?_early hkeyed.identities hkeyed.resolved hopening hi
  rekeyed :=
    hkeyed.keyed (.declaration i scope) (Program.occurrences_of_part hopening (List.mem_map_of_mem hi)) _
      (get?_early hkeyed.identities hkeyed.resolved hopening hi)

theorem binding {scope : Scope} {i : Identifier} (hbinding : .binding i scope ∈ program.parts) :
    scope.Rekeys key addresses keyed i where
  registered := program.registered_parts _ hbinding
  address := get?_binding hkeyed.identities hkeyed.resolved hbinding
  rekeyed :=
    hkeyed.keyed (.declaration i scope)
      (Program.occurrences_of_part hbinding (List.mem_singleton_self _)) _
      (get?_binding hkeyed.identities hkeyed.resolved hbinding)

end Resolutions.Keyed

namespace ScopeStack.Rekeys

variable {s t : ScopeStack Value}

theorem restore (h : s.Rekeys key activations t) (f : FrameId) :
    (s.restore f).Rekeys key activations (t.restore f) :=
  ⟨rfl, h.size, h.other, h.parents, h.slots⟩

/-- Different names have different slots in both frames. -/
theorem write (h : s.Rekeys key activations t) (hkey : key.Injective) {f : FrameId} {a : Activation}
    (ha : activations[f]? = some a) {name : String} (hname : name ∈ a.scope.registered.map Identifier.name)
    (v : Value) :
    (s.write f (a.scope.slot name) v).Rekeys key activations (t.write f (key name) v) where
  current := h.current
  size := (Array.size_modify ..).trans h.size
  other := (Array.size_modify ..).trans h.other
  parents g := by simp [parent?_write, h.parents]
  slots g b hb x hx := by
    have hlt := (List.getElem?_eq_some_iff.1 ha).1
    rw [slot?_write s (h.size ▸ hlt), slot?_write t (h.other ▸ hlt), h.slots g b hb x hx]
    refine if_congr ?_ rfl rfl
    refine and_congr_right fun hfg => ?_
    subst hfg
    obtain rfl := Option.some.inj (ha.symm.trans hb)
    exact ⟨fun hslot => congrArg _ (hkey hslot),
      fun hslot => congrArg key (ScopeNames.eq_of_rank_eq hname hx hslot)⟩

theorem enterAt (h : s.Rekeys key activations t) (scope : Scope) (outer : FrameId) :
    (s.enterAt outer).Rekeys key (activations ++ [⟨scope, some outer⟩]) (t.enterAt outer) := by
  have hsize : t.frames.size = s.frames.size := h.other.trans h.size.symm
  refine ⟨hsize, ?_, ?_, fun f => ?_, fun f a ha name hname => ?_⟩
  · simp [ScopeStack.enterAt, h.size]
  · simp [ScopeStack.enterAt, h.other]
  · simp [parent?_enterAt, hsize, h.parents]
  · simp only [slot?_enterAt]
    by_cases hf : f < activations.length
    · rw [List.getElem?_append_left hf] at ha
      exact h.slots f a ha name hname
    · simp [slot?, Array.getElem?_eq_none (h.other ▸ Nat.le_of_not_lt hf),
        Array.getElem?_eq_none (h.size ▸ Nat.le_of_not_lt hf)]

end ScopeStack.Rekeys

namespace Store.Rekeys

theorem enterAt (hσ : σ.Rekeys key activations τ) (scope : Scope) (outer : FrameId) :
    (σ.enterAt outer).Rekeys key (activations ++ [⟨scope, some outer⟩]) (τ.enterAt outer) :=
  ⟨hσ.scopes.enterAt scope outer, hσ.depth, hσ.sink⟩

theorem enterCall (hσ : σ.Rekeys key activations τ) (scope : Scope) (outer : FrameId) :
    (σ.enterCall outer).Rekeys key (activations ++ [⟨scope, some outer⟩]) (τ.enterCall outer) :=
  ⟨hσ.scopes.enterAt scope outer, congrArg (· + 1) hσ.depth, hσ.sink⟩

theorem restore (hσ : σ.Rekeys key activations τ) (f : FrameId) :
    (σ.restore f).Rekeys key activations (τ.restore f) :=
  ⟨hσ.scopes.restore f, hσ.depth, hσ.sink⟩

theorem leaveCall (hσ : σ.Rekeys key activations τ) (f : FrameId) :
    (σ.leaveCall f).Rekeys key activations (τ.leaveCall f) :=
  ⟨hσ.scopes.restore f, congrArg (· - 1) hσ.depth, hσ.sink⟩

theorem print (hσ : σ.Rekeys key activations τ) (v : Value) (line : Nat) :
    (τ.print v line).1 = (σ.print v line).1 ∧ (σ.print v line).2.Rekeys key activations (τ.print v line).2 := by
  rw [Store.print, Store.print, hσ.sink]
  exact ⟨rfl, hσ.scopes, hσ.depth, rfl⟩

/-- Names of the current frame are bound in slots of both numbers. -/
theorem bind (hσ : σ.Rekeys key activations τ) (hkey : key.Injective) {a : Activation}
    (ha : activations[σ.scopes.current]? = some a) {bs : List Binding}
    (hbs : ∀ b ∈ bs, a.scope.Rekeys key addresses keyed b.identifier) :
    (τ.bind keyed bs).1 = (σ.bind addresses bs).1 ∧
      (σ.bind addresses bs).2.Rekeys key activations (τ.bind keyed bs).2 := by
  induction bs generalizing σ τ with
  | nil => exact ⟨rfl, hσ⟩
  | cons b bs ih =>
    rw [List.forall_mem_cons] at hbs
    obtain ⟨hfirst, hrest⟩ := hbs
    simp only [Store.bind, Resolutions.find_of_get? hfirst.address, Resolutions.find_of_get? hfirst.rekeyed]
    have hscopes := hσ.scopes.write hkey ha (List.mem_map_of_mem hfirst.registered) b.value
    rw [← hσ.scopes.current] at hscopes
    refine ih (σ := { σ with scopes := _ }) (τ := { τ with scopes := _ }) ⟨?_, hσ.depth, hσ.sink⟩ ha hrest
    simpa [ScopeStack.define, ← hσ.scopes.current] using hscopes

section

variable (hkeyed : Resolutions.Keyed key program addresses keyed) (hrecords : h.Records σ.scopes)
  (hσ : σ.Rekeys key h.activations τ) {i : Identifier} {line : Nat} {places : List Place}
  (hnest : Nest h.activations σ.scopes.current (places.map Place.scope))
  (huse : .use i line places ∈ program.occurrences)

include hkeyed hrecords hσ hnest huse

/-- Both addresses of a name lead to one frame, to slots that hold the same. -/
theorem locates : ∃ a f activation, addresses.get? i.id = some a ∧
    keyed.get? i.id = some ⟨a.distance, key i.name⟩ ∧
    σ.scopes.ancestor? a.distance σ.scopes.current = some f ∧
    τ.scopes.ancestor? a.distance τ.scopes.current = some f ∧ h.activations[f]? = some activation ∧
    a.slot = activation.scope.slot i.name ∧ i.name ∈ activation.scope.registered.map Identifier.name := by
  have hresolved : Resolutions.ofProgram program = .ok (Setting.mk addresses 0).addresses := hkeyed.resolved
  obtain ⟨a, place, f, outer, hget, hnearest, hslot, hancestor, hf⟩ :=
    Nest.locates hkeyed.identities hresolved hrecords hnest huse
  refine ⟨a, f, _, hget, hkeyed.keyed _ huse a hget, hancestor, ?_, hf, hslot,
    hnearest.sees.registered⟩
  simpa [hσ.scopes.current, ScopeStack.ancestor?_congr hσ.scopes.parents] using hancestor

theorem read (line : Nat) : τ.read keyed i line = σ.read addresses i line := by
  obtain ⟨a, f, activation, hget, hget', hf, hf', hactivation, hslot, hname⟩ :=
    locates hkeyed hrecords hσ hnest huse
  have hslots := hσ.scopes.slots f activation hactivation i.name hname
  simp [Store.read_eq (Resolutions.find_of_get? hget line) hf,
    Store.read_eq (Resolutions.find_of_get? hget' line) hf', hslot, hslots]

theorem assign (v : Value) (line : Nat) :
    (τ.assign keyed i v line).1 = (σ.assign addresses i v line).1 ∧
      (σ.assign addresses i v line).2.Rekeys key h.activations (τ.assign keyed i v line).2 := by
  obtain ⟨a, f, activation, hget, hget', hf, hf', hactivation, hslot, hname⟩ :=
    locates hkeyed hrecords hσ hnest huse
  rw [Store.assign_eq, Store.assign_eq, Resolutions.find_of_get? hget line,
    Resolutions.find_of_get? hget' line]
  dsimp only
  rw [ScopeStack.locate?_of_ancestor hf,
    ScopeStack.locate?_of_ancestor (a := ⟨a.distance, key i.name⟩) hf', Option.filter_some, Option.filter_some]
  dsimp only
  rw [hslot, hσ.scopes.slots f activation hactivation i.name hname]
  cases σ.scopes.slot? f (activation.scope.slot i.name) with
  | none => exact ⟨rfl, hσ⟩
  | some w =>
    exact ⟨rfl, hσ.scopes.write hkeyed.injective hactivation hname v, hσ.depth, hσ.sink⟩

end

end Store.Rekeys

/-! ## Steps -/

namespace Machine.Rekeys

theorem of_eq {control control' : Control} (hcontrol : control' = control)
    (hσ : σ.Rekeys key activations τ) : Rekeys key activations ⟨control, k, σ⟩ ⟨control', k, τ⟩ := by
  rw [hcontrol]
  exact .intro control k hσ

theorem exec (hσ : σ.Rekeys key activations τ) (s : Stmt) :
    Rekeys key (activations ++ begun ⟨addresses, limit⟩ ⟨.exec s, k, σ⟩) (Machine.exec k σ s)
      (Machine.exec k τ s) := by
  rw [begun_exec]
  cases s with
  | block line body | forLoop line first condition stepLine step body =>
    simp only [Machine.exec, hσ.scopes.current]
    exact .intro _ _ (hσ.enterAt _ _)
  | ret line value =>
    simp only [Stmt.scope?, Option.map_none, Option.toList_none, List.append_nil]
    cases value <;> exact .intro _ _ hσ
  | _ =>
    simp only [Stmt.scope?, Option.map_none, Option.toList_none, List.append_nil]
    exact .intro _ _ hσ

section

variable (hkeyed : Resolutions.Keyed key program addresses keyed) (hσ : σ.Rekeys key h.activations τ)

include hkeyed hσ

theorem eval {line : Nat} {e : Expr} (hrecords : h.Records σ.scopes)
    (he : Around h.activations σ.scopes.current (e.At program line)) :
    Rekeys key h.activations (Machine.eval ⟨addresses, limit⟩ line k σ e)
      (Machine.eval ⟨keyed, limit⟩ line k τ e) := by
  cases e with
  | name i =>
    obtain ⟨places, hnest, huse⟩ := he
    have hread := hσ.read hkeyed hrecords hnest (huse (List.mem_singleton_self _)) line
    exact .of_eq (congrArg Control.ended hread) hσ
  | _ => exact .intro _ _ hσ

theorem enter {declarations : List Decl}
    (hm : Machine.Scoped program h.activations ⟨.enter declarations, k, σ⟩) :
    Rekeys key h.activations (Machine.enter ⟨addresses, limit⟩ k σ declarations)
      (Machine.enter ⟨keyed, limit⟩ k τ declarations) := by
  obtain ⟨a, ha, rfl⟩ := hm.control
  obtain ⟨outer, -, hopening, -⟩ := hm.scopes.activation _ _ ha
  have hearly : ∀ b ∈ Binding.ofFunctions σ.scopes.current a.scope.declarations,
      a.scope.Rekeys key addresses keyed b.identifier :=
    fun b hb => hkeyed.early hopening (Binding.early_of_mem_ofFunctions hb)
  obtain ⟨houtcome, hstore⟩ := hσ.bind hkeyed.injective ha hearly
  simp only [Machine.enter, hσ.scopes.current]
  exact .of_eq (congrArg Control.ended houtcome) hstore

theorem call {closure : Closure} {arguments : List Value} {line : Nat}
    (hm : Machine.Scoped program h.activations ⟨.call closure arguments line, k, σ⟩) :
    Rekeys key (h.activations ++ begun ⟨addresses, limit⟩ ⟨.call closure arguments line, k, σ⟩)
      (Machine.call ⟨addresses, limit⟩ k σ closure arguments line)
      (Machine.call ⟨keyed, limit⟩ k τ closure arguments line) := by
  by_cases hdepth : limit ≤ σ.depth
  · have hdepth' : limit ≤ τ.depth := by rwa [hσ.depth]
    rw [begun_call_of_le hdepth, List.append_nil, call_of_le hdepth, call_of_le hdepth']
    exact .intro _ _ hσ
  · have hdepth' : ¬ limit ≤ τ.depth := by rwa [hσ.depth]
    obtain ⟨outer, -, hopening, -⟩ := hm.scopes.function hm.control.1
    have hearly : ∀ b ∈ Binding.ofArguments closure.header.parameters arguments line,
        closure.activation.scope.Rekeys key addresses keyed b.identifier :=
      fun b hb => hkeyed.early hopening (Binding.early_of_mem_ofArguments closure.body hb)
    have hentered := hσ.enterCall (.function closure.header closure.body) closure.frame
    obtain ⟨houtcome, hstore⟩ := hentered.bind hkeyed.injective
      (hm.scopes.activation_new closure.activation) hearly
    rw [begun_call_of_lt hdepth, call_of_lt hdepth, call_of_lt hdepth', hσ.scopes.current]
    exact .of_eq (congrArg closure.begin houtcome) hstore

omit hkeyed in
theorem nextArgument (closure : Closure) (values : List Value) (line : Nat) (rest : List Expr) :
    Rekeys key h.activations (Machine.nextArgument k σ closure values line rest)
      (Machine.nextArgument k τ closure values line rest) := by
  cases rest <;> exact .intro _ _ hσ

theorem resume {c : Continuation} {outcome : Outcome} (hrecords : h.Records σ.scopes)
    (hm : Machine.Scoped program h.activations ⟨.ended outcome, c :: k, σ⟩) :
    Rekeys key h.activations (Machine.resume ⟨addresses, limit⟩ k σ c outcome)
      (Machine.resume ⟨keyed, limit⟩ k τ c outcome) := by
  rcases c.accepts_or_passes outcome with haccepts | hpasses
  · cases haccepts with
    | assign target line v =>
      obtain ⟨places, hnest, huse⟩ := hm.stack.1
      obtain ⟨houtcome, hstore⟩ := hσ.assign hkeyed hrecords hnest huse v line
      exact .of_eq (congrArg Control.ended houtcome) hstore
    | callee arguments line v =>
      cases v with
      | function closure => exact nextArgument hσ closure [] line arguments
      | _ => exact .intro _ _ hσ
    | argument closure values rest line v => exact nextArgument hσ closure (v :: values) line rest
    | print line v =>
      obtain ⟨houtcome, hstore⟩ := hσ.print v line
      exact .of_eq (congrArg Control.ended houtcome) hstore
    | branch line thenBranch elseBranch v =>
      cases v with
      | boolean b => cases b <;> cases elseBranch <;> exact .intro _ _ hσ
      | _ => exact .intro _ _ hσ
    | test loop v =>
      cases v with
      | boolean b => cases b <;> exact .intro _ _ hσ
      | _ => exact .intro _ _ hσ
    | step loop =>
      obtain ⟨line, condition, step, body⟩ := loop
      cases step <;> exact .intro _ _ hσ
    | bind identifier line v =>
      obtain ⟨a, ha, hbinding⟩ := hm.stack.1
      have hvariable : ∀ b ∈ [Binding.mk identifier v line], a.scope.Rekeys key addresses keyed b.identifier :=
        List.forall_mem_singleton.2 (hkeyed.binding hbinding)
      obtain ⟨houtcome, hstore⟩ := hσ.bind hkeyed.injective ha hvariable
      exact .of_eq (congrArg Control.ended houtcome) hstore
    | sequence d ds => cases d <;> exact .intro _ _ hσ
    | leave frame => exact .intro _ _ (hσ.restore frame)
    | endCall frame closure line => exact .intro _ _ (hσ.leaveCall frame)
    | _ => exact .intro _ _ hσ
  · simp only [hpasses.resume]
    exact .intro _ _ hσ

end

theorem step (hkeyed : Resolutions.Keyed key program addresses keyed) {m m' : Machine}
    (hscoped : m.Scoped program h.activations) (hrecords : h.Records m.store.scopes)
    (hm : Rekeys key h.activations m m') :
    Rekeys key (h.next ⟨addresses, limit⟩ m).activations (m.step ⟨addresses, limit⟩)
      (m'.step ⟨keyed, limit⟩) := by
  rw [History.activations_next]
  cases hm with
  | @intro control k σ τ hσ =>
    cases control with
    | eval line e => simpa [Machine.step] using eval hkeyed hσ hrecords hscoped.control
    | exec s => exact exec hσ s
    | enter declarations => simpa [Machine.step] using enter hkeyed hσ hscoped
    | call closure arguments line => exact call hkeyed hσ hscoped
    | ended outcome =>
      rw [begun_ended, List.append_nil]
      cases k with
      | nil => exact .intro _ _ hσ
      | cons c k => exact resume hkeyed hσ hrecords hscoped

theorem outcome {m m' : Machine} (h : m.Rekeys key activations m') :
    m'.outcome? = m.outcome? ∧ m'.store.sink = m.store.sink := by
  cases h with
  | intro control k store =>
    refine ⟨?_, store.sink⟩
    cases k <;> cases control <;> rfl

end Machine.Rekeys

/-- A run takes the same steps with slots under other numbers. -/
theorem Run.rekeyed (hkeyed : Resolutions.Keyed key program addresses keyed) (limit : Nat) (sink : Sink)
    (steps : Nat) : ∃ h, Run ⟨addresses, limit⟩ program
        ((program.launch (.start sink)).run ⟨addresses, limit⟩ steps) h ∧
      Machine.Rekeys key h.activations ((program.launch (.start sink)).run ⟨addresses, limit⟩ steps)
        ((program.launch (.start sink)).run ⟨keyed, limit⟩ steps) := by
  induction steps with
  | zero =>
    refine ⟨_, .start sink, .intro _ _ ⟨⟨rfl, rfl, rfl, fun f => rfl, fun f a _ name _ => ?_⟩, rfl, rfl⟩⟩
    exact (ScopeStack.slot?_global f _).trans (ScopeStack.slot?_global f _).symm
  | succ steps ih =>
    obtain ⟨h, hrun, hrekeys⟩ := ih
    simp only [Machine.run_succ]
    exact ⟨_, hrun.step, hrekeys.step hkeyed hrun.scoped hrun.records⟩

end LexScript
