import LexScript.Proofs.Machine.Records
import LexScript.Proofs.Scope.Lexical

/-!
# Addresses at run time

An address that resolution gives to a name leads from the current frame to the activation of the scope
that declares the name, through the frames that lie around the running code, and a slot only ever holds
what was stored under the name that the slot belongs to: `Run.names_lexical`.
-/

namespace LexScript

variable {setting : Setting} {program : Program} {h : History} {m : Machine}

/-- The slot belongs to the name, in the scope that the frame is an activation of. -/
def Write.Named (activations : List Activation) (w : Write) : Prop :=
  ∀ a, activations[w.frame]? = some a →
    w.name ∈ a.scope.registered.map Identifier.name ∧ a.scope.slot w.name = w.slot

def History.Named (h : History) : Prop :=
  ∀ f i x v, h.stored f i = some (x, v) → Write.Named h.activations ⟨f, i, x, v⟩

namespace Binding

/-- The functions that are bound are among the early names of their scope. -/
theorem early_of_mem_ofFunctions {frame : FrameId} {scope : Scope} {b : Binding}
    (hb : b ∈ ofFunctions frame scope.declarations) : b.identifier ∈ scope.early := by
  obtain ⟨d, hd, heq⟩ := List.mem_filterMap.1 hb
  cases d with
  | function line header body =>
    obtain rfl := Option.some.inj heq
    exact List.mem_append_right _ (List.mem_filterMap.2 ⟨_, hd, rfl⟩)
  | _ => cases heq

/-- A parameter is bound to its argument. -/
theorem mem_zip_of_mem_ofArguments {parameters : List Parameter} {arguments : List Value} {line : Nat}
    {b : Binding} (hb : b ∈ ofArguments parameters arguments line) :
    ∃ p, (p, b.value) ∈ parameters.zip arguments ∧ b.identifier = p.identifier := by
  rw [ofArguments, ← List.map_uncurry_zip_eq_zipWith] at hb
  obtain ⟨⟨p, v⟩, hpair, rfl⟩ := List.mem_map.1 hb
  exact ⟨p, hpair, rfl⟩

theorem early_of_mem_ofArguments {header : FunctionHeader} (body : List Decl)
    {arguments : List Value} {line : Nat} {b : Binding}
    (hb : b ∈ ofArguments header.parameters arguments line) :
    b.identifier ∈ (Scope.function header body).early := by
  obtain ⟨p, hpair, hidentifier⟩ := mem_zip_of_mem_ofArguments hb
  rw [hidentifier]
  exact List.mem_append_left _ (List.mem_map_of_mem (List.of_mem_zip hpair).1)

end Binding

/-- An address leads to the activation of the nearest scope that sees the name. -/
theorem Nest.locates (hids : program.DistinctIdentities)
    (haddresses : Resolutions.ofProgram program = .ok setting.addresses) {s : ScopeStack Value}
    (hrecords : h.Records s) {places : List Place}
    (hnest : Nest h.activations s.current (places.map Place.scope)) {n : Identifier} {line : Nat}
    (huse : .use n line places ∈ program.occurrences) :
    ∃ a place f outer, setting.addresses.get? n.id = some a ∧
      Place.Nearest places n.name a.distance place ∧ a.slot = place.scope.slot n.name ∧
      s.ancestor? a.distance s.current = some f ∧ h.activations[f]? = some ⟨place.scope, outer⟩ := by
  obtain ⟨distance, place, hnearest, hget⟩ := Resolutions.get?_use hids haddresses huse
  have hscope : (places.map Place.scope)[distance]? = some place.scope := by
    simp [hnearest.at_distance]
  obtain ⟨f, outer, hf, ha⟩ := hnest.ancestor hrecords.parents hscope
  exact ⟨_, place, f, outer, hget, hnearest, rfl, hf, ha⟩

theorem activation_next {f : FrameId} {a : Activation} (ha : h.activations[f]? = some a) :
    (h.next setting m).activations[f]? = some a := by
  rw [History.activations_next]
  exact activation_append ha _

/-- The frame of a call is an activation of its function. -/
theorem Machine.Scoped.activation_call {k : List Continuation} {σ : Store} {closure : Closure}
    {arguments : List Value} {line : Nat}
    (hm : Machine.Scoped program h.activations ⟨.call closure arguments line, k, σ⟩)
    (hdepth : ¬ setting.maxCallDepth ≤ σ.depth) :
    (h.next setting ⟨.call closure arguments line, k, σ⟩).activations[σ.scopes.frames.size]? =
      some closure.activation := by
  have hnew := hm.scopes.activation_new closure.activation
  simpa [History.activations_next, Machine.begun_call_of_lt hdepth] using hnew

theorem Write.Named.of_registered {activations : List Activation} {f : FrameId} {a : Activation}
    (ha : activations[f]? = some a) {i : Identifier} (hi : i ∈ a.scope.registered) {slot : Nat}
    (hslot : a.scope.slot i.name = slot) {v : Value} : Write.Named activations ⟨f, slot, i.name, v⟩ := by
  intro b hb
  obtain rfl := Option.some.inj (ha.symm.trans hb)
  exact ⟨List.mem_map_of_mem hi, hslot⟩

/-- What a step stores, it stores in the slots of its names. -/
theorem Machine.Scoped.writes_named (hids : program.DistinctIdentities)
    (haddresses : Resolutions.ofProgram program = .ok setting.addresses)
    (hm : m.Scoped program h.activations) (hrecords : h.Records m.store.scopes) {w : Write}
    (hw : m.Writes setting w) : w.Named (h.next setting m).activations := by
  cases hw with
  | @function k σ declarations b address bound found =>
    obtain ⟨a, ha, rfl⟩ := hm.control
    obtain ⟨outer, -, hopening, -⟩ := hm.scopes.activation _ _ ha
    have hearly := Binding.early_of_mem_ofFunctions bound
    rw [Resolutions.get?_early hids haddresses hopening hearly] at found
    obtain rfl := Option.some.inj found
    exact .of_registered (activation_next ha) (a.scope.early_subset_registered hearly) rfl
  | @parameter k σ closure arguments line b address depth bound found =>
    obtain ⟨outer, -, hopening, -⟩ := hm.scopes.function hm.control.1
    have hearly := Binding.early_of_mem_ofArguments closure.body bound
    rw [Resolutions.get?_early hids haddresses hopening hearly] at found
    obtain rfl := Option.some.inj found
    exact .of_registered (hm.activation_call depth) (Scope.early_subset_registered _ hearly) rfl
  | @binding k σ identifier line v address found =>
    obtain ⟨a, ha, hbinding⟩ := hm.stack.1
    rw [Resolutions.get?_binding hids haddresses hbinding] at found
    obtain rfl := Option.some.inj found
    exact .of_registered (activation_next ha) (program.registered_parts _ hbinding) rfl
  | @assignment k σ target line v address f found located =>
    obtain ⟨places, hnest, huse⟩ := hm.stack.1
    obtain ⟨a, place, g, outer, hget, hnearest, hslot, hancestor, ha⟩ :=
      hnest.locates hids haddresses hrecords huse
    obtain rfl := Option.some.inj (found.symm.trans hget)
    obtain ⟨hf, -⟩ := Option.filter_eq_some_iff.1 located
    obtain rfl := Option.some.inj (hf.symm.trans hancestor)
    intro b hb
    obtain rfl := Option.some.inj ((activation_next ha).symm.trans hb)
    exact ⟨hnearest.sees.registered, hslot.symm⟩

/-- At every moment of a run, every slot holds what was stored under the name that it belongs to. -/
theorem Run.named (hids : program.DistinctIdentities)
    (haddresses : Resolutions.ofProgram program = .ok setting.addresses)
    (hrun : Run setting program m h) : h.Named := by
  induction hrun with
  | start sink => exact fun f i x v hs => by cases hs
  | @step m h before ih =>
    intro f i x v hs
    rcases History.stored_next hs with hbefore | hnow
    · intro a ha
      rw [History.activations_next, List.getElem?_append_left (before.stored_lt hbefore)] at ha
      exact ih f i x v hbefore a ha
    · exact before.scoped.writes_named hids haddresses before.records (Machine.writes_of_mem hnow)
  | again before finished sink ih => exact ih

/-- What the slot of a name holds was stored there under this name. -/
theorem History.Named.stored_of_slot? {s : ScopeStack Value} (hnamed : h.Named)
    (hrecords : h.Records s) {f : FrameId} {scope : Scope} {outer : Option FrameId}
    (ha : h.activations[f]? = some ⟨scope, outer⟩) {name : String}
    (hregistered : name ∈ scope.registered.map Identifier.name) {v : Value}
    (hv : s.slot? f (scope.slot name) = some v) :
    h.stored f (scope.slot name) = some (name, v) := by
  have hstored := hrecords.slots f (scope.slot name)
  rw [hv] at hstored
  obtain ⟨⟨x, w⟩, hx, rfl⟩ := Option.map_eq_some_iff.1 hstored.symm
  obtain ⟨hname, hslot⟩ := hnamed _ _ _ _ hx _ ha
  have hxn : x = name := ScopeNames.eq_of_rank_eq hname hregistered hslot
  exact hxn ▸ hx

/-- The frames around the current one are the activations of the scopes around the places, where the
history says. The address leads to one of them, the activation of the nearest scope that sees the name,
and to a slot that is empty or holds a value that was stored under this name. -/
structure History.Locates (h : History) (s : ScopeStack Value) (places : List Place) (name : String)
    (a : Address) (f : FrameId) : Prop where
  enclosing : ∀ i place, places[i]? = some place → ∃ g outer,
    s.ancestor? i s.current = some g ∧ h.activations[g]? = some ⟨place.scope, outer⟩
  outwards : ∀ g, s.parent? g = h.activations[g]?.bind Activation.outer
  ancestor : s.ancestor? a.distance s.current = some f
  scope : ∃ place outer, Place.Nearest places name a.distance place ∧
    h.activations[f]? = some ⟨place.scope, outer⟩ ∧ a.slot = place.scope.slot name
  stored : s.slot? f a.slot = none ∨
    ∃ v, s.slot? f a.slot = some v ∧ h.stored f a.slot = some (name, v)

theorem Resolutions.find_of_get? {addresses : Resolutions} {i : Identifier} {a : Address}
    (hget : addresses.get? i.id = some a) (line : Nat) : addresses.find i line = .ok a := by
  simp [find, hget]

/-- A read yields what the slot at the address holds. -/
theorem Store.read_eq {σ : Store} {addresses : Resolutions} {n : Identifier} {line : Nat} {a : Address}
    {f : FrameId} (hfind : addresses.find n line = .ok a)
    (hancestor : σ.scopes.ancestor? a.distance σ.scopes.current = some f) :
    σ.read addresses n line = (σ.scopes.slot? f a.slot).elim
      (.failed ⟨.undefinedVariable n.name, line⟩) .value := by
  rw [read, hfind]
  simp only
  rw [ScopeStack.get?, hancestor, Option.bind_some]
  cases σ.scopes.slot? f a.slot <;> rfl

/-- The name is looked up next: it is evaluated, or it is the target of an assignment whose value is
known. -/
def Machine.LooksUp (m : Machine) (n : Identifier) : Prop :=
  (∃ line, m.control = .eval line (.name n)) ∨
    ∃ v line k, m.control = .ended (.value v) ∧ m.stack = .assign n line :: k

theorem Machine.Scoped.use_of_looksUp {activations : List Activation}
    (hm : m.Scoped program activations) {n : Identifier} (hn : m.LooksUp n) :
    ∃ places line, Nest activations m.store.scopes.current (places.map Place.scope) ∧
      .use n line places ∈ program.occurrences := by
  obtain ⟨control, k, σ⟩ := m
  rcases hn with ⟨line, hcontrol⟩ | ⟨v, line, rest, hcontrol, hstack⟩
  · obtain rfl := hcontrol
    obtain ⟨places, hnest, huse⟩ := hm.control
    exact ⟨places, line, hnest, huse (List.mem_singleton_self _)⟩
  · obtain rfl := hstack
    obtain ⟨places, hnest, huse⟩ := hm.stack.1
    exact ⟨places, line, hnest, huse⟩

/-- The addresses of names are lexical at run time. Whenever a run looks up a name, its address leads to
the activation of the scope in which resolution has found the name, among the activations that lie
around the running code, and to a slot that is empty or holds a value that was stored under this name.
A read yields what the slot holds, and an assignment changes no other slot. -/
theorem Run.names_lexical (hids : program.DistinctIdentities)
    (haddresses : Resolutions.ofProgram program = .ok setting.addresses)
    (hrun : Run setting program m h) {n : Identifier} (hn : m.LooksUp n) :
    ∃ places line a f, .use n line places ∈ program.occurrences ∧
      setting.addresses.get? n.id = some a ∧ h.Locates m.store.scopes places n.name a f ∧
      (∀ line, m.control = .eval line (.name n) → m.step setting =
        ⟨.ended ((m.store.scopes.slot? f a.slot).elim
          (.failed ⟨.undefinedVariable n.name, line⟩) .value), m.stack, m.store⟩) ∧
      ∀ v line k, m.control = .ended (.value v) → m.stack = .assign n line :: k →
        ∀ g i, (m.step setting).store.scopes.slot? g i =
          if g = f ∧ i = a.slot ∧ (m.store.scopes.slot? f a.slot).isSome then some v
          else m.store.scopes.slot? g i := by
  have hm := hrun.scoped
  have hrecords := hrun.records
  obtain ⟨places, line, hnest, huse⟩ := hm.use_of_looksUp hn
  obtain ⟨a, place, f, outer, hget, hnearest, hslot, hancestor, ha⟩ :=
    hnest.locates hids haddresses hrecords huse
  refine ⟨places, line, a, f, huse, hget, ⟨?_, hrecords.parents, hancestor,
    ⟨place, outer, hnearest, ha, hslot⟩, ?_⟩, ?_, ?_⟩
  · intro i p hp
    refine hnest.ancestor hrecords.parents ?_
    simp [hp]
  · cases hv : m.store.scopes.slot? f a.slot with
    | none => exact .inl rfl
    | some v =>
      rw [hslot] at hv ⊢
      have hnamed := hrun.named hids haddresses
      exact .inr ⟨v, rfl, hnamed.stored_of_slot? hrecords ha hnearest.sees.registered hv⟩
  · intro line hcontrol
    obtain ⟨control, k, σ⟩ := m
    obtain rfl := hcontrol
    change Machine.mk (.ended (σ.read setting.addresses n line)) k σ = _
    rw [Store.read_eq (Resolutions.find_of_get? hget line) hancestor]
  · intro v line k hcontrol hstack g i
    obtain ⟨control, k', σ⟩ := m
    obtain rfl := hcontrol
    obtain rfl := hstack
    change (σ.assign setting.addresses n v line).2.scopes.slot? g i = _
    rw [Store.assign_eq, Resolutions.find_of_get? hget line]
    simp only
    rw [ScopeStack.locate?_of_ancestor hancestor, Option.filter_some]
    cases hv : σ.scopes.slot? f a.slot with
    | none =>
      rw [if_neg (by simp), if_neg (by simp)]
    | some w =>
      rw [if_pos Option.isSome_some]
      simp only
      rw [ScopeStack.slot?_write _ (ScopeStack.lt_of_slot? hv)]
      simp only [eq_comm, Option.isSome_some, and_true]

/-- The function of the sample finds the variable one frame outside its own. -/
theorem Run.names_lexical_closureSample :
    ∃ m h, Run ⟨.closureSample, 10⟩ .closureSample m h ∧ m.LooksUp ⟨"x", 2⟩ ∧
      ∃ places f, h.Locates m.store.scopes places "x" ⟨1, 1⟩ f := by
  have hstart : Run ⟨.closureSample, 10⟩ .closureSample _ _ := .start .unlimited
  obtain ⟨h, hrun⟩ := hstart.run 14
  have hn : (Machine.run ⟨.closureSample, 10⟩ 14
      (Program.closureSample.launch (.start .unlimited))).LooksUp ⟨"x", 2⟩ := .inl ⟨2, rfl⟩
  have hids : Program.closureSample.DistinctIdentities := .ofTokens Program.ofTokens_closureSample
  obtain ⟨places, line, a, f, -, hget, hlocates, -⟩ :=
    names_lexical hids Resolutions.ofProgram_closureSample hrun hn
  obtain rfl := Option.some.inj hget
  exact ⟨_, h, hrun, hn, places, f, hlocates⟩

end LexScript
