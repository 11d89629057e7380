import LexScript.Proofs.Machine.Scoped

/-!
# Every run keeps code and frames together

Each kind of step keeps `Machine.Scoped`. A block or a loop is entered from code that lies around it, and
a call goes through the frame that the closure has captured, around which the function is declared.
-/

namespace LexScript

variable {setting : Setting} {program : Program} {activations : List Activation}
  {k : List Continuation} {σ : Store}

/-- An expression that is a part of the program stands where the part does. -/
theorem Expr.At.of_part {role : Role} {line : Nat} {e : Expr} {places : List Place}
    (h : .expression role line e places ∈ program.parts) : e.At program line places :=
  Program.occurrences_of_part h

theorem Literal.toValue_scoped (literal : Literal) : literal.toValue.Scoped activations := by
  cases literal <;> trivial

theorem Outcome.ofResult_scoped {line : Nat} {r : Except Cause Value}
    (h : ∀ v, r = .ok v → v.Scoped activations) : (Outcome.ofResult line r).Scoped activations := by
  cases r with
  | ok v => exact h v rfl
  | error cause => trivial

/-- Operations do not give functions. -/
theorem BinaryOperator.apply_scoped {operator : BinaryOperator} {l r v : Value}
    (h : operator.apply l r = .ok v) : v.Scoped activations := by
  unfold BinaryOperator.apply at h
  split at h <;> try (obtain rfl := Except.ok.inj h; trivial)
  · rename_i l r
    cases hrepeated : repeated l r with
    | error cause =>
      rw [hrepeated] at h
      cases h
    | ok s =>
      rw [hrepeated] at h
      obtain rfl := Except.ok.inj h
      trivial
  · split at h
    · cases h
    · obtain rfl := Except.ok.inj h
      trivial
  · split at h
    · cases h
    · obtain rfl := Except.ok.inj h
      trivial
  · cases h

theorem UnaryOperator.apply_scoped {operator : UnaryOperator} {operand v : Value}
    (h : operator.apply operand = .ok v) : v.Scoped activations := by
  unfold UnaryOperator.apply at h
  split at h
  · obtain rfl := Except.ok.inj h
    trivial
  · obtain rfl := Except.ok.inj h
    trivial
  · cases h

theorem Closure.answer_scoped {c : Closure} {line : Nat} {outcome : Outcome}
    (h : outcome.Scoped activations) : (c.answer line outcome).Scoped activations := by
  cases outcome with
  | normal =>
    rw [Closure.answer]
    split <;> trivial
  | _ => exact h

/-- The values of parameters are those of arguments. -/
theorem Binding.value_of_mem_ofArguments {parameters : List Parameter} {arguments : List Value}
    {line : Nat} {b : Binding} (h : b ∈ Binding.ofArguments parameters arguments line) :
    ∃ v ∈ arguments, b.value = v := by
  rw [Binding.ofArguments, ← List.map_uncurry_zip_eq_zipWith] at h
  obtain ⟨⟨p, v⟩, hpair, rfl⟩ := List.mem_map.1 h
  exact ⟨v, (List.of_mem_zip hpair).2, rfl⟩

namespace ScopeStack.Scoped

theorem read (h : σ.scopes.Scoped program activations) (addresses : Resolutions)
    (identifier : Identifier) (line : Nat) :
    (σ.read addresses identifier line).Scoped activations := by
  rw [Store.read]
  cases addresses.find identifier line with
  | error e => trivial
  | ok a =>
    cases hget : σ.scopes.get? a with
    | none => simp only [hget]; trivial
    | some v =>
      simp only [hget]
      obtain ⟨f, -, hf⟩ := Option.bind_eq_some_iff.1 hget
      exact h.values f _ v hf

theorem assign (h : σ.scopes.Scoped program activations) {v : Value} (hv : v.Scoped activations)
    (addresses : Resolutions) (target : Identifier) (line : Nat) :
    (σ.assign addresses target v line).1.Scoped activations ∧
      (σ.assign addresses target v line).2.scopes.Scoped program activations := by
  rw [Store.assign_eq]
  cases addresses.find target line with
  | error e => exact ⟨trivial, h⟩
  | ok a =>
    simp only
    cases σ.scopes.locate? a with
    | none => exact ⟨trivial, h⟩
    | some f => exact ⟨hv, h.write hv f a.slot⟩

end ScopeStack.Scoped

theorem Store.bind_scoped (addresses : Resolutions) (bs : List Binding) (σ : Store) :
    (σ.bind addresses bs).1.Scoped activations := by
  induction bs generalizing σ with
  | nil => trivial
  | cons b bs ih =>
    rw [Store.bind]
    cases addresses.find b.identifier b.line with
    | error e => trivial
    | ok a => exact ih _

theorem Closure.begin_scoped {c : Closure} {f : FrameId} {outcome : Outcome}
    (ho : outcome.Scoped activations) (hf : activations[f]? = some c.activation) :
    (c.begin outcome).Scoped program activations f := by
  cases outcome with
  | normal => exact ⟨c.activation, hf, rfl⟩
  | _ => exact ho

namespace Machine.Scoped

theorem eval (hσ : σ.scopes.Scoped program activations)
    (hk : Continuation.AllScoped program activations σ.scopes.current k) {line : Nat} {e : Expr}
    (he : Around activations σ.scopes.current (e.At program line)) :
    (Machine.eval setting line k σ e).Scoped program activations := by
  cases e with
  | literal literal => exact ⟨hσ, literal.toValue_scoped, hk⟩
  | name identifier => exact ⟨hσ, hσ.read setting.addresses identifier line, hk⟩
  | assign target value =>
    refine ⟨hσ, he.imp fun places h => ?_, he.imp fun places h => ?_, hk⟩
    · exact fun o ho => h (List.mem_append_left _ ho)
    · exact h (List.mem_append_right _ (List.mem_singleton_self _))
  | unary operator operand => exact ⟨hσ, he, trivial, hk⟩
  | binary operator left right =>
    refine ⟨hσ, he.imp fun places h => ?_, he.imp fun places h => ?_, hk⟩
    · exact fun o ho => h (List.mem_append_left _ ho)
    · exact fun o ho => h (List.mem_append_right _ ho)
  | call callee arguments =>
    refine ⟨hσ, he.imp fun places h => ?_, he.imp fun places h => ?_, hk⟩
    · exact fun o ho => h (List.mem_append_left _ ho)
    · exact fun o ho => h (List.mem_append_right _ ho)

theorem exec_block (hσ : σ.scopes.Scoped program activations)
    (hk : Continuation.AllScoped program activations σ.scopes.current k) {line : Nat} {body : List Decl}
    (hs : Around activations σ.scopes.current ((Stmt.block line body).At program)) :
    (Machine.exec k σ (.block line body)).Scoped program
      (activations ++ [⟨.block body, some σ.scopes.current⟩]) := by
  obtain ⟨places, hnest, hat⟩ := hs
  obtain ⟨hopening, hbody⟩ := Stmt.at_block.1 hat
  have hscopes := hσ.enterAt hnest hopening hbody
  have hnew := hσ.activation_new ⟨.block body, some σ.scopes.current⟩
  refine ⟨hscopes, ⟨_, hnew, rfl⟩, ?_, hk.append _⟩
  exact Nat.lt_of_lt_of_le hσ.current (by simp)

theorem exec_forLoop (hσ : σ.scopes.Scoped program activations)
    (hk : Continuation.AllScoped program activations σ.scopes.current k) {line stepLine : Nat} {first : Decl}
    {condition step : Expr} {body : Stmt}
    (hs : Around activations σ.scopes.current
      ((Stmt.forLoop line first condition stepLine step body).At program)) :
    (Machine.exec k σ (.forLoop line first condition stepLine step body)).Scoped program
      (activations ++ [⟨.loop first, some σ.scopes.current⟩]) := by
  obtain ⟨places, hnest, hat⟩ := hs
  obtain ⟨hopening, hfirst, hloop⟩ := Stmt.at_forLoop.1 hat
  have hscopes := hσ.enterAt hnest hopening hfirst
  have hnew := hσ.activation_new ⟨.loop first, some σ.scopes.current⟩
  have hinside : Nest (activations ++ [⟨.loop first, some σ.scopes.current⟩]) σ.scopes.frames.size
      ((⟨.loop first, 1⟩ :: places : List Place).map Place.scope) := .inner hnew (hnest.append _)
  refine ⟨hscopes, ⟨_, hnew, rfl⟩, ⟨_, hinside, hloop⟩, ?_, hk.append _⟩
  exact Nat.lt_of_lt_of_le hσ.current (by simp)

/-- A statement that opens no scope goes on in the same frame. -/
theorem exec_within (hσ : σ.scopes.Scoped program activations)
    (hk : Continuation.AllScoped program activations σ.scopes.current k) {s : Stmt} (hnone : s.scope? = none)
    (hs : Around activations σ.scopes.current (s.At program)) :
    (Machine.exec k σ s).Scoped program activations := by
  obtain ⟨places, hnest, hat⟩ := hs
  cases s with
  | block | forLoop => cases hnone
  | expression line value =>
    have hvalue := Stmt.at_expression.1 hat
    exact ⟨hσ, ⟨places, hnest, .of_part hvalue⟩, trivial, hk⟩
  | print line value =>
    have hvalue := Stmt.at_print.1 hat
    exact ⟨hσ, ⟨places, hnest, .of_part hvalue⟩, trivial, hk⟩
  | ifThen line condition thenBranch =>
    obtain ⟨hcondition, hthen⟩ := Stmt.at_ifThen.1 hat
    exact ⟨hσ, ⟨places, hnest, .of_part hcondition⟩, ⟨⟨places, hnest, hthen⟩, by simp⟩, hk⟩
  | ifElse line condition thenBranch elseBranch =>
    obtain ⟨hcondition, hthen, helse⟩ := Stmt.at_ifElse.1 hat
    refine ⟨hσ, ⟨places, hnest, .of_part hcondition⟩, ⟨⟨places, hnest, hthen⟩, ?_⟩, hk⟩
    rintro s ⟨⟩
    exact ⟨places, hnest, helse⟩
  | whileLoop line condition body =>
    have hloop := Stmt.at_whileLoop.1 hat
    exact ⟨hσ, ⟨places, hnest, .of_part hloop.condition⟩, ⟨places, hnest, hloop⟩, hk⟩
  | ret line value =>
    cases value with
    | none => exact ⟨hσ, trivial, hk⟩
    | some e =>
      have he := Stmt.at_ret.1 hat
      exact ⟨hσ, ⟨places, hnest, .of_part he⟩, trivial, hk⟩

theorem exec (hσ : σ.scopes.Scoped program activations)
    (hk : Continuation.AllScoped program activations σ.scopes.current k) {s : Stmt}
    (hs : Around activations σ.scopes.current (s.At program)) :
    (Machine.exec k σ s).Scoped program (activations ++ begun setting ⟨.exec s, k, σ⟩) := by
  cases s with
  | block line body => simpa [Stmt.scope?] using exec_block hσ hk hs
  | forLoop line first condition stepLine step body => simpa [Stmt.scope?] using exec_forLoop hσ hk hs
  | _ => simpa [Stmt.scope?] using exec_within hσ hk rfl hs

theorem declare (hσ : σ.scopes.Scoped program activations) {d : Decl} {ds : List Decl}
    (hk : Continuation.AllScoped program activations σ.scopes.current k)
    (hds : Around activations σ.scopes.current (Decl.AllAt program (d :: ds))) :
    (Machine.declare (.sequence ds :: k) σ d).Scoped program activations := by
  rcases hds with ⟨places, hnest, here, outer, rfl, hdeclared, hparts⟩
  obtain ⟨hd, hrest⟩ := List.append_subset.1 hparts
  have hnext : Around activations σ.scopes.current (Decl.AllAt program ds) :=
    ⟨⟨here.scope, here.position + 1⟩ :: outer, hnest, _, outer, rfl, (List.cons_subset.1 hdeclared).2, hrest⟩
  cases d with
  | binding line identifier type value =>
    obtain ⟨hvalue, hbinding⟩ := List.cons_subset.1 hd
    obtain ⟨_, ha⟩ := hnest.head
    refine ⟨hσ, ⟨_, hnest, .of_part hvalue⟩, ⟨_, ha, ?_⟩, hnext, hk⟩
    exact hbinding (List.mem_singleton_self _)
  | function | forward => exact ⟨hσ, trivial, hnext, hk⟩
  | statement s => exact ⟨hσ, ⟨_, hnest, hd⟩, hnext, hk⟩

theorem enter (hσ : σ.scopes.Scoped program activations)
    (hk : Continuation.AllScoped program activations σ.scopes.current k) {a : Activation}
    (ha : activations[σ.scopes.current]? = some a) :
    (Machine.enter setting k σ a.scope.declarations).Scoped program activations := by
  have hfunctions : ∀ b ∈ Binding.ofFunctions σ.scopes.current a.scope.declarations,
      b.value.Scoped activations := by
    intro b hb
    obtain ⟨d, hd, heq⟩ := List.mem_filterMap.1 hb
    cases d with
    | function line header body =>
      obtain rfl := Option.some.inj heq
      exact ⟨a, line, ha, hd⟩
    | _ => cases heq
  obtain ⟨outer, hnest, -, hparts⟩ := hσ.activation _ _ ha
  have hcurrent := Store.current_bind setting.addresses
    (Binding.ofFunctions σ.scopes.current a.scope.declarations) σ
  have hstack : Continuation.AllScoped program activations σ.scopes.current
      (.sequence a.scope.declarations :: k) :=
    ⟨⟨⟨a.scope, 0⟩ :: outer, hnest, _, outer, rfl, List.Subset.refl _, hparts⟩, hk⟩
  rw [← hcurrent] at hstack
  exact ⟨hσ.bind hfunctions, Store.bind_scoped .., hstack⟩

theorem call (hσ : σ.scopes.Scoped program activations)
    (hk : Continuation.AllScoped program activations σ.scopes.current k) {closure : Closure}
    {arguments : List Value} {line : Nat} (hclosure : closure.Scoped activations)
    (harguments : ∀ v ∈ arguments, v.Scoped activations) :
    (Machine.call setting k σ closure arguments line).Scoped program
      (activations ++ begun setting ⟨.call closure arguments line, k, σ⟩) := by
  by_cases hdepth : setting.maxCallDepth ≤ σ.depth
  · simp only [begun_call_of_le hdepth, call_of_le hdepth, List.append_nil]
    exact ⟨hσ, trivial, hk⟩
  rw [begun_call_of_lt hdepth, call_of_lt hdepth]
  obtain ⟨outer, hnest, hopening, hbody⟩ := hσ.function hclosure
  have hentered : (σ.enterCall closure.frame).scopes.Scoped program (activations ++ [closure.activation]) :=
    hσ.enterAt hnest hopening hbody
  have hparameters : ∀ b ∈ Binding.ofArguments closure.header.parameters arguments line,
      b.value.Scoped (activations ++ [closure.activation]) := by
    intro b hb
    obtain ⟨v, hv, hvalue⟩ := Binding.value_of_mem_ofArguments hb
    rw [hvalue]
    exact (harguments v hv).append _
  refine ⟨hentered.bind hparameters, Closure.begin_scoped (Store.bind_scoped ..) ?_, ?_, hk.append _⟩
  · rw [Store.current_bind]
    exact hσ.activation_new closure.activation
  · exact Nat.lt_of_lt_of_le hσ.current (by simp)

theorem nextArgument (hσ : σ.scopes.Scoped program activations)
    (hk : Continuation.AllScoped program activations σ.scopes.current k) {closure : Closure}
    {values : List Value} {line : Nat} {rest : List Expr} (hclosure : closure.Scoped activations)
    (hvalues : ∀ v ∈ values, v.Scoped activations)
    (hrest : Around activations σ.scopes.current (Expr.AllAt program line rest)) :
    (Machine.nextArgument k σ closure values line rest).Scoped program activations := by
  cases rest with
  | nil => exact ⟨hσ, ⟨hclosure, fun v hv => hvalues v (List.mem_reverse.1 hv)⟩, hk⟩
  | cons e es =>
    rcases hrest with ⟨places, hnest, hes⟩
    obtain ⟨he, hes⟩ := List.append_subset.1 hes
    exact ⟨hσ, ⟨places, hnest, he⟩, ⟨hclosure, hvalues, places, hnest, hes⟩, hk⟩

/-! ### An outcome for each kind of continuation -/

section

variable (hσ : σ.scopes.Scoped program activations) {line : Nat} {v : Value}
  (hk : Continuation.AllScoped program activations σ.scopes.current k)

include hσ hk

theorem resume_assign {target : Identifier} (hv : v.Scoped activations) :
    (Machine.resume setting k σ (.assign target line) (.value v)).Scoped program activations := by
  obtain ⟨houtcome, hscopes⟩ := hσ.assign hv setting.addresses target line
  rw [← σ.current_assign setting.addresses target v line] at hk
  exact ⟨hscopes, houtcome, hk⟩

theorem resume_callee {arguments : List Expr} (hv : v.Scoped activations)
    (hc : Around activations σ.scopes.current (Expr.AllAt program line arguments)) :
    (Machine.resume setting k σ (.callee arguments line) (.value v)).Scoped program activations := by
  cases v with
  | function closure => exact nextArgument hσ hk hv (by simp) hc
  | _ => exact ⟨hσ, trivial, hk⟩

theorem resume_print : (Machine.resume setting k σ (.print line) (.value v)).Scoped program activations := by
  rw [Machine.resume, Store.print]
  simp only
  split <;> exact ⟨hσ, trivial, hk⟩

theorem resume_branch {thenBranch : Stmt} {elseBranch : Option Stmt}
    (hthen : Around activations σ.scopes.current (thenBranch.At program))
    (helse : ∀ s, elseBranch = some s → Around activations σ.scopes.current (s.At program)) :
    (Machine.resume setting k σ (.branch line thenBranch elseBranch) (.value v)).Scoped program
      activations := by
  cases v with
  | boolean b =>
    cases b with
    | true => exact ⟨hσ, hthen, hk⟩
    | false =>
      cases elseBranch with
      | none => exact ⟨hσ, trivial, hk⟩
      | some s => exact ⟨hσ, helse s rfl, hk⟩
  | _ => exact ⟨hσ, trivial, hk⟩

theorem resume_test {loop : Loop} (hloop : Around activations σ.scopes.current (loop.At program)) :
    (Machine.resume setting k σ (.test loop) (.value v)).Scoped program activations := by
  cases v with
  | boolean b =>
    cases b with
    | true => exact ⟨hσ, hloop.imp fun places h => h.body, hloop, hk⟩
    | false => exact ⟨hσ, trivial, hk⟩
  | _ => exact ⟨hσ, trivial, hk⟩

theorem resume_step {loop : Loop} (hloop : Around activations σ.scopes.current (loop.At program)) :
    (Machine.resume setting k σ (.step loop) .normal).Scoped program activations := by
  obtain ⟨line, condition, step, body⟩ := loop
  cases step with
  | none => exact ⟨hσ, hloop.imp fun places h => .of_part h.condition, hloop, hk⟩
  | some step =>
    have hstep : Around activations σ.scopes.current ((Stmt.expression step.1 step.2).At program) :=
      hloop.imp fun places h => Stmt.at_expression.2 (h.step _ _ rfl)
    exact ⟨hσ, hstep, hloop, hk⟩

theorem resume_bind {identifier : Identifier} (hv : v.Scoped activations) :
    (Machine.resume setting k σ (.bind identifier line) (.value v)).Scoped program activations := by
  have hbindings : ∀ b ∈ [Binding.mk identifier v line], b.value.Scoped activations := by simpa using hv
  have houtcome : (σ.bind setting.addresses [⟨identifier, v, line⟩]).1.Scoped activations :=
    Store.bind_scoped ..
  rw [← Store.current_bind setting.addresses [⟨identifier, v, line⟩] σ] at hk
  exact ⟨hσ.bind hbindings, houtcome, hk⟩

end

theorem resume (hσ : σ.scopes.Scoped program activations) {c : Continuation} {outcome : Outcome}
    (hc : c.Scoped program activations σ.scopes.current)
    (hk : Continuation.AllScoped program activations (c.after σ.scopes.current) k)
    (ho : outcome.Scoped activations) :
    (Machine.resume setting k σ c outcome).Scoped program activations := by
  rcases c.accepts_or_passes outcome with haccepts | hpasses
  · cases haccepts with
    | operand operator right line left => exact ⟨hσ, hc, ho, hk⟩
    | binary operator left line right =>
      exact ⟨hσ, Outcome.ofResult_scoped fun v hv => BinaryOperator.apply_scoped hv, hk⟩
    | unary operator line operand =>
      exact ⟨hσ, Outcome.ofResult_scoped fun v hv => UnaryOperator.apply_scoped hv, hk⟩
    | assign => exact resume_assign hσ hk ho
    | callee => exact resume_callee hσ hk ho hc
    | argument =>
      obtain ⟨hclosure, hvalues, hrest⟩ := hc
      exact nextArgument hσ hk hclosure (List.forall_mem_cons.2 ⟨ho, hvalues⟩) hrest
    | discard => exact ⟨hσ, trivial, hk⟩
    | print => exact resume_print hσ hk
    | branch => exact resume_branch hσ hk hc.1 hc.2
    | test => exact resume_test hσ hk hc
    | step => exact resume_step hσ hk hc
    | again => exact ⟨hσ, hc.imp fun places h => .of_part h.condition, hc, hk⟩
    | ret => exact ⟨hσ, ho, hk⟩
    | bind => exact resume_bind hσ hk ho
    | sequence => exact declare hσ hk hc
    | leave => exact ⟨hσ.restore hc, ho, hk⟩
    | endCall => exact ⟨hσ.restore hc, Closure.answer_scoped ho, hk⟩
  · rw [hpasses.after] at hk
    rw [hpasses.resume]
    exact ⟨hσ, ho, hk⟩

theorem step {m : Machine} (h : m.Scoped program activations) :
    (m.step setting).Scoped program (activations ++ m.begun setting) := by
  obtain ⟨control, k, σ⟩ := m
  obtain ⟨hσ, hcontrol, hk⟩ := h
  cases control with
  | eval line e => simpa [Machine.step] using eval hσ hk hcontrol
  | exec s => exact exec hσ hk hcontrol
  | enter declarations =>
    obtain ⟨a, ha, rfl⟩ := hcontrol
    simpa [Machine.step] using enter hσ hk ha
  | call closure arguments line => exact call hσ hk hcontrol.1 hcontrol.2
  | ended outcome =>
    cases k with
    | nil => simpa [Machine.step] using Machine.Scoped.mk hσ hcontrol hk
    | cons c k => simpa [Machine.step] using resume hσ hk.1 hk.2 hcontrol

/-- The start of a run in the global frame. -/
theorem launch (hσ : σ.scopes.Scoped program activations) (hcurrent : σ.scopes.current = 0) :
    (program.launch σ).Scoped program activations := by
  refine ⟨hσ, ⟨⟨program.scope, none⟩, ?_, rfl⟩, hcurrent⟩
  change activations[σ.scopes.current]? = _
  rw [hcurrent]
  exact hσ.global

theorem start (program : Program) (sink : Sink) :
    (program.launch (.start sink)).Scoped program (History.start program).activations := by
  have hglobal : (History.start program).activations[0]? = some ⟨program.scope, none⟩ := rfl
  refine launch ⟨rfl, Nat.zero_lt_one, hglobal, ?_, ?_⟩ rfl
  · intro f a ha
    obtain rfl := List.mem_singleton.1 (List.mem_of_getElem? ha)
    have hf : f = 0 := by simpa [History.start] using (List.getElem?_eq_some_iff.1 ha).1
    subst hf
    obtain ⟨hopening, hparts⟩ := List.cons_subset.1 (List.Subset.refl program.parts)
    exact ⟨[], .global hglobal, hopening, hparts⟩
  · intro f i v hv
    change ScopeStack.global.slot? f i = some v at hv
    rw [ScopeStack.slot?_global] at hv
    cases hv

end Machine.Scoped

/-- At every moment of a run, code and frames belong together. -/
theorem Run.scoped {m : Machine} {h : History} (hrun : Run setting program m h) :
    m.Scoped program h.activations := by
  induction hrun with
  | start sink => exact .start program sink
  | step before ih =>
    rw [History.activations_next]
    exact ih.step
  | again before finished sink ih =>
    have hcurrent := ih.stack
    rw [(Machine.of_outcome? finished).2] at hcurrent
    exact .launch ih.scopes hcurrent

end LexScript
