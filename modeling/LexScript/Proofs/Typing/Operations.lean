import Mathlib
import LexScript.Proofs.Machine.ScopedRun
import LexScript.Proofs.Machine.Typed

/-!
# Operations and their types

The type of an operation is found from the types of its operands alone, and its result from their values. The
two tables agree on all values of a program: `Program.operations_as_typed`. Values of different types are
never equal, since an identity, by which functions are compared, belongs to one declaration. A run of the
program has no other values: `Run.declaredIn`.
-/

namespace LexScript

mutual

def Stmt.headers : Stmt → List FunctionHeader
  | .expression .. | .print .. | .ret .. => []
  | .block _ body => Decl.headersOf body
  | .ifThen _ _ thenBranch => thenBranch.headers
  | .ifElse _ _ thenBranch elseBranch => thenBranch.headers ++ elseBranch.headers
  | .whileLoop _ _ body => body.headers
  | .forLoop _ first _ _ _ body => first.headers ++ body.headers

def Decl.headers : Decl → List FunctionHeader
  | .binding .. | .forward .. => []
  | .function _ header body => header :: Decl.headersOf body
  | .statement s => s.headers

def Decl.headersOf : List Decl → List FunctionHeader
  | [] => []
  | d :: ds => d.headers ++ Decl.headersOf ds

end

/-- The functions with a body that a program declares. -/
def Program.headers (program : Program) : List FunctionHeader := Decl.headersOf program.declarations

/-- The value is one of the program: a function is one that the program declares. -/
def Value.DeclaredIn (program : Program) : Value → Prop
  | .function c => c.header ∈ program.headers
  | _ => True

mutual

theorem Stmt.headers_sublist : ∀ s : Stmt, (s.headers.map FunctionHeader.identifier).Sublist s.identifiers
  | .expression .. | .print .. | .ret .. => List.nil_sublist _
  | .block _ body => Decl.headersOf_sublist body
  | .ifThen _ _ thenBranch => thenBranch.headers_sublist.trans (List.sublist_append_right ..)
  | .ifElse _ _ thenBranch elseBranch => by
    rw [Stmt.headers, List.map_append]
    exact (thenBranch.headers_sublist.trans (List.sublist_append_right ..)).append elseBranch.headers_sublist
  | .whileLoop _ _ body => body.headers_sublist.trans (List.sublist_append_right ..)
  | .forLoop _ first condition _ step body => by
    simp only [Stmt.headers, List.map_append, Stmt.identifiers, List.append_assoc]
    refine first.headers_sublist.append (body.headers_sublist.trans ?_)
    rw [← List.append_assoc]
    exact List.sublist_append_right ..

theorem Decl.headers_sublist : ∀ d : Decl, (d.headers.map FunctionHeader.identifier).Sublist d.identifiers
  | .binding .. | .forward .. => List.nil_sublist _
  | .function _ header body => by
    simp only [Decl.headers, List.map_cons, Decl.identifiers, FunctionHeader.identifiers, List.cons_append]
    exact ((Decl.headersOf_sublist body).trans (List.sublist_append_right ..)).cons_cons _
  | .statement s => s.headers_sublist

theorem Decl.headersOf_sublist : ∀ ds : List Decl,
    ((Decl.headersOf ds).map FunctionHeader.identifier).Sublist (Decl.identifiersOf ds)
  | [] => .slnil
  | d :: ds => by
    rw [Decl.headersOf, List.map_append]
    exact d.headers_sublist.append (Decl.headersOf_sublist ds)

end

/-- An identity belongs to one function. -/
theorem Program.DistinctIdentities.eq_of_id_eq {program : Program} (h : program.DistinctIdentities)
    {f g : FunctionHeader} (hf : f ∈ program.headers) (hg : g ∈ program.headers)
    (hid : f.identifier.id = g.identifier.id) : f = g := by
  have hids : (program.headers.map fun f => f.identifier.id).Nodup := by
    have hsublist := (Decl.headersOf_sublist program.declarations).map Identifier.id
    rw [List.map_map] at hsublist
    exact h.sublist hsublist
  exact List.inj_on_of_nodup_map hids hf hg hid

/-! ## The values of a run -/

/-- The function that the part opens, if it opens one, is among those with the given headers. -/
def Part.DeclaredIn (headers : List FunctionHeader) : Part → Prop
  | opening (.function header _) _ => header ∈ headers
  | _ => True

mutual

theorem Stmt.parts_declaredIn {headers : List FunctionHeader} : ∀ (s : Stmt) (places : List Place),
    s.headers ⊆ headers → ∀ p ∈ s.parts places, p.DeclaredIn headers
  | .expression .., _, _ | .print .., _, _ | .ret _ none, _, _ | .ret _ (some _), _, _ => by
    simp [Stmt.parts, Part.DeclaredIn]
  | .block _ body, places, h => by
    simp only [Stmt.parts, List.forall_mem_cons]
    exact ⟨trivial, Decl.partsFrom_declaredIn body (.block body) 0 places h⟩
  | .ifThen _ _ thenBranch, places, h => by
    simp only [Stmt.parts, List.forall_mem_cons]
    exact ⟨trivial, thenBranch.parts_declaredIn places h⟩
  | .ifElse _ _ thenBranch elseBranch, places, h => by
    rw [Stmt.headers, List.append_subset] at h
    simp only [Stmt.parts, List.forall_mem_cons, List.forall_mem_append]
    exact ⟨trivial, thenBranch.parts_declaredIn places h.1, elseBranch.parts_declaredIn places h.2⟩
  | .whileLoop _ _ body, places, h => by
    simp only [Stmt.parts, List.forall_mem_cons]
    exact ⟨trivial, body.parts_declaredIn places h⟩
  | .forLoop _ first _ _ _ body, places, h => by
    rw [Stmt.headers, List.append_subset] at h
    simp only [Stmt.parts, List.forall_mem_cons, List.forall_mem_append]
    exact ⟨trivial, first.parts_declaredIn _ _ h.1, trivial, trivial, body.parts_declaredIn _ h.2⟩

theorem Decl.parts_declaredIn {headers : List FunctionHeader} : ∀ (d : Decl) (here : Place)
    (outer : List Place), d.headers ⊆ headers → ∀ p ∈ d.parts here outer, p.DeclaredIn headers
  | .binding .., _, _, _ | .forward .., _, _, _ => by simp [Decl.parts, Part.DeclaredIn]
  | .function _ header body, here, outer, h => by
    rw [Decl.headers, List.cons_subset] at h
    rw [Decl.parts, List.forall_mem_cons]
    exact ⟨h.1, Decl.partsFrom_declaredIn body (.function header body) 0 (here :: outer) h.2⟩
  | .statement s, here, outer, h => s.parts_declaredIn (here :: outer) h

theorem Decl.partsFrom_declaredIn {headers : List FunctionHeader} : ∀ (ds : List Decl) (scope : Scope)
    (position : Nat) (outer : List Place), Decl.headersOf ds ⊆ headers →
      ∀ p ∈ Decl.partsFrom scope position outer ds, p.DeclaredIn headers
  | [], _, _, _, _ => by simp [Decl.partsFrom]
  | d :: ds, scope, position, outer, h => by
    rw [Decl.headersOf, List.append_subset] at h
    rw [Decl.partsFrom, List.forall_mem_append]
    exact ⟨d.parts_declaredIn _ outer h.1, Decl.partsFrom_declaredIn ds scope (position + 1) outer h.2⟩

end

theorem Program.parts_declaredIn (program : Program) : ∀ p ∈ program.parts, p.DeclaredIn program.headers := by
  rw [parts, List.forall_mem_cons]
  exact ⟨trivial, Decl.partsFrom_declaredIn program.declarations program.scope 0 [] (List.Subset.refl _)⟩

/-- A value that a machine has at hand: the outcome of what ran last, a callee or an argument, an operand
that waits for the next one, or what a slot holds. -/
inductive Machine.Holds (m : Machine) : Value → Prop
  | value {v : Value} (control : m.control = .ended (.value v)) : Holds m v
  | returned {v : Value} (control : m.control = .ended (.returned v)) : Holds m v
  | callee {c : Closure} {arguments : List Value} {line : Nat}
    (control : m.control = .call c arguments line) : Holds m (.function c)
  | argument {c : Closure} {arguments : List Value} {line : Nat} {v : Value}
    (control : m.control = .call c arguments line) (given : v ∈ arguments) : Holds m v
  | operand {operator : BinaryOperator} {left : Value} {line : Nat}
    (waiting : .binary operator left line ∈ m.stack) : Holds m left
  | laterCallee {c : Closure} {values : List Value} {rest : List Expr} {line : Nat}
    (waiting : .argument c values rest line ∈ m.stack) : Holds m (.function c)
  | laterArgument {c : Closure} {values : List Value} {rest : List Expr} {line : Nat} {v : Value}
    (waiting : .argument c values rest line ∈ m.stack) (given : v ∈ values) : Holds m v
  | slot {f : FrameId} {i : Nat} {v : Value} (stored : m.store.scopes.slot? f i = some v) : Holds m v

section

variable {setting : Setting} {program : Program} {activations : List Activation} {m : Machine} {v : Value}

/-- What belongs to a waiting continuation belongs to some frame. -/
theorem Continuation.AllScoped.of_mem {k : List Continuation} {c : Continuation} {f : FrameId}
    (h : AllScoped program activations f k) (hc : c ∈ k) : ∃ g, c.Scoped program activations g := by
  induction k generalizing f with
  | nil => cases hc
  | cons d k ih =>
    cases hc with
    | head => exact ⟨f, h.1⟩
    | tail _ hc => exact ih h.2 hc

/-- Whatever a machine holds has captured an activation, if it is a function. -/
theorem Machine.Scoped.of_holds (h : m.Scoped program activations) (hv : m.Holds v) : v.Scoped activations := by
  have hcontrol := h.control
  cases hv with
  | value control | returned control =>
    rw [control] at hcontrol
    exact hcontrol
  | callee control =>
    rw [control] at hcontrol
    exact hcontrol.1
  | argument control given =>
    rw [control] at hcontrol
    exact hcontrol.2 v given
  | operand waiting =>
    obtain ⟨f, hleft⟩ := h.stack.of_mem waiting
    exact hleft
  | laterCallee waiting =>
    obtain ⟨f, hcallee, -⟩ := h.stack.of_mem waiting
    exact hcallee
  | laterArgument waiting given =>
    obtain ⟨f, -, hvalues, -⟩ := h.stack.of_mem waiting
    exact hvalues v given
  | slot stored => exact h.scopes.values _ _ v stored

/-- Every value that a run has at hand at some moment is one of the program, also when the program runs
again on what is left. -/
theorem Run.declaredIn {h : History} (hrun : Run setting program m h) (hv : m.Holds v) :
    v.DeclaredIn program := by
  have hscoped := hrun.scoped
  have hvalue := hscoped.of_holds hv
  cases v with
  | function c =>
    obtain ⟨outer, -, hopening, -⟩ := hscoped.scopes.function hvalue
    exact program.parts_declaredIn _ hopening
  | _ => trivial

end

/-! ## Types and results -/

section

variable {program : Program} {l r v : Value}

/-- Values of different types are not equal. -/
theorem Value.same_eq_false (hids : program.DistinctIdentities) (hl : l.DeclaredIn program)
    (hr : r.DeclaredIn program) (h : l.type ≠ r.type) : l.same r = false := by
  unfold same
  split
  case h_4 c d =>
    -- Functions are compared by identity, and an identity has one type.
    refine Bool.eq_false_iff.2 fun hsame => h ?_
    obtain ⟨hid, -⟩ := Bool.and_eq_true_iff.1 hsame
    exact congrArg FunctionHeader.type (hids.eq_of_id_eq hl hr (of_decide_eq_true hid))
  case h_6 => rfl
  all_goals exact absurd rfl h

/-- Zero of either sign equals zero, and nothing else does. -/
theorem Number.beq_zero_iff {y : Float} : (y == 0) = true ↔ y = 0 ∨ y = -0 := by
  have hzero : (0 : Float) ≠ .nan := by decide
  have hnegative : (-0 : Float) ≠ .nan := by decide
  have hsigns : (0 : Float) ≠ -0 := by decide
  rw [Float.beq_iff_ne_nan_and_eq]
  constructor
  · rintro ⟨-, -, h | ⟨-, h⟩ | ⟨h, -⟩⟩
    · exact .inl h
    · exact absurd h hsigns
    · exact .inr h
  · rintro (rfl | rfl)
    · exact ⟨hzero, hzero, .inl rfl⟩
    · exact ⟨hnegative, hzero, .inr (.inr ⟨rfl, rfl⟩)⟩

namespace BinaryOperator

variable {operator : BinaryOperator}

def DividesByZero (operator : BinaryOperator) (l r : Value) : Prop :=
  (operator = .divide ∨ operator = .modulo) ∧ ∃ x y, l = .number x ∧ r = .number y ∧ (y = 0 ∨ y = -0)

theorem apply_eq_divisionByZero_iff :
    operator.apply l r = .error .divisionByZero ↔ operator.DividesByZero l r := by
  constructor
  · intro h
    unfold apply at h
    split at h
    case h_4 l r =>
      rcases repeated_cases l r with ⟨t, hrepeated⟩ | hrepeated <;> rw [hrepeated] at h <;> cases h
    case h_8 l r =>
      split at h
      · rename_i hzero
        exact ⟨.inl rfl, l, r, rfl, rfl, Number.beq_zero_iff.1 hzero⟩
      · cases h
    case h_9 l r =>
      split at h
      · rename_i hzero
        exact ⟨.inr rfl, l, r, rfl, rfl, Number.beq_zero_iff.1 hzero⟩
      · cases h
    all_goals cases h
  · rintro ⟨rfl | rfl, x, y, rfl, rfl, hzero⟩
    · exact if_pos (Number.beq_zero_iff.2 hzero)
    · exact if_pos (Number.beq_zero_iff.2 hzero)

/-- Only a repeated string can be too large. -/
theorem eq_multiply_of_repeatTooLarge {count : String} {limit : Nat}
    (h : operator.apply l r = .error (.repeatTooLarge count limit)) :
    operator = .multiply ∧ ∃ s x, l = .string s ∧ r = .number x := by
  unfold apply at h
  split at h
  case h_4 s x => exact ⟨rfl, s, x, rfl, rfl⟩
  case h_8 | h_9 => split at h <;> cases h
  all_goals cases h

/-- Operands that the operator accepts have a result of its type, unless they are divided by zero or make
too large a string. -/
theorem apply_of_resultType? {t : Ty} (h : operator.resultType? l.type r.type = some t) :
    (∃ v, operator.apply l r = .ok v ∧ v.type = t) ∨ operator.apply l r = .error .divisionByZero ∨
      ∃ count limit, operator.apply l r = .error (.repeatTooLarge count limit) := by
  rcases cases_of_resultType? h with
    ⟨hequality, rfl⟩ | ⟨rfl, hl, hr, rfl⟩ | ⟨hl, hr⟩ | ⟨hl, hr⟩ | ⟨hl, hr⟩
  · rcases hequality with rfl | rfl <;> exact .inl ⟨_, rfl, rfl⟩
  · obtain ⟨s, rfl⟩ := Value.eq_string hl
    obtain ⟨x, rfl⟩ := Value.eq_number hr
    rw [apply]
    rcases repeated_cases s x with ⟨t, hrepeated⟩ | hrepeated <;> rw [hrepeated]
    · exact .inl ⟨_, rfl, rfl⟩
    · exact .inr (.inr ⟨_, _, rfl⟩)
  · obtain ⟨s, rfl⟩ := Value.eq_string hl
    obtain ⟨u, rfl⟩ := Value.eq_string hr
    cases operator <;> cases h <;> exact .inl ⟨_, rfl, rfl⟩
  · obtain ⟨x, rfl⟩ := Value.eq_number hl
    obtain ⟨y, rfl⟩ := Value.eq_number hr
    cases operator with
    | divide | modulo =>
      cases h
      rw [apply]
      split
      · exact .inr (.inl rfl)
      · exact .inl ⟨_, rfl, rfl⟩
    | _ => cases h <;> exact .inl ⟨_, rfl, rfl⟩
  · obtain ⟨a, rfl⟩ := Value.eq_boolean hl
    obtain ⟨b, rfl⟩ := Value.eq_boolean hr
    cases operator <;> cases h <;> exact .inl ⟨_, rfl, rfl⟩

/-- What becomes of operands that the operator does not accept: they are unequal, or refused. -/
def mismatch (operator : BinaryOperator) (l r : Value) : Except Cause Value :=
  match operator with
  | .equal => .ok (.boolean false)
  | .notEqual => .ok (.boolean true)
  | operator => .error (.invalidOperands operator.symbol l.kindName r.kindName)

theorem apply_of_resultType?_eq_none (hids : program.DistinctIdentities) (hl : l.DeclaredIn program)
    (hr : r.DeclaredIn program) (h : operator.resultType? l.type r.type = none) :
    operator.apply l r = operator.mismatch l r := by
  have hdiffers : operator = .equal ∨ operator = .notEqual → l.same r = false := by
    intro hequality
    refine Value.same_eq_false hids hl hr fun htypes => ?_
    rcases hequality with rfl | rfl
    · rw [resultType?, if_pos htypes] at h
      cases h
    · rw [resultType?, if_pos htypes] at h
      cases h
  cases operator with
  | equal => simp [apply, hdiffers (.inl rfl), mismatch]
  | notEqual => simp [apply, hdiffers (.inr rfl), mismatch]
  | _ => cases l <;> cases r <;> first | rfl | cases h

end BinaryOperator

namespace UnaryOperator

variable {operator : UnaryOperator}

theorem apply_of_resultType? {t : Ty} (h : operator.resultType? v.type = some t) :
    ∃ w, operator.apply v = .ok w ∧ w.type = t := by
  cases operator <;> cases v <;> cases h <;> exact ⟨_, rfl, rfl⟩

theorem apply_eq_invalidOperand_iff : operator.apply v = .error (.invalidOperand operator.symbol v.kindName) ↔
    operator.resultType? v.type = none := by
  cases operator <;> cases v <;> simp [apply, resultType?, Value.type, FunctionHeader.type]

end UnaryOperator

/-- A run that meets operands of types that the operator does not accept goes on with their mismatch. -/
theorem Run.step_of_resultType?_eq_none {setting : Setting} {m : Machine} {h : History}
    (hids : program.DistinctIdentities) (hrun : Run setting program m h) {operator : BinaryOperator}
    {line : Nat} {k : List Continuation} (hcontrol : m.control = .ended (.value r))
    (hstack : m.stack = .binary operator l line :: k) (htypes : operator.resultType? l.type r.type = none) :
    m.step setting = ⟨.ended (.ofResult line (operator.mismatch l r)), k, m.store⟩ := by
  have hr := hrun.declaredIn (.value hcontrol)
  have hl : l.DeclaredIn program := hrun.declaredIn (.operand (hstack ▸ List.mem_cons_self ..))
  have hresult := BinaryOperator.apply_of_resultType?_eq_none hids hl hr htypes
  obtain ⟨control, k', σ⟩ := m
  obtain rfl := hcontrol
  obtain rfl := hstack
  simp only [Machine.step, Machine.resume, hresult]

/-- Operands whose types an operator accepts have a result of the type of the operation. Only a division by zero
and a string that would be too large fail in its place. Values of other types are unequal to each other, and
every other operation refuses them. -/
theorem Program.operations_as_typed (hids : program.DistinctIdentities) (hl : l.DeclaredIn program)
    (hr : r.DeclaredIn program) (binary : BinaryOperator) (unary : UnaryOperator) (v : Value) :
    ((∀ t, binary.resultType? l.type r.type = some t →
        (∃ w, binary.apply l r = .ok w ∧ w.type = t) ∨ binary.apply l r = .error .divisionByZero ∨
          ∃ count limit, binary.apply l r = .error (.repeatTooLarge count limit)) ∧
      (binary.apply l r = .error .divisionByZero ↔ binary.DividesByZero l r) ∧
      (∀ count limit, binary.apply l r = .error (.repeatTooLarge count limit) →
        binary = .multiply ∧ ∃ s x, l = .string s ∧ r = .number x) ∧
      (binary.resultType? l.type r.type = none → binary.apply l r = binary.mismatch l r)) ∧
    (∀ t, unary.resultType? v.type = some t → ∃ w, unary.apply v = .ok w ∧ w.type = t) ∧
      (unary.apply v = .error (.invalidOperand unary.symbol v.kindName) ↔ unary.resultType? v.type = none) := by
  refine ⟨⟨?_, ?_, ?_, ?_⟩, ?_, ?_⟩
  · exact fun t h => BinaryOperator.apply_of_resultType? h
  · exact BinaryOperator.apply_eq_divisionByZero_iff
  · exact fun count limit h => BinaryOperator.eq_multiply_of_repeatTooLarge h
  · exact BinaryOperator.apply_of_resultType?_eq_none hids hl hr
  · exact fun t h => UnaryOperator.apply_of_resultType? h
  · exact UnaryOperator.apply_eq_invalidOperand_iff

end

def Closure.unarySample : Closure := ⟨⟨⟨"f", 0⟩, [⟨⟨"a", 1⟩, .number⟩], .void⟩, [], 0⟩

def Closure.nullarySample : Closure := ⟨⟨⟨"g", 2⟩, [], .void⟩, [], 0⟩

def Program.functionsSample : Program where
  declarations := [.function 1 Closure.unarySample.header [], .function 2 Closure.nullarySample.header []]
  identifierCount := 3

/-- The two functions of the sample are not equal, and can not be added. -/
theorem Program.operations_as_typed_functionsSample :
    (functionsSample.DistinctIdentities ∧ (Value.function .unarySample).DeclaredIn functionsSample ∧
      (Value.function .nullarySample).DeclaredIn functionsSample ∧
      BinaryOperator.equal.resultType? Closure.unarySample.header.type Closure.nullarySample.header.type = none ∧
      BinaryOperator.plus.resultType? Closure.unarySample.header.type Closure.nullarySample.header.type = none) ∧
      BinaryOperator.equal.apply (.function .unarySample) (.function .nullarySample) = .ok (.boolean false) ∧
      BinaryOperator.plus.apply (.function .unarySample) (.function .nullarySample) =
        .error (.invalidOperands "+" "function" "function") := by
  have hids : functionsSample.DistinctIdentities := by decide
  have hunary : (Value.function .unarySample).DeclaredIn functionsSample := List.mem_cons_self ..
  have hnullary : (Value.function .nullarySample).DeclaredIn functionsSample :=
    List.mem_cons_of_mem _ (List.mem_cons_self ..)
  have hresult := fun operator =>
    (operations_as_typed hids hunary hnullary operator .not .void).1.2.2.2
  exact ⟨⟨hids, hunary, hnullary, by decide, by decide⟩, hresult .equal (by decide), hresult .plus (by decide)⟩

end LexScript
