import LexScript.Proofs.Typing.Frames

/-!
# What a check puts back

The walk that finds the type of an expression is taken here with the whole state of the check at hand at
every point, as the check of declarations has it. It finds what `Context.typeOf` finds and leaves the state
alone. So whatever a check meets, and at whatever depth, afterwards the same frame is current, inside the
same function, and no binding is lost: `Typing.Check.state_put_back`.
-/

namespace LexScript.Typing.Check

section

variable (addresses : Resolutions) (line : Nat)

def lookup (identifier : Identifier) : Check Ty := do
  let address ← ofExcept (addresses.find identifier line)
  match (← get).scopes.get? address with
  | some type => pure type
  | none => throw ⟨.typeNotKnown identifier.name, line⟩

def expr (e : Expr) : Check Ty := typeExpr (lookup addresses line) line e

/-- The check only reads the state, and finds in it what is found in the context. -/
def Reads {α : Type} (c : Check α) (found : Context → Except Error α) : Prop :=
  ∀ s : State, c s = ofExcept (found ⟨addresses, s.scopes, line⟩) s

end

section

variable {addresses : Resolutions} {line : Nat} {α β : Type} {c : Check α} {found : Context → Except Error α}

/-- What only reads leaves the state alone, also when it fails. -/
theorem Reads.final_eq (h : Reads addresses line c found) (s : State) : c.final s = s := by
  rw [final, h s]
  cases found ⟨addresses, s.scopes, line⟩ <;> rfl

theorem Reads.bind {f : α → Check β} {next : α → Context → Except Error β}
    (h : Reads addresses line c found) (hf : ∀ a, Reads addresses line (f a) (next a)) :
    Reads addresses line (c >>= f) fun x => found x >>= fun a => next a x := by
  intro s
  change EStateM.bind c f s =
    ofExcept (found ⟨addresses, s.scopes, line⟩ >>= fun a => next a ⟨addresses, s.scopes, line⟩) s
  rw [EStateM.bind, h s]
  cases found ⟨addresses, s.scopes, line⟩ with
  | ok a => exact hf a s
  | error e => rfl

theorem lookup_reads (i : Identifier) : Reads addresses line (lookup addresses line i) (·.lookup i) := by
  have haddress : Reads addresses line (ofExcept (addresses.find i line))
      fun c => c.addresses.find i c.line := fun _ => rfl
  unfold lookup Context.lookup
  refine haddress.bind fun address s => ?_
  have hget : (MonadState.get : Check State) s = .ok s s := rfl
  change EStateM.bind MonadState.get _ s = _
  rw [EStateM.bind, hget]
  dsimp only
  cases s.scopes.get? address <;> rfl

theorem requireValue_reads (type : Ty) :
    Reads addresses line (requireValue line type) (requireValue ·.line type) := by
  intro s
  unfold requireValue
  split <;> rfl

mutual

theorem typeExpr_reads : ∀ e : Expr,
    Reads addresses line (typeExpr (lookup addresses line) line e) fun c => typeExpr c.lookup c.line e
  | .literal value => by
    simp only [typeExpr]
    exact fun _ => rfl
  | .name i => by
    simp only [typeExpr]
    exact lookup_reads i
  | .assign target value => by
    simp only [typeExpr]
    refine (typeExpr_reads value).bind fun type => (requireValue_reads type).bind fun received => ?_
    refine (lookup_reads target).bind fun expected s => ?_
    split <;> rfl
  | .unary operator operand => by
    simp only [typeExpr]
    refine (typeExpr_reads operand).bind fun type => (requireValue_reads type).bind fun operand s => ?_
    cases operator.resultType? operand <;> rfl
  | .binary operator left right => by
    simp only [typeExpr]
    refine (typeExpr_reads left).bind fun type => (requireValue_reads type).bind fun left => ?_
    refine (typeExpr_reads right).bind fun type => (requireValue_reads type).bind fun right s => ?_
    cases operator.resultType? left right <;> rfl
  | .call callee arguments => by
    simp only [typeExpr]
    refine (typeExpr_reads callee).bind fun type => (requireValue_reads type).bind fun callee => ?_
    cases callee with
    | function parameters returns => exact (fitArguments_reads parameters arguments).bind fun _ _ => rfl
    | _ => exact fun _ => rfl

theorem fitArguments_reads : ∀ (parameters : List Ty) (arguments : List Expr),
    Reads addresses line (fitArguments (lookup addresses line) line parameters arguments)
      fun c => fitArguments c.lookup c.line parameters arguments
  | [], _ => by
    simp only [fitArguments]
    exact fun _ => rfl
  | _ :: _, [] => by
    simp only [fitArguments]
    exact fun _ => rfl
  | expected :: parameters, argument :: arguments => by
    simp only [fitArguments]
    refine (typeExpr_reads argument).bind fun type => (requireValue_reads type).bind fun received => ?_
    by_cases hfit : received = expected
    · simp only [if_pos hfit]
      exact fitArguments_reads parameters arguments
    · simp only [if_neg hfit]
      exact fun _ => rfl

end

theorem expr_reads (e : Expr) : Reads addresses line (expr addresses line e) (·.typeOf e) :=
  typeExpr_reads e

end

/-- The state of a check is put back. For any state, addresses and code, and whether the check ends with an
error or not, after a check of declarations the same frame is current and the functions around are the same;
frames that were there have the same parents and, but for the current one, the same bindings, and in the
current one no slot has become empty. The type of an expression is found without any change. -/
theorem state_put_back (addresses : Resolutions) (s : State) :
    (∀ declarations, s.Keeps ((Check.declarations addresses declarations).final s)) ∧
      ∀ line e, (expr addresses line e).final s = s ∧
        expr addresses line e s = ofExcept (Context.typeOf ⟨addresses, s.scopes, line⟩ e) s := by
  refine ⟨fun ds => ?_, fun line e => ⟨(expr_reads e).final_eq s, expr_reads e s⟩⟩
  exact (Keeps.hoist addresses ds).bind (fun _ => Keeps.decls addresses ds) s

/-- A return of the wrong type ends the check in the third frame, in a block inside a function. -/
theorem state_put_back_returnSample :
    let check := declarations ⟨#[some ⟨0, 0⟩]⟩ [.function 1 ⟨⟨"f", 0⟩, [], .number⟩
      [.statement (.block 2 [.statement (.ret 3 (some (.literal (.boolean true))))])]]
    let t := check.final .start
    check .start = .error ⟨.returnTypeMismatch "number" "bool", 3⟩ t ∧ t.scopes.frames.size = 3 ∧
      t.scopes.current = 0 ∧ t.returns = [] ∧ t.scopes.parent? 0 = none := by
  intro check t
  have hkept := (state_put_back ⟨#[some ⟨0, 0⟩]⟩ .start).1 [.function 1 ⟨⟨"f", 0⟩, [], .number⟩
    [.statement (.block 2 [.statement (.ret 3 (some (.literal (.boolean true))))])]]
  exact ⟨rfl, rfl, hkept.current, hkept.returns, hkept.parents 0 Nat.zero_lt_one⟩

end LexScript.Typing.Check
