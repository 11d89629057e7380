import LexScript.Proofs.Scope.Lexical
import LexScript.Proofs.Typing.Knowledge
import LexScript.Typing.Expr

/-!
# Checked expressions

The type that is found for an expression is the one that the typing rules give it, and every error is
one of typing. That the type of a name is missing does not happen.
-/

namespace LexScript

/-- An error of typing, other than a name whose type is missing. -/
def Error.IsTyping (e : Error) : Prop := e.kind = .typing ∧ ∀ name, e.cause ≠ .typeNotKnown name

namespace Typing

def Finds {α : Type} (r : Except Error α) (expected : α → Prop) : Prop :=
  match r with
  | .ok a => expected a
  | .error e => e.IsTyping

theorem Finds.bind {α β : Type} {r : Except Error α} {f : α → Except Error β} {first : α → Prop}
    {expected : β → Prop} (h : Finds r first) (hf : ∀ a, first a → Finds (f a) expected) :
    Finds (r >>= f) expected := by
  cases r with
  | ok a => exact hf a h
  | error e => exact h

theorem Finds.imp {α : Type} {r : Except Error α} {first expected : α → Prop} (h : Finds r first)
    (himp : ∀ a, first a → expected a) : Finds r expected := by
  cases r with
  | ok a => exact himp a h
  | error e => exact h

namespace Context

/-- The context has the addresses of the program, and the types of the names at nested places. -/
structure At (c : Context) (program : Program) (places : List Place) : Prop where
  identities : program.DistinctIdentities
  resolved : Resolutions.ofProgram program = .ok c.addresses
  knows : Knows c.scopes c.scopes.current (places.map Place.view)

variable {program : Program} {c : Context} {places : List Place} {line : Nat}

theorem requireValue_finds (line : Nat) (t : Ty) :
    Finds (requireValue line t) fun u => u = t ∧ t ≠ .void := by
  rw [requireValue]
  split
  · exact ⟨rfl, by simp⟩
  · rename_i hvoid
    exact ⟨rfl, by simpa using hvoid⟩

/-- A name that is used has a type, and it is found. -/
theorem exists_lookup (hc : c.At program places) {i : Identifier}
    (huse : .use i line places ∈ program.occurrences) :
    ∃ t, c.lookup i = .ok t ∧ i.HasType c.addresses (places.map Place.scope) t := by
  obtain ⟨distance, place, hnearest, hget⟩ := Resolutions.get?_use hc.identities hc.resolved huse
  obtain ⟨g, t, hancestor, hslot, htype⟩ := hc.knows.lookup hnearest
  have hfind : c.addresses.find i c.line = .ok ⟨distance, place.scope.slot i.name⟩ := by
    simp [Resolutions.find, hget]
  have hbound : c.scopes.get? ⟨distance, place.scope.slot i.name⟩ = some t := by
    simpa [ScopeStack.get?, hancestor] using hslot
  refine ⟨t, ?_, _, place.scope, hget, ?_, htype⟩
  · rw [lookup, hfind]
    refine Eq.trans (pure_bind _ _) ?_
    rw [hbound]
  · simp [hnearest.at_distance]

theorem lookup_finds (hc : c.At program places) {i : Identifier}
    (huse : .use i line places ∈ program.occurrences) :
    Finds (c.lookup i) (i.HasType c.addresses (places.map Place.scope)) := by
  obtain ⟨t, hlookup, htype⟩ := exists_lookup hc huse
  rw [hlookup]
  exact htype

mutual

theorem typeOf_finds (hc : c.At program places) : ∀ e : Expr,
    e.occurrences places line ⊆ program.occurrences →
      Finds (c.typeOf e) (HasType c.addresses (places.map Place.scope) e)
  | .literal value, _ => by
    simp only [typeOf, typeExpr]
    exact .literal value
  | .name i, h => by
    rw [typeOf, typeExpr]
    have huse := h (List.mem_singleton_self _)
    exact (lookup_finds hc huse).imp fun t ht => .name ht
  | .assign target value, h => by
    rw [Expr.occurrences, List.append_subset] at h
    rw [typeOf, typeExpr]
    apply (typeOf_finds hc value h.1).bind
    intro u hu
    apply (requireValue_finds c.line u).bind
    intro received hreceived
    rcases hreceived with ⟨rfl, hvoid⟩
    have huse := h.2 (List.mem_singleton_self _)
    apply (lookup_finds hc huse).bind
    intro expected hexpected
    split
    · rename_i heq
      subst heq
      exact .assign hu hvoid hexpected
    · exact ⟨rfl, by simp⟩
  | .unary operator operand, h => by
    rw [typeOf, typeExpr]
    apply (typeOf_finds hc operand h).bind
    intro u hu
    apply (requireValue_finds c.line u).bind
    intro received hreceived
    rcases hreceived with ⟨rfl, hvoid⟩
    split
    · rename_i type htype
      exact .unary hu hvoid htype
    · exact ⟨rfl, by simp⟩
  | .binary operator left right, h => by
    rw [Expr.occurrences, List.append_subset] at h
    rw [typeOf, typeExpr]
    apply (typeOf_finds hc left h.1).bind
    intro u hu
    apply (requireValue_finds c.line u).bind
    intro first hfirst
    rcases hfirst with ⟨rfl, hleft⟩
    apply (typeOf_finds hc right h.2).bind
    intro v hv
    apply (requireValue_finds c.line v).bind
    intro second hsecond
    rcases hsecond with ⟨rfl, hright⟩
    split
    · rename_i type htype
      exact .binary hu hv ⟨hleft, hright⟩ htype
    · exact ⟨rfl, by simp⟩
  | .call callee arguments, h => by
    rw [Expr.occurrences, List.append_subset] at h
    rw [typeOf, typeExpr]
    apply (typeOf_finds hc callee h.1).bind
    intro u hu
    apply (requireValue_finds c.line u).bind
    intro t ht
    rcases ht with ⟨rfl, -⟩
    split
    · rename_i parameters returns
      apply (fitArguments_finds hc parameters arguments h.2).bind
      intro _ hfit
      exact .call hu hfit
    · exact ⟨rfl, by simp⟩

theorem fitArguments_finds (hc : c.At program places) :
    ∀ (parameters : List Ty) (arguments : List Expr),
    Expr.occurrencesOf places line arguments ⊆ program.occurrences →
      Finds (fitArguments c.lookup c.line parameters arguments) fun _ =>
        Fits c.addresses (places.map Place.scope) arguments parameters
  | parameters, [], _ => by
    have hmissing : Fits c.addresses (places.map Place.scope) [] parameters := .missing parameters
    cases parameters <;> exact hmissing
  | [], argument :: arguments, _ => by
    rw [fitArguments]
    · exact .surplus _
    · simp
  | expected :: parameters, argument :: arguments, h => by
    rw [Expr.occurrencesOf, List.append_subset] at h
    rw [fitArguments]
    apply (typeOf_finds hc argument h.1).bind
    intro u hu
    apply (requireValue_finds c.line u).bind
    intro received hreceived
    rcases hreceived with ⟨rfl, hvoid⟩
    split
    · rename_i heq
      subst heq
      apply (fitArguments_finds hc parameters arguments h.2).imp
      intro _ hfit
      exact .cons hu hvoid hfit
    · exact ⟨rfl, by simp⟩

end

theorem valueTypeOf_finds (hc : c.At program places) {e : Expr}
    (h : e.occurrences places line ⊆ program.occurrences) :
    Finds (c.valueTypeOf e) fun t =>
      HasType c.addresses (places.map Place.scope) e t ∧ t ≠ .void := by
  apply (typeOf_finds hc e h).bind
  intro u hu
  apply (requireValue_finds c.line u).imp
  intro t ht
  rcases ht with ⟨rfl, hvoid⟩
  exact ⟨hu, hvoid⟩

end Context
end Typing
end LexScript
