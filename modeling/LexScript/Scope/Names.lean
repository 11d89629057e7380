import LexScript.Error
import LexScript.Slots
import LexScript.Tree.Expr

/-!
# Names and addresses

A scope lists its distinct names in the order in which they were declared, and the place of a name in
the list is its slot. Nested scopes are listed from the innermost to the global one.
-/

namespace LexScript

/-- Where a binding is, seen from the current frame: the number of steps to outer frames, and the slot
in the frame found there. -/
structure Address where
  distance : Nat
  slot : Nat
  deriving DecidableEq

def Address.text (a : Address) : String := toString a.distance ++ ":" ++ toString a.slot

/-- The addresses of identifiers, by identity. -/
abbrev Resolutions := Slots Address

/-- The address of an identifier. Without one, the name counts as not declared. -/
def Resolutions.find (addresses : Resolutions) (identifier : Identifier) (line : Nat) :
    Except Error Address :=
  match addresses.get? identifier.id with
  | some address => .ok address
  | none => .error ⟨.variableNotDeclared identifier.name, line⟩

/-- The names of a scope, each once, in the order of their slots. -/
abbrev ScopeNames := List String

namespace ScopeNames

/-- The names after a declaration. A name that is declared again keeps its slot. -/
def declare (names : ScopeNames) (name : String) : ScopeNames :=
  if name ∈ names then names else names ++ [name]

def slot (names : ScopeNames) (name : String) : Nat := names.idxOf name

/-- The address of a name seen from the innermost of nested scopes: the nearest scope that has it
counts. -/
def address? : List ScopeNames → String → Option Address
  | [], _ => none
  | names :: outer, name =>
    if name ∈ names then some ⟨0, slot names name⟩
    else (address? outer name).map fun a => { a with distance := a.distance + 1 }

end ScopeNames
end LexScript
