/-!
# Types

Types are compared structurally. `void` is the type of a call that gives no value; it is written only
as a missing return type.
-/

namespace LexScript

inductive Ty
  | number
  | boolean
  | string
  | void
  | function (parameters : List Ty) (returns : Ty)

namespace Ty

mutual

def same : Ty → Ty → Bool
  | number, number => true
  | boolean, boolean => true
  | string, string => true
  | void, void => true
  | function ps r, function qs s => sameList ps qs && same r s
  | _, _ => false

def sameList : List Ty → List Ty → Bool
  | [], [] => true
  | t :: ts, u :: us => same t u && sameList ts us
  | _, _ => false

end

mutual

theorem same_eq_true_iff : ∀ t u : Ty, same t u = true ↔ t = u
  | number, u | boolean, u | string, u | void, u => by cases u <;> simp [same]
  | function ps r, u => by
    cases u with
    | function qs s => simp [same, sameList_eq_true_iff ps qs, same_eq_true_iff r s]
    | _ => simp [same]

theorem sameList_eq_true_iff : ∀ ts us : List Ty, sameList ts us = true ↔ ts = us
  | [], us => by cases us <;> simp [sameList]
  | t :: ts, [] => by simp [sameList]
  | t :: ts, u :: us => by simp [sameList, same_eq_true_iff t u, sameList_eq_true_iff ts us]

end

instance : DecidableEq Ty := fun t u => decidable_of_iff _ (same_eq_true_iff t u)

/-- The type of a call that gives no value. -/
def isVoid : Ty → Bool
  | void => true
  | _ => false

@[simp] theorem isVoid_eq_true_iff {t : Ty} : t.isVoid = true ↔ t = void := by
  cases t <;> simp [isVoid]

mutual

/-- The written form. The return type of a function is left out if it is void. -/
def text : Ty → String
  | number => "number"
  | boolean => "bool"
  | string => "string"
  | void => "void"
  | function parameters returns =>
    let head := "fn(" ++ String.intercalate ", " (texts parameters) ++ ")"
    if returns.isVoid then head else head ++ " -> " ++ returns.text

def texts : List Ty → List String
  | [] => []
  | t :: ts => t.text :: texts ts

end

theorem texts_eq_map (ts : List Ty) : texts ts = ts.map text := by
  induction ts with
  | nil => rfl
  | cons t ts ih => simp [texts, ih]

end Ty
end LexScript
