import LexScript.Error
import LexScript.Number.Parts
import LexScript.Value

/-!
# Operations on values

A string is repeated by doubling, so that the work is in proportion to the result. That this is concatenation is
said by `Text.toList_times`.
-/

namespace LexScript
namespace Text

def times (text : String) (n : Nat) : String :=
  if n = 0 then ""
  else
    let half := times text (n / 2)
    if n % 2 = 0 then half ++ half else half ++ half ++ text
termination_by n
decreasing_by omega

/-- Repetition is concatenation of copies. -/
theorem toList_times (text : String) (n : Nat) :
    (times text n).toList = (List.replicate n text.toList).flatten := by
  fun_induction times text n with
  | case1 => simp
  | case2 n _ half even ih =>
    rw [String.toList_append, ih, ← List.flatten_append, List.replicate_append_replicate]
    congr 2; omega
  | case3 n _ half odd ih =>
    have hn : n = n / 2 + n / 2 + 1 := by omega
    rw [String.toList_append, String.toList_append, ih, ← List.flatten_append,
      List.replicate_append_replicate, congrArg (List.replicate · text.toList) hn]
    simp [List.replicate_succ']

end Text

/-- The most bytes that repeating a string may give. -/
def repeatLimit : Nat := Nat.pow 2 28

/-- The product of two sizes, unless it overflows a machine word. -/
def checkedProduct (m n : Nat) : Option UInt64 :=
  if m * n < UInt64.size then some (.ofNat (m * n)) else none

/-- The string repeated by a number without its fraction, unless the result would be too large. The count
is a machine word, so it is the greatest one for a number past them all. -/
def repeated (s : String) (x : Float) : Except Cause String :=
  if !x.isFinite || x < 1 || s.isEmpty then .ok ""
  else
    let count := Number.truncate x
    let times := count.toUInt64.toNat
    if (checkedProduct s.utf8ByteSize times).any (·.toNat ≤ repeatLimit) then .ok (Text.times s times)
    else .error (.repeatTooLarge (Number.text count) repeatLimit)

theorem repeated_cases (s : String) (x : Float) :
    (∃ t, repeated s x = .ok t) ∨
      repeated s x = .error (.repeatTooLarge (Number.text (Number.truncate x)) repeatLimit) := by
  rw [repeated]
  split
  · exact .inl ⟨_, rfl⟩
  · dsimp only
    split
    · exact .inl ⟨_, rfl⟩
    · exact .inr rfl

/-- The result of an operation between two values. Equality takes any operands. Division by zero of
either sign fails. -/
def BinaryOperator.apply : BinaryOperator → Value → Value → Except Cause Value
  | .equal, l, r => .ok (.boolean (l.same r))
  | .notEqual, l, r => .ok (.boolean !l.same r)
  | .plus, .string l, .string r => .ok (.string (l ++ r))
  | .multiply, .string l, .number r => (repeated l r).map .string
  | .plus, .number l, .number r => .ok (.number (l + r))
  | .minus, .number l, .number r => .ok (.number (l - r))
  | .multiply, .number l, .number r => .ok (.number (l * r))
  | .divide, .number l, .number r =>
    if r == 0 then .error .divisionByZero else .ok (.number (l / r))
  | .modulo, .number l, .number r =>
    if r == 0 then .error .divisionByZero else .ok (.number (Number.remainder l r))
  | .greater, .number l, .number r => .ok (.boolean (r < l))
  | .greaterEqual, .number l, .number r => .ok (.boolean (r ≤ l))
  | .less, .number l, .number r => .ok (.boolean (l < r))
  | .lessEqual, .number l, .number r => .ok (.boolean (l ≤ r))
  | .and, .boolean l, .boolean r => .ok (.boolean (l && r))
  | .or, .boolean l, .boolean r => .ok (.boolean (l || r))
  | operator, l, r => .error (.invalidOperands operator.symbol l.kindName r.kindName)

def UnaryOperator.apply : UnaryOperator → Value → Except Cause Value
  | .negate, .number x => .ok (.number (-x))
  | .not, .boolean b => .ok (.boolean !b)
  | operator, v => .error (.invalidOperand operator.symbol v.kindName)

end LexScript
