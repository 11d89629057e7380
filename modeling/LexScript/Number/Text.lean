import LexScript.Number.Parts

/-!
# The text of a number

A number is written as the decimal with the fewest digits among those that round to it, and of those the nearest
to it, without an exponent. All comparisons are between natural numbers.
-/

namespace LexScript.Number

/-- The decimal `digits · 10 ^ exponent`. -/
structure Decimal where
  digits : Nat
  exponent : Int
  deriving DecidableEq

namespace Decimal

/-- The positional text: a point stands only before digits, and at least one digit stands before
the point. -/
def text (d : Decimal) : List Char :=
  let written := Nat.toDigits 10 d.digits
  match d.exponent with
  | .ofNat zeros => written ++ List.replicate zeros '0'
  | .negSucc n =>
    let padded := List.replicate (n + 2 - written.length) '0' ++ written
    let whole := padded.length - (n + 1)
    padded.take whole ++ '.' :: padded.drop whole

/-- The same number without trailing zeros after the point. -/
def trim (d : Decimal) : Decimal :=
  if h : d.digits ≠ 0 ∧ d.digits % 10 = 0 ∧ d.exponent < 0 then
    trim ⟨d.digits / 10, d.exponent + 1⟩
  else d
termination_by d.digits
decreasing_by omega

end Decimal

/-- The reals that round to the float `value / scale`: those from `lower / scale` to `upper / scale`,
the ends included if `closed`. -/
structure RoundingInterval where
  lower : Nat
  value : Nat
  upper : Nat
  scale : Nat
  closed : Bool

namespace RoundingInterval

/-- The interval of `mantissa · 2 ^ exponent`, in quarters of the last place. It reaches half a place
to either side, but a quarter of one below a power of two, where the next float is half as far. A tie
goes to the even mantissa, which therefore owns both ends. -/
def around (mantissa : Nat) (exponent : Int) : RoundingInterval :=
  let below := if mantissa = leadingBit ∧ -1074 < exponent then 1 else 2
  let unit := Nat.pow 2 (exponent - 2).toNat
  { lower := (4 * mantissa - below) * unit
    value := 4 * mantissa * unit
    upper := (4 * mantissa + 2) * unit
    scale := Nat.pow 2 (2 - exponent).toNat
    closed := mantissa % 2 = 0 }

def contains (i : RoundingInterval) (d : Decimal) : Bool :=
  let point := d.digits * Nat.pow 10 d.exponent.toNat * i.scale
  let lower := i.lower * Nat.pow 10 (-d.exponent).toNat
  let upper := i.upper * Nat.pow 10 (-d.exponent).toNat
  if i.closed then lower ≤ point && point ≤ upper else lower < point && point < upper

/-- The number of digits before the decimal point of the value; zero or less counts the zeros that
follow the point. -/
def magnitude (i : RoundingInterval) : Int :=
  if i.scale ≤ i.value then (Nat.toDigits 10 (i.value / i.scale)).length
  else 1 - ((Nat.toDigits 10 ((i.scale - 1) / i.value)).length : Int)

/-- Of the two multiples of `10 ^ exponent` around the value, the nearest one in the interval. Of two
equally near ones it is the greater. -/
def onGrid (i : RoundingInterval) (exponent : Int) : Option Decimal :=
  let value := i.value * Nat.pow 10 (-exponent).toNat
  let unit := i.scale * Nat.pow 10 exponent.toNat
  let down : Decimal := ⟨value / unit, exponent⟩
  let up : Decimal := ⟨value / unit + 1, exponent⟩
  let nearer := if 2 * value < (2 * (value / unit) + 1) * unit then [down, up] else [up, down]
  nearer.find? i.contains

/-- The decimal of the interval with the fewest digits. Seventeen digits always suffice. -/
def shortest (i : RoundingInterval) : Decimal :=
  let found := (List.range 17).findSome? fun n : Nat => i.onGrid (i.magnitude - (n + 1))
  (found.getD ⟨i.value / i.scale, 0⟩).trim

end RoundingInterval

/-- The shortest decimal that reads back as the number, written without an exponent. -/
def text (x : Float) : String :=
  match parts x with
  | .nan => "NaN"
  | .infinite negative => if negative then "-inf" else "inf"
  | .finite negative mantissa exponent =>
    let digits :=
      if mantissa = 0 then ['0'] else (RoundingInterval.around mantissa exponent).shortest.text
    String.ofList (if negative then '-' :: digits else digits)

end LexScript.Number
