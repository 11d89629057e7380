/-!
# Sign, mantissa and exponent of a float

Truncation and the remainder of truncated division are exact: no rounding takes place, since the results need no
more mantissa bits than the operands.
-/

namespace LexScript.Number

/-- What a 64-bit float stands for. A finite one is `± mantissa · 2 ^ exponent`. -/
inductive Parts
  | nan
  | infinite (negative : Bool)
  | finite (negative : Bool) (mantissa : Nat) (exponent : Int)
  deriving DecidableEq

/-- The leading bit of the mantissa of a normal number, which is not stored. -/
def leadingBit : Nat := Nat.pow 2 52

/-- Reads the sign bit, the eleven exponent bits and the fifty-two fraction bits. Exponent zero marks
a subnormal number, which has no leading bit. -/
def parts (x : Float) : Parts :=
  let bits := x.toBits.toNat
  let negative : Bool := bits / Nat.pow 2 63 = 1
  let exponent : Nat := bits / leadingBit % Nat.pow 2 11
  let fraction := bits % leadingBit
  if exponent = 2047 then
    if fraction = 0 then .infinite negative else .nan
  else if exponent = 0 then .finite negative fraction (-1074)
  else .finite negative (fraction + leadingBit) ((exponent : Int) - 1075)

/-- The float `± mantissa · 2 ^ exponent`, for a mantissa below `2 ^ 53` and an exponent from `-1074`
to `971`. The mantissa is shifted up until its leading bit is in place or the exponent is the least. -/
def ofParts (negative : Bool) (mantissa : Nat) (exponent : Int) : Float :=
  let shift := min (52 - mantissa.log2) (exponent + 1074).toNat
  let shifted := mantissa * Nat.pow 2 shift
  let magnitude :=
    if shifted < leadingBit then shifted
    else (exponent - shift + 1075).toNat * leadingBit + (shifted - leadingBit)
  Float.ofBits (UInt64.ofNat ((if negative then Nat.pow 2 63 else 0) + magnitude))

def wholePart (mantissa : Nat) (exponent : Int) : Nat :=
  mantissa * Nat.pow 2 exponent.toNat / Nat.pow 2 (-exponent).toNat

def truncate (x : Float) : Float :=
  match parts x with
  | .finite negative mantissa exponent =>
    if exponent < 0 then ofParts negative (wholePart mantissa exponent) 0 else x
  | _ => x

/-- What is left of `x` after taking away `y` as often as it fits. The sign is that of `x`. -/
def remainder (x y : Float) : Float :=
  match parts x, parts y with
  | .finite negative m e, .finite _ n f =>
    if n = 0 then 0.0 / 0.0
    else
      let low := min e f
      ofParts negative (m * Nat.pow 2 (e - low).toNat % (n * Nat.pow 2 (f - low).toNat)) low
  | .finite .., .infinite _ => x
  | _, _ => 0.0 / 0.0

end LexScript.Number
