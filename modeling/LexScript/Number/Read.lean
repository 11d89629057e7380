import LexScript.Number.Text

/-!
# Reading numbers

A number is an optional sign, then either digits with an optional point among them and an optional
exponent, or one of the words `inf`, `infinity` and `nan` in any case. Decimals round to the nearest
float, and too large ones become infinite.
-/

namespace LexScript.Number

def ofDigits (digits : List Char) : Nat :=
  digits.foldl (fun n c => 10 * n + (c.toNat - '0'.toNat)) 0

def takeSign : List Char → Bool × List Char
  | '-' :: rest => (true, rest)
  | '+' :: rest => (false, rest)
  | rest => (false, rest)

/-- The exponent mark with its digits; no mark means exponent zero. -/
def readExponent? : List Char → Option Int
  | [] => some 0
  | mark :: rest =>
    let (negative, digits) := takeSign rest
    if (mark = 'e' ∨ mark = 'E') ∧ digits ≠ [] ∧ digits.all Char.isDigit then
      some (if negative then -(ofDigits digits : Int) else ofDigits digits)
    else none

/-- A decimal without sign. There is a digit before the point or after it. -/
def readDecimal? (text : List Char) : Option Decimal :=
  let whole := text.takeWhile Char.isDigit
  let afterWhole := text.dropWhile Char.isDigit
  let (fraction, afterFraction) :=
    match afterWhole with
    | '.' :: rest => (rest.takeWhile Char.isDigit, rest.dropWhile Char.isDigit)
    | rest => ([], rest)
  if whole = [] ∧ fraction = [] then none
  else
    (readExponent? afterFraction).map fun exponent =>
      ⟨ofDigits (whole ++ fraction), exponent - fraction.length⟩

/-- The float nearest to the decimal. Far outside the range of floats the answer is known from the
number of digits alone. -/
def Decimal.toFloat (d : Decimal) : Float :=
  let magnitude := (Nat.toDigits 10 d.digits).length + d.exponent
  if d.digits = 0 ∨ magnitude < -330 then 0.0
  else if 310 < magnitude then 1.0 / 0.0
  else
    match d.exponent with
    | .ofNat n => Float.ofScientific d.digits false n
    | .negSucc n => Float.ofScientific d.digits true (n + 1)

def readUnsigned? (text : List Char) : Option Float :=
  match String.ofList (text.map Char.toLower) with
  | "inf" | "infinity" => some (1.0 / 0.0)
  | "nan" => some (0.0 / 0.0)
  | _ => (readDecimal? text).map Decimal.toFloat

def ofText? (text : String) : Option Float :=
  let (negative, rest) := takeSign text.toList
  (readUnsigned? rest).map fun x => if negative then -x else x

end LexScript.Number
