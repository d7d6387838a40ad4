import NodeFormula.Decimal.Shortest
/-!
# NodeFormula — numbers as text

Messages write numbers positionally, however large or small, and without a point
where none is needed. Lists of numbers are written as literals instead: a point or
a power of ten always marks the number as a fraction, and magnitudes below `1e-4`
or from `1e16` on take the power.
-/

namespace NodeFormula

namespace Decimal

/-- The digits of a decimal. -/
def digitChars (d : Decimal) : List Char := Nat.toDigits 10 d.digits

/-- The place of the first digit: `d` is at least `10 ^ leading` and below
`10 ^ (leading + 1)`. -/
def leading (d : Decimal) : Int := d.digitChars.length + d.exponent - 1

/-- Digits with the point in place; an integer has no point. -/
def positional (d : Decimal) : String :=
  let ds := d.digitChars
  if 0 ≤ d.exponent then String.ofList (ds ++ List.replicate d.exponent.toNat '0')
  else
    let places := d.exponent.natAbs
    if places < ds.length then
      String.ofList (ds.take (ds.length - places) ++ '.' :: ds.drop (ds.length - places))
    else String.ofList ('0' :: '.' :: (List.replicate (places - ds.length) '0' ++ ds))

/-- One digit, the further digits behind a point, and the power of ten. -/
def scientific (d : Decimal) : String :=
  let mantissa := match d.digitChars with
    | [] => ""
    | [c] => String.ofList [c]
    | c :: cs => String.ofList (c :: '.' :: cs)
  s!"{mantissa}e{d.leading}"

/-- As `positional`, but an integer ends in `.0`. -/
def pointed (d : Decimal) : String :=
  if 0 ≤ d.exponent then d.positional ++ ".0" else d.positional

/-- A literal takes the power of ten outside of `1e-4 ≤ d < 1e16`. -/
def literal (d : Decimal) : String :=
  if d.leading < -4 ∨ 16 ≤ d.leading then d.scientific else d.pointed

end Decimal

/-- Puts the sign in front of the text of a magnitude. -/
def signed (negative : Bool) (text : String) : String :=
  if negative then "-" ++ text else text

/-- The text of a double, given the text of zero and how other magnitudes are laid out. -/
def floatText (zero : String) (layout : Decimal → String) (x : Float) : String :=
  let negative := x.toBits ≥ 0x8000000000000000
  if x.isNaN then "NaN"
  else if x.isInf then signed negative "inf"
  else if x == 0 then signed negative zero
  else signed negative (layout (Binary.ofFloat x).shortest)

/-- A double in a message. -/
def plainText (x : Float) : String := floatText "0" Decimal.positional x

/-- A double in a list of numbers. -/
def literalText (x : Float) : String := floatText "0.0" Decimal.literal x

/-- A single in a message. -/
def plainText32 (x : Float32) : String :=
  let negative := x.toBits ≥ 0x80000000
  if x.isNaN then "NaN"
  else if x.isInf then signed negative "inf"
  else if x == 0 then signed negative "0"
  else signed negative (Binary.ofFloat32 x).shortest.positional

end NodeFormula
