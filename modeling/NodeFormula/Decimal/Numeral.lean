/-!
# NodeFormula — reading numbers

A numeral is a sign, digits with an optional point, and an optional power of ten;
infinities and the undefined value are spelled out in letters of either case.
`Numeral.toFloat` gives the nearest double, a tie going to the even neighbour.
-/

namespace NodeFormula

/-- What a numeral says, before it is rounded. -/
inductive Numeral where
  /-- The integer `digits` times ten to the power `exponent`, below zero if `negative`. -/
  | finite (negative : Bool) (digits : Nat) (exponent : Int)
  | infinity (negative : Bool)
  | notANumber
  deriving DecidableEq, Repr

namespace Numeral

/-- The value of a digit character. -/
def digitValue (c : Char) : Nat := c.toNat - '0'.toNat

/-- The integer a digit sequence writes. -/
def digitsValue (ds : List Char) : Nat :=
  ds.foldl (fun n c => 10 * n + digitValue c) 0

/-- The integer written by a text of digits alone, of which there is at least one. -/
def natural? (ds : List Char) : Option Nat :=
  if ds.isEmpty || !ds.all Char.isDigit then none else some (digitsValue ds)

/-- The power of ten after an `e`: an optional sign and digits. -/
def exponent? : List Char → Option Int
  | '-' :: ds => (natural? ds).map fun n => -(n : Int)
  | '+' :: ds => (natural? ds).map fun n => (n : Int)
  | ds => (natural? ds).map fun n => (n : Int)

/-- A numeral without sign that is written in digits. -/
def unsigned? (negative : Bool) (cs : List Char) : Option Numeral :=
  let whole := cs.takeWhile Char.isDigit
  let afterWhole := cs.dropWhile Char.isDigit
  let (places, rest) := match afterWhole with
    | '.' :: r => (r.takeWhile Char.isDigit, r.dropWhile Char.isDigit)
    | r => ([], r)
  let digits := digitsValue (whole ++ places)
  let scale : Int := -(places.length : Int)
  if whole.isEmpty && places.isEmpty then none
  else match rest with
    | [] => some (.finite negative digits scale)
    | c :: r =>
      if c == 'e' || c == 'E' then (exponent? r).map fun e => .finite negative digits (scale + e)
      else none

/-- A numeral without sign, in digits or in letters. -/
def magnitude? (negative : Bool) (cs : List Char) : Option Numeral :=
  let letters := String.ofList (cs.map Char.toLower)
  if letters == "inf" || letters == "infinity" then some (.infinity negative)
  else if letters == "nan" then some .notANumber
  else unsigned? negative cs

/-- The numeral a text writes, if it is one from end to end. -/
def ofChars? : List Char → Option Numeral
  | '-' :: cs => magnitude? true cs
  | '+' :: cs => magnitude? false cs
  | cs => magnitude? false cs

/-- The double nearest to `digits` times ten to the power `exponent`. Beyond the
range of doubles on either side it is infinite or zero, and that is settled without
forming the power. -/
def nearest (digits : Nat) (exponent : Int) : Float :=
  let order : Int := (Nat.toDigits 10 digits).length + exponent
  if digits = 0 || order < -400 then 0
  else if order > 400 then 1 / 0
  else if exponent < 0 then Float.ofScientific digits true exponent.natAbs
  else Float.ofScientific digits false exponent.natAbs

/-- The double nearest to what a numeral says. -/
def toFloat : Numeral → Float
  | finite negative digits exponent =>
    if negative then -(nearest digits exponent) else nearest digits exponent
  | infinity negative => if negative then -(1 / 0) else 1 / 0
  | notANumber => 0 / 0

end Numeral

/-- The double a text writes, if it is a numeral. -/
def readFloat? (text : String) : Option Float :=
  (Numeral.ofChars? text.toList).map Numeral.toFloat

end NodeFormula
