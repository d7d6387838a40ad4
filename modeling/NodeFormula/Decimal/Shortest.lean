/-!
# NodeFormula — the fewest digits that read back

A positive binary number stands for every real that rounds to it. `Binary.shortest`
gives the decimal with the fewest digits in that interval, and of two such decimals
the nearer one; of two equally near ones it takes the larger. All arithmetic is on
exact integers.
-/

namespace NodeFormula

/-- The positive number `mantissa * 2 ^ exponent` of a binary format. -/
structure Binary where
  mantissa : Nat
  exponent : Int
  /-- The next smaller number of the format is half as far away as the next larger one. -/
  narrowBelow : Bool
  deriving DecidableEq, Repr

/-- The number `digits * 10 ^ exponent`. -/
structure Decimal where
  digits : Nat
  exponent : Int
  deriving DecidableEq, Repr

namespace Binary

/-- The factor that a power contributes above the fraction bar. -/
def powAbove (base : Nat) (e : Int) : Nat := base.pow e.toNat

/-- The factor that a power contributes below the fraction bar. -/
def powBelow (base : Nat) (e : Int) : Nat := base.pow (-e).toNat

/-- Compares `quarters * 2 ^ (q - 2)` with `d * 10 ^ i` after clearing the fractions:
the first component stands for the left side and the second for the right one. -/
def sides (q i : Int) (quarters d : Nat) : Nat × Nat :=
  (quarters * powAbove 2 (q - 2) * powBelow 10 i, d * powAbove 10 i * powBelow 2 (q - 2))

/-- The decimal `d * 10 ^ i` rounds to the number: it lies between the midpoints to
the two neighbours, and on a midpoint only if the mantissa is even. -/
def covers (b : Binary) (i : Int) (d : Nat) : Bool :=
  let low := sides b.exponent i (4 * b.mantissa - if b.narrowBelow then 1 else 2) d
  let high := sides b.exponent i (4 * b.mantissa + 2) d
  if b.mantissa % 2 = 0 then low.1 ≤ low.2 && high.2 ≤ high.1
  else low.1 < low.2 && high.2 < high.1

/-- The number divided by `10 ^ i`, rounded down. -/
def floorAt (b : Binary) (i : Int) : Nat :=
  let (value, unit) := sides b.exponent i (4 * b.mantissa) 1
  value / unit

/-- The number lies at or beyond the middle between `d * 10 ^ i` and `(d + 1) * 10 ^ i`. -/
def nearerAbove (b : Binary) (i : Int) (d : Nat) : Bool :=
  let (value, middle) := sides b.exponent i (8 * b.mantissa) (2 * d + 1)
  middle ≤ value

/-- The decimal on the grid of multiples of `10 ^ i` that reads back, if there is one. -/
def onGrid? (b : Binary) (i : Int) : Option Nat :=
  let d := b.floorAt i
  match b.covers i d, b.covers i (d + 1) with
  | true, true => some (if b.nearerAbove i d then d + 1 else d)
  | true, false => some d
  | false, true => some (d + 1)
  | false, false => none

/-- The power of ten just above the number: `10 ^ (order - 1) ≤ b < 10 ^ order`. No
number of the formats in use is below `10 ^ (-400)`. -/
def order (b : Binary) : Int :=
  ((Nat.toDigits 10 (b.floorAt (-400))).length : Int) - 400

/-- Drops zeros at the end of the digits, at most as many as the first argument says. -/
def stripZeros : Nat → Decimal → Decimal
  | 0, x => x
  | n + 1, x =>
    if x.digits ≠ 0 ∧ x.digits % 10 = 0 then stripZeros n ⟨x.digits / 10, x.exponent + 1⟩ else x

/-- The decimal of fewest digits that reads back as the number. Seventeen digits
always suffice. -/
def shortest (b : Binary) : Decimal :=
  let found := (List.range 17).findSome? fun n =>
    let i := b.order - (n + 1 : Nat)
    (b.onGrid? i).map fun d => Decimal.mk d i
  stripZeros 18 (found.getD ⟨b.floorAt (b.order - 17), b.order - 17⟩)

/-- A binary number from its encoding: a fraction of `bits` bits, and above it an
exponent of `width` bits, in which `bias` stands for the power zero. -/
def decode (bits width bias encoding : Nat) : Binary :=
  let one := Nat.pow 2 bits
  let fraction := encoding % one
  let field := encoding / one % Nat.pow 2 width
  if field = 0 then ⟨fraction, 1 - (bias : Int) - bits, false⟩
  else ⟨one + fraction, (field : Int) - bias - bits, fraction = 0 && field > 1⟩

/-- The size of a finite double other than zero. -/
def ofFloat (x : Float) : Binary := decode 52 11 1023 x.toBits.toNat

/-- The size of a finite single other than zero. -/
def ofFloat32 (x : Float32) : Binary := decode 23 8 127 x.toBits.toNat

end Binary

end NodeFormula
