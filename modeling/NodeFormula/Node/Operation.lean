import NodeFormula.Value
/-!
# NodeFormula — arithmetic of math nodes

The operations that math nodes perform on floats, and vector math nodes on each
component. The arithmetic is *safe*: a division by zero, the root of a negative
number or the logarithm of a number that is not positive gives zero.
-/

namespace NodeFormula

/-- Operations of a math node. -/
inductive MathOp where
  | add | subtract | multiply | divide | power | logarithm | sqrt | inverseSqrt
  | absolute | exponent | minimum | maximum | sign | round | floor | ceil | trunc
  | fraction | modulo | wrap | snap | pingPong
  | sine | cosine | tangent | arcsine | arccosine | arctangent | arctan2
  | sinh | cosh | tanh | radians | degrees
  deriving DecidableEq, Repr

namespace MathOp

/-- The number of inputs. -/
def arity : MathOp → Nat
  | wrap => 3
  | add | subtract | multiply | divide | power | logarithm | minimum | maximum
  | modulo | snap | pingPong | arctan2 => 2
  | _ => 1

/-- The name under which a node editor knows the operation. -/
def host : MathOp → String
  | add => "ADD" | subtract => "SUBTRACT" | multiply => "MULTIPLY" | divide => "DIVIDE"
  | power => "POWER" | logarithm => "LOGARITHM" | sqrt => "SQRT"
  | inverseSqrt => "INVERSE_SQRT" | absolute => "ABSOLUTE" | exponent => "EXPONENT"
  | minimum => "MINIMUM" | maximum => "MAXIMUM" | sign => "SIGN" | round => "ROUND"
  | floor => "FLOOR" | ceil => "CEIL" | trunc => "TRUNC" | fraction => "FRACT"
  | modulo => "FLOORED_MODULO" | wrap => "WRAP" | snap => "SNAP" | pingPong => "PINGPONG"
  | sine => "SINE" | cosine => "COSINE" | tangent => "TANGENT" | arcsine => "ARCSINE"
  | arccosine => "ARCCOSINE" | arctangent => "ARCTANGENT" | arctan2 => "ARCTAN2"
  | sinh => "SINH" | cosh => "COSH" | tanh => "TANH"
  | radians => "RADIANS" | degrees => "DEGREES"

end MathOp

namespace Scalar

/-- The ratio of a circle's circumference to its diameter. -/
def pi : Float := 3.141592653589793

/-- The base of the natural logarithm. -/
def euler : Float := 2.718281828459045

/-- The smaller number; a number is preferred over the undefined value. -/
def min (a b : Float) : Float :=
  if a.isNaN then b else if b.isNaN then a else if a < b then a else b

/-- The larger number; a number is preferred over the undefined value. -/
def max (a b : Float) : Float :=
  if a.isNaN then b else if b.isNaN then a else if b < a then a else b

/-- Drops the places behind the point. -/
def trunc (a : Float) : Float := if a < 0 then a.ceil else a.floor

/-- A quotient, zero for the divisor zero. -/
def divide (a b : Float) : Float := if b == 0 then 0 else a / b

/-- A power. A negative base takes integral exponents only, else the power is zero. -/
def power (a b : Float) : Float := if a ≥ 0 || b - trunc b == 0 then a.pow b else 0

/-- The logarithm of `a` in base `b` where it exists, else zero. -/
def logarithm (a b : Float) : Float :=
  if a > 0 && b > 0 && b != 1 then a.log / b.log else 0

/-- The sign as a number. -/
def sign (a : Float) : Float := if a > 0 then 1 else if a < 0 then -1 else 0

/-- The remainder with the sign of the divisor, zero for the divisor zero. -/
def modulo (a b : Float) : Float := if b == 0 then 0 else a - b * (a / b).floor

/-- Moves `a` by multiples of the range into `[low, high)`; an empty range gives `low`. -/
def wrap (a low high : Float) : Float :=
  let range := high - low
  if range == 0 then low else a - range * ((a - low) / range).floor

/-- The largest multiple of the step that is not above `a`, zero for the step zero. -/
def snap (a step : Float) : Float := if step == 0 then 0 else (a / step).floor * step

/-- A triangular wave between zero and the scale, zero for the scale zero. -/
def pingPong (a scale : Float) : Float :=
  if scale == 0 then 0
  else
    let t := (a - scale) / (scale * 2)
    ((t - t.floor) * scale * 2 - scale).abs

end Scalar

/-- An operation on numbers; missing numbers read as zero and surplus ones are ignored. -/
def MathOp.apply (op : MathOp) (args : List Float) : Float :=
  let a := args.getD 0 0
  let b := args.getD 1 0
  let c := args.getD 2 0
  match op with
  | add => a + b
  | subtract => a - b
  | multiply => a * b
  | divide => Scalar.divide a b
  | power => Scalar.power a b
  | logarithm => Scalar.logarithm a b
  | sqrt => if a > 0 then a.sqrt else 0
  | inverseSqrt => if a > 0 then 1 / a.sqrt else 0
  | absolute => a.abs
  | exponent => a.exp
  | minimum => Scalar.min a b
  | maximum => Scalar.max a b
  | sign => Scalar.sign a
  | round => (a + 0.5).floor
  | floor => a.floor
  | ceil => a.ceil
  | trunc => Scalar.trunc a
  | fraction => a - a.floor
  | modulo => Scalar.modulo a b
  | wrap => Scalar.wrap a b c
  | snap => Scalar.snap a b
  | pingPong => Scalar.pingPong a b
  | sine => a.sin
  | cosine => a.cos
  | tangent => a.tan
  | arcsine => a.asin
  | arccosine => a.acos
  | arctangent => a.atan
  | arctan2 => a.atan2 b
  | sinh => a.sinh
  | cosh => a.cosh
  | tanh => a.tanh
  | radians => a * (Scalar.pi / 180)
  | degrees => a * (180 / Scalar.pi)

/-- Operations of a vector math node. -/
inductive VectorOp where
  | add | subtract | multiply | divide | power | modulo | absolute | floor
  deriving DecidableEq, Repr

namespace VectorOp

/-- The operation on each component. -/
def component : VectorOp → MathOp
  | add => .add | subtract => .subtract | multiply => .multiply | divide => .divide
  | power => .power | modulo => .modulo | absolute => .absolute | floor => .floor

/-- The number of inputs. -/
def arity : VectorOp → Nat
  | absolute | floor => 1
  | _ => 2

/-- The name under which a node editor knows the operation. -/
def host : VectorOp → String
  | modulo => "MODULO"
  | op => op.component.host

/-- An operation on vectors, component by component. -/
def apply (op : VectorOp) (args : List Vec3) : Vec3 :=
  ⟨op.component.apply (args.map Vec3.x), op.component.apply (args.map Vec3.y),
    op.component.apply (args.map Vec3.z)⟩

end VectorOp

end NodeFormula
