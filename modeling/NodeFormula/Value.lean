import NodeFormula.Decimal.Layout
/-!
# NodeFormula — socket values

A socket carries a float or a vector of three floats. A link between sockets of
different type converts: a float spreads over the components, a vector collapses to
their mean.
-/

namespace NodeFormula

/-- What a socket carries. -/
inductive SocketType where
  | float | vector
  deriving DecidableEq, Repr

/-- The name of a socket type. -/
def SocketType.text : SocketType → String
  | float => "Float"
  | vector => "Vector"

/-- Three floats. -/
structure Vec3 where
  x : Float
  y : Float
  z : Float
  deriving BEq, DecidableEq, Repr

namespace Vec3

/-- The vector with one float in every component. -/
def splat (a : Float) : Vec3 := ⟨a, a, a⟩

/-- The mean of the components. -/
def mean (v : Vec3) : Float := (v.x + v.y + v.z) / 3

/-- The components in order. -/
def toList (v : Vec3) : List Float := [v.x, v.y, v.z]

end Vec3

/-- A constant that a socket can hold. Equality of values compares floats as
numbers: the undefined value differs from itself, and the zeros are equal. -/
inductive Value where
  | float (a : Float)
  | vector (v : Vec3)
  deriving BEq, DecidableEq, Repr

namespace Value

/-- The type of socket a value fits. -/
def type : Value → SocketType
  | float _ => .float
  | vector _ => .vector

/-- The zero of a type. -/
def zero : SocketType → Value
  | .float => float 0
  | .vector => vector (Vec3.splat 0)

/-- The number that stands for a value where a float is needed. -/
def toFloat : Value → Float
  | float a => a
  | vector v => v.mean

/-- The vector that stands for a value where a vector is needed. -/
def toVec3 : Value → Vec3
  | float a => Vec3.splat a
  | vector v => v

/-- The value as a link into a socket of the given type delivers it. -/
def convert (v : Value) : SocketType → Value
  | .float => float v.toFloat
  | .vector => vector v.toVec3

@[simp] theorem type_convert (v : Value) (t : SocketType) : (v.convert t).type = t := by
  cases t <;> rfl

@[simp] theorem convert_self (v : Value) : v.convert v.type = v := by
  cases v <;> rfl

@[simp] theorem type_zero (t : SocketType) : (zero t).type = t := by
  cases t <;> rfl

/-- The payload of a float. -/
def float? : Value → Option Float
  | float a => some a
  | vector _ => none

/-- The payload of a vector. -/
def vector? : Value → Option Vec3
  | float _ => none
  | vector v => some v

/-- A value in a message. -/
def text : Value → String
  | float a => plainText a
  | vector v => "(" ++ ", ".intercalate (v.toList.map plainText) ++ ")"

end Value

end NodeFormula
