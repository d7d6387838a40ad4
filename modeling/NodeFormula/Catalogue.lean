import NodeFormula.Node.Kind
import NodeFormula.Text.Detail
/-!
# NodeFormula — the function catalogue

The functions a formula may call. What a function computes on numbers and which nodes a
graph needs for it are said apart. The nodes are a short sequence of stages, one node
each: the arguments of a stage are parameters of the function, constants, or the result
of the stage before.
-/

namespace NodeFormula

/-- Where an argument of a stage comes from. -/
inductive StageArg where
  | param (index : Nat)
  | constant (a : Float)
  /-- The zero vector if an operand of the function is a vector, else the number zero. -/
  | zero
  /-- The result of the stage before. -/
  | previous
  deriving DecidableEq, Repr

/-- The node of a stage. -/
inductive StageNode where
  | fixed (kind : NodeKind)
  /-- A vector math node if an argument is a vector, else a math node. -/
  | componentwise (scalar : MathOp) (vector : VectorOp)
  deriving DecidableEq, Repr

/-- The kind of node for arguments with or without a vector among them. -/
def StageNode.kind : StageNode → Bool → NodeKind
  | fixed k, _ => k
  | componentwise _ vector, true => .vectorMath vector
  | componentwise scalar _, false => .math scalar

/-- One node of a function. -/
structure Stage where
  /-- What the node is called within the function, where it has more than a name of
  its own. -/
  child : Option String
  node : StageNode
  args : List StageArg
  deriving DecidableEq, Repr

/-- Which operands a function takes. -/
inductive Support where
  | scalarOnly
  | scalarOrVector
  deriving DecidableEq, Repr

/-- The name of a kind of support. -/
def Support.text : Support → String
  | scalarOnly => "ScalarOnly"
  | scalarOrVector => "ScalarOrVector"

/-- A function a formula may call. -/
structure Builtin where
  name : String
  params : List String
  doc : String
  longDoc : String
  category : String
  support : Support
  first : Stage
  rest : List Stage
  /-- What the function computes on numbers. -/
  value : List Float → Float

/-- Why a function cannot be called. -/
inductive CallError where
  | unknown (name : String)
  | missingParams (function : String) (missing : Nat)
  | extraParams (function : String)
  /-- A function of numbers was given a vector; positions count from one. -/
  | invalidOperand (function param : String) (position : Nat)
  deriving DecidableEq, Repr

/-- The wording of a call error. -/
def CallError.message : CallError → String
  | unknown name => s!"Unknown Function '{name}'"
  | missingParams f n => s!"Function '{f}' needs {n} more Params"
  | extraParams f => s!"Function '{f}' received Extra Params"
  | invalidOperand f p n =>
    s!"Function '{f}' does not accept a {SocketType.vector.text} for '{p}' (argument {n})"

namespace Builtin

/-- The stages in order. -/
def stages (f : Builtin) : List Stage := f.first :: f.rest

/-- The number of parameters. -/
def arity (f : Builtin) : Nat := f.params.length

/-- How a function is called. -/
def signature (f : Builtin) : String := f.name ++ "(" ++ ", ".intercalate f.params ++ ")"

/-- A function in detail. -/
def detail (f : Builtin) : String :=
  recordText "FunctionDescriptor"
    [("name", quoted f.name),
      ("params", "[" ++ ", ".intercalate (f.params.map quoted) ++ "]"),
      ("category", quoted f.category), ("support", f.support.text)]

/-- A call has as many arguments as the function has parameters. -/
def checkArity (f : Builtin) (found : Nat) : Except CallError Unit :=
  if found < f.arity then .error (.missingParams f.name (f.arity - found))
  else if f.arity < found then .error (.extraParams f.name)
  else .ok ()

/-- What a function computes on as many numbers as it has parameters. -/
def eval (f : Builtin) (args : List Float) : Except CallError Float := do
  f.checkArity args.length
  return f.value args

/-- The parameters of a function in order. -/
def allParams (params : List String) : List StageArg :=
  (List.range params.length).map .param

/-- A function of numbers that is one math node. -/
def scalar (category name : String) (params : List String) (op : MathOp) (doc : String) : Builtin where
  name := name
  params := params
  doc := doc
  longDoc := ""
  category := category
  support := .scalarOnly
  first := ⟨none, .fixed (.math op), allParams params⟩
  rest := []
  value := op.apply

/-- The number that a node gives on numbers. -/
def evalKind (kind : NodeKind) (args : List Float) : Float :=
  ((kind.evaluate (args.map .float)).head?.bind Value.float?).getD 0

/-- A function of numbers that is one node of any kind. -/
def single (category name : String) (params : List String) (kind : NodeKind)
    (value : List Float → Float) (doc longDoc : String) : Builtin where
  name := name
  params := params
  doc := doc
  longDoc := longDoc
  category := category
  support := .scalarOnly
  first := ⟨none, .fixed kind, allParams params⟩
  rest := []
  value := value

/-- A function that is one node, on numbers or on vectors. -/
def dual (name : String) (params : List String) (scalar : MathOp) (vector : VectorOp)
    (value : List Float → Float) (doc longDoc : String) : Builtin where
  name := name
  params := params
  doc := doc
  longDoc := longDoc
  category := "arithmetic"
  support := .scalarOrVector
  first := ⟨none, .componentwise scalar vector, allParams params⟩
  rest := []
  value := value

end Builtin

namespace Catalogue

open Builtin

/-- The quotient rounded down. -/
def floordiv : Builtin where
  name := "floordiv"
  params := ["a", "b"]
  doc := "a / b rounded down"
  longDoc := "Built as floor(div(a, b))."
  category := "arithmetic"
  support := .scalarOrVector
  first := ⟨some "div", .componentwise .divide .divide, [.param 0, .param 1]⟩
  rest := [⟨some "floor", .componentwise .floor .floor, [.previous]⟩]
  value args := MathOp.floor.apply [MathOp.divide.apply args]

/-- The opposite. -/
def neg : Builtin where
  name := "neg"
  params := ["a"]
  doc := "-a"
  longDoc := "Built as sub(0, a)."
  category := "arithmetic"
  support := .scalarOrVector
  first := ⟨some "sub", .componentwise .subtract .subtract, [.zero, .param 0]⟩
  rest := []
  value args := MathOp.subtract.apply [0, args.getD 0 0]

/-- Sums, products and their inverses, on numbers and on vectors. -/
def arithmetic : List Builtin :=
  [dual "add" ["a", "b"] .add .add MathOp.add.apply "a + b" "",
    dual "sub" ["a", "b"] .subtract .subtract MathOp.subtract.apply "a - b" "",
    dual "mult" ["a", "b"] .multiply .multiply MathOp.multiply.apply "a * b"
      "Vectors multiply component by component.",
    dual "div" ["a", "b"] .divide .divide MathOp.divide.apply "a / b" "Division by zero gives 0.",
    dual "pow" ["a", "n"] .power .power MathOp.power.apply "a raised to the power n"
      "A negative base only accepts an integral exponent; anything else gives 0.",
    dual "mod" ["a", "b"] .modulo .modulo MathOp.modulo.apply "Remainder of a / b"
      "Floored: the result takes the sign of b.",
    floordiv,
    dual "abs" ["a"] .absolute .absolute MathOp.absolute.apply "Absolute value of a" "",
    neg,
    dual "floor" ["a"] .floor .floor MathOp.floor.apply "Largest integer not above a" ""]

/-- The natural logarithm. -/
def ln : Builtin where
  name := "ln"
  params := ["a"]
  doc := "Natural logarithm of a"
  longDoc := "Built as log(a, e)."
  category := "exponent"
  support := .scalarOnly
  first := ⟨none, .fixed (.math .logarithm), [.param 0, .constant Scalar.euler]⟩
  rest := []
  value args := MathOp.logarithm.apply [args.getD 0 0, Scalar.euler]

/-- The root of any degree. -/
def nroot : Builtin where
  name := "nroot"
  params := ["a", "n"]
  doc := "n-th root of a"
  longDoc := "Built as pow(a, div(1, n))."
  category := "exponent"
  support := .scalarOnly
  first := ⟨some "div", .fixed (.math .divide), [.constant 1, .param 1]⟩
  rest := [⟨some "pow", .fixed (.math .power), [.param 0, .previous]⟩]
  value args := MathOp.power.apply [args.getD 0 0, MathOp.divide.apply [1, args.getD 1 0]]

/-- Roots, powers of e and logarithms. -/
def exponent : List Builtin :=
  let number := scalar "exponent"
  [number "sqrt" ["a"] .sqrt "Square root of a",
    number "invsqrt" ["a"] .inverseSqrt "1 / sqrt(a)",
    number "exp" ["a"] .exponent "e raised to the power a",
    number "log" ["a", "b"] .logarithm "Logarithm of a in base b",
    ln,
    nroot]

/-- Angles. -/
def trigonometry : List Builtin :=
  let angle := scalar "trigonometry"
  [angle "sin" ["a"] .sine "Sine of a",
    angle "cos" ["a"] .cosine "Cosine of a",
    angle "tan" ["a"] .tangent "Tangent of a",
    angle "asin" ["a"] .arcsine "Arcsine of a",
    angle "acos" ["a"] .arccosine "Arccosine of a",
    angle "atan" ["a"] .arctangent "Arctangent of a",
    angle "atan2" ["a", "b"] .arctan2 "Angle of the point (b, a)",
    angle "sinh" ["a"] .sinh "Hyperbolic sine of a",
    angle "cosh" ["a"] .cosh "Hyperbolic cosine of a",
    angle "tanh" ["a"] .tanh "Hyperbolic tangent of a",
    angle "rad" ["a"] .radians "Degrees to radians",
    angle "deg" ["a"] .degrees "Radians to degrees"]

/-- Integers near a number. -/
def rounding : List Builtin :=
  let number := scalar "rounding"
  [number "round" ["a"] .round "a rounded to the nearest integer",
    number "ceil" ["a"] .ceil "Smallest integer not below a",
    number "trunc" ["a"] .trunc "a with its fractional part dropped",
    number "frac" ["a"] .fraction "a minus floor(a)",
    number "sign" ["a"] .sign "-1, 0 or 1 following the sign of a"]

/-- Numbers and ranges. -/
def range : List Builtin :=
  let number := scalar "range"
  let node := single "range"
  [number "min" ["a", "b"] .minimum "Smaller of a and b",
    number "max" ["a", "b"] .maximum "Larger of a and b",
    number "wrap" ["v", "a", "b"] .wrap "v wrapped into the range [a, b)",
    number "snap" ["v", "step"] .snap "v rounded down to a multiple of step",
    number "pingpong" ["v", "scale"] .pingPong "v bounced back and forth between 0 and scale",
    node "clamp" ["v", "a", "b"] .clamp (evalKind .clamp) "v limited to the range [a, b]" "",
    node "lerp" ["f", "a", "b"] .mix (evalKind .mix) "Blend from a to b by factor f"
      "f = 0 gives a, f = 1 gives b; f is not clamped.",
    node "remap" ["v", "a", "b", "x", "y"] .mapRange (evalKind .mapRange)
      "v mapped from the range [a, b] to [x, y]"
      "The mapping is linear and unclamped. An empty source range gives x."]

/-- Every function. -/
def functions : List Builtin := arithmetic ++ exponent ++ trigonometry ++ rounding ++ range

/-- Every function, by name. -/
def sorted : List Builtin := functions.mergeSort fun f g => f.name ≤ g.name

/-- Words that name neither a function nor a variable: the keywords of the scripting
language that formulas are embedded in, and the constructors of script values. -/
def reservedWords : List String :=
  ["False", "None", "True", "and", "as", "assert", "async", "await", "break", "class",
    "continue", "def", "del", "elif", "else", "except", "finally", "for", "from", "global",
    "if", "import", "in", "is", "lambda", "nonlocal", "not", "or", "pass", "raise", "return",
    "try", "while", "with", "yield", "inFloat", "inVec", "outFloat", "outVec"]

/-- A word is reserved. -/
def isReserved (name : String) : Bool := reservedWords.contains name

/-- The function of a name. -/
def get? (name : String) : Option Builtin :=
  if isReserved name then none else functions.find? (·.name == name)

/-- A name is that of a function. -/
def isKnown (name : String) : Bool := (get? name).isSome

/-- The function of a name, or why there is none. -/
def require (name : String) : Except CallError Builtin :=
  match get? name with
  | some f => .ok f
  | none => .error (.unknown name)

/-- What a named function computes on numbers. -/
def eval (name : String) (args : List Float) : Except CallError Float := do
  (← require name).eval args

/-- No function has a reserved name, and no two share one. -/
def isValid : Bool :=
  functions.all (fun f => !isReserved f.name) && (functions.map Builtin.name).Nodup

end Catalogue

end NodeFormula
