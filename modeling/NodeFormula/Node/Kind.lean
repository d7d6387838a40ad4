import NodeFormula.Node.Operation
/-!
# NodeFormula — kinds of nodes

A kind fixes a node's sockets and what its outputs compute. The two group nodes
have no sockets of their own: theirs are the interface of a graph.
-/

namespace NodeFormula

/-- What a node does. -/
inductive NodeKind where
  | math (op : MathOp)
  | vectorMath (op : VectorOp)
  /-- Limits a value to a range. -/
  | clamp
  /-- Maps one range linearly onto another. -/
  | mapRange
  /-- Blends two numbers by a factor. -/
  | mix
  | separateXyz
  | combineXyz
  /-- Holds a number. -/
  | value
  /-- Hands the inputs of the graph to its nodes. -/
  | groupInput
  /-- Takes the outputs of the graph from its nodes. -/
  | groupOutput
  deriving DecidableEq, Repr

/-- A socket that a kind prescribes. -/
structure SocketSpec where
  name : String
  type : SocketType
  deriving DecidableEq, Repr

namespace NodeKind

/-- Sockets of type float. -/
def floats (names : List String) : List SocketSpec := names.map fun n => ⟨n, .float⟩

/-- Sockets of type vector. -/
def vectors (names : List String) : List SocketSpec := names.map fun n => ⟨n, .vector⟩

/-- The input sockets of a kind. -/
def inputs : NodeKind → List SocketSpec
  | math op => (floats ["Value", "Value_001", "Value_002"]).take op.arity
  | vectorMath op => (vectors ["Vector", "Vector_001"]).take op.arity
  | clamp => floats ["Value", "Min", "Max"]
  | mapRange => floats ["Value", "From Min", "From Max", "To Min", "To Max"]
  | mix => floats ["Factor", "A", "B"]
  | separateXyz => vectors ["Vector"]
  | combineXyz => floats ["X", "Y", "Z"]
  | value => floats ["Value"]
  | groupInput | groupOutput => []

/-- The output sockets of a kind. -/
def outputs : NodeKind → List SocketSpec
  | math _ | value => floats ["Value"]
  | vectorMath _ | combineXyz => vectors ["Vector"]
  | clamp | mapRange | mix => floats ["Result"]
  | separateXyz => floats ["X", "Y", "Z"]
  | groupInput | groupOutput => []

/-- The group nodes form the interface of a graph. -/
def isInterface : NodeKind → Bool
  | groupInput | groupOutput => true
  | _ => false

/-- The label of a new node. -/
def label : NodeKind → String
  | math op => "Math " ++ op.host
  | vectorMath op => "Vector Math " ++ op.host
  | clamp => "Clamp"
  | mapRange => "Map Range"
  | mix => "Mix"
  | separateXyz => "Separate XYZ"
  | combineXyz => "Combine XYZ"
  | value => "Value"
  | groupInput => "Group Input"
  | groupOutput => "Group Output"

/-- The outputs of a node for its inputs. Missing inputs read as zero, and each is
taken as a float or as a vector as the kind needs it. -/
def evaluate (kind : NodeKind) (args : List Value) : List Value :=
  let numbers := args.map Value.toFloat
  let number (i : Nat) : Float := numbers.getD i 0
  match kind with
  | math op => [.float (op.apply numbers)]
  | vectorMath op => [.vector (op.apply (args.map Value.toVec3))]
  | clamp => [.float (Scalar.min (Scalar.max (number 0) (number 1)) (number 2))]
  | mapRange =>
    let t := Scalar.divide (number 0 - number 1) (number 2 - number 1)
    [.float (number 3 + t * (number 4 - number 3))]
  | mix => [.float (number 1 + (number 2 - number 1) * number 0)]
  | separateXyz => (args.headD (.float 0)).toVec3.toList.map .float
  | combineXyz => [.vector ⟨number 0, number 1, number 2⟩]
  | value => [.float (number 0)]
  | groupInput | groupOutput => []

/-- A node has as many values as outputs, each of its socket's type. -/
theorem type_evaluate (kind : NodeKind) (args : List Value) :
    (kind.evaluate args).map Value.type = kind.outputs.map SocketSpec.type := by
  cases kind <;> rfl

end NodeKind

end NodeFormula
