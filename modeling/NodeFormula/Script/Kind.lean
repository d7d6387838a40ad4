import NodeFormula.Value
/-!
# NodeFormula — kinds of script values

A script works with scalars and vectors, and writes them to sinks. Which kinds an
operator combines, and to which kind, is decided by `Operator.result?`.
-/

namespace NodeFormula

/-- The kind of a script value. -/
inductive Kind where
  | scalar
  | vector
  /-- A written output, which is no operand. -/
  | sink
  deriving DecidableEq, Repr

namespace Kind

/-- The name of a kind. -/
def text : Kind → String
  | scalar => "Scalar"
  | vector => "Vector"
  | sink => "Output"

/-- The name of a kind in detail. -/
def detail : Kind → String
  | sink => "Sink"
  | kind => kind.text

/-- The code of a kind in identities. -/
def code : Kind → String
  | scalar => "sc"
  | vector => "vc"
  | sink => "sk"

/-- The type of the sockets of a kind. -/
def socketType? : Kind → Option SocketType
  | scalar => some .float
  | vector => some .vector
  | sink => none

/-- The kind of a componentwise combination: a vector if one of the two is. -/
def join? : Kind → Kind → Option Kind
  | sink, _ | _, sink => none
  | scalar, scalar => some scalar
  | _, _ => some vector

end Kind

/-- Operators on script values. -/
inductive Operator where
  | add | sub | mul | div | rem | pow | floorDiv | neg | abs
  deriving DecidableEq, Repr

namespace Operator

/-- The function an operator stands for. -/
def function : Operator → String
  | add => "add" | sub => "sub" | mul => "mult" | div => "div" | rem => "mod" | pow => "pow"
  | floorDiv => "floordiv" | neg => "neg" | abs => "abs"

/-- How an operator is called in messages. -/
def symbol : Operator → String
  | add => "+" | sub => "-" | mul => "*" | div => "/" | rem => "%" | pow => "**"
  | floorDiv => "//" | neg => "neg" | abs => "abs"

/-- The operator takes one operand. -/
def isUnary : Operator → Bool
  | neg | abs => true
  | _ => false

/-- The kind of the result on operands of the given kinds, if the operator takes them.
Powers are of scalars only. -/
def result? : Operator → Kind → Option Kind → Option Kind
  | neg, k, none | abs, k, none => if k = .sink then none else some k
  | neg, _, some _ | abs, _, some _ => none
  | pow, .scalar, some .scalar => some .scalar
  | pow, _, _ => none
  | _, l, some r => l.join? r
  | _, _, none => none

end Operator

/-- The ways a script gets hold of the interface of a graph. -/
inductive Constructor where
  | inFloat | inVec | outFloat | outVec
  deriving DecidableEq, Repr

namespace Constructor

/-- The name of a constructor, which is a reserved word. -/
def name : Constructor → String
  | inFloat => "inFloat"
  | inVec => "inVec"
  | outFloat => "outFloat"
  | outVec => "outVec"

/-- Every constructor. -/
def all : List Constructor := [inFloat, inVec, outFloat, outVec]

/-- The constructor of a name. -/
def ofName? (name : String) : Option Constructor := all.find? (·.name == name)

/-- The kind of socket that a constructor is for. -/
def kind : Constructor → Kind
  | inFloat | outFloat => .scalar
  | inVec | outVec => .vector

/-- The constructor writes an output. -/
def isOutput : Constructor → Bool
  | outFloat | outVec => true
  | inFloat | inVec => false

end Constructor

end NodeFormula
