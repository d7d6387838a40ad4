import NodeFormula.Catalogue
import NodeFormula.Pass
/-!
# NodeFormula — function calls in a graph

A call makes one node for each stage of its function. The arguments are checked
before the first node is made.
-/

namespace NodeFormula

/-- Why a call cannot be put into a graph. -/
inductive FunctionError where
  | call (e : CallError)
  | graph (e : GraphError)
  deriving DecidableEq, Repr

/-- The wording of a function error. -/
def FunctionError.message : FunctionError → String
  | call e => e.message
  | graph e => e.message

namespace Builtin

/-- The operand that an argument of a stage stands for. -/
def argOperand (g : Graph) (operands : List Operand) (previous : Operand) : StageArg → Operand
  | .param i => operands.getD i (.literal (.float 0))
  | .constant a => .literal (.float a)
  | .zero => .literal (.zero (if operands.any (·.isVector g) then .vector else .float))
  | .previous => previous

/-- Makes the node of a stage. -/
def buildStage (t : Tag) (operands : List Operand) (previous : Operand) (s : Stage) :
    PassM GraphError OutputRef := do
  let g := (← get).graph
  let args := s.args.map (argOperand g operands previous)
  let kind := s.node.kind (args.any (·.isVector g))
  let node ← Pass.findOrCreate ((s.child.map t.child).getD t) kind args
  return ⟨node, 0⟩

/-- Makes the nodes of a function; the result is the output of the last one. -/
def build (f : Builtin) (t : Tag) (operands : List Operand) : PassM GraphError OutputRef := do
  let first ← buildStage t operands (.literal (.float 0)) f.first
  f.rest.foldlM (fun previous s => buildStage t operands (.socket previous) s) first

/-- The operands of a function of numbers are no vectors. -/
def checkScalar (f : Builtin) (g : Graph) (operands : List Operand) : Except CallError Unit :=
  match operands.findIdx? (·.isVector g) with
  | none => .ok ()
  | some index => .error (.invalidOperand f.name (f.params.getD index "?") (index + 1))

/-- What is checked of a call before anything is built. -/
def checkCall (f : Builtin) (operands : List Operand) (g : Graph) : Except CallError Unit := do
  f.checkArity operands.length
  if f.support = .scalarOnly then f.checkScalar g operands

/-- Puts a call into the graph of a pass. -/
def call (f : Builtin) (t : Tag) (operands : List Operand) : PassM FunctionError OutputRef := do
  (Pass.read (f.checkCall operands)).adaptExcept .call
  (f.build t operands).adaptExcept .graph

end Builtin

end NodeFormula
