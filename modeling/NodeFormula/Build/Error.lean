import NodeFormula.Pass.Call
/-!
# NodeFormula — why an expression has no value

Errors of evaluating an expression and of building it in a graph. What a graph
refuses is no matter of the user's and is not told apart.
-/

namespace NodeFormula

/-- Why an expression can be neither evaluated nor built. -/
inductive BuildError where
  | unknownVariable (name : String)
  | wrongTuple
  | tooLarge
  /-- An operator without a function, or an edit that the graph refused. -/
  | execution
  /-- The result cannot be linked to where it has to go. -/
  | finalLink
  | unknownOutput (name : String)
  | call (e : CallError)
  deriving DecidableEq, Repr

namespace BuildError

/-- The wording of a build error. -/
def message : BuildError → String
  | unknownVariable name => s!"Unknown Variable '{name}'"
  | wrongTuple => "Wrong use of '( , )' Syntax"
  | tooLarge => "Expression too Large"
  | execution => "Error on Execution"
  | finalLink => "Error on Final Link"
  | unknownOutput name => s!"Unknown Output '{name}'"
  | call e => e.message

/-- The build error for a call that failed. -/
def ofFunction : FunctionError → BuildError
  | .call e => call e
  | .graph _ => execution

/-- The build error for an edit that failed. -/
def ofGraph (_ : GraphError) : BuildError := execution

end BuildError

end NodeFormula
