import NodeFormula.Graph
/-!
# NodeFormula — values of a graph

The value of a graph's output for given inputs. The outputs of a node are computed
once and kept. A path longer than the number of nodes would run in a cycle, and that
bound is what the recursion is on.
-/

namespace NodeFormula

namespace Graph

/-- The outputs of the nodes computed so far. -/
abbrev Memo := List (NodeId × List Value)

/-- A computation that keeps the outputs of nodes. -/
abbrev EvalM := StateT Memo (Except GraphError)

variable (g : Graph) (inputs : String → Option Value)

/-- The value an input receives, given the values of outputs. -/
def inputValue (source : OutputRef → EvalM Value) (i : InputRef) : EvalM Value := do
  let socket ← liftM (g.inputSocket i)
  match g.incoming? i with
  | some l => return (← source l.source).convert socket.type
  | none => return socket.default

/-- The value kept for an output. -/
def kept? (memo : Memo) (o : OutputRef) : Option Value :=
  (memo.lookup o.node).bind fun values => values[o.index]?

/-- The value of an output. The number bounds the length of the paths into it. -/
def outputValue : Nat → OutputRef → EvalM Value
  | 0, o => throw (.cycle o.node)
  | bound + 1, o => do
    let socket ← liftM (g.outputSocket o)
    if o.node = entry then
      match inputs socket.name with
      | some v => return v.convert socket.type
      | none => throw (.missingInput socket.name)
    else
      match kept? (← get) o, g.node? o.node with
      | some v, _ => return v
      | none, none => throw (.unknownNode o.node)
      | none, some node =>
        let args ← (List.range node.inputs.length).mapM fun index =>
          inputValue g (outputValue bound) ⟨o.node, index⟩
        let values := node.kind.evaluate args
        match values[o.index]? with
        | none => throw (.unknownOutput o)
        | some v =>
          modify ((o.node, values) :: ·)
          return v

/-- The value of a named output of the graph. -/
def evaluate (name : String) : Except GraphError Value :=
  match g.output? name with
  | none => .error (.unknownSocket name)
  | some (i, type) =>
    ((inputValue g (outputValue g inputs g.nodes.length) i).run' []).map (·.convert type)

/-- The value of an output socket. -/
def evaluateOutput (o : OutputRef) : Except GraphError Value :=
  (outputValue g inputs (g.nodes.length + 1) o).run' []

end Graph

end NodeFormula
