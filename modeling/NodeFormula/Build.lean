import NodeFormula.Build.Bindings
import NodeFormula.Expr.CallForm
import NodeFormula.Options
/-!
# NodeFormula — building expressions

An expression in call form becomes nodes: one or more for each call, linked to the
nodes of its arguments, and the last one linked to the sink. What can be checked
without a change to the graph is checked first. If building fails later, the nodes
it made are removed again.
-/

namespace NodeFormula

namespace Build

variable (b : Bindings)

/-- The literals among three operands, if all of them are numbers. -/
def numbers? : List Operand → Option Vec3
  | [.literal (.float x), .literal (.float y), .literal (.float z)] => some ⟨x, y, z⟩
  | _ => none

/-- The output of the node of a kind for operands, under a name that is no function's. -/
def node [TagDigest] (name : String) (kind : NodeKind) (operands : List Operand) :
    PassM BuildError OutputRef := do
  let t ← Pass.tagFor name operands
  let n ← (Pass.findOrCreate t kind operands).adaptExcept BuildError.ofGraph
  return ⟨n, 0⟩

/-- A vector of three operands. -/
def combine [TagDigest] (elements : List Operand) : PassM BuildError OutputRef :=
  node "combine" .combineXyz elements

/-- The operand for three elements of a tuple: a constant if they are numbers. -/
def vector [TagDigest] (elements : List Operand) : PassM BuildError Operand :=
  match numbers? elements with
  | some v => return .literal (.vector v)
  | none => return .socket (← combine elements)

mutual

/-- Builds an expression. A tuple of three elements may stand where a vector may,
which is as the whole expression and as an argument, but not inside a tuple. -/
def operand [TagDigest] (tuples : Bool) : Expr → PassM BuildError Operand
  | .number _ v text =>
    match b.constant? text with
    | some o => return .socket o
    | none => return .literal (.float v)
  | .ident _ name => do
    match b.resolve? (← get).graph name with
    | some o => return .socket o
    | none => throw (.unknownVariable name)
  | .call _ f args => do
    let function ← Pass.read fun _ => (Catalogue.require f).mapError .call
    let values ← operands true args
    let t ← Pass.tagFor f values
    let o ← (function.call t values).adaptExcept BuildError.ofFunction
    return .socket o
  | .tuple _ items =>
    if tuples && items.length == 3 then do
      let elements ← operands false items
      vector elements
    else throw .wrongTuple
  | .binary .. => throw .execution
  | .unary .. => throw .execution

/-- Builds expressions from left to right. -/
def operands [TagDigest] (tuples : Bool) : List Expr → PassM BuildError (List Operand)
  | [] => return []
  | e :: es => do
    let x ← operand tuples e
    let xs ← operands tuples es
    return x :: xs

end

/-- Builds a whole expression. A constant gets a node to be linked from. -/
def root [TagDigest] (e : Expr) : PassM BuildError OutputRef := do
  match ← operand b true e with
  | .socket o => return o
  | .literal (.float a) => node "value" .value [.literal (.float a)]
  | .literal (.vector v) => combine (v.toList.map fun a => .literal (.float a))

/-- Builds a whole expression and links it to the sink; tells whether a link was made. -/
def linked [TagDigest] (e : Expr) : PassM BuildError (OutputRef × Bool) := do
  let o ← root b e
  let made ← (Pass.linkOutput o b.sink).adaptExcept fun _ => .finalLink
  return (o, made)

/-- What is wrong with a node on its own: a function that does not exist, or a
variable that is not bound. -/
def nodeError? (g : Graph) : Expr → Option BuildError
  | .call _ f _ =>
    match Catalogue.require f with
    | .error e => some (.call e)
    | .ok _ => none
  | .ident _ name => if (b.resolve? g name).isNone then some (.unknownVariable name) else none
  | _ => none

/-- What is checked before the graph is changed. -/
def check (o : BuildOptions) (e : Expr) (g : Graph) : Except BuildError Unit :=
  if o.maxDepth < e.depth then .error .tooLarge
  else match e.preorder.findSome? (nodeError? b g) with
    | some err => .error err
    | none => .ok ()

end Build

/-- What a build did. -/
structure BuildReport where
  output : OutputRef
  /-- The link to the sink is new. -/
  sinkLinked : Bool
  nodes : Report
  pruned : List Tag
  deriving DecidableEq, Repr

/-- A build with this report changed nothing. -/
def BuildReport.isNoop (r : BuildReport) : Bool :=
  r.nodes.isNoop && !r.sinkLinked && r.pruned.isEmpty

/-- Builds an expression in call form in a graph. -/
def build [TagDigest] (o : BuildOptions) (b : Bindings) (e : Expr) (g : Graph) :
    Except BuildError BuildReport × Graph :=
  match Build.check b o e g with
  | .error err => (.error err, g)
  | .ok () =>
    match Build.linked b e (Pass.start g o.spacing) with
    | .error err p => (.error err, p.rollBack.graph)
    | .ok (output, made) p =>
      if o.prune then
        match Pass.prune p with
        | .error _ p => (.error .execution, p.graph)
        | .ok pruned p => (.ok ⟨output, made, p.report, pruned⟩, p.graph)
      else (.ok ⟨output, made, p.report, []⟩, p.graph)

/-- Builds a text that is in call form already. -/
def buildText [TagDigest] (o : BuildOptions) (b : Bindings) (text : String) (g : Graph) :
    Except BuildError BuildReport × Graph :=
  match Expr.parse o.maxDepth text with
  | .error ⟨.tooDeep _, _⟩ => (.error .tooLarge, g)
  | .error _ => (.error .execution, g)
  | .ok e => if e.isCallForm then build o b e g else (.error .execution, g)

end NodeFormula
