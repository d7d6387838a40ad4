import NodeFormula.Build
import NodeFormula.Proofs.Graph.Outcome
/-!
# NodeFormula — drafts of builds

A draft is a build without a graph. Its operands are sketches: the identity and the type
that the socket will have, and the outcome it will have for given inputs of the graph.
None of these depends on what the graph holds, and neither do the tags and the errors of a
build: a draft keeps the keys that tags are derived from, and reads nothing but the name
of the entry and the inputs it hands in.
-/

namespace NodeFormula

/-- A function and the identities of its operands: what a tag is derived from. -/
structure Key where
  function : String
  identities : List String
  deriving DecidableEq, Repr

/-- The tag of a key, before repetitions are numbered. -/
def Key.base [TagDigest] (k : Key) : Tag := Tag.derive k.function k.identities

/-- The identity of an output socket, by the name of its node. -/
def socketIdentity (name : String) (index : Nat) : String := name ++ ":" ++ toString index

namespace NodeKind

/-- The type of the first output. -/
def resultType (kind : NodeKind) : SocketType := (kind.outputs.head?.map SocketSpec.type).getD .float

/-- The outcome of the first output for the outcomes of the arguments. -/
def outcome (kind : NodeKind) (args : List Outcome) : Outcome :=
  (args.mapM id).map fun values => (kind.evaluate values).getD 0 (.float 0)

end NodeKind

/-- An operand in a draft. -/
inductive Sketch where
  | literal (v : Value)
  /-- A socket, by what tags and links see of it. -/
  | socket (identity : String) (type : SocketType) (outcome : (String → Option Value) → Outcome)

namespace Sketch

/-- The identity of an operand in a tag. -/
def identity : Sketch → String
  | literal (.float _) => Tag.floatIdentity
  | literal (.vector _) => Tag.vectorIdentity
  | socket id _ _ => id

/-- The type of an operand. -/
def type : Sketch → SocketType
  | literal v => v.type
  | socket _ t _ => t

/-- The outcome of an operand. -/
def outcome (inputs : String → Option Value) : Sketch → Outcome
  | literal v => .ok v
  | socket _ _ r => r inputs

/-- An operand is a vector. -/
def isVector (x : Sketch) : Bool := x.type == .vector

/-- The literals among three operands, if all of them are numbers. -/
def numbers? : List Sketch → Option Vec3
  | [.literal (.float x), .literal (.float y), .literal (.float z)] => some ⟨x, y, z⟩
  | _ => none

end Sketch

namespace Stage

/-- The tag of the node of a stage. -/
def tag (s : Stage) (t : Tag) : Tag := (s.child.map t.child).getD t

/-- The operand that an argument stands for. -/
def argSketch (operands : List Sketch) (previous : Sketch) : StageArg → Sketch
  | .param i => operands.getD i (.literal (.float 0))
  | .constant a => .literal (.float a)
  | .zero => .literal (.zero (if operands.any Sketch.isVector then .vector else .float))
  | .previous => previous

/-- The node of a stage. -/
def sketch (t : Tag) (operands : List Sketch) (previous : Sketch) (s : Stage) : Sketch :=
  let args := s.args.map (argSketch operands previous)
  let kind := s.node.kind (args.any Sketch.isVector)
  .socket (socketIdentity (s.tag t).text 0) kind.resultType fun inputs =>
    kind.outcome (args.map (Sketch.outcome inputs))

/-- The one stage of a node whose inputs are the operands in order. -/
def single (kind : NodeKind) : Stage :=
  ⟨none, .fixed kind, (List.range kind.inputs.length).map .param⟩

end Stage

namespace Builtin

/-- The nodes of a function; the result is the last one. -/
def sketch (f : Builtin) (t : Tag) (operands : List Sketch) : Sketch :=
  f.stages.foldl (Stage.sketch t operands) (.literal (.float 0))

/-- What is checked of a call, by which operands are vectors. -/
def checkVectors (f : Builtin) (vectors : List Bool) : Except CallError Unit := do
  f.checkArity vectors.length
  if f.support = .scalarOnly then
    match vectors.findIdx? id with
    | none => .ok ()
    | some index => .error (.invalidOperand f.name (f.params.getD index "?") (index + 1))

end Builtin

/-- An operation of a draft. The state is the keys so far, the latest first. -/
abbrev DraftM := EStateM BuildError (List Key)

namespace Draft

/-- What fails without a change. -/
def ofExcept {α : Type} : Except BuildError α → DraftM α
  | .ok a => pure a
  | .error e => throw e

/-- The next tag of a function on operands. -/
def tagFor [TagDigest] (function : String) (operands : List Sketch) : DraftM Tag :=
  modifyGet fun keys =>
    let key : Key := ⟨function, operands.map Sketch.identity⟩
    (key.base.withOccurrence ((keys.map Key.base).count key.base), key :: keys)

/-- The node of a kind for operands, under a name that is no function's. -/
def node [TagDigest] (name : String) (kind : NodeKind) (operands : List Sketch) : DraftM Sketch := do
  let t ← tagFor name operands
  return (Stage.single kind).sketch t operands (.literal (.float 0))

/-- The operand for three elements of a tuple. -/
def vector [TagDigest] (elements : List Sketch) : DraftM Sketch :=
  match Sketch.numbers? elements with
  | some v => return .literal (.vector v)
  | none => node "combine" .combineXyz elements

section

variable [TagDigest] (name : String) (sockets : List Socket)

/-- The outcome of an input of the graph. -/
def given (x : String) (type : SocketType) (inputs : String → Option Value) : Outcome :=
  match inputs x with
  | some v => .ok (v.convert type)
  | none => .error (.missingInput x)

mutual

/-- Drafts an expression. -/
def operand (tuples : Bool) : Expr → DraftM Sketch
  | .number _ v _ => return .literal (.float v)
  | .ident _ x =>
    match Graph.findSocket? x sockets with
    | some (index, type) => return .socket (socketIdentity name index) type (given x type)
    | none => throw (.unknownVariable x)
  | .call _ f args => do
    let function ← ofExcept ((Catalogue.require f).mapError .call)
    let xs ← operands true args
    let t ← tagFor f xs
    ofExcept ((function.checkVectors (xs.map Sketch.isVector)).mapError .call)
    return function.sketch t xs
  | .tuple _ items =>
    if tuples && items.length == 3 then do
      let xs ← operands false items
      vector xs
    else throw .wrongTuple
  | .binary .. => throw .execution
  | .unary .. => throw .execution

/-- Drafts expressions from left to right. -/
def operands (tuples : Bool) : List Expr → DraftM (List Sketch)
  | [] => return []
  | e :: es => do
    let x ← operand tuples e
    let xs ← operands tuples es
    return x :: xs

end

/-- Drafts a whole expression. -/
def root (e : Expr) : DraftM Sketch := do
  match ← operand name sockets true e with
  | .socket id type r => return .socket id type r
  | .literal (.float a) => node "value" .value [.literal (.float a)]
  | .literal (.vector v) => node "combine" .combineXyz (v.toList.map fun a => .literal (.float a))

end

end Draft

end NodeFormula
