import NodeFormula.Node.Kind
import NodeFormula.Tag
/-!
# NodeFormula — node graphs

A graph is a list of nodes and a list of links, both in order of creation. Node `0`
hands in the inputs of the graph and node `1` takes its outputs; the sockets of
these two are the interface. Identifiers are never used twice, not even after a
removal; they are plain numbers, which is right of an editor whose identifiers have 32
bits as long as it makes fewer than 2^32 nodes and links.
-/

namespace NodeFormula

/-- The identifier of a node. -/
abbrev NodeId := Nat

/-- The identifier of a link. -/
abbrev LinkId := Nat

/-- An output socket, by its position on a node. -/
structure OutputRef where
  node : NodeId
  index : Nat
  deriving DecidableEq, Repr

/-- An input socket, by its position on a node. -/
structure InputRef where
  node : NodeId
  index : Nat
  deriving DecidableEq, Repr

/-- Where a node is drawn. -/
structure Place where
  x : Float32
  y : Float32
  deriving DecidableEq

/-- A socket of a node. -/
structure Socket where
  name : String
  type : SocketType
  /-- The value of an input that nothing is linked into. -/
  default : Value
  deriving DecidableEq, Repr

/-- A socket that holds zero. -/
def Socket.fresh (name : String) (type : SocketType) : Socket := ⟨name, type, .zero type⟩

/-- A node of a graph. -/
structure Node where
  id : NodeId
  kind : NodeKind
  name : String
  label : String
  tag : Option Tag
  place : Place
  inputs : List Socket
  outputs : List Socket
  /-- A pass owns the node. -/
  automated : Bool
  deriving DecidableEq

/-- A link from an output to an input. -/
structure Link where
  id : LinkId
  source : OutputRef
  target : InputRef
  deriving DecidableEq, Repr

/-- A node graph. -/
structure Graph where
  nodes : List Node
  links : List Link
  nextNode : NodeId
  nextLink : LinkId
  /-- The labels of all nodes made so far, removed ones included. -/
  labels : List String
  active : Option NodeId
  deriving DecidableEq

/-- The text of a node identifier. -/
def NodeId.text (n : NodeId) : String := s!"node#{n}"

/-- Why a graph refuses an operation. -/
inductive GraphError where
  | unknownNode (node : NodeId)
  | unknownInput (input : InputRef)
  | unknownOutput (output : OutputRef)
  | unknownLink
  | unknownSocket (name : String)
  | duplicateSocket (name : String)
  /-- The interface nodes are neither made nor removed. -/
  | protectedNode (node : NodeId)
  | operandCount (kind : NodeKind) (expected found : Nat)
  | constantType (expected found : SocketType)
  | cycle (node : NodeId)
  | missingInput (name : String)
  deriving DecidableEq, Repr

/-- The wording of a graph error. -/
def GraphError.message : GraphError → String
  | unknownNode n => s!"unknown node {NodeId.text n}"
  | unknownInput i => s!"node {NodeId.text i.node} has no input {i.index}"
  | unknownOutput o => s!"node {NodeId.text o.node} has no output {o.index}"
  | unknownLink => "unknown link"
  | unknownSocket name => s!"no interface socket named '{name}'"
  | duplicateSocket name => s!"interface socket '{name}' already exists"
  | protectedNode n => s!"node {NodeId.text n} is part of the graph interface"
  | operandCount kind expected found => s!"{kind.label} takes {expected} operands, got {found}"
  | constantType expected found =>
    s!"cannot store a {found.text} constant in a {expected.text} socket"
  | cycle n => s!"link would create a cycle through {NodeId.text n}"
  | missingInput name => s!"no value for interface input '{name}'"

namespace Graph

/-- The node whose outputs are the inputs of the graph. -/
def entry : NodeId := 0

/-- The node whose inputs are the outputs of the graph. -/
def exit : NodeId := 1

/-- The node of an identifier. -/
def node? (g : Graph) (n : NodeId) : Option Node := g.nodes.find? (·.id == n)

/-- A graph has a node. -/
def hasNode (g : Graph) (n : NodeId) : Bool := (g.node? n).isSome

/-- The kind of a node. -/
def kind? (g : Graph) (n : NodeId) : Option NodeKind := (g.node? n).map Node.kind

/-- The name of a node. -/
def name? (g : Graph) (n : NodeId) : Option String := (g.node? n).map Node.name

/-- Where a node is drawn. -/
def place? (g : Graph) (n : NodeId) : Option Place := (g.node? n).map Node.place

/-- The first node that carries a tag. -/
def byTag? (g : Graph) (t : Tag) : Option NodeId :=
  (g.nodes.find? (·.tag == some t)).map Node.id

/-- The nodes that carry a tag, in order of creation. -/
def tagged (g : Graph) : List (Tag × NodeId) :=
  g.nodes.filterMap fun n => n.tag.map (·, n.id)

/-- How many nodes there are of a kind. -/
def countKind (g : Graph) (kind : NodeKind) : Nat := g.nodes.countP (·.kind == kind)

/-- An input socket, or why there is none. -/
def inputSocket (g : Graph) (i : InputRef) : Except GraphError Socket :=
  match g.node? i.node with
  | none => .error (.unknownNode i.node)
  | some n =>
    match n.inputs[i.index]? with
    | none => .error (.unknownInput i)
    | some s => .ok s

/-- An output socket, or why there is none. -/
def outputSocket (g : Graph) (o : OutputRef) : Except GraphError Socket :=
  match g.node? o.node with
  | none => .error (.unknownNode o.node)
  | some n =>
    match n.outputs[o.index]? with
    | none => .error (.unknownOutput o)
    | some s => .ok s

/-- The type of an input socket. -/
def inputType? (g : Graph) (i : InputRef) : Option SocketType :=
  (g.inputSocket i).toOption.map Socket.type

/-- The type of an output socket. -/
def outputType? (g : Graph) (o : OutputRef) : Option SocketType :=
  (g.outputSocket o).toOption.map Socket.type

/-- The value that an input holds when nothing is linked into it. -/
def default? (g : Graph) (i : InputRef) : Option Value :=
  (g.inputSocket i).toOption.map Socket.default

/-- The link into an input. -/
def incoming? (g : Graph) (i : InputRef) : Option Link := g.links.find? (·.target == i)

/-- The sockets that hand in the inputs of the graph. -/
def inputSockets (g : Graph) : List Socket := ((g.node? entry).map Node.outputs).getD []

/-- The sockets that take the outputs of the graph. -/
def outputSockets (g : Graph) : List Socket := ((g.node? exit).map Node.inputs).getD []

/-- The place of a named socket in a list, and its type. -/
def findSocket? (name : String) (sockets : List Socket) : Option (Nat × SocketType) := do
  let index ← sockets.findIdx? (·.name == name)
  let socket ← sockets[index]?
  return (index, socket.type)

/-- The output that hands in a named input of the graph, and its type. -/
def input? (g : Graph) (name : String) : Option (OutputRef × SocketType) :=
  (findSocket? name g.inputSockets).map fun (index, type) => (⟨entry, index⟩, type)

/-- The input that takes a named output of the graph, and its type. -/
def output? (g : Graph) (name : String) : Option (InputRef × SocketType) :=
  (findSocket? name g.outputSockets).map fun (index, type) => (⟨exit, index⟩, type)

/-- The outputs of the graph. -/
def outputs (g : Graph) : List (String × InputRef × SocketType) :=
  g.outputSockets.zipIdx.map fun (s, index) => (s.name, ⟨exit, index⟩, s.type)

end Graph

end NodeFormula
