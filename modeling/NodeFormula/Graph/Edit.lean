import NodeFormula.Graph.Ancestry
/-!
# NodeFormula — editing graphs

The operations that change a graph, statement by statement. An operation that fails
half-way keeps what it has done until then: it is a function from a graph to a result
*and* a graph. That none of them does anything before it fails is a theorem about each
of them, not a matter of its type.

What an operation gives on a graph that is not needed any more where it fails is its
outcome, which is written `g.createNode kind`, `g.link source target` and so on.
-/

namespace NodeFormula

/-- An operation on a graph. -/
abbrev GraphM := EStateM GraphError Graph

namespace GraphM

/-- The result of an operation and the graph it leaves, or its error. -/
def outcome (m : GraphM α) (g : Graph) : Except GraphError (α × Graph) :=
  match m g with
  | .ok a g' => .ok (a, g')
  | .error e _ => .error e

/-- The graph that an operation without a result leaves, or its error. -/
def after (m : GraphM Unit) (g : Graph) : Except GraphError Graph := (m.outcome g).map Prod.snd

/-- A reading of the graph that may fail. -/
def read (f : Graph → Except GraphError α) : GraphM α := fun g =>
  match f g with
  | .ok a => .ok a g
  | .error e => .error e g

end GraphM

namespace Graph

/-- Changes the node of an identifier. -/
def updateNode (g : Graph) (n : NodeId) (f : Node → Node) : Graph :=
  { g with nodes := g.nodes.map fun node => if node.id = n then f node else node }

/-- A number in at least three digits. -/
def threeDigits (n : Nat) : String :=
  let ds := Nat.toDigits 10 n
  String.ofList (List.replicate (3 - ds.length) '0' ++ ds)

/-- The name of the next node with a label: the label itself at first, and numbered
from then on. -/
def freshName (g : Graph) (label : String) : String :=
  match g.labels.count label with
  | 0 => label
  | n + 1 => label ++ "." ++ threeDigits (n + 1)

/-- The sockets that a kind prescribes. -/
def freshSockets (specs : List SocketSpec) : List Socket :=
  specs.map fun s => .fresh s.name s.type

/-- Adds a node of any kind. -/
def insertNode (g : Graph) (kind : NodeKind) (place : Place) : NodeId × Graph :=
  let node : Node :=
    { id := g.nextNode
      kind
      name := g.freshName kind.label
      label := kind.label
      tag := none
      place
      inputs := freshSockets kind.inputs
      outputs := freshSockets kind.outputs
      automated := false }
  (g.nextNode,
    { g with
      nodes := g.nodes ++ [node]
      nextNode := g.nextNode + 1
      labels := kind.label :: g.labels })

/-- The graph of the interface nodes alone. -/
def empty : Graph :=
  let bare : Graph := ⟨[], [], 0, 0, [], none⟩
  let (_, withEntry) := bare.insertNode .groupInput ⟨-400, 0⟩
  (withEntry.insertNode .groupOutput ⟨400, 0⟩).2

/-- Drops the links that do not pass a test. -/
def keepLinks (g : Graph) (keep : Link → Bool) : Graph := { g with links := g.links.filter keep }

/-- Makes a node the active one, or none if there is no such node. -/
def setActive (g : Graph) (n : Option NodeId) : Graph := { g with active := n.filter g.hasNode }

/-- A position after the socket at `removed` is gone. -/
def shiftIndex (removed index : Nat) : Nat := if removed < index then index - 1 else index

/-- Drops the links from the input of the graph at a position, and renumbers those from
the inputs after it. -/
def closeInput (g : Graph) (index : Nat) : Graph :=
  let kept := g.links.filter fun l => !(l.source.node == entry && l.source.index == index)
  { g with links := kept.map fun l =>
      if l.source.node = entry then
        { l with source := ⟨entry, shiftIndex index l.source.index⟩ }
      else l }

/-- Drops the link into the output of the graph at a position, and renumbers those into
the outputs after it. -/
def closeOutput (g : Graph) (index : Nat) : Graph :=
  let kept := g.links.filter fun l => !(l.target.node == exit && l.target.index == index)
  { g with links := kept.map fun l =>
      if l.target.node = exit then
        { l with target := ⟨exit, shiftIndex index l.target.index⟩ }
      else l }

end Graph

namespace GraphM

open Graph

/-! ## Statements -/

/-- Changes a node that has to be there. -/
def modifyNode (n : NodeId) (f : Node → Node) : GraphM Unit := do
  if !(← get).hasNode n then throw (.unknownNode n)
  modify (·.updateNode n f)

/-- Takes a node out of the graph, and tells whether it was there. -/
def takeNode (n : NodeId) : GraphM Bool :=
  modifyGet fun g => (g.hasNode n, { g with nodes := g.nodes.filter (·.id != n) })

/-- Takes a link out of the graph, and tells whether it was there. -/
def takeLink (l : LinkId) : GraphM Bool :=
  modifyGet fun g => (g.links.any (·.id == l), g.keepLinks (·.id != l))

/-! ## Operations -/

/-- Adds a node. The interface nodes are there from the start. -/
def createNode (kind : NodeKind) : GraphM NodeId := do
  if kind.isInterface then throw (.protectedNode entry)
  modifyGet (·.insertNode kind ⟨0, 0⟩)

/-- Removes a node with its links. -/
def removeNode (n : NodeId) : GraphM Unit := do
  if n = entry ∨ n = exit then throw (.protectedNode n)
  if !(← takeNode n) then throw (.unknownNode n)
  modify (·.keepLinks fun l => l.source.node != n && l.target.node != n)
  if (← get).active = some n then modify ({ · with active := none })

/-- Tags a node, which makes the tag its name and label too. -/
def setTag (n : NodeId) (t : Tag) : GraphM Unit :=
  modifyNode n fun node => { node with tag := some t, name := t.text, label := t.text }

/-- Moves a node. -/
def setPlace (n : NodeId) (place : Place) : GraphM Unit :=
  modifyNode n fun node => { node with place }

/-- Marks a node as owned by a pass. -/
def markAutomated (n : NodeId) : GraphM Unit :=
  modifyNode n fun node => { node with automated := true }

/-- Makes a node the active one, or none if there is no such node. -/
def setActive (n : Option NodeId) : GraphM Unit := modify (·.setActive n)

/-- Adds an input to the graph. -/
def newInput (name : String) (type : SocketType) : GraphM OutputRef := do
  if ((← get).input? name).isSome then throw (.duplicateSocket name)
  let index := (← get).inputSockets.length
  modifyNode entry fun n => { n with outputs := n.outputs ++ [.fresh name type] }
  return ⟨entry, index⟩

/-- Adds an output to the graph. -/
def newOutput (name : String) (type : SocketType) : GraphM InputRef := do
  if ((← get).output? name).isSome then throw (.duplicateSocket name)
  let index := (← get).outputSockets.length
  modifyNode exit fun n => { n with inputs := n.inputs ++ [.fresh name type] }
  return ⟨exit, index⟩

/-- Removes a named socket of the interface with its links: the input of that name,
or else the output. -/
def removeSocket (name : String) : GraphM Unit := do
  match (← get).input? name with
  | some (o, _) =>
    modifyNode entry fun n => { n with outputs := n.outputs.eraseIdx o.index }
    modify (·.closeInput o.index)
  | none =>
    match (← get).output? name with
    | some (i, _) =>
      modifyNode exit fun n => { n with inputs := n.inputs.eraseIdx i.index }
      modify (·.closeOutput i.index)
    | none => throw (.unknownSocket name)

/-- Sets the value an input holds when nothing is linked into it. A vector does not
fit a float; a float fits a vector. -/
def setDefault (i : InputRef) (v : Value) : GraphM Unit := do
  let socket ← read (·.inputSocket i)
  if socket.type = .float ∧ v.type = .vector then
    throw (.constantType socket.type v.type)
  modify (·.updateNode i.node fun n =>
    { n with inputs := n.inputs.modify i.index fun s => { s with default := v.convert s.type } })

/-- Links an output into an input in place of what was linked there. A link that would
close a cycle is refused. -/
def link (source : OutputRef) (target : InputRef) : GraphM LinkId := do
  let _ ← read (·.outputSocket source)
  let _ ← read (·.inputSocket target)
  if (← get).feeds target.node source.node then throw (.cycle target.node)
  if let some old := (← get).incoming? target then
    let _ ← takeLink old.id
  let id := (← get).nextLink
  modify ({ · with nextLink := id + 1 })
  modify fun g => { g with links := g.links ++ [⟨id, source, target⟩] }
  return id

/-- Removes a link. -/
def unlink (l : LinkId) : GraphM Unit := do
  if !(← takeLink l) then throw .unknownLink

end GraphM

namespace Graph

/-! ## Outcomes -/

@[inherit_doc GraphM.modifyNode]
def modifyNode (g : Graph) (n : NodeId) (f : Node → Node) : Except GraphError Graph :=
  (GraphM.modifyNode n f).after g

@[inherit_doc GraphM.createNode]
def createNode (g : Graph) (kind : NodeKind) : Except GraphError (NodeId × Graph) :=
  (GraphM.createNode kind).outcome g

@[inherit_doc GraphM.removeNode]
def removeNode (g : Graph) (n : NodeId) : Except GraphError Graph :=
  (GraphM.removeNode n).after g

@[inherit_doc GraphM.setTag]
def setTag (g : Graph) (n : NodeId) (t : Tag) : Except GraphError Graph :=
  (GraphM.setTag n t).after g

@[inherit_doc GraphM.setPlace]
def setPlace (g : Graph) (n : NodeId) (place : Place) : Except GraphError Graph :=
  (GraphM.setPlace n place).after g

@[inherit_doc GraphM.markAutomated]
def markAutomated (g : Graph) (n : NodeId) : Except GraphError Graph :=
  (GraphM.markAutomated n).after g

@[inherit_doc GraphM.newInput]
def newInput (g : Graph) (name : String) (type : SocketType) : Except GraphError (OutputRef × Graph) :=
  (GraphM.newInput name type).outcome g

@[inherit_doc GraphM.newOutput]
def newOutput (g : Graph) (name : String) (type : SocketType) : Except GraphError (InputRef × Graph) :=
  (GraphM.newOutput name type).outcome g

@[inherit_doc GraphM.removeSocket]
def removeSocket (g : Graph) (name : String) : Except GraphError Graph :=
  (GraphM.removeSocket name).after g

@[inherit_doc GraphM.setDefault]
def setDefault (g : Graph) (i : InputRef) (v : Value) : Except GraphError Graph :=
  (GraphM.setDefault i v).after g

@[inherit_doc GraphM.link]
def link (g : Graph) (source : OutputRef) (target : InputRef) : Except GraphError (LinkId × Graph) :=
  (GraphM.link source target).outcome g

@[inherit_doc GraphM.unlink]
def unlink (g : Graph) (l : LinkId) : Except GraphError Graph :=
  (GraphM.unlink l).after g

/-- A graph with the given inputs and outputs. -/
def withInterface (inputs outputs : List (String × SocketType)) : Except GraphError Graph := do
  let g ← inputs.foldlM (fun g (name, type) => (g.newInput name type).map Prod.snd) empty
  outputs.foldlM (fun g (name, type) => (g.newOutput name type).map Prod.snd) g

end Graph

end NodeFormula
