import NodeFormula.Graph.Edit
/-!
# NodeFormula — passes over a graph

A pass asks for nodes by tag. A node that carries the tag already is used again with
its constants refreshed, so that a pass over a graph that needs nothing new leaves
it as it was. A pass records what it did, for its report and for taking it back.

Operations of a pass may fail half-way, and what they did until then stays: they are
functions from a pass to a result *and* a pass.
-/

namespace NodeFormula

/-- What a node is given at an input: a socket to link or a constant to hold. -/
inductive Operand where
  | socket (o : OutputRef)
  | literal (v : Value)
  deriving DecidableEq, Repr

namespace Operand

/-- The constant of an operand. -/
def constant? : Operand → Option Value
  | socket _ => none
  | literal v => some v

/-- The socket of an operand. -/
def socket? : Operand → Option OutputRef
  | socket o => some o
  | literal _ => none

/-- The identity of an operand in a tag. Constants count by type alone, so a node is
found again when a constant has changed; sockets count by the name of their node. -/
def identity (g : Graph) : Operand → String
  | literal (.float _) => Tag.floatIdentity
  | literal (.vector _) => Tag.vectorIdentity
  | socket o => (g.name? o.node).getD (NodeId.text o.node) ++ ":" ++ toString o.index

/-- The type of an operand. -/
def type? (g : Graph) : Operand → Option SocketType
  | literal v => some v.type
  | socket o => g.outputType? o

/-- An operand is a vector. -/
def isVector (g : Graph) (x : Operand) : Bool := x.type? g == some .vector

end Operand

/-- What a pass did to a graph. -/
structure Report where
  created : List NodeId
  /-- Nodes used again with other constants. -/
  updated : List NodeId
  /-- Nodes used again as they were. -/
  reused : List NodeId
  removed : List NodeId
  linksCreated : Nat
  deriving DecidableEq, Repr

namespace Report

/-- The report of a pass that has done nothing. -/
def empty : Report := ⟨[], [], [], [], 0⟩

/-- A pass with this report changed nothing. -/
def isNoop (r : Report) : Bool :=
  r.created.isEmpty && r.updated.isEmpty && r.removed.isEmpty && r.linksCreated == 0

end Report

/-- The state of a pass. -/
structure Pass where
  graph : Graph
  /-- Nodes already found or made for a tag, the latest first. -/
  cache : List (Tag × NodeId)
  /-- The tags derived so far, before repetitions are numbered. -/
  derived : List Tag
  touched : List NodeId
  report : Report
  /-- How far a new node is drawn from the active one. -/
  spacing : Float32
  deriving DecidableEq

/-- The spacing when nobody sets one. -/
def defaultSpacing : Float32 := 200

/-- An operation of a pass. -/
abbrev PassM (ε : Type) := EStateM ε Pass

namespace Pass

/-- The start of a pass over a graph. -/
def start (g : Graph) (spacing : Float32) : Pass := ⟨g, [], [], [], .empty, spacing⟩

/-- An operation on the graph of a pass. -/
def edit (m : GraphM α) : PassM GraphError α := fun p =>
  match m p.graph with
  | .ok a g => .ok a { p with graph := g }
  | .error e g => .error e { p with graph := g }

/-- A reading of the graph that may fail. -/
def read (f : Graph → Except ε α) : PassM ε α := fun p =>
  match f p.graph with
  | .ok a => .ok a p
  | .error e => .error e p

/-- Changes the report. -/
def record (f : Report → Report) : PassM ε Unit := modify fun p => { p with report := f p.report }

/-- The next tag of a function on operands of the given identities. A repetition
within the pass is numbered, so that no two calls share a node. -/
def nextTag [TagDigest] (function : String) (identities : List String) : PassM ε Tag :=
  modifyGet fun p =>
    let base := Tag.derive function identities
    (base.withOccurrence (p.derived.count base), { p with derived := base :: p.derived })

/-- The next tag of a function on operands. -/
def tagFor [TagDigest] (function : String) (operands : List Operand) : PassM ε Tag := do
  let p ← get
  nextTag function (operands.map (·.identity p.graph))

/-- The node of a tag: the one that the pass knows, if it is still there, or else the
one that carries the tag. -/
def find? (p : Pass) (t : Tag) : Option NodeId :=
  match p.cache.lookup t with
  | some n => if p.graph.hasNode n then some n else p.graph.byTag? t
  | none => p.graph.byTag? t

/-- Remembers the node of a tag. -/
def remember (t : Tag) (n : NodeId) : PassM ε Unit :=
  modify fun p => { p with cache := (t, n) :: p.cache }

/-- Forgets the node of a tag. -/
def forget (t : Tag) : PassM ε Unit :=
  modify fun p => { p with cache := p.cache.filter (·.1 != t) }

/-- Marks a node as used by this pass. -/
def touch (n : NodeId) : PassM ε Unit :=
  modify fun p => { p with touched := if p.touched.contains n then p.touched else n :: p.touched }

/-- The value that an input holds for a constant. -/
def coerce (g : Graph) (i : InputRef) (v : Value) : Except GraphError Value :=
  match g.inputType? i with
  | none => .error (.unknownInput i)
  | some type =>
    if v.type = .vector ∧ type = .float then .error (.constantType type v.type)
    else .ok (v.convert type)

/-- Makes an input hold a constant, and tells whether it held another one. -/
def hold (i : InputRef) (v : Value) : PassM GraphError Bool := do
  let v ← read fun g => coerce g i v
  if (← get).graph.default? i == some v then return false
  edit (.setDefault i v)
  return true

/-- Refreshes the constants among the operands of a node, from the input with the
given index on, and tells whether one has changed. -/
def refresh (n : NodeId) : Nat → List Operand → PassM GraphError Bool
  | _, [] => return false
  | index, .socket _ :: rest => refresh n (index + 1) rest
  | index, .literal v :: rest => do
    let changed ← hold ⟨n, index⟩ v
    let more ← refresh n (index + 1) rest
    return changed || more

/-- Connects the operands of a new node, from the input with the given index on. -/
def connect (n : NodeId) : Nat → List Operand → PassM GraphError Unit
  | _, [] => return ()
  | index, .socket o :: rest => do
    let _ ← edit (.link o ⟨n, index⟩)
    record fun r => { r with linksCreated := r.linksCreated + 1 }
    connect n (index + 1) rest
  | index, .literal v :: rest => do
    let v ← read fun g => coerce g ⟨n, index⟩ v
    edit (.setDefault ⟨n, index⟩ v)
    connect n (index + 1) rest

/-- The place of the next node: to the right of the active one. -/
def nextPlace (p : Pass) : Place :=
  match p.graph.active.bind p.graph.place? with
  | some place => ⟨place.x + p.spacing, place.y⟩
  | none => ⟨0, 0⟩

/-- Makes the node of a tag. -/
def create (t : Tag) (kind : NodeKind) (operands : List Operand) : PassM GraphError NodeId := do
  let n ← edit (.createNode kind)
  record fun r => { r with created := r.created ++ [n] }
  touch n
  let place := (← get).nextPlace
  edit (.setPlace n place)
  edit (.setTag n t)
  connect n 0 operands
  edit (.markAutomated n)
  edit (.setActive (some n))
  remember t n
  return n

/-- Uses a node again: only its constants are refreshed, since another operand to link
would have led to another tag. -/
def reuse (n : NodeId) (operands : List Operand) : PassM GraphError NodeId := do
  let changed ← refresh n 0 operands
  edit (.markAutomated n)
  touch n
  record fun r =>
    if changed then { r with updated := r.updated ++ [n] } else { r with reused := r.reused ++ [n] }
  return n

/-- The node of a tag, which is made if there is none, or none of this kind. -/
def findOrCreate (t : Tag) (kind : NodeKind) (operands : List Operand) :
    PassM GraphError NodeId := do
  if operands.length ≠ kind.inputs.length then
    throw (.operandCount kind kind.inputs.length operands.length)
  match (← get).find? t with
  | none => create t kind operands
  | some n =>
    remember t n
    if (← get).graph.kind? n = some kind then reuse n operands
    else
      edit (.removeNode n)
      forget t
      record fun r => { r with removed := r.removed ++ [n] }
      create t kind operands

/-- Links an output into an input, unless it is linked there already; tells whether a
link was made. -/
def linkOutput (source : OutputRef) (target : InputRef) : PassM GraphError Bool := do
  if ((← get).graph.incoming? target).map Link.source = some source then return false
  let _ ← edit (.link source target)
  record fun r => { r with linksCreated := r.linksCreated + 1 }
  return true

/-- Removes the link into an input, and tells whether there was one. -/
def disconnect (i : InputRef) : PassM GraphError Bool := do
  match (← get).graph.incoming? i with
  | none => return false
  | some l =>
    edit (.unlink l.id)
    return true

/-- Makes an input hold a constant in place of what was linked into it; tells whether
anything changed. -/
def setConstant (i : InputRef) (v : Value) : PassM GraphError Bool := do
  let unlinked ← disconnect i
  let changed ← hold i v
  return unlinked || changed

/-- Forgets the nodes that the pass has removed. -/
def forgetRemoved (p : Pass) : Pass :=
  { p with cache := p.cache.filter fun (_, n) => !p.report.removed.contains n }

/-- Removes a node if the graph allows it, and records that. -/
def discard (p : Pass) (n : NodeId) : Pass :=
  match GraphM.removeNode n p.graph with
  | .error _ g => { p with graph := g }
  | .ok () g =>
    { p with
      graph := g
      touched := p.touched.filter (· != n)
      report := { p.report with removed := p.report.removed ++ [n] } }

/-- Removes the nodes that the pass has made, the latest first. -/
def rollBack (p : Pass) : Pass :=
  let cleared : Pass := { p with report := { p.report with created := [] } }
  (p.report.created.reverse.foldl discard cleared).forgetRemoved

/-- Removes the given nodes and gives their tags; stops at the first that the graph
does not let go. -/
def removeAll : List (Tag × NodeId) → PassM GraphError (List Tag)
  | [] => return []
  | (t, n) :: rest => do
    edit (.removeNode n)
    record fun r => { r with removed := r.removed ++ [n] }
    return t :: (← removeAll rest)

/-- The tagged nodes that the pass has not used and that no output depends on. -/
def stale (p : Pass) : List (Tag × NodeId) :=
  p.graph.tagged.filter fun (_, n) => !p.touched.contains n && !p.graph.live.contains n

/-- Removes the stale nodes and gives their tags. -/
def prune : PassM GraphError (List Tag) := do
  let tags ← removeAll (← get).stale
  modify forgetRemoved
  return tags

end Pass

end NodeFormula
