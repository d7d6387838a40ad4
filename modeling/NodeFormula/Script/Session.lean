import NodeFormula.Script.Value
/-!
# NodeFormula — script sessions

A session runs a script as one pass over a graph. Operations on values make nodes as
formulas do, and what the kinds of values do not allow is refused before a node is
made.
-/

namespace NodeFormula

/-- How many values there are of each kind. -/
structure Counters where
  scalars : Nat
  vectors : Nat
  sinks : Nat
  deriving DecidableEq, Repr

namespace Counters

/-- The number of the next value of a kind, from one on. -/
def next (c : Counters) : Kind → Nat × Counters
  | .scalar => (c.scalars + 1, { c with scalars := c.scalars + 1 })
  | .vector => (c.vectors + 1, { c with vectors := c.vectors + 1 })
  | .sink => (c.sinks + 1, { c with sinks := c.sinks + 1 })

end Counters

/-- The state of a session. -/
structure Session where
  pass : Pass
  counters : Counters
  /-- The nodes that separate vectors into components, the latest first. -/
  separators : List (OutputRef × NodeId)
  deriving DecidableEq

/-- An operation of a session. -/
abbrev ScriptM := EStateM ScriptError Session

namespace Session

/-- The start of a session on a graph. -/
def start (g : Graph) (spacing : Float32) : Session := ⟨Pass.start g spacing, ⟨0, 0, 0⟩, []⟩

/-- An operation of the pass. -/
def onPass (f : ε → ScriptError) (x : PassM ε α) : ScriptM α := fun s =>
  match x s.pass with
  | .ok a p => .ok a { s with pass := p }
  | .error e p => .error (f e) { s with pass := p }

/-- A check that changes nothing. -/
def check (x : Except ScriptError α) : ScriptM α := fun s =>
  match x with
  | .ok a => .ok a s
  | .error e => .error e s

/-- The graph of the session. -/
def graph : ScriptM Graph := return (← get).pass.graph

/-- Makes a value. -/
def newValue (target : Target) (kind : Kind) (name : Option String) : ScriptM ScriptValue :=
  modifyGet fun s =>
    let (id, counters) := s.counters.next kind
    (⟨target, kind, name, id, .here⟩, { s with counters })

/-- The error of a graph in a script. -/
def graphError (e : GraphError) : ScriptError := .function (.graph e)

/-- The error of a call in a script. -/
def callError (e : CallError) : ScriptError := .function (.call e)

/-- An input of the graph. -/
def input (kind : Kind) (name : String) : ScriptM ScriptValue := do
  match (← graph).input? name with
  | some (o, type) =>
    if some type = kind.socketType? then newValue (.output o) kind (some name)
    else throw (.missingSocket name kind)
  | none => throw (.missingSocket name kind)

/-- An output of a kind takes values of that kind, and scalars where it takes vectors. -/
def accepts (taker given : Kind) : Bool :=
  given == taker || (taker == .vector && given == .scalar)

/-- Writes an argument to an input socket: values are linked, constants are held. -/
def write (i : InputRef) (taker given : Kind) (arg : Arg) : ScriptM Unit := do
  match arg with
  | .value v =>
    match v.output? with
    | none => throw (Arg.refuse "=" [arg] [taker, given])
    | some o => let _ ← onPass graphError (Pass.linkOutput o i)
  | .float a => let _ ← onPass graphError (Pass.setConstant i (.float a))
  | .sequence [x, y, z] => let _ ← onPass graphError (Pass.setConstant i (.vector ⟨x, y, z⟩))
  | .sequence _ => return ()

/-- Writes an output of the graph. -/
def output (kind : Kind) (name : String) (arg : Arg) : ScriptM ScriptValue := do
  match (← graph).output? name with
  | none => throw (.missingSocket name kind)
  | some (i, type) =>
    if some type ≠ kind.socketType? then throw (.missingSocket name kind)
    let given ← check arg.kind
    if !accepts kind given then throw (Arg.refuse "=" [arg] [kind, given])
    write i kind given arg
    newValue (.sink i) .sink (some name)

/-- Makes the nodes of a function on arguments; the result is a value of the kind. -/
def materialize [TagDigest] (function : String) (args : List Arg) (kind : Kind) :
    ScriptM ScriptValue := do
  let operands ← check (args.mapM (·.operand function))
  let identities := args.map (·.identity (← graph))
  let f ← check ((Catalogue.require function).mapError callError)
  let t ← onPass graphError (Pass.nextTag function identities)
  let o ← onPass .function (f.call t operands)
  newValue (.output o) kind none

/-- Calls a function. The result is a vector if the function takes vectors and an
argument is one. -/
def call [TagDigest] (function : String) (args : List Arg) : ScriptM ScriptValue := do
  let f ← check ((Catalogue.require function).mapError callError)
  let kinds ← check (Arg.kinds args)
  if kinds.contains .sink then throw (Arg.refuse function args kinds)
  let isVector := f.support == .scalarOrVector && kinds.contains .vector
  materialize function args (if isVector then .vector else .scalar)

/-- Calls a function and takes the result as a value of the given kind. -/
def callAs [TagDigest] (function : String) (args : List Arg) (kind : Kind) :
    ScriptM ScriptValue := do
  let kinds ← check (Arg.kinds args)
  if kinds.contains .sink || kind == .sink then throw (Arg.refuse function args kinds)
  materialize function args kind

/-- Applies an operator to one or two arguments. -/
def operate [TagDigest] (op : Operator) (lhs : Arg) (rhs : Option Arg) : ScriptM ScriptValue := do
  let args := lhs :: rhs.toList
  let kinds ← check (Arg.kinds args)
  match kinds with
  | [] => throw (Arg.refuse op.symbol args kinds)
  | l :: rest =>
    match op.result? l rest.head? with
    | none => throw (Arg.refuse op.symbol args kinds)
    | some kind => materialize op.function args kind

/-- The node that separates a vector into components; it is made once. -/
def separate [TagDigest] (v : ScriptValue) : ScriptM NodeId := do
  match v.kind, v.output? with
  | .vector, some o =>
    match (← get).separators.lookup o with
    | some n => return n
    | none =>
      let identity := v.identity (← graph)
      let t ← onPass graphError (Pass.nextTag "separate" [identity])
      let n ← onPass graphError (Pass.findOrCreate t .separateXyz [.socket o])
      modify fun s => { s with separators := (o, n) :: s.separators }
      return n
  | _, _ => throw (.incompatible "[]" v.displayName (some v.kind) none)

/-- A component of a vector. -/
def component [TagDigest] (v : ScriptValue) (index : Nat) : ScriptM ScriptValue := do
  let n ← separate v
  newValue (.output ⟨n, index⟩) .scalar none

/-- The component of an index; negative ones count from the end. -/
def index [TagDigest] (v : ScriptValue) (i : Int) : ScriptM ScriptValue :=
  let resolved := if i < 0 then i + 3 else i
  if 0 ≤ resolved ∧ resolved < 3 then component v resolved.toNat
  else throw (.indexOutOfRange v.displayName i)

/-- The end of a range of indices. -/
inductive Bound where
  | unbounded
  | included (n : Nat)
  | excluded (n : Nat)
  deriving DecidableEq, Repr

/-- The index after another one. Indices have 64 bits, and the last one is followed by zero. -/
def nextIndex (n : Nat) : Nat := (n + 1) % UInt64.size

/-- The first index of a range that starts at a bound. -/
def Bound.first : Bound → Nat
  | unbounded => 0
  | included n => n
  | excluded n => nextIndex n

/-- The index after the last one of a range that ends at a bound. -/
def Bound.last : Bound → Nat
  | unbounded => 3
  | included n => nextIndex n
  | excluded n => n

/-- The components in a range, as far as there are components. -/
def slice [TagDigest] (v : ScriptValue) (first last : Bound) : ScriptM (List ScriptValue) :=
  let start := min first.first 3
  let stop := min last.last 3
  (List.range' start (stop - start)).mapM (component v)

/-- All components. -/
def components [TagDigest] (v : ScriptValue) : ScriptM (List ScriptValue) :=
  (List.range 3).mapM (component v)

/-- Ends a session. With `prune`, the nodes that nothing uses any more are removed. -/
def finish (prune : Bool) (s : Session) : Except ScriptError Report × Graph :=
  if prune then
    match Pass.prune s.pass with
    | .error e p => (.error (graphError e), p.graph)
    | .ok _ p => (.ok p.report, p.graph)
  else (.ok s.pass.report, s.pass.graph)

/-- Ends a session and takes its nodes back. -/
def abort (s : Session) : Report × Graph :=
  let p := s.pass.rollBack
  (p.report, p.graph)

end Session

end NodeFormula
