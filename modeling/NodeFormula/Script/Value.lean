import NodeFormula.Pass.Call
import NodeFormula.Script.Kind
/-!
# NodeFormula — script values

A script value is a view of one output of a node, or of an output of the graph that
was written. It belongs to the session that made it, and may be handed to another one.
Arguments are such values, numbers, and sequences of numbers.
-/

namespace NodeFormula

/-- What a script value is a view of. -/
inductive Target where
  | output (o : OutputRef)
  | sink (i : InputRef)
  deriving DecidableEq, Repr

/-- A socket in detail, under the name of its side. -/
def socketDetail (side : String) (node : NodeId) (index : Nat) : String :=
  recordText side [("node", "NodeHandle(" ++ toString node ++ ")"), ("index", toString index)]

/-- A target in detail. -/
def Target.detail : Target → String
  | output o => "Output(" ++ socketDetail "OutputRef" o.node o.index ++ ")"
  | sink i => "Sink(" ++ socketDetail "InputRef" i.node i.index ++ ")"

/-- The session that a value belongs to. -/
inductive Home where
  /-- The session that the value is used in. -/
  | here
  /-- Another session, which runs over a graph of its own. -/
  | elsewhere (g : Graph)
  deriving DecidableEq

/-- The graph of the session that a value belongs to. -/
def Home.graph (g : Graph) : Home → Graph
  | here => g
  | elsewhere g' => g'

/-- A value of a script. -/
structure ScriptValue where
  target : Target
  kind : Kind
  /-- The name of the socket, if the value is a view of the interface. -/
  name : Option String
  /-- The number of the value among those of its kind, for display only. -/
  id : Nat
  home : Home
  deriving DecidableEq

/-- What stands for the name of a value that has none. -/
def anonymousName : String := "AnonymousVariable"

namespace ScriptValue

/-- The name of a value in messages. -/
def displayName (v : ScriptValue) : String := v.name.getD anonymousName

/-- The output that a value is a view of. -/
def output? (v : ScriptValue) : Option OutputRef :=
  match v.target with
  | .output o => some o
  | .sink _ => none

/-- A value of a session over `g`, as other sessions are handed it. -/
def abroad (g : Graph) (v : ScriptValue) : ScriptValue := { v with home := .elsewhere g }

/-- The identity of a value in tags. A named value keeps it when sockets move; an
anonymous one has that of the node it comes from. -/
def identity (g : Graph) (v : ScriptValue) : String :=
  match v.name, v.target with
  | some name, _ => v.kind.code ++ ":" ++ name
  | none, .output o => (Operand.socket o).identity (v.home.graph g)
  | none, .sink _ => v.kind.code ++ toString v.id

/-- The name of the node that a value comes from. -/
def tag? (g : Graph) (v : ScriptValue) : Option String :=
  v.output?.bind fun o => (v.home.graph g).name? o.node

/-- A value as text. -/
def text (v : ScriptValue) : String := s!"{v.displayName} ({v.kind.text})"

/-- A value in detail. -/
def detail (v : ScriptValue) : String :=
  recordText "SymbolicValue"
    [("name", quoted v.displayName), ("kind", v.kind.detail), ("id", toString v.id),
      ("target", v.target.detail)]

end ScriptValue

/-- Why an operation of a script is refused. -/
inductive ScriptError where
  /-- The operation does not take values of these kinds. -/
  | incompatible (operation name : String) (lhs rhs : Option Kind)
  | missingSocket (name : String) (kind : Kind)
  /-- Only three numbers make a vector. -/
  | sequenceLength (length : Nat)
  | indexOutOfRange (name : String) (index : Int)
  | function (e : FunctionError)
  deriving DecidableEq, Repr

/-- The wording of a script error. -/
def ScriptError.message : ScriptError → String
  | incompatible operation name lhs rhs =>
    let side (k : Option Kind) : String := (k.map Kind.text).getD "-"
    s!"Cannot use '{operation}' on '{name}': {side lhs} and {side rhs} are incompatible"
  | missingSocket name kind => s!"The {kind.text} socket '{name}' does not exist"
  | sequenceLength n => s!"A sequence of {n} elements cannot be a Vector"
  | indexOutOfRange name index => s!"Index {index} out of range for Vector '{name}'"
  | function e => e.message

/-- An argument of a script operation. -/
inductive Arg where
  | value (v : ScriptValue)
  | float (a : Float)
  | sequence (items : List Float)
  deriving DecidableEq

namespace Arg

/-- The kind of an argument. -/
def kind : Arg → Except ScriptError Kind
  | value v => .ok v.kind
  | float _ => .ok .scalar
  | sequence items => if items.length = 3 then .ok .vector else .error (.sequenceLength items.length)

/-- The kinds of arguments in order. -/
def kinds (args : List Arg) : Except ScriptError (List Kind) := args.mapM kind

/-- The identity of an argument in tags. -/
def identity (g : Graph) : Arg → String
  | value v => v.identity g
  | float _ => Tag.floatIdentity
  | sequence _ => Tag.vectorIdentity

/-- An argument in messages. -/
def displayName : Arg → String
  | value v => v.displayName
  | float a => plainText a
  | sequence items => "[" ++ ", ".intercalate (items.map literalText) ++ "]"

/-- The argument is a script value. -/
def isValue : Arg → Bool
  | value _ => true
  | _ => false

/-- What a node is given for an argument. -/
def operand (operation : String) : Arg → Except ScriptError Operand
  | value v =>
    match v.output? with
    | some o => .ok (.socket o)
    | none => .error (.incompatible operation v.displayName (some .sink) none)
  | float a => .ok (.literal (.float a))
  | sequence [x, y, z] => .ok (.literal (.vector ⟨x, y, z⟩))
  | sequence items => .error (.sequenceLength items.length)

/-- The argument that a refused operation is blamed on: the first sink, else the first
value, else the first argument. -/
def offender? (args : List Arg) (kinds : List Kind) : Option Arg :=
  match (args.zip kinds).find? (·.2 == .sink) with
  | some (a, _) => some a
  | none =>
    match args.find? isValue with
    | some a => some a
    | none => args.head?

/-- The refusal of an operation on arguments of the given kinds. -/
def refuse (operation : String) (args : List Arg) (kinds : List Kind) : ScriptError :=
  .incompatible operation (((offender? args kinds).map displayName).getD anonymousName)
    kinds[0]? kinds[1]?

end Arg

end NodeFormula
