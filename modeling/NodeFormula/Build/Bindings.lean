import NodeFormula.Build.Error
/-!
# NodeFormula — bindings

What the variables of an expression read from, and where its result goes. A number
may be bound too, by the way it is written.
-/

namespace NodeFormula

/-- The sockets that an expression is built between. -/
structure Bindings where
  /-- Bound variables, the latest first. -/
  vars : List (String × OutputRef)
  /-- Bound numbers, the latest first. -/
  constants : List (String × OutputRef)
  sink : InputRef
  /-- Other variables are the inputs of the graph. -/
  interface : Bool
  deriving DecidableEq, Repr

namespace Bindings

/-- Bindings to a sink alone. -/
def ofSink (sink : InputRef) : Bindings := ⟨[], [], sink, false⟩

/-- Bindings to the interface of a graph: the result goes to a named output, and
variables are the inputs. -/
def ofInterface (g : Graph) (name : String) : Except BuildError Bindings :=
  match g.output? name with
  | some (sink, _) => .ok { ofSink sink with interface := true }
  | none => .error (.unknownOutput name)

/-- Binds a variable. -/
def bind (b : Bindings) (name : String) (o : OutputRef) : Bindings :=
  { b with vars := (name, o) :: b.vars }

/-- Binds a number. -/
def bindConstant (b : Bindings) (text : String) (o : OutputRef) : Bindings :=
  { b with constants := (text, o) :: b.constants }

/-- What a variable reads from. -/
def resolve? (b : Bindings) (g : Graph) (name : String) : Option OutputRef :=
  match b.vars.lookup name with
  | some o => some o
  | none => if b.interface then (g.input? name).map Prod.fst else none

/-- What a number reads from, if it is bound. -/
def constant? (b : Bindings) (text : String) : Option OutputRef := b.constants.lookup text

end Bindings

end NodeFormula
