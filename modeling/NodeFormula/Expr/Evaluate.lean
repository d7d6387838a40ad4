import NodeFormula.Build.Error
import NodeFormula.Expr
/-!
# NodeFormula — values of expressions

The number that an expression stands for when its variables are given numbers. It is
computed by the same functions whether they are called or written as operators.
-/

namespace NodeFormula

namespace Expr

/-- What a named function computes on numbers. -/
def applyFunction (f : String) (args : List Float) : Except BuildError Float :=
  (Catalogue.eval f args).mapError .call

/-- The function of an operator; without one there is no value. -/
def operator (function? : Option String) : Except BuildError String :=
  match function? with
  | some f => .ok f
  | none => .error .execution

variable (vars : String → Option Float)

mutual

/-- The value of an expression. Tuples have none. -/
def evaluate : Expr → Except BuildError Float
  | number _ v _ => .ok v
  | ident _ name =>
    match vars name with
    | some v => .ok v
    | none => .error (.unknownVariable name)
  | binary _ op l r => do
    let f ← operator op.function?
    let a ← l.evaluate
    let b ← r.evaluate
    applyFunction f [a, b]
  | unary _ op x => do
    let f ← operator op.function?
    let a ← x.evaluate
    applyFunction f [a]
  | call _ f args => do
    let values ← evaluateAll args
    applyFunction f values
  | tuple .. => .error .wrongTuple

/-- The values of expressions in order. -/
def evaluateAll : List Expr → Except BuildError (List Float)
  | [] => .ok []
  | e :: es => do
    let v ← e.evaluate
    let vs ← evaluateAll es
    return v :: vs

end

end Expr

end NodeFormula
