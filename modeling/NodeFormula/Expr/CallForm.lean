import NodeFormula.Catalogue
import NodeFormula.Expr.Parser
/-!
# NodeFormula — expressions in call form

Every operator becomes a call of the function it stands for, so that `x*2 + 3`
becomes `add(mult(x, 2), 3)`.
-/

namespace NodeFormula

/-- Why a text has no call form. -/
inductive LoweringError where
  | unsupportedOperator (symbol : String)
  | notRecognized
  | unknownFunction (name : String)
  | tooLarge
  deriving DecidableEq, Repr

/-- The wording of a lowering error. -/
def LoweringError.message : LoweringError → String
  | unsupportedOperator symbol => s!"Operator Not Supported '{symbol}'"
  | notRecognized => "Math Expression Not Recognized"
  | unknownFunction name => s!"Unknown Function '{name}'"
  | tooLarge => "Expression too Large"

namespace Expr

/-- The function of an operator, or why there is none. -/
def operatorFunction (symbol : String) (function? : Option String) : Except LoweringError String :=
  match function? with
  | some f => .ok f
  | none => .error (.unsupportedOperator symbol)

mutual

/-- The call form of an expression. The first operator without a function stops it,
parents before children. -/
def callForm : Expr → Except LoweringError Expr
  | number s v t => .ok (number s v t)
  | ident s n => .ok (ident s n)
  | binary s op l r => do
    let f ← operatorFunction op.symbol op.function?
    let l ← l.callForm
    let r ← r.callForm
    return call s f [l, r]
  | unary s op x => do
    let f ← operatorFunction op.symbol op.function?
    let x ← x.callForm
    return call s f [x]
  | call s f args => do
    let args ← callFormAll args
    return call s f args
  | tuple s items => do
    let items ← callFormAll items
    return tuple s items

/-- The call forms of expressions. -/
def callFormAll : List Expr → Except LoweringError (List Expr)
  | [] => .ok []
  | e :: es => do
    let e ← e.callForm
    let es ← callFormAll es
    return e :: es

end

mutual

/-- The functions that an expression calls, children before parents. Operators count
as the function they stand for. -/
def calls : Expr → List String
  | number .. => []
  | ident .. => []
  | binary _ op l r => l.calls ++ r.calls ++ op.function?.toList
  | unary _ op x => x.calls ++ op.function?.toList
  | call _ f args => callsAll args ++ [f]
  | tuple _ items => callsAll items

/-- The functions that a list of expressions calls. -/
def callsAll : List Expr → List String
  | [] => []
  | e :: es => e.calls ++ callsAll es

end

/-- The distinct functions of an expression in the order of `calls`. -/
def functions (e : Expr) : List String := e.calls.eraseDups

end Expr

/-- The call form of a text, all of whose functions are in the catalogue. -/
def lower (limit : Nat) (text : String) : Except LoweringError Expr := do
  match Expr.parse limit text with
  | .error ⟨.tooDeep _, _⟩ => throw .tooLarge
  | .error _ => throw .notRecognized
  | .ok parsed =>
    let e ← parsed.callForm
    match e.functions.find? fun f => !Catalogue.isKnown f with
    | some unknown => throw (.unknownFunction unknown)
    | none => return e

end NodeFormula
