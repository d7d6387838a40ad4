import NodeFormula.Text.Span
/-!
# NodeFormula — expression trees

Trees of numbers, variables, operators, calls and tuples, each node with the span
it was read from, together with the traversals the other modules are phrased in.
A tree without operator nodes is in *call form*.
-/

namespace NodeFormula

/-- Operators between two operands. -/
inductive BinaryOp where
  | add | sub | mul | div | floorDiv | mod | pow
  | lt | le | gt | ge | eq | ne | bitAnd | bitOr | bitXor | matMul
  deriving DecidableEq, Repr

/-- The spelling of a binary operator. -/
def BinaryOp.symbol : BinaryOp → String
  | add => "+" | sub => "-" | mul => "*" | div => "/" | floorDiv => "//" | mod => "%"
  | pow => "**" | lt => "<" | le => "<=" | gt => ">" | ge => ">=" | eq => "==" | ne => "!="
  | bitAnd => "&" | bitOr => "|" | bitXor => "^" | matMul => "@"

/-- The function a binary operator stands for. Comparisons, bitwise operators and
the matrix product stand for none. -/
def BinaryOp.function? : BinaryOp → Option String
  | add => some "add" | sub => some "sub" | mul => some "mult" | div => some "div"
  | floorDiv => some "floordiv" | mod => some "mod" | pow => some "pow"
  | _ => none

/-- Operators in front of one operand. -/
inductive UnaryOp where
  | neg | pos | invert
  deriving DecidableEq, Repr

/-- The spelling of a unary operator. -/
def UnaryOp.symbol : UnaryOp → String
  | neg => "-" | pos => "+" | invert => "~"

/-- The function a unary operator stands for. -/
def UnaryOp.function? : UnaryOp → Option String
  | neg => some "neg"
  | _ => none

/-- An expression. -/
inductive Expr where
  /-- A number and the way it is written. -/
  | number (span : Span) (value : Float) (text : String)
  | ident (span : Span) (name : String)
  | binary (span : Span) (op : BinaryOp) (left right : Expr)
  | unary (span : Span) (op : UnaryOp) (operand : Expr)
  | call (span : Span) (function : String) (args : List Expr)
  | tuple (span : Span) (items : List Expr)

namespace Expr

/-- Where an expression was read from. -/
def span : Expr → Span
  | number s .. | ident s .. | binary s .. | unary s .. | call s .. | tuple s .. => s

/-- The name of a bare variable. -/
def ident? : Expr → Option String
  | ident _ name => some name
  | _ => none

/-- The root is an operator. -/
def isOperator : Expr → Bool
  | binary .. | unary .. => true
  | _ => false

mutual

/-- The number of levels of a tree; a leaf has one. -/
def depth : Expr → Nat
  | number .. => 1
  | ident .. => 1
  | binary _ _ l r => 1 + max l.depth r.depth
  | unary _ _ x => 1 + x.depth
  | call _ _ args => 1 + depthAll args
  | tuple _ items => 1 + depthAll items

/-- The greatest depth in a list of trees. -/
def depthAll : List Expr → Nat
  | [] => 0
  | e :: es => max e.depth (depthAll es)

end

mutual

/-- The nodes of a tree, parents before children and children from left to right. -/
def preorder : Expr → List Expr
  | number s v t => [number s v t]
  | ident s n => [ident s n]
  | binary s op l r => binary s op l r :: (l.preorder ++ r.preorder)
  | unary s op x => unary s op x :: x.preorder
  | call s f args => call s f args :: preorderAll args
  | tuple s items => tuple s items :: preorderAll items

/-- The nodes of a list of trees. -/
def preorderAll : List Expr → List Expr
  | [] => []
  | e :: es => e.preorder ++ preorderAll es

end

/-- A tree is in call form when it has no operator nodes. -/
def isCallForm (e : Expr) : Bool := e.preorder.all fun n => !n.isOperator

/-- The variables of a tree in order of first occurrence. -/
def identifiers (e : Expr) : List String := (e.preorder.filterMap ident?).eraseDups

mutual

/-- An expression as text. Operators are fully parenthesised. -/
def text : Expr → String
  | number _ _ t => t
  | ident _ name => name
  | binary _ op l r => "(" ++ l.text ++ " " ++ op.symbol ++ " " ++ r.text ++ ")"
  | unary _ op x => "(" ++ op.symbol ++ x.text ++ ")"
  | call _ f args => f ++ "(" ++ textAll args ++ ")"
  | tuple _ items => "(" ++ textAll items ++ ")"

/-- Expressions separated by commas. -/
def textAll : List Expr → String
  | [] => ""
  | [e] => e.text
  | e :: e' :: es => e.text ++ ", " ++ textAll (e' :: es)

end

end Expr

end NodeFormula
