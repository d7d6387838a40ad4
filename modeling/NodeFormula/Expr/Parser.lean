import NodeFormula.Decimal.Numeral
import NodeFormula.Expr
import NodeFormula.Token.Lexer
/-!
# NodeFormula — parsing expressions

Precedence climbing over a list of lexemes. From loosest to tightest bind the
comparisons, `|`, `^`, `&`, the additive and the multiplicative operators, the signs
in front of an operand, and `**`, which alone groups to the right. Each operand is
parsed one nesting level further down: the cursor counts the levels it is in, and
the parser gives up where the count passes the limit. Everything at one level is
written against a parser for the operands of the level below.
-/

namespace NodeFormula

/-- Why a list of lexemes is not an expression. -/
inductive ParseFault where
  /-- A character that opens no token. -/
  | badCharacter (char : Char)
  /-- An operand was needed here. -/
  | noOperand (found : Option Token)
  /-- A certain symbol was needed here. -/
  | missing (wanted : Symbol) (found : Option Token)
  /-- The expression was complete already. -/
  | trailing (found : Token)
  /-- A numeral whose text is no number. -/
  | notANumber (text : String)
  | emptyParentheses
  /-- Parentheses that follow something other than a name. -/
  | notCallable
  | tooDeep (limit : Nat)
  deriving DecidableEq, Repr

/-- The wording of a fault. -/
def ParseFault.message : ParseFault → String
  | badCharacter c => s!"unrecognized input '{c}'"
  | noOperand (some t) => s!"unexpected '{t.text}' in expression"
  | noOperand none => "unexpected end of input in expression"
  | missing s (some t) => s!"expected '{s.text}', found '{t.text}'"
  | missing s none => s!"expected '{s.text}', found end of input"
  | trailing t => s!"unexpected '{t.text}' after end of expression"
  | notANumber text => s!"'{text}' is not a number"
  | emptyParentheses => "empty parentheses"
  | notCallable => "only a function name can be called"
  | tooDeep limit => s!"expression nests deeper than {limit} levels"

/-- A fault and its place. -/
structure ParseError where
  fault : ParseFault
  span : Span
  deriving DecidableEq, Repr

/-- The wording of a parse error. -/
def ParseError.message (e : ParseError) : String :=
  s!"{e.fault.message} at {e.span.start}..{e.span.stop}"

namespace Parser

/-- How a binary operator binds: its power, and the least power of the operators
inside its right operand. -/
structure Binding where
  op : BinaryOp
  power : Nat
  right : Nat
  deriving DecidableEq, Repr

/-- An operator that groups to the left keeps its equals out of its right operand. -/
def Binding.left (op : BinaryOp) (power : Nat) : Binding := ⟨op, power, power + 1⟩

/-- The binary operator a symbol is. -/
def binding? : Symbol → Option Binding
  | .eqEq => some (.left .eq 5)
  | .bangEq => some (.left .ne 5)
  | .lt => some (.left .lt 5)
  | .le => some (.left .le 5)
  | .gt => some (.left .gt 5)
  | .ge => some (.left .ge 5)
  | .pipe => some (.left .bitOr 10)
  | .caret => some (.left .bitXor 12)
  | .amp => some (.left .bitAnd 14)
  | .plus => some (.left .add 20)
  | .minus => some (.left .sub 20)
  | .star => some (.left .mul 30)
  | .slash => some (.left .div 30)
  | .slashSlash => some (.left .floorDiv 30)
  | .percent => some (.left .mod 30)
  | .atSign => some (.left .matMul 30)
  | .starStar => some ⟨.pow, 50, 50⟩
  | .tilde | .lparen | .rparen | .comma => none

/-- The sign a symbol is. -/
def sign? : Symbol → Option UnaryOp
  | .minus => some .neg
  | .plus => some .pos
  | .tilde => some .invert
  | _ => none

/-- The least power of the operators in the operand of a sign; only `**` reaches it. -/
def signPower : Nat := 40

/-- Where the parser stands: the lexemes ahead, the offset where the one just consumed
ended, and the number of nesting levels it is in. -/
structure Cursor where
  ahead : List Lexeme
  behind : Nat
  depth : Nat

namespace Cursor

/-- The cursor in front of a list of lexemes. -/
def start (ls : List Lexeme) : Cursor := ⟨ls, 0, 0⟩

/-- The token ahead. -/
def token? (c : Cursor) : Option Token := c.ahead.head?.map Lexeme.token

/-- The span of the token ahead; at the end an empty one. -/
def here (c : Cursor) : Span :=
  match c.ahead with
  | [] => Span.point c.behind
  | l :: _ => l.span

/-- The span from an offset up to the last token consumed. -/
def spanFrom (c : Cursor) (start : Nat) : Span := ⟨start, max c.behind start⟩

/-- Steps over the lexeme ahead. -/
def advance (c : Cursor) : Cursor :=
  match c.ahead with
  | [] => c
  | l :: ls => { c with ahead := ls, behind := l.span.stop }

/-- The token ahead is a given symbol. -/
def sees (c : Cursor) (s : Symbol) : Bool := c.token? == some (.symbol s)

/-- Goes one nesting level down, which the limit may forbid. -/
def enter (limit : Nat) (c : Cursor) : Except ParseError Cursor :=
  let c := { c with depth := c.depth + 1 }
  if limit < c.depth then .error ⟨.tooDeep limit, c.here⟩ else .ok c

/-- Goes one nesting level up. -/
def leave (c : Cursor) : Cursor := { c with depth := c.depth - 1 }

end Cursor

/-- A parser for a part of an expression. -/
abbrev Step (α : Type) := Cursor → Except ParseError (α × Cursor)

/-- Steps over a given symbol. -/
def expect (s : Symbol) (c : Cursor) : Except ParseError Cursor :=
  if c.sees s then .ok c.advance else .error ⟨.missing s c.token?, c.here⟩

section Level

/-! In this section `below` parses an operand one level further down, in which the
operators have at least the power it is given. -/

variable (below : Nat → Step Expr)

/-- Further expressions, each behind a comma. With `trailing`, a comma in front of
the closing parenthesis ends the list. The first argument bounds their number. -/
def others (trailing : Bool) : Nat → Step (List Expr)
  | 0, c => .ok ([], c)
  | n + 1, c =>
    if c.sees .comma then
      let c := c.advance
      if trailing && c.sees .rparen then .ok ([], c)
      else do
        let (e, c) ← below 0 c
        let (es, c) ← others trailing n c
        return (e :: es, c)
    else .ok ([], c)

/-- The arguments of a call, from the opening parenthesis to the closing one. -/
def arguments : Step (List Expr) := fun c => do
  let c ← expect .lparen c
  if c.sees .rparen then return ([], c.advance)
  let (e, c) ← below 0 c
  let (es, c) ← others below false c.ahead.length c
  let c ← expect .rparen c
  return (e :: es, c)

/-- A group or a tuple, from the opening parenthesis to the closing one. A single
element without a comma is the element itself. -/
def parenthesized : Step Expr := fun c => do
  let start := c.here.start
  let c ← expect .lparen c
  if c.sees .rparen then throw ⟨.emptyParentheses, c.here⟩
  let (e, c) ← below 0 c
  if c.sees .comma then
    let (es, c) ← others below true c.ahead.length c
    let c ← expect .rparen c
    return (.tuple (c.spanFrom start) (e :: es), c)
  else
    let c ← expect .rparen c
    return (e, c)

/-- A number, a variable, a call, a group or a tuple. -/
def primary : Step Expr := fun c => do
  let start := c.here.start
  match c.token? with
  | some (.number text) =>
    match readFloat? text with
    | none => throw ⟨.notANumber text, c.here⟩
    | some value =>
      let c := c.advance
      if c.sees .lparen then throw ⟨.notCallable, c.here⟩
      return (.number (c.spanFrom start) value text, c)
  | some (.ident name) =>
    let c := c.advance
    if c.sees .lparen then
      let (args, c) ← arguments below c
      return (.call (c.spanFrom start) name args, c)
    else return (.ident (c.spanFrom start) name, c)
  | some (.symbol .lparen) =>
    let (e, c) ← parenthesized below c
    if c.sees .lparen then throw ⟨.notCallable, c.here⟩
    return (e, c)
  | found => throw ⟨.noOperand found, c.here⟩

/-- The sign ahead. -/
def Cursor.sign? (c : Cursor) : Option UnaryOp :=
  match c.token? with
  | some (.symbol s) => Parser.sign? s
  | _ => none

/-- The binary operator ahead. -/
def Cursor.binding? (c : Cursor) : Option Binding :=
  match c.token? with
  | some (.symbol s) => Parser.binding? s
  | _ => none

/-- An operand with the signs in front of it. -/
def operand : Step Expr := fun c =>
  match c.sign? with
  | some op => do
    let start := c.here.start
    let (e, c) ← below signPower c.advance
    return (.unary (c.spanFrom start) op e, c)
  | none => primary below c

/-- Extends `left`, which began at `start`, by the operators of at least the least
power. The first argument bounds their number. -/
def climb (start least : Nat) : Nat → Expr → Step Expr
  | 0, left, c => .ok (left, c)
  | n + 1, left, c =>
    match c.binding? with
    | none => .ok (left, c)
    | some b =>
      if b.power < least then .ok (left, c)
      else do
        let (right, c) ← below b.right c.advance
        climb start least n (.binary (c.spanFrom start) b.op left right) c

/-- An operand and the operators after it. -/
def chain (least : Nat) : Step Expr := fun c => do
  let start := c.here.start
  let (left, c) ← operand below c
  climb below start least c.ahead.length left c

end Level

/-- An expression of operators of at least the least power, one nesting level down. The
level is left where the expression ends; a fault leaves it open, and ends the parse. The
argument behind the limit bounds how many expressions lie in one another: an inner one
begins behind a lexeme of the outer one, so a bound above the number of lexemes ahead is
never met. -/
def expr (limit : Nat) : Nat → Nat → Step Expr
  | 0, _ => fun c => .error ⟨.noOperand c.token?, c.here⟩
  | bound + 1, least => fun c => do
    let c ← c.enter limit
    let (e, c) ← chain (expr limit bound) least c
    return (e, c.leave)

end Parser

/-- The expression a whole list of lexemes forms. -/
def Expr.ofLexemes (limit : Nat) (ls : List Lexeme) : Except ParseError Expr := do
  let (e, c) ← Parser.expr limit (ls.length + 1) 0 (Parser.Cursor.start ls)
  match c.token? with
  | some t => throw ⟨.trailing t, c.here⟩
  | none => return e

/-- The nesting limit when nobody sets one. -/
def defaultDepth : Nat := 64

/-- The expression a text writes, if it nests no deeper than the limit. -/
def Expr.parse (limit : Nat) (source : String) : Except ParseError Expr :=
  match lexemes source with
  | .error e => .error ⟨.badCharacter e.char, e.span⟩
  | .ok ls => Expr.ofLexemes limit ls

end NodeFormula
