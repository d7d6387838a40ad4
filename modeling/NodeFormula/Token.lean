import NodeFormula.Text.Span
/-!
# NodeFormula — tokens of a formula

Operators, delimiters, numerals and names, each with the text it is written as.
A numeral keeps its spelling, since constants are bound by the way they are
written.
-/

namespace NodeFormula

/-- Operators and delimiters. -/
inductive Symbol where
  | plus | minus | star | starStar | slash | slashSlash | percent
  | lt | le | gt | ge | eqEq | bangEq | amp | pipe | caret | atSign | tilde
  | lparen | rparen | comma
  deriving DecidableEq, Repr

/-- The pattern that a symbol is read by. -/
def Symbol.pattern : Symbol → String
  | plus => "+" | minus => "-" | star => "*" | starStar => "**"
  | slash => "/" | slashSlash => "//" | percent => "%"
  | lt => "<" | le => "<=" | gt => ">" | ge => ">=" | eqEq => "==" | bangEq => "!="
  | amp => "&" | pipe => "|" | caret => "^" | atSign => "@" | tilde => "~"
  | lparen => "(" | rparen => ")" | comma => ","

/-- Every symbol. -/
def Symbol.all : List Symbol :=
  [plus, minus, star, starStar, slash, slashSlash, percent,
    lt, le, gt, ge, eqEq, bangEq, amp, pipe, caret, atSign, tilde, lparen, rparen, comma]

/-- The symbol whose pattern is a text. -/
def Symbol.ofText? (text : String) : Option Symbol :=
  Symbol.all.find? (·.pattern == text)

/-- The texts that symbols are shown as, in the order of their declaration. They have to
be those that the symbols are read by (`Symbol.text_eq_pattern`). -/
def symbolTexts : List String :=
  ["+", "-", "*", "**", "/", "//", "%",
    "<", "<=", ">", ">=", "==", "!=", "&", "|", "^", "@", "~",
    "(", ")", ","]

/-- The position of a symbol in the order of their declaration. -/
def Symbol.position (s : Symbol) : Nat := s.ctorIdx

/-- No symbol is declared behind the last text. -/
theorem Symbol.position_lt (s : Symbol) : s.position < symbolTexts.length := by
  cases s <;> decide

/-- The text a symbol is shown as, which is looked up by its position. -/
def Symbol.text (s : Symbol) : String := symbolTexts.get ⟨s.position, s.position_lt⟩

/-- **A symbol is shown as what it is read by.** -/
theorem Symbol.text_eq_pattern (s : Symbol) : s.text = s.pattern := by
  cases s <;> rfl

/-- The grammar reads comparisons and bitwise operators, but no function stands
behind them. -/
def Symbol.isRefused : Symbol → Bool
  | lt | le | gt | ge | eqEq | bangEq | amp | pipe | caret | atSign | tilde => true
  | _ => false

/-- A unit of the grammar. -/
inductive Token where
  | symbol (s : Symbol)
  | number (text : String)
  | ident (name : String)
  deriving DecidableEq, Repr

/-- The text a token is written as. -/
def Token.text : Token → String
  | symbol s => s.text
  | number text => text
  | ident name => name

/-- A token that is an operator without a function. -/
def Token.isRefused : Token → Bool
  | symbol s => s.isRefused
  | _ => false

/-- A token and the place it was read from. -/
structure Lexeme where
  token : Token
  span : Span
  deriving DecidableEq, Repr

end NodeFormula
