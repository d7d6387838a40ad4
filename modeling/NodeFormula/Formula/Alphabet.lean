import NodeFormula.Token.Lexer
/-!
# NodeFormula — the alphabet of formulas

Formulas are written in ASCII letters, digits and operators, in superscript digits,
and in the symbols of a few irrational constants.
-/

namespace NodeFormula

/-- Superscript digits and the digits they stand for. -/
def superscripts : List (Char × Char) :=
  [('⁰', '0'), ('¹', '1'), ('²', '2'), ('³', '3'), ('⁴', '4'), ('⁵', '5'), ('⁶', '6'), ('⁷', '7'),
    ('⁸', '8'), ('⁹', '9')]

/-- The digit that a superscript digit stands for. -/
def superscript? (c : Char) : Option Char := superscripts.lookup c

/-- A character is a superscript digit. -/
def isSuperscript (c : Char) : Bool := (superscript? c).isSome

/-- An irrational constant. -/
structure Irrational where
  symbol : Char
  /-- The number that replaces the symbol. -/
  literal : String
  description : String
  deriving DecidableEq, Repr

/-- The irrational constants that have a symbol. -/
def irrationals : List Irrational :=
  [⟨'π', "3.1415927", "Pi: ratio of circumference to diameter"⟩,
    ⟨'𝑒', "2.7182818", "Euler's number: base of the natural logarithm"⟩,
    ⟨'φ', "1.6180339", "Golden ratio: (1 + sqrt(5)) / 2"⟩]

/-- The constant of a symbol. -/
def irrational? (c : Char) : Option Irrational := irrationals.find? (·.symbol == c)

/-- A character is the symbol of a constant. -/
def isIrrational (c : Char) : Bool := (irrational? c).isSome

/-- Words that stand for the symbol of a constant. -/
def symbolWords : List (String × Char) :=
  [("Pi", 'π'), ("eNum", '𝑒'), ("Phi", 'φ'), ("Gold", 'φ')]

/-- A character of a number. -/
def isNumeralPart (c : Char) : Bool := c.isDigit || c == '.'

/-- A character of a name or a number. -/
def isWordPart (c : Char) : Bool := isNamePart c || c == '.'

/-- A character of a name, a number or the symbol of a constant. -/
def isOperandPart (c : Char) : Bool := isWordPart c || isIrrational c

/-- A character that a formula may contain, blanks apart. -/
def isAuthorized (c : Char) : Bool :=
  isOperandPart c || ['+', '-', '*', '/', '%', '(', ')', ','].contains c || isSuperscript c

end NodeFormula
