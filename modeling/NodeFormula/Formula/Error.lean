/-!
# NodeFormula — refused formulas

Why the text of a formula is refused before it is parsed.
-/

namespace NodeFormula

/-- Why a formula has no canonical form. -/
inductive FormulaError where
  /-- A character outside of the alphabet, or an exponent without a base. -/
  | badSymbol (char : Char)
  | badFloat (text : String)
  /-- A name that is no variable: that of a function, a reserved word, or no name. -/
  | badVariable (name : String)
  /-- A part of a composite that is neither a number nor a letter. -/
  | badElement (text : String)
  deriving DecidableEq, Repr

/-- The wording of a refusal. -/
def FormulaError.message : FormulaError → String
  | badSymbol c => s!"Unauthorized Symbol '{c}'"
  | badFloat text => s!"Unrecognized Float '{text}'"
  | badVariable name => s!"Unauthorized Variable '{name}'"
  | badElement text => s!"Unknown Element of Composite '{text}'"

end NodeFormula
