import NodeFormula.Formula.Classify
import NodeFormula.Formula.Constants
import NodeFormula.Text.Blank
/-!
# NodeFormula — formulas in canonical form

A formula as people write it, such as `2ab² + sin(x)π`, becomes text that the parser
reads, with its multiplications, powers and constants written out.
-/

namespace NodeFormula

/-- How a formula is written. -/
structure FormulaOptions where
  /-- Letters are variables of their own, and what stands together is multiplied. -/
  algebraic : Bool
  /-- Words for constants are understood. -/
  words : Bool
  deriving DecidableEq, Repr

/-- Algebraic notation with words for constants. -/
def FormulaOptions.standard : FormulaOptions := ⟨true, true⟩

/-- A formula in canonical form, and what its names are. -/
structure Canonical where
  text : String
  names : Classification
  deriving DecidableEq, Repr

/-- The characters of a formula belong to the alphabet. -/
def checkAlphabet (cs : List Char) : Except FormulaError Unit :=
  match cs.find? fun c => !isAuthorized c with
  | some c => .error (.badSymbol c)
  | none => .ok ()

/-- The canonical form of a formula. -/
def canonicalize (options : FormulaOptions) (raw : String) : Except FormulaError Canonical := do
  let text := raw.toList.filter fun c => !isBlank c
  checkAlphabet text
  let text := if options.words then expandWords text else text
  let text ← writeExponents options.algebraic text
  let (canonical, names) ← classify options.algebraic (spellConstants none text)
  return ⟨String.ofList canonical, names⟩

end NodeFormula
