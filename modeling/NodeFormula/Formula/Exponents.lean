import NodeFormula.Catalogue
import NodeFormula.Formula.Alphabet
import NodeFormula.Formula.Error
import NodeFormula.Text.Segment
/-!
# NodeFormula — superscript exponents

A run of superscript digits raises what stands before it: a parenthesised group with
the name of the function in front of it, or a name or number. In algebraic notation
letters are variables of their own, so only the last letter or the last number is
raised.

The text before an exponent is kept in reverse, since a base is found from its end.
-/

namespace NodeFormula

/-- The longest end of a run that is the name of a function. -/
def functionEnd? : List Char → Option (List Char)
  | [] => none
  | c :: cs =>
    if Catalogue.isKnown (String.ofList (c :: cs)) then some (c :: cs) else functionEnd? cs

/-- The name of a function that a run ends with. Only algebraic notation lets a name
follow other letters and digits. -/
def functionSuffix? (algebraic : Bool) (run : List Char) : Option (List Char) :=
  if algebraic then functionEnd? run
  else if Catalogue.isKnown (String.ofList run) then some run else none

/-- Splits reversed text behind the parenthesis that opens the group it starts with,
given how many groups are open. -/
def splitGroup? : Nat → List Char → Option (List Char × List Char)
  | _, [] => none
  | depth, ')' :: cs => (splitGroup? (depth + 1) cs).map fun (g, r) => (')' :: g, r)
  | 0, '(' :: _ => none
  | 1, '(' :: cs => some (['('], cs)
  | depth + 2, '(' :: cs => (splitGroup? (depth + 1) cs).map fun (g, r) => ('(' :: g, r)
  | depth, c :: cs => (splitGroup? depth cs).map fun (g, r) => (c :: g, r)

/-- Splits reversed text into the base of an exponent and what stands before it. -/
def splitBase? (algebraic : Bool) : List Char → Option (List Char × List Char)
  | [] => none
  | c :: cs =>
    if c = ')' then
      (splitGroup? 0 (c :: cs)).map fun (group, rest) =>
        let run := (rest.takeWhile isNamePart).reverse
        let name := (functionSuffix? algebraic run).getD []
        (group ++ rest.take name.length, rest.drop name.length)
    else if !isOperandPart c then none
    else if !algebraic then
      some ((c :: cs).takeWhile isOperandPart, (c :: cs).dropWhile isOperandPart)
    else if isNumeralPart c then
      some ((c :: cs).takeWhile isNumeralPart, (c :: cs).dropWhile isNumeralPart)
    else some ([c], cs)

/-- A base in parentheses that the exponent will close. A name or number of several
characters gets parentheses of its own, too, where names have several characters. -/
def openPower (algebraic : Bool) (base : List Char) : List Char :=
  if algebraic || base.head? == some ')' then base ++ ['('] else ')' :: base ++ ['(', '(']

/-- Appends a segment to reversed text; a run of superscript digits becomes a power. -/
def appendSegment (algebraic : Bool) (done : List Char) (segment : List Char) :
    Except FormulaError (List Char) :=
  match segment with
  | [] => .ok done
  | c :: cs =>
    if isSuperscript c then
      match splitBase? algebraic done with
      | none => .error (.badSymbol c)
      | some (base, rest) =>
        let digits := (c :: cs).filterMap superscript?
        .ok (')' :: digits.reverse ++ ['*', '*'] ++ openPower algebraic base ++ rest)
    else .ok (segment.reverse ++ done)

/-- Writes superscript digits as powers. -/
def writeExponents (algebraic : Bool) (cs : List Char) : Except FormulaError (List Char) :=
  ((segments isSuperscript cs).foldlM (appendSegment algebraic) []).map List.reverse

end NodeFormula
