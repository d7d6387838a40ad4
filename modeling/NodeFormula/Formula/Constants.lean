import NodeFormula.Formula.Alphabet
import NodeFormula.Text.Segment
/-!
# NodeFormula — irrational constants

Words for constants become symbols, and symbols become numbers. A number that
replaces a symbol stays an operand of its own: where it would run into its
neighbours, a multiplication sign keeps them apart.
-/

namespace NodeFormula

/-- The symbol of a word that stands for one, else the word itself. -/
def expandWord (word : List Char) : List Char :=
  match symbolWords.lookup (String.ofList word) with
  | some symbol => [symbol]
  | none => word

/-- Replaces words by symbols. A word is a whole run of letters. -/
def expandWords (cs : List Char) : List Char :=
  ((segments Char.isAlpha cs).map expandWord).flatten

/-- Some word of a text stands for a symbol. -/
def hasSymbolWord (cs : List Char) : Bool :=
  (segments Char.isAlpha cs).any fun w => (symbolWords.lookup (String.ofList w)).isSome

/-- Replaces symbols by numbers in a text that follows the given character. -/
def spellConstants (before : Option Char) : List Char → List Char
  | [] => []
  | c :: cs =>
    match irrational? c with
    | none => c :: spellConstants (some c) cs
    | some k =>
      let opening := before.any fun b => isOperandPart b || b == ')'
      let closing := cs.head?.any fun n => isOperandPart n || n == '('
      let number := k.literal.toList
      (if opening then ['*'] else []) ++ number ++
        if closing then '*' :: spellConstants (some '*') cs
        else spellConstants number.getLast? cs

end NodeFormula
