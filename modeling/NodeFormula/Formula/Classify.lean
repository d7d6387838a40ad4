import NodeFormula.Catalogue
import NodeFormula.Decimal.Numeral
import NodeFormula.Formula.Exponents
/-!
# NodeFormula — classifying names and numbers

The words of a formula are read as numbers, variables and functions. In algebraic
notation a variable is a single letter, and a word of several letters and digits is a
*composite*, the product of its parts. `Reading` is the formula as a list of pieces
with their roles; its canonical text and the names it uses are both read off it.
-/

namespace NodeFormula

/-- What a piece of a formula is. -/
inductive Role where
  | constant
  /-- A name that has to be given a value. -/
  | free
  | function
  | punctuation
  deriving DecidableEq, Repr

/-- A piece of a formula. -/
structure Piece where
  role : Role
  text : List Char
  deriving DecidableEq, Repr

namespace Piece

/-- The multiplication sign. -/
def star : Piece := ⟨.punctuation, ['*']⟩

/-- A number or a variable. -/
def isValue (p : Piece) : Bool := p.role == .constant || p.role == .free

/-- An opening parenthesis. -/
def isOpening (p : Piece) : Bool := p == ⟨.punctuation, ['(']⟩

/-- A closing parenthesis. -/
def isClosing (p : Piece) : Bool := p == ⟨.punctuation, [')']⟩

end Piece

/-- A formula as pieces, and the composites that were spelled out in them. -/
structure Reading where
  pieces : List Piece
  composites : List (List Char)
  deriving DecidableEq, Repr

namespace Reading

/-- The reading of one piece. -/
def single (role : Role) (text : List Char) : Reading := ⟨[⟨role, text⟩], []⟩

/-- One reading after another. -/
def append (r s : Reading) : Reading := ⟨r.pieces ++ s.pieces, r.composites ++ s.composites⟩

end Reading

/-- A word of digits and points. -/
def isNumeric (word : List Char) : Bool := !word.isEmpty && word.all isNumeralPart

/-- A word that is a name. -/
def isIdentifier : List Char → Bool
  | [] => false
  | c :: cs => isNameStart c && cs.all isNamePart

/-- A text that is reserved or the name of a function is no variable. -/
def isTaken (word : List Char) : Bool :=
  Catalogue.isKnown (String.ofList word) || Catalogue.isReserved (String.ofList word)

/-- The number that a word of digits and points is. -/
def readConstant (word : List Char) : Except FormulaError Piece :=
  match readFloat? (String.ofList word) with
  | some _ => .ok ⟨.constant, word⟩
  | none => .error (.badFloat (String.ofList word))

/-- A part of a composite: a number or a letter. -/
def readAtom (atom : List Char) : Except FormulaError Piece :=
  if isNumeric atom then readConstant atom
  else if atom.all Char.isAlpha then .ok ⟨.free, atom⟩
  else .error (.badElement (String.ofList atom))

/-- The parts of a composite. Line ends between them are passed over. -/
def splitComposite (word : List Char) : Except FormulaError (List Piece) :=
  ((segments isNumeralPart word).filter (· != ['\n'])).mapM readAtom

/-- A word that stands for a value. -/
def readValue (algebraic : Bool) (word : List Char) : Except FormulaError Reading :=
  if isNumeric word then (readConstant word).map fun p => ⟨[p], []⟩
  else if isTaken word then .error (.badVariable (String.ofList word))
  else if !algebraic then
    if isIdentifier word then .ok (.single .free word)
    else .error (.badVariable (String.ofList word))
  else if word.length = 1 && word.all Char.isAlpha then .ok (.single .free word)
  else (splitComposite word).map fun atoms => ⟨atoms.intersperse .star, [word]⟩

/-- A word in front of an opening parenthesis. In algebraic notation it may be a value
and a function, which are multiplied, or a value that is multiplied by a group. -/
def readCallee (algebraic : Bool) (word : List Char) : Except FormulaError Reading :=
  if Catalogue.isKnown (String.ofList word) then .ok (.single .function word)
  else if algebraic then
    match functionEnd? word with
    | some name => do
      let value ← readValue algebraic (word.take (word.length - name.length))
      return (value.append ⟨[.star], []⟩).append (.single .function name)
    | none => readValue algebraic word
  else if isIdentifier word && !Catalogue.isReserved (String.ofList word) then
    .ok (.single .function word)
  else readValue algebraic word

/-- A segment in front of the given one. -/
def readSegment (algebraic : Bool) (segment : List Char) (next : Option (List Char)) :
    Except FormulaError Reading :=
  if !(segment.head?.any isWordPart) then .ok (.single .punctuation segment)
  else if next = some ['('] then readCallee algebraic segment
  else readValue algebraic segment

/-- The segments of a formula in order. -/
def readSegments (algebraic : Bool) : List (List Char) → Except FormulaError Reading
  | [] => .ok ⟨[], []⟩
  | s :: rest => do
    let first ← readSegment algebraic s rest.head?
    return first.append (← readSegments algebraic rest)

/-- A multiplication sign is understood between two pieces. -/
def impliesStar (algebraic : Bool) (p q : Piece) : Bool :=
  if algebraic then
    (p.isValue && q.isOpening) || (p.isClosing && (q.isValue || q.role == .function || q.isOpening))
  else p.role == .constant && q.isOpening

/-- The text of pieces, with the multiplication signs that are understood. -/
def joinPieces (algebraic : Bool) : List Piece → List Char
  | [] => []
  | [p] => p.text
  | p :: q :: rest =>
    p.text ++ (if impliesStar algebraic p q then ['*'] else []) ++ joinPieces algebraic (q :: rest)

/-- The names and numbers of a formula, each list in order of first occurrence. -/
structure Classification where
  vars : List String
  constants : List String
  functions : List String
  composites : List String
  deriving DecidableEq, Repr

namespace Classification

/-- How many names and numbers there are. -/
def size (c : Classification) : Nat :=
  c.vars.length + c.constants.length + c.functions.length

/-- There are neither names nor numbers. -/
def isEmpty (c : Classification) : Bool := c.size == 0

end Classification

namespace Reading

/-- The texts of the pieces in a role. -/
def texts (r : Reading) (role : Role) : List String :=
  ((r.pieces.filter (·.role == role)).map fun p => String.ofList p.text).eraseDups

/-- The names and numbers of a reading. -/
def classification (r : Reading) : Classification :=
  ⟨r.texts .free, r.texts .constant, r.texts .function,
    (r.composites.map String.ofList).eraseDups⟩

end Reading

/-- The canonical text of a formula without exponents and symbols, and what its names
are. No name is both a variable and a function. -/
def classify (algebraic : Bool) (cs : List Char) :
    Except FormulaError (List Char × Classification) := do
  let reading ← readSegments algebraic (segments isWordPart cs)
  let names := reading.classification
  match names.vars.find? names.functions.contains with
  | some name => throw (.badVariable name)
  | none => return (joinPieces algebraic reading.pieces, names)

end NodeFormula
