import NodeFormula.Tag.Digest
/-!
# NodeFormula — tags

A tag names the node that a function call made: the function, and a digest of the
function and of the identities of its operands. The same call derives the same tag
again, and that is how a later pass finds the node. Nodes inside a function and
repeated calls extend the tag. Which digest it is stays open: `Digest.texts` is the
one in use, and what is said of passes and builds holds for any other.
-/

namespace NodeFormula

/-- The digest that tags are derived with. -/
class TagDigest where
  /-- A word for a function and the identities of its operands. -/
  digest : String → List String → UInt64

instance : TagDigest := ⟨Digest.texts⟩

/-- The name of a node that a pass owns. -/
structure Tag where
  text : String
  deriving DecidableEq, Repr

namespace Tag

/-- A word in sixteen hexadecimal digits. -/
def hex16 (n : UInt64) : String :=
  let ds := Nat.toDigits 16 n.toNat
  String.ofList (List.replicate (16 - ds.length) '0' ++ ds)

/-- The tag of a function applied to operands of the given identities. -/
def derive [TagDigest] (function : String) (identities : List String) : Tag :=
  ⟨function ++ "." ++ hex16 (TagDigest.digest function identities)⟩

/-- The tag of a node inside a function. -/
def child (t : Tag) (name : String) : Tag := ⟨t.text ++ "/" ++ name⟩

/-- The tag of the repetition with the given number; the first one has number zero. -/
def withOccurrence (t : Tag) (n : Nat) : Tag :=
  if n = 0 then t else ⟨t.text ++ "#" ++ toString n⟩

/-- The function a tag was derived for: what stands before the first point. -/
def function (t : Tag) : String := String.ofList (t.text.toList.takeWhile (· != '.'))

/-- The identity of a float among operands. -/
def floatIdentity : String := "f"

/-- The identity of a vector among operands. -/
def vectorIdentity : String := "v"

end Tag

end NodeFormula
