/-!
# NodeFormula — spans of UTF-8 bytes

A span is a half-open range of byte offsets into a formula. It may be cut out of
the text it points at, and spans may be merged.
-/

namespace NodeFormula

/-- The number of bytes a character sequence takes in UTF-8. -/
def byteLength : List Char → Nat
  | [] => 0
  | c :: cs => c.utf8Size + byteLength cs

@[simp] theorem byteLength_nil : byteLength [] = 0 := rfl

@[simp] theorem byteLength_cons (c : Char) (cs : List Char) :
    byteLength (c :: cs) = c.utf8Size + byteLength cs := rfl

@[simp] theorem byteLength_append (cs ds : List Char) :
    byteLength (cs ++ ds) = byteLength cs + byteLength ds := by
  induction cs with
  | nil => simp
  | cons c cs ih => simp [ih, Nat.add_assoc]

/-- The characters in the first `n` bytes and those after them; nothing when byte `n`
lies inside a character or beyond the end. -/
def splitBytes? : Nat → List Char → Option (List Char × List Char)
  | 0, cs => some ([], cs)
  | _ + 1, [] => none
  | n + 1, c :: cs =>
    if c.utf8Size ≤ n + 1 then
      (splitBytes? (n + 1 - c.utf8Size) cs).map fun (front, back) => (c :: front, back)
    else none
  termination_by _ cs => cs.length

/-- A range of byte offsets, the end excluded. -/
structure Span where
  /-- Offset of the first byte. -/
  start : Nat
  /-- Offset after the last byte. -/
  stop : Nat
  deriving DecidableEq, Repr

namespace Span

/-- The empty span at an offset. -/
def point (offset : Nat) : Span := ⟨offset, offset⟩

/-- A span is empty when it ends where it starts. -/
def isEmpty (s : Span) : Bool := s.start == s.stop

/-- The smallest span over both. -/
def merge (s t : Span) : Span := ⟨min s.start t.start, max s.stop t.stop⟩

/-- A span that ends before it starts has no length. -/
structure Malformed where
  /-- The offending span. -/
  span : Span
  deriving DecidableEq, Repr

/-- The wording of a missing length. -/
def Malformed.message (e : Malformed) : String :=
  s!"malformed span: end ({e.span.stop}) < start ({e.span.start})"

/-- The length in bytes of a span that does not end before it starts. -/
def length (s : Span) : Except Malformed Nat :=
  if s.start ≤ s.stop then .ok (s.stop - s.start) else .error ⟨s⟩

/-- The characters a span covers. A span that ends before it starts, reaches
beyond the text or cuts through a character covers nothing. -/
def slice (s : Span) (source : List Char) : List Char :=
  if s.stop < s.start then []
  else match splitBytes? s.start source with
    | none => []
    | some (_, back) =>
      match splitBytes? (s.stop - s.start) back with
      | none => []
      | some (front, _) => front

/-- The text a span covers. -/
def snippet (s : Span) (source : String) : String :=
  String.ofList (s.slice source.toList)

end Span

end NodeFormula
