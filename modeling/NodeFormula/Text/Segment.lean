/-!
# NodeFormula — cutting text into segments

Text is cut into maximal runs of the characters of a class and single other
characters. Nothing is lost: the segments join to the text.
-/

namespace NodeFormula

/-- Puts a character in front of segments: onto the first run if both belong to the
class, else as a segment of its own. -/
def glue (p : Char → Bool) (c : Char) : List (List Char) → List (List Char)
  | (d :: ds) :: rest =>
    if p c && p d then (c :: d :: ds) :: rest else [c] :: (d :: ds) :: rest
  | rest => [c] :: rest

/-- The maximal runs of the characters of a class, and the other characters. -/
def segments (p : Char → Bool) (cs : List Char) : List (List Char) := cs.foldr (glue p) []

@[simp] theorem flatten_glue (p : Char → Bool) (c : Char) (rest : List (List Char)) :
    (glue p c rest).flatten = c :: rest.flatten := by
  unfold glue
  split
  · split <;> simp
  · simp

@[simp] theorem flatten_segments (p : Char → Bool) (cs : List Char) :
    (segments p cs).flatten = cs := by
  induction cs with
  | nil => rfl
  | cons c cs ih => simpa [segments] using ih

end NodeFormula
