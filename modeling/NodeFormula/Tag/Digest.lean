/-!
# NodeFormula — a 64-bit digest

A fast digest of byte strings without a seed, so that it is the same in every run.
Bytes are folded in blocks of sixteen by a 128-bit product, and the blocks of
several byte strings are combined by a multiplication.
-/

namespace NodeFormula

namespace Digest

/-- The low half of a 128-bit product, exclusive-or its high half. -/
def mix (x y : UInt64) : UInt64 :=
  let product := x.toNat * y.toNat
  product.toUInt64 ^^^ (product / UInt64.size).toUInt64

/-- Bytes as an integer, the least significant first. -/
def littleEndian (bs : List UInt8) : UInt64 :=
  bs.foldr (fun b n => n * 256 + b.toUInt64) 0

/-- The two words that bytes are folded into. -/
structure Lanes where
  left : UInt64
  right : UInt64

/-- The lanes of the empty byte string. -/
def Lanes.initial : Lanes := ⟨0x243f6a8885a308d3, 0x13198a2e03707344⟩

/-- Folds in a block of sixteen bytes. -/
def Lanes.block (s : Lanes) (bs : List UInt8) : Lanes :=
  ⟨s.right, mix (s.left ^^^ littleEndian (bs.take 8))
    (0xa4093822299f31d0 ^^^ littleEndian ((bs.drop 8).take 8))⟩

/-- Folds in as many blocks as the first argument says. -/
def Lanes.blocks : Nat → Lanes → List UInt8 → Lanes
  | 0, s, _ => s
  | n + 1, s, bs => blocks n (s.block bs) (bs.drop 16)

/-- Folds in two words. -/
def Lanes.words (s : Lanes) (a b : UInt64) : Lanes := ⟨s.left ^^^ a, s.right ^^^ b⟩

/-- The lanes of a byte string. Short strings are read as two words that may overlap;
the last sixteen bytes of a longer one are read in that way, after the blocks. -/
def lanes (bs : List UInt8) : Lanes :=
  let n := bs.length
  let last (k : Nat) : List UInt8 := bs.drop (n - k)
  if n = 0 then .initial
  else if n < 4 then
    let byte (i : Nat) : UInt64 := (bs.getD i 0).toUInt64
    Lanes.initial.words (byte 0) ((byte (n - 1)) <<< 8 ||| byte (n / 2))
  else if n < 8 then Lanes.initial.words (littleEndian (bs.take 4)) (littleEndian (last 4))
  else if n ≤ 16 then Lanes.initial.words (littleEndian (bs.take 8)) (littleEndian (last 8))
  else
    (Lanes.blocks ((n - 1) / 16) .initial bs).words
      (littleEndian ((last 16).take 8)) (littleEndian (last 8))

/-- The word a byte string contributes. -/
def bytes (bs : List UInt8) : UInt64 :=
  let s := lanes bs
  mix s.left s.right ^^^ bs.length.toUInt64

/-- Takes one word into a digest. -/
def absorb (h word : UInt64) : UInt64 := (h + word) * 0xf1357aea2e62a9c5

/-- The bytes of a text. -/
def utf8 (text : String) : List UInt8 := text.toUTF8.toList

/-- Rotates a word to the left. -/
def rotate (h : UInt64) (n : UInt64) : UInt64 := h <<< n ||| h >>> (64 - n)

/-- The digest of a text and the texts that follow it, each behind a separator that
no text contains. -/
def texts (head : String) (tail : List String) : UInt64 :=
  let h := absorb 0 (bytes (utf8 head))
  rotate (tail.foldl (fun h t => absorb (absorb h 0xff) (bytes (utf8 t))) h) 26

end Digest

end NodeFormula
