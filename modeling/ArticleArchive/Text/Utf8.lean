import ArticleArchive.Text.Basic

namespace ArticleArchive.Text

/-- The bytes that may follow a first byte before the code point is known: how many, and the range
of the next of them. -/
structure Expected where
  more : Nat
  low : Nat
  high : Nat

/-- A first byte's share of the code point, and what it expects. -/
def firstByte? (b : Nat) : Option (Nat × Expected) :=
  if b < 0x80 then some (b, ⟨0, 0, 0⟩)
  else if 0xC2 ≤ b ∧ b ≤ 0xDF then some (b - 0xC0, ⟨1, 0x80, 0xBF⟩)
  else if b = 0xE0 then some (0, ⟨2, 0xA0, 0xBF⟩)
  else if b = 0xED then some (0xD, ⟨2, 0x80, 0x9F⟩)
  else if 0xE1 ≤ b ∧ b ≤ 0xEF then some (b - 0xE0, ⟨2, 0x80, 0xBF⟩)
  else if b = 0xF0 then some (0, ⟨3, 0x90, 0xBF⟩)
  else if 0xF1 ≤ b ∧ b ≤ 0xF3 then some (b - 0xF0, ⟨3, 0x80, 0xBF⟩)
  else if b = 0xF4 then some (4, ⟨3, 0x80, 0x8F⟩)
  else none

/-- What a decoder read: the characters, and the index of the byte that it could not accept. The
index is the length of the input when a character is cut off by its end. -/
structure Decoded where
  chars : Text
  stuck : Option Nat

/-- Decodes from the byte of index `index`, in the middle of a character when bytes are expected. -/
def decodeFrom (index : Nat) (code : Nat) (expected : Expected) : List Nat → Decoded
  | [] => ⟨[], if expected.more = 0 then none else some index⟩
  | b :: bs =>
    if expected.more = 0 then
      match firstByte? b with
      | none => ⟨[], some index⟩
      | some (c, next) =>
        let d := decodeFrom (index + 1) c next bs
        if next.more = 0 then ⟨Char.ofNat c :: d.chars, d.stuck⟩ else d
    else if expected.low ≤ b ∧ b ≤ expected.high then
      let c := code * 64 + (b - 0x80)
      let d := decodeFrom (index + 1) c ⟨expected.more - 1, 0x80, 0xBF⟩ bs
      if expected.more = 1 then ⟨Char.ofNat c :: d.chars, d.stuck⟩ else d
    else ⟨[], some index⟩

/-- Strict decoding: no surrogates, no longer form than needed, nothing above U+10FFFF. -/
def decodeUtf8 (bytes : List Nat) : Decoded :=
  decodeFrom 0 0 ⟨0, 0, 0⟩ bytes

end ArticleArchive.Text
