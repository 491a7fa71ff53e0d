/-!
# Bytes as characters

Decoding says of every character with which byte it is complete, and of bytes
that are none, with which byte that shows. A character that is cut off only
shows at the end.
-/

namespace EffectGraph.Utf8

/-- What the next bytes are: a character of so many bytes, no character, which
shows with so many bytes, or the start of one. -/
inductive Outcome where
  | char (c : Char) (size : Nat)
  | fault (size : Nat)
  | cut
  deriving DecidableEq, Repr

/-- What the first of several bytes says: how many follow, which the next one
may be, and its own part of the code point. -/
structure Lead where
  more : Nat
  least : Nat
  most : Nat
  part : Nat

/-- Reads the first of several bytes. The bounds of the next byte leave out
codes that have a shorter form, halves of pairs, and what is beyond the last
code point. -/
def lead? (b : Nat) : Option Lead :=
  if b < 0xC2 then none
  else if b < 0xE0 then some ⟨1, 0x80, 0xBF, b - 0xC0⟩
  else if b < 0xF0 then
    some ⟨2, if b = 0xE0 then 0xA0 else 0x80, if b = 0xED then 0x9F else 0xBF, b - 0xE0⟩
  else if b < 0xF5 then
    some ⟨3, if b = 0xF0 then 0x90 else 0x80, if b = 0xF4 then 0x8F else 0xBF, b - 0xF0⟩
  else none

/-- Reads the bytes that follow the first one; `size` bytes have been read. -/
def follow (l : Lead) (size : Nat) (bs : List UInt8) : Outcome :=
  match l.more, bs with
  | 0, _ => .char (Char.ofNat l.part) size
  | _ + 1, [] => .cut
  | more + 1, b :: bs =>
    if l.least ≤ b.toNat ∧ b.toNat ≤ l.most then
      follow ⟨more, 0x80, 0xBF, l.part * 64 + (b.toNat - 0x80)⟩ (size + 1) bs
    else .fault (size + 1)

/-- Reads one character. -/
def next : List UInt8 → Outcome
  | [] => .cut
  | b :: bs =>
    if b.toNat < 0x80 then .char (Char.ofNat b.toNat) 1
    else
      match lead? b.toNat with
      | some l => follow l 1 bs
      | none => .fault 1

/-- Bytes that have been decoded up to the first fault: the characters, each
with the number of bytes at which it is complete, and the number of bytes at
which the fault shows. -/
structure Decoded where
  chars : List (Char × Nat)
  fault : Option Nat

/-- Decodes bytes after so many others, of which the characters are given
backwards; `fuel` is at least the number of bytes. A character that is cut off
shows with the byte after the last. -/
def decodeFrom : Nat → Nat → List (Char × Nat) → List UInt8 → Decoded
  | 0, _, found, _ => ⟨found.reverse, none⟩
  | _, _, found, [] => ⟨found.reverse, none⟩
  | fuel + 1, done, found, bs =>
    match next bs with
    | .char c size => decodeFrom fuel (done + size) ((c, done + size) :: found) (bs.drop size)
    | .fault size => ⟨found.reverse, some (done + size)⟩
    | .cut => ⟨found.reverse, some (done + bs.length + 1)⟩

/-- Decodes bytes. -/
def decode (bs : List UInt8) : Decoded := decodeFrom bs.length 0 [] bs

end EffectGraph.Utf8
