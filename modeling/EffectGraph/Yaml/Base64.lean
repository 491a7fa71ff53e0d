/-!
# Base64

Bytes written in characters that stand for six bits each. Characters outside
the alphabet do not count; padding ends the text when it completes a group of
four.
-/

namespace EffectGraph.Yaml.Base64

/-- The six bits that a character stands for. -/
def value? (c : Char) : Option Nat :=
  if 'A' ≤ c && c ≤ 'Z' then some (c.toNat - 65)
  else if 'a' ≤ c && c ≤ 'z' then some (c.toNat - 71)
  else if '0' ≤ c && c ≤ '9' then some (c.toNat + 4)
  else if c == '+' then some 62
  else if c == '/' then some 63
  else none

/-- The bytes of a text whose groups are complete. Of the group being read,
`place` characters have been seen, `left` are the bits of the last of them that
belong to the next byte, and `pads` of the characters just before are padding. -/
def decodeFrom (place left pads : Nat) : List Char → Option (List UInt8)
  | [] => if place = 0 then some [] else none
  | c :: cs =>
    if c == '=' then
      if 2 ≤ place then
        if 4 ≤ place + (pads + 1) then some [] else decodeFrom place left (pads + 1) cs
      else decodeFrom place left pads cs
    else
      match value? c with
      | none => decodeFrom place left pads cs
      | some v =>
        match place with
        | 0 => decodeFrom 1 v 0 cs
        | 1 => (decodeFrom 2 (v % 16) 0 cs).map ((left * 4 + v / 16).toUInt8 :: ·)
        | 2 => (decodeFrom 3 (v % 4) 0 cs).map ((left * 16 + v / 4).toUInt8 :: ·)
        | _ => (decodeFrom 0 0 0 cs).map ((left * 64 + v).toUInt8 :: ·)

/-- The bytes of a text. -/
def decode? (cs : List Char) : Option (List UInt8) := decodeFrom 0 0 0 cs

end EffectGraph.Yaml.Base64
