import EffectGraph.Text.Glyph
import EffectGraph.Text.Printable

/-!
# Quoted text

A text in quotes shows every character on one line: the single quote is used
unless the text has one and no double quote, and what cannot be shown is
escaped.
-/

namespace EffectGraph.Text

/-- A lower-case hexadecimal digit. -/
def hexDigit (n : Nat) : Char :=
  if n < 10 then Char.ofNat (48 + n) else Char.ofNat (87 + n)

/-- The last `width` hexadecimal digits of a number. -/
def hex : Nat → Nat → List Char
  | 0, _ => []
  | width + 1, n => hex width (n / 16) ++ [hexDigit (n % 16)]

/-- How a code point is written that cannot be shown. -/
def escapeCode (n : Nat) : List Char :=
  if n < 0x100 then '\\' :: 'x' :: hex 2 n
  else if n < 0x10000 then '\\' :: 'u' :: hex 4 n
  else '\\' :: 'U' :: hex 8 n

/-- How a character is written inside the given quotes; `shows` says which
characters are shown as they are. -/
def escape (shows : Char → Bool) (quote c : Char) : List Char :=
  if c == quote || c == '\\' then ['\\', c]
  else if c == '\n' then ['\\', 'n']
  else if c == '\t' then ['\\', 't']
  else if c == '\r' then ['\\', 'r']
  else if shows c then [c]
  else escapeCode c.toNat

/-- How a glyph is written inside the given quotes. -/
def escapeGlyph (quote : Char) : Glyph → List Char
  | .char c => escape isPrintable quote c
  | .half h => escapeCode (Glyph.half h).code

/-- The quote to use for a text with the given characters. -/
def quoteFor (cs : List Char) : Char :=
  if cs.contains '\'' && !cs.contains '"' then '"' else '\''

/-- The text in quotes. -/
def quoted (s : Text) : String :=
  let quote := quoteFor (s.glyphs.map Glyph.shown)
  String.ofList (quote :: s.glyphs.flatMap (escapeGlyph quote) ++ [quote])

/-- Bytes in quotes, after the letter that marks them as bytes; those of plain
characters are shown as such. -/
def quotedBytes (bs : List UInt8) : String :=
  let cs := bs.map fun b => Char.ofNat b.toNat
  let quote := quoteFor cs
  let shows (c : Char) : Bool := 32 ≤ c.toNat && c.toNat < 127
  String.ofList ('b' :: quote :: cs.flatMap (escape shows quote) ++ [quote])

end EffectGraph.Text
