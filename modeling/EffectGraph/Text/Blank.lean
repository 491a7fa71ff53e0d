import EffectGraph.Text.Glyph

/-!
# Blank characters

Two notions: the blanks of every script, which surround a name, and the six
plain blanks, which surround a number.
-/

namespace EffectGraph.Text

/-- A blank character of any script: a space, a tab, a line or paragraph
separator, or one of the four information separators. -/
def isBlank (c : Char) : Bool :=
  let n := c.toNat
  (9 ≤ n && n ≤ 13) || (28 ≤ n && n ≤ 32) || n == 0x85 || n == 0xA0 || n == 0x1680
    || (0x2000 ≤ n && n ≤ 0x200A) || n == 0x2028 || n == 0x2029 || n == 0x202F || n == 0x205F
    || n == 0x3000

/-- A plain blank: a space, a tab, or one of the four line and page ends. -/
def isPlainBlank (c : Char) : Bool :=
  c == ' ' || (9 ≤ c.toNat && c.toNat ≤ 13)

/-- Drops the leading and trailing items of a class. -/
def trim (cls : α → Bool) (xs : List α) : List α :=
  ((xs.dropWhile cls).reverse.dropWhile cls).reverse

/-- A text without the blanks around it. -/
def trimBlanks (s : Text) : Text :=
  ⟨trim (fun | .char c => isBlank c | .half _ => false) s.glyphs⟩

end EffectGraph.Text
