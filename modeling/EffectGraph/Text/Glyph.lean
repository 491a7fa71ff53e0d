/-!
# Texts

A text is a list of glyphs: characters, and halves of surrogate pairs that
stand alone. Data files can spell such a half by an escape, and two different
halves must not be taken for one another, so plain strings will not do for
what authors write, nor for shader code with the names they chose. Messages
are plain strings: there two halves that belong together are shown as the
character they make up.
-/

namespace EffectGraph

/-- A character, or one half of a surrogate pair: the code point `0xD800` and
so many more. -/
inductive Glyph where
  | char (c : Char)
  | half (offset : Fin 2048)
  deriving DecidableEq, Repr

namespace Glyph

/-- The code point of a glyph. -/
def code : Glyph → Nat
  | .char c => c.toNat
  | .half h => 0xD800 + h.val

/-- The glyph with a code point below `0x110000`. -/
def ofCode (n : Nat) : Glyph :=
  if h : n - 0xD800 < 2048 ∧ 0xD800 ≤ n then .half ⟨n - 0xD800, h.1⟩ else .char (Char.ofNat n)

/-- The character that shows a glyph; a half is shown by the replacement
character. -/
def shown : Glyph → Char
  | .char c => c
  | .half _ => '\ufffd'

/-- The character that two glyphs make up, if they are the halves of one. -/
def pair? : Glyph → Glyph → Option Char
  | .half h, .half l =>
    if h.val < 1024 ∧ 1024 ≤ l.val then
      some (Char.ofNat (0x10000 + h.val * 1024 + (l.val - 1024)))
    else none
  | _, _ => none

/-- The character that a glyph is. -/
def char? : Glyph → Option Char
  | .char c => some c
  | .half _ => none

end Glyph

/-- A text as an author writes it. -/
structure Text where
  glyphs : List Glyph
  deriving DecidableEq, Repr, Inhabited

namespace Text

/-- The text of a list of characters. -/
def ofChars (cs : List Char) : Text := ⟨cs.map .char⟩

/-- The text of a string. -/
def ofString (s : String) : Text := ofChars s.toList

instance : Coe String Text := ⟨ofString⟩

instance : Append Text := ⟨fun s t => ⟨s.glyphs ++ t.glyphs⟩⟩

/-- The characters that show glyphs; halves that belong together are shown as
one. -/
def shownChars : List Glyph → List Char
  | [] => []
  | [g] => [g.shown]
  | g :: h :: gs =>
    match g.pair? h with
    | some c => c :: shownChars gs
    | none => g.shown :: shownChars (h :: gs)

/-- The text as a string. -/
def toString (s : Text) : String := String.ofList (shownChars s.glyphs)

/-- Texts one after another, with a text between them. -/
def join (sep : Text) : List Text → Text
  | [] => ⟨[]⟩
  | [t] => t
  | t :: ts => t ++ sep ++ join sep ts

/-- Whether there is nothing in a text. -/
def isEmpty (s : Text) : Bool := s.glyphs.isEmpty

/-- The characters of a text that has no lone half. -/
def chars? (s : Text) : Option (List Char) := s.glyphs.mapM Glyph.char?

@[simp] theorem glyphs_append (s t : Text) : (s ++ t).glyphs = s.glyphs ++ t.glyphs := rfl

@[simp] theorem glyphs_ofString (s : String) : (ofString s).glyphs = s.toList.map .char := rfl

theorem glyphs_injective {s t : Text} (h : s.glyphs = t.glyphs) : s = t := by
  cases s
  cases t
  exact congrArg mk h

/-- Characters are shown as they are. -/
theorem shownChars_map_char (cs : List Char) : shownChars (cs.map .char) = cs := by
  induction cs with
  | nil => rfl
  | cons c cs ih =>
    cases cs with
    | nil => rfl
    | cons d ds =>
      simp only [List.map_cons] at ih
      simp only [List.map_cons, shownChars, Glyph.pair?, Glyph.shown, ih]

/-- A string is its own text. -/
theorem toString_ofString (s : String) : (ofString s).toString = s := by
  simp [toString, ofChars, ofString, shownChars_map_char]

/-- Different strings are different texts. -/
theorem ofString_injective {s t : String} (h : ofString s = ofString t) : s = t := by
  rw [← toString_ofString s, h, toString_ofString]

end Text

end EffectGraph
