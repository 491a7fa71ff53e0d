import EffectGraph.Number.Decimal
import EffectGraph.Text.Blank
import EffectGraph.Text.Digit
import EffectGraph.Text.Glyph

/-!
# Numbers written in text

An integer is an optional sign and digits of any script, single underscores
between digits allowed; in base two, eight or sixteen the mark of that base may
stand before the digits. A float also takes a point, an exponent, or the words
`nan`, `inf` and `infinity` in any case. Plain blanks may stand around either.
-/

namespace EffectGraph.Reading

/-- Why a text is not an integer. -/
inductive IntFault where
  | malformed
  | tooLong (digits : Nat)

/-- The longest run of digits read or written as an integer. -/
def maxDigits : Nat := 4300

/-- The plain form of a text: the digits and blanks of every script become the
plain ones, and a question mark stands for the first glyph that no number can
have and all that follows. -/
def plain : List Glyph → List Char
  | [] => []
  | .half _ :: _ => ['?']
  | .char c :: gs =>
    if c.toNat < 127 then c :: plain gs
    else if Text.isBlank c then ' ' :: plain gs
    else
      match Text.digitValue? c with
      | some d => Char.ofNat (48 + d) :: plain gs
      | none => ['?']

/-- Splits a leading sign off; true means minus. -/
def sign : List Char → Bool × List Char
  | '-' :: cs => (true, cs)
  | '+' :: cs => (false, cs)
  | cs => (false, cs)

/-- Removes single underscores between digits; any other underscore is a
fault. -/
def dropUnderscores : List Char → Option (List Char)
  | [] => some []
  | c :: '_' :: d :: cs =>
    if c.isDigit && d.isDigit then (dropUnderscores (d :: cs)).map (c :: ·)
    else none
  | '_' :: _ => none
  | c :: cs => (dropUnderscores cs).map (c :: ·)

/-- The value of a hexadecimal digit. -/
def hexDigit? (c : Char) : Option Nat :=
  if '0' ≤ c && c ≤ '9' then some (c.toNat - 48)
  else if 'a' ≤ c && c ≤ 'f' then some (c.toNat - 87)
  else if 'A' ≤ c && c ≤ 'F' then some (c.toNat - 55)
  else none

/-- The number a run of plain digits stands for. -/
def digitsValue (cs : List Char) : Nat :=
  cs.foldl (fun n c => 10 * n + (c.toNat - 48)) 0

/-- Whether underscores stand only between other characters, one at a time. -/
def isSpaced (cs : List Char) : Bool :=
  cs.head? != some '_' && cs.getLast? != some '_'
    && !(cs.zip (cs.drop 1)).contains ('_', '_')

/-- The letter that may stand after a zero to mark a base. -/
def baseMark? (base : Nat) : Option Char :=
  if base = 2 then some 'b' else if base = 8 then some 'o' else if base = 16 then some 'x' else none

/-- Drops the mark of a base and one underscore after it. -/
def dropMark (base : Nat) (cs : List Char) : List Char :=
  match cs with
  | '0' :: m :: rest =>
    if baseMark? base == some m.toLower then
      match rest with
      | '_' :: rest => rest
      | rest => rest
    else cs
  | cs => cs

/-- Whether a base has a digit. -/
def isDigitIn (base : Nat) (c : Char) : Bool := (hexDigit? c).any (· < base)

/-- The number that digits of a base stand for. -/
def valueIn (base : Nat) (cs : List Char) : Nat :=
  cs.foldl (fun n c => base * n + (hexDigit? c).getD 0) 0

/-- Reads an integer to a base from two to sixteen. Only so many digits to the
base ten are read, whatever comes after them. -/
def intIn (base : Nat) (s : Text) : Except IntFault Int :=
  let (neg, cs) := sign ((plain s.glyphs).dropWhile Text.isPlainBlank)
  let cs := dropMark base cs
  let run := cs.takeWhile fun c => isDigitIn base c || c == '_'
  let rest := (cs.drop run.length).dropWhile Text.isPlainBlank
  let digits := run.filter (· != '_')
  if !isSpaced run then .error .malformed
  else if base = 10 ∧ maxDigits < digits.length then .error (.tooLong digits.length)
  else if digits.isEmpty || !rest.isEmpty then .error .malformed
  else .ok (Binary64.signed neg (valueIn base digits))

/-- Reads an integer to the base ten. -/
def int (s : Text) : Except IntFault Int := intIn 10 s

/-- Reads an optional exponent to the end of the text. -/
def exponent : List Char → Option Int
  | [] => some 0
  | c :: cs =>
    if c == 'e' || c == 'E' then
      let (neg, ds) := sign cs
      if ds.isEmpty || !ds.all Char.isDigit then none
      else some (Binary64.signed neg (digitsValue ds))
    else none

/-- Reads digits, a point and an exponent to the end of the text. -/
def decimal? (neg : Bool) (cs : List Char) : Option Binary64 :=
  let whole := cs.takeWhile Char.isDigit
  let cs := cs.dropWhile Char.isDigit
  let (frac, cs) := match cs with
    | '.' :: rest => (rest.takeWhile Char.isDigit, rest.dropWhile Char.isDigit)
    | _ => ([], cs)
  if whole.isEmpty && frac.isEmpty then none
  else (exponent cs).map fun e =>
    Binary64.ofDecimal neg (digitsValue (whole ++ frac)) (e - frac.length)

/-- Reads a float. -/
def float? (s : Text) : Option Binary64 := do
  let cs ← dropUnderscores (Text.trim Text.isPlainBlank (plain s.glyphs))
  let (neg, cs) := sign cs
  let word := String.ofList (cs.map Char.toLower)
  if word == "nan" then some (.nan .anonymous)
  else if word == "inf" || word == "infinity" then some (.inf neg)
  else decimal? neg cs

end EffectGraph.Reading
