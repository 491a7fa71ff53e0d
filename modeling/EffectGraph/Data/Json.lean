import EffectGraph.Data.Equal
import EffectGraph.Number.Integer

/-!
# JSON text

Writing keeps to ASCII, with a blank after each comma and colon. Reading takes
the words `NaN`, `Infinity` and `-Infinity` as numbers, keeps integers of any
size apart from floats, and lets the last of two equal keys win.
-/

namespace EffectGraph.Json

/-! ## Writing -/

/-- The escape of a unit of sixteen bits. -/
def unit (n : Nat) : List Char := '\\' :: 'u' :: Text.hex 4 n

/-- How a character is written between quotes. -/
def escape (c : Char) : List Char :=
  if c == '"' then ['\\', '"']
  else if c == '\\' then ['\\', '\\']
  else if c == '\n' then ['\\', 'n']
  else if c == '\r' then ['\\', 'r']
  else if c == '\t' then ['\\', 't']
  else if c == '\x08' then ['\\', 'b']
  else if c == '\x0c' then ['\\', 'f']
  else if 32 ≤ c.toNat && c.toNat < 127 then [c]
  else if c.toNat < 0x10000 then unit c.toNat
  else
    let n := c.toNat - 0x10000
    unit (0xD800 + n / 1024) ++ unit (0xDC00 + n % 1024)

/-- How a glyph is written between quotes. -/
def escapeGlyph : Glyph → List Char
  | .char c => escape c
  | .half h => unit (Glyph.half h).code

/-- A text between quotes. -/
def quote (s : Text) : String :=
  String.ofList ('"' :: s.glyphs.flatMap escapeGlyph ++ ['"'])

/-- The text a key of a mapping is written as. -/
def keyText : Data → Except Error Text
  | .str s => .ok s
  | .null => .ok "null"
  | .bool b => .ok (if b then "true" else "false")
  | .int i => do return ← writeInt i
  | .float x => .ok (x.text Binary64.jsonLayout)
  | d => .error (.jsonKey d.kind)

mutual

/-- Writes data as JSON. -/
def write : Data → Except Error String
  | .null => .ok "null"
  | .bool b => .ok (if b then "true" else "false")
  | .int i => writeInt i
  | .float x => .ok (x.text Binary64.jsonLayout)
  | .str s => .ok (quote s)
  | .list xs => do return "[" ++ Data.commas (← writeAll xs) ++ "]"
  | .tuple xs => do return "[" ++ Data.commas (← writeAll xs) ++ "]"
  | .map es => do return "\x7b" ++ Data.commas (← writeEntries es) ++ "\x7d"
  | d => .error (.notJson d.kind)

/-- Writes each item. -/
def writeAll : List Data → Except Error (List String)
  | [] => .ok []
  | x :: xs => do
    let t ← write x
    return t :: (← writeAll xs)

/-- Writes each entry. -/
def writeEntries : List (Data × Data) → Except Error (List String)
  | [] => .ok []
  | (k, v) :: es => do
    let k ← keyText k
    let t ← write v
    return (quote k ++ ": " ++ t) :: (← writeEntries es)

end

/-! ## Reading -/

/-- Whether a character may stand between tokens. -/
def isSpace (c : Char) : Bool := c == ' ' || c == '\t' || c == '\n' || c == '\r'

/-- The characters after the blanks. -/
def skip (cs : List Char) : List Char := cs.dropWhile isSpace

/-- The number four hexadecimal digits stand for. -/
def hex4 (a b c d : Char) : Option Nat := do
  let n ← [a, b, c, d].mapM Reading.hexDigit?
  return n.foldl (fun n d => 16 * n + d) 0

/-- The character of a one-letter escape. -/
def unescape? : Char → Option Char
  | '"' => some '"'
  | '\\' => some '\\'
  | '/' => some '/'
  | 'b' => some '\x08'
  | 'f' => some '\x0c'
  | 'n' => some '\n'
  | 'r' => some '\r'
  | 't' => some '\t'
  | _ => none

/-- Reads the rest of a text up to its closing quote; two escaped halves that
belong together are one character. -/
def readText : List Char → List Glyph → Except Error (Text × List Char)
  | '"' :: cs, acc => .ok (⟨acc.reverse⟩, cs)
  | '\\' :: 'u' :: a :: b :: c :: d :: '\\' :: 'u' :: e :: f :: g :: h :: cs, acc =>
    match hex4 a b c d, hex4 e f g h with
    | some hi, some lo =>
      if 0xD800 ≤ hi && hi < 0xDC00 && 0xDC00 ≤ lo && lo < 0xE000 then
        readText cs (Glyph.ofCode (0x10000 + (hi - 0xD800) * 1024 + (lo - 0xDC00)) :: acc)
      else readText ('\\' :: 'u' :: e :: f :: g :: h :: cs) (Glyph.ofCode hi :: acc)
    | some hi, none => readText ('\\' :: 'u' :: e :: f :: g :: h :: cs) (Glyph.ofCode hi :: acc)
    | none, _ => .error .jsonText
  | '\\' :: 'u' :: a :: b :: c :: d :: cs, acc =>
    match hex4 a b c d with
    | some n => readText cs (Glyph.ofCode n :: acc)
    | none => .error .jsonText
  | '\\' :: c :: cs, acc =>
    match unescape? c with
    | some c => readText cs (.char c :: acc)
    | none => .error .jsonText
  | c :: cs, acc => if c.toNat < 32 || c == '\\' then .error .jsonText
    else readText cs (.char c :: acc)
  | [], _ => .error .jsonText

/-- Reads an exponent, if a whole one stands here. -/
def readExponent : List Char → Option (Int × List Char)
  | c :: cs =>
    if c == 'e' || c == 'E' then
      let (neg, ds) := Reading.sign cs
      let digits := ds.takeWhile Char.isDigit
      if digits.isEmpty then none
      else some (Binary64.signed neg (Reading.digitsValue digits), ds.dropWhile Char.isDigit)
    else none
  | [] => none

/-- Reads a fraction, if a whole one stands here. -/
def readFraction : List Char → Option (List Char × List Char)
  | '.' :: cs =>
    let digits := cs.takeWhile Char.isDigit
    if digits.isEmpty then none else some (digits, cs.dropWhile Char.isDigit)
  | _ => none

/-- Reads a number: an integer unless it has a fraction or an exponent. -/
def readNumber (cs : List Char) : Except Error (Data × List Char) :=
  let (neg, cs) := match cs with
    | '-' :: cs => (true, cs)
    | cs => (false, cs)
  let digits := cs.takeWhile Char.isDigit
  let whole := if digits.head? == some '0' then ['0'] else digits
  let cs := cs.drop whole.length
  if whole.isEmpty then .error .jsonText
  else
    let frac := readFraction cs
    let cs := (frac.map Prod.snd).getD cs
    let exp := readExponent cs
    let cs := (exp.map Prod.snd).getD cs
    if frac.isNone && exp.isNone then
      if Reading.maxDigits < whole.length then .error (.intDigits whole.length)
      else .ok (.int (Binary64.signed neg (Reading.digitsValue whole)), cs)
    else
      let frac := (frac.map Prod.fst).getD []
      let exp := (exp.map Prod.fst).getD 0
      let digits := Reading.digitsValue (whole ++ frac)
      .ok (.float (Binary64.ofDecimal neg digits (exp - frac.length)), cs)

/-- The words that stand for data. -/
def words : List (String × Data) :=
  [("null", .null), ("true", .bool true), ("false", .bool false), ("NaN", .float (.nan .constant)),
   ("Infinity", .float (.inf false)), ("-Infinity", .float (.inf true))]

/-- Reads a word, if one stands here. -/
def readWord (cs : List Char) : Option (Data × List Char) :=
  (words.find? (fun (w, _) => w.toList.isPrefixOf cs)).map fun (w, d) => (d, cs.drop w.length)

variable [Stack]

mutual

/-- Reads data. So many more collections may be opened; `fuel` bounds the
nesting and the number of items. -/
def readData (room fuel : Nat) (cs : List Char) : Except Error (Data × List Char) :=
  match fuel with
  | 0 => .error .jsonText
  | fuel + 1 =>
    match cs with
    | '"' :: cs => do
      let (s, cs) ← readText cs []
      return (.str s, cs)
    | '[' :: cs =>
      if room = 0 then .error (.deepJson "array")
      else
        match skip cs with
        | ']' :: cs => .ok (.list [], cs)
        | cs => do
          let (xs, cs) ← readItems (room - 1) fuel cs
          return (.list xs, cs)
    | '\x7b' :: cs =>
      if room = 0 then .error (.deepJson "object")
      else
        match skip cs with
        | '\x7d' :: cs => .ok (.map [], cs)
        | cs => do
          let (es, cs) ← readEntries (room - 1) fuel cs
          return (Data.mapOf es, cs)
    | cs =>
      match readWord cs with
      | some r => .ok r
      | none => readNumber cs

/-- Reads the items of a list and its closing bracket. -/
def readItems (room fuel : Nat) (cs : List Char) : Except Error (List Data × List Char) :=
  match fuel with
  | 0 => .error .jsonText
  | fuel + 1 => do
    let (x, cs) ← readData room fuel cs
    match skip cs with
    | ']' :: cs => return ([x], cs)
    | ',' :: cs => do
      let (xs, cs) ← readItems room fuel (skip cs)
      return (x :: xs, cs)
    | _ => .error .jsonText

/-- Reads the entries of a mapping and its closing brace. -/
def readEntries (room fuel : Nat) (cs : List Char) :
    Except Error (List (Data × Data) × List Char) :=
  match fuel with
  | 0 => .error .jsonText
  | fuel + 1 =>
    match cs with
    | '"' :: cs => do
      let (k, cs) ← readText cs []
      match skip cs with
      | ':' :: cs => do
        let (v, cs) ← readData room fuel (skip cs)
        match skip cs with
        | '\x7d' :: cs => return ([(.str k, v)], cs)
        | ',' :: cs => do
          let (es, cs) ← readEntries room fuel (skip cs)
          return ((.str k, v) :: es, cs)
        | _ => .error .jsonText
      | _ => .error .jsonText
    | _ => .error .jsonText

end

/-- Reads a whole JSON text. -/
def read (s : String) : Except Error Data := do
  let cs := skip s.toList
  let (d, rest) ← readData Stack.written (2 * cs.length + 1) cs
  if (skip rest).isEmpty then return d else throw .jsonText

end EffectGraph.Json
