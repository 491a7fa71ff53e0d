import EffectGraph.Number.Reading
import EffectGraph.Yaml.Cursor

/-!
# Scalars of a YAML text

The four ways to write a scalar: in single quotes, in double quotes, plain, and
as a block of lines. Each reader starts at the scalar and returns its text and
the place after it; `fuel` is the number of characters left.
-/

namespace EffectGraph.Yaml

/-! ## Quoted scalars -/

/-- Takes the empty lines inside a quoted scalar. A document must not end
there. -/
def quotedBreaks : Nat → Cursor → Except Fault (List Char × Cursor)
  | 0, _ => .error .malformed
  | fuel + 1, c =>
    let c := c.reachMark
    if c.separator then .error .malformed
    else
      let c := c.skip (fun x => x == ' ' || x == '\t')
      match c.lineBreak with
      | ([], _) => .ok ([], c)
      | (b, c) => do
        let (bs, c) ← quotedBreaks fuel c
        return (b ++ bs, c)

/-- Takes a line break inside a scalar: alone it is a blank, with empty lines
after it it vanishes. -/
def fold (b bs : List Char) : List Char :=
  if b != ['\n'] then b ++ bs else if bs.isEmpty then [' '] else bs

/-- The character of a one-letter escape. -/
def unescape? : Char → Option Char
  | '0' => some '\x00'
  | 'a' => some '\x07'
  | 'b' => some '\x08'
  | 't' => some '\t'
  | '\t' => some '\t'
  | 'n' => some '\n'
  | 'v' => some '\x0b'
  | 'f' => some '\x0c'
  | 'r' => some '\r'
  | 'e' => some '\x1b'
  | ' ' => some ' '
  | '"' => some '"'
  | '\\' => some '\\'
  | '/' => some '/'
  | 'N' => some '\x85'
  | '_' => some '\xa0'
  | 'L' => some '\u2028'
  | 'P' => some '\u2029'
  | _ => none

/-- The number of digits of a numeric escape. -/
def escapeDigits? : Char → Option Nat
  | 'x' => some 2
  | 'u' => some 4
  | 'U' => some 8
  | _ => none

/-- The glyph with a number, which must be one of a code point. -/
def codeGlyph (n : Nat) : Except Fault Glyph :=
  if n < 0x110000 then .ok (Glyph.ofCode n)
  else if n < 0x80000000 then .error .badScalar
  else .error (.failed .codeTooLarge)

/-- Takes an escape of so many hexadecimal digits; the place is before them. -/
def hexEscape (k : Nat) (c : Cursor) : Except Fault (Glyph × Cursor) :=
  match (c.rest.take k).mapM Reading.hexDigit? with
  | none => .error .malformed
  | some ds =>
    if ds.length < k then .error (c.forward k).fault
    else do return (← codeGlyph (ds.foldl (fun n d => 16 * n + d) 0), c.forward k)

/-- Takes an escape; the place is after the backslash. -/
def escaped (fuel : Nat) (c : Cursor) : Except Fault (List Glyph × Cursor) :=
  match unescape? c.peek with
  | some x => .ok ([.char x], c.next)
  | none =>
    match escapeDigits? c.peek with
    | some k => do
      let (g, c) ← hexEscape k c.next
      return ([g], c)
    | none =>
      if isBreak c.peek then do
        let (bs, c) ← quotedBreaks fuel c.lineBreak.2
        return (bs.map .char, c)
      else .error c.fault

/-- What came before, in reverse, with some more characters. -/
def follow (acc : List Glyph) (cs : List Char) : List Glyph := (cs.map .char).reverse ++ acc

/-- Takes the rest of a quoted scalar; `acc` is what came before, in reverse. -/
def quotedText (double : Bool) : Nat → Cursor → List Glyph → Except Fault (Text × Cursor)
  | 0, _, _ => .error .malformed
  | fuel + 1, c, acc =>
    let x := c.peek
    if x == endMark then .error c.fault
    else if !double && x == '\'' && c.peek 1 == '\'' then
      quotedText double fuel (c.forward 2) (.char '\'' :: acc)
    else if x == (if double then '"' else '\'') then .ok (⟨acc.reverse⟩, c.next)
    else if double && x == '\\' then do
      let (ys, c) ← escaped fuel c.next
      quotedText double fuel c (ys.reverse ++ acc)
    else if isWordEnd x then
      let (spaces, c) := c.take (fun x => x == ' ' || x == '\t')
      match c.lineBreak with
      | ([], _) => quotedText double fuel c (follow acc spaces)
      | (b, c) => do
        let (bs, c) ← quotedBreaks fuel c
        quotedText double fuel c (follow acc (fold b bs))
    else quotedText double fuel c.next (.char x :: acc)

/-! ## Plain scalars -/

/-- Whether a plain scalar ends before this place. -/
def plainEnds (inFlow : Bool) (c : Cursor) : Bool :=
  let x := c.peek
  isWordEnd x
    || (x == ':' && (isWordEnd (c.peek 1) || (inFlow && ",[]\x7b\x7d".toList.contains (c.peek 1))))
    || (inFlow && ",?[]\x7b\x7d".toList.contains x)

/-- Takes the characters of a plain scalar up to a blank or its end. -/
def plainWord (inFlow : Bool) : Nat → Cursor → List Char × Cursor
  | 0, c => ([], c)
  | fuel + 1, c =>
    let c := if c.peek == ':' then c.reach 1 else c
    if plainEnds inFlow c then ([], c)
    else
      let (xs, d) := plainWord inFlow fuel c.next
      (c.peek :: xs, d)

/-- Takes the blanks and empty lines after the first line break in a plain
scalar; nothing is taken for a scalar when a document ends there. -/
def plainBreaks : Nat → Cursor → Option (List Char) × Cursor
  | 0, c => (none, c)
  | fuel + 1, c =>
    let c := c.reachMark
    if c.separator then (none, c)
    else
      let c := c.skipSpaces
      match c.lineBreak with
      | ([], _) => (some [], c)
      | (b, c) =>
        let (bs, c) := plainBreaks fuel c
        (bs.map (b ++ ·), c)

/-- Takes what stands between the words of a plain scalar: the text it folds to
and whether a line ended. -/
def plainSpaces (fuel : Nat) (c : Cursor) : List Char × Bool × Cursor :=
  let (spaces, c) := c.take (· == ' ')
  match c.lineBreak with
  | ([], _) => (spaces, false, c)
  | (b, c) =>
    let (bs, c) := plainBreaks fuel c
    ((bs.map (fold b)).getD [], true, c)

/-- Takes a plain scalar that must keep to columns from `indent` on outside of
brackets. Also says whether the scalar was followed by a line break. -/
def plainText (inFlow : Bool) (indent : Int) :
    Nat → Cursor → List Char → List Char → Bool → Text × Bool × Cursor
  | 0, c, _, acc, broke => (Text.ofChars acc.reverse, broke, c)
  | fuel + 1, c, spaces, acc, broke =>
    let (word, d) := if c.peek == '#' then ([], c) else plainWord inFlow fuel c
    if word.isEmpty then (Text.ofChars acc.reverse, broke, d)
    else
      let acc := word.reverse ++ spaces.reverse ++ acc
      let (spaces, broke, d) := plainSpaces fuel d
      if spaces.isEmpty || d.peek == '#' || (!inFlow && (d.column : Int) < indent) then
        (Text.ofChars acc.reverse, broke, d)
      else plainText inFlow indent fuel d spaces acc broke

/-! ## Block scalars -/

/-- What happens to the line breaks at the end of a block scalar. -/
inductive Chomping where
  | clip
  | strip
  | keep
  deriving DecidableEq, Repr

/-- Takes a chomping indicator. -/
def chomping? (x : Char) : Option Chomping :=
  if x == '+' then some .keep else if x == '-' then some .strip else none

/-- Takes an indentation indicator, which must not be zero. -/
def indentation (c : Cursor) : Except Fault (Option Nat × Cursor) :=
  let x := c.peek
  if !x.isDigit then .ok (none, c)
  else if x == '0' then .error c.fault
  else .ok (some (x.toNat - 48), c.next)

/-- Takes the indicators of a block scalar, in either order. -/
def blockIndicators (c : Cursor) : Except Fault (Chomping × Option Nat × Cursor) := do
  let (chomp, k, c) ← match chomping? c.peek with
    | some chomp => do
      let (k, c) ← indentation c.next
      pure (chomp, k, c)
    | none => do
      let (k, c) ← indentation c
      match k, chomping? c.peek with
      | some _, some chomp => pure (chomp, k, c.next)
      | _, _ => pure (Chomping.clip, k, c)
  if isSpaceEnd c.peek then return (chomp, k, c) else throw c.fault

/-- Skips blanks up to a column. -/
def skipIndent (indent : Nat) (c : Cursor) : Cursor :=
  let blanks := (c.rest.takeWhile (· == ' ')).length
  c.forward (min blanks (indent - c.column))

/-- Takes the empty lines before the next line of a block scalar. -/
def blockBreaks (indent : Nat) : Nat → Cursor → List Char × Cursor
  | 0, c => ([], c)
  | fuel + 1, c =>
    let c := skipIndent indent c
    match c.lineBreak with
    | ([], _) => ([], c)
    | (b, c) =>
      let (bs, c) := blockBreaks indent fuel c
      (b ++ bs, c)

/-- Takes the empty lines before the first line of a block scalar, and finds
the widest indentation among these lines. -/
def blockStart : Nat → Cursor → Nat → List Char × Nat × Cursor
  | 0, c, widest => ([], widest, c)
  | fuel + 1, c, widest =>
    let c := c.skipSpaces
    let widest := max widest c.column
    match c.lineBreak with
    | ([], _) => ([], widest, c)
    | (b, c) =>
      let (bs, widest, c) := blockStart fuel c widest
      (b ++ bs, widest, c)

/-- Takes the lines of a block scalar: the text up to the last line, its line
break, and the empty lines after it. -/
def blockLines (folded : Bool) (indent : Nat) :
    Nat → Cursor → List Char → List Char × List Char × List Char × Cursor
  | 0, c, bs => ([], [], bs, c)
  | fuel + 1, c, bs =>
    if c.column == indent && c.peek != endMark then
      let flush := c.peek != ' ' && c.peek != '\t'
      let (line, c) := c.take (!isLineEnd ·)
      let (b, c) := c.lineBreak
      let (next, c) := blockBreaks indent fuel c
      if c.column == indent && c.peek != endMark then
        let sep :=
          if folded && b == ['\n'] && flush && c.peek != ' ' && c.peek != '\t' then
            if next.isEmpty then [' '] else []
          else b
        let (text, b, last, c) := blockLines folded indent fuel c next
        (bs ++ line ++ sep ++ text, b, last, c)
      else (bs ++ line, b, next, c)
    else ([], [], bs, c)

/-- Takes a block scalar inside the given indentation. -/
def blockText (folded : Bool) (outer : Int) (c : Cursor) : Except Fault (Text × Cursor) := do
  let (chomp, k, c) ← blockIndicators c.next
  let c ← c.endLine
  let least := (max (outer + 1) 1).toNat
  let fuel := c.fuel
  let (indent, bs, c) := match k with
    | some k =>
      let indent := least + k - 1
      let (bs, c) := blockBreaks indent fuel c
      (indent, bs, c)
    | none =>
      let (bs, widest, c) := blockStart fuel c 0
      (max least widest, bs, c)
  let (text, b, last, c) := blockLines folded indent fuel c bs
  let tail := match chomp with
    | .strip => []
    | .clip => b
    | .keep => b ++ last
  return (Text.ofChars (text ++ tail), c)

end EffectGraph.Yaml
