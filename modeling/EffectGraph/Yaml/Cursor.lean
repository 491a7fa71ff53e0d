import EffectGraph.Error

/-!
# Characters of a YAML text

A cursor stands at a place of a text and knows its line and column. The end of
the text reads as a NUL, which no text contains. A text may break off because
of a fault; who has to look beyond its end then meets that fault.
-/

namespace EffectGraph.Yaml

/-- Why a text has no data: its bytes are no text, it is not well formed, a
number in it cannot be one, or making the data fails in a way of its own. -/
inductive Fault where
  | undecodable
  | malformed
  | badScalar
  | failed (cause : Error)

/-- The character read at the end of a text. -/
def endMark : Char := '\x00'

/-- Whether a character ends a line. -/
def isBreak (c : Char) : Bool :=
  c == '\n' || c == '\r' || c == '\x85' || c == '\u2028' || c == '\u2029'

/-- Whether a character ends a line or the text. -/
def isLineEnd (c : Char) : Bool := c == endMark || isBreak c

/-- Whether a character ends a word: a blank, a tab, or the end of a line. -/
def isWordEnd (c : Char) : Bool := c == ' ' || c == '\t' || isLineEnd c

/-- Whether a character ends a word in a directive or a tag. -/
def isSpaceEnd (c : Char) : Bool := c == ' ' || isLineEnd c

/-- Whether a character may be in a name. -/
def isNameChar (c : Char) : Bool := c.isAlphanum || c == '-' || c == '_'

/-- Whether a character may be in a text. -/
def isAllowed (c : Char) : Bool :=
  let n := c.toNat
  n == 9 || n == 10 || n == 13 || (32 ≤ n && n ≤ 126) || n == 0x85 || (0xA0 ≤ n && n ≤ 0xD7FF)
    || (0xE000 ≤ n && n ≤ 0xFFFD) || 0x10000 ≤ n

/-- A place in a text of so many characters: what is left of it, what fault it
breaks off with, and where the place is. -/
structure Cursor where
  rest : List Char
  total : Nat
  beyond : Option Fault := none
  index : Nat := 0
  line : Nat := 0
  column : Nat := 0

namespace Cursor

/-- The start of a text. -/
def start (cs : List Char) (beyond : Option Fault) : Cursor :=
  { rest := cs, total := cs.length, beyond := beyond }

/-- The fault that is met when the text breaks off here. -/
def stop? (c : Cursor) : Option Fault := if c.rest.isEmpty then c.beyond else none

/-- The fault of a character here that has no place. -/
def fault (c : Cursor) : Fault := c.stop?.getD .malformed

/-- More steps than there are characters left. -/
def fuel (c : Cursor) : Nat := c.total - c.index + 1

/-- The character so many places ahead. -/
def peek (c : Cursor) (k : Nat := 0) : Char := c.rest.getD k endMark

/-- Looks at the character so many places ahead. If the text breaks off before
it, this place is the end of the text. -/
def reach (c : Cursor) (k : Nat) : Cursor :=
  if c.beyond.isSome && (c.rest.drop k).isEmpty then { c with rest := [] } else c

/-- The next place. A byte order mark takes no column, and a carriage return
before a line feed does not end its line. -/
def next (c : Cursor) : Cursor :=
  match c.rest with
  | [] => c
  | x :: rest =>
    if isBreak x && !(x == '\r' && rest.head? == some '\n') then
      { c with rest := rest, index := c.index + 1, line := c.line + 1, column := 0 }
    else
      { c with
        rest := rest, index := c.index + 1
        column := if x == '\ufeff' then c.column else c.column + 1 }

/-- The place so many characters ahead. -/
def forward (c : Cursor) : Nat → Cursor
  | 0 => c
  | k + 1 => c.next.forward k

/-- Takes characters while they pass a test. -/
def take (c : Cursor) (p : Char → Bool) : List Char × Cursor :=
  let taken := c.rest.takeWhile p
  (taken, c.forward taken.length)

/-- Skips characters while they pass a test. -/
def skip (c : Cursor) (p : Char → Bool) : Cursor := (c.take p).2

/-- Skips blanks. -/
def skipSpaces (c : Cursor) : Cursor := c.skip (· == ' ')

/-- Skips a comment, if one starts here. -/
def skipComment (c : Cursor) : Cursor :=
  if c.peek == '#' then c.skip (!isLineEnd ·) else c

/-- Takes a line break, if one stands here: a line feed for the usual ones. -/
def lineBreak (c : Cursor) : List Char × Cursor :=
  let x := c.peek
  if x == '\r' && c.peek 1 == '\n' then (['\n'], c.forward 2)
  else if x == '\r' || x == '\n' || x == '\x85' then (['\n'], c.next)
  else if x == '\u2028' || x == '\u2029' then ([x], c.next)
  else ([], c)

/-- Whether three of the given characters stand here. -/
def three (c : Cursor) (x : Char) : Bool := c.peek == x && c.peek 1 == x && c.peek 2 == x

/-- Whether three of the given characters and the end of a word stand here. -/
def marks (c : Cursor) (x : Char) : Bool := c.three x && isWordEnd (c.peek 3)

/-- Looks ahead as far as it takes to know a mark of a document. -/
def reachMark (c : Cursor) : Cursor :=
  let c := c.reach 2
  if c.three '-' || c.three '.' then c.reach 3 else c

/-- The fault that is met when the text breaks off in what may be a mark of a
document. -/
def markStop? (c : Cursor) : Option Fault :=
  if c.column == 0 && (c.peek == '-' || c.peek == '.') then c.reachMark.stop? else none

/-- Whether a document starts or ends at this place of a line. -/
def separator (c : Cursor) : Bool := c.marks '-' || c.marks '.'

/-- Requires the rest of the line to be blank or a comment, and goes to the
next line. -/
def endLine (c : Cursor) : Except Fault Cursor :=
  let c := c.skipSpaces.skipComment
  if isLineEnd c.peek then .ok c.lineBreak.2 else .error c.fault

end Cursor

end EffectGraph.Yaml
