import EffectGraph.Yaml.Stream
import EffectGraph.Yaml.Text

/-!
# Tokens of a YAML text

Scanning finds the marks, names and scalars of a text, and turns indentation
into marks of its own: a mapping or a sequence starts where a line is indented
further, and ends where one is indented less.

A key is recognised by the colon after it. So a place where a key may start is
remembered until the line ends, and the mark of the key is put there when the
colon comes.

Tokens are looked at while scanning goes on. So a fault of scanning ends the
tokens, and those before it count, unless a key may still be put before them.
-/

namespace EffectGraph.Yaml

/-- A directive before a document. -/
inductive Directive where
  | version (major : Nat)
  | tag (handle start : String)
  | other
  deriving DecidableEq, Repr

/-- A token. -/
inductive Token where
  | directive (d : Directive)
  | documentStart
  | documentEnd
  | blockSequence
  | blockMapping
  | blockEnd
  | openSequence
  | closeSequence
  | openMapping
  | closeMapping
  | entry
  | comma
  | key
  | value
  | alias (name : String)
  | anchor (name : String)
  | tag (handle : Option String) (suffix : String)
  | scalar (text : Text) (plain : Bool)
  deriving DecidableEq, Repr

/-- A place where a key may have started: the number of tokens before it. It is
required when nothing else can stand there. -/
structure KeyStart where
  tokens : Nat
  required : Bool
  index : Nat
  line : Nat
  column : Nat

/-- How far a key may reach. -/
def maxKeyLength : Nat := 1024

/-- The state of scanning: the place, how many tokens have been handed over,
those that have not, the brackets that are open, the indentation, and the keys
that may have started. -/
structure Scan where
  cursor : Cursor
  given : Nat := 0
  tokens : Array Token := #[]
  depth : Nat := 0
  indent : Int := -1
  indents : List Int := []
  keyAllowed : Bool := true
  keys : List (Nat × KeyStart) := []

namespace Scan

/-- The current column. -/
def column (s : Scan) : Int := s.cursor.column

/-- Whether the place is inside brackets. -/
def inFlow (s : Scan) : Bool := s.depth != 0

/-- Adds a token. -/
def push (s : Scan) (t : Token) : Scan := { s with tokens := s.tokens.push t }

/-- Puts a token after so many others, and before those found since. -/
def insertAt (s : Scan) (i : Nat) (t : Token) : Scan :=
  { s with tokens := s.tokens.insertIdxIfInBounds (i - s.given) t }

/-- Moves on by so many characters. -/
def forward (s : Scan) (k : Nat) : Scan := { s with cursor := s.cursor.forward k }

/-! ## Keys -/

/-- Whether a key start is too far back: on another line, or too many
characters ago. -/
def isStale (s : Scan) (k : KeyStart) : Bool :=
  k.line != s.cursor.line || maxKeyLength < s.cursor.index - k.index

/-- Forgets the key starts that are too far back. -/
def dropStale (s : Scan) : Except Fault Scan :=
  if s.keys.any (fun (_, k) => s.isStale k && k.required) then .error .malformed
  else .ok { s with keys := s.keys.filter fun (_, k) => !s.isStale k }

/-- Forgets the key start at the current depth. -/
def dropKey (s : Scan) : Except Fault Scan :=
  match s.keys.lookup s.depth with
  | some k =>
    if k.required then .error .malformed
    else .ok { s with keys := s.keys.filter (·.1 != s.depth) }
  | none => .ok s

/-- Remembers that a key may start here. -/
def saveKey (s : Scan) : Except Fault Scan := do
  if s.keyAllowed then
    let required := !s.inFlow && s.indent == s.column
    let s ← s.dropKey
    let c := s.cursor
    let start : KeyStart := ⟨s.given + s.tokens.size, required, c.index, c.line, c.column⟩
    return { s with keys := (s.depth, start) :: s.keys }
  else return s

/-! ## Indentation -/

/-- Ends the blocks that are indented further than a column. -/
def closeBlocks (column : Int) (s : Scan) : List Int → Scan
  | [] => s
  | outer :: rest =>
    if column < s.indent then
      closeBlocks column ({ s with indent := outer, indents := rest }.push .blockEnd) rest
    else s

/-- Ends blocks outside of brackets. -/
def unwind (s : Scan) (column : Int) : Scan :=
  if s.inFlow then s else closeBlocks column s s.indents

/-- Starts a block at a column if it is indented further. -/
def addIndent (s : Scan) (column : Int) : Bool × Scan :=
  if s.indent < column then (true, { s with indent := column, indents := s.indent :: s.indents })
  else (false, s)

/-- Starts a block here, unless one is open at this column. -/
def startBlock (s : Scan) (t : Token) : Scan :=
  let (started, s) := s.addIndent s.column
  if started then s.push t else s

/-! ## Names, tags and directives -/

/-- Takes a name, which must not be empty. -/
def name (c : Cursor) : Except Fault (String × Cursor) :=
  let (cs, c) := c.take isNameChar
  if cs.isEmpty then .error c.fault else .ok (String.ofList cs, c)

/-- Takes the name of an anchor or an alias. -/
def anchorName (c : Cursor) : Except Fault (String × Cursor) := do
  let (n, c) ← name c.next
  let x := c.peek
  if isWordEnd x || "?:,]\x7d%@\x60".toList.contains x then return (n, c) else throw c.fault

/-- Whether a character may be in a tag as it is. -/
def isTagChar (c : Char) : Bool := c.isAlphanum || "-;/?:@&=+$,_.!~*'()[]".toList.contains c

/-- Takes escaped bytes of a tag. -/
def tagBytes : Nat → Cursor → Except Fault (List UInt8 × Cursor)
  | 0, _ => .error .malformed
  | fuel + 1, c =>
    if c.peek != '%' then .ok ([], c)
    else
      let c := c.next
      match Reading.hexDigit? c.peek, Reading.hexDigit? (c.peek 1) with
      | some a, some b => do
        let (bs, c) ← tagBytes fuel (c.forward 2)
        return ((16 * a + b).toUInt8 :: bs, c)
      | some _, none => .error c.next.fault
      | none, _ => .error c.fault

/-- Takes the characters of a tag. -/
def tagChars : Nat → Cursor → Except Fault (List Char × Cursor)
  | 0, _ => .error .malformed
  | fuel + 1, c =>
    if c.peek == '%' then do
      let (bytes, c) ← tagBytes c.fuel c
      let some s := String.fromUTF8? ⟨bytes.toArray⟩ | throw c.fault
      let (cs, c) ← tagChars fuel c
      return (s.toList ++ cs, c)
    else if isTagChar c.peek then do
      let (cs, d) ← tagChars fuel c.next
      return (c.peek :: cs, d)
    else .ok ([], c)

/-- Takes the text of a tag, which must not be empty. -/
def tagText (c : Cursor) : Except Fault (String × Cursor) := do
  let (cs, c) ← tagChars c.fuel c
  if cs.isEmpty then throw c.fault else return (String.ofList cs, c)

/-- Takes the handle of a tag: `!`, `!!` or `!name!`. -/
def tagHandle (c : Cursor) : Except Fault (String × Cursor) :=
  if c.peek != '!' then .error c.fault
  else if c.peek 1 == ' ' then .ok ("!", c.next)
  else
    let (cs, c) := c.next.take isNameChar
    if c.peek == '!' then .ok (String.ofList ('!' :: cs ++ ['!']), c.next) else .error c.fault

/-- Takes a tag that may have a handle: it has one if an exclamation mark
follows. -/
def shortTag (c : Cursor) : Except Fault (Token × Cursor) := do
  let k := 1 + ((c.rest.drop 1).takeWhile fun x => x != '!' && !isSpaceEnd x).length
  if let some f := (c.reach k).stop? then throw f
  let (handle, c) ← if c.peek k == '!' then tagHandle c else pure ("!", c.next)
  let (suffix, c) ← tagText c
  return (.tag (some handle) suffix, c)

/-- Takes a tag. -/
def tagToken (c : Cursor) : Except Fault (Token × Cursor) := do
  let x := c.peek 1
  let (t, c) ←
    if x == '<' then do
      let (suffix, c) ← tagText (c.forward 2)
      if c.peek == '>' then pure (Token.tag none suffix, c.next) else throw c.fault
    else if isWordEnd x then pure (Token.tag none "!", c.next)
    else shortTag c
  if isSpaceEnd c.peek then return (t, c) else throw c.fault

/-- Takes a number of a version, which must not be too long. -/
def versionNumber (c : Cursor) : Except Fault (Nat × Cursor) :=
  let (ds, rest) := c.take Char.isDigit
  if ds.isEmpty then .error c.fault
  else if Reading.maxDigits < ds.length then .error ((c.reach ds.length).stop?.getD .badScalar)
  else .ok (Reading.digitsValue ds, rest)

/-- Takes what follows the name of a directive. -/
def directiveValue (kind : String) (c : Cursor) : Except Fault (Directive × Cursor) := do
  if kind == "YAML" then
    let (major, c) ← versionNumber c.skipSpaces
    if c.peek != '.' then throw c.fault
    let (_, c) ← versionNumber c.next
    if isSpaceEnd c.peek then return (.version major, c) else throw c.fault
  else if kind == "TAG" then
    let (handle, c) ← tagHandle c.skipSpaces
    if c.peek != ' ' then throw c.fault
    let (start, c) ← tagText c.skipSpaces
    if isSpaceEnd c.peek then return (.tag handle start, c) else throw c.fault
  else return (.other, c.skip (!isLineEnd ·))

/-- Takes a directive and the rest of its line. -/
def directiveToken (c : Cursor) : Except Fault (Token × Cursor) := do
  let (kind, c) ← name c.next
  if !isSpaceEnd c.peek then throw c.fault
  let (d, c) ← directiveValue kind c
  return (.directive d, ← c.endLine)

/-! ## One token -/

/-- Goes to the next token. A new line outside of brackets may start a key. -/
def toNextToken : Nat → Scan → Scan
  | 0, s => s
  | fuel + 1, s =>
    let c := s.cursor.skipSpaces.skipComment
    match c.lineBreak with
    | ([], _) => { s with cursor := c }
    | (_, c) => toNextToken fuel { s with cursor := c, keyAllowed := s.keyAllowed || !s.inFlow }

/-- Leaves all blocks before a directive or a mark of a document. -/
def leaveBlocks (s : Scan) : Except Fault Scan := do
  let s ← (s.unwind (-1)).dropKey
  return { s with keyAllowed := false }

/-- Takes a directive. -/
def directiveMark (s : Scan) : Except Fault Scan := do
  let s ← s.leaveBlocks
  let (t, c) ← directiveToken s.cursor
  return { s with cursor := c }.push t

/-- Takes a mark of a document. -/
def documentMark (s : Scan) (t : Token) : Except Fault Scan := do
  return ((← s.leaveBlocks).forward 3).push t

/-- Takes an opening bracket. -/
def openBracket (s : Scan) (t : Token) : Except Fault Scan := do
  let s ← s.saveKey
  return ({ s with depth := s.depth + 1, keyAllowed := true }.forward 1).push t

/-- Takes a closing bracket, which must close something. -/
def closeBracket (s : Scan) (t : Token) : Except Fault Scan := do
  let s ← s.dropKey
  if !s.inFlow then throw s.cursor.next.fault
  return ({ s with depth := s.depth - 1, keyAllowed := false }.forward 1).push t

/-- Takes a comma. -/
def commaMark (s : Scan) : Except Fault Scan := do
  let s ← { s with keyAllowed := true }.dropKey
  return (s.forward 1).push .comma

/-- Takes the dash of an entry. -/
def entryMark (s : Scan) : Except Fault Scan := do
  if !s.inFlow && !s.keyAllowed then throw .malformed
  let s := if s.inFlow then s else s.startBlock .blockSequence
  let s ← { s with keyAllowed := true }.dropKey
  return (s.forward 1).push .entry

/-- Takes a question mark before a key. -/
def keyMark (s : Scan) : Except Fault Scan := do
  if !s.inFlow && !s.keyAllowed then throw .malformed
  let s := if s.inFlow then s else s.startBlock .blockMapping
  let s ← { s with keyAllowed := !s.inFlow }.dropKey
  return (s.forward 1).push .key

/-- Takes a colon. If a key may have started before it, its mark goes there. -/
def valueMark (s : Scan) : Except Fault Scan := do
  let s ← match s.keys.lookup s.depth with
    | some k =>
      let s := { s with keys := s.keys.filter (·.1 != s.depth) }.insertAt k.tokens .key
      let (started, s) := if s.inFlow then (false, s) else s.addIndent k.column
      let s := if started then s.insertAt k.tokens .blockMapping else s
      pure { s with keyAllowed := false }
    | none => do
      if !s.inFlow && !s.keyAllowed then throw .malformed
      let s := if s.inFlow then s else s.startBlock .blockMapping
      { s with keyAllowed := !s.inFlow }.dropKey
  return (s.forward 1).push .value

/-- Takes a token that may be a key. -/
def keyLike (s : Scan) (read : Cursor → Except Fault (Token × Cursor)) : Except Fault Scan := do
  let s ← s.saveKey
  let (t, c) ← read s.cursor
  return { s with keyAllowed := false, cursor := c }.push t

/-- Takes a quoted scalar. -/
def quotedScalar (double : Bool) (c : Cursor) : Except Fault (Token × Cursor) := do
  let (t, c) ← quotedText double c.fuel c.next []
  return (.scalar t false, c)

/-- Takes a block scalar. -/
def blockScalar (s : Scan) (folded : Bool) : Except Fault Scan := do
  let s ← { s with keyAllowed := true }.dropKey
  let (t, c) ← blockText folded s.indent s.cursor
  return { s with cursor := c }.push (.scalar t false)

/-- Takes a plain scalar. After a line break in or behind it a key may start. -/
def plainScalar (s : Scan) : Except Fault Scan := do
  let s ← s.saveKey
  let c := s.cursor
  let (t, broke, c) := plainText s.inFlow (s.indent + 1) c.fuel c [] [] false
  return { s with keyAllowed := broke, cursor := c }.push (.scalar t true)

/-- Whether a character starts a plain scalar whatever follows it. -/
def startsWord (x : Char) : Bool :=
  !(isWordEnd x || "-?:,[]\x7b\x7d#&*!|>'\"%@\x60".toList.contains x)

/-- Takes a token that the next two characters tell: a mark of an entry, a key
or a value, or a plain scalar that starts like one. -/
def markOrWord (s : Scan) : Except Fault Scan :=
  let c := s.cursor.reach 1
  let x := c.peek
  let wordEnds := isWordEnd (c.peek 1)
  if x == '-' && wordEnds then s.entryMark
  else if x == '?' && (s.inFlow || wordEnds) then s.keyMark
  else if x == ':' && (s.inFlow || wordEnds) then s.valueMark
  else if x == '-' || x == '?' || x == ':' then s.plainScalar
  else .error c.fault

/-- Takes the token that starts here. -/
def takeToken (s : Scan) : Except Fault Scan :=
  let c := s.cursor
  let atStart := c.column == 0
  match c.peek with
  | '[' => s.openBracket .openSequence
  | '\x7b' => s.openBracket .openMapping
  | ']' => s.closeBracket .closeSequence
  | '\x7d' => s.closeBracket .closeMapping
  | ',' => s.commaMark
  | '*' => s.keyLike fun c => do
      let (n, c) ← anchorName c
      return (.alias n, c)
  | '&' => s.keyLike fun c => do
      let (n, c) ← anchorName c
      return (.anchor n, c)
  | '!' => s.keyLike tagToken
  | '\'' => s.keyLike (quotedScalar false)
  | '"' => s.keyLike (quotedScalar true)
  | x =>
    if atStart && x == '%' then s.directiveMark
    else if atStart && c.marks '-' then s.documentMark .documentStart
    else if atStart && c.marks '.' then s.documentMark .documentEnd
    else if x == '|' && !s.inFlow then s.blockScalar false
    else if x == '>' && !s.inFlow then s.blockScalar true
    else if startsWord x then s.plainScalar
    else s.markOrWord

/-- Goes on by one token, or to the end of the text. -/
def step (s : Scan) : Except Fault (Bool × Scan) := do
  let s := toNextToken s.cursor.fuel s
  if let some f := s.cursor.stop? then throw f
  let s ← s.dropStale
  let s := s.unwind s.column
  if s.cursor.peek == endMark then return (true, ← (s.unwind (-1)).dropKey)
  if let some f := s.cursor.markStop? then throw f
  let s ← s.takeToken
  if let some f := s.cursor.stop? then throw f
  return (false, s)

/-- The number of tokens that no key can be put before any more. -/
def settled (s : Scan) : Nat :=
  (s.keys.map fun (_, k) => k.tokens - s.given).foldl min s.tokens.size

/-- Hands over the first tokens: these, and the state without them. -/
def handOver (s : Scan) (count : Nat) : Array Token × Scan :=
  (s.tokens.extract 0 count,
   { s with
     given := s.given + count
     tokens := s.tokens.extract count s.tokens.size })

end Scan

/-- The tokens of a text and the fault that ends them, if one does. -/
structure Tokens where
  list : List Token
  fault : Option Fault := none

/-- Takes tokens up to the end of the text or a fault; `found` are those that
were handed over. -/
def Scan.run : Nat → Scan → Array Token → Tokens
  | 0, _, found => ⟨found.toList, some .malformed⟩
  | fuel + 1, s, found =>
    match s.dropStale with
    | .error f => ⟨found.toList, some f⟩
    | .ok s =>
      let (settled, s) := s.handOver s.settled
      let found := found ++ settled
      match s.step with
      | .error f => ⟨found.toList, some f⟩
      | .ok (true, s) => ⟨(found ++ s.tokens).toList, none⟩
      | .ok (false, s) => s.run fuel found

/-- The tokens of a stream. A byte order mark may stand before them. -/
def Stream.tokens (stream : Stream) : Tokens :=
  let start := Cursor.start stream.chars stream.beyond
  let start := if start.peek == '\ufeff' then start.next else start
  Scan.run (start.fuel + 1) { cursor := start } #[]

end EffectGraph.Yaml
