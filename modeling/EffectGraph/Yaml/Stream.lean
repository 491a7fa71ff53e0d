import EffectGraph.Text.Utf8
import EffectGraph.Yaml.Cursor

/-!
# The characters of a file

A file is not read at once. Bytes are fetched in blocks, characters are handed
over in portions, and a portion is checked when it is handed over, which is
when the place of reading comes to it. So a fault far back in a file is not met
when reading stops before it.
-/

namespace EffectGraph.Yaml

/-- The characters of a file up to the portion that cannot be handed over, and
why it cannot. -/
structure Stream where
  chars : List Char
  beyond : Option Fault := none

namespace Stream

/-- The number of characters of a portion. -/
def portion : Nat := 4096

/-- The least number of bytes of a block. -/
def block : Nat := 8192

/-- The number of characters before a portion. The first two portions are
handed over together. -/
def before (portions : Nat) : Nat := if portions < 2 then 0 else portions * portion

/-- Line breaks in the making: whether the last character was a carriage
return, and the characters before it, backwards. -/
structure Lines where
  waiting : Bool := false
  found : List (Char × Nat) := []

/-- Takes one more character. A carriage return is complete with the character
after it, which may be its line feed. -/
def Lines.add (l : Lines) (cn : Char × Nat) : Lines :=
  let (c, n) := cn
  let found := if l.waiting then ('\n', n) :: l.found else l.found
  if c == '\r' then ⟨true, found⟩
  else if l.waiting && c == '\n' then ⟨false, found⟩
  else ⟨false, (c, n) :: found⟩

/-- A line feed for every line break of another system. A carriage return at
the end is complete with the byte after the last. -/
def lineFeeds (total : Nat) (cs : List (Char × Nat)) : List (Char × Nat) :=
  let l := cs.foldl Lines.add {}
  (if l.waiting then ('\n', total + 1) :: l.found else l.found).reverse

/-- The state of fetching: the bytes fetched, the characters of which they are
not the end, the characters in stock, how many bytes the last block had for how
many characters, and the portions handed over. -/
structure Fetch where
  fetched : Nat := 0
  waiting : List Nat
  stock : Nat := 0
  blockBytes : Nat := 0
  blockChars : Nat := 0
  portions : Nat := 0

/-- The size of the next block, from what is missing in the portion. -/
def Fetch.nextBlock (f : Fetch) : Nat :=
  max block (f.blockBytes * (portion - f.stock) / f.blockChars)

/-- The number of portions that are handed over before a fault that shows with
a number of bytes. -/
def portionsBefore (total fault : Nat) : Nat → Fetch → Nat
  | 0, f => f.portions
  | fuel + 1, f =>
    if portion ≤ f.stock then
      portionsBefore total fault fuel
        { f with stock := f.stock - portion, portions := f.portions + 1 }
    else
      let fetched := min total (f.fetched + f.nextBlock)
      if fetched = f.fetched ∨ fault ≤ fetched then f.portions
      else
        let found := (f.waiting.takeWhile (· ≤ fetched)).length
        portionsBefore total fault fuel
          { f with
            fetched := fetched, waiting := f.waiting.drop found, stock := f.stock + found
            blockBytes := fetched - f.fetched, blockChars := found }

/-- The number of characters before a fault of the bytes. -/
def beforeFault (total fault : Nat) (cs : List (Char × Nat)) : Nat :=
  before (portionsBefore total fault (total + 2) { waiting := cs.map Prod.snd })

/-- The number of characters before the portion with the first character that
is not allowed, if there is one. -/
def beforeForbidden? (cs : List (Char × Nat)) : Option Nat :=
  (cs.findIdx? (!isAllowed ·.1)).map fun i => before (i / portion)

/-- Reads the bytes of a file. Of a fault of the bytes and a character that is
not allowed in one portion, the first is met. -/
def ofBytes (bytes : ByteArray) : Stream :=
  let total := bytes.size
  let decoded := Utf8.decode bytes.toList
  let cs := lineFeeds total decoded.chars
  let upTo (k : Nat) (fault : Fault) : Stream := ⟨(cs.take k).map Prod.fst, some fault⟩
  match decoded.fault.map (beforeFault total · cs), beforeForbidden? cs with
  | some k, some j => if j < k then upTo j .malformed else upTo k .undecodable
  | some k, none => upTo k .undecodable
  | none, some j => upTo j .malformed
  | none, none => ⟨cs.map Prod.fst, none⟩

end Stream

end EffectGraph.Yaml
