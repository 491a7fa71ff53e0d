import EffectGraph.Calendar
import EffectGraph.Number.Binary64
import EffectGraph.Text.Glyph
import EffectGraph.ValueType

/-!
# Configuration data

What a graph file can say about a parameter or a property: nested data of
integers of any size, floats, texts, bytes, days, lists, sets and mappings, and
literals already given a type. Mappings keep the order their keys were first
written in.

Data is a tree, with one exception: a file can put a collection into several
places, and even into itself. Such a collection is a root of a web, a list of
cells whose bodies refer to one another by number. `Data.expose` shows the
collection itself, with roots of the same web in the places of these numbers,
so all that look at the outside of data only see a collection.
-/

namespace EffectGraph

/-- Nested configuration data. A `cell` only stands inside the cells of a web. -/
inductive Data where
  | null
  | bool (b : Bool)
  | int (i : Int)
  | float (x : Binary64)
  | str (s : Text)
  | bytes (bs : List UInt8)
  | date (day : Date)
  | moment (time : Moment)
  | list (items : List Data)
  | tuple (items : List Data)
  | set (items : List Data)
  | map (entries : List (Data × Data))
  | literal (data : Data) (type : ValueType)
  | web (file : Nat) (cells : List Data) (root : Nat)
  | cell (index : Nat)
  deriving Inhabited

/-- A literal: data with the type it is given in shader code. Scalars hold one
number or truth value, vectors a tuple of them. -/
structure Literal where
  data : Data
  type : ValueType
  deriving Inhabited

namespace Data

/-! ## Webs -/

mutual

/-- The body of a cell with a root of the web for every cell. -/
def close (file : Nat) (cells : List Data) : Data → Data
  | .cell i => .web file cells i
  | .list xs => .list (closeAll file cells xs)
  | .tuple xs => .tuple (closeAll file cells xs)
  | .set xs => .set (closeAll file cells xs)
  | .map es => .map (closeEntries file cells es)
  | d => d

/-- The same for a list of data. -/
def closeAll (file : Nat) (cells : List Data) : List Data → List Data
  | [] => []
  | x :: xs => close file cells x :: closeAll file cells xs

/-- The same for the entries of a mapping. -/
def closeEntries (file : Nat) (cells : List Data) : List (Data × Data) → List (Data × Data)
  | [] => []
  | (k, v) :: es => (close file cells k, close file cells v) :: closeEntries file cells es

end

/-- The collection that a root of a web is; other data is what it is. -/
def expose : Data → Data
  | .web file cells root => (cells.getD root .null).close file cells
  | d => d

/-- The file and the number of the cell that data is a root of. -/
def place? : Data → Option (Nat × Nat)
  | .web file _ root => some (file, root)
  | _ => none

/-! ## Looking at data from outside -/

/-- The name of the kind of data, as messages give it. -/
def kind (d : Data) : String :=
  match d.expose with
  | .null => "NoneType"
  | .bool _ => "bool"
  | .int _ => "int"
  | .float _ => "float"
  | .str _ => "str"
  | .bytes _ => "bytes"
  | .date _ => "date"
  | .moment _ => "datetime"
  | .list _ | .web _ _ _ | .cell _ => "list"
  | .tuple _ => "tuple"
  | .set _ => "set"
  | .map _ => "dict"
  | .literal _ _ => "Value"

/-- The name of the kind of data in full. -/
def fullKind : Data → String
  | .date _ => "datetime.date"
  | .moment _ => "datetime.datetime"
  | d => d.kind

/-- Whether the data counts as present: zero, the empty text and empty
collections do not. A collection in a web holds something. -/
def truthy : Data → Bool
  | .null => false
  | .bool b => b
  | .int i => i != 0
  | .float x => !x.isZero
  | .str s => !s.isEmpty
  | .bytes bs => !bs.isEmpty
  | .list xs | .tuple xs | .set xs => !xs.isEmpty
  | .map es => !es.isEmpty
  | _ => true

/-- The items of a list or tuple. -/
def items? (d : Data) : Option (List Data) :=
  match d.expose with
  | .list xs | .tuple xs => some xs
  | _ => none

/-- The entries of a mapping. -/
def entries? (d : Data) : Option (List (Data × Data)) :=
  match d.expose with
  | .map es => some es
  | _ => none

/-- The data one gets by going through a collection, a text or bytes. -/
def elements? (d : Data) : Option (List Data) :=
  match d.expose with
  | .str s => some (s.glyphs.map fun g => .str ⟨[g]⟩)
  | .bytes bs => some (bs.map fun b => .int b.toNat)
  | .list xs | .tuple xs | .set xs => some xs
  | .map es => some (es.map Prod.fst)
  | _ => none

/-- The value a mapping has for a text key. -/
def lookup (key : String) : List (Data × Data) → Option Data
  | [] => none
  | (.str k, v) :: rest => if k = key then some v else lookup key rest
  | _ :: rest => lookup key rest

mutual

/-- The kind of the first part of the data that cannot be the key of a
mapping. -/
def unkeyable? : Data → Option String
  | .list _ => some "list"
  | .set _ => some "set"
  | .map _ => some "dict"
  | .web file cells root => some (kind (.web file cells root))
  | .tuple xs => unkeyableAmong? xs
  | .literal d _ => unkeyable? d
  | _ => none

/-- The same among a list of data. -/
def unkeyableAmong? : List Data → Option String
  | [] => none
  | x :: xs => (unkeyable? x).or (unkeyableAmong? xs)

end

end Data

end EffectGraph
