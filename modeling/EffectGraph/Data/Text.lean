import EffectGraph.Data.Basic
import EffectGraph.Number.Reading
import EffectGraph.Stack
import EffectGraph.Text.Quoted

/-!
# Data in messages

`inspect` shows data so that it can be told apart: texts in quotes, collections
in brackets. `display` shows a text as it stands and a day by its number. A
collection that is met inside itself is shown as dots. Not all data can be
shown: an integer may be too long, or collections nested too deep.
-/

namespace EffectGraph

/-- A scalar type in the description of a literal. -/
def ScalarType.inspect (t : ScalarType) : String :=
  "<ScalarType." ++ t.label ++ ": '" ++ t.name ++ "'>"

/-- A type in the description of a literal. -/
def ValueType.inspect : ValueType → String
  | .scalar t => t.inspect
  | .vector v =>
    "VectorType(elem_type=" ++ v.elem.inspect ++ ", count=" ++ toString v.count ++ ")"

namespace Data

/-- Whether an integer is too long to be written out. -/
def isLong (i : Int) : Bool := Reading.maxDigits < (Binary64.digitsOf i.natAbs).length

/-- The text of an integer. -/
def intText (i : Int) : String :=
  if i < 0 then "-" ++ String.ofList (Binary64.digitsOf i.natAbs)
  else String.ofList (Binary64.digitsOf i.natAbs)

/-- Texts with commas between them. -/
def commas (ts : List String) : String := String.intercalate ", " ts

/-- Dots in the brackets of a collection. -/
def dots (d : Data) : String :=
  match d.expose with
  | .map _ => "\x7b...\x7d"
  | .tuple _ => "(...)"
  | _ => "[...]"

/-- Whether data is among the collections that are open. -/
def isOpen (opened : List (Nat × Nat)) (d : Data) : Bool := d.place?.any opened.contains

/-- The collections that are open inside data. -/
def opening (opened : List (Nat × Nat)) (d : Data) : List (Nat × Nat) := d.place?.toList ++ opened

/-- Shows data inside collections that are open, so many levels deep. -/
def inspectIn : Nat → List (Nat × Nat) → Data → String
  | 0, _, _ => ""
  | room + 1, opened, d =>
    if d.isOpen opened then d.dots
    else
      let shown := inspectIn room (d.opening opened)
      match d.expose with
      | .null => "None"
      | .bool b => if b then "True" else "False"
      | .int i => intText i
      | .float x => x.text Binary64.plainLayout
      | .str s => s.quoted
      | .bytes bs => Text.quotedBytes bs
      | .date d => d.inspect
      | .moment m => m.inspect
      | .list xs => "[" ++ commas (xs.map shown) ++ "]"
      | .tuple [x] => "(" ++ shown x ++ ",)"
      | .tuple xs => "(" ++ commas (xs.map shown) ++ ")"
      | .set [] => "set()"
      | .set xs => "\x7b" ++ commas (xs.map shown) ++ "\x7d"
      | .map es => "\x7b" ++ commas (es.map fun (k, v) => shown k ++ ": " ++ shown v) ++ "\x7d"
      | .literal d t => "Value(data=" ++ shown d ++ ", value_type=" ++ t.inspect ++ ")"
      | .web _ _ _ | .cell _ => "..."

/-- Shows data in full. -/
def inspect [Stack] (d : Data) : String := inspectIn Stack.shown [] d

/-- Shows data for reading: a text is not quoted. -/
def display [Stack] : Data → String
  | .str s => s.toString
  | .date d => d.iso
  | .moment m => m.iso
  | d => d.inspect

/-- Why data cannot be shown. -/
inductive Obstacle where
  | longInteger
  | depth
  deriving DecidableEq, Repr

/-- The first obstacle to showing data inside collections that are open, so
many levels deep. To show a literal takes a call that guards against literals
inside themselves, and one that shows its parts. -/
def obstacleIn : Nat → List (Nat × Nat) → Data → Option Obstacle
  | 0, _, _ => some .depth
  | room + 1, opened, d =>
    if d.isOpen opened then none
    else
      let found := obstacleIn room (d.opening opened)
      match d.expose with
      | .int i => if isLong i then some .longInteger else none
      | .list xs | .tuple xs | .set xs => xs.findSome? found
      | .map es => es.findSome? fun (k, v) => (found k).or (found v)
      | .literal held _ =>
        match room with
        | room + 2 => obstacleIn room (d.opening opened) held
        | _ => some .depth
      | _ => none

/-- The first obstacle to showing data. -/
def obstacle? [Stack] (d : Data) : Option Obstacle := obstacleIn Stack.shown [] d

/-- Whether data can be shown. -/
def isShowable [Stack] (d : Data) : Bool := d.obstacle?.isNone

end Data

end EffectGraph
