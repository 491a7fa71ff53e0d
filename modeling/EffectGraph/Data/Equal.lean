import EffectGraph.Data.Basic
import EffectGraph.Stack

/-!
# Equality of data

Numbers are equal when their values are, whatever their kind; lists differ
from tuples; sets and mappings are compared without regard to order. A NaN is
equal to itself, that is, to one from the same source, and to nothing else.

A collection is equal to itself, whatever it holds. Two collections are compared
part by part, down to a greatest depth. Collections that hold themselves may
lead on beyond it; then there is no answer.
-/

namespace EffectGraph.Data

/-- The integer that a truth value counts as. -/
def boolInt (b : Bool) : Int := if b then 1 else 0

/-- Whether two floats are equal numbers, or the same NaN. -/
def sameFloat : Binary64 → Binary64 → Bool
  | .nan .anonymous, _ => false
  | .nan s, .nan t => s == t
  | x, y => x.eq y

/-- Whether two data without parts are equal. -/
def sameAtom : Data → Data → Bool
  | .null, .null => true
  | .bool a, .bool b => a == b
  | .bool a, .int i => boolInt a == i
  | .bool a, .float x => x.eqInt (boolInt a)
  | .int i, .bool b => i == boolInt b
  | .int i, .int j => i == j
  | .int i, .float x => x.eqInt i
  | .float x, .bool b => x.eqInt (boolInt b)
  | .float x, .int i => x.eqInt i
  | .float x, .float y => sameFloat x y
  | .str s, .str t => s == t
  | .bytes a, .bytes b => a == b
  | .date d, .date e => d == e
  | .moment m, .moment n => m.same n
  | _, _ => false

/-- The answer of a comparison, and if it is yes, that of the next. -/
def both (a : Option Bool) (b : Unit → Option Bool) : Option Bool :=
  match a with
  | some true => b ()
  | r => r

/-- Whether two lists are equal item by item. -/
def sameItems (same : Data → Data → Option Bool) : List Data → List Data → Option Bool
  | [], [] => some true
  | x :: xs, y :: ys => both (same x y) fun _ => sameItems same xs ys
  | _, _ => some false

/-- Whether every entry of the first mapping is in the second. -/
def sameEntries (same : Data → Data → Option Bool) :
    List (Data × Data) → List (Data × Data) → Option Bool
  | [], _ => some true
  | (k, v) :: es, fs =>
    match fs.find? fun f => same k f.1 != some false with
    | some f => both (both (same k f.1) fun _ => same v f.2) fun _ => sameEntries same es fs
    | none => some false

/-- Whether two data are the same root of a web. -/
def isSelf (d e : Data) : Bool := d.place?.isSome && d.place? == e.place?

/-- Whether two data are equal, if that shows within so many levels. -/
def sameIn : Nat → Data → Data → Option Bool
  | 0, d, e => if isSelf d e then some true else none
  | room + 1, d, e =>
    if isSelf d e then some true
    else
      match d.expose, e.expose with
      | .list xs, .list ys =>
        if xs.length = ys.length then sameItems (sameIn room) xs ys else some false
      | .tuple xs, .tuple ys => sameItems (sameIn room) xs ys
      | .set xs, .set ys =>
        some (xs.length == ys.length && xs.all fun x => ys.any (sameIn room x · == some true))
      | .map es, .map fs =>
        if es.length = fs.length then sameEntries (sameIn room) es fs else some false
      | .literal d t, .literal e u => both (sameIn room d e) fun _ => some (t == u)
      | d, e => some (sameAtom d e)

/-- Whether two data are equal, if that can be found out. -/
def same? [Stack] (d e : Data) : Option Bool := sameIn Stack.compared d e

/-- Whether two data are found to be equal. -/
def same [Stack] (d e : Data) : Bool := same? d e == some true

/-! ## Mappings -/

/-- Sets a key of a mapping: the place of an equal key is kept, a new key goes
to the end. -/
def insert [Stack] (key : Data) (value : α) : List (Data × α) → List (Data × α)
  | [] => [(key, value)]
  | (k, v) :: es => if same k key then (k, value) :: es else (k, v) :: insert key value es

/-- The entries that a list of settings leaves. -/
def ofSettings [Stack] (settings : List (Data × α)) : List (Data × α) :=
  settings.foldl (fun es (k, v) => insert k v es) []

/-- The mapping that a list of settings leaves. -/
def mapOf [Stack] (settings : List (Data × Data)) : Data := .map (ofSettings settings)

end EffectGraph.Data
