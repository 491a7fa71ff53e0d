import EffectGraph.Data.Equal

/-!
# The order of sets

A set has no order of its own. One that holds numbers only is gone through by
the places its items have in a table: an item goes to the place that its
residue names, or to the next place of a fixed sequence that is free. Other
sets are gone through in the order in which their items were written.
-/

namespace EffectGraph.Data

/-- The modulus of residues, `2 ^ 61 - 1`. -/
def modulus : Nat := 2305843009213693951

/-- The number of residues that a machine word can tell apart, `2 ^ 64`. -/
def words : Nat := 18446744073709551616

/-- The residue of a fraction whose denominator is `2 ^ k`: as `2 ^ 61` is one,
to divide by two is to multiply by `2 ^ 60`. -/
def ratioResidue (num k : Nat) : Nat :=
  num % modulus * Nat.pow 2 (61 - k % 61) % modulus

/-- A residue with a sign, as a word; minus one is taken for minus two. -/
def word (neg : Bool) (r : Nat) : Nat :=
  if neg && r != 0 then words - (if r = 1 then 2 else r) else r

/-- The word of a number. -/
def word? : Data → Option Nat
  | .bool b => some (if b then 1 else 0)
  | .int i => some (word (i < 0) (i.natAbs % modulus))
  | .float (.finite neg m e _) =>
    some (word neg (ratioResidue (Binary64.magnitude m e) (-e).toNat))
  | .float (.inf neg) => some (word neg 314159)
  | _ => none

/-- The least power of two above a number, from a given one on. -/
def powerAbove (n : Nat) : Nat → Nat → Nat
  | 0, p => p
  | fuel + 1, p => if n < p then p else powerAbove n fuel (2 * p)

/-- The size of the table for so many items. -/
def tableSize (count : Nat) : Nat :=
  if count < 5 then 8 else powerAbove (2 * count) (count + 1) 8

/-- The places that are tried next to one another from a place on. -/
def neighbours (size i : Nat) : List Nat :=
  if i + 9 < size then (List.range 10).map (i + ·) else [i]

/-- The first free place for a word, from a place on; `rest` is what is left of
the word to choose further places by. -/
def freePlace (table : Array (Option Data)) : Nat → Nat → Nat → Nat
  | 0, i, _ => i
  | fuel + 1, i, rest =>
    match (neighbours table.size i).find? fun j => (table[j]?).join.isNone with
    | some j => j
    | none => freePlace table fuel ((i * 5 + 1 + rest / 32) % table.size) (rest / 32)

/-- Puts an item into a table. -/
def scatter (table : Array (Option Data)) (item : Data × Nat) : Array (Option Data) :=
  let (d, w) := item
  table.setIfInBounds (freePlace table (table.size + 16) (w % table.size) w) (some d)

/-- The items of a set in the order of the set. -/
def setOrder (items : List Data) : List Data :=
  match items.mapM word? with
  | some ws =>
    let table := Array.replicate (tableSize items.length) none
    ((items.zip ws).foldl scatter table).toList.filterMap id
  | none => items

end EffectGraph.Data
