/-!
# Tables by place

A table gives some of the places of an arena a value each.
-/

namespace EffectGraph

/-- A value for some places. -/
structure Table (α : Type) where
  cells : Array (Option α) := #[]

namespace Table

/-- The value at a place. -/
def get? (t : Table α) (i : Nat) : Option α := t.cells[i]?.join

/-- Whether a place has a value. -/
def contains (t : Table α) (i : Nat) : Bool := (t.get? i).isSome

/-- Sets the value at a place. -/
def insert (t : Table α) (i : Nat) (a : α) : Table α where
  cells :=
    if i < t.cells.size then t.cells.setIfInBounds i (some a)
    else (t.cells ++ Array.replicate (i - t.cells.size) none).push (some a)

/-- The number of places with a value. -/
def size (t : Table α) : Nat := t.cells.countP Option.isSome

@[simp] theorem get?_empty (i : Nat) : (({} : Table α)).get? i = none := by
  simp [get?]

theorem get?_insert (t : Table α) (i j : Nat) (a : α) :
    (t.insert i a).get? j = if j = i then some a else t.get? j := by
  unfold get? insert
  dsimp only
  split
  · next h =>
    by_cases hj : j = i
    · subst hj; simp [h]
    · simp [hj, Ne.symm hj]
  · next h =>
    rw [Array.getElem?_push]
    have hs : (t.cells ++ Array.replicate (i - t.cells.size) (none : Option α)).size = i := by
      simp; omega
    rw [hs]
    by_cases hj : j = i
    · simp [hj]
    · simp only [hj, if_false, Array.getElem?_append]
      split
      · rfl
      · next hn =>
        rw [Array.getElem?_replicate, Array.getElem?_eq_none (by omega)]
        split <;> rfl

end Table

end EffectGraph
