/-!
# The stack

Every call that is open takes a place on the stack, and what decides how many
places there are is not part of the library. So each recursion along data takes
the depth it may reach from here, and fails when that is not enough.
-/

namespace EffectGraph

/-- How deep the recursions may go. A plain vector can always be shown, and compared
with another. -/
class Stack where
  /-- Levels of data that is shown; a literal takes three. -/
  shown : Nat
  /-- Levels of data that is compared. -/
  compared : Nat
  /-- Collections that may be open at once in a JSON text. -/
  written : Nat
  /-- Collections that may be open at once in a graph file. -/
  composed : Nat
  /-- Mappings of a graph file that lead on to one another. -/
  chained : Nat
  /-- Calls that may be open at once along the operands of an expression. -/
  calls : Nat
  plain_shown : 8 ≤ shown
  plain_compared : 2 ≤ compared

namespace Stack

/-- The same room for all recursions. -/
@[reducible] def even (room : Nat) (h : 8 ≤ room := by decide) : Stack :=
  ⟨room, room, room, room, room, room, h, Nat.le_trans (by decide) h⟩

namespace Usual

/-- Room for a thousand of everything. -/
scoped instance : Stack := even 1000

end Usual

theorem exists_shown [Stack] : ∃ room, shown = room + 8 :=
  ⟨_, (Nat.sub_add_cancel plain_shown).symm⟩

theorem exists_compared [Stack] : ∃ room, compared = room + 2 :=
  ⟨_, (Nat.sub_add_cancel plain_compared).symm⟩

end Stack

end EffectGraph
