import EffectGraph.Error
import Mathlib.Data.Nat.Digits.Defs

/-!
# Data that can be shown

An integer can be written out if it has few enough digits, and a collection can be
shown if the stack has room for its depth. So a single value never fails for its
depth, and a literal of floats can always be shown.
-/

namespace EffectGraph.Data

/-- An integer is too long just if it is too large for the digits that there may be. -/
theorem isLong_iff {i : Int} : isLong i ↔ 10 ^ Reading.maxDigits ≤ i.natAbs := by
  have h := Nat.length_toDigits_le_iff (b := 10) (n := i.natAbs) (k := Reading.maxDigits) (by decide) (by decide)
  unfold isLong Binary64.digitsOf
  rw [decide_eq_true_iff, ← Nat.not_le, h, Nat.not_lt]

/-- Whether data is a single value and no collection. -/
def isSimple : Data → Bool
  | .null | .bool _ | .int _ | .float _ | .str _ | .bytes _ | .date _ | .moment _ => true
  | _ => false

/-- A single value can be shown unless it is an integer that is too long. -/
theorem obstacleIn_of_isSimple {d : Data} (h : d.isSimple) (room : Nat) (opened : List (Nat × Nat)) :
    obstacleIn (room + 1) opened d = match d with
      | .int i => if isLong i then some .longInteger else none
      | _ => none := by
  cases d with
  | list _ | tuple _ | set _ | map _ | literal _ _ | web _ _ _ | cell _ => cases h
  | _ => simp [obstacleIn, isOpen, place?, expose]

variable [Stack]

/-- Only collections can be nested too deep. -/
theorem obstacle?_ne_depth {d : Data} (h : d.isSimple) : d.obstacle? ≠ some .depth := by
  obtain ⟨room, hroom⟩ := Stack.exists_shown
  rw [obstacle?, hroom, obstacleIn_of_isSimple h]
  split
  · split <;> simp
  · simp

/-- A literal can be shown if its data can in what it leaves of the stack. -/
theorem obstacle?_literal (d : Data) (t : ValueType) :
    (literal d t).obstacle? = obstacleIn (Stack.shown - 3) [] d := by
  obtain ⟨room, hroom⟩ := Stack.exists_shown
  rw [obstacle?, hroom]
  rfl

/-- A literal of one value can be shown unless that is an integer that is too long. -/
theorem obstacle?_literal_int (i : Int) (t : ValueType) :
    (literal (.int i) t).obstacle? = if isLong i then some .longInteger else none := by
  obtain ⟨room, hroom⟩ := Stack.exists_shown
  rw [obstacle?_literal, hroom]
  exact obstacleIn_of_isSimple rfl (room + 4) []

/-- A vector of floats can be shown. -/
theorem obstacle?_literal_floats (xs : List Binary64) (t : ValueType) :
    (literal (.tuple (xs.map .float)) t).obstacle? = none := by
  obtain ⟨room, hroom⟩ := Stack.exists_shown
  have hfloat : ∀ x, obstacleIn (room + 4) [] (.float x) = none := fun x => obstacleIn_of_isSimple rfl (room + 3) []
  have htuple : obstacleIn (room + 5) [] (.tuple (xs.map .float)) =
      (xs.map .float).findSome? (obstacleIn (room + 4) []) :=
    rfl
  rw [obstacle?_literal, hroom]
  refine htuple.trans (List.findSome?_eq_none_iff.2 fun d hd => ?_)
  obtain ⟨x, -, rfl⟩ := List.mem_map.1 hd
  exact hfloat x

end EffectGraph.Data
