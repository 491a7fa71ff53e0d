/-!
# Runs of letters

Capital and small letters mostly come in runs, in which each letter has its
counterpart at the same distance.
-/

namespace EffectGraph.Text

/-- Characters from `first` to `last`, each `step` after the one before, whose
counterpart is `shift` further on. -/
structure CaseRun where
  first : Nat
  last : Nat
  step : Nat
  shift : Int

/-- Whether a code point is in a run. -/
def CaseRun.contains (r : CaseRun) (n : Nat) : Bool :=
  r.first ≤ n && n ≤ r.last && (n - r.first) % r.step == 0

/-- The counterpart of a character in the first run that has it; without one it
stays as it is. -/
def counterpart (runs : Array CaseRun) (c : Char) : Char :=
  match runs.find? (·.contains c.toNat) with
  | some r => Char.ofNat ((c.toNat : Int) + r.shift).toNat
  | none => c

end EffectGraph.Text
