import EffectGraph.Error
import EffectGraph.Number.Reading

/-!
# Integers in text

An integer has no bound, but only so many of its digits are read or written.
-/

namespace EffectGraph

/-- Reads an integer that must be one. -/
def readInt (s : Text) : Except Error Int :=
  match Reading.int s with
  | .ok i => .ok i
  | .error .malformed => .error (.intText (.str s))
  | .error (.tooLong n) => .error (.intDigits n)

/-- Writes an integer that must not be too long. -/
def writeInt (i : Int) : Except Error String :=
  if Data.isLong i then .error .longInteger else .ok (Data.intText i)

end EffectGraph
