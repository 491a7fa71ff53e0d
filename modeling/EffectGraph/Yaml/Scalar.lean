import EffectGraph.Data.Equal
import EffectGraph.Text.Lower
import EffectGraph.Yaml.Base64
import EffectGraph.Yaml.Tag

/-!
# The data of YAML scalars

A scalar of a type has the data that its text stands for. A type that was
declared may meet a text that does not fit it.
-/

namespace EffectGraph.Yaml

/-! ## Numbers -/

/-- A text without its underscores, and the sign in front split off. -/
def signed (gs : List Glyph) : Bool × List Glyph :=
  match gs.filter (· != .char '_') with
  | .char '-' :: gs => (true, gs)
  | .char '+' :: gs => (false, gs)
  | gs => (false, gs)

/-- The integer that digits of a base stand for. -/
def intPart (base : Nat) (gs : List Glyph) : Except Fault Int :=
  match Reading.intIn base ⟨gs⟩ with
  | .ok i => .ok i
  | .error _ => .error .badScalar

/-- The parts of a text between its colons. -/
def colonParts (gs : List Glyph) : List (List Glyph) := splitWhere (· == .char ':') gs

/-- The integer that a text without its sign and underscores stands for. -/
def intBody : List Glyph → Except Fault Int
  | [] => .error (.failed .emptyNumber)
  | [.char '0'] => .ok 0
  | .char '0' :: .char 'b' :: ds => intPart 2 ds
  | .char '0' :: .char 'x' :: ds => intPart 16 ds
  | .char '0' :: ds => intPart 8 (.char '0' :: ds)
  | gs => do
    let parts ← (colonParts gs).mapM (intPart 10)
    return parts.foldl (fun n d => 60 * n + d) 0

/-- The integer that a text stands for. -/
def intOf (s : Text) : Except Fault Int := do
  let (neg, body) := signed s.glyphs
  let i ← intBody body
  return if neg then -i else i

/-- A float written as one number; a NaN comes from the given source. -/
def floatPart (source : NanSource) (gs : List Glyph) : Except Fault Binary64 :=
  match Reading.float? ⟨gs⟩ with
  | some (.nan _) => .ok (.nan source)
  | some x => .ok x
  | none => .error .badScalar

/-- Adds up the parts of a sexagesimal float, the last one first. -/
def sumSixtieths (parts : List Binary64) : Except Fault Binary64 := do
  let (total, _) ← parts.foldlM (fun (total, base) x => do
    let some b := Binary64.ofInt? base | throw (Fault.failed .intTooLarge)
    return (total.add (x.mul b), base * 60)) (Binary64.zero false, (1 : Int))
  return total

/-- The float that a text without its sign and underscores stands for. -/
def floatBody (source : NanSource) (gs : List Glyph) : Except Fault Binary64 :=
  let s : Text := ⟨gs⟩
  if s = ".inf" then .ok (.inf false)
  else if s = ".nan" then .ok (.nan .constant)
  else if gs.contains (.char ':') then do
    let total ← sumSixtieths (← (colonParts gs).mapM (floatPart source)).reverse
    return match total with
      | .nan _ => .nan source
      | x => x
  else floatPart source gs

/-- The float that a text stands for; a NaN that is not the constant comes from
the given source. -/
def floatOf (source : NanSource) (s : Text) : Except Fault Binary64 := do
  if s.glyphs.all (· == .char '_') then throw (.failed .emptyNumber)
  let (neg, body) := signed s.glyphs
  let x ← floatBody source (Text.lower ⟨body⟩).glyphs
  return if neg then x.negate else x

/-! ## Other scalars -/

/-- The truth value that a text stands for. -/
def boolOf (s : Text) : Except Fault Bool :=
  let word := s.lower
  match boolWords.find? fun (w, _) => Text.ofString w == word with
  | some (_, b) => .ok b
  | none => .error (.failed (.missingKey word))

/-- The bytes that a text stands for. -/
def bytesOf (s : Text) : Except Fault (List UInt8) :=
  match s.chars? with
  | some cs =>
    if cs.all (·.toNat < 128) then
      match Base64.decode? cs with
      | some bs => .ok bs
      | none => .error .malformed
    else .error .malformed
  | none => .error .malformed

/-- The day or moment that a text stands for. -/
def stampOf (s : Text) : Except Fault Data :=
  match s.chars?.bind fun cs => Stamp.read? (dropLineFeed cs) with
  | some stamp => stamp.toData
  | none => .error (.failed .notTime)

/-- The data of a scalar of a type; a NaN comes from the given source. -/
def scalarData (source : NanSource) (tag : Tag) (s : Text) : Except Fault Data :=
  match tag with
  | .null => .ok .null
  | .bool => do return .bool (← boolOf s)
  | .int => do return .int (← intOf s)
  | .float => do return .float (← floatOf source s)
  | .str => .ok (.str s)
  | .binary => do return .bytes (← bytesOf s)
  | .timestamp => stampOf s
  | _ => .error .malformed

end EffectGraph.Yaml
