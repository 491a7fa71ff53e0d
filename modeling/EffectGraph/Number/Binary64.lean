/-!
# Binary64 numbers, exactly

A finite `Binary64` is a sign, a significand below `2 ^ 53` and an exponent of
two, so every question about it is a question about integers: `num` and `den`
give the fraction it stands for. No machine float is involved.

A number has several such forms (`1 · 2 ^ 1` and `2 · 2 ^ 0`); `eq` compares
the numbers, and nothing here looks at the form alone.
-/

namespace EffectGraph

/-- Divides and rounds to the nearest integer; a tie goes to the even one. -/
def roundDiv (num den : Nat) : Nat :=
  let q := num / den
  let r := num % den
  if 2 * r < den then q else if den < 2 * r then q + 1 else q + q % 2

/-- The bound of significands, `2 ^ 53`. -/
def significands : Nat := 9007199254740992

/-- Where a NaN comes from: nowhere in particular, the one constant that readers
of data files use, or a place of a file. -/
inductive NanSource where
  | anonymous
  | constant
  | place (file node : Nat)
  deriving DecidableEq, Repr

/-- What 64 bits of binary floating point can hold. -/
inductive Binary64 where
  | nan (source : NanSource)
  | inf (neg : Bool)
  | finite (neg : Bool) (mant : Nat) (exp : Int)
      (fits : mant < significands ∧ -1074 ≤ exp ∧ exp ≤ 971)
  deriving DecidableEq

namespace Binary64

/-- The number `± mant · 2 ^ exp`, or an infinity where that is out of range. -/
def pack (neg : Bool) (mant : Nat) (exp : Int) : Binary64 :=
  if h : mant < significands ∧ -1074 ≤ exp ∧ exp ≤ 971 then .finite neg mant exp h else .inf neg

/-- A zero of the given sign. -/
def zero (neg : Bool) : Binary64 := pack neg 0 0

/-- `2 ^ e` for `e ≥ 0`, else `1`. -/
def pow2 (e : Int) : Nat := Nat.pow 2 e.toNat

/-- Numerator of a finite number, without its sign. -/
def magnitude (mant : Nat) (exp : Int) : Nat := mant * pow2 exp

/-- Attaches a sign to a magnitude. -/
def signed (neg : Bool) (n : Nat) : Int := if neg then -(n : Int) else n

/-- The number nearest to `± num / den`, a tie going to the even significand;
an infinity from half a step above the largest finite number on. -/
def ofRatio (neg : Bool) (num den : Nat) : Binary64 :=
  if num = 0 then zero neg else
    let gap : Int := (num.log2 : Int) - (den.log2 : Int)
    let low := num * pow2 (-gap) < den * pow2 gap
    let exp := max (if low then gap - 53 else gap - 52) (-1074)
    let mant := roundDiv (num * pow2 (-exp)) (den * pow2 exp)
    if mant = significands then pack neg (significands / 2) (exp + 1) else pack neg mant exp

/-- The number nearest to an integer; `none` when it is out of range. -/
def ofInt? (i : Int) : Option Binary64 :=
  if i.natAbs < significands then some (pack (i < 0) i.natAbs 0) else
    match ofRatio (i < 0) i.natAbs 1 with
    | .inf _ => none
    | x => some x

/-- Whether the number is finite with no fraction. -/
def isInteger : Binary64 → Bool
  | .finite _ m e _ => magnitude m e % pow2 (-e) == 0
  | _ => false

/-- Whether the number is below zero. -/
def isNegative : Binary64 → Bool
  | .finite neg m _ _ => neg && m != 0
  | .inf neg => neg
  | .nan _ => false

/-- Whether the number is zero, of either sign. -/
def isZero : Binary64 → Bool
  | .finite _ m _ _ => m == 0
  | _ => false

/-- The integer part of a finite number. -/
def truncate? : Binary64 → Option Int
  | .finite neg m e _ => some (signed neg (magnitude m e / pow2 (-e)))
  | _ => none

/-- Whether two numbers are equal: the two zeros are, NaN is equal to nothing. -/
def eq : Binary64 → Binary64 → Bool
  | .finite s m e _, .finite s' m' e' _ =>
    signed s (magnitude m e * pow2 (-e')) == signed s' (magnitude m' e' * pow2 (-e))
  | .inf s, .inf s' => s == s'
  | _, _ => false

/-- Whether a number is exactly the given integer. -/
def eqInt : Binary64 → Int → Bool
  | .finite s m e _, i => signed s (magnitude m e) == i * pow2 (-e)
  | _, _ => false

/-- The number with the other sign. -/
def negate : Binary64 → Binary64
  | .nan k => .nan k
  | .inf s => .inf !s
  | .finite s m e h => .finite (!s) m e h

/-- The nearest number to the sum. -/
def add : Binary64 → Binary64 → Binary64
  | .nan _, _ => .nan .anonymous
  | _, .nan _ => .nan .anonymous
  | .inf s, .inf s' => if s = s' then .inf s else .nan .anonymous
  | .inf s, _ => .inf s
  | _, .inf s => .inf s
  | .finite s m e _, .finite s' m' e' _ =>
    let total := signed s (magnitude m e * pow2 (-e')) + signed s' (magnitude m' e' * pow2 (-e))
    if total = 0 then zero (s && s')
    else ofRatio (total < 0) total.natAbs (pow2 (-e) * pow2 (-e'))

/-- The nearest number to the product. -/
def mul : Binary64 → Binary64 → Binary64
  | .finite s m e _, .finite s' m' e' _ =>
    ofRatio (s != s') (magnitude m e * magnitude m' e') (pow2 (-e) * pow2 (-e'))
  | .nan _, _ => .nan .anonymous
  | _, .nan _ => .nan .anonymous
  | .inf s, .inf s' => .inf (s != s')
  | .inf s, .finite s' m' _ _ => if m' = 0 then .nan .anonymous else .inf (s != s')
  | .finite s m _ _, .inf s' => if m = 0 then .nan .anonymous else .inf (s != s')

end Binary64

end EffectGraph
