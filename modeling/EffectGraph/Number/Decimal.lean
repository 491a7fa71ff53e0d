import EffectGraph.Number.Binary64

/-!
# Decimal forms of numbers

Reading a decimal gives the nearest `Binary64`. Writing one gives either the
fewest digits that read back as the same number (`shortest`) or a fixed number
of places of the exact value (`fixed`). How digits are laid out is the choice
of a `Layout`.
-/

namespace EffectGraph.Binary64

/-- `10 ^ e` for `e ≥ 0`, else `1`. -/
def pow10 (e : Int) : Nat := Nat.pow 10 e.toNat

/-- The decimal digits of a number, most significant first. -/
def digitsOf (n : Nat) : List Char := Nat.toDigits 10 n

/-- The number nearest to `± digits · 10 ^ exp`. An exponent far outside the
range is settled by the number of digits, so it costs nothing. -/
def ofDecimal (neg : Bool) (digits : Nat) (exp : Int) : Binary64 :=
  let top := (digitsOf digits).length + exp
  if digits = 0 then zero neg
  else if 310 < top then .inf neg
  else if top < -330 then zero neg
  else ofRatio neg (digits * pow10 exp) (pow10 (-exp))

/-- A decimal `digits · 10 ^ exp`. -/
structure Decimal where
  digits : Nat
  exp : Int

/-- The least `top` with `num / den < 10 ^ top`. -/
def decimalTop (num den : Nat) : Int :=
  let gap : Int := (digitsOf num).length - (digitsOf den).length
  if den * pow10 gap ≤ num * pow10 (-gap) then gap + 1 else gap

/-- Of the two multiples of `10 ^ exp` around `num / den`, those that read back
as `num / den` does, the nearer one first. -/
def readBack (num den : Nat) (exp : Int) : Option Decimal :=
  let n := num * pow10 (-exp)
  let d := den * pow10 exp
  let below := n / d
  let nearer := roundDiv n d
  let other := if nearer = below then below + 1 else below
  let target := ofRatio false num den
  [nearer, other].find? (fun k => (ofDecimal false k exp).eq target) |>.map (⟨·, exp⟩)

/-- The decimal with the fewest digits that reads back as `num / den`, and the
nearest of those. Seventeen digits always do. -/
def shortest (num den : Nat) : Decimal :=
  let top := decimalTop num den
  let rec go : Nat → Nat → Decimal
    | 0, k => (readBack num den (top - k)).getD ⟨0, 0⟩
    | more + 1, k => (readBack num den (top - k)).getD (go more (k + 1))
  go 16 1

/-- How a number is laid out: the exponents of the first digit for which no
exponent is written, the least width of a written exponent, and the words for
what is not a number. -/
structure Layout where
  lowest : Int
  highest : Int
  exponentWidth : Nat
  nan : String
  inf : String

/-- The usual layout: no exponent from `0.0001` up to sixteen digits before
the point, a point in every number without an exponent, two digits in an
exponent. -/
def plainLayout : Layout := ⟨-4, 15, 2, "nan", "inf"⟩

/-- The layout of numbers in JSON text. -/
def jsonLayout : Layout := { plainLayout with nan := "NaN", inf := "Infinity" }

/-- A run of zeros. -/
def zeros (n : Int) : List Char := List.replicate n.toNat '0'

/-- Lays out the digits of `0.d₁d₂… · 10 ^ point`. -/
def layDigits (l : Layout) (ds : List Char) (point : Int) : List Char :=
  if l.lowest ≤ point - 1 ∧ point - 1 ≤ l.highest then
    if point ≤ 0 then '0' :: '.' :: zeros (-point) ++ ds
    else if (ds.length : Int) ≤ point then ds ++ zeros (point - ds.length) ++ ['.', '0']
    else ds.take point.toNat ++ '.' :: ds.drop point.toNat
  else
    let e := point - 1
    let es := digitsOf e.natAbs
    let width := zeros ((l.exponentWidth : Int) - es.length)
    ds.take 1 ++ (if ds.length ≤ 1 then [] else '.' :: ds.drop 1)
      ++ ['e', if e < 0 then '-' else '+'] ++ width ++ es

/-- The text of a number: its shortest digits in the given layout. -/
def text (l : Layout) : Binary64 → String
  | .nan _ => l.nan
  | .inf neg => if neg then "-" ++ l.inf else l.inf
  | .finite neg m e _ =>
    let body :=
      if m = 0 then ['0', '.', '0']
      else
        let d := shortest (magnitude m e) (pow2 (-e))
        let ds := digitsOf d.digits
        layDigits l (ds.reverse.dropWhile (· == '0')).reverse (ds.length + d.exp)
    String.ofList (if neg then '-' :: body else body)

/-- The exact value to the given number of places; a tie goes to the even
digit. -/
def fixed (places : Nat) : Binary64 → String
  | .nan _ => "nan"
  | .inf neg => if neg then "-inf" else "inf"
  | .finite neg m e _ =>
    let n := roundDiv (magnitude m e * pow10 places) (pow2 (-e))
    let ds := digitsOf n
    let ds := zeros ((places : Int) + 1 - ds.length) ++ ds
    let body := ds.take (ds.length - places) ++ '.' :: ds.drop (ds.length - places)
    String.ofList (if neg then '-' :: body else body)

end EffectGraph.Binary64
