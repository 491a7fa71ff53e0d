import EffectGraph.Data.Json

/-!
# Literals

Literals are made from plain data, whose kind says their type (`Literal.of`),
from parts of a known type (`f32`, `u32`, `vec2` to `vec4`), or from a record
that may declare a type (`ofData`, `ofJson`). `shaderText` is their spelling in
shader code.
-/

namespace EffectGraph

variable [Stack]

/-! ## Type names -/

/-- A vector type, if the count allows one. -/
def VectorType.make (elem : ScalarType) (count : Int) : Except Error VectorType :=
  if h : 2 ≤ count.toNat ∧ count.toNat ≤ 4 then .ok ⟨elem, count.toNat, h⟩
  else .error (.vectorCount count)

/-- The two parts of `vecN<T>`: what stands before and after the first `<`. -/
def vectorParts? (name : Text) : Option (Text × Text) :=
  match name.glyphs with
  | .char 'v' :: .char 'e' :: .char 'c' :: rest =>
    if rest.getLast? == some (.char '>') && rest.contains (.char '<') then
      let inner := rest.dropLast
      some (⟨inner.takeWhile (· != .char '<')⟩, ⟨(inner.dropWhile (· != .char '<')).drop 1⟩)
    else none
  | _ => none

/-- Reads a vector type from its parts. -/
def ValueType.ofParts (count elem : Text) : Except Error ValueType := do
  let some elem := ScalarType.ofName? elem | throw (.scalarName elem)
  return .vector (← VectorType.make elem (← readInt count))

/-- Reads the name of a type; blanks around it do not count. -/
def ValueType.ofName (name : Text) : Except Error ValueType :=
  let name := name.trimBlanks
  match ScalarType.ofName? name with
  | some t => .ok (.scalar t)
  | none =>
    match vectorParts? name with
    | some (count, elem) => (ValueType.ofParts count elem).mapError (.vectorName name)
    | none => .error (.typeName name)

/-- Reads the name of a type from data, which must be a text. -/
def ValueType.ofData : Data → Except Error ValueType
  | .str s => ValueType.ofName s
  | d => .error (.notText d.fullKind)

/-! ## Conversions between kinds of numbers -/

/-- The float that an integer becomes. -/
def floatOfInt (i : Int) : Except Error Binary64 :=
  match Binary64.ofInt? i with
  | some x => .ok x
  | none => .error .intTooLarge

/-- The integer part of a float. -/
def intOfFloat : Binary64 → Except Error Int
  | .nan _ => .error .nanInteger
  | .inf _ => .error .infiniteInteger
  | x => .ok (x.truncate?.getD 0)

/-- The text of bytes that all are plain characters. -/
def plainText? (bs : List UInt8) : Option Text :=
  if bs.all (·.toNat < 128) then some (Text.ofChars (bs.map fun b => Char.ofNat b.toNat)) else none

/-- Converts data to a float. -/
def Data.toFloat : Data → Except Error Binary64
  | .float x => .ok x
  | .int i => floatOfInt i
  | .bool b => floatOfInt (Data.boolInt b)
  | .str s =>
    match Reading.float? s with
    | some x => .ok x
    | none => .error (.floatText (.str s))
  | .bytes bs =>
    match (plainText? bs).bind Reading.float? with
    | some x => .ok x
    | none => .error (.floatText (.bytes bs))
  | d => .error (.notReal d.fullKind)

/-- Converts data to an integer. -/
def Data.toInt : Data → Except Error Int
  | .int i => .ok i
  | .bool b => .ok (Data.boolInt b)
  | .float x => intOfFloat x
  | .str s => readInt s
  | .bytes bs =>
    match (plainText? bs).map readInt with
    | some (.ok i) => .ok i
    | some (.error (.intDigits n)) => .error (.intDigits n)
    | _ => .error (.intText (.bytes bs))
  | d => .error (.notInteger d.fullKind)

/-- Whether data is a number below zero; only numbers can be asked. -/
def Data.belowZero : Data → Except Error Bool
  | .int i => .ok (i < 0)
  | .bool _ => .ok false
  | .float x => .ok x.isNegative
  | d => .error (.unordered d.fullKind)

namespace Literal

/-! ## Making literals -/

/-- The scalar type that the kind of data says. -/
def inferScalar : Data → Except Error ScalarType
  | .bool _ => .ok .bool
  | .int _ => .ok .i32
  | .float _ => .ok .f32
  | d => .error (.literalKind d.kind)

/-- The component type of a vector with components of the given types: the one
type they share, or floats where integers and floats meet. -/
def commonScalar (types : List ScalarType) : Except Error ScalarType :=
  match types.eraseDups with
  | [t] => .ok t
  | ts => if ts.contains .bool then .error .mixedVector else .ok .f32

/-- A vector literal of the given components. -/
def ofComponents (items : List Data) : Except Error Literal :=
  if h : 2 ≤ items.length ∧ items.length ≤ 4 then do
    let elem ← commonScalar (← items.mapM inferScalar)
    return ⟨.tuple items, .vector ⟨elem, items.length, h⟩⟩
  else .error (.literalCount items.length)

/-- The literal that plain data stands for; a literal stands for itself. -/
def of (d : Data) : Except Error Literal :=
  match d.expose with
  | .literal d t => .ok ⟨d, t⟩
  | .list xs | .tuple xs => ofComponents xs
  | d => do return ⟨d, .scalar (← inferScalar d)⟩

/-- A float literal. -/
def f32 (d : Data) : Except Error Literal := do
  return ⟨.float (← d.toFloat), ValueType.f32⟩

/-- An unsigned literal. -/
def u32 (d : Data) : Except Error Literal := do
  if ← d.belowZero then throw (.negative d)
  return ⟨.int (← d.toInt), .scalar .u32⟩

/-- A vector of floats. -/
def floats (type : ValueType) (parts : List Data) : Except Error Literal := do
  return ⟨.tuple ((← parts.mapM Data.toFloat).map .float), type⟩

/-- A vector of two floats. -/
def vec2 (x y : Data) : Except Error Literal := floats .vec2f [x, y]

/-- A vector of three floats. -/
def vec3 (x y z : Data) : Except Error Literal := floats .vec3f [x, y, z]

/-- A vector of four floats. -/
def vec4 (x y z w : Data) : Except Error Literal := floats .vec4f [x, y, z, w]

/-! ## Records -/

/-- Checks a number against a declared integer type and drops its fraction,
which must be zero. -/
def coerceInteger (type : ScalarType) (raw : Data) (x : Binary64) : Except Error Data := do
  if !x.isInteger then throw (.expectedInteger type raw)
  if type == .u32 && (← raw.belowZero) then throw (.negative raw)
  return .int (← raw.toInt)

/-- Checks data against a declared scalar type. -/
def coerceScalar (type : ScalarType) (raw : Data) : Except Error Data :=
  match type, raw with
  | .bool, .bool b => .ok (.bool b)
  | .bool, d => .error (.about [d] (.expectedBool d))
  | .f32, .int i => do return .float (← floatOfInt i)
  | .f32, .float x => .ok (.float x)
  | t, .int i => do coerceInteger t (.int i) (← floatOfInt i)
  | t, .float x => coerceInteger t (.float x) x
  | t, d => .error (.about [d] (.expectedNumber t d))

/-- Checks data against a declared type, called `name` by its author. -/
def coerce (name : String) (type : ValueType) (raw : Data) : Except Error Literal :=
  match type with
  | .scalar t => do return ⟨← coerceScalar t raw, type⟩
  | .vector v =>
    match raw.items?.filter (·.length == v.count) with
    | some items => do return ⟨.tuple (← items.mapM (coerceScalar v.elem)), type⟩
    | none => .error (.about [raw] (.expectedComponents v.count name raw))

/-- The record of a literal: its type and its value. -/
def toData (v : Literal) : Data :=
  let value := match v.data with
    | .tuple xs => .list xs
    | d => d
  .map [(.str "type", .str v.type.name), (.str "value", value)]

/-- The literal of a value whose type may be declared. -/
def ofValue (declared : Option Data) (raw : Data) : Except Error Literal :=
  match declared with
  | none => of raw
  | some t => do coerce t.display (← ValueType.ofData t) raw

/-- The error of data that was taken for a record. -/
def notRecord (d : Data) : Error :=
  match d.expose with
  | .list _ => .listKey "list"
  | .tuple _ => .listKey "tuple"
  | .bytes _ => .listKey "byte"
  | .str _ => .textKey
  | d => .notKeyed d.fullKind

/-- The literal of a record; without a type, the kind of its value says it. -/
def ofData (d : Data) : Except Error Literal :=
  match d.entries? with
  | some es =>
    match Data.lookup "value" es with
    | some raw => ofValue (Data.lookup "type" es) raw
    | none => .error (.missingKey "value")
  | none => .error (notRecord d)

/-- The record of a literal as JSON. -/
def toJson (v : Literal) : Except Error String := Json.write v.toData

/-- The literal of a record in JSON. -/
def ofJson (s : String) : Except Error Literal := do ofData (← Json.read s)

/-- Whether two literals have the same data and type. -/
def same (a b : Literal) : Bool := Data.same a.data b.data && a.type == b.type

/-! ## Shader text -/

/-- Number of places of a float in shader code, before trailing zeros go. -/
def floatPlaces : Nat := 6

/-- A float in shader code: `1.` for one, `0.25` for a quarter. -/
def floatText (x : Binary64) : String :=
  String.ofList ((x.fixed floatPlaces).toList.reverse.dropWhile (· == '0')).reverse

/-- A scalar in shader code. -/
def scalarText (type : ScalarType) (d : Data) : Except Error String :=
  match type with
  | .bool => .ok (if d.truthy then "true" else "false")
  | .f32 => do return floatText (← d.toFloat)
  | .u32 => do return (← writeInt (← d.toInt)) ++ "u"
  | .i32 => do writeInt (← d.toInt)

/-- A literal in shader code. -/
def shaderText (v : Literal) : Except Error String :=
  match v.type with
  | .scalar t => scalarText t v.data
  | .vector t =>
    match v.data.elements? with
    | some items => do
      let parts ← items.mapM (scalarText t.elem)
      return "vec" ++ toString t.count ++ "(" ++ String.intercalate "," parts ++ ")"
    | none => .error (.notIterable v.data.fullKind)

end Literal

end EffectGraph
