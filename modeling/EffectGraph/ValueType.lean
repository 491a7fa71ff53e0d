import EffectGraph.Text.Glyph

/-!
# Value types

The scalar and vector types that slots and expressions carry, spelled as the
shading language spells them.
-/

namespace EffectGraph

/-- A scalar type. -/
inductive ScalarType where
  | bool
  | f32
  | i32
  | u32
  deriving DecidableEq, Repr, Inhabited

namespace ScalarType

/-- Every scalar type. -/
def all : List ScalarType := [.bool, .f32, .i32, .u32]

/-- The spelling of a scalar type. -/
def name : ScalarType → String
  | .bool => "bool"
  | .f32 => "f32"
  | .i32 => "i32"
  | .u32 => "u32"

/-- The label of a scalar type in descriptions of literals. -/
def label : ScalarType → String
  | .bool => "BOOL"
  | .f32 => "FLOAT"
  | .i32 => "INT"
  | .u32 => "UINT"

/-- The scalar type with a spelling. -/
def ofName? (s : Text) : Option ScalarType := all.find? (Text.ofString ·.name == s)

/-- The scalar type with a label. -/
def ofLabel? (s : String) : Option ScalarType := all.find? (·.label == s)

end ScalarType

/-- A vector of two to four scalars. -/
structure VectorType where
  elem : ScalarType
  count : Nat
  bounds : 2 ≤ count ∧ count ≤ 4 := by decide
  deriving DecidableEq, Repr

/-- The type of a value. -/
inductive ValueType where
  | scalar (type : ScalarType)
  | vector (type : VectorType)
  deriving DecidableEq, Repr, Inhabited

namespace ValueType

/-- The spelling of a type. -/
def name : ValueType → String
  | .scalar t => t.name
  | .vector v => "vec" ++ toString v.count ++ "<" ++ v.elem.name ++ ">"

/-- The type of the components of a vector, or of the scalar itself. -/
def elem : ValueType → ScalarType
  | .scalar t => t
  | .vector v => v.elem

/-- The number of components of a vector. -/
def count? : ValueType → Option Nat
  | .scalar _ => none
  | .vector v => some v.count

/-- A single float. -/
def f32 : ValueType := .scalar .f32

/-- Two floats. -/
def vec2f : ValueType := .vector { elem := .f32, count := 2 }

/-- Three floats. -/
def vec3f : ValueType := .vector { elem := .f32, count := 3 }

/-- Four floats. -/
def vec4f : ValueType := .vector { elem := .f32, count := 4 }

end ValueType

end EffectGraph
