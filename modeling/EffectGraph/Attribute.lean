import EffectGraph.Literal

/-!
# Particle attributes

The attributes an effect graph can read: the fields of the particle structure
and their types.
-/

namespace EffectGraph

/-- A particle attribute: the name of a field of the particle structure, and the
type of the field. -/
structure Attribute where
  name : Text
  type : ValueType
  deriving DecidableEq, Repr

namespace Attribute

def position : Attribute := ⟨"position", .vec3f⟩
def velocity : Attribute := ⟨"velocity", .vec3f⟩
def age : Attribute := ⟨"age", .f32⟩
def lifetime : Attribute := ⟨"lifetime", .f32⟩
def color : Attribute := ⟨"color", .scalar .u32⟩
def hdrColor : Attribute := ⟨"hdr_color", .vec4f⟩
def alpha : Attribute := ⟨"alpha", .f32⟩
def size : Attribute := ⟨"size", .f32⟩
def size2 : Attribute := ⟨"size2", .vec2f⟩
def axisX : Attribute := ⟨"axis_x", .vec3f⟩
def axisY : Attribute := ⟨"axis_y", .vec3f⟩
def axisZ : Attribute := ⟨"axis_z", .vec3f⟩
def float0 : Attribute := ⟨"f32_0", .f32⟩
def float1 : Attribute := ⟨"f32_1", .f32⟩
def float2 : Attribute := ⟨"f32_2", .f32⟩
def float3 : Attribute := ⟨"f32_3", .f32⟩
def vector0 : Attribute := ⟨"f32x3_0", .vec3f⟩

/-- The attributes that have been registered, in the order of the particle
structure. -/
def all : List Attribute :=
  [position, velocity, age, lifetime, color, hdrColor, alpha, size, size2,
   axisX, axisY, axisZ, float0, float1, float2, float3, vector0]

/-- A read of the attribute in shader code. -/
def shaderText (a : Attribute) : Text := "particle." ++ a.name

/-- The registered attribute with a name. -/
def find? (name : Text) : Option Attribute := all.find? (·.name == name)

/-- The registered attribute that data names. Data that cannot be a key cannot be looked
up at all. -/
def ofName (name : Data) : Except Error Attribute := do
  let found := match ← name.asKey with
    | .str s => find? s
    | _ => none
  match found with
  | some a => return a
  | none => throw (.attributeName name (all.map Attribute.name))

/-- The record of an attribute: its name and its type. -/
def toData (a : Attribute) : Data :=
  .map [(.str "name", .str a.name), (.str "type", .str a.type.name)]

/-- The record of an attribute as JSON. -/
def toJson (a : Attribute) : Except Error String := Json.write a.toData

/-- The registered attribute of a record; a declared type must be its own. -/
def ofData (d : Data) : Except Error Attribute :=
  match d.entries? with
  | some es =>
    match Data.lookup "name" es with
    | none => .error (.missingKey "name")
    | some name => do
      let a ← ofName name
      match Data.lookup "type" es with
      | none => return a
      | some t =>
        if (← ValueType.ofData t) = a.type then return a
        else throw (.attributeType a.name a.type t)
  | none => .error (Literal.notRecord d)

end Attribute

end EffectGraph
