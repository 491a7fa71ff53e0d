import EffectGraph.Keyed
import EffectGraph.Writer

/-!
# Modifiers

A modifier adds code to a pass of the simulation. The floating origin modifier
moves every particle when the offset of the world's origin changes: a particle
stores the offset it was last moved by, and is shifted by the difference.
-/

namespace EffectGraph

/-- The passes of a simulation. -/
inductive Pass where
  | init
  | update
  deriving DecidableEq, Repr

/-- The word for a pass. -/
def Pass.word : Pass → String
  | .init => "init"
  | .update => "update"

/-- A modifier: a floating origin with the expression of its offset, or one of a
caller's own type that adds no code. Only the update pass is compiled, and a
modifier of another pass is refused before it could add any. -/
inductive Modifier where
  | floatingOrigin (offset : ExprHandle)
  | inert (pass : Pass)
  deriving DecidableEq, Repr

/-- How the modifiers of a type are made. -/
abbrev ModifierFactory := Params → Build Modifier

namespace Modifier

variable [Stack]

/-- The pass a modifier runs in. -/
def pass : Modifier → Pass
  | .floatingOrigin _ => .update
  | .inert p => p

/-- The attributes a modifier reads or writes. -/
def attributes : Modifier → List Attribute
  | .floatingOrigin _ => [.position, .vector0]
  | .inert _ => []

/-- A floating origin whose offset is a property. -/
def viaProperty (p : PropertyHandle) : Build Modifier := do
  return .floatingOrigin (← Module.prop p)

/-- A floating origin whose offset is constant. -/
def constant (offset : Data) : Build Modifier := do
  return .floatingOrigin (← Module.lit offset)

/-! ## Making modifiers from definitions -/

/-- The three parts of an offset. -/
def threeParts (d : Data) : Except Error (Data × Data × Data) :=
  match d.elements? with
  | none => .error (.notUnpackable d.fullKind)
  | some [x, y, z] => .ok (x, y, z)
  | some xs => .error (if xs.length < 3 then .tooFew 3 xs.length else .tooMany 3)

/-- The constant offset that data stands for. -/
def offsetLiteral (d : Data) : Except Error Literal := do
  let (x, y, z) ← threeParts d
  Literal.vec3 x y z

/-- Makes a floating origin from exactly one of `property`, the name of a
property, and `offset`, three numbers. -/
def floatingOriginFactory : ModifierFactory := fun params =>
  match Data.lookup "property" params, Data.lookup "offset" params with
  | some name, none => do
    let found ← Module.reading fun m => .ok <|
      match name with
      | .str s => m.findProperty? s
      | _ => none
    match found with
    | some p => viaProperty p
    | none => throw (.about [name] (.originProperty name))
  | none, some offset => do
    let v ← Module.reading fun _ => offsetLiteral offset
    return .floatingOrigin (← Module.push (.literal v))
  | _, _ => throw .originParams

/-- The modifier types that come with the library. -/
def types : List (Text × ModifierFactory) := [("FloatingOrigin", floatingOriginFactory)]

/-- Makes the modifier of a definition. Its parameters are then shown to the log. -/
def create (types : List (Text × ModifierFactory)) (d : ModifierDef) : Build Modifier :=
  match types.lookup d.type with
  | some f => do
    let modifier ← f d.params
    let _ ← Module.reading fun _ => (Data.map d.params).log
    return modifier
  | none => throw (.modifierType d.type (types.map Prod.fst))

/-! ## Code -/

/-- The lines of a floating origin, for the texts of the stored offset and the
current one. -/
def originLines (stored offset : Text) : List Text :=
  let position := Attribute.position.shaderText
  let changed (c : Text) : Text := stored ++ "." ++ c ++ " != " ++ offset ++ "." ++ c
  ["if (any(vec3<bool>(" ++ Text.join ", " [changed "x", changed "y", changed "z"] ++ "))) \x7b",
   "    // Offset changed: shift the particle, then store the new offset",
   "    " ++ position ++ " += " ++ offset ++ " - " ++ stored ++ ";",
   "    " ++ stored ++ " = " ++ offset ++ ";",
   "\x7d"]

/-- Work with a module and the writer that renders it. -/
abbrev Apply := EStateM Error (Module × Writer)

/-- Renders an expression of the module. -/
def rendering (h : ExprHandle) : Apply Text := fun (m, w) =>
  match Writer.eval m h w with
  | .ok t w => .ok t (m, w)
  | .error e w => .error e (m, w)

/-- Adds an expression to the module. -/
def building (f : Build α) : Apply α := fun (m, w) =>
  match f m with
  | .ok a m => .ok a (m, w)
  | .error e m => .error e (m, w)

/-- Adds the code of a modifier. -/
def apply : Modifier → Apply Unit
  | .floatingOrigin h => do
    let stored ← rendering (← building (Module.attr .vector0))
    let offset ← rendering h
    modify fun (m, w) =>
      (m, { w with statements := w.statements ++ ((originLines stored offset).map .line).toArray })
  | .inert _ => pure ()

/-- Shows a modifier. -/
def inspect : Modifier → String
  | .floatingOrigin h => "FloatingOriginModifier(translation_offset=" ++ toString h.id ++ ")"
  | .inert p => "InertModifier(" ++ p.word ++ ")"

end Modifier

end EffectGraph
