import EffectGraph.Graph.Node
import EffectGraph.Keyed

/-!
# Node registries

A registry knows, for each node type a definition may use, how to make the node
from its definition.
-/

namespace EffectGraph

/-- How the nodes of a type are made. -/
abbrev NodeFactory := NodeDef → Except Error Node

/-- The node types of a definition, in the order they were registered. -/
structure Registry where
  factories : List (Text × NodeFactory) := []

namespace Registry

variable [Stack]

/-- The registered types. -/
def types (r : Registry) : List Text := r.factories.map Prod.fst

/-- Whether a type is registered. -/
def contains (r : Registry) (type : Text) : Bool := r.types.contains type

/-- Makes a type available; the last factory of a type wins. -/
def register (r : Registry) (type : Text) (f : NodeFactory) : Registry :=
  ⟨Keyed.put type f r.factories⟩

/-- Makes the node of a definition. Parameters that the factory finds invalid
are reported with the node. -/
def create (r : Registry) (d : NodeDef) : Except Error Node :=
  match r.factories.lookup d.type with
  | none => .error (.nodeType d.type r.types)
  | some f =>
    match f d with
    | .ok n => .ok n
    | .error e => .error (if e.kind = .invalid then .nodeParams d.id d.type e else e)

/-- Makes an attribute node from its `attribute` parameter. -/
def attributeNode : NodeFactory := fun d =>
  match Data.lookup "attribute" d.params with
  | some name =>
    if name.truthy then do return .attribute (← Attribute.ofName name)
    else .error (.attributeParam d.id)
  | none => .error (.attributeParam d.id)

/-- The built-in node types. -/
def builtin : Registry where
  factories :=
    [("Add", fun _ => .ok (.arithmetic .add)),
     ("Sub", fun _ => .ok (.arithmetic .sub)),
     ("Mul", fun _ => .ok (.arithmetic .mul)),
     ("Div", fun _ => .ok (.arithmetic .div)),
     ("Attribute", attributeNode),
     ("Time", fun _ => .ok .time),
     ("Normalize", fun _ => .ok .normalize)]

/-- The registered types in brackets. -/
def typesText (r : Registry) : String := (Data.list (r.types.map .str)).inspect

/-- Shows a registry. -/
def inspect (r : Registry) : String := "NodeRegistry(" ++ r.typesText ++ ")"

end Registry

end EffectGraph
