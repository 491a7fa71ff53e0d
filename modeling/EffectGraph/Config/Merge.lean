import EffectGraph.Config.Schema
import EffectGraph.Graph.Builder

/-!
# Merging graph files

A graph may be spread over several files. Nodes defined alike and links given
twice are kept once; nodes defined differently and names of properties and
outputs given twice are errors.
-/

namespace EffectGraph.Config

variable [Stack]

/-- Whether two nodes are defined alike, if that can be found out. -/
def sameNode? (a b : NodeDef) : Option Bool :=
  if a.id = b.id ∧ a.type = b.type then Data.same? (.map a.params) (.map b.params) else some false

/-- The literal of a property. Values that do not fit are reported with the
property. -/
def PropertyConfig.literal (p : PropertyConfig) : Except Error Literal :=
  match Literal.ofValue (p.type.map fun t => .str t) p.value with
  | .ok v => .ok v
  | .error e =>
    .error (if e.kind = .invalid ∨ e.kind = .mistyped then .propertyValue p.name e else e)

/-- Adds a node, unless it is there already. -/
def addNode (d : Definition) (n : NodeDef) : Except Error Definition :=
  match d.nodes.find? (·.id == n.id) with
  | none => .ok { d with nodes := d.nodes ++ [n] }
  | some first =>
    match sameNode? first n with
    | some true => .ok d
    | some false => .error (.about [.map first.params, .map n.params] (.conflict first n))
    | none => .error .endlessComparison

/-- Adds a link, unless it is there already. -/
def addLink (d : Definition) (l : LinkDef) : Definition :=
  if l ∈ d.links then d else { d with links := d.links ++ [l] }

/-- Adds a property, whose name must be new. -/
def addProperty (d : Definition) (p : PropertyConfig) : Except Error Definition := do
  if (d.properties.lookup p.name).isSome then throw (.duplicateProperty p.name)
  return { d with properties := d.properties ++ [(p.name, ← p.literal)] }

/-- Adds an output, whose name must be new and whose slot must be a
reference. -/
def addOutput (d : Definition) (o : OutputConfig) : Except Error Definition := do
  if (d.outputs.lookup o.name).isSome then throw (.duplicateOutput o.name)
  let _ ← slotRef o.slot
  return { d with outputs := d.outputs ++ [(o.name, o.slot)] }

/-- Adds all that a file holds. -/
def addConfig (d : Definition) (c : GraphConfig) : Except Error Definition := do
  let d ← c.nodes.foldlM addNode d
  let d := c.links.foldl addLink d
  let d ← c.properties.foldlM addProperty d
  let d ← c.outputs.foldlM addOutput d
  return { d with modifiers := d.modifiers ++ c.modifiers }

/-- Merges files into one definition. -/
def merge (name : String) (configs : List GraphConfig) : Except Error Definition :=
  configs.foldlM addConfig { name := name }

end EffectGraph.Config
