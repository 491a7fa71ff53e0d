import EffectGraph.Graph.Builder
import EffectGraph.Graph.Evaluator
import EffectGraph.Modifier
import EffectGraph.Sharing

/-!
# Compiled effects

Compiling a definition declares its properties, builds its graph, evaluates the
nodes its outputs need, and writes shader code: shared expressions first, each
in a local variable, then a variable for every output, then the code of the
modifiers. One writer does all of it, so nothing is rendered twice.
-/

namespace EffectGraph

/-- A compiled definition. -/
structure Effect where
  name : String
  module : Module
  graph : Graph
  outputs : List (Text × ExprHandle)
  attributes : List Attribute
  code : Text
  rendered : Nat

/-- What a compilation may use: node types, modifier types, and whether shared
expressions go into variables of their own. -/
structure Compiler [Stack] where
  registry : Registry := Registry.builtin
  modifiers : List (Text × ModifierFactory) := Modifier.types
  hoist : Bool := true

namespace Compiler

variable [Stack]

/-- The answer and the last state of work that succeeds. -/
def run (work : EStateM Error σ α) (s : σ) : Except Error (α × σ) :=
  match work s with
  | .ok a s => .ok (a, s)
  | .error e _ => .error e

/-! ## Stages -/

/-- A module with the properties of a definition. -/
def declare (d : Definition) : Except Error Module := do
  let work := d.properties.forM fun (name, v) => do
    let _ ← Module.declareProperty name v
  return (← run work {}).2

/-- The builder after it has built the graph of a definition. -/
def construct (c : Compiler) (d : Definition) : Except Error Builder := do
  return (← run Builder.build { nodes := d.nodes, links := d.links, registry := c.registry }).2

/-- The output slot that an output of a definition refers to. -/
def target (b : Builder) (name ref : Text) : Except Error (Text × SlotId) := do
  let s ← b.resolve ref
  if (← b.graph.slot s).isOutput then return (name, s) else throw (.outputDir name ref)

/-- The output slots of a definition. -/
def targets (b : Builder) (d : Definition) : Except Error (List (Text × SlotId)) :=
  d.outputs.mapM fun (name, ref) => target b name ref

/-- The expressions of the outputs, the values they were found in, the module
with them, and the number of nodes evaluated. -/
def evaluate (g : Graph) (ts : List (Text × SlotId)) (m : Module) :
    Except Error (Nat × Evaluator × Module) :=
  run (Evaluator.evaluate g (some (ts.map Prod.snd))) ({}, m)

/-- The expression of each output. -/
def outputHandles (e : Evaluator) (ts : List (Text × SlotId)) :
    Except Error (List (Text × ExprHandle)) :=
  ts.mapM fun (name, s) =>
    match e.values.lookup s with
    | some h => .ok (name, h)
    | none => .error (.noValue s)

/-- Puts each shared expression into a variable of its own. -/
def hoistShared (m : Module) (roots : List ExprHandle) : Write Unit := fun w =>
  match m.shared roots with
  | .error e => .error e w
  | .ok hs => (hs.forM fun h => do let _ ← Writer.evalToLocal m h none) w

/-- Puts an output into the variable named after it. Where its expression has a
variable already, the new one stands for that. -/
def bindOutput (m : Module) (name : Text) (h : ExprHandle) : Write Unit := do
  let var ← Writer.evalToLocal m h (some name)
  if var ≠ name then Writer.pushStatement (.binding name var)

/-- Writes the code of the outputs. The names of all outputs are reserved
before any variable gets its name. -/
def writeOutputs (c : Compiler) (m : Module) (outputs : List (Text × ExprHandle)) :
    Write Unit := do
  outputs.forM fun (name, _) => Writer.reserve name
  if c.hoist then hoistShared m (outputs.map Prod.snd)
  outputs.forM fun (name, h) => bindOutput m name h

/-- Makes a modifier and adds its code; only modifiers of the update pass can
be used. -/
def applyModifier (c : Compiler) (d : ModifierDef) : Modifier.Apply (List Attribute) := do
  let modifier ← Modifier.building (Modifier.create c.modifiers d)
  if modifier.pass ≠ .update then throw (.modifierPass d.type modifier.pass.word)
  modifier.apply
  return modifier.attributes

/-- Adds the code of all modifiers; returns the attributes they touch. -/
def applyModifiers (c : Compiler) (ds : List ModifierDef) : Modifier.Apply (List Attribute) := do
  return (← ds.mapM (applyModifier c)).flatten

/-- The attributes that the expressions of a module read. -/
def attributesRead (m : Module) : List Attribute :=
  m.exprs.toList.filterMap fun
    | .attribute a => some a
    | _ => none

/-- The attributes an effect uses, each once. -/
def attributes (m : Module) (touched : List Attribute) : List Attribute :=
  (attributesRead m ++ touched).eraseDups

/-- The code of an evaluated graph, with its modifiers. -/
def finish (c : Compiler) (d : Definition) (g : Graph) (m : Module)
    (outputs : List (Text × ExprHandle)) : Except Error Effect := do
  let (_, w) ← run (c.writeOutputs m outputs) {}
  let (touched, m, w) ← run (c.applyModifiers d.modifiers) (m, w)
  return {
    name := d.name
    module := m
    graph := g
    outputs := outputs
    attributes := attributes m touched
    code := w.code
    rendered := w.rendering.count }

/-- Compiles a definition. -/
def compile (c : Compiler) (d : Definition) : Except Error Effect := do
  let m ← declare d
  let b ← c.construct d
  let ts ← targets b d
  let (_, e, m) ← evaluate b.graph ts m
  let outputs ← outputHandles e ts
  c.finish d b.graph m outputs

end Compiler

end EffectGraph
