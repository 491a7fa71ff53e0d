import EffectGraph.Graph.Basic
import EffectGraph.Graph.Registry

/-!
# Building graphs from definitions

A builder makes one node for each node definition, in order, and then links the
slots that the link definitions refer to. What it has built stays when a
definition turns out to be faulty.
-/

namespace EffectGraph

/-- The dot between a node and its slot. -/
def dot : Glyph := .char '.'

/-- Splits `node.slot` at the last dot. -/
def splitAtLastDot (ref : List Glyph) : List Glyph × List Glyph :=
  let back := ref.reverse
  let slot := (back.takeWhile (· != dot)).reverse
  (ref.take (ref.length - slot.length - 1), slot)

/-- The node and the slot that a reference names; neither may be empty. -/
def slotRef (ref : Text) : Except Error (Text × Text) :=
  let (node, slot) := splitAtLastDot ref.glyphs
  if !ref.glyphs.contains dot || node.isEmpty || slot.isEmpty then .error (.slotRef ref)
  else .ok (⟨node⟩, ⟨slot⟩)

/-- A graph being built, and the nodes that the identifiers of definitions
stand for. -/
structure Builder where
  nodes : List NodeDef
  links : List LinkDef := []
  registry : Registry := Registry.builtin
  graph : Graph := {}
  nodeIds : List (Text × NodeId) := []

namespace Builder

/-- The slot that a reference names. -/
def resolve (b : Builder) (ref : Text) : Except Error SlotId := do
  let (node, slot) ← slotRef ref
  let some n := b.nodeIds.lookup node | throw (.unknownNode ref node)
  let some s ← b.graph.findSlot n slot | throw (.unknownSlot node slot)
  return s

/-- The slots of a link, which must go from an output to an input. -/
def resolveLink (b : Builder) (l : LinkDef) : Except Error (SlotId × SlotId) := do
  let o ← b.resolve l.source
  let i ← b.resolve l.target
  if !(← b.graph.slot o).isOutput then throw (.sourceDir l.source)
  if !(← b.graph.slot i).isInput then throw (.targetDir l.target)
  return (o, i)

/-- Work that looks things up and changes nothing. -/
def checking (f : Builder → Except Error α) : EStateM Error Builder α := fun b =>
  match f b with
  | .ok a => .ok a b
  | .error e => .error e b

/-- Work on the graph. -/
def onGraph (f : Rewire α) : EStateM Error Builder α := fun b =>
  match f b.graph with
  | .ok a g => .ok a { b with graph := g }
  | .error e g => .error e { b with graph := g }

/-- Adds the node of a definition, whose identifier must be new. -/
def addNode (d : NodeDef) : EStateM Error Builder Unit := do
  if ((← get).nodeIds.lookup d.id).isSome then throw (.duplicateNode d.id)
  let node ← checking (·.registry.create d)
  modify fun b =>
    let (n, graph) := b.graph.addNode node
    { b with graph := graph, nodeIds := b.nodeIds ++ [(d.id, n)] }

/-- Adds a link. -/
def addLink (l : LinkDef) : EStateM Error Builder Unit := do
  let (o, i) ← checking (·.resolveLink l)
  onGraph (Graph.link o i)

/-- Builds the graph: all nodes, then all links. -/
def build : EStateM Error Builder Unit := do
  (← get).nodes.forM addNode
  (← get).links.forM addLink

end Builder

end EffectGraph
