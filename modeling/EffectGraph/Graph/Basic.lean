import EffectGraph.Graph.Node

/-!
# Effect graphs

A graph owns its nodes and their slots in two lists that only grow, and keeps
both ends of every link in step: an output slot may feed many input slots, an
input slot reads at most one output slot, and a new link replaces the one
before. Cycles are allowed here; those who evaluate a graph look for them.
-/

namespace EffectGraph

/-- Nodes connected through their slots. -/
structure Graph where
  nodes : Array Node := #[]
  slots : Array Slot := #[]

/-- Work that changes a graph and may fail; what was changed before a failure
stays. -/
abbrev Rewire := EStateM Error Graph

namespace Graph

/-! ## Looking things up -/

/-- The identifiers of all nodes, in order. -/
def nodeIds (g : Graph) : List NodeId := (List.range g.nodes.size).map (⟨·⟩)

/-- The node with an identifier. -/
def node (g : Graph) (n : NodeId) : Except Error Node :=
  if h : n.index < g.nodes.size then .ok g.nodes[n.index] else .error (.invalidNode n)

/-- The slot with an identifier. -/
def slot (g : Graph) (s : SlotId) : Except Error Slot :=
  if h : s.index < g.slots.size then .ok g.slots[s.index] else .error (.invalidSlot s)

/-- The slots of a node that pass a test, in order of declaration. -/
def slotsWhere (g : Graph) (n : NodeId) (p : Slot → Bool) : List SlotId :=
  (g.slots.toList.filter fun s => s.node == n && p s).map Slot.id

/-- All slots of a node. -/
def slotsOf (g : Graph) (n : NodeId) : Except Error (List SlotId) := do
  let _ ← g.node n
  return g.slotsWhere n fun _ => true

/-- The input slots of a node. -/
def inputSlots (g : Graph) (n : NodeId) : Except Error (List SlotId) := do
  let _ ← g.node n
  return g.slotsWhere n Slot.isInput

/-- The output slots of a node. -/
def outputSlots (g : Graph) (n : NodeId) : Except Error (List SlotId) := do
  let _ ← g.node n
  return g.slotsWhere n Slot.isOutput

/-- The first slot of the graph with a name. -/
def slotNamed? (g : Graph) (name : Text) : Option SlotId :=
  (g.slots.toList.find? (·.name == name)).map Slot.id

/-- The first slot of a node with a name. -/
def findSlot (g : Graph) (n : NodeId) (name : Text) : Except Error (Option SlotId) := do
  let _ ← g.node n
  return (g.slots.toList.find? fun s => s.node == n && s.name == name).map Slot.id

/-- The slots at the other ends of the links of a slot. -/
def linkedSlots (g : Graph) (s : SlotId) : Except Error (List SlotId) := do
  return (← g.slot s).linked

/-- The output slot that an input slot reads. -/
def sourceSlot (g : Graph) (i : SlotId) : Except Error (Option SlotId) := do
  let s ← g.slot i
  if s.isInput then return s.linked.head? else throw (.notInput i s.name)

/-! ## Changing a graph -/

/-- Slots for a list of declarations, numbered from `first` on. -/
def freshSlots (n : NodeId) (first : Nat) : List SlotDecl → List Slot
  | [] => []
  | d :: ds => { node := n, id := ⟨first⟩, decl := d } :: freshSlots n (first + 1) ds

/-- Adds a node with the slots it declares. -/
def addNode (g : Graph) (node : Node) : NodeId × Graph :=
  let n : NodeId := ⟨g.nodes.size⟩
  (n, { nodes := g.nodes.push node
        slots := g.slots ++ (freshSlots n g.slots.size node.slots).toArray })

/-- Replaces a slot. -/
def setSlot (g : Graph) (s : SlotId) (slot : Slot) : Graph :=
  { g with slots := g.slots.setIfInBounds s.index slot }

/-- Work that only looks at the graph. -/
def reading (f : Graph → Except Error α) : Rewire α := fun g =>
  match f g with
  | .ok a => .ok a g
  | .error e => .error e g

/-- Work on one slot. -/
def onSlot (s : SlotId) (f : EStateM Error Slot α) : Rewire α := fun g =>
  match g.slot s with
  | .error e => .error e g
  | .ok slot =>
    match f slot with
    | .ok a slot => .ok a (g.setSlot s slot)
    | .error e slot => .error e (g.setSlot s slot)

/-- Links an output slot to an input slot, replacing the link that the input
slot had. -/
def link (o i : SlotId) : Rewire Unit := do
  let source ← reading (·.slot o)
  let target ← reading (·.slot i)
  if !source.isOutput || !target.isInput then
    throw (.linkDirs o source.dir i target.dir)
  match target.linked.head? with
  | some previous =>
    if previous ≠ o then
      let _ ← onSlot previous (Slot.unlinkFrom i)
  | none => pure ()
  onSlot o (Slot.linkTo i)
  onSlot i (Slot.linkInput o)

/-- Removes the link from an output slot to an input slot; says whether there
was one. -/
def unlink (o i : SlotId) : Rewire Bool := do
  let _ ← reading (·.slot o)
  let target ← reading (·.slot i)
  if !target.isInput then throw (.notInput i target.name)
  if ← onSlot o (Slot.unlinkFrom i) then
    onSlot i Slot.unlinkInput
    return true
  else return false

/-- Takes the link to slot `s` off a slot at its other end. -/
def dropRemote (s remote : SlotId) : Rewire Unit := do
  if (← reading (·.slot remote)).isInput then onSlot remote Slot.unlinkInput
  else
    let _ ← onSlot remote (Slot.unlinkFrom s)

/-- Removes all links of a slot, at both ends. -/
def unlinkAll (s : SlotId) : Rewire Unit := do
  (← onSlot s Slot.takeLinks).forM (dropRemote s)

/-- Makes a node that reads an attribute read another one. The slots that the graph
created for the node stay as they are. -/
def setAttribute (n : NodeId) (a : Attribute) : Rewire Unit := do
  let _ ← reading (·.node n)
  modify fun g => { g with nodes := g.nodes.setIfInBounds n.index (.attribute a) }

/-- Shows a graph with its slots. -/
def inspect (g : Graph) : String :=
  "Graph(nodes=" ++ toString g.nodes.size ++ ", slots=["
    ++ Data.commas (g.slots.toList.map Slot.inspect) ++ "])"

end Graph

end EffectGraph
