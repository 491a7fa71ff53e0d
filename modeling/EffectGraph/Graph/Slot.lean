import EffectGraph.Error

/-!
# Slots

A node declares typed slots; in a graph each of them becomes a slot with an
identifier of its own. An output slot lists the input slots it feeds, an input
slot the one output slot it reads.
-/

namespace EffectGraph

/-- A slot as its node declares it. A slot without a type takes any. -/
structure SlotDecl where
  name : Text
  dir : SlotDir
  type : Option ValueType := none
  deriving DecidableEq, Repr

/-- An input slot. -/
def SlotDecl.input (name : Text) (type : Option ValueType := none) : SlotDecl :=
  ⟨name, .input, type⟩

/-- An output slot. -/
def SlotDecl.output (name : Text) (type : Option ValueType := none) : SlotDecl :=
  ⟨name, .output, type⟩

/-- A slot of a node in a graph, and the slots at the other ends of its
links. -/
structure Slot where
  node : NodeId
  id : SlotId
  decl : SlotDecl
  linked : List SlotId := []
  deriving DecidableEq, Repr

namespace Slot

/-- The name of a slot. -/
def name (s : Slot) : Text := s.decl.name

/-- The direction of a slot. -/
def dir (s : Slot) : SlotDir := s.decl.dir

/-- Whether a slot is an input slot. -/
def isInput (s : Slot) : Bool := s.dir == .input

/-- Whether a slot is an output slot. -/
def isOutput (s : Slot) : Bool := s.dir == .output

/-! ## Links

What a slot did before it fails stays. -/

/-- Refuses a slot of the other direction. -/
def expectDir (dir : SlotDir) : EStateM Error Slot Unit := do
  let s ← get
  if s.dir ≠ dir then throw (.slotDir s.id s.name s.dir dir)

/-- Adds an input slot that an output slot feeds; a second time changes nothing. -/
def linkTo (input : SlotId) : EStateM Error Slot Unit := do
  expectDir .output
  modify fun s => if input ∈ s.linked then s else { s with linked := s.linked ++ [input] }

/-- Drops an input slot that an output slot feeds; says whether it did. -/
def unlinkFrom (input : SlotId) : EStateM Error Slot Bool := do
  expectDir .output
  if input ∈ (← get).linked then
    modify fun s => { s with linked := s.linked.erase input }
    return true
  else return false

/-- Makes an output slot the one that an input slot reads. -/
def linkInput (output : SlotId) : EStateM Error Slot Unit := do
  expectDir .input
  modify fun s => { s with linked := [output] }

/-- Leaves an input slot reading nothing. -/
def unlinkInput : EStateM Error Slot Unit := do
  expectDir .input
  modify fun s => { s with linked := [] }

/-- Drops all links of a slot and returns them. -/
def takeLinks : EStateM Error Slot (List SlotId) := do
  let s ← get
  set { s with linked := [] }
  return s.linked

/-! ## Text -/

/-- Identifiers in brackets. -/
def idsText (ids : List SlotId) : String :=
  "[" ++ Data.commas (ids.map fun s => toString s.id) ++ "]"

/-- Shows a slot with its links. -/
def inspect (s : Slot) : String :=
  "Slot(node_id=" ++ toString s.node.id ++ ", id=" ++ toString s.id.id ++ ", name="
    ++ s.name.quoted ++ ", dir=" ++ s.dir.word ++ ", linked=" ++ idsText s.linked ++ ")"

end Slot

end EffectGraph
