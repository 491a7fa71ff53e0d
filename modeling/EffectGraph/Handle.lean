/-!
# Handles and identifiers

Expressions and properties of a module, nodes and slots of a graph are all
named by their place, counted from one. Inside the library the place counts
from zero (`index`); `id` is what users see.
-/

namespace EffectGraph

/-- An expression of a module. -/
structure ExprHandle where
  index : Nat
  deriving DecidableEq, Repr

/-- A property of a module. -/
structure PropertyHandle where
  index : Nat
  deriving DecidableEq, Repr

/-- A node of a graph. -/
structure NodeId where
  index : Nat
  deriving DecidableEq, Repr

/-- A slot of a graph. -/
structure SlotId where
  index : Nat
  deriving DecidableEq, Repr

/-- The handle counted from one. -/
def ExprHandle.id (h : ExprHandle) : Nat := h.index + 1

/-- The handle counted from one. -/
def PropertyHandle.id (p : PropertyHandle) : Nat := p.index + 1

/-- The identifier counted from one. -/
def NodeId.id (n : NodeId) : Nat := n.index + 1

/-- The identifier counted from one. -/
def SlotId.id (s : SlotId) : Nat := s.index + 1

/-- What an identifier is for. -/
inductive IdKind where
  | expression
  | property
  | node
  | slot
  deriving DecidableEq, Repr

/-- The words for an identifier. -/
def IdKind.words : IdKind → String
  | .expression => "Expression handle"
  | .property => "Property handle"
  | .node => "Node"
  | .slot => "Slot"

/-- The direction of a slot, as its node sees it. -/
inductive SlotDir where
  | input
  | output
  deriving DecidableEq, Repr

/-- The word for a direction. -/
def SlotDir.word : SlotDir → String
  | .input => "input"
  | .output => "output"

end EffectGraph
