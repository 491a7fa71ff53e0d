import EffectGraph.Data.Basic

/-!
# Definitions of effect graphs

An effect graph as its author writes it: nodes by type, links and outputs by
`node.slot` references, properties with their defaults, and modifiers. Authors
may call them by any text.
-/

namespace EffectGraph

/-- Named parameters of a node or a modifier, in the order they were given. -/
abbrev Params := List (Data × Data)

/-- A node: its identifier in the file, its type, and its parameters. -/
structure NodeDef where
  id : Text
  type : Text
  params : Params := []

/-- A link between two `node.slot` references. -/
structure LinkDef where
  source : Text
  target : Text
  deriving DecidableEq, Repr

/-- A modifier: its type and its parameters. -/
structure ModifierDef where
  type : Text
  params : Params := []

/-- A whole effect graph. Properties and outputs are named; their order is
that of declaration. -/
structure Definition where
  name : String
  nodes : List NodeDef := []
  links : List LinkDef := []
  properties : List (Text × Literal) := []
  outputs : List (Text × Text) := []
  modifiers : List ModifierDef := []

end EffectGraph
