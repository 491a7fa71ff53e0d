import EffectGraph.Yaml.Node

/-!
# Mappings that take over entries

A mapping takes over the entries of other mappings under the key `<<`: they
come before its own entries, so its own values win. Of several mappings the
first wins. Taking over changes the nodes: afterwards the key is gone, and a
key `=` is an ordinary text.
-/

namespace EffectGraph.Yaml

/-- Work that changes the nodes of a document. -/
abbrev Edit := StateT Nodes (Except Fault)

/-- The entries of a mapping. -/
def Node.entries (n : Node) : List (NodeRef × NodeRef) :=
  match n.content with
  | .mapping es => es
  | _ => []

namespace Edit

/-- The node with a number. -/
def node (n : NodeRef) : Edit Node := do return Nodes.at (← get) n

/-- Replaces a node. -/
def setNode (n : NodeRef) (node : Node) : Edit Unit := modify fun ns => ns.setIfInBounds n node

/-- Replaces the entries of a mapping. -/
def setEntries (n : NodeRef) (es : List (NodeRef × NodeRef)) : Edit Unit := do
  setNode n { ← node n with content := .mapping es }

/-- The entries of a node, which must be a mapping, once it has taken over
those of others. -/
def settled (flatten : NodeRef → Edit Unit) (n : NodeRef) : Edit (List (NodeRef × NodeRef)) := do
  match (← node n).content with
  | .mapping _ => do
    flatten n
    return (← node n).entries
  | _ => throw .malformed

/-- The entries that the value of a merge key gives: those of a mapping, or of
several, the last one first. -/
def taken (flatten : NodeRef → Edit Unit) (n : NodeRef) : Edit (List (NodeRef × NodeRef)) := do
  match (← node n).content with
  | .sequence items => do return (← items.mapM (settled flatten)).reverse.flatten
  | _ => settled flatten n

/-- Goes through the entries of a mapping from a place on, takes the merge keys
out, and collects what they give. -/
def takeOver (flatten : NodeRef → Edit Unit) (n : NodeRef) :
    Nat → Nat → List (NodeRef × NodeRef) → Edit (List (NodeRef × NodeRef))
  | 0, _, found => return found
  | steps + 1, i, found => do
    match (← node n).entries[i]? with
    | none => return found
    | some (k, v) =>
      let key ← node k
      match key.tag with
      | .merge => do
        setEntries n ((← node n).entries.eraseIdx i)
        takeOver flatten n steps i (found ++ (← taken flatten v))
      | .value => do
        setNode k { key with tag := .str }
        takeOver flatten n steps (i + 1) found
      | _ => takeOver flatten n steps (i + 1) found

/-- Lets a mapping take over the entries of others, so many mappings deep. -/
def flatten : Nat → NodeRef → Edit Unit
  | 0, _ => throw (.failed .tooDeep)
  | depth + 1, n => do
    let found ← takeOver (flatten depth) n (← node n).entries.length 0 []
    if !found.isEmpty then setEntries n (found ++ (← node n).entries)

end Edit

end EffectGraph.Yaml
