import EffectGraph.Data.Scatter
import EffectGraph.Table
import EffectGraph.Yaml.Merge
import EffectGraph.Yaml.Scalar

/-!
# Values of YAML nodes

Every node gets its value once, however often it is referred to. A scalar gets
it at once; a collection is noted, and gets its parts when all collections that
were met before it have theirs. So faults are found level by level.
-/

namespace EffectGraph.Yaml

variable [Stack]

/-- The value of a node; the parts of a collection are nodes, but the keys of a
mapping are data. -/
inductive Value where
  | plain (data : Data)
  | opened
  | list (items : List NodeRef)
  | pairs (items : List (NodeRef × NodeRef))
  | map (entries : List (Data × NodeRef))
  | set (items : List Data)

/-- The nodes that are parts of a value. -/
def Value.parts : Value → List NodeRef
  | .list items => items
  | .pairs items => items.flatMap fun (k, v) => [k, v]
  | .map entries => entries.map Prod.snd
  | _ => []

/-- Values in the making: the file and its nodes, the values so far, and the
collections in the order they were met, of which so many have their parts. -/
structure Making where
  file : Nat
  nodes : Nodes
  values : Table Value := {}
  met : Array NodeRef := #[]
  done : Nat := 0

/-- Work on the values. -/
abbrev Make := StateT Making (Except Fault)

namespace Make

/-- The text of a node that is taken for a scalar: a mapping stands for the
value of its key `=`, so many mappings deep. -/
def textOf (ns : Nodes) : Nat → NodeRef → Except Fault Text
  | 0, _ => .error (.failed .tooDeep)
  | fuel + 1, n =>
    match (ns.at n).content with
    | .scalar t => .ok t
    | .sequence _ => .error .malformed
    | .mapping es =>
      match es.find? fun (k, _) => (ns.at k).tag == .value with
      | some (_, v) => textOf ns fuel v
      | none => .error .malformed

/-- The node with a number. -/
def node (n : NodeRef) : Make Node := do return (← get).nodes.at n

/-- The data of a node whose type is one of scalars. The text of a time stamp
must be its own. -/
def scalar (n : NodeRef) (tag : Tag) : Make Data := do
  let s ← get
  let t ← textOf s.nodes Stack.chained n
  match tag, (s.nodes.at n).content with
  | .timestamp, .mapping _ => throw (.failed (.timeKind "list"))
  | _, _ => scalarData (.place s.file n) tag t

/-- Gives a node its value. -/
def setValue (n : NodeRef) (v : Value) : Make Unit :=
  modify fun s => { s with values := s.values.insert n v }

/-- Values a node, unless it has its value; a collection is noted for later. -/
def value (n : NodeRef) : Make Unit := do
  if (← get).values.contains n then return
  match (← node n).tag with
  | .seq | .map | .set | .omap | .pairs => do
    setValue n .opened
    modify fun s => { s with met := s.met.push n }
  | .merge | .value | .other => throw .malformed
  | tag => do setValue n (.plain (← scalar n tag))

/-- The data of a key, which must not be a collection. -/
def key (n : NodeRef) : Make Data := do
  value n
  match (← get).values.get? n with
  | some (.plain d) => return d
  | _ => throw .malformed

/-- The entries of a node, which must be a mapping. -/
def settings (n : NodeRef) : Make (List (Data × NodeRef)) := do
  match (← node n).content with
  | .mapping _ => do
    let s ← get
    let (_, nodes) ← (Edit.flatten Stack.chained n).run s.nodes
    set { s with nodes := nodes }
    (← node n).entries.mapM fun (k, v) => do
      let d ← key k
      value v
      return (d, v)
  | _ => throw .malformed

/-- The items of a node, which must be a sequence. -/
def items (n : NodeRef) : Make (List NodeRef) := do
  match (← node n).content with
  | .sequence items => return items
  | _ => throw .malformed

/-- The one entry of a node, which must be a mapping of one. -/
def pair (n : NodeRef) : Make (NodeRef × NodeRef) := do
  match (← node n).entries with
  | [(k, v)] => do
    value k
    value v
    return (k, v)
  | _ => throw .malformed

/-- Gives a collection its parts. -/
def fill (n : NodeRef) : Make Unit := do
  match (← node n).tag with
  | .map => do setValue n (.map (Data.ofSettings (← settings n)))
  | .set => do
    let entries := Data.ofSettings (← settings n)
    setValue n (.set (Data.setOrder (entries.map Prod.fst)))
  | .omap | .pairs => do setValue n (.pairs (← (← items n).mapM pair))
  | _ => do
    let parts ← items n
    parts.forM value
    setValue n (.list parts)

/-- Gives the collections that were met their parts, so many at most. -/
def fillAll : Nat → Make Unit
  | 0 => pure ()
  | more + 1 => do
    let s ← get
    match s.met[s.done]? with
    | none => pure ()
    | some n => do
      set { s with done := s.done + 1 }
      fill n
      fillAll more

end Make

/-- The values of a node and of all that it holds. -/
def values (file : Nat) (ns : Nodes) (n : NodeRef) : Except Fault (Table Value) := do
  let work := do
    Make.value n
    Make.fillAll ns.size
  let (_, s) ← work.run { file := file, nodes := ns }
  return s.values

end EffectGraph.Yaml
