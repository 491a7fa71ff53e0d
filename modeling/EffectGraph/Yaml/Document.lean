import EffectGraph.Yaml.Value

/-!
# Data of a YAML text

The values of a document refer to one another; here they are put together. A
node is put together after its parts, and once only. The nodes that are held in
several places, or by themselves, become the cells of a web.
-/

namespace EffectGraph.Yaml

variable [Stack]

/-- The values of a document. -/
abbrev Values := Table Value

namespace Values

/-- The nodes that are parts of a node. -/
def partsOf (vs : Values) (n : NodeRef) : List NodeRef :=
  ((vs.get? n).map Value.parts).getD []

/-- The number of parts of all nodes. -/
def partCount (vs : Values) : Nat :=
  vs.cells.foldl (fun k v => k + ((v.map Value.parts).getD []).length) 0

/-! ## An order in which parts come first -/

/-- A step of a walk: go to a node, or leave it. -/
inductive Step where
  | visit (n : NodeRef)
  | leave (n : NodeRef)

/-- The nodes that a walk leaves, the last one first. A node is visited once;
`fuel` bounds the steps. -/
def walk (vs : Values) : Nat → List Step → Table Unit → List NodeRef → List NodeRef
  | 0, _, _, left => left
  | _, [], _, left => left
  | fuel + 1, .leave n :: steps, seen, left => walk vs fuel steps seen (n :: left)
  | fuel + 1, .visit n :: steps, seen, left =>
    if seen.contains n then walk vs fuel steps seen left
    else
      walk vs fuel ((vs.partsOf n).map .visit ++ .leave n :: steps) (seen.insert n ()) left

/-- The nodes that are reached from some, each after its parts unless they hold
it. -/
def reached (vs : Values) (roots : List NodeRef) : List NodeRef :=
  (walk vs (2 * (vs.partCount + vs.cells.size + roots.length) + 1) (roots.map .visit) {}
    []).reverse

/-- Whether every part of a node comes before it in an order. -/
def isTree (vs : Values) : List NodeRef → Table Unit → Bool
  | [], _ => true
  | n :: ns, before =>
    (vs.partsOf n).all before.contains && isTree vs ns (before.insert n ())

/-- The nodes that hold themselves, among those of an order. -/
def loops (vs : Values) (order : List NodeRef) : List NodeRef :=
  if vs.isTree order {} then []
  else order.filter fun n => (vs.reached (vs.partsOf n)).contains n

/-- How often each node is a part of others in an order. -/
def uses (vs : Values) (order : List NodeRef) : Table Nat :=
  order.foldl (fun t n =>
    (vs.partsOf n).foldl (fun t m => t.insert m ((t.get? m).getD 0 + 1)) t) {}

/-- The nodes of an order that become cells: those that hold something and are
held twice, or by themselves. -/
def knots (vs : Values) (order : List NodeRef) : List NodeRef :=
  let uses := vs.uses order
  let loops := vs.loops order
  order.filter fun n =>
    !(vs.partsOf n).isEmpty && (1 < (uses.get? n).getD 0 || loops.contains n)

/-! ## Putting data together -/

/-- The data of a value, from that of its parts. -/
def dataOf (part : NodeRef → Data) : Value → Data
  | .plain d => d
  | .opened => .null
  | .list items => .list (items.map part)
  | .pairs items => .list (items.map fun (k, v) => .tuple [part k, part v])
  | .map entries => .map (entries.map fun (k, v) => (k, part v))
  | .set items => .set items

/-- The data found for a node. -/
def found (ds : Table Data) (n : NodeRef) : Data := (ds.get? n).getD .null

/-- The data of a node, from that of the nodes before it. -/
def build (vs : Values) (ds : Table Data) (n : NodeRef) : Data :=
  ((vs.get? n).map (dataOf (found ds))).getD .null

/-- The data of all nodes of an order; knots are cells. -/
def assemble (vs : Values) (knots : Table Nat) (order : List NodeRef) : Table Data :=
  order.foldl (fun ds n =>
    ds.insert n (match knots.get? n with
      | some i => .cell i
      | none => vs.build ds n)) {}

/-- The pairs that a node holds as a list. -/
def pairsOf (vs : Values) (n : NodeRef) : List (NodeRef × NodeRef) :=
  match vs.get? n with
  | some (.pairs items) => items
  | _ => []

/-- The bodies of knots. A pair in a knot is a cell as well; those cells come
after the knots and are numbered from `next` on. -/
def bodies (vs : Values) (ds : Table Data) (next : Nat) : List NodeRef → List Data × List Data
  | [] => ([], [])
  | n :: ns =>
    let pairs := vs.pairsOf n
    let (knots, others) := vs.bodies ds (next + pairs.length) ns
    if pairs.isEmpty then (vs.build ds n :: knots, others)
    else
      (.list ((List.range pairs.length).map fun i => .cell (next + i)) :: knots,
       pairs.map (fun (k, v) => .tuple [found ds k, found ds v]) ++ others)

/-- The data of a node and of all that it holds. -/
def toData (vs : Values) (file : Nat) (root : NodeRef) : Data :=
  let order := vs.reached [root]
  let knots := vs.knots order
  let numbers := (knots.foldl (fun (t, i) n => (t.insert n i, i + 1)) (({} : Table Nat), 0)).1
  let ds := vs.assemble numbers order
  let (first, others) := vs.bodies ds knots.length knots
  (found ds root).close file (first ++ others)

end Values

/-- The data of a file, which is known by a number; an empty file has none. -/
def load (file : Nat) (bytes : ByteArray) : Except Fault Data := do
  match ← (Stream.ofBytes bytes).tokens.nodes? with
  | some (n, ns) => do return Values.toData (← values file ns n) file n
  | none => return .null

end EffectGraph.Yaml
