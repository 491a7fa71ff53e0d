import EffectGraph.Graph.Basic

/-!
# Evaluation order

A node needs the nodes whose output slots its input slots read. `findCycle`
walks these needs depth first and names the first cycle it closes; `sorted`
puts every node after the nodes it needs, taking nodes with nothing left to
wait for in the order they became free.
-/

namespace EffectGraph

/-- Which nodes each node needs, and which nodes need it, by place. -/
structure Needs where
  needs : Array (List NodeId) := #[]
  feeds : Array (List NodeId) := #[]

/-- Taking a member out makes a list shorter. -/
theorem length_erase_lt {n : NodeId} {fresh : List NodeId} (h : n ∈ fresh) :
    (fresh.erase n).length < fresh.length := by
  have := List.length_pos_of_mem h
  rw [List.length_erase_of_mem h]
  omega

namespace Graph

/-- The node that an input slot reads from. -/
def sourceNode (g : Graph) (i : SlotId) : Except Error (Option NodeId) := do
  match ← g.sourceSlot i with
  | none => return none
  | some s => return some (← g.slot s).node

/-- The nodes that a node needs, each once, in the order of its input slots. -/
def needsOf (g : Graph) (n : NodeId) : Except Error (List NodeId) := do
  let sources ← (← g.inputSlots n).mapM g.sourceNode
  return (sources.filterMap id).eraseDups

/-- Adds a node to those that need each of the given nodes. -/
def feedAll (feeds : Array (List NodeId)) (n : NodeId) (deps : List NodeId) : Array (List NodeId) :=
  deps.foldl (fun feeds d => feeds.modify d.index (· ++ [n])) feeds

/-- What every node of a graph needs. -/
def allNeeds (g : Graph) : Except Error Needs := do
  let needs ← g.nodeIds.mapM g.needsOf
  let none : Array (List NodeId) := Array.replicate g.nodes.size []
  let feeds := (g.nodeIds.zip needs).foldl (fun feeds (n, deps) => feedAll feeds n deps) none
  return ⟨needs.toArray, feeds⟩

end Graph

namespace Needs

/-- The nodes that a node needs. -/
def of (d : Needs) (n : NodeId) : List NodeId := d.needs.getD n.index []

/-- The nodes that need a node. -/
def usersOf (d : Needs) (n : NodeId) : List NodeId := d.feeds.getD n.index []

/-- Every node. -/
def nodes (d : Needs) : List NodeId := (List.range d.needs.size).map (⟨·⟩)

/-! ## Cycles -/

/-- A node on the current path, and those of its needs still to look at. -/
structure Frame where
  node : NodeId
  pending : List NodeId

/-- A bound on the steps that a path takes without meeting a new node. -/
def Frame.total : List Frame → Nat
  | [] => 0
  | f :: rest => f.pending.length + 1 + Frame.total rest

/-- The part of a path from a node on, closed to a cycle. The path runs from
its last node to its first. -/
def closeCycle (path : List NodeId) (n : NodeId) : List NodeId :=
  n :: (path.takeWhile (· != n)).reverse ++ [n]

/-- Follows a path depth first. The nodes not met before are in `fresh`; the
answer is the first cycle, or what is still fresh in the end. -/
def follow (d : Needs) (fresh : List NodeId) (stack : List Frame) :
    Except (List NodeId) (List NodeId) :=
  match stack with
  | [] => .ok fresh
  | ⟨_, []⟩ :: rest => follow d fresh rest
  | ⟨n, m :: ms⟩ :: rest =>
    if m ∈ n :: rest.map Frame.node then .error (closeCycle (n :: rest.map Frame.node) m)
    else if h : m ∈ fresh then
      have := length_erase_lt h
      follow d (fresh.erase m) (⟨m, d.of m⟩ :: ⟨n, ms⟩ :: rest)
    else follow d fresh (⟨n, ms⟩ :: rest)
termination_by (fresh.length, Frame.total stack)
decreasing_by
  · simp [Frame.total, Prod.lex_def]
  · exact Prod.Lex.left _ _ this
  · simp [Frame.total, Prod.lex_def]

/-- Follows the paths from all starting nodes not met before. -/
def followAll (d : Needs) (fresh : List NodeId) : List NodeId → Except (List NodeId) Unit
  | [] => .ok ()
  | n :: ns =>
    if n ∈ fresh then
      match d.follow (fresh.erase n) [⟨n, d.of n⟩] with
      | .ok fresh => followAll d fresh ns
      | .error cycle => .error cycle
    else followAll d fresh ns

/-- Fails with the first cycle, if there is one. -/
def findCycle (d : Needs) : Except Error Unit :=
  (d.followAll d.nodes d.nodes).mapError .cycle

/-! ## Sorting -/

/-- A sort in progress: for each node the number of needs it still waits for,
the nodes that wait for nothing, and the nodes sorted so far. -/
structure Sorting where
  waiting : Array Nat
  queue : List NodeId
  order : List NodeId := []

/-- Tells a node that one of its needs has been sorted. -/
def release (s : Sorting) (n : NodeId) : Sorting :=
  match s.waiting[n.index]? with
  | some (k + 1) =>
    { s with
      waiting := s.waiting.setIfInBounds n.index k
      queue := if k = 0 then s.queue ++ [n] else s.queue }
  | _ => s

/-- Sorts the first node that waits for nothing. -/
def sortNext (d : Needs) (s : Sorting) : Sorting :=
  match s.queue with
  | [] => s
  | n :: queue =>
    (d.usersOf n).foldl release { s with queue := queue, order := s.order ++ [n] }

/-- Sorts so many nodes, or as many as can be. -/
def sortMany (d : Needs) : Nat → Sorting → Sorting
  | 0, s => s
  | k + 1, s => sortMany d k (d.sortNext s)

/-- The sort before its first step. -/
def sortStart (d : Needs) : Sorting where
  waiting := d.needs.map List.length
  queue := d.nodes.filter fun n => (d.of n).isEmpty

/-- Every node after the nodes it needs. -/
def sorted (d : Needs) : Except Error (List NodeId) :=
  let order := (d.sortMany d.needs.size d.sortStart).order
  if order.length = d.needs.size then .ok order
  else .error (.unsorted (d.nodes.filter fun n => !order.contains n))

/-! ## What a set of nodes needs -/

/-- Adds the nodes on a stack and all that they need to those found. The nodes
not found yet are in `fresh`. -/
def gather (d : Needs) (fresh stack found : List NodeId) : List NodeId :=
  match stack with
  | [] => found
  | n :: rest =>
    if h : n ∈ fresh then
      have := length_erase_lt h
      gather d (fresh.erase n) (d.of n ++ rest) (n :: found)
    else gather d fresh rest found
termination_by (fresh.length, stack.length)
decreasing_by
  · exact Prod.Lex.left _ _ this
  · simp [Prod.lex_def]

/-- The given nodes and all that they need, directly or not. -/
def closure (d : Needs) (roots : List NodeId) : List NodeId := d.gather d.nodes roots []

end Needs

end EffectGraph
