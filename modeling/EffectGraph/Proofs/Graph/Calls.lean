import EffectGraph.Graph.Basic
import EffectGraph.Proofs.Work

/-!
# Runs of graph calls

A graph changes only through calls: nodes are added, slots linked and unlinked,
and an attribute node may be told to read another attribute. A run goes on with
the graph that a call leaves, also where the call fails; so what holds of every
`reached` graph holds after any calls in any order, refused ones among them.
-/

namespace EffectGraph.Graph

/-- A call that changes a graph. -/
inductive Call where
  | addNode (node : Node)
  | link (o i : SlotId)
  | unlink (o i : SlotId)
  | unlinkAll (s : SlotId)
  | setAttribute (n : NodeId) (a : Attribute)

/-- The node that a call adds. -/
def Call.added? : Call → Option Node
  | .addNode node => some node
  | _ => none

/-- The graph that a call leaves, whether it succeeds or fails. Only attribute nodes
have an attribute to set. -/
def after (g : Graph) : Call → Graph
  | .addNode node => (g.addNode node).2
  | .link o i => lastState (link o i g)
  | .unlink o i => lastState (unlink o i g)
  | .unlinkAll s => lastState (unlinkAll s g)
  | .setAttribute n a =>
    match g.node n with
    | .ok (.attribute _) => lastState (setAttribute n a g)
    | _ => g

/-- The graph after a run of calls on an empty one. -/
def reached (cs : List Call) : Graph := cs.foldl after {}

@[simp] theorem reached_nil : reached [] = {} := rfl

@[simp] theorem reached_snoc (cs : List Call) (c : Call) :
    reached (cs ++ [c]) = (reached cs).after c := by
  simp [reached]

theorem node_eq_ok_iff {g : Graph} {n : NodeId} {node : Node} :
    g.node n = .ok node ↔ g.nodes[n.index]? = some node := by
  unfold Graph.node
  split
  · next h => simp [Array.getElem?_eq_getElem h]
  · next h => simp [Array.getElem?_eq_none (Nat.le_of_not_lt h)]

theorem reading_of_ok {f : Graph → Except Error α} {g : Graph} {a : α} (h : f g = .ok a) :
    reading f g = .ok a g := by
  simp only [reading, h]

theorem reading_of_error {f : Graph → Except Error α} {g : Graph} {e : Error} (h : f g = .error e) :
    reading f g = .error e g := by
  simp only [reading, h]

/-- Setting an attribute changes an attribute node, or nothing. -/
theorem after_setAttribute (g : Graph) (n : NodeId) (a : Attribute) :
    (∃ a₀, g.nodes[n.index]? = some (.attribute a₀) ∧
        g.after (.setAttribute n a) = { g with nodes := g.nodes.setIfInBounds n.index (.attribute a) }) ∨
      g.after (.setAttribute n a) = g := by
  simp only [after]
  split
  · next a₀ hn =>
    refine .inl ⟨a₀, node_eq_ok_iff.1 hn, ?_⟩
    rw [setAttribute, EStateM.bind_of_ok (reading_of_ok hn)]
    rfl
  · exact .inr rfl

theorem slots_after_setAttribute (g : Graph) (n : NodeId) (a : Attribute) :
    (g.after (.setAttribute n a)).slots = g.slots := by
  rcases g.after_setAttribute n a with ⟨a₀, -, h⟩ | h
  · rw [h]
  · rw [h]

/-! ## Slots by place -/

/-- The direction of a slot, if the graph has it. -/
def dirOf? (g : Graph) (s : SlotId) : Option SlotDir := g.slots[s.index]?.map Slot.dir

theorem slot_eq_ok_iff {g : Graph} {s : SlotId} {slot : Slot} :
    g.slot s = .ok slot ↔ g.slots[s.index]? = some slot := by
  unfold Graph.slot
  split
  · next h => simp [Array.getElem?_eq_getElem h]
  · next h => simp [Array.getElem?_eq_none (Nat.le_of_not_lt h)]

theorem slot_of_getElem? {g : Graph} {s : SlotId} {slot : Slot} (h : g.slots[s.index]? = some slot) :
    g.slot s = .ok slot := slot_eq_ok_iff.2 h

theorem slot_of_size_le {g : Graph} {s : SlotId} (h : g.slots.size ≤ s.index) :
    g.slot s = .error (.invalidSlot s) := by
  unfold Graph.slot
  rw [dif_neg (Nat.not_lt.2 h)]

theorem dirOf?_eq_some_iff {g : Graph} {s : SlotId} {d : SlotDir} :
    g.dirOf? s = some d ↔ ∃ slot, g.slots[s.index]? = some slot ∧ slot.dir = d := by
  simp [dirOf?]

theorem dirOf?_of_getElem? {g : Graph} {s : SlotId} {slot : Slot} (h : g.slots[s.index]? = some slot) :
    g.dirOf? s = some slot.dir := by
  simp [dirOf?, h]

/-- No slot is an output and an input. -/
theorem ne_of_dirs {g : Graph} {o i : SlotId} (ho : g.dirOf? o = some .output)
    (hi : g.dirOf? i = some .input) : i ≠ o := by
  rintro rfl
  rw [ho] at hi
  cases hi

theorem getElem?_setSlot (g : Graph) (s s' : SlotId) (slot : Slot) :
    (g.setSlot s slot).slots[s'.index]? =
      if s' = s then g.slots[s'.index]?.map fun _ => slot else g.slots[s'.index]? := by
  unfold setSlot
  rw [Array.getElem?_setIfInBounds]
  by_cases hs : s' = s
  · subst hs
    by_cases hlt : s'.index < g.slots.size
    · simp [hlt]
    · simp [hlt]
  · have hne : s.index ≠ s'.index := fun he => hs (by cases s; cases s'; cases he; rfl)
    simp [hs, hne]

end EffectGraph.Graph
