import EffectGraph.Proofs.Graph.Layout
import EffectGraph.Proofs.Work
import Mathlib.Data.List.Find

/-!
# Slots are numbered in blocks

The slots of all nodes stand in one list, and a node finds its own by looking
through it. `Blocks g nodes` says where they stand: the slots of each node follow
those of the node before it (`slotsBefore`), and are those that it declared when it
was added. Adding a node adds a block at the end, and no other call moves a slot or
changes more of it than its links, so this holds after every run (`reached_blocks`),
and what the look-ups return can be read off it (`Blocks.finds`).
-/

namespace EffectGraph.Graph

/-! ## Where the slots of a node stand -/

/-- How many slots the first `n` nodes declare. -/
def slotsBefore (nodes : List Node) (n : Nat) : Nat := ((nodes.take n).flatMap Node.slots).length

/-- The slots from one place on and before another. -/
def slotsFrom (first stop : Nat) : List SlotId := (List.range' first (stop - first)).map (⟨·⟩)

/-- The slots of a node, where each node has as many as it declares. -/
def block (nodes : List Node) (n : Nat) : List SlotId := slotsFrom (slotsBefore nodes n) (slotsBefore nodes (n + 1))

theorem slotsBefore_succ (nodes : List Node) (n : Nat) :
    slotsBefore nodes (n + 1) = slotsBefore nodes n + (nodes[n]?.toList.flatMap Node.slots).length := by
  rw [slotsBefore, List.take_add_one, List.flatMap_append, List.length_append, slotsBefore]

theorem slotsBefore_append {nodes : List Node} {n : Nat} (h : n ≤ nodes.length) (more : List Node) :
    slotsBefore (nodes ++ more) n = slotsBefore nodes n := by
  rw [slotsBefore, List.take_append_of_le_length h, slotsBefore]

/-- Nodes that come later have their slots later. -/
theorem block_append {nodes : List Node} {n : Nat} (h : n < nodes.length) (more : List Node) :
    block (nodes ++ more) n = block nodes n := by
  rw [block, slotsBefore_append (Nat.le_of_lt h), slotsBefore_append h, block]

theorem block_eq {nodes : List Node} {n : Nat} {node : Node} (h : nodes[n]? = some node) :
    block nodes n = slotsFrom (slotsBefore nodes n) (slotsBefore nodes n + node.slots.length) := by
  rw [block, slotsBefore_succ, h, Option.toList_some, List.flatMap_singleton]

theorem slotsFrom_append {a b c : Nat} (hab : a ≤ b) (hbc : b ≤ c) :
    slotsFrom a b ++ slotsFrom b c = slotsFrom a c := by
  have hlength : c - a = (b - a) + (c - b) := by omega
  have hmiddle : a + (b - a) = b := by omega
  rw [slotsFrom, slotsFrom, slotsFrom, ← List.map_append, hlength, ← List.range'_append_1, hmiddle]

/-- The blocks, one after the other, are all slots in order. -/
theorem flatMap_block (nodes : List Node) (n : Nat) :
    (List.range n).flatMap (block nodes) = slotsFrom 0 (slotsBefore nodes n) := by
  induction n with
  | zero => rfl
  | succ n ih =>
    have hle : slotsBefore nodes n ≤ slotsBefore nodes (n + 1) := by
      rw [slotsBefore_succ]
      exact Nat.le_add_right _ _
    rw [List.range_succ, List.flatMap_append, ih, List.flatMap_singleton, block, slotsFrom_append (Nat.zero_le _) hle]

theorem map_id_slotsFrom (first stop : Nat) :
    (slotsFrom first stop).map SlotId.id = List.range' (first + 1) (stop - first) := by
  rw [slotsFrom, List.map_map, Nat.add_comm first 1, ← List.map_add_range' first]
  exact List.map_congr_left fun k _ => Nat.add_comm k 1

theorem map_id_freshSlots (n : NodeId) (ds : List SlotDecl) (first : Nat) :
    (freshSlots n first ds).map Slot.id = slotsFrom first (first + ds.length) := by
  apply List.ext_getElem?
  intro k
  simp only [slotsFrom, List.getElem?_map, getElem?_freshSlots, Nat.add_sub_cancel_left]
  by_cases hk : k < ds.length
  · simp [hk]
  · simp [hk]

theorem map_unlinked_freshSlots (n : NodeId) (ds : List SlotDecl) (first : Nat) :
    (freshSlots n first ds).map Slot.unlinked = freshSlots n first ds := by
  have hfresh : ∀ slot ∈ freshSlots n first ds, slot.unlinked = slot := fun slot hs => by
    rw [Slot.unlinked, ← freshSlots_linked hs]
  exact (List.map_congr_left hfresh).trans (List.map_id' _)

theorem length_freshSlots (n : NodeId) (ds : List SlotDecl) (first : Nat) :
    (freshSlots n first ds).length = ds.length := by
  simpa using congrArg List.length (map_decl_freshSlots n ds first)

/-! ## What a run adds -/

/-- The nodes that a run adds, in order and as they are when they are added. -/
def added (cs : List Call) : List Node := cs.filterMap Call.added?

theorem added_append (cs later : List Call) : added (cs ++ later) = added cs ++ added later :=
  List.filterMap_append

/-- The slots of a graph stand in blocks, one for each of `nodes`: each has the
slots that the node declares, and follows those before it. -/
structure Blocks (g : Graph) (nodes : List Node) : Prop where
  nodes_size : g.nodes.size = nodes.length
  slots_size : g.slots.size = slotsBefore nodes nodes.length
  own : ∀ n node, nodes[n]? = some node →
    (g.own ⟨n⟩).map Slot.unlinked = freshSlots ⟨n⟩ (slotsBefore nodes n) node.slots

namespace Blocks

variable {g : Graph} {nodes : List Node}

theorem empty : Blocks {} [] := ⟨rfl, rfl, by simp⟩

/-- A new node has the block after the last. -/
theorem addNode (b : g.Blocks nodes) (h : g.Laid) (node : Node) : (g.addNode node).2.Blocks (nodes ++ [node]) where
  nodes_size := by simp [Graph.addNode, b.nodes_size]
  slots_size := by
    have hsize : (g.addNode node).2.slots.size = g.slots.size + node.slots.length := by
      simp [Graph.addNode, length_freshSlots]
    rw [hsize, b.slots_size, List.length_append, List.length_singleton, slotsBefore_succ,
      slotsBefore_append (Nat.le_refl _), List.getElem?_concat_length, Option.toList_some, List.flatMap_singleton]
  own n node' hn := by
    rw [own_addNode, List.map_append]
    by_cases hlt : n < nodes.length
    · have hne : (⟨n⟩ : NodeId) ≠ ⟨g.nodes.size⟩ := by
        rw [b.nodes_size]
        exact fun he => Nat.ne_of_lt hlt (congrArg NodeId.index he)
      rw [List.getElem?_append_left hlt] at hn
      rw [if_neg hne, List.map_nil, List.append_nil, b.own n node' hn, slotsBefore_append (Nat.le_of_lt hlt)]
    · obtain rfl : n = nodes.length := by
        have := (List.getElem?_eq_some_iff.1 hn).1
        rw [List.length_append, List.length_singleton] at this
        omega
      rw [List.getElem?_concat_length] at hn
      cases hn
      -- The node was not there, so no slot was its own before.
      rw [h.own_eq_nil (Nat.le_of_eq b.nodes_size), b.nodes_size, if_pos rfl, List.map_nil, List.nil_append,
        map_unlinked_freshSlots, slotsBefore_append (Nat.le_refl _), b.slots_size]

theorem relink (b : g.Blocks nodes) (L : Links) : (g.relink L).Blocks nodes where
  nodes_size := b.nodes_size
  slots_size := by
    rw [← b.slots_size]
    simp [Graph.relink]
  own n node hn := by
    rw [map_own_relink fun _ => rfl]
    exact b.own n node hn

theorem setAttribute (b : g.Blocks nodes) (n : NodeId) (node : Node) :
    Blocks { g with nodes := g.nodes.setIfInBounds n.index node } nodes where
  nodes_size := by
    rw [Array.size_setIfInBounds]
    exact b.nodes_size
  slots_size := b.slots_size
  own := b.own

/-- A call adds a block or leaves the blocks as they are. -/
theorem after (b : g.Blocks nodes) (h : g.Laid) {L : Links} (ha : g.Agrees L) (c : Call) :
    (g.after c).Blocks (nodes ++ c.added?.toList) := by
  rcases ha.after_cases c with ⟨node, rfl, hg⟩ | ⟨hnone, hkept⟩
  · rw [hg]
    exact b.addNode h node
  · rw [hnone, Option.toList_none, List.append_nil]
    rcases hkept with ⟨L', hg⟩ | ⟨n, a, a', -, hg⟩
    · rw [hg]
      exact b.relink L'
    · rw [hg]
      exact b.setAttribute n _

end Blocks

/-- After every run, the slots stand in blocks for the nodes that the run adds. -/
theorem reached_blocks (cs : List Call) : (reached cs).Blocks (added cs) := by
  induction cs using List.reverseRecOn with
  | nil => exact .empty
  | append_singleton cs c ih =>
    have hadded : added [c] = c.added?.toList := by cases c <;> rfl
    rw [reached_snoc, added_append, hadded]
    exact ih.after (reached_laid cs) (reached_agrees cs) c

/-! ## Looking slots up -/

/-- The name of a slot, if the graph has it. -/
def nameOf? (g : Graph) (s : SlotId) : Option Text := g.slots[s.index]?.map fun slot => slot.name

/-- What a graph says of a node that has the slots `own`, declared as `ds`: these
are its slots, its inputs and its outputs are those of them of that direction, and
a name leads to the first of them that has it. -/
structure Finds (g : Graph) (n : NodeId) (own : List SlotId) (ds : List SlotDecl) : Prop where
  slots : g.slotsOf n = .ok own
  declared : (own.mapM fun s => Slot.decl <$> g.slot s) = .ok ds
  owner : ∀ s ∈ own, ∃ slot, g.slot s = .ok slot ∧ slot.node = n
  inputs : g.inputSlots n = .ok (own.filter fun s => g.dirOf? s = some .input)
  outputs : g.outputSlots n = .ok (own.filter fun s => g.dirOf? s = some .output)
  named : ∀ name, g.findSlot n name = .ok (own.find? fun s => g.nameOf? s = some name)

theorem slotsOf_eq {g : Graph} {n : NodeId} {node : Node} (hn : g.node n = .ok node) :
    g.slotsOf n = .ok ((g.own n).map Slot.id) := by
  rw [slotsOf, hn]
  exact congrArg (Except.ok <| List.map Slot.id ·) (by simp [own])

/-- The slots of a node of a direction are those that have it when looked up. -/
theorem Laid.slotsWhere_eq_filter {g : Graph} (h : g.Laid) (n : NodeId) {p : Slot → Bool} {d : SlotDir}
    (hp : ∀ slot, p slot = (slot.dir == d)) :
    g.slotsWhere n p = ((g.own n).map Slot.id).filter fun s => g.dirOf? s = some d := by
  rw [slotsWhere_eq, List.filter_map]
  refine congrArg _ (List.filter_congr fun slot hslot => ?_)
  simp [hp, dirOf?_of_getElem? (h.mem_own_iff.1 hslot).1, beq_eq_decide]

namespace Blocks

variable {g : Graph} {nodes : List Node} {n : NodeId} {node : Node}

theorem map_id_own (b : g.Blocks nodes) (hn : nodes[n.index]? = some node) :
    (g.own n).map Slot.id = block nodes n.index := by
  rw [block_eq hn, ← map_id_freshSlots n, ← b.own n.index node hn, List.map_map]
  rfl

theorem map_decl_own (b : g.Blocks nodes) (hn : nodes[n.index]? = some node) :
    (g.own n).map Slot.decl = node.slots := by
  rw [← map_decl_freshSlots n node.slots, ← b.own n.index node hn, List.map_map]
  rfl

theorem exists_node (b : g.Blocks nodes) (hn : nodes[n.index]? = some node) : ∃ node', g.node n = .ok node' := by
  have hlt : n.index < g.nodes.size := b.nodes_size ▸ (List.getElem?_eq_some_iff.1 hn).1
  exact ⟨_, node_eq_ok_iff.2 (Array.getElem?_eq_getElem hlt)⟩

/-- A node that was added finds the slots of its block. -/
theorem finds (b : g.Blocks nodes) (h : g.Laid) (hn : nodes[n.index]? = some node) :
    g.Finds n (block nodes n.index) node.slots := by
  obtain ⟨node', hnode⟩ := b.exists_node hn
  have hslot : ∀ slot ∈ g.own n, g.slots[slot.id.index]? = some slot ∧ slot.node = n := fun slot => h.mem_own_iff.1
  rw [← b.map_id_own hn, ← b.map_decl_own hn]
  refine ⟨slotsOf_eq hnode, ?_, ?_, ?_, ?_, fun name => ?_⟩
  · rw [Except.mapM_eq_ok, List.forall₂_map_left_iff, List.forall₂_map_right_iff, List.forall₂_same]
    intro slot hs
    rw [slot_of_getElem? (hslot slot hs).1]
    rfl
  · intro s hs
    obtain ⟨slot, hmem, rfl⟩ := List.mem_map.1 hs
    exact ⟨slot, slot_of_getElem? (hslot slot hmem).1, (hslot slot hmem).2⟩
  · rw [inputSlots_eq hnode, h.slotsWhere_eq_filter n (p := Slot.isInput) fun _ => rfl]
  · rw [outputSlots_eq hnode, h.slotsWhere_eq_filter n (p := Slot.isOutput) fun _ => rfl]
  · have hname : ∀ slot ∈ g.own n, (slot.name == name) = decide (g.nameOf? slot.id = some name) := by
      intro slot hs
      simp [nameOf?, (hslot slot hs).1, beq_eq_decide]
    rw [findSlot_eq hnode, List.find?_congr hname, List.find?_map]
    rfl

/-- The slots of all nodes, one node after the other, are all slots in order. -/
theorem mapM_slotsOf (b : g.Blocks nodes) (h : g.Laid) :
    g.nodeIds.mapM g.slotsOf = .ok ((List.range nodes.length).map (block nodes)) := by
  rw [nodeIds, b.nodes_size, Except.mapM_eq_ok, List.forall₂_map_left_iff, List.forall₂_map_right_iff,
    List.forall₂_same]
  intro k hk
  exact (b.finds (n := ⟨k⟩) h (List.getElem?_eq_getElem (List.mem_range.1 hk))).slots

end Blocks

/-- An identifier counts the place of its slot from one. -/
theorem ofId_eq_ok_iff {k : Int} {s : SlotId} : SlotId.ofId k = .ok s ↔ s.id = k := by
  obtain ⟨place⟩ := s
  unfold SlotId.ofId placeOf SlotId.id
  split
  · simp only [Except.map, reduceCtorEq, false_iff]
    omega
  · simp only [Except.map, Except.ok.injEq, SlotId.mk.injEq]
    omega

/-- The numbers from one to the number of slots, and no others, are slots. -/
theorem exists_slot_iff (g : Graph) (k : Int) :
    (∃ slot, (SlotId.ofId k >>= g.slot) = .ok slot) ↔ 1 ≤ k ∧ k ≤ g.slots.size := by
  constructor
  · rintro ⟨slot, hslot⟩
    obtain ⟨s, hs, hslot⟩ := Except.bind_eq_ok.1 hslot
    have hlt := (Array.getElem?_eq_some_iff.1 (slot_eq_ok_iff.1 hslot)).1
    rw [← ofId_eq_ok_iff.1 hs, SlotId.id]
    omega
  · rintro ⟨hpos, hle⟩
    have hlt : k.toNat - 1 < g.slots.size := by omega
    have hid : ((SlotId.mk (k.toNat - 1)).id : Int) = k := by
      simp only [SlotId.id]
      omega
    exact ⟨_, Except.bind_eq_ok.2 ⟨_, ofId_eq_ok_iff.2 hid, slot_of_getElem? (Array.getElem?_eq_getElem hlt)⟩⟩

theorem Laid.id_of_slot {g : Graph} (h : g.Laid) {k : Int} {slot : Slot} (hs : (SlotId.ofId k >>= g.slot) = .ok slot) :
    slot.id.id = k := by
  obtain ⟨s, hid, hs⟩ := Except.bind_eq_ok.1 hs
  rw [← ofId_eq_ok_iff.1 hid, h.placed s.index slot (slot_eq_ok_iff.1 hs)]

/-- After any calls on an empty graph, refused ones among them:
there is a node for each that was added;
the slots are numbered from one on, without gaps, and each has its number as its
identifier;
the slots of the nodes, one node after the other, are all slots in order;
and those of a node are numbered on from those of the nodes before it, as many as
the node declared when it was added: now and after all further calls they are its
slots, declared as they were then, its inputs and outputs are those of them of that
direction, and a name leads to the first of them that has it. -/
theorem reached_slots_numbered (cs : List Call) :
    let g := reached cs
    g.nodes.size = (added cs).length ∧
    (∀ k : Int, (∃ slot, (SlotId.ofId k >>= g.slot) = .ok slot) ↔ 1 ≤ k ∧ k ≤ g.slots.size) ∧
    (∀ (k : Int) slot, (SlotId.ofId k >>= g.slot) = .ok slot → slot.id.id = k) ∧
    (∃ blocks, g.nodeIds.mapM g.slotsOf = .ok blocks ∧ blocks.flatten.map SlotId.id = List.range' 1 g.slots.size) ∧
    ∀ n node, (added cs)[n.index]? = some node → ∃ own : List SlotId,
      own.map SlotId.id = List.range' (slotsBefore (added cs) n.index + 1) node.slots.length ∧
      ∀ later, (reached (cs ++ later)).Finds n own node.slots := by
  intro g
  have b := reached_blocks cs
  refine ⟨b.nodes_size, exists_slot_iff g, fun k slot => (reached_laid cs).id_of_slot,
    ⟨_, b.mapM_slotsOf (reached_laid cs), ?_⟩, fun n node hn => ⟨block (added cs) n.index, ?_, fun later => ?_⟩⟩
  · rw [← List.flatMap_def, flatMap_block, map_id_slotsFrom, Nat.sub_zero, b.slots_size]
  · rw [block_eq hn, map_id_slotsFrom, Nat.add_sub_cancel_left]
  · have hlt := (List.getElem?_eq_some_iff.1 hn).1
    have hlater : (added (cs ++ later))[n.index]? = some node := by
      rw [added_append, List.getElem?_append_left hlt, hn]
    have hfinds := (reached_blocks (cs ++ later)).finds (reached_laid _) hlater
    rwa [added_append, block_append hlt] at hfinds

/-- A node without slots, one that is told to read something else, one with two slots
of a name, a link that is refused and one that is not. -/
theorem reached_slots_numbered_resetAttribute :
    let cs : List Call := [.addNode (.custom [] []), .addNode (.attribute .position),
      .addNode (.custom [.input "a", .output "a"] []), .setAttribute ⟨1⟩ .velocity, .link ⟨9⟩ ⟨1⟩, .link ⟨0⟩ ⟨1⟩]
    (reached cs).node ⟨1⟩ = .ok (.attribute .velocity) ∧ (reached cs).linkedSlots ⟨1⟩ = .ok [⟨0⟩] ∧
      (reached cs).Finds ⟨1⟩ [⟨0⟩] [.output "position" (some .vec3f)] ∧
      (reached cs).Finds ⟨2⟩ [⟨1⟩, ⟨2⟩] [.input "a", .output "a"] ∧
      (reached cs).findSlot ⟨2⟩ "a" = .ok (some ⟨1⟩) := by
  intro cs
  obtain ⟨-, -, -, -, hnodes⟩ := reached_slots_numbered cs
  obtain ⟨own₁, -, hfinds₁⟩ := hnodes ⟨1⟩ (.attribute .position) rfl
  obtain ⟨own₂, -, hfinds₂⟩ := hnodes ⟨2⟩ (.custom [.input "a", .output "a"] []) rfl
  have hown₁ : own₁ = [⟨0⟩] := Except.ok.inj ((hfinds₁ []).slots.symm.trans rfl)
  have hown₂ : own₂ = [⟨1⟩, ⟨2⟩] := Except.ok.inj ((hfinds₂ []).slots.symm.trans rfl)
  exact ⟨rfl, rfl, hown₁ ▸ hfinds₁ [], hown₂ ▸ hfinds₂ [], rfl⟩

end EffectGraph.Graph
