import EffectGraph.Proofs.Graph.Linking

/-!
# How slots lie in a graph

The slots of a node are made when the node is added, one for each slot that it
declares, and stay. `Laid g` says so: every slot is at the place its identifier
names, belongs to a node of the graph, and the slots of a node are those it
declared, in order. Only an attribute node may have changed since then, so its
slot may be named after an attribute that it read before.
-/

namespace EffectGraph

/-- Whether a node is one of the library. -/
def Node.isBuiltin : Node → Bool
  | .custom _ _ => false
  | _ => true

/-- What a node of a graph may have been when it was added. -/
inductive Node.Was : Node → Node → Prop
  | same (node : Node) : Was node node
  | reset (a a' : Attribute) : Was (.attribute a) (.attribute a')

/-- A slot without its links. -/
def Slot.unlinked (slot : Slot) : Slot := { slot with linked := [] }

namespace Graph

/-- The slots of a node. -/
def own (g : Graph) (n : NodeId) : List Slot := g.slots.toList.filter (·.node == n)

/-- The slots of a graph are those that its nodes declared. -/
structure Laid (g : Graph) : Prop where
  placed : ∀ (k : Nat) (slot : Slot), g.slots[k]? = some slot → slot.id = ⟨k⟩
  owned : ∀ (k : Nat) (slot : Slot), g.slots[k]? = some slot → slot.node.index < g.nodes.size
  declared : ∀ (k : Nat) (node : Node), g.nodes[k]? = some node →
    ∃ first, Node.Was first node ∧ (g.own ⟨k⟩).map Slot.decl = first.slots

/-! ## New slots -/

theorem getElem?_freshSlots (n : NodeId) (ds : List SlotDecl) (first k : Nat) :
    (freshSlots n first ds)[k]? = ds[k]?.map fun d => { node := n, id := ⟨first + k⟩, decl := d } := by
  induction ds generalizing first k with
  | nil => simp [freshSlots]
  | cons d ds ih =>
    cases k with
    | zero => simp [freshSlots]
    | succ k =>
      simp only [freshSlots, List.getElem?_cons_succ, ih]
      rw [Nat.add_right_comm, Nat.add_assoc]

theorem map_decl_freshSlots (n : NodeId) (ds : List SlotDecl) (first : Nat) :
    (freshSlots n first ds).map Slot.decl = ds := by
  apply List.ext_getElem?
  intro k
  simp [getElem?_freshSlots, Function.comp_def]

theorem node_of_mem_freshSlots {n : NodeId} {ds : List SlotDecl} {first : Nat} {slot : Slot}
    (h : slot ∈ freshSlots n first ds) : slot.node = n := by
  obtain ⟨k, hk⟩ := List.mem_iff_getElem?.1 h
  rw [getElem?_freshSlots, Option.map_eq_some_iff] at hk
  obtain ⟨d, -, rfl⟩ := hk
  rfl

/-- A slot of a graph with a new node is one that was there, or one of the new
node. -/
theorem getElem?_addNode {g : Graph} {node : Node} {k : Nat} {slot : Slot}
    (h : (g.addNode node).2.slots[k]? = some slot) :
    g.slots[k]? = some slot ∨ slot.node = ⟨g.nodes.size⟩ ∧ slot.id = ⟨k⟩ := by
  by_cases hk : k < g.slots.size
  · rw [getElem?_addNode_of_lt hk] at h
    exact .inl h
  · simp only [addNode, Array.getElem?_append, hk, if_false, List.getElem?_toArray, getElem?_freshSlots,
      Option.map_eq_some_iff] at h
    obtain ⟨d, -, rfl⟩ := h
    refine .inr ⟨rfl, ?_⟩
    rw [Nat.add_sub_cancel' (Nat.le_of_not_lt hk)]

theorem own_addNode (g : Graph) (node : Node) (n : NodeId) :
    (g.addNode node).2.own n =
      g.own n ++ if n = ⟨g.nodes.size⟩ then freshSlots n g.slots.size node.slots else [] := by
  simp only [own, addNode, Array.toList_append, List.filter_append]
  congr 1
  split
  · next hn =>
    subst hn
    rw [List.filter_eq_self]
    intro slot hs
    simp [node_of_mem_freshSlots hs]
  · next hn =>
    rw [List.filter_eq_nil_iff]
    intro slot hs
    simpa [node_of_mem_freshSlots hs] using Ne.symm hn

namespace Laid

variable {g : Graph}

/-- A node that is not there has no slots. -/
theorem own_eq_nil (h : g.Laid) {n : NodeId} (hn : g.nodes.size ≤ n.index) : g.own n = [] := by
  rw [own, List.filter_eq_nil_iff]
  intro slot hs he
  obtain ⟨k, hk⟩ := List.mem_iff_getElem?.1 hs
  have := h.owned k slot (by simpa using hk)
  rw [eq_of_beq he] at this
  omega

theorem empty : Laid {} where
  placed := by simp
  owned := by simp
  declared := by simp

theorem addNode (h : g.Laid) (node : Node) : (g.addNode node).2.Laid where
  placed k slot hs := by
    rcases getElem?_addNode hs with hs | ⟨-, hid⟩
    · exact h.placed k slot hs
    · exact hid
  owned k slot hs := by
    have hsize : (g.addNode node).2.nodes.size = g.nodes.size + 1 := by simp [Graph.addNode]
    rw [hsize]
    rcases getElem?_addNode hs with hs | ⟨hn, -⟩
    · exact Nat.lt_succ_of_lt (h.owned k slot hs)
    · rw [hn]
      exact Nat.lt_succ_self _
  declared k node' hn := by
    rw [own_addNode]
    simp only [Graph.addNode, Array.getElem?_push] at hn
    split at hn
    · next hk =>
      -- The new node: no slot was its own before.
      subst hk
      cases hn
      refine ⟨node, .same node, ?_⟩
      rw [h.own_eq_nil (n := ⟨g.nodes.size⟩) (Nat.le_refl _), if_pos rfl, List.nil_append, map_decl_freshSlots]
    · next hk =>
      obtain ⟨first, hwas, hdecl⟩ := h.declared k node' hn
      have hne : (⟨k⟩ : NodeId) ≠ ⟨g.nodes.size⟩ := fun he => hk (congrArg NodeId.index he)
      refine ⟨first, hwas, ?_⟩
      rw [if_neg hne, List.append_nil, hdecl]

end Laid

/-! ## Every run -/

/-- New links leave all else about a slot as it is. -/
theorem map_own_relink {f : Slot → β} (hf : ∀ slot : Slot, f slot.unlinked = f slot) (g : Graph) (L : Links)
    (n : NodeId) : ((g.relink L).own n).map f = (g.own n).map f := by
  -- Without its links a slot still shows which node it is of.
  have hown : ∀ g' : Graph, (g'.own n).map f =
      ((g'.slots.toList.map Slot.unlinked).filter (·.node == n)).map f := by
    intro g'
    rw [List.filter_map, List.map_map]
    exact List.map_congr_left fun slot _ => (hf slot).symm
  have hbare : (g.relink L).slots.toList.map Slot.unlinked = g.slots.toList.map Slot.unlinked := by
    apply List.ext_getElem?
    intro k
    rw [List.getElem?_map, List.getElem?_map, Array.getElem?_toList, Array.getElem?_toList, getElem?_relink g L ⟨k⟩,
      Option.map_map]
    rfl
  rw [hown, hown, hbare]

namespace Laid

variable {g : Graph}

theorem relink (h : g.Laid) (L : Links) : (g.relink L).Laid where
  placed k slot hs := by
    rw [getElem?_relink g L ⟨k⟩, Option.map_eq_some_iff] at hs
    obtain ⟨slot, hs, rfl⟩ := hs
    exact h.placed k slot hs
  owned k slot hs := by
    rw [getElem?_relink g L ⟨k⟩, Option.map_eq_some_iff] at hs
    obtain ⟨slot, hs, rfl⟩ := hs
    exact h.owned k slot hs
  declared k node hn := by
    rw [map_own_relink fun _ => rfl]
    exact h.declared k node hn

theorem setAttribute (h : g.Laid) {n : NodeId} {a : Attribute} (hn : g.nodes[n.index]? = some (.attribute a))
    (a' : Attribute) : Laid { g with nodes := g.nodes.setIfInBounds n.index (.attribute a') } where
  placed := h.placed
  owned k slot hs := by
    rw [Array.size_setIfInBounds]
    exact h.owned k slot hs
  declared k node hk := by
    rw [Array.getElem?_setIfInBounds] at hk
    split at hk
    · next he =>
      subst he
      obtain ⟨first, hwas, hdecl⟩ := h.declared _ _ hn
      rw [if_pos (Array.getElem?_eq_some_iff.1 hn).1] at hk
      cases hk
      refine ⟨first, ?_, hdecl⟩
      cases hwas with
      | same => exact .reset a a'
      | reset b => exact .reset b a'
    · exact h.declared k node hk

theorem after (h : g.Laid) {L : Links} (ha : g.Agrees L) (c : Call) : (g.after c).Laid := by
  rcases ha.after_cases c with ⟨node, rfl, hg⟩ | ⟨-, ⟨L', hg⟩ | ⟨n, a, a', hn, hg⟩⟩
  · rw [hg]
    exact h.addNode node
  · rw [hg]
    exact h.relink L'
  · rw [hg]
    exact h.setAttribute hn a'

end Laid

/-- After every run, the slots are those that the nodes declared. -/
theorem reached_laid (cs : List Call) : (reached cs).Laid := by
  induction cs using List.reverseRecOn with
  | nil => exact .empty
  | append_singleton cs c ih =>
    rw [reached_snoc]
    exact ih.after (reached_agrees cs) c

/-- After a run that adds only nodes of the library, the graph has only those. -/
theorem reached_isBuiltin {cs : List Call} (h : ∀ node, .addNode node ∈ cs → node.isBuiltin) {k : Nat} {node : Node}
    (hn : (reached cs).nodes[k]? = some node) : node.isBuiltin := by
  induction cs using List.reverseRecOn generalizing k node with
  | nil => simp at hn
  | append_singleton cs c ih =>
    have ih := @ih fun node hm => h node (List.mem_append_left _ hm)
    rw [reached_snoc] at hn
    rcases (reached_agrees cs).after_cases c with ⟨new, rfl, hg⟩ | ⟨-, ⟨L, hg⟩ | ⟨n, a, a', -, hg⟩⟩
    · simp only [hg, addNode, Array.getElem?_push] at hn
      split at hn
      · cases hn
        exact h node (by simp)
      · exact ih hn
    · rw [hg] at hn
      exact ih hn
    · -- What takes the place of an attribute node is an attribute node.
      simp only [hg, Array.getElem?_setIfInBounds] at hn
      split at hn
      · split at hn
        · cases hn
          rfl
        · cases hn
      · exact ih hn

/-! ## Slots of a node -/

theorem slotsWhere_eq (g : Graph) (n : NodeId) (p : Slot → Bool) :
    g.slotsWhere n p = ((g.own n).filter p).map Slot.id := by
  simp only [slotsWhere, own, List.filter_filter, Bool.and_comm]

theorem inputSlots_eq {g : Graph} {n : NodeId} {node : Node} (hn : g.node n = .ok node) :
    g.inputSlots n = .ok (g.slotsWhere n Slot.isInput) := by
  unfold inputSlots
  rw [hn]
  rfl

theorem outputSlots_eq {g : Graph} {n : NodeId} {node : Node} (hn : g.node n = .ok node) :
    g.outputSlots n = .ok (g.slotsWhere n Slot.isOutput) := by
  unfold outputSlots
  rw [hn]
  rfl

theorem findSlot_eq {g : Graph} {n : NodeId} {node : Node} (hn : g.node n = .ok node) (name : Text) :
    g.findSlot n name = .ok (((g.own n).find? fun s => s.name == name).map Slot.id) := by
  unfold findSlot own
  rw [hn, List.find?_filter]
  simp only [Bool.decide_and, Bool.decide_eq_true]
  rfl

namespace Laid

variable {g : Graph}

theorem mem_own_iff (h : g.Laid) {n : NodeId} {slot : Slot} :
    slot ∈ g.own n ↔ g.slots[slot.id.index]? = some slot ∧ slot.node = n := by
  rw [own, List.mem_filter, List.mem_iff_getElem?, beq_iff_eq]
  refine and_congr_left fun _ => ?_
  simp only [Array.getElem?_toList]
  constructor
  · rintro ⟨k, hk⟩
    rw [h.placed k slot hk, hk]
  · intro hs
    exact ⟨_, hs⟩

theorem mem_slotsWhere (h : g.Laid) {n : NodeId} {p : Slot → Bool} {s : SlotId} (hs : s ∈ g.slotsWhere n p) :
    ∃ slot, g.slots[s.index]? = some slot ∧ slot.node = n := by
  unfold slotsWhere at hs
  obtain ⟨slot, hm, rfl⟩ := List.mem_map.1 hs
  obtain ⟨hm, hp⟩ := List.mem_filter.1 hm
  obtain ⟨k, hk⟩ := List.mem_iff_getElem?.1 hm
  rw [Array.getElem?_toList] at hk
  rw [Bool.and_eq_true] at hp
  refine ⟨slot, ?_, eq_of_beq hp.1⟩
  rw [h.placed k slot hk, hk]

/-- A slot belongs to one node. -/
theorem node_unique (h : g.Laid) {n n' : NodeId} {p p' : Slot → Bool} {s : SlotId} (hs : s ∈ g.slotsWhere n p)
    (hs' : s ∈ g.slotsWhere n' p') : n = n' := by
  obtain ⟨slot, hg, rfl⟩ := h.mem_slotsWhere hs
  obtain ⟨slot', hg', rfl⟩ := h.mem_slotsWhere hs'
  rw [hg] at hg'
  cases hg'
  rfl

/-- No node has a slot twice. -/
theorem nodup_slotsWhere (h : g.Laid) (n : NodeId) (p : Slot → Bool) : (g.slotsWhere n p).Nodup := by
  have hids : g.slots.toList.map Slot.id = (List.range g.slots.size).map (⟨·⟩) := by
    apply List.ext_getElem
    · simp
    · intro k hk _
      simpa using h.placed k _ (Array.getElem?_eq_getElem (by simpa using hk))
  have hall : (g.slots.toList.map Slot.id).Nodup := by
    rw [hids]
    exact List.nodup_range.map fun i j he => by cases he; rfl
  exact (List.filter_sublist.map Slot.id).nodup hall

/-- The slots of a node that cannot change are those it declares. -/
theorem map_decl_own (h : g.Laid) {n : NodeId} {node : Node} (hn : g.node n = .ok node)
    (hattr : ∀ a, node ≠ .attribute a) : (g.own n).map Slot.decl = node.slots := by
  obtain ⟨first, hwas, hdecl⟩ := h.declared n.index node (node_eq_ok_iff.1 hn)
  cases hwas with
  | same => exact hdecl
  | reset a a' => exact absurd rfl (hattr a')

theorem slots_arithmetic (h : g.Laid) {n : NodeId} {op : Arithmetic} (hn : g.node n = .ok (.arithmetic op)) :
    ∃ l r o, g.slotsWhere n Slot.isInput = [l, r] ∧ g.slotsWhere n Slot.isOutput = [o] ∧
      g.findSlot n "lhs" = .ok (some l) ∧ g.findSlot n "rhs" = .ok (some r) := by
  have hdecl := h.map_decl_own hn (by simp)
  simp only [Node.slots, List.map_eq_cons_iff, List.map_eq_nil_iff] at hdecl
  obtain ⟨sl, _, hown, hsl, sr, _, rfl, hsr, so, _, rfl, hso, rfl⟩ := hdecl
  refine ⟨sl.id, sr.id, so.id, ?_, ?_, ?_, ?_⟩
  · simp [slotsWhere_eq, hown, Slot.isInput, Slot.dir, hsl, hsr, hso, SlotDecl.input, SlotDecl.output]
  · simp [slotsWhere_eq, hown, Slot.isOutput, Slot.dir, hsl, hsr, hso, SlotDecl.input, SlotDecl.output]
  · rw [findSlot_eq hn, hown, List.find?_cons_of_pos (by rw [Slot.name, hsl]; decide)]
    rfl
  · rw [findSlot_eq hn, hown, List.find?_cons_of_neg (by rw [Slot.name, hsl]; decide),
      List.find?_cons_of_pos (by rw [Slot.name, hsr]; decide)]
    rfl

theorem slots_normalize (h : g.Laid) {n : NodeId} (hn : g.node n = .ok .normalize) :
    ∃ i o, g.slotsWhere n Slot.isInput = [i] ∧ g.slotsWhere n Slot.isOutput = [o] ∧
      g.findSlot n "in" = .ok (some i) := by
  have hdecl := h.map_decl_own hn (by simp)
  simp only [Node.slots, List.map_eq_cons_iff, List.map_eq_nil_iff] at hdecl
  obtain ⟨si, _, hown, hsi, so, _, rfl, hso, rfl⟩ := hdecl
  refine ⟨si.id, so.id, ?_, ?_, ?_⟩
  · simp [slotsWhere_eq, hown, Slot.isInput, Slot.dir, hsi, hso, SlotDecl.input, SlotDecl.output]
  · simp [slotsWhere_eq, hown, Slot.isOutput, Slot.dir, hsi, hso, SlotDecl.input, SlotDecl.output]
  · rw [findSlot_eq hn, hown, List.find?_cons_of_pos (by rw [Slot.name, hsi]; decide)]
    rfl

end Laid

end Graph
end EffectGraph
