import EffectGraph.Proofs.Graph.Blocks
import EffectGraph.Proofs.Graph.Building
import EffectGraph.Proofs.Graph.Dependencies
import EffectGraph.Proofs.Graph.Wiring
import Mathlib

/-!
# Graphs of reordered definitions

Reordering node definitions moves every node and every slot of the graph to
another place. `Twins` pairs the nodes of two graphs that were made of one
definition, `SlotTwins` the slots that twins declare alike. References lead to
twins (`resolve_twin`), and where every input is the target of one link at most,
twins read twins (`Builder.Reordered.sourceSlot_twin`), so dependencies, cycles
and unlinked inputs are the same in both graphs.
-/

namespace EffectGraph

/-! ## Slots that nodes declare -/

theorem Node.nodup_slots {node : Node} (h : node.isBuiltin) : node.slots.Nodup := by
  cases node with
  | custom slots outputs => cases h
  | arithmetic op =>
    simp only [slots]
    decide
  | normalize => decide
  | time => decide
  | _ a => exact List.nodup_singleton _

theorem Graph.map_decl_own_addNodes {nodes : List Node} {k : Nat} {node : Node} (h : nodes[k]? = some node) :
    ((Graph.reached (nodes.map .addNode)).own ⟨k⟩).map Slot.decl = node.slots := by
  have hadded : added (nodes.map .addNode) = nodes := by
    rw [added, List.filterMap_map]
    exact List.filterMap_some
  exact (reached_blocks (nodes.map .addNode)).map_decl_own (n := ⟨k⟩) (by rwa [hadded])

/-- Nodes of two graphs that were made of one definition. -/
def Twins (ds ds' : List NodeDef) (n n' : NodeId) : Prop := ∃ d, ds[n.index]? = some d ∧ ds'[n'.index]? = some d

/-- Slots of twins that are declared alike. -/
def SlotTwins (b b' : Builder) (s s' : SlotId) : Prop :=
  ∃ slot slot', b.graph.slots[s.index]? = some slot ∧ b'.graph.slots[s'.index]? = some slot' ∧
    Twins b.nodes b'.nodes slot.node slot'.node ∧ slot.decl = slot'.decl

namespace Twins

variable {ds ds' : List NodeDef} {n n' n'' : NodeId}

theorem symm (h : Twins ds ds' n n') : Twins ds' ds n' n := by
  obtain ⟨d, hd, hd'⟩ := h
  exact ⟨d, hd', hd⟩

/-- With different identifiers every node has one twin. -/
theorem unique (hids : (ds'.map (·.id)).Nodup) (h : Twins ds ds' n n') (h' : Twins ds ds' n n'') : n' = n'' := by
  obtain ⟨d, hd, hd'⟩ := h
  obtain ⟨e, he, he'⟩ := h'
  rw [hd] at he
  cases he
  have h₁ := (Builder.lookup_places hids).2 ⟨d, hd', rfl⟩
  have h₂ := (Builder.lookup_places hids).2 ⟨d, he', rfl⟩
  rw [h₁] at h₂
  exact Option.some.inj h₂

theorem exists_right (hp : ds.Perm ds') (hn : n.index < ds.length) : ∃ n', Twins ds ds' n n' := by
  have hmem : ds[n.index] ∈ ds' := hp.subset (List.getElem_mem hn)
  obtain ⟨k, hk⟩ := List.mem_iff_getElem?.1 hmem
  exact ⟨⟨k⟩, _, List.getElem?_eq_getElem hn, hk⟩

end Twins

theorem SlotTwins.symm {b b' : Builder} {s s' : SlotId} (h : SlotTwins b b' s s') : SlotTwins b' b s' s := by
  obtain ⟨slot, slot', hs, hs', hn, hdecl⟩ := h
  exact ⟨slot', slot, hs', hs, hn.symm, hdecl.symm⟩

theorem SlotTwins.exists_slot {b b' : Builder} {s s' : SlotId} (h : SlotTwins b b' s s') {slot : Slot}
    (hs : b.graph.slots[s.index]? = some slot) :
    ∃ slot', b'.graph.slots[s'.index]? = some slot' ∧ Twins b.nodes b'.nodes slot.node slot'.node := by
  obtain ⟨_, slot', h₁, hs', ht, -⟩ := h
  rw [hs] at h₁
  cases h₁
  exact ⟨slot', hs', ht⟩

theorem SlotTwins.dirOf? {b b' : Builder} {s s' : SlotId} (h : SlotTwins b b' s s') :
    b'.graph.dirOf? s' = b.graph.dirOf? s := by
  obtain ⟨slot, slot', hs, hs', -, hdecl⟩ := h
  rw [Graph.dirOf?, Graph.dirOf?, hs, hs', Option.map_some, Option.map_some, Slot.dir, Slot.dir, hdecl]

namespace Builder

/-- A builder whose graph is that of its definitions. -/
def Finished (b : Builder) : Prop := ∃ nodes pairs, Built Registry.builtin b.nodes b.links nodes pairs b

theorem Built.finished {ds : List NodeDef} {ls : List LinkDef} {nodes : List Node} {pairs : List (SlotId × SlotId)}
    {b : Builder} (h : Built Registry.builtin ds ls nodes pairs b) : b.nodes = ds ∧ b.links = ls ∧ b.Finished := by
  have hnodes : b.nodes = ds := by rw [h.eq]; rfl
  have hlinks : b.links = ls := by rw [h.eq]; rfl
  refine ⟨hnodes, hlinks, nodes, pairs, ?_⟩
  rwa [hnodes, hlinks]

theorem build_eq_ok_iff_finished {ds : List NodeDef} {ls : List LinkDef} {b : Builder} :
    build { nodes := ds, links := ls } = .ok () b ↔ b.nodes = ds ∧ b.links = ls ∧ b.Finished := by
  refine build_eq_ok.trans ⟨?_, ?_⟩
  · rintro ⟨nodes, pairs, h⟩
    exact h.finished
  · rintro ⟨rfl, rfl, h⟩
    exact h

namespace Finished

variable {b b' : Builder}

theorem ids (h : b.Finished) : (b.nodes.map (·.id)).Nodup := by
  obtain ⟨nodes, pairs, h⟩ := h
  exact h.ids

theorem laid (h : b.Finished) : b.graph.Laid := by
  obtain ⟨nodes, pairs, h⟩ := h
  exact h.laid

theorem nodeIds_eq (h : b.Finished) : b.nodeIds = places b.nodes := by
  obtain ⟨nodes, pairs, h⟩ := h
  exact h.nodeIds_eq

/-- The node of a definition is made of it and has the slots that it declares. -/
theorem exists_node (h : b.Finished) {n : NodeId} {d : NodeDef} (hd : b.nodes[n.index]? = some d) :
    ∃ node, Registry.builtin.create d = .ok node ∧ b.graph.node n = .ok node ∧
      (b.graph.own n).map Slot.decl = node.slots := by
  obtain ⟨nodes, pairs, h⟩ := h
  obtain ⟨node, hnode, hcreate⟩ := Except.getElem?_of_mapM h.made hd
  refine ⟨node, hcreate, ?_, ?_⟩
  · rw [Graph.node_eq_ok_iff, h.nodes_eq, List.getElem?_toArray, hnode]
  · have hgraph : b.graph = (Graph.reached (nodes.map .addNode)).relink (Links.linkAll [] pairs) := by
      conv_lhs => rw [h.eq]
    rw [hgraph, Graph.map_own_relink fun _ => rfl]
    exact Graph.map_decl_own_addNodes hnode

theorem index_lt (h : b.Finished) {n : NodeId} (hn : n.index < b.graph.nodes.size) :
    n.index < b.nodes.length := by
  obtain ⟨nodes, pairs, h⟩ := h
  rw [h.nodes_eq, List.size_toArray] at hn
  rwa [(Except.mapM_eq_ok.1 h.made).length_eq]

end Finished
end Builder

/-! ## Twins -/

section

variable {b b' : Builder} (h : b.Finished) (h' : b'.Finished)

include h h'

theorem Twins.exists_node {n n' : NodeId} (ht : Twins b.nodes b'.nodes n n') :
    ∃ node, node.isBuiltin ∧ b.graph.node n = .ok node ∧ b'.graph.node n' = .ok node ∧
      (b.graph.own n).map Slot.decl = node.slots ∧ (b'.graph.own n').map Slot.decl = node.slots := by
  obtain ⟨d, hd, hd'⟩ := ht
  obtain ⟨node, hcreate, hnode, hslots⟩ := h.exists_node hd
  obtain ⟨node', hcreate', hnode', hslots'⟩ := h'.exists_node hd'
  rw [hcreate] at hcreate'
  cases hcreate'
  exact ⟨node, Registry.isBuiltin_of_create hcreate, hnode, hnode', hslots, hslots'⟩

/-- Twins have the same slots, in the same order. -/
theorem Twins.forall₂_own {n n' : NodeId} (ht : Twins b.nodes b'.nodes n n') :
    List.Forall₂ (fun slot slot' => slot.decl = slot'.decl ∧ SlotTwins b b' slot.id slot'.id) (b.graph.own n)
      (b'.graph.own n') := by
  obtain ⟨node, -, -, -, hslots, hslots'⟩ := ht.exists_node h h'
  have hdecl := forall₂_of_map_eq (hslots.trans hslots'.symm)
  refine forall₂_of_getElem? hdecl.length_eq fun k slot slot' hk hk' => ?_
  obtain ⟨slot₂, hk₂, he⟩ := forall₂_getElem? hdecl hk
  rw [hk'] at hk₂
  cases hk₂
  obtain ⟨hs, hnode⟩ := h.laid.mem_own_iff.1 (List.mem_of_getElem? hk)
  obtain ⟨hs', hnode'⟩ := h'.laid.mem_own_iff.1 (List.mem_of_getElem? hk')
  exact ⟨he, slot, slot', hs, hs', by rwa [hnode, hnode'], he⟩

theorem Twins.forall₂_slots {n n' : NodeId} (ht : Twins b.nodes b'.nodes n n') (dir : SlotDir) :
    List.Forall₂ (SlotTwins b b') (b.graph.slotsWhere n (·.dir == dir)) (b'.graph.slotsWhere n' (·.dir == dir)) := by
  rw [Graph.slotsWhere_eq, Graph.slotsWhere_eq, List.forall₂_map_left_iff, List.forall₂_map_right_iff]
  have hown := ht.forall₂_own h h'
  have hfilter := List.rel_filter (p := fun s : Slot => s.dir == dir) (q := fun s : Slot => s.dir == dir)
    (fun slot slot' hs => by simp [Slot.dir, hs.1]) hown
  exact hfilter.imp fun _ _ hs => hs.2

omit h in
/-- A slot has one twin. -/
theorem SlotTwins.unique {s s' s'' : SlotId} (hs : SlotTwins b b' s s') (hs' : SlotTwins b b' s s'') : s' = s'' := by
  obtain ⟨slot, slot₁, hslot, hslot₁, htwins, hdecl₁⟩ := hs
  obtain ⟨_, slot₂, hslot', hslot₂, htwins', hdecl₂⟩ := hs'
  rw [hslot] at hslot'
  cases hslot'
  have hnode := htwins.unique h'.ids htwins'
  obtain ⟨d, -, hd⟩ := htwins
  obtain ⟨node, hcreate, -, hslots⟩ := h'.exists_node hd
  -- The slots that a node declares differ, so its slots are told by what they are declared as.
  have hn : ((b'.graph.own slot₁.node).map Slot.decl).Nodup := by
    rw [hslots]
    exact Node.nodup_slots (Registry.isBuiltin_of_create hcreate)
  have hid₁ := h'.laid.placed _ _ hslot₁
  have hid₂ := h'.laid.placed _ _ hslot₂
  have hmem₁ : slot₁ ∈ b'.graph.own slot₁.node := h'.laid.mem_own_iff.2 ⟨by rwa [hid₁], rfl⟩
  have hmem₂ : slot₂ ∈ b'.graph.own slot₁.node := h'.laid.mem_own_iff.2 ⟨by rwa [hid₂], hnode.symm⟩
  have hsame := List.inj_on_of_nodup_map hn hmem₁ hmem₂ (hdecl₁.symm.trans hdecl₂)
  rw [hsame, hid₂] at hid₁
  exact hid₁.symm

/-- References lead to twins. -/
theorem resolve_twin (hp : b.nodes.Perm b'.nodes) {ref : Text} {s : SlotId} (hs : b.resolve ref = .ok s) :
    ∃ s', b'.resolve ref = .ok s' ∧ SlotTwins b b' s s' := by
  obtain ⟨node, slot, n, href, hlookup, hfind⟩ := Builder.resolve_eq_ok.1 hs
  rw [h.nodeIds_eq, Builder.lookup_places h.ids] at hlookup
  obtain ⟨d, hd, hid⟩ := hlookup
  obtain ⟨k, hk⟩ := List.mem_iff_getElem?.1 (hp.subset (List.mem_of_getElem? hd))
  have htwins : Twins b.nodes b'.nodes n ⟨k⟩ := ⟨d, hd, hk⟩
  obtain ⟨made, -, hnode, hnode', -⟩ := htwins.exists_node h h'
  rw [Graph.findSlot_eq hnode, Except.ok.injEq, Option.map_eq_some_iff] at hfind
  obtain ⟨found, hfound, rfl⟩ := hfind
  obtain ⟨found', hfound', -, htwin⟩ := find?_of_forall₂ (q := fun s => s.name == slot)
    (htwins.forall₂_own h h') (fun s s' hs => by simp [Slot.name, hs.1]) hfound
  refine ⟨found'.id, Builder.resolve_eq_ok.2 ⟨node, slot, ⟨k⟩, href, ?_, ?_⟩, htwin⟩
  · rw [h'.nodeIds_eq, Builder.lookup_places h'.ids]
    exact ⟨d, hk, hid⟩
  · rw [Graph.findSlot_eq hnode', hfound']
    rfl

/-- Links join twins. -/
theorem resolveLink_twin (hp : b.nodes.Perm b'.nodes) {l : LinkDef} {o i : SlotId} (hl : b.resolveLink l = .ok (o, i)) :
    ∃ o' i', b'.resolveLink l = .ok (o', i') ∧ SlotTwins b b' o o' ∧ SlotTwins b b' i i' := by
  obtain ⟨hsource, htarget, ho, hi⟩ := Builder.resolveLink_eq_ok.1 hl
  obtain ⟨o', hsource', hto⟩ := resolve_twin h h' hp hsource
  obtain ⟨i', htarget', hti⟩ := resolve_twin h h' hp htarget
  exact ⟨o', i', Builder.resolveLink_eq_ok.2 ⟨hsource', htarget', hto.dirOf?.trans ho, hti.dirOf?.trans hi⟩, hto, hti⟩

end

/-- Definitions that build can be reordered and build. -/
theorem Builder.Finished.exists_reordered {b : Builder} (h : b.Finished) {ds : List NodeDef} {ls : List LinkDef}
    (hds : b.nodes.Perm ds) (hls : b.links.Perm ls) :
    ∃ b' : Builder, b'.nodes = ds ∧ b'.links = ls ∧ b'.Finished := by
  have hids : (ds.map (·.id)).Nodup := (hds.map _).nodup_iff.1 h.ids
  obtain ⟨nodes, pairs, hb⟩ := h
  have hmade : ∃ nodes', ds.mapM Registry.builtin.create = .ok nodes' := by
    rw [Except.exists_mapM_eq_ok]
    intro d hd
    obtain ⟨node, -, hnode⟩ := Except.exists_of_mapM_mem hb.made (hds.symm.subset hd)
    exact ⟨node, hnode⟩
  obtain ⟨nodes', hmade⟩ := hmade
  -- References are looked up in the graph without links.
  have hb₀ : Built Registry.builtin ds [] nodes' [] _ := ⟨hids, hmade, rfl, rfl⟩
  obtain ⟨hnodes₀, -, h₀⟩ := hb₀.finished
  have hresolved : ∃ pairs', ls.mapM ((start Registry.builtin ds ls).withNodes ds nodes').resolveLink = .ok pairs' := by
    rw [Except.exists_mapM_eq_ok]
    intro l hl
    obtain ⟨⟨o, i⟩, -, hlink⟩ := Except.exists_of_mapM_mem hb.mapM_resolveLink (hls.symm.subset hl)
    obtain ⟨o', i', hlink', -⟩ := resolveLink_twin ⟨nodes, pairs, hb⟩ h₀ (by rwa [hnodes₀]) hlink
    exact ⟨_, resolveLink_relink.1 hlink'⟩
  obtain ⟨pairs', hresolved⟩ := hresolved
  have hb' : Built Registry.builtin ds ls nodes' pairs' _ := ⟨hids, hmade, hresolved, rfl⟩
  exact ⟨_, hb'.finished⟩

/-! ## Reordered graphs -/

/-- With one link to a target at most, an input reads what its link says. -/
theorem Builder.Finished.sourceSlot_eq_some_iff {b : Builder} (h : b.Finished)
    (ht : (b.links.map (·.target)).Nodup) {o i : SlotId} (hi : b.graph.dirOf? i = some .input) :
    b.graph.sourceSlot i = .ok (some o) ↔ ∃ l ∈ b.links, b.resolveLink l = .ok (o, i) := by
  obtain ⟨nodes, pairs, h⟩ := h
  have hinto : ∀ {l : LinkDef}, l ∈ b.into b.links i ↔ l ∈ b.links ∧ b.resolve l.target = .ok i := by
    intro l
    rw [Builder.into, List.mem_filter, decide_eq_true_eq, Except.toOption_eq_some]
  rw [h.sourceSlot_eq_some_iff hi]
  constructor
  · rintro ⟨l, hlast, hl⟩
    exact ⟨l, (hinto.1 (List.mem_of_getLast? hlast)).1, hl⟩
  · rintro ⟨l, hmem, hl⟩
    have htarget := (resolveLink_eq_ok.1 hl).2.1
    have hne : b.into b.links i ≠ [] := List.ne_nil_of_mem (hinto.2 ⟨hmem, htarget⟩)
    obtain ⟨hmem', htarget'⟩ := hinto.1 (List.getLast_mem hne)
    have hsame := List.inj_on_of_nodup_map ht hmem' hmem (h.resolve_injective htarget' htarget)
    exact ⟨l, by rw [List.getLast?_eq_some_getLast hne, hsame], hl⟩

/-- Two graphs of the same definitions in different orders, where no two links have
the same target. -/
structure Builder.Reordered (b b' : Builder) : Prop where
  left : b.Finished
  right : b'.Finished
  nodes : b.nodes.Perm b'.nodes
  links : b.links.Perm b'.links
  targets : (b.links.map (·.target)).Nodup

namespace Builder.Reordered

variable {b b' : Builder}

theorem symm (r : Reordered b b') : Reordered b' b where
  left := r.right
  right := r.left
  nodes := r.nodes.symm
  links := r.links.symm
  targets := (r.links.map _).nodup_iff.1 r.targets

theorem exists_twin (r : Reordered b b') {n : NodeId} (hn : n.index < b.graph.nodes.size) :
    ∃ n', Twins b.nodes b'.nodes n n' :=
  Twins.exists_right r.nodes (r.left.index_lt hn)

/-- Twins read twins. -/
theorem sourceSlot_twin (r : Reordered b b') {i i' o : SlotId} (ht : SlotTwins b b' i i')
    (hi : b.graph.dirOf? i = some .input) (ho : b.graph.sourceSlot i = .ok (some o)) :
    ∃ o', b'.graph.sourceSlot i' = .ok (some o') ∧ SlotTwins b b' o o' := by
  obtain ⟨l, hl, hlink⟩ := (r.left.sourceSlot_eq_some_iff r.targets hi).1 ho
  obtain ⟨o', i'', hlink', hto, hti⟩ := resolveLink_twin r.left r.right r.nodes hlink
  obtain rfl := hti.unique r.right ht
  refine ⟨o', ?_, hto⟩
  rw [r.right.sourceSlot_eq_some_iff r.symm.targets (ht.dirOf?.trans hi)]
  exact ⟨l, r.links.subset hl, hlink'⟩

/-- Twins depend on twins. -/
theorem dependsOn_twin (r : Reordered b b') {n n' m : NodeId} (ht : Twins b.nodes b'.nodes n n')
    (hd : b.graph.DependsOn n m) : ∃ m', Twins b.nodes b'.nodes m m' ∧ b'.graph.DependsOn n' m' := by
  obtain ⟨i, o, slot, hi, ho, hslot, rfl⟩ := hd
  obtain ⟨i', hi', hti⟩ := forall₂_mem_left (ht.forall₂_slots r.left r.right .input) hi
  obtain ⟨o', ho', hto⟩ := r.sourceSlot_twin hti (r.left.laid.dirOf?_input hi) ho
  obtain ⟨slot', hslot', htwins⟩ := hto.exists_slot (Graph.slot_eq_ok_iff.1 hslot)
  exact ⟨slot'.node, htwins, i', o', slot', hi', ho', Graph.slot_of_getElem? hslot', rfl⟩

theorem reaches_twin (r : Reordered b b') {n n' m : NodeId} (ht : Twins b.nodes b'.nodes n n')
    (hd : Relation.ReflTransGen b.graph.DependsOn n m) :
    ∃ m', Twins b.nodes b'.nodes m m' ∧ Relation.ReflTransGen b'.graph.DependsOn n' m' := by
  induction hd with
  | refl => exact ⟨n', ht, .refl⟩
  | tail _ hd ih =>
    obtain ⟨m', hm, hreach⟩ := ih
    obtain ⟨k', hk, hd'⟩ := r.dependsOn_twin hm hd
    exact ⟨k', hk, hreach.tail hd'⟩

theorem acyclic (r : Reordered b b') (h : b'.graph.Acyclic) : b.graph.Acyclic := by
  intro n hcycle
  obtain ⟨m, hd, hreach⟩ := Relation.TransGen.head'_iff.1 hcycle
  have hn : n.index < b.graph.nodes.size := by
    obtain ⟨i, -, -, hi, -⟩ := hd
    obtain ⟨slot, hslot, rfl⟩ := r.left.laid.mem_slotsWhere hi
    exact r.left.laid.owned _ slot hslot
  obtain ⟨n', ht⟩ := r.exists_twin hn
  obtain ⟨m', hm, hd'⟩ := r.dependsOn_twin ht hd
  obtain ⟨n'', ht', hreach'⟩ := r.reaches_twin hm hreach
  obtain rfl := ht.unique r.right.ids ht'
  exact h n' (Relation.TransGen.head'_iff.2 ⟨m', hd', hreach'⟩)

theorem linked (r : Reordered b b') {n n' : NodeId} (ht : Twins b.nodes b'.nodes n n') (h : b.graph.Linked n) :
    b'.graph.Linked n' := by
  intro i' hi'
  obtain ⟨i, hi, hti⟩ := forall₂_mem_right (ht.forall₂_slots r.left r.right .input) hi'
  obtain ⟨o, ho⟩ := h i hi
  obtain ⟨o', ho', -⟩ := r.sourceSlot_twin hti (r.left.laid.dirOf?_input hi) ho
  exact ⟨o', ho'⟩

end Builder.Reordered

end EffectGraph
