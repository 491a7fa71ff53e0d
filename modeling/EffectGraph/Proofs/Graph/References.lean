import EffectGraph.Proofs.Graph.Reordering

/-!
# What references name

A reference `node.slot` names a slot that a definition declares (`Names`). A
graph can be built exactly when the identifiers of the definitions differ, a
node can be made of each, and every link goes from the name of an output to the
name of an input. The graph built then has the slots of the definitions, each
found by its own reference and by no other, and its inputs read what the links
say: `Realizes`. Identifiers may contain dots, names of slots never do, so the
last dot of a reference is the one that counts (`slotRef_eq_ok_iff`).
-/

namespace EffectGraph

/-! ## Names of slots -/

namespace Node

theorem name_of_mem_slots {node : Node} (h : node.isBuiltin) (ha : ∀ a, node = .attribute a → a ∈ Attribute.all)
    {decl : SlotDecl} (hd : decl ∈ node.slots) : decl.name.glyphs ≠ [] ∧ dot ∉ decl.name.glyphs := by
  have hnames : ∀ decl ∈ node.slots, decl.name.glyphs ≠ [] ∧ dot ∉ decl.name.glyphs := by
    cases node with
    | custom slots outputs => cases h
    | arithmetic op =>
      simp only [slots]
      decide
    | time => decide
    | normalize => decide
    | _ a =>
      have hall : ∀ a ∈ Attribute.all, a.name.glyphs ≠ [] ∧ dot ∉ a.name.glyphs := by decide
      simpa [slots, SlotDecl.output] using hall a (ha a rfl)
  exact hnames decl hd

/-- The slots of a node have different names. -/
theorem nodup_slotNames {node : Node} (h : node.isBuiltin) : (node.slots.map (·.name)).Nodup := by
  cases node with
  | custom slots outputs => cases h
  | arithmetic op =>
    simp only [slots]
    decide
  | time => decide
  | normalize => decide
  | _ a => exact List.nodup_singleton _

end Node

/-- The reference to a slot of a node: its identifier and the name of the slot,
with a dot between them. -/
def reference (id name : Text) : Text := id ++ ("." : Text) ++ name

theorem splitsAtDot_reference {d : NodeDef} {node : Node} (h : Registry.builtin.create d = .ok node)
    {decl : SlotDecl} (hd : decl ∈ node.slots) {ref id : Text} :
    ref.SplitsAtDot id decl.name ↔ id.glyphs ≠ [] ∧ ref = reference id decl.name := by
  obtain ⟨hbuiltin, ha⟩ := Registry.kind_of_create h
  obtain ⟨hname, hdot⟩ := Node.name_of_mem_slots hbuiltin ha hd
  have href : (reference id decl.name).glyphs = id.glyphs ++ dot :: decl.name.glyphs := by
    simp [reference, dot]
  constructor
  · rintro ⟨hglyphs, hid, -, -⟩
    exact ⟨hid, Text.glyphs_injective (hglyphs.trans href.symm)⟩
  · rintro ⟨hid, rfl⟩
    exact ⟨href, hid, hname, hdot⟩

/-- A reference to a slot that one of some definitions declares in a
direction. -/
def Names (ds : List NodeDef) (ref : Text) (dir : SlotDir) : Prop :=
  ∃ d ∈ ds, ∃ node, Registry.builtin.create d = .ok node ∧
    ∃ decl ∈ node.slots, decl.dir = dir ∧ ref.SplitsAtDot d.id decl.name

namespace Builder.Finished

variable {b : Builder}

theorem nodup_own (h : b.Finished) {n : NodeId} {d : NodeDef} (hd : b.nodes[n.index]? = some d) :
    ((b.graph.own n).map Slot.name).Nodup := by
  obtain ⟨node, hcreate, -, hslots⟩ := h.exists_node hd
  have hnames := Node.nodup_slotNames (Registry.isBuiltin_of_create hcreate)
  rwa [← hslots, List.map_map] at hnames

/-- A reference leads to the slot of a definition that it splits into. -/
theorem resolve_eq_ok_iff (h : b.Finished) {ref : Text} {s : SlotId} :
    b.resolve ref = .ok s ↔ ∃ n d, b.nodes[n.index]? = some d ∧
      ∃ slot ∈ b.graph.own n, slot.id = s ∧ ref.SplitsAtDot d.id slot.name := by
  simp only [resolve_eq_ok, slotRef_eq_ok_iff, h.nodeIds_eq, lookup_places h.ids]
  constructor
  · rintro ⟨id, name, n, hsplit, ⟨d, hd, rfl⟩, hfind⟩
    obtain ⟨slot, hslot, rfl, rfl⟩ := h.laid.findSlot_eq_some hfind
    have hid := h.laid.placed _ slot hslot
    exact ⟨slot.node, d, hd, slot, h.laid.mem_own_iff.2 ⟨by rwa [hid], rfl⟩, hid, hsplit⟩
  · rintro ⟨n, d, hd, slot, hslot, rfl, hsplit⟩
    refine ⟨d.id, slot.name, n, hsplit, ⟨d, hd, rfl⟩, ?_⟩
    obtain ⟨node, -, hnode, -⟩ := h.exists_node hd
    rw [Graph.findSlot_eq hnode]
    -- Some slot of the node is found, and no other one has this name.
    cases hfind : (b.graph.own n).find? fun s => s.name == slot.name with
    | none =>
      have hnone := List.find?_eq_none.1 hfind slot hslot
      simp at hnone
    | some found =>
      have hname := List.find?_some hfind
      rw [List.inj_on_of_nodup_map (h.nodup_own hd) (List.mem_of_find?_eq_some hfind) hslot
        (eq_of_beq hname)]
      rfl

/-- A reference leads to a slot of a direction exactly when it names one. -/
theorem exists_resolve_iff (h : b.Finished) {ref : Text} {dir : SlotDir} :
    (∃ s, b.resolve ref = .ok s ∧ b.graph.dirOf? s = some dir) ↔ Names b.nodes ref dir := by
  constructor
  · rintro ⟨s, hs, hdir⟩
    obtain ⟨n, d, hd, slot, hslot, rfl, hsplit⟩ := h.resolve_eq_ok_iff.1 hs
    obtain ⟨node, hcreate, -, hslots⟩ := h.exists_node hd
    refine ⟨d, List.mem_of_getElem? hd, node, hcreate, slot.decl, ?_, ?_, hsplit⟩
    · rw [← hslots]
      exact List.mem_map_of_mem hslot
    · obtain ⟨slot', hslot', hdir⟩ := Graph.dirOf?_eq_some_iff.1 hdir
      rw [(h.laid.mem_own_iff.1 hslot).1] at hslot'
      cases hslot'
      exact hdir
  · rintro ⟨d, hd, node, hcreate, decl, hdecl, rfl, hsplit⟩
    obtain ⟨k, hk⟩ := List.mem_iff_getElem?.1 hd
    obtain ⟨node', hcreate', -, hslots⟩ := h.exists_node (n := ⟨k⟩) hk
    rw [hcreate] at hcreate'
    cases hcreate'
    rw [← hslots] at hdecl
    obtain ⟨slot, hslot, rfl⟩ := List.mem_map.1 hdecl
    refine ⟨slot.id, h.resolve_eq_ok_iff.2 ⟨⟨k⟩, d, hk, slot, hslot, rfl, hsplit⟩, ?_⟩
    exact Graph.dirOf?_eq_some_iff.2 ⟨slot, (h.laid.mem_own_iff.1 hslot).1, rfl⟩

/-- A link can be made when its source names an output and its target an
input. -/
theorem exists_resolveLink_iff (h : b.Finished) {l : LinkDef} :
    (∃ p, b.resolveLink l = .ok p) ↔ Names b.nodes l.source .output ∧ Names b.nodes l.target .input := by
  rw [← h.exists_resolve_iff, ← h.exists_resolve_iff]
  constructor
  · rintro ⟨p, hp⟩
    obtain ⟨hs, ht, ho, hi⟩ := resolveLink_eq_ok.1 hp
    exact ⟨⟨p.1, hs, ho⟩, p.2, ht, hi⟩
  · rintro ⟨⟨o, hs, ho⟩, i, ht, hi⟩
    exact ⟨(o, i), resolveLink_eq_ok.2 ⟨hs, ht, ho, hi⟩⟩

end Builder.Finished

/-! ## Building -/

namespace Builder

/-- A graph can be built of definitions with different identifiers that the
registry can make, and of links between the slots that they name. -/
theorem exists_build_iff {ds : List NodeDef} {ls : List LinkDef} :
    (∃ b, build { nodes := ds, links := ls } = .ok () b) ↔ (ds.map (·.id)).Nodup ∧
      (∀ d ∈ ds, ∃ node, Registry.builtin.create d = .ok node) ∧
      ∀ l ∈ ls, Names ds l.source .output ∧ Names ds l.target .input := by
  constructor
  · rintro ⟨b, hb⟩
    obtain ⟨nodes, pairs, h⟩ := build_eq_ok.1 hb
    obtain ⟨rfl, -, hfin⟩ := h.finished
    refine ⟨h.ids, fun d hd => ?_, fun l hl => ?_⟩
    · obtain ⟨node, -, hnode⟩ := Except.exists_of_mapM_mem h.made hd
      exact ⟨node, hnode⟩
    · obtain ⟨p, -, hp⟩ := Except.exists_of_mapM_mem h.mapM_resolveLink hl
      exact hfin.exists_resolveLink_iff.1 ⟨p, hp⟩
  · rintro ⟨hids, hmade, hnames⟩
    obtain ⟨nodes, hmade⟩ := Except.exists_mapM_eq_ok.2 hmade
    -- First the graph without links; which slots there are does not depend on them.
    have h₀ : Built Registry.builtin ds [] nodes [] _ := ⟨hids, hmade, rfl, rfl⟩
    obtain ⟨hds, -, hfin⟩ := h₀.finished
    obtain ⟨pairs, b, h, -⟩ := h₀.relinked fun l (hl : l ∈ ls) => by
      rw [hfin.exists_resolveLink_iff, hds]
      exact hnames l hl
    exact ⟨b, build_eq_ok.2 ⟨nodes, pairs, h⟩⟩

/-- A builder whose graph is what definitions and links say. -/
structure Realizes (b : Builder) (ds : List NodeDef) (ls : List LinkDef) : Prop where
  /-- An identifier stands for the node at the place of its definition. -/
  ids : ∀ id n, b.nodeIds.lookup id = some n ↔ ∃ d, ds[n.index]? = some d ∧ d.id = id
  /-- The nodes are those of the definitions, one for each. -/
  nodes : ds.mapM Registry.builtin.create = .ok b.graph.nodes.toList
  /-- A node has the slots that it declares, in order, and there are no others. -/
  slots : ∀ n node, b.graph.node n = .ok node →
    b.graph.slotsOf n = .ok ((b.graph.own n).map Slot.id) ∧ (b.graph.own n).map Slot.decl = node.slots
  /-- Every slot is a slot of a node, and its identifier leads back to it. -/
  placed : ∀ s slot, b.graph.slot s = .ok slot ↔ slot ∈ b.graph.own slot.node ∧ slot.id = s
  /-- A slot is found by the identifier of its node and its own name. -/
  resolves : ∀ n d, ds[n.index]? = some d → d.id.glyphs ≠ [] → ∀ slot ∈ b.graph.own n,
    b.resolve (reference d.id slot.name) = .ok slot.id
  /-- What is found is a slot of the node that the reference names. -/
  sound : ∀ ref s, b.resolve ref = .ok s → ∃ n d, ds[n.index]? = some d ∧
    ∃ slot ∈ b.graph.own n, slot.id = s ∧ ref.SplitsAtDot d.id slot.name
  /-- Different references lead to different slots. -/
  injective : ∀ ref ref' s, b.resolve ref = .ok s → b.resolve ref' = .ok s → ref = ref'
  /-- An input reads the source of the last link to it. -/
  reads : ∀ o i, b.graph.dirOf? i = some .input → (b.graph.sourceSlot i = .ok (some o) ↔
    ∃ l, (b.into ls i).getLast? = some l ∧ b.resolve l.source = .ok o)
  /-- An input without a link reads nothing. -/
  unread : ∀ i, b.graph.dirOf? i = some .input →
    (b.graph.sourceSlot i = .ok none ↔ ∀ l ∈ ls, b.resolve l.target ≠ .ok i)

theorem mem_into {b : Builder} {ls : List LinkDef} {i : SlotId} {l : LinkDef} :
    l ∈ b.into ls i ↔ l ∈ ls ∧ b.resolve l.target = .ok i := by
  rw [into, List.mem_filter, decide_eq_true_iff, Except.toOption_eq_some]

namespace Built

variable {ds : List NodeDef} {ls : List LinkDef} {nodes : List Node} {pairs : List (SlotId × SlotId)} {b : Builder}

theorem own_eq (h : Built Registry.builtin ds ls nodes pairs b) {n : NodeId} {node : Node}
    (hn : b.graph.node n = .ok node) :
    b.graph.slotsOf n = .ok ((b.graph.own n).map Slot.id) ∧ (b.graph.own n).map Slot.decl = node.slots := by
  obtain ⟨rfl, -, hfin⟩ := h.finished
  have hlt := hfin.index_lt (Array.getElem?_eq_some_iff.1 (Graph.node_eq_ok_iff.1 hn)).1
  obtain ⟨node', -, hn', hslots⟩ := hfin.exists_node (List.getElem?_eq_getElem hlt)
  rw [hn] at hn'
  cases hn'
  refine ⟨?_, hslots⟩
  unfold Graph.slotsOf
  rw [hn, Graph.slotsWhere_eq, List.filter_true]
  rfl

theorem resolve_reference (h : Built Registry.builtin ds ls nodes pairs b) {n : NodeId} {d : NodeDef}
    (hd : ds[n.index]? = some d) (hid : d.id.glyphs ≠ []) {slot : Slot} (hslot : slot ∈ b.graph.own n) :
    b.resolve (reference d.id slot.name) = .ok slot.id := by
  obtain ⟨rfl, -, hfin⟩ := h.finished
  obtain ⟨node, hcreate, -, hslots⟩ := hfin.exists_node hd
  have hdecl : slot.decl ∈ node.slots := by
    rw [← hslots]
    exact List.mem_map_of_mem hslot
  refine hfin.resolve_eq_ok_iff.2 ⟨n, d, hd, slot, hslot, rfl, ?_⟩
  exact (splitsAtDot_reference hcreate hdecl).2 ⟨hid, rfl⟩

/-- The last link to an input could be made, so its source leads somewhere. -/
theorem resolve_last (h : Built Registry.builtin ds ls nodes pairs b) {i : SlotId} {l : LinkDef}
    (hl : (b.into ls i).getLast? = some l) : ∃ o, b.resolveLink l = .ok (o, i) := by
  obtain ⟨hmem, htarget⟩ := mem_into.1 (List.mem_of_getLast? hl)
  obtain ⟨⟨o, i'⟩, -, hp⟩ := Except.exists_of_mapM_mem h.mapM_resolveLink hmem
  have ht := (resolveLink_eq_ok.1 hp).2.1
  rw [htarget] at ht
  cases ht
  exact ⟨o, hp⟩

theorem reads (h : Built Registry.builtin ds ls nodes pairs b) {o i : SlotId}
    (hi : b.graph.dirOf? i = some .input) : b.graph.sourceSlot i = .ok (some o) ↔
      ∃ l, (b.into ls i).getLast? = some l ∧ b.resolve l.source = .ok o := by
  rw [h.sourceSlot_eq_some_iff hi]
  refine exists_congr fun l => and_congr_right fun hl => ?_
  obtain ⟨o', hp⟩ := h.resolve_last hl
  rw [hp, (resolveLink_eq_ok.1 hp).1]
  simp

theorem unread (h : Built Registry.builtin ds ls nodes pairs b) {i : SlotId}
    (hi : b.graph.dirOf? i = some .input) :
    b.graph.sourceSlot i = .ok none ↔ ∀ l ∈ ls, b.resolve l.target ≠ .ok i := by
  have hnil : b.into ls i = [] ↔ ∀ l ∈ ls, b.resolve l.target ≠ .ok i := by
    simp only [List.eq_nil_iff_forall_not_mem, mem_into, not_and]
  rw [← hnil]
  constructor
  · intro hnone
    by_contra hne
    obtain ⟨o, hp⟩ := h.resolve_last (List.getLast?_eq_some_getLast hne)
    rw [(h.reads hi).2 ⟨_, List.getLast?_eq_some_getLast hne, (resolveLink_eq_ok.1 hp).1⟩] at hnone
    cases hnone
  · exact h.sourceSlot_eq_none hi

theorem realizes (h : Built Registry.builtin ds ls nodes pairs b) : b.Realizes ds ls := by
  obtain ⟨hds, -, hfin⟩ := h.finished
  exact
    { ids := fun id n => by rw [h.nodeIds_eq, lookup_places h.ids]
      nodes := by
        rw [h.nodes_eq]
        exact h.made
      slots := fun n node => h.own_eq
      placed := fun s slot => by
        rw [Graph.slot_eq_ok_iff, hfin.laid.mem_own_iff]
        constructor
        · intro hs
          obtain rfl : slot.id = s := hfin.laid.placed _ slot hs
          exact ⟨⟨hs, rfl⟩, rfl⟩
        · rintro ⟨⟨hs, -⟩, rfl⟩
          exact hs
      resolves := fun n d hd hid slot => h.resolve_reference hd hid
      sound := fun ref s hs => by
        rw [← hds]
        exact hfin.resolve_eq_ok_iff.1 hs
      injective := fun ref ref' s => h.resolve_injective
      reads := fun o i => h.reads
      unread := fun i => h.unread }

end Built

/-- What definitions say is what is built of them: a build succeeds exactly when
the definitions can be made and the links name slots, and then realises them. -/
theorem build_realizes (ds : List NodeDef) (ls : List LinkDef) :
    ((∃ b, build { nodes := ds, links := ls } = .ok () b) ↔ (ds.map (·.id)).Nodup ∧
      (∀ d ∈ ds, ∃ node, Registry.builtin.create d = .ok node) ∧
      ∀ l ∈ ls, Names ds l.source .output ∧ Names ds l.target .input) ∧
    ∀ b, build { nodes := ds, links := ls } = .ok () b → b.Realizes ds ls := by
  refine ⟨exists_build_iff, fun b hb => ?_⟩
  obtain ⟨nodes, pairs, h⟩ := build_eq_ok.1 hb
  exact h.realizes

/-- A node whose identifier has a dot, and one that reads it in place of the
time. -/
def dottedGroup : Builder where
  nodes := [{ id := "group.v", type := "Attribute", params := [(.str "attribute", .str "velocity")] },
    { id := "time", type := "Time" }, { id := "n", type := "Normalize" }]
  links := [⟨"time.delta_time", "n.in"⟩, ⟨"group.v.velocity", "n.in"⟩]

theorem build_realizes_dottedGroup : ∃ b, build dottedGroup = .ok () b ∧
    b.Realizes dottedGroup.nodes dottedGroup.links ∧ b.resolve "group.v.velocity" = .ok ⟨0⟩ ∧
    b.graph.sourceSlot ⟨3⟩ = .ok (some ⟨0⟩) := by
  have hanswer : answer? (build dottedGroup) = some () := by
    cbv
  have hslots : (lastState (build dottedGroup)).resolve "group.v.velocity" = .ok ⟨0⟩ ∧
      (lastState (build dottedGroup)).graph.sourceSlot ⟨3⟩ = .ok (some ⟨0⟩) := by
    constructor
    · cbv
    · cbv
  obtain ⟨b, hb⟩ := answer?_eq_some.1 hanswer
  rw [hb] at hslots
  exact ⟨b, hb, (build_realizes dottedGroup.nodes dottedGroup.links).2 b hb, hslots⟩

end Builder
end EffectGraph
