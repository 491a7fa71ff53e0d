import EffectGraph.Proofs.Graph.Layout
import EffectGraph.Proofs.Graph.Ordering
import EffectGraph.Proofs.Work
import Mathlib

/-!
# Which nodes depend on which

A node depends on the nodes whose output slots its input slots read. For a graph
that stores one list of links, `allNeeds` finds exactly this relation, for every
node and from both ends (`Agrees.allNeeds_eq`).
-/

namespace EffectGraph

namespace Graph

/-- A node depends on another: one of its inputs reads an output of the other. -/
def DependsOn (g : Graph) (n m : NodeId) : Prop :=
  ∃ i o slot, i ∈ g.slotsWhere n Slot.isInput ∧ g.sourceSlot i = .ok (some o) ∧ g.slot o = .ok slot ∧ slot.node = m

/-- No node depends on itself, directly or not. -/
def Acyclic (g : Graph) : Prop := ∀ n, ¬Relation.TransGen g.DependsOn n n

theorem Laid.mem_slotsWhere_iff {g : Graph} (h : g.Laid) {n : NodeId} {p : Slot → Bool} {s : SlotId} :
    s ∈ g.slotsWhere n p ↔ ∃ slot, g.slots[s.index]? = some slot ∧ slot.node = n ∧ p slot := by
  unfold slotsWhere
  constructor
  · intro hs
    obtain ⟨slot, hm, rfl⟩ := List.mem_map.1 hs
    obtain ⟨hm, hp⟩ := List.mem_filter.1 hm
    obtain ⟨k, hk⟩ := List.mem_iff_getElem?.1 hm
    rw [Array.getElem?_toList] at hk
    rw [Bool.and_eq_true] at hp
    refine ⟨slot, ?_, eq_of_beq hp.1, hp.2⟩
    rw [h.placed k slot hk, hk]
  · rintro ⟨slot, hs, rfl, hp⟩
    refine List.mem_map.2 ⟨slot, List.mem_filter.2 ⟨?_, by simpa using hp⟩, h.placed _ slot hs⟩
    rw [← Array.getElem?_toList] at hs
    exact List.mem_of_getElem? hs

theorem Laid.dirOf?_input {g : Graph} (h : g.Laid) {n : NodeId} {i : SlotId} (hi : i ∈ g.slotsWhere n Slot.isInput) :
    g.dirOf? i = some .input := by
  obtain ⟨slot, hs, -, hp⟩ := h.mem_slotsWhere_iff.1 hi
  exact dirOf?_eq_some_iff.2 ⟨slot, hs, eq_of_beq hp⟩

/-- Of an input the node it reads from is known. -/
theorem Agrees.sourceNode_eq {g : Graph} {L : Links} (h : g.Agrees L) {i : SlotId}
    (hi : g.dirOf? i = some .input) : ∃ found, g.sourceNode i = .ok found ∧
      ∀ m, found = some m ↔ ∃ o slot, g.sourceSlot i = .ok (some o) ∧ g.slot o = .ok slot ∧ slot.node = m := by
  unfold sourceNode
  rw [h.sourceSlot_eq hi]
  cases ho : (L.ends i .input).head? with
  | none => exact ⟨none, rfl, by simp⟩
  | some o =>
    have hmem := Links.mem_ends_input.1 (List.mem_of_head? ho)
    obtain ⟨slot, hs, -⟩ := dirOf?_eq_some_iff.1 (h.joins _ hmem).1
    have hslot := slot_of_getElem? hs
    refine ⟨some slot.node, by simp [bind, Except.bind, pure, Except.pure, hslot], fun m => ?_⟩
    constructor
    · rintro hm
      cases hm
      exact ⟨o, slot, rfl, hslot, rfl⟩
    · rintro ⟨o', slot', ho', hslot', rfl⟩
      cases ho'
      rw [hslot] at hslot'
      cases hslot'
      rfl

/-- What a node needs are the nodes it depends on. -/
theorem Agrees.needsOf_eq {g : Graph} {L : Links} (h : g.Agrees L) (hg : g.Laid) {n : NodeId}
    (hn : n.index < g.nodes.size) : ∃ ns, g.needsOf n = .ok ns ∧ ∀ m, m ∈ ns ↔ g.DependsOn n m := by
  have hnode : g.node n = .ok g.nodes[n.index] := node_eq_ok_iff.2 (Array.getElem?_eq_getElem hn)
  obtain ⟨sources, hs⟩ := Except.exists_mapM_eq_ok.2 fun i (hi : i ∈ g.slotsWhere n Slot.isInput) =>
    (h.sourceNode_eq (hg.dirOf?_input hi)).imp fun _ hfound => hfound.1
  refine ⟨(sources.filterMap id).eraseDups, ?_, fun m => ?_⟩
  · unfold needsOf
    rw [inputSlots_eq hnode]
    simp only [bind, Except.bind, hs]
    rfl
  · rw [List.mem_eraseDups, List.mem_filterMap]
    constructor
    · rintro ⟨found, hfound, hm⟩
      obtain ⟨i, hi, he⟩ := Except.exists_of_mem_mapM hs hfound
      obtain ⟨found', he', hmem⟩ := h.sourceNode_eq (hg.dirOf?_input hi)
      rw [he] at he'
      cases he'
      obtain ⟨o, slot, ho, hslot, hnode⟩ := (hmem m).1 hm
      exact ⟨i, o, slot, hi, ho, hslot, hnode⟩
    · rintro ⟨i, o, slot, hi, ho, hslot, hm⟩
      obtain ⟨found, hfound, he⟩ := Except.exists_of_mapM_mem hs hi
      obtain ⟨found', he', hmem⟩ := h.sourceNode_eq (hg.dirOf?_input hi)
      rw [he] at he'
      cases he'
      exact ⟨found, hfound, (hmem m).2 ⟨o, slot, ho, hslot, hm⟩⟩

/-! ## Needs from both ends -/

theorem getElem?_feedAll (feeds : Array (List NodeId)) (n : NodeId) (deps : List NodeId) (k : Nat) :
    (feedAll feeds n deps)[k]? = feeds[k]?.map (· ++ List.replicate (deps.count ⟨k⟩) n) := by
  induction deps generalizing feeds with
  | nil => simp [feedAll]
  | cons d deps ih =>
    have hstep : feedAll feeds n (d :: deps) = feedAll (feeds.modify d.index (· ++ [n])) n deps := rfl
    rw [hstep, ih, Array.getElem?_modify]
    by_cases hd : d.index = k
    · subst hd
      rw [if_pos rfl, Option.map_map, List.count_cons_self, List.replicate_succ]
      simp [Function.comp_def]
    · rw [if_neg hd, List.count_cons_of_ne]
      rintro rfl
      exact hd rfl

theorem getElem?_foldl_feedAll (ps : List (NodeId × List NodeId)) (feeds : Array (List NodeId)) (k : Nat) :
    (ps.foldl (fun feeds (n, deps) => feedAll feeds n deps) feeds)[k]? =
      feeds[k]?.map (· ++ ps.flatMap fun p => List.replicate (p.2.count ⟨k⟩) p.1) := by
  induction ps generalizing feeds with
  | nil => simp
  | cons p ps ih =>
    rw [List.foldl_cons, ih, getElem?_feedAll, Option.map_map]
    simp [Function.comp_def]

/-- In the nodes that feed on place `m`, each node is as often as `m` is in its
needs. -/
theorem count_users (needs : List (List NodeId)) (first : Nat) (n m : NodeId) :
    ((((List.range' first needs.length).map NodeId.mk).zip needs).flatMap
        fun p => List.replicate (p.2.count m) p.1).count n =
      if first ≤ n.index then (needs.getD (n.index - first) []).count m else 0 := by
  induction needs generalizing first with
  | nil => simp
  | cons deps needs ih =>
    rw [List.length_cons, List.range'_succ, List.map_cons, List.zip_cons_cons, List.flatMap_cons, List.count_append, ih,
      List.count_replicate]
    rcases Nat.lt_trichotomy n.index first with hlt | heq | hgt
    · have hne : (⟨first⟩ : NodeId) ≠ n := by
        rintro rfl
        exact Nat.lt_irrefl _ hlt
      rw [if_neg (by simpa using hne), if_neg (by omega), if_neg (by omega)]
    · have he : (⟨first⟩ : NodeId) = n := by
        rw [← heq]
      rw [if_pos (by simpa using he), if_neg (by omega), if_pos (by omega), heq]
      simp
    · have hne : (⟨first⟩ : NodeId) ≠ n := by
        rintro rfl
        exact Nat.lt_irrefl _ hgt
      have hsub : n.index - first = n.index - (first + 1) + 1 := by omega
      rw [if_neg (by simpa using hne), if_pos (by omega), if_pos (by omega), hsub]
      simp

/-- What is depended on is there. -/
theorem Laid.index_lt_of_dependsOn {g : Graph} (hg : g.Laid) {n m : NodeId} (h : g.DependsOn n m) :
    m.index < g.nodes.size := by
  obtain ⟨i, o, slot, -, -, hslot, rfl⟩ := h
  exact hg.owned _ slot (slot_eq_ok_iff.1 hslot)

/-- The needs of all nodes, listed in order, are the nodes they depend on. -/
theorem Agrees.mem_needs_iff {g : Graph} {L : Links} (h : g.Agrees L) (hg : g.Laid) {needs : List (List NodeId)}
    (hneeds : g.nodeIds.mapM g.needsOf = .ok needs) (n m : NodeId) :
    m ∈ needs.getD n.index [] ↔ g.DependsOn n m := by
  by_cases hn : n.index < g.nodes.size
  · obtain ⟨ns, hns, hmem⟩ := h.needsOf_eq hg hn
    have hid : g.nodeIds[n.index]? = some n := by
      simp [nodeIds, hn]
    obtain ⟨ns', hget, hns'⟩ := Except.getElem?_of_mapM hneeds hid
    rw [hns] at hns'
    cases hns'
    rw [List.getD_eq_getElem?_getD, hget]
    exact hmem m
  · have hlen : needs.length = g.nodes.size := by
      simpa [nodeIds] using (Except.mapM_eq_ok.1 hneeds).length_eq.symm
    rw [List.getD_eq_default _ _ (by omega)]
    refine ⟨fun hm => absurd hm List.not_mem_nil, ?_⟩
    -- A node that is not there has no slots.
    rintro ⟨i, o, slot, hi, -⟩
    rw [slotsWhere_eq, hg.own_eq_nil (by omega)] at hi
    cases hi

/-- What every node needs are the nodes it depends on. -/
theorem Agrees.allNeeds_eq {g : Graph} {L : Links} (h : g.Agrees L) (hg : g.Laid) :
    ∃ d, g.allNeeds = .ok d ∧ d.needs.size = g.nodes.size ∧ d.Mirrored ∧ d.Needed = g.DependsOn := by
  obtain ⟨needs, hneeds⟩ := Except.exists_mapM_eq_ok.2 fun n (hn : n ∈ g.nodeIds) => by
    obtain ⟨k, hk, rfl⟩ := List.mem_map.1 hn
    exact (h.needsOf_eq hg (n := ⟨k⟩) (List.mem_range.1 hk)).imp fun _ hns => hns.1
  have hof := h.mem_needs_iff hg hneeds
  have hlen : needs.length = g.nodes.size := by
    simpa [nodeIds] using (Except.mapM_eq_ok.1 hneeds).length_eq.symm
  have hids : g.nodeIds = (List.range' 0 needs.length).map NodeId.mk := by
    rw [hlen, ← List.range_eq_range']
    rfl
  have hall : g.allNeeds = .ok ⟨needs.toArray, (g.nodeIds.zip needs).foldl
      (fun feeds (n, deps) => feedAll feeds n deps) (Array.replicate g.nodes.size [])⟩ := by
    unfold allNeeds
    rw [hneeds]
    rfl
  refine ⟨_, hall, by simpa using hlen, ⟨?_, ?_⟩, ?_⟩
  · intro n m hm
    simpa [hlen] using hg.index_lt_of_dependsOn ((hof n m).1 (by simpa [Needs.of] using hm))
  · intro n m
    rw [Needs.usersOf, Needs.of, Array.getD_eq_getD_getElem?, getElem?_foldl_feedAll, hids]
    by_cases hm : m.index < g.nodes.size
    · rw [Array.getElem?_replicate, if_pos hm, Option.map_some, Option.getD_some, List.nil_append]
      have hcount := count_users needs 0 n m
      simpa using hcount
    · rw [Array.getElem?_replicate, if_neg hm, Option.map_none, Option.getD_none, List.count_nil, eq_comm,
        List.count_eq_zero]
      intro hneed
      exact hm (hg.index_lt_of_dependsOn ((hof n m).1 (by simpa using hneed)))
  · funext n m
    exact propext (by simpa [Needs.Needed, Needs.of] using hof n m)

end Graph

end EffectGraph
