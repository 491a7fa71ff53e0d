import EffectGraph.Graph.Builder
import EffectGraph.Proofs.Failure
import EffectGraph.Proofs.Graph.Layout
import Mathlib.Data.List.TakeWhile

/-!
# What building a graph comes to

`build_eq_ok` says when a build succeeds and what it leaves: the nodes of the
definitions at the places of their definitions, and the links that the
references lead to, made one after the other (`Links.linkAll`). Which slot a
reference leads to does not depend on the links (`resolve_relink`), different
references lead to different slots (`resolve_injective`), and of the links to
one input the last one stays (`mem_linkAll_nil`).
-/

namespace EffectGraph

namespace Builder

/-- Definitions by identifier: the node of each has the place of its definition. -/
def places (ds : List NodeDef) : List (Text × NodeId) := ds.mapIdx fun k d => (d.id, ⟨k⟩)

theorem checking_of_ok {f : Builder → Except Error α} {b : Builder} {a : α} (h : f b = .ok a) :
    checking f b = .ok a b := by
  simp only [checking, h]

theorem checking_of_error {f : Builder → Except Error α} {b : Builder} {e : Error} (h : f b = .error e) :
    checking f b = .error e b := by
  simp only [checking, h]

theorem addNode_of_used {b : Builder} {d : NodeDef} (h : (b.nodeIds.lookup d.id).isSome) :
    addNode d b = .error (.duplicateNode d.id) b := by
  rw [addNode, EStateM.bind_of_ok (EStateM.get_apply b), if_pos h]
  rfl

theorem addNode_of_new {b : Builder} {d : NodeDef} (h : b.nodeIds.lookup d.id = none) :
    addNode d b = (do
      let node ← checking (·.registry.create d)
      modify fun b : Builder => { b with
        graph := (b.graph.addNode node).2
        nodeIds := b.nodeIds ++ [(d.id, NodeId.mk b.graph.nodes.size)] }) b := by
  rw [addNode, EStateM.bind_of_ok (EStateM.get_apply b), if_neg (by simp [h])]
  rfl

theorem addNode_eq_ok {b b' : Builder} {d : NodeDef} :
    addNode d b = .ok () b' ↔ b.nodeIds.lookup d.id = none ∧ ∃ node, b.registry.create d = .ok node ∧
      b' = { b with
        graph := (b.graph.addNode node).2
        nodeIds := b.nodeIds ++ [(d.id, ⟨b.graph.nodes.size⟩)] } := by
  cases hl : b.nodeIds.lookup d.id with
  | some n => simp [addNode_of_used (b := b) (d := d) (by simp [hl])]
  | none =>
    rw [addNode_of_new hl]
    cases hc : b.registry.create d with
    | error e => simp [EStateM.bind_of_error (checking_of_error (f := (·.registry.create d)) hc)]
    | ok node =>
      rw [EStateM.bind_of_ok (checking_of_ok (f := (·.registry.create d)) hc)]
      simp [EStateM.modify_apply, eq_comm]

/-! ## Nodes -/

theorem places_append (ds : List NodeDef) (d : NodeDef) :
    places (ds ++ [d]) = places ds ++ [(d.id, ⟨ds.length⟩)] := by
  simp [places, List.mapIdx_append]

theorem mem_places {ds : List NodeDef} {id : Text} {n : NodeId} :
    (id, n) ∈ places ds ↔ ∃ d, ds[n.index]? = some d ∧ d.id = id := by
  unfold places
  rw [List.mem_mapIdx]
  constructor
  · rintro ⟨k, hk, he⟩
    cases he
    exact ⟨ds[k], List.getElem?_eq_getElem hk, rfl⟩
  · rintro ⟨d, hd, rfl⟩
    obtain ⟨hk, rfl⟩ := List.getElem?_eq_some_iff.1 hd
    exact ⟨n.index, hk, rfl⟩

theorem map_fst_places (ds : List NodeDef) : (places ds).map Prod.fst = ds.map (·.id) := by
  apply List.ext_getElem?
  intro k
  simp [places, Function.comp_def]

theorem lookup_places_eq_none {ds : List NodeDef} {id : Text} :
    (places ds).lookup id = none ↔ id ∉ ds.map (·.id) := by
  rw [← map_fst_places, List.lookup_eq_none_iff, List.mem_map]
  simp only [bne_iff_ne, not_exists, not_and]
  exact forall₂_congr fun p hp => ne_comm

/-- Identifiers that differ lead to the places of their definitions. -/
theorem lookup_places {ds : List NodeDef} (hn : (ds.map (·.id)).Nodup) {id : Text} {n : NodeId} :
    (places ds).lookup id = some n ↔ ∃ d, ds[n.index]? = some d ∧ d.id = id := by
  rw [← map_fst_places] at hn
  rw [lookup_eq_some_iff_mem hn, mem_places]

/-- A builder before its first step. -/
def start (registry : Registry) (ds : List NodeDef) (links : List LinkDef) : Builder :=
  { nodes := ds, links := links, registry := registry }

/-- The builder once it has made the nodes of definitions, without any link. -/
def withNodes (b : Builder) (ds : List NodeDef) (nodes : List Node) : Builder :=
  { b with graph := Graph.reached (nodes.map .addNode), nodeIds := places ds }

theorem nodes_reached (nodes : List Node) : (Graph.reached (nodes.map .addNode)).nodes = nodes.toArray := by
  induction nodes using List.reverseRecOn with
  | nil => rfl
  | append_singleton nodes node ih =>
    rw [List.map_append, List.map_singleton, Graph.reached_snoc]
    simp [Graph.after, Graph.addNode, ih]

/-- One node more. -/
theorem withNodes_addNode_eq_ok {b b' : Builder} {ds : List NodeDef} {nodes : List Node}
    (hlen : ds.length = nodes.length) {d : NodeDef} :
    addNode d (b.withNodes ds nodes) = .ok () b' ↔ d.id ∉ ds.map (·.id) ∧
      ∃ node, b.registry.create d = .ok node ∧ b' = b.withNodes (ds ++ [d]) (nodes ++ [node]) := by
  rw [addNode_eq_ok]
  simp only [withNodes, lookup_places_eq_none, places_append, List.map_append, List.map_singleton,
    Graph.reached_snoc, nodes_reached, List.size_toArray, hlen, Graph.after]

/-- The nodes of definitions can be made when their identifiers differ and the
registry knows how to make each. -/
theorem forM_addNode_eq_ok {registry : Registry} {all ds : List NodeDef} {links : List LinkDef} {b : Builder} :
    ds.forM addNode (start registry all links) = .ok () b ↔ (ds.map (·.id)).Nodup ∧
      ∃ nodes, ds.mapM registry.create = .ok nodes ∧ b = (start registry all links).withNodes ds nodes := by
  induction ds using List.reverseRecOn generalizing b with
  | nil => simp [start, withNodes, places, pure, EStateM.pure, Except.pure, eq_comm]
  | append_singleton ds d ih =>
    rw [EStateM.forM_append_eq_ok, List.map_append, List.map_singleton, List.nodup_append_comm,
      List.singleton_append, List.nodup_cons]
    simp only [EStateM.forM_cons_eq_ok, ih, Except.mapM_append_eq_ok]
    constructor
    · rintro ⟨_, ⟨hn, nodes, hm, rfl⟩, _, hd, hend⟩
      cases hend
      have hlen := (Except.mapM_eq_ok.1 hm).length_eq
      obtain ⟨hnew, node, hc, rfl⟩ := (withNodes_addNode_eq_ok hlen).1 hd
      exact ⟨⟨hnew, hn⟩, _, ⟨nodes, [node], hm, Except.mapM_eq_ok.2 (.cons hc .nil), rfl⟩, rfl⟩
    · rintro ⟨⟨hnew, hn⟩, _, ⟨nodes, _, hm, hd, rfl⟩, rfl⟩
      have hlen := (Except.mapM_eq_ok.1 hm).length_eq
      obtain ⟨node, hc, rfl⟩ := Except.mapM_singleton_eq_ok.1 hd
      exact ⟨_, ⟨hn, nodes, hm, rfl⟩, _, (withNodes_addNode_eq_ok hlen).2 ⟨hnew, node, hc, rfl⟩, rfl⟩

/-! ## Links -/

/-- Which slot a name stands for does not depend on the links. -/
theorem findSlot_relink (g : Graph) (L : Links) (n : NodeId) (name : Text) :
    (g.relink L).findSlot n name = g.findSlot n name := by
  have hfind : ∀ slots : Array Slot,
      (slots.toList.find? fun s => s.node == n && s.name == name).map Slot.id =
        ((slots.toList.map fun s => (s.node, s.decl, s.id)).find? fun t =>
          t.1 == n && t.2.1.name == name).map (·.2.2) := by
    intro slots
    rw [List.find?_map, Option.map_map]
    rfl
  have hsame : (g.relink L).slots.toList.map (fun s => (s.node, s.decl, s.id)) =
      g.slots.toList.map fun s => (s.node, s.decl, s.id) := by
    apply List.ext_getElem?
    intro k
    simp [Graph.relink, Function.comp_def]
  unfold Graph.findSlot
  rw [hfind, hfind, hsame]
  rfl

theorem resolve_relink (b : Builder) (L : Links) (ref : Text) :
    resolve { b with graph := b.graph.relink L } ref = b.resolve ref := by
  simp only [resolve, findSlot_relink]

/-- A link leads from an output to an input. -/
theorem resolveLink_eq_ok {b : Builder} {l : LinkDef} {p : SlotId × SlotId} :
    b.resolveLink l = .ok p ↔ b.resolve l.source = .ok p.1 ∧ b.resolve l.target = .ok p.2 ∧
      b.graph.dirOf? p.1 = some .output ∧ b.graph.dirOf? p.2 = some .input := by
  obtain ⟨o, i⟩ := p
  unfold resolveLink
  cases hs : b.resolve l.source with
  | error e => simp [bind, Except.bind]
  | ok o' =>
    cases ht : b.resolve l.target with
    | error e => simp [bind, Except.bind]
    | ok i' =>
      -- Both references are known; what is left are the slots and their directions.
      have hsame : (o' = o ∧ i' = i ∧ b.graph.dirOf? o = some .output ∧ b.graph.dirOf? i = some .input) ↔
          (o' = o ∧ i' = i ∧ b.graph.dirOf? o' = some .output ∧ b.graph.dirOf? i' = some .input) := by
        constructor <;> rintro ⟨rfl, rfl, h⟩ <;> exact ⟨rfl, rfl, h⟩
      simp only [Except.ok.injEq, hsame]
      rcases b.graph.slot_cases o' with ⟨so, ho, hdo⟩ | ⟨ho, hdo⟩
      · rcases b.graph.slot_cases i' with ⟨si, hi, hdi⟩ | ⟨hi, hdi⟩
        · cases hso : so.dir <;> cases hsi : si.dir <;>
            simp [bind, Except.bind, pure, Except.pure, ho, hi, Slot.isOutput, Slot.isInput, hso, hsi, hdo, hdi]
        · cases hso : so.dir <;>
            simp [bind, Except.bind, ho, hi, Slot.isOutput, hso, hdo, hdi]
      · simp [bind, Except.bind, ho, hdo]

end Builder

namespace Links

/-- Links made one after the other. -/
def linkAll (L : Links) (pairs : List (SlotId × SlotId)) : Links := pairs.foldl (fun L p => L.link p.1 p.2) L

@[simp] theorem linkAll_nil (L : Links) : L.linkAll [] = L := rfl

@[simp] theorem linkAll_cons (L : Links) (p : SlotId × SlotId) (pairs : List (SlotId × SlotId)) :
    L.linkAll (p :: pairs) = (L.link p.1 p.2).linkAll pairs := rfl

theorem linkAll_snoc (L : Links) (pairs : List (SlotId × SlotId)) (p : SlotId × SlotId) :
    L.linkAll (pairs ++ [p]) = (L.linkAll pairs).link p.1 p.2 := by
  simp [linkAll]

theorem Once.linkAll {L : Links} (h : L.Once) (pairs : List (SlotId × SlotId)) : (L.linkAll pairs).Once := by
  induction pairs generalizing L with
  | nil => exact h
  | cons p pairs ih => exact ih (h.link p.1 p.2)

theorem once_nil : Once [] := List.nodup_nil

theorem mem_of_mem_linkAll {L : Links} {pairs : List (SlotId × SlotId)} {p : SlotId × SlotId}
    (h : p ∈ L.linkAll pairs) : p ∈ L ∨ p ∈ pairs := by
  induction pairs generalizing L with
  | nil => exact .inl h
  | cons q pairs ih =>
    rcases ih h with h | h
    · rcases mem_link h with h | rfl
      · exact .inl h
      · exact .inr List.mem_cons_self
    · exact .inr (List.mem_cons_of_mem _ h)

theorem mem_link_iff {L : Links} (h : L.Once) {o i o' i' : SlotId} :
    (o, i) ∈ L.link o' i' ↔ if i = i' then o = o' else (o, i) ∈ L := by
  by_cases hm : (o', i') ∈ L
  · rw [link_of_mem hm]
    split
    · next hi =>
      subst hi
      exact ⟨fun ho => h.eq_of_mem ho hm, fun ho => ho ▸ hm⟩
    · rfl
  · rw [link_of_not_mem hm]
    by_cases hi : i = i'
    · simp [hi]
    · simp [hi]

/-- Of the links made to an input, the last one stays. -/
theorem mem_linkAll_nil {pairs : List (SlotId × SlotId)} {o i : SlotId} :
    (o, i) ∈ Links.linkAll [] pairs ↔ (pairs.filter (·.2 = i)).getLast? = some (o, i) := by
  induction pairs using List.reverseRecOn with
  | nil => simp
  | append_singleton pairs p ih =>
    obtain ⟨o', i'⟩ := p
    rw [linkAll_snoc, mem_link_iff (once_nil.linkAll pairs), List.filter_append]
    by_cases hi : i = i'
    · subst hi
      simp [eq_comm]
    · simp [hi, Ne.symm hi, ih]

end Links

namespace Builder

/-- One link more. -/
theorem addLink_eq_ok {b b' : Builder} {L : Links} (ha : b.graph.Agrees L) {l : LinkDef} :
    addLink l b = .ok () b' ↔ ∃ p, b.resolveLink l = .ok p ∧
      b' = { b with graph := b.graph.relink (L.link p.1 p.2) } := by
  cases hp : b.resolveLink l with
  | error e => simp [addLink, EStateM.bind_of_error (checking_of_error (f := (·.resolveLink l)) hp)]
  | ok p =>
    obtain ⟨-, -, ho, hi⟩ := resolveLink_eq_ok.1 hp
    rw [addLink, EStateM.bind_of_ok (checking_of_ok (f := (·.resolveLink l)) hp)]
    simp [onGraph, ha.link_eq ho hi, eq_comm]

theorem resolveLink_relink {b : Builder} {L : Links} {l : LinkDef} {p : SlotId × SlotId} :
    resolveLink { b with graph := b.graph.relink L } l = .ok p ↔ b.resolveLink l = .ok p := by
  simp only [resolveLink_eq_ok, resolve_relink, Graph.dirOf?_relink]

/-- Links can be made when the references of each lead from an output to an
input. -/
theorem forM_addLink_eq_ok {b b' : Builder} {L : Links} (ha : b.graph.Agrees L) {ls : List LinkDef} :
    ls.forM addLink b = .ok () b' ↔ ∃ pairs, ls.mapM b.resolveLink = .ok pairs ∧
      b' = { b with graph := b.graph.relink (L.linkAll pairs) } := by
  induction ls generalizing b L with
  | nil => simp [pure, EStateM.pure, Except.pure, ha.stored, eq_comm]
  | cons l ls ih =>
    have hstep : ∀ p, b.resolveLink l = .ok p → ((ls.forM addLink
        { b with graph := b.graph.relink (L.link p.1 p.2) } = .ok () b') ↔ ∃ pairs, ls.mapM b.resolveLink = .ok pairs ∧
          b' = { b with graph := b.graph.relink ((L.link p.1 p.2).linkAll pairs) }) := by
      intro p hp
      obtain ⟨-, -, hd⟩ := resolveLink_eq_ok.1 hp
      have ha' : (b.graph.relink (L.link p.1 p.2)).Agrees (L.link p.1 p.2) := by
        refine Graph.agrees_relink (ha.once.link p.1 p.2) fun q hq => ?_
        rcases Links.mem_link hq with hq | rfl
        · exact ha.joins q hq
        · exact hd
      rw [ih ha']
      simp only [Except.mapM_eq_ok, resolveLink_relink, Graph.relink_relink]
    simp only [EStateM.forM_cons_eq_ok, addLink_eq_ok ha, Except.mapM_cons_eq_ok]
    constructor
    · rintro ⟨_, ⟨p, hp, rfl⟩, h⟩
      obtain ⟨pairs, hm, rfl⟩ := (hstep p hp).1 h
      exact ⟨p :: pairs, ⟨p, pairs, hp, hm, rfl⟩, rfl⟩
    · rintro ⟨_, ⟨p, pairs, hp, hm, rfl⟩, rfl⟩
      exact ⟨_, ⟨p, hp, rfl⟩, (hstep p hp).2 ⟨pairs, hm, rfl⟩⟩

theorem links_addNodes (nodes : List Node) : Graph.links (nodes.map .addNode) = [] := by
  induction nodes using List.reverseRecOn with
  | nil => rfl
  | append_singleton nodes node ih =>
    rw [List.map_append, List.map_singleton, Graph.links_snoc, ih]
    rfl

theorem agrees_withNodes (b : Builder) (ds : List NodeDef) (nodes : List Node) :
    (b.withNodes ds nodes).graph.Agrees [] := by
  have h := Graph.reached_agrees (nodes.map .addNode)
  rwa [links_addNodes] at h

/-- What a build that succeeds leaves: the nodes of all definitions, at the
places of their definitions, and the links that the references lead to. -/
structure Built (registry : Registry) (ds : List NodeDef) (ls : List LinkDef) (nodes : List Node)
    (pairs : List (SlotId × SlotId)) (b : Builder) : Prop where
  ids : (ds.map (·.id)).Nodup
  made : ds.mapM registry.create = .ok nodes
  resolved : ls.mapM ((start registry ds ls).withNodes ds nodes).resolveLink = .ok pairs
  eq : b = { (start registry ds ls).withNodes ds nodes with
    graph := (Graph.reached (nodes.map .addNode)).relink (Links.linkAll [] pairs) }

theorem build_eq_ok {registry : Registry} {ds : List NodeDef} {ls : List LinkDef} {b : Builder} :
    build (start registry ds ls) = .ok () b ↔ ∃ nodes pairs, Built registry ds ls nodes pairs b := by
  constructor
  · intro h
    obtain ⟨_, _, hget, h⟩ := EStateM.bind_eq_ok.1 h
    cases hget
    obtain ⟨_, b₁, hnodes, h⟩ := EStateM.bind_eq_ok.1 h
    obtain ⟨hn, nodes, hm, rfl⟩ := forM_addNode_eq_ok.1 hnodes
    obtain ⟨_, _, hget, h⟩ := EStateM.bind_eq_ok.1 h
    cases hget
    obtain ⟨pairs, hp, rfl⟩ := (forM_addLink_eq_ok (agrees_withNodes _ ds nodes)).1 h
    exact ⟨nodes, pairs, hn, hm, hp, rfl⟩
  · rintro ⟨nodes, pairs, hn, hm, hp, rfl⟩
    have hnodes : ds.forM addNode (start registry ds ls) = .ok () ((start registry ds ls).withNodes ds nodes) :=
      forM_addNode_eq_ok.2 ⟨hn, nodes, hm, rfl⟩
    have hlinks := (forM_addLink_eq_ok (agrees_withNodes _ ds nodes)).2 ⟨pairs, hp, rfl⟩
    exact EStateM.bind_eq_ok.2 ⟨_, _, rfl, EStateM.bind_eq_ok.2 ⟨(), _, hnodes,
      EStateM.bind_eq_ok.2 ⟨_, _, rfl, hlinks⟩⟩⟩

namespace Built

variable {registry : Registry} {ds : List NodeDef} {ls : List LinkDef} {nodes : List Node}
  {pairs : List (SlotId × SlotId)} {b : Builder}

theorem nodes_eq (h : Built registry ds ls nodes pairs b) : b.graph.nodes = nodes.toArray := by
  rw [h.eq, ← nodes_reached]
  rfl

theorem nodeIds_eq (h : Built registry ds ls nodes pairs b) : b.nodeIds = places ds := by
  rw [h.eq]
  rfl

theorem laid (h : Built registry ds ls nodes pairs b) : b.graph.Laid := by
  rw [h.eq]
  exact (Graph.reached_laid _).relink _

/-- References lead where they led before the links were made. -/
theorem resolve_eq (h : Built registry ds ls nodes pairs b) (ref : Text) :
    b.resolve ref = ((start registry ds ls).withNodes ds nodes).resolve ref := by
  rw [h.eq]
  exact resolve_relink ((start registry ds ls).withNodes ds nodes) _ ref

theorem mapM_resolveLink (h : Built registry ds ls nodes pairs b) : ls.mapM b.resolveLink = .ok pairs := by
  have hr := h.resolved
  rw [Except.mapM_eq_ok] at hr ⊢
  refine hr.imp fun l p hp => ?_
  rw [h.eq]
  exact resolveLink_relink.2 hp

theorem agrees (h : Built registry ds ls nodes pairs b) : b.graph.Agrees (Links.linkAll [] pairs) := by
  rw [h.eq]
  refine Graph.agrees_relink (Links.once_nil.linkAll pairs) fun p hp => ?_
  have hmem := (Links.mem_of_mem_linkAll hp).resolve_left List.not_mem_nil
  obtain ⟨l, -, hl⟩ := Except.exists_of_mem_mapM h.resolved hmem
  exact (resolveLink_eq_ok.1 hl).2.2

/-- Other links can be made in place of the ones there are, if their references
lead from outputs to inputs. -/
theorem relinked (h : Built registry ds ls nodes pairs b) {ls' : List LinkDef}
    (hls : ∀ l ∈ ls', ∃ p, b.resolveLink l = .ok p) :
    ∃ pairs' b', Built registry ds ls' nodes pairs' b' ∧ b'.nodeIds = b.nodeIds ∧ b'.graph.nodes = b.graph.nodes ∧
      b'.resolve = b.resolve ∧ b'.graph.dirOf? = b.graph.dirOf? := by
  obtain ⟨pairs', hp⟩ : ∃ pairs', ls'.mapM ((start registry ds ls').withNodes ds nodes).resolveLink = .ok pairs' := by
    rw [Except.exists_mapM_eq_ok]
    intro l hl
    obtain ⟨p, hp⟩ := hls l hl
    rw [h.eq] at hp
    exact ⟨p, resolveLink_relink.1 hp⟩
  have h' : Built registry ds ls' nodes pairs' _ := ⟨h.ids, h.made, hp, rfl⟩
  refine ⟨pairs', _, h', ?_, ?_, ?_, ?_⟩
  · rw [h.nodeIds_eq, h'.nodeIds_eq]
  · rw [h.nodes_eq, h'.nodes_eq]
  · funext ref
    rw [h.resolve_eq, h'.resolve_eq]
    rfl
  · funext s
    rw [h.eq]
    simp only [Graph.dirOf?_relink]

end Built

end Builder

/-! ## References -/

/-- A reference is its two parts with a dot between them. -/
theorem glyphs_of_slotRef {ref node slot : Text} (h : slotRef ref = .ok (node, slot)) :
    ref.glyphs = node.glyphs ++ dot :: slot.glyphs := by
  unfold slotRef splitAtLastDot at h
  dsimp only at h
  split at h
  · cases h
  · next hok =>
    cases h
    have hdot : dot ∈ ref.glyphs := by
      by_contra hno
      exact hok (by simp [hno])
    -- Read from the end: the slot, up to the first dot, and what is left.
    cases hrest : ref.glyphs.reverse.dropWhile (· != dot) with
    | nil =>
      rw [List.dropWhile_eq_nil_iff] at hrest
      have := hrest dot (List.mem_reverse.2 hdot)
      simp at this
    | cons g rest =>
      have hg : g = dot := by
        have := List.head?_dropWhile_not (· != dot) ref.glyphs.reverse
        simpa [hrest] using this
      have hback := List.takeWhile_append_dropWhile (p := (· != dot)) (l := ref.glyphs.reverse)
      generalize ref.glyphs.reverse.takeWhile (· != dot) = slot at hback
      have hall : ref.glyphs = rest.reverse ++ dot :: slot.reverse := by
        rw [← List.reverse_reverse ref.glyphs, ← hback, hrest, hg]
        simp
      have hnode : rest.length + (slot.length + 1) - slot.length - 1 = rest.reverse.length := by
        rw [List.length_reverse]
        omega
      simp only [hall, List.length_append, List.length_reverse, List.length_cons]
      rw [hnode, List.take_left]

/-- A reference with its parts: what stands before its last dot and what stands
behind. Neither part is empty. -/
structure Text.SplitsAtDot (ref id name : Text) : Prop where
  glyphs : ref.glyphs = id.glyphs ++ dot :: name.glyphs
  id_ne : id.glyphs ≠ []
  name_ne : name.glyphs ≠ []
  last : dot ∉ name.glyphs

theorem splitAtLastDot_append {front back : List Glyph} (h : dot ∉ back) :
    splitAtLastDot (front ++ dot :: back) = (front, back) := by
  have hback : (front ++ dot :: back).reverse.takeWhile (· != dot) = back.reverse := by
    rw [List.reverse_append, List.reverse_cons, List.append_assoc, List.takeWhile_append_of_pos]
    · simp
    · intro g hg
      rw [List.mem_reverse] at hg
      exact bne_iff_ne.2 fun he => h (he ▸ hg)
  have hfront : (front ++ dot :: back).length - back.length - 1 = front.length := by
    rw [List.length_append, List.length_cons]
    omega
  simp only [splitAtLastDot, hback, List.reverse_reverse, hfront, List.take_left]

theorem not_mem_splitAtLastDot (ref : List Glyph) : dot ∉ (splitAtLastDot ref).2 := by
  intro h
  have hne := List.mem_takeWhile_imp (List.mem_reverse.1 h)
  simp at hne

/-- A reference splits at its last dot, or it is faulty. -/
theorem slotRef_eq_ok_iff {ref id name : Text} : slotRef ref = .ok (id, name) ↔ ref.SplitsAtDot id name := by
  constructor
  · intro h
    have hglyphs := glyphs_of_slotRef h
    unfold slotRef at h
    dsimp only at h
    split at h
    · cases h
    · next hok =>
      cases h
      simp only [Bool.or_eq_true, List.isEmpty_iff, not_or] at hok
      exact ⟨hglyphs, hok.1.2, hok.2, not_mem_splitAtLastDot _⟩
  · rintro ⟨hglyphs, hid, hname, hlast⟩
    unfold slotRef
    rw [hglyphs, splitAtLastDot_append hlast]
    simp [hid, hname]

namespace Builder

theorem resolve_eq_ok {b : Builder} {ref : Text} {s : SlotId} :
    b.resolve ref = .ok s ↔ ∃ node slot n, slotRef ref = .ok (node, slot) ∧ b.nodeIds.lookup node = some n ∧
      b.graph.findSlot n slot = .ok (some s) := by
  unfold resolve
  cases hr : slotRef ref with
  | error e => simp [bind, Except.bind]
  | ok parts =>
    obtain ⟨node, slot⟩ := parts
    cases hn : b.nodeIds.lookup node with
    | none => simp [bind, Except.bind, hn]
    | some n =>
      cases hs : b.graph.findSlot n slot with
      | error e => simp [bind, Except.bind, hn, hs]
      | ok found =>
        cases found with
        | none => simp [bind, Except.bind, hn, hs]
        | some s' => simp [bind, Except.bind, pure, Except.pure, hn, hs]

end Builder

/-- A slot that is found by name is a slot of the node with that name. -/
theorem Graph.Laid.findSlot_eq_some {g : Graph} (h : g.Laid) {n : NodeId} {name : Text} {s : SlotId}
    (hs : g.findSlot n name = .ok (some s)) :
    ∃ slot, g.slots[s.index]? = some slot ∧ slot.node = n ∧ slot.name = name := by
  obtain ⟨node, hn, -⟩ := Except.bind_eq_ok.1 hs
  rw [findSlot_eq hn, Except.ok.injEq, Option.map_eq_some_iff] at hs
  obtain ⟨slot, hfound, rfl⟩ := hs
  have hname := List.find?_some hfound
  have hmem := List.mem_of_find?_eq_some hfound
  unfold own at hmem
  obtain ⟨hmem, hnode⟩ := List.mem_filter.1 hmem
  obtain ⟨k, hk⟩ := List.mem_iff_getElem?.1 hmem
  rw [Array.getElem?_toList] at hk
  refine ⟨slot, ?_, eq_of_beq hnode, eq_of_beq hname⟩
  rw [h.placed k slot hk, hk]

/-- The links to an input, in order. -/
def Builder.into (b : Builder) (ls : List LinkDef) (i : SlotId) : List LinkDef :=
  ls.filter fun l => (b.resolve l.target).toOption = some i

theorem Builder.getLast?_pairs {b : Builder} {ls : List LinkDef} {pairs : List (SlotId × SlotId)}
    (h : ls.mapM b.resolveLink = .ok pairs) (i : SlotId) :
    (pairs.filter (·.2 = i)).getLast? = (b.into ls i).getLast?.bind fun l => (b.resolveLink l).toOption := by
  induction ls using List.reverseRecOn generalizing pairs with
  | nil =>
    cases h
    rfl
  | append_singleton ls l ih =>
    obtain ⟨ps, _, hps, hl, rfl⟩ := Except.mapM_append_eq_ok.1 h
    obtain ⟨p, hp, rfl⟩ := Except.mapM_singleton_eq_ok.1 hl
    obtain ⟨-, ht, -⟩ := resolveLink_eq_ok.1 hp
    unfold into at ih ⊢
    rw [List.filter_append, List.filter_append]
    by_cases hi : p.2 = i
    · simp [hi, ht, hp, Except.toOption]
    · simp [hi, ht, Except.toOption, ih hps]

namespace Builder.Built

variable {registry : Registry} {ds : List NodeDef} {ls : List LinkDef} {nodes : List Node}
  {pairs : List (SlotId × SlotId)} {b : Builder}

/-- Different references lead to different slots. -/
theorem resolve_injective (h : Built registry ds ls nodes pairs b) {ref ref' : Text} {s : SlotId}
    (hs : b.resolve ref = .ok s) (hs' : b.resolve ref' = .ok s) : ref = ref' := by
  obtain ⟨node, slot, n, hr, hl, hf⟩ := resolve_eq_ok.1 hs
  obtain ⟨node', slot', n', hr', hl', hf'⟩ := resolve_eq_ok.1 hs'
  obtain ⟨sl, hsl, rfl, rfl⟩ := h.laid.findSlot_eq_some hf
  obtain ⟨sl', hsl', rfl, rfl⟩ := h.laid.findSlot_eq_some hf'
  rw [hsl] at hsl'
  cases hsl'
  rw [h.nodeIds_eq, lookup_places h.ids] at hl hl'
  obtain ⟨d, hd, rfl⟩ := hl
  obtain ⟨d', hd', rfl⟩ := hl'
  rw [hd] at hd'
  cases hd'
  cases ref
  cases ref'
  rw [Text.mk.injEq]
  exact (glyphs_of_slotRef hr).trans (glyphs_of_slotRef hr').symm

/-- Different links join different slots. -/
theorem resolveLink_injective (h : Built registry ds ls nodes pairs b) {l l' : LinkDef} {p : SlotId × SlotId}
    (hp : b.resolveLink l = .ok p) (hp' : b.resolveLink l' = .ok p) : l = l' := by
  obtain ⟨hs, ht, -⟩ := resolveLink_eq_ok.1 hp
  obtain ⟨hs', ht', -⟩ := resolveLink_eq_ok.1 hp'
  cases l
  cases l'
  rw [LinkDef.mk.injEq]
  exact ⟨h.resolve_injective hs hs', h.resolve_injective ht ht'⟩

/-- An input reads what the last of its links says. -/
theorem sourceSlot_eq_some_iff (h : Built registry ds ls nodes pairs b) {o i : SlotId}
    (hi : b.graph.dirOf? i = some .input) :
    b.graph.sourceSlot i = .ok (some o) ↔
      ∃ l, (b.into ls i).getLast? = some l ∧ b.resolveLink l = .ok (o, i) := by
  rw [h.agrees.sourceSlot_eq_some_iff hi, Links.mem_linkAll_nil, getLast?_pairs h.mapM_resolveLink,
    Option.bind_eq_some_iff]
  refine exists_congr fun l => and_congr_right fun _ => ?_
  cases b.resolveLink l with
  | ok p => simp [Except.toOption]
  | error e => simp [Except.toOption]

theorem sourceSlot_eq_none (h : Built registry ds ls nodes pairs b) {i : SlotId}
    (hi : b.graph.dirOf? i = some .input) (hnil : b.into ls i = []) : b.graph.sourceSlot i = .ok none := by
  rw [h.agrees.sourceSlot_eq_none_iff hi]
  intro o ho
  rw [Links.mem_linkAll_nil, getLast?_pairs h.mapM_resolveLink, hnil] at ho
  cases ho

end Builder.Built

/-! ## Nodes of the library -/

theorem Attribute.mem_all_of_ofName {name : Data} {a : Attribute} (h : ofName name = .ok a) : a ∈ all := by
  obtain ⟨key, -, h⟩ := Except.bind_eq_ok.1 h
  dsimp only at h
  split at h
  · next found =>
    cases h
    split at found
    · exact List.mem_of_find?_eq_some found
    · cases found
  · cases h

/-- A node that the library makes is of one of its own kinds, and reads no attribute but
a registered one. -/
theorem Registry.kind_of_create {d : NodeDef} {node : Node} (h : builtin.create d = .ok node) :
    node.isBuiltin ∧ ∀ a, node = .attribute a → a ∈ Attribute.all := by
  unfold create at h
  split at h
  · cases h
  · next f hf =>
    split at h
    · next node' hnode =>
      cases h
      have hmem := mem_of_lookup hf
      simp only [builtin, List.mem_cons, Prod.mk.injEq, List.not_mem_nil, or_false] at hmem
      rcases hmem with ⟨-, rfl⟩ | ⟨-, rfl⟩ | ⟨-, rfl⟩ | ⟨-, rfl⟩ | ⟨-, rfl⟩ | ⟨-, rfl⟩ | ⟨-, rfl⟩
      case inr.inr.inr.inr.inl =>
        unfold attributeNode at hnode
        split at hnode
        · split at hnode
          · obtain ⟨a, hname, ha⟩ := Except.bind_eq_ok.1 hnode
            cases ha
            refine ⟨rfl, fun a' ha' => ?_⟩
            cases ha'
            exact Attribute.mem_all_of_ofName hname
          · cases hnode
        · cases hnode
      all_goals
        cases hnode
        exact ⟨rfl, fun _ ha => by cases ha⟩
    · cases h

theorem Registry.isBuiltin_of_create {d : NodeDef} {node : Node} (h : builtin.create d = .ok node) :
    node.isBuiltin :=
  (kind_of_create h).1

theorem Builder.Built.isBuiltin {ds : List NodeDef} {ls : List LinkDef} {nodes : List Node}
    {pairs : List (SlotId × SlotId)} {b : Builder} (h : Built Registry.builtin ds ls nodes pairs b) (n : NodeId)
    (node : Node) (hn : b.graph.node n = .ok node) : node.isBuiltin := by
  rw [Graph.node_eq_ok_iff, h.nodes_eq, List.getElem?_toArray] at hn
  obtain ⟨d, -, hd⟩ := Except.exists_of_mem_mapM h.made (List.mem_of_getElem? hn)
  exact Registry.isBuiltin_of_create hd

/-- The nodes read no attribute but a registered one. -/
theorem Builder.Built.mem_all {ds : List NodeDef} {ls : List LinkDef} {nodes : List Node}
    {pairs : List (SlotId × SlotId)} {b : Builder} (h : Built Registry.builtin ds ls nodes pairs b) {n : NodeId}
    {a : Attribute} (hn : b.graph.node n = .ok (.attribute a)) : a ∈ Attribute.all := by
  rw [Graph.node_eq_ok_iff, h.nodes_eq, List.getElem?_toArray] at hn
  obtain ⟨d, -, hd⟩ := Except.exists_of_mem_mapM h.made (List.mem_of_getElem? hn)
  exact (Registry.kind_of_create hd).2 a rfl

end EffectGraph
