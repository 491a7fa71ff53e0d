import EffectGraph.Proofs.Graph.Scheduling
import EffectGraph.Proofs.Graph.Wiring

/-!
# Evaluating for some slots

An evaluation for some slots works through the nodes that these slots depend on
and no others (`Graph.Spanned`), in the order found for the whole graph. So it
succeeds when those nodes are linked, it gives values to their outputs, and what
it gives them has the text that an evaluation of the whole graph gives them
(`evaluate_targets`). The nodes outside have no say: a graph that agrees about
the nodes in question (`Graph.AgreeOn`) is evaluated alike.
-/

namespace EffectGraph

/-! ## Nodes found once -/

/-- What `gather` finds, it finds once. -/
theorem Needs.nodup_gather {d : Needs} {fresh stack found : List NodeId} (hfresh : fresh.Nodup)
    (hfound : found.Nodup) (hapart : ∀ n ∈ fresh, n ∉ found) : (d.gather fresh stack found).Nodup := by
  fun_induction gather d fresh stack found with
  | case1 fresh found => exact hfound
  | case2 fresh found n rest hn _ ih =>
    refine ih (hfresh.erase n) (List.nodup_cons.2 ⟨hapart n hn, hfound⟩) fun x hx => ?_
    rw [List.mem_cons, not_or]
    exact ⟨fun he => hfresh.not_mem_erase (he ▸ hx), hapart x (List.mem_of_mem_erase hx)⟩
  | case3 fresh found n rest hn ih => exact ih hfresh hfound hapart

theorem Needs.nodup_closure (d : Needs) (roots : List NodeId) : (d.closure roots).Nodup :=
  nodup_gather d.nodup_nodes List.nodup_nil (by simp)

namespace Graph

/-- A graph of nodes of the library that its calls have kept in order. -/
structure Sound (g : Graph) : Prop where
  laid : g.Laid
  links : ∃ L, g.Agrees L
  builtin : ∀ n node, g.node n = .ok node → node.isBuiltin

theorem reached_sound {cs : List Call} (hcs : ∀ node, .addNode node ∈ cs → node.isBuiltin) : (reached cs).Sound where
  laid := reached_laid cs
  links := ⟨_, reached_agrees cs⟩
  builtin _ _ hn := reached_isBuiltin hcs (node_eq_ok_iff.1 hn)

/-- The least set of nodes that has the nodes of some slots and, with each node,
those it depends on. -/
structure Spanned (g : Graph) (targets : List SlotId) (ns : List NodeId) : Prop where
  roots : ∀ s ∈ targets, ∀ slot, g.slot s = .ok slot → slot.node ∈ ns
  closed : ∀ n ∈ ns, ∀ m, g.DependsOn n m → m ∈ ns
  least : ∀ S : NodeId → Prop, (∀ s ∈ targets, ∀ slot, g.slot s = .ok slot → S slot.node) →
    (∀ n m, S n → g.DependsOn n m → S m) → ∀ n ∈ ns, S n

theorem spanned_of_required {g : Graph} {targets : List SlotId} {ns : List NodeId}
    (h : ∀ n, n ∈ ns ↔ Evaluator.Required g targets n) : g.Spanned targets ns where
  roots s hs slot hslot := (h _).2 ⟨s, hs, slot, hslot, .refl⟩
  closed n hn m hm := by
    obtain ⟨s, hs, slot, hslot, hreach⟩ := (h n).1 hn
    exact (h m).2 ⟨s, hs, slot, hslot, hreach.tail hm⟩
  least S hstart hclosed n hn := by
    obtain ⟨s, hs, slot, hslot, hreach⟩ := (h n).1 hn
    induction hreach with
    | refl => exact hstart s hs slot hslot
    | @tail m n hm hdep ih => exact hclosed m n (ih ((h m).2 ⟨s, hs, slot, hslot, hm⟩)) hdep

/-- There is one least set. -/
theorem Spanned.mem_iff {g : Graph} {targets : List SlotId} {ns ns' : List NodeId} (h : g.Spanned targets ns)
    (h' : g.Spanned targets ns') {n : NodeId} : n ∈ ns ↔ n ∈ ns' :=
  ⟨h.least (· ∈ ns') h'.roots (fun n m hn hm => h'.closed n hn m hm) n,
    h'.least (· ∈ ns) h.roots (fun n m hn hm => h.closed n hn m hm) n⟩

/-- What an input reads is an output of a node that its own node depends on. -/
theorem Agrees.exists_source {g : Graph} {L : Links} (ha : g.Agrees L) (hg : g.Laid) {n : NodeId} {i o : SlotId}
    (hi : i ∈ g.slotsWhere n Slot.isInput) (ho : g.sourceSlot i = .ok (some o)) :
    ∃ m, g.DependsOn n m ∧ o ∈ g.slotsWhere m Slot.isOutput := by
  have hlink := (ha.sourceSlot_eq_some_iff (hg.dirOf?_input hi)).1 ho
  obtain ⟨slot, hslot, hdir⟩ := dirOf?_eq_some_iff.1 (ha.joins _ hlink).1
  exact ⟨slot.node, ⟨i, o, slot, hi, ho, slot_of_getElem? hslot, rfl⟩,
    hg.mem_slotsWhere_iff.2 ⟨slot, hslot, rfl, by simp [Slot.isOutput, hdir]⟩⟩

/-! ## Graphs that agree about some nodes -/

/-- Two graphs agree about some nodes: what these are, which slots they have and
what their inputs read. -/
structure AgreeOn (g g' : Graph) (ns : List NodeId) : Prop where
  nodes : ∀ n ∈ ns, g'.node n = g.node n
  inputs : ∀ n ∈ ns, g'.slotsWhere n Slot.isInput = g.slotsWhere n Slot.isInput
  outputs : ∀ n ∈ ns, g'.slotsWhere n Slot.isOutput = g.slotsWhere n Slot.isOutput
  sources : ∀ n ∈ ns, ∀ i ∈ g.slotsWhere n Slot.isInput, g'.sourceSlot i = g.sourceSlot i

namespace AgreeOn

variable {g g' : Graph} {targets : List SlotId} {ns : List NodeId}

/-- A slot of one of the nodes is its slot in the other graph too. -/
theorem slot_node (h : AgreeOn g g' ns) (hg : g.Laid) (hg' : g'.Laid) {s : SlotId} {slot : Slot}
    (hs : g.slot s = .ok slot) (hn : slot.node ∈ ns) : ∃ slot', g'.slot s = .ok slot' ∧ slot'.node = slot.node := by
  have hslot := slot_eq_ok_iff.1 hs
  have hmem : s ∈ g'.slotsWhere slot.node Slot.isInput ∨ s ∈ g'.slotsWhere slot.node Slot.isOutput := by
    rw [h.inputs _ hn, h.outputs _ hn, hg.mem_slotsWhere_iff, hg.mem_slotsWhere_iff]
    cases hdir : slot.dir with
    | input => exact .inl ⟨slot, hslot, rfl, by simp [Slot.isInput, hdir]⟩
    | output => exact .inr ⟨slot, hslot, rfl, by simp [Slot.isOutput, hdir]⟩
  rcases hmem with hmem | hmem
  all_goals
    obtain ⟨slot', hslot', hnode, -⟩ := hg'.mem_slotsWhere_iff.1 hmem
    exact ⟨slot', slot_of_getElem? hslot', hnode⟩

variable (h : AgreeOn g g' ns) (hg : g.Sound) (hg' : g'.Sound) (hspan : g.Spanned targets ns)
include h hg hg' hspan

theorem dependsOn_iff {n m : NodeId} (hn : n ∈ ns) : g'.DependsOn n m ↔ g.DependsOn n m := by
  obtain ⟨L, ha⟩ := hg.links
  constructor
  · rintro ⟨i, o, slot', hi, ho, hslot', rfl⟩
    rw [h.inputs n hn] at hi
    rw [h.sources n hn i hi] at ho
    -- What the input reads belongs to one of the nodes, in both graphs.
    obtain ⟨m, hm, ho'⟩ := ha.exists_source hg.laid hi ho
    rw [← h.outputs m (hspan.closed n hn m hm)] at ho'
    obtain ⟨slot, hslot, rfl, -⟩ := hg'.laid.mem_slotsWhere_iff.1 ho'
    rw [slot_of_getElem? hslot] at hslot'
    cases hslot'
    exact hm
  · intro hm
    obtain ⟨i, o, slot, hi, ho, hslot, rfl⟩ := hm
    obtain ⟨slot', hslot', hnode⟩ := h.slot_node hg.laid hg'.laid hslot
      (hspan.closed n hn _ ⟨i, o, slot, hi, ho, hslot, rfl⟩)
    refine ⟨i, o, slot', ?_, ?_, hslot', hnode⟩
    · rwa [h.inputs n hn]
    · rwa [h.sources n hn i hi]

/-- The nodes that the slots depend on are the same in both graphs. -/
theorem spanned (hvalid : ∀ s ∈ targets, ∃ slot, g.slot s = .ok slot) : g'.Spanned targets ns := by
  have howner : ∀ s ∈ targets, ∀ slot, g.slot s = .ok slot → ∀ slot', g'.slot s = .ok slot' →
      slot'.node = slot.node := by
    intro s hs slot hslot slot' hslot'
    obtain ⟨slot'', hslot'', hnode⟩ := h.slot_node hg.laid hg'.laid hslot (hspan.roots s hs slot hslot)
    rw [hslot'] at hslot''
    cases hslot''
    exact hnode
  refine ⟨?_, ?_, ?_⟩
  · intro s hs slot' hslot'
    obtain ⟨slot, hslot⟩ := hvalid s hs
    rw [howner s hs slot hslot slot' hslot']
    exact hspan.roots s hs slot hslot
  · intro n hn m hm
    exact hspan.closed n hn m ((h.dependsOn_iff hg hg' hspan hn).1 hm)
  · intro S hstart hclosed n hn
    -- Within the nodes in question, closed under one relation is closed under the other.
    refine (hspan.least (fun n => S n ∧ n ∈ ns) ?_ ?_ n hn).1
    · intro s hs slot hslot
      obtain ⟨slot', hslot', hnode⟩ := h.slot_node hg.laid hg'.laid hslot (hspan.roots s hs slot hslot)
      exact ⟨hnode ▸ hstart s hs slot' hslot', hspan.roots s hs slot hslot⟩
    · rintro x y ⟨hx, hmem⟩ hdep
      exact ⟨hclosed x y hx ((h.dependsOn_iff hg hg' hspan hmem).2 hdep), hspan.closed x hmem y hdep⟩

omit hg hg' hspan in
theorem linked_iff {n : NodeId} (hn : n ∈ ns) : g'.Linked n ↔ g.Linked n := by
  unfold Linked
  rw [h.inputs n hn]
  exact forall₂_congr fun i hi => by rw [h.sources n hn i hi]

omit hg' in
/-- What an input of one of the nodes reads, it reads in the other graph too, and
it is an output of one of the nodes. -/
theorem source {n : NodeId} (hn : n ∈ ns) {i o : SlotId} (hi : i ∈ g.slotsWhere n Slot.isInput)
    (ho : g.sourceSlot i = .ok (some o)) :
    g'.sourceSlot i = .ok (some o) ∧ ∃ m ∈ ns, o ∈ g.slotsWhere m Slot.isOutput := by
  obtain ⟨L, ha⟩ := hg.links
  obtain ⟨m, hm, ho'⟩ := ha.exists_source hg.laid hi ho
  exact ⟨(h.sources n hn i hi).trans ho, m, hspan.closed n hn m hm, ho'⟩

omit hg' hspan in
/-- The node that makes the text of a slot is the node of the slot. -/
theorem owner {n x : NodeId} (hn : n ∈ ns) {s : SlotId} (hs : s ∈ g.slotsWhere n Slot.isOutput) {node : Node}
    {os : List SlotId} (hx : g.node x = .ok node) (hos : g.outputSlots x = .ok os) (hmem : s ∈ os) :
    x ∈ ns ∧ g'.node x = .ok node ∧ g'.outputSlots x = .ok os := by
  rw [outputSlots_eq hx] at hos
  cases hos
  obtain rfl := hg.laid.node_unique hmem hs
  have hx' := (h.nodes x hn).trans hx
  exact ⟨hn, hx', by rw [outputSlots_eq hx', h.outputs x hn]⟩

/-- The outputs of the nodes have the same texts in both graphs. -/
theorem slotText {n : NodeId} (hn : n ∈ ns) {s : SlotId} (hs : s ∈ g.slotsWhere n Slot.isOutput) {t : Text}
    (ht : SlotText g s t) : SlotText g' s t := by
  induction ht generalizing n with
  | particle hx hos =>
    obtain ⟨-, hx', hos'⟩ := h.owner hg hn hs hx hos (by simp)
    exact .particle hx' hos'
  | time hx hos =>
    obtain ⟨-, hx', hos'⟩ := h.owner hg hn hs hx hos (by simp)
    exact .time hx' hos'
  | deltaTime hx hos =>
    obtain ⟨-, hx', hos'⟩ := h.owner hg hn hs hx hos (by simp)
    exact .deltaTime hx' hos'
  | @normalize x i o source t hx hos hi hsource _ ih =>
    obtain ⟨hmem, hx', hos'⟩ := h.owner hg hn hs hx hos (by simp)
    obtain ⟨j, _, hj, -, hfind⟩ := hg.laid.slots_normalize hx
    obtain ⟨j', _, hj', -, hfind'⟩ := hg'.laid.slots_normalize hx'
    rw [h.inputs x hmem, hj] at hj'
    cases hj'
    rw [hfind] at hi
    cases hi
    obtain ⟨hsource', m, hm, hout⟩ := h.source hg hspan hmem (hj ▸ List.mem_cons_self) hsource
    exact .normalize hx' hos' hfind' hsource' (ih hm hout)
  | @arithmetic x op l r o sl sr tl tr hx hos hl hsl _ hr hsr _ ihl ihr =>
    obtain ⟨hmem, hx', hos'⟩ := h.owner hg hn hs hx hos (by simp)
    obtain ⟨jl, jr, _, hj, -, hfindl, hfindr⟩ := hg.laid.slots_arithmetic hx
    obtain ⟨jl', jr', _, hj', -, hfindl', hfindr'⟩ := hg'.laid.slots_arithmetic hx'
    rw [h.inputs x hmem, hj] at hj'
    cases hj'
    rw [hfindl] at hl
    cases hl
    rw [hfindr] at hr
    cases hr
    obtain ⟨hsl', ml, hml, houtl⟩ := h.source hg hspan hmem (hj ▸ List.mem_cons_self) hsl
    obtain ⟨hsr', mr, hmr, houtr⟩ := h.source hg hspan hmem (hj ▸ List.mem_cons_of_mem _ List.mem_cons_self) hsr
    exact .arithmetic hx' hos' hfindl' hsl' (ihl hml houtl) hfindr' hsr' (ihr hmr houtr)

end AgreeOn
end Graph

namespace Evaluator

/-! ## Runs as loops -/

/-- An evaluation is a loop over the wanted nodes, in the order found for all, and
it starts without values whatever the evaluator held. -/
theorem evaluate_eq [Stack] {g : Graph} {d : Needs} {order : List NodeId} (hneeds : g.allNeeds = .ok d)
    (hcycle : d.findCycle = .ok ()) (hsorted : d.sorted = .ok order) {targets : Option (List SlotId)}
    {wanted : List NodeId} (hwanted : required g { needs := d, order := order } targets = .ok wanted)
    (e : Evaluator) (m : Module) :
    evaluate g targets (e, m) = (do (order.filter wanted.contains).forM (evaluateNode g); return wanted.length)
      ({ needs := d, order := order }, m) := by
  have hbuild : build g (e, m) = .ok () ({ e with needs := d, order := order }, m) :=
    build_eq_ok.2 ⟨d, order, hneeds, hcycle, hsorted, rfl⟩
  have hrequired : required g { e with needs := d, order := order } targets = .ok wanted := by
    rw [← hwanted]
    cases targets <;> rfl
  unfold evaluate
  simp only [bind, EStateM.bind, hbuild, EStateM.get_apply, checking, hrequired, EStateM.modify_apply]

theorem exists_ordered {g : Graph} (hg : g.Sound) (hac : g.Acyclic) : ∃ d order, Ordered g d order := by
  obtain ⟨L, ha⟩ := hg.links
  exact ordered_of_acyclic ha hg.laid hac

namespace Ordered

variable {g : Graph} {d : Needs} {order : List NodeId}

/-- An evaluation of the whole graph is a loop over the whole order. -/
theorem evaluate_none [Stack] (h : Ordered g d order) (e : Evaluator) (m : Module) :
    evaluate g none (e, m) = (do order.forM (evaluateNode g); return order.length)
      ({ needs := d, order := order }, m) := by
  have hall : order.filter order.contains = order := List.filter_eq_self.2 fun n hn => by simpa using hn
  have hwanted : required g { needs := d, order := order } none = .ok order := rfl
  rw [evaluate_eq h.needs h.cycle h.sorted hwanted, hall]

/-- An evaluation for some slots is a loop over the part of the order that the
slots depend on. In it, too, a node comes after those it depends on. -/
theorem evaluate_some [Stack] (h : Ordered g d order) (hg : g.Laid) {targets : List SlotId}
    (hvalid : ∀ s ∈ targets, ∃ slot, g.slot s = .ok slot) :
    ∃ ns : List NodeId, ns.Sublist order ∧ (∀ n, n ∈ ns ↔ Required g targets n) ∧
      (∀ before n after, ns = before ++ n :: after → ∀ m, g.DependsOn n m → m ∈ before) ∧
      ∀ e m, evaluate g (some targets) (e, m) = (do ns.forM (evaluateNode g); return ns.length)
        ({ needs := d, order := order }, m) := by
  obtain ⟨roots, hr⟩ : ∃ roots, targets.mapM (fun s => do return (← g.slot s).node) = .ok roots := by
    rw [Except.exists_mapM_eq_ok]
    intro s hs
    obtain ⟨slot, hslot⟩ := hvalid s hs
    exact ⟨slot.node, by rw [hslot]; rfl⟩
  have hclosure : ∀ n, n ∈ d.closure roots ↔ Required g targets n := fun n =>
    mem_closure_iff_required hg h.size h.mirrored h.needed hr
  have hmem : ∀ n, n ∈ order.filter (d.closure roots).contains ↔ n ∈ d.closure roots := by
    intro n
    rw [List.mem_filter, List.contains_iff_mem, and_iff_right_iff_imp]
    intro hn
    rw [h.orders.all, h.size]
    exact ((hclosure n).1 hn).index_lt hg
  -- Both lists have these nodes once, so there are as many in the one as in the other.
  have hperm := (List.perm_ext_iff_of_nodup (h.orders.once.filter _) (d.nodup_closure roots)).2 hmem
  have hclosed : ∀ n ∈ d.closure roots, ∀ m, d.Needed n m → m ∈ d.closure roots := by
    intro n hn m hm
    rw [hclosure] at hn ⊢
    obtain ⟨s, hs, slot, hslot, hreach⟩ := hn
    exact ⟨s, hs, slot, hslot, hreach.tail (h.needed ▸ hm)⟩
  refine ⟨_, List.filter_sublist, fun n => (hmem n).trans (hclosure n), ?_, fun e m => ?_⟩
  · rw [← h.needed]
    exact closed_filter h.orders hclosed
  have hwanted : required g { needs := d, order := order } (some targets) = .ok (d.closure roots) :=
    Except.bind_eq_ok.2 ⟨roots, hr, rfl⟩
  rw [hperm.length_eq]
  exact evaluate_eq h.needs h.cycle h.sorted hwanted e m

end Ordered

/-! ## Results of runs -/

/-- Two evaluations give a slot of both the same text. -/
def SameTexts (s s' : Evaluator × Module) : Prop :=
  ∀ slot x y, (slot, x) ∈ s.1.values → (slot, y) ∈ s'.1.values →
    ∃ t, s.2.shaderText x = .ok t ∧ s'.2.shaderText y = .ok t

/-- Slots whose texts the two graphs read alike get the same texts. -/
theorem sameTexts_of_slotText {g g' : Graph} (hg' : g'.Laid) {s s' : Evaluator × Module}
    (h : Texts g s.1.values s.2) (h' : Texts g' s'.1.values s'.2)
    (hsame : ∀ slot ∈ s.1.values.map Prod.fst, ∀ t, SlotText g slot t → SlotText g' slot t) : SameTexts s s' := by
  intro slot x y hx hy
  obtain ⟨t, ht, hr⟩ := h _ hx
  obtain ⟨t', ht', hr'⟩ := h' _ hy
  cases hg'.slotText_unique (hsame slot (List.mem_map_of_mem hx) t ht) ht'
  exact ⟨t, Module.shaderText_eq_ok_iff.2 hr, Module.shaderText_eq_ok_iff.2 hr'⟩

section

variable {g : Graph} {d : Needs} {order ns : List NodeId} {e : Evaluator} {m : Module}

/-- What a loop over some nodes leaves when it succeeds. -/
theorem evaluated_of_loop [Stack] (hg : g.Sound) {k k' : Nat} {s : Evaluator × Module}
    (h : (do ns.forM (evaluateNode g); return k' : Evaluate Nat) ({ needs := d, order := order }, m) = .ok k s) :
    Evaluated g { needs := d, order := order } m ns s.1 s.2 := by
  obtain ⟨_, _, hloop, h⟩ := EStateM.bind_eq_ok.1 h
  cases h
  exact forM_evaluated hg.laid hg.builtin (e := { needs := d, order := order }) hloop

theorem Evaluated.order_eq {s : Evaluator × Module}
    (h : Evaluated g { needs := d, order := order } m ns s.1 s.2) : s.1.order = order := by
  rw [h.found]

theorem Evaluated.mem_keys {s : Evaluator × Module} (h : Evaluated g e m ns s.1 s.2) {slot : SlotId} :
    slot ∈ s.1.values.map Prod.fst ↔ ∃ n ∈ ns, slot ∈ g.slotsWhere n Slot.isOutput := by
  rw [h.slots, List.mem_flatMap]

/-- An evaluation for some slots succeeds when all nodes that they depend on are
linked. -/
theorem exists_evaluate_iff [Stack] (hg : g.Sound) (hac : g.Acyclic) {targets : List SlotId}
    (hvalid : ∀ s ∈ targets, ∃ slot, g.slot s = .ok slot) :
    (∃ k s, evaluate g (some targets) (e, m) = .ok k s) ↔ ∀ n, Required g targets n → g.Linked n := by
  obtain ⟨L, ha⟩ := hg.links
  constructor
  · rintro ⟨k, s, h⟩ n hn
    obtain ⟨-, ns', -, hmem, hw⟩ := evaluate_wired ha hg.laid hg.builtin h
    obtain ⟨node, xs, -, hr, -⟩ := hw.made n ((hmem n).2 hn)
    exact hr.linked
  · exact exists_evaluate ha hg.laid hg.builtin hac hvalid

end

/-- Evaluation for some slots agrees with evaluation of the whole graph. For any
acyclic graph of nodes of the library and any slots of it, there is an order of
all nodes such that, whatever the evaluator and the module held, the run for the
slots is a loop over the part of the order that the slots span. It succeeds when
all inputs of these nodes are linked; the result then has the outputs of these
nodes as its slots, and if the whole graph can be evaluated too, into any module,
that has these slots with the same texts. Another acyclic graph that agrees about
the nodes is evaluated for the slots with the same success and the same texts, so
the nodes outside have no effect. -/
theorem evaluate_targets [Stack] (cs : List Graph.Call) (hcs : ∀ node, .addNode node ∈ cs → node.isBuiltin)
    (hac : (Graph.reached cs).Acyclic) (targets : List SlotId)
    (hvalid : ∀ s ∈ targets, ∃ slot, (Graph.reached cs).slot s = .ok slot) :
    ∃ (d : Needs) (order ns : List NodeId), (Graph.reached cs).allNeeds = .ok d ∧ d.sorted = .ok order ∧
      order.Nodup ∧ ns.Sublist order ∧ (Graph.reached cs).Spanned targets ns ∧
      (∀ e m, evaluate (Graph.reached cs) (some targets) (e, m) =
          (do ns.forM (evaluateNode (Graph.reached cs)); return ns.length) ({ needs := d, order := order }, m) ∧
        ((∃ k s, evaluate (Graph.reached cs) (some targets) (e, m) = .ok k s) ↔
          ∀ n ∈ ns, (Graph.reached cs).Linked n)) ∧
      (∀ e m k s, evaluate (Graph.reached cs) (some targets) (e, m) = .ok k s →
        s.1.order = order ∧
        s.1.values.map Prod.fst = ns.flatMap (fun n => (Graph.reached cs).slotsWhere n Slot.isOutput) ∧
        ∀ e₁ m₁ k₁ s₁, evaluate (Graph.reached cs) none (e₁, m₁) = .ok k₁ s₁ →
          s₁.1.order = order ∧ (∀ slot ∈ s.1.values.map Prod.fst, slot ∈ s₁.1.values.map Prod.fst) ∧
          SameTexts s s₁) ∧
      (∀ cs' : List Graph.Call, (∀ node, .addNode node ∈ cs' → node.isBuiltin) → (Graph.reached cs').Acyclic →
        (Graph.reached cs).AgreeOn (Graph.reached cs') ns → ∀ e m e₁ m₁,
        ((∃ k s, evaluate (Graph.reached cs') (some targets) (e₁, m₁) = .ok k s) ↔
          ∃ k s, evaluate (Graph.reached cs) (some targets) (e, m) = .ok k s) ∧
        ∀ k s k₁ s₁, evaluate (Graph.reached cs) (some targets) (e, m) = .ok k s →
          evaluate (Graph.reached cs') (some targets) (e₁, m₁) = .ok k₁ s₁ →
          (∀ slot, slot ∈ s₁.1.values.map Prod.fst ↔ slot ∈ s.1.values.map Prod.fst) ∧ SameTexts s s₁) := by
  have hg := Graph.reached_sound hcs
  generalize Graph.reached cs = g at *
  obtain ⟨d, order, ho⟩ := exists_ordered hg hac
  obtain ⟨ns, hsub, hmem, -, hrun⟩ := ho.evaluate_some hg.laid hvalid
  have hspan := Graph.spanned_of_required hmem
  have hsucceeds : ∀ e m, (∃ k s, evaluate g (some targets) (e, m) = .ok k s) ↔ ∀ n ∈ ns, g.Linked n := by
    intro e m
    rw [exists_evaluate_iff hg hac hvalid]
    exact forall_congr' fun n => by rw [hmem]
  refine ⟨d, order, ns, ho.needs, ho.sorted, ho.orders.once, hsub, hspan, fun e m => ⟨hrun e m, hsucceeds e m⟩, ?_, ?_⟩
  · intro e m k s hs
    have ev := evaluated_of_loop hg ((hrun e m).symm.trans hs)
    refine ⟨ev.order_eq, ev.slots, fun e₁ m₁ k₁ s₁ hs₁ => ?_⟩
    have ev₁ := evaluated_of_loop hg ((ho.evaluate_none e₁ m₁).symm.trans hs₁)
    refine ⟨ev₁.order_eq, fun slot hslot => ?_, sameTexts_of_slotText hg.laid ev.texts ev₁.texts fun _ _ _ ht => ht⟩
    obtain ⟨n, hn, hslot⟩ := ev.mem_keys.1 hslot
    exact ev₁.mem_keys.2 ⟨n, hsub.subset hn, hslot⟩
  · intro cs' hcs' hac' hagree e m e₁ m₁
    have hg' := Graph.reached_sound hcs'
    generalize Graph.reached cs' = g' at *
    have hspan' := hagree.spanned hg hg' hspan hvalid
    have hvalid' : ∀ s ∈ targets, ∃ slot, g'.slot s = .ok slot := by
      intro s hs
      obtain ⟨slot, hslot⟩ := hvalid s hs
      obtain ⟨slot', hslot', -⟩ := hagree.slot_node hg.laid hg'.laid hslot (hspan.roots s hs slot hslot)
      exact ⟨slot', hslot'⟩
    obtain ⟨d', order', ho'⟩ := exists_ordered hg' hac'
    obtain ⟨ns', -, hmem', -, hrun'⟩ := ho'.evaluate_some hg'.laid hvalid'
    have hns : ∀ n, n ∈ ns' ↔ n ∈ ns := fun n => (Graph.spanned_of_required hmem').mem_iff hspan'
    constructor
    · rw [hsucceeds e m, exists_evaluate_iff hg' hac' hvalid']
      refine forall_congr' fun n => ?_
      rw [← hmem', hns]
      exact forall_congr' fun hn => hagree.linked_iff hn
    · intro k s k₁ s₁ hs hs₁
      have ev := evaluated_of_loop hg ((hrun e m).symm.trans hs)
      have ev₁ := evaluated_of_loop hg' ((hrun' e₁ m₁).symm.trans hs₁)
      constructor
      · intro slot
        rw [ev.mem_keys, ev₁.mem_keys]
        refine exists_congr fun n => ?_
        rw [hns]
        exact and_congr_right fun hn => by rw [hagree.outputs n hn]
      · refine sameTexts_of_slotText hg'.laid ev.texts ev₁.texts fun slot hslot t ht => ?_
        obtain ⟨n, hn, hslot⟩ := ev.mem_keys.1 hslot
        exact hagree.slotText hg hg' hspan hn hslot ht

/-- Calls that make a graph with the direction of a particle, and beside it a node
whose input reads nothing. -/
def besideUnlinked : List Graph.Call :=
  [.addNode (.attribute .velocity), .addNode .normalize, .addNode .normalize, .link ⟨0⟩ ⟨1⟩]

open scoped EffectGraph.Stack.Usual in
theorem evaluate_targets_besideUnlinked :
    (∃ k s, evaluate (Graph.reached besideUnlinked) (some [⟨2⟩]) ({}, {}) = .ok k s ∧
      s.1.values.map Prod.fst = [⟨0⟩, ⟨2⟩]) ∧
    (∃ ns, (Graph.reached besideUnlinked).Spanned [⟨2⟩] ns ∧ ∀ n ∈ ns, (Graph.reached besideUnlinked).Linked n) ∧
    ∀ k s, evaluate (Graph.reached besideUnlinked) none ({}, {}) ≠ .ok k s := by
  have hcs : ∀ node, .addNode node ∈ besideUnlinked → node.isBuiltin := by
    simp [besideUnlinked, Node.isBuiltin]
  have hrun : (answer? (evaluate (Graph.reached besideUnlinked) (some [⟨2⟩]) ({}, {}))).isSome = true := by
    cbv
  have hkeys : (lastState (evaluate (Graph.reached besideUnlinked) (some [⟨2⟩]) ({}, {}))).1.values.map Prod.fst =
      [⟨0⟩, ⟨2⟩] := by
    cbv
  have hwhole : answer? (evaluate (Graph.reached besideUnlinked) none ({}, {})) = none := by
    cbv
  have hslot : ((Graph.reached besideUnlinked).slot ⟨2⟩).toOption.isSome = true := by
    cbv
  cases h : evaluate (Graph.reached besideUnlinked) (some [⟨2⟩]) ({}, {}) with
  | error err s =>
    rw [h] at hrun
    cases hrun
  | ok k s =>
    rw [h] at hkeys
    have hac := (evaluate_wired (Graph.reached_agrees _) (Graph.reached_laid _) (Graph.reached_sound hcs).builtin h).1
    have hvalid : ∀ t ∈ ([⟨2⟩] : List SlotId), ∃ slot, (Graph.reached besideUnlinked).slot t = .ok slot := by
      intro t ht
      rw [List.mem_singleton.1 ht]
      cases ht : (Graph.reached besideUnlinked).slot ⟨2⟩ with
      | ok slot => exact ⟨slot, rfl⟩
      | error err =>
        rw [ht] at hslot
        cases hslot
    obtain ⟨d, order, ns, -, -, -, -, hspan, hruns, -⟩ := evaluate_targets besideUnlinked hcs hac [⟨2⟩] hvalid
    refine ⟨⟨k, s, rfl, hkeys⟩, ⟨ns, hspan, (hruns {} {}).2.1 ⟨k, s, h⟩⟩, fun k' s' h' => ?_⟩
    rw [h'] at hwhole
    cases hwhole

end Evaluator
end EffectGraph
