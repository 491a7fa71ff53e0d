import EffectGraph.Proofs.Graph.Cycles
import EffectGraph.Proofs.Graph.Dependencies
import EffectGraph.Proofs.Graph.Evaluation
import Mathlib

/-!
# What evaluation makes of a graph

Evaluating a node of the library adds what the node makes (`Node.makes`) of the
expressions that its inputs read. `Wired` says what stands in the module after so
many nodes: every output slot has a new expression of its own, and it is what
the node of the slot makes. An evaluation for some slots evaluates the nodes
that they depend on (`Required`); it succeeds exactly when the graph is acyclic
and all these nodes have their inputs linked (`evaluate_wired`,
`exists_evaluate`).
-/

namespace EffectGraph

/-! ## Nodes of the library -/

namespace Node

/-- The number of inputs that a node of the library takes. -/
def arity : Node → Nat
  | .arithmetic _ => 2
  | .normalize => 1
  | _ => 0

/-- The expressions that a node of the library makes for its outputs, around
those of its inputs. -/
def makes : Node → List ExprHandle → List Expr
  | .arithmetic op, [l, r] => [.binary op.operator l r]
  | .attribute a, [] => [.attribute a]
  | .time, [] => Builtin.all.map .builtin
  | .normalize, [x] => [.unary .normalize x]
  | _, _ => []

/-- A node of the library adds the expressions it makes, or refuses inputs of
another number. -/
theorem eval_eq [Stack] {node : Node} (hb : node.isBuiltin) (xs : List ExprHandle) :
    node.eval xs =
      if xs.length = node.arity then (node.makes xs).mapM Module.push else throw (node.inputCount node.arity xs) := by
  cases node with
  | custom slots outputs => cases hb
  | arithmetic op =>
    rcases xs with _ | ⟨l, _ | ⟨r, _ | ⟨x, xs⟩⟩⟩
    · simp [eval, arity]
    · simp [eval, arity]
    · simp [eval, arity, makes, Module.binary]
    · simp [eval, arity]
  | normalize =>
    rcases xs with _ | ⟨x, _ | ⟨y, xs⟩⟩
    · simp [eval, arity]
    · simp [eval, arity, makes, Module.unary]
    · simp [eval, arity]
  | time =>
    cases xs with
    | nil => simp [eval, arity, makes, Module.builtin, Builtin.all]
    | cons x xs => simp [eval, arity]
  | _ a =>
    cases xs with
    | nil => simp [eval, arity, makes, Module.attr]
    | cons x xs => simp [eval, arity]

/-- What a node makes can be shown: none of it is a literal. -/
theorem obstacle?_makes [Stack] {node : Node} {xs : List ExprHandle} {e : Expr} (he : e ∈ node.makes xs) (m : Module) :
    m.obstacle? e = none := by
  unfold makes at he
  split at he
  all_goals
    simp only [Builtin.all, List.map_cons, List.map_nil, List.mem_cons, List.not_mem_nil, or_false] at he
  · rw [he]
    rfl
  · rw [he]
    rfl
  · rcases he with rfl | rfl <;> rfl
  · rw [he]
    rfl

theorem children_makes {node : Node} {xs : List ExprHandle} {e : Expr} (he : e ∈ node.makes xs) :
    ∀ c ∈ e.children, c ∈ xs := by
  unfold makes at he
  split at he
  · simp only [List.mem_singleton] at he
    subst he
    simp [Expr.children]
  · simp only [List.mem_singleton] at he
    subst he
    simp [Expr.children]
  · simp only [Builtin.all, List.map_cons, List.map_nil, List.mem_cons, List.not_mem_nil, or_false] at he
    rcases he with rfl | rfl <;> simp [Expr.children]
  · simp only [List.mem_singleton] at he
    subst he
    simp [Expr.children]
  · cases he

end Node

namespace Module

/-- A module with so many expressions more. -/
structure Appends (m : Module) (es : List Expr) (m' : Module) : Prop where
  key : m'.key = m.key
  exprs : m'.exprs = m.exprs ++ es.toArray
  properties : m'.properties = m.properties

namespace Appends

variable {m m' m'' : Module} {es es' : List Expr}

theorem refl (m : Module) : m.Appends [] m := ⟨rfl, by simp, rfl⟩

theorem trans (h : m.Appends es m') (h' : m'.Appends es' m'') : m.Appends (es ++ es') m'' :=
  ⟨h'.key.trans h.key, by rw [h'.exprs, h.exprs]; simp, h'.properties.trans h.properties⟩

theorem size (h : m.Appends es m') : m'.size = m.size + es.length := by
  simp [Module.size, h.exprs]

theorem grows (h : m.Appends es m') : m.Grows m' := by
  refine ⟨h.key, fun i e he => ?_, fun i p hp => ?_⟩
  · have hlt := (Array.getElem?_eq_some_iff.1 he).1
    rw [h.exprs, Array.getElem?_append_left hlt, he]
  · rw [h.properties, hp]

/-- What was added is found where the module ended. -/
theorem get (h : m.Appends es m') {k : Nat} {e : Expr} (he : es[k]? = some e) : m'.get ⟨m.size + k⟩ = .ok e := by
  rw [get_eq_ok_iff, h.exprs]
  simpa [Module.size, Array.getElem?_append] using he

end Appends

theorem push_eq [Stack] {m : Module} {e : Expr} (h : ∀ c ∈ e.children, c.index < m.size) (hs : m.obstacle? e = none) :
    ∃ m', push e m = .ok ⟨m.size⟩ m' ∧ m.Appends [e] m' := by
  refine ⟨m.append e h, ?_, rfl, by simp [append], rfl⟩
  rw [push_of_children h, hs]

/-- Expressions that can be shown, and whose operands are all there, are added one after
the other. -/
theorem mapM_push [Stack] {es : List Expr} {m : Module} (h : ∀ e ∈ es, ∀ c ∈ e.children, c.index < m.size)
    (hs : ∀ e ∈ es, ∀ m : Module, m.obstacle? e = none) :
    ∃ m', es.mapM push m = .ok ((List.range' m.size es.length).map ExprHandle.mk) m' ∧ m.Appends es m' := by
  induction es generalizing m with
  | nil => exact ⟨m, rfl, .refl m⟩
  | cons e es ih =>
    obtain ⟨m₁, hp, ha⟩ := push_eq (h e List.mem_cons_self) (hs e List.mem_cons_self m)
    have hsize := ha.size
    obtain ⟨m₂, hps, has⟩ := ih (m := m₁)
      (fun e' he' c hc => Nat.lt_of_lt_of_le (h e' (List.mem_cons_of_mem _ he') c hc) (by omega))
      fun e' he' => hs e' (List.mem_cons_of_mem _ he')
    refine ⟨m₂, EStateM.mapM_cons_eq_ok.2 ⟨_, _, m₁, hp, hps, ?_⟩, ha.trans has⟩
    rw [hsize]
    rfl

end Module

namespace Graph

theorem exists_node (g : Graph) {n : NodeId} (hn : n.index < g.nodes.size) : ∃ node, g.node n = .ok node :=
  ⟨_, node_eq_ok_iff.2 (Array.getElem?_eq_getElem hn)⟩

/-- All inputs of a node read something. -/
def Linked (g : Graph) (n : NodeId) : Prop :=
  ∀ i ∈ g.slotsWhere n Slot.isInput, ∃ o, g.sourceSlot i = .ok (some o)

namespace Laid

variable {g : Graph}

/-- A node has as many slots of a direction as it declares. -/
theorem length_slotsWhere (h : g.Laid) {n : NodeId} {node : Node} (hn : g.node n = .ok node) (dir : SlotDir) :
    (g.slotsWhere n (·.dir == dir)).length = (node.slots.filter (·.dir == dir)).length := by
  obtain ⟨first, hwas, hdecl⟩ := h.declared n.index node (node_eq_ok_iff.1 hn)
  have hcount : (g.slotsWhere n (·.dir == dir)).length = (first.slots.filter (·.dir == dir)).length := by
    rw [slotsWhere_eq, List.length_map, ← hdecl, List.filter_map, List.length_map]
    rfl
  rw [hcount]
  cases hwas with
  | same => rfl
  | reset a a' => cases dir <;> rfl

theorem length_inputs (h : g.Laid) {n : NodeId} {node : Node} (hn : g.node n = .ok node) (hb : node.isBuiltin) :
    (g.slotsWhere n Slot.isInput).length = node.arity := by
  have hlen := h.length_slotsWhere hn .input
  refine hlen.trans ?_
  cases node with
  | custom slots outputs => cases hb
  | _ => rfl

theorem length_outputs (h : g.Laid) {n : NodeId} {node : Node} (hn : g.node n = .ok node) (hb : node.isBuiltin)
    {xs : List ExprHandle} (hxs : xs.length = node.arity) :
    (g.slotsWhere n Slot.isOutput).length = (node.makes xs).length := by
  have hlen := h.length_slotsWhere hn .output
  refine hlen.trans ?_
  cases node with
  | custom slots outputs => cases hb
  | arithmetic op =>
    obtain ⟨l, r, rfl⟩ := List.length_eq_two.1 hxs
    rfl
  | normalize =>
    obtain ⟨x, rfl⟩ := List.length_eq_one_iff.1 hxs
    rfl
  | time =>
    rw [List.length_eq_zero_iff.1 hxs]
    rfl
  | _ a =>
    rw [List.length_eq_zero_iff.1 hxs]
    rfl

end Laid
end Graph

namespace Evaluator

/-- The inputs of a node read slots with the expressions `xs`. -/
def Reads (g : Graph) (values : List (SlotId × ExprHandle)) (n : NodeId) (xs : List ExprHandle) : Prop :=
  List.Forall₂ (fun i x => ∃ s, g.sourceSlot i = .ok (some s) ∧ values.lookup s = some x)
    (g.slotsWhere n Slot.isInput) xs

theorem inputValue_eq_some_iff {g : Graph} {values : List (SlotId × ExprHandle)} {i : SlotId} {x : ExprHandle} :
    inputValue g values i = .ok (some x) ↔ ∃ s, g.sourceSlot i = .ok (some s) ∧ values.lookup s = some x := by
  unfold inputValue
  rw [Except.bind_eq_ok]
  constructor
  · rintro ⟨source, hs, h⟩
    cases source with
    | none => cases h
    | some s =>
      dsimp only at h
      split at h
      · next y hy =>
        cases h
        exact ⟨s, hs, hy⟩
      · cases h
  · rintro ⟨s, hs, hx⟩
    refine ⟨some s, hs, ?_⟩
    simp only [hx]
    rfl

theorem Reads.length_eq {g : Graph} {values : List (SlotId × ExprHandle)} {n : NodeId} {xs : List ExprHandle}
    (h : Reads g values n xs) : (g.slotsWhere n Slot.isInput).length = xs.length :=
  List.Forall₂.length_eq h

theorem Reads.linked {g : Graph} {values : List (SlotId × ExprHandle)} {n : NodeId} {xs : List ExprHandle}
    (h : Reads g values n xs) : g.Linked n := by
  intro i hi
  obtain ⟨x, -, s, hs, -⟩ := forall₂_mem_left h hi
  exact ⟨s, hs⟩

theorem Reads.mono {g : Graph} {values values' : List (SlotId × ExprHandle)} {n : NodeId} {xs : List ExprHandle}
    (h : Reads g values n xs) (hv : ∀ s x, values.lookup s = some x → values'.lookup s = some x) :
    Reads g values' n xs :=
  h.imp fun _ _ ⟨s, hs, hx⟩ => ⟨s, hs, hv s _ hx⟩

theorem eq_map_some_of_length {os : List (Option α)} (h : (os.filterMap id).length = os.length) :
    os = (os.filterMap id).map some := by
  induction os with
  | nil => rfl
  | cons o os ih =>
    cases o with
    | none =>
      have hle := List.length_filterMap_le id os
      rw [List.filterMap_cons_none rfl, List.length_cons] at h
      omega
    | some a =>
      have hcons : (some a :: os).filterMap id = a :: os.filterMap id := rfl
      rw [hcons, List.length_cons, List.length_cons, Nat.add_right_cancel_iff] at h
      rw [hcons, List.map_cons, ← ih h]

/-- A node that takes all its inputs has all of them linked to slots with
expressions. -/
theorem reads_of_evaluateNode [Stack] {g : Graph} (hg : g.Laid) {n : NodeId} {node : Node} (hn : g.node n = .ok node)
    (hb : node.isBuiltin) {e : Evaluator} {m : Module} {s' : Evaluator × Module}
    (h : evaluateNode g n (e, m) = .ok () s') : ∃ xs, Reads g e.values n xs := by
  obtain ⟨node', inputs, outputs, m', hn', hi, he, -⟩ := evaluateNode_eq_ok h
  rw [hn] at hn'
  cases hn'
  rw [Except.mapM_eq_ok] at hi
  rw [Node.eval_eq hb] at he
  split at he
  · next hlen =>
    -- No input is missing, for then there would be too few.
    rw [← hg.length_inputs hn hb, hi.length_eq] at hlen
    have hall := eq_map_some_of_length hlen
    refine ⟨inputs.filterMap id, ?_⟩
    rw [hall, List.forall₂_map_right_iff] at hi
    exact hi.imp fun i x hx => inputValue_eq_some_iff.1 hx
  · cases he

/-- The outputs of a node whose inputs read slots with expressions get new
expressions, around those. -/
theorem evaluateNode_of_reads [Stack] {g : Graph} (hg : g.Laid) {n : NodeId} {node : Node} (hn : g.node n = .ok node)
    (hb : node.isBuiltin) {e : Evaluator} {m : Module} (hvalid : ∀ s x, e.values.lookup s = some x → x.index < m.size)
    {xs : List ExprHandle} (h : Reads g e.values n xs) :
    ∃ m', m.Appends (node.makes xs) m' ∧ evaluateNode g n (e, m) = .ok () ({ e with
      values := e.values ++ (g.slotsWhere n Slot.isOutput).zip
        ((List.range' m.size (node.makes xs).length).map ExprHandle.mk) }, m') := by
  have hxs : xs.length = node.arity := by
    rw [← h.length_eq, hg.length_inputs hn hb]
  have hmem : ∀ x ∈ xs, x.index < m.size := by
    intro x hx
    obtain ⟨i, -, s, -, hs⟩ := forall₂_mem_right h hx
    exact hvalid s x hs
  have hinputs : (g.slotsWhere n Slot.isInput).mapM (inputValue g e.values) = .ok (xs.map some) := by
    rw [Except.mapM_eq_ok, List.forall₂_map_right_iff]
    exact h.imp fun i x hx => inputValue_eq_some_iff.2 hx
  have hvalid' : ∀ e ∈ node.makes xs, ∀ c ∈ e.children, c.index < m.size :=
    fun e he c hc => hmem c (Node.children_makes he c hc)
  obtain ⟨m', hpush, happ⟩ := Module.mapM_push hvalid' fun e he => Node.obstacle?_makes he
  have heval : node.eval xs m = .ok ((List.range' m.size (node.makes xs).length).map ExprHandle.mk) m' := by
    rw [Node.eval_eq hb, if_pos hxs, hpush]
  have hlen : ((List.range' m.size (node.makes xs).length).map ExprHandle.mk).length =
      (g.slotsWhere n Slot.isOutput).length := by
    simpa using (hg.length_outputs hn hb hxs).symm
  refine ⟨m', happ, ?_⟩
  have hchecked : checking (do (← g.inputSlots n).mapM (inputValue g e.values)) (e, m) =
      .ok (xs.map some) (e, m) := by
    rw [checking_eq_ok, Graph.inputSlots_eq hn]
    exact ⟨hinputs, rfl⟩
  have hbuilt : building (node.eval ((xs.map some).filterMap id)) (e, m) =
      .ok ((List.range' m.size (node.makes xs).length).map ExprHandle.mk) (e, m') := by
    rw [building_eq_ok]
    exact ⟨m', by simpa using heval, rfl⟩
  refine EStateM.bind_eq_ok.2 ⟨_, _, rfl, EStateM.bind_eq_ok.2 ⟨node, _, checking_eq_ok.2 ⟨hn, rfl⟩,
    EStateM.bind_eq_ok.2 ⟨_, _, hchecked, EStateM.bind_eq_ok.2 ⟨_, _, hbuilt,
      EStateM.bind_eq_ok.2 ⟨_, _, checking_eq_ok.2 ⟨Graph.outputSlots_eq hn, rfl⟩, ?_⟩⟩⟩⟩⟩
  rw [if_neg (not_not.2 hlen)]
  rfl

/-! ## Evaluating all nodes -/

/-- How the expressions of a module hang together once the nodes `ns` have been
evaluated into it: each output slot has a new expression of its own, in order,
and it is what its node makes of the expressions that the inputs read. -/
structure Wired (g : Graph) (m₀ : Module) (ns : List NodeId) (values : List (SlotId × ExprHandle)) (m : Module) :
    Prop where
  key : m.key = m₀.key
  properties : m.properties = m₀.properties
  grows : m₀.Grows m
  size : m.size = m₀.size + values.length
  slots : values.map Prod.fst = ns.flatMap fun n => g.slotsWhere n Slot.isOutput
  handles : values.map Prod.snd = (List.range' m₀.size values.length).map ExprHandle.mk
  made : ∀ n ∈ ns, ∃ node xs, g.node n = .ok node ∧ Reads g values n xs ∧
    List.Forall₂ (fun o e => ∃ h, values.lookup o = some h ∧ m.get h = .ok e) (g.slotsWhere n Slot.isOutput)
      (node.makes xs)

theorem wired_nil (g : Graph) (m : Module) : Wired g m [] [] m where
  key := rfl
  properties := rfl
  grows := .refl m
  size := rfl
  slots := rfl
  handles := rfl
  made := by simp

namespace Wired

variable {g : Graph} {m₀ m : Module} {ns : List NodeId} {values : List (SlotId × ExprHandle)}

theorem mem_handles (h : Wired g m₀ ns values m) {s : SlotId} {x : ExprHandle} (hs : values.lookup s = some x) :
    m₀.size ≤ x.index ∧ x.index < m.size := by
  have hx : x ∈ values.map Prod.snd := List.mem_map_of_mem (mem_of_lookup hs)
  rw [h.handles, List.mem_map] at hx
  obtain ⟨k, hk, rfl⟩ := hx
  rw [List.mem_range'_1] at hk
  rw [h.size]
  exact hk

theorem nodup_slots (h : Wired g m₀ ns values m) (hg : g.Laid) (hns : ns.Nodup) : (values.map Prod.fst).Nodup := by
  rw [h.slots, List.nodup_flatMap]
  refine ⟨fun n _ => hg.nodup_slotsWhere n Slot.isOutput, hns.imp fun {n n'} hne s hs hs' => ?_⟩
  exact hne (hg.node_unique hs hs')

/-- Slots with expressions are outputs of the nodes. -/
theorem exists_node (h : Wired g m₀ ns values m) {s : SlotId} {x : ExprHandle} (hs : (s, x) ∈ values) :
    ∃ n ∈ ns, s ∈ g.slotsWhere n Slot.isOutput := by
  rw [← List.mem_flatMap, ← h.slots]
  exact List.mem_map_of_mem hs

/-- All outputs of the nodes have expressions. -/
theorem exists_value (h : Wired g m₀ ns values m) {n : NodeId} (hn : n ∈ ns) {s : SlotId}
    (hs : s ∈ g.slotsWhere n Slot.isOutput) : ∃ x, values.lookup s = some x := by
  refine exists_lookup ?_
  rw [h.slots, List.mem_flatMap]
  exact ⟨n, hn, hs⟩

/-- No two slots have the same expression. -/
theorem slot_unique (h : Wired g m₀ ns values m) {s t : SlotId} {x : ExprHandle} (hs : values.lookup s = some x)
    (ht : values.lookup t = some x) : s = t := by
  have hn : (values.map Prod.snd).Nodup := by
    rw [h.handles]
    exact (List.nodup_range' 1).map fun _ _ hi => congrArg ExprHandle.index hi
  have hsame := List.inj_on_of_nodup_map hn (mem_of_lookup hs) (mem_of_lookup ht) rfl
  exact congrArg Prod.fst hsame

/-- Every expression that was added is what a node makes for one of its output
slots. -/
theorem exists_made (h : Wired g m₀ ns values m) (hg : g.Laid) (hns : ns.Nodup) {x : ExprHandle}
    (hx : m₀.size ≤ x.index) (hlt : x.index < m.size) : ∃ n ∈ ns, ∃ node xs, ∃ o ∈ g.slotsWhere n Slot.isOutput,
      ∃ e ∈ node.makes xs, g.node n = .ok node ∧ Reads g values n xs ∧ values.lookup o = some x ∧ m.get x = .ok e := by
  have hmem : x ∈ values.map Prod.snd := by
    rw [h.handles, List.mem_map]
    refine ⟨x.index, ?_, rfl⟩
    rw [List.mem_range'_1, ← h.size]
    exact ⟨hx, hlt⟩
  obtain ⟨⟨o, _⟩, hp, rfl⟩ := List.mem_map.1 hmem
  obtain ⟨n, hn, ho⟩ := h.exists_node hp
  obtain ⟨node, xs, hnode, hr, hmade⟩ := h.made n hn
  obtain ⟨e, he, y, hy, hget⟩ := forall₂_mem_left hmade ho
  have hlookup := (lookup_eq_some_iff_mem (h.nodup_slots hg hns)).2 hp
  rw [hlookup] at hy
  cases hy
  exact ⟨n, hn, node, xs, o, ho, e, he, hnode, hr, hlookup, hget⟩

/-- One node more. -/
theorem snoc (h : Wired g m₀ ns values m) (hg : g.Laid) {n : NodeId} (hnew : n ∉ ns) {node : Node}
    (hn : g.node n = .ok node) (hb : node.isBuiltin) {xs : List ExprHandle} (hr : Reads g values n xs) {m' : Module}
    (ha : m.Appends (node.makes xs) m') :
    Wired g m₀ (ns ++ [n]) (values ++ (g.slotsWhere n Slot.isOutput).zip
      ((List.range' m.size (node.makes xs).length).map ExprHandle.mk)) m' := by
  have hxs : xs.length = node.arity := by
    rw [← hr.length_eq, hg.length_inputs hn hb]
  have hlen := hg.length_outputs hn hb hxs
  have hmore : ∀ (more : List (SlotId × ExprHandle)) s x, values.lookup s = some x →
      (values ++ more).lookup s = some x := by
    intro more s x hs
    rw [List.lookup_append, hs]
    rfl
  refine ⟨ha.key.trans h.key, ha.properties.trans h.properties, h.grows.trans ha.grows, ?_, ?_, ?_, ?_⟩
  · rw [ha.size, h.size, List.length_append, List.length_zip, List.length_map, List.length_range', hlen, Nat.min_self,
      Nat.add_assoc]
  · rw [List.map_append, h.slots, List.map_fst_zip (by simp [hlen]), List.flatMap_append, List.flatMap_singleton]
  · rw [List.map_append, h.handles, List.map_snd_zip (by simp [hlen]), ← List.map_append, h.size, List.range'_append_1,
      List.length_append, List.length_zip, List.length_map, List.length_range', hlen, Nat.min_self]
  · intro x hx
    rcases List.mem_append.1 hx with hx | hx
    · obtain ⟨node', xs', hn', hr', hmade⟩ := h.made x hx
      refine ⟨node', xs', hn', hr'.mono (hmore _), hmade.imp ?_⟩
      rintro o e ⟨y, hy, hget⟩
      exact ⟨y, hmore _ o y hy, ha.grows.get hget⟩
    · rw [List.mem_singleton] at hx
      subst hx
      refine ⟨node, xs, hn, hr.mono (hmore _), forall₂_of_getElem? hlen fun k o e ho he => ?_⟩
      refine ⟨⟨m.size + k⟩, ?_, ha.get he⟩
      -- The slots of other nodes are other slots, so the new ones are new keys.
      have hfresh : values.lookup o = none := by
        rw [List.lookup_eq_none_iff]
        intro p hp
        obtain ⟨n', hn', hp'⟩ := h.exists_node hp
        rw [bne_iff_ne]
        intro he
        exact hnew (hg.node_unique (List.mem_of_getElem? ho) (he ▸ hp') ▸ hn')
      have hk : k < (node.makes xs).length := (List.getElem?_eq_some_iff.1 he).1
      rw [List.lookup_append, hfresh]
      refine lookup_zip (hg.nodup_slotsWhere x Slot.isOutput) ho ?_
      simp [hk]

end Wired

/-- Nodes of the library that are evaluated one after the other are wired. -/
theorem forM_wired [Stack] {g : Graph} (hg : g.Laid) (hb : ∀ n node, g.node n = .ok node → node.isBuiltin)
    {e : Evaluator}
    {m₀ : Module} {ns : List NodeId} (hns : ns.Nodup) {s' : Evaluator × Module}
    (h : ns.forM (evaluateNode g) ({ e with values := [] }, m₀) = .ok () s') : Wired g m₀ ns s'.1.values s'.2 := by
  have hloop := forM_ok (P := fun rest s => ∃ done, ns = done ++ rest ∧ Wired g m₀ done s.1.values s.2) ?_ h
    ⟨[], rfl, wired_nil g m₀⟩
  · obtain ⟨done, rfl, hw⟩ := hloop
    simpa using hw
  · rintro n rest ⟨e₁, m₁⟩ s₂ ⟨done, rfl, hw⟩ hn
    obtain ⟨node, -, -, -, hnode, -⟩ := evaluateNode_eq_ok hn
    obtain ⟨xs, hr⟩ := reads_of_evaluateNode hg hnode (hb n node hnode) hn
    obtain ⟨m₂, ha, he⟩ := evaluateNode_of_reads hg hnode (hb n node hnode) (m := m₁)
      (fun s x hs => (hw.mem_handles hs).2) hr
    rw [he] at hn
    cases hn
    have hnew : n ∉ done := fun hm => (List.nodup_append.1 hns).2.2 n hm n List.mem_cons_self rfl
    exact ⟨done ++ [n], by simp, hw.snoc hg hnew hnode (hb n node hnode) hr ha⟩

/-- A node whose inputs are all linked finds their expressions once the nodes it
depends on have been evaluated. -/
theorem Wired.reads {g : Graph} {L : Links} (ha : g.Agrees L) (hg : g.Laid) {m₀ m : Module} {ns : List NodeId}
    {values : List (SlotId × ExprHandle)} (h : Wired g m₀ ns values m) {n : NodeId} (hn : g.Linked n)
    (hdone : ∀ m, g.DependsOn n m → m ∈ ns) : ∃ xs, Reads g values n xs := by
  refine exists_forall₂_iff.2 fun i hi => ?_
  obtain ⟨o, ho⟩ := hn i hi
  have hlink := (ha.sourceSlot_eq_some_iff (hg.dirOf?_input hi)).1 ho
  obtain ⟨slot, hslot, hdir⟩ := Graph.dirOf?_eq_some_iff.1 (ha.joins _ hlink).1
  have hsource : slot.node ∈ ns := hdone _ ⟨i, o, slot, hi, ho, Graph.slot_of_getElem? hslot, rfl⟩
  obtain ⟨x, hx⟩ := h.exists_value hsource (hg.mem_slotsWhere_iff.2 ⟨slot, hslot, rfl, by simp [Slot.isOutput, hdir]⟩)
  exact ⟨x, o, ho, hx⟩

/-- Nodes whose inputs are all linked can be evaluated in an order that puts first
what they depend on. -/
theorem forM_of_linked [Stack] {g : Graph} {L : Links} (ha : g.Agrees L) (hg : g.Laid)
    (hb : ∀ n node, g.node n = .ok node → node.isBuiltin) (e : Evaluator) (m₀ : Module) {ns : List NodeId}
    (hns : ns.Nodup) (hvalid : ∀ n ∈ ns, n.index < g.nodes.size)
    (hclosed : ∀ before n after, ns = before ++ n :: after → ∀ m, g.DependsOn n m → m ∈ before)
    (hlinked : ∀ n ∈ ns, g.Linked n) : ∃ s', ns.forM (evaluateNode g) ({ e with values := [] }, m₀) = .ok () s' := by
  have hloop := exists_forM_ok (f := evaluateNode g)
    (P := fun rest s => ∃ done, ns = done ++ rest ∧ Wired g m₀ done s.1.values s.2) ?_
    (s := ({ e with values := [] }, m₀)) ⟨[], rfl, wired_nil g m₀⟩
  · obtain ⟨s', hs', -⟩ := hloop
    exact ⟨s', hs'⟩
  · rintro n rest ⟨e₁, m₁⟩ ⟨done, rfl, hw⟩
    have hn : n ∈ done ++ n :: rest := List.mem_append_right _ List.mem_cons_self
    obtain ⟨node, hnode⟩ := g.exists_node (hvalid n hn)
    obtain ⟨xs, hr⟩ := hw.reads ha hg (hlinked n hn) (hclosed done n rest rfl)
    obtain ⟨m₂, happ, he⟩ := evaluateNode_of_reads hg hnode (hb n node hnode) (m := m₁)
      (fun s x hs => (hw.mem_handles hs).2) hr
    have hnew : n ∉ done := fun hm => (List.nodup_append.1 hns).2.2 n hm n List.mem_cons_self rfl
    exact ⟨_, he, done ++ [n], by simp, hw.snoc hg hnew hnode (hb n node hnode) hr happ⟩

/-! ## A whole evaluation -/

/-- An order of evaluation is found when what the nodes need can be sorted. -/
theorem build_eq_ok {g : Graph} {e : Evaluator} {m : Module} {s' : Evaluator × Module} :
    build g (e, m) = .ok () s' ↔ ∃ d order, g.allNeeds = .ok d ∧ d.findCycle = .ok () ∧ d.sorted = .ok order ∧
      s' = ({ e with needs := d, order := order }, m) := by
  unfold build reorder
  dsimp only
  cases hneeds : g.allNeeds with
  | error err => simp
  | ok d =>
    cases hcycle : d.findCycle with
    | error err => simp [hcycle]
    | ok _ =>
      cases hsorted : d.sorted with
      | error err => simp [hcycle, hsorted]
      | ok order => simp [hcycle, hsorted, eq_comm]

/-- The nodes that some slots depend on, those of the slots among them. -/
def Required (g : Graph) (targets : List SlotId) (n : NodeId) : Prop :=
  ∃ s ∈ targets, ∃ slot, g.slot s = .ok slot ∧ Relation.ReflTransGen g.DependsOn slot.node n

theorem Required.index_lt {g : Graph} {targets : List SlotId} {n : NodeId} (h : Required g targets n) (hg : g.Laid) :
    n.index < g.nodes.size := by
  obtain ⟨s, -, slot, hslot, hreach⟩ := h
  cases hreach with
  | refl => exact hg.owned _ slot (Graph.slot_eq_ok_iff.1 hslot)
  | tail _ hdep =>
    obtain ⟨i, o, source, -, -, hsource, rfl⟩ := hdep
    exact hg.owned _ source (Graph.slot_eq_ok_iff.1 hsource)

/-- An evaluation for some slots builds an order and evaluates, in that order,
the nodes the slots depend on. -/
theorem evaluate_some_eq_ok [Stack] {g : Graph} {targets : List SlotId} {e : Evaluator} {m : Module} {k : Nat}
    {s' : Evaluator × Module} :
    evaluate g (some targets) (e, m) = .ok k s' ↔ ∃ d order roots, g.allNeeds = .ok d ∧ d.findCycle = .ok () ∧
      d.sorted = .ok order ∧ targets.mapM (fun s => do return (← g.slot s).node) = .ok roots ∧
      k = (d.closure roots).length ∧ (order.filter (d.closure roots).contains).forM (evaluateNode g)
        ({ needs := d, order := order, values := [] }, m) = .ok () s' := by
  constructor
  · intro h
    obtain ⟨_, _, hbuild, h⟩ := EStateM.bind_eq_ok.1 h
    obtain ⟨d, order, hd, hc, hs, rfl⟩ := build_eq_ok.1 hbuild
    obtain ⟨_, _, hget, h⟩ := EStateM.bind_eq_ok.1 h
    cases hget
    obtain ⟨wanted, _, hcheck, h⟩ := EStateM.bind_eq_ok.1 h
    obtain ⟨hwanted, rfl⟩ := checking_eq_ok.1 hcheck
    obtain ⟨roots, hr, hclosure⟩ := Except.bind_eq_ok.1 hwanted
    cases hclosure
    obtain ⟨_, _, hclear, h⟩ := EStateM.bind_eq_ok.1 h
    cases hclear
    obtain ⟨_, _, hloop, h⟩ := EStateM.bind_eq_ok.1 h
    cases h
    exact ⟨d, order, roots, hd, hc, hs, hr, rfl, hloop⟩
  · rintro ⟨d, order, roots, hd, hc, hs, hr, rfl, hloop⟩
    refine EStateM.bind_eq_ok.2 ⟨(), _, build_eq_ok.2 ⟨d, order, hd, hc, hs, rfl⟩, EStateM.bind_eq_ok.2 ⟨_, _, rfl,
      EStateM.bind_eq_ok.2 ⟨d.closure roots, _, checking_eq_ok.2 ⟨Except.bind_eq_ok.2 ⟨roots, hr, rfl⟩, rfl⟩,
        EStateM.bind_eq_ok.2 ⟨(), _, rfl, EStateM.bind_eq_ok.2 ⟨(), s', hloop, rfl⟩⟩⟩⟩⟩

section

variable {g : Graph} {L : Links} {targets : List SlotId} {roots : List NodeId} {d : Needs} {order : List NodeId}

theorem mem_roots_iff (hr : targets.mapM (fun s => do return (← g.slot s).node) = .ok roots) {n : NodeId} :
    n ∈ roots ↔ ∃ s ∈ targets, ∃ slot, g.slot s = .ok slot ∧ slot.node = n := by
  constructor
  · intro hn
    obtain ⟨s, hs, h⟩ := Except.exists_of_mem_mapM hr hn
    obtain ⟨slot, hslot, h⟩ := Except.bind_eq_ok.1 h
    cases h
    exact ⟨s, hs, slot, hslot, rfl⟩
  · rintro ⟨s, hs, slot, hslot, rfl⟩
    obtain ⟨n, hn, h⟩ := Except.exists_of_mapM_mem hr hs
    rw [hslot] at h
    cases h
    exact hn

/-- What is wanted for some slots are the nodes they depend on. -/
theorem mem_closure_iff_required (hg : g.Laid) (hsize : d.needs.size = g.nodes.size) (hd : d.Mirrored)
    (hneeded : d.Needed = g.DependsOn) (hr : targets.mapM (fun s => do return (← g.slot s).node) = .ok roots)
    {n : NodeId} : n ∈ d.closure roots ↔ Required g targets n := by
  have hvalid : ∀ r ∈ roots, r.index < d.needs.size := by
    intro r hmem
    obtain ⟨s, -, slot, hslot, rfl⟩ := (mem_roots_iff hr).1 hmem
    rw [hsize]
    exact hg.owned _ slot (Graph.slot_eq_ok_iff.1 hslot)
  rw [hd.mem_closure_iff hvalid, hneeded]
  constructor
  · rintro ⟨r, hmem, hreach⟩
    obtain ⟨s, hs, slot, hslot, rfl⟩ := (mem_roots_iff hr).1 hmem
    exact ⟨s, hs, slot, hslot, hreach⟩
  · rintro ⟨s, hs, slot, hslot, hreach⟩
    exact ⟨slot.node, (mem_roots_iff hr).2 ⟨s, hs, slot, hslot, rfl⟩, hreach⟩

/-- Those that are wanted, taken from an order, still come after what they need. -/
theorem closed_filter (ho : d.Orders order) {wanted : List NodeId}
    (hwanted : ∀ n ∈ wanted, ∀ m, d.Needed n m → m ∈ wanted) :
    ∀ before n after, order.filter wanted.contains = before ++ n :: after → ∀ m, d.Needed n m → m ∈ before := by
  intro before n after h m hm
  obtain ⟨front, back, rfl, hfront⟩ := exists_split_of_filter h
  have hn : n ∈ (front ++ n :: back).filter wanted.contains := by
    rw [h]
    exact List.mem_append_right _ List.mem_cons_self
  have hm' : m ∈ wanted := hwanted n (by simpa using (List.mem_filter.1 hn).2) m hm
  exact hfront m (ho.closed front n back rfl m hm) (by simpa using hm')

end

section

variable {g : Graph} {L : Links} {targets : List SlotId} {e : Evaluator} {m : Module}

/-- An evaluation that succeeds: the graph is acyclic, and the nodes that the
slots depend on are evaluated, each once. -/
theorem evaluate_wired [Stack] (ha : g.Agrees L) (hg : g.Laid) (hb : ∀ n node, g.node n = .ok node → node.isBuiltin)
    {k : Nat} {s' : Evaluator × Module} (h : evaluate g (some targets) (e, m) = .ok k s') :
    g.Acyclic ∧ ∃ ns, ns.Nodup ∧ (∀ n, n ∈ ns ↔ Required g targets n) ∧ Wired g m ns s'.1.values s'.2 := by
  obtain ⟨d, order, roots, hneeds, -, hsorted, hr, -, hloop⟩ := evaluate_some_eq_ok.1 h
  obtain ⟨d', hneeds', hsize, hd, hneeded⟩ := ha.allNeeds_eq hg
  rw [hneeds] at hneeds'
  cases hneeds'
  have ho := hd.orders_of_sorted hsorted
  have hns := ho.once.filter (d.closure roots).contains
  refine ⟨?_, _, hns, fun n => ?_, forM_wired hg hb (e := { needs := d, order := order }) hns hloop⟩
  · have hac := ho.acyclic
    rwa [Needs.Acyclic, hneeded] at hac
  · rw [← mem_closure_iff_required hg hsize hd hneeded hr, List.mem_filter]
    simp only [List.contains_iff_mem, and_iff_right_iff_imp]
    intro hn
    rw [ho.all, hsize]
    exact ((mem_closure_iff_required hg hsize hd hneeded hr).1 hn).index_lt hg

/-- An acyclic graph in which all nodes that the slots depend on have their inputs
linked can be evaluated. -/
theorem exists_evaluate [Stack] (ha : g.Agrees L) (hg : g.Laid) (hb : ∀ n node, g.node n = .ok node → node.isBuiltin)
    (hac : g.Acyclic) (htargets : ∀ s ∈ targets, ∃ slot, g.slot s = .ok slot)
    (hlinked : ∀ n, Required g targets n → g.Linked n) :
    ∃ k s', evaluate g (some targets) (e, m) = .ok k s' := by
  obtain ⟨d, hneeds, hsize, hd, hneeded⟩ := ha.allNeeds_eq hg
  have hac' : d.Acyclic := by
    rwa [Needs.Acyclic, hneeded]
  obtain ⟨order, hsorted⟩ := hd.sorted_of_acyclic hac'
  have ho := hd.orders_of_sorted hsorted
  obtain ⟨roots, hr⟩ : ∃ roots, targets.mapM (fun s => do return (← g.slot s).node) = .ok roots := by
    rw [Except.exists_mapM_eq_ok]
    intro s hs
    obtain ⟨slot, hslot⟩ := htargets s hs
    exact ⟨slot.node, by rw [hslot]; rfl⟩
  have hclosure : ∀ n, n ∈ d.closure roots ↔ Required g targets n := fun n =>
    mem_closure_iff_required hg hsize hd hneeded hr
  have hmem : ∀ n ∈ order.filter (d.closure roots).contains, Required g targets n := by
    intro n hn
    rw [← hclosure]
    simpa using (List.mem_filter.1 hn).2
  have hclosed : ∀ n ∈ d.closure roots, ∀ m, d.Needed n m → m ∈ d.closure roots := by
    intro n hn m hm
    obtain ⟨s, hs, slot, hslot, hreach⟩ := (hclosure n).1 hn
    exact (hclosure m).2 ⟨s, hs, slot, hslot, hreach.tail (hneeded ▸ hm)⟩
  obtain ⟨s', hloop⟩ := forM_of_linked ha hg hb { needs := d, order := order } m
    (ho.once.filter (d.closure roots).contains)
    (fun n hn => hsize ▸ (ho.all n).1 (List.mem_filter.1 hn).1)
    (fun before n after h m hm => closed_filter ho hclosed before n after h m (hneeded ▸ hm))
    (fun n hn => hlinked n (hmem n hn))
  exact ⟨_, s', evaluate_some_eq_ok.2 ⟨d, order, roots, hneeds, Needs.findCycle_of_acyclic hac', hsorted,
    hr, rfl, hloop⟩⟩

end

end Evaluator

end EffectGraph
