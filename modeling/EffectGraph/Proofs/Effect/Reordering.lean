import EffectGraph.Proofs.Effect.Acceptance
import EffectGraph.Proofs.Effect.Alike
import EffectGraph.Proofs.Graph.Reordering
import Mathlib

/-!
# The order of declarations

Nodes, links and properties can be declared in any order: it changes where nodes,
slots and expressions stand, but not the code. The expressions of slots that are
twins are twins (`ValueTwins`), and the modules that two reordered graphs are
evaluated to hold the same expressions where these stand (`Wired.alike`). So all
that is written from the outputs is the same, and what the modifiers add does not
depend on what was written before (`Compiles.reordered`).
-/

namespace EffectGraph

/-- What a node makes of the same expressions is the same. -/
theorem Node.makes_alike {R : ExprHandle → ExprHandle → Prop} (node : Node) {xs xs' : List ExprHandle}
    (h : List.Forall₂ R xs xs') : List.Forall₂ (Expr.Alike R) (node.makes xs) (node.makes xs') := by
  cases h with
  | nil =>
    cases node with
    | time =>
      rw [makes, List.forall₂_map_left_iff, List.forall₂_map_right_iff, List.forall₂_same]
      exact fun b _ => .builtin b
    | arithmetic | normalize | custom => exact .nil
    | _ a => exact .cons (.attr a) .nil
  | cons hx hrest =>
    cases hrest with
    | nil =>
      cases node with
      | normalize => exact .cons (.unary hx) .nil
      | _ => exact .nil
    | cons hy hrest =>
      cases hrest with
      | nil =>
        cases node with
        | arithmetic op => exact .cons (.binary hx hy) .nil
        | _ => exact .nil
      | cons _ _ => cases node <;> exact .nil

namespace Evaluator

/-- Expressions of slots that are twins. -/
def ValueTwins (b b' : Builder) (values values' : List (SlotId × ExprHandle)) (x x' : ExprHandle) : Prop :=
  ∃ s s', SlotTwins b b' s s' ∧ values.lookup s = some x ∧ values'.lookup s' = some x'

theorem ValueTwins.symm {b b' : Builder} {values values' : List (SlotId × ExprHandle)} {x x' : ExprHandle}
    (h : ValueTwins b b' values values' x x') : ValueTwins b' b values' values x' x := by
  obtain ⟨s, s', ht, hs, hs'⟩ := h
  exact ⟨s', s, ht.symm, hs', hs⟩

section

variable {b b' : Builder} {m₀ m₀' m m' : Module} {ns ns' : List NodeId} {values values' : List (SlotId × ExprHandle)}
  (r : Builder.Reordered b b') (h : Wired b.graph m₀ ns values m) (h' : Wired b'.graph m₀' ns' values' m')

include r h in
theorem ValueTwins.eq_right {x y' x' : ExprHandle} (hx : ValueTwins b b' values values' x x')
    (hy : ValueTwins b b' values values' x y') : x' = y' := by
  obtain ⟨s, s', hs, hsx, hsx'⟩ := hx
  obtain ⟨t, t', ht, hty, hty'⟩ := hy
  obtain rfl := h.slot_unique hsx hty
  obtain rfl := hs.unique r.right ht
  rw [hsx'] at hty'
  exact Option.some.inj hty'

include r in
/-- The inputs of twins read twins. -/
theorem Reads.twins {n n' : NodeId} (ht : Twins b.nodes b'.nodes n n') {xs xs' : List ExprHandle}
    (hr : Reads b.graph values n xs) (hr' : Reads b'.graph values' n' xs') :
    List.Forall₂ (ValueTwins b b' values values') xs xs' := by
  have hsources : List.Forall₂ (fun x i' => ∃ o o', b'.graph.sourceSlot i' = .ok (some o') ∧ SlotTwins b b' o o' ∧
      values.lookup o = some x) xs (b'.graph.slotsWhere n' Slot.isInput) := by
    refine forall₂_trans (List.Forall₂.flip hr) (ht.forall₂_slots r.left r.right .input) fun x i hi i' hx hti => ?_
    obtain ⟨o, ho, hox⟩ := hx
    obtain ⟨o', ho', hto⟩ := r.sourceSlot_twin hti (r.left.laid.dirOf?_input hi) ho
    exact ⟨o, o', ho', hto, hox⟩
  refine forall₂_trans hsources hr' fun x i' _ x' hx hx' => ?_
  obtain ⟨o, o', ho', hto, hox⟩ := hx
  obtain ⟨_, ho₁, hox'⟩ := hx'
  rw [ho'] at ho₁
  cases ho₁
  exact ⟨o, o', hto, hox, hox'⟩

include r h h' in
/-- Twins hold the same expressions, around twins. -/
theorem ValueTwins.exprs {x x' : ExprHandle} (hx : ValueTwins b b' values values' x x') :
    ∃ e e', m.get x = .ok e ∧ m'.get x' = .ok e' ∧ Expr.Alike (ValueTwins b b' values values') e e' := by
  obtain ⟨s, s', hs, hsx, hsx'⟩ := hx
  obtain ⟨n, hn, hout⟩ := h.exists_node (mem_of_lookup hsx)
  obtain ⟨n', hn', hout'⟩ := h'.exists_node (mem_of_lookup hsx')
  have ht : Twins b.nodes b'.nodes n n' := by
    obtain ⟨slot, hslot, rfl, -⟩ := r.left.laid.mem_slotsWhere_iff.1 hout
    obtain ⟨slot', hslot', rfl, -⟩ := r.right.laid.mem_slotsWhere_iff.1 hout'
    obtain ⟨_, hslot₁, ht⟩ := hs.exists_slot hslot
    rw [hslot'] at hslot₁
    cases hslot₁
    exact ht
  obtain ⟨node, xs, hnode, hr, hmade⟩ := h.made _ hn
  obtain ⟨node', xs', hnode', hr', hmade'⟩ := h'.made _ hn'
  obtain rfl : node = node' := by
    obtain ⟨node₁, -, hnode₁, hnode₁', -⟩ := ht.exists_node r.left r.right
    rw [hnode] at hnode₁
    rw [hnode'] at hnode₁'
    cases hnode₁
    cases hnode₁'
    rfl
  -- Twin slots stand at the same place among the outputs, as do the expressions for them.
  obtain ⟨k, hk⟩ := List.mem_iff_getElem?.1 hout
  obtain ⟨s₁, hk', hs₁⟩ := forall₂_getElem? (ht.forall₂_slots r.left r.right .output) hk
  obtain rfl := hs₁.unique r.right hs
  obtain ⟨e, he, y, hy, hget⟩ := forall₂_getElem? hmade hk
  obtain ⟨e', he', y', hy', hget'⟩ := forall₂_getElem? hmade' hk'
  rw [hsx] at hy
  rw [hsx'] at hy'
  cases hy
  cases hy'
  obtain ⟨e₁, he₁, halike⟩ := forall₂_getElem? (node.makes_alike (hr.twins r ht hr')) he
  rw [he'] at he₁
  cases he₁
  exact ⟨e, e', hget, hget', halike⟩

include r h h' in
/-- Reordered graphs are evaluated to the same expressions. -/
theorem Wired.alike (hkey : m₀'.key = m₀.key) : m.Alike (ValueTwins b b' values values') m' where
  key := (h'.key.trans hkey).trans h.key.symm
  exprs _ _ hx := hx.exprs r h h'
  same_iff x x' y y' hx hy := by
    constructor
    · rintro rfl
      exact hx.eq_right r h hy
    · rintro rfl
      exact hx.symm.eq_right r.symm h' hy.symm

end

end Evaluator

/-! ## Attributes -/

namespace Compiler

theorem mem_attributesRead_iff {m : Module} {a : Attribute} : a ∈ attributesRead m ↔ .attribute a ∈ m.exprs := by
  rw [attributesRead, List.mem_filterMap, ← Array.mem_toList_iff]
  constructor
  · rintro ⟨e, hmem, he⟩
    split at he
    · cases he
      exact hmem
    · cases he
  · intro hmem
    exact ⟨_, hmem, rfl⟩

/-- What modifiers add reads no attribute that they do not touch. -/
theorem mem_attributes_appends {m m' : Module} {es : List Expr} {touched : List Attribute} (h : m.Appends es m')
    (hes : ∀ a, .attribute a ∈ es → a ∈ touched) {a : Attribute} :
    a ∈ attributes m' touched ↔ a ∈ attributesRead m ∨ a ∈ touched := by
  have hread : a ∈ attributesRead m' ↔ a ∈ attributesRead m ∨ .attribute a ∈ es := by
    simp only [mem_attributesRead_iff, h.exprs, Array.mem_append, List.mem_toArray]
  rw [attributes, List.mem_eraseDups, List.mem_append, hread]
  constructor
  · rintro ((ha | ha) | ha)
    · exact .inl ha
    · exact .inr (hes a ha)
    · exact .inr ha
  · rintro (ha | ha)
    · exact .inl (.inl ha)
    · exact .inr ha

/-- Modules with the same expressions read the same attributes. -/
theorem attributesRead_alike {R : ExprHandle → ExprHandle → Prop} {m m' : Module} (h : m.Alike R m')
    (hall : ∀ x : ExprHandle, x.index < m.size → ∃ x', R x x') {a : Attribute} (ha : a ∈ attributesRead m) :
    a ∈ attributesRead m' := by
  rw [mem_attributesRead_iff] at ha ⊢
  obtain ⟨k, hk, hget⟩ := Array.mem_iff_getElem.1 ha
  obtain ⟨x', hx⟩ := hall ⟨k⟩ hk
  obtain ⟨hlt', halike⟩ := h.expand hx hk
  have hmem := Array.getElem_mem hlt'
  generalize m'.exprs[x'.index] = e' at halike hmem
  rw [hget] at halike
  cases halike
  exact hmem

end Compiler

/-! ## Definitions -/

/-- Definitions that differ in the order of their nodes, links and properties only;
nodes have identifiers of their own, and no two links have the same target. -/
structure Definition.Reordered (d d' : Definition) : Prop where
  name : d.name = d'.name
  properties : d.properties.Perm d'.properties
  outputs : d.outputs = d'.outputs
  modifiers : d.modifiers = d'.modifiers
  nodes : d.nodes.Perm d'.nodes
  links : d.links.Perm d'.links
  ids : (d.nodes.map (·.id)).Nodup
  targets : (d.links.map (·.target)).Nodup

namespace Definition.Reordered

variable {d d' : Definition}

theorem symm (h : d.Reordered d') : d'.Reordered d where
  name := h.name.symm
  properties := h.properties.symm
  outputs := h.outputs.symm
  modifiers := h.modifiers.symm
  nodes := h.nodes.symm
  links := h.links.symm
  ids := (h.nodes.map _).nodup_iff.1 h.ids
  targets := (h.links.map _).nodup_iff.1 h.targets

theorem propertyNames (h : d.Reordered d') :
    (Module.ofProperties d.properties).propertyNames ⊆ (Module.ofProperties d'.properties).propertyNames := by
  simp only [Module.propertyNames, Module.ofProperties, List.map_map]
  exact (h.properties.map _).subset

theorem graphs (h : d.Reordered d') {b b' : Builder}
    (hb : Builder.build { nodes := d.nodes, links := d.links } = .ok () b)
    (hb' : Builder.build { nodes := d'.nodes, links := d'.links } = .ok () b') : Builder.Reordered b b' := by
  obtain ⟨hnodes, hlinks, hfinished⟩ := Builder.build_eq_ok_iff_finished.1 hb
  obtain ⟨hnodes', hlinks', hfinished'⟩ := Builder.build_eq_ok_iff_finished.1 hb'
  refine ⟨hfinished, hfinished', ?_, ?_, ?_⟩
  · rw [hnodes, hnodes']
    exact h.nodes
  · rw [hlinks, hlinks']
    exact h.links
  · rw [hlinks]
    exact h.targets

end Definition.Reordered

namespace Compiler

variable {d d' : Definition} {b b' : Builder}

/-- A definition that compiles can be reordered and compiles. -/
theorem Accepts.reordered [Stack] (h : Accepts d b) (hd : d.Reordered d') : ∃ b', Accepts d' b' := by
  obtain ⟨hnodes, hlinks, hfinished⟩ := Builder.build_eq_ok_iff_finished.1 h.built
  obtain ⟨b', hb'⟩ := hfinished.exists_reordered (hnodes ▸ hd.nodes) (hlinks ▸ hd.links)
  have hbuilt' := Builder.build_eq_ok_iff_finished.2 hb'
  have r := hd.graphs h.built hbuilt'
  refine ⟨b', ?_, ?_, hbuilt', ?_, r.symm.acyclic h.acyclic, ?_, ?_⟩
  · exact (hd.properties.map _).nodup_iff.1 h.properties
  · rw [← hd.outputs]
    exact h.outputs
  · rw [← hd.outputs]
    intro o ho
    obtain ⟨s, hs, hdir⟩ := h.targets o ho
    obtain ⟨s', hs', ht⟩ := resolve_twin r.left r.right r.nodes hs
    exact ⟨s', hs', ht.dirOf?.trans hdir⟩
  · rw [← hd.outputs]
    intro o ho s' slot' n' hs' hslot' hreach'
    obtain ⟨s, hs, ht⟩ := resolve_twin r.right r.left r.symm.nodes hs'
    obtain ⟨slot, hslot, htn⟩ := ht.exists_slot (Graph.slot_eq_ok_iff.1 hslot')
    obtain ⟨n, hn, hreach⟩ := r.symm.reaches_twin htn hreach'
    exact r.linked hn.symm (h.linked o ho s slot n hs (Graph.slot_of_getElem? hslot) hreach)
  · rw [← hd.modifiers]
    intro modifier hmodifier
    obtain ⟨made, m, hmade⟩ := h.modifiers modifier hmodifier
    obtain ⟨t, hmakes⟩ := Modifier.create_makes hmade
    obtain ⟨e, m', -, -, -, hmade', -⟩ := hmakes _ hd.propertyNames
    exact ⟨_, m', hmade'⟩

namespace Evaluated

variable {ts ts' : List (Text × SlotId)} {ns ns' : List NodeId} {e e' : Evaluator} {m m' : Module}
  {outputs outputs' : List (Text × ExprHandle)}

theorem forall₂_outputs (h : Evaluated d b ts ns e.values m) (ho : outputHandles e ts = .ok outputs) :
    List.Forall₂ (fun o x => x.1 = o.1 ∧ ∃ s, b.resolve o.2 = .ok s ∧ e.values.lookup s = some x.2)
      d.outputs outputs := by
  refine forall₂_trans (targets_eq_ok.1 h.targets) (outputHandles_eq_ok.1 ho) ?_
  rintro o t - x ⟨hname, hs, -⟩ ⟨hname', hx⟩
  exact ⟨hname'.trans hname, t.2, hs, hx⟩

variable (h : Evaluated d b ts ns e.values m) (h' : Evaluated d' b' ts' ns' e'.values m')
  (hd : d.outputs = d'.outputs) (r : Builder.Reordered b b')

include h h' hd r

/-- Twins of nodes that are evaluated are evaluated. -/
theorem exists_twin {n : NodeId} (hn : n ∈ ns) : ∃ n', Twins b.nodes b'.nodes n n' ∧ n' ∈ ns' := by
  obtain ⟨o, ho, s, slot, hs, hslot, hreach⟩ := (required_iff h.targets).1 ((h.required n).1 hn)
  obtain ⟨s', hs', ht⟩ := resolve_twin r.left r.right r.nodes hs
  obtain ⟨slot', hslot', htn⟩ := ht.exists_slot (Graph.slot_eq_ok_iff.1 hslot)
  obtain ⟨n', hn', hreach'⟩ := r.reaches_twin htn hreach
  refine ⟨n', hn', (h'.required n').2 ((required_iff h'.targets).2 ?_)⟩
  exact ⟨o, hd ▸ ho, s', slot', hs', Graph.slot_of_getElem? hslot', hreach'⟩

/-- All expressions have twins. -/
theorem exists_value_twin {x : ExprHandle} (hx : x.index < m.size) :
    ∃ x', Evaluator.ValueTwins b b' e.values e'.values x x' := by
  obtain ⟨n, hn, -, -, o, ho, -, -, -, -, hox, -⟩ := h.wired.exists_made r.left.laid h.once (Nat.zero_le _) hx
  obtain ⟨n', ht, hn'⟩ := h.exists_twin h' hd r hn
  obtain ⟨o', ho', hto⟩ := forall₂_mem_left (ht.forall₂_slots r.left r.right .output) ho
  obtain ⟨x', hx'⟩ := h'.wired.exists_value hn' ho'
  exact ⟨x', o, o', hto, hox, hx'⟩

/-- Outputs are named alike and have expressions that are twins. -/
theorem outputs_twins (ho : outputHandles e ts = .ok outputs) (ho' : outputHandles e' ts' = .ok outputs') :
    List.Forall₂ (fun o o' => o.1 = o'.1 ∧ Evaluator.ValueTwins b b' e.values e'.values o.2 o'.2)
      outputs outputs' := by
  have hout' := h'.forall₂_outputs ho'
  rw [← hd] at hout'
  refine forall₂_trans (h.forall₂_outputs ho).flip hout' ?_
  rintro x o - x' ⟨hname, s, hs, hx⟩ ⟨hname', s', hs', hx'⟩
  obtain ⟨_, hs₁, ht⟩ := resolve_twin r.left r.right r.nodes hs
  rw [hs'] at hs₁
  cases hs₁
  exact ⟨hname.trans hname'.symm, s, s', ht, hx, hx'⟩

end Evaluated

/-- Once the outputs are written, modifiers can be applied. -/
theorem Compiles.ready [Stack] {c : Compiler} (hr : c.registry = Registry.builtin) {s : Stages} {effect : Effect}
    (h : Compiles c d s effect) : Writer.Ready s.evaluated s.written := by
  have hwritten := run_eq_ok.1 h.written
  obtain ⟨ns, ev⟩ := h.exists_evaluated hr
  obtain ⟨w, hw, hready⟩ := exists_writeOutputs c (writeOutputs_eq_ok.1 hwritten).1 (ev.renderable h.outputs)
  rw [hwritten] at hw
  cases hw
  exact hready

/-- Definitions that differ in order compile to the same code and use the same
attributes. -/
theorem Compiles.reordered [Stack] {c : Compiler} (hr : c.registry = Registry.builtin)
    (hm : c.modifiers = Modifier.types)
    (hd : d.Reordered d') {s s' : Stages} {effect effect' : Effect} (h : Compiles c d s effect)
    (h' : Compiles c d' s' effect') :
    effect.code = effect'.code ∧ ∀ a, a ∈ effect.attributes ↔ a ∈ effect'.attributes := by
  obtain ⟨ns, ev⟩ := h.exists_evaluated hr
  obtain ⟨ns', ev'⟩ := h'.exists_evaluated hr
  have r := hd.graphs ((construct_builtin_eq_ok hr).1 h.built) ((construct_builtin_eq_ok hr).1 h'.built)
  have halike := ev.wired.alike r ev'.wired rfl
  have halike' := ev'.wired.alike r.symm ev.wired rfl
  -- The outputs are written the same.
  obtain ⟨w, hw, hwriters⟩ := writeOutputs_alike halike (ev.outputs_twins ev' hd.outputs r h.outputs h'.outputs)
    (run_eq_ok.1 h.written)
  rw [run_eq_ok.1 h'.written] at hw
  cases hw
  -- The modifiers add the same.
  have hmodified := run_eq_ok.1 h.modified
  have hmodified' := run_eq_ok.1 h'.modified
  have hnames : s.evaluated.propertyNames ⊆ s'.evaluated.propertyNames := by
    rw [Module.propertyNames, Module.propertyNames, ev.wired.properties, ev'.wired.properties]
    exact hd.propertyNames
  obtain ⟨lines, touched, -, happly⟩ := applyModifiers_makes hm (makes_of_applyModifiers hm hmodified)
  obtain ⟨es, m₁, w₁, hrun, happends, hes, hlines⟩ := happly _ _ (List.Subset.refl _) (h.ready hr)
  obtain ⟨es', m₁', w₁', hrun', happends', hes', hlines'⟩ := happly _ _ hnames (h'.ready hr)
  rw [hmodified, EStateM.Result.ok.injEq, Prod.mk.injEq] at hrun
  rw [hd.modifiers, hmodified', EStateM.Result.ok.injEq, Prod.mk.injEq] at hrun'
  obtain ⟨rfl, rfl, rfl⟩ := hrun
  obtain ⟨htouched, rfl, rfl⟩ := hrun'
  refine ⟨?_, fun a => ?_⟩
  · have hcode : effect.code = s.finished.code := congrArg Effect.code h.effect
    have hcode' : effect'.code = s'.finished.code := congrArg Effect.code h'.effect
    rw [hcode, hcode', Writer.code, Writer.code, hlines, hlines', hwriters.statements]
  · have hattr : effect.attributes = attributes effect.module s.touched := congrArg Effect.attributes h.effect
    have hattr' : effect'.attributes = attributes effect'.module s'.touched := congrArg Effect.attributes h'.effect
    have hread : a ∈ attributesRead s.evaluated ↔ a ∈ attributesRead s'.evaluated :=
      ⟨attributesRead_alike halike fun x hx => ev.exists_value_twin ev' hd.outputs r hx,
        attributesRead_alike halike' fun x hx => ev'.exists_value_twin ev hd.outputs.symm r.symm hx⟩
    rw [hattr, hattr', htouched, mem_attributes_appends happends hes, mem_attributes_appends happends' hes', hread]

/-- The order in which nodes, links and properties are declared does not matter,
whether shared expressions are hoisted or not: both definitions compile or neither
does, and then the code is the same text and the same attributes are used. -/
theorem compile_reordered [Stack] (hoist : Bool) (d d' : Definition) (hd : d.Reordered d') :
    ((∃ effect, Compiler.compile { hoist := hoist } d = .ok effect) ↔
      ∃ effect, Compiler.compile { hoist := hoist } d' = .ok effect) ∧
    ∀ effect effect', Compiler.compile { hoist := hoist } d = .ok effect →
      Compiler.compile { hoist := hoist } d' = .ok effect' →
      effect.code = effect'.code ∧ ∀ a, a ∈ effect.attributes ↔ a ∈ effect'.attributes := by
  have hcompile : ∀ {d d' : Definition}, d.Reordered d' →
      (∃ effect, Compiler.compile { hoist := hoist } d = .ok effect) →
      ∃ effect, Compiler.compile { hoist := hoist } d' = .ok effect := by
    rintro d d' hd ⟨effect, h⟩
    obtain ⟨s, hs⟩ := compile_eq_ok.1 h
    obtain ⟨b', hb'⟩ := (hs.accepts rfl rfl).reordered hd
    exact hb'.exists_compile rfl rfl
  refine ⟨⟨hcompile hd, hcompile hd.symm⟩, fun effect effect' h h' => ?_⟩
  obtain ⟨s, hs⟩ := compile_eq_ok.1 h
  obtain ⟨s', hs'⟩ := compile_eq_ok.1 h'
  exact hs.reordered rfl rfl hd hs'

/-- An effect that moves particles along their headings. -/
def moveAlong : Definition where
  name := "move along"
  nodes := [{ id := "p", type := "Attribute", params := [(.str "attribute", .str "position")] },
    { id := "v", type := "Attribute", params := [(.str "attribute", .str "velocity")] },
    { id := "n", type := "Normalize" }, { id := "s", type := "Add" }]
  links := [⟨"p.position", "s.lhs"⟩, ⟨"v.velocity", "n.in"⟩, ⟨"n.out", "s.rhs"⟩]
  properties := [("seed", ⟨.int 7, .scalar .u32⟩), ("burst", ⟨.int 32, .scalar .u32⟩)]
  outputs := [("pos", "s.result"), ("dir", "n.out")]

/-- The same effect, declared from the end. -/
def moveAlongReversed : Definition :=
  { moveAlong with
    nodes := moveAlong.nodes.reverse
    links := moveAlong.links.reverse
    properties := moveAlong.properties.reverse }

open scoped EffectGraph.Stack.Usual in
theorem compile_reordered_moveAlong : moveAlong.Reordered moveAlongReversed ∧
    ∃ effect effect', Compiler.compile {} moveAlong = .ok effect ∧
      Compiler.compile {} moveAlongReversed = .ok effect' ∧
      effect'.code =
        "let var0 = normalize(particle.velocity);\nlet pos = (particle.position) + (var0);\nlet dir = var0;\n" ∧
      ∀ a, a ∈ effect.attributes ↔ a ∈ effect'.attributes := by
  have hd : moveAlong.Reordered moveAlongReversed :=
    ⟨rfl, (List.reverse_perm _).symm, rfl, rfl, (List.reverse_perm _).symm, (List.reverse_perm _).symm, by decide,
      by decide⟩
  have hcode : (Compiler.compile {} moveAlong).toOption.map (·.code) =
      some ("let var0 = normalize(particle.velocity);\nlet pos = (particle.position) + (var0);\nlet dir = var0;\n" : Text) := by
    cbv
  simp only [Option.map_eq_some_iff, Except.toOption_eq_some] at hcode
  obtain ⟨effect, heffect, hcode⟩ := hcode
  obtain ⟨hcompile, hsame⟩ := compile_reordered true moveAlong moveAlongReversed hd
  obtain ⟨effect', heffect'⟩ := hcompile.1 ⟨effect, heffect⟩
  obtain ⟨hcode', hattributes⟩ := hsame effect effect' heffect heffect'
  exact ⟨hd, effect, effect', heffect, heffect', hcode'.symm.trans hcode, hattributes⟩

end Compiler
end EffectGraph
