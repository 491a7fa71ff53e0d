import EffectGraph.Proofs.Effect.Reordering

/-!
# Which attributes an effect uses

The attributes of an effect are collected from all expressions of its module, and
those are no more than the code needs: only nodes that an output depends on are
evaluated, and what such a node makes is reached from the outputs, apart from the
expressions of the time (`Evaluated.reached`). A dependency is an operand
(`Wired.reaches`), so this is an induction along the dependencies that lead from
an output to the node. What modifiers touch comes on top.
-/

namespace EffectGraph

/-! ## Reaching what nodes make -/

/-- What a node makes has the expressions of its inputs for operands. -/
theorem Node.children_eq_of_mem_makes {node : Node} {xs : List ExprHandle} {e : Expr} (he : e ∈ node.makes xs) :
    e.children = xs := by
  unfold makes at he
  split at he
  · rw [List.mem_singleton.1 he]
    rfl
  · rw [List.mem_singleton.1 he]
    rfl
  · obtain ⟨q, -, rfl⟩ := List.mem_map.1 he
    rfl
  · rw [List.mem_singleton.1 he]
    rfl
  · cases he

/-- A node makes one expression, unless it makes those of the time. -/
theorem Node.length_makes_le {node : Node} {xs : List ExprHandle} {e : Expr} (he : e ∈ node.makes xs)
    (hbuiltin : ∀ q, e ≠ .builtin q) : (node.makes xs).length ≤ 1 := by
  unfold makes at he ⊢
  split at he
  · exact Nat.le_refl 1
  · exact Nat.le_refl 1
  · obtain ⟨q, -, rfl⟩ := List.mem_map.1 he
    exact absurd rfl (hbuiltin q)
  · exact Nat.le_refl 1
  · cases he

namespace Module

variable {m m' : Module}

theorem mem_operands_grow (g : m.Grows m') {x c : ExprHandle} (h : c ∈ m.operands x) : c ∈ m'.operands x := by
  cases he : m.get x with
  | error err =>
    rw [operands, he] at h
    cases h
  | ok e =>
    rw [operands_eq he] at h
    rwa [operands_eq (g.get he)]

theorem Reaches.grow (g : m.Grows m') {x y : ExprHandle} (h : m.Reaches x y) : m'.Reaches x y :=
  Relation.ReflTransGen.mono (fun _ _ => mem_operands_grow g) _ _ h

end Module

/-- Only nodes of an attribute read it. -/
theorem Node.eq_attribute_of_mem_makes {node : Node} {xs : List ExprHandle} {a : Attribute}
    (h : .attribute a ∈ node.makes xs) : node = .attribute a := by
  unfold makes at h
  split at h
  · simp at h
  · simpa using (List.mem_singleton.1 h).symm
  · simp at h
  · simp at h
  · cases h

namespace Evaluator.Wired

variable {g : Graph} {m₀ m : Module} {ns : List NodeId} {values : List (SlotId × ExprHandle)}

/-- A slot with an expression is an output of its node. -/
theorem mem_outputs (h : Wired g m₀ ns values m) (hg : g.Laid) {s : SlotId} {slot : Slot} {x : ExprHandle}
    (hx : values.lookup s = some x) (hs : g.slot s = .ok slot) : s ∈ g.slotsWhere slot.node Slot.isOutput := by
  obtain ⟨n, -, hout⟩ := h.exists_node (mem_of_lookup hx)
  obtain ⟨slot', hslot', rfl, -⟩ := hg.mem_slotsWhere_iff.1 hout
  rw [Graph.slot_of_getElem? hslot'] at hs
  cases hs
  exact hout

/-- Where a node depends on another, what it makes reaches the expression of the
only output of the other. -/
theorem reaches (h : Wired g m₀ ns values m) (hg : g.Laid) {p n : NodeId}
    (hpath : Relation.ReflTransGen g.DependsOn p n) (hdone : ∀ q, Relation.ReflTransGen g.DependsOn p q → q ∈ ns)
    {o : SlotId} {x : ExprHandle} (hx : values.lookup o = some x) (hone : ∀ t ∈ g.slotsWhere n Slot.isOutput, t = o) :
    ∀ t ∈ g.slotsWhere p Slot.isOutput, ∀ y, values.lookup t = some y → m.Reaches y x := by
  -- Along the path, from the end on: `y` is made of the expression that the first input on the path reads.
  induction hpath using Relation.ReflTransGen.head_induction_on with
  | refl =>
    intro t ht y hy
    rw [hone t ht, hx] at hy
    cases hy
    exact .refl
  | @head p q hdep _ ih =>
    intro t ht y hy
    have hrest := ih fun r hr => hdone r (.head hdep hr)
    obtain ⟨i, s, slot, hi, hs, hslot, rfl⟩ := hdep
    obtain ⟨node, xs, -, hreads, hmade⟩ := h.made p (hdone p .refl)
    obtain ⟨z, hz, s', hs', hvalue⟩ := forall₂_mem_left hreads hi
    rw [hs] at hs'
    cases hs'
    obtain ⟨e, he, y', hy', hget⟩ := forall₂_mem_left hmade ht
    rw [hy] at hy'
    cases hy'
    have hoperand : z ∈ m.operands y := by
      rwa [Module.operands_eq hget, Node.children_eq_of_mem_makes he]
    exact .head hoperand (hrest s (h.mem_outputs hg hvalue hslot) z hvalue)

end Evaluator.Wired

namespace Compiler

theorem mem_attributesRead_iff_get {m : Module} {a : Attribute} :
    a ∈ attributesRead m ↔ ∃ x, m.get x = .ok (.attribute a) := by
  rw [mem_attributesRead_iff, Array.mem_iff_getElem?]
  simp only [Module.get_eq_ok_iff]
  exact ⟨fun ⟨k, hk⟩ => ⟨⟨k⟩, hk⟩, fun ⟨x, hx⟩ => ⟨x.index, hx⟩⟩

section

variable {d : Definition} {b : Builder} {ts : List (Text × SlotId)} {ns : List NodeId} {e : Evaluator} {m : Module}
  {outputs : List (Text × ExprHandle)}

/-- What is evaluated is reached from an output, unless it reads the time. -/
theorem Evaluated.reached (h : Evaluated d b ts ns e.values m) (ho : outputHandles e ts = .ok outputs)
    {x : ExprHandle} {expr : Expr} (hx : m.get x = .ok expr) (hbuiltin : ∀ q, expr ≠ .builtin q) :
    ∃ o ∈ outputs, m.Reaches o.2 x := by
  have hlt := (Array.getElem?_eq_some_iff.1 (Module.get_eq_ok_iff.1 hx)).1
  obtain ⟨n, hn, -, -, s, hs, -, -, -, -, hvalue, -⟩ := h.wired.exists_made h.laid h.once (Nat.zero_le _) hlt
  -- The node has one output only, so whoever depends on it reads `x`.
  have hone : ∀ t ∈ b.graph.slotsWhere n Slot.isOutput, t = s := by
    obtain ⟨node, xs, -, -, hmade⟩ := h.wired.made n hn
    obtain ⟨expr', hmem, x', hx', hget⟩ := forall₂_mem_left hmade hs
    rw [hvalue] at hx'
    cases hx'
    rw [hx] at hget
    cases hget
    have hlen := Node.length_makes_le hmem hbuiltin
    rw [← hmade.length_eq] at hlen
    obtain ⟨s', hs'⟩ := List.length_eq_one_iff.1 (Nat.le_antisymm hlen (List.length_pos_of_mem hs))
    rw [hs', List.mem_singleton] at hs
    simp [hs', hs]
  obtain ⟨t, ht, slot, hslot, hpath⟩ := (h.required n).1 hn
  obtain ⟨⟨name, t⟩, htarget, rfl⟩ := List.mem_map.1 ht
  obtain ⟨o, houtput, -, hy⟩ := forall₂_mem_left (outputHandles_eq_ok.1 ho) htarget
  have hdone : ∀ q, Relation.ReflTransGen b.graph.DependsOn slot.node q → q ∈ ns := by
    intro q hq
    exact (h.required q).2 ⟨t, ht, slot, hslot, hq⟩
  exact ⟨o, houtput, h.wired.reaches h.laid hpath hdone hvalue hone t (h.wired.mem_outputs h.laid hy hslot) o.2 hy⟩

/-- The attributes that are read after an evaluation are those of the nodes that
the outputs depend on. -/
theorem Evaluated.mem_attributesRead_iff (h : Evaluated d b ts ns e.values m) {a : Attribute} :
    a ∈ attributesRead m ↔ ∃ o ∈ d.outputs, ∃ s slot n, b.resolve o.2 = .ok s ∧ b.graph.slot s = .ok slot ∧
      Relation.ReflTransGen b.graph.DependsOn slot.node n ∧ b.graph.node n = .ok (.attribute a) := by
  have hneeded : (∃ o ∈ d.outputs, ∃ s slot n, b.resolve o.2 = .ok s ∧ b.graph.slot s = .ok slot ∧
      Relation.ReflTransGen b.graph.DependsOn slot.node n ∧ b.graph.node n = .ok (.attribute a)) ↔
        ∃ n ∈ ns, b.graph.node n = .ok (.attribute a) := by
    simp only [h.required, required_iff h.targets]
    constructor
    · rintro ⟨o, ho, s, slot, n, hs, hslot, hpath, hn⟩
      exact ⟨n, ⟨o, ho, s, slot, hs, hslot, hpath⟩, hn⟩
    · rintro ⟨n, ⟨o, ho, s, slot, hs, hslot, hpath⟩, hn⟩
      exact ⟨o, ho, s, slot, n, hs, hslot, hpath, hn⟩
  rw [hneeded, mem_attributesRead_iff_get]
  constructor
  · rintro ⟨x, hx⟩
    have hlt := (Array.getElem?_eq_some_iff.1 (Module.get_eq_ok_iff.1 hx)).1
    obtain ⟨n, hn, node, xs, -, -, expr, hmem, hnode, -, -, hget⟩ :=
      h.wired.exists_made h.laid h.once (Nat.zero_le _) hlt
    rw [hx] at hget
    cases hget
    refine ⟨n, hn, ?_⟩
    rwa [Node.eq_attribute_of_mem_makes hmem] at hnode
  · rintro ⟨n, hn, hnode⟩
    obtain ⟨node, xs, hnode', hreads, hmade⟩ := h.wired.made n hn
    rw [hnode] at hnode'
    cases hnode'
    have hxs : xs = [] := by
      rw [← List.length_eq_zero_iff, ← hreads.length_eq]
      exact h.laid.length_inputs hnode rfl
    subst hxs
    obtain ⟨o, -, x, -, hget⟩ := forall₂_mem_right hmade (List.mem_singleton.2 rfl)
    exact ⟨x, hget⟩

end

/-- Every modifier of the library touches the position and the stored offset. -/
theorem touched_applyModifier [Stack] {c : Compiler} (hc : c.modifiers = Modifier.types) {d : ModifierDef}
    {p q : Module × Writer} {touched : List Attribute} (h : c.applyModifier d p = .ok touched q) :
    touched = [.position, .vector0] := by
  obtain ⟨m, w⟩ := p
  obtain ⟨modifier, p₁, hbuilt, h⟩ := EStateM.bind_eq_ok.1 h
  rw [hc] at hbuilt
  obtain ⟨m₁, hcreate, rfl⟩ := Modifier.building_eq_ok.1 hbuilt
  obtain ⟨t, hmakes⟩ := Modifier.create_makes hcreate
  obtain ⟨e, m₂, -, -, -, hcreate', -⟩ := hmakes m (List.Subset.refl _)
  rw [hcreate] at hcreate'
  cases hcreate'
  split at h
  · cases h
  · obtain ⟨_, p₂, -, h⟩ := EStateM.bind_eq_ok.1 h
    cases h
    rfl

theorem touched_applyModifiers [Stack] {c : Compiler} (hc : c.modifiers = Modifier.types) {ds : List ModifierDef}
    {p q : Module × Writer} {touched : List Attribute} (h : c.applyModifiers ds p = .ok touched q) {a : Attribute} :
    a ∈ touched ↔ ds ≠ [] ∧ (a = .position ∨ a = .vector0) := by
  obtain ⟨lists, p₁, hloop, hreturn⟩ := EStateM.bind_eq_ok.1 h
  cases hreturn
  clear h
  induction ds generalizing p lists with
  | nil =>
    cases hloop
    simp
  | cons d ds ih =>
    obtain ⟨list, lists', p₂, hd, hds, rfl⟩ := EStateM.mapM_cons_eq_ok.1 hloop
    rw [List.flatten_cons, List.mem_append, ih lists' hds, touched_applyModifier hc hd]
    simp only [List.mem_cons, List.not_mem_nil, or_false, ne_eq, reduceCtorEq, not_false_eq_true, true_and]
    exact or_iff_left_of_imp And.right

/-- Modifiers add to the attributes that the evaluated nodes read no others than
those they touch. -/
theorem Compiles.mem_attributes_iff [Stack] {c : Compiler} (hr : c.registry = Registry.builtin)
    (hm : c.modifiers = Modifier.types) {d : Definition} {s : Stages} {effect : Effect} (h : Compiles c d s effect) :
    s.evaluated.Grows effect.module ∧ ∀ a, a ∈ effect.attributes ↔
      a ∈ attributesRead s.evaluated ∨ d.modifiers ≠ [] ∧ (a = .position ∨ a = .vector0) := by
  have hmodified := run_eq_ok.1 h.modified
  obtain ⟨lines, touched, -, happly⟩ := applyModifiers_makes hm (makes_of_applyModifiers hm hmodified)
  obtain ⟨es, m, w, hrun, happends, hes, -⟩ := happly _ _ (List.Subset.refl _) (h.ready hr)
  rw [hmodified, EStateM.Result.ok.injEq, Prod.mk.injEq] at hrun
  obtain ⟨rfl, rfl, -⟩ := hrun
  have hattributes : effect.attributes = attributes effect.module s.touched := congrArg Effect.attributes h.effect
  refine ⟨happends.grows, fun a => ?_⟩
  rw [hattributes, mem_attributes_appends happends hes, touched_applyModifiers hm hmodified]

/-- The attributes of an effect are those that its outputs read, each once, with
those that modifiers touch if there is one; an output reads the attributes of the
nodes that it depends on. No expression reads any other. -/
theorem compile_attributes [Stack] (hoist : Bool) (d : Definition) (effect : Effect)
    (h : Compiler.compile { hoist := hoist } d = .ok effect) :
    effect.attributes.Nodup ∧
    (∀ a, a ∈ effect.attributes ↔
      (∃ o ∈ effect.outputs, ∃ x, effect.module.Reaches o.2 x ∧ effect.module.get x = .ok (.attribute a)) ∨
        d.modifiers ≠ [] ∧ (a = .position ∨ a = .vector0)) ∧
    (∀ b, Builder.build { nodes := d.nodes, links := d.links } = .ok () b → ∀ a, a ∈ effect.attributes ↔
      (∃ o ∈ d.outputs, ∃ s slot n, b.resolve o.2 = .ok s ∧ b.graph.slot s = .ok slot ∧
        Relation.ReflTransGen b.graph.DependsOn slot.node n ∧ b.graph.node n = .ok (.attribute a)) ∨
        d.modifiers ≠ [] ∧ (a = .position ∨ a = .vector0)) ∧
    ∀ x a, effect.module.get x = .ok (.attribute a) → a ∈ effect.attributes := by
  obtain ⟨s, hs⟩ := compile_eq_ok.1 h
  obtain ⟨ns, ev⟩ := hs.exists_evaluated rfl
  have hattributes : effect.attributes = attributes effect.module s.touched := congrArg Effect.attributes hs.effect
  obtain ⟨hgrows, hmem⟩ := hs.mem_attributes_iff rfl rfl
  have hlisted : ∀ x a, effect.module.get x = .ok (.attribute a) → a ∈ effect.attributes := by
    intro x a hx
    rw [hattributes, attributes, List.mem_eraseDups, List.mem_append]
    exact .inl (mem_attributesRead_iff_get.2 ⟨x, hx⟩)
  refine ⟨?_, fun a => ?_, fun b hb a => ?_, hlisted⟩
  · rw [hattributes]
    exact nodup_eraseDups _
  · constructor
    · intro ha
      rcases (hmem a).1 ha with ha | ha
      · obtain ⟨x, hx⟩ := mem_attributesRead_iff_get.1 ha
        obtain ⟨o, ho, hreach⟩ := ev.reached hs.outputs hx (by simp)
        exact .inl ⟨o, ho, x, hreach.grow hgrows, hgrows.get hx⟩
      · exact .inr ha
    · rintro (⟨o, -, x, -, hx⟩ | ha)
      · exact hlisted x a hx
      · exact (hmem a).2 (.inr ha)
  · have hbuilt := (construct_builtin_eq_ok rfl).1 hs.built
    rw [hb] at hbuilt
    cases hbuilt
    rw [hmem, ev.mem_attributesRead_iff]

/-- An effect with a heading, and a node of another attribute on which nothing
depends. -/
def headingOnly : Definition where
  name := "heading"
  nodes := [{ id := "a", type := "Attribute", params := [(.str "attribute", .str "age")] },
    { id := "v", type := "Attribute", params := [(.str "attribute", .str "velocity")] },
    { id := "n", type := "Normalize" }]
  links := [⟨"v.velocity", "n.in"⟩]
  outputs := [("dir", "n.out")]

open scoped EffectGraph.Stack.Usual in
theorem compile_attributes_headingOnly : ∃ effect, Compiler.compile {} headingOnly = .ok effect ∧
    effect.attributes = [.velocity] ∧
    ∀ a, a ∈ effect.attributes ↔
      (∃ o ∈ effect.outputs, ∃ x, effect.module.Reaches o.2 x ∧ effect.module.get x = .ok (.attribute a)) ∨
        headingOnly.modifiers ≠ [] ∧ (a = .position ∨ a = .vector0) := by
  have hattributes : (Compiler.compile {} headingOnly).toOption.map (·.attributes) = some [.velocity] := by
    cbv
  simp only [Option.map_eq_some_iff, Except.toOption_eq_some] at hattributes
  obtain ⟨effect, heffect, hattributes⟩ := hattributes
  exact ⟨effect, heffect, hattributes, (compile_attributes true headingOnly effect heffect).2.1⟩

end Compiler
end EffectGraph
