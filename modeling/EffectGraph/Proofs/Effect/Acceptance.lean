import EffectGraph.Proofs.Effect.Statements
import EffectGraph.Proofs.Effect.Modifiers
import EffectGraph.Proofs.Sharing
import Mathlib

/-!
# Which definitions compile

`Accepts d b` lists what a definition must satisfy: it builds, its outputs refer
to output slots, no node depends on itself, the nodes that the outputs depend on
have all their inputs linked, and its modifiers can be made. Nothing else can go
wrong: once the outputs have their expressions, all of these can be rendered, so
writing the code never fails (`exists_writeOutputs`).
-/

namespace EffectGraph

/-! ## Properties -/

/-- A module with properties and no expression. -/
def Module.ofProperties (ps : List (Text × Literal)) : Module where
  properties := (ps.map fun p => ⟨p.1, p.2⟩).toArray
  closed := closed_nil

theorem Module.isSome_findProperty? {ps : List (Text × Literal)} {name : Text} :
    ((ofProperties ps).findProperty? name).isSome ↔ name ∈ ps.map Prod.fst := by
  simp [findProperty?, ofProperties, List.findIdx?_isSome]

theorem Module.declareProperty_ofProperties {ps : List (Text × Literal)} {name : Text} {v : Literal}
    {p : PropertyHandle} {m : Module} :
    declareProperty name v (ofProperties ps) = .ok p m ↔
      name ∉ ps.map Prod.fst ∧ p = ⟨ps.length⟩ ∧ m = ofProperties (ps ++ [(name, v)]) := by
  unfold declareProperty
  by_cases hname : name ∈ ps.map Prod.fst
  · rw [if_pos (isSome_findProperty?.2 hname)]
    simp [hname]
  · rw [if_neg (mt isSome_findProperty?.1 hname)]
    simp [hname, ofProperties, eq_comm]

namespace Compiler

theorem forM_declareProperty {done ps : List (Text × Literal)} (hdone : (done.map Prod.fst).Nodup) {m : Module} :
    (ps.forM fun (name, v) => do let _ ← Module.declareProperty name v) (Module.ofProperties done) = .ok () m ↔
      ((done ++ ps).map Prod.fst).Nodup ∧ m = .ofProperties (done ++ ps) := by
  induction ps generalizing done with
  | nil =>
    rw [List.append_nil, and_iff_right hdone]
    exact ⟨fun h => by cases h; rfl, fun h => by rw [h]; rfl⟩
  | cons p ps ih =>
    obtain ⟨name, v⟩ := p
    have happend : done ++ (name, v) :: ps = (done ++ [(name, v)]) ++ ps := by simp
    rw [happend]
    constructor
    · intro h
      obtain ⟨_, m₁, hp, h⟩ := EStateM.bind_eq_ok.1 h
      obtain ⟨q, m₂, hq, hp⟩ := EStateM.bind_eq_ok.1 hp
      cases hp
      obtain ⟨hnew, -, rfl⟩ := Module.declareProperty_ofProperties.1 hq
      refine (ih ?_).1 h
      rw [List.map_append, List.nodup_append_comm]
      exact List.nodup_cons.2 ⟨hnew, hdone⟩
    · rintro ⟨hn, rfl⟩
      have hdone' : ((done ++ [(name, v)]).map Prod.fst).Nodup := by
        rw [List.map_append] at hn
        exact (List.nodup_append.1 hn).1
      have hnew : name ∉ done.map Prod.fst := by
        rw [List.map_append, List.nodup_append_comm] at hdone'
        exact (List.nodup_cons.1 hdone').1
      exact EStateM.bind_eq_ok.2 ⟨(), _, EStateM.bind_eq_ok.2 ⟨_, _, Module.declareProperty_ofProperties.2
        ⟨hnew, rfl, rfl⟩, rfl⟩, (ih hdone').2 ⟨hn, rfl⟩⟩

/-- Properties can be declared when their names differ. -/
theorem declare_eq_ok {d : Definition} {m : Module} :
    declare d = .ok m ↔ (d.properties.map Prod.fst).Nodup ∧ m = .ofProperties d.properties := by
  have hloop := @forM_declareProperty [] d.properties List.nodup_nil m
  rw [List.nil_append] at hloop
  rw [← hloop, ← run_eq_ok]
  unfold declare
  rw [Except.bind_eq_ok]
  constructor
  · rintro ⟨⟨⟨⟩, m'⟩, h, he⟩
    cases he
    exact h
  · intro h
    exact ⟨_, h, rfl⟩

/-! ## Outputs -/

/-- The outputs of a definition lead to slots `ts`, all of them outputs. -/
theorem targets_eq_ok {b : Builder} {d : Definition} {ts : List (Text × SlotId)} :
    targets b d = .ok ts ↔ List.Forall₂ (fun o t => t.1 = o.1 ∧ b.resolve o.2 = .ok t.2 ∧
      b.graph.dirOf? t.2 = some .output) d.outputs ts := by
  unfold targets
  rw [Except.mapM_eq_ok]
  have htarget : ∀ (o : Text × Text) (t : Text × SlotId), target b o.1 o.2 = .ok t ↔
      t.1 = o.1 ∧ b.resolve o.2 = .ok t.2 ∧ b.graph.dirOf? t.2 = some .output := by
    rintro ⟨name, ref⟩ ⟨name', s⟩
    unfold target
    rw [Except.bind_eq_ok]
    constructor
    · rintro ⟨s', hs, h⟩
      obtain ⟨slot, hslot, h⟩ := Except.bind_eq_ok.1 h
      split at h
      · next hout =>
        cases h
        exact ⟨rfl, hs, Graph.dirOf?_eq_some_iff.2 ⟨slot, Graph.slot_eq_ok_iff.1 hslot, eq_of_beq hout⟩⟩
      · cases h
    · rintro ⟨rfl, hs, hdir⟩
      obtain ⟨slot, hslot, hout⟩ := Graph.dirOf?_eq_some_iff.1 hdir
      refine ⟨s, hs, Except.bind_eq_ok.2 ⟨slot, Graph.slot_of_getElem? hslot, ?_⟩⟩
      rw [if_pos (by simp [Slot.isOutput, hout])]
      rfl
  exact ⟨fun h => h.imp fun o t => (htarget o t).1, fun h => h.imp fun o t => (htarget o t).2⟩

/-- Outputs lead to slots of the graph. -/
theorem targets_valid {b : Builder} {d : Definition} {ts : List (Text × SlotId)} (hts : targets b d = .ok ts) :
    ∀ s ∈ ts.map Prod.snd, ∃ slot, b.graph.slot s = .ok slot := by
  intro s hs
  obtain ⟨t, ht, rfl⟩ := List.mem_map.1 hs
  obtain ⟨o, -, -, -, hdir⟩ := forall₂_mem_right (targets_eq_ok.1 hts) ht
  obtain ⟨slot, hslot, -⟩ := Graph.dirOf?_eq_some_iff.1 hdir
  exact ⟨slot, Graph.slot_of_getElem? hslot⟩

/-- The outputs get the expressions of their slots. -/
theorem outputHandles_eq_ok {e : Evaluator} {ts : List (Text × SlotId)} {outputs : List (Text × ExprHandle)} :
    outputHandles e ts = .ok outputs ↔
      List.Forall₂ (fun t o => o.1 = t.1 ∧ e.values.lookup t.2 = some o.2) ts outputs := by
  unfold outputHandles
  rw [Except.mapM_eq_ok]
  constructor
  · refine List.Forall₂.imp ?_
    rintro ⟨name, s⟩ ⟨name', x⟩ h
    cases hs : e.values.lookup s with
    | none => simp [hs] at h
    | some y =>
      simp only [hs, Except.ok.injEq, Prod.mk.injEq] at h
      exact ⟨h.1.symm, congrArg some h.2⟩
  · refine List.Forall₂.imp ?_
    rintro ⟨name, s⟩ ⟨name', x⟩ ⟨rfl, hs⟩
    simp only [hs]

end Compiler

/-! ## Expressions that can be rendered -/

theorem Node.render_makes {node : Node} {xs : List ExprHandle} {e : Expr} (he : e ∈ node.makes xs) (m : Module)
    (ts : List Text) : ∃ t, e.render m ts = .ok t := by
  unfold makes at he
  split at he
  · simp only [List.mem_singleton] at he
    subst he
    exact ⟨_, rfl⟩
  · simp only [List.mem_singleton] at he
    subst he
    exact ⟨_, rfl⟩
  · obtain ⟨b, -, rfl⟩ := List.mem_map.1 he
    exact ⟨_, rfl⟩
  · simp only [List.mem_singleton] at he
    subst he
    exact ⟨_, rfl⟩
  · cases he

/-- All that nodes of the library make can be rendered. -/
theorem Evaluator.Wired.renderable {g : Graph} {m₀ m : Module} {ns : List NodeId}
    {values : List (SlotId × ExprHandle)} (h : Wired g m₀ ns values m) (hg : g.Laid) (hns : ns.Nodup)
    (hempty : m₀.size = 0) {x : ExprHandle} (hx : x.index < m.size) : Renderable m x := by
  -- Operands stand before their users.
  generalize hk : x.index = k
  induction k using Nat.strongRecOn generalizing x with
  | ind k ih =>
    subst hk
    obtain ⟨n, -, node, xs, o, -, e, he, -, -, -, hget⟩ := h.exists_made hg hns (by omega) hx
    refine .intro hget (fun c hc => ?_) (Node.render_makes he m)
    have hlt := Module.index_lt_of_get hget hc
    exact ih c.index hlt (Nat.lt_trans hlt hx) rfl

theorem Renderable.reaches {m : Module} {x y : ExprHandle} (h : Renderable m x) (hr : m.Reaches x y) :
    Renderable m y := by
  induction hr with
  | refl => exact h
  | tail _ hc ih =>
    obtain ⟨he, hchildren, -⟩ := ih
    rw [Module.operands_eq he] at hc
    exact hchildren _ hc

theorem Renderable.index_lt {m : Module} {x : ExprHandle} (h : Renderable m x) : x.index < m.size := by
  obtain ⟨he, -, -⟩ := h
  exact (Array.getElem?_eq_some_iff.1 (Module.get_eq_ok_iff.1 he)).1

/-- What can be rendered can be put into a local with a name that is reserved or a
fresh one. -/
theorem Writer.exists_evalToLocal {m : Module} {w : Writer} (hs : Serves m w) {h : ExprHandle}
    (hr : Renderable m h) (name : Option Text) (hname : ∀ n, name = some n → n ∈ w.reserved) :
    ∃ n w', evalToLocal m h name w = .ok n w' ∧ Serves m w' := by
  rcases evalToLocal_cases m h name w with ⟨n, -, hw⟩ | ⟨-, ⟨n, s, w₁, -, -, hc, hw⟩ | ⟨e, s, a, -, hbad, -⟩⟩
  · exact ⟨n, w, hw, hs⟩
  · refine ⟨n, _, hw, ?_⟩
    rcases claim_cases name { w with arena := some m.key, rendering := s } with ⟨n', k, r, hc'⟩ | ⟨_, _, _, _, hc'⟩
    · rw [hc'] at hc
      cases hc
      exact fun key hkey => (Option.some.inj hkey).symm
    · rw [hc'] at hc
      cases hc
  · rcases hbad with hbad | hbad | ⟨n, hn, -, hbad⟩
    · exact absurd hs hbad
    · exact absurd hr hbad
    · exact absurd (hname n hn) hbad

namespace Compiler

open Writer

/-! ## Writing the outputs -/

/-- What can be rendered can be hoisted. -/
theorem exists_hoistShared {m : Module} {roots : List ExprHandle} (hr : ∀ r ∈ roots, Renderable m r) {w : Writer}
    (hs : Serves m w) : ∃ w', hoistShared m roots w = .ok () w' ∧ Serves m w' := by
  obtain ⟨all, hspan, hshared⟩ := Module.shared_eq fun r hmem => (hr r hmem).index_lt
  unfold hoistShared
  rw [hshared]
  generalize hkept : (all.filter fun h => 1 < m.uses roots all h && m.isComposite h) = kept
  have hrenderable : ∀ h ∈ kept, Renderable m h := by
    intro h hmem
    rw [← hkept] at hmem
    obtain ⟨r, hroot, hreach⟩ := (hspan.mem h).1 (List.mem_filter.1 hmem).1
    exact (hr r hroot).reaches hreach
  have hloop : ∃ w', (kept.forM fun h => do let _ ← evalToLocal m h none) w = .ok () w' ∧
      Serves m w' ∧ ∀ h ∈ [], Renderable m h := by
    refine exists_forM_ok (P := fun rest w => Serves m w ∧ ∀ h ∈ rest, Renderable m h) ?_ ⟨hs, hrenderable⟩
    rintro h rest w₁ ⟨hserves, hrest⟩
    obtain ⟨n, w₂, hw₂, hserves₂⟩ := exists_evalToLocal hserves (hrest h List.mem_cons_self) none (by simp)
    exact ⟨w₂, EStateM.bind_eq_ok.2 ⟨n, w₂, hw₂, rfl⟩, hserves₂, fun x hx => hrest x (List.mem_cons_of_mem _ hx)⟩
  obtain ⟨w', hw', hserves, -⟩ := hloop
  exact ⟨w', hw', hserves⟩

/-- An output whose name is reserved gets its line. -/
theorem exists_bindOutput {m : Module} {w : Writer} (hs : Serves m w) {name : Text} (hname : name ∈ w.reserved)
    {h : ExprHandle} (hr : Renderable m h) : ∃ w', bindOutput m name h w = .ok () w' ∧ Serves m w' := by
  obtain ⟨n, w₁, hw₁, hserves⟩ := exists_evalToLocal hs hr (some name) (by simpa using hname)
  by_cases hn : n = name
  · refine ⟨w₁, EStateM.bind_eq_ok.2 ⟨n, w₁, hw₁, ?_⟩, hserves⟩
    rw [if_neg (not_not.2 hn)]
    rfl
  · refine ⟨{ w₁ with statements := w₁.statements.push (.binding name n) },
      EStateM.bind_eq_ok.2 ⟨n, w₁, hw₁, ?_⟩, hserves⟩
    rw [if_pos hn]
    rfl

/-- Outputs whose names are reserved get their lines. -/
theorem exists_bindOutputs {m : Module} {outputs : List (Text × ExprHandle)} (hn : (outputs.map Prod.fst).Nodup)
    (hr : ∀ o ∈ outputs, Renderable m o.2) {V : Bindings} {w : Writer} (d : Declaring m V w) (hs : Serves m w)
    (hreserved : ∀ o ∈ outputs, o.1 ∈ w.reserved) :
    ∃ w', (outputs.forM fun o => bindOutput m o.1 o.2) w = .ok () w' ∧ Ready m w' := by
  let P (rest : List (Text × ExprHandle)) (w : Writer) : Prop :=
    (∃ V, Declaring m V w) ∧ Serves m w ∧ (rest.map Prod.fst).Nodup ∧ ∀ o ∈ rest, o.1 ∈ w.reserved ∧ Renderable m o.2
  have hloop : ∃ w', (outputs.forM fun o => bindOutput m o.1 o.2) w = .ok () w' ∧ P [] w' := by
    refine exists_forM_ok ?_ ⟨⟨V, d⟩, hs, hn, fun o ho => ⟨hreserved o ho, hr o ho⟩⟩
    rintro o rest w₁ ⟨⟨V₁, d₁⟩, hs₁, hn₁, hrest⟩
    obtain ⟨ho, hn₁⟩ := List.nodup_cons.1 hn₁
    obtain ⟨hname, hrender⟩ := hrest o List.mem_cons_self
    obtain ⟨w₂, hw₂, hs₂⟩ := exists_bindOutput hs₁ hname hrender
    have hkeep := (named_bindOutput d₁.named hname hw₂).2
    refine ⟨w₂, hw₂, ⟨_, d₁.output hname hw₂⟩, hs₂, hn₁, fun o' ho' => ?_⟩
    obtain ⟨hname', hrender'⟩ := hrest o' (List.mem_cons_of_mem _ ho')
    exact ⟨hkeep _ hname' fun he => ho (he ▸ List.mem_map_of_mem ho'), hrender'⟩
  obtain ⟨w', hw', ⟨V', d'⟩, hs', -⟩ := hloop
  exact ⟨w', hw', d'.faithful, hs'⟩

/-- Outputs with different names, whose expressions can be rendered, can be
written. -/
theorem exists_writeOutputs [Stack] (c : Compiler) {m : Module} {outputs : List (Text × ExprHandle)}
    (hn : (outputs.map Prod.fst).Nodup) (hr : ∀ o ∈ outputs, Renderable m o.2) :
    ∃ w, c.writeOutputs m outputs {} = .ok () w ∧ Ready m w := by
  have d₁ := declaring_reserving m (List.nodup_reverse.2 hn)
  have hserves₁ : Serves m (reserving (outputs.map Prod.fst).reverse) := by simp [Serves, reserving]
  simp only [writeOutputs_eq_ok, and_iff_right hn]
  have hhoisted : ∃ V w₁, Declaring m V w₁ ∧ Serves m w₁ ∧
      (if c.hoist then hoistShared m (outputs.map Prod.snd) else pure ())
        (reserving (outputs.map Prod.fst).reverse) = .ok () w₁ := by
    split
    · have hroots : ∀ r ∈ outputs.map Prod.snd, Renderable m r := by simpa using fun r n ho => hr (n, r) ho
      obtain ⟨w₂, hw₂, hserves₂⟩ := exists_hoistShared hroots hserves₁
      obtain ⟨V, d₂⟩ := hoistShared_declares d₁ hw₂
      exact ⟨V, w₂, d₂, hserves₂, hw₂⟩
    · exact ⟨[], _, d₁, hserves₁, rfl⟩
  obtain ⟨V, w₂, d₂, hserves₂, hw₂⟩ := hhoisted
  obtain ⟨w₃, hw₃, r⟩ := exists_bindOutputs hn hr d₂ hserves₂ (hoisted_named hn hw₂).2
  exact ⟨w₃, ⟨w₂, hw₂, hw₃⟩, r⟩

end Compiler

/-! ## Compiling -/

namespace Compiler

/-- What a definition must satisfy to compile, where `b` is the builder with its
graph: properties and outputs have names of their own, as the keys of a mapping
do; the graph builds; outputs refer to output slots; the graph is acyclic; every
node that an output depends on has all its inputs linked; and every modifier can
be made where the properties are declared. -/
structure Accepts [Stack] (d : Definition) (b : Builder) : Prop where
  properties : (d.properties.map Prod.fst).Nodup
  outputs : (d.outputs.map Prod.fst).Nodup
  built : Builder.build { nodes := d.nodes, links := d.links } = .ok () b
  targets : ∀ o ∈ d.outputs, ∃ s, b.resolve o.2 = .ok s ∧ b.graph.dirOf? s = some .output
  acyclic : b.graph.Acyclic
  linked : ∀ o ∈ d.outputs, ∀ s slot n, b.resolve o.2 = .ok s → b.graph.slot s = .ok slot →
    Relation.ReflTransGen b.graph.DependsOn slot.node n → b.graph.Linked n
  modifiers : ∀ modifier ∈ d.modifiers, ∃ made m,
    Modifier.create Modifier.types modifier (.ofProperties d.properties) = .ok made m

section

variable {d : Definition} {b : Builder} {ts : List (Text × SlotId)}

theorem required_iff (hts : targets b d = .ok ts) {n : NodeId} :
    Evaluator.Required b.graph (ts.map Prod.snd) n ↔ ∃ o ∈ d.outputs, ∃ s slot, b.resolve o.2 = .ok s ∧
      b.graph.slot s = .ok slot ∧ Relation.ReflTransGen b.graph.DependsOn slot.node n := by
  have h := targets_eq_ok.1 hts
  constructor
  · rintro ⟨s, hs, slot, hslot, hreach⟩
    obtain ⟨t, ht, rfl⟩ := List.mem_map.1 hs
    obtain ⟨o, ho, -, hresolve, -⟩ := forall₂_mem_right h ht
    exact ⟨o, ho, t.2, slot, hresolve, hslot, hreach⟩
  · rintro ⟨o, ho, s, slot, hresolve, hslot, hreach⟩
    obtain ⟨t, ht, -, hresolve', -⟩ := forall₂_mem_left h ho
    rw [hresolve] at hresolve'
    cases hresolve'
    exact ⟨_, List.mem_map_of_mem ht, slot, hslot, hreach⟩

theorem construct_builtin_eq_ok [Stack] {c : Compiler} (hc : c.registry = Registry.builtin) :
    c.construct d = .ok b ↔ Builder.build { nodes := d.nodes, links := d.links } = .ok () b := by
  rw [construct_eq_ok, hc]
  exact Builder.build_eq_ok.symm

end

/-- The graph of a definition, evaluated for its outputs: the nodes `ns` that these
depend on have made the expressions of a module. -/
structure Evaluated (d : Definition) (b : Builder) (ts : List (Text × SlotId)) (ns : List NodeId)
    (values : List (SlotId × ExprHandle)) (m : Module) : Prop where
  laid : b.graph.Laid
  targets : Compiler.targets b d = .ok ts
  acyclic : b.graph.Acyclic
  once : ns.Nodup
  required : ∀ n, n ∈ ns ↔ Evaluator.Required b.graph (ts.map Prod.snd) n
  wired : Evaluator.Wired b.graph (.ofProperties d.properties) ns values m

section

variable {d : Definition} {b : Builder} {ts : List (Text × SlotId)} {ns : List NodeId} {e : Evaluator} {m : Module}

theorem exists_evaluated [Stack] {nodes : List Node} {pairs : List (SlotId × SlotId)} {k : Nat}
    (hbuilt : Builder.Built Registry.builtin d.nodes d.links nodes pairs b) (hts : targets b d = .ok ts)
    (heval : evaluate b.graph ts (.ofProperties d.properties) = .ok (k, e, m)) :
    ∃ ns, Evaluated d b ts ns e.values m := by
  obtain ⟨hacyclic, ns, honce, hns, hwired⟩ :=
    Evaluator.evaluate_wired hbuilt.agrees hbuilt.laid hbuilt.isBuiltin (run_eq_ok.1 heval)
  exact ⟨ns, hbuilt.laid, hts, hacyclic, honce, hns, hwired⟩

theorem Compiles.exists_evaluated [Stack] {c : Compiler} (hr : c.registry = Registry.builtin) {s : Stages}
    {effect : Effect}
    (h : Compiles c d s effect) : ∃ ns, Evaluated d s.builder s.targets ns s.evaluator.values s.evaluated := by
  obtain ⟨nodes, pairs, hbuilt⟩ := construct_eq_ok.1 h.built
  rw [hr] at hbuilt
  obtain ⟨k, heval⟩ := h.evaluated
  obtain ⟨-, hdeclared⟩ := declare_eq_ok.1 h.declared
  rw [hdeclared] at heval
  exact Compiler.exists_evaluated hbuilt h.targets heval

/-- Every output slot that is asked for gets an expression. -/
theorem Evaluated.exists_outputHandles (h : Evaluated d b ts ns e.values m) :
    ∃ outputs, outputHandles e ts = .ok outputs := by
  simp only [outputHandles_eq_ok]
  refine exists_forall₂_iff.2 fun t ht => ?_
  obtain ⟨o, ho, -, hresolve, hdir⟩ := forall₂_mem_right (targets_eq_ok.1 h.targets) ht
  obtain ⟨slot, hslot, hout⟩ := Graph.dirOf?_eq_some_iff.1 hdir
  have hn : slot.node ∈ ns :=
    (h.required _).2 ⟨t.2, List.mem_map_of_mem ht, slot, Graph.slot_of_getElem? hslot, .refl⟩
  obtain ⟨x, hx⟩ := h.wired.exists_value hn
    (h.laid.mem_slotsWhere_iff.2 ⟨slot, hslot, rfl, by simp [Slot.isOutput, hout]⟩)
  exact ⟨(t.1, x), rfl, hx⟩

/-- The expressions of the outputs can be rendered. -/
theorem Evaluated.renderable (h : Evaluated d b ts ns e.values m) {outputs : List (Text × ExprHandle)}
    (houtputs : outputHandles e ts = .ok outputs) : ∀ o ∈ outputs, Renderable m o.2 := by
  intro o ho
  obtain ⟨t, -, -, ht⟩ := forall₂_mem_right (outputHandles_eq_ok.1 houtputs) ho
  exact h.wired.renderable h.laid h.once rfl (h.wired.mem_handles ht).2

end

/-- A definition that compiles is as it must be. -/
theorem Compiles.accepts [Stack] {c : Compiler} (hr : c.registry = Registry.builtin) (hm : c.modifiers = Modifier.types)
    {d : Definition} {s : Stages} {effect : Effect} (h : Compiles c d s effect) : Accepts d s.builder := by
  obtain ⟨hproperties, -⟩ := declare_eq_ok.1 h.declared
  obtain ⟨ns, ev⟩ := h.exists_evaluated hr
  obtain ⟨-, -, hnames⟩ := writeOutputs_declares (run_eq_ok.1 h.written)
  rw [h.names] at hnames
  refine ⟨hproperties, hnames, (construct_builtin_eq_ok hr).1 h.built, ?_, ev.acyclic, ?_, ?_⟩
  · intro o ho
    obtain ⟨t, -, -, ht⟩ := forall₂_mem_left (targets_eq_ok.1 h.targets) ho
    exact ⟨t.2, ht⟩
  · intro o ho slotId slot n hresolve hslot hreach
    have hn := (ev.required n).2 ((required_iff h.targets).2 ⟨o, ho, slotId, slot, hresolve, hslot, hreach⟩)
    obtain ⟨node, xs, -, hreads, -⟩ := ev.wired.made n hn
    exact hreads.linked
  · intro modifier hmodifier
    obtain ⟨t, hmakes⟩ := makes_of_applyModifiers hm (run_eq_ok.1 h.modified) modifier hmodifier
    rw [Module.propertyNames, ev.wired.properties] at hmakes
    obtain ⟨e, m', -, -, -, hm', -⟩ := hmakes (.ofProperties d.properties) (List.Subset.refl _)
    exact ⟨_, m', hm'⟩

/-- A definition that is as it must be compiles. -/
theorem Accepts.exists_compile [Stack] {d : Definition} {b : Builder} (h : Accepts d b) {c : Compiler}
    (hr : c.registry = Registry.builtin) (hm : c.modifiers = Modifier.types) : ∃ effect, c.compile d = .ok effect := by
  have hconstruct := (construct_builtin_eq_ok hr).2 h.built
  obtain ⟨nodes, pairs, hbuilt⟩ := construct_eq_ok.1 hconstruct
  rw [hr] at hbuilt
  obtain ⟨ts, hts⟩ : ∃ ts, Compiler.targets b d = .ok ts := by
    simp only [targets_eq_ok]
    refine exists_forall₂_iff.2 fun o ho => ?_
    obtain ⟨s, hs⟩ := h.targets o ho
    exact ⟨(o.1, s), rfl, hs⟩
  have hlinked : ∀ n, Evaluator.Required b.graph (ts.map Prod.snd) n → b.graph.Linked n := by
    intro n hn
    obtain ⟨o, ho, s, slot, hresolve, hslot, hreach⟩ := (required_iff hts).1 hn
    exact h.linked o ho s slot n hresolve hslot hreach
  obtain ⟨k, ⟨e, m⟩, heval⟩ := Evaluator.exists_evaluate (e := {}) (m := .ofProperties d.properties) hbuilt.agrees
    hbuilt.laid hbuilt.isBuiltin h.acyclic (targets_valid hts) hlinked
  obtain ⟨ns, ev⟩ := exists_evaluated hbuilt hts (run_eq_ok.2 heval)
  obtain ⟨outputs, houtputs⟩ := ev.exists_outputHandles
  have hnames : (outputs.map Prod.fst).Nodup := by
    rw [map_fst_outputHandles houtputs, map_fst_targets hts]
    exact h.outputs
  obtain ⟨w, hw, r⟩ := exists_writeOutputs c hnames (ev.renderable houtputs)
  have hmakes : ∀ modifier ∈ d.modifiers, ∃ t,
      Modifier.Makes m.propertyNames (Modifier.create Modifier.types modifier) t := by
    intro modifier hmodifier
    obtain ⟨made, m', hmade⟩ := h.modifiers modifier hmodifier
    rw [Module.propertyNames, ev.wired.properties]
    exact Modifier.create_makes hmade
  obtain ⟨lines, touched, -, happly⟩ := applyModifiers_makes hm hmakes
  obtain ⟨es, m', w', hmodified, -⟩ := happly m w (List.Subset.refl _) r
  let effect : Effect :=
    { name := d.name
      module := m'
      graph := b.graph
      outputs := outputs
      attributes := attributes m' touched
      code := w'.code
      rendered := w'.rendering.count }
  refine ⟨effect, compile_eq_ok.2 ⟨⟨.ofProperties d.properties, b, ts, e, m, w, touched, w'⟩, ?_, hconstruct, hts,
    ⟨k, run_eq_ok.2 heval⟩, houtputs, run_eq_ok.2 hw, run_eq_ok.2 hmodified, rfl⟩⟩
  exact declare_eq_ok.2 ⟨h.properties, rfl⟩

/-- A definition compiles, with the node types and modifiers of the library and
whether shared expressions are hoisted or not, exactly when it is as it must be.
Nothing after the evaluation can fail but a modifier: outputs with names of their
own can always be written, so reserving names, hoisting and rendering succeed. -/
theorem compile_succeeds_iff [Stack] (hoist : Bool) (d : Definition) :
    ((∃ effect, Compiler.compile { hoist := hoist } d = .ok effect) ↔ ∃ b, Accepts d b) ∧
      ∀ m₀ b ts k e m outputs, declare d = .ok m₀ → Compiler.construct { hoist := hoist } d = .ok b →
        targets b d = .ok ts → evaluate b.graph ts m₀ = .ok (k, e, m) → outputHandles e ts = .ok outputs →
        (d.outputs.map Prod.fst).Nodup → ∃ w, Compiler.writeOutputs { hoist := hoist } m outputs {} = .ok () w := by
  refine ⟨⟨?_, ?_⟩, ?_⟩
  · rintro ⟨effect, h⟩
    obtain ⟨s, hs⟩ := compile_eq_ok.1 h
    exact ⟨s.builder, hs.accepts rfl rfl⟩
  · rintro ⟨b, h⟩
    exact h.exists_compile rfl rfl
  · intro m₀ b ts k e m outputs hdeclared hconstruct hts heval houtputs hnames
    obtain ⟨nodes, pairs, hbuilt⟩ := construct_eq_ok.1 hconstruct
    obtain ⟨-, rfl⟩ := declare_eq_ok.1 hdeclared
    rw [← map_fst_targets hts, ← map_fst_outputHandles houtputs] at hnames
    obtain ⟨ns, ev⟩ := exists_evaluated hbuilt hts heval
    obtain ⟨w, hw, -⟩ := exists_writeOutputs { hoist := hoist } hnames (ev.renderable houtputs)
    exact ⟨w, hw⟩

end Compiler
end EffectGraph
