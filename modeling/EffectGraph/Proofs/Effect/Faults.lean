import EffectGraph.Proofs.Config.Settled
import EffectGraph.Proofs.Effect.Acceptance
import EffectGraph.Proofs.Effect.Refusals
import EffectGraph.Proofs.Graph.Targets

/-!
# Where a compilation fails

A settled definition fails to compile in one of four places: a node or a link of
its graph is refused, an output refers to no output slot, the graph cannot be
evaluated, or a modifier is refused (`Fails`, `compile_eq_error`). All other
steps succeed: properties are declared, values are found, names are free. So no
error that is about the inside of the library comes of a merged definition
(`compile_error_not_internal`).
-/

namespace EffectGraph

/-! ## Evaluation -/

namespace Needs

theorem kind_of_findCycle {d : Needs} {e : Error} (h : d.findCycle = .error e) : e.kind = .evaluation := by
  unfold findCycle at h
  cases hf : d.followAll d.nodes d.nodes with
  | ok _ =>
    rw [hf] at h
    cases h
  | error cycle =>
    rw [hf] at h
    cases h
    rfl

theorem kind_of_sorted {d : Needs} {e : Error} (h : d.sorted = .error e) : e.kind = .evaluation := by
  unfold sorted at h
  dsimp only at h
  split at h
  · cases h
  · cases h
    rfl

end Needs

/-- A node of the library whose inputs are expressions of the module is refused for
their number only. -/
theorem Node.kind_of_eval [Stack] {node : Node} (hb : node.isBuiltin) {xs : List ExprHandle} {m m' : Module} {e : Error}
    (hxs : ∀ x ∈ xs, x.index < m.size) (h : node.eval xs m = .error e m') : e.kind = .evaluation := by
  rw [Node.eval_eq hb] at h
  split at h
  · have hvalid : ∀ expr ∈ node.makes xs, ∀ c ∈ expr.children, c.index < m.size :=
      fun expr hexpr c hc => hxs c (Node.children_makes hexpr c hc)
    obtain ⟨m'', hpush, -⟩ := Module.mapM_push hvalid fun expr hexpr => Node.obstacle?_makes hexpr
    rw [hpush] at h
    cases h
  · cases h
    rfl

namespace Evaluator

theorem checking_eq_error {r : Except Error α} {s s' : Evaluator × Module} {e : Error} :
    checking r s = .error e s' ↔ r = .error e ∧ s' = s := by
  unfold checking
  cases r with
  | ok a => simp
  | error e' => simp [eq_comm]

theorem building_eq_error {f : Build α} {e : Evaluator} {m : Module} {s' : Evaluator × Module} {err : Error} :
    building f (e, m) = .error err s' ↔ ∃ m', f m = .error err m' ∧ s' = (e, m') := by
  cases hf : f m with
  | ok a m' => simp [building, hf]
  | error err' m' => simp [building, hf, eq_comm]

section

variable {g : Graph} {m₀ m : Module} {done : List NodeId} {values : List (SlotId × ExprHandle)} {n : NodeId}

/-- Every input of a node gives an expression or reads nothing, once the nodes that
the node depends on have been evaluated. -/
theorem Wired.exists_inputs (hw : Wired g m₀ done values m) (hg : g.Sound)
    (hdone : ∀ x, g.DependsOn n x → x ∈ done) :
    ∃ inputs, (g.slotsWhere n Slot.isInput).mapM (inputValue g values) = .ok inputs := by
  obtain ⟨L, ha⟩ := hg.links
  rw [Except.exists_mapM_eq_ok]
  intro i hi
  have hsource := ha.sourceSlot_eq (hg.laid.dirOf?_input hi)
  unfold inputValue
  rw [hsource]
  cases ho : (L.ends i .input).head? with
  | none => exact ⟨none, rfl⟩
  | some o =>
    rw [ho] at hsource
    obtain ⟨x, hx, hout⟩ := ha.exists_source hg.laid hi hsource
    obtain ⟨h, hh⟩ := hw.exists_value (hdone x hx) hout
    refine ⟨some h, ?_⟩
    simp only [bind, Except.bind, hh]
    rfl

/-- A node whose needs have been evaluated is refused for the number of its inputs
or outputs, if for anything. -/
theorem Wired.kind_of_evaluateNode [Stack] (hw : Wired g m₀ done values m) (hg : g.Sound) {node : Node}
    (hnode : g.node n = .ok node) (hdone : ∀ x, g.DependsOn n x → x ∈ done) {e : Evaluator} (he : e.values = values)
    {err : Error} {s' : Evaluator × Module} (h : evaluateNode g n (e, m) = .error err s') :
    err.kind = .evaluation := by
  obtain ⟨inputs, hinputs⟩ := hw.exists_inputs hg hdone
  rcases EStateM.bind_eq_error.1 h with h | ⟨_, _, hget, h⟩
  · cases h
  cases hget
  rcases EStateM.bind_eq_error.1 h with h | ⟨node', _, hcheck, h⟩
  · rw [checking_eq_error, hnode] at h
    cases h.1
  obtain ⟨hnode', rfl⟩ := checking_eq_ok.1 hcheck
  rw [hnode] at hnode'
  cases hnode'
  rcases EStateM.bind_eq_error.1 h with h | ⟨inputs', _, hcheck, h⟩
  · rw [checking_eq_error, Graph.inputSlots_eq hnode, he] at h
    rw [show (Except.ok (g.slotsWhere n Slot.isInput) >>= fun is => is.mapM (inputValue g values)) = .ok inputs
      from hinputs] at h
    cases h.1
  obtain ⟨hinputs', rfl⟩ := checking_eq_ok.1 hcheck
  rw [Graph.inputSlots_eq hnode, he] at hinputs'
  rcases EStateM.bind_eq_error.1 h with h | ⟨outputs, s₁, hbuild, h⟩
  · obtain ⟨m', heval, -⟩ := building_eq_error.1 h
    refine Node.kind_of_eval (hg.builtin n node hnode) (fun x hx => ?_) heval
    obtain ⟨o, ho, rfl⟩ := List.mem_filterMap.1 hx
    obtain ⟨i, -, hi⟩ := Except.exists_of_mem_mapM hinputs' ho
    obtain ⟨s, -, hs⟩ := inputValue_eq_some_iff.1 hi
    exact (hw.mem_handles hs).2
  · rcases EStateM.bind_eq_error.1 h with h | ⟨slots, s₂, hcheck, h⟩
    · rw [checking_eq_error, Graph.outputSlots_eq hnode] at h
      cases h.1
    · split at h
      · cases h
        rfl
      · cases h

end

/-- An evaluation for slots of the graph fails only for a cycle or for the number of
inputs or outputs of a node. -/
theorem kind_of_evaluate_error [Stack] {g : Graph} (hg : g.Sound) {targets : List SlotId}
    (hvalid : ∀ s ∈ targets, ∃ slot, g.slot s = .ok slot) {e : Evaluator} {m : Module} {err : Error}
    {s' : Evaluator × Module} (h : evaluate g (some targets) (e, m) = .error err s') : err.kind = .evaluation := by
  obtain ⟨L, ha⟩ := hg.links
  obtain ⟨d, hneeds, hsize, hd, hneeded⟩ := ha.allNeeds_eq hg.laid
  cases hcycle : d.findCycle with
  | error cycle =>
    have hbuild : build g (e, m) = .error cycle ({ e with needs := d }, m) := by
      simp only [build, reorder, hneeds, hcycle]
    unfold evaluate at h
    simp only [bind, EStateM.bind, hbuild] at h
    cases h
    exact Needs.kind_of_findCycle hcycle
  | ok _ =>
    cases hsorted : d.sorted with
    | error unsorted =>
      have hbuild : build g (e, m) = .error unsorted ({ e with needs := d }, m) := by
        simp only [build, reorder, hneeds, hcycle, hsorted]
      unfold evaluate at h
      simp only [bind, EStateM.bind, hbuild] at h
      cases h
      exact Needs.kind_of_sorted hsorted
    | ok order =>
      have ho : Ordered g d order := ⟨hneeds, hsorted, hcycle, hd.orders_of_sorted hsorted, hd, hsize, hneeded⟩
      obtain ⟨ns, hsub, hmem, hclosed, hrun⟩ := ho.evaluate_some hg.laid hvalid
      rw [hrun] at h
      rcases EStateM.bind_eq_error.1 h with h | ⟨_, _, _, h⟩
      · obtain ⟨done, n, rest, ⟨e₁, m₁⟩, rfl, hdone, hn⟩ := EStateM.forM_eq_error.1 h
        have honce := (List.nodup_append.1 (hsub.nodup ho.orders.once)).1
        have hw := forM_wired hg.laid hg.builtin (e := { needs := d, order := order }) honce hdone
        have hrequired := (hmem n).1 (List.mem_append_right _ List.mem_cons_self)
        obtain ⟨node, hnode⟩ := g.exists_node (hrequired.index_lt hg.laid)
        exact hw.kind_of_evaluateNode hg hnode (hclosed done n rest rfl) rfl hn
      · cases h

end Evaluator

namespace Compiler

open Writer

/-! ## Building -/

section

variable [Stack] {c : Compiler} {d : Definition} {e : Error}

theorem construct_eq_error :
    c.construct d = .error e ↔
      ∃ b, Builder.build (Builder.start c.registry d.nodes d.links) = .error e b := by
  unfold construct
  rw [← run_eq_error, Except.bind_eq_error]
  constructor
  · rintro (h | ⟨_, _, h⟩)
    · exact h
    · cases h
  · exact .inl

/-- A build is refused for a node or a link. -/
theorem construct_error_cases (hids : (d.nodes.map (·.id)).Nodup) (h : c.construct d = .error e) :
    d.nodes.mapM c.registry.create = .error e ∨ ∃ l ∈ d.links, Builder.LinksBadly l e := by
  obtain ⟨b, h⟩ := construct_eq_error.1 h
  rcases EStateM.bind_eq_error.1 h with h | ⟨_, _, hget, h⟩
  · cases h
  cases hget
  rcases EStateM.bind_eq_error.1 h with h | ⟨_, b₁, hnodes, h⟩
  · exact .inl ((Builder.forM_addNode_eq_error hids).1 ⟨b, h⟩)
  · obtain ⟨-, nodes, hmade, rfl⟩ := Builder.forM_addNode_eq_ok.1 hnodes
    rcases EStateM.bind_eq_error.1 h with h | ⟨_, _, hget, h⟩
    · cases h
    cases hget
    exact .inr (Builder.forM_addLink_error hids hmade h)

/-- A node that is refused ends the build. -/
theorem construct_eq_error_of_nodes (hids : (d.nodes.map (·.id)).Nodup)
    (h : d.nodes.mapM c.registry.create = .error e) : c.construct d = .error e := by
  have hnodes : ∃ b, d.nodes.forM Builder.addNode (Builder.start c.registry d.nodes d.links) = .error e b :=
    (Builder.forM_addNode_eq_error hids).2 h
  obtain ⟨b, hb⟩ := hnodes
  exact construct_eq_error.2 ⟨b, EStateM.bind_eq_error.2 (.inr ⟨_, _, rfl, EStateM.bind_eq_error.2 (.inl hb)⟩)⟩

end

/-! ## Modifiers -/

section

variable [Stack] {c : Compiler} {x : ModifierDef} {m : Module} {w : Writer} {e : Error}

/-- A modifier that can be made adds its code and leaves the writer ready. -/
theorem exists_applyModifier (hc : c.modifiers = Modifier.types) (r : Ready m w)
    (h : Modifier.fault? m.propertyNames x = none) :
    ∃ touched m' w', c.applyModifier x (m, w) = .ok touched (m', w') ∧ Ready m' w' ∧ m'.properties = m.properties := by
  obtain ⟨made, m₁, hmade⟩ := (Modifier.create_ends x m).ok_iff.2 h
  obtain ⟨t, hmakes⟩ := Modifier.create_makes hmade
  obtain ⟨expr, m', w', happly, -, happ, r', -⟩ := applyModifier_makes hc hmakes (List.Subset.refl _) r
  exact ⟨_, m', w', happly, r', happ.properties⟩

/-- Modifiers are refused for their definitions only. -/
theorem applyModifier_eq_error (hc : c.modifiers = Modifier.types) (r : Ready m w) :
    (∃ q, c.applyModifier x (m, w) = .error e q) ↔ Modifier.fault? m.propertyNames x = some e := by
  cases hfault : Modifier.fault? m.propertyNames x with
  | none =>
    obtain ⟨touched, m', w', happly, -⟩ := exists_applyModifier hc r hfault
    simp [happly]
  | some e' =>
    obtain ⟨m', hmade⟩ := (Modifier.create_ends x m).error_iff.2 hfault
    have hbuilding : Modifier.building (Modifier.create c.modifiers x) (m, w) = .error e' (m', w) := by
      simp only [hc, Modifier.building, hmade]
    have happly : c.applyModifier x (m, w) = .error e' (m', w) := EStateM.bind_eq_error.2 (.inl hbuilding)
    simp [happly]

/-- After modifiers that were applied the writer is ready for more. -/
theorem ready_applyModifiers (hc : c.modifiers = Modifier.types) {ds : List ModifierDef} {p q : Module × Writer}
    {touched : List (List Attribute)} (h : ds.mapM (applyModifier c) p = .ok touched q) :
    Ready p.1 p.2 → Ready q.1 q.2 ∧ q.1.properties = p.1.properties := by
  refine mapM_ok (R := fun p q => Ready p.1 p.2 → Ready q.1 q.2 ∧ q.1.properties = p.1.properties)
    (fun p r => ⟨r, rfl⟩) ?_ ?_ h
  · intro p q s hpq hqs r
    obtain ⟨r', hq⟩ := hpq r
    obtain ⟨r'', hs⟩ := hqs r'
    exact ⟨r'', hs.trans hq⟩
  · rintro x ⟨m, w⟩ touched q hx r
    cases hfault : Modifier.fault? m.propertyNames x with
    | some e =>
      obtain ⟨q', hq'⟩ := (applyModifier_eq_error hc r).2 hfault
      rw [hx] at hq'
      cases hq'
    | none =>
      obtain ⟨touched', m', w', happly, r', hproperties⟩ := exists_applyModifier hc r hfault
      rw [hx] at happly
      cases happly
      exact ⟨r', hproperties⟩

/-- Modifiers fail at the first that is refused. -/
theorem applyModifiers_eq_error (hc : c.modifiers = Modifier.types) (r : Ready m w) {ds : List ModifierDef} :
    (∃ q, c.applyModifiers ds (m, w) = .error e q) ↔ ∃ done x rest touched q, ds = done ++ x :: rest ∧
      c.applyModifiers done (m, w) = .ok touched q ∧ Modifier.fault? m.propertyNames x = some e := by
  constructor
  · rintro ⟨q, h⟩
    rcases EStateM.bind_eq_error.1 h with h | ⟨_, _, _, h⟩
    · obtain ⟨done, x, rest, touched, ⟨m₁, w₁⟩, rfl, hdone, hx⟩ := EStateM.mapM_eq_error.1 h
      obtain ⟨r₁, hproperties⟩ := ready_applyModifiers hc hdone r
      refine ⟨done, x, rest, _, _, rfl, EStateM.bind_eq_ok.2 ⟨touched, _, hdone, rfl⟩, ?_⟩
      have hfault := (applyModifier_eq_error hc r₁).1 ⟨q, hx⟩
      rwa [Module.propertyNames, hproperties] at hfault
    · cases h
  · rintro ⟨done, x, rest, touched, q, rfl, hdone, hfault⟩
    obtain ⟨as, ⟨m₁, w₁⟩, hdone, -⟩ := EStateM.bind_eq_ok.1 hdone
    obtain ⟨r₁, hproperties⟩ := ready_applyModifiers hc hdone r
    have hnames : m₁.propertyNames = m.propertyNames := by
      rw [Module.propertyNames, hproperties]
      rfl
    obtain ⟨q', hx⟩ := (applyModifier_eq_error hc r₁).2 (hnames ▸ hfault)
    exact ⟨q', EStateM.bind_eq_error.2 (.inl (EStateM.mapM_eq_error.2 ⟨done, x, rest, as, _, rfl, hdone, hx⟩))⟩

end

/-! ## Compiling -/

/-- A definition whose outputs have been written. What is left are its modifiers. -/
structure Written [Stack] (c : Compiler) (d : Definition) (b : Builder) (m : Module)
    (outputs : List (Text × ExprHandle))
    (w : Writer) : Prop where
  declared : declare d = .ok (.ofProperties d.properties)
  built : c.construct d = .ok b
  evaluated : ∃ ts k e, targets b d = .ok ts ∧ evaluate b.graph ts (.ofProperties d.properties) = .ok (k, e, m) ∧
    outputHandles e ts = .ok outputs
  written : run (c.writeOutputs m outputs) {} = .ok ((), w)
  ready : Ready m w
  names : m.propertyNames = d.properties.map Prod.fst

section

variable [Stack] {c : Compiler} {d : Definition} {b : Builder} {m : Module}
  {outputs : List (Text × ExprHandle)} {w : Writer}
  {ts : List (Text × SlotId)} {e : Error}

/-- An output is refused for its reference or for leading to an input. -/
theorem targets_error (hb : c.construct d = .ok b) (h : targets b d = .error e) :
    ∃ o ∈ d.outputs, Builder.RefersBadly o.2 e ∨ e = .outputDir o.1 o.2 := by
  obtain ⟨nodes, pairs, hbuilt⟩ := construct_eq_ok.1 hb
  obtain ⟨_, o, _, hsplit, -, ho⟩ := Except.mapM_eq_error.1 h
  refine ⟨o, hsplit ▸ List.mem_append_right _ List.mem_cons_self, ?_⟩
  rcases Except.bind_eq_error.1 ho with h | ⟨s, hs, h⟩
  · exact .inl (hbuilt.sound.resolve_error h)
  · obtain ⟨slot, hslot⟩ := hbuilt.sound.resolve_slot hs
    rw [hslot] at h
    simp only [bind, Except.bind] at h
    split at h
    all_goals cases h
    exact .inr rfl

/-- The graph of a definition is not evaluated if it has a cycle, or if a node has not
the inputs that it needs. -/
theorem kind_of_evaluate (hr : c.registry = Registry.builtin) (hb : c.construct d = .ok b)
    (hts : targets b d = .ok ts) (h : evaluate b.graph ts m = .error e) : e.kind = .evaluation := by
  obtain ⟨nodes, pairs, hbuilt⟩ := construct_eq_ok.1 hb
  rw [hr] at hbuilt
  obtain ⟨s', h⟩ := run_eq_error.1 h
  exact Evaluator.kind_of_evaluate_error ⟨hbuilt.laid, ⟨_, hbuilt.agrees⟩, hbuilt.isBuiltin⟩ (targets_valid hts) h

/-- Once the graph has been evaluated, the outputs can be written. -/
theorem exists_written (hr : c.registry = Registry.builtin) (hd : Config.Settled d) (hb : c.construct d = .ok b)
    (hts : targets b d = .ok ts) {k : Nat} {ev : Evaluator}
    (heval : evaluate b.graph ts (.ofProperties d.properties) = .ok (k, ev, m)) :
    ∃ outputs w, outputHandles ev ts = .ok outputs ∧ Written c d b m outputs w := by
  obtain ⟨nodes, pairs, hbuilt⟩ := construct_eq_ok.1 hb
  rw [hr] at hbuilt
  obtain ⟨ns, evaluated⟩ := exists_evaluated hbuilt hts heval
  obtain ⟨outputs, houtputs⟩ := evaluated.exists_outputHandles
  have hnames : (outputs.map Prod.fst).Nodup := by
    rw [map_fst_outputHandles houtputs, map_fst_targets hts]
    exact hd.outputs
  obtain ⟨w, hw, ready⟩ := exists_writeOutputs c hnames (evaluated.renderable houtputs)
  refine ⟨outputs, w, houtputs, declare_eq_ok.2 ⟨hd.properties, rfl⟩, hb, ⟨ts, k, ev, hts, heval, houtputs⟩,
    run_eq_ok.2 hw, ready, ?_⟩
  rw [Module.propertyNames, evaluated.wired.properties]
  simp [Module.ofProperties]

/-- A definition whose outputs have been written compiles as its modifiers do. -/
theorem Written.compile_eq (h : Written c d b m outputs w) :
    c.compile d = do
      let (touched, m', w') ← run (c.applyModifiers d.modifiers) (m, w)
      return {
        name := d.name
        module := m'
        graph := b.graph
        outputs := outputs
        attributes := attributes m' touched
        code := w'.code
        rendered := w'.rendering.count } := by
  obtain ⟨ts, k, ev, hts, heval, houtputs⟩ := h.evaluated
  unfold compile finish
  simp only [h.declared, h.built, hts, heval, houtputs, h.written, bind, Except.bind]

/-- Modifiers come last, so others can be given in their place. -/
theorem Written.withModifiers (h : Written c d b m outputs w) (ms : List ModifierDef) :
    Written c { d with modifiers := ms } b m outputs w :=
  ⟨h.declared, h.built, h.evaluated, h.written, h.ready, h.names⟩

/-- A definition that compiles with other modifiers has its outputs written. -/
theorem exists_written_of_compile (hr : c.registry = Registry.builtin) (hd : Config.Settled d)
    {ms : List ModifierDef} {effect : Effect} (h : c.compile { d with modifiers := ms } = .ok effect) :
    ∃ b m outputs w, Written c d b m outputs w := by
  obtain ⟨s, hs⟩ := compile_eq_ok.1 h
  obtain ⟨k, hevaluated⟩ := hs.evaluated
  obtain ⟨-, hdeclared⟩ := declare_eq_ok.1 hs.declared
  rw [hdeclared] at hevaluated
  obtain ⟨outputs, w, -, hw⟩ := exists_written hr hd hs.built hs.targets hevaluated
  exact ⟨_, _, outputs, w, hw⟩

/-- Where a settled definition fails to compile. -/
inductive Fails (c : Compiler) (d : Definition) : Error → Prop
  | build {e : Error} : c.construct d = .error e → Fails c d e
  | output {b : Builder} {e : Error} : c.construct d = .ok b → targets b d = .error e → Fails c d e
  | evaluation {b : Builder} {ts : List (Text × SlotId)} {e : Error} : c.construct d = .ok b →
      targets b d = .ok ts → evaluate b.graph ts (.ofProperties d.properties) = .error e → Fails c d e
  | modifier {done rest : List ModifierDef} {x : ModifierDef} {effect : Effect} {e : Error} :
      d.modifiers = done ++ x :: rest → c.compile { d with modifiers := done } = .ok effect →
      Modifier.Refuses (d.properties.map Prod.fst) x e → Fails c d e

/-- A settled definition fails to compile in these places and no others. -/
theorem compile_eq_error (hr : c.registry = Registry.builtin) (hm : c.modifiers = Modifier.types)
    (hd : Config.Settled d) : c.compile d = .error e ↔ Fails c d e := by
  have hdeclared : declare d = .ok (.ofProperties d.properties) := declare_eq_ok.2 ⟨hd.properties, rfl⟩
  constructor
  · intro h
    cases hb : c.construct d with
    | error e' =>
      simp only [compile, hdeclared, hb, bind, Except.bind] at h
      cases h
      exact .build hb
    | ok b =>
      cases hts : targets b d with
      | error e' =>
        simp only [compile, hdeclared, hb, hts, bind, Except.bind] at h
        cases h
        exact .output hb hts
      | ok ts =>
        cases heval : evaluate b.graph ts (.ofProperties d.properties) with
        | error e' =>
          simp only [compile, hdeclared, hb, hts, heval, bind, Except.bind] at h
          cases h
          exact .evaluation hb hts heval
        | ok evaluated =>
          obtain ⟨k, ev, m⟩ := evaluated
          obtain ⟨outputs, w, -, hw⟩ := exists_written hr hd hb hts heval
          rw [hw.compile_eq] at h
          rcases Except.bind_eq_error.1 h with h | ⟨_, _, h⟩
          · obtain ⟨done, x, rest, touched, q, hsplit, hdone, hfault⟩ :=
              (applyModifiers_eq_error hm hw.ready).1 (run_eq_error.1 h)
            rw [hw.names] at hfault
            have hcompiled := (hw.withModifiers done).compile_eq
            rw [run_eq_ok.2 hdone] at hcompiled
            exact .modifier hsplit hcompiled (Modifier.fault?_eq_some.1 hfault)
          · cases h
  · intro h
    cases h with
    | build hb => simp only [compile, hdeclared, hb, bind, Except.bind]
    | output hb hts => simp only [compile, hdeclared, hb, hts, bind, Except.bind]
    | evaluation hb hts heval => simp only [compile, hdeclared, hb, hts, heval, bind, Except.bind]
    | modifier hsplit hdone hrefused =>
      obtain ⟨b, m, outputs, w, hw⟩ := exists_written_of_compile hr hd hdone
      rw [(hw.withModifiers _).compile_eq] at hdone
      obtain ⟨⟨touched, q⟩, hmade, -⟩ := Except.bind_eq_ok.1 hdone
      rw [hw.compile_eq]
      refine Except.bind_eq_error.2 (.inl (run_eq_error.2 ((applyModifiers_eq_error hm hw.ready).2 ?_)))
      exact ⟨_, _, _, touched, q, hsplit, run_eq_ok.1 hmade, Modifier.fault?_eq_some.2 (hw.names.symm ▸ hrefused)⟩

end

end Compiler

/-! ## Errors that are ruled out -/

/-- Errors that no merged definition is answered with, unless a link of it is no
reference. -/
def Error.isRuledOut (e : Error) : Bool :=
  match e with
  | .nameTaken _ | .duplicateNode _ | .duplicateProperty _ | .slotRef _ => true
  | e => [.missingKey, .contract, .handle].contains e.kind

theorem Error.isRuledOut_iff {e : Error} :
    e.isRuledOut ↔ e.kind ∈ [.missingKey, .contract, .handle] ∨ (∃ name, e = .nameTaken name) ∨
      (∃ id, e = .duplicateNode id) ∨ (∃ name, e = .duplicateProperty name) ∨ ∃ ref, e = .slotRef ref := by
  unfold isRuledOut
  split
  case h_5 hname hid hproperty href =>
    rw [List.contains_iff_mem]
    refine ⟨.inl, ?_⟩
    rintro (h | ⟨name, rfl⟩ | ⟨id, rfl⟩ | ⟨name, rfl⟩ | ⟨ref, rfl⟩)
    · exact h
    · exact absurd rfl (hname name)
    · exact absurd rfl (hid id)
    · exact absurd rfl (hproperty name)
    · exact absurd rfl (href ref)
  all_goals simp

theorem Error.isRuledOut_of_kind {e : Error} (h : e.kind = .evaluation) : e.isRuledOut = false := by
  unfold isRuledOut
  split
  case h_5 =>
    rw [h]
    rfl
  all_goals cases h

theorem Error.isRuledOut_about [Stack] {ds : List Data} {e : Error} (h : e.isRuledOut = false) :
    (Error.about ds e).isRuledOut = false := by
  unfold about
  split
  · rfl
  · exact h

theorem Registry.Refuses.isRuledOut {d : NodeDef} {e : Error} (h : Refuses d e) : e.isRuledOut = false := by
  cases h <;> rfl

theorem Builder.RefersBadly.isRuledOut {ref : Text} {e : Error} (h : RefersBadly ref e) :
    e.isRuledOut = false ∨ e = .slotRef ref ∧ slotRef ref = .error e := by
  cases h with
  | form hform => exact .inr ⟨rfl, hform⟩
  | node _ => exact .inl rfl
  | slot _ _ => exact .inl rfl

theorem Builder.LinksBadly.isRuledOut {l : LinkDef} {e : Error} (h : LinksBadly l e) :
    e.isRuledOut = false ∨ e = .slotRef l.source ∨ e = .slotRef l.target := by
  cases h with
  | source h => exact h.isRuledOut.imp_right fun h => .inl h.1
  | target h => exact h.isRuledOut.imp_right fun h => .inr h.1
  | sourceDir => exact .inl rfl
  | targetDir => exact .inl rfl

theorem Data.NoFloat.isRuledOut {d : Data} {e : Error} (h : NoFloat d e) : e.isRuledOut = false := by
  cases h <;> rfl

theorem Modifier.NoOffset.isRuledOut {offset : Data} {e : Error} (h : NoOffset offset e) : e.isRuledOut = false := by
  cases h with
  | part _ _ _ h => exact h.isRuledOut
  | _ => rfl

theorem Modifier.Refuses.isRuledOut [Stack] {names : List Text} {d : ModifierDef} {e : Error} (h : Refuses names d e) :
    e.isRuledOut = false := by
  cases h with
  | origin _ h =>
    cases h with
    | count _ => rfl
    | property _ _ _ => exact Error.isRuledOut_about rfl
    | offset _ _ h => exact h.isRuledOut
  | @log o _ _ _ => cases o <;> rfl
  | type _ => rfl

namespace Compiler

section

variable [Stack] {c : Compiler} {d : Definition} {b : Builder} {ts : List (Text × SlotId)} {e : Error}

theorem construct_isRuledOut (hr : c.registry = Registry.builtin) (hd : Config.Settled d)
    (h : c.construct d = .error e) :
    e.isRuledOut = false ∨ ∃ l ∈ d.links, e = .slotRef l.source ∨ e = .slotRef l.target := by
  rcases construct_error_cases hd.nodes h with h | ⟨l, hl, hbad⟩
  · obtain ⟨_, n, _, -, -, hn⟩ := Except.mapM_eq_error.1 h
    rw [hr] at hn
    exact .inl (Registry.create_eq_error.1 hn).isRuledOut
  · exact hbad.isRuledOut.imp_right fun h => ⟨l, hl, h⟩

/-- The outputs of a settled definition are references, so that is not what they are
refused for. -/
theorem targets_isRuledOut (hd : Config.Settled d) (hb : c.construct d = .ok b) (h : targets b d = .error e) :
    e.isRuledOut = false := by
  obtain ⟨o, ho, h | rfl⟩ := targets_error hb h
  · obtain ⟨parts, hparts⟩ := hd.references o ho
    rcases h.isRuledOut with h | ⟨-, hform⟩
    · exact h
    · rw [hparts] at hform
      cases hform
  · rfl

/-- A settled definition is refused for what it says. -/
theorem Fails.isRuledOut (hr : c.registry = Registry.builtin) (hd : Config.Settled d) (h : Fails c d e) :
    e.isRuledOut = false ∨
      c.construct d = .error e ∧ ∃ l ∈ d.links, e = .slotRef l.source ∨ e = .slotRef l.target := by
  cases h with
  | build hb => exact (construct_isRuledOut hr hd hb).imp_right fun h => ⟨hb, h⟩
  | output hb hts => exact .inl (targets_isRuledOut hd hb hts)
  | evaluation hb hts heval => exact .inl (Error.isRuledOut_of_kind (kind_of_evaluate hr hb hts heval))
  | modifier _ _ hrefused => exact .inl hrefused.isRuledOut

end

/-- A merged definition, compiled with the node types and modifiers of the library
and whether shared expressions are hoisted or not, never fails because a slot has no
value, a graph or an expression is misused, or the name of a local is taken. Nor does
it fail for what merging has excluded: nodes and properties of one name, and outputs
that are no references. Only a link can be no reference, and then the graph is not
built, so that no output is looked at. -/
theorem compile_error_not_internal [Stack] (hoist : Bool) (name : String) (configs : List Config.GraphConfig)
    (d : Definition) (e : Error) (hd : Config.merge name configs = .ok d)
    (he : Compiler.compile { hoist := hoist } d = .error e) :
    e.kind ≠ .missingKey ∧ e.kind ≠ .contract ∧ e.kind ≠ .handle ∧ (∀ name, e ≠ .nameTaken name) ∧
      (∀ id, e ≠ .duplicateNode id) ∧ (∀ name, e ≠ .duplicateProperty name) ∧
      ∀ ref, e = .slotRef ref → Compiler.construct { hoist := hoist } d = .error e ∧
        ∃ l ∈ d.links, ref = l.source ∨ ref = l.target := by
  have hsettled := Config.settled_merge hd
  rcases ((compile_eq_error rfl rfl hsettled).1 he).isRuledOut rfl hsettled with h | ⟨hb, l, hl, h⟩
  · rw [← Bool.not_eq_true, Error.isRuledOut_iff] at h
    simp only [List.mem_cons, List.not_mem_nil, or_false, not_or, not_exists] at h
    obtain ⟨⟨hkey, hcontract, hhandle⟩, hname, hid, hproperty, href⟩ := h
    exact ⟨hkey, hcontract, hhandle, hname, hid, hproperty, fun ref h => absurd h (href ref)⟩
  · obtain ⟨ref, rfl, href⟩ : ∃ ref, e = .slotRef ref ∧ (ref = l.source ∨ ref = l.target) := by
      rcases h with h | h
      · exact ⟨_, h, .inl rfl⟩
      · exact ⟨_, h, .inr rfl⟩
    have hkind : (Error.slotRef ref).kind = .invalid := rfl
    rw [hkind]
    refine ⟨by decide, by decide, by decide, by simp, by simp, by simp, ?_⟩
    rintro ref' ⟨⟩
    exact ⟨hb, l, hl, href⟩

/-- A file with a link that starts at a node where it should start at a slot. -/
def bareLinkFile : Config.GraphConfig where
  name := "direction"
  nodes := [{ id := "v", type := "Attribute", params := [(.str "attribute", .str "velocity")] },
    { id := "n", type := "Normalize" }]
  links := [⟨"v", "n.in"⟩]
  outputs := [⟨"direction", "n.out"⟩]

/-- What the file merges into. -/
def bareLink : Definition where
  name := "direction"
  nodes := bareLinkFile.nodes
  links := bareLinkFile.links
  outputs := [("direction", "n.out")]

open scoped EffectGraph.Stack.Usual in
theorem compile_error_not_internal_bareLink :
    Config.merge "direction" [bareLinkFile] = .ok bareLink ∧
      Compiler.compile { hoist := true } bareLink = .error (.slotRef "v") ∧
      Compiler.construct { hoist := true } bareLink = .error (.slotRef "v") := by
  have hd : Config.merge "direction" [bareLinkFile] = .ok bareLink := by
    cbv
  have he : Compiler.compile { hoist := true } bareLink = .error (.slotRef "v") := by
    cbv
  obtain ⟨-, -, -, -, -, -, href⟩ := compile_error_not_internal true _ _ _ _ hd he
  exact ⟨hd, he, (href "v" rfl).1⟩

end Compiler
end EffectGraph
