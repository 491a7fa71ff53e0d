import EffectGraph.Proofs.Effect.Modifiers
import EffectGraph.Proofs.Failure
import EffectGraph.Proofs.Literal.Typed

/-!
# What the parts of a definition are refused for

A node, a reference, a link and a modifier can each be refused for a few reasons
only. `Registry.Refuses`, `Builder.RefersBadly`, `Builder.LinksBadly` and
`Modifier.Refuses` list them, each with the error that comes of it. What a modifier
is refused for can be told from its definition and the names of the properties
(`Modifier.fault?`, `create_ends`).
-/

namespace EffectGraph

/-! ## Nodes -/

/-- Why the library cannot make a node. -/
inductive Registry.Refuses (d : NodeDef) : Error → Prop
  | type : builtin.factories.lookup d.type = none → Refuses d (.nodeType d.type builtin.types)
  | param : d.type = "Attribute" → (∀ name, Data.lookup "attribute" d.params = some name → ¬name.truthy) →
      Refuses d (.nodeParams d.id d.type (.attributeParam d.id))
  | unknown {name : Data} : d.type = "Attribute" → Data.lookup "attribute" d.params = some name → name.truthy →
      name.unkeyable? = none → (∀ s, name = .str s → Attribute.find? s = none) →
      Refuses d (.nodeParams d.id d.type (.attributeName name (Attribute.all.map Attribute.name)))
  | unkeyable {name : Data} {kind : String} : d.type = "Attribute" → Data.lookup "attribute" d.params = some name →
      name.truthy → name.unkeyable? = some kind → Refuses d (.unkeyable kind)

namespace Registry

theorem ofName_eq_error {name : Data} {e : Error} :
    Attribute.ofName name = .error e ↔ (∃ kind, name.unkeyable? = some kind ∧ e = .unkeyable kind) ∨
      (name.unkeyable? = none ∧ (∀ s, name = .str s → Attribute.find? s = none) ∧
        e = .attributeName name (Attribute.all.map Attribute.name)) := by
  unfold Attribute.ofName Data.asKey
  cases hk : name.unkeyable? with
  | some kind => simp [bind, Except.bind, eq_comm]
  | none =>
    cases name with
    | str s =>
      cases hs : Attribute.find? s with
      | some a => simp [bind, Except.bind, pure, Except.pure, hs]
      | none => simp [bind, Except.bind, Except.throw_eq, hs, eq_comm]
    | _ => simp [bind, Except.bind, Except.throw_eq, eq_comm]

/-- The only node types that ask for anything are attributes. -/
theorem lookup_builtin {type : Text} {f : NodeFactory} (h : builtin.factories.lookup type = some f) :
    (type = "Attribute" ∧ f = attributeNode) ∨ ∃ node, ∀ d, f d = .ok node := by
  have hmem := mem_of_lookup h
  simp only [builtin, List.mem_cons, Prod.mk.injEq, List.not_mem_nil, or_false] at hmem
  rcases hmem with ⟨-, rfl⟩ | ⟨-, rfl⟩ | ⟨-, rfl⟩ | ⟨-, rfl⟩ | ⟨rfl, rfl⟩ | ⟨-, rfl⟩ | ⟨-, rfl⟩
  case inr.inr.inr.inr.inl => exact .inl ⟨rfl, rfl⟩
  all_goals exact .inr ⟨_, fun _ => rfl⟩

theorem create_attribute {d : NodeDef} (h : d.type = "Attribute") :
    builtin.create d = match attributeNode d with
      | .ok n => .ok n
      | .error e => .error (if e.kind = .invalid then .nodeParams d.id d.type e else e) := by
  have hlookup : builtin.factories.lookup d.type = some attributeNode := by
    rw [h]
    rfl
  cases hmade : attributeNode d with
  | ok n => simp only [create, hlookup, hmade]
  | error e => simp only [create, hlookup, hmade]

/-- An attribute node is refused where its parameter is missing or says nothing, or
names no attribute. -/
theorem attributeNode_eq_error {d : NodeDef} {e : Error} :
    attributeNode d = .error e ↔
      ((∀ name, Data.lookup "attribute" d.params = some name → ¬name.truthy) ∧ e = .attributeParam d.id) ∨
        ∃ name, Data.lookup "attribute" d.params = some name ∧ name.truthy ∧ Attribute.ofName name = .error e := by
  unfold attributeNode
  cases Data.lookup "attribute" d.params with
  | none =>
    simp only [Except.error.injEq, eq_comm (b := e), reduceCtorEq, false_implies, implies_true, true_and, false_and,
      exists_false, or_false]
  | some name =>
    by_cases htruthy : name.truthy
    · cases ha : Attribute.ofName name <;> simp [htruthy, ha, bind, Except.bind, pure, Except.pure]
    · simp only [htruthy, if_false, Except.error.injEq, eq_comm (b := e), Option.some.injEq, forall_eq',
        Bool.false_eq_true, not_false_eq_true, true_and, exists_eq_left', false_and, or_false]

theorem create_attribute_eq_error {d : NodeDef} (h : d.type = "Attribute") {e : Error} :
    builtin.create d = .error e ↔
      ∃ e', attributeNode d = .error e' ∧ e = if e'.kind = .invalid then .nodeParams d.id d.type e' else e' := by
  rw [create_attribute h]
  cases attributeNode d <;> simp [eq_comm]

/-- What the library refuses to make a node for. -/
theorem create_eq_error {d : NodeDef} {e : Error} : builtin.create d = .error e ↔ Refuses d e := by
  constructor
  · intro h
    cases hf : builtin.factories.lookup d.type with
    | none =>
      unfold create at h
      rw [hf] at h
      cases h
      exact .type hf
    | some f =>
      rcases lookup_builtin hf with ⟨htype, rfl⟩ | ⟨node, hnode⟩
      · obtain ⟨e', he', rfl⟩ := (create_attribute_eq_error htype).1 h
        rcases attributeNode_eq_error.1 he' with ⟨hmissing, rfl⟩ | ⟨name, hname, htruthy, ha⟩
        · exact .param htype hmissing
        · rcases ofName_eq_error.1 ha with ⟨kind, hkind, rfl⟩ | ⟨hkey, hnone, rfl⟩
          · exact .unkeyable htype hname htruthy hkind
          · exact .unknown htype hname htruthy hkey hnone
      · unfold create at h
        simp only [hf, hnode] at h
        cases h
  · intro h
    cases h with
    | type hf =>
      unfold create
      rw [hf]
    | param htype hmissing =>
      exact (create_attribute_eq_error htype).2 ⟨_, attributeNode_eq_error.2 (.inl ⟨hmissing, rfl⟩), rfl⟩
    | @unknown name htype hname htruthy hkey hnone =>
      have ha := ofName_eq_error.2 (.inr ⟨hkey, hnone, rfl⟩)
      exact (create_attribute_eq_error htype).2 ⟨_, attributeNode_eq_error.2 (.inr ⟨name, hname, htruthy, ha⟩), rfl⟩
    | @unkeyable name kind htype hname htruthy hkind =>
      have ha := ofName_eq_error.2 (.inl ⟨kind, hkind, rfl⟩)
      exact (create_attribute_eq_error htype).2 ⟨_, attributeNode_eq_error.2 (.inr ⟨name, hname, htruthy, ha⟩), rfl⟩

end Registry

/-! ## References and links -/

theorem slotRef_eq_error {ref : Text} {e : Error} (h : slotRef ref = .error e) : e = .slotRef ref := by
  unfold slotRef at h
  dsimp only at h
  split at h
  · cases h
    rfl
  · cases h

namespace Builder

/-- Why a reference leads nowhere. -/
inductive RefersBadly (ref : Text) : Error → Prop
  | form : slotRef ref = .error (.slotRef ref) → RefersBadly ref (.slotRef ref)
  | node (node : Text) : RefersBadly ref (.unknownNode ref node)
  | slot (node slot : Text) : RefersBadly ref (.unknownSlot node slot)

/-- Why a link cannot be made. -/
inductive LinksBadly (l : LinkDef) : Error → Prop
  | source {e : Error} : RefersBadly l.source e → LinksBadly l e
  | target {e : Error} : RefersBadly l.target e → LinksBadly l e
  | sourceDir : LinksBadly l (.sourceDir l.source)
  | targetDir : LinksBadly l (.targetDir l.target)

theorem RefersBadly.kind {ref : Text} {e : Error} (h : RefersBadly ref e) : e.kind = .invalid := by
  cases h <;> rfl

theorem LinksBadly.kind {l : LinkDef} {e : Error} (h : LinksBadly l e) : e.kind = .invalid := by
  cases h with
  | source h => exact h.kind
  | target h => exact h.kind
  | sourceDir => rfl
  | targetDir => rfl

/-- A builder whose identifiers stand for nodes of its graph. -/
structure Sound (b : Builder) : Prop where
  laid : b.graph.Laid
  known : ∀ id n, b.nodeIds.lookup id = some n → ∃ node, b.graph.node n = .ok node

variable {b : Builder} {e : Error}

theorem Sound.resolve_error (hb : b.Sound) {ref : Text} (h : b.resolve ref = .error e) : RefersBadly ref e := by
  rcases Except.bind_eq_error.1 h with h | ⟨⟨node, slot⟩, -, h⟩
  · obtain rfl := slotRef_eq_error h
    exact .form h
  · cases hn : b.nodeIds.lookup node with
    | none =>
      simp only [hn] at h
      cases h
      exact .node node
    | some n =>
      obtain ⟨made, hmade⟩ := hb.known node n hn
      simp only [hn] at h
      rcases Except.bind_eq_error.1 h with h | ⟨found, -, h⟩
      · rw [Graph.findSlot_eq hmade] at h
        cases h
      · cases found with
        | some s => cases h
        | none =>
          cases h
          exact .slot node slot

/-- A reference that leads somewhere leads to a slot of the graph. -/
theorem Sound.resolve_slot (hb : b.Sound) {ref : Text} {s : SlotId} (h : b.resolve ref = .ok s) :
    ∃ slot, b.graph.slot s = .ok slot := by
  obtain ⟨node, slot, n, -, -, hf⟩ := resolve_eq_ok.1 h
  obtain ⟨sl, hsl, -⟩ := hb.laid.findSlot_eq_some hf
  exact ⟨sl, Graph.slot_of_getElem? hsl⟩

theorem Sound.resolveLink_error (hb : b.Sound) {l : LinkDef} (h : b.resolveLink l = .error e) : LinksBadly l e := by
  rcases Except.bind_eq_error.1 h with h | ⟨o, ho, h⟩
  · exact .source (hb.resolve_error h)
  rcases Except.bind_eq_error.1 h with h | ⟨i, hi, h⟩
  · exact .target (hb.resolve_error h)
  obtain ⟨so, hso⟩ := hb.resolve_slot ho
  obtain ⟨si, hsi⟩ := hb.resolve_slot hi
  rw [hso, hsi] at h
  simp only [bind, Except.bind] at h
  split at h
  · cases h
    exact .sourceDir
  · split at h
    all_goals cases h
    exact .targetDir

theorem Sound.addLink_error (hb : b.Sound) {L : Links} (ha : b.graph.Agrees L) {l : LinkDef} {b' : Builder}
    (h : addLink l b = .error e b') : LinksBadly l e := by
  cases hp : b.resolveLink l with
  | error e' =>
    rw [addLink, EStateM.bind_of_error (checking_of_error (f := (·.resolveLink l)) hp)] at h
    cases h
    exact hb.resolveLink_error hp
  | ok p =>
    rw [(addLink_eq_ok ha).2 ⟨p, hp, rfl⟩] at h
    cases h

/-! ## Building -/

theorem addNode_withNodes_eq_error {b : Builder} {ds : List NodeDef} {nodes : List Node} {d : NodeDef}
    (hnew : d.id ∉ ds.map (·.id)) {e : Error} :
    (∃ b', addNode d (b.withNodes ds nodes) = .error e b') ↔ b.registry.create d = .error e := by
  have hlookup : (b.withNodes ds nodes).nodeIds.lookup d.id = none := lookup_places_eq_none.2 hnew
  rw [addNode_of_new hlookup]
  cases hnode : b.registry.create d with
  | ok node =>
    rw [EStateM.bind_of_ok (checking_of_ok (b := b.withNodes ds nodes) (f := (·.registry.create d)) hnode)]
    simp [EStateM.modify_apply]
  | error e' =>
    rw [EStateM.bind_of_error (checking_of_error (b := b.withNodes ds nodes) (f := (·.registry.create d)) hnode)]
    simp

/-- Nodes with identifiers of their own are refused for what they are. -/
theorem forM_addNode_eq_error {registry : Registry} {all ds : List NodeDef} {links : List LinkDef} {e : Error}
    (hids : (ds.map (·.id)).Nodup) :
    (∃ b, ds.forM addNode (start registry all links) = .error e b) ↔ ds.mapM registry.create = .error e := by
  have hnew : ∀ {done rest : List NodeDef} {n : NodeDef}, ds = done ++ n :: rest →
      (done.map (·.id)).Nodup ∧ n.id ∉ done.map (·.id) := by
    rintro done rest n rfl
    rw [List.map_append, List.map_cons] at hids
    have hparts := List.nodup_append.1 hids
    exact ⟨hparts.1, fun hmem => hparts.2.2 _ hmem _ List.mem_cons_self rfl⟩
  rw [Except.mapM_eq_error]
  simp only [EStateM.forM_eq_error]
  constructor
  · rintro ⟨b', done, n, rest, b, hsplit, hdone, hn⟩
    obtain ⟨-, nodes, hmade, rfl⟩ := forM_addNode_eq_ok.1 hdone
    exact ⟨done, n, rest, hsplit, Except.exists_mapM_eq_ok.1 ⟨nodes, hmade⟩,
      (addNode_withNodes_eq_error (hnew hsplit).2).1 ⟨b', hn⟩⟩
  · rintro ⟨done, n, rest, hsplit, hdone, hn⟩
    obtain ⟨nodes, hmade⟩ := Except.exists_mapM_eq_ok.2 hdone
    have hrefused : ∃ b', addNode n ((start registry all links).withNodes done nodes) = .error e b' :=
      (addNode_withNodes_eq_error (hnew hsplit).2).2 hn
    obtain ⟨b', hn⟩ := hrefused
    exact ⟨b', done, n, rest, _, hsplit, forM_addNode_eq_ok.2 ⟨(hnew hsplit).1, nodes, hmade, rfl⟩, hn⟩

theorem Built.sound {registry : Registry} {ds : List NodeDef} {ls : List LinkDef} {nodes : List Node}
    {pairs : List (SlotId × SlotId)} {b : Builder} (h : Built registry ds ls nodes pairs b) : b.Sound where
  laid := h.laid
  known id n hn := by
    rw [h.nodeIds_eq, lookup_places h.ids] at hn
    obtain ⟨d, hd, -⟩ := hn
    obtain ⟨node, hnode, -⟩ := Except.getElem?_of_mapM h.made hd
    exact ⟨node, Graph.node_eq_ok_iff.2 (by rw [h.nodes_eq, List.getElem?_toArray, hnode])⟩

/-- Links between nodes that were made are refused for their references or their
directions. -/
theorem forM_addLink_error {registry : Registry} {ds : List NodeDef} {ls : List LinkDef} {nodes : List Node}
    (hids : (ds.map (·.id)).Nodup) (hmade : ds.mapM registry.create = .ok nodes) {e : Error} {b' : Builder}
    (h : ls.forM addLink ((start registry ds ls).withNodes ds nodes) = .error e b') : ∃ l ∈ ls, LinksBadly l e := by
  obtain ⟨done, l, rest, b, rfl, hdone, hl⟩ := EStateM.forM_eq_error.1 h
  obtain ⟨pairs, hpairs, rfl⟩ := (forM_addLink_eq_ok (agrees_withNodes _ ds nodes)).1 hdone
  -- So far the graph is that of the links before this one.
  have hbuilt : Built registry ds done nodes pairs { (start registry ds done).withNodes ds nodes with
      graph := (Graph.reached (nodes.map .addNode)).relink (Links.linkAll [] pairs) } := ⟨hids, hmade, hpairs, rfl⟩
  refine ⟨l, List.mem_append_right _ List.mem_cons_self,
    Sound.addLink_error (L := Links.linkAll [] pairs) ?_ ?_ hl⟩
  · exact ⟨hbuilt.laid, hbuilt.sound.known⟩
  · exact hbuilt.agrees

end Builder

/-! ## Numbers -/

/-- Whether data is a number or can be read as one. -/
def Data.isNumeral : Data → Bool
  | .float _ | .int _ | .bool _ | .str _ | .bytes _ => true
  | _ => false

/-- Why data cannot become a float. -/
inductive Data.NoFloat : Data → Error → Prop
  | large {i : Int} : Binary64.ofInt? i = none → NoFloat (.int i) .intTooLarge
  | text {s : Text} : Reading.float? s = none → NoFloat (.str s) (.floatText (.str s))
  | bytes {bs : List UInt8} : (plainText? bs).bind Reading.float? = none →
      NoFloat (.bytes bs) (.floatText (.bytes bs))
  | kind {d : Data} : d.isNumeral = false → NoFloat d (.notReal d.fullKind)

theorem Data.toFloat_eq_error {d : Data} {e : Error} : d.toFloat = .error e ↔ NoFloat d e := by
  constructor
  · intro h
    cases d with
    | int i =>
      obtain ⟨hi, rfl⟩ := floatOfInt_eq_error.1 h
      exact .large hi
    | bool b => cases b <;> cases h
    | float x => cases h
    | str s =>
      unfold toFloat at h
      cases hs : Reading.float? s with
      | some x => simp [hs] at h
      | none =>
        simp only [hs] at h
        cases h
        exact .text hs
    | bytes bs =>
      unfold toFloat at h
      cases hs : (plainText? bs).bind Reading.float? with
      | some x => simp [hs] at h
      | none =>
        simp only [hs] at h
        cases h
        exact .bytes hs
    | _ =>
      cases h
      exact .kind rfl
  · intro h
    cases h with
    | large hi => exact floatOfInt_eq_error.2 ⟨hi, rfl⟩
    | text hs => simp only [toFloat, hs]
    | bytes hs => simp only [toFloat, hs]
    | kind hd =>
      cases d with
      | float _ | int _ | bool _ | str _ | bytes _ => cases hd
      | _ => rfl

theorem Literal.floats_eq_error {type : ValueType} {parts : List Data} {e : Error} :
    floats type parts = .error e ↔ parts.mapM Data.toFloat = .error e := by
  unfold floats
  rw [Except.bind_eq_error]
  simp [pure, Except.pure]

/-! ## Modifiers -/

namespace Modifier

/-- Whether data is one of some names. -/
def isAmong (names : List Text) : Data → Bool
  | .str s => s ∈ names
  | _ => false

/-- What the parameters of a floating origin are refused for, where properties of
these names are declared. -/
def originFault? [Stack] (names : List Text) (params : Params) : Option Error :=
  match Data.lookup "property" params, Data.lookup "offset" params with
  | some name, none => if isAmong names name then none else some (.about [name] (.originProperty name))
  | none, some offset =>
    match offsetLiteral offset with
    | .ok _ => none
    | .error e => some e
  | _, _ => some .originParams

/-- What a modifier is refused for, where properties of these names are declared. -/
def fault? [Stack] (names : List Text) (d : ModifierDef) : Option Error :=
  match types.lookup d.type with
  | none => some (.modifierType d.type (types.map Prod.fst))
  | some _ => (originFault? names d.params).or ((Data.map d.params).obstacle?.map Data.Obstacle.error)

/-- Work that succeeds, or fails with a fault. -/
def Ends (fault : Option Error) (work : Build α) (m : Module) : Prop :=
  match fault with
  | none => ∃ a m', work m = .ok a m'
  | some e => ∃ m', work m = .error e m'

theorem Ends.error_iff {fault : Option Error} {work : Build α} {m : Module} (h : Ends fault work m) {e : Error} :
    (∃ m', work m = .error e m') ↔ fault = some e := by
  cases fault with
  | none =>
    obtain ⟨a, m', hw⟩ := h
    simp [hw]
  | some e' =>
    obtain ⟨m', hw⟩ := h
    simp [hw]

theorem Ends.ok_iff {fault : Option Error} {work : Build α} {m : Module} (h : Ends fault work m) :
    (∃ a m', work m = .ok a m') ↔ fault = none := by
  cases fault with
  | none =>
    obtain ⟨a, m', hw⟩ := h
    simp [hw]
  | some e' =>
    obtain ⟨m', hw⟩ := h
    simp [hw]

variable {m : Module}

/-- A property is found by its name. -/
theorem named?_eq_none {name : Data} : named? m name = none ↔ isAmong m.propertyNames name = false := by
  cases name with
  | str s =>
    simp only [named?, isAmong, decide_eq_false_iff_not]
    constructor
    · intro h hmem
      obtain ⟨p, -, hp, -⟩ := Module.exists_property hmem
      rw [h] at hp
      cases hp
    · intro h
      cases hs : m.findProperty? s with
      | none => rfl
      | some p => exact absurd (Module.mem_propertyNames hs) h
  | _ => simp [named?, isAmong]

/-- A property that is found can be used. -/
theorem exists_viaProperty [Stack] {name : Data} {p : PropertyHandle} (h : named? m name = some p) :
    ∃ made m', viaProperty p m = .ok made m' := by
  cases name with
  | str s =>
    have hp : m.findProperty? s = some p := h
    obtain ⟨p', q, hp', hq, -⟩ := Module.exists_property (Module.mem_propertyNames hp)
    rw [hp] at hp'
    cases hp'
    obtain ⟨m', hmade, -⟩ := viaProperty_ok hq
    exact ⟨_, m', hmade⟩
  | _ => cases h

/-- Whether a floating origin can be made depends on the names of properties only. -/
theorem factory_ends [Stack] (params : Params) (m : Module) :
    Ends (originFault? m.propertyNames params) (floatingOriginFactory params) m := by
  unfold originFault? floatingOriginFactory
  cases hname : Data.lookup "property" params with
  | none =>
    cases hoffset : Data.lookup "offset" params with
    | none => exact ⟨m, rfl⟩
    | some offset =>
      dsimp only
      cases hv : offsetLiteral offset with
      | error e => exact ⟨m, EStateM.bind_eq_error.2 (.inl (Module.reading_eq_error.2 ⟨rfl, rfl⟩))⟩
      | ok v =>
        obtain ⟨m', hpush, -⟩ := push_leaf (e := .literal v) rfl (obstacle?_offset hv m)
        exact ⟨_, m', EStateM.bind_eq_ok.2
          ⟨v, m, Module.reading_eq_ok.2 ⟨rfl, rfl⟩, EStateM.bind_eq_ok.2 ⟨_, m', hpush, rfl⟩⟩⟩
  | some name =>
    cases hoffset : Data.lookup "offset" params with
    | some offset => exact ⟨m, rfl⟩
    | none =>
      have hread : Module.reading (fun m => .ok (named? m name)) m = .ok (named? m name) m :=
        Module.reading_eq_ok.2 ⟨rfl, rfl⟩
      dsimp only
      cases hfound : named? m name with
      | none =>
        rw [hfound] at hread
        rw [if_neg (by simp [named?_eq_none.1 hfound])]
        exact ⟨m, EStateM.bind_eq_error.2 (.inr ⟨none, m, hread, rfl⟩)⟩
      | some p =>
        obtain ⟨made, m', hmade⟩ := exists_viaProperty hfound
        have hamong : isAmong m.propertyNames name = true := by
          rw [← Bool.not_eq_false, ← named?_eq_none, hfound]
          simp
        rw [hfound] at hread
        rw [if_pos hamong]
        exact ⟨made, m', EStateM.bind_eq_ok.2 ⟨some p, m, hread, hmade⟩⟩

/-- Whether a modifier can be made depends on the names of properties only. -/
theorem create_ends [Stack] (d : ModifierDef) (m : Module) : Ends (fault? m.propertyNames d) (create types d) m := by
  unfold fault? create
  cases hf : types.lookup d.type with
  | none => exact ⟨m, rfl⟩
  | some f =>
    obtain rfl := eq_factory_of_lookup hf
    have hmade := factory_ends d.params m
    dsimp only
    cases horigin : originFault? m.propertyNames d.params with
    | some e =>
      rw [horigin] at hmade
      obtain ⟨m', hmade⟩ := hmade
      exact ⟨m', EStateM.bind_eq_error.2 (.inl hmade)⟩
    | none =>
      rw [horigin] at hmade
      obtain ⟨made, m', hmade⟩ := hmade
      cases hobstacle : (Data.map d.params).obstacle? with
      | none =>
        have hlog : (Data.map d.params).log = .ok () := by
          rw [Data.log, hobstacle]
        exact ⟨made, m', EStateM.bind_eq_ok.2 ⟨made, m', hmade,
          EStateM.bind_eq_ok.2 ⟨_, m', Module.reading_eq_ok.2 ⟨hlog, rfl⟩, rfl⟩⟩⟩
      | some o =>
        have hlog : (Data.map d.params).log = .error o.error := by
          rw [Data.log, hobstacle]
        exact ⟨m', EStateM.bind_eq_error.2 (.inr ⟨made, m', hmade,
          EStateM.bind_eq_error.2 (.inl (Module.reading_eq_error.2 ⟨hlog, rfl⟩))⟩)⟩

/-- Why data is no offset. -/
inductive NoOffset (offset : Data) : Error → Prop
  | whole : offset.elements? = none → NoOffset offset (.notUnpackable offset.fullKind)
  | few {xs : List Data} : offset.elements? = some xs → xs.length < 3 → NoOffset offset (.tooFew 3 xs.length)
  | many {xs : List Data} : offset.elements? = some xs → 3 < xs.length → NoOffset offset (.tooMany 3)
  | part {done rest : List Data} {x : Data} {e : Error} : offset.elements? = some (done ++ x :: rest) →
      (done ++ x :: rest).length = 3 → (∀ y ∈ done, ∃ v, y.toFloat = .ok v) → Data.NoFloat x e → NoOffset offset e

theorem offsetLiteral_of_three {offset : Data} {xs : List Data} (hxs : offset.elements? = some xs)
    (hlength : xs.length = 3) : offsetLiteral offset = Literal.floats .vec3f xs := by
  obtain ⟨x, y, z, rfl⟩ := List.length_eq_three.1 hlength
  unfold offsetLiteral threeParts
  rw [hxs]
  rfl

theorem offsetLiteral_of_not_three {offset : Data} {xs : List Data} (hxs : offset.elements? = some xs)
    (hlength : xs.length ≠ 3) :
    offsetLiteral offset = .error (if xs.length < 3 then .tooFew 3 xs.length else .tooMany 3) := by
  unfold offsetLiteral threeParts
  rw [hxs]
  split
  · next h => cases h
  · next h =>
    cases h
    exact absurd rfl hlength
  · next h =>
    cases h
    rfl

theorem offsetLiteral_eq_error {offset : Data} {e : Error} : offsetLiteral offset = .error e ↔ NoOffset offset e := by
  constructor
  · intro h
    cases hxs : offset.elements? with
    | none =>
      unfold offsetLiteral threeParts at h
      rw [hxs] at h
      cases h
      exact .whole hxs
    | some xs =>
      by_cases hlength : xs.length = 3
      · rw [offsetLiteral_of_three hxs hlength, Literal.floats_eq_error] at h
        obtain ⟨done, x, rest, rfl, hdone, hx⟩ := Except.mapM_eq_error.1 h
        exact .part hxs hlength hdone (Data.toFloat_eq_error.1 hx)
      · rw [offsetLiteral_of_not_three hxs hlength] at h
        cases h
        split
        · next hfew => exact .few hxs hfew
        · next hfew => exact .many hxs (by omega)
  · intro h
    cases h with
    | whole hxs =>
      unfold offsetLiteral threeParts
      rw [hxs]
      rfl
    | few hxs hfew => rw [offsetLiteral_of_not_three hxs (by omega), if_pos hfew]
    | many hxs hmany => rw [offsetLiteral_of_not_three hxs (by omega), if_neg (by omega)]
    | part hxs hlength hdone hx =>
      rw [offsetLiteral_of_three hxs hlength, Literal.floats_eq_error]
      exact Except.mapM_eq_error.2 ⟨_, _, _, rfl, hdone, Data.toFloat_eq_error.2 hx⟩

/-- Why parameters are not those of a floating origin, where properties of these
names are declared. -/
inductive NoOrigin [Stack] (names : List Text) (params : Params) : Error → Prop
  | count : (Data.lookup "property" params).isSome = (Data.lookup "offset" params).isSome →
      NoOrigin names params .originParams
  | property {name : Data} : Data.lookup "property" params = some name → Data.lookup "offset" params = none →
      isAmong names name = false → NoOrigin names params (.about [name] (.originProperty name))
  | offset {offset : Data} {e : Error} : Data.lookup "property" params = none →
      Data.lookup "offset" params = some offset → NoOffset offset e → NoOrigin names params e

/-- Why a modifier cannot be made, where properties of these names are declared. -/
inductive Refuses [Stack] (names : List Text) (d : ModifierDef) : Error → Prop
  | type : types.lookup d.type = none → Refuses names d (.modifierType d.type (types.map Prod.fst))
  | origin {e : Error} : types.lookup d.type = some floatingOriginFactory → NoOrigin names d.params e →
      Refuses names d e
  | log {o : Data.Obstacle} : types.lookup d.type = some floatingOriginFactory → originFault? names d.params = none →
      (Data.map d.params).obstacle? = some o → Refuses names d o.error

theorem originFault?_eq_some [Stack] {names : List Text} {params : Params} {e : Error} :
    originFault? names params = some e ↔ NoOrigin names params e := by
  unfold originFault?
  constructor
  · intro h
    cases hname : Data.lookup "property" params with
    | none =>
      cases hoffset : Data.lookup "offset" params with
      | none =>
        simp only [hname, hoffset] at h
        cases h
        exact .count (by rw [hname, hoffset])
      | some offset =>
        simp only [hname, hoffset] at h
        cases hv : offsetLiteral offset with
        | ok v => simp [hv] at h
        | error e' =>
          simp only [hv] at h
          cases h
          exact .offset hname hoffset (offsetLiteral_eq_error.1 hv)
    | some name =>
      cases hoffset : Data.lookup "offset" params with
      | none =>
        simp only [hname, hoffset] at h
        split at h
        · cases h
        · next hamong =>
          cases h
          exact .property hname hoffset (Bool.not_eq_true _ ▸ hamong)
      | some offset =>
        simp only [hname, hoffset] at h
        cases h
        exact .count (by rw [hname, hoffset]; rfl)
  · intro h
    cases h with
    | count hcount =>
      cases hname : Data.lookup "property" params with
      | none =>
        cases hoffset : Data.lookup "offset" params with
        | none => rfl
        | some offset => simp [hname, hoffset] at hcount
      | some name =>
        cases hoffset : Data.lookup "offset" params with
        | none => simp [hname, hoffset] at hcount
        | some offset => rfl
    | property hname hoffset hamong => simp [hname, hoffset, hamong]
    | offset hname hoffset h => simp [hname, hoffset, offsetLiteral_eq_error.2 h]

theorem fault?_eq_some [Stack] {names : List Text} {d : ModifierDef} {e : Error} :
    fault? names d = some e ↔ Refuses names d e := by
  unfold fault?
  cases htype : types.lookup d.type with
  | none =>
    constructor
    · intro h
      cases h
      exact .type htype
    · intro h
      cases h with
      | type _ => rfl
      | origin hf _ | log hf _ _ => simp [htype] at hf
  | some f =>
    obtain rfl := eq_factory_of_lookup htype
    simp only
    constructor
    · intro h
      rcases Option.or_eq_some_iff.1 h with h | ⟨hnone, h⟩
      · exact .origin htype (originFault?_eq_some.1 h)
      · obtain ⟨o, hobstacle, rfl⟩ := Option.map_eq_some_iff.1 h
        exact .log htype hnone hobstacle
    · intro h
      cases h with
      | type hnone => simp [htype] at hnone
      | origin _ h => rw [originFault?_eq_some.2 h, Option.some_or]
      | log _ hnone hobstacle => rw [hnone, Option.none_or, hobstacle, Option.map_some]

end Modifier
end EffectGraph
