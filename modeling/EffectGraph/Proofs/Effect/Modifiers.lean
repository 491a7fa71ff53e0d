import EffectGraph.Proofs.Data.Showing
import EffectGraph.Proofs.Effect.Stages
import EffectGraph.Proofs.Graph.Wiring
import Mathlib

/-!
# What modifiers add

A modifier of the library is a floating origin, and its offset is an expression
without operands, whose text is decided by the definition alone; it can be made
wherever the property that it names is declared (`Modifier.Makes`,
`create_makes`). So what modifiers write does not depend on what is in the module
and the code already (`applyModifiers_makes`), and they fail only if one of them
cannot be made (`makes_of_applyModifiers`).
-/

namespace EffectGraph

/-- An offset can be shown. -/
theorem Modifier.obstacle?_offset [Stack] {d : Data} {v : Literal} (h : offsetLiteral d = .ok v) (m : Module) :
    m.obstacle? (.literal v) = none := by
  obtain ⟨⟨x, y, z⟩, -, h⟩ := Except.bind_eq_ok.1 h
  obtain ⟨fs, -, h⟩ := Except.bind_eq_ok.1 h
  cases h
  exact Data.obstacle?_literal_floats fs .vec3f

/-- An offset has a text. -/
theorem Modifier.exists_shaderText {d : Data} {v : Literal} (h : offsetLiteral d = .ok v) :
    ∃ t, v.shaderText = .ok t := by
  obtain ⟨⟨x, y, z⟩, -, h⟩ := Except.bind_eq_ok.1 h
  obtain ⟨fs, -, h⟩ := Except.bind_eq_ok.1 h
  cases h
  have htexts : ∃ ts, (fs.map Data.float).mapM (Literal.scalarText .f32) = .ok ts := by
    rw [Except.exists_mapM_eq_ok]
    intro a ha
    obtain ⟨f, -, rfl⟩ := List.mem_map.1 ha
    exact ⟨_, rfl⟩
  obtain ⟨ts, hts⟩ := htexts
  refine ⟨"vec" ++ toString 3 ++ "(" ++ String.intercalate "," ts ++ ")", ?_⟩
  change (do
    let parts ← (fs.map Data.float).mapM (Literal.scalarText .f32)
    return "vec" ++ toString 3 ++ "(" ++ String.intercalate "," parts ++ ")") = _
  rw [hts]
  rfl

namespace Modifier

/-- Work that makes a floating origin in every module with properties of these
names; the offset has no operands, reads no attribute, and has the text `t`. -/
def Makes (names : List Text) (work : Build Modifier) (t : Text) : Prop :=
  ∀ m : Module, names ⊆ m.propertyNames → ∃ e m', e.children = [] ∧ (∀ a, e ≠ .attribute a) ∧
    e.render m [] = .ok t ∧ work m = .ok (.floatingOrigin ⟨m.size⟩) m' ∧ m.Appends [e] m'

theorem push_leaf [Stack] {e : Expr} (h : e.children = []) {m : Module} (hs : m.obstacle? e = none) :
    ∃ m', Module.push e m = .ok ⟨m.size⟩ m' ∧ m.Appends [e] m' :=
  Module.push_eq (by simp [h]) hs

/-- A property of the module can be made an origin. -/
theorem viaProperty_ok [Stack] {m : Module} {p : PropertyHandle} {q : Property} (hq : m.property p = .ok q) :
    ∃ m', viaProperty p m = .ok (.floatingOrigin ⟨m.size⟩) m' ∧ m.Appends [.property p] m' := by
  have hlt : p.index < m.properties.size := (Array.getElem?_eq_some_iff.1 (Module.property_eq_ok_iff.1 hq)).1
  obtain ⟨m', hpush, ha⟩ := push_leaf (e := .property p) rfl (m := m) (by rw [Module.obstacle?, if_pos hlt])
  exact ⟨m', EStateM.bind_eq_ok.2 ⟨_, m', EStateM.bind_eq_ok.2
    ⟨q, m, Module.reading_eq_ok.2 ⟨hq, rfl⟩, hpush⟩, rfl⟩, ha⟩

/-- The property that data names. -/
def named? (m : Module) : Data → Option PropertyHandle
  | .str s => m.findProperty? s
  | _ => none

theorem makes_property [Stack] {name : Text} {names : List Text} (hname : name ∈ names) :
    Makes names (do
      match ← Module.reading fun m => .ok (named? m (.str name)) with
      | some p => viaProperty p
      | none => throw (.about [.str name] (.originProperty (.str name)))) ("properties." ++ name) := by
  intro m hnames
  obtain ⟨p, q, hp, hq, rfl⟩ := Module.exists_property (hnames hname)
  obtain ⟨m', hmade, ha⟩ := viaProperty_ok hq
  have hfound : Module.reading (fun m => .ok (named? m (.str q.name))) m = .ok (some p) m :=
    Module.reading_eq_ok.2 ⟨congrArg Except.ok hp, rfl⟩
  refine ⟨.property p, m', rfl, by simp, ?_, EStateM.bind_eq_ok.2 ⟨_, _, hfound, hmade⟩, ha⟩
  simp only [Expr.render, hq]
  rfl

theorem makes_offset [Stack] {offset : Data} {v : Literal} {t : String} (hv : offsetLiteral offset = .ok v)
    (ht : v.shaderText = .ok t) (names : List Text) :
    Makes names (do
      let v ← Module.reading fun _ => offsetLiteral offset
      return .floatingOrigin (← Module.push (.literal v))) t := by
  intro m _
  obtain ⟨m', hpush, ha⟩ := push_leaf (e := .literal v) rfl (obstacle?_offset hv m)
  have hread : Module.reading (fun _ => offsetLiteral offset) m = .ok v m := Module.reading_eq_ok.2 ⟨hv, rfl⟩
  refine ⟨.literal v, m', rfl, by simp, ?_,
    EStateM.bind_eq_ok.2 ⟨v, m, hread, EStateM.bind_eq_ok.2 ⟨_, m', hpush, rfl⟩⟩, ha⟩
  rw [Expr.render, ht]
  rfl

/-- What a floating origin is made of depends on the names of properties only. -/
theorem factory_makes [Stack] {params : Params} {m m' : Module} {modifier : Modifier}
    (h : floatingOriginFactory params m = .ok modifier m') :
    ∃ t, Makes m.propertyNames (floatingOriginFactory params) t := by
  unfold floatingOriginFactory at h ⊢
  cases hname : Data.lookup "property" params with
  | some name =>
    cases hoffset : Data.lookup "offset" params with
    | some offset =>
      simp only [hname, hoffset] at h
      cases h
    | none =>
      simp only [hname, hoffset] at h
      obtain ⟨found, m₁, hfound, h⟩ := EStateM.bind_eq_ok.1 h
      obtain ⟨hfound, rfl⟩ := Module.reading_eq_ok.1 hfound
      cases found with
      | none => cases h
      | some p =>
        cases name with
        | str s => exact ⟨_, makes_property (Module.mem_propertyNames (Except.ok.inj hfound))⟩
        | _ => cases hfound
  | none =>
    cases hoffset : Data.lookup "offset" params with
    | none =>
      simp only [hname, hoffset] at h
      cases h
    | some offset =>
      simp only [hname, hoffset] at h
      obtain ⟨v, m₁, hv, -⟩ := EStateM.bind_eq_ok.1 h
      obtain ⟨hv, -⟩ := Module.reading_eq_ok.1 hv
      obtain ⟨t, ht⟩ := exists_shaderText hv
      exact ⟨t, makes_offset hv ht _⟩

/-- A modifier that can be made in one module can be made in every module with
properties of the same names, and the text of its offset is the same there. -/
theorem create_makes [Stack] {d : ModifierDef} {m m' : Module} {modifier : Modifier}
    (h : create types d m = .ok modifier m') : ∃ t, Makes m.propertyNames (create types d) t := by
  unfold create at h ⊢
  cases hf : types.lookup d.type with
  | none =>
    simp only [hf] at h
    cases h
  | some f =>
    obtain rfl := eq_factory_of_lookup hf
    simp only [hf] at h
    obtain ⟨made, m₁, hmade, h⟩ := EStateM.bind_eq_ok.1 h
    obtain ⟨t, hall⟩ := factory_makes hmade
    obtain ⟨_, _, hlog, -⟩ := EStateM.bind_eq_ok.1 h
    obtain ⟨hlog, -⟩ := Module.reading_eq_ok.1 hlog
    refine ⟨t, fun m₂ hm₂ => ?_⟩
    obtain ⟨e, m₃, hleaf, hattribute, ht, hm₃, ha⟩ := hall m₂ hm₂
    exact ⟨e, m₃, hleaf, hattribute, ht, EStateM.bind_eq_ok.2 ⟨_, m₃, hm₃,
      EStateM.bind_eq_ok.2 ⟨_, m₃, Module.reading_eq_ok.2 ⟨hlog, rfl⟩, rfl⟩⟩, ha⟩

theorem building_eq_ok {f : Build α} {m : Module} {w : Writer} {a : α} {q : Module × Writer} :
    building f (m, w) = .ok a q ↔ ∃ m', f m = .ok a m' ∧ q = (m', w) := by
  unfold building
  dsimp only
  cases f m with
  | ok b m' => simp [eq_comm]
  | error e m' => simp

end Modifier

namespace Compiler

open Writer

/-- The lines of the modifier with an offset. -/
def originStatements (offset : Text) : List Statement :=
  (Modifier.originLines Attribute.vector0.shaderText offset).map .line

theorem rendering_eq_ok {m : Module} {w : Writer} {h : ExprHandle} {t : Text} {q : Module × Writer} :
    Modifier.rendering h (m, w) = .ok t q ↔ ∃ w', eval m h w = .ok t w' ∧ q = (m, w') := by
  unfold Modifier.rendering
  dsimp only
  cases eval m h w with
  | ok t' w' => simp [eq_comm]
  | error e w' => simp

/-- A floating origin adds its lines, with the text that the offset has by then. -/
theorem apply_floatingOrigin_eq_ok [Stack] {m m' : Module} {w w' : Writer} (f : Serves m w → Faithful m w)
    {h : ExprHandle}
    (ha : (Modifier.floatingOrigin h).apply (m, w) = .ok () (m', w')) :
    m.Appends [.attribute .vector0] m' ∧ Ready m' w' ∧ w'.locals = w.locals ∧
      ∃ t, w'.rendering.texts.get? h.index = some t ∧
        w'.statements.toList = w.statements.toList ++ originStatements t := by
  obtain ⟨x, p₁, hbuilt, ha⟩ := EStateM.bind_eq_ok.1 ha
  obtain ⟨stored, p₂, hstored, ha⟩ := EStateM.bind_eq_ok.1 ha
  obtain ⟨offset, p₃, hoffset, ha⟩ := EStateM.bind_eq_ok.1 ha
  obtain ⟨m₁, hpush, happends⟩ := Modifier.push_leaf (e := .attribute .vector0) rfl (m := m) rfl
  obtain ⟨m₂, hpush', rfl⟩ := Modifier.building_eq_ok.1 hbuilt
  rw [Module.attr, hpush] at hpush'
  cases hpush'
  obtain ⟨w₁, hw₁, rfl⟩ := rendering_eq_ok.1 hstored
  obtain ⟨w₂, hw₂, rfl⟩ := rendering_eq_ok.1 hoffset
  cases ha
  have hserves : Serves m' w := (eval_eq_ok.1 hw₁).1
  replace f : Faithful m w := f fun key hk => (hserves key hk).trans happends.grows.key
  obtain ⟨r₁, hl₁, hst₁, ht₁⟩ := eval_text (f.grow happends.grows) hw₁
  obtain ⟨r₂, hl₂, hst₂, ht₂⟩ := eval_text r₁.faithful hw₂
  -- The stored offset is a new expression, so no local holds it.
  have hstored : stored = Attribute.vector0.shaderText := by
    have hfree : ∀ n, (⟨m.size⟩, n) ∉ w₁.locals := fun n hn => by
      rw [hl₁] at hn
      exact Nat.lt_irrefl _ (f.index_lt hn)
    obtain ⟨texts, -, ht⟩ := r₁.faithful.own_text ht₁ (happends.get (k := 0) rfl) hfree
    exact (Except.ok.inj ht).symm
  subst hstored
  refine ⟨happends, ⟨r₂.faithful.of_same rfl rfl, r₂.serves⟩, hl₂.trans hl₁, offset, ht₂, ?_⟩
  rw [← hst₁, ← hst₂, Array.toList_append]
  rfl

/-- Where the offset can be rendered, the floating origin can be applied. -/
theorem exists_apply_floatingOrigin [Stack] {m : Module} {w : Writer} (r : Ready m w) {h : ExprHandle}
    (hr : Renderable m h) : ∃ m' w', (Modifier.floatingOrigin h).apply (m, w) = .ok () (m', w') := by
  obtain ⟨m₁, hpush, happends⟩ := Modifier.push_leaf (e := .attribute .vector0) rfl (m := m) rfl
  have hbuilt : Modifier.building (Module.attr .vector0) (m, w) = .ok ⟨m.size⟩ (m₁, w) :=
    Modifier.building_eq_ok.2 ⟨m₁, hpush, rfl⟩
  have r₁ := r.grow happends.grows
  obtain ⟨stored, w₁, hw₁⟩ := r₁.exists_eval (h := ⟨m.size⟩)
    (.intro (happends.get (k := 0) rfl) (by simp [Expr.children]) fun ts => ⟨_, rfl⟩)
  obtain ⟨r₂, -⟩ := eval_text r₁.faithful hw₁
  obtain ⟨offset, w₂, hw₂⟩ := r₂.exists_eval (hr.grow happends.grows)
  exact ⟨m₁, _, EStateM.bind_eq_ok.2 ⟨_, _, hbuilt, EStateM.bind_eq_ok.2 ⟨_, _, rendering_eq_ok.2 ⟨w₁, hw₁, rfl⟩,
    EStateM.bind_eq_ok.2 ⟨_, _, rendering_eq_ok.2 ⟨w₂, hw₂, rfl⟩, rfl⟩⟩⟩⟩

/-- A floating origin whose offset has no operands and no local adds its lines. -/
theorem apply_floatingOrigin [Stack] {m : Module} {w : Writer} (r : Ready m w) {h : ExprHandle} {e : Expr} {t : Text}
    (he : m.get h = .ok e) (hleaf : e.children = []) (ht : e.render m [] = .ok t) (hl : ∀ n, (h, n) ∉ w.locals) :
    ∃ m' w', (Modifier.floatingOrigin h).apply (m, w) = .ok () (m', w') ∧
      m.Appends [.attribute .vector0] m' ∧ Ready m' w' ∧
      w'.statements.toList = w.statements.toList ++ originStatements t := by
  obtain ⟨m', w', happly⟩ :=
    exists_apply_floatingOrigin r (.intro he (by simp [hleaf]) (Expr.render_ok_of_ok ht))
  obtain ⟨happends, r', hlocals, t', ht', hst⟩ := apply_floatingOrigin_eq_ok (fun _ => r.faithful) happly
  obtain ⟨texts, -, hr⟩ := r'.faithful.own_text ht' (happends.grows.get he) (by rwa [hlocals])
  rw [hleaf, List.map_nil, Expr.render_grows happends.grows ht] at hr
  cases hr
  exact ⟨m', w', happly, happends, r', hst⟩

section

variable [Stack] {c : Compiler} {names : List Text} {d : ModifierDef} {t : Text} {m : Module} {w : Writer}

/-- A modifier that can be made adds its lines. -/
theorem applyModifier_makes (hc : c.modifiers = Modifier.types)
    (hmakes : Modifier.Makes names (Modifier.create Modifier.types d) t) (hm : names ⊆ m.propertyNames)
    (r : Ready m w) :
    ∃ e m' w', c.applyModifier d (m, w) = .ok [.position, .vector0] (m', w') ∧ (∀ a, e ≠ .attribute a) ∧
      m.Appends [e, .attribute .vector0] m' ∧ Ready m' w' ∧
      w'.statements.toList = w.statements.toList ++ originStatements t := by
  obtain ⟨e, m₁, hleaf, hattribute, ht, hcreate, ha₁⟩ := hmakes m hm
  have hnew : ∀ n, (⟨m.size⟩, n) ∉ w.locals := fun n hn => Nat.lt_irrefl _ (r.faithful.index_lt hn)
  obtain ⟨m₂, w₂, happly, ha₂, r₂, hst⟩ :=
    apply_floatingOrigin (r.grow ha₁.grows) (ha₁.get (k := 0) rfl) hleaf (Expr.render_grows ha₁.grows ht) hnew
  have hbuilt : Modifier.building (Modifier.create c.modifiers d) (m, w) =
      .ok (.floatingOrigin ⟨m.size⟩) (m₁, w) := by
    rw [hc]
    exact Modifier.building_eq_ok.2 ⟨m₁, hcreate, rfl⟩
  refine ⟨e, m₂, w₂, EStateM.bind_eq_ok.2 ⟨_, _, hbuilt, ?_⟩, hattribute, ha₁.trans ha₂, r₂, hst⟩
  rw [if_neg (by simp [Modifier.pass])]
  exact EStateM.bind_eq_ok.2 ⟨_, _, happly, rfl⟩

end

/-- Lines of floating origins, whose offsets modifiers of some definitions have. -/
def OriginLines [Stack] (names : List Text) (ds : List ModifierDef) (lines : List Statement) : Prop :=
  ∀ s ∈ lines, ∃ d ∈ ds, ∃ t, Modifier.Makes names (Modifier.create Modifier.types d) t ∧ s ∈ originStatements t

/-- What the modifiers of some definitions write does not depend on the module,
apart from the names of its properties, nor on the writer. The attributes that
they add expressions for are among those that they touch, and their lines are those of
floating origins. -/
theorem applyModifiers_makes [Stack] {c : Compiler} (hc : c.modifiers = Modifier.types) {names : List Text}
    {ds : List ModifierDef} (hall : ∀ d ∈ ds, ∃ t, Modifier.Makes names (Modifier.create Modifier.types d) t) :
    ∃ lines touched, OriginLines names ds lines ∧ ∀ (m : Module) (w : Writer), names ⊆ m.propertyNames → Ready m w →
      ∃ es m' w', c.applyModifiers ds (m, w) = .ok touched (m', w') ∧ m.Appends es m' ∧
        (∀ a, .attribute a ∈ es → a ∈ touched) ∧ w'.statements.toList = w.statements.toList ++ lines := by
  have hloop : ∃ lines touched, OriginLines names ds lines ∧
      ∀ (m : Module) (w : Writer), names ⊆ m.propertyNames → Ready m w →
      ∃ es m' w', ds.mapM (applyModifier c) (m, w) = .ok touched (m', w') ∧ m.Appends es m' ∧
        (∀ a, .attribute a ∈ es → a ∈ touched.flatten) ∧ w'.statements.toList = w.statements.toList ++ lines := by
    induction ds with
    | nil => exact ⟨[], [], by simp [OriginLines], fun m w _ _ => ⟨[], m, w, rfl, .refl m, by simp, by simp⟩⟩
    | cons d ds ih =>
      obtain ⟨t, hmakes⟩ := hall d List.mem_cons_self
      obtain ⟨lines, touched, hlines, hrest⟩ := ih fun d hd => hall d (List.mem_cons_of_mem _ hd)
      refine ⟨originStatements t ++ lines, [.position, .vector0] :: touched, fun s hs => ?_, fun m w hm r => ?_⟩
      · rcases List.mem_append.1 hs with hs | hs
        · exact ⟨d, List.mem_cons_self, t, hmakes, hs⟩
        · obtain ⟨d', hd', hline⟩ := hlines s hs
          exact ⟨d', List.mem_cons_of_mem _ hd', hline⟩
      obtain ⟨e, m₁, w₁, h₁, hattribute, ha₁, r₁, hst₁⟩ := applyModifier_makes hc hmakes hm r
      have hm₁ : names ⊆ m₁.propertyNames := by
        rwa [Module.propertyNames, ha₁.properties]
      obtain ⟨es, m₂, w₂, h₂, ha₂, hes, hst₂⟩ := hrest m₁ w₁ hm₁ r₁
      refine ⟨_, m₂, w₂, EStateM.mapM_cons_eq_ok.2 ⟨_, _, _, h₁, h₂, rfl⟩, ha₁.trans ha₂, fun a ha => ?_, ?_⟩
      · rcases List.mem_append.1 ha with ha | ha
        · simp only [List.mem_cons, Ne.symm (hattribute a), Expr.attribute.injEq, List.not_mem_nil, or_false,
            false_or] at ha
          simp [ha]
        · exact List.mem_append_right _ (hes a ha)
      · rw [hst₂, hst₁, List.append_assoc]
  obtain ⟨lines, touched, hlines, hloop⟩ := hloop
  refine ⟨lines, touched.flatten, hlines, fun m w hm r => ?_⟩
  obtain ⟨es, m', w', h, ha, hes, hst⟩ := hloop m w hm r
  exact ⟨es, m', w', EStateM.bind_eq_ok.2 ⟨touched, (m', w'), h, rfl⟩, ha, hes, hst⟩

theorem properties_rendering {h : ExprHandle} {p q : Module × Writer} {t : Text}
    (hr : Modifier.rendering h p = .ok t q) : q.1.properties = p.1.properties := by
  unfold Modifier.rendering at hr
  dsimp only at hr
  split at hr
  · cases hr
    rfl
  · cases hr

theorem keptByCode_properties [Stack] : KeptByCode fun p q => q.1.properties = p.1.properties where
  refl _ := rfl
  trans h h' := h'.trans h
  push {p q h} hp := by
    obtain ⟨m, hadded, rfl⟩ := Modifier.building_eq_ok.1 hp
    obtain ⟨m', hadded', ha⟩ := Modifier.push_leaf (e := .attribute .vector0) rfl (m := p.1) rfl
    rw [Module.attr, hadded'] at hadded
    cases hadded
    exact ha.properties
  render := properties_rendering
  write _ _ _ _ := rfl

/-- Modifiers whose code was added could be made. -/
theorem makes_of_applyModifiers [Stack] {c : Compiler} (hc : c.modifiers = Modifier.types) {ds : List ModifierDef}
    {p q : Module × Writer} {touched : List Attribute} (h : c.applyModifiers ds p = .ok touched q) :
    ∀ d ∈ ds, ∃ t, Modifier.Makes p.1.propertyNames (Modifier.create Modifier.types d) t := by
  obtain ⟨as, p₁, hloop, -⟩ := EStateM.bind_eq_ok.1 h
  clear h
  induction ds generalizing p as with
  | nil => simp
  | cons d ds ih =>
    obtain ⟨m, w⟩ := p
    obtain ⟨a, as', p₂, hd, hds, -⟩ := EStateM.mapM_cons_eq_ok.1 hloop
    obtain ⟨modifier, p₃, hbuilt, hd⟩ := EStateM.bind_eq_ok.1 hd
    rw [hc] at hbuilt
    obtain ⟨m₁, hcreate, rfl⟩ := Modifier.building_eq_ok.1 hbuilt
    obtain ⟨t, hmakes⟩ := Modifier.create_makes hcreate
    -- Neither making a modifier nor adding its code touches the properties.
    obtain ⟨e, m₂, -, -, -, hcreate', ha⟩ := hmakes m (List.Subset.refl _)
    rw [hcreate] at hcreate'
    cases hcreate'
    have hproperties : p₂.1.properties = m.properties := by
      split at hd
      · cases hd
      · obtain ⟨_, p₄, happly, hd⟩ := EStateM.bind_eq_ok.1 hd
        cases hd
        exact (keptByCode_properties.apply happly).trans ha.properties
    intro d' hd'
    rcases List.mem_cons.1 hd' with rfl | hd'
    · exact ⟨t, hmakes⟩
    · have hrest := ih as' hds d' hd'
      rwa [Module.propertyNames, hproperties] at hrest

end Compiler

end EffectGraph
