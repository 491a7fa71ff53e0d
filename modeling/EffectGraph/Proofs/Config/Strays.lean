import EffectGraph.Config.Merge
import EffectGraph.Proofs.Data.Showing
import EffectGraph.Proofs.Effect.Refusals

/-!
# How merging strays

Faults of graph files are reported: the command answers them with an exit code. A
few errors are not, and the command itself fails with them; these stray. Merging
strays when an integer is too large to become a float, and when data must be shown
or compared that is nested too deep (`Config.Strays`, `merge_error`).
-/

namespace EffectGraph

variable [Stack]

/-! ## Data that is nested too deep -/

theorem Error.about_of_depth (ds : List Data) (h : ds.findSome? Data.obstacle? = some .depth) (e : Error) :
    about ds e = .deepData := if_pos h

/-- An error that shows data is reported, unless the data is nested too deep. -/
theorem Error.kind_about (ds : List Data) {e : Error} (h : e.kind = .invalid) :
    (about ds e).kind = .invalid ∨ ds.findSome? Data.obstacle? = some .depth ∧ about ds e = .deepData := by
  by_cases hdeep : ds.findSome? Data.obstacle? = some .depth
  · exact .inr ⟨hdeep, about_of_depth ds hdeep e⟩
  · rw [about, if_neg hdeep]
    exact .inl h

/-! ## Scalars -/

namespace Literal

/-- How a scalar fails that is not reported. -/
inductive ScalarStrays (t : ScalarType) : Data → Error → Prop
  | large {i : Int} : t ≠ .bool → Binary64.ofInt? i = none → ScalarStrays t (.int i) .intTooLarge
  | deep {raw : Data} : raw.obstacle? = some .depth → ScalarStrays t raw .deepData

variable {t : ScalarType} {raw : Data} {e : Error}

theorem strays_of_about {e' : Error} (hkind : e'.kind = .invalid) (h : Error.about [raw] e' = e) :
    e.kind = .invalid ∨ ScalarStrays t raw e := by
  rcases Error.kind_about [raw] hkind with hinvalid | ⟨hdeep, habout⟩
  · exact .inl (h ▸ hinvalid)
  · rw [List.findSome?_singleton] at hdeep
    rw [← h, habout]
    exact .inr (.deep hdeep)

omit [Stack] in
/-- Where the number at hand is known as a float, an integer type refuses it for its
value only: it has a fraction or a sign. -/
theorem kind_of_coerceInteger {x : Binary64} {b : Bool} (hbelow : raw.belowZero = .ok b)
    (hint : x.isInteger → ∃ i, raw.toInt = .ok i) (h : coerceInteger t raw x = .error e) : e.kind = .invalid := by
  unfold coerceInteger at h
  by_cases hx : x.isInteger
  · obtain ⟨i, hi⟩ := hint hx
    simp only [hx, hbelow, hi, bind, Except.bind, Bool.not_true, Bool.false_eq_true, if_false] at h
    split at h
    all_goals cases h
    rfl
  · simp only [hx] at h
    cases h
    rfl

omit [Stack] in
theorem exists_intOfFloat {x : Binary64} (hx : x.isInteger) : ∃ i, intOfFloat x = .ok i := by
  cases x with
  | finite _ _ _ _ => exact ⟨_, rfl⟩
  | inf _ | nan _ => cases hx

theorem coerceScalar_error (h : coerceScalar t raw = .error e) : e.kind = .invalid ∨ ScalarStrays t raw e := by
  unfold coerceScalar at h
  split at h
  · cases h
  · exact strays_of_about rfl (Except.error.inj h)
  · rcases Except.bind_eq_error.1 h with h | ⟨_, _, h⟩
    · obtain ⟨hi, rfl⟩ := floatOfInt_eq_error.1 h
      exact .inr (.large (by decide) hi)
    · cases h
  · cases h
  · next hbool _ =>
    rcases Except.bind_eq_error.1 h with h | ⟨x, _, h⟩
    · obtain ⟨hi, rfl⟩ := floatOfInt_eq_error.1 h
      exact .inr (.large hbool hi)
    · exact .inl (kind_of_coerceInteger rfl (fun _ => ⟨_, rfl⟩) h)
  · exact .inl (kind_of_coerceInteger rfl exists_intOfFloat h)
  · exact strays_of_about rfl (Except.error.inj h)

theorem ScalarStrays.coerceScalar_eq (h : ScalarStrays t raw e) : coerceScalar t raw = .error e := by
  cases h with
  | large ht hi =>
    have hi' := floatOfInt_eq_error.2 ⟨hi, rfl⟩
    cases t with
    | bool => exact absurd rfl ht
    | f32 | i32 | u32 => simp only [coerceScalar, hi', bind, Except.bind]
  | deep hdeep =>
    have habout : ∀ e, Error.about [raw] e = .deepData := Error.about_of_depth [raw] (by simpa using hdeep)
    unfold coerceScalar
    split
    case h_2 | h_7 => rw [habout]
    all_goals exact absurd hdeep (Data.obstacle?_ne_depth rfl)

theorem ScalarStrays.kind (h : ScalarStrays t raw e) : e.kind = .overflow ∨ e.kind = .recursion := by
  cases h with
  | large _ _ => exact .inl rfl
  | deep _ => exact .inr rfl

/-! ## Values -/

/-- How the value of a property with a declared type fails that is not reported. -/
inductive ValueStrays (type : Text) (raw : Data) : Error → Prop
  | scalar {t : ScalarType} {e : Error} : ValueType.ofName type = .ok (.scalar t) → ScalarStrays t raw e →
      ValueStrays type raw e
  | component {v : VectorType} {done rest : List Data} {x : Data} {e : Error} :
      ValueType.ofName type = .ok (.vector v) → raw.items? = some (done ++ x :: rest) →
      (done ++ x :: rest).length = v.count → (∀ y ∈ done, ∃ z, coerceScalar v.elem y = .ok z) →
      ScalarStrays v.elem x e → ValueStrays type raw e
  | count {v : VectorType} : ValueType.ofName type = .ok (.vector v) →
      (∀ items, raw.items? = some items → items.length ≠ v.count) → raw.obstacle? = some .depth →
      ValueStrays type raw .deepData

omit [Stack] in
theorem kind_of_ofName {type : Text} (h : ValueType.ofName type = .error e) : e.kind = .invalid := by
  unfold ValueType.ofName at h
  dsimp only at h
  split at h
  · cases h
  · split at h
    · next count elem _ =>
      cases hparts : ValueType.ofParts count elem with
      | ok t =>
        rw [hparts] at h
        cases h
      | error cause =>
        rw [hparts] at h
        cases h
        rfl
    · cases h
      rfl

omit [Stack] in
theorem kind_of_inferScalar (h : inferScalar raw = .error e) : e.kind = .mistyped := by
  unfold inferScalar at h
  split at h
  all_goals cases h
  rfl

omit [Stack] in
/-- Without a declared type, a value fails for its kind only. -/
theorem kind_of_of (h : Literal.of raw = .error e) : e.kind = .invalid ∨ e.kind = .mistyped := by
  have hcomponents : ∀ {xs}, ofComponents xs = .error e → e.kind = .invalid ∨ e.kind = .mistyped := by
    intro xs h
    unfold ofComponents at h
    split at h
    · rcases Except.bind_eq_error.1 h with h | ⟨types, -, h⟩
      · obtain ⟨_, _, _, -, -, hx⟩ := Except.mapM_eq_error.1 h
        exact .inr (kind_of_inferScalar hx)
      · rcases Except.bind_eq_error.1 h with h | ⟨_, -, h⟩
        · unfold commonScalar at h
          split at h
          · cases h
          · split at h
            all_goals cases h
            exact .inr rfl
        · cases h
    · cases h
      exact .inl rfl
  unfold Literal.of at h
  split at h
  · cases h
  · exact hcomponents h
  · exact hcomponents h
  · rcases Except.bind_eq_error.1 h with h | ⟨_, -, h⟩
    · exact .inr (kind_of_inferScalar h)
    · cases h

theorem ofValue_some (type : Text) (raw : Data) : ofValue (some (.str type)) raw =
    ValueType.ofName type >>= fun t => coerce (Data.str type).display t raw := rfl

omit [Stack] in
theorem filter_items? {n : Nat} : raw.items?.filter (·.length == n) = none ↔
    ∀ items, raw.items? = some items → items.length ≠ n := by
  simp [Option.filter_eq_none_iff]

theorem ofValue_error {type : Text} (h : ofValue (some (.str type)) raw = .error e) :
    e.kind = .invalid ∨ ValueStrays type raw e := by
  rw [ofValue_some] at h
  rcases Except.bind_eq_error.1 h with h | ⟨t, ht, h⟩
  · exact .inl (kind_of_ofName h)
  cases t with
  | scalar t =>
    rcases Except.bind_eq_error.1 h with h | ⟨_, _, h⟩
    · exact (coerceScalar_error h).imp_right (.scalar ht)
    · cases h
  | vector v =>
    unfold coerce at h
    cases hitems : raw.items?.filter (·.length == v.count) with
    | some items =>
      simp only [hitems] at h
      obtain ⟨hsome, hlength⟩ := Option.filter_eq_some_iff.1 hitems
      rcases Except.bind_eq_error.1 h with h | ⟨_, _, h⟩
      · obtain ⟨done, x, rest, rfl, hdone, hx⟩ := Except.mapM_eq_error.1 h
        exact (coerceScalar_error hx).imp_right (.component ht hsome (eq_of_beq hlength) hdone)
      · cases h
    | none =>
      simp only [hitems] at h
      cases h
      rcases Error.kind_about [raw] (e := .expectedComponents v.count (Data.str type).display raw) rfl with
        hinvalid | ⟨hdeep, habout⟩
      · exact .inl hinvalid
      · rw [habout]
        exact .inr (.count ht (filter_items?.1 hitems) (by simpa using hdeep))

theorem ValueStrays.ofValue_eq {type : Text} (h : ValueStrays type raw e) :
    ofValue (some (.str type)) raw = .error e := by
  rw [ofValue_some]
  cases h with
  | scalar ht h =>
    rw [ht]
    simp only [bind, Except.bind, coerce, h.coerceScalar_eq]
  | @component v done rest x e ht hitems hlength hdone h =>
    have hfilter : raw.items?.filter (·.length == v.count) = some (done ++ x :: rest) := by
      rw [hitems, Option.filter_some_pos (by simpa using hlength)]
    rw [ht]
    simp only [bind, Except.bind, coerce, hfilter]
    rw [Except.mapM_eq_error.2 ⟨done, x, rest, rfl, hdone, h.coerceScalar_eq⟩]
  | count ht hcount hdeep =>
    rw [ht]
    simp only [bind, Except.bind, coerce, filter_items?.2 hcount]
    rw [Error.about_of_depth [raw] (by simpa using hdeep)]

theorem ValueStrays.kind {type : Text} (h : ValueStrays type raw e) : e.kind = .overflow ∨ e.kind = .recursion := by
  cases h with
  | scalar _ h => exact h.kind
  | component _ _ _ _ h => exact h.kind
  | count _ _ _ => exact .inr rfl

end Literal

/-! ## Nodes and properties -/

namespace Config

open Literal

/-- Errors about the value of a property are reported with its name, mistyped ones
too. What is left over strays. -/
theorem literal_error {p : PropertyConfig} {e : Error} (h : p.literal = .error e) :
    e.kind = .invalid ∨ ∃ type, p.type = some type ∧ ValueStrays type p.value e := by
  unfold PropertyConfig.literal at h
  cases hv : ofValue (p.type.map fun t => .str t) p.value with
  | ok v => simp [hv] at h
  | error e' =>
    simp only [hv, Except.error.injEq] at h
    have hcases : (e'.kind = .invalid ∨ e'.kind = .mistyped) ∨
        ∃ type, p.type = some type ∧ ValueStrays type p.value e' := by
      cases htype : p.type with
      | none =>
        rw [htype] at hv
        exact .inl (kind_of_of hv)
      | some type =>
        rw [htype] at hv
        exact (ofValue_error hv).imp .inl fun h => ⟨type, rfl, h⟩
    rcases hcases with hkind | ⟨type, htype, hstrays⟩
    · rw [if_pos hkind] at h
      rw [← h]
      exact .inl rfl
    · rw [if_neg (by rcases hstrays.kind with h | h <;> simp [h])] at h
      rw [← h]
      exact .inr ⟨type, htype, hstrays⟩

theorem literal_of_strays {p : PropertyConfig} {type : Text} {e : Error} (htype : p.type = some type)
    (h : ValueStrays type p.value e) : p.literal = .error e := by
  have hv : ofValue (p.type.map fun t => .str t) p.value = .error e := by
    rw [htype]
    exact h.ofValue_eq
  unfold PropertyConfig.literal
  rw [hv]
  simp only
  rw [if_neg (by rcases h.kind with h | h <;> simp [h])]

/-- How two nodes of one identifier fail that is not reported. -/
inductive ClashStrays (first second : NodeDef) : Error → Prop
  | endless : sameNode? first second = none → ClashStrays first second .endlessComparison
  | deep : sameNode? first second = some false →
      [Data.map first.params, .map second.params].findSome? Data.obstacle? = some .depth →
      ClashStrays first second .deepData

theorem ClashStrays.kind {first second : NodeDef} {e : Error} (h : ClashStrays first second e) :
    e.kind = .recursion := by
  cases h <;> rfl

theorem addNode_error {d : Definition} {n : NodeDef} {e : Error} (h : addNode d n = .error e) :
    e.kind = .invalid ∨ ∃ first, d.nodes.find? (·.id == n.id) = some first ∧ ClashStrays first n e := by
  unfold addNode at h
  split at h
  · cases h
  · next first hfirst =>
    split at h
    · cases h
    · next hsame =>
      cases h
      rcases Error.kind_about [.map first.params, .map n.params] (e := .conflict first n) rfl with
        hinvalid | ⟨hdeep, habout⟩
      · exact .inl hinvalid
      · rw [habout]
        exact .inr ⟨first, hfirst, .deep hsame hdeep⟩
    · next hsame =>
      cases h
      exact .inr ⟨first, hfirst, .endless hsame⟩

theorem addNode_of_strays {d : Definition} {n first : NodeDef} {e : Error}
    (hfirst : d.nodes.find? (·.id == n.id) = some first) (h : ClashStrays first n e) : addNode d n = .error e := by
  unfold addNode
  rw [hfirst]
  cases h with
  | endless hsame => simp only [hsame]
  | deep hsame hdeep => simp only [hsame, Error.about_of_depth _ hdeep]

theorem addProperty_error {d : Definition} {p : PropertyConfig} {e : Error} (h : addProperty d p = .error e) :
    e.kind = .invalid ∨ d.properties.lookup p.name = none ∧
      ∃ type, p.type = some type ∧ ValueStrays type p.value e := by
  unfold addProperty at h
  split at h
  · cases h
    exact .inl rfl
  · next hnew =>
    rcases Except.bind_eq_error.1 h with h | ⟨_, _, h⟩
    · exact (literal_error h).imp_right fun h => ⟨Option.not_isSome_iff_eq_none.1 hnew, h⟩
    · cases h

theorem addProperty_of_strays {d : Definition} {p : PropertyConfig} {type : Text} {e : Error}
    (hnew : d.properties.lookup p.name = none) (htype : p.type = some type) (h : ValueStrays type p.value e) :
    addProperty d p = .error e := by
  unfold addProperty
  rw [hnew]
  exact Except.bind_eq_error.2 (.inl (literal_of_strays htype h))

omit [Stack] in
theorem kind_of_addOutput {d : Definition} {o : OutputConfig} {e : Error} (h : addOutput d o = .error e) :
    e.kind = .invalid := by
  unfold addOutput at h
  split at h
  · cases h
    rfl
  · rcases Except.bind_eq_error.1 h with h | ⟨_, _, h⟩
    · rw [slotRef_eq_error h]
      rfl
    · cases h

/-! ## Merging -/

/-- How the merging of files fails that is not reported. -/
inductive Strays (name : String) (configs : List GraphConfig) : Error → Prop
  | node {before after : List GraphConfig} {c : GraphConfig} {d d₁ : Definition} {ns rest : List NodeDef}
      {first n : NodeDef} {e : Error} :
      configs = before ++ c :: after → merge name before = .ok d →
      c.nodes = ns ++ n :: rest → ns.foldlM addNode d = .ok d₁ →
      d₁.nodes.find? (·.id == n.id) = some first → ClashStrays first n e → Strays name configs e
  | property {before after : List GraphConfig} {c : GraphConfig} {d d₁ d₂ : Definition}
      {ps rest : List PropertyConfig} {p : PropertyConfig} {type : Text} {e : Error} :
      configs = before ++ c :: after → merge name before = .ok d → c.nodes.foldlM addNode d = .ok d₁ →
      c.properties = ps ++ p :: rest → ps.foldlM addProperty (c.links.foldl addLink d₁) = .ok d₂ →
      d₂.properties.lookup p.name = none → p.type = some type → ValueStrays type p.value e → Strays name configs e

variable {name : String} {configs : List GraphConfig} {e : Error}

theorem Strays.kind (h : Strays name configs e) : e.kind = .overflow ∨ e.kind = .recursion := by
  cases h with
  | node _ _ _ _ _ h => exact .inr h.kind
  | property _ _ _ _ _ _ _ h => exact h.kind

/-- Merging fails in a way that is reported, or it strays. -/
theorem merge_error (h : merge name configs = .error e) : e.kind = .invalid ∨ Strays name configs e := by
  obtain ⟨before, c, after, d, hsplit, hbefore, hc⟩ := Except.foldlM_eq_error.1 h
  rcases Except.bind_eq_error.1 hc with hc | ⟨d₁, hnodes, hc⟩
  · obtain ⟨ns, n, rest, d₁, hns, hdone, hn⟩ := Except.foldlM_eq_error.1 hc
    exact (addNode_error hn).imp_right fun ⟨first, hfirst, h⟩ => .node hsplit hbefore hns hdone hfirst h
  rcases Except.bind_eq_error.1 hc with hc | ⟨d₂, hproperties, hc⟩
  · obtain ⟨ps, p, rest, d₂, hps, hdone, hp⟩ := Except.foldlM_eq_error.1 hc
    exact (addProperty_error hp).imp_right fun ⟨hnew, type, htype, h⟩ =>
      .property hsplit hbefore hnodes hps hdone hnew htype h
  rcases Except.bind_eq_error.1 hc with hc | ⟨d₃, houtputs, hc⟩
  · obtain ⟨_, o, _, _, _, _, ho⟩ := Except.foldlM_eq_error.1 hc
    exact .inl (kind_of_addOutput ho)
  · cases hc

theorem Strays.merge_eq (h : Strays name configs e) : merge name configs = .error e := by
  cases h with
  | node hsplit hbefore hns hdone hfirst h =>
    have hnodes := Except.foldlM_eq_error.2 ⟨_, _, _, _, hns, hdone, addNode_of_strays hfirst h⟩
    exact Except.foldlM_eq_error.2 ⟨_, _, _, _, hsplit, hbefore, Except.bind_eq_error.2 (.inl hnodes)⟩
  | property hsplit hbefore hnodes hps hdone hnew htype h =>
    have hproperties := Except.foldlM_eq_error.2 ⟨_, _, _, _, hps, hdone, addProperty_of_strays hnew htype h⟩
    exact Except.foldlM_eq_error.2 ⟨_, _, _, _, hsplit, hbefore, Except.bind_eq_error.2
      (.inr ⟨_, hnodes, Except.bind_eq_error.2 (.inl hproperties)⟩)⟩

end Config
end EffectGraph
