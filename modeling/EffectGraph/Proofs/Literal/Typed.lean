import EffectGraph.Literal
import EffectGraph.Proofs.Work

/-!
# Well-typed literals

A literal made from plain data or from parts of a known type holds what its type says
(`Literal.Made.typed`): a scalar of that type, or as many of them as the vector counts.
Only a vector of floats made from plain data may hold integers, among its floats.
-/

namespace EffectGraph

theorem floatOfInt_eq_ok {i : Int} {x : Binary64} : floatOfInt i = .ok x ↔ Binary64.ofInt? i = some x := by
  unfold floatOfInt
  split <;> simp_all

theorem floatOfInt_eq_error {i : Int} {e : Error} :
    floatOfInt i = .error e ↔ Binary64.ofInt? i = none ∧ e = .intTooLarge := by
  unfold floatOfInt
  cases Binary64.ofInt? i with
  | none => simp [eq_comm]
  | some x => simp

/-- Data that is a scalar of a type. -/
inductive ScalarType.Holds : ScalarType → Data → Prop
  | bool (b : Bool) : Holds .bool (.bool b)
  | i32 (i : Int) : Holds .i32 (.int i)
  | u32 {i : Int} : 0 ≤ i → Holds .u32 (.int i)
  | f32 (x : Binary64) : Holds .f32 (.float x)

/-- Data that are components of a vector with elements of a type. -/
inductive ScalarType.HoldsAll (t : ScalarType) (items : List Data) : Prop
  | same : (∀ x ∈ items, t.Holds x) → HoldsAll t items
  | mixed : t = .f32 → (∀ x ∈ items, ScalarType.i32.Holds x ∨ ScalarType.f32.Holds x) →
      (∃ x ∈ items, ScalarType.f32.Holds x) → HoldsAll t items

namespace Literal

/-- A literal that holds what its type says. -/
inductive Typed : Literal → Prop
  | scalar {t : ScalarType} {d : Data} : t.Holds d → Typed ⟨d, .scalar t⟩
  | vector {v : VectorType} {items : List Data} : items.length = v.count → v.elem.HoldsAll items →
      Typed ⟨.tuple items, .vector v⟩

/-- A literal that is made from plain data, not itself a literal, or from parts of a
known type. -/
inductive Made : Literal → Prop
  | of {d : Data} {v : Literal} : (∀ u t, d.expose ≠ .literal u t) → Literal.of d = .ok v → Made v
  | f32 {d : Data} {v : Literal} : Literal.f32 d = .ok v → Made v
  | u32 {d : Data} {v : Literal} : Literal.u32 d = .ok v → Made v
  | vec2 {x y : Data} {v : Literal} : Literal.vec2 x y = .ok v → Made v
  | vec3 {x y z : Data} {v : Literal} : Literal.vec3 x y z = .ok v → Made v
  | vec4 {x y z w : Data} {v : Literal} : Literal.vec4 x y z w = .ok v → Made v

/-! ## Plain data -/

theorem holds_of_inferScalar {d : Data} {t : ScalarType} (h : inferScalar d = .ok t) : t.Holds d ∧ t ≠ .u32 := by
  unfold inferScalar at h
  split at h
  · cases h
    exact ⟨.bool _, by decide⟩
  · cases h
    exact ⟨.i32 _, by decide⟩
  · cases h
    exact ⟨.f32 _, by decide⟩
  · cases h

/-- A type shared by all components is theirs; else there are floats among them, and no
truth values. -/
theorem commonScalar_eq_ok {types : List ScalarType} {t : ScalarType} (hne : types ≠ [])
    (hu : .u32 ∉ types) (h : commonScalar types = .ok t) :
    (∀ s ∈ types, s = t) ∨ t = .f32 ∧ .bool ∉ types ∧ .f32 ∈ types := by
  unfold commonScalar at h
  split at h
  · next s hs =>
    cases h
    refine .inl fun s hmem => ?_
    have hmem := List.mem_eraseDups.2 hmem
    rwa [hs, List.mem_singleton] at hmem
  · next hmany =>
    split at h
    · cases h
    · next hbool =>
      cases h
      have hbool : .bool ∉ types := by simpa using hbool
      refine .inr ⟨rfl, hbool, ?_⟩
      by_contra hfloat
      have hall : ∀ s ∈ types.eraseDups, s = .i32 := by
        intro s hs
        have hs := List.mem_eraseDups.1 hs
        cases s
        case i32 => rfl
        all_goals contradiction
      have hrep := List.eq_replicate_of_mem hall
      have hnodup := nodup_eraseDups types
      rw [hrep, List.nodup_replicate] at hnodup
      have hpos : types.eraseDups.length ≠ 0 := by
        obtain ⟨s, hs⟩ := List.exists_mem_of_ne_nil types hne
        exact Nat.ne_of_gt (List.length_pos_of_mem (List.mem_eraseDups.2 hs))
      have hone : types.eraseDups.length = 1 := by omega
      rw [hone] at hrep
      exact hmany _ hrep

theorem typed_of_ofComponents {items : List Data} {v : Literal} (h : ofComponents items = .ok v) : v.Typed := by
  unfold ofComponents at h
  split at h
  · next hlen =>
    obtain ⟨types, htypes, h⟩ := Except.bind_eq_ok.1 h
    obtain ⟨t, ht, h⟩ := Except.bind_eq_ok.1 h
    cases h
    have hne : types ≠ [] := by
      rintro rfl
      have := (Except.mapM_eq_ok.1 htypes).length_eq
      rw [List.length_nil] at this
      omega
    have hu : .u32 ∉ types := by
      intro hmem
      obtain ⟨x, -, hx⟩ := Except.exists_of_mem_mapM htypes hmem
      exact (holds_of_inferScalar hx).2 rfl
    refine .vector rfl ?_
    rcases commonScalar_eq_ok hne hu ht with hsame | ⟨rfl, hbool, hfloat⟩
    · refine .same fun x hx => ?_
      obtain ⟨s, hs, hinfer⟩ := Except.exists_of_mapM_mem htypes hx
      exact hsame s hs ▸ (holds_of_inferScalar hinfer).1
    · refine .mixed rfl (fun x hx => ?_) ?_
      · obtain ⟨s, hs, hinfer⟩ := Except.exists_of_mapM_mem htypes hx
        have hx := (holds_of_inferScalar hinfer).1
        cases s
        case i32 => exact .inl hx
        case f32 => exact .inr hx
        all_goals contradiction
      · obtain ⟨x, hx, hinfer⟩ := Except.exists_of_mem_mapM htypes hfloat
        exact ⟨x, hx, (holds_of_inferScalar hinfer).1⟩
  · cases h

theorem typed_of_of {d : Data} {v : Literal} (hd : ∀ u t, d.expose ≠ .literal u t) (h : Literal.of d = .ok v) :
    v.Typed := by
  unfold Literal.of at h
  split at h
  · next u t hlit => exact absurd hlit (hd u t)
  · exact typed_of_ofComponents h
  · exact typed_of_ofComponents h
  · obtain ⟨t, ht, h⟩ := Except.bind_eq_ok.1 h
    cases h
    exact .scalar (holds_of_inferScalar ht).1

/-! ## Parts of a known type -/

theorem nonneg_of_belowZero {d : Data} {i : Int} (hbelow : d.belowZero = .ok false) (hi : d.toInt = .ok i) :
    0 ≤ i := by
  cases d with
  | int j =>
    cases hi
    simpa [Data.belowZero] using hbelow
  | bool b =>
    cases hi
    cases b <;> decide
  | float x =>
    cases x with
    | finite neg m e fits =>
      cases hi
      have hneg : neg = false ∨ m = 0 := by
        simpa [Data.belowZero, Binary64.isNegative, or_iff_not_imp_left] using hbelow
      rcases hneg with rfl | rfl
      · exact Int.natCast_nonneg _
      · simp [Binary64.truncate?, Binary64.magnitude, Binary64.signed]
    | inf _ | nan _ => cases hi
  | _ => cases hbelow

theorem typed_of_u32 {d : Data} {v : Literal} (h : Literal.u32 d = .ok v) : v.Typed := by
  obtain ⟨below, hbelow, h⟩ := Except.bind_eq_ok.1 h
  cases below with
  | true => cases h
  | false =>
    obtain ⟨i, hi, h⟩ := Except.bind_eq_ok.1 h
    cases h
    exact .scalar (.u32 (nonneg_of_belowZero hbelow hi))

theorem typed_of_floats {v : VectorType} {parts : List Data} {w : Literal} (helem : v.elem = .f32)
    (hlen : parts.length = v.count) (h : floats (.vector v) parts = .ok w) : w.Typed := by
  obtain ⟨xs, hxs, h⟩ := Except.bind_eq_ok.1 h
  cases h
  have hcount := (Except.mapM_eq_ok.1 hxs).length_eq
  refine .vector (by rw [List.length_map, ← hcount, hlen]) (.same fun x hx => ?_)
  obtain ⟨y, -, rfl⟩ := List.mem_map.1 hx
  rw [helem]
  exact .f32 y

theorem Made.typed {v : Literal} (h : v.Made) : v.Typed := by
  cases h with
  | of hd h => exact typed_of_of hd h
  | f32 h =>
    obtain ⟨x, -, h⟩ := Except.bind_eq_ok.1 h
    cases h
    exact .scalar (.f32 x)
  | u32 h => exact typed_of_u32 h
  | vec2 h | vec3 h | vec4 h => exact typed_of_floats rfl rfl h

end Literal
end EffectGraph
