import EffectGraph.Proofs.Literal.Typed
import EffectGraph.Proofs.Number.Integers
import Mathlib

/-!
# Literals of a declared type

A record that declares a type is read as a literal of this type in which every number
and truth value of the record stands in its place (`Literal.record_eq_ok`): integers
are kept whatever their size, and become floats only among floats. The record of this
literal is read as the literal itself (`Literal.ofData_declared`).
-/

namespace EffectGraph

/-- What data is read as where a scalar type is declared: truth values and floats stay
as they are; an integer becomes a float in the place of one, and stays as it is
otherwise; and a float that is equal to an integer is read as this integer in the place
of one. Integers have to be in the range of floats. -/
inductive ScalarType.Reads : ScalarType → Data → Data → Prop
  | bool (b : Bool) : Reads .bool (.bool b) (.bool b)
  | float (x : Binary64) : Reads .f32 (.float x) (.float x)
  | rounded {i : Int} {x : Binary64} : floatOfInt i = .ok x → Reads .f32 (.int i) (.float x)
  | int {t : ScalarType} {i : Int} {x : Binary64} : t.Holds (.int i) → floatOfInt i = .ok x →
      Reads t (.int i) (.int i)
  | whole {t : ScalarType} {i : Int} {x : Binary64} : t.Holds (.int i) → x.eqInt i → Reads t (.float x) (.int i)

namespace ScalarType.Reads

variable {t : ScalarType} {raw d : Data}

/-- Data is read as a scalar of the declared type. -/
theorem holds (h : t.Reads raw d) : t.Holds d := by
  cases h with
  | bool b => exact .bool b
  | float x => exact .f32 x
  | rounded _ => exact .f32 _
  | int ht _ => exact ht
  | whole ht _ => exact ht

/-- What data is read as is read as itself. -/
theorem again (h : t.Reads raw d) : t.Reads d d := by
  cases h with
  | bool b => exact .bool b
  | float x => exact .float x
  | rounded _ => exact .float _
  | int ht hx => exact .int ht hx
  | whole ht hx =>
    -- The integer is equal to a float, so it is in the range of floats.
    obtain ⟨y, hy, -⟩ := Binary64.exists_ofInt?_of_eqInt hx
    exact .int ht (floatOfInt_eq_ok.2 hy)

end ScalarType.Reads

namespace Literal

/-- What the record of a literal has as its value: a vector is a list there. -/
def raw (v : Literal) : Data :=
  match v.data with
  | .tuple xs => .list xs
  | d => d

/-- A literal that data is read as: the data itself, or its items in order, under the
scalar type of the literal. -/
inductive Reads (raw : Data) : Literal → Prop
  | scalar {t : ScalarType} {d : Data} : t.Reads raw d → Reads raw ⟨d, .scalar t⟩
  | vector {v : VectorType} {raws items : List Data} : raw.items? = some raws → items.length = v.count →
      List.Forall₂ v.elem.Reads raws items → Reads raw ⟨.tuple items, .vector v⟩

theorem toData_eq (v : Literal) : v.toData = .map [(.str "type", .str v.type.name), (.str "value", v.raw)] := rfl

variable {t : ScalarType} {raw d : Data} {v : Literal}

/-! ## Components -/

/-- A number is read as an integer if it has no fraction, and is not below zero where
the type is unsigned. -/
theorem coerceInteger_eq_ok {x : Binary64} :
    coerceInteger t raw x = .ok d ↔
      x.isInteger ∧ (∃ below, raw.belowZero = .ok below ∧ (t = .u32 → below = false)) ∧
        ∃ i, raw.toInt = .ok i ∧ d = .int i := by
  constructor
  · intro h
    unfold coerceInteger at h
    split at h
    · cases h
    · next hx =>
      obtain ⟨below, hbelow, h⟩ := Except.bind_eq_ok.1 h
      dsimp only at h
      split at h
      · cases h
      · next hsign =>
        obtain ⟨i, hi, h⟩ := Except.bind_eq_ok.1 h
        cases h
        refine ⟨by simpa using hx, ⟨below, hbelow, ?_⟩, i, hi, rfl⟩
        rintro rfl
        simpa using hsign
  · rintro ⟨hx, ⟨below, hbelow, hsign⟩, i, hi, rfl⟩
    have hpass : (t == .u32 && below) = false := by
      rw [Bool.and_eq_false_imp]
      exact fun ht => hsign (eq_of_beq ht)
    simp [coerceInteger, hx, hbelow, hpass, hi, bind, Except.bind, pure, Except.pure]

theorem toInt_float {x : Binary64} {i : Int} : (Data.float x).toInt = .ok i ↔ x.truncate? = some i := by
  cases x <;> simp [Data.toInt, intOfFloat, Binary64.truncate?]

theorem holds_of_toInt {i : Int} (hbool : t ≠ .bool) (hfloat : t ≠ .f32)
    (hbelow : ∃ below, raw.belowZero = .ok below ∧ (t = .u32 → below = false)) (hi : raw.toInt = .ok i) :
    t.Holds (.int i) := by
  obtain ⟨below, hbelow, hsign⟩ := hbelow
  cases t with
  | bool => exact absurd rfl hbool
  | f32 => exact absurd rfl hfloat
  | i32 => exact .i32 i
  | u32 => exact .u32 (nonneg_of_belowZero (hsign rfl ▸ hbelow) hi)

/-- A declared scalar type accepts what it reads, and nothing else. -/
theorem coerceScalar_eq_ok [Stack] : coerceScalar t raw = .ok d ↔ t.Reads raw d := by
  constructor
  · intro h
    unfold coerceScalar at h
    split at h
    case h_1 b =>
      cases h
      exact .bool b
    case h_3 i =>
      obtain ⟨x, hx, h⟩ := Except.bind_eq_ok.1 h
      cases h
      exact .rounded hx
    case h_4 x =>
      cases h
      exact .float x
    case h_5 i hbool hfloat =>
      obtain ⟨x, hx, h⟩ := Except.bind_eq_ok.1 h
      obtain ⟨-, hbelow, _, hi, rfl⟩ := coerceInteger_eq_ok.1 h
      cases hi
      exact .int (holds_of_toInt hbool hfloat hbelow rfl) hx
    case h_6 x hbool hfloat =>
      obtain ⟨hx, hbelow, i, hi, rfl⟩ := coerceInteger_eq_ok.1 h
      exact .whole (holds_of_toInt hbool hfloat hbelow hi) (Binary64.eqInt_iff_truncate?.2 ⟨hx, toInt_float.1 hi⟩)
    all_goals cases h
  · intro h
    have hsign : ∀ {i : Int}, t.Holds (.int i) → t = .u32 → decide (i < 0) = false := by
      rintro i ht rfl
      cases ht with
      | u32 hi => exact decide_eq_false (Int.not_lt.2 hi)
    cases h with
    | bool b => rfl
    | float x => rfl
    | rounded hx => exact Except.bind_eq_ok.2 ⟨_, hx, rfl⟩
    | @int _ i x ht hx =>
      have hcoerce : coerceInteger t (.int i) x = .ok (.int i) :=
        coerceInteger_eq_ok.2 ⟨Binary64.isInteger_of_ofInt? (floatOfInt_eq_ok.1 hx), ⟨_, rfl, hsign ht⟩, i, rfl, rfl⟩
      cases ht <;> exact Except.bind_eq_ok.2 ⟨x, hx, hcoerce⟩
    | @whole _ i x ht hx =>
      obtain ⟨hinteger, htruncate⟩ := Binary64.eqInt_iff_truncate?.1 hx
      have hbelow : (Data.float x).belowZero = .ok (decide (i < 0)) :=
        congrArg Except.ok (Binary64.isNegative_of_eqInt hx)
      have hcoerce : coerceInteger t (.float x) x = .ok (.int i) :=
        coerceInteger_eq_ok.2 ⟨hinteger, ⟨_, hbelow, hsign ht⟩, i, toInt_float.2 htruncate, rfl⟩
      cases ht <;> exact hcoerce

/-- A declared type accepts what it reads, and nothing else. -/
theorem coerce_eq_ok [Stack] {name : String} {type : ValueType} :
    coerce name type raw = .ok v ↔ v.type = type ∧ v.Reads raw := by
  cases type with
  | scalar t =>
    rw [coerce, Except.bind_eq_ok]
    constructor
    · rintro ⟨d, hd, h⟩
      cases h
      exact ⟨rfl, .scalar (coerceScalar_eq_ok.1 hd)⟩
    · rintro ⟨htype, h⟩
      cases h with
      | scalar h =>
        cases htype
        exact ⟨_, coerceScalar_eq_ok.2 h, rfl⟩
      | vector _ _ _ => cases htype
  | vector w =>
    constructor
    · intro h
      simp only [coerce] at h
      split at h
      · next raws hraws =>
        obtain ⟨hraws, hcount⟩ := Option.filter_eq_some_iff.1 hraws
        obtain ⟨items, hitems, h⟩ := Except.bind_eq_ok.1 h
        cases h
        have hitems := Except.mapM_eq_ok.1 hitems
        have hlen : items.length = w.count := by
          rw [← hitems.length_eq]
          exact eq_of_beq hcount
        exact ⟨rfl, .vector hraws hlen (hitems.imp fun _ _ => coerceScalar_eq_ok.1)⟩
      · cases h
    · rintro ⟨htype, h⟩
      cases h with
      | scalar _ => cases htype
      | @vector w raws items hraws hlen hitems =>
        cases htype
        have hcount : raw.items?.filter (·.length == w.count) = some raws := by
          simp [hraws, hitems.length_eq, hlen]
        have hmap : raws.mapM (coerceScalar w.elem) = .ok items :=
          Except.mapM_eq_ok.2 (hitems.imp fun _ _ => coerceScalar_eq_ok.2)
        simp only [coerce, hcount]
        exact Except.bind_eq_ok.2 ⟨items, hmap, rfl⟩

/-! ## Records -/

/-- A type is read from its own name. -/
theorem ofName_name (t : ValueType) : ValueType.ofName t.name = .ok t := by
  cases t with
  | scalar t => cases t <;> cbv
  | vector v =>
    obtain ⟨elem, count, bounds⟩ := v
    obtain ⟨hlow, hhigh⟩ := bounds
    interval_cases count <;> cases elem <;> cbv

theorem ofData_record [Stack] (t : ValueType) (raw : Data) :
    ofData (.map [(.str "type", .str t.name), (.str "value", raw)]) =
      coerce (Data.display (.str t.name)) t raw := by
  have hofName : ValueType.ofData (.str t.name) = .ok t := ofName_name t
  have hvalue : Data.lookup "value" [(.str "type", .str t.name), (.str "value", raw)] = some raw := rfl
  have htype : Data.lookup "type" [(.str "type", .str t.name), (.str "value", raw)] = some (.str t.name) := rfl
  simp only [ofData, Data.entries?, Data.expose, hvalue, htype, ofValue, hofName, bind, Except.bind]

/-- A record that declares a type is read as what the type reads its value as. -/
theorem record_eq_ok [Stack] {type : Data} :
    ofData (.map [(.str "type", type), (.str "value", raw)]) = .ok v ↔
      ValueType.ofData type = .ok v.type ∧ v.Reads raw := by
  have hvalue : Data.lookup "value" [(.str "type", type), (.str "value", raw)] = some raw := rfl
  have htype : Data.lookup "type" [(.str "type", type), (.str "value", raw)] = some type := rfl
  simp only [ofData, Data.entries?, Data.expose, hvalue, htype, ofValue, Except.bind_eq_ok, coerce_eq_ok]
  constructor
  · rintro ⟨_, htype, rfl, h⟩
    exact ⟨htype, h⟩
  · rintro ⟨htype, h⟩
    exact ⟨_, htype, rfl, h⟩

/-- What data is read as holds what its type says. -/
theorem Reads.typed (h : v.Reads raw) : v.Typed := by
  cases h with
  | scalar h => exact .scalar h.holds
  | vector _ hlen hitems =>
    refine .vector hlen (.same fun x hx => ?_)
    obtain ⟨y, -, hy⟩ := forall₂_mem_right hitems hx
    exact hy.holds

/-- What data is read as is read as itself. -/
theorem Reads.again (h : v.Reads raw) : v.Reads v.raw := by
  cases h with
  | @scalar t d h =>
    have hraw : Literal.raw ⟨d, .scalar t⟩ = d := by
      cases h <;> rfl
    rw [hraw]
    exact .scalar h.again
  | vector _ hlen hitems =>
    refine .vector rfl hlen (List.forall₂_same.2 fun x hx => ?_)
    obtain ⟨y, -, hy⟩ := forall₂_mem_right hitems hx
    exact hy.again

/-- A record that declares a type is read as what the type reads its value as, and fails
to be read otherwise; and the record of what it is read as is read as the same. -/
theorem ofData_declared [Stack] (type raw : Data) (v : Literal) :
    (ofData (.map [(.str "type", type), (.str "value", raw)]) = .ok v ↔
      ValueType.ofData type = .ok v.type ∧ v.Reads raw) ∧
    (ofData (.map [(.str "type", type), (.str "value", raw)]) = .ok v → ofData v.toData = .ok v) :=
  ⟨record_eq_ok, fun h => record_eq_ok.2 ⟨ofName_name v.type, (record_eq_ok.1 h).2.again⟩⟩

/-- Unsigned integers: one that is no float, a zero below zero, and a large float. -/
def unsignedParts : List Data :=
  [.int 9007199254740993, .float (.finite true 0 0 (by decide)), .float (.finite false 1 60 (by decide))]

open scoped EffectGraph.Stack.Usual in
theorem ofData_declared_unsigned :
    let v : Literal := ⟨.tuple [.int 9007199254740993, .int 0, .int (2 ^ 60)], .vector ⟨.u32, 3, by decide⟩⟩
    ofData (.map [(.str "type", .str " vec3<u32> "), (.str "value", .list unsignedParts)]) = .ok v ∧
    ofData v.toData = .ok v := by
  intro v
  have htype : ValueType.ofData (.str " vec3<u32> ") = .ok v.type := by cbv
  have hfloat : Binary64.ofInt? 9007199254740993 = some (.finite false 4503599627370496 1 (by decide)) := by
    decide +kernel
  have hreads : v.Reads (.list unsignedParts) :=
    .vector rfl rfl (.cons (.int (.u32 (by decide)) (floatOfInt_eq_ok.2 hfloat))
      (.cons (.whole (.u32 (by decide)) (by decide)) (.cons (.whole (.u32 (by decide)) (by decide)) .nil)))
  obtain ⟨hread, hagain⟩ := ofData_declared (.str " vec3<u32> ") (.list unsignedParts) v
  exact ⟨hread.2 ⟨htype, hreads⟩, hagain (hread.2 ⟨htype, hreads⟩)⟩

end Literal
end EffectGraph
