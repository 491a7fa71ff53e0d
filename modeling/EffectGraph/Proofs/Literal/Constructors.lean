import EffectGraph.Proofs.Failure
import EffectGraph.Proofs.Literal.RoundTrip

/-!
# Constructors of literals

A constructor that is handed a literal, by itself or as the value of a record without
a type, returns it as it is, whatever it holds. Every other literal that a constructor
makes holds what its type says, and is written in shader code unless an integer among
its floats is out of their range (`Literal.make_typed`).
-/

namespace EffectGraph

/-- The literal that data is. -/
def Data.literal? (d : Data) : Option Literal :=
  match d.expose with
  | .literal u t => some ⟨u, t⟩
  | _ => none

/-- Data that are the components of a vector: scalars of its type, or for floats
numbers with a float among them. -/
def VectorType.Components (w : VectorType) (items : List Data) : Prop :=
  items.length = w.count ∧
    if w.elem = .f32 then
      (∀ x ∈ items, ScalarType.i32.Holds x ∨ ScalarType.f32.Holds x) ∧ ∃ x ∈ items, ScalarType.f32.Holds x
    else ∀ x ∈ items, w.elem.Holds x

namespace Literal

/-- A call that makes a literal. -/
inductive Constructor where
  | of (d : Data)
  | f32 (d : Data)
  | u32 (d : Data)
  | vec2 (x y : Data)
  | vec3 (x y z : Data)
  | vec4 (x y z w : Data)
  | ofData (d : Data)

namespace Constructor

/-- The literal that a call makes. -/
def make [Stack] : Constructor → Except Error Literal
  | of d => Literal.of d
  | f32 d => Literal.f32 d
  | u32 d => Literal.u32 d
  | vec2 x y => Literal.vec2 x y
  | vec3 x y z => Literal.vec3 x y z
  | vec4 x y z w => Literal.vec4 x y z w
  | ofData d => Literal.ofData d

/-- The literal that a call is handed: the data itself, or the value of a record
without a type. -/
def given? : Constructor → Option Literal
  | of d => d.literal?
  | ofData d => do
    let es ← d.entries?
    let raw ← Data.lookup "value" es
    if (Data.lookup "type" es).isNone then raw.literal? else none
  | _ => none

end Constructor

variable {t : ScalarType} {d : Data} {v : Literal}

/-! ## Types -/

theorem Typed.components {w : VectorType} {items : List Data} (h : Typed ⟨.tuple items, .vector w⟩) :
    w.Components items := by
  cases h with
  | vector hlen hitems =>
    refine ⟨hlen, ?_⟩
    split
    · next helem =>
      cases hitems with
      | same h =>
        rw [helem] at h
        -- A vector has components, so one of them is a float.
        have hne : items ≠ [] := by
          rintro rfl
          have := w.bounds.1
          rw [← hlen] at this
          exact absurd this (by decide)
        obtain ⟨x, hx⟩ := List.exists_mem_of_ne_nil items hne
        exact ⟨fun y hy => .inr (h y hy), x, hx, h x hx⟩
      | mixed _ h hfloat => exact ⟨h, hfloat⟩
    · next helem =>
      cases hitems with
      | same h => exact h
      | mixed hfloat _ _ => exact absurd hfloat helem

/-- Plain data stands for the literal that it is, or for one that holds what its type
says. -/
theorem of_cases (h : Literal.of d = .ok v) : d.literal? = some v ∨ d.literal? = none ∧ v.Typed := by
  cases hd : d.literal? with
  | some u =>
    unfold Data.literal? at hd
    split at hd
    · next hexpose =>
      cases hd
      rw [Literal.of, hexpose] at h
      exact .inl (congrArg some (Except.ok.inj h))
    · cases hd
  | none =>
    refine .inr ⟨rfl, typed_of_of (fun u t hexpose => ?_) h⟩
    rw [Data.literal?, hexpose] at hd
    cases hd

theorem ofData_cases [Stack] (h : Literal.ofData d = .ok v) :
    (Constructor.ofData d).given? = some v ∨ (Constructor.ofData d).given? = none ∧ v.Typed := by
  unfold Literal.ofData at h
  split at h
  · next es hes =>
    split at h
    · next raw hraw =>
      cases htype : Data.lookup "type" es with
      | none =>
        rw [htype] at h
        have hgiven : (Constructor.ofData d).given? = raw.literal? := by
          simp [Constructor.given?, hes, hraw, htype]
        rw [hgiven]
        exact of_cases h
      | some t =>
        rw [htype] at h
        obtain ⟨type, -, hcoerce⟩ := Except.bind_eq_ok.1 h
        exact .inr ⟨by simp [Constructor.given?, hes, hraw, htype], (coerce_eq_ok.1 hcoerce).2.typed⟩
    · cases h
  · cases h

/-- A constructor makes the literal that it is handed, or one that holds what its type
says. -/
theorem make_cases [Stack] {c : Constructor} (h : c.make = .ok v) : c.given? = some v ∨ c.given? = none ∧ v.Typed := by
  cases c with
  | of d => exact of_cases h
  | ofData d => exact ofData_cases h
  | f32 d => exact .inr ⟨rfl, (Made.f32 h).typed⟩
  | u32 d => exact .inr ⟨rfl, (Made.u32 h).typed⟩
  | vec2 x y => exact .inr ⟨rfl, (Made.vec2 h).typed⟩
  | vec3 x y z => exact .inr ⟨rfl, (Made.vec3 h).typed⟩
  | vec4 x y z w => exact .inr ⟨rfl, (Made.vec4 h).typed⟩

/-! ## Shader code -/

/-- A part of a literal is written, unless it is an integer that is to be a float and is
out of range. -/
theorem scalarText_eq_error (h : t.Takes d) (hshort : ∀ i, d = .int i → Data.isLong i = false) {e : Error} :
    scalarText t d = .error e ↔ t = .f32 ∧ e = .intTooLarge ∧ ∃ i, d = .int i ∧ Binary64.ofInt? i = none := by
  have hwrite : ∀ i, d = .int i → writeInt i = .ok (Data.intText i) := by
    rintro i rfl
    rw [writeInt, hshort i rfl]
    rfl
  rcases h with h | ⟨rfl, h⟩
  · cases h with
    | bool b => simp [scalarText]
    | i32 i => simp [scalarText, Data.toInt, hwrite i rfl, bind, Except.bind]
    | @u32 i hi => simp [scalarText, Data.toInt, hwrite i rfl, bind, Except.bind, pure, Except.pure]
    | f32 x => simp [scalarText, Data.toFloat, bind, Except.bind, pure, Except.pure]
  · cases h with
    | i32 i =>
      rw [scalarText, Except.bind_eq_error, Data.toFloat, floatOfInt_eq_error]
      simp [pure, Except.pure, and_comm]

/-- A literal that holds what its type says is written, unless it is a vector of floats
with an integer that is out of their range. -/
theorem Typed.shaderText_eq_error (h : v.Typed) (hshort : ∀ i, .int i ∈ v.parts → Data.isLong i = false) {e : Error} :
    v.shaderText = .error e ↔
      (∃ w, v.type = .vector w ∧ w.elem = .f32) ∧ e = .intTooLarge ∧
        ∃ i, .int i ∈ v.parts ∧ Binary64.ofInt? i = none := by
  cases h with
  | @scalar t d hd =>
    have hparts := parts_of_isScalar ⟨t, hd⟩ (.scalar t)
    have htext : shaderText ⟨d, .scalar t⟩ = scalarText t d := rfl
    rw [htext, scalarText_eq_error (.inl hd) fun i hi => hshort i (by rw [hparts, hi]; exact List.mem_singleton_self _)]
    constructor
    · rintro ⟨rfl, -, i, rfl, -⟩
      cases hd
    · rintro ⟨⟨w, hw, -⟩, -⟩
      cases hw
  | @vector w items hlen hitems =>
    have herror : ∀ x ∈ items, ∀ e, scalarText w.elem x = .error e ↔
        w.elem = .f32 ∧ e = .intTooLarge ∧ ∃ i, x = .int i ∧ Binary64.ofInt? i = none := fun x hx e =>
      scalarText_eq_error (hitems.takes hx) fun i hi => hshort i (by rw [← hi]; exact hx)
    have htext : ∀ e, shaderText ⟨.tuple items, .vector w⟩ = .error e ↔ items.mapM (scalarText w.elem) = .error e := by
      intro e
      have helements : (Data.tuple items).elements? = some items := rfl
      rw [shaderText]
      simp only [helements, Except.bind_eq_error]
      simp [pure, Except.pure]
    rw [htext]
    constructor
    · intro h
      obtain ⟨done, x, rest, rfl, -, hx⟩ := Except.mapM_eq_error.1 h
      have hmem : x ∈ done ++ x :: rest := List.mem_append_right _ List.mem_cons_self
      obtain ⟨helem, he, i, rfl, hi⟩ := (herror x hmem e).1 hx
      exact ⟨⟨w, rfl, helem⟩, he, i, hmem, hi⟩
    · rintro ⟨⟨_, hw, helem⟩, rfl, i, hi, hlarge⟩
      cases hw
      -- The first part that is not written may be another one, but it is refused alike.
      cases hmap : items.mapM (scalarText w.elem) with
      | error e' =>
        obtain ⟨done, x, rest, rfl, -, hx⟩ := Except.mapM_eq_error.1 hmap
        obtain ⟨-, rfl, -⟩ := (herror x (List.mem_append_right _ List.mem_cons_self) e').1 hx
        rfl
      | ok texts =>
        obtain ⟨text, -, htext⟩ := Except.exists_of_mapM_mem hmap hi
        rw [(herror _ hi _).2 ⟨helem, rfl, i, rfl, hlarge⟩] at htext
        cases htext

/-- A call that is not handed a literal makes, if it makes one, a literal that holds
what its type says: a scalar of the type, or as many components as the vector has.
Unless an integer in it is too long to be written at all, it is written in shader code
just if it is no vector of floats with an integer out of their range. A call that is
handed a literal returns it. -/
theorem make_typed [Stack] (c : Constructor) (v : Literal) (h : c.make = .ok v) :
    match c.given? with
    | some u => v = u
    | none =>
      (match v.type with
        | .scalar t => t.Holds v.data
        | .vector w => ∃ items, v.data = .tuple items ∧ w.Components items) ∧
      ((∀ i, .int i ∈ v.parts → Data.isLong i = false) → ∀ e, v.shaderText = .error e ↔
        (∃ w, v.type = .vector w ∧ w.elem = .f32) ∧ e = .intTooLarge ∧
          ∃ i, .int i ∈ v.parts ∧ Binary64.ofInt? i = none) := by
  rcases make_cases h with hgiven | ⟨hgiven, hv⟩
  · rw [hgiven]
  · rw [hgiven]
    refine ⟨?_, fun hshort e => hv.shaderText_eq_error hshort⟩
    cases hv with
    | scalar hd => exact hd
    | vector hlen hitems => exact ⟨_, rfl, (Typed.vector hlen hitems).components⟩

/-- A vector of floats from an integer out of their range and a half. -/
def largeAndHalf : List Data := [.int (10 ^ 400), .float (.finite false 1 (-1) (by decide))]

open scoped EffectGraph.Stack.Usual in
theorem make_typed_largeAndHalf :
    ∃ v, (Constructor.of (.list largeAndHalf)).make = .ok v ∧ v.type = .vec2f ∧
      VectorType.Components ⟨.f32, 2, by decide⟩ largeAndHalf ∧ v.shaderText = .error .intTooLarge := by
  have h : (Constructor.of (.list largeAndHalf)).make = .ok ⟨.tuple largeAndHalf, .vec2f⟩ := rfl
  obtain ⟨⟨items, hitems, hcomponents⟩, htext⟩ := make_typed _ _ h
  cases hitems
  refine ⟨_, h, rfl, hcomponents, (htext (fun i hi => ?_) _).2 ⟨⟨_, rfl, rfl⟩, rfl, 10 ^ 400, ?_, ?_⟩⟩
  · rcases List.mem_cons.1 hi with hi | hi
    · rw [Data.int.inj hi]
      decide +kernel
    · cases List.mem_singleton.1 hi
  · exact List.mem_cons_self
  · decide +kernel

open scoped EffectGraph.Stack.Usual in
/-- A record without a type may hand on a literal that does not hold what its type
says. -/
theorem make_negative :
    let v : Literal := ⟨.int (-1), .scalar .u32⟩
    (Constructor.ofData (.map [(.str "value", .literal v.data v.type)])).make = .ok v ∧
      ¬ScalarType.u32.Holds v.data := by
  refine ⟨rfl, ?_⟩
  rintro ⟨⟩
  contradiction

end Literal
end EffectGraph
