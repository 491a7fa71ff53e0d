import EffectGraph.Proofs.Literal.Declared

/-!
# Literals through their records

The record of a literal is read back as a literal of the same type. Its parts are the
same, but an integer among floats comes back as the float nearest to it
(`Literal.settled`), so the literal is equal to the one before exactly when all such
integers are floats (`Literal.ofData_toData`).
-/

namespace EffectGraph

namespace Data

/-- Data that is a number or a truth value. -/
def IsScalar (d : Data) : Prop := ∃ t : ScalarType, t.Holds d

/-- Data that says the same as other data: the same texts, integers and truth values in
the same places, and equal floats. -/
inductive Copies : Data → Data → Prop
  | bool (b : Bool) : Copies (.bool b) (.bool b)
  | int (i : Int) : Copies (.int i) (.int i)
  | float {x y : Binary64} : x.eq y → Copies (.float x) (.float y)
  | str (s : Text) : Copies (.str s) (.str s)
  | list {xs ys : List Data} : List.Forall₂ Copies xs ys → Copies (.list xs) (.list ys)
  | map {es fs : List (Data × Data)} : es.map Prod.fst = fs.map Prod.fst →
      List.Forall₂ Copies (es.map Prod.snd) (fs.map Prod.snd) → Copies (.map es) (.map fs)

end Data

theorem Binary64.eq_self (neg : Bool) (m : Nat) (e : Int) (fits) :
    (Binary64.finite neg m e fits).eq (.finite neg m e fits) := by
  simp [Binary64.eq]

namespace ScalarType

/-- Data that may be a component of a vector with elements of a type. -/
def Takes (t : ScalarType) (d : Data) : Prop := t.Holds d ∨ t = .f32 ∧ ScalarType.i32.Holds d

/-- What a component is read back as: an integer among floats becomes the nearest one. -/
def settle (t : ScalarType) (d : Data) : Data :=
  match t, d with
  | .f32, .int i => ((Binary64.ofInt? i).map Data.float).getD (.int i)
  | _, d => d

theorem HoldsAll.takes {t : ScalarType} {items : List Data} (h : t.HoldsAll items) {x : Data} (hx : x ∈ items) :
    t.Takes x := by
  cases h with
  | same h => exact .inl (h x hx)
  | mixed ht h _ => exact (h x hx).elim (fun hi => .inr ⟨ht, hi⟩) fun hf => .inl (ht ▸ hf)

end ScalarType

namespace Literal

/-- The components of a vector, or the scalar. -/
def parts (v : Literal) : List Data :=
  match v.data with
  | .tuple xs => xs
  | d => [d]

/-- The literal that the record of a literal is read back as. -/
def settled (v : Literal) : Literal where
  data := match v.data with
    | .tuple xs => .tuple (xs.map v.type.elem.settle)
    | d => v.type.elem.settle d
  type := v.type

/-- All integers among the floats of the literal are themselves floats. -/
def IsExact (v : Literal) : Prop :=
  v.type.elem = .f32 → ∀ i, Data.int i ∈ v.parts → ∃ x : Binary64, x.eqInt i

/-- All integers in the literal are within the range of floats. -/
def InRange (v : Literal) : Prop := ∀ i, Data.int i ∈ v.parts → ∃ x, floatOfInt i = .ok x

/-- No part of the literal is a NaN. -/
def IsNumeric (v : Literal) : Prop := ∀ s, Data.float (.nan s) ∉ v.parts

variable {t : ScalarType} {d : Data}

theorem parts_of_isScalar (h : d.IsScalar) (type : ValueType) : parts ⟨d, type⟩ = [d] := by
  obtain ⟨_, h⟩ := h
  cases h <;> rfl

theorem raw_of_isScalar (h : d.IsScalar) (type : ValueType) : raw ⟨d, type⟩ = d := by
  obtain ⟨_, h⟩ := h
  cases h <;> rfl

theorem settled_of_isScalar (h : d.IsScalar) (type : ValueType) : settled ⟨d, type⟩ = ⟨type.elem.settle d, type⟩ := by
  obtain ⟨_, h⟩ := h
  cases h <;> rfl

/-! ## Reading a record -/

/-- A declared type reads what it may have as a component as what it settles to. -/
theorem reads_settle (h : t.Takes d) (hrange : ∀ i, d = .int i → ∃ x, floatOfInt i = .ok x) :
    t.Reads d (t.settle d) := by
  rcases h with h | ⟨rfl, h⟩
  · cases h with
    | bool b => exact .bool b
    | f32 x => exact .float x
    | i32 i =>
      obtain ⟨x, hx⟩ := hrange i rfl
      exact .int (.i32 i) hx
    | @u32 i hi =>
      obtain ⟨x, hx⟩ := hrange i rfl
      exact .int (.u32 hi) hx
  · cases h with
    | i32 i =>
      obtain ⟨x, hx⟩ := hrange i rfl
      rw [ScalarType.settle, floatOfInt_eq_ok.1 hx]
      exact .rounded hx

theorem ofData_toData_of_typed [Stack] {v : Literal} (hv : v.Typed) (hrange : v.InRange) :
    ofData v.toData = .ok v.settled := by
  rw [toData_eq]
  refine record_eq_ok.2 ⟨ofName_name v.type, ?_⟩
  cases hv with
  | @scalar t d hd =>
    have hrange : ∀ i, d = .int i → ∃ x, floatOfInt i = .ok x := fun i hi =>
      hrange i (by rw [parts_of_isScalar ⟨_, hd⟩, hi]; exact List.mem_singleton_self _)
    rw [raw_of_isScalar ⟨_, hd⟩, settled_of_isScalar ⟨_, hd⟩]
    exact .scalar (reads_settle (.inl hd) hrange)
  | vector hlen hitems =>
    refine .vector rfl (by rw [List.length_map, hlen]) ?_
    rw [List.forall₂_map_right_iff, List.forall₂_same]
    exact fun x hx => reads_settle (hitems.takes hx) fun i hi => hrange i (hi ▸ hx)

/-! ## Writing a record -/

theorem exists_write {v : Literal} (hrange : v.InRange) (hd : d ∈ v.parts) (h : t.Takes d) :
    ∃ s, Json.write d = .ok s := by
  have hint : ∀ i, d = .int i → ∃ s, Json.write d = .ok s := by
    rintro i rfl
    obtain ⟨x, hx⟩ := hrange i hd
    rw [Json.write, writeInt, Binary64.isLong_of_ofInt? (floatOfInt_eq_ok.1 hx)]
    exact ⟨_, rfl⟩
  rcases h with h | ⟨-, h⟩
  · cases h with
    | bool b => exact ⟨_, by rw [Json.write]⟩
    | f32 x => exact ⟨_, by rw [Json.write]⟩
    | i32 i | u32 hi => exact hint _ rfl
  · cases h with
    | i32 i => exact hint i rfl

theorem exists_writeAll {xs : List Data} (h : ∀ x ∈ xs, ∃ s, Json.write x = .ok s) :
    ∃ ts, Json.writeAll xs = .ok ts := by
  induction xs with
  | nil => exact ⟨[], by rw [Json.writeAll]⟩
  | cons x xs ih =>
    obtain ⟨s, hs⟩ := h x List.mem_cons_self
    obtain ⟨ts, hts⟩ := ih fun y hy => h y (List.mem_cons_of_mem _ hy)
    rw [Json.writeAll, hs, hts]
    exact ⟨_, rfl⟩

theorem exists_write_raw {v : Literal} (hv : v.Typed) (hrange : v.InRange) : ∃ s, Json.write v.raw = .ok s := by
  cases hv with
  | scalar hd =>
    rw [raw_of_isScalar ⟨_, hd⟩]
    exact exists_write hrange (parts_of_isScalar ⟨_, hd⟩ _ ▸ List.mem_singleton_self _) (.inl hd)
  | @vector v items hlen hitems =>
    have hparts : ∀ x ∈ items, ∃ s, Json.write x = .ok s := fun x hx => exists_write hrange hx (hitems.takes hx)
    obtain ⟨ts, hts⟩ := exists_writeAll hparts
    rw [raw, Json.write, hts]
    exact ⟨_, rfl⟩

theorem exists_toJson {v : Literal} (hv : v.Typed) (hrange : v.InRange) : ∃ s, v.toJson = .ok s := by
  obtain ⟨s, hs⟩ := exists_write_raw hv hrange
  simp only [toJson, toData_eq, Json.write, Json.writeEntries, Json.keyText, hs, bind, Except.bind, pure, Except.pure]
  exact ⟨_, rfl⟩

/-! ## What comes back -/

/-- Copies of scalars are held as the scalars are. -/
theorem holds_of_copies {e : Data} (hc : d.Copies e) (h : t.Holds e) : t.Holds d := by
  cases h with
  | bool b =>
    cases hc
    exact .bool b
  | i32 i =>
    cases hc
    exact .i32 i
  | u32 hi =>
    cases hc
    exact .u32 hi
  | f32 x =>
    cases hc
    exact .f32 _

theorem holdsAll_of_copies {xs ys : List Data} (hc : List.Forall₂ Data.Copies xs ys) (h : t.HoldsAll ys) :
    t.HoldsAll xs := by
  cases h with
  | same h =>
    refine .same fun x hx => ?_
    obtain ⟨y, hy, hxy⟩ := forall₂_mem_left hc hx
    exact holds_of_copies hxy (h y hy)
  | mixed ht h hfloat =>
    refine .mixed ht (fun x hx => ?_) ?_
    · obtain ⟨y, hy, hxy⟩ := forall₂_mem_left hc hx
      exact (h y hy).imp (holds_of_copies hxy) (holds_of_copies hxy)
    · obtain ⟨y, hy, hfloat⟩ := hfloat
      obtain ⟨x, hx, hxy⟩ := forall₂_mem_right hc hy
      exact ⟨x, hx, holds_of_copies hxy hfloat⟩

theorem int_mem_iff_of_copies {xs ys : List Data} (hc : List.Forall₂ Data.Copies xs ys) (i : Int) :
    .int i ∈ xs ↔ .int i ∈ ys := by
  constructor
  · intro hx
    obtain ⟨y, hy, hxy⟩ := forall₂_mem_left hc hx
    cases hxy
    exact hy
  · intro hy
    obtain ⟨x, hx, hxy⟩ := forall₂_mem_right hc hy
    cases hxy
    exact hx

/-- Data that copies the record of a literal is the record of a literal of the same
type, with copies of its parts. -/
theorem exists_of_copies {v : Literal} (hv : v.Typed) (hc : d.Copies v.toData) :
    ∃ u : Literal, u.Typed ∧ u.type = v.type ∧ d = u.toData ∧ List.Forall₂ Data.Copies u.parts v.parts := by
  obtain ⟨r, hr, rfl⟩ : ∃ r, r.Copies v.raw ∧ d = .map [(.str "type", .str v.type.name), (.str "value", r)] := by
    rw [toData_eq] at hc
    cases hc with
    | @map es _ hkeys hvalues =>
      obtain ⟨⟨_, _⟩, _, rfl, rfl, hvalue⟩ := List.map_eq_cons_iff.1 hkeys
      obtain ⟨⟨_, r⟩, _, rfl, rfl, hnone⟩ := List.map_eq_cons_iff.1 hvalue
      obtain rfl := List.map_eq_nil_iff.1 hnone
      cases hvalues with
      | cons htype hvalues =>
        cases htype
        cases hvalues with
        | cons hr _ => exact ⟨r, hr, rfl⟩
  cases hv with
  | @scalar t e he =>
    rw [raw_of_isScalar ⟨_, he⟩] at hr
    have hd := holds_of_copies hr he
    refine ⟨⟨r, .scalar t⟩, .scalar hd, rfl, ?_, ?_⟩
    · rw [toData_eq, raw_of_isScalar ⟨_, hd⟩]
    · rw [parts_of_isScalar ⟨_, hd⟩, parts_of_isScalar ⟨_, he⟩]
      exact .cons hr .nil
  | @vector v items hlen hitems =>
    cases hr with
    | @list xs _ hxs =>
      have hu : Typed ⟨.tuple xs, .vector v⟩ := .vector (hxs.length_eq.trans hlen) (holdsAll_of_copies hxs hitems)
      exact ⟨_, hu, rfl, rfl, hxs⟩

end Literal

/-! ## Equality of literals -/

namespace Data

theorem sameIn_of_isScalar {d e : Data} (hd : d.IsScalar) (he : e.IsScalar) (n : Nat) :
    sameIn (n + 1) d e = some (sameAtom d e) := by
  obtain ⟨t, ht⟩ := hd
  obtain ⟨u, hu⟩ := he
  cases ht <;> cases hu <;> rfl

theorem sameItems_of_isScalar {xs ys : List Data} (hx : ∀ x ∈ xs, x.IsScalar) (hy : ∀ y ∈ ys, y.IsScalar) (n : Nat) :
    sameItems (sameIn (n + 1)) xs ys = some true ↔ List.Forall₂ (fun x y => sameAtom x y) xs ys := by
  induction xs generalizing ys with
  | nil => cases ys <;> simp [sameItems]
  | cons x xs ih =>
    cases ys with
    | nil => simp [sameItems]
    | cons y ys =>
      obtain ⟨hx₀, hx⟩ := List.forall_mem_cons.1 hx
      obtain ⟨hy₀, hy⟩ := List.forall_mem_cons.1 hy
      rw [sameItems, List.forall₂_cons, ← ih hx hy, sameIn_of_isScalar hx₀ hy₀]
      cases sameAtom x y <;> simp [both]

end Data

namespace Literal

/-- A literal without nested parts. -/
inductive Flat : Literal → Prop
  | scalar {t : ScalarType} {d : Data} : d.IsScalar → Flat ⟨d, .scalar t⟩
  | vector {v : VectorType} {items : List Data} : (∀ x ∈ items, x.IsScalar) → Flat ⟨.tuple items, .vector v⟩

variable {u v : Literal}

theorem Typed.flat (h : v.Typed) : v.Flat := by
  cases h with
  | scalar h => exact .scalar ⟨_, h⟩
  | vector _ h => exact .vector fun x hx => (h.takes hx).elim (fun h => ⟨_, h⟩) fun h => ⟨_, h.2⟩

theorem Flat.isScalar (h : v.Flat) : ∀ p ∈ v.parts, p.IsScalar := by
  cases h with
  | scalar h =>
    rw [parts_of_isScalar h, List.forall_mem_singleton]
    exact h
  | vector h => exact h

theorem isScalar_settle {t : ScalarType} {d : Data} (h : d.IsScalar) : (t.settle d).IsScalar := by
  unfold ScalarType.settle
  split
  · next i =>
    cases Binary64.ofInt? i with
    | none => exact h
    | some x => exact ⟨_, .f32 x⟩
  · exact h

theorem Flat.settled (h : v.Flat) : v.settled.Flat := by
  cases h with
  | scalar h =>
    rw [settled_of_isScalar h]
    exact .scalar (isScalar_settle h)
  | vector h =>
    refine .vector fun x hx => ?_
    obtain ⟨y, hy, rfl⟩ := List.mem_map.1 hx
    exact isScalar_settle (h y hy)

theorem Flat.parts_settled (h : v.Flat) : v.settled.parts = v.parts.map v.type.elem.settle := by
  cases h with
  | scalar h =>
    rw [settled_of_isScalar h, parts_of_isScalar (isScalar_settle h), parts_of_isScalar h]
    rfl
  | vector _ => rfl

/-- Literals of one type are equal when their parts are. -/
theorem same_iff_parts [Stack] (hu : u.Flat) (hv : v.Flat) (ht : u.type = v.type) :
    same u v ↔ List.Forall₂ (fun x y => Data.sameAtom x y) u.parts v.parts := by
  obtain ⟨room, hroom⟩ := Stack.exists_compared
  have hsame : same u v ↔ Data.sameIn (room + 2) u.data v.data = some true := by
    simp [same, ht, Data.same, Data.same?, hroom]
  rw [hsame]
  cases hu with
  | scalar hd =>
    cases hv with
    | scalar he =>
      rw [Data.sameIn_of_isScalar hd he, parts_of_isScalar hd, parts_of_isScalar he]
      simp
    | vector _ => cases ht
  | vector hxs =>
    cases hv with
    | scalar _ => cases ht
    | vector hys => exact Data.sameItems_of_isScalar hxs hys room

/-- Copies of the parts of a literal are settled to what equals the parts themselves,
unless they are integers that are not floats. -/
theorem sameAtom_settle {t : ScalarType} {q p : Data} (hc : q.Copies p) (hp : p.IsScalar)
    (hrange : ∀ i, q = .int i → ∃ x, floatOfInt i = .ok x) :
    Data.sameAtom (t.settle q) (t.settle p) ∧
      (Data.sameAtom (t.settle q) p ↔ (t = .f32 → ∀ i, q = .int i → ∃ x : Binary64, x.eqInt i)) := by
  have heq : ∀ {x y : Binary64}, x.eq y → Data.sameFloat x y := by
    intro x y h
    cases x with
    | nan _ => cases h
    | inf _ | finite _ _ _ _ => cases y <;> exact h
  cases hc with
  | bool b => cases t <;> simp [ScalarType.settle, Data.sameAtom]
  | float h => cases t <;> simp [ScalarType.settle, Data.sameAtom, heq h]
  | int i =>
    by_cases ht : t = .f32
    · subst ht
      obtain ⟨x, hx⟩ := hrange i rfl
      have hx := floatOfInt_eq_ok.1 hx
      obtain ⟨neg, m, e, fits, rfl, -⟩ := Binary64.exists_finite_of_ofInt? hx
      have hself : Data.sameFloat (.finite neg m e fits) (.finite neg m e fits) := heq (Binary64.eq_self neg m e fits)
      simp [ScalarType.settle, hx, Data.sameAtom, hself, Binary64.eqInt_ofInt? hx]
    · cases t with
      | f32 => exact absurd rfl ht
      | bool | i32 | u32 => simp [ScalarType.settle, Data.sameAtom]
  | str _ | list _ | map _ _ =>
    obtain ⟨_, hp⟩ := hp
    cases hp

theorem forall₂_sameAtom_settle {t : ScalarType} {qs ps : List Data} (hc : List.Forall₂ Data.Copies qs ps)
    (hp : ∀ p ∈ ps, p.IsScalar) (hrange : ∀ i, .int i ∈ qs → ∃ x, floatOfInt i = .ok x) :
    List.Forall₂ (fun x y => Data.sameAtom x y) (qs.map t.settle) (ps.map t.settle) ∧
      (List.Forall₂ (fun x y => Data.sameAtom x y) (qs.map t.settle) ps ↔
        (t = .f32 → ∀ i, .int i ∈ qs → ∃ x : Binary64, x.eqInt i)) := by
  induction hc with
  | nil => simp
  | @cons q p qs ps hqp _ ih =>
    obtain ⟨hp₀, hp⟩ := List.forall_mem_cons.1 hp
    obtain ⟨hall, hexact⟩ := ih hp fun i hi => hrange i (List.mem_cons_of_mem _ hi)
    obtain ⟨hall₀, hexact₀⟩ := sameAtom_settle (t := t) hqp hp₀ fun i hi => hrange i (hi ▸ List.mem_cons_self)
    refine ⟨.cons hall₀ hall, ?_⟩
    rw [List.map_cons, List.forall₂_cons, hexact₀, hexact]
    constructor
    · rintro ⟨h₀, h⟩ ht i hi
      rcases List.mem_cons.1 hi with hi | hi
      · exact h₀ ht i hi.symm
      · exact h ht i hi
    · intro h
      exact ⟨fun ht i hi => h ht i (hi ▸ List.mem_cons_self), fun ht i hi => h ht i (List.mem_cons_of_mem _ hi)⟩

/-- What copies of a literal settle to. -/
theorem same_settled [Stack] (hu : u.Typed) (hv : v.Typed) (ht : u.type = v.type)
    (hc : List.Forall₂ Data.Copies u.parts v.parts) (hrange : v.InRange) :
    same u.settled v.settled ∧ (same u.settled v ↔ v.IsExact) := by
  have hints := int_mem_iff_of_copies hc
  obtain ⟨hall, hexact⟩ := forall₂_sameAtom_settle (t := v.type.elem) hc hv.flat.isScalar fun i hi =>
    hrange i ((hints i).1 hi)
  rw [same_iff_parts hu.flat.settled hv.flat.settled ht, same_iff_parts hu.flat.settled hv.flat ht,
    hu.flat.parts_settled, hv.flat.parts_settled, ht]
  refine ⟨hall, hexact.trans ?_⟩
  simp only [hints, IsExact]

theorem copies_self (hv : v.Typed) (hnumeric : v.IsNumeric) : List.Forall₂ Data.Copies v.parts v.parts := by
  rw [List.forall₂_same]
  intro p hp
  obtain ⟨t, ht⟩ := hv.flat.isScalar p hp
  cases ht with
  | bool b => exact .bool b
  | i32 i | u32 _ => exact .int _
  | f32 x =>
    cases x with
    | nan s => exact absurd hp (hnumeric s)
    | inf s => exact .float (by simp [Binary64.eq])
    | finite neg m e fits => exact .float (Binary64.eq_self neg m e fits)

/-- The record of a literal that is made without NaN, and whose integers are in the range
of floats, is read back, as a literal of the same type in which integers among floats
have become floats; it is equal to the literal exactly when these integers are floats.
The same holds for the record in JSON where reading JSON inverts writing it. -/
theorem ofData_toData [Stack] (v : Literal) (hmade : v.Made) (hnumeric : v.IsNumeric) (hrange : v.InRange) :
    (ofData v.toData = .ok v.settled ∧ v.settled.type = v.type ∧ (same v.settled v ↔ v.IsExact)) ∧
    ∃ s, v.toJson = .ok s ∧ ∀ d, Json.read s = .ok d → d.Copies v.toData →
      ∃ w, ofJson s = .ok w ∧ w.type = v.type ∧ same w v.settled ∧ (same w v ↔ v.IsExact) := by
  have hv := hmade.typed
  obtain ⟨s, hs⟩ := exists_toJson hv hrange
  refine ⟨⟨ofData_toData_of_typed hv hrange, rfl, (same_settled hv hv rfl (copies_self hv hnumeric) hrange).2⟩,
    s, hs, fun d hd hc => ?_⟩
  obtain ⟨u, hu, ht, rfl, hparts⟩ := exists_of_copies hv hc
  have hrange' : u.InRange := fun i hi => hrange i ((int_mem_iff_of_copies hparts i).1 hi)
  obtain ⟨hsettled, hexact⟩ := same_settled hu hv ht hparts hrange
  exact ⟨u.settled, Except.bind_eq_ok.2 ⟨_, hd, ofData_toData_of_typed hu hrange'⟩, ht, hsettled, hexact⟩

/-- An integer and a float, which make a vector of floats. -/
def oneAndInfinity : Literal where
  data := .tuple [.int 1, .float (.inf false)]
  type := .vec2f

open scoped EffectGraph.Stack.Usual in
theorem ofData_toData_oneAndInfinity :
    Literal.of (.list [.int 1, .float (.inf false)]) = .ok oneAndInfinity ∧
    ofData oneAndInfinity.toData = .ok oneAndInfinity.settled ∧ same oneAndInfinity.settled oneAndInfinity ∧
    ∃ s w, oneAndInfinity.toJson = .ok s ∧ ofJson s = .ok w ∧ same w oneAndInfinity := by
  have hof : Literal.of (.list [.int 1, .float (.inf false)]) = .ok oneAndInfinity := rfl
  have hone : floatOfInt 1 = .ok (.finite false 1 0 (by decide)) := rfl
  have hints : ∀ i, Data.int i ∈ oneAndInfinity.parts → i = 1 := by
    intro i hi
    simpa [oneAndInfinity, parts] using hi
  have hnumeric : oneAndInfinity.IsNumeric := by
    intro s hs
    simp [oneAndInfinity, parts] at hs
  have hexact : oneAndInfinity.IsExact := by
    intro _ i hi
    rw [hints i hi]
    exact ⟨.finite false 1 0 (by decide), by decide⟩
  obtain ⟨⟨hdata, -, hsame⟩, s, hs, hjson⟩ := ofData_toData oneAndInfinity
    (.of (by intro u t h; cases h) hof) hnumeric fun i hi => ⟨_, hints i hi ▸ hone⟩
  have htext : oneAndInfinity.toJson =
      .ok "\x7b\"type\": \"vec2<f32>\", \"value\": [1, Infinity]\x7d" := by
    cbv
  have hread : Json.read "\x7b\"type\": \"vec2<f32>\", \"value\": [1, Infinity]\x7d" =
      .ok (.map [(.str "type", .str "vec2<f32>"), (.str "value", .list [.int 1, .float (.inf false)])]) := by
    cbv
  cases hs.symm.trans htext
  have hc : List.Forall₂ Data.Copies [.int 1, .float (.inf false)] [.int 1, .float (.inf false)] :=
    .cons (.int 1) (.cons (.float rfl) .nil)
  obtain ⟨w, hw, -, -, hback⟩ := hjson _ hread (.map rfl (.cons (.str _) (.cons (.list hc) .nil)))
  exact ⟨hof, hdata, hsame.2 hexact, _, w, hs, hw, hback.2 hexact⟩

/-- An integer beyond the range of floats is not read back. -/
theorem ofData_toData_of_large [Stack] {i : Int} (h : Binary64.ofInt? i = none) :
    ofData (toData ⟨.int i, .scalar .i32⟩) = .error .intTooLarge := by
  have hfloat : floatOfInt i = .error .intTooLarge := by
    rw [floatOfInt, h]
  rw [toData_eq, ofData_record]
  simp only [raw, coerce, coerceScalar, hfloat, bind, Except.bind]

open scoped EffectGraph.Stack.Usual in
/-- An integer that is no float does not survive among floats, and one beyond their range
is not read back at all. -/
theorem ofData_toData_lossy :
    (∃ v w, Literal.of (.list [.int 9007199254740993, .float (.finite false 1 (-1) (by decide))]) = .ok v ∧
      v.IsNumeric ∧ ofData v.toData = .ok w ∧ same w v = false) ∧
    ∃ v, Literal.of (.int (10 ^ 400)) = .ok v ∧ v.IsNumeric ∧ ofData v.toData = .error .intTooLarge := by
  constructor
  · have hof : Literal.of (.list [.int 9007199254740993, .float (.finite false 1 (-1) (by decide))]) =
        .ok ⟨.tuple [.int 9007199254740993, .float (.finite false 1 (-1) (by decide))], .vec2f⟩ := rfl
    refine ⟨_, _, hof, ?_, ofData_toData_of_typed (typed_of_of (by intro u t h; cases h) hof) ?_, by decide +kernel⟩
    · intro s hs
      simp [parts] at hs
    · intro i hi
      have hi : i = 9007199254740993 := by simpa [parts] using hi
      have hfloat : Binary64.ofInt? 9007199254740993 = some (.finite false 4503599627370496 1 (by decide)) := by
        decide +kernel
      exact ⟨_, floatOfInt_eq_ok.2 (hi ▸ hfloat)⟩
  · refine ⟨⟨.int (10 ^ 400), .scalar .i32⟩, rfl, ?_, ofData_toData_of_large (by decide +kernel)⟩
    intro s hs
    cases List.mem_singleton.1 hs

end Literal
end EffectGraph
