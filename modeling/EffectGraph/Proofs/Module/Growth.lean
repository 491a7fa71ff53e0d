import EffectGraph.Module
import EffectGraph.Proofs.Work

/-!
# Modules only grow

Every call on a module adds at most one entry and keeps all others where they
are, whether it succeeds or not. `Grows m m'` is what that means for those who
hold handles: every expression and every property of `m` is found under the
same handle in `m'`.
-/

namespace EffectGraph.Module

theorem get_eq_ok_iff {m : Module} {h : ExprHandle} {e : Expr} :
    m.get h = .ok e ↔ m.exprs[h.index]? = some e := by
  unfold get
  split
  · next hlt => simp [Array.getElem?_eq_getElem hlt]
  · next hlt => simp [Array.getElem?_eq_none (Nat.le_of_not_lt hlt)]

theorem property_eq_ok_iff {m : Module} {p : PropertyHandle} {q : Property} :
    m.property p = .ok q ↔ m.properties[p.index]? = some q := by
  unfold property
  split
  · next hlt => simp [Array.getElem?_eq_getElem hlt]
  · next hlt => simp [Array.getElem?_eq_none (Nat.le_of_not_lt hlt)]

theorem closed_nil : ∀ (i : Nat) (h : i < (#[] : Array Expr).size), ∀ c ∈ (#[] : Array Expr)[i].children,
    c.index < i := by
  simp

/-- The operands of an expression stand before it. -/
theorem index_lt_of_get {m : Module} {h c : ExprHandle} {e : Expr} (he : m.get h = .ok e)
    (hc : c ∈ e.children) : c.index < h.index := by
  obtain ⟨hlt, rfl⟩ := Array.getElem?_eq_some_iff.1 (get_eq_ok_iff.1 he)
  exact m.index_lt_of_mem_children hlt hc

/-- A module that holds all that another holds, in the same places. -/
structure Grows (m m' : Module) : Prop where
  key : m'.key = m.key
  exprs : ∀ (i : Nat) (e : Expr), m.exprs[i]? = some e → m'.exprs[i]? = some e
  properties : ∀ (i : Nat) (p : Property), m.properties[i]? = some p → m'.properties[i]? = some p

namespace Grows

theorem refl (m : Module) : m.Grows m := ⟨rfl, fun _ _ h => h, fun _ _ h => h⟩

theorem trans {m m' m'' : Module} (h : m.Grows m') (h' : m'.Grows m'') : m.Grows m'' :=
  ⟨h'.key.trans h.key, fun i e he => h'.exprs i e (h.exprs i e he),
    fun i p hp => h'.properties i p (h.properties i p hp)⟩

theorem get {m m' : Module} (g : m.Grows m') {h : ExprHandle} {e : Expr} (he : m.get h = .ok e) :
    m'.get h = .ok e :=
  get_eq_ok_iff.2 (g.exprs _ _ (get_eq_ok_iff.1 he))

theorem property {m m' : Module} (g : m.Grows m') {p : PropertyHandle} {q : Property}
    (hq : m.property p = .ok q) : m'.property p = .ok q :=
  property_eq_ok_iff.2 (g.properties _ _ (property_eq_ok_iff.1 hq))

end Grows

theorem grows_append (m : Module) (e : Expr) (h : ∀ c ∈ e.children, c.index < m.exprs.size) :
    m.Grows (m.append e h) := by
  refine ⟨rfl, fun i e' he => ?_, fun _ _ hp => hp⟩
  have hlt : i < m.exprs.size := (Array.getElem?_eq_some_iff.1 he).1
  rw [append, Array.getElem?_push_lt hlt, ← Array.getElem?_eq_getElem hlt, he]

/-! ## Work that only adds -/

/-- Work on a module after which it holds all that it held before, whether the
work succeeds or not. -/
def Growing (f : Build α) : Prop := ∀ m : Module, m.Grows (lastState (f m))

theorem growing_reading (f : Module → Except Error α) : Growing (reading f) := by
  intro m
  unfold reading
  cases f m <;> exact .refl m

theorem reading_eq_ok {f : Module → Except Error α} {m m' : Module} {a : α} :
    reading f m = .ok a m' ↔ f m = .ok a ∧ m' = m := by
  unfold reading
  cases f m with
  | ok b => simp [eq_comm]
  | error e => simp

theorem reading_eq_error {f : Module → Except Error α} {m m' : Module} {e : Error} :
    reading f m = .error e m' ↔ f m = .error e ∧ m' = m := by
  unfold reading
  cases f m with
  | ok a => simp
  | error e' => simp [eq_comm]

theorem growing_pure (a : α) : Growing (pure a) := fun m => .refl m

theorem growing_throw (e : Error) : Growing (throw e : Build α) := fun m => .refl m

theorem growing_bind {f : Build α} {k : α → Build β} (hf : Growing f) (hk : ∀ a, Growing (k a)) :
    Growing (f >>= k) := by
  intro m
  have h := hf m
  simp only [bind, EStateM.bind]
  cases hm : f m with
  | ok a m' =>
    rw [hm] at h
    exact h.trans (hk a m')
  | error e m' =>
    rw [hm] at h
    exact h

theorem growing_declareProperty (name : Text) (v : Literal) : Growing (declareProperty name v) := by
  intro m
  unfold declareProperty
  split
  · exact .refl m
  · refine ⟨rfl, fun _ _ he => he, fun i p hp => ?_⟩
    have hlt : i < m.properties.size := (Array.getElem?_eq_some_iff.1 hp).1
    simp only [lastState]
    rw [Array.getElem?_push_lt hlt, ← Array.getElem?_eq_getElem hlt, hp]

theorem growing_addProperty (name : Text) (d : Data) : Growing (addProperty name d) := by
  intro m
  unfold addProperty
  split
  · exact .refl m
  · cases Literal.of d with
    | ok v => exact growing_declareProperty name v m
    | error e => exact .refl m

/-! ## Names of properties -/

/-- The names of the properties. -/
def propertyNames (m : Module) : List Text := m.properties.toList.map Property.name

theorem exists_property {m : Module} {name : Text} (h : name ∈ m.propertyNames) :
    ∃ p q, m.findProperty? name = some p ∧ m.property p = .ok q ∧ q.name = name := by
  obtain ⟨q, hq, rfl⟩ := List.mem_map.1 h
  cases hk : m.properties.findIdx? (·.name == q.name) with
  | none => simpa using Array.findIdx?_eq_none_iff.1 hk q (Array.mem_toList_iff.1 hq)
  | some k =>
    obtain ⟨hlt, hname, -⟩ := Array.findIdx?_eq_some_iff_getElem.1 hk
    refine ⟨⟨k⟩, m.properties[k], ?_, ?_, eq_of_beq hname⟩
    · rw [findProperty?, hk]
      rfl
    · rw [property_eq_ok_iff, Array.getElem?_eq_getElem hlt]

theorem mem_propertyNames {m : Module} {name : Text} {p : PropertyHandle}
    (h : m.findProperty? name = some p) : name ∈ m.propertyNames := by
  obtain ⟨k, hk, -⟩ := Option.map_eq_some_iff.1 h
  obtain ⟨hlt, hname, -⟩ := Array.findIdx?_eq_some_iff_getElem.1 hk
  rw [propertyNames, ← eq_of_beq hname]
  exact List.mem_map_of_mem (Array.getElem_mem_toList hlt)

theorem name_mem_propertyNames {m : Module} {p : PropertyHandle} {q : Property} (h : m.property p = .ok q) :
    q.name ∈ m.propertyNames := by
  obtain ⟨hlt, rfl⟩ := Array.getElem?_eq_some_iff.1 (property_eq_ok_iff.1 h)
  exact List.mem_map_of_mem (Array.getElem_mem_toList hlt)

/-! ## Adding entries -/

variable [Stack]

/-- Adding an expression puts it at the end, and then fails if it cannot be shown. -/
theorem push_of_children {e : Expr} {m : Module} (h : ∀ c ∈ e.children, c.index < m.size) :
    push e m = match m.obstacle? e with
      | none => .ok ⟨m.size⟩ (m.append e h)
      | some o => .error o.error (m.append e h) := by
  have hnone : e.children.find? (fun c => m.exprs.size ≤ c.index) = none := by
    simpa [size] using h
  unfold push
  split
  · next c hc =>
    rw [hnone] at hc
    cases hc
  · rfl

/-- An expression that can be shown is added if its operands are there. -/
theorem push_succeeds {e : Expr} {m : Module} (h : ∀ c ∈ e.children, c.index < m.size) (hs : m.obstacle? e = none) :
    ∃ m', push e m = .ok ⟨m.size⟩ m' := by
  rw [push_of_children h, hs]
  exact ⟨_, rfl⟩

/-- An expression with an operand that is not there is refused, which changes
nothing. -/
theorem push_refused {e : Expr} {m : Module} (h : ¬∀ c ∈ e.children, c.index < m.size) :
    ∃ err, push e m = .error err m := by
  unfold push
  split
  · exact ⟨_, rfl⟩
  · next hnone => exact absurd (by simpa [size] using hnone) h

/-- Adding an expression is refused, and changes nothing, or puts it at the end; it
fails then if the expression cannot be shown. -/
theorem push_cases (e : Expr) (m : Module) :
    (∃ err, push e m = .error err m) ∨
      ∃ h, push e m = .ok ⟨m.size⟩ (m.append e h) ∨ ∃ err, push e m = .error err (m.append e h) := by
  by_cases h : ∀ c ∈ e.children, c.index < m.size
  · refine .inr ⟨h, ?_⟩
    rw [push_of_children h]
    cases m.obstacle? e with
    | none => exact .inl rfl
    | some o => exact .inr ⟨_, rfl⟩
  · exact .inl (push_refused h)

/-- An expression that was added is found under its handle. -/
theorem push_ok {e : Expr} {m m' : Module} {h : ExprHandle} (hp : push e m = .ok h m') :
    m.Grows m' ∧ m'.get h = .ok e ∧ m'.size = m.size + 1 := by
  rcases push_cases e m with ⟨err, hp'⟩ | ⟨hc, hp' | ⟨err, hp'⟩⟩
  · rw [hp'] at hp
    cases hp
  · rw [hp'] at hp
    cases hp
    refine ⟨grows_append m e hc, get_eq_ok_iff.2 ?_, ?_⟩
    · simp [append, size]
    · simp [append, size]
  · rw [hp'] at hp
    cases hp

theorem growing_push (e : Expr) : Growing (push e) := by
  intro m
  rcases push_cases e m with ⟨err, h⟩ | ⟨hc, h | ⟨err, h⟩⟩
  · rw [h]
    exact .refl m
  · rw [h]
    exact grows_append m e hc
  · rw [h]
    exact grows_append m e hc

theorem growing_lit (d : Data) : Growing (lit d) :=
  growing_bind (growing_reading _) fun v => growing_push (.literal v)

theorem growing_prop (p : PropertyHandle) : Growing (prop p) :=
  growing_bind (growing_reading _) fun _ => growing_push (.property p)

/-! ## Runs of calls -/

/-- A call that adds to a module. -/
inductive Call where
  | push (e : Expr)
  | lit (d : Data)
  | attr (a : Attribute)
  | builtin (b : Builtin)
  | prop (p : PropertyHandle)
  | binary (op : BinaryOp) (l r : ExprHandle)
  | unary (op : UnaryOp) (x : ExprHandle)
  | declareProperty (name : Text) (default : Literal)
  | addProperty (name : Text) (default : Data)

/-- The module after a call. -/
def after (m : Module) : Call → Module
  | .push e => lastState (push e m)
  | .lit d => lastState (lit d m)
  | .attr a => lastState (attr a m)
  | .builtin b => lastState (builtin b m)
  | .prop p => lastState (prop p m)
  | .binary op l r => lastState (binary op l r m)
  | .unary op x => lastState (unary op x m)
  | .declareProperty name v => lastState (declareProperty name v m)
  | .addProperty name d => lastState (addProperty name d m)

/-- A call keeps all that a module holds. -/
theorem grows_after (m : Module) (c : Call) : m.Grows (m.after c) := by
  cases c with
  | lit d => exact growing_lit d m
  | prop p => exact growing_prop p m
  | declareProperty name v => exact growing_declareProperty name v m
  | addProperty name d => exact growing_addProperty name d m
  | push e => exact growing_push e m
  | attr a => exact growing_push (.attribute a) m
  | builtin b => exact growing_push (.builtin b) m
  | binary op l r => exact growing_push (.binary op l r) m
  | unary op x => exact growing_push (.unary op x) m

end EffectGraph.Module
