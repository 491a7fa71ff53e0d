import EffectGraph.Proofs.Data.Showing
import EffectGraph.Proofs.Module.Growth
import Mathlib.Data.List.Induction

/-!
# Runs of calls on a module

A call on a module is refused, which changes nothing, or adds one entry at the end
and returns its handle (`run_cases`). An expression that cannot be shown is added
like any other, but the call then fails and nobody gets its handle. So after any
calls on a new module, failed ones among them, the operands of every expression
stand before it, what a handle leads to stays what it is, and properties have
different names (`built_arena`).
-/

namespace EffectGraph.Module

/-! ## Whole modules -/

/-- No walk along operands goes on forever. -/
theorem wellFounded_operands (m : Module) :
    WellFounded fun c h : ExprHandle => ∃ e, m.get h = .ok e ∧ c ∈ e.children :=
  Subrelation.wf (fun ⟨_, he, hc⟩ => index_lt_of_get he hc) (InvImage.wf ExprHandle.index Nat.lt_wfRel.wf)

/-- Where names are apart, a name leads to the one property that has it. -/
theorem findProperty?_eq_some_iff {m : Module} (hn : m.propertyNames.Nodup) {name : Text} {p : PropertyHandle} :
    m.findProperty? name = some p ↔ ∃ q, m.property p = .ok q ∧ q.name = name := by
  constructor
  · intro h
    obtain ⟨k, hk, rfl⟩ := Option.map_eq_some_iff.1 h
    obtain ⟨hlt, hname, -⟩ := Array.findIdx?_eq_some_iff_getElem.1 hk
    exact ⟨m.properties[k], property_eq_ok_iff.2 (Array.getElem?_eq_getElem hlt), eq_of_beq hname⟩
  · rintro ⟨q, hq, rfl⟩
    have hplace : ∀ {r : PropertyHandle} {q' : Property}, m.property r = .ok q' →
        m.propertyNames[r.index]? = some q'.name := by
      intro r q' hr
      rw [propertyNames, List.getElem?_map, Array.getElem?_toList, property_eq_ok_iff.1 hr]
      rfl
    obtain ⟨p', q', hfound, hq', hname⟩ := exists_property (List.mem_of_getElem? (hplace hq))
    have hindex : p'.index = p.index := by
      obtain ⟨hlt, -⟩ := List.getElem?_eq_some_iff.1 (hplace hq')
      exact (List.getElem?_inj hlt hn).1 ((hplace hq').trans (hname ▸ (hplace hq).symm))
    rw [hfound]
    cases p'
    cases p
    exact congrArg (fun k => some (PropertyHandle.mk k)) hindex

/-! ## What a call does -/

/-- What a call returns: the handle of what it has added. -/
inductive Entry where
  | expr (h : ExprHandle)
  | property (p : PropertyHandle)

/-- The expression that a call is to add. -/
inductive Call.Builds : Call → Expr → Prop
  | push (e : Expr) : Builds (.push e) e
  | lit {d : Data} {v : Literal} : Literal.of d = .ok v → Builds (.lit d) (.literal v)
  | attr (a : Attribute) : Builds (.attr a) (.attribute a)
  | builtin (b : Builtin) : Builds (.builtin b) (.builtin b)
  | prop (p : PropertyHandle) : Builds (.prop p) (.property p)
  | binary (op : BinaryOp) (l r : ExprHandle) : Builds (.binary op l r) (.binary op l r)
  | unary (op : UnaryOp) (x : ExprHandle) : Builds (.unary op x) (.unary op x)

/-- The property that a call is to declare. -/
inductive Call.Declares : Call → Property → Prop
  | declareProperty (name : Text) (v : Literal) : Declares (.declareProperty name v) ⟨name, v⟩
  | addProperty (name : Text) {d : Data} {v : Literal} : Literal.of d = .ok v →
      Declares (.addProperty name d) ⟨name, v⟩

/-- The module with one more property. -/
def withProperty (m : Module) (q : Property) : Module := { m with properties := m.properties.push q }

theorem map_eq_ok {f : α → β} {x : Build α} {m m' : Module} {a : α} (h : x m = .ok a m') :
    (f <$> x) m = .ok (f a) m' := by
  simp only [Functor.map, EStateM.map, h]

theorem map_eq_error {f : α → β} {x : Build α} {m m' : Module} {e : Error} (h : x m = .error e m') :
    (f <$> x) m = .error e m' := by
  simp only [Functor.map, EStateM.map, h]

/-- What a call needs to add an expression: its operands, and the property that is to
be read. -/
structure Fits (m : Module) (c : Call) (e : Expr) : Prop where
  builds : c.Builds e
  operands : ∀ x ∈ e.children, x.index < m.size
  declared : ∀ p, c = .prop p → ∃ q, m.property p = .ok q

/-- A call adds at most one expression. -/
theorem Call.Builds.unique {c : Call} {e e' : Expr} (h : c.Builds e) (h' : c.Builds e') : e = e' := by
  cases h with
  | lit hd =>
    cases h' with
    | lit hd' =>
      rw [hd] at hd'
      cases hd'
      rfl
  | _ =>
    cases h'
    rfl

/-- No call adds an expression and declares a property. -/
theorem Call.Builds.not_declares {c : Call} {e : Expr} {q : Property} (h : c.Builds e) : ¬c.Declares q := by
  cases h <;> nofun

section

variable [Stack]

/-- The work of a call. -/
def run : Call → Build Entry
  | .push e => Entry.expr <$> push e
  | .lit d => Entry.expr <$> lit d
  | .attr a => Entry.expr <$> attr a
  | .builtin b => Entry.expr <$> builtin b
  | .prop p => Entry.expr <$> prop p
  | .binary op l r => Entry.expr <$> binary op l r
  | .unary op x => Entry.expr <$> unary op x
  | .declareProperty name v => Entry.property <$> declareProperty name v
  | .addProperty name d => Entry.property <$> addProperty name d

/-- A call that fits is the push of its expression. -/
theorem Fits.run {m : Module} {c : Call} {e : Expr} (h : m.Fits c e) :
    Module.run c m = (Entry.expr <$> Module.push e) m := by
  obtain ⟨hb, -, hp⟩ := h
  cases hb with
  | lit hd => simp only [Module.run, Functor.map, EStateM.map, lit, bind, EStateM.bind, reading, hd]
  | prop p =>
    obtain ⟨q, hq⟩ := hp p rfl
    simp only [Module.run, Functor.map, EStateM.map, prop, bind, EStateM.bind, reading, hq]
  | _ => rfl

/-- A call that fits adds its expression, and then fails if it cannot be shown. -/
theorem Fits.run_eq {m : Module} {c : Call} {e : Expr} (h : m.Fits c e) :
    Module.run c m = match m.obstacle? e with
      | none => .ok (.expr ⟨m.size⟩) (m.append e h.operands)
      | some o => .error o.error (m.append e h.operands) := by
  rw [h.run]
  have hpush := push_of_children h.operands
  cases ho : m.obstacle? e with
  | none =>
    rw [ho] at hpush
    exact map_eq_ok hpush
  | some o =>
    rw [ho] at hpush
    exact map_eq_error hpush

/-- A call that declares a property whose name is new. -/
theorem run_of_declares {m : Module} {c : Call} {q : Property} (hd : c.Declares q)
    (hnew : m.findProperty? q.name = none) :
    run c m = .ok (.property ⟨m.properties.size⟩) (m.withProperty q) := by
  have hdeclare : declareProperty q.name q.default m = .ok ⟨m.properties.size⟩ (m.withProperty q) := by
    simp [declareProperty, hnew, withProperty]
  cases hd with
  | declareProperty name v => exact map_eq_ok hdeclare
  | @addProperty name d v hv =>
    refine map_eq_ok ?_
    simp only [addProperty, hnew, hv, hdeclare, Option.isSome_none, Bool.false_eq_true, if_false]

/-- A call that adds an expression whose operands are not all there. -/
theorem push_of_not_fits {m : Module} {c : Call} {e : Expr} (hb : c.Builds e) (hc : ∀ p, c ≠ .prop p)
    (h : ¬∃ e, m.Fits c e) : ∃ err, push e m = .error err m :=
  push_refused fun hops => h ⟨e, hb, hops, fun p hp => absurd hp (hc p)⟩

/-- A call that has nothing to add is refused, and changes nothing. -/
theorem run_refused {m : Module} {c : Call} (hfits : ¬∃ e, m.Fits c e)
    (hnew : ¬∃ q, c.Declares q ∧ m.findProperty? q.name = none) : ∃ err, run c m = .error err m := by
  cases c with
  | push e =>
    obtain ⟨err, he⟩ := push_of_not_fits (.push e) nofun hfits
    exact ⟨err, map_eq_error he⟩
  | binary op l r =>
    obtain ⟨err, he⟩ := push_of_not_fits (.binary op l r) nofun hfits
    exact ⟨err, map_eq_error he⟩
  | unary op x =>
    obtain ⟨err, he⟩ := push_of_not_fits (.unary op x) nofun hfits
    exact ⟨err, map_eq_error he⟩
  | attr a => exact absurd ⟨_, .attr a, nofun, nofun⟩ hfits
  | builtin b => exact absurd ⟨_, .builtin b, nofun, nofun⟩ hfits
  | lit d =>
    cases hd : Literal.of d with
    | ok v => exact absurd ⟨_, .lit hd, nofun, nofun⟩ hfits
    | error e =>
      refine ⟨e, map_eq_error ?_⟩
      simp only [lit, bind, EStateM.bind, reading, hd]
  | prop p =>
    cases hp : m.property p with
    | ok q => exact absurd ⟨_, .prop p, nofun, fun p' hp' => by cases hp'; exact ⟨q, hp⟩⟩ hfits
    | error e =>
      refine ⟨e, map_eq_error ?_⟩
      simp only [prop, bind, EStateM.bind, reading, hp]
  | declareProperty name v =>
    cases hname : m.findProperty? name with
    | none => exact absurd ⟨_, .declareProperty name v, hname⟩ hnew
    | some p => exact ⟨.duplicateProperty name, map_eq_error (by simp [declareProperty, hname])⟩
  | addProperty name d =>
    cases hname : m.findProperty? name with
    | some p => exact ⟨.duplicateProperty name, map_eq_error (by simp [addProperty, hname])⟩
    | none =>
      cases hd : Literal.of d with
      | ok v => exact absurd ⟨_, .addProperty name hd, hname⟩ hnew
      | error e => exact ⟨e, map_eq_error (by simp [addProperty, hname, hd])⟩

/-- A call is refused and changes nothing, or puts the expression that it is to add at
the end, which fails if that cannot be shown, or declares the property that it is to
declare, whose name is new. -/
theorem run_cases (c : Call) (m : Module) :
    ((¬∃ e, m.Fits c e) ∧ (¬∃ q, c.Declares q ∧ m.findProperty? q.name = none) ∧ ∃ err, run c m = .error err m) ∨
      (∃ e, ∃ h : m.Fits c e, m.obstacle? e = none ∧ run c m = .ok (.expr ⟨m.size⟩) (m.append e h.operands)) ∨
      (∃ e o, ∃ h : m.Fits c e, m.obstacle? e = some o ∧ run c m = .error o.error (m.append e h.operands)) ∨
      ∃ q, c.Declares q ∧ m.findProperty? q.name = none ∧
        run c m = .ok (.property ⟨m.properties.size⟩) (m.withProperty q) := by
  by_cases hfits : ∃ e, m.Fits c e
  · obtain ⟨e, h⟩ := hfits
    have hrun := h.run_eq
    cases ho : m.obstacle? e with
    | none =>
      rw [ho] at hrun
      exact .inr (.inl ⟨e, h, ho, hrun⟩)
    | some o =>
      rw [ho] at hrun
      exact .inr (.inr (.inl ⟨e, o, h, ho, hrun⟩))
  · by_cases hnew : ∃ q, c.Declares q ∧ m.findProperty? q.name = none
    · obtain ⟨q, hd, hname⟩ := hnew
      exact .inr (.inr (.inr ⟨q, hd, hname, run_of_declares hd hname⟩))
    · exact .inl ⟨hfits, hnew, run_refused hfits hnew⟩

/-- What a call needs to succeed: an expression that fits and can be shown, or a name
that is new. -/
def Admits (m : Module) (c : Call) : Prop :=
  (∃ e, m.Fits c e ∧ m.obstacle? e = none) ∨ ∃ q, c.Declares q ∧ m.findProperty? q.name = none

/-- A call succeeds if the module has what it needs, and only then. -/
theorem run_succeeds_iff {m : Module} {c : Call} : (∃ r m', run c m = .ok r m') ↔ m.Admits c := by
  rcases run_cases c m with ⟨hfits, hnew, err, h⟩ | ⟨e, hf, ho, h⟩ | ⟨e, o, hf, ho, h⟩ | ⟨q, hd, hname, h⟩
  · simp only [h, reduceCtorEq, exists_false, false_iff]
    rintro (⟨e, hf, -⟩ | hdecl)
    · exact hfits ⟨e, hf⟩
    · exact hnew hdecl
  · exact ⟨fun _ => .inl ⟨e, hf, ho⟩, fun _ => ⟨_, _, h⟩⟩
  · simp only [h, reduceCtorEq, exists_false, false_iff]
    rintro (⟨e', hf', ho'⟩ | ⟨q, hd, -⟩)
    · rw [hf.builds.unique hf'.builds, ho'] at ho
      cases ho
    · exact hf.builds.not_declares hd
  · exact ⟨fun _ => .inr ⟨q, hd, hname⟩, fun _ => ⟨_, _, h⟩⟩

/-- Only a literal or an expression of the caller's own may not be showable. -/
theorem obstacle_of_fits {m : Module} {c : Call} {e : Expr} {o : Data.Obstacle} (h : m.Fits c e)
    (ho : m.obstacle? e = some o) : (∃ e, c = .push e) ∨ ∃ d, c = .lit d := by
  obtain ⟨hb, -, hp⟩ := h
  cases hb with
  | push e => exact .inl ⟨e, rfl⟩
  | lit hd => exact .inr ⟨_, rfl⟩
  | prop p =>
    obtain ⟨q, hq⟩ := hp p rfl
    obtain ⟨hlt, -⟩ := Array.getElem?_eq_some_iff.1 (property_eq_ok_iff.1 hq)
    simp [obstacle?, hlt] at ho
  | _ => simp [obstacle?] at ho

/-- The module that a call leaves behind. -/
theorem lastState_run (c : Call) (m : Module) : lastState (run c m) = m.after c := by
  have hmap : ∀ {α : Type} (f : α → Entry) (x : Build α), lastState ((f <$> x) m) = lastState (x m) := by
    intro α f x
    cases hx : x m with
    | ok a m' => rw [map_eq_ok hx, lastState, lastState]
    | error e m' => rw [map_eq_error hx, lastState, lastState]
  cases c <;> exact hmap _ _

/-! ## What a run leaves behind -/

/-- A module that holds nothing. -/
def empty (key : Nat) : Module where
  key := key
  closed := closed_nil

/-- The module that calls make of a new one. -/
def built (key : Nat) (calls : List Call) : Module := calls.foldl after (empty key)

theorem built_snoc (key : Nat) (calls : List Call) (c : Call) :
    built key (calls ++ [c]) = (built key calls).after c := by
  simp [built]

/-- Further calls keep all that a module holds. -/
theorem grows_built (key : Nat) (calls later : List Call) :
    (built key calls).Grows (built key (calls ++ later)) := by
  induction later using List.reverseRecOn with
  | nil =>
    rw [List.append_nil]
    exact .refl _
  | append_singleton later c ih =>
    rw [← List.append_assoc, built_snoc]
    exact ih.trans (grows_after _ c)

/-- A call keeps the names of properties apart. -/
theorem nodup_propertyNames_after {m : Module} (hn : m.propertyNames.Nodup) (c : Call) :
    (m.after c).propertyNames.Nodup := by
  rw [← lastState_run]
  rcases run_cases c m with ⟨-, -, err, h⟩ | ⟨e, hf, -, h⟩ | ⟨e, o, hf, -, h⟩ | ⟨q, -, hnew, h⟩
  · rw [h]
    exact hn
  · rw [h]
    exact hn
  · rw [h]
    exact hn
  · rw [h]
    have hfree : q.name ∉ m.propertyNames := by
      intro hmem
      obtain ⟨p, -, hp, -⟩ := exists_property hmem
      rw [hnew] at hp
      cases hp
    rw [lastState, propertyNames, withProperty, Array.toList_push, List.map_append]
    refine List.nodup_append.2 ⟨hn, List.pairwise_singleton _ _, ?_⟩
    rintro name hname _ hlast rfl
    exact hfree (List.mem_singleton.1 hlast ▸ hname)

theorem nodup_propertyNames_built (key : Nat) (calls : List Call) : (built key calls).propertyNames.Nodup := by
  induction calls using List.reverseRecOn with
  | nil => exact List.nodup_nil
  | append_singleton calls c ih =>
    rw [built_snoc]
    exact nodup_propertyNames_after ih c

/-- What a call adds stands at the end, and is what the call is to add. A call that
fails has added nothing, or an expression that cannot be shown. -/
theorem run_adds (c : Call) (m : Module) : match run c m with
    | .ok (.expr h) m' => h.id = m'.size ∧ m'.properties = m.properties ∧
        ∃ e, c.Builds e ∧ m'.exprs = m.exprs.push e
    | .ok (.property p) m' => p.id = m'.properties.size ∧ m'.exprs = m.exprs ∧
        ∃ q, c.Declares q ∧ m'.properties = m.properties.push q
    | .error err m' => ((¬∃ e, m.Fits c e) ∧ m' = m) ∨
        ((∃ e, c = .push e) ∨ ∃ d, c = .lit d) ∧ m'.properties = m.properties ∧
          ∃ e o, m.Fits c e ∧ m.obstacle? e = some o ∧ err = o.error ∧ m'.exprs = m.exprs.push e := by
  rcases run_cases c m with ⟨hfits, -, err, h⟩ | ⟨e, hf, -, h⟩ | ⟨e, o, hf, ho, h⟩ | ⟨q, hd, -, h⟩
  · rw [h]
    exact .inl ⟨hfits, rfl⟩
  · rw [h]
    exact ⟨by simp [ExprHandle.id, append, size], rfl, e, hf.builds, rfl⟩
  · rw [h]
    exact .inr ⟨obstacle_of_fits hf ho, rfl, e, o, hf, ho, rfl, rfl⟩
  · rw [h]
    exact ⟨by simp [PropertyHandle.id, withProperty], rfl, q, hd, rfl⟩

/-- A read of a property stays one, and so does the property. -/
theorem built_prop {key : Nat} {calls : List Call} {p : PropertyHandle} {h : ExprHandle} {m' : Module}
    (hp : run (.prop p) (built key calls) = .ok (.expr h) m') :
    ∃ q, (built key calls).property p = .ok q ∧ ∀ later,
      (built key (calls ++ .prop p :: later)).get h = .ok (.property p) ∧
      (built key (calls ++ .prop p :: later)).property p = .ok q := by
  have hafter : m' = built key (calls ++ [.prop p]) := by
    rw [built_snoc, ← lastState_run]
    exact (congrArg lastState hp).symm
  obtain ⟨e, hf, hget⟩ : ∃ e, (built key calls).Fits (.prop p) e ∧ m'.get h = .ok e := by
    rcases run_cases (.prop p) (built key calls) with ⟨-, -, err, h'⟩ | ⟨e, hf, -, h'⟩ | ⟨e, o, hf, -, h'⟩ | ⟨q, hd, -⟩
    · rw [h'] at hp
      cases hp
    · rw [h'] at hp
      cases hp
      exact ⟨e, hf, by simp [get_eq_ok_iff, append, size]⟩
    · rw [h'] at hp
      cases hp
    · cases hd
  obtain ⟨q, hq⟩ := hf.declared p rfl
  have he : e = .property p := hf.builds.unique (.prop p)
  refine ⟨q, hq, fun later => ?_⟩
  have hlater : calls ++ .prop p :: later = (calls ++ [.prop p]) ++ later := by simp
  rw [hlater]
  refine ⟨(grows_built key _ later).get (hafter ▸ he ▸ hget), ?_⟩
  rw [List.append_assoc]
  exact (grows_built key calls _).property hq

/-- After any calls on a new module, failed ones among them:
the operands of the `k`-th expression are among the first `k - 1`, so every walk
along operands ends;
a further call succeeds just if the module has what it needs, and then it adds the
expression, or the property, that it is to add, and returns its number, which is
how many there are then; a call that fails leaves the module as it is, unless it has
all it needs to add an expression that cannot be shown, which then stays;
what a handle leads to, it leads to after all further calls;
no two properties have the same name, and a name leads to the property that has it;
and a read of a property that was added as such reads a property of the module,
now and later. -/
theorem built_arena (key : Nat) (calls : List Call) :
    let m := built key calls
    (∀ h e, m.get h = .ok e → ∀ c ∈ e.children, 1 ≤ c.id ∧ c.id ≤ h.id - 1) ∧
    (WellFounded fun c h : ExprHandle => ∃ e, m.get h = .ok e ∧ c ∈ e.children) ∧
    (∀ c, (∃ r m', run c m = .ok r m') ↔ m.Admits c) ∧
    (∀ c, match run c m with
      | .ok (.expr h) m' => h.id = m'.size ∧ m'.properties = m.properties ∧
          ∃ e, c.Builds e ∧ m'.exprs = m.exprs.push e
      | .ok (.property p) m' => p.id = m'.properties.size ∧ m'.exprs = m.exprs ∧
          ∃ q, c.Declares q ∧ m'.properties = m.properties.push q
      | .error err m' => ((¬∃ e, m.Fits c e) ∧ m' = m) ∨
          ((∃ e, c = .push e) ∨ ∃ d, c = .lit d) ∧ m'.properties = m.properties ∧
            ∃ e o, m.Fits c e ∧ m.obstacle? e = some o ∧ err = o.error ∧ m'.exprs = m.exprs.push e) ∧
    (∀ later h e, m.get h = .ok e → (built key (calls ++ later)).get h = .ok e) ∧
    (∀ later p q, m.property p = .ok q → (built key (calls ++ later)).property p = .ok q) ∧
    m.propertyNames.Nodup ∧
    (∀ name p, m.findProperty? name = some p ↔ ∃ q, m.property p = .ok q ∧ q.name = name) ∧
    ∀ p h m', run (.prop p) m = .ok (.expr h) m' → ∃ q, m.property p = .ok q ∧ ∀ later,
      (built key (calls ++ .prop p :: later)).get h = .ok (.property p) ∧
      (built key (calls ++ .prop p :: later)).property p = .ok q := by
  intro m
  refine ⟨fun h e he c hc => ?_, wellFounded_operands m, fun c => run_succeeds_iff, fun c => run_adds c m,
    fun later h e he => (grows_built key calls later).get he,
    fun later p q hq => (grows_built key calls later).property hq, nodup_propertyNames_built key calls,
    fun name p => findProperty?_eq_some_iff (nodup_propertyNames_built key calls), fun p h m' hp => built_prop hp⟩
  have hlt : c.index < h.index := index_lt_of_get he hc
  simp only [ExprHandle.id]
  omega

/-- A literal of an integer that is too long stays, though the call fails. -/
theorem lit_long (m : Module) {i : Int} (h : 10 ^ Reading.maxDigits ≤ i.natAbs) :
    run (.lit (.int i)) m =
      .error .longInteger (m.append (.literal ⟨.int i, .scalar .i32⟩) nofun) := by
  have hfits : m.Fits (.lit (.int i)) (.literal ⟨.int i, .scalar .i32⟩) := ⟨.lit rfl, nofun, nofun⟩
  have hobstacle : m.obstacle? (.literal ⟨.int i, .scalar .i32⟩) = some .longInteger := by
    rw [obstacle?, Data.obstacle?_literal_int, if_pos (Data.isLong_iff.2 h)]
  rw [hfits.run_eq, hobstacle]
  rfl

end

open scoped EffectGraph.Stack.Usual in
/-- A call that fails and leaves an expression behind. -/
theorem failed_call_adds : ∃ err m', run (.lit (.int (10 ^ 5000))) (built 0 []) = .error err m' ∧
    (built 0 []).size = 0 ∧ m'.size = 1 := by
  have hlong : 10 ^ Reading.maxDigits ≤ ((10 : Int) ^ 5000).natAbs := by
    rw [Int.natAbs_pow]
    apply Nat.pow_le_pow_right
    · decide
    · decide
  exact ⟨_, _, lit_long _ hlong, rfl, rfl⟩

end EffectGraph.Module
