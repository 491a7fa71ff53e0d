import EffectGraph.Proofs.Rendering

/-!
# The texts a writer remembers

`Faithful m w` is what holds of a writer of module `m` at every moment: the
expressions with a text are closed under operands and were rendered once each,
and a bound expression has the name of its local for its text, any other a
rendering of its own. It survives each step of rendering, each declaration, and
the growth of the module.
-/

namespace EffectGraph

namespace Table

/-- A value in a new place is one value more. -/
theorem size_insert_of_none {t : Table α} {i : Nat} (h : t.get? i = none) (a : α) :
    (t.insert i a).size = t.size + 1 := by
  unfold size insert
  dsimp only
  split
  · next hlt =>
    have hcell : t.cells[i] = none := by
      simpa [get?, Array.getElem?_eq_getElem hlt] using h
    rw [Array.setIfInBounds, dif_pos hlt, Array.countP_set hlt, hcell]
    simp
  · rw [Array.countP_push_of_pos rfl, Array.countP_append, Array.countP_replicate]
    simp

/-- A new value in a place that has one leaves as many as there were. -/
theorem size_insert_of_some {t : Table α} {i : Nat} {b : α} (h : t.get? i = some b) (a : α) :
    (t.insert i a).size = t.size := by
  have hcell : t.cells[i]? = some (some b) := by
    simpa [get?, Option.join_eq_some_iff] using h
  obtain ⟨hlt, hcell⟩ := Array.getElem?_eq_some_iff.1 hcell
  have hpos : 0 < t.cells.countP Option.isSome :=
    Array.countP_pos_iff.2 ⟨t.cells[i], Array.getElem_mem hlt, by simp [hcell]⟩
  unfold size insert
  dsimp only
  rw [if_pos hlt, Array.setIfInBounds, dif_pos hlt, Array.countP_set hlt, hcell]
  simp only [Option.isSome_some, if_true]
  omega

end Table

namespace Writer

/-- The writer after it has declared a local for an expression that has a text. -/
def withLocal (w : Writer) (h : ExprHandle) (n : Text) : Writer :=
  { w with
    taken := w.taken.insert n
    statements := w.statements.push (.binding n (w.rendering.text h))
    rendering := w.rendering.replace h n
    locals := w.locals ++ [(h, n)] }

/-- What holds of a writer that renders from module `m`. -/
structure Faithful (m : Module) (w : Writer) : Prop where
  closed : ∀ h, w.rendering.contains h → ∃ e, m.get h = .ok e ∧ ∀ c ∈ e.children, w.rendering.contains c
  counted : w.rendering.count = w.rendering.texts.size
  bound : ∀ h n, (h, n) ∈ w.locals → w.rendering.texts.get? h.index = some n
  own : ∀ h t, w.rendering.texts.get? h.index = some t → (∀ n, (h, n) ∉ w.locals) →
    ∃ e texts, m.get h = .ok e ∧ (∀ c ∈ e.children, Renders m w.locals c (texts c)) ∧
      e.render m (e.children.map texts) = .ok t
  once : (w.locals.map Prod.fst).Nodup

theorem faithful_new (m : Module) (stem : Text) : Faithful m { stem := stem } where
  closed h hh := by simp [Rendering.contains, Table.contains] at hh
  counted := rfl
  bound := by simp
  own h t ht := by simp at ht
  once := List.nodup_nil

namespace Faithful

variable {m : Module} {w : Writer}

theorem text_local (f : Faithful m w) {h : ExprHandle} {t : Text}
    (ht : w.rendering.texts.get? h.index = some t) {n : Text} (hn : (h, n) ∈ w.locals) : t = n := by
  rw [f.bound h n hn] at ht
  exact (Option.some.inj ht).symm

/-- The text of an expression is one of its texts. -/
theorem renders (f : Faithful m w) {h : ExprHandle} {t : Text}
    (ht : w.rendering.texts.get? h.index = some t) : Renders m w.locals h t := by
  by_cases hb : ∃ n, (h, n) ∈ w.locals
  · obtain ⟨n, hn⟩ := hb
    rw [f.text_local ht hn]
    exact .name hn
  · obtain ⟨e, texts, he, hc, hr⟩ := f.own h t ht fun n hn => hb ⟨n, hn⟩
    exact .expr texts he hc hr

/-- Without a local, the text of an expression is one of its own. -/
theorem own_text (f : Faithful m w) {h : ExprHandle} {e : Expr} {t : Text}
    (ht : w.rendering.texts.get? h.index = some t) (he : m.get h = .ok e) (hfree : ∀ n, (h, n) ∉ w.locals) :
    ∃ texts, (∀ c ∈ e.children, Renders m w.locals c (texts c)) ∧ e.render m (e.children.map texts) = .ok t := by
  obtain ⟨e', texts, he', hc, hr⟩ := f.own h t ht hfree
  rw [he] at he'
  cases he'
  exact ⟨texts, hc, hr⟩

theorem renders_text (f : Faithful m w) {h : ExprHandle} (hh : w.rendering.contains h) :
    Renders m w.locals h (w.rendering.text h) := by
  obtain ⟨t, ht⟩ := Rendering.contains_iff.1 hh
  rw [Rendering.text_eq ht]
  exact f.renders ht

/-- Only texts and locals matter. -/
theorem of_same (f : Faithful m w) {w' : Writer} (hr : w'.rendering = w.rendering) (hl : w'.locals = w.locals) :
    Faithful m w' where
  closed := by rw [hr]; exact f.closed
  counted := by rw [hr]; exact f.counted
  bound := by rw [hr, hl]; exact f.bound
  own := by rw [hr, hl]; exact f.own
  once := by rw [hl]; exact f.once

/-- The module may grow. -/
theorem grow (f : Faithful m w) {m' : Module} (g : m.Grows m') : Faithful m' w where
  closed h hh := by
    obtain ⟨e, he, hc⟩ := f.closed h hh
    exact ⟨e, g.get he, hc⟩
  counted := f.counted
  bound := f.bound
  own h t ht hn := by
    obtain ⟨e, texts, he, hc, hr⟩ := f.own h t ht hn
    exact ⟨e, texts, g.get he, fun c hm => (hc c hm).mono g fun _ hp => hp, Expr.render_grows g hr⟩
  once := f.once

/-- Recording a text: the expression is new, so no local holds it, and its
operands have texts. -/
theorem step (f : Faithful m w) {s : Rendering} (st : Rendering.Step m w.rendering s) :
    Faithful m { w with rendering := s } := by
  obtain ⟨he, hnew, hc, hr⟩ := st
  next h e t =>
  have hkeep : ∀ c, w.rendering.contains c → (w.rendering.record h t).contains c := fun c hh =>
    Rendering.Steps.contains (.single (.record he hnew hc hr)) hh
  refine ⟨fun x hx => ?_, ?_, fun x n hn => ?_, fun x t' ht hn => ?_, f.once⟩
  · by_cases hxh : x = h
    · subst hxh
      exact ⟨e, he, fun c hm => hkeep c (hc c hm)⟩
    · obtain ⟨t', ht'⟩ := Rendering.contains_iff.1 hx
      rw [Rendering.get?_record, if_neg hxh] at ht'
      obtain ⟨e', he', hc'⟩ := f.closed x (Rendering.contains_iff.2 ⟨t', ht'⟩)
      exact ⟨e', he', fun c hm => hkeep c (hc' c hm)⟩
  · change w.rendering.count + 1 = (w.rendering.texts.insert h.index t).size
    rw [Table.size_insert_of_none hnew, f.counted]
  · -- A bound expression has a text, so it is not the one recorded.
    have hb := f.bound x n hn
    rw [Rendering.get?_record, if_neg]
    · exact hb
    · rintro rfl
      rw [hnew] at hb
      cases hb
  · by_cases hxh : x = h
    · subst hxh
      rw [Rendering.get?_record, if_pos rfl] at ht
      cases ht
      exact ⟨e, w.rendering.text, he, fun c hm => f.renders_text (hc c hm), hr⟩
    · rw [Rendering.get?_record, if_neg hxh] at ht
      exact f.own x t' ht hn

theorem steps (f : Faithful m w) {s : Rendering} (st : Rendering.Steps m w.rendering s) :
    Faithful m { w with rendering := s } := by
  induction st with
  | refl => exact f
  | tail _ st ih => exact ih.step st

/-- Declaring a local for an expression that has a text and no local yet. -/
theorem withLocal (f : Faithful m w) {h : ExprHandle} (hh : w.rendering.contains h)
    (hn : ∀ n, (h, n) ∉ w.locals) (n : Text) : Faithful m (w.withLocal h n) := by
  unfold Writer.withLocal
  have hmore : ∀ p ∈ w.locals, p ∈ w.locals ++ [(h, n)] := fun p hp => List.mem_append_left _ hp
  obtain ⟨t, ht⟩ := Rendering.contains_iff.1 hh
  refine ⟨fun x hx => ?_, ?_, fun x n' hm => ?_, fun x t' ht' hn' => ?_, ?_⟩
  · obtain ⟨e, he, hc⟩ := f.closed x ((Rendering.contains_replace hh _).1 hx)
    exact ⟨e, he, fun c hm => (Rendering.contains_replace hh _).2 (hc c hm)⟩
  · change w.rendering.count = (w.rendering.texts.insert h.index n).size
    rw [Table.size_insert_of_some ht, f.counted]
  · rw [Rendering.get?_replace]
    rcases List.mem_append.1 hm with hold | hnew
    · rw [if_neg]
      · exact f.bound x n' hold
      · rintro rfl
        exact hn n' hold
    · rw [List.mem_singleton, Prod.mk.injEq] at hnew
      rw [if_pos hnew.1, hnew.2]
  · have hxh : x ≠ h := by
      rintro rfl
      exact hn' n (List.mem_append_right _ (List.mem_singleton.2 rfl))
    -- A text made before the local was declared is still one of its texts.
    rw [Rendering.get?_replace, if_neg hxh] at ht'
    obtain ⟨e, texts, he, hc, hr⟩ := f.own x t' ht' fun n' hm => hn' n' (hmore _ hm)
    exact ⟨e, texts, he, fun c hm => (hc c hm).mono (.refl m) hmore, hr⟩
  · rw [List.map_append, List.nodup_append]
    refine ⟨f.once, by simp, ?_⟩
    rintro a ha b hb rfl
    rw [List.map_cons, List.map_nil, List.mem_singleton] at hb
    subst hb
    obtain ⟨⟨h', n'⟩, hm, rfl⟩ := List.mem_map.1 ha
    exact hn n' hm

end Faithful

/-! ## What the calls do -/

theorem lookup_eq_none {V : Bindings} {h : ExprHandle} (hl : V.lookup h = none) : ∀ n, (h, n) ∉ V := by
  intro n hn
  rw [List.lookup_eq_none_iff] at hl
  simpa using hl _ hn

/-- A writer renders from module `m`, or from none so far. -/
def Serves (m : Module) (w : Writer) : Prop := ∀ key, w.arena = some key → key = m.key

theorem bindModule_eq_ok {m : Module} {w w' : Writer} :
    bindModule m w = .ok () w' ↔ Serves m w ∧ w' = { w with arena := some m.key } := by
  unfold bindModule Serves
  obtain ⟨stem, arena, rendering, locals, taken, reserved, counter, statements⟩ := w
  cases arena with
  | none => simp [eq_comm]
  | some key =>
    by_cases hkey : key = m.key
    · simp [hkey, eq_comm]
    · simp [hkey]

theorem bindModule_of_not_serves {m : Module} {w : Writer} (hw : ¬Serves m w) :
    bindModule m w = .error .secondModule w := by
  unfold bindModule
  cases ha : w.arena with
  | none => simp [Serves, ha] at hw
  | some key =>
    have hne : key ≠ m.key := by simpa [Serves, ha] using hw
    simp only [if_neg hne]

/-- Rendering records texts and, if it comes to an end, returns that of the
expression; a writer of another module refuses. -/
theorem eval_cases (m : Module) (h : ExprHandle) (w : Writer) :
    (∃ s, Rendering.Steps m w.rendering s ∧ s.contains h ∧
        eval m h w = .ok (s.text h) { w with arena := some m.key, rendering := s }) ∨
      (∃ e s, Rendering.Steps m w.rendering s ∧ ¬Renderable m h ∧
        eval m h w = .error e { w with arena := some m.key, rendering := s }) ∨
      ¬Serves m w ∧ eval m h w = .error .secondModule w := by
  by_cases hw : Serves m w
  · have hbind : bindModule m w = .ok () { w with arena := some m.key } := bindModule_eq_ok.2 ⟨hw, rfl⟩
    rcases Rendering.work_visit_cases m h w.rendering with ⟨s, st, hs, hr⟩ | ⟨e, s, st, hs, hr⟩
    · refine .inl ⟨s, st, hs, ?_⟩
      simp only [eval, bind, EStateM.bind, hbind, hr]
    · refine .inr (.inl ⟨e, s, st, hs, ?_⟩)
      simp only [eval, bind, EStateM.bind, hbind, hr]
  · refine .inr (.inr ⟨hw, ?_⟩)
    simp only [eval, bind, EStateM.bind, bindModule_of_not_serves hw]

/-- A fresh name is one that no local and no reservation has. -/
theorem claim_none (w : Writer) :
    claim none w = .ok (numbered w.stem (freeNumber w.stem w.taken w.counter))
      { w with counter := freeNumber w.stem w.taken w.counter + 1 } := rfl

/-- A wanted name is given if it is reserved, which uses the reservation up, or
not taken. -/
theorem claim_some (n : Text) (w : Writer) :
    ((n ∈ w.reserved ∨ n ∉ w.taken) ∧ claim (some n) w = .ok n { w with reserved := w.reserved.erase n }) ∨
      (n ∉ w.reserved ∧ n ∈ w.taken) ∧ claim (some n) w = .error (.nameTaken n) w := by
  unfold claim
  by_cases hr : n ∈ w.reserved
  · exact .inl ⟨.inl hr, if_pos hr⟩
  · by_cases ht : n ∈ w.taken
    · exact .inr ⟨⟨hr, ht⟩, by simp only [if_neg hr, if_pos ht]⟩
    · refine .inl ⟨.inr ht, ?_⟩
      simp only [if_neg hr, if_neg ht, List.erase_of_not_mem hr]

theorem claim_cases (name : Option Text) (w : Writer) :
    (∃ n k r, claim name w = .ok n { w with counter := k, reserved := r }) ∨
      ∃ n, name = some n ∧ n ∈ w.taken ∧ n ∉ w.reserved ∧ claim name w = .error (.nameTaken n) w := by
  cases name with
  | none => exact .inl ⟨_, _, w.reserved, claim_none w⟩
  | some n =>
    rcases claim_some n w with ⟨-, h⟩ | ⟨⟨hr, ht⟩, h⟩
    · exact .inl ⟨n, w.counter, _, h⟩
    · exact .inr ⟨n, rfl, ht, hr, h⟩

/-- Rendering into a local: the one there is, or a new one after the name has
been claimed. A failure comes before anything is declared. -/
theorem evalToLocal_cases (m : Module) (h : ExprHandle) (name : Option Text) (w : Writer) :
    (∃ n, w.locals.lookup h = some n ∧ evalToLocal m h name w = .ok n w) ∨
      w.locals.lookup h = none ∧
        ((∃ n s w₁, Rendering.Steps m w.rendering s ∧ s.contains h ∧
            claim name { w with arena := some m.key, rendering := s } = .ok n w₁ ∧
            evalToLocal m h name w = .ok n (w₁.withLocal h n)) ∨
          ∃ e s a, Rendering.Steps m w.rendering s ∧
            (¬Serves m w ∨ ¬Renderable m h ∨ ∃ n, name = some n ∧ n ∈ w.taken ∧ n ∉ w.reserved) ∧
            evalToLocal m h name w = .error e { w with arena := a, rendering := s }) := by
  cases hl : w.locals.lookup h with
  | some n =>
    refine .inl ⟨n, rfl, ?_⟩
    simp only [evalToLocal, bind, EStateM.bind, EStateM.get_apply, hl]
    rfl
  | none =>
    refine .inr ⟨rfl, ?_⟩
    have hopen : evalToLocal m h name w = (do
        let value ← eval m h
        let name ← claim name
        declare h name value
        return name : Write Text) w := by
      simp only [evalToLocal, bind, EStateM.bind, EStateM.get_apply, hl]
    rw [hopen]
    rcases eval_cases m h w with ⟨s, st, hs, he⟩ | ⟨e, s, st, hbad, he⟩ | ⟨hbad, he⟩
    · rcases claim_cases name { w with arena := some m.key, rendering := s } with
        ⟨n, k, r, hc⟩ | ⟨n, hn, ht, hr, hc⟩
      · refine .inl ⟨n, s, _, st, hs, hc, ?_⟩
        simp only [bind, EStateM.bind, he, hc]
        rfl
      · refine .inr ⟨.nameTaken n, s, some m.key, st, .inr (.inr ⟨n, hn, ht, hr⟩), ?_⟩
        simp only [bind, EStateM.bind, he, hc]
    · refine .inr ⟨e, s, some m.key, st, .inr (.inl hbad), ?_⟩
      simp only [bind, EStateM.bind, he]
    · refine .inr ⟨.secondModule, w.rendering, w.arena, .refl, .inl hbad, ?_⟩
      simp only [bind, EStateM.bind, he]

/-! ## Calls that succeed -/

/-- Rendering an expression succeeds when the writer serves the module and the
work comes to its end. -/
theorem eval_eq_ok {m : Module} {h : ExprHandle} {w w' : Writer} {t : Text} :
    eval m h w = .ok t w' ↔ Serves m w ∧ ∃ s, w.rendering.work m [.visit h] = .ok () s ∧ t = s.text h ∧
      w' = { w with arena := some m.key, rendering := s } := by
  constructor
  · intro hw
    obtain ⟨_, w₁, hbind, hw⟩ := EStateM.bind_eq_ok.1 hw
    obtain ⟨hs, rfl⟩ := bindModule_eq_ok.1 hbind
    split at hw
    · next s hwork =>
      cases hw
      exact ⟨hs, s, hwork, rfl, rfl⟩
    · cases hw
  · rintro ⟨hs, s, hwork, rfl, rfl⟩
    refine EStateM.bind_eq_ok.2 ⟨(), _, bindModule_eq_ok.2 ⟨hs, rfl⟩, ?_⟩
    simp only [hwork]

/-- Rendering into a local: there is one, or one is declared once the expression
has a text and the name is claimed. -/
theorem evalToLocal_eq_ok {m : Module} {h : ExprHandle} {name : Option Text} {w w' : Writer} {n : Text} :
    evalToLocal m h name w = .ok n w' ↔ (w.locals.lookup h = some n ∧ w' = w) ∨
      (w.locals.lookup h = none ∧ Serves m w ∧ ∃ s k r, w.rendering.work m [.visit h] = .ok () s ∧
        claim name { w with arena := some m.key, rendering := s } =
          .ok n { w with arena := some m.key, rendering := s, counter := k, reserved := r } ∧
        w' = withLocal { w with arena := some m.key, rendering := s, counter := k, reserved := r } h n) := by
  constructor
  · intro hw
    obtain ⟨_, _, hget, hw⟩ := EStateM.bind_eq_ok.1 hw
    cases hget
    cases hl : w.locals.lookup h with
    | some bound =>
      rw [hl] at hw
      cases hw
      exact .inl ⟨rfl, rfl⟩
    | none =>
      rw [hl] at hw
      obtain ⟨value, w₁, he, hw⟩ := EStateM.bind_eq_ok.1 hw
      obtain ⟨hs, s, hwork, rfl, rfl⟩ := eval_eq_ok.1 he
      obtain ⟨n', w₂, hclaim, hw⟩ := EStateM.bind_eq_ok.1 hw
      obtain ⟨_, w₃, hdeclare, hw⟩ := EStateM.bind_eq_ok.1 hw
      cases hdeclare
      cases hw
      rcases claim_cases name { w with arena := some m.key, rendering := s } with ⟨n'', k, r, hc⟩ | ⟨_, _, _, _, hc⟩
      · rw [hc] at hclaim
        cases hclaim
        exact .inr ⟨rfl, hs, s, k, r, hwork, hc, rfl⟩
      · rw [hc] at hclaim
        cases hclaim
  · rintro (⟨hl, rfl⟩ | ⟨hl, hs, s, k, r, hwork, hclaim, rfl⟩)
    · refine EStateM.bind_eq_ok.2 ⟨_, _, rfl, ?_⟩
      rw [hl]
      rfl
    · refine EStateM.bind_eq_ok.2 ⟨_, _, rfl, ?_⟩
      rw [hl]
      exact EStateM.bind_eq_ok.2 ⟨_, _, eval_eq_ok.2 ⟨hs, s, hwork, rfl, rfl⟩, EStateM.bind_eq_ok.2 ⟨n, _, hclaim,
        EStateM.bind_eq_ok.2 ⟨(), _, rfl, rfl⟩⟩⟩

/-! ## Writers that can render -/

/-- A writer that can render from module `m`. -/
structure Ready (m : Module) (w : Writer) : Prop where
  faithful : Faithful m w
  serves : Serves m w

theorem Faithful.index_lt {m : Module} {w : Writer} (f : Faithful m w) {h : ExprHandle} {n : Text}
    (hn : (h, n) ∈ w.locals) : h.index < m.size := by
  obtain ⟨e, he, -⟩ := f.closed h (Rendering.contains_iff.2 ⟨_, f.bound h n hn⟩)
  exact (Array.getElem?_eq_some_iff.1 (Module.get_eq_ok_iff.1 he)).1

theorem Ready.grow {m m' : Module} {w : Writer} (r : Ready m w) (g : m.Grows m') : Ready m' w :=
  ⟨r.faithful.grow g, fun key hk => (r.serves key hk).trans g.key.symm⟩

/-- Rendering returns the text that the expression has by then, and leaves locals
and lines as they are. -/
theorem eval_text {m : Module} {w w' : Writer} {h : ExprHandle} {t : Text} (f : Faithful m w)
    (he : eval m h w = .ok t w') : Ready m w' ∧ w'.locals = w.locals ∧ w'.statements = w.statements ∧
      w'.rendering.texts.get? h.index = some t := by
  rcases eval_cases m h w with ⟨s, st, hs, hw⟩ | ⟨e, s, st, -, hw⟩ | ⟨-, hw⟩
  · rw [hw] at he
    cases he
    obtain ⟨t, ht⟩ := Rendering.contains_iff.1 hs
    rw [Rendering.text_eq ht]
    exact ⟨⟨(f.steps st).of_same rfl rfl, fun key hk => (Option.some.inj hk).symm⟩, rfl, rfl, ht⟩
  · rw [hw] at he
    cases he
  · rw [hw] at he
    cases he

/-- What can be rendered is rendered. -/
theorem Ready.exists_eval {m : Module} {w : Writer} (r : Ready m w) {h : ExprHandle} (hr : Renderable m h) :
    ∃ t w', eval m h w = .ok t w' := by
  rcases eval_cases m h w with ⟨s, -, -, hw⟩ | ⟨e, s, -, hbad, -⟩ | ⟨hbad, -⟩
  · exact ⟨_, _, hw⟩
  · exact absurd hr hbad
  · exact absurd r.serves hbad

end Writer

/-- A writer of its own gives an expression its one text, if it has one. -/
theorem Module.shaderText_eq_ok_iff {m : Module} {h : ExprHandle} {t : Text} :
    m.shaderText h = .ok t ↔ Renders m [] h t := by
  unfold Module.shaderText EStateM.run
  rcases Writer.eval_cases m h {} with ⟨s, st, hs, he⟩ | ⟨e, s, -, hbad, he⟩ | ⟨hbad, -⟩
  · have r : Renders m [] h (s.text h) := ((Writer.faithful_new m "var").steps st).renders_text hs
    rw [he]
    constructor
    · intro ht
      cases ht
      exact r
    · intro r'
      rw [r.unique r']
  · rw [he]
    constructor
    · intro ht
      cases ht
    · intro r
      exact absurd r.renderable hbad
  · exact absurd (by simp [Writer.Serves]) hbad

end EffectGraph
