import EffectGraph.Proofs.Writer.Sparing

/-!
# Rendering by recursion

What a writer works out with a list of tasks is what plain recursion along operands
gives (`Module.recursiveText`): the same text or the same error (`work_visit_recursive`).
A new writer has then rendered all that the expression is made of and nothing else, each
once, and gives these texts again without any further work (`eval_recursive`).
-/

namespace EffectGraph

namespace Module

/-- The text of an expression by recursion: first the texts of its operands, in order,
then its own. -/
def recursiveText (m : Module) (h : ExprHandle) : Except Error Text :=
  if hlt : h.index < m.exprs.size then do
    let texts ← m.exprs[h.index].children.attach.mapM fun c =>
      have := m.index_lt_of_mem_children hlt c.property
      m.recursiveText c.val
    m.exprs[h.index].render m texts
  else .error (.invalidHandle h m.size)
termination_by h.index

/-- The rendering of an expression fails, whatever the texts of its operands are. -/
def Raises (m : Module) (h : ExprHandle) : Prop :=
  ∃ e, m.get h = .ok e ∧ ∀ ts, ∃ err, e.render m ts = .error err

variable {m : Module} {h : ExprHandle}

theorem recursiveText_eq {e : Expr} (he : m.get h = .ok e) :
    m.recursiveText h = (do e.render m (← e.children.mapM m.recursiveText)) := by
  obtain ⟨hlt, rfl⟩ := Array.getElem?_eq_some_iff.1 (get_eq_ok_iff.1 he)
  rw [recursiveText, dif_pos hlt, List.mapM_subtype (fun _ _ => rfl), List.unattach_attach]

theorem recursiveText_of_size_le (hh : ¬h.index < m.exprs.size) :
    m.recursiveText h = .error (.invalidHandle h m.size) := by
  rw [recursiveText, dif_neg hh]

theorem recursiveText_eq_ok {t : Text} :
    m.recursiveText h = .ok t ↔
      ∃ e texts, m.get h = .ok e ∧ e.children.mapM m.recursiveText = .ok texts ∧ e.render m texts = .ok t := by
  constructor
  · intro ht
    by_cases hlt : h.index < m.exprs.size
    · have he := get_of_lt hlt
      rw [recursiveText_eq he, Except.bind_eq_ok] at ht
      obtain ⟨texts, htexts, ht⟩ := ht
      exact ⟨_, texts, he, htexts, ht⟩
    · rw [recursiveText_of_size_le hlt] at ht
      cases ht
  · rintro ⟨e, texts, he, htexts, ht⟩
    rw [recursiveText_eq he, Except.bind_eq_ok]
    exact ⟨texts, htexts, ht⟩

/-- What an expression that has a text is made of has texts too. -/
theorem recursiveText_of_reaches {t : Text} (ht : m.recursiveText h = .ok t) {x : ExprHandle}
    (hx : m.Reaches h x) : ∃ t', m.recursiveText x = .ok t' := by
  induction hx with
  | refl => exact ⟨t, ht⟩
  | tail _ hc ih =>
    obtain ⟨t', ht'⟩ := ih
    obtain ⟨e, texts, he, htexts, -⟩ := recursiveText_eq_ok.1 ht'
    rw [operands_eq he] at hc
    obtain ⟨t'', -, ht''⟩ := Except.exists_of_mapM_mem htexts hc
    exact ⟨t'', ht''⟩

theorem not_raises_of_recursiveText {t : Text} (ht : m.recursiveText h = .ok t) : ¬m.Raises h := by
  rintro ⟨e, he, hraises⟩
  obtain ⟨e', texts, he', -, hr⟩ := recursiveText_eq_ok.1 ht
  rw [he] at he'
  cases he'
  obtain ⟨err, herr⟩ := hraises texts
  rw [hr] at herr
  cases herr

/-- An expression that has no text is made of one whose rendering fails. -/
theorem exists_raises {err : Error} (hh : h.index < m.size) (herr : m.recursiveText h = .error err) :
    ∃ x, m.Reaches h x ∧ m.Raises x := by
  -- Operands stand before their users, so the induction is on the place.
  generalize hn : h.index = n
  induction n using Nat.strongRecOn generalizing h err with
  | ind n ih =>
    subst hn
    have he := get_of_lt hh
    generalize m.exprs[h.index] = e at he
    by_cases hchildren : ∀ c ∈ e.children, ∃ t, m.recursiveText c = .ok t
    · obtain ⟨texts, htexts⟩ := Except.exists_mapM_eq_ok.2 hchildren
      rw [recursiveText_eq he, htexts] at herr
      refine ⟨h, .refl, e, he, fun ts => ?_⟩
      cases hr : e.render m ts with
      | error err' => exact ⟨err', rfl⟩
      | ok t =>
        obtain ⟨t', ht'⟩ := Expr.render_ok_of_ok hr texts
        exact absurd (ht'.symm.trans herr) (by simp)
    · push Not at hchildren
      obtain ⟨c, hc, hbad⟩ := hchildren
      have hlt : c.index < h.index := index_lt_of_get he hc
      cases hcerr : m.recursiveText c with
      | ok t => exact absurd hcerr (hbad t)
      | error err' =>
        obtain ⟨x, hx, hraises⟩ := ih c.index hlt (Nat.lt_trans hlt hh) hcerr rfl
        refine ⟨x, .head ?_ hx, hraises⟩
        rwa [operands_eq he]

end Module

namespace Table

/-- The number of places with a value, counted one by one. -/
theorem size_eq_length (t : Table α) : t.size = ((List.range t.cells.size).filter t.contains).length := by
  have hcells : t.cells.toList.map Option.isSome = (List.range t.cells.size).map t.contains := by
    refine List.ext_getElem (by simp) fun i h₁ h₂ => ?_
    have hi : i < t.cells.size := by simpa using h₁
    simp [contains, get?, hi]
  calc t.size = t.cells.toList.countP Option.isSome := Array.countP_toList.symm
    _ = (t.cells.toList.map Option.isSome).countP id := by rw [List.countP_map]; rfl
    _ = (List.range t.cells.size).countP t.contains := by rw [hcells, List.countP_map]; rfl
    _ = _ := List.countP_eq_length_filter

end Table

namespace Rendering

/-- All texts are those that recursion gives. -/
def Recursive (m : Module) (s : Rendering) : Prop :=
  ∀ h t, s.texts.get? h.index = some t → m.recursiveText h = .ok t

variable {m : Module} {s : Rendering}

theorem recursive_new (m : Module) : Recursive m {} := by
  intro h t ht
  simp at ht

theorem Recursive.text (hs : Recursive m s) {h : ExprHandle} (hh : s.contains h) :
    m.recursiveText h = .ok (s.text h) := by
  obtain ⟨t, ht⟩ := contains_iff.1 hh
  rw [text_eq ht]
  exact hs h t ht

theorem Recursive.mapM_text (hs : Recursive m s) {cs : List ExprHandle} (hc : ∀ c ∈ cs, s.contains c) :
    cs.mapM m.recursiveText = .ok (cs.map s.text) := by
  rw [Except.mapM_eq_ok, List.forall₂_map_right_iff, List.forall₂_same]
  exact fun c hm => hs.text (hc c hm)

/-- One text more. -/
theorem Recursive.record (hs : Recursive m s) {h : ExprHandle} {t : Text} (ht : m.recursiveText h = .ok t) :
    Recursive m (s.record h t) := by
  intro x t' ht'
  rw [get?_record] at ht'
  split at ht'
  · next hx =>
    cases ht'
    rwa [hx]
  · exact hs x t' ht'

theorem contains_record (s : Rendering) (h x : ExprHandle) (t : Text) :
    (s.record h t).contains x ↔ x = h ∨ s.contains x := by
  rw [contains_iff, contains_iff, get?_record]
  by_cases hx : x = h
  · simp [hx]
  · simp [hx]

/-- What becomes of work that first looks at the expressions `hs`: it goes on with
`rest` when recursion has given all of them texts, or breaks off with the error of
recursion. -/
def Recurses (m : Module) (s : Rendering) (hs : List ExprHandle) (rest : List Task)
    (result : EStateM.Result Error Rendering Unit) : Prop :=
  (∃ s', Recursive m s' ∧ (∀ x, s.contains x → s'.contains x) ∧ (∀ h ∈ hs, s'.contains h) ∧ result = work m rest s') ∨
    ∃ err s', hs.mapM m.recursiveText = .error err ∧ result = .error err s'

/-- Visits, one after the other. -/
theorem work_visits_recursive {hs : List ExprHandle}
    (visit : ∀ h ∈ hs, ∀ rest s, Recursive m s → Recurses m s [h] rest (work m (.visit h :: rest) s))
    (rest : List Task) (hrec : Recursive m s) : Recurses m s hs rest (work m (hs.map .visit ++ rest) s) := by
  induction hs generalizing s with
  | nil => exact .inl ⟨s, hrec, fun _ hx => hx, by simp, rfl⟩
  | cons h hs ih =>
    rw [List.map_cons, List.cons_append]
    rcases visit h List.mem_cons_self (hs.map .visit ++ rest) s hrec with
      ⟨s₁, hrec₁, hkeep₁, hh, hw₁⟩ | ⟨err, s₁, herr, hw₁⟩
    · have htext := hrec₁.text (hh h List.mem_cons_self)
      rw [hw₁]
      rcases ih (fun c hc => visit c (List.mem_cons_of_mem _ hc)) hrec₁ with
        ⟨s₂, hrec₂, hkeep₂, hhs, hw₂⟩ | ⟨err, s₂, herr, hw₂⟩
      · refine .inl ⟨s₂, hrec₂, fun x hx => hkeep₂ x (hkeep₁ x hx), fun c hc => ?_, hw₂⟩
        rcases List.mem_cons.1 hc with rfl | hc
        · exact hkeep₂ c (hh c List.mem_cons_self)
        · exact hhs c hc
      · refine .inr ⟨err, s₂, ?_, hw₂⟩
        rw [List.mapM_cons, htext, herr]
        rfl
    · refine .inr ⟨err, s₁, ?_, hw₁⟩
      rw [List.mapM_cons] at herr ⊢
      cases hh : m.recursiveText h with
      | ok t =>
        rw [hh] at herr
        cases herr
      | error err' =>
        rw [hh] at herr
        cases herr
        rfl

/-- A visit does what recursion does. -/
theorem work_visit_recursive (h : ExprHandle) (rest : List Task) (hrec : Recursive m s) :
    Recurses m s [h] rest (work m (.visit h :: rest) s) := by
  generalize hn : h.index = n
  induction n using Nat.strongRecOn generalizing h rest s with
  | ind n ih =>
    subst hn
    rw [work]
    by_cases hs : s.contains h
    · rw [if_pos hs]
      exact .inl ⟨s, hrec, fun _ hx => hx, by simpa using hs, rfl⟩
    rw [if_neg hs]
    by_cases hm : h.index < m.exprs.size
    · rw [dif_pos hm]
      have he := Module.get_of_lt hm
      generalize m.exprs[h.index] = e at he
      rcases work_visits_recursive
          (fun c hc rest s hs => ih c.index (Module.index_lt_of_get he hc) c rest hs rfl) (.emit h e :: rest) hrec with
        ⟨s₁, hrec₁, hkeep, hc, hw⟩ | ⟨err, s₁, herr, hw⟩
      · have htext : m.recursiveText h = e.render m (e.children.map s₁.text) := by
          rw [Module.recursiveText_eq he, hrec₁.mapM_text hc]
          rfl
        rw [hw, work]
        cases hr : e.render m (e.children.map s₁.text) with
        | ok t =>
          rw [hr] at htext
          refine .inl ⟨s₁.record h t, hrec₁.record htext, fun x hx => ?_, fun x hx => ?_, rfl⟩
          · exact (contains_record s₁ h x t).2 (.inr (hkeep x hx))
          · exact (contains_record s₁ h x t).2 (.inl (List.mem_singleton.1 hx))
        | error err =>
          rw [hr] at htext
          refine .inr ⟨err, s₁, ?_, rfl⟩
          rw [List.mapM_cons, htext]
          rfl
      · refine .inr ⟨err, s₁, ?_, hw⟩
        rw [List.mapM_cons, Module.recursiveText_eq he, herr]
        rfl
    · rw [dif_neg hm]
      refine .inr ⟨.invalidHandle h m.size, s, ?_, rfl⟩
      rw [List.mapM_cons, Module.recursiveText_of_size_le hm]
      rfl

end Rendering

namespace Writer

/-- A new writer gives the text, or the error, that recursion gives. -/
theorem eval_new_cases (m : Module) (h : ExprHandle) (stem : Text) :
    (∃ s, Rendering.Recursive m s ∧ Rendering.work m [.visit h] {} = .ok () s ∧ s.contains h ∧
        eval m h { stem := stem } = .ok (s.text h) { stem := stem, arena := some m.key, rendering := s }) ∨
      ∃ err w, m.recursiveText h = .error err ∧ eval m h { stem := stem } = .error err w := by
  have hbind : bindModule m { stem := stem } = .ok () { stem := stem, arena := some m.key } := rfl
  rcases Rendering.work_visit_recursive h [] (Rendering.recursive_new m) with
    ⟨s, hrec, -, hh, hw⟩ | ⟨err, s, herr, hw⟩
  · rw [Rendering.work] at hw
    refine .inl ⟨s, hrec, hw, hh h List.mem_cons_self, ?_⟩
    simp only [eval, bind, EStateM.bind, hbind, hw]
  · refine .inr ⟨err, { stem := stem, arena := some m.key, rendering := s }, ?_, ?_⟩
    · cases hh : m.recursiveText h with
      | ok t =>
        rw [List.mapM_cons, hh] at herr
        cases herr
      | error err' =>
        rw [List.mapM_cons, hh] at herr
        cases herr
        rfl
    · simp only [eval, bind, EStateM.bind, hbind, hw]

/-- A new writer that has rendered an expression has texts for all that it is made of,
and for nothing else. -/
theorem contains_iff_reaches {m : Module} {h : ExprHandle} {s : Rendering}
    (hw : Rendering.work m [.visit h] {} = .ok () s) (x : ExprHandle) : s.contains x ↔ m.Reaches h x := by
  obtain ⟨st, hh⟩ := Rendering.steps_of_work hw
  have f := (faithful_new m "var").steps st
  constructor
  · intro hx
    rcases Rendering.work_reaches hw hx with hold | ⟨t, ht, hreach⟩
    · simp [Rendering.contains, Table.contains] at hold
    · rw [List.mem_singleton] at ht
      subst ht
      exact hreach
  · intro hx
    induction hx with
    | refl => exact hh
    | tail _ hc ih =>
      obtain ⟨e, he, hchildren⟩ := f.closed _ ih
      rw [Module.operands_eq he] at hc
      exact hchildren _ hc

/-- As many renderings are made as there are expressions with a text. -/
theorem exists_rendered {m : Module} {h : ExprHandle} {s : Rendering}
    (hw : Rendering.work m [.visit h] {} = .ok () s) :
    ∃ xs : List ExprHandle, xs.Nodup ∧ (∀ x, x ∈ xs ↔ m.Reaches h x) ∧ s.count = xs.length := by
  have f := (faithful_new m "var").steps (Rendering.steps_of_work hw).1
  have hcount : s.count = s.texts.size := f.counted
  refine ⟨((List.range s.texts.cells.size).filter s.texts.contains).map ExprHandle.mk, ?_, fun x => ?_, ?_⟩
  · exact (List.nodup_range.filter _).map fun i j he => by cases he; rfl
  · rw [← contains_iff_reaches hw]
    constructor
    · intro hx
      obtain ⟨i, hi, rfl⟩ := List.mem_map.1 hx
      exact (List.mem_filter.1 hi).2
    · intro hx
      refine List.mem_map.2 ⟨x.index, List.mem_filter.2 ⟨List.mem_range.2 ?_, hx⟩, rfl⟩
      by_contra hout
      simp [Rendering.contains, Table.contains, Table.get?, hout] at hx
  · rw [hcount, Table.size_eq_length, List.length_map]

/-- A writer gives an expression that has a text this text, and stays as it is. -/
theorem eval_of_contains {m : Module} {w : Writer} {h : ExprHandle} (hkey : w.arena = some m.key)
    (hh : w.rendering.contains h) : eval m h w = .ok (w.rendering.text h) w := by
  have hwork : w.rendering.work m [.visit h] = .ok () w.rendering := by
    rw [Rendering.work, if_pos hh, Rendering.work]
  refine eval_eq_ok.2 ⟨fun key hk => Option.some.inj (hk.symm.trans hkey), w.rendering, hwork, rfl, ?_⟩
  cases w
  cases hkey
  rfl

/-- Of any module, a new writer renders an expression to what recursion along operands
gives, be it a text or an error; it fails exactly when the rendering of something that
the expression is made of fails. When it succeeds, it has made as many renderings as
there are expressions in what it rendered, and rendering any of these again gives the
text of recursion and leaves the writer as it is. -/
theorem eval_recursive (m : Module) (h : ExprHandle) (hh : h.index < m.size) (stem : Text) :
    (match eval m h { stem := stem } with
      | .ok t _ => Except.ok t
      | .error err _ => .error err) = m.recursiveText h ∧
    ((∃ err w, eval m h { stem := stem } = .error err w) ↔ ∃ x, m.Reaches h x ∧ m.Raises x) ∧
    ∀ t w, eval m h { stem := stem } = .ok t w →
      (∃ xs : List ExprHandle, xs.Nodup ∧ (∀ x, x ∈ xs ↔ m.Reaches h x) ∧ w.rendering.count = xs.length) ∧
      ∀ x, m.Reaches h x → ∃ t', m.recursiveText x = .ok t' ∧ eval m x w = .ok t' w := by
  rcases eval_new_cases m h stem with ⟨s, hrec, hwork, hs, heval⟩ | ⟨err, w, herr, heval⟩
  · rw [heval]
    refine ⟨(hrec.text hs).symm, ⟨?_, ?_⟩, fun t w hw => ?_⟩
    · rintro ⟨err, w, hw⟩
      cases hw
    · rintro ⟨x, hx, hraises⟩
      obtain ⟨t, ht⟩ := Module.recursiveText_of_reaches (hrec.text hs) hx
      exact absurd hraises (Module.not_raises_of_recursiveText ht)
    · cases hw
      refine ⟨exists_rendered hwork, fun x hx => ?_⟩
      have hcontains := (contains_iff_reaches hwork x).2 hx
      exact ⟨s.text x, hrec.text hcontains, eval_of_contains rfl hcontains⟩
  · rw [heval]
    refine ⟨herr.symm, ⟨fun _ => Module.exists_raises hh herr, fun _ => ⟨err, w, rfl⟩⟩, fun t w' hw => ?_⟩
    cases hw

/-- The direction of a position added to itself. -/
def doubledPosition : Module where
  exprs := #[.attribute .position, .binary .add ⟨0⟩ ⟨0⟩, .unary .normalize ⟨1⟩]
  closed := by decide

/-- The position is an operand twice, and is rendered once. -/
theorem eval_recursive_doubledPosition :
    (2 < doubledPosition.size ∧
      doubledPosition.recursiveText ⟨2⟩ = .ok "normalize((particle.position) + (particle.position))") ∧
    ∃ w, eval doubledPosition ⟨2⟩ { stem := "var" } =
        .ok "normalize((particle.position) + (particle.position))" w ∧ w.rendering.count = 3 ∧
      ∃ xs : List ExprHandle, xs.Nodup ∧ (∀ x, x ∈ xs ↔ doubledPosition.Reaches ⟨2⟩ x) ∧ xs.length = 3 := by
  obtain ⟨htext, -, hagain⟩ := eval_recursive doubledPosition ⟨2⟩ (by decide) "var"
  have hanswer : answer? (eval doubledPosition ⟨2⟩ { stem := "var" }) =
      some "normalize((particle.position) + (particle.position))" := by
    cbv
  obtain ⟨w, heval⟩ := answer?_eq_some.1 hanswer
  have hcount : (lastState (eval doubledPosition ⟨2⟩ { stem := "var" })).rendering.count = 3 := by
    cbv
  rw [heval] at htext hcount
  obtain ⟨⟨xs, hn, hmem, hlen⟩, -⟩ := hagain _ w heval
  exact ⟨⟨by decide, htext.symm⟩, w, heval, hcount, xs, hn, hmem, hlen.symm.trans hcount⟩

end Writer
end EffectGraph
