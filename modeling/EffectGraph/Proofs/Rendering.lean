import EffectGraph.Proofs.Module.Growth
import EffectGraph.Writer
import Mathlib.Logic.Relation

/-!
# What rendering means

`Renders m V h t` says that `t` is a text of expression `h`: the name of a local
that `V` binds to it, or its own rendering around such texts of its operands.
Working through a list of tasks is a sequence of `Step`s, each of which records
the text of one expression that had none and whose operands all have theirs
(`work_visit`). Everything about the texts a writer remembers follows from what
one `Step` does.
-/

namespace EffectGraph

/-- Local variables and the expressions they hold. -/
abbrev Bindings := List (ExprHandle × Text)

/-- `t` is a text of `h`, where the locals of `V` may stand for expressions. -/
inductive Renders (m : Module) (V : Bindings) : ExprHandle → Text → Prop
  | name {h : ExprHandle} {n : Text} : (h, n) ∈ V → Renders m V h n
  | expr {h : ExprHandle} {e : Expr} {t : Text} (texts : ExprHandle → Text) :
      m.get h = .ok e → (∀ c ∈ e.children, Renders m V c (texts c)) →
      e.render m (e.children.map texts) = .ok t → Renders m V h t

namespace Expr

/-- An expression renders the same in a module that has grown. -/
theorem render_grows {m m' : Module} (g : m.Grows m') {e : Expr} {ts : List Text} {t : Text}
    (h : e.render m ts = .ok t) : e.render m' ts = .ok t := by
  cases e with
  | property p =>
    cases hp : m.property p with
    | error err => simp [render, hp, bind, Except.bind] at h
    | ok q => simpa [render, hp, g.property hp] using h
  | _ => exact h

/-- Whether an expression renders does not depend on the texts of its operands. -/
theorem render_ok_of_ok {m : Module} {e : Expr} {ts : List Text} {t : Text} (h : e.render m ts = .ok t)
    (ts' : List Text) : ∃ t', e.render m ts' = .ok t' := by
  cases e with
  | binary op l r => exact ⟨_, rfl⟩
  | unary op x => exact ⟨_, rfl⟩
  | _ => exact ⟨t, h⟩

end Expr

namespace Renders

variable {m : Module} {V : Bindings} {h : ExprHandle} {t : Text}

/-- More locals and a grown module take no text away. -/
theorem mono {m' : Module} {V' : Bindings} (g : m.Grows m') (hV : ∀ p ∈ V, p ∈ V') (r : Renders m V h t) :
    Renders m' V' h t := by
  induction r with
  | name hn => exact .name (hV _ hn)
  | expr texts he _ ht ih => exact .expr texts (g.get he) ih (Expr.render_grows g ht)

/-- Without locals, an expression has one text. -/
theorem unique (r : Renders m [] h t) {t' : Text} (r' : Renders m [] h t') : t = t' := by
  induction r generalizing t' with
  | name hn => simp at hn
  | expr texts he _ ht ih =>
    cases r' with
    | name hn => simp at hn
    | expr texts' he' hc' ht' =>
      rw [he] at he'
      cases he'
      have hmap := List.map_congr_left fun c hc => ih c hc (hc' c hc)
      rw [hmap, ht'] at ht
      cases ht
      rfl

end Renders

/-- Lines that declare the locals of `V`, in order: each is `let n = t;` where `t`
is a text of the expression of `n` that uses only locals declared before. -/
inductive Declares (m : Module) : Bindings → List Statement → Prop
  | nil : Declares m [] []
  | snoc {V : Bindings} {ss : List Statement} {h : ExprHandle} {n : Text} {t : Text} :
      Declares m V ss → Renders m V h t → Declares m (V ++ [(h, n)]) (ss ++ [.binding n t])

theorem Declares.grow {m m' : Module} (g : m.Grows m') {V : Bindings} {ss : List Statement}
    (d : Declares m V ss) : Declares m' V ss := by
  induction d with
  | nil => exact .nil
  | snoc _ r ih => exact .snoc ih (r.mono g fun _ hp => hp)

/-- An expression that can be rendered: it and all that it is made of are in the
module and have a text. -/
inductive Renderable (m : Module) : ExprHandle → Prop
  | intro {h : ExprHandle} {e : Expr} : m.get h = .ok e → (∀ c ∈ e.children, Renderable m c) →
      (∀ ts, ∃ t, e.render m ts = .ok t) → Renderable m h

theorem Renderable.grow {m m' : Module} (g : m.Grows m') {h : ExprHandle} (r : Renderable m h) : Renderable m' h := by
  induction r with
  | intro he _ ht ih => exact .intro (g.get he) ih fun ts => (ht ts).imp fun _ => Expr.render_grows g

theorem Renders.renderable {m : Module} {h : ExprHandle} {t : Text} (r : Renders m [] h t) : Renderable m h := by
  induction r with
  | name hn => simp at hn
  | expr texts he _ ht ih => exact .intro he ih (Expr.render_ok_of_ok ht)

namespace Rendering

/-! ## One step of rendering -/

/-- Records the text of an expression that had none and whose operands have
theirs. -/
inductive Step (m : Module) : Rendering → Rendering → Prop
  | record {s : Rendering} {h : ExprHandle} {e : Expr} {t : Text} : m.get h = .ok e →
      s.texts.get? h.index = none → (∀ c ∈ e.children, s.contains c) →
      e.render m (e.children.map s.text) = .ok t → Step m s (s.record h t)

/-- A sequence of steps. -/
abbrev Steps (m : Module) : Rendering → Rendering → Prop := Relation.ReflTransGen (Step m)

theorem get?_record (s : Rendering) (h c : ExprHandle) (t : Text) :
    (s.record h t).texts.get? c.index = if c = h then some t else s.texts.get? c.index := by
  rw [record, Table.get?_insert]
  congr 1
  exact propext ⟨fun e => by cases c; cases h; cases e; rfl, fun e => congrArg _ e⟩

theorem get?_replace (s : Rendering) (h c : ExprHandle) (t : Text) :
    (s.replace h t).texts.get? c.index = if c = h then some t else s.texts.get? c.index :=
  get?_record s h c t

theorem contains_iff {s : Rendering} {h : ExprHandle} :
    s.contains h = true ↔ ∃ t, s.texts.get? h.index = some t := by
  simp [contains, Table.contains, Option.isSome_iff_exists]

/-- Replacing a text leaves the expressions that have one. -/
theorem contains_replace {s : Rendering} {h : ExprHandle} (hh : s.contains h) (t : Text) {c : ExprHandle} :
    (s.replace h t).contains c = true ↔ s.contains c = true := by
  rw [contains_iff, get?_replace]
  by_cases hch : c = h
  · subst hch
    simp [hh]
  · rw [if_neg hch, contains_iff]

theorem text_eq {s : Rendering} {h : ExprHandle} {t : Text} (ht : s.texts.get? h.index = some t) :
    s.text h = t := by
  simp [text, ht]

/-- What has a text keeps it. -/
theorem Step.get? {m : Module} {s s' : Rendering} (st : Step m s s') {h : ExprHandle} {t : Text}
    (ht : s.texts.get? h.index = some t) : s'.texts.get? h.index = some t := by
  obtain ⟨-, hnew, -, -⟩ := st
  rw [get?_record, if_neg]
  · exact ht
  · rintro rfl
    rw [hnew] at ht
    cases ht

theorem Steps.get? {m : Module} {s s' : Rendering} (st : Steps m s s') {h : ExprHandle} {t : Text}
    (ht : s.texts.get? h.index = some t) : s'.texts.get? h.index = some t := by
  induction st with
  | refl => exact ht
  | tail _ st ih => exact st.get? ih

theorem Steps.contains {m : Module} {s s' : Rendering} (st : Steps m s s') {h : ExprHandle}
    (hs : s.contains h) : s'.contains h := by
  obtain ⟨t, ht⟩ := contains_iff.1 hs
  exact contains_iff.2 ⟨t, st.get? ht⟩

/-! ## Working through tasks -/

/-- What becomes of work that first looks at the expressions `hs`: either it goes
on with `rest` once they all have texts, places from `n` on being as before, or
it breaks off because one of them cannot be rendered. -/
def GoesOn (m : Module) (s : Rendering) (hs : List ExprHandle) (n : Nat) (rest : List Task)
    (result : EStateM.Result Error Rendering Unit) : Prop :=
  (∃ s', Steps m s s' ∧ (∀ h ∈ hs, s'.contains h) ∧
      (∀ c : ExprHandle, n ≤ c.index → s'.texts.get? c.index = s.texts.get? c.index) ∧ result = work m rest s') ∨
    ∃ e s', Steps m s s' ∧ (∃ h ∈ hs, ¬Renderable m h) ∧ result = .error e s'

/-- Visits of expressions before place `n`, one after the other. -/
theorem work_visits {m : Module} {n : Nat}
    (visit : ∀ h : ExprHandle, h.index < n → ∀ rest s, GoesOn m s [h] n rest (work m (.visit h :: rest) s))
    (hs : List ExprHandle) (hlt : ∀ h ∈ hs, h.index < n) (rest : List Task) :
    ∀ s, GoesOn m s hs n rest (work m (hs.map .visit ++ rest) s) := by
  induction hs with
  | nil => intro s; exact .inl ⟨s, .refl, by simp, fun _ _ => rfl, rfl⟩
  | cons h hs ih =>
    intro s
    rcases visit h (hlt h List.mem_cons_self) (hs.map .visit ++ rest) s with
      ⟨s₁, st₁, hh, hsame₁, hw₁⟩ | ⟨e, s₁, st₁, hbad, hw₁⟩
    · rw [List.map_cons, List.cons_append, hw₁]
      rcases ih (fun c hc => hlt c (List.mem_cons_of_mem _ hc)) s₁ with
        ⟨s₂, st₂, hhs, hsame₂, hw₂⟩ | ⟨e, s₂, st₂, ⟨c, hc, hbad⟩, hw₂⟩
      · refine .inl ⟨s₂, st₁.trans st₂, ?_, fun c hc => (hsame₂ c hc).trans (hsame₁ c hc), hw₂⟩
        intro c hc
        rcases List.mem_cons.1 hc with rfl | hc
        · exact st₂.contains (hh c List.mem_cons_self)
        · exact hhs c hc
      · exact .inr ⟨e, s₂, st₁.trans st₂, ⟨c, List.mem_cons_of_mem _ hc, hbad⟩, hw₂⟩
    · obtain ⟨c, hc, hbad⟩ := hbad
      rw [List.mem_singleton] at hc
      subst hc
      exact .inr ⟨e, s₁, st₁, ⟨c, List.mem_cons_self, hbad⟩, hw₁⟩

/-- Putting a text together: the operands have theirs. -/
theorem work_emit {m : Module} {s : Rendering} {h : ExprHandle} {e : Expr} (he : m.get h = .ok e)
    (hnone : s.texts.get? h.index = none) (hc : ∀ c ∈ e.children, s.contains c) (rest : List Task) :
    GoesOn m s [h] (h.index + 1) rest (work m (.emit h e :: rest) s) := by
  rw [work]
  cases hr : e.render m (e.children.map s.text) with
  | ok t =>
    refine .inl ⟨s.record h t, .single (.record he hnone hc hr), ?_, ?_, rfl⟩
    · intro c hc
      rw [List.mem_singleton] at hc
      subst hc
      exact contains_iff.2 ⟨t, by rw [get?_record, if_pos rfl]⟩
    · intro c hlt
      rw [get?_record, if_neg]
      rintro rfl
      omega
  | error err =>
    refine .inr ⟨err, s, .refl, ⟨h, List.mem_singleton.2 rfl, ?_⟩, rfl⟩
    rintro ⟨he', -, hok⟩
    rw [he] at he'
    cases he'
    obtain ⟨t, ht⟩ := hok (e.children.map s.text)
    rw [ht] at hr
    cases hr

theorem GoesOn.mono {m : Module} {s : Rendering} {hs : List ExprHandle} {n n' : Nat} {rest : List Task}
    {result : EStateM.Result Error Rendering Unit} (g : GoesOn m s hs n rest result) (hn : n ≤ n') :
    GoesOn m s hs n' rest result := by
  rcases g with ⟨s', st, hh, hsame, hw⟩ | g
  · exact .inl ⟨s', st, hh, fun c hc => hsame c (Nat.le_trans hn hc), hw⟩
  · exact .inr g

/-- A visit gives an expression its text, if it and all that it is made of can be
rendered, and touches no place after it. -/
theorem work_visit (m : Module) (h : ExprHandle) (rest : List Task) (s : Rendering) :
    GoesOn m s [h] (h.index + 1) rest (work m (.visit h :: rest) s) := by
  -- Operands stand before their users, so the induction is on the place.
  generalize hn : h.index = n
  induction n using Nat.strongRecOn generalizing h rest s with
  | ind n ih =>
    subst hn
    rw [work]
    by_cases hs : s.contains h
    · rw [if_pos hs]
      exact .inl ⟨s, .refl, by simpa using hs, fun _ _ => rfl, rfl⟩
    rw [if_neg hs]
    have hnone : s.texts.get? h.index = none := by
      simpa [Rendering.contains, Table.contains] using hs
    by_cases hm : h.index < m.exprs.size
    · rw [dif_pos hm]
      have he : m.get h = .ok m.exprs[h.index] := by simp [Module.get, hm]
      generalize m.exprs[h.index] = e at he
      have visit : ∀ c : ExprHandle, c.index < h.index →
          ∀ rest s, GoesOn m s [c] h.index rest (work m (.visit c :: rest) s) :=
        fun c hc rest s => (ih c.index hc c rest s rfl).mono hc
      rcases work_visits visit e.children (fun c hc => Module.index_lt_of_get he hc) (.emit h e :: rest) s with
        ⟨s₁, st₁, hc, hsame₁, hw₁⟩ | ⟨err, s₁, st₁, ⟨c, hc, hbad⟩, hw₁⟩
      · rw [hw₁]
        have hnone₁ : s₁.texts.get? h.index = none := (hsame₁ h (Nat.le_refl _)).trans hnone
        rcases work_emit he hnone₁ hc rest with ⟨s₂, st₂, hh, hsame₂, hw₂⟩ | ⟨err, s₂, st₂, hbad, hw₂⟩
        · refine .inl ⟨s₂, st₁.trans st₂, hh, fun c hc => ?_, hw₂⟩
          exact (hsame₂ c hc).trans (hsame₁ c (Nat.le_of_succ_le hc))
        · exact .inr ⟨err, s₂, st₁.trans st₂, hbad, hw₂⟩
      · refine .inr ⟨err, s₁, st₁, ⟨h, List.mem_singleton.2 rfl, ?_⟩, hw₁⟩
        rintro ⟨he', hok, -⟩
        rw [he] at he'
        cases he'
        exact hbad (hok c hc)
    · rw [dif_neg hm]
      refine .inr ⟨.invalidHandle h m.size, s, .refl, ⟨h, List.mem_singleton.2 rfl, ?_⟩, rfl⟩
      rintro ⟨he', -, -⟩
      simp [Module.get, hm] at he'

/-- Rendering one expression: steps that end with its text, or that break off
because it cannot be rendered. -/
theorem work_visit_cases (m : Module) (h : ExprHandle) (s : Rendering) :
    (∃ s', Steps m s s' ∧ s'.contains h ∧ work m [.visit h] s = .ok () s') ∨
      ∃ e s', Steps m s s' ∧ ¬Renderable m h ∧ work m [.visit h] s = .error e s' := by
  rcases work_visit m h [] s with ⟨s', st, hh, -, hw⟩ | ⟨e, s', st, ⟨c, hc, hbad⟩, hw⟩
  · refine .inl ⟨s', st, hh h List.mem_cons_self, ?_⟩
    rw [hw, work]
  · rw [List.mem_singleton] at hc
    subst hc
    exact .inr ⟨e, s', st, hbad, hw⟩

/-- A visit that succeeds adds texts, that of the expression among them. -/
theorem steps_of_work {m : Module} {h : ExprHandle} {s s' : Rendering} (hw : work m [.visit h] s = .ok () s') :
    Steps m s s' ∧ s'.contains h := by
  rcases work_visit_cases m h s with ⟨s₁, st, hh, hw₁⟩ | ⟨e, s₁, -, -, hw₁⟩
  · rw [hw₁] at hw
    cases hw
    exact ⟨st, hh⟩
  · rw [hw₁] at hw
    cases hw

end Rendering
end EffectGraph
