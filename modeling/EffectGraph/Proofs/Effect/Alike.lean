import EffectGraph.Proofs.Effect.Lines
import EffectGraph.Proofs.Sharing

/-!
# The same expressions in different places

Two modules can hold the same expressions under different handles, for nodes that
were evaluated in another order. Where a relation `R` pairs the handles of the
same expressions, all that is written from them is the same: uses are counted the
same (`Census.work_alike`), so the same expressions are shared, in the same order;
they get the same texts (`Rendering.work_alike`) and the same variables
(`Writer.evalToLocal_alike`); and so the outputs get the same lines
(`Compiler.writeOutputs_alike`). Each is a walk of two lists of tasks in step.
-/

namespace EffectGraph

/-- The same operator or leaf, around operands that are the same under `R`.
Properties are left out: they stand elsewhere when they are declared in another
order, and no node reads one. -/
inductive Expr.Alike (R : ExprHandle → ExprHandle → Prop) : Expr → Expr → Prop
  | literal (v : Literal) : Alike R (.literal v) (.literal v)
  | attr (a : Attribute) : Alike R (.attribute a) (.attribute a)
  | builtin (b : Builtin) : Alike R (.builtin b) (.builtin b)
  | binary {op : BinaryOp} {l l' r r' : ExprHandle} : R l l' → R r r' → Alike R (.binary op l r) (.binary op l' r')
  | unary {op : UnaryOp} {x x' : ExprHandle} : R x x' → Alike R (.unary op x) (.unary op x')

namespace Expr.Alike

variable {R : ExprHandle → ExprHandle → Prop} {e e' : Expr}

theorem children (h : Alike R e e') : List.Forall₂ R e.children e'.children := by
  cases h with
  | binary hl hr => exact .cons hl (.cons hr .nil)
  | unary hx => exact .cons hx .nil
  | _ => exact .nil

theorem render (h : Alike R e e') (m m' : Module) (ts : List Text) : e'.render m' ts = e.render m ts := by
  cases h <;> rfl

end Expr.Alike

/-- Two modules that hold the same expressions where `R` relates their handles. -/
structure Module.Alike (R : ExprHandle → ExprHandle → Prop) (m m' : Module) : Prop where
  key : m'.key = m.key
  exprs : ∀ x x', R x x' → ∃ e e', m.get x = .ok e ∧ m'.get x' = .ok e' ∧ Expr.Alike R e e'
  same_iff : ∀ x x' y y', R x x' → R y y' → (x = y ↔ x' = y')

/-- Tasks of the same kind on expressions that are the same. -/
inductive Task.Alike (R : ExprHandle → ExprHandle → Prop) : Task → Task → Prop
  | visit {x x' : ExprHandle} : R x x' → Alike R (.visit x) (.visit x')
  | emit {x x' : ExprHandle} {e e' : Expr} : R x x' → Expr.Alike R e e' → Alike R (.emit x e) (.emit x' e')

namespace Module.Alike

variable {R : ExprHandle → ExprHandle → Prop} {m m' : Module}

/-- What is the same expression leads to the same tasks. -/
theorem expand (a : m.Alike R m') {x x' : ExprHandle} (hx : R x x') (hlt : x.index < m.exprs.size) :
    ∃ hlt' : x'.index < m'.exprs.size, Expr.Alike R m.exprs[x.index] m'.exprs[x'.index] := by
  obtain ⟨e, e', he, he', halike⟩ := a.exprs x x' hx
  obtain ⟨hlt', rfl⟩ := Array.getElem?_eq_some_iff.1 (get_eq_ok_iff.1 he')
  rw [get_of_lt hlt] at he
  cases he
  exact ⟨hlt', halike⟩

end Module.Alike

theorem Task.alike_expand {R : ExprHandle → ExprHandle → Prop} {x x' : ExprHandle} {e e' : Expr} (hx : R x x')
    (he : Expr.Alike R e e') {tasks tasks' : List Task} (ht : List.Forall₂ (Task.Alike R) tasks tasks') :
    List.Forall₂ (Task.Alike R) (e.children.map .visit ++ .emit x e :: tasks)
      (e'.children.map .visit ++ .emit x' e' :: tasks') := by
  refine List.rel_append ?_ (.cons (.emit hx he) ht)
  rw [List.forall₂_map_left_iff, List.forall₂_map_right_iff]
  exact he.children.imp fun _ _ hc => .visit hc

/-! ## Counting uses -/

namespace Census

/-- The same uses counted, the same expressions finished. -/
structure Alike (R : ExprHandle → ExprHandle → Prop) (s s' : Census) : Prop where
  uses : ∀ x x', R x x' → s'.usesOf x' = s.usesOf x
  finished : List.Forall₂ R s.finished s'.finished

variable {R : ExprHandle → ExprHandle → Prop} {m m' : Module}

theorem Alike.use (a : m.Alike R m') {s s' : Census} (h : Alike R s s') {x x' : ExprHandle} (hx : R x x') :
    Alike R (s.use x) (s'.use x') where
  uses y y' hy := by
    rw [usesOf_use, usesOf_use, h.uses y y' hy]
    simp only [a.same_iff y y' x x' hy hx]
  finished := h.finished

/-- Walks over the same expressions count the same. -/
theorem work_alike (a : m.Alike R m') {tasks tasks' : List Task} (ht : List.Forall₂ (Task.Alike R) tasks tasks')
    {s s' r : Census} (hs : Alike R s s') (h : work m tasks s = .ok r) :
    ∃ r', work m' tasks' s' = .ok r' ∧ Alike R r r' := by
  fun_induction work m tasks s generalizing tasks' s' with
  | case1 s =>
    cases h
    cases ht
    exact ⟨s', by rw [work], hs⟩
  | case2 s x rest hmet ih =>
    obtain ⟨_, rest', ⟨hx⟩, hrest, rfl⟩ := List.forall₂_cons_left_iff.1 ht
    rw [work, if_pos (by rwa [hs.uses _ _ hx])]
    exact ih hrest (hs.use a hx) h
  | case3 s x rest hnew hlt ih =>
    obtain ⟨_, rest', ⟨hx⟩, hrest, rfl⟩ := List.forall₂_cons_left_iff.1 ht
    obtain ⟨hlt', he⟩ := a.expand hx hlt
    rw [work, if_neg (by rwa [hs.uses _ _ hx]), dif_pos hlt']
    exact ih (Task.alike_expand hx he hrest) (hs.use a hx) h
  | case4 => cases h
  | case5 s x e rest ih =>
    obtain ⟨_, rest', hemit, hrest, rfl⟩ := List.forall₂_cons_left_iff.1 ht
    cases hemit with
    | emit hx he =>
      rw [work]
      exact ih hrest ⟨hs.uses, List.rel_append hs.finished (.cons hx .nil)⟩ h

end Census

/-- The same expressions are shared, in the same order. -/
theorem Module.Alike.shared {R : ExprHandle → ExprHandle → Prop} {m m' : Module} (a : m.Alike R m')
    {roots roots' hs : List ExprHandle} (hr : List.Forall₂ R roots roots') (h : m.shared roots = .ok hs) :
    ∃ hs', m'.shared roots' = .ok hs' ∧ List.Forall₂ R hs hs' := by
  have hwalk : ∀ {s s' r : Census}, Census.Alike R s s' →
      roots.foldlM (fun s r => Census.work m [.visit r] s) s = .ok r →
      ∃ r', roots'.foldlM (fun s r => Census.work m' [.visit r] s) s' = .ok r' ∧ Census.Alike R r r' := by
    clear h
    induction hr with
    | nil =>
      rintro s s' r hs ⟨⟩
      exact ⟨s', rfl, hs⟩
    | @cons x x' roots roots' hx _ ih =>
      intro s s' r hs h
      rw [List.foldlM_cons] at h
      obtain ⟨s₁, h₁, h₂⟩ := Except.bind_eq_ok.1 h
      obtain ⟨s₁', h₁', hs₁⟩ := Census.work_alike a (.cons (.visit hx) .nil) hs h₁
      obtain ⟨r', h₂', hr'⟩ := ih hs₁ h₂
      refine ⟨r', ?_, hr'⟩
      rw [List.foldlM_cons]
      exact Except.bind_eq_ok.2 ⟨s₁', h₁', h₂'⟩
  obtain ⟨s, hs, h⟩ := Except.bind_eq_ok.1 h
  cases h
  have hstart : Census.Alike R {} {} := ⟨fun _ _ _ => by simp [Census.usesOf], .nil⟩
  obtain ⟨s', hs', halike⟩ := hwalk hstart hs
  refine ⟨_, Except.bind_eq_ok.2 ⟨s', hs', rfl⟩, List.rel_filter (fun x x' hx => ?_) halike.finished⟩
  obtain ⟨e, e', he, he', hee⟩ := a.exprs x x' hx
  have hchildren : e'.children.isEmpty = e.children.isEmpty := by
    have hlen := hee.children.length_eq
    rw [Bool.eq_iff_iff, List.isEmpty_iff_length_eq_zero, List.isEmpty_iff_length_eq_zero, hlen]
  simp only [isComposite, he, he', hchildren, halike.uses x x' hx]

/-! ## Rendering -/

namespace Rendering

/-- The same texts. -/
def Alike (R : ExprHandle → ExprHandle → Prop) (s s' : Rendering) : Prop :=
  ∀ x x', R x x' → s'.texts.get? x'.index = s.texts.get? x.index

variable {R : ExprHandle → ExprHandle → Prop} {m m' : Module} {s s' : Rendering}

theorem Alike.record (h : Alike R s s') (a : m.Alike R m') {x x' : ExprHandle} (hx : R x x') (t : Text) :
    Alike R (s.record x t) (s'.record x' t) := by
  intro y y' hy
  rw [get?_record, get?_record, h y y' hy]
  simp only [a.same_iff y y' x x' hy hx]

theorem Alike.replace (h : Alike R s s') (a : m.Alike R m') {x x' : ExprHandle} (hx : R x x') (t : Text) :
    Alike R (s.replace x t) (s'.replace x' t) :=
  h.record a hx t

theorem Alike.text (h : Alike R s s') {x x' : ExprHandle} (hx : R x x') : s'.text x' = s.text x := by
  rw [Rendering.text, Rendering.text, h x x' hx]

theorem Alike.contains (h : Alike R s s') {x x' : ExprHandle} (hx : R x x') : s'.contains x' = s.contains x := by
  simp only [Rendering.contains, Table.contains, h x x' hx]

/-- The same expressions get the same texts. -/
theorem work_alike (a : m.Alike R m') {tasks tasks' : List Task} (ht : List.Forall₂ (Task.Alike R) tasks tasks')
    (hs : Alike R s s') {r : Rendering} (h : work m tasks s = .ok () r) :
    ∃ r', work m' tasks' s' = .ok () r' ∧ Alike R r r' := by
  fun_induction work m tasks s generalizing tasks' s' with
  | case1 s =>
    cases h
    cases ht
    exact ⟨s', by rw [work], hs⟩
  | case2 s x rest hc ih =>
    obtain ⟨_, rest', ⟨hx⟩, hrest, rfl⟩ := List.forall₂_cons_left_iff.1 ht
    rw [work, if_pos (by rwa [hs.contains hx])]
    exact ih hrest hs h
  | case3 s x rest hc hlt ih =>
    obtain ⟨_, rest', ⟨hx⟩, hrest, rfl⟩ := List.forall₂_cons_left_iff.1 ht
    obtain ⟨hlt', he⟩ := a.expand hx hlt
    rw [work, if_neg (by rwa [hs.contains hx]), dif_pos hlt']
    exact ih (Task.alike_expand hx he hrest) hs h
  | case4 => cases h
  | case5 s x e rest t hr ih =>
    obtain ⟨_, rest', hemit, hrest, rfl⟩ := List.forall₂_cons_left_iff.1 ht
    cases hemit with
    | @emit _ x' _ e' hx he =>
      have htexts : e'.children.map s'.text = e.children.map s.text := by
        have hmap : List.Forall₂ (· = ·) (e.children.map s.text) (e'.children.map s'.text) := by
          rw [List.forall₂_map_left_iff, List.forall₂_map_right_iff]
          exact he.children.imp fun _ _ hc => (hs.text hc).symm
        rw [List.forall₂_eq_eq_eq] at hmap
        exact hmap.symm
      rw [work, htexts, he.render m m', hr]
      exact ih hrest (hs.record a hx t) h
  | case6 => cases h

end Rendering

/-! ## Writing -/

namespace Writer

/-- Writers that have written the same, for expressions that are the same. -/
structure Alike (R : ExprHandle → ExprHandle → Prop) (w w' : Writer) : Prop where
  stem : w'.stem = w.stem
  arena : w'.arena = w.arena
  taken : w'.taken = w.taken
  reserved : w'.reserved = w.reserved
  counter : w'.counter = w.counter
  statements : w'.statements = w.statements
  rendering : Rendering.Alike R w.rendering w'.rendering
  locals : ∀ x x', R x x' → w'.locals.lookup x' = w.locals.lookup x

variable {R : ExprHandle → ExprHandle → Prop} {m m' : Module} {w w' : Writer}

theorem Alike.withLocal (h : Alike R w w') (a : m.Alike R m') {x x' : ExprHandle} (hx : R x x') (n : Text) :
    Alike R (w.withLocal x n) (w'.withLocal x' n) where
  stem := h.stem
  arena := h.arena
  taken := by simp only [Writer.withLocal, h.taken]
  reserved := h.reserved
  counter := h.counter
  statements := by simp only [Writer.withLocal, h.statements, h.rendering.text hx]
  rendering := h.rendering.replace a hx n
  locals y y' hy := by
    have hsame : (y' == x') = (y == x) := by
      rw [Bool.eq_iff_iff, beq_iff_eq, beq_iff_eq, a.same_iff y y' x x' hy hx]
    simp only [Writer.withLocal, List.lookup_append, h.locals y y' hy, List.lookup_cons, hsame, List.lookup_nil]

/-- Which name is claimed does not depend on what was rendered. -/
theorem claim_congr (w w' : Writer) {name : Option Text} {n : Text} {k : Nat} {r : List Text}
    (hstem : w'.stem = w.stem) (htaken : w'.taken = w.taken) (hreserved : w'.reserved = w.reserved)
    (hcounter : w'.counter = w.counter) (h : claim name w = .ok n { w with counter := k, reserved := r }) :
    claim name w' = .ok n { w' with counter := k, reserved := r } := by
  cases name with
  | none =>
    rw [claim_none] at h ⊢
    rw [hstem, htaken, hcounter]
    cases h
    rw [hreserved]
  | some name =>
    rcases claim_some name w with ⟨hfree, hw⟩ | ⟨-, hw⟩
    · rcases claim_some name w' with ⟨-, hw'⟩ | ⟨⟨hr, ht⟩, -⟩
      · rw [hw] at h
        cases h
        rw [hw', hreserved, hcounter]
      · rw [hreserved] at hr
        rw [htaken] at ht
        rcases hfree with hfree | hfree
        · exact absurd hfree hr
        · exact absurd ht hfree
    · rw [hw] at h
      cases h

/-- The same expression gets the same local. -/
theorem evalToLocal_alike (a : m.Alike R m') {x x' : ExprHandle} (hx : R x x') {name : Option Text} (hw : Alike R w w')
    {n : Text} {w₁ : Writer} (h : evalToLocal m x name w = .ok n w₁) :
    ∃ w₁', evalToLocal m' x' name w' = .ok n w₁' ∧ Alike R w₁ w₁' := by
  rcases evalToLocal_eq_ok.1 h with ⟨hl, rfl⟩ | ⟨hl, hs, s, k, r, hwork, hclaim, rfl⟩
  · exact ⟨w', evalToLocal_eq_ok.2 (.inl ⟨(hw.locals x x' hx).trans hl, rfl⟩), hw⟩
  · obtain ⟨s', hwork', hs'⟩ := Rendering.work_alike a (.cons (.visit hx) .nil) hw.rendering hwork
    have hserves : Serves m' w' := by
      unfold Serves
      rw [hw.arena, a.key]
      exact hs
    have hclaim' := claim_congr { w with arena := some m.key, rendering := s }
      { w' with arena := some m'.key, rendering := s' } hw.stem hw.taken hw.reserved
      hw.counter hclaim
    refine ⟨_, evalToLocal_eq_ok.2 (.inr ⟨(hw.locals x x' hx).trans hl, hserves, s', k, r, hwork', hclaim', rfl⟩), ?_⟩
    refine Alike.withLocal (w := { w with arena := some m.key, rendering := s, counter := k, reserved := r }) ?_ a hx n
    exact ⟨hw.stem, by simp only [a.key], hw.taken, rfl, rfl, hw.statements, hs', hw.locals⟩

end Writer

namespace Compiler

open Writer

variable {R : ExprHandle → ExprHandle → Prop} {m m' : Module} {w w' w₁ : Writer}

theorem bindOutput_alike (a : m.Alike R m') {x x' : ExprHandle} (hx : R x x') {name : Text} (hw : Writer.Alike R w w')
    (h : bindOutput m name x w = .ok () w₁) : ∃ w₁', bindOutput m' name x' w' = .ok () w₁' ∧ Writer.Alike R w₁ w₁' := by
  obtain ⟨n, w₂, heval, hline⟩ := EStateM.bind_eq_ok.1 h
  obtain ⟨w₂', heval', hw₂⟩ := evalToLocal_alike a hx hw heval
  by_cases hn : n ≠ name
  · rw [if_pos hn] at hline
    cases hline
    refine ⟨{ w₂' with statements := w₂'.statements.push (.binding name n) },
      EStateM.bind_eq_ok.2 ⟨n, w₂', heval', ?_⟩, { hw₂ with statements := ?_ }⟩
    · rw [if_pos hn]
      rfl
    · simp only [hw₂.statements]
  · rw [if_neg hn] at hline
    cases hline
    refine ⟨w₂', EStateM.bind_eq_ok.2 ⟨n, w₂', heval', ?_⟩, hw₂⟩
    rw [if_neg hn]
    rfl

theorem hoistShared_alike (a : m.Alike R m') {roots roots' : List ExprHandle} (hr : List.Forall₂ R roots roots')
    (hw : Writer.Alike R w w') (h : hoistShared m roots w = .ok () w₁) :
    ∃ w₁', hoistShared m' roots' w' = .ok () w₁' ∧ Writer.Alike R w₁ w₁' := by
  unfold hoistShared at h ⊢
  cases hshared : m.shared roots with
  | error e =>
    rw [hshared] at h
    cases h
  | ok xs =>
    obtain ⟨xs', hshared', hxs⟩ := a.shared hr hshared
    rw [hshared] at h
    rw [hshared']
    refine forM_ok_of_forall₂ (fun x x' w w' w₁ hx hw h => ?_) hxs hw h
    obtain ⟨n, w₂, heval, h⟩ := EStateM.bind_eq_ok.1 h
    cases h
    obtain ⟨w₂', heval', hw₂⟩ := evalToLocal_alike a hx hw heval
    exact ⟨w₂', EStateM.bind_eq_ok.2 ⟨n, w₂', heval', rfl⟩, hw₂⟩

/-- Outputs with the same names and the same expressions are written the same. -/
theorem writeOutputs_alike [Stack] {c : Compiler} (a : m.Alike R m') {outputs outputs' : List (Text × ExprHandle)}
    (ho : List.Forall₂ (fun o o' => o.1 = o'.1 ∧ R o.2 o'.2) outputs outputs')
    (h : c.writeOutputs m outputs {} = .ok () w) :
    ∃ w', c.writeOutputs m' outputs' {} = .ok () w' ∧ Writer.Alike R w w' := by
  obtain ⟨hnames, w₁, hhoist, hlines⟩ := writeOutputs_eq_ok.1 h
  have hfst : outputs.map Prod.fst = outputs'.map Prod.fst := by
    rw [← List.forall₂_eq_eq_eq, List.forall₂_map_left_iff, List.forall₂_map_right_iff]
    exact ho.imp fun o o' h => h.1
  have hsnd : List.Forall₂ R (outputs.map Prod.snd) (outputs'.map Prod.snd) := by
    rw [List.forall₂_map_left_iff, List.forall₂_map_right_iff]
    exact ho.imp fun o o' h => h.2
  have hstart : ∀ names, Writer.Alike R (reserving names) (reserving names) :=
    fun names => ⟨rfl, rfl, rfl, rfl, rfl, rfl, fun _ _ _ => by simp [reserving], fun _ _ _ => rfl⟩
  obtain ⟨w₁', hhoist', hw₁⟩ : ∃ w₁', (if c.hoist then hoistShared m' (outputs'.map Prod.snd) else pure ())
      (reserving (outputs'.map Prod.fst).reverse) = .ok () w₁' ∧ Writer.Alike R w₁ w₁' := by
    rw [← hfst]
    by_cases hc : c.hoist
    · rw [if_pos hc] at hhoist ⊢
      exact hoistShared_alike a hsnd (hstart _) hhoist
    · rw [if_neg hc] at hhoist ⊢
      cases hhoist
      exact ⟨_, rfl, hstart _⟩
  obtain ⟨w', hlines', hw'⟩ : ∃ w', (outputs'.forM fun o => bindOutput m' o.1 o.2) w₁' = .ok () w' ∧
      Writer.Alike R w w' :=
    forM_ok_of_forall₂ (fun o o' w w' w₁ ho hw h => ho.1 ▸ bindOutput_alike a ho.2 hw h) ho hw₁ hlines
  exact ⟨w', writeOutputs_eq_ok.2 ⟨hfst ▸ hnames, w₁', hhoist', hlines'⟩, hw'⟩

end Compiler
end EffectGraph
