import EffectGraph.Proofs.Module.Growth
import EffectGraph.Sharing
import Mathlib

/-!
# Which expressions are shared

An expression reaches its operands, their operands and so on (`Reaches`). The
walk that counts uses is described by `Tally`: what has been counted and what is
still to be visited add up to the uses by all expressions met, and operands are
finished before their users. At its end every expression that the roots reach
has been met once, so `shared_eq` can say what `shared` returns without the walk.
-/

namespace EffectGraph

namespace Module

/-- The operands of an expression; none if it is not there. -/
def operands (m : Module) (h : ExprHandle) : List ExprHandle :=
  match m.get h with
  | .ok e => e.children
  | .error _ => []

theorem operands_eq {m : Module} {h : ExprHandle} {e : Expr} (he : m.get h = .ok e) : m.operands h = e.children := by
  unfold operands
  rw [he]

/-- An expression is made of another: it is that one, or one of its operands is. -/
def Reaches (m : Module) : ExprHandle → ExprHandle → Prop := Relation.ReflTransGen fun p c => c ∈ m.operands p

theorem index_lt_of_mem_operands {m : Module} {p c : ExprHandle} (h : c ∈ m.operands p) : c.index < p.index := by
  unfold operands at h
  split at h
  · next e he => exact index_lt_of_get he h
  · cases h

theorem get_of_lt {m : Module} {h : ExprHandle} (hlt : h.index < m.size) : m.get h = .ok m.exprs[h.index] := by
  unfold get
  exact dif_pos hlt

theorem lt_of_mem_operands {m : Module} {p c : ExprHandle} (h : c ∈ m.operands p) : c.index < m.size := by
  have hlt := index_lt_of_mem_operands h
  unfold operands at h
  split at h
  · next e he =>
    have := (Array.getElem?_eq_some_iff.1 (get_eq_ok_iff.1 he)).1
    exact Nat.lt_trans hlt this
  · cases h

/-- Operands are in the module, so all that an expression of it is made of is. -/
theorem index_lt_of_reaches {m : Module} {h x : ExprHandle} (hh : h.index < m.size) (hreach : m.Reaches h x) :
    x.index < m.size := by
  rcases hreach.cases_tail with rfl | ⟨y, -, hxy⟩
  · exact hh
  · exact lt_of_mem_operands hxy

end Module

namespace Task

/-- The expression of a task. -/
def handle : Task → ExprHandle
  | .visit h => h
  | .emit h _ => h

/-- The expressions that a list of tasks visits. -/
def visits : List Task → List ExprHandle
  | [] => []
  | .visit h :: ts => h :: visits ts
  | .emit _ _ :: ts => visits ts

/-- The expressions that a list of tasks emits. -/
def emits : List Task → List ExprHandle
  | [] => []
  | .visit _ :: ts => emits ts
  | .emit h _ :: ts => h :: emits ts

theorem visits_append (ts ts' : List Task) : visits (ts ++ ts') = visits ts ++ visits ts' := by
  induction ts with
  | nil => rfl
  | cons t ts ih => cases t <;> simp [visits, ih]

theorem emits_append (ts ts' : List Task) : emits (ts ++ ts') = emits ts ++ emits ts' := by
  induction ts with
  | nil => rfl
  | cons t ts ih => cases t <;> simp [emits, ih]

theorem visits_map (hs : List ExprHandle) : visits (hs.map .visit) = hs := by
  induction hs with
  | nil => rfl
  | cons h hs ih => simp [visits, ih]

theorem emits_map (hs : List ExprHandle) : emits (hs.map .visit) = [] := by
  induction hs with
  | nil => rfl
  | cons h hs ih => simp [emits, ih]

theorem mem_emits {ts : List Task} {h : ExprHandle} : h ∈ emits ts ↔ ∃ e, .emit h e ∈ ts := by
  induction ts with
  | nil => simp [emits]
  | cons t ts ih =>
    cases t with
    | visit h' => simp [emits, ih]
    | emit h' e' => simp [emits, ih, exists_or]

/-- The tasks that a visit is expanded to: visits of the operands, its emission,
and what was there. -/
theorem mem_expand {hs : List ExprHandle} {h : ExprHandle} {e : Expr} {tasks : List Task} {t : Task} :
    t ∈ hs.map .visit ++ .emit h e :: tasks ↔ (∃ c ∈ hs, t = .visit c) ∨ t = .emit h e ∨ t ∈ tasks := by
  simp [eq_comm]

theorem emits_expand (hs : List ExprHandle) (h : ExprHandle) (e : Expr) (tasks : List Task) :
    emits (hs.map .visit ++ .emit h e :: tasks) = h :: emits tasks := by
  rw [emits_append, emits_map]
  rfl

/-- An emission after a visit was expanded: the one it led to, or one that was
there. -/
theorem split_expand {hs : List ExprHandle} {h x : ExprHandle} {e e' : Expr} {tasks before after : List Task}
    (hsplit : hs.map .visit ++ .emit h e :: tasks = before ++ .emit x e' :: after) :
    (before = hs.map .visit ∧ x = h ∧ e' = e) ∨
      ∃ between, before = hs.map .visit ++ .emit h e :: between ∧ tasks = between ++ .emit x e' :: after := by
  rcases List.append_eq_append_iff.1 hsplit with ⟨mid, rfl, hmid⟩ | ⟨mid, hmid, hrest⟩
  · cases mid with
    | nil =>
      cases hmid
      exact .inl ⟨by simp, rfl, rfl⟩
    | cons t mid =>
      cases hmid
      exact .inr ⟨mid, rfl, rfl⟩
  · cases mid with
    | nil =>
      cases hrest
      exact .inl ⟨by simpa using hmid.symm, rfl, rfl⟩
    | cons t mid =>
      cases hrest
      have hemit : .emit x e' ∈ hs.map Task.visit := by simp [hmid]
      simp at hemit

end Task

namespace Census

theorem usesOf_use (s : Census) (h x : ExprHandle) : (s.use h).usesOf x = s.usesOf x + if x = h then 1 else 0 := by
  unfold usesOf use
  rw [Table.get?_insert]
  by_cases hx : x = h
  · subst hx
    simp [usesOf]
  · have hi : x.index ≠ h.index := fun he => hx (by cases x; cases h; cases he; rfl)
    simp [hx, hi]

@[simp] theorem finished_use (s : Census) (h : ExprHandle) : (s.use h).finished = s.finished := rfl

/-- How a count of uses by `roots` and all that they are made of stands, when
`tasks` are left: every expression met is finished or about to be, and has been
met once; the uses counted and the visits to come are those by the roots and
by the expressions met; operands come before their users in what is finished,
and before them among the tasks. -/
structure Tally (m : Module) (roots : List ExprHandle) (tasks : List Task) (s : Census) : Prop where
  valid : ∀ t ∈ tasks, t.handle.index < m.size
  exprs : ∀ h e, .emit h e ∈ tasks → m.get h = .ok e
  once : (s.finished ++ Task.emits tasks).Nodup
  met : ∀ x, 0 < s.usesOf x ↔ x ∈ s.finished ++ Task.emits tasks
  counted : ∀ x, s.usesOf x + (Task.visits tasks).count x =
    (roots ++ (s.finished ++ Task.emits tasks).flatMap m.operands).count x
  nested : tasks.Pairwise fun t t' => ∀ h e, t' = .emit h e → t.handle.index < h.index
  awaited : ∀ before h e after, tasks = before ++ .emit h e :: after →
    ∀ c ∈ e.children, c ∈ s.finished ∨ ∃ t ∈ before, t.handle = c
  ordered : ∀ before h after, s.finished = before ++ h :: after → ∀ c ∈ m.operands h, c ∈ before
  reached : ∀ x, x ∈ s.finished ∨ (∃ t ∈ tasks, t.handle = x) → ∃ r ∈ roots, m.Reaches r x

namespace Tally

variable {m : Module} {roots : List ExprHandle} {tasks : List Task} {s : Census}

/-- An operand met before, of an expression about to be finished, is finished or
will be before it. -/
theorem again_awaited {h x : ExprHandle} {e : Expr} {before after : List Task}
    (t : Tally m roots (.visit h :: tasks) s) (hmet : 0 < s.usesOf h) (htasks : tasks = before ++ .emit x e :: after)
    (hh : h ∈ e.children) : h ∈ s.finished ∨ ∃ t ∈ before, t.handle = h := by
  have hlt : h.index < x.index := Module.index_lt_of_get (t.exprs x e (by simp [htasks])) hh
  rcases List.mem_append.1 ((t.met h).1 hmet) with hfin | hemit
  · exact .inl hfin
  · obtain ⟨e', he'⟩ := Task.mem_emits.1 hemit
    have hmem : .emit h e' ∈ before ++ .emit x e :: after := by
      simpa [htasks] using he'
    rcases List.mem_append.1 hmem with hb | ha
    · exact .inr ⟨_, hb, rfl⟩
    · -- Emissions further down are of expressions further up.
      exfalso
      have hnested := t.nested.of_cons
      rw [htasks, List.pairwise_append] at hnested
      rcases List.mem_cons.1 ha with he | ha
      · cases he
        omega
      · have := (List.pairwise_cons.1 hnested.2.1).1 _ ha h e' rfl
        simp only [Task.handle] at this
        omega

/-- An expression met before is only counted. -/
theorem again {h : ExprHandle} (t : Tally m roots (.visit h :: tasks) s) (hmet : 0 < s.usesOf h) :
    Tally m roots tasks (s.use h) := by
  have hpos : ∀ x, 0 < (s.use h).usesOf x ↔ 0 < s.usesOf x := by
    intro x
    rw [usesOf_use]
    by_cases hx : x = h
    · subst hx
      simp [hmet]
    · simp [hx]
  refine ⟨fun t' ht' => t.valid t' (List.mem_cons_of_mem _ ht'), fun x e hx => t.exprs x e (List.mem_cons_of_mem _ hx),
    t.once, fun x => (hpos x).trans (t.met x), fun x => ?_, t.nested.of_cons, ?_, t.ordered, ?_⟩
  · have hcount := t.counted x
    rw [Task.visits, List.count_cons] at hcount
    rw [usesOf_use]
    by_cases hx : x = h
    · subst hx
      simp only [BEq.rfl, if_true] at hcount ⊢
      rw [Nat.add_right_comm]
      exact hcount
    · simpa [hx, Ne.symm hx, Task.emits] using hcount
  · intro before x e after htasks c hc
    rcases t.awaited (.visit h :: before) x e after (by rw [htasks]; rfl) c hc with hfin | ⟨t', ht', rfl⟩
    · exact .inl hfin
    rcases List.mem_cons.1 ht' with rfl | ht'
    · exact t.again_awaited hmet htasks hc
    · exact .inr ⟨t', ht', rfl⟩
  · rintro x (hx | ⟨t', ht', rfl⟩)
    · exact t.reached x (.inl hx)
    · exact t.reached _ (.inr ⟨t', List.mem_cons_of_mem _ ht', rfl⟩)

/-- A first visit takes one visit off the tasks and puts the operands on. -/
theorem first_counted {h : ExprHandle} {e : Expr} (t : Tally m roots (.visit h :: tasks) s) (he : m.get h = .ok e)
    (x : ExprHandle) :
    (s.use h).usesOf x + (Task.visits (e.children.map .visit ++ .emit h e :: tasks)).count x =
      (roots ++ (s.finished ++ h :: Task.emits tasks).flatMap m.operands).count x := by
  have hcount := t.counted x
  rw [usesOf_use, Task.visits_append, Task.visits_map]
  simp only [Task.visits, Task.emits, List.count_append, List.flatMap_append, List.flatMap_cons, List.count_cons,
    Module.operands_eq he] at hcount ⊢
  by_cases hx : x = h
  · subst hx
    simp only [BEq.rfl, if_true] at hcount ⊢
    omega
  · simp only [hx, if_false, beq_eq_false_iff_ne.2 (Ne.symm hx)] at hcount ⊢
    simp only [Bool.false_eq_true, if_false] at hcount
    omega

/-- The operands of an expression are further down than what waits for it. -/
theorem first_nested {h : ExprHandle} {e : Expr} (t : Tally m roots (.visit h :: tasks) s) (he : m.get h = .ok e) :
    List.Pairwise (fun t t' : Task => ∀ x e', t' = .emit x e' → t.handle.index < x.index)
      (e.children.map .visit ++ .emit h e :: tasks) := by
  have hchild : ∀ c ∈ e.children, c.index < h.index := fun c hc => Module.index_lt_of_get he hc
  have hrest : ∀ t' ∈ tasks, ∀ x e', t' = .emit x e' → h.index < x.index := (List.pairwise_cons.1 t.nested).1
  rw [List.pairwise_append]
  refine ⟨?_, List.pairwise_cons.2 ⟨fun t' ht' => hrest t' ht', t.nested.of_cons⟩, ?_⟩
  · rw [List.pairwise_map]
    exact List.pairwise_of_forall fun a b x e' hb => by cases hb
  · intro t' ht' u hu x e' hx
    obtain ⟨c, hc, rfl⟩ := List.mem_map.1 ht'
    rcases List.mem_cons.1 hu with rfl | hu
    · cases hx
      exact hchild c hc
    · exact Nat.lt_trans (hchild c hc) (hrest u hu x e' hx)

/-- What waited for a visit waits for the emission it led to. -/
theorem first_awaited {h : ExprHandle} {e : Expr} (t : Tally m roots (.visit h :: tasks) s) {before after : List Task}
    {x : ExprHandle} {e' : Expr} (htasks : e.children.map .visit ++ .emit h e :: tasks = before ++ .emit x e' :: after)
    {c : ExprHandle} (hc : c ∈ e'.children) : c ∈ s.finished ∨ ∃ t ∈ before, t.handle = c := by
  rcases Task.split_expand htasks with ⟨rfl, rfl, rfl⟩ | ⟨between, rfl, htasks'⟩
  · exact .inr ⟨.visit c, List.mem_map_of_mem hc, rfl⟩
  · rcases t.awaited (.visit h :: between) x e' after (by rw [htasks']; rfl) c hc with hfin | ⟨t', ht', rfl⟩
    · exact .inl hfin
    · rcases List.mem_cons.1 ht' with rfl | ht'
      · exact .inr ⟨.emit h e, by simp, rfl⟩
      · exact .inr ⟨t', by simp [ht'], rfl⟩

/-- A first visit leads on to the operands. -/
theorem first {h : ExprHandle} {e : Expr} (t : Tally m roots (.visit h :: tasks) s) (hnew : s.usesOf h = 0)
    (he : m.get h = .ok e) : Tally m roots (e.children.map .visit ++ .emit h e :: tasks) (s.use h) := by
  have hout : h ∉ s.finished ++ Task.emits tasks := by
    intro hm
    have := (t.met h).2 hm
    omega
  have hvalid : h.index < m.size := t.valid (.visit h) List.mem_cons_self
  refine ⟨?_, ?_, ?_, ?_, ?_, t.first_nested he, fun _ _ _ _ htasks _ hc => t.first_awaited htasks hc, t.ordered, ?_⟩
  · intro t' ht'
    rcases Task.mem_expand.1 ht' with ⟨c, hc, rfl⟩ | rfl | ht'
    · exact Nat.lt_trans (Module.index_lt_of_get he hc) hvalid
    · exact hvalid
    · exact t.valid t' (List.mem_cons_of_mem _ ht')
  · intro x e' hx
    rcases Task.mem_expand.1 hx with ⟨c, -, hx⟩ | hx | hx
    · cases hx
    · cases hx
      exact he
    · exact t.exprs x e' (List.mem_cons_of_mem _ hx)
  · rw [Task.emits_expand]
    exact List.nodup_middle.2 (List.nodup_cons.2 ⟨hout, t.once⟩)
  · intro x
    rw [Task.emits_expand, usesOf_use]
    by_cases hx : x = h
    · simp [hx]
    · have hmet := t.met x
      simpa [hx, Task.emits] using hmet
  · intro x
    rw [Task.emits_expand]
    exact t.first_counted he x
  · obtain ⟨r, hr, hreach⟩ := t.reached h (.inr ⟨_, List.mem_cons_self, rfl⟩)
    rintro x (hx | ⟨t', ht', rfl⟩)
    · exact t.reached x (.inl hx)
    · rcases Task.mem_expand.1 ht' with ⟨c, hc, rfl⟩ | rfl | ht'
      · exact ⟨r, hr, hreach.tail (by rwa [Module.operands_eq he])⟩
      · exact ⟨r, hr, hreach⟩
      · exact t.reached _ (.inr ⟨t', List.mem_cons_of_mem _ ht', rfl⟩)

/-- An expression whose operands are all finished is finished. -/
theorem finish {h : ExprHandle} {e : Expr} (t : Tally m roots (.emit h e :: tasks) s) :
    Tally m roots tasks { s with finished := s.finished ++ [h] } := by
  have he := t.exprs h e List.mem_cons_self
  have hlist : (s.finished ++ [h]) ++ Task.emits tasks = s.finished ++ Task.emits (.emit h e :: tasks) := by
    simp [Task.emits]
  refine ⟨fun t' ht' => t.valid t' (List.mem_cons_of_mem _ ht'), fun x e hx => t.exprs x e (List.mem_cons_of_mem _ hx),
    ?_, fun x => ?_, fun x => ?_, t.nested.of_cons, ?_, ?_, ?_⟩
  · rw [hlist]
    exact t.once
  · rw [hlist]
    exact t.met x
  · rw [hlist]
    exact t.counted x
  · intro before x e' after htasks c hc
    rcases t.awaited (.emit h e :: before) x e' after (by rw [htasks]; rfl) c hc with hfin | ⟨t', ht', rfl⟩
    · exact .inl (List.mem_append_left _ hfin)
    · rcases List.mem_cons.1 ht' with rfl | ht'
      · exact .inl (List.mem_append_right _ (List.mem_singleton.2 rfl))
      · exact .inr ⟨t', ht', rfl⟩
  · refine closed_snoc t.ordered fun c hc => ?_
    rw [Module.operands_eq he] at hc
    rcases t.awaited [] h e tasks rfl c hc with hc | ⟨t', ht', -⟩
    · exact hc
    · cases ht'
  · rintro x (hx | ⟨t', ht', rfl⟩)
    · rcases List.mem_append.1 hx with hx | hx
      · exact t.reached x (.inl hx)
      · rw [List.mem_singleton] at hx
        exact t.reached x (.inr ⟨_, List.mem_cons_self, hx.symm⟩)
    · exact t.reached _ (.inr ⟨t', List.mem_cons_of_mem _ ht', rfl⟩)

/-- The next root is visited. -/
theorem root {r : ExprHandle} (t : Tally m roots [] s) (hr : r.index < m.size) :
    Tally m (roots ++ [r]) [.visit r] s := by
  refine ⟨by simpa [Task.handle] using hr, by simp, t.once, t.met, fun x => ?_, by simp, ?_, t.ordered, ?_⟩
  · have hcount := t.counted x
    simp only [Task.visits, Task.emits, List.count_append, List.count_nil] at hcount ⊢
    omega
  · intro before x e after h
    have hemit : .emit x e ∈ [Task.visit r] := by simp [h]
    simp at hemit
  · rintro x (hx | ⟨t', ht', rfl⟩)
    · obtain ⟨r', hr', hreach⟩ := t.reached x (.inl hx)
      exact ⟨r', List.mem_append_left _ hr', hreach⟩
    · rw [List.mem_singleton] at ht'
      subst ht'
      exact ⟨r, by simp, .refl⟩

end Tally

/-- The walk comes to its end. -/
theorem work_tally {m : Module} {roots : List ExprHandle} {tasks : List Task} {s : Census}
    (t : Tally m roots tasks s) : ∃ s', work m tasks s = .ok s' ∧ Tally m roots [] s' := by
  fun_induction work m tasks s with
  | case1 s => exact ⟨s, rfl, t⟩
  | case2 s h rest hmet ih => exact ih (t.again hmet)
  | case3 s h rest hnew hlt ih => exact ih (t.first (by omega) (Module.get_of_lt hlt))
  | case4 s h rest _ hlt => exact absurd (t.valid _ List.mem_cons_self) hlt
  | case5 s h e rest ih => exact ih t.finish

theorem tally_new (m : Module) : Tally m [] [] {} := by
  refine ⟨by simp, by simp, by simp [Task.emits], ?_, ?_, .nil, by simp, by simp, by simp⟩
  · simp [usesOf, Task.emits]
  · simp [usesOf, Task.emits, Task.visits]

/-- A walk from one root after the other. -/
theorem foldlM_tally {m : Module} {done roots : List ExprHandle} {s : Census} (t : Tally m done [] s)
    (hroots : ∀ r ∈ roots, r.index < m.size) :
    ∃ s', roots.foldlM (fun s r => work m [.visit r] s) s = .ok s' ∧ Tally m (done ++ roots) [] s' := by
  induction roots generalizing done s with
  | nil => exact ⟨s, rfl, by simpa using t⟩
  | cons r roots ih =>
    obtain ⟨s₁, h₁, t₁⟩ := work_tally (t.root (hroots r List.mem_cons_self))
    obtain ⟨s₂, h₂, t₂⟩ := ih t₁ fun r hr => hroots r (List.mem_cons_of_mem _ hr)
    refine ⟨s₂, ?_, by simpa using t₂⟩
    rw [List.foldlM_cons]
    exact Except.bind_eq_ok.2 ⟨s₁, h₁, h₂⟩

/-- At the end the expressions finished are those that the roots reach. -/
theorem Tally.mem_finished_iff {m : Module} {roots : List ExprHandle} {s : Census} (t : Tally m roots [] s)
    {x : ExprHandle} : x ∈ s.finished ↔ ∃ r ∈ roots, m.Reaches r x := by
  have hused : ∀ x, x ∈ roots ++ s.finished.flatMap m.operands → x ∈ s.finished := by
    intro x hx
    have hcount := t.counted x
    have hpos := List.count_pos_iff.2 hx
    have hmet := (t.met x).1
    simp only [Task.visits, Task.emits, List.append_nil, List.count_nil, Nat.add_zero] at hcount hmet
    exact hmet (by omega)
  constructor
  · intro hx
    exact t.reached x (.inl hx)
  · rintro ⟨r, hr, hreach⟩
    induction hreach with
    | refl => exact hused r (List.mem_append_left _ hr)
    | tail _ hc ih => exact hused _ (List.mem_append_right _ (List.mem_flatMap.2 ⟨_, ih, hc⟩))

end Census

namespace Module

/-- `hs` lists the expressions that the roots reach, each once and after its
operands. -/
structure Spans (m : Module) (roots hs : List ExprHandle) : Prop where
  once : hs.Nodup
  mem : ∀ x, x ∈ hs ↔ ∃ r ∈ roots, m.Reaches r x
  ordered : ∀ before h after, hs = before ++ h :: after → ∀ c ∈ m.operands h, c ∈ before

/-- How often an expression stands among the roots and the operands of `hs`. -/
def uses (m : Module) (roots hs : List ExprHandle) (x : ExprHandle) : Nat := (roots ++ hs.flatMap m.operands).count x

/-- Shared are the expressions with operands that are used more than once by the
roots and the expressions they reach. -/
theorem shared_eq {m : Module} {roots : List ExprHandle} (hroots : ∀ r ∈ roots, r.index < m.size) :
    ∃ hs, m.Spans roots hs ∧
      m.shared roots = .ok (hs.filter fun h => 1 < m.uses roots hs h && m.isComposite h) := by
  obtain ⟨s, hs, t⟩ := Census.foldlM_tally (Census.tally_new m) hroots
  rw [List.nil_append] at t
  have hcount : ∀ x, s.usesOf x = m.uses roots s.finished x := by
    intro x
    have hx := t.counted x
    simpa only [Task.visits, Task.emits, List.append_nil, List.count_nil, Nat.add_zero, uses] using hx
  refine ⟨s.finished, ⟨by simpa [Task.emits] using t.once, fun x => t.mem_finished_iff, t.ordered⟩, ?_⟩
  unfold shared
  rw [hs]
  simp only [← hcount]
  rfl

/-- An expression with operands that stands twice or more among the roots and the
operands of the expressions they are made of. -/
def Shared (m : Module) (roots all : List ExprHandle) (x : ExprHandle) : Prop :=
  1 < m.uses roots all x ∧ m.isComposite x

theorem isComposite_of_mem_operands {m : Module} {x y : ExprHandle} (h : x ∈ m.operands y) : m.isComposite y := by
  cases he : m.get y with
  | error err =>
    rw [operands, he] at h
    cases h
  | ok e =>
    rw [operands_eq he] at h
    rw [isComposite, he]
    simpa using List.ne_nil_of_mem h

namespace Spans

variable {m : Module} {roots all : List ExprHandle}

theorem mem_iff_uses (s : m.Spans roots all) {x : ExprHandle} : x ∈ all ↔ 0 < m.uses roots all x := by
  unfold uses
  rw [List.count_pos_iff, List.mem_append, List.mem_flatMap]
  constructor
  · intro hx
    obtain ⟨r, hr, hreach⟩ := (s.mem x).1 hx
    rcases hreach.cases_tail with rfl | ⟨y, hy, hxy⟩
    · exact .inl hr
    · exact .inr ⟨y, (s.mem y).2 ⟨r, hr, hy⟩, hxy⟩
  · rintro (hx | ⟨y, hy, hxy⟩)
    · exact (s.mem x).2 ⟨x, hx, .refl⟩
    · obtain ⟨r, hr, hreach⟩ := (s.mem y).1 hy
      exact (s.mem x).2 ⟨r, hr, hreach.tail hxy⟩

/-- All that an expression is made of stands before it. -/
theorem mem_before (s : m.Spans roots all) {before after : List ExprHandle} {x y c : ExprHandle}
    (h : all = before ++ x :: after) (hy : m.Reaches x y) (hc : c ∈ m.operands y) : c ∈ before := by
  induction hy generalizing c with
  | refl => exact s.ordered before x after h c hc
  | @tail z y _ hyz ih =>
    obtain ⟨front, back, rfl⟩ := List.mem_iff_append.1 (ih hyz)
    have hmem := s.ordered front y (back ++ x :: after) (by simp [h]) c hc
    exact List.mem_append_left _ hmem

variable {m' : Module}

theorem operands_grow (s : m.Spans roots all) (hroots : ∀ r ∈ roots, r.index < m.size) (g : m.Grows m')
    {x : ExprHandle} (hx : x ∈ all) : m'.operands x = m.operands x ∧ m'.isComposite x = m.isComposite x := by
  have hlt : x.index < m.size := by
    obtain ⟨r, hr, hreach⟩ := (s.mem x).1 hx
    exact index_lt_of_reaches (hroots r hr) hreach
  have he := get_of_lt hlt
  constructor
  · rw [operands_eq he, operands_eq (g.get he)]
  · simp only [isComposite, he, g.get he]

/-- The same expressions are reached in a module that has grown. -/
theorem grow (s : m.Spans roots all) (hroots : ∀ r ∈ roots, r.index < m.size) (g : m.Grows m') :
    m'.Spans roots all where
  once := s.once
  mem x := by
    constructor
    · intro hx
      obtain ⟨r, hr, hreach⟩ := (s.mem x).1 hx
      refine ⟨r, hr, ?_⟩
      clear hx
      induction hreach with
      | refl => exact .refl
      | @tail y z hy hz ih =>
        exact ih.tail (by rwa [(s.operands_grow hroots g ((s.mem y).2 ⟨r, hr, hy⟩)).1])
    · rintro ⟨r, hr, hreach⟩
      induction hreach with
      | refl => exact (s.mem r).2 ⟨r, hr, .refl⟩
      | @tail y z _ hz ih =>
        rw [(s.operands_grow hroots g ih).1] at hz
        obtain ⟨r', hr', hreach'⟩ := (s.mem y).1 ih
        exact (s.mem z).2 ⟨r', hr', hreach'.tail hz⟩
  ordered before h after hall c hc := by
    rw [(s.operands_grow hroots g (by simp [hall])).1] at hc
    exact s.ordered before h after hall c hc

theorem shared_grow (s : m.Spans roots all) (hroots : ∀ r ∈ roots, r.index < m.size) (g : m.Grows m') :
    m'.Shared roots all = m.Shared roots all := by
  have huses : ∀ x, m'.uses roots all x = m.uses roots all x := by
    intro x
    unfold uses
    congr 2
    exact List.flatMap_congr fun y hy => (s.operands_grow hroots g hy).1
  funext x
  unfold Shared
  rw [huses, eq_iff_iff]
  refine and_congr_right fun hx => ?_
  rw [(s.operands_grow hroots g (s.mem_iff_uses.2 (Nat.lt_of_succ_lt hx))).2]

end Spans
end Module
end EffectGraph
