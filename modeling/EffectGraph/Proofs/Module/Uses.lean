import EffectGraph.Proofs.Module.Runs
import EffectGraph.Proofs.Sharing

/-!
# What is referred to twice

How often an expression is referred to can be said without a walk (`references`):
go through all expressions of the module that the roots are made of, count the
operand positions that hold the expression, and add the roots that are it. For
roots of the module `shared` lists just the expressions with operands for which
this count is two or more, none of them twice, and none before what it is made of
(`shared_referred_twice`).
-/

namespace EffectGraph.Module

variable {m : Module} {roots : List ExprHandle}

/-! ## Counting references -/

/-- Whether an expression is made of another, by a search through its operands. -/
def hasPart (m : Module) (h x : ExprHandle) : Bool :=
  decide (h = x) || (m.operands h).attach.any fun c => m.hasPart c.1 x
termination_by h.index
decreasing_by exact index_lt_of_mem_operands c.2

theorem hasPart_iff {h x : ExprHandle} : m.hasPart h x ↔ m.Reaches h x := by
  fun_induction hasPart m h x with
  | case1 h ih =>
    rw [Bool.or_eq_true, decide_eq_true_eq, List.any_eq_true, Reaches, Relation.ReflTransGen.cases_head_iff]
    refine or_congr_right ⟨?_, ?_⟩
    · rintro ⟨⟨c, hc⟩, -, hpart⟩
      exact ⟨c, hc, (ih ⟨c, hc⟩).1 hpart⟩
    · rintro ⟨c, hc, hreach⟩
      exact ⟨⟨c, hc⟩, List.mem_attach _ _, (ih ⟨c, hc⟩).2 hreach⟩

instance (m : Module) (h x : ExprHandle) : Decidable (m.Reaches h x) := decidable_of_iff _ hasPart_iff

/-- The expressions that the roots are made of, each once. -/
def parts (m : Module) (roots : List ExprHandle) : List ExprHandle :=
  m.handles.filter fun h => ∃ r ∈ roots, m.Reaches r h

/-- How often an expression is referred to: by the operand positions of the
expressions that the roots are made of, and by the roots themselves. -/
def references (m : Module) (roots : List ExprHandle) (h : ExprHandle) : Nat :=
  ((m.parts roots).flatMap m.operands).count h + roots.count h

theorem mem_handles_iff {h : ExprHandle} : h ∈ m.handles ↔ h.index < m.size := by
  unfold handles
  rw [List.mem_map]
  constructor
  · rintro ⟨k, hk, rfl⟩
    exact List.mem_range.1 hk
  · intro hlt
    exact ⟨h.index, List.mem_range.2 hlt, rfl⟩

theorem nodup_handles (m : Module) : m.handles.Nodup :=
  List.nodup_range.map fun _ _ he => congrArg ExprHandle.index he

namespace Spans

variable {all : List ExprHandle}

/-- There is one way to list what the roots are made of, but for the order. -/
theorem perm_parts (s : m.Spans roots all) (hroots : ∀ r ∈ roots, r.index < m.size) : all.Perm (m.parts roots) := by
  unfold parts
  rw [List.perm_ext_iff_of_nodup s.once ((nodup_handles m).filter _)]
  intro x
  rw [s.mem, List.mem_filter, decide_eq_true_eq, mem_handles_iff, iff_and_self]
  rintro ⟨r, hr, hreach⟩
  exact index_lt_of_reaches (hroots r hr) hreach

/-- Uses are counted alike in any order. -/
theorem uses_eq_references (s : m.Spans roots all) (hroots : ∀ r ∈ roots, r.index < m.size) (h : ExprHandle) :
    m.uses roots all h = m.references roots h := by
  rw [uses, references, List.count_append, ((s.perm_parts hroots).flatMap_right _).count_eq, Nat.add_comm]

/-- No expression stands before one that it is made of. -/
theorem pairwise_not_reaches (s : m.Spans roots all) : all.Pairwise fun x y => ¬m.Reaches x y := by
  rw [List.pairwise_iff_forall_sublist]
  intro x y hsub hreach
  obtain ⟨front, back, rfl, hx, hy⟩ := List.cons_sublist_iff.1 hsub
  rw [List.singleton_sublist] at hy
  have hapart : ∀ z ∈ front, z ≠ y := fun z hz => (List.nodup_append.1 s.once).2.2 z hz y hy
  rcases hreach.cases_tail with rfl | ⟨z, hz, hyz⟩
  · exact hapart _ hx rfl
  · obtain ⟨before, after, rfl⟩ := List.mem_iff_append.1 hx
    have hall : before ++ x :: after ++ back = before ++ x :: (after ++ back) := by simp
    exact hapart y (List.mem_append_left _ (s.mem_before hall hz hyz)) rfl

end Spans

/-! ## What is shared -/

/-- Shared are, for roots of the module, the expressions with operands that the
roots are made of and that are referred to twice or more. Each is listed once, and
after all that it is made of. -/
theorem shared_referred_twice (m : Module) (roots : List ExprHandle) (hroots : ∀ r ∈ roots, r.index < m.size) :
    ∃ hs, m.shared roots = .ok hs ∧ hs.Nodup ∧
      (∀ h, h ∈ hs ↔ m.isComposite h ∧ (∃ r ∈ roots, m.Reaches r h) ∧ 2 ≤ m.references roots h) ∧
      hs.Pairwise fun x y => ¬m.Reaches x y := by
  obtain ⟨all, s, hshared⟩ := shared_eq hroots
  refine ⟨_, hshared, s.once.filter _, fun h => ?_, s.pairwise_not_reaches.filter _⟩
  rw [List.mem_filter, s.mem, Bool.and_eq_true, decide_eq_true_eq, s.uses_eq_references hroots]
  constructor
  · rintro ⟨hreach, htwice, hcomposite⟩
    exact ⟨hcomposite, hreach, htwice⟩
  · rintro ⟨hcomposite, hreach, htwice⟩
    exact ⟨hreach, htwice, hcomposite⟩

open scoped EffectGraph.Stack.Usual in
/-- A direction, its double, and the double times the velocity. -/
theorem shared_referred_twice_doubledDirection :
    let m := built 0 [.attr .velocity, .unary .normalize ⟨0⟩, .binary .add ⟨1⟩ ⟨1⟩, .binary .mul ⟨2⟩ ⟨0⟩]
    let roots : List ExprHandle := [⟨3⟩, ⟨2⟩, ⟨1⟩, ⟨2⟩]
    let hs : List ExprHandle := [⟨1⟩, ⟨2⟩]
    (∀ r ∈ roots, r.index < m.size) ∧ m.handles.map (m.references roots) = [2, 3, 3, 1] ∧ m.shared roots = .ok hs ∧
      (∀ h, h ∈ hs ↔ m.isComposite h ∧ (∃ r ∈ roots, m.Reaches r h) ∧ 2 ≤ m.references roots h) ∧
      hs.Pairwise fun x y => ¬m.Reaches x y := by
  intro m roots hs
  have hroots : ∀ r ∈ roots, r.index < m.size := by decide
  have hlist : m.shared roots = .ok hs := by cbv
  obtain ⟨hs', hshared, -, hmem, hordered⟩ := shared_referred_twice m roots hroots
  rw [hlist] at hshared
  cases hshared
  exact ⟨hroots, by cbv, hlist, hmem, hordered⟩

end EffectGraph.Module
