import EffectGraph.Proofs.Rendering
import EffectGraph.Proofs.Sharing
import Mathlib

/-!
# What a text writes out

A text of an expression writes it out around its operands, and each operand is
the name of a local or written out in its turn. `Writes` keeps a record of the
expressions that are written out, and forbids it for operands that are shared.
An expression is then written out as often as it is an operand of those written
out and has no name (`Writes.count_eq`), so lines for all roots and all shared
expressions write out everything else once (`Covers.count_spelled`).
-/

namespace EffectGraph

/-! ## How expressions are written -/

/-- Where an expression stands: it is all of a line, or an operand. -/
inductive Place where
  | line
  | operand

/-- `t` is how `h` is written at a place, and `ops` are the expressions written out
in `t`, as often as they are. The locals of `V` may stand for operands, and
expressions that are shared are never written out as operands. -/
inductive Writes (m : Module) (V : Bindings) (Shared : ExprHandle → Prop) :
    Place → ExprHandle → Text → List ExprHandle → Prop
  | name {h : ExprHandle} {n : Text} : (h, n) ∈ V → Writes m V Shared .operand h n []
  | inlined {h : ExprHandle} {t : Text} {ops : List ExprHandle} :
      ¬Shared h → Writes m V Shared .line h t ops → Writes m V Shared .operand h t ops
  | spelled {h : ExprHandle} {e : Expr} {t : Text} (texts : ExprHandle → Text)
      (ops : ExprHandle → List ExprHandle) : m.get h = .ok e →
      (∀ c ∈ e.children, Writes m V Shared .operand c (texts c) (ops c)) →
      e.render m (e.children.map texts) = .ok t → Writes m V Shared .line h t (h :: e.children.flatMap ops)

namespace Writes

variable {m : Module} {V : Bindings} {Shared : ExprHandle → Prop} {p : Place} {h : ExprHandle} {t : Text}
  {ops : List ExprHandle}

/-- More locals and a grown module leave what is written. -/
theorem mono {m' : Module} {V' : Bindings} (g : m.Grows m') (hV : ∀ q ∈ V, q ∈ V')
    (r : Writes m V Shared p h t ops) : Writes m' V' Shared p h t ops := by
  induction r with
  | name hn => exact .name (hV _ hn)
  | inlined hs _ ih => exact .inlined hs ih
  | spelled texts ops he _ ht ih => exact .spelled texts ops (g.get he) ih (Expr.render_grows g ht)

/-- A line writes its expression out. -/
theorem mem_of_line (r : Writes m V Shared .line h t ops) : h ∈ ops := by
  cases r with
  | spelled texts ops _ _ _ => exact List.mem_cons_self

/-- An operand of which nothing is written out is a name. -/
theorem exists_name (r : Writes m V Shared .operand h t []) : ∃ n, (h, n) ∈ V ∧ t = n := by
  cases r with
  | name hn => exact ⟨_, hn, rfl⟩
  | inlined _ r => cases r

/-- What is written out is part of the expression. -/
theorem reaches (r : Writes m V Shared p h t ops) : ∀ x ∈ ops, m.Reaches h x := by
  induction r with
  | name => simp
  | inlined _ _ ih => exact ih
  | spelled texts ops he _ _ ih =>
    intro x hx
    rcases List.mem_cons.1 hx with rfl | hx
    · exact .refl
    · obtain ⟨c, hc, hx⟩ := List.mem_flatMap.1 hx
      exact .head (by rwa [Module.operands_eq he]) (ih c hc x hx)

/-- A shared expression is written out in a line of its own at most. -/
theorem count_shared (r : Writes m V Shared p h t ops) {x : ExprHandle} (hx : Shared x) :
    ops.count x = match p with
      | .line => if x = h then 1 else 0
      | .operand => 0 := by
  induction r with
  | name => rfl
  | @inlined h t ops hs _ ih =>
    have hne : x ≠ h := by
      rintro rfl
      exact hs hx
    simpa [hne] using ih
  | @spelled h e t texts ops he _ _ ih =>
    have hnone : (e.children.flatMap ops).count x = 0 := by
      rw [List.count_eq_zero, List.mem_flatMap]
      rintro ⟨c, hc, hmem⟩
      exact List.count_eq_zero.1 (ih c hc) hmem
    rw [List.count_cons, hnone, Nat.zero_add]
    simp only [beq_iff_eq, eq_comm (b := x)]

/-- An expression that is no operand where it has a name is written out once for
the line, if it is its own, and once for each operand that it is of an expression
written out. -/
theorem count_eq (r : Writes m V Shared p h t ops) {x : ExprHandle}
    (hx : ∀ n, (x, n) ∈ V → ∀ y ∈ ops, x ∉ m.operands y) :
    ops.count x = (if x = h ∧ ops ≠ [] then 1 else 0) + (ops.flatMap m.operands).count x := by
  induction r with
  | name => simp
  | inlined _ _ ih => exact ih hx
  | @spelled h e t texts ops he hc _ ih =>
    have hchildren : ∀ c ∈ e.children,
        (ops c).count x = (if x = c then 1 else 0) + ((ops c).flatMap m.operands).count x := by
      intro c hmem
      rw [ih c hmem fun n hn y hy => hx n hn y (List.mem_cons_of_mem _ (List.mem_flatMap.2 ⟨c, hmem, hy⟩))]
      by_cases hxc : x = c
      · -- With nothing written out, it would have a name and be an operand.
        have hops : ops c ≠ [] := by
          intro hnil
          have hname := hc c hmem
          rw [hnil] at hname
          obtain ⟨n, hn, -⟩ := hname.exists_name
          exact hx n (hxc ▸ hn) h List.mem_cons_self (by rwa [Module.operands_eq he, hxc])
        simp [hxc, hops]
      · simp [hxc]
    have hcount := count_flatMap_eq_add (k := id) hchildren
    rw [List.map_id] at hcount
    rw [List.count_cons, hcount, List.flatMap_cons, List.count_append, Module.operands_eq he, List.flatMap_assoc]
    by_cases hxh : x = h
    · simp only [hxh, BEq.rfl, if_true, ne_eq, reduceCtorEq, not_false_eq_true, and_self]
      omega
    · have hne : (h == x) = false := beq_eq_false_iff_ne.2 (Ne.symm hxh)
      simp [hxh, hne]

end Writes

/-! ## Lines -/

/-- A line that declares a local for an expression: the text on its right side,
and the expressions written out in it. -/
structure Line where
  handle : ExprHandle
  name : Text
  text : Text
  spelled : List ExprHandle

/-- The line as a statement. -/
def Line.statement (l : Line) : Statement := .binding l.name l.text

/-- Lines write out each its own expression, no two the same; these are the shared
expressions and the roots, and what has a name is one of them. -/
structure Covers (m : Module) (roots all : List ExprHandle) (V : Bindings) (lines : List Line) : Prop where
  writes : ∀ l ∈ lines, Writes m V (m.Shared roots all) .line l.handle l.text l.spelled
  named : ∀ x n, (x, n) ∈ V → x ∈ lines.map Line.handle
  once : (lines.map Line.handle).Nodup
  handles : ∀ x, x ∈ lines.map Line.handle ↔ m.Shared roots all x ∨ x ∈ roots

namespace Covers

variable {m : Module} {roots all : List ExprHandle} {V : Bindings} {lines : List Line} {x : ExprHandle}

/-- What is written out is made from the roots. -/
theorem mem_of_spelled (c : Covers m roots all V lines) (s : m.Spans roots all)
    (hx : x ∈ lines.flatMap Line.spelled) : x ∈ all := by
  obtain ⟨l, hl, hx⟩ := List.mem_flatMap.1 hx
  have hhandle : l.handle ∈ all := by
    rcases (c.handles _).1 (List.mem_map_of_mem hl) with hshared | hroot
    · exact s.mem_iff_uses.2 (Nat.lt_of_succ_lt hshared.1)
    · exact (s.mem _).2 ⟨_, hroot, .refl⟩
  obtain ⟨r, hr, hreach⟩ := (s.mem _).1 hhandle
  exact (s.mem x).2 ⟨r, hr, hreach.trans ((c.writes l hl).reaches x hx)⟩

theorem count_shared (c : Covers m roots all V lines) (hx : m.Shared roots all x) :
    (lines.flatMap Line.spelled).count x = 1 := by
  have hline : ∀ l ∈ lines, l.spelled.count x = (if x = l.handle then 1 else 0) + ([] : List ExprHandle).count x :=
    fun l hl => (c.writes l hl).count_shared hx
  have hnil : (lines.flatMap fun _ => ([] : List ExprHandle)) = [] := by simp
  rw [count_flatMap_eq_add hline, List.count_eq_one_of_mem c.once ((c.handles x).2 (.inl hx)), hnil, List.count_nil]

/-- An expression that is used once is written out as a root, or as an operand of
what is written out. -/
theorem count_used_once (c : Covers m roots all V lines) (s : m.Spans roots all) (hx : ¬m.Shared roots all x)
    (huses : m.uses roots all x = 1) :
    (lines.flatMap Line.spelled).count x =
      roots.count x + ((lines.flatMap Line.spelled).flatMap m.operands).count x := by
  rw [Module.uses, List.count_append] at huses
  have hkeys : (lines.map Line.handle).count x = roots.count x := by
    by_cases hroot : x ∈ roots
    · have hpos := List.count_pos_iff.2 hroot
      rw [List.count_eq_one_of_mem c.once ((c.handles x).2 (.inr hroot))]
      omega
    · rw [List.count_eq_zero.2 hroot, List.count_eq_zero, c.handles]
      exact fun h => h.elim hx hroot
  -- With a name it is a root, which is the one use.
  have hnamed : ∀ n, (x, n) ∈ V → ∀ y ∈ all, x ∉ m.operands y := by
    intro n hxn y hy hxy
    have hroot := ((c.handles x).1 (c.named x n hxn)).resolve_left hx
    have hpos := List.count_pos_iff.2 hroot
    have hpos' := List.count_pos_iff.2 (List.mem_flatMap.2 ⟨y, hy, hxy⟩)
    omega
  have hline : ∀ l ∈ lines, l.spelled.count x =
      (if x = l.handle then 1 else 0) + (l.spelled.flatMap m.operands).count x := by
    intro l hl
    have hne : l.spelled ≠ [] := List.ne_nil_of_mem (c.writes l hl).mem_of_line
    have hcount := (c.writes l hl).count_eq fun n hxn y hy =>
      hnamed n hxn y (c.mem_of_spelled s (List.mem_flatMap.2 ⟨l, hl, hy⟩))
    simpa [hne] using hcount
  rw [count_flatMap_eq_add hline, hkeys, List.flatMap_assoc]

/-- Such lines write out every expression with operands once. -/
theorem count_spelled (c : Covers m roots all V lines) (s : m.Spans roots all) (hx : x ∈ all)
    (hcomposite : m.isComposite x) : (lines.flatMap Line.spelled).count x = 1 := by
  -- Users stand after their operands, so the induction is from the end of the module.
  generalize hk : m.size - x.index = k
  induction k using Nat.strongRecOn generalizing x with
  | ind k ih =>
    by_cases hshared : m.Shared roots all x
    · exact c.count_shared hshared
    · have huses : m.uses roots all x = 1 := by
        have hpos := s.mem_iff_uses.1 hx
        have hle : ¬1 < m.uses roots all x := fun hlt => hshared ⟨hlt, hcomposite⟩
        omega
      have hoperands : ((lines.flatMap Line.spelled).flatMap m.operands).count x =
          (all.flatMap m.operands).count x := by
        refine count_flatMap_congr fun y hy => ?_
        by_cases hmem : y ∈ all
        · have hlt := Module.index_lt_of_mem_operands hy
          have hsize := Module.lt_of_mem_operands hy
          rw [ih (m.size - y.index) (by omega) hmem (Module.isComposite_of_mem_operands hy) rfl,
            List.count_eq_one_of_mem s.once hmem]
        · rw [List.count_eq_zero.2 fun h => hmem (c.mem_of_spelled s h), List.count_eq_zero.2 hmem]
      rw [c.count_used_once s hshared huses, hoperands, ← List.count_append]
      exact huses

end Covers

end EffectGraph
