import EffectGraph.Proofs.Writer.Texts

/-!
# The tree of an expression

Written out, an expression is a tree: its operands stand in the place of their
handles, and of its leaves only the texts are left. An expression has a text just
if it has a tree, and the text is that of the tree (`shaderText_eq_ok_iff_unfold`).
-/

namespace EffectGraph

/-- An expression written out: operators around their operands, and the texts of
the leaves. -/
inductive Tree where
  | leaf (text : Text)
  | unary (op : UnaryOp) (operand : Tree)
  | binary (op : BinaryOp) (left right : Tree)
  deriving DecidableEq, Repr

/-- The text of a tree: every operator is applied to the texts of its operands. -/
def Tree.text : Tree → Text
  | .leaf t => t
  | .unary op x => op.render x.text
  | .binary op l r => op.render l.text r.text

namespace Module

/-- The tree of an expression. -/
def unfold (m : Module) (h : ExprHandle) : Except Error Tree :=
  if hlt : h.index < m.exprs.size then
    match he : m.exprs[h.index] with
    | .unary op x =>
      have := m.index_lt_of_mem_children hlt (c := x) (by simp [he, Expr.children])
      do return .unary op (← m.unfold x)
    | .binary op l r =>
      have := m.index_lt_of_mem_children hlt (c := l) (by simp [he, Expr.children])
      have := m.index_lt_of_mem_children hlt (c := r) (by simp [he, Expr.children])
      do return .binary op (← m.unfold l) (← m.unfold r)
    | e => do return .leaf (← e.render m [])
  else .error (.invalidHandle h m.size)
termination_by h.index

variable {m : Module} {h : ExprHandle}

theorem unfold_unary {op : UnaryOp} {x : ExprHandle} (he : m.get h = .ok (.unary op x)) :
    m.unfold h = do return .unary op (← m.unfold x) := by
  obtain ⟨hlt, he⟩ := Array.getElem?_eq_some_iff.1 (get_eq_ok_iff.1 he)
  rw [unfold, dif_pos hlt]
  split <;> simp_all

theorem unfold_binary {op : BinaryOp} {l r : ExprHandle} (he : m.get h = .ok (.binary op l r)) :
    m.unfold h = do return .binary op (← m.unfold l) (← m.unfold r) := by
  obtain ⟨hlt, he⟩ := Array.getElem?_eq_some_iff.1 (get_eq_ok_iff.1 he)
  rw [unfold, dif_pos hlt]
  split <;> simp_all

theorem unfold_leaf {e : Expr} (he : m.get h = .ok e) (hleaf : e.children = []) :
    m.unfold h = do return .leaf (← e.render m []) := by
  obtain ⟨hlt, rfl⟩ := Array.getElem?_eq_some_iff.1 (get_eq_ok_iff.1 he)
  rw [unfold, dif_pos hlt]
  split
  · next op x heq =>
    rw [heq] at hleaf
    cases hleaf
  · next op l r heq =>
    rw [heq] at hleaf
    cases hleaf
  · rfl

/-- How a tree comes from an expression: from the trees of its operands, or, at a
leaf, from its text. -/
inductive Unfolds (m : Module) : ExprHandle → Tree → Prop
  | leaf {h : ExprHandle} {e : Expr} {t : Text} : m.get h = .ok e → e.children = [] → e.render m [] = .ok t →
      Unfolds m h (.leaf t)
  | unary {h x : ExprHandle} {op : UnaryOp} {a : Tree} : m.get h = .ok (.unary op x) → Unfolds m x a →
      Unfolds m h (.unary op a)
  | binary {h l r : ExprHandle} {op : BinaryOp} {a b : Tree} : m.get h = .ok (.binary op l r) → Unfolds m l a →
      Unfolds m r b → Unfolds m h (.binary op a b)

theorem unfolds_of_unfold {a : Tree} (ha : m.unfold h = .ok a) : Unfolds m h a := by
  -- Operands stand before their users, so the induction is on the place.
  generalize hn : h.index = n
  induction n using Nat.strongRecOn generalizing h a with
  | ind n ih =>
    subst hn
    cases he : m.get h with
    | error err =>
      have hsize : ¬h.index < m.exprs.size := fun hlt => by simp [get, hlt] at he
      rw [unfold, dif_neg hsize] at ha
      cases ha
    | ok e =>
      have below : ∀ c ∈ e.children, ∀ {b : Tree}, m.unfold c = .ok b → Unfolds m c b :=
        fun c hc b hb => ih c.index (index_lt_of_get he hc) hb rfl
      cases e with
      | unary op x =>
        rw [unfold_unary he] at ha
        obtain ⟨b, hb, ha⟩ := Except.bind_eq_ok.1 ha
        cases ha
        exact .unary he (below x List.mem_cons_self hb)
      | binary op l r =>
        rw [unfold_binary he] at ha
        obtain ⟨b, hb, ha⟩ := Except.bind_eq_ok.1 ha
        obtain ⟨b', hb', ha⟩ := Except.bind_eq_ok.1 ha
        cases ha
        exact .binary he (below l List.mem_cons_self hb) (below r (List.mem_cons_of_mem _ List.mem_cons_self) hb')
      | _ =>
        rw [unfold_leaf he rfl] at ha
        obtain ⟨t, ht, ha⟩ := Except.bind_eq_ok.1 ha
        cases ha
        exact .leaf he rfl ht

theorem unfold_eq_ok_iff {a : Tree} : m.unfold h = .ok a ↔ Unfolds m h a := by
  refine ⟨unfolds_of_unfold, fun hu => ?_⟩
  induction hu with
  | leaf he hleaf ht =>
    rw [unfold_leaf he hleaf, ht]
    rfl
  | unary he _ ih =>
    rw [unfold_unary he, ih]
    rfl
  | binary he _ _ ihl ihr =>
    rw [unfold_binary he, ihl, ihr]
    rfl

/-- An expression that has a tree renders to the text of the tree. -/
theorem Unfolds.renders {a : Tree} (hu : Unfolds m h a) : Renders m [] h a.text := by
  induction hu with
  | leaf he hleaf ht =>
    refine .expr (fun _ => "") he (by simp [hleaf]) ?_
    rw [hleaf]
    exact ht
  | @unary h x op a he _ ih =>
    refine .expr (fun _ => a.text) he (fun c hc => ?_) rfl
    obtain rfl := List.mem_singleton.1 hc
    exact ih
  | @binary h l r op a b he _ _ ihl ihr =>
    -- Both operands may be the same expression, and then they have the same text.
    refine .expr (fun c => if c = l then a.text else b.text) he (fun c hc => ?_) ?_
    · by_cases hcl : c = l
      · rw [if_pos hcl, hcl]
        exact ihl
      · obtain rfl | hc := List.mem_cons.1 hc
        · exact absurd rfl hcl
        · rw [if_neg hcl, List.mem_singleton.1 hc]
          exact ihr
    · have hright : (if r = l then a.text else b.text) = b.text := by
        split
        · next hrl => exact Renders.unique ihl (hrl ▸ ihr)
        · rfl
      simp [Expr.render, Expr.children, Tree.text, hright]

/-- An expression that renders has a tree, whose text is that of the expression. -/
theorem exists_unfolds {t : Text} (hr : Renders m [] h t) : ∃ a, Unfolds m h a ∧ a.text = t := by
  induction hr with
  | name hn => cases hn
  | @expr h e t texts he hc ht ih =>
    cases e with
    | unary op x =>
      obtain ⟨a, ha, htext⟩ := ih x List.mem_cons_self
      cases ht
      exact ⟨.unary op a, .unary he ha, congrArg op.render htext⟩
    | binary op l r =>
      obtain ⟨a, ha, hl⟩ := ih l List.mem_cons_self
      obtain ⟨b, hb, hr⟩ := ih r (List.mem_cons_of_mem _ List.mem_cons_self)
      cases ht
      exact ⟨.binary op a b, .binary he ha hb, congrArg₂ op.render hl hr⟩
    | _ => exact ⟨.leaf t, .leaf he rfl ht, rfl⟩

/-- The text of an expression is the text of its tree. -/
theorem shaderText_eq_ok_iff_unfold {t : Text} :
    m.shaderText h = .ok t ↔ ∃ a, m.unfold h = .ok a ∧ a.text = t := by
  rw [shaderText_eq_ok_iff]
  constructor
  · intro hr
    obtain ⟨a, ha, htext⟩ := exists_unfolds hr
    exact ⟨a, unfold_eq_ok_iff.2 ha, htext⟩
  · rintro ⟨a, ha, rfl⟩
    exact (unfold_eq_ok_iff.1 ha).renders

end Module

end EffectGraph
