import EffectGraph.Proofs.Failure
import EffectGraph.Proofs.Module.Runs

/-!
# Types of expressions

The first operands of an expression lead to a leaf (`Leads`), and the operators on the
way make its type from that of the leaf. A walk down that collects the operators finds
this type at any depth. Recursion finds the same one where the stack has room for a call
for each operator and for those that look up the leaf, and is given up otherwise
(`valueType_recursive`).
-/

namespace EffectGraph

/-- The operator of an expression and its first operand. -/
def Expr.first? : Expr → Option (Operator × ExprHandle)
  | .binary op l _ => some (.binary op, l)
  | .unary op x => some (.unary op, x)
  | _ => none

theorem Expr.mem_children_of_first? {e : Expr} {op : Operator} {x : ExprHandle} (h : e.first? = some (op, x)) :
    x ∈ e.children := by
  cases e with
  | binary op l r =>
    cases h
    exact List.mem_cons_self
  | unary op x =>
    cases h
    exact List.mem_cons_self
  | _ => cases h

namespace Module

/-- The type of a leaf. -/
def leafType (m : Module) : Expr → Except Error (Option ValueType)
  | .literal v => .ok (some v.type)
  | .attribute a => .ok (some a.type)
  | .builtin b => .ok (some b.type)
  | .property p => do return some (← m.property p).type
  | .binary _ _ _ | .unary _ _ => .ok none

/-- First operands lead from `h` through operators, the outermost one first, to a leaf. -/
inductive Leads (m : Module) : ExprHandle → List Operator → Expr → Prop
  | leaf {h : ExprHandle} {e : Expr} : m.get h = .ok e → e.first? = none → Leads m h [] e
  | step {h x : ExprHandle} {e leaf : Expr} {op : Operator} {ops : List Operator} :
      m.get h = .ok e → e.first? = some (op, x) → Leads m x ops leaf → Leads m h (op :: ops) leaf

variable {m : Module} {h x : ExprHandle} {e : Expr} {op : Operator} {ops : List Operator}

/-- Every expression of a module leads to a leaf. -/
theorem exists_leads (hh : h.index < m.size) : ∃ ops leaf, m.Leads h ops leaf := by
  generalize hk : h.index = k
  -- Operands stand before their users.
  induction k using Nat.strongRecOn generalizing h with
  | ind k ih =>
    have he : m.get h = .ok m.exprs[h.index] := dif_pos hh
    cases hfirst : m.exprs[h.index].first? with
    | none => exact ⟨[], _, .leaf he hfirst⟩
    | some next =>
      obtain ⟨op, x⟩ := next
      have hlt := index_lt_of_get he (Expr.mem_children_of_first? hfirst)
      obtain ⟨ops, leaf, hx⟩ := ih x.index (hk ▸ hlt) (Nat.lt_trans hlt hh) rfl
      exact ⟨op :: ops, leaf, .step he hfirst hx⟩

theorem Leads.get {leaf : Expr} (hl : m.Leads h ops leaf) : ∃ e, m.get h = .ok e := by
  cases hl with
  | leaf he _ => exact ⟨_, he⟩
  | step he _ _ => exact ⟨_, he⟩

theorem Leads.grow {m' : Module} (g : m.Grows m') {leaf : Expr} (hl : m.Leads h ops leaf) : m'.Leads h ops leaf := by
  induction hl with
  | leaf he hfirst => exact .leaf (g.get he) hfirst
  | step he hfirst _ ih => exact .step (g.get he) hfirst ih

/-- The way down is no longer than there are expressions before. -/
theorem Leads.length_le {leaf : Expr} (hl : m.Leads h ops leaf) : ops.length ≤ h.index := by
  induction hl with
  | leaf _ _ => exact Nat.zero_le _
  | step he hfirst _ ih =>
    have hlt := index_lt_of_get he (Expr.mem_children_of_first? hfirst)
    rw [List.length_cons]
    omega

/-! ## One step -/

theorem descend_leaf (he : m.get h = .ok e) (hfirst : e.first? = none) (passed : List Operator) :
    m.descend h passed = (do return (← m.leafType e, passed)) := by
  obtain ⟨hlt, he⟩ := Array.getElem?_eq_some_iff.1 (get_eq_ok_iff.1 he)
  rw [descend, dif_pos hlt]
  split <;> rename_i hcase <;> obtain rfl := hcase.symm.trans he
  case h_4 => simp only [leafType, bind_assoc, pure_bind]
  case h_5 => cases hfirst
  case h_6 => cases hfirst
  all_goals rfl

theorem descend_step (he : m.get h = .ok e) (hfirst : e.first? = some (op, x)) (passed : List Operator) :
    m.descend h passed = m.descend x (op :: passed) := by
  obtain ⟨hlt, he⟩ := Array.getElem?_eq_some_iff.1 (get_eq_ok_iff.1 he)
  rw [descend, dif_pos hlt]
  split <;> rename_i hcase <;> obtain rfl := hcase.symm.trans he <;> cases hfirst <;> rfl

/-! ## Calls -/

theorem call_of_lt {body : Nat → Except Error α} {places : Nat} (h : 0 < places) :
    call body places = body (places - 1) := by
  obtain ⟨k, rfl⟩ := Nat.exists_eq_succ_of_ne_zero (Nat.ne_of_gt h)
  rfl

/-- To look an expression up takes a call, which makes one that makes one. -/
theorem getCall_eq (he : m.get h = .ok e) (places : Nat) :
    m.getCall h places = if places < 3 then .error .tooDeep else .ok e := by
  have hlt : ¬m.size ≤ h.index := Nat.not_le.2 (Array.getElem?_eq_some_iff.1 (get_eq_ok_iff.1 he)).1
  match places with
  | 0 | 1 | 2 => rfl
  | places + 3 =>
    have hcheck : m.checkCall h (places + 2) = .ok () := by
      change (if m.size ≤ h.index then _ else _) = _
      rw [if_neg hlt]
      rfl
    rw [if_neg (by omega), getCall, call_of_lt (by omega)]
    change (m.checkCall h (places + 2) >>= fun _ => m.get h) = _
    rw [hcheck, he]
    rfl

/-- A leaf finds its type in at most three calls. -/
theorem typeCall_leaf (hfirst : e.first? = none) {places : Nat} (hp : 3 ≤ places) :
    m.typeCall e places = m.leafType e := by
  obtain ⟨places, rfl⟩ := Nat.exists_eq_add_of_le' hp
  cases e with
  | binary _ _ _ => cases hfirst
  | unary _ _ => cases hfirst
  | _ => rfl

/-- An operator asks its first operand. -/
theorem typeCall_step (he : m.get x = .ok leaf) (hfirst : e.first? = some (op, x)) (places : Nat) :
    m.typeCall e (places + 1) =
      if places < 3 then .error .tooDeep else op.resultType <$> m.typeCall leaf places := by
  have hget := getCall_eq he places
  have hstep : m.typeCall e (places + 1) = (do
      let t ← m.typeCall (← m.getCall x places) places
      call (fun _ => .ok (op.resultType t)) places) := by
    cases e <;> cases hfirst <;> rfl
  rw [hstep, hget]
  by_cases hp : places < 3
  · rw [if_pos hp, if_pos hp]
    rfl
  · rw [if_neg hp, if_neg hp]
    change (m.typeCall leaf places >>= _) = _
    rw [map_eq_pure_bind]
    congr 1
    funext t
    rw [call_of_lt (by omega)]
    rfl

/-! ## The whole way down -/

/-- The type of an expression whose first operands lead through operators to a leaf. -/
def typeAlong (m : Module) (ops : List Operator) (leaf : Expr) : Except Error (Option ValueType) :=
  (fun t => ops.foldr Operator.resultType t) <$> m.leafType leaf

theorem Leads.descend {leaf : Expr} (hl : m.Leads h ops leaf) (passed : List Operator) :
    m.descend h passed = (do return (← m.leafType leaf, ops.reverse ++ passed)) := by
  induction hl generalizing passed with
  | leaf he hfirst => exact descend_leaf he hfirst passed
  | step he hfirst _ ih => rw [descend_step he hfirst, ih, List.reverse_cons, List.append_assoc, List.singleton_append]

/-- The walk down finds the type, however long it is. -/
theorem Leads.valueType {leaf : Expr} (hl : m.Leads h ops leaf) : m.valueType h = m.typeAlong ops leaf := by
  rw [Module.valueType, hl.descend, typeAlong, map_eq_pure_bind, bind_assoc]
  simp only [pure_bind, List.append_nil, List.foldl_reverse]

/-- Recursion finds the type if the stack has room for a call for each operator and for
those that look up the leaf. -/
theorem Leads.typeCall {leaf : Expr} (hl : m.Leads h ops leaf) (he : m.get h = .ok e) {places : Nat}
    (hp : 3 ≤ places) :
    m.typeCall e places = if ops.length + 3 ≤ places then m.typeAlong ops leaf else .error .tooDeep := by
  induction hl generalizing e places with
  | @leaf h e' he' hfirst =>
    obtain rfl := Except.ok.inj (he.symm.trans he')
    rw [typeCall_leaf hfirst hp, if_pos (by simpa using hp), typeAlong]
    exact (id_map _).symm
  | @step h x e' leaf op ops he' hfirst hx ih =>
    obtain rfl := Except.ok.inj (he.symm.trans he')
    obtain ⟨places, rfl⟩ := Nat.exists_eq_add_of_le' (Nat.le_trans (by decide : 1 ≤ 3) hp)
    obtain ⟨next, hnext⟩ := hx.get
    -- One call is spent on the operator; the rest is for its operand.
    rw [typeCall_step hnext hfirst, List.length_cons]
    by_cases hroom : places < 3
    · rw [if_pos hroom, if_neg (by omega)]
    · rw [if_neg hroom, ih hnext (by omega)]
      by_cases hrest : ops.length + 3 ≤ places
      · rw [if_pos hrest, if_pos (by omega), typeAlong, typeAlong, Functor.map_map]
        rfl
      · rw [if_neg hrest, if_neg (by omega)]
        rfl

/-- An expression of a module has no type only if it leads to a property that does
not exist. -/
theorem typeAlong_eq_error_iff {leaf : Expr} {err : Error} :
    m.typeAlong ops leaf = .error err ↔ ∃ p, leaf = .property p ∧ m.property p = .error err := by
  rw [typeAlong, Except.map_eq_error]
  cases leaf with
  | property p => simp [leafType, Except.map_eq_error]
  | _ => simp [leafType]

theorem Leads.typeOf [Stack] {leaf : Expr} (hl : m.Leads h ops leaf) :
    m.typeOf h = if ops.length + 3 ≤ Stack.calls then m.typeAlong ops leaf else .error .tooDeep := by
  obtain ⟨e, he⟩ := hl.get
  rw [Module.typeOf, getCall_eq he]
  by_cases hroom : Stack.calls < 3
  · rw [if_pos hroom, if_neg (by omega)]
    rfl
  · rw [if_neg hroom]
    exact hl.typeCall he (Nat.le_of_not_lt hroom)

/-- The type of an expression of a module is that of the leaf that its first operands
lead to, taken through the operators on the way. It fails only if the leaf is a
property that does not exist. The walk down always finds it. Recursion finds it, and
fails as the walk does, where the stack has room for the operators and for six calls
more, those that look up the leaf and say what is wrong with it. Where there is not
even room for the operators it is given up. -/
theorem valueType_recursive [Stack] (m : Module) (h : ExprHandle) (hh : h.index < m.size) :
    ∃ ops leaf, m.Leads h ops leaf ∧
      m.valueType h = m.typeAlong ops leaf ∧
      (∀ err, m.valueType h = .error err ↔ ∃ p, leaf = .property p ∧ m.property p = .error err) ∧
      (ops.length + 6 ≤ Stack.calls → m.typeOf h = m.valueType h) ∧
      (Stack.calls ≤ ops.length → m.typeOf h = .error .tooDeep) := by
  obtain ⟨ops, leaf, hl⟩ := exists_leads hh
  refine ⟨ops, leaf, hl, hl.valueType, fun err => ?_, fun hroom => ?_, fun hroom => ?_⟩
  · rw [hl.valueType, typeAlong_eq_error_iff]
  · rw [hl.typeOf, hl.valueType, if_pos (by omega)]
  · rw [hl.typeOf, if_neg (by omega)]

section

open scoped EffectGraph.Stack.Usual

theorem valueType_recursive_mixed :
    let m := built 0 [.attr .position, .unary .length ⟨0⟩, .binary .mul ⟨1⟩ ⟨0⟩, .unary .any ⟨2⟩]
    m.valueType ⟨3⟩ = .ok (some (.scalar .bool)) ∧ m.typeOf ⟨3⟩ = m.valueType ⟨3⟩ := by
  intro m
  obtain ⟨ops, leaf, hl, -, -, htype, -⟩ := valueType_recursive m ⟨3⟩ (by decide)
  have hthree : m.valueType ⟨3⟩ = .ok (some (.scalar .bool)) := by cbv
  have hlen : ops.length ≤ 3 := hl.length_le
  exact ⟨hthree, htype (Nat.le_trans (Nat.add_le_add_right hlen 6) (by decide))⟩

end

/-! ## Doubling -/

/-- Calls that read a position and then double what was added last. -/
def doublings (n : Nat) : List Call :=
  .attr .position :: (List.range n).map fun k => .binary .add ⟨k⟩ ⟨k⟩

theorem doublings_succ (n : Nat) : doublings (n + 1) = doublings n ++ [.binary .add ⟨n⟩ ⟨n⟩] := by
  rw [doublings, List.range_succ, List.map_append, doublings]
  rfl

theorem leads_doublings [Stack] (key n : Nat) :
    (built key (doublings n)).size = n + 1 ∧
      (built key (doublings n)).Leads ⟨n⟩ (List.replicate n (.binary .add)) (.attribute .position) := by
  induction n with
  | zero => exact ⟨rfl, .leaf rfl rfl⟩
  | succ n ih =>
    obtain ⟨hsize, hl⟩ := ih
    obtain ⟨m', hpush⟩ := push_succeeds (m := built key (doublings n)) (e := .binary .add ⟨n⟩ ⟨n⟩)
      (by simp [Expr.children, hsize]) rfl
    obtain ⟨hgrows, hget, hsize'⟩ := push_ok hpush
    have hbuilt : built key (doublings (n + 1)) = m' := by
      rw [doublings_succ, built_snoc]
      exact congrArg lastState hpush
    rw [hbuilt]
    rw [hsize] at hget hsize'
    exact ⟨hsize', .step hget rfl (hl.grow hgrows)⟩

/-- What is doubled keeps its type. -/
theorem typeAlong_doublings (m : Module) (n : Nat) :
    m.typeAlong (List.replicate n (.binary .add)) (.attribute .position) = .ok (some .vec3f) := by
  induction n with
  | zero => rfl
  | succ n ih => exact ih

open scoped EffectGraph.Stack.Usual in
/-- A position that was doubled 1500 times has a type, which recursion does not find. -/
theorem typeOf_doublings :
    let m := built 0 (doublings 1500)
    m.size = 1501 ∧ m.valueType ⟨1500⟩ = .ok (some .vec3f) ∧ m.typeOf ⟨1500⟩ = .error .tooDeep := by
  intro m
  obtain ⟨hsize, hl⟩ := leads_doublings 0 1500
  refine ⟨hsize, hl.valueType.trans (typeAlong_doublings m 1500), ?_⟩
  rw [hl.typeOf, List.length_replicate, if_neg (by decide)]

/-! ## Literals -/

/-- A literal has the type of its value. -/
theorem valueType_literal {v : Literal} (he : m.get h = .ok (.literal v)) : m.valueType h = .ok (some v.type) :=
  (Leads.leaf he rfl).valueType

/-- What has a type is in the module. -/
theorem exists_get_of_valueType {t : Option ValueType} (ht : m.valueType h = .ok t) :
    ∃ e, m.get h = .ok e ∧ ∀ v, e = .literal v → t = some v.type := by
  by_cases hlt : h.index < m.exprs.size
  · have he : m.get h = .ok m.exprs[h.index] := dif_pos hlt
    refine ⟨_, he, fun v hv => ?_⟩
    rw [valueType_literal (hv ▸ he)] at ht
    exact (Except.ok.inj ht).symm
  · rw [valueType, descend, dif_neg hlt] at ht
    cases ht

end Module
end EffectGraph
