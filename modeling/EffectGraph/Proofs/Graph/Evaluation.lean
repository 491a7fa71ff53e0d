import EffectGraph.Graph.Evaluator
import EffectGraph.Proofs.Graph.Layout
import EffectGraph.Proofs.Graph.Sorting
import EffectGraph.Proofs.Writer.Texts
import Mathlib

/-!
# Evaluation follows the links

`SlotText g s t` reads the text of an output slot off the graph alone: along the
links, and through what each node does with the slots that its inputs read. An
evaluation that succeeds gives every output slot of the nodes it evaluates an
expression with that text, whatever the evaluator and the module held before
(`evaluate_slotText`). `Evaluated` is what holds after so many nodes.
-/

namespace EffectGraph

/-- The sign between the operands of an arithmetic node. -/
def Arithmetic.sign : Arithmetic → String
  | .add => "+"
  | .sub => "-"
  | .mul => "*"
  | .div => "/"

/-- The text of an output slot, read off the graph. -/
inductive SlotText (g : Graph) : SlotId → Text → Prop
  | particle {n : NodeId} {a : Attribute} {o : SlotId} : g.node n = .ok (.attribute a) →
      g.outputSlots n = .ok [o] → SlotText g o ("particle." ++ a.name)
  | time {n : NodeId} {o o' : SlotId} : g.node n = .ok .time →
      g.outputSlots n = .ok [o, o'] → SlotText g o "sim_params.time"
  | deltaTime {n : NodeId} {o o' : SlotId} : g.node n = .ok .time →
      g.outputSlots n = .ok [o, o'] → SlotText g o' "sim_params.delta_time"
  | normalize {n : NodeId} {i o s : SlotId} {t : Text} : g.node n = .ok .normalize →
      g.outputSlots n = .ok [o] → g.findSlot n "in" = .ok (some i) → g.sourceSlot i = .ok (some s) →
      SlotText g s t → SlotText g o ("normalize(" ++ t ++ ")")
  | arithmetic {n : NodeId} {op : Arithmetic} {l r o sl sr : SlotId} {tl tr : Text} :
      g.node n = .ok (.arithmetic op) → g.outputSlots n = .ok [o] →
      g.findSlot n "lhs" = .ok (some l) → g.sourceSlot l = .ok (some sl) → SlotText g sl tl →
      g.findSlot n "rhs" = .ok (some r) → g.sourceSlot r = .ok (some sr) → SlotText g sr tr →
      SlotText g o ("(" ++ tl ++ ") " ++ op.sign ++ " (" ++ tr ++ ")")

namespace Graph.Laid

variable {g : Graph}

/-- A slot is an output of one node. -/
theorem output_unique (h : g.Laid) {n n' : NodeId} {node node' : Node} {os os' : List SlotId} {s : SlotId}
    (hn : g.node n = .ok node) (hos : g.outputSlots n = .ok os) (hs : s ∈ os)
    (hn' : g.node n' = .ok node') (hos' : g.outputSlots n' = .ok os') (hs' : s ∈ os') :
    n = n' ∧ node = node' ∧ os = os' := by
  rw [outputSlots_eq hn] at hos
  rw [outputSlots_eq hn'] at hos'
  cases hos
  cases hos'
  cases h.node_unique hs hs'
  rw [hn] at hn'
  cases hn'
  exact ⟨rfl, rfl, rfl⟩

theorem nodup_outputSlots (h : g.Laid) {n : NodeId} {os : List SlotId} (hos : g.outputSlots n = .ok os) :
    os.Nodup := by
  obtain ⟨node, -, hos⟩ := Except.bind_eq_ok.1 hos
  cases hos
  exact h.nodup_slotsWhere n Slot.isOutput

/-- What the text of an output slot can be, by the node of the slot. -/
theorem slotText_cases (h : g.Laid) {n : NodeId} {node : Node} {os : List SlotId} {s : SlotId} {t : Text}
    (hn : g.node n = .ok node) (hos : g.outputSlots n = .ok os) (hs : s ∈ os) (ht : SlotText g s t) :
    match node with
    | .attribute a => t = "particle." ++ a.name
    | .time => ∃ o o', os = [o, o'] ∧ (s = o ∧ t = "sim_params.time" ∨ s = o' ∧ t = "sim_params.delta_time")
    | .normalize => ∃ i s' x, g.findSlot n "in" = .ok (some i) ∧ g.sourceSlot i = .ok (some s') ∧
        SlotText g s' x ∧ t = "normalize(" ++ x ++ ")"
    | .arithmetic op => ∃ l r sl sr tl tr, g.findSlot n "lhs" = .ok (some l) ∧ g.sourceSlot l = .ok (some sl) ∧
        g.findSlot n "rhs" = .ok (some r) ∧ g.sourceSlot r = .ok (some sr) ∧
        SlotText g sl tl ∧ SlotText g sr tr ∧ t = "(" ++ tl ++ ") " ++ op.sign ++ " (" ++ tr ++ ")"
    | .custom _ _ => False := by
  cases ht with
  | particle hn' hos' =>
    obtain ⟨rfl, rfl, rfl⟩ := h.output_unique hn hos hs hn' hos' (by simp)
    rfl
  | time hn' hos' =>
    obtain ⟨rfl, rfl, rfl⟩ := h.output_unique hn hos hs hn' hos' (by simp)
    exact ⟨_, _, rfl, .inl ⟨rfl, rfl⟩⟩
  | deltaTime hn' hos' =>
    obtain ⟨rfl, rfl, rfl⟩ := h.output_unique hn hos hs hn' hos' (by simp)
    exact ⟨_, _, rfl, .inr ⟨rfl, rfl⟩⟩
  | normalize hn' hos' hi hx ht =>
    obtain ⟨rfl, rfl, rfl⟩ := h.output_unique hn hos hs hn' hos' (by simp)
    exact ⟨_, _, _, hi, hx, ht, rfl⟩
  | arithmetic hn' hos' hl hsl htl hr hsr htr =>
    obtain ⟨rfl, rfl, rfl⟩ := h.output_unique hn hos hs hn' hos' (by simp)
    exact ⟨_, _, _, _, _, _, hl, hsl, hr, hsr, htl, htr, rfl⟩

/-- A slot has one text. -/
theorem slotText_unique (h : g.Laid) {s : SlotId} {t t' : Text} (ht : SlotText g s t) (ht' : SlotText g s t') :
    t = t' := by
  induction ht generalizing t' with
  | particle hn hos => exact (h.slotText_cases hn hos (by simp) ht').symm
  | time hn hos =>
    obtain ⟨_, _, he, ⟨-, rfl⟩ | ⟨rfl, -⟩⟩ := h.slotText_cases hn hos (by simp) ht'
    · rfl
    · -- The two outputs of a node are different slots.
      cases he
      exact absurd (h.nodup_outputSlots hos) (by simp)
  | deltaTime hn hos =>
    obtain ⟨_, _, he, ⟨rfl, -⟩ | ⟨-, rfl⟩⟩ := h.slotText_cases hn hos (by simp) ht'
    · cases he
      exact absurd (h.nodup_outputSlots hos) (by simp)
    · rfl
  | normalize hn hos hi hs _ ih =>
    obtain ⟨_, _, _, hi', hs', ht', rfl⟩ := h.slotText_cases hn hos (by simp) ht'
    rw [hi] at hi'
    cases hi'
    rw [hs] at hs'
    cases hs'
    rw [ih ht']
  | arithmetic hn hos hl hsl _ hr hsr _ ihl ihr =>
    obtain ⟨_, _, _, _, _, _, hl', hsl', hr', hsr', htl', htr', rfl⟩ := h.slotText_cases hn hos (by simp) ht'
    rw [hl] at hl'
    cases hl'
    rw [hsl] at hsl'
    cases hsl'
    rw [hr] at hr'
    cases hr'
    rw [hsr] at hsr'
    cases hsr'
    rw [ihl htl', ihr htr']

end Graph.Laid

/-! ## Texts of new expressions -/

namespace Renders

variable {m : Module} {h : ExprHandle}

theorem unary {op : UnaryOp} {x : ExprHandle} {t : Text} (he : m.get h = .ok (.unary op x))
    (hx : Renders m [] x t) : Renders m [] h (op.render t) := by
  refine .expr (fun _ => t) he ?_ rfl
  intro c hc
  rw [Expr.children, List.mem_singleton] at hc
  rwa [hc]

theorem binary {op : BinaryOp} {l r : ExprHandle} {tl tr : Text} (he : m.get h = .ok (.binary op l r))
    (hl : Renders m [] l tl) (hr : Renders m [] r tr) : Renders m [] h (op.render tl tr) := by
  by_cases hlr : r = l
  · -- Both operands are one expression, so they have one text.
    subst hlr
    cases hl.unique hr
    refine .expr (fun _ => tl) he ?_ rfl
    intro c hc
    simp only [Expr.children, List.mem_cons, List.not_mem_nil, or_false, or_self] at hc
    rwa [hc]
  · refine .expr (fun c => if c = l then tl else tr) he ?_ ?_
    · intro c hc
      simp only [Expr.children, List.mem_cons, List.not_mem_nil, or_false] at hc
      rcases hc with rfl | rfl
      · rwa [if_pos rfl]
      · rwa [if_neg hlr]
    · simp [Expr.render, Expr.children, hlr]

end Renders

theorem Arithmetic.render_operator (op : Arithmetic) (l r : Text) :
    op.operator.render l r = "(" ++ l ++ ") " ++ op.sign ++ " (" ++ r ++ ")" := by
  cases op <;> rfl

namespace Evaluator

/-! ## Evaluating one node -/

theorem checking_eq_ok {r : Except Error α} {s s' : Evaluator × Module} {a : α} :
    checking r s = .ok a s' ↔ r = .ok a ∧ s' = s := by
  unfold checking
  cases r with
  | ok b => simp [eq_comm]
  | error e => simp

theorem building_eq_ok {f : Build α} {e : Evaluator} {m : Module} {s' : Evaluator × Module} {a : α} :
    building f (e, m) = .ok a s' ↔ ∃ m', f m = .ok a m' ∧ s' = (e, m') := by
  unfold building
  dsimp only
  cases f m with
  | ok b m' => simp [eq_comm]
  | error err m' => simp

/-- An input that reads a slot gives the expression of that slot. -/
theorem inputValue_eq_some {g : Graph} {values : List (SlotId × ExprHandle)} {i : SlotId} {x : ExprHandle}
    (h : inputValue g values i = .ok (some x)) : ∃ s, g.sourceSlot i = .ok (some s) ∧ (s, x) ∈ values := by
  obtain ⟨source, hs, h⟩ := Except.bind_eq_ok.1 h
  cases source with
  | none => cases h
  | some s =>
    dsimp only at h
    split at h
    · next y hy =>
      cases h
      obtain ⟨before, rest, rfl, -⟩ := List.lookup_eq_some_iff.1 hy
      exact ⟨s, hs, List.mem_append_right _ List.mem_cons_self⟩
    · cases h

section

variable [Stack]

/-- Evaluating a node puts what it makes of its inputs under its output slots. -/
theorem evaluateNode_eq_ok {g : Graph} {n : NodeId} {e : Evaluator} {m : Module} {s' : Evaluator × Module}
    (h : evaluateNode g n (e, m) = .ok () s') :
    ∃ node inputs outputs m', g.node n = .ok node ∧
      (g.slotsWhere n Slot.isInput).mapM (inputValue g e.values) = .ok inputs ∧
      node.eval (inputs.filterMap id) m = .ok outputs m' ∧
      outputs.length = (g.slotsWhere n Slot.isOutput).length ∧
      s' = ({ e with values := e.values ++ (g.slotsWhere n Slot.isOutput).zip outputs }, m') := by
  obtain ⟨_, _, hget, h⟩ := EStateM.bind_eq_ok.1 h
  cases hget
  obtain ⟨node, _, hcn, h⟩ := EStateM.bind_eq_ok.1 h
  obtain ⟨hn, rfl⟩ := checking_eq_ok.1 hcn
  obtain ⟨inputs, _, hci, h⟩ := EStateM.bind_eq_ok.1 h
  obtain ⟨hi, rfl⟩ := checking_eq_ok.1 hci
  obtain ⟨outputs, _, hbo, h⟩ := EStateM.bind_eq_ok.1 h
  obtain ⟨m', ho, rfl⟩ := building_eq_ok.1 hbo
  obtain ⟨slots, _, hcs, h⟩ := EStateM.bind_eq_ok.1 h
  obtain ⟨hs, rfl⟩ := checking_eq_ok.1 hcs
  rw [Graph.inputSlots_eq hn] at hi
  rw [Graph.outputSlots_eq hn] at hs
  cases hs
  refine ⟨node, inputs, outputs, m', hn, hi, ho, ?_⟩
  split at h
  · cases h
  · next hlen =>
    cases h
    exact ⟨by simpa using hlen, rfl⟩

/-- Every slot has an expression with its text. -/
def Texts (g : Graph) (values : List (SlotId × ExprHandle)) (m : Module) : Prop :=
  ∀ p ∈ values, ∃ t, SlotText g p.1 t ∧ Renders m [] p.2 t

omit [Stack] in
theorem Texts.grow {g : Graph} {values : List (SlotId × ExprHandle)} {m m' : Module} (h : Texts g values m)
    (hm : m.Grows m') : Texts g values m' := by
  intro p hp
  obtain ⟨t, ht, hr⟩ := h p hp
  exact ⟨t, ht, hr.mono hm fun _ hV => hV⟩

omit [Stack] in
/-- The text of an input that reads a slot is that of the slot. -/
theorem Texts.source {g : Graph} {values : List (SlotId × ExprHandle)} {m : Module} (h : Texts g values m)
    {i : SlotId} {x : ExprHandle} (hx : inputValue g values i = .ok (some x)) :
    ∃ s t, g.sourceSlot i = .ok (some s) ∧ SlotText g s t ∧ Renders m [] x t := by
  obtain ⟨s, hs, hm⟩ := inputValue_eq_some hx
  obtain ⟨t, ht, hr⟩ := h _ hm
  exact ⟨s, t, hs, ht, hr⟩

/-- The slots `os` have been given new expressions with their texts. -/
structure Makes (g : Graph) (os : List SlotId) (m : Module) (hs : List ExprHandle) (m' : Module) : Prop where
  grows : m.Grows m'
  size : m'.size = m.size + hs.length
  texts : Texts g (os.zip hs) m'

omit [Stack] in
theorem makes_nil (g : Graph) (m : Module) : Makes g [] m [] m := ⟨.refl m, rfl, by simp [Texts]⟩

/-- One slot more and its expression. -/
theorem Makes.cons {g : Graph} {o : SlotId} {os : List SlotId} {m m₁ m' : Module} {e : Expr} {h : ExprHandle}
    {hs : List ExprHandle} {t : Text} (hp : Module.push e m = .ok h m₁) (ht : SlotText g o t)
    (hr : m.Grows m₁ → m₁.get h = .ok e → Renders m₁ [] h t) (rest : Makes g os m₁ hs m') :
    Makes g (o :: os) m (h :: hs) m' := by
  obtain ⟨hgrows, hget, hsize⟩ := Module.push_ok hp
  refine ⟨hgrows.trans rest.grows, ?_, ?_⟩
  · rw [rest.size, hsize, List.length_cons]
    omega
  · intro p hm
    rw [List.zip_cons_cons, List.mem_cons] at hm
    rcases hm with rfl | hm
    · exact ⟨t, ht, (hr hgrows hget).mono rest.grows fun _ hV => hV⟩
    · exact rest.texts p hm

section

variable {g : Graph} {n : NodeId} {values : List (SlotId × ExprHandle)} {m m' : Module}
  {inputs : List (Option ExprHandle)} {outputs : List ExprHandle}

theorem makes_arithmetic (hg : g.Laid) {op : Arithmetic} (hn : g.node n = .ok (.arithmetic op))
    (hv : Texts g values m) (hi : (g.slotsWhere n Slot.isInput).mapM (inputValue g values) = .ok inputs)
    (he : (Node.arithmetic op).eval (inputs.filterMap id) m = .ok outputs m') :
    Makes g (g.slotsWhere n Slot.isOutput) m outputs m' := by
  have hos := Graph.outputSlots_eq hn
  obtain ⟨l, r, o, his, ho, hl, hr⟩ := hg.slots_arithmetic hn
  rw [ho] at hos ⊢
  rw [his] at hi
  obtain ⟨x, _, hx, hi₁, rfl⟩ := Except.mapM_cons_eq_ok.1 hi
  obtain ⟨y, _, hy, hi₂, rfl⟩ := Except.mapM_cons_eq_ok.1 hi₁
  cases hi₂
  -- An input that reads nothing gives no expression, and the node wants two.
  cases x with
  | none => cases y <;> cases he
  | some x =>
    cases y with
    | none => cases he
    | some y =>
      obtain ⟨z, _, hp, he⟩ := EStateM.bind_eq_ok.1 he
      cases he
      obtain ⟨sl, tl, hsl, htl, hrl⟩ := hv.source hx
      obtain ⟨sr, tr, hsr, htr, hrr⟩ := hv.source hy
      refine .cons hp (.arithmetic hn hos hl hsl htl hr hsr htr) ?_ (makes_nil g _)
      intro hgrows hget
      rw [← op.render_operator]
      exact .binary hget (hrl.mono hgrows fun _ hV => hV) (hrr.mono hgrows fun _ hV => hV)

theorem makes_normalize (hg : g.Laid) (hn : g.node n = .ok .normalize) (hv : Texts g values m)
    (hi : (g.slotsWhere n Slot.isInput).mapM (inputValue g values) = .ok inputs)
    (he : Node.normalize.eval (inputs.filterMap id) m = .ok outputs m') :
    Makes g (g.slotsWhere n Slot.isOutput) m outputs m' := by
  have hos := Graph.outputSlots_eq hn
  obtain ⟨i, o, his, ho, hin⟩ := hg.slots_normalize hn
  rw [ho] at hos ⊢
  rw [his] at hi
  obtain ⟨x, _, hx, hi₁, rfl⟩ := Except.mapM_cons_eq_ok.1 hi
  cases hi₁
  cases x with
  | none => cases he
  | some x =>
    obtain ⟨y, _, hp, he⟩ := EStateM.bind_eq_ok.1 he
    cases he
    obtain ⟨s, t, hs, ht, hr⟩ := hv.source hx
    refine .cons hp (.normalize hn hos hin hs ht) ?_ (makes_nil g _)
    intro hgrows hget
    exact .unary hget (hr.mono hgrows fun _ hV => hV)

theorem makes_time (hn : g.node n = .ok .time) {xs : List ExprHandle} (he : Node.time.eval xs m = .ok outputs m')
    (hlen : outputs.length = (g.slotsWhere n Slot.isOutput).length) :
    Makes g (g.slotsWhere n Slot.isOutput) m outputs m' := by
  have hos := Graph.outputSlots_eq hn
  cases xs with
  | cons x xs => cases he
  | nil =>
    obtain ⟨y, _, _, hp, he₁, rfl⟩ := EStateM.mapM_cons_eq_ok.1 he
    obtain ⟨z, _, _, hp', he₂, rfl⟩ := EStateM.mapM_cons_eq_ok.1 he₁
    cases he₂
    obtain ⟨o, o', ho⟩ := List.length_eq_two.1 hlen.symm
    rw [ho] at hos ⊢
    refine .cons hp (.time hn hos) ?_ (.cons hp' (.deltaTime hn hos) ?_ (makes_nil g _))
    · intro _ hget
      exact .expr (fun _ => "") hget (by simp [Expr.children]) rfl
    · intro _ hget
      exact .expr (fun _ => "") hget (by simp [Expr.children]) rfl

theorem makes_attribute {a : Attribute} (hn : g.node n = .ok (.attribute a)) {xs : List ExprHandle}
    (he : (Node.attribute a).eval xs m = .ok outputs m')
    (hlen : outputs.length = (g.slotsWhere n Slot.isOutput).length) :
    Makes g (g.slotsWhere n Slot.isOutput) m outputs m' := by
  have hos := Graph.outputSlots_eq hn
  cases xs with
  | cons x xs => cases he
  | nil =>
    obtain ⟨y, _, hp, he⟩ := EStateM.bind_eq_ok.1 he
    cases he
    obtain ⟨o, ho⟩ := List.length_eq_one_iff.1 hlen.symm
    rw [ho] at hos ⊢
    refine .cons hp (.particle hn hos) ?_ (makes_nil g _)
    intro _ hget
    exact .expr (fun _ => "") hget (by simp [Expr.children]) rfl

/-- A node gives its output slots expressions with their texts, if the slots that
it reads have theirs. -/
theorem eval_makes (hg : g.Laid) {node : Node} (hn : g.node n = .ok node) (hb : node.isBuiltin)
    (hv : Texts g values m) (hi : (g.slotsWhere n Slot.isInput).mapM (inputValue g values) = .ok inputs)
    (he : node.eval (inputs.filterMap id) m = .ok outputs m')
    (hlen : outputs.length = (g.slotsWhere n Slot.isOutput).length) :
    Makes g (g.slotsWhere n Slot.isOutput) m outputs m' := by
  cases node with
  | arithmetic op => exact makes_arithmetic hg hn hv hi he
  | normalize => exact makes_normalize hg hn hv hi he
  | time => exact makes_time hn he hlen
  | custom slots outputs => cases hb
  | _ a => exact makes_attribute hn he hlen

end

/-! ## Evaluating all nodes -/

/-- What holds after the nodes `ns` have been evaluated into module `m`, in the
order that evaluator `e` found. -/
structure Evaluated (g : Graph) (e : Evaluator) (m : Module) (ns : List NodeId) (e' : Evaluator) (m' : Module) :
    Prop where
  found : e' = { e with values := e'.values }
  grows : m.Grows m'
  size : m'.size = m.size + e'.values.length
  slots : e'.values.map Prod.fst = ns.flatMap fun n => g.slotsWhere n Slot.isOutput
  texts : Texts g e'.values m'

omit [Stack] in
theorem evaluated_nil (g : Graph) (e : Evaluator) (m : Module) : Evaluated g e m [] { e with values := [] } m where
  found := rfl
  grows := .refl m
  size := rfl
  slots := rfl
  texts := by simp [Texts]

/-- One node more. -/
theorem Evaluated.snoc {g : Graph} (hg : g.Laid) (hb : ∀ n node, g.node n = .ok node → node.isBuiltin)
    {e e₁ : Evaluator} {m m₁ : Module} {ns : List NodeId} (h : Evaluated g e m ns e₁ m₁) {n : NodeId}
    {s' : Evaluator × Module} (hn : evaluateNode g n (e₁, m₁) = .ok () s') :
    Evaluated g e m (ns ++ [n]) s'.1 s'.2 := by
  obtain ⟨node, inputs, outputs, m', hnode, hi, he, hlen, rfl⟩ := evaluateNode_eq_ok hn
  have made := eval_makes hg hnode (hb n node hnode) h.texts hi he hlen
  refine ⟨?_, h.grows.trans made.grows, ?_, ?_, ?_⟩
  · have hfound := h.found
    generalize e₁.values = values at hfound
    rw [hfound]
  · dsimp only
    rw [made.size, h.size, List.length_append, List.length_zip, hlen, Nat.min_self, Nat.add_assoc]
  · rw [List.map_append, h.slots, List.map_fst_zip (Nat.le_of_eq hlen.symm), List.flatMap_append,
      List.flatMap_singleton]
  · intro p hp
    rcases List.mem_append.1 hp with hp | hp
    · exact h.texts.grow made.grows p hp
    · exact made.texts p hp

theorem forM_evaluated {g : Graph} (hg : g.Laid) (hb : ∀ n node, g.node n = .ok node → node.isBuiltin)
    {e : Evaluator} {m : Module} {ns : List NodeId} {s' : Evaluator × Module}
    (h : ns.forM (evaluateNode g) ({ e with values := [] }, m) = .ok () s') :
    Evaluated g e m ns s'.1 s'.2 := by
  have hloop := forM_ok (P := fun rest s => ∃ done, ns = done ++ rest ∧ Evaluated g e m done s.1 s.2) ?_ h
    ⟨[], rfl, evaluated_nil g e m⟩
  · obtain ⟨done, hdone, ev⟩ := hloop
    rw [List.append_nil] at hdone
    rwa [hdone]
  · rintro n rest s₁ s₂ ⟨done, rfl, ev⟩ hn
    exact ⟨done ++ [n], by simp, ev.snoc hg hb hn⟩

omit [Stack] in
/-- The order of evaluation has each node once. -/
theorem build_ok {g : Graph} {e e' : Evaluator} {m m' : Module} (h : build g (e, m) = .ok () (e', m')) :
    m' = m ∧ e'.order.Nodup := by
  unfold build reorder at h
  dsimp only at h
  cases hneeds : g.allNeeds with
  | error err => simp [hneeds] at h
  | ok needs =>
    cases hcycle : needs.findCycle with
    | error err => simp [hneeds, hcycle] at h
    | ok _ =>
      cases hsorted : needs.sorted with
      | error err => simp [hneeds, hcycle, hsorted] at h
      | ok order =>
        simp only [hneeds, hcycle, hsorted] at h
        cases h
        exact ⟨rfl, Needs.nodup_of_sorted hsorted⟩

/-- An evaluation evaluates the required nodes, in the order it found. -/
theorem evaluate_eq_ok {g : Graph} {targets : Option (List SlotId)} {e : Evaluator} {m : Module} {k : Nat}
    {s' : Evaluator × Module} (h : evaluate g targets (e, m) = .ok k s') :
    ∃ (e₁ : Evaluator) (wanted : List NodeId), e₁.order.Nodup ∧ e₁.required g targets = .ok wanted ∧
      (e₁.order.filter wanted.contains).forM (evaluateNode g) ({ e₁ with values := [] }, m) = .ok () s' := by
  obtain ⟨_, ⟨e₁, m₁⟩, hbuild, h₁⟩ := EStateM.bind_eq_ok.1 h
  obtain ⟨rfl, honce⟩ := build_ok hbuild
  obtain ⟨_, _, hget, h₂⟩ := EStateM.bind_eq_ok.1 h₁
  cases hget
  obtain ⟨wanted, _, hc, h₃⟩ := EStateM.bind_eq_ok.1 h₂
  obtain ⟨hwanted, rfl⟩ := checking_eq_ok.1 hc
  obtain ⟨_, _, hclear, h₄⟩ := EStateM.bind_eq_ok.1 h₃
  cases hclear
  obtain ⟨_, _, hloop, h₅⟩ := EStateM.bind_eq_ok.1 h₄
  cases h₅
  exact ⟨e₁, wanted, honce, hwanted, hloop⟩

omit [Stack] in
/-- Outputs of different nodes are different slots. -/
theorem nodup_flatMap_outputs {g : Graph} (hg : g.Laid) {ns : List NodeId} (hns : ns.Nodup) :
    (ns.flatMap fun n => g.slotsWhere n Slot.isOutput).Nodup := by
  rw [List.nodup_flatMap]
  refine ⟨fun n _ => hg.nodup_slotsWhere n Slot.isOutput, hns.imp ?_⟩
  intro n n' hne s hs hs'
  exact hne (hg.node_unique hs hs')

/-- Evaluation follows the links. Whatever calls made the graph, and whatever the
evaluator and the module held before, the expression of every slot that an
evaluation gives one has the text that the graph gives the slot; the module
keeps what it held; and each required node is evaluated once, with one new
expression for each of its output slots. -/
theorem evaluate_slotText (cs : List Graph.Call) (hcs : ∀ node, .addNode node ∈ cs → node.isBuiltin)
    (targets : Option (List SlotId)) (e e' : Evaluator) (m m' : Module) (k : Nat)
    (h : evaluate (Graph.reached cs) targets (e, m) = .ok k (e', m')) :
    (∀ s x, (s, x) ∈ e'.values → ∃ t, m'.shaderText x = .ok t ∧ ∀ t', SlotText (Graph.reached cs) s t' ↔ t' = t) ∧
    (∀ x expr, m.get x = .ok expr → m'.get x = .ok expr) ∧
    (∃ wanted, e'.required (Graph.reached cs) targets = .ok wanted ∧ (e'.order.filter wanted.contains).Nodup ∧
      e'.values.map Prod.fst =
        (e'.order.filter wanted.contains).flatMap fun n => (Graph.reached cs).slotsWhere n Slot.isOutput) ∧
    (e'.values.map Prod.fst).Nodup ∧ m'.size = m.size + e'.values.length := by
  have hg := Graph.reached_laid cs
  have hb : ∀ n node, (Graph.reached cs).node n = .ok node → node.isBuiltin := fun n node hn =>
    Graph.reached_isBuiltin hcs (Graph.node_eq_ok_iff.1 hn)
  obtain ⟨e₁, wanted, honce, hwanted, hloop⟩ := evaluate_eq_ok h
  have ev := forM_evaluated hg hb hloop
  have hnodup : (e₁.order.filter wanted.contains).Nodup := honce.filter _
  refine ⟨?_, fun x expr hx => ev.grows.get hx, ?_, ?_, ev.size⟩
  · intro s x hsx
    obtain ⟨t, ht, hr⟩ := ev.texts _ hsx
    refine ⟨t, Module.shaderText_eq_ok_iff.2 hr, fun t' => ⟨fun ht' => hg.slotText_unique ht' ht, ?_⟩⟩
    rintro rfl
    exact ht
  · -- The loop changes only the values, so what was required still is.
    have hfound : e' = { e₁ with values := e'.values } := ev.found
    rw [hfound]
    refine ⟨wanted, ?_, hnodup, ev.slots⟩
    rw [← hwanted]
    cases targets <;> rfl
  · rw [ev.slots]
    exact nodup_flatMap_outputs hg hnodup

end

/-- Calls that make a graph which adds the direction of a particle to itself. -/
def doubledDirection : List Graph.Call :=
  [.addNode (.attribute .velocity), .addNode .normalize, .addNode (.arithmetic .add),
    .link ⟨0⟩ ⟨1⟩, .link ⟨2⟩ ⟨3⟩, .link ⟨2⟩ ⟨4⟩]

open scoped EffectGraph.Stack.Usual in
theorem evaluate_slotText_doubledDirection : ∃ k e' m',
    evaluate (Graph.reached doubledDirection) (some [⟨5⟩]) ({}, {}) = .ok k (e', m') ∧ (⟨5⟩, ⟨2⟩) ∈ e'.values ∧
    SlotText (Graph.reached doubledDirection) ⟨5⟩
      "(normalize(particle.velocity)) + (normalize(particle.velocity))" ∧
    (e'.values.map Prod.fst).Nodup ∧ m'.size = 0 + e'.values.length := by
  have hrun : (match evaluate (Graph.reached doubledDirection) (some [⟨5⟩]) ({}, {}) with
      | .ok _ (e, m) => some (e.values, m.shaderText ⟨2⟩)
      | .error _ _ => none) = some ([(⟨0⟩, ⟨0⟩), (⟨2⟩, ⟨1⟩), (⟨5⟩, ⟨2⟩)],
        .ok "(normalize(particle.velocity)) + (normalize(particle.velocity))") := by
    cbv
  have hcs : ∀ node, .addNode node ∈ doubledDirection → node.isBuiltin := by
    simp [doubledDirection, Node.isBuiltin]
  cases h : evaluate (Graph.reached doubledDirection) (some [⟨5⟩]) ({}, {}) with
  | error err s =>
    rw [h] at hrun
    cases hrun
  | ok k s =>
    obtain ⟨e', m'⟩ := s
    rw [h, Option.some.injEq, Prod.mk.injEq] at hrun
    obtain ⟨hvalues, htext⟩ := hrun
    have hmem : (⟨5⟩, ⟨2⟩) ∈ e'.values := by simp [hvalues]
    obtain ⟨htexts, -, -, hnodup, hsize⟩ := evaluate_slotText doubledDirection hcs (some [⟨5⟩]) {} e' {} m' k h
    obtain ⟨t, ht, hslot⟩ := htexts _ _ hmem
    rw [htext] at ht
    cases ht
    exact ⟨k, e', m', rfl, hmem, (hslot _).2 rfl, hnodup, hsize⟩

end Evaluator
end EffectGraph
