import EffectGraph.Proofs.Effect.Modifiers
import EffectGraph.Proofs.Module.Ambiguity
import EffectGraph.Proofs.Module.Types
import EffectGraph.Proofs.Writer.Modules

/-!
# What a floating origin compares

The condition of a floating origin has `.x`, `.y` and `.z` right behind the text
of the offset. Such an access binds tighter than an operator between its operands:
it takes what stands behind the last operator outside all parentheses
(`accessed`). An offset that is a sum, a difference, a product or a quotient has
its operands in parentheses but has none around itself, so unless it is held by a
local, the condition compares the components of its right operand
(`apply_floatingOrigin_accessed`). Every other offset is compared as a whole.
-/

namespace EffectGraph

/-! ## Reading a member access -/

/-- The operand at hand after more characters, `d` parentheses deep: a blank
outside all parentheses ends an operand or an operator, and another one begins. -/
def operandAt : Nat → List Glyph → List Glyph → List Glyph
  | _, seen, [] => seen
  | d, seen, g :: gs => if d = 0 ∧ g = .char ' ' then operandAt 0 [] gs else operandAt (inside d g) (seen ++ [g]) gs

/-- What a member access takes that is written behind a text. Operators stand
between blanks, and there are no other blanks outside parentheses. -/
def accessed (t : Text) : Text := ⟨operandAt 0 [] t.glyphs⟩

/-- An operation with its sign between the operands, and no parentheses around. -/
def InfixForm (t : Text) : Prop :=
  ∃ (op : BinaryOp) (sign : String) (l r : Text), op.infix? = some sign ∧
    t = "(" ++ l ++ ") " ++ sign ++ " (" ++ r ++ ")"

/-- A text without parentheses, commas and blanks, as names in shader code are. -/
def Plain (gs : List Glyph) : Prop := Unmarked gs ∧ .char ' ' ∉ gs

/-- A name without parentheses, commas and blanks. -/
def Text.IsPlain (s : Text) : Prop := Plain s.glyphs

instance : DecidablePred Plain := fun gs => inferInstanceAs (Decidable (Unmarked gs ∧ .char ' ' ∉ gs))

instance : DecidablePred Text.IsPlain := fun s => inferInstanceAs (Decidable (Plain s.glyphs))

theorem Plain.append {l r : List Glyph} (hl : Plain l) (hr : Plain r) : Plain (l ++ r) :=
  ⟨hl.1.append hr.1, fun h => (List.mem_append.1 h).elim hl.2 hr.2⟩

section

variable {d e : Nat} {seen l r : List Glyph}

theorem operandAt_plain (h : Plain l) : operandAt d seen (l ++ r) = operandAt d (seen ++ l) r := by
  induction l generalizing seen with
  | nil => rw [List.nil_append, List.append_nil]
  | cons c l ih =>
    obtain ⟨hmark, hblank⟩ := h
    obtain ⟨hc, hl⟩ := List.forall_mem_cons.1 hmark
    have hne : ¬(d = 0 ∧ c = .char ' ') := fun hd => hblank (hd.2 ▸ List.mem_cons_self)
    rw [List.cons_append, operandAt, if_neg hne, inside_of_unmarked hc,
      ih ⟨hl, fun h => hblank (List.mem_cons_of_mem _ h)⟩, List.append_assoc, List.singleton_append]

/-- Inside parentheses nothing ends the operand at hand. -/
theorem operandAt_enclosed (h : Encloses d l) (he : 0 < e) :
    operandAt (d + e) seen (l ++ r) = operandAt e (seen ++ l) r := by
  induction l generalizing d seen with
  | nil =>
    obtain rfl : d = 0 := h
    rw [Nat.zero_add, List.nil_append, List.append_nil]
  | cons c l ih =>
    have hne : ¬(d + e = 0 ∧ c = .char ' ') := fun hd => Nat.ne_of_gt (Nat.add_pos_right d he) hd.1
    rw [List.cons_append, operandAt, if_neg hne, inside_add h.1, ih h.2, List.append_assoc, List.singleton_append]

theorem operandAt_operand (h : Encloses 0 l) : operandAt 1 seen (l ++ r) = operandAt 1 (seen ++ l) r := by
  simpa using operandAt_enclosed (e := 1) h Nat.one_pos

theorem operandAt_unmarked (h : Unmarked l) : operandAt 1 seen (l ++ r) = operandAt 1 (seen ++ l) r :=
  operandAt_operand (.of_unmarked h)

theorem operandAt_components {parts : List (List Glyph)} (h : ∀ p ∈ parts, Unmarked p) :
    operandAt 1 seen ([Glyph.char ','].intercalate parts ++ r) =
      operandAt 1 (seen ++ [Glyph.char ','].intercalate parts) r := by
  induction parts generalizing seen with
  | nil => simp [List.intercalate]
  | cons p parts ih =>
    obtain ⟨hp, hparts⟩ := List.forall_mem_cons.1 h
    cases parts with
    | nil => simpa [List.intercalate] using operandAt_unmarked hp
    | cons q parts =>
      have hsplit : [Glyph.char ','].intercalate (p :: q :: parts) =
          p ++ .char ',' :: [Glyph.char ','].intercalate (q :: parts) := by
        simp [List.intercalate]
      have hcomma : ∀ seen cs, operandAt 1 seen (.char ',' :: cs) = operandAt 1 (seen ++ [.char ',']) cs :=
          fun _ _ => rfl
      rw [hsplit, List.append_assoc, operandAt_unmarked hp, List.cons_append, hcomma, ih hparts]
      simp

end

theorem accessed_of_plain {t : Text} (h : t.IsPlain) : accessed t = t := by
  have hscan : operandAt 0 [] (t.glyphs ++ []) = operandAt 0 ([] ++ t.glyphs) [] := operandAt_plain h
  rw [List.append_nil, List.nil_append] at hscan
  rw [accessed, hscan, operandAt]

/-- A name with arguments is taken as a whole. -/
theorem accessed_call {t : Text} {name args : List Glyph} (hname : Plain name)
    (ht : t.glyphs = name ++ .char '(' :: args) (hargs : ∀ seen, operandAt 1 seen args = seen ++ args) :
    accessed t = t := by
  have hopen : ∀ seen cs, operandAt 0 seen (.char '(' :: cs) = operandAt 1 (seen ++ [.char '(']) cs :=
    fun _ _ => rfl
  have hscan : operandAt 0 [] t.glyphs = t.glyphs := by
    rw [ht, operandAt_plain hname, hopen, hargs]
    simp
  rw [accessed, hscan]

theorem operandAt_close (seen : List Glyph) : operandAt 1 seen [.char ')'] = seen ++ [.char ')'] := rfl

theorem UnaryOp.accessed_render (op : UnaryOp) {x : Text} (hx : Encloses 0 x.glyphs) :
    accessed (op.render x) = op.render x := by
  refine accessed_call ⟨op.unmarked_name, by cases op <;> decide⟩ (op.glyphs_render x) fun seen => ?_
  rw [operandAt_operand hx, operandAt_close, List.append_assoc]

namespace BinaryOp

/-- An operation written like a call is taken as a whole. -/
theorem accessed_call (op : BinaryOp) (hop : op.infix? = none) {l r : Text} (hl : Encloses 0 l.glyphs)
    (hr : Encloses 0 r.glyphs) : accessed (op.render l r) = op.render l r := by
  refine EffectGraph.accessed_call ⟨op.unmarked_opening, by cases op <;> decide⟩ (op.glyphs_render l r) fun seen => ?_
  have hbetween : (op.between : Text).glyphs = [.char ',', .char ' '] := by
    rw [between, hop]
    rfl
  have hcomma : ∀ seen cs, operandAt 1 seen ([.char ',', .char ' '] ++ cs) =
      operandAt 1 (seen ++ [.char ',', .char ' ']) cs := by
    intro seen cs
    simp [operandAt, inside]
  rw [operandAt_operand hl, hbetween, hcomma, operandAt_operand hr, operandAt_close]
  simp

/-- Of an operation with its sign between the operands the right operand is taken. -/
theorem accessed_infix (op : BinaryOp) {sign : String} (hop : op.infix? = some sign) {l r : Text}
    (hl : Encloses 0 l.glyphs) (hr : Encloses 0 r.glyphs) : accessed (op.render l r) = "(" ++ r ++ ")" := by
  have hopening : op.opening = "" := by
    rw [opening, hop]
  have hopen : ∀ seen cs, operandAt 0 seen (.char '(' :: cs) = operandAt 1 (seen ++ [.char '(']) cs :=
    fun _ _ => rfl
  have hbetween : ∀ seen cs,
      operandAt 1 seen ((op.between : Text).glyphs ++ cs) = operandAt 1 [.char '('] cs := by
    intro seen cs
    cases op <;> simp [between, infix?, operandAt, inside] at hop ⊢
  apply Text.glyphs_injective
  rw [accessed, glyphs_render, hopening, Text.glyphs_ofString, String.toList_empty, List.map_nil, List.nil_append,
    hopen, operandAt_operand hl, hbetween, operandAt_operand hr, operandAt_close]
  simp

theorem render_infix (op : BinaryOp) {sign : String} (hop : op.infix? = some sign) (l r : Text) :
    op.render l r = "(" ++ l ++ ") " ++ sign ++ " (" ++ r ++ ")" := by
  simp only [render, hop]

/-- The right operand alone is less than the whole operation. -/
theorem accessed_infix_ne (op : BinaryOp) {sign : String} (hop : op.infix? = some sign) {l r : Text}
    (hl : Encloses 0 l.glyphs) (hr : Encloses 0 r.glyphs) : accessed (op.render l r) ≠ op.render l r := by
  intro h
  have hlength := congrArg (List.length ∘ Text.glyphs) h
  rw [op.accessed_infix hop hl hr, op.render_infix hop] at hlength
  simp at hlength
  omega

end BinaryOp

/-! ## Texts of offsets -/

/-- An operation whose sign stands between its operands. -/
def Expr.IsInfix (e : Expr) : Prop := ∃ op l r, e = .binary op l r ∧ op.infix?.isSome

/-- After the stored offset has been added, names are as before. -/
theorem Module.NamesAre.appends {m m' : Module} {P : Text → Prop} (h : m.NamesAre P)
    (ha : m.Appends [.attribute .vector0] m') (hstored : P Attribute.vector0.name) : m'.NamesAre P where
  properties := by
    rw [propertyNames, ha.properties]
    exact h.properties
  attributes n hn := by
    rw [attributeNames, ha.exprs, Array.toList_append, List.filterMap_append] at hn
    rcases List.mem_append.1 hn with hn | hn
    · exact h.attributes n hn
    · obtain rfl : n = Attribute.vector0.name := by simpa using hn
      exact hstored

/-- Texts enclose their own, if names have no parentheses and commas. -/
theorem Renders.encloses {m : Module} {V : Bindings} (hm : m.NamesAre Text.IsUnmarked)
    (hlocals : ∀ p ∈ V, p.2.IsUnmarked)
    {h : ExprHandle} {t : Text} (r : Renders m V h t) : Encloses 0 t.glyphs := by
  induction r with
  | name hn => exact .of_unmarked (hlocals _ hn)
  | @expr h e t texts he _ ht ih =>
    cases e with
    | unary op x =>
      cases ht
      exact op.encloses_render (ih x List.mem_cons_self)
    | binary op l r =>
      cases ht
      exact op.encloses_render (ih l List.mem_cons_self) (ih r (List.mem_cons_of_mem _ List.mem_cons_self))
    | _ => exact (hm.leafText he rfl ht).encloses

theorem InfixForm.head? {t : Text} (h : InfixForm t) : t.glyphs.head? = some (.char '(') := by
  obtain ⟨op, sign, l, r, -, rfl⟩ := h
  simp

namespace Expr

variable {m : Module} {e : Expr} {ts : List Text} {t : Text}

theorem isInfix_binary {op : BinaryOp} {l r : ExprHandle} : (binary op l r).IsInfix ↔ op.infix?.isSome := by
  constructor
  · rintro ⟨op', l', r', he, hop⟩
    cases he
    exact hop
  · exact fun hop => ⟨op, l, r, rfl, hop⟩

/-- What is not written with a sign between operands does not begin with a
parenthesis. -/
theorem head?_render (ht : e.render m ts = .ok t) (he : ¬e.IsInfix) : t.glyphs.head? ≠ some (.char '(') := by
  match e with
  | .literal v =>
    intro hhead
    obtain ⟨gs, hgs⟩ := List.head?_eq_some_iff.1 hhead
    obtain ⟨s, hs, ht⟩ := Except.bind_eq_ok.1 ht
    cases ht
    have hvector := (Literal.leafText hs).vector (hgs ▸ List.mem_cons_self)
    rw [hgs] at hvector
    simp at hvector
  | .attribute a =>
    cases ht
    simp [Attribute.shaderText]
  | .builtin b =>
    cases ht
    cases b <;> decide
  | .property p =>
    obtain ⟨q, -, ht⟩ := Except.bind_eq_ok.1 ht
    cases ht
    simp
  | .binary op l r =>
    cases ht
    rw [isInfix_binary] at he
    rw [BinaryOp.glyphs_render]
    cases op <;> simp [BinaryOp.infix?, BinaryOp.opening, BinaryOp.name] at he ⊢
  | .unary op x =>
    cases ht
    rw [UnaryOp.glyphs_render]
    cases op <;> simp [UnaryOp.name]

/-- A text has the form of an infix operation just if it is that of one. -/
theorem infixForm_iff (ht : e.render m ts = .ok t) : InfixForm t ↔ e.IsInfix := by
  constructor
  · intro hform
    by_contra he
    exact head?_render ht he hform.head?
  · rintro ⟨op, l, r, rfl, hop⟩
    obtain ⟨sign, hsign⟩ := Option.isSome_iff_exists.1 hop
    cases ht
    exact ⟨op, sign, _, _, hsign, op.render_infix hsign _ _⟩

theorem encloses_getD (hts : ∀ t ∈ ts, Encloses 0 t.glyphs) (k : Nat) :
    Encloses 0 (ts.getD k "").glyphs := by
  rw [List.getD_eq_getElem?_getD]
  cases hk : ts[k]? with
  | none => exact (rfl : 0 = 0)
  | some t => exact hts t (List.mem_of_getElem? hk)

/-- What is not written with a sign between operands is taken as a whole, if it is
no number by itself. -/
theorem accessed_render (hm : m.NamesAre Text.IsPlain) {h : ExprHandle} (hget : m.get h = .ok e) (he : ¬e.IsInfix)
    (hvector : ∀ v, e = .literal v → ∃ type, v.type = .vector type) (hts : ∀ t ∈ ts, Encloses 0 t.glyphs)
    (ht : e.render m ts = .ok t) : accessed t = t := by
  match e with
  | .literal v =>
    obtain ⟨type, hv⟩ := hvector v rfl
    obtain ⟨s, hs, ht⟩ := Except.bind_eq_ok.1 ht
    cases ht
    obtain ⟨name, parts, hname, -, hparts, htext⟩ := Literal.exists_components hv hs
    have hblank : .char ' ' ∉ name := fun hmem => hname.ne hmem (by decide) rfl
    refine accessed_call ⟨hname.unmarked, hblank⟩ htext fun seen => ?_
    rw [operandAt_components fun p hp => (hparts p hp).unmarked, operandAt_close, List.append_assoc]
  | .attribute a =>
    cases ht
    exact accessed_of_plain (.append (by decide) (hm.attributes _ (Module.name_mem_attributeNames hget)))
  | .builtin b =>
    cases ht
    exact accessed_of_plain (by cases b <;> decide)
  | .property p =>
    obtain ⟨q, hq, ht⟩ := Except.bind_eq_ok.1 ht
    cases ht
    exact accessed_of_plain (.append (by decide) (hm.properties _ (Module.name_mem_propertyNames hq)))
  | .binary op l r =>
    cases ht
    rw [isInfix_binary, Bool.not_eq_true, Option.isSome_eq_false_iff, Option.isNone_iff_eq_none] at he
    exact op.accessed_call he (encloses_getD hts 0) (encloses_getD hts 1)
  | .unary op x =>
    cases ht
    exact op.accessed_render (encloses_getD hts 0)

end Expr

namespace Compiler

open Writer

/-- An offset that is written without parentheses around it: an operation whose
sign stands between its operands, and that no local holds. -/
def Bare (m : Module) (w : Writer) (h : ExprHandle) : Prop :=
  (∀ n, (h, n) ∉ w.locals) ∧ ∃ e, m.get h = .ok e ∧ e.IsInfix

theorem bare_iff {m : Module} {w : Writer} {h : ExprHandle} {e : Expr} (he : m.get h = .ok e) :
    Bare m w h ↔ (∀ n, (h, n) ∉ w.locals) ∧ e.IsInfix := by
  simp [Bare, he]

section

variable {m : Module} {w : Writer} {h : ExprHandle} {e : Expr} {t : Text}

theorem bare_grows {m' : Module} {w' : Writer} (g : m.Grows m') (hl : w'.locals = w.locals) (he : m.get h = .ok e) :
    Bare m' w' h ↔ Bare m w h := by
  rw [bare_iff (g.get he), bare_iff he, hl]

theorem infixForm_text (f : Faithful m w) (ht : w.rendering.texts.get? h.index = some t)
    (he : m.get h = .ok e) (hfree : ∀ n, (h, n) ∉ w.locals) : InfixForm t ↔ Bare m w h := by
  obtain ⟨texts, -, hr⟩ := f.own_text ht he hfree
  rw [Expr.infixForm_iff hr, bare_iff he, and_iff_right hfree]

/-- What a member access behind a text takes: all of it, or the right operand of an
expression that is bare. -/
theorem accessed_text (f : Faithful m w) (ht : w.rendering.texts.get? h.index = some t)
    (he : m.get h = .ok e) (hvector : ∀ v, e = .literal v → ∃ type, v.type = .vector type)
    (hm : m.NamesAre Text.IsPlain) (hplain : ∀ p ∈ w.locals, p.2.IsPlain) :
    (accessed t = t ↔ ¬Bare m w h) ∧
      (Bare m w h → ∃ op l r left right, m.get h = .ok (.binary op l r) ∧ Renders m w.locals l left ∧
        Renders m w.locals r right ∧ t = op.render left right ∧ accessed t = "(" ++ right ++ ")") := by
  have hencloses : ∀ {c s}, Renders m w.locals c s → Encloses 0 s.glyphs := fun r =>
    r.encloses (hm.mono fun _ hn => hn.1) fun p hp => (hplain p hp).1
  by_cases hfree : ∀ n, (h, n) ∉ w.locals
  · obtain ⟨texts, hc, hr⟩ := f.own_text ht he hfree
    by_cases hshape : e.IsInfix
    · obtain ⟨op, l, r, rfl, hop⟩ := id hshape
      obtain ⟨sign, hsign⟩ := Option.isSome_iff_exists.1 hop
      have hleft := hc l List.mem_cons_self
      have hright := hc r (List.mem_cons_of_mem _ List.mem_cons_self)
      cases hr
      exact ⟨iff_of_false (op.accessed_infix_ne hsign (hencloses hleft) (hencloses hright))
          (not_not_intro ((bare_iff he).2 ⟨hfree, hshape⟩)),
        fun _ => ⟨op, l, r, _, _, he, hleft, hright, rfl,
          op.accessed_infix hsign (hencloses hleft) (hencloses hright)⟩⟩
    · have hnot : ¬Bare m w h := fun hb => hshape ((bare_iff he).1 hb).2
      have htexts : ∀ s ∈ e.children.map texts, Encloses 0 s.glyphs := by
        rw [List.forall_mem_map]
        exact fun c hm => hencloses (hc c hm)
      exact ⟨iff_of_true (Expr.accessed_render hm he hshape hvector htexts hr) hnot, fun hb => absurd hb hnot⟩
  · have hnot : ¬Bare m w h := fun hb => hfree hb.1
    obtain ⟨n, hn⟩ := not_forall_not.1 hfree
    refine ⟨iff_of_true ?_ hnot, fun hb => absurd hb hnot⟩
    rw [f.text_local ht hn]
    exact accessed_of_plain (hplain _ hn)

end

end Compiler

namespace Modifier

open Writer Writer.Bench Compiler

/-- A floating origin with an offset of three components, on any writer: its
condition has the components of the whole offset just if the offset is not bare.
If it is bare, the condition has the components of the right operand. -/
theorem floatingOrigin_accessed [Stack] (stem : Text) (acts : List Act) (k : Nat) (h : ExprHandle)
    (htype : ((reached stem acts).modules k).valueType h = .ok (some .vec3f)) :
    let m := (reached stem acts).modules k
    let w := (reached stem acts).writer
    (Serves m w → Renderable m h → ∃ m' w', (Modifier.floatingOrigin h).apply (m, w) = .ok () (m', w')) ∧
    ∀ m' w', (Modifier.floatingOrigin h).apply (m, w) = .ok () (m', w') → ∃ t,
      w'.statements.toList = w.statements.toList ++ originStatements t ∧
      (∀ n, (h, n) ∈ w.locals → t = n) ∧
      ((∀ n, (h, n) ∉ w.locals) → (InfixForm t ↔ Bare m w h)) ∧
      (m.NamesAre Text.IsPlain → (∀ p ∈ w.locals, p.2.IsPlain) →
        (accessed t = t ↔ ¬Bare m w h) ∧
        (Bare m w h → ∃ op l r left right, m.get h = .ok (.binary op l r) ∧ Renders m' w.locals l left ∧
          Renders m' w.locals r right ∧ t = op.render left right ∧ accessed t = "(" ++ right ++ ")")) := by
  intro m w
  have hsound : Serves m w → Faithful m w := sound_reached stem acts k
  change m.valueType h = _ at htype
  clear_value m w
  refine ⟨fun hs hr => exists_apply_floatingOrigin ⟨hsound hs, hs⟩ hr, fun m' w' happly => ?_⟩
  obtain ⟨happends, ⟨f, -⟩, hlocals, t, ht, hst⟩ := apply_floatingOrigin_eq_ok hsound happly
  obtain ⟨e, he, hliteral⟩ := Module.exists_get_of_valueType htype
  have he' := happends.grows.get he
  have hvector : ∀ v, e = .literal v → ∃ type, v.type = .vector type := fun v hv =>
    ⟨_, (Option.some.inj (hliteral v hv)).symm⟩
  rw [← bare_grows happends.grows hlocals he, ← hlocals]
  refine ⟨t, hst, fun n hn => f.text_local ht hn, infixForm_text f ht he', fun hplain hlocal => ?_⟩
  obtain ⟨hwhole, hright⟩ := accessed_text f ht he' hvector (hplain.appends happends (by decide)) hlocal
  refine ⟨hwhole, fun hb => ?_⟩
  obtain ⟨op, l, r, left, right, hget, hrest⟩ := hright hb
  rw [he'] at hget
  cases hget
  exact ⟨op, l, r, left, right, he, hrest⟩

/-- Calls that make the sum of two attributes. -/
def positionPlusVelocity : List Act :=
  [.build 0 (.attr .position), .build 0 (.attr .velocity), .build 0 (.binary .add ⟨0⟩ ⟨1⟩)]

theorem valueType_positionPlusVelocity [Stack] :
    ((reached "var" positionPlusVelocity).modules 0).valueType ⟨2⟩ = .ok (some .vec3f) := by
  cbv

theorem apply_positionPlusVelocity [Stack] :
    ∃ m' w', (Modifier.floatingOrigin ⟨2⟩).apply
        ((reached "var" positionPlusVelocity).modules 0, (reached "var" positionPlusVelocity).writer) =
          .ok () (m', w') ∧
      w'.statements.toList = originStatements "(particle.position) + (particle.velocity)" := by
  have hanswer : answer? ((Modifier.floatingOrigin ⟨2⟩).apply ((reached "var" positionPlusVelocity).modules 0,
      (reached "var" positionPlusVelocity).writer)) = some () := by
    cbv
  have htext : (lastState ((Modifier.floatingOrigin ⟨2⟩).apply ((reached "var" positionPlusVelocity).modules 0,
      (reached "var" positionPlusVelocity).writer))).2.rendering.texts.get? 2 =
        some "(particle.position) + (particle.velocity)" := by
    cbv
  obtain ⟨⟨m', w'⟩, happly⟩ := answer?_eq_some.1 hanswer
  obtain ⟨-, -, -, t, ht, hst⟩ := apply_floatingOrigin_eq_ok (sound_reached "var" positionPlusVelocity 0) happly
  rw [happly, lastState, ht] at htext
  cases htext
  exact ⟨m', w', happly, hst⟩

open scoped EffectGraph.Stack.Usual in
theorem floatingOrigin_accessed_positionPlusVelocity :
    let m := (reached "var" positionPlusVelocity).modules 0
    let w := (reached "var" positionPlusVelocity).writer
    m.valueType ⟨2⟩ = .ok (some .vec3f) ∧ ∃ t m' w', (Modifier.floatingOrigin ⟨2⟩).apply (m, w) = .ok () (m', w') ∧
      w'.statements.toList = originStatements t ∧ InfixForm t ∧ accessed t ≠ t := by
  intro m w
  obtain ⟨m', w', happly, -⟩ := apply_positionPlusVelocity
  obtain ⟨t, hst, -, hform, hwhole⟩ :=
    (floatingOrigin_accessed "var" positionPlusVelocity 0 ⟨2⟩ valueType_positionPlusVelocity).2 m' w' happly
  have hfree : ∀ n, (⟨2⟩, n) ∉ w.locals := fun n hn => by cases hn
  have hbare : Bare m w ⟨2⟩ := ⟨hfree, .binary .add ⟨0⟩ ⟨1⟩, by cbv, .add, ⟨0⟩, ⟨1⟩, rfl, rfl⟩
  have hread : m.attributeNames = [("position" : Text), ("velocity" : Text)] := by cbv
  have hplain : m.NamesAre Text.IsPlain := ⟨fun n hn => (by cases hn), hread ▸ (by decide)⟩
  have hlocals : ∀ p ∈ w.locals, p.2.IsPlain := fun p hp => by cases hp
  exact ⟨valueType_positionPlusVelocity, t, m', w', happly, hst, (hform hfree).2 hbare,
    fun h => ((hwhole hplain hlocals).1.1 h) hbare⟩

open scoped EffectGraph.Stack.Usual in
/-- With the sum of two attributes for its offset, a floating origin compares the
second one alone. -/
theorem floatingOrigin_bareOffset :
    let m := (reached "var" positionPlusVelocity).modules 0
    let w := (reached "var" positionPlusVelocity).writer
    m.valueType ⟨2⟩ = .ok (some .vec3f) ∧ ∃ t m' w', (Modifier.floatingOrigin ⟨2⟩).apply (m, w) = .ok () (m', w') ∧
      w'.statements.toList = originStatements t ∧ InfixForm t ∧
      t = "(particle.position) + (particle.velocity)" ∧ accessed t = "(particle.velocity)" := by
  intro m w
  obtain ⟨m', w', happly, hst⟩ := apply_positionPlusVelocity
  exact ⟨valueType_positionPlusVelocity, _, m', w', happly, hst,
    ⟨.add, "+", "particle.position", "particle.velocity", rfl, by cbv⟩, rfl, by cbv⟩

end Modifier
end EffectGraph
