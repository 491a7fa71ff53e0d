import EffectGraph.Proofs.Module.Runs
import EffectGraph.Proofs.Module.Trees
import EffectGraph.Proofs.Nesting
import Mathlib

/-!
# Shader text is unambiguous

Every operand stands between marks of its operator and encloses its own
parentheses and commas, so a text tells the operators, how they are nested, and
the texts of the leaves (`Tree.text_injective`). Leaves are as good as names for
that: they have no parentheses and commas, but for vectors, which no operator is
written like (`LeafText`). So expressions have the same text just if they have the
same tree (`same_text_iff_common_tree`), if the names of properties and attributes
are free of marks. A module may read an attribute that has not been registered,
under any name, and then texts can be ambiguous (`same_text_other_tree`).
-/

namespace EffectGraph

/-! ## How operators are written -/

/-- What stands before the first operand and its parenthesis. -/
def BinaryOp.opening (op : BinaryOp) : String :=
  match op.infix? with
  | some _ => ""
  | none => op.name

/-- What stands between the operands. -/
def BinaryOp.between (op : BinaryOp) : String :=
  match op.infix? with
  | some sign => ") " ++ sign ++ " ("
  | none => ", "

namespace UnaryOp

theorem glyphs_render (op : UnaryOp) (x : Text) :
    (op.render x).glyphs = (op.name : Text).glyphs ++ .char '(' :: (x.glyphs ++ [.char ')']) := by
  simp [render]

theorem unmarked_name (op : UnaryOp) : Unmarked (op.name : Text).glyphs := by
  cases op <;> decide

theorem name_injective {op op' : UnaryOp} (h : op.name = op'.name) : op = op' := by
  have hapart : (every.map name).Nodup := by decide
  exact List.inj_on_of_nodup_map hapart (mem_every op) (mem_every op') h

end UnaryOp

namespace BinaryOp

theorem glyphs_render (op : BinaryOp) (l r : Text) : (op.render l r).glyphs =
    (op.opening : Text).glyphs ++ .char '(' ::
      (l.glyphs ++ ((op.between : Text).glyphs ++ (r.glyphs ++ [.char ')']))) := by
  unfold render opening between
  cases op.infix? <;> simp

theorem unmarked_opening (op : BinaryOp) : Unmarked (op.opening : Text).glyphs := by
  cases op <;> decide

/-- What stands between the operands ends the first one, and leaves the second one
as deep as that. -/
theorem between_cases (op : BinaryOp) : ∃ c cs, (op.between : Text).glyphs = c :: cs ∧ EndsOperand c ∧
    ∀ r, Encloses 1 ((op.between : Text).glyphs ++ r) ↔ Encloses 1 r := by
  cases op <;>
    exact ⟨_, _, rfl, by decide, fun r => by simp [between, infix?, Encloses, EndsOperand, inside]⟩

/-- Operators that are written alike around their operands are the same. -/
theorem eq_of_written {op op' : BinaryOp} (h : op.opening = op'.opening) (h' : op.between = op'.between) :
    op = op' := by
  have hapart : (all.map fun op => (op.opening, op.between)).Nodup := by decide
  exact List.inj_on_of_nodup_map hapart (mem_all op) (mem_all op') (Prod.ext h h')

theorem length_between (op : BinaryOp) : (op.between : Text).glyphs.length = if op.opening = "" then 5 else 2 := by
  cases op <;> rfl

theorem opening_ne_name (op : BinaryOp) (op' : UnaryOp) : op.opening ≠ op'.name := by
  have hapart : ∀ op ∈ all, ∀ op' ∈ UnaryOp.every, op.opening ≠ op'.name := by decide
  exact hapart op (mem_all op) op' (UnaryOp.mem_every op')

end BinaryOp

/-! ## How leaves are written -/

/-- A text without parentheses and commas. -/
def Text.IsUnmarked (s : Text) : Prop := Unmarked s.glyphs

instance : DecidablePred Text.IsUnmarked := fun s => inferInstanceAs (Decidable (Unmarked s.glyphs))

/-- What can be the text of a leaf: it encloses its commas, and if it has a
parenthesis, it is that of a vector. -/
structure LeafText (t : Text) : Prop where
  encloses : Encloses 0 t.glyphs
  vector : .char '(' ∈ t.glyphs → [Glyph.char 'v', .char 'e', .char 'c'] <+: t.glyphs

theorem LeafText.of_unmarked {t : Text} (h : t.IsUnmarked) : LeafText t where
  encloses := .of_unmarked h
  vector hmem := absurd rfl (h (.char '(') hmem).1

/-- A glyph of numbers in shader code: a letter, a digit, a point or a sign. -/
def Glyph.inNumber : Glyph → Bool
  | .char c => c.isAlphanum || c == '.' || c == '-'
  | .half _ => false

/-- A text of letters, digits, points and signs. -/
def Numeral (gs : List Glyph) : Prop := ∀ g ∈ gs, g.inNumber

instance : DecidablePred Numeral := fun gs => List.decidableBAll (fun g : Glyph => g.inNumber = true) gs

namespace Numeral

variable {l r : List Glyph} {g : Glyph}

theorem append (hl : Numeral l) (hr : Numeral r) : Numeral (l ++ r) := List.forall_mem_append.2 ⟨hl, hr⟩

theorem cons (hg : g.inNumber) (h : Numeral l) : Numeral (g :: l) := List.forall_mem_cons.2 ⟨hg, h⟩

theorem subset (h : Numeral r) (hs : l ⊆ r) : Numeral l := fun g hg => h g (hs hg)

/-- Other glyphs are not in it. -/
theorem ne (h : Numeral l) (hg : g ∈ l) {other : Glyph} (hother : other.inNumber = false) : g ≠ other := by
  rintro rfl
  exact absurd (h g hg) (by simp [hother])

theorem unmarked (h : Numeral l) : Unmarked l := fun _ hg =>
  ⟨h.ne hg (by decide), fun hends => hends.elim (h.ne hg (by decide)) (h.ne hg (by decide))⟩

end Numeral

theorem numeral_digitsOf (n : Nat) : Numeral ((Binary64.digitsOf n).map .char) := by
  intro g hg
  obtain ⟨c, hc, rfl⟩ := List.mem_map.1 hg
  have hdigit : c.isDigit := Nat.isDigit_of_mem_toDigits (by decide) (by decide) hc
  simp [Glyph.inNumber, Char.isAlphanum, hdigit]

theorem Text.glyphs_ofList (cs : List Char) : (String.ofList cs : Text).glyphs = cs.map .char := by
  rw [glyphs_ofString, String.toList_ofList]

namespace Literal

/-- A point among digits. -/
theorem numeral_pointed {ds : List Char} (h : Numeral (ds.map .char)) (n : Nat) :
    Numeral ((ds.take n ++ '.' :: ds.drop n).map .char) := by
  rw [List.map_append, List.map_cons, List.map_take, List.map_drop]
  exact (h.subset (List.take_subset _ _)).append (.cons (by decide) (h.subset (List.drop_subset _ _)))

theorem numeral_fixed (places : Nat) (x : Binary64) : Numeral (x.fixed places : Text).glyphs := by
  cases x with
  | nan source => exact (by decide : Numeral ("nan" : Text).glyphs)
  | inf neg =>
    cases neg with
    | false => exact (by decide : Numeral ("inf" : Text).glyphs)
    | true => exact (by decide : Numeral ("-inf" : Text).glyphs)
  | finite neg mant exp fits =>
    have hzeros : ∀ n, Numeral ((Binary64.zeros n).map .char) := fun n g hg => by
      rw [Binary64.zeros, List.map_replicate] at hg
      rw [List.eq_of_mem_replicate hg]
      decide
    have hbody : ∀ k n p, Numeral (((Binary64.zeros k ++ Binary64.digitsOf n).take p ++
        '.' :: (Binary64.zeros k ++ Binary64.digitsOf n).drop p).map .char) := by
      intro k n p
      refine numeral_pointed ?_ p
      rw [List.map_append]
      exact (hzeros k).append (numeral_digitsOf n)
    unfold Binary64.fixed
    dsimp only
    rw [Text.glyphs_ofList]
    split
    · exact .cons (by decide) (hbody _ _ _)
    · exact hbody _ _ _

theorem numeral_floatText (x : Binary64) : Numeral (floatText x : Text).glyphs := by
  unfold floatText
  rw [Text.glyphs_ofList]
  refine (numeral_fixed floatPlaces x).subset (List.map_subset _ fun c hc => ?_)
  have hmem := (List.dropWhile_sublist _).mem (List.mem_reverse.1 hc)
  exact List.mem_reverse.1 hmem

theorem numeral_writeInt {i : Int} {t : String} (h : writeInt i = .ok t) : Numeral (t : Text).glyphs := by
  unfold writeInt at h
  split at h
  · cases h
  · cases h
    have hdigits : Numeral ((String.ofList (Binary64.digitsOf i.natAbs)).toList.map .char) := by
      rw [String.toList_ofList]
      exact numeral_digitsOf _
    unfold Data.intText
    split
    · rw [Text.glyphs_ofString, String.toList_append, List.map_append]
      exact Numeral.append (by decide) hdigits
    · rw [Text.glyphs_ofString]
      exact hdigits

/-- A scalar is written with letters, digits, points and signs. -/
theorem numeral_scalarText {type : ScalarType} {d : Data} {t : String} (h : scalarText type d = .ok t) :
    Numeral (t : Text).glyphs := by
  cases type with
  | bool =>
    cases h
    split <;> decide
  | f32 =>
    obtain ⟨x, -, h⟩ := Except.bind_eq_ok.1 h
    cases h
    exact numeral_floatText x
  | u32 =>
    obtain ⟨i, -, h⟩ := Except.bind_eq_ok.1 h
    obtain ⟨s, hs, h⟩ := Except.bind_eq_ok.1 h
    cases h
    rw [Text.glyphs_ofString, String.toList_append, List.map_append]
    exact (numeral_writeInt hs).append (by decide)
  | i32 =>
    obtain ⟨i, -, h⟩ := Except.bind_eq_ok.1 h
    exact numeral_writeInt h

theorem map_intercalate (f : α → β) (sep : List α) (xs : List (List α)) :
    (sep.intercalate xs).map f = (sep.map f).intercalate (xs.map (List.map f)) := by
  induction xs with
  | nil => rfl
  | cons x xs ih =>
    cases xs with
    | nil => simp [List.intercalate]
    | cons y xs => simpa [List.intercalate] using ih

/-- The components of a vector are nothing to what follows them. -/
theorem encloses_components {parts : List (List Glyph)} (h : ∀ p ∈ parts, Unmarked p) (r : List Glyph) :
    Encloses 1 ([Glyph.char ','].intercalate parts ++ r) ↔ Encloses 1 r := by
  induction parts with
  | nil => rfl
  | cons p parts ih =>
    obtain ⟨hp, hparts⟩ := List.forall_mem_cons.1 h
    cases parts with
    | nil => simpa [List.intercalate] using Encloses.append_unmarked hp
    | cons q parts =>
      have hsplit : [Glyph.char ','].intercalate (p :: q :: parts) =
          p ++ .char ',' :: [Glyph.char ','].intercalate (q :: parts) := by
        simp [List.intercalate]
      rw [hsplit, List.append_assoc, Encloses.append_unmarked hp, List.cons_append, Encloses,
        and_iff_right fun _ => Nat.one_pos]
      exact ih hparts

/-- A vector is written as its name and its components, between parentheses. -/
theorem exists_components {v : Literal} {type : VectorType} {t : String} (hv : v.type = .vector type)
    (h : v.shaderText = .ok t) : ∃ name parts, Numeral name ∧
      [Glyph.char 'v', .char 'e', .char 'c'] <+: name ∧ (∀ p ∈ parts, Numeral p) ∧
      (t : Text).glyphs = name ++ .char '(' :: ([Glyph.char ','].intercalate parts ++ [.char ')']) := by
  unfold shaderText at h
  rw [hv] at h
  dsimp only at h
  split at h
  · next items _ =>
    obtain ⟨parts, hparts, h⟩ := Except.bind_eq_ok.1 h
    cases h
    have hdigits : (toString type.count).toList = Binary64.digitsOf type.count := Nat.toList_repr
    refine ⟨['v', 'e', 'c'].map .char ++ (Binary64.digitsOf type.count).map .char,
      parts.map fun p : String => (Text.ofString p).glyphs, Numeral.append (by decide) (numeral_digitsOf _),
      ⟨_, rfl⟩, fun p hp => ?_, ?_⟩
    · obtain ⟨s, hs, rfl⟩ := List.mem_map.1 hp
      obtain ⟨d, -, hd⟩ := Except.exists_of_mem_mapM hparts hs
      exact numeral_scalarText hd
    · simp [String.toList_intercalate, ← hdigits, map_intercalate, Function.comp_def]
  · cases h

/-- A literal is written like a leaf. -/
theorem leafText {v : Literal} {t : String} (h : v.shaderText = .ok t) : LeafText t := by
  cases hv : v.type with
  | scalar type =>
    unfold shaderText at h
    rw [hv] at h
    exact .of_unmarked (numeral_scalarText h).unmarked
  | vector type =>
    obtain ⟨name, parts, hname, hvec, hparts, htext⟩ := exists_components hv h
    refine ⟨?_, fun _ => ?_⟩
    · rw [htext, Encloses.append_unmarked hname.unmarked]
      refine ⟨fun he => absurd he (by decide), (encloses_components (fun p hp => (hparts p hp).unmarked) _).2 ?_⟩
      exact ⟨fun _ => Nat.one_pos, rfl⟩
    · rw [htext]
      exact hvec.trans (List.prefix_append _ _)

end Literal

/-- The attributes that have been registered have names without marks. -/
theorem Attribute.unmarked_name : ∀ a ∈ Attribute.all, a.name.IsUnmarked := by
  decide

namespace Module

/-- The names of the attributes that expressions read. -/
def attributeNames (m : Module) : List Text :=
  m.exprs.toList.filterMap fun
    | .attribute a => some a.name
    | _ => none

theorem name_mem_attributeNames {m : Module} {h : ExprHandle} {a : Attribute} (he : m.get h = .ok (.attribute a)) :
    a.name ∈ m.attributeNames := by
  obtain ⟨hlt, hmem⟩ := Array.getElem?_eq_some_iff.1 (get_eq_ok_iff.1 he)
  exact List.mem_filterMap.2 ⟨.attribute a, hmem ▸ Array.getElem_mem_toList hlt, rfl⟩

/-- The names of all properties, and of all attributes that expressions read, are
such. -/
structure NamesAre (m : Module) (P : Text → Prop) : Prop where
  properties : ∀ n ∈ m.propertyNames, P n
  attributes : ∀ n ∈ m.attributeNames, P n

theorem NamesAre.mono {m : Module} {P Q : Text → Prop} (h : m.NamesAre P) (hPQ : ∀ n, P n → Q n) : m.NamesAre Q :=
  ⟨fun n hn => hPQ n (h.properties n hn), fun n hn => hPQ n (h.attributes n hn)⟩

end Module

/-- An expression without operands is written like a leaf, if names have no
parentheses and commas. -/
theorem Module.NamesAre.leafText {m : Module} (hm : m.NamesAre Text.IsUnmarked) {h : ExprHandle} {e : Expr} {t : Text}
    (he : m.get h = .ok e) (hleaf : e.children = []) (ht : e.render m [] = .ok t) : LeafText t := by
  match e with
  | .literal v =>
    obtain ⟨s, hs, ht⟩ := Except.bind_eq_ok.1 ht
    cases ht
    exact Literal.leafText hs
  | .attribute a =>
    cases ht
    exact .of_unmarked (Unmarked.append (by decide) (hm.attributes _ (name_mem_attributeNames he)))
  | .builtin b =>
    cases ht
    exact .of_unmarked (by cases b <;> decide)
  | .property p =>
    obtain ⟨q, hq, ht⟩ := Except.bind_eq_ok.1 ht
    cases ht
    exact .of_unmarked (Unmarked.append (by decide) (hm.properties _ (name_mem_propertyNames hq)))
  | .binary op l r => cases hleaf
  | .unary op x => cases hleaf

/-! ## Telling trees by their texts -/

namespace Tree

/-- A tree all of whose leaves are written like leaves. -/
def Sound : Tree → Prop
  | leaf t => LeafText t
  | unary _ x => x.Sound
  | binary _ l r => l.Sound ∧ r.Sound

end Tree

/-- An operand is nothing to what follows it inside the parentheses of its
operator. -/
theorem Encloses.operand {l r : List Glyph} (h : Encloses 0 l) : Encloses 1 (l ++ r) ↔ Encloses 1 r := by
  simpa using append_iff (e := 1) h

/-- An operator with its opening parenthesis and what it encloses. -/
theorem Encloses.applied {name args : List Glyph} (hn : Unmarked name) (h : Encloses 1 args) :
    Encloses 0 (name ++ .char '(' :: args) := by
  rw [append_unmarked hn]
  exact ⟨fun hc => absurd hc (by decide), h⟩

theorem encloses_close : Encloses 1 [.char ')'] := ⟨fun _ => Nat.one_pos, rfl⟩

theorem UnaryOp.encloses_render (op : UnaryOp) {x : Text} (hx : Encloses 0 x.glyphs) :
    Encloses 0 (op.render x).glyphs := by
  rw [glyphs_render]
  exact .applied op.unmarked_name (hx.operand.2 encloses_close)

theorem BinaryOp.encloses_render (op : BinaryOp) {l r : Text} (hl : Encloses 0 l.glyphs)
    (hr : Encloses 0 r.glyphs) : Encloses 0 (op.render l r).glyphs := by
  obtain ⟨c, cs, -, -, hbetween⟩ := op.between_cases
  rw [glyphs_render]
  exact .applied op.unmarked_opening (hl.operand.2 ((hbetween _).2 (hr.operand.2 encloses_close)))

/-- The text of a tree encloses its own. -/
theorem Tree.Sound.encloses {a : Tree} (h : a.Sound) : Encloses 0 a.text.glyphs := by
  induction a with
  | leaf t => exact LeafText.encloses h
  | unary op x ih => exact op.encloses_render (ih h)
  | binary op l r ihl ihr => exact op.encloses_render (ihl h.1) (ihr h.2)

theorem UnaryOp.not_leafText (op : UnaryOp) (x : Text) : ¬LeafText (op.render x) := by
  intro h
  have hvector := h.vector (by simp [glyphs_render])
  rw [glyphs_render] at hvector
  cases op <;> simp [name] at hvector

theorem BinaryOp.not_leafText (op : BinaryOp) (l r : Text) : ¬LeafText (op.render l r) := by
  intro h
  have hvector := h.vector (by simp [glyphs_render])
  rw [glyphs_render] at hvector
  cases op <;> simp [opening, infix?, name] at hvector

/-- The text of a unary operation is not that of a binary one. -/
theorem UnaryOp.render_ne (op : UnaryOp) (x : Text) (op' : BinaryOp) (l r : Text) :
    op.render x ≠ op'.render l r := by
  intro h
  have hlist := congrArg Text.glyphs h
  rw [glyphs_render, BinaryOp.glyphs_render] at hlist
  obtain ⟨hname, -⟩ := opening_unique op.unmarked_name op'.unmarked_opening hlist
  exact op'.opening_ne_name op (Text.ofString_injective (Text.glyphs_injective hname)).symm

/-- The text of a unary operation tells the operator and the text of its operand. -/
theorem UnaryOp.render_injective {op op' : UnaryOp} {x x' : Text} (h : op.render x = op'.render x') :
    op = op' ∧ x = x' := by
  have hlist := congrArg Text.glyphs h
  rw [glyphs_render, glyphs_render] at hlist
  obtain ⟨hname, hargs⟩ := opening_unique op.unmarked_name op'.unmarked_name hlist
  exact ⟨name_injective (Text.ofString_injective (Text.glyphs_injective hname)),
    Text.glyphs_injective (List.append_cancel_right hargs)⟩

/-- The text of a binary operation tells the operator and the texts of its
operands, if these enclose their own. -/
theorem BinaryOp.render_injective {op op' : BinaryOp} {l l' r r' : Text} (hl : Encloses 0 l.glyphs)
    (hl' : Encloses 0 l'.glyphs) (h : op.render l r = op'.render l' r') : op = op' ∧ l = l' ∧ r = r' := by
  have hlist := congrArg Text.glyphs h
  rw [glyphs_render, glyphs_render] at hlist
  obtain ⟨hopening, hargs⟩ := opening_unique op.unmarked_opening op'.unmarked_opening hlist
  have hopening := Text.ofString_injective (Text.glyphs_injective hopening)
  obtain ⟨c, cs, hbetween, hc, -⟩ := op.between_cases
  obtain ⟨c', cs', hbetween', hc', -⟩ := op'.between_cases
  have hlength := op.length_between
  rw [hopening, ← op'.length_between] at hlength
  -- The first operand ends where the text between the operands begins.
  rw [hbetween, hbetween', List.cons_append, List.cons_append] at hargs
  obtain ⟨hleft, rfl, hrest⟩ := hl.split hl' hc hc' hargs
  have hsame : cs.length = cs'.length := by
    rw [hbetween, hbetween'] at hlength
    exact Nat.succ.inj hlength
  obtain ⟨rfl, hright⟩ := List.append_inj hrest hsame
  have hop := eq_of_written hopening (Text.ofString_injective (Text.glyphs_injective (hbetween.trans hbetween'.symm)))
  exact ⟨hop, Text.glyphs_injective hleft, Text.glyphs_injective (List.append_cancel_right hright)⟩

/-- Trees with the same text are the same. -/
theorem Tree.text_injective {a b : Tree} (ha : a.Sound) (hb : b.Sound) (h : a.text = b.text) : a = b := by
  induction a generalizing b with
  | leaf t =>
    obtain rfl : t = b.text := h
    cases b with
    | leaf t' => rfl
    | unary op x => exact absurd ha (op.not_leafText _)
    | binary op l r => exact absurd ha (op.not_leafText _ _)
  | unary op x ih =>
    cases b with
    | leaf t =>
      obtain rfl : op.render x.text = t := h
      exact absurd hb (op.not_leafText _)
    | unary op' y =>
      obtain ⟨rfl, hx⟩ := UnaryOp.render_injective h
      exact congrArg (unary op) (ih ha hb hx)
    | binary op' l r => exact absurd h (op.render_ne _ _ _ _)
  | binary op l r ihl ihr =>
    cases b with
    | leaf t =>
      obtain rfl : op.render l.text r.text = t := h
      exact absurd hb (op.not_leafText _ _)
    | unary op' y => exact absurd h.symm (op'.render_ne _ _ _ _)
    | binary op' l' r' =>
      obtain ⟨rfl, hl, hr⟩ := BinaryOp.render_injective ha.1.encloses hb.1.encloses h
      rw [ihl ha.1 hb.1 hl, ihr ha.2 hb.2 hr]

namespace Module

/-- A tree of an expression has only leaves that are written like leaves, if names
have no parentheses and commas. -/
theorem Unfolds.sound {m : Module} (hm : m.NamesAre Text.IsUnmarked) {h : ExprHandle} {a : Tree} (hu : Unfolds m h a) :
    a.Sound := by
  induction hu with
  | leaf he hleaf ht => exact hm.leafText he hleaf ht
  | unary he _ ih => exact ih
  | binary he _ _ ihl ihr => exact ⟨ihl, ihr⟩

/-- Expressions have the same text just if they have the same tree: the same
operators, nested the same way, around leaves of the same texts. Names of properties
and attributes must have no parentheses and commas; blanks do no harm. -/
theorem same_text_iff_common_tree {m : Module} (hm : m.NamesAre Text.IsUnmarked) {x y : ExprHandle} {t : Text} :
    (m.shaderText x = .ok t ∧ m.shaderText y = .ok t) ↔
      ∃ a, m.unfold x = .ok a ∧ m.unfold y = .ok a ∧ a.text = t := by
  constructor
  · rintro ⟨hx, hy⟩
    obtain ⟨a, ha, hat⟩ := shaderText_eq_ok_iff_unfold.1 hx
    obtain ⟨b, hb, hbt⟩ := shaderText_eq_ok_iff_unfold.1 hy
    have hsame : a = b :=
      Tree.text_injective ((unfold_eq_ok_iff.1 ha).sound hm) ((unfold_eq_ok_iff.1 hb).sound hm) (hat.trans hbt.symm)
    exact ⟨a, ha, hsame ▸ hb, hat⟩
  · rintro ⟨a, hx, hy, hat⟩
    exact ⟨shaderText_eq_ok_iff_unfold.2 ⟨a, hx, hat⟩, shaderText_eq_ok_iff_unfold.2 ⟨a, hy, hat⟩⟩

section

open scoped EffectGraph.Stack.Usual

/-- Calls that build the same direction twice, around operands of their own. -/
def repeatedDirection : List Call :=
  [.addProperty "drift" (.int 2), .attr .position, .prop ⟨0⟩, .binary .add ⟨0⟩ ⟨1⟩, .unary .normalize ⟨2⟩,
    .attr .position, .prop ⟨0⟩, .binary .add ⟨4⟩ ⟨5⟩, .unary .normalize ⟨6⟩]

theorem same_text_iff_common_tree_repeatedDirection :
    (built 0 repeatedDirection).shaderText ⟨3⟩ = .ok "normalize((particle.position) + (properties.drift))" ∧
    (built 0 repeatedDirection).shaderText ⟨7⟩ = .ok "normalize((particle.position) + (properties.drift))" ∧
    ∃ a, (built 0 repeatedDirection).unfold ⟨3⟩ = .ok a ∧ (built 0 repeatedDirection).unfold ⟨7⟩ = .ok a ∧
      a.text = "normalize((particle.position) + (properties.drift))" := by
  have hproperties : (built 0 repeatedDirection).propertyNames = [("drift" : Text)] := by
    cbv
  have hattributes : (built 0 repeatedDirection).attributeNames = [("position" : Text), ("position" : Text)] := by
    cbv
  have hm : (built 0 repeatedDirection).NamesAre Text.IsUnmarked := by
    refine ⟨?_, ?_⟩
    · rw [hproperties]
      decide
    · rw [hattributes]
      decide
  have hfirst : (built 0 repeatedDirection).shaderText ⟨3⟩ =
      .ok "normalize((particle.position) + (properties.drift))" := by
    cbv
  have hsecond : (built 0 repeatedDirection).shaderText ⟨7⟩ =
      .ok "normalize((particle.position) + (properties.drift))" := by
    cbv
  exact ⟨hfirst, hsecond, (same_text_iff_common_tree hm).1 ⟨hfirst, hsecond⟩⟩

/-- Calls that add attributes whose names have parentheses. -/
def markedAttributes : List Call :=
  [.attr ⟨"a) + (particle.b", .f32⟩, .attr ⟨"c", .f32⟩, .binary .add ⟨0⟩ ⟨1⟩,
    .attr ⟨"a", .f32⟩, .attr ⟨"b) + (particle.c", .f32⟩, .binary .add ⟨3⟩ ⟨4⟩]

/-- Two sums of other attributes that have the same text. -/
theorem same_text_other_tree :
    let m := built 0 markedAttributes
    m.propertyNames = [] ∧
      m.shaderText ⟨2⟩ = .ok "(particle.a) + (particle.b) + (particle.c)" ∧
      m.shaderText ⟨5⟩ = .ok "(particle.a) + (particle.b) + (particle.c)" ∧
      ∃ a b, m.unfold ⟨2⟩ = .ok a ∧ m.unfold ⟨5⟩ = .ok b ∧ a ≠ b := by
  intro m
  refine ⟨by cbv, by cbv, by cbv, .binary .add (.leaf "particle.a) + (particle.b") (.leaf "particle.c"),
    .binary .add (.leaf "particle.a") (.leaf "particle.b) + (particle.c"), ?_, ?_, by decide⟩
  · rw [unfold_eq_ok_iff]
    exact .binary rfl (.leaf rfl rfl rfl) (.leaf rfl rfl rfl)
  · rw [unfold_eq_ok_iff]
    exact .binary rfl (.leaf rfl rfl rfl) (.leaf rfl rfl rfl)

end

end Module

end EffectGraph
