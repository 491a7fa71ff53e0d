import EffectGraph.Proofs.Effect.Modifiers
import EffectGraph.Proofs.Module.Ambiguity
import EffectGraph.Text.Printable
import Mathlib

/-!
# What shader code declares

Shader code is read as the text that it is. Statements and blocks end at line
breaks, semicolons and braces, and a statement whose first word is `let` declares
the local that its second word names (`Text.declared`).

The names that authors choose stand in the code as they are. If they are inline
(`Text.IsInline`), nothing in them ends a statement or opens a comment, and what
is rendered stays in its statement (`Renders.unbroken`). Then the line of a binding
declares the first word of its name (`declared_binding`), which is the name itself
if that is a word, and the lines of a floating origin declare nothing
(`declared_originLines`).
-/

namespace EffectGraph

/-! ## Words and statements -/

namespace Glyph

/-- Whether a statement or a block ends or begins at a glyph. -/
def endsStatement : Glyph → Bool
  | .char c => c == '\n' || c == ';' || c == '\x7b' || c == '\x7d'
  | .half _ => false

/-- Whether a glyph is a blank of any script. -/
def isBlank : Glyph → Bool
  | .char c => Text.isBlank c
  | .half _ => false

/-- Whether a glyph can stand in a word: a letter, a digit, an underscore, or a
printable character beyond those of ASCII. -/
def inWord : Glyph → Bool
  | .char c => c.isAlphanum || c == '_' || (128 ≤ c.toNat && Text.isPrintable c && !Text.isBlank c)
  | .half _ => false

/-- No letter and no digit is a blank. -/
theorem isBlank_of_isAlphanum {c : Char} (h : c.isAlphanum) : Text.isBlank c = false := by
  simp only [Char.isAlphanum, Char.isAlpha, Char.isUpper, Char.isLower, Char.isDigit, Bool.or_eq_true,
    Bool.and_eq_true, decide_eq_true_eq, ge_iff_le, UInt32.le_iff_toNat_le, Char.toNat_val, Char.reduceToNat] at h
  simp only [Text.isBlank, Bool.or_eq_false_iff, Bool.and_eq_false_iff, decide_eq_false_iff_not, beq_eq_false_iff_ne]
  omega

theorem isBlank_of_inWord {g : Glyph} (h : g.inWord) : g.isBlank = false := by
  cases g with
  | half => rfl
  | char c =>
    simp only [inWord, Bool.or_eq_true, beq_iff_eq, Bool.and_eq_true, Bool.not_eq_true'] at h
    rcases h with (h | rfl) | h
    · exact isBlank_of_isAlphanum h
    · decide
    · exact h.2

theorem inline_of_inWord {g : Glyph} (h : g.inWord) : g.endsStatement = false ∧ g ≠ .char '/' := by
  cases g with
  | half => simp [endsStatement]
  | char c =>
    simp only [endsStatement, Bool.or_eq_false_iff, beq_eq_false_iff_ne, ne_eq, char.injEq]
    refine ⟨⟨⟨⟨?_, ?_⟩, ?_⟩, ?_⟩, ?_⟩
    all_goals
      rintro rfl
      exact absurd h (by decide)

theorem endsStatement_of_inNumber {g : Glyph} (h : g.inNumber) : g.endsStatement = false := by
  cases g with
  | half => rfl
  | char c =>
    simp only [endsStatement, Bool.or_eq_false_iff, beq_eq_false_iff_ne]
    refine ⟨⟨⟨?_, ?_⟩, ?_⟩, ?_⟩
    all_goals
      rintro rfl
      exact absurd h (by decide)

end Glyph

namespace Text

/-- The first word of a text, which may stand behind blanks. -/
def word? (t : Text) : Option Text :=
  let word : Text := ⟨(t.glyphs.dropWhile Glyph.isBlank).takeWhile Glyph.inWord⟩
  if word.isEmpty then none else some word

/-- What is behind the first word. -/
def afterWord (t : Text) : Text := ⟨(t.glyphs.dropWhile Glyph.isBlank).dropWhile Glyph.inWord⟩

/-- The local that a statement declares. -/
def declared? (statement : Text) : Option Text :=
  if statement.word? = some ("let" : Text) then statement.afterWord.word? else none

/-- The statements of shader code. -/
def statements (code : Text) : List Text := (code.glyphs.splitOnP Glyph.endsStatement).map (⟨·⟩)

/-- The locals that shader code declares, in order. -/
def declared (code : Text) : List Text := code.statements.filterMap declared?

/-- A word and nothing else. -/
def IsWord (s : Text) : Prop := s.glyphs ≠ [] ∧ ∀ g ∈ s.glyphs, g.inWord

/-- A text that ends no statement. -/
def IsUnbroken (s : Text) : Prop := ∀ g ∈ s.glyphs, g.endsStatement = false

/-- A text that ends no statement and opens no comment. -/
def IsInline (s : Text) : Prop := ∀ g ∈ s.glyphs, g.endsStatement = false ∧ g ≠ .char '/'

instance : DecidablePred IsWord := fun s =>
  have := List.decidableBAll (fun g : Glyph => g.inWord = true) s.glyphs
  inferInstanceAs (Decidable (s.glyphs ≠ [] ∧ ∀ g ∈ s.glyphs, g.inWord))

instance : DecidablePred IsUnbroken := fun s => List.decidableBAll (fun g : Glyph => g.endsStatement = false) s.glyphs

instance : DecidablePred IsInline := fun s =>
  List.decidableBAll (fun g : Glyph => g.endsStatement = false ∧ g ≠ .char '/') s.glyphs

variable {s t : Text}

theorem IsWord.inline (h : s.IsWord) : s.IsInline := fun g hg => Glyph.inline_of_inWord (h.2 g hg)

theorem IsInline.unbroken (h : s.IsInline) : s.IsUnbroken := fun g hg => (h g hg).1

theorem IsUnbroken.append (hs : s.IsUnbroken) (ht : t.IsUnbroken) : (s ++ t).IsUnbroken :=
  List.forall_mem_append.2 ⟨hs, ht⟩

/-- The first word of a word is that word. -/
theorem IsWord.word? (h : s.IsWord) : s.word? = some s := by
  obtain ⟨hne, hall⟩ := h
  have hblanks : s.glyphs.dropWhile Glyph.isBlank = s.glyphs := by
    rw [List.dropWhile_eq_self_iff]
    intro hpos
    simp [Glyph.isBlank_of_inWord (hall _ (List.getElem_mem hpos))]
  have hword : (⟨(s.glyphs.dropWhile Glyph.isBlank).takeWhile Glyph.inWord⟩ : Text) = s := by
    rw [hblanks, List.takeWhile_eq_self_iff.2 hall]
  simp only [Text.word?, hword]
  simp [Text.isEmpty, hne]

/-! ## Declarations of code -/

theorem declared_cut {l r : List Glyph} {g : Glyph} (hg : g.endsStatement) :
    (⟨l ++ g :: r⟩ : Text).declared = (⟨l⟩ : Text).declared ++ (⟨r⟩ : Text).declared := by
  simp only [declared, statements, List.splitOnP_append_cons l r hg, List.map_append, List.filterMap_append]

theorem declared_unbroken (h : s.IsUnbroken) : s.declared = s.declared?.toList := by
  rw [declared, statements, List.splitOnP_eq_singleton h]
  cases hd : s.declared? with
  | none => simp [hd]
  | some n => simp [hd]

/-- The first word of a name that is followed by a blank and a sign. -/
theorem word?_followed (n rest : Text) : (n ++ " =" ++ rest).word? = n.word? := by
  have hrest : (n ++ " =" ++ rest).glyphs = n.glyphs ++ .char ' ' :: .char '=' :: rest.glyphs := by simp
  have hword : ((n ++ " =" ++ rest).glyphs.dropWhile Glyph.isBlank).takeWhile Glyph.inWord =
      (n.glyphs.dropWhile Glyph.isBlank).takeWhile Glyph.inWord := by
    rw [hrest, List.dropWhile_append]
    split
    · next hempty =>
      rw [List.isEmpty_iff.1 hempty]
      rfl
    · have hblank : (Glyph.char ' ' :: .char '=' :: rest.glyphs).takeWhile Glyph.inWord = [] := rfl
      rw [List.takeWhile_append, hblank, List.append_nil]
      split
      · next hlength => exact (List.IsPrefix.eq_of_length (List.takeWhile_prefix _) hlength).symm
      · rfl
  simp only [word?, hword]

theorem declared?_binding (n rest : Text) : ("let " ++ n ++ " =" ++ rest : Text).declared? = n.word? := by
  have hlet : ("let " ++ n ++ " =" ++ rest : Text).word? = some ("let" : Text) := rfl
  have hafter : ("let " ++ n ++ " =" ++ rest : Text).afterWord.word? = (n ++ " =" ++ rest).word? := rfl
  rw [declared?, if_pos hlet, hafter, word?_followed]

end Text

/-- The line of a binding declares the first word of its name. -/
theorem Statement.declared_binding {n v : Text} (hn : n.IsUnbroken) (hv : v.IsUnbroken) :
    (Statement.binding n v).text.declared = n.word?.toList := by
  have hsplit : (Statement.binding n v).text =
      ⟨("let " ++ n ++ " =" ++ (" " ++ v) : Text).glyphs ++ .char ';' :: []⟩ := by
    apply Text.glyphs_injective
    simp [Statement.text]
  have hunbroken : ("let " ++ n ++ " =" ++ (" " ++ v) : Text).IsUnbroken :=
    (((Text.IsUnbroken.append (by decide) hn).append (by decide)).append (.append (by decide) hv))
  have hend : (⟨[]⟩ : Text).declared = [] := rfl
  rw [hsplit, Text.declared_cut rfl, hend, List.append_nil]
  exact (Text.declared_unbroken hunbroken).trans (congrArg Option.toList (Text.declared?_binding n _))

/-- Code declares what its lines declare, in order. -/
theorem Writer.declared_code (w : Writer) :
    w.code.declared = w.statements.toList.flatMap fun s => s.text.declared := by
  unfold Writer.code
  induction w.statements.toList with
  | nil => rfl
  | cons s ss ih =>
    have hline : (s.text ++ ("\n" : Text)).glyphs = s.text.glyphs ++ .char '\n' :: [] := by simp
    rw [List.flatMap_cons, List.flatMap_cons, hline, List.append_assoc, List.cons_append, List.nil_append,
      Text.declared_cut rfl, ih]

/-! ## What is rendered ends no statement -/

theorem Numeral.unbroken {t : Text} (h : Numeral t.glyphs) : t.IsUnbroken := fun g hg =>
  Glyph.endsStatement_of_inNumber (h g hg)

theorem UnaryOp.unbroken_render (op : UnaryOp) {x : Text} (hx : x.IsUnbroken) : (op.render x).IsUnbroken := by
  have hname : (op.name : Text).IsUnbroken := by cases op <;> decide
  exact ((hname.append (by decide)).append hx).append (by decide)

theorem BinaryOp.unbroken_render (op : BinaryOp) {l r : Text} (hl : l.IsUnbroken) (hr : r.IsUnbroken) :
    (op.render l r).IsUnbroken := by
  have hopening : (op.opening : Text).IsUnbroken := by cases op <;> decide
  have hbetween : (op.between : Text).IsUnbroken := by cases op <;> decide
  have hwhole : op.render l r = op.opening ++ "(" ++ l ++ op.between ++ r ++ ")" := by
    apply Text.glyphs_injective
    simp [op.glyphs_render]
  rw [hwhole]
  exact ((((hopening.append (by decide)).append hl).append hbetween).append hr).append (by decide)

theorem mem_of_mem_intercalate {sep : List α} {parts : List (List α)} {a : α} (h : a ∈ sep.intercalate parts) :
    a ∈ sep ∨ ∃ p ∈ parts, a ∈ p := by
  induction parts with
  | nil => simp [List.intercalate] at h
  | cons p parts ih =>
    cases parts with
    | nil => exact .inr ⟨p, List.mem_cons_self, by simpa [List.intercalate] using h⟩
    | cons q parts =>
      have hsplit : sep.intercalate (p :: q :: parts) = p ++ (sep ++ sep.intercalate (q :: parts)) := by
        simp [List.intercalate]
      rw [hsplit, List.mem_append, List.mem_append] at h
      rcases h with h | h | h
      · exact .inr ⟨p, List.mem_cons_self, h⟩
      · exact .inl h
      · exact (ih h).imp_right fun ⟨r, hr, ha⟩ => ⟨r, List.mem_cons_of_mem _ hr, ha⟩

/-- A literal is written with numbers, and a vector with commas between its
components. -/
theorem Literal.unbroken {v : Literal} {t : String} (h : v.shaderText = .ok t) : (t : Text).IsUnbroken := by
  cases hv : v.type with
  | scalar type =>
    unfold shaderText at h
    rw [hv] at h
    exact (numeral_scalarText h).unbroken
  | vector type =>
    obtain ⟨name, parts, hname, -, hparts, htext⟩ := exists_components hv h
    intro g hg
    rw [htext, List.mem_append, List.mem_cons, List.mem_append, List.mem_singleton] at hg
    rcases hg with hg | rfl | hg | rfl
    · exact Glyph.endsStatement_of_inNumber (hname g hg)
    · rfl
    · rcases mem_of_mem_intercalate hg with hg | ⟨p, hp, hg⟩
      · rw [List.mem_singleton.1 hg]
        rfl
      · exact Glyph.endsStatement_of_inNumber (hparts p hp g hg)
    · rfl

/-- An expression ends no statement, if the names that it reads and the texts of its
operands do not. -/
theorem Expr.unbroken_render {m : Module} {e : Expr} {ts : List Text} {t : Text}
    (hproperties : ∀ n ∈ m.propertyNames, n.IsUnbroken) (hattribute : ∀ a, e = .attribute a → a.name.IsUnbroken)
    (hts : ∀ t ∈ ts, t.IsUnbroken) (ht : e.render m ts = .ok t) : t.IsUnbroken := by
  have hoperand : ∀ k, (ts.getD k "").IsUnbroken := fun k => by
    rw [List.getD_eq_getElem?_getD]
    cases hk : ts[k]? with
    | none => exact (by decide : ("" : Text).IsUnbroken)
    | some t => exact hts t (List.mem_of_getElem? hk)
  match e with
  | .literal v =>
    obtain ⟨s, hs, ht⟩ := Except.bind_eq_ok.1 ht
    cases ht
    exact Literal.unbroken hs
  | .attribute a =>
    cases ht
    exact .append (by decide) (hattribute a rfl)
  | .builtin b =>
    cases ht
    cases b <;> decide
  | .property p =>
    obtain ⟨q, hq, ht⟩ := Except.bind_eq_ok.1 ht
    cases ht
    exact .append (by decide) (hproperties _ (Module.name_mem_propertyNames hq))
  | .binary op l r =>
    cases ht
    exact op.unbroken_render (hoperand 0) (hoperand 1)
  | .unary op x =>
    cases ht
    exact op.unbroken_render (hoperand 0)

/-- What is rendered ends no statement, if no name does. -/
theorem Renders.unbroken {m : Module} {V : Bindings} (hm : m.NamesAre Text.IsUnbroken)
    (hV : ∀ p ∈ V, p.2.IsUnbroken) {h : ExprHandle} {t : Text} (r : Renders m V h t) : t.IsUnbroken := by
  induction r with
  | name hn => exact hV _ hn
  | expr texts he _ ht ih =>
    refine Expr.unbroken_render hm.properties (fun a ha => ?_) (List.forall_mem_map.2 ih) ht
    subst ha
    exact hm.attributes _ (Module.name_mem_attributeNames he)

/-- The offset of a modifier ends no statement, if no name of a property does. -/
theorem Modifier.Makes.unbroken {m : Module} {work : Build Modifier} {t : Text}
    (h : Makes m.propertyNames work t) (hm : ∀ n ∈ m.propertyNames, n.IsUnbroken) : t.IsUnbroken := by
  obtain ⟨e, m', -, hattribute, ht, -⟩ := h m (List.Subset.refl _)
  exact Expr.unbroken_render hm (fun a ha => absurd ha (hattribute a)) (by simp) ht

/-! ## Lines of modifiers -/

/-- A line of one statement, with what ends it. -/
theorem Text.declared_ended {s : Text} (hs : s.IsUnbroken) (hnone : s.declared? = none) {g : Glyph}
    (hg : g.endsStatement) : (s ++ ⟨[g]⟩).declared = [] := by
  have hend : (⟨[]⟩ : Text).declared = [] := rfl
  have hcut : (s ++ ⟨[g]⟩).declared = s.declared ++ (⟨[]⟩ : Text).declared := declared_cut hg
  rw [hcut, hend, declared_unbroken hs, hnone]
  rfl

/-- The lines of a floating origin declare nothing. -/
theorem Modifier.declared_originLines {offset : Text} (h : offset.IsUnbroken) :
    ∀ l ∈ originLines Attribute.vector0.shaderText offset, l.declared = [] := by
  have hchanged : ∀ c : Text, c.IsUnbroken →
      (Attribute.vector0.shaderText ++ "." ++ c ++ " != " ++ offset ++ "." ++ c).IsUnbroken := fun c hc =>
    .append (.append (.append (.append (.append (by decide) hc) (by decide)) h) (by decide)) hc
  intro l hl
  simp only [originLines, List.mem_cons, List.not_mem_nil, or_false] at hl
  rcases hl with rfl | rfl | rfl | rfl | rfl
  · generalize hcondition : Text.join ", " _ = condition
    have hunbroken : condition.IsUnbroken := by
      rw [← hcondition]
      exact .append (.append (hchanged _ (by decide)) (by decide))
        (.append (.append (hchanged _ (by decide)) (by decide)) (hchanged _ (by decide)))
    have hline : ("if (any(vec3<bool>(" ++ condition ++ "))) \x7b" : Text) =
        "if (any(vec3<bool>(" ++ condition ++ "))) " ++ ⟨[.char '\x7b']⟩ := by
      apply Text.glyphs_injective
      simp
    rw [hline]
    exact Text.declared_ended (.append (.append (by decide) hunbroken) (by decide)) rfl rfl
  · decide
  · exact Text.declared_ended (s := "    " ++ Attribute.position.shaderText ++ " += " ++ offset ++ " - " ++
      Attribute.vector0.shaderText) (.append (.append (.append (by decide) h) (by decide)) (by decide)) rfl rfl
  · exact Text.declared_ended (s := "    " ++ Attribute.vector0.shaderText ++ " = " ++ offset)
      (.append (by decide) h) rfl rfl
  · decide

end EffectGraph
