import EffectGraph.Proofs.Effect.Attributes
import EffectGraph.Proofs.Effect.Reading

/-!
# Every local is declared once

The names of locals come from three places: numbers that a shared expression takes,
names reserved for outputs, and lines that only repeat a variable under the name of
an output. `Numbering` says what holds while shared expressions take their numbers;
after that each output gets a line with its own name, whichever way its line comes
about (`bindOutputs_binds`). So no two lines have the same name.

Names stand in the code as they are. Read as text, the line of an output declares the
first word of its name (`declared_written`), so no local is declared twice if outputs
are named by words (`compile_declares_once`). Another name may declare more, and what
it declares may be declared already (`compile_declares_twice`).
-/

namespace EffectGraph

namespace Compiler

open Writer

variable {m : Module} {names : List Text} {w w' : Writer}

/-- The bindings of pairs of a name and a text. -/
def bindings (lines : List (Text × Text)) : List Statement := lines.map fun l => .binding l.1 l.2

/-- All statements are bindings, of these names in order. -/
def Binds (names : List Text) (w : Writer) : Prop :=
  ∃ lines, w.statements.toList = bindings lines ∧ lines.map Prod.fst = names

theorem Binds.push (h : Binds names w) (name value : Text)
    (hw : w'.statements = w.statements.push (.binding name value)) : Binds (names ++ [name]) w' := by
  obtain ⟨lines, hlines, rfl⟩ := h
  exact ⟨lines ++ [(name, value)], by simp [hw, hlines, bindings], by simp⟩

/-- While shared expressions are hoisted: the lines declare variables with rising
numbers, the next number is higher than these, and none has a reserved name. -/
structure Numbering (names : List Text) (numbers : List Nat) (w : Writer) : Prop where
  stem : w.stem = ("var" : Text)
  reserved : w.reserved = names
  named : Named w
  declared : Binds (numbers.map (numbered "var")) w
  rising : numbers.Pairwise (· < ·)
  below : ∀ k ∈ numbers, k < w.counter
  apart : ∀ k ∈ numbers, numbered "var" k ∉ names

theorem numbering_reserving (hn : names.Nodup) : Numbering names [] (reserving names) where
  stem := rfl
  reserved := rfl
  named := named_reserving hn
  declared := ⟨[], rfl, rfl⟩
  rising := .nil
  below := by simp
  apart := by simp

/-- A shared expression takes the next number that is free, unless it has a
variable. -/
theorem Numbering.hoist {numbers : List Nat} (h : Numbering names numbers w) {x : ExprHandle} {n : Text}
    (he : evalToLocal m x none w = .ok n w') : ∃ numbers', Numbering names numbers' w' := by
  have hnamed := (h.named.hoist he).1
  rcases evalToLocal_none_eq_ok.1 he with ⟨-, rfl⟩ | ⟨-, -, s, -, rfl, rfl⟩
  · exact ⟨numbers, h⟩
  · have hle := le_freeNumber w.stem w.taken w.counter
    have hfree := h.named.fresh_not_reserved
    rw [h.reserved] at hfree
    generalize freeNumber w.stem w.taken w.counter = k at hnamed hle hfree ⊢
    have hname : numbered w.stem k = numbered "var" k := by rw [h.stem]
    rw [hname] at hnamed hfree ⊢
    refine ⟨numbers ++ [k], h.stem, h.reserved, hnamed, ?_, ?_, ?_, ?_⟩
    · rw [List.map_append]
      exact h.declared.push _ _ rfl
    · refine List.pairwise_append.2 ⟨h.rising, List.pairwise_singleton _ _, fun j hj i hi => ?_⟩
      rw [List.mem_singleton.1 hi]
      exact Nat.lt_of_lt_of_le (h.below j hj) hle
    · intro j hj
      rcases List.mem_append.1 hj with hj | hj
      · exact Nat.lt_succ_of_le (Nat.le_trans (Nat.le_of_lt (h.below j hj)) hle)
      · rw [List.mem_singleton.1 hj]
        exact Nat.lt_succ_self k
    · intro j hj
      rcases List.mem_append.1 hj with hj | hj
      · exact h.apart j hj
      · rw [List.mem_singleton.1 hj]
        exact hfree

/-- Hoisting takes numbers only. -/
theorem hoistShared_numbering {roots : List ExprHandle} {numbers : List Nat} (hw : Numbering names numbers w)
    (h : hoistShared m roots w = .ok () w') : ∃ numbers', Numbering names numbers' w' := by
  refine forM_hoistShared (P := fun w => ∃ numbers, Numbering names numbers w) ?_ h ⟨numbers, hw⟩
  rintro x n w₁ w₂ ⟨numbers₁, hw₁⟩ he
  exact hw₁.hoist he

/-- The outputs declare their names, in order, whether their expressions get variables
or have some. -/
theorem bindOutputs_binds (hn : Named w) {outputs : List (Text × ExprHandle)}
    (honce : (outputs.map Prod.fst).Nodup) (hr : ∀ o ∈ outputs, o.1 ∈ w.reserved) (hd : Binds names w)
    (h : (outputs.forM fun o => bindOutput m o.1 o.2) w = .ok () w') :
    Binds (names ++ outputs.map Prod.fst) w' := by
  have hloop := forM_bindOutput (P := fun rest w => ∃ done, outputs = done ++ rest ∧
    Binds (names ++ done.map Prod.fst) w) ?_ honce hn hr h ⟨[], rfl, by simpa using hd⟩
  · obtain ⟨done, rfl, hd'⟩ := hloop
    simpa using hd'
  · rintro name x rest w₁ w₂ hn₁ hname ⟨done, rfl, hd₁⟩ hb
    refine ⟨done ++ [(name, x)], by simp, ?_⟩
    rw [List.map_append, ← List.append_assoc]
    rcases (bindOutput_eq_ok hn₁ hname).1 hb with ⟨n, -, rfl⟩ | ⟨-, -, s, -, rfl⟩
    all_goals exact hd₁.push _ _ rfl

/-- The lines of the outputs bind numbered variables and then the outputs, all with
different names. -/
theorem writeOutputs_binds [Stack] {c : Compiler} {outputs : List (Text × ExprHandle)}
    (h : c.writeOutputs m outputs {} = .ok () w) :
    ∃ numbers : List Nat, numbers.Pairwise (· < ·) ∧ (c.hoist = false → numbers = []) ∧
      Binds (numbers.map (numbered "var") ++ outputs.map Prod.fst) w ∧ (outputs.map Prod.fst).Nodup ∧
      ∀ k ∈ numbers, numbered "var" k ∉ outputs.map Prod.fst := by
  obtain ⟨honce, w₁, hhoist, hbind⟩ := writeOutputs_eq_ok.1 h
  have hstart := numbering_reserving (List.nodup_reverse.2 honce)
  have hnumbers : ∃ numbers, Numbering (outputs.map Prod.fst).reverse numbers w₁ ∧
      (c.hoist = false → numbers = []) := by
    split at hhoist
    · next hc =>
      obtain ⟨numbers, hw⟩ := hoistShared_numbering hstart hhoist
      exact ⟨numbers, hw, fun hc' => absurd hc (by simp [hc'])⟩
    · cases hhoist
      exact ⟨[], hstart, fun _ => rfl⟩
  obtain ⟨numbers, hw, hnone⟩ := hnumbers
  refine ⟨numbers, hw.rising, hnone, bindOutputs_binds hw.named honce ?_ hw.declared hbind, honce, fun k hk => ?_⟩
  · intro o ho
    rw [hw.reserved, List.mem_reverse]
    exact List.mem_map_of_mem ho
  · exact fun hmem => hw.apart k hk (List.mem_reverse.2 hmem)

/-! ## What the lines declare -/

/-- Lines that declare the locals of `V` have their names, and texts that end no
statement if no name does. -/
theorem declares_bindings {V : Bindings} {ss : List Statement} (d : Declares m V ss) {lines : List (Text × Text)}
    (h : ss = bindings lines) : lines.map Prod.fst = V.map Prod.snd ∧
      (m.NamesAre Text.IsUnbroken → (∀ l ∈ lines, l.1.IsUnbroken) → ∀ l ∈ lines, l.2.IsUnbroken) := by
  induction d generalizing lines with
  | nil =>
    obtain rfl : lines = [] := by simpa [bindings] using h.symm
    exact ⟨rfl, by simp⟩
  | @snoc V ss x n t _ r ih =>
    obtain ⟨before, last, rfl, hbefore, hlast⟩ := List.map_eq_append_iff.1 h.symm
    obtain ⟨⟨n', t'⟩, rfl, hline⟩ := List.map_eq_singleton_iff.1 hlast
    cases hline
    obtain ⟨hnames, htexts⟩ := ih hbefore.symm
    refine ⟨by simp [hnames], fun hm hall => ?_⟩
    obtain ⟨hbefore, -⟩ := List.forall_mem_append.1 hall
    refine List.forall_mem_append.2 ⟨htexts hm hbefore, List.forall_mem_singleton.2 (r.unbroken hm fun p hp => ?_)⟩
    have hmem : p.2 ∈ before.map Prod.fst := hnames ▸ List.mem_map_of_mem hp
    obtain ⟨l, hl, hname⟩ := List.mem_map.1 hmem
    exact hname ▸ hbefore l hl

/-- The lines of the outputs declare the first words of their names. -/
theorem declared_bindings {V : Bindings} (d : Declares m V w.statements.toList) {names : List Text} (hw : Binds names w)
    (hm : m.NamesAre Text.IsUnbroken) (hnames : ∀ n ∈ names, n.IsUnbroken) :
    w.code.declared = names.filterMap Text.word? := by
  obtain ⟨lines, hlines, rfl⟩ := hw
  have hfirst := List.forall_mem_map.1 hnames
  have hsecond := (declares_bindings d hlines).2 hm hfirst
  rw [Writer.declared_code, hlines, bindings, List.flatMap_map, List.filterMap_map, List.filterMap_eq_flatMap_toList]
  exact List.flatMap_congr fun l hl => Statement.declared_binding (hfirst l hl) (hsecond l hl)

/-- The name of a numbered variable is a word. -/
theorem isWord_numbered (k : Nat) : (numbered "var" k).IsWord := by
  refine ⟨by simp [numbered], fun g hg => ?_⟩
  have hglyphs : (numbered "var" k).glyphs = ("var" : Text).glyphs ++ (toString k : Text).glyphs := rfl
  rw [hglyphs, List.mem_append, Text.glyphs_ofString, Text.glyphs_ofString] at hg
  rcases hg with hg | hg
  · revert g
    decide
  · obtain ⟨c, hc, rfl⟩ := List.mem_map.1 hg
    have hdigit : c.isDigit := Nat.isDigit_of_mem_toDigits (by decide) (by decide) (Nat.toList_repr ▸ hc)
    simp [Glyph.inWord, Char.isAlphanum, hdigit]

theorem filterMap_word? {names : List Text} (h : ∀ n ∈ names, n.IsWord) : names.filterMap Text.word? = names := by
  rw [List.filterMap_congr fun n hn => (h n hn).word?, List.filterMap_some]

/-- The names in the module of an effect: those of the properties, and of registered
attributes. -/
theorem Compiles.namesAre [Stack] {c : Compiler} (hr : c.registry = Registry.builtin) {d : Definition} {s : Stages}
    {effect : Effect} (h : Compiles c d s effect) {P : Text → Prop} (hproperties : ∀ p ∈ d.properties, P p.1)
    (hattributes : ∀ a ∈ Attribute.all, P a.name) : s.evaluated.NamesAre P := by
  obtain ⟨ns, ev⟩ := h.exists_evaluated hr
  obtain ⟨nodes, pairs, hbuilt⟩ := construct_eq_ok.1 h.built
  rw [hr] at hbuilt
  constructor
  · intro n hn
    rw [Module.propertyNames, ev.wired.properties] at hn
    obtain ⟨q, hq, rfl⟩ := List.mem_map.1 hn
    obtain ⟨p, hp, rfl⟩ : ∃ p ∈ d.properties, Property.mk p.1 p.2 = q := by simpa [Module.ofProperties] using hq
    exact hproperties p hp
  · intro n hn
    obtain ⟨e, he, hname⟩ := List.mem_filterMap.1 hn
    split at hname
    · next a =>
      cases hname
      have hread : a ∈ attributesRead s.evaluated := List.mem_filterMap.2 ⟨_, he, rfl⟩
      obtain ⟨-, -, -, -, k, -, -, -, hnode⟩ := ev.mem_attributesRead_iff.1 hread
      exact hattributes a (hbuilt.mem_all hnode)
    · cases hname

theorem Attribute.inline_name : ∀ a ∈ Attribute.all, a.name.IsInline := by
  decide

end Compiler
end EffectGraph
