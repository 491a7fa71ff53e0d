import EffectGraph.Config.Merge
import EffectGraph.Proofs.Effect.Locals

/-!
# Locals and the names of shader code

Rendered expressions and the blocks of modifiers refer to a few names that the
shader has from elsewhere (`globalNames`, `Expr.render_global`). A numbered
variable has none of them, and modifiers declare nothing (`declared_finished`), so
code declares one of these names just if the name of an output begins with it
(`compile_captures_iff`). Nothing keeps a file from doing that
(`compile_captures_heading`).
-/

namespace EffectGraph

/-- The roots of what expressions and modifiers read, and the functions that they
call. -/
def globalNames : List Text :=
  ["particle", "sim_params", "properties"].map Text.ofString ++
    ((BinaryOp.all.filter (·.infix?.isNone)).map BinaryOp.name ++ UnaryOp.every.map UnaryOp.name).map Text.ofString

/-- The name from elsewhere that an expression is written with. -/
def Expr.global? : Expr → Option Text
  | .literal _ => none
  | .attribute _ => some ("particle" : Text)
  | .builtin _ => some ("sim_params" : Text)
  | .property _ => some ("properties" : Text)
  | .binary op _ _ => if op.infix?.isNone then some (op.name : Text) else none
  | .unary op _ => some (op.name : Text)

theorem Expr.global_mem {e : Expr} {g : Text} (h : e.global? = some g) : g ∈ globalNames := by
  have hoperator : ∀ {name : String}, name ∈ (BinaryOp.all.filter (·.infix?.isNone)).map BinaryOp.name ++
      UnaryOp.every.map UnaryOp.name → (name : Text) ∈ globalNames :=
    fun hname => List.mem_append_right _ (List.mem_map_of_mem hname)
  cases e with
  | literal v => cases h
  | binary op l r =>
    obtain ⟨hnone, hname⟩ := Option.ite_none_right_eq_some.1 h
    obtain rfl := Option.some.inj hname
    exact hoperator (List.mem_append_left _ (List.mem_map_of_mem (List.mem_filter.2 ⟨op.mem_all, hnone⟩)))
  | unary op x =>
    cases h
    exact hoperator (List.mem_append_right _ (List.mem_map_of_mem op.mem_every))
  | _ =>
    cases h
    exact List.mem_append_left _ (List.mem_map_of_mem (by decide))

/-- The text of an expression begins with the name, read from or called. -/
theorem Expr.render_global {e : Expr} {g : Text} (h : e.global? = some g) {m : Module} {texts : List Text}
    {t : Text} (ht : e.render m texts = .ok t) : ∃ rest : Text, t = g ++ "." ++ rest ∨ t = g ++ "(" ++ rest := by
  match e with
  | .literal v => cases h
  | .attribute a =>
    cases h
    cases ht
    exact ⟨a.name, .inl rfl⟩
  | .builtin b =>
    cases h
    cases ht
    exact ⟨b.name, .inl (by cases b <;> rfl)⟩
  | .property p =>
    cases h
    obtain ⟨q, -, ht⟩ := Except.bind_eq_ok.1 ht
    cases ht
    exact ⟨q.name, .inl rfl⟩
  | .binary op l r =>
    obtain ⟨hnone, hname⟩ := Option.ite_none_right_eq_some.1 h
    obtain rfl := Option.some.inj hname
    cases ht
    refine ⟨texts.getD 0 "" ++ ", " ++ texts.getD 1 "" ++ ")", .inr (Text.glyphs_injective ?_)⟩
    simp [BinaryOp.render, Option.isNone_iff_eq_none.1 hnone]
  | .unary op x =>
    cases h
    cases ht
    refine ⟨texts.getD 0 "" ++ ")", .inr (Text.glyphs_injective ?_)⟩
    simp [UnaryOp.render]

/-- No number makes one of the names. -/
theorem Writer.numbered_not_mem_globalNames (k : Nat) : numbered "var" k ∉ globalNames := by
  have hstem : ∀ g ∈ globalNames, ¬("var" : Text).glyphs <+: g.glyphs := by decide
  exact fun hmem => hstem _ hmem (List.prefix_append _ _)

namespace Compiler

open Writer

/-- Modifiers add nothing to what the lines of the outputs declare. -/
theorem declared_finished [Stack] {hoist : Bool} {d : Definition} {s : Stages} {effect : Effect}
    (h : Compiles { hoist := hoist } d s effect) (hproperties : ∀ p ∈ d.properties, p.1.IsUnbroken) :
    effect.code.declared = s.written.code.declared := by
  have hmodified := run_eq_ok.1 h.modified
  obtain ⟨lines, touched, hlines, happly⟩ :=
    applyModifiers_makes (c := { hoist := hoist }) rfl (makes_of_applyModifiers rfl hmodified)
  obtain ⟨es, m, w, hrun, -, -, hstatements⟩ := happly _ _ (List.Subset.refl _) (h.ready rfl)
  rw [hmodified, EStateM.Result.ok.injEq, Prod.mk.injEq] at hrun
  obtain ⟨-, -, rfl⟩ := hrun
  have hcode : effect.code = s.finished.code := congrArg Effect.code h.effect
  have hm := h.namesAre rfl hproperties fun a ha => (Attribute.inline_name a ha).unbroken
  have hnone : lines.flatMap (fun s => s.text.declared) = [] := by
    rw [List.flatMap_eq_nil_iff]
    intro line hline
    obtain ⟨modifier, -, t, hmakes, hline⟩ := hlines line hline
    obtain ⟨l, hl, rfl⟩ := List.mem_map.1 hline
    exact Modifier.declared_originLines (hmakes.unbroken hm.properties) l hl
  rw [hcode, Writer.declared_code, Writer.declared_code, hstatements, List.flatMap_append, hnone, List.append_nil]

/-- If no name of an output or a property ends a statement or opens a comment, code
declares numbered variables, and the first words of the names of outputs. So of the
names that expressions and modifiers refer to, it declares those that the name of an
output begins with, and no other: outputs that are named by words must be named so.
The names with which the texts of the expressions begin are among these. -/
theorem compile_captures_iff [Stack] (hoist : Bool) (d : Definition) (effect : Effect)
    (h : compile { hoist := hoist } d = .ok effect) (houtputs : ∀ o ∈ d.outputs, o.1.IsInline)
    (hproperties : ∀ p ∈ d.properties, p.1.IsInline) :
    (∃ numbers : List Nat,
      effect.code.declared = numbers.map (numbered "var") ++ (d.outputs.map Prod.fst).filterMap Text.word?) ∧
      (∀ g ∈ globalNames, g ∈ effect.code.declared ↔ ∃ o ∈ d.outputs, o.1.word? = some g) ∧
      ((∀ o ∈ d.outputs, o.1.IsWord) →
        ∀ g ∈ globalNames, g ∈ effect.code.declared ↔ g ∈ d.outputs.map Prod.fst) ∧
      ∀ x e g, effect.module.get x = .ok e → e.global? = some g → g ∈ globalNames ∧
        ∀ texts t, e.render effect.module texts = .ok t →
          ∃ rest : Text, t = g ++ "." ++ rest ∨ t = g ++ "(" ++ rest := by
  obtain ⟨s, hs⟩ := compile_eq_ok.1 h
  have hwritten := run_eq_ok.1 hs.written
  obtain ⟨numbers, -, -, hbinds, -, -⟩ := writeOutputs_binds hwritten
  obtain ⟨V, dw, -⟩ := writeOutputs_declares hwritten
  rw [hs.names] at hbinds
  have hunbroken : ∀ n ∈ numbers.map (numbered "var") ++ d.outputs.map Prod.fst, n.IsUnbroken :=
    List.forall_mem_append.2 ⟨List.forall_mem_map.2 fun k _ => (isWord_numbered k).inline.unbroken,
      List.forall_mem_map.2 fun o ho => (houtputs o ho).unbroken⟩
  have hm : s.evaluated.NamesAre Text.IsUnbroken :=
    hs.namesAre rfl (fun p hp => (hproperties p hp).unbroken) fun a ha => (Attribute.inline_name a ha).unbroken
  have hdeclared : effect.code.declared =
      numbers.map (numbered "var") ++ (d.outputs.map Prod.fst).filterMap Text.word? := by
    rw [declared_finished hs fun p hp => (hproperties p hp).unbroken, declared_bindings dw.lines hbinds hm hunbroken,
      List.filterMap_append, filterMap_word? (List.forall_mem_map.2 fun k _ => isWord_numbered k)]
  have hiff : ∀ g ∈ globalNames, g ∈ effect.code.declared ↔ g ∈ (d.outputs.map Prod.fst).filterMap Text.word? := by
    intro g hg
    rw [hdeclared, List.mem_append, or_iff_right]
    intro hmem
    obtain ⟨k, -, rfl⟩ := List.mem_map.1 hmem
    exact numbered_not_mem_globalNames k hg
  refine ⟨⟨numbers, hdeclared⟩, fun g hg => ?_, fun hwords g hg => ?_,
    fun x e g _ hg => ⟨e.global_mem hg, fun texts t ht => e.render_global hg ht⟩⟩
  · rw [hiff g hg]
    simp
  · rw [hiff g hg, filterMap_word? (List.forall_mem_map.2 hwords)]

/-- A definition that names an output like the particle, before it reads the
velocity of the particle. -/
def namedParticle : Definition where
  name := "default"
  nodes := [{ id := "p", type := "Attribute", params := [(.str "attribute", .str "position")] },
    { id := "v", type := "Attribute", params := [(.str "attribute", .str "velocity")] },
    { id := "n", type := "Normalize" }]
  links := [⟨"v.velocity", "n.in"⟩]
  outputs := [("particle", "p.position"), ("heading", "n.out")]

open scoped EffectGraph.Stack.Usual in
theorem compile_captures_iff_namedParticle : ∃ effect, compile {} namedParticle = .ok effect ∧
    ("particle" : Text) ∈ effect.code.declared ∧ ("normalize" : Text) ∉ effect.code.declared := by
  have hcode : (compile {} namedParticle).toOption.isSome = true := by
    cbv
  obtain ⟨effect, heffect⟩ := Option.isSome_iff_exists.1 hcode
  have heffect := Except.toOption_eq_some.1 heffect
  obtain ⟨-, -, hiff, -⟩ := compile_captures_iff true namedParticle effect heffect (by decide) (by decide)
  refine ⟨effect, heffect, (hiff (by decide) "particle" (by decide)).2 (by decide), ?_⟩
  exact fun hmem => absurd ((hiff (by decide) "normalize" (by decide)).1 hmem) (by decide)

/-- A file for that definition. -/
def namedParticleFile : Config.GraphConfig where
  name := "default"
  nodes := namedParticle.nodes
  links := namedParticle.links
  outputs := [⟨"particle", "p.position"⟩, ⟨"heading", "n.out"⟩]

open scoped EffectGraph.Stack.Usual in
/-- The file is accepted and compiles, and the particle of the second line is the
local of the first one. -/
theorem compile_captures_heading :
    Config.merge "default" [namedParticleFile] = .ok namedParticle ∧ ("particle" : Text) ∈ globalNames ∧
    ∃ effect, compile {} namedParticle = .ok effect ∧ effect.code =
      "let particle = particle.position;\nlet heading = normalize(particle.velocity);\n" ∧
      ("particle" : Text) ∈ effect.code.declared := by
  have hcode : (compile {} namedParticle).toOption.map (·.code) =
      some ("let particle = particle.position;\nlet heading = normalize(particle.velocity);\n" : Text) := by
    cbv
  simp only [Option.map_eq_some_iff, Except.toOption_eq_some] at hcode
  obtain ⟨effect, heffect, hcode⟩ := hcode
  have hdeclared : effect.code.declared = [("particle" : Text), ("heading" : Text)] := by
    rw [hcode]
    cbv
  exact ⟨by cbv, by decide, effect, heffect, hcode, hdeclared ▸ List.mem_cons_self⟩

end Compiler
end EffectGraph
