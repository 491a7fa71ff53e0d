import EffectGraph.Proofs.Effect.Lines
import EffectGraph.Proofs.Effect.Stages
import Mathlib

/-!
# The code of the outputs means what the outputs are

Before the modifiers add theirs, the code is a sequence of `let` lines. Each of
them declares a local that stands for an expression, and its right side is a
text of that expression which uses only locals declared before it
(`Declares`); the last lines are the outputs, in order (`compile_declares`).
`Declaring m V w` is what holds while these lines are written.
-/

namespace EffectGraph.Compiler

open Writer

/-- All lines so far declare the locals of `V`, those of the writer among them. -/
structure Declaring (m : Module) (V : Bindings) (w : Writer) : Prop where
  faithful : Faithful m w
  named : Named w
  lines : Declares m V w.statements.toList
  known : ∀ p ∈ w.locals, p ∈ V

theorem declaring_reserving (m : Module) {names : List Text} (hn : names.Nodup) :
    Declaring m [] (reserving names) where
  faithful := (faithful_new m "var").of_same rfl rfl
  named := named_reserving hn
  lines := .nil
  known := by simp [reserving]

namespace Declaring

variable {m : Module} {V : Bindings} {w : Writer}

/-- A new local of the writer is a new line. -/
theorem withLocal (d : Declaring m V w) {h : ExprHandle} (hh : w.rendering.contains h)
    (hl : ∀ n, (h, n) ∉ w.locals) {n : Text} (hfree : ∀ p ∈ w.locals, p.2 ≠ n) (hr : n ∉ w.reserved) :
    Declaring m (V ++ [(h, n)]) (w.withLocal h n) where
  faithful := d.faithful.withLocal hh hl n
  named := d.named.withLocal hfree hr
  lines := by
    unfold Writer.withLocal
    rw [Array.toList_push]
    exact .snoc d.lines ((d.faithful.renders_text hh).mono (.refl m) d.known)
  known := by
    intro p hp
    rcases List.mem_append.1 hp with hp | hp
    · exact List.mem_append_left _ (d.known p hp)
    · exact List.mem_append_right _ hp

/-- A shared expression gets a line of its own, unless it has one. -/
theorem hoist (d : Declaring m V w) {h : ExprHandle} {n : Text} {w' : Writer}
    (he : evalToLocal m h none w = .ok n w') : ∃ U, Declaring m (V ++ U) w' := by
  rcases evalToLocal_none_eq_ok.1 he with ⟨-, rfl⟩ | ⟨hl, -, s, hwork, rfl, rfl⟩
  · exact ⟨[], by rwa [List.append_nil]⟩
  · obtain ⟨st, hs⟩ := Rendering.steps_of_work hwork
    have d₁ : Declaring m V { w with
        arena := some m.key
        rendering := s
        counter := freeNumber w.stem w.taken w.counter + 1 } :=
      ⟨(d.faithful.steps st).of_same rfl rfl, d.named.of_same rfl rfl rfl, d.lines, d.known⟩
    exact ⟨_, d₁.withLocal hs (lookup_eq_none hl) d.named.fresh_not_local d.named.fresh_not_reserved⟩

/-- An output gets a line with its name: a local of its own, or one that stands
for the local its expression has. -/
theorem output (d : Declaring m V w) {h : ExprHandle} {name : Text} {w' : Writer} (hr : name ∈ w.reserved)
    (hb : bindOutput m name h w = .ok () w') : Declaring m (V ++ [(h, name)]) w' := by
  rcases (bindOutput_eq_ok d.named hr).1 hb with ⟨n, hl, rfl⟩ | ⟨hl, -, s, hwork, rfl⟩
  · refine ⟨d.faithful.of_same rfl rfl, d.named.of_same rfl rfl rfl, ?_, ?_⟩
    · rw [Array.toList_push]
      exact .snoc d.lines (.name (d.known _ (mem_of_lookup hl)))
    · exact fun p hp => List.mem_append_left _ (d.known p hp)
  · obtain ⟨st, hs⟩ := Rendering.steps_of_work hwork
    have d₁ : Declaring m V { w with
        arena := some m.key
        rendering := s
        reserved := w.reserved.erase name } :=
      ⟨(d.faithful.steps st).of_same rfl rfl, (d.named.erase name).of_same rfl rfl rfl, d.lines, d.known⟩
    refine d₁.withLocal hs (lookup_eq_none hl) ?_ d.named.reserved_once.not_mem_erase
    rintro p hp rfl
    exact d.named.apart p hp hr

end Declaring

/-! ## The two loops -/

/-- Hoisting writes lines. -/
theorem hoistShared_declares {m : Module} {roots : List ExprHandle} {V : Bindings} {w w' : Writer}
    (d : Declaring m V w) (h : hoistShared m roots w = .ok () w') : ∃ U, Declaring m U w' := by
  refine forM_hoistShared (P := fun w => ∃ U, Declaring m U w) ?_ h ⟨V, d⟩
  rintro x n w₁ w₂ ⟨U, d₁⟩ he
  obtain ⟨U', d₂⟩ := d₁.hoist he
  exact ⟨_, d₂⟩

/-- Each output gets the next line. -/
theorem bind_outputs {m : Module} {outputs : List (Text × ExprHandle)} {V : Bindings} {w w' : Writer}
    (d : Declaring m V w) (hn : (outputs.map Prod.fst).Nodup) (hr : ∀ o ∈ outputs, o.1 ∈ w.reserved)
    (h : (outputs.forM fun o => bindOutput m o.1 o.2) w = .ok () w') :
    Declaring m (V ++ outputs.map Prod.swap) w' := by
  have hloop := forM_bindOutput (P := fun rest w => ∃ done, outputs = done ++ rest ∧
    Declaring m (V ++ done.map Prod.swap) w) ?_ hn d.named hr h ⟨[], rfl, by simpa using d⟩
  · obtain ⟨done, rfl, d'⟩ := hloop
    simpa using d'
  · rintro name x rest w₁ w₂ - hname ⟨done, rfl, d₁⟩ hb
    refine ⟨done ++ [(name, x)], by simp, ?_⟩
    rw [List.map_append, ← List.append_assoc]
    exact d₁.output hname hb

/-- The lines of the outputs come last, after those of shared expressions. -/
theorem writeOutputs_declares [Stack] {c : Compiler} {m : Module} {outputs : List (Text × ExprHandle)} {w : Writer}
    (h : c.writeOutputs m outputs {} = .ok () w) :
    ∃ V, Declaring m (V ++ outputs.map Prod.swap) w ∧ (outputs.map Prod.fst).Nodup := by
  obtain ⟨hnames, w₁, hhoist, hbind⟩ := writeOutputs_eq_ok.1 h
  obtain ⟨-, hreserved⟩ := hoisted_named hnames hhoist
  have d₀ := declaring_reserving m (List.nodup_reverse.2 hnames)
  have hhoisted : ∃ V, Declaring m V w₁ := by
    split at hhoist
    · exact hoistShared_declares d₀ hhoist
    · cases hhoist
      exact ⟨[], d₀⟩
  obtain ⟨V, d₁⟩ := hhoisted
  exact ⟨V, bind_outputs d₁ hnames hreserved hbind, hnames⟩

/-- Lines added to the code leave what is before them. -/
theorem code_prefix {w w' : Writer} (h : w.statements.toList <+: w'.statements.toList) :
    ∃ rest, w'.code = w.code ++ rest := by
  obtain ⟨ss, hss⟩ := h
  refine ⟨⟨ss.flatMap fun s => (s.text ++ ("\n" : Text)).glyphs⟩, Text.glyphs_injective ?_⟩
  simp only [Writer.code, ← hss, List.flatMap_append, Text.glyphs_append]

/-- Compilation keeps the meaning of a definition. The code starts with lines
that declare locals one after the other, the last of them the outputs, in order
and with their expressions; the code of the modifiers follows. -/
theorem compile_declares [Stack] (registry : Registry) (hoist : Bool) (d : Definition) (effect : Effect)
    (h : Compiler.compile { registry := registry, hoist := hoist } d = .ok effect) :
    ∃ s V, Compiles { registry := registry, hoist := hoist } d s effect ∧
      (∃ rest, effect.code = s.written.code ++ rest) ∧
      Declares effect.module (V ++ effect.outputs.map Prod.swap) s.written.statements.toList ∧
      effect.outputs.map Prod.fst = d.outputs.map Prod.fst ∧ (effect.outputs.map Prod.fst).Nodup := by
  obtain ⟨s, hs⟩ := compile_eq_ok.1 h
  obtain ⟨V, dw, hnames⟩ := writeOutputs_declares (run_eq_ok.1 hs.written)
  obtain ⟨hgrows, hlines⟩ := applyModifiers_extends rfl (run_eq_ok.1 hs.modified)
  refine ⟨s, V, hs, ?_, dw.lines.grow hgrows, hs.names, hnames⟩
  rw [hs.effect]
  exact code_prefix hlines

/-- An effect whose outputs share an expression. -/
def sharedDirection : Definition where
  name := "shared direction"
  nodes := [{ id := "v", type := "Attribute", params := [(.str "attribute", .str "velocity")] },
    { id := "n", type := "Normalize" }, { id := "s", type := "Add" }]
  links := [⟨"v.velocity", "n.in"⟩, ⟨"n.out", "s.lhs"⟩, ⟨"n.out", "s.rhs"⟩]
  outputs := [("sum", "s.result"), ("direction", "n.out")]

open scoped EffectGraph.Stack.Usual in
theorem compile_declares_sharedDirection : ∃ effect, Compiler.compile {} sharedDirection = .ok effect ∧
    effect.code = "let var0 = normalize(particle.velocity);\nlet sum = (var0) + (var0);\nlet direction = var0;\n" ∧
    ∃ s V, Compiles {} sharedDirection s effect ∧ (∃ rest, effect.code = s.written.code ++ rest) ∧
      Declares effect.module (V ++ effect.outputs.map Prod.swap) s.written.statements.toList ∧
      effect.outputs.map Prod.fst = ["sum", "direction"] ∧ (effect.outputs.map Prod.fst).Nodup := by
  have hcode : (Compiler.compile {} sharedDirection).toOption.map (·.code) =
      some ("let var0 = normalize(particle.velocity);\nlet sum = (var0) + (var0);\nlet direction = var0;\n" : Text) := by
    cbv
  cases h : Compiler.compile {} sharedDirection with
  | error e =>
    rw [h] at hcode
    cases hcode
  | ok effect =>
    rw [h] at hcode
    exact ⟨effect, rfl, Option.some.inj hcode, compile_declares Registry.builtin true sharedDirection effect h⟩

end EffectGraph.Compiler
