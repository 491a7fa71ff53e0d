import EffectGraph.Proofs.Effect.Statements
import EffectGraph.Proofs.Writer.Sparing
import Mathlib

/-!
# Hoisting removes duplication

Shared expressions are hoisted in an order that puts the parts of an expression
before it (`mem_kept_before`), so each is rendered when all that is shared in it
has a variable, and the outputs are rendered after all of them. The lines that
come out write nothing twice (`Unrepeated`, `compile_unrepeated`).
-/

namespace EffectGraph.Compiler

open Writer

variable {m : Module} {roots all : List ExprHandle}

/-- The shared expressions, in the order in which they are hoisted: what is shared
of an expression comes before it. -/
theorem mem_kept_before (s : m.Spans roots all) {done rest : List ExprHandle} {x y c : ExprHandle}
    (hkept : (all.filter fun h => 1 < m.uses roots all h && m.isComposite h) = done ++ x :: rest)
    (hy : m.Reaches x y) (hc : c ∈ m.operands y) (hshared : m.Shared roots all c) : c ∈ done := by
  obtain ⟨before, after, hall, hbefore⟩ := exists_split_of_filter hkept
  exact hbefore c (s.mem_before hall hy hc) (by simpa [Module.Shared] using hshared)

/-- Hoisting `kept`, under way: all but `rest` have a line each, with a numbered
variable of their own. -/
structure Hoisting (m : Module) (Shared : ExprHandle → Prop) (kept rest : List ExprHandle) (lines : List Line)
    (w : Writer) : Prop where
  handles : kept = lines.map Line.handle ++ rest
  stem : w.stem = ("var" : Text)
  sparing : Sparing m Shared lines w
  names : ∀ l ∈ lines, l.spelled ≠ [] ∧ ∃ k, l.name = numbered "var" k

namespace Hoisting

variable {Shared : ExprHandle → Prop} {kept rest : List ExprHandle} {lines : List Line} {w w' : Writer}

/-- The next expression gets a line, if what is shared in it has one. -/
theorem step {x : ExprHandle} (g : Hoisting m Shared kept (x :: rest) lines w) (honce : kept.Nodup)
    (hparts : ∀ y c, m.Reaches x y → c ∈ m.operands y → Shared c → c ∈ lines.map Line.handle) {n : Text}
    (h : evalToLocal m x none w = .ok n w') : ∃ l, Hoisting m Shared kept rest (lines ++ [l]) w' := by
  have hnew : x ∉ lines.map Line.handle := by
    rw [g.handles] at honce
    exact fun hm => (List.nodup_append.1 honce).2.2 x hm x List.mem_cons_self rfl
  have hfree : ∀ n, (x, n) ∉ w.locals := fun n hn => hnew (g.sparing.exists_local_iff_mem_handles.1 ⟨n, hn⟩)
  rcases evalToLocal_none_eq_ok.1 h with ⟨hl, -⟩ | ⟨-, -, s, hwork, rfl, rfl⟩
  · exact absurd (mem_of_lookup hl) (hfree n)
  · obtain ⟨ops, hne, sp⟩ := g.sparing.withLocal hwork hfree
      (fun y c hy hc hshared => g.sparing.exists_local_iff_mem_handles.2 (hparts y c hy hc hshared)) { w with
        arena := some m.key
        rendering := s
        counter := freeNumber w.stem w.taken w.counter + 1 } rfl rfl rfl
        (numbered w.stem (freeNumber w.stem w.taken w.counter))
    refine ⟨_, by rw [g.handles]; simp, g.stem, sp, ?_⟩
    exact List.forall_mem_append.2 ⟨g.names, List.forall_mem_singleton.2 ⟨hne, _, by rw [g.stem]⟩⟩

end Hoisting

/-- Hoisting gives each shared expression a line with a variable of its own. -/
theorem hoistShared_sparing (hroots : ∀ r ∈ roots, r.index < m.size) {names : List Text} {w : Writer}
    (h : hoistShared m roots (reserving names) = .ok () w) :
    ∃ all lines, m.Spans roots all ∧ Sparing m (m.Shared roots all) lines w ∧
      (lines.map Line.handle).Nodup ∧ (∀ x, x ∈ lines.map Line.handle ↔ m.Shared roots all x) ∧
      ∀ l ∈ lines, l.spelled ≠ [] ∧ ∃ k, l.name = numbered "var" k := by
  obtain ⟨all, s, hshared⟩ := Module.shared_eq hroots
  unfold hoistShared at h
  rw [hshared] at h
  generalize hkept : (all.filter fun h => 1 < m.uses roots all h && m.isComposite h) = kept at h
  have honce : kept.Nodup := hkept ▸ s.once.filter _
  have hmem : ∀ x, x ∈ kept ↔ m.Shared roots all x := by
    intro x
    rw [← hkept, List.mem_filter, Bool.and_eq_true, decide_eq_true_eq]
    exact ⟨fun h => h.2, fun h => ⟨s.mem_iff_uses.2 (Nat.lt_of_succ_lt h.1), h⟩⟩
  obtain ⟨lines, g⟩ := forM_ok (P := fun rest w => ∃ lines, Hoisting m (m.Shared roots all) kept rest lines w) (by
    rintro x rest w₁ w₂ ⟨lines, g⟩ hx
    obtain ⟨n, w₃, he, hx⟩ := EStateM.bind_eq_ok.1 hx
    cases hx
    obtain ⟨l, g'⟩ := g.step honce (fun y c => mem_kept_before s (hkept.trans g.handles)) he
    exact ⟨_, g'⟩) h ⟨[], rfl, rfl, sparing_reserving m _ names, by simp⟩
  have hlines : kept = lines.map Line.handle := by simpa using g.handles
  exact ⟨all, lines, s, g.sparing, hlines ▸ honce, hlines ▸ hmem, g.names⟩

/-- Binding `outputs`, under way: all but `rest` have a line each, and those that
write an expression out are not of a shared one, as these have a variable. -/
structure Binding (m : Module) (Shared : ExprHandle → Prop) (hoisted : List Line)
    (outputs rest : List (Text × ExprHandle)) (outs : List Line) (w : Writer) : Prop where
  outputs : outputs = (outs.map fun l => (l.name, l.handle)) ++ rest
  sparing : Sparing m Shared (hoisted ++ outs) w
  spelled : ∀ l ∈ outs, l.spelled ≠ [] → ¬Shared l.handle
  shared : ∀ x, Shared x → ∃ n, (x, n) ∈ w.locals

/-- The next output gets a line: one that writes its expression out, if that has no
local, and otherwise one that stands for the local. -/
theorem Binding.step {Shared : ExprHandle → Prop} {hoisted outs : List Line} {outputs rest : List (Text × ExprHandle)}
    {name : Text} {x : ExprHandle} {w w' : Writer} (g : Binding m Shared hoisted outputs ((name, x) :: rest) outs w)
    (hn : Named w) (hr : name ∈ w.reserved) (h : bindOutput m name x w = .ok () w') :
    ∃ l, Binding m Shared hoisted outputs rest (outs ++ [l]) w' := by
  rcases (bindOutput_eq_ok hn hr).1 h with ⟨n, hl, rfl⟩ | ⟨hl, -, s, hwork, rfl⟩
  · refine ⟨⟨x, name, n, []⟩, by simp [g.outputs], ?_, ?_, g.shared⟩
    · rw [← List.append_assoc]
      exact g.sparing.push (mem_of_lookup hl) name
    · exact List.forall_mem_append.2 ⟨g.spelled, List.forall_mem_singleton.2 fun hne => absurd rfl hne⟩
  · have hfree := lookup_eq_none hl
    obtain ⟨ops, -, sp⟩ := g.sparing.withLocal hwork hfree (fun _ c _ _ => g.shared c) { w with
      arena := some m.key
      rendering := s
      reserved := w.reserved.erase name } rfl rfl rfl name
    refine ⟨⟨x, name, s.text x, ops⟩, by simp [g.outputs], ?_, ?_, fun y hy => ?_⟩
    · rw [← List.append_assoc]
      exact sp
    · refine List.forall_mem_append.2 ⟨g.spelled, List.forall_mem_singleton.2 fun _ hshared => ?_⟩
      obtain ⟨n, hn⟩ := g.shared x hshared
      exact hfree n hn
    · obtain ⟨n, hn⟩ := g.shared y hy
      exact ⟨n, List.mem_append_left _ hn⟩

/-- Binding the outputs gives each of them a line. -/
theorem bindOutputs_sparing {Shared : ExprHandle → Prop} {hoisted : List Line} {outputs : List (Text × ExprHandle)}
    {w w' : Writer} (hn : Named w) (honce : (outputs.map Prod.fst).Nodup) (hr : ∀ o ∈ outputs, o.1 ∈ w.reserved)
    (sp : Sparing m Shared hoisted w) (hs : ∀ x, Shared x → ∃ n, (x, n) ∈ w.locals)
    (h : (outputs.forM fun o => bindOutput m o.1 o.2) w = .ok () w') :
    ∃ outs, outputs = (outs.map fun l => (l.name, l.handle)) ∧ Sparing m Shared (hoisted ++ outs) w' ∧
      ∀ l ∈ outs, l.spelled ≠ [] → ¬Shared l.handle := by
  have hloop := forM_bindOutput (P := fun rest w => ∃ outs, Binding m Shared hoisted outputs rest outs w) ?_ honce hn hr
    h ⟨[], rfl, by rwa [List.append_nil], by simp, hs⟩
  · obtain ⟨outs, g⟩ := hloop
    exact ⟨outs, by simpa using g.outputs, g.sparing, g.spelled⟩
  · rintro name x rest w₁ w₂ hn₁ hname ⟨outs, g⟩ hb
    obtain ⟨l, g'⟩ := g.step hn₁ hname hb
    exact ⟨_, g'⟩

/-- Declared locals hold expressions of the module. -/
theorem index_lt_of_declares {V : Bindings} {ss : List Statement} (d : Declares m V ss) {x : ExprHandle} {n : Text}
    (hx : (x, n) ∈ V) : x.index < m.size := by
  induction d generalizing x n with
  | nil => cases hx
  | snoc _ r ih =>
    rcases List.mem_append.1 hx with hx | hx
    · exact ih hx
    · cases List.mem_singleton.1 hx
      cases r with
      | name hn => exact ih hn
      | expr texts he _ _ => exact (Array.getElem?_eq_some_iff.1 (Module.get_eq_ok_iff.1 he)).1

theorem index_lt_of_writeOutputs [Stack] {c : Compiler} {outputs : List (Text × ExprHandle)} {w : Writer}
    (h : c.writeOutputs m outputs {} = .ok () w) : ∀ r ∈ outputs.map Prod.snd, r.index < m.size := by
  obtain ⟨V, d, -⟩ := writeOutputs_declares h
  intro r hr
  obtain ⟨o, ho, rfl⟩ := List.mem_map.1 hr
  exact index_lt_of_declares d.lines (List.mem_append_right _ (List.mem_map_of_mem (f := Prod.swap) ho))

/-- The lines of the outputs when shared expressions are hoisted. -/
theorem writeOutputs_sparing [Stack] {c : Compiler} (hc : c.hoist) {outputs : List (Text × ExprHandle)} {w : Writer}
    (h : c.writeOutputs m outputs {} = .ok () w) :
    ∃ all hoisted outs, m.Spans (outputs.map Prod.snd) all ∧
      Sparing m (m.Shared (outputs.map Prod.snd) all) (hoisted ++ outs) w ∧ (hoisted.map Line.handle).Nodup ∧
      (∀ x, x ∈ hoisted.map Line.handle ↔ m.Shared (outputs.map Prod.snd) all x) ∧
      (∀ l ∈ hoisted, l.spelled ≠ [] ∧ ∃ k, l.name = numbered "var" k) ∧
      outputs = (outs.map fun l => (l.name, l.handle)) ∧
      ∀ l ∈ outs, l.spelled ≠ [] → ¬m.Shared (outputs.map Prod.snd) all l.handle := by
  have hroots := index_lt_of_writeOutputs h
  obtain ⟨honce, w₁, hhoist, hbind⟩ := writeOutputs_eq_ok.1 h
  obtain ⟨hn, hr⟩ := hoisted_named honce hhoist
  rw [if_pos hc] at hhoist
  obtain ⟨all, hoisted, s, sp, hapart, hmem, hnames⟩ := hoistShared_sparing hroots hhoist
  have hbound : ∀ x, m.Shared (outputs.map Prod.snd) all x → ∃ n, (x, n) ∈ w₁.locals := fun x hx =>
    sp.exists_local_iff_mem_handles.2 ((hmem x).2 hx)
  obtain ⟨outs, houts, sp', hspelled⟩ := bindOutputs_sparing hn honce hr sp hbound hbind
  exact ⟨all, hoisted, outs, s, sp', hapart, hmem, hnames, houts, hspelled⟩

/-- Lines that write the outputs without writing anything twice. `all` are the
expressions that the outputs are made of, and `V` the variables of the lines:
no expression has two, and no two have one name.
The first lines bind the shared expressions, each once and to a numbered variable
of its own; the others are those of the outputs, in order. In all of them a shared
operand is written as its variable, and altogether every expression with operands
is written out once. -/
structure Unrepeated (m : Module) (outputs : List (Text × ExprHandle)) (all : List ExprHandle) (V : Bindings)
    (hoisted outs : List Line) : Prop where
  spans : m.Spans (outputs.map Prod.snd) all
  apart : (V.map Prod.fst).Nodup ∧ (V.map Prod.snd).Nodup
  once : (hoisted.map Line.handle).Nodup
  shared : ∀ x, x ∈ hoisted.map Line.handle ↔ m.Shared (outputs.map Prod.snd) all x
  bound : ∀ l ∈ hoisted, (l.handle, l.name) ∈ V ∧ ∃ k, l.name = numbered "var" k
  lines : ∀ l ∈ hoisted, Writes m V (m.Shared (outputs.map Prod.snd) all) .line l.handle l.text l.spelled
  names : (outs.map fun l => (l.name, l.handle)) = outputs
  writes : ∀ l ∈ outs, Writes m V (m.Shared (outputs.map Prod.snd) all) .operand l.handle l.text l.spelled
  spelled : ∀ x ∈ all, m.isComposite x → ((hoisted ++ outs).flatMap Line.spelled).count x = 1

theorem flatMap_spelled (lines : List Line) :
    lines.flatMap Line.spelled = (lines.filter fun l => !l.spelled.isEmpty).flatMap Line.spelled := by
  induction lines with
  | nil => rfl
  | cons l lines ih =>
    cases hl : l.spelled with
    | nil => simp [hl, ih]
    | cons x xs => simp [hl, ih]

/-- Hoisting shared expressions leaves nothing written twice. -/
theorem writeOutputs_unrepeated [Stack] {c : Compiler} (hc : c.hoist) {outputs : List (Text × ExprHandle)} {w : Writer}
    (h : c.writeOutputs m outputs {} = .ok () w) :
    ∃ all hoisted outs, w.statements.toList = (hoisted ++ outs).map Line.statement ∧
      Unrepeated m outputs all w.locals hoisted outs := by
  obtain ⟨all, hoisted, outs, s, sp, honce, hmem, hnames, houts, hspelled⟩ := writeOutputs_sparing hc h
  obtain ⟨V, d, -⟩ := writeOutputs_declares h
  have hlines : ∀ x, x ∈ (hoisted ++ outs).map Line.handle ↔
      m.Shared (outputs.map Prod.snd) all x ∨ x ∈ outputs.map Prod.snd := by
    intro x
    have hroots : outputs.map Prod.snd = outs.map Line.handle := by
      rw [houts, List.map_map]
      rfl
    rw [← hmem x, ← List.mem_append, hroots, ← List.map_append]
  have hhoisted : ∀ l ∈ hoisted, l ∈ hoisted ++ outs := fun l hl => List.mem_append_left _ hl
  refine ⟨all, hoisted, outs, sp.statements, s, ⟨sp.faithful.once, d.named.locals_once⟩, honce, hmem,
    fun l hl => ⟨sp.bound (hhoisted l hl) (hnames l hl).1, (hnames l hl).2⟩,
    fun l hl => sp.own l (hhoisted l hl) (hnames l hl).1, houts.symm, fun l hl => ?_, fun x hx hcomposite => ?_⟩
  · by_cases hne : l.spelled = []
    · obtain ⟨n, hn, ht⟩ := sp.other l (List.mem_append_right _ hl) hne
      rw [hne, ht]
      exact .name hn
    · exact .inlined (hspelled l hl hne) (sp.own l (List.mem_append_right _ hl) hne)
  · rw [flatMap_spelled]
    exact (sp.covers hlines).count_spelled s hx hcomposite

/-- The same lines, for a module that has grown. -/
theorem Unrepeated.grow {outputs : List (Text × ExprHandle)} {V : Bindings} {hoisted outs : List Line}
    (u : Unrepeated m outputs all V hoisted outs) (hroots : ∀ r ∈ outputs.map Prod.snd, r.index < m.size)
    {m' : Module} (g : m.Grows m') : Unrepeated m' outputs all V hoisted outs := by
  have hshared := u.spans.shared_grow hroots g
  refine ⟨u.spans.grow hroots g, u.apart, u.once, ?_, u.bound, ?_, u.names, ?_, fun x hx hcomposite => ?_⟩
  · rw [hshared]
    exact u.shared
  · rw [hshared]
    exact fun l hl => (u.lines l hl).mono g fun _ hq => hq
  · rw [hshared]
    exact fun l hl => (u.writes l hl).mono g fun _ hq => hq
  · rw [(u.spans.operands_grow hroots g hx).2] at hcomposite
    exact u.spelled x hx hcomposite

/-- Hoisting removes all duplication from the code of the outputs. -/
theorem compile_unrepeated [Stack] (registry : Registry) (d : Definition) (effect : Effect)
    (h : Compiler.compile { registry := registry } d = .ok effect) :
    ∃ s all V hoisted outs, Compiles { registry := registry } d s effect ∧
      (∃ rest, effect.code = s.written.code ++ rest) ∧
      s.written.statements.toList = (hoisted ++ outs).map Line.statement ∧
      Unrepeated effect.module effect.outputs all V hoisted outs := by
  obtain ⟨s, hs⟩ := compile_eq_ok.1 h
  have hwritten := run_eq_ok.1 hs.written
  obtain ⟨all, hoisted, outs, hlines, u⟩ := writeOutputs_unrepeated rfl hwritten
  obtain ⟨hgrows, hcode⟩ := applyModifiers_extends rfl (run_eq_ok.1 hs.modified)
  refine ⟨s, all, _, hoisted, outs, hs, ?_, hlines, u.grow (index_lt_of_writeOutputs hwritten) hgrows⟩
  rw [hs.effect]
  exact code_prefix hcode

/-- Twice the velocity, twice over: four reads if written in full. -/
def fourfoldVelocity : Definition where
  name := "fourfold velocity"
  nodes := [{ id := "v", type := "Attribute", params := [(.str "attribute", .str "velocity")] },
    { id := "n", type := "Normalize" }, { id := "a", type := "Add" }, { id := "b", type := "Add" }]
  links := [⟨"v.velocity", "n.in"⟩, ⟨"n.out", "a.lhs"⟩, ⟨"n.out", "a.rhs"⟩, ⟨"a.result", "b.lhs"⟩,
    ⟨"a.result", "b.rhs"⟩]
  outputs := [("out", "b.result")]

open scoped EffectGraph.Stack.Usual in
theorem compile_unrepeated_fourfoldVelocity : ∃ effect, Compiler.compile {} fourfoldVelocity = .ok effect ∧
    effect.code = "let var0 = normalize(particle.velocity);\nlet var1 = (var0) + (var0);\nlet out = (var1) + (var1);\n" ∧
    ∃ s all V hoisted outs, Compiles {} fourfoldVelocity s effect ∧
      (∃ rest, effect.code = s.written.code ++ rest) ∧
      s.written.statements.toList = (hoisted ++ outs).map Line.statement ∧
      Unrepeated effect.module effect.outputs all V hoisted outs := by
  have hcode : (Compiler.compile {} fourfoldVelocity).toOption.map (·.code) =
      some ("let var0 = normalize(particle.velocity);\nlet var1 = (var0) + (var0);\nlet out = (var1) + (var1);\n" : Text) := by
    cbv
  simp only [Option.map_eq_some_iff, Except.toOption_eq_some] at hcode
  obtain ⟨effect, heffect, hcode⟩ := hcode
  exact ⟨effect, heffect, hcode, compile_unrepeated Registry.builtin fourfoldVelocity effect heffect⟩

end EffectGraph.Compiler
