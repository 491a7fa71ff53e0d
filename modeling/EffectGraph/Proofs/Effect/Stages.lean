import EffectGraph.Effect
import EffectGraph.Proofs.Graph.Building
import EffectGraph.Proofs.Writer.Texts

/-!
# The stages of a compilation

`compile_eq_ok` takes a successful compilation apart into its stages: what each
one returned is kept in a `Stages`, and `Compiles` says how they follow from one
another. The last stage, the modifiers, only adds to the module and to the code
(`applyModifiers_extends`).
-/

namespace EffectGraph

variable [Stack]

/-- The library has one type of modifier. -/
theorem Modifier.eq_factory_of_lookup {type : Text} {f : ModifierFactory} (h : types.lookup type = some f) :
    f = floatingOriginFactory := by
  have hmem := mem_of_lookup h
  simp only [types, List.mem_singleton, Prod.mk.injEq] at hmem
  exact hmem.2

namespace Compiler

/-- What the stages of a compilation return: the module with the properties, the
builder with the graph, the output slots, the evaluator and the module with the
expressions, the writer with the outputs, and what the modifiers touch and
write. -/
structure Stages where
  declared : Module
  builder : Builder
  targets : List (Text × SlotId)
  evaluator : Evaluator
  evaluated : Module
  written : Writer
  touched : List Attribute
  finished : Writer

/-- Each stage of a compilation follows from those before it. -/
structure Compiles (c : Compiler) (d : Definition) (s : Stages) (effect : Effect) : Prop where
  declared : declare d = .ok s.declared
  built : c.construct d = .ok s.builder
  targets : Compiler.targets s.builder d = .ok s.targets
  evaluated : ∃ k, evaluate s.builder.graph s.targets s.declared = .ok (k, s.evaluator, s.evaluated)
  outputs : outputHandles s.evaluator s.targets = .ok effect.outputs
  written : run (c.writeOutputs s.evaluated effect.outputs) {} = .ok ((), s.written)
  modified : run (c.applyModifiers d.modifiers) (s.evaluated, s.written) =
    .ok (s.touched, effect.module, s.finished)
  effect : effect = {
    name := d.name
    module := effect.module
    graph := s.builder.graph
    outputs := effect.outputs
    attributes := attributes effect.module s.touched
    code := s.finished.code
    rendered := s.finished.rendering.count }

omit [Stack] in
theorem run_eq_ok {work : EStateM Error σ α} {s s' : σ} {a : α} : run work s = .ok (a, s') ↔ work s = .ok a s' := by
  unfold run
  cases work s with
  | ok a₁ s₁ => simp
  | error e s₁ => simp

omit [Stack] in
theorem run_eq_error {work : EStateM Error σ α} {s : σ} {e : Error} :
    run work s = .error e ↔ ∃ s', work s = .error e s' := by
  unfold run
  cases work s with
  | ok a s' => simp
  | error e' s' => simp

theorem construct_eq_ok {c : Compiler} {d : Definition} {b : Builder} :
    c.construct d = .ok b ↔ ∃ nodes pairs, Builder.Built c.registry d.nodes d.links nodes pairs b := by
  unfold construct
  rw [Except.bind_eq_ok, ← Builder.build_eq_ok]
  constructor
  · rintro ⟨⟨⟨⟩, b'⟩, hb, h⟩
    cases h
    exact run_eq_ok.1 hb
  · intro hb
    exact ⟨((), b), run_eq_ok.2 hb, rfl⟩

/-- A compilation succeeds when all its stages do. -/
theorem compile_eq_ok {c : Compiler} {d : Definition} {effect : Effect} :
    c.compile d = .ok effect ↔ ∃ s, Compiles c d s effect := by
  unfold compile finish
  constructor
  · intro h
    obtain ⟨m, hm, h⟩ := Except.bind_eq_ok.1 h
    obtain ⟨b, hb, h⟩ := Except.bind_eq_ok.1 h
    obtain ⟨ts, hts, h⟩ := Except.bind_eq_ok.1 h
    obtain ⟨⟨k, e, m'⟩, he, h⟩ := Except.bind_eq_ok.1 h
    obtain ⟨outputs, ho, h⟩ := Except.bind_eq_ok.1 h
    obtain ⟨⟨⟨⟩, w⟩, hw, h⟩ := Except.bind_eq_ok.1 h
    obtain ⟨⟨touched, m'', w'⟩, hf, h⟩ := Except.bind_eq_ok.1 h
    cases h
    exact ⟨⟨m, b, ts, e, m', w, touched, w'⟩, hm, hb, hts, ⟨k, he⟩, ho, hw, hf, rfl⟩
  · rintro ⟨s, hm, hb, hts, ⟨k, he⟩, ho, hw, hf, heff⟩
    refine Except.bind_eq_ok.2 ⟨_, hm, Except.bind_eq_ok.2 ⟨_, hb, Except.bind_eq_ok.2 ⟨_, hts,
      Except.bind_eq_ok.2 ⟨_, he, Except.bind_eq_ok.2 ⟨_, ho, Except.bind_eq_ok.2 ⟨_, hw,
        Except.bind_eq_ok.2 ⟨_, hf, ?_⟩⟩⟩⟩⟩⟩⟩
    exact congrArg Except.ok heff.symm

/-! ## Names of outputs -/

omit [Stack] in
theorem mapM_fst {f : Text × α → Except Error (Text × β)} (hf : ∀ p q, f p = .ok q → q.1 = p.1)
    {ps : List (Text × α)} {qs : List (Text × β)} (h : ps.mapM f = .ok qs) : qs.map Prod.fst = ps.map Prod.fst := by
  induction ps generalizing qs with
  | nil =>
    cases h
    rfl
  | cons p ps ih =>
    obtain ⟨q, qs', hq, hqs, rfl⟩ := Except.mapM_cons_eq_ok.1 h
    rw [List.map_cons, List.map_cons, hf p q hq, ih hqs]

omit [Stack] in
theorem map_fst_targets {b : Builder} {d : Definition} {ts : List (Text × SlotId)} (h : targets b d = .ok ts) :
    ts.map Prod.fst = d.outputs.map Prod.fst := by
  refine mapM_fst ?_ h
  rintro ⟨name, ref⟩ q hq
  obtain ⟨slot, -, hq⟩ := Except.bind_eq_ok.1 hq
  obtain ⟨sl, -, hq⟩ := Except.bind_eq_ok.1 hq
  split at hq
  · cases hq
    rfl
  · cases hq

omit [Stack] in
theorem map_fst_outputHandles {e : Evaluator} {ts : List (Text × SlotId)} {outputs : List (Text × ExprHandle)}
    (h : outputHandles e ts = .ok outputs) : outputs.map Prod.fst = ts.map Prod.fst := by
  refine mapM_fst ?_ h
  rintro ⟨name, slot⟩ q hq
  dsimp only at hq
  split at hq
  · cases hq
    rfl
  · cases hq

/-- The outputs of an effect are named as those of its definition, in order. -/
theorem Compiles.names {c : Compiler} {d : Definition} {s : Stages} {effect : Effect} (h : Compiles c d s effect) :
    effect.outputs.map Prod.fst = d.outputs.map Prod.fst :=
  (map_fst_outputHandles h.outputs).trans (map_fst_targets h.targets)

/-! ## Modifiers -/

/-- What holds of every step by which a modifier adds its code: an expression is
added, an expression is rendered, lines are added. -/
structure KeptByCode (R : Module × Writer → Module × Writer → Prop) : Prop where
  refl : ∀ p, R p p
  trans : ∀ {p q r}, R p q → R q r → R p r
  push : ∀ {p q h}, Modifier.building (Module.attr .vector0) p = .ok h q → R p q
  render : ∀ {x p q t}, Modifier.rendering x p = .ok t q → R p q
  write : ∀ m w stored offset, R (m, w)
    (m, { w with statements := w.statements ++ ((Modifier.originLines stored offset).map .line).toArray })

namespace KeptByCode

variable {R : Module × Writer → Module × Writer → Prop} {p q : Module × Writer}

theorem apply (hR : KeptByCode R) {modifier : Modifier} (h : modifier.apply p = .ok () q) : R p q := by
  cases modifier with
  | floatingOrigin x =>
    obtain ⟨a, p₁, h₁, h⟩ := EStateM.bind_eq_ok.1 h
    obtain ⟨stored, p₂, h₂, h⟩ := EStateM.bind_eq_ok.1 h
    obtain ⟨offset, ⟨m, w⟩, h₃, h⟩ := EStateM.bind_eq_ok.1 h
    cases h
    exact hR.trans (hR.push h₁) (hR.trans (hR.render h₂) (hR.trans (hR.render h₃) (hR.write m w stored offset)))
  | inert pass =>
    cases h
    exact hR.refl _

/-- Making modifiers must keep it too. -/
theorem applyModifiers (hR : KeptByCode R) {c : Compiler}
    (hmake : ∀ {d p q modifier}, Modifier.building (Modifier.create c.modifiers d) p = .ok modifier q → R p q)
    {ds : List ModifierDef} {touched : List Attribute} (h : c.applyModifiers ds p = .ok touched q) : R p q := by
  obtain ⟨as, p₁, h₁, h⟩ := EStateM.bind_eq_ok.1 h
  cases h
  refine mapM_ok hR.refl hR.trans (fun d p attributes q h => ?_) h₁
  obtain ⟨modifier, p₁, hm, h⟩ := EStateM.bind_eq_ok.1 h
  split at h
  · cases h
  · obtain ⟨_, p₂, ha, h⟩ := EStateM.bind_eq_ok.1 h
    cases h
    exact hR.trans (hmake hm) (hR.apply ha)

end KeptByCode

/-- The module has grown and lines were added. -/
def Extends (p q : Module × Writer) : Prop :=
  p.1.Grows q.1 ∧ p.2.statements.toList <+: q.2.statements.toList

omit [Stack] in
theorem Extends.refl (p : Module × Writer) : Extends p p := ⟨.refl p.1, List.prefix_refl _⟩

omit [Stack] in
theorem Extends.trans {p q r : Module × Writer} (h : Extends p q) (h' : Extends q r) : Extends p r :=
  ⟨h.1.trans h'.1, h.2.trans h'.2⟩

theorem growing_floatingOrigin (params : Params) : Module.Growing (Modifier.floatingOriginFactory params) := by
  unfold Modifier.floatingOriginFactory
  split
  · refine Module.growing_bind (Module.growing_reading _) fun found => ?_
    split
    · exact Module.growing_bind (Module.growing_prop _) fun _ => Module.growing_pure _
    · exact Module.growing_throw _
  · refine Module.growing_bind (Module.growing_reading _) fun v => ?_
    exact Module.growing_bind (Module.growing_push _) fun _ => Module.growing_pure _
  · exact Module.growing_throw _

/-- Making a modifier of the library only adds to the module. -/
theorem growing_create (d : ModifierDef) : Module.Growing (Modifier.create Modifier.types d) := by
  unfold Modifier.create
  split
  · next f hf =>
    obtain rfl := Modifier.eq_factory_of_lookup hf
    refine Module.growing_bind (growing_floatingOrigin d.params) fun modifier => ?_
    exact Module.growing_bind (Module.growing_reading _) fun _ => Module.growing_pure _
  · exact Module.growing_throw _

omit [Stack] in
theorem building_extends {f : Build α} (hf : Module.Growing f) {p q : Module × Writer} {a : α}
    (h : Modifier.building f p = .ok a q) : Extends p q := by
  obtain ⟨m, w⟩ := p
  have hm := hf m
  simp only [Modifier.building] at h
  cases hr : f m with
  | ok a' m' =>
    rw [hr] at h hm
    cases h
    exact ⟨hm, List.prefix_refl _⟩
  | error e m' =>
    rw [hr] at h
    cases h

omit [Stack] in
theorem rendering_extends {x : ExprHandle} {p q : Module × Writer} {t : Text}
    (h : Modifier.rendering x p = .ok t q) : Extends p q := by
  obtain ⟨m, w⟩ := p
  simp only [Modifier.rendering] at h
  rcases Writer.eval_cases m x w with ⟨s, -, -, he⟩ | ⟨e, s, -, -, he⟩ | ⟨-, he⟩
  all_goals
    rw [he] at h
    cases h
  exact ⟨.refl m, List.prefix_refl _⟩

theorem keptByCode_extends : KeptByCode Extends where
  refl := .refl
  trans := .trans
  push := building_extends (Module.growing_push _)
  render := rendering_extends
  write m w stored offset := ⟨.refl m, by simp⟩

/-- Modifiers of the library only add to the module and to the code. -/
theorem applyModifiers_extends {c : Compiler} (hc : c.modifiers = Modifier.types) {ds : List ModifierDef}
    {p q : Module × Writer} {touched : List Attribute} (h : c.applyModifiers ds p = .ok touched q) :
    Extends p q :=
  keptByCode_extends.applyModifiers (fun {d _ _ _} hm => building_extends (growing_create d) (hc ▸ hm)) h

end Compiler
end EffectGraph
