import EffectGraph.Proofs.Writer.Texts
import Mathlib.Data.List.Induction

/-!
# Sessions with a writer

A session is any sequence of calls on one writer and on the module it renders
from, failed ones included. `session_faithful`: after every session the writer
is faithful to the module, the lines that bind its locals use only locals bound
before them, and a further call that fails leaves its code, its locals and its
names alone.
-/

namespace EffectGraph

/-- Whether a line binds a local. -/
def Statement.isBinding : Statement → Bool
  | .binding _ _ => true
  | .line _ => false

namespace Writer

/-- The lines that bind locals. -/
def bindings (w : Writer) : List Statement := w.statements.toList.filter Statement.isBinding

/-- A call on a writer. -/
inductive Call where
  | eval (h : ExprHandle)
  | evalToLocal (h : ExprHandle) (name : Option Text)
  | reserve (name : Text)
  | freshName
  | pushLine (text : Text)

/-- The work of a call, for a module. -/
def call (m : Module) : Call → Write Unit
  | .eval h => do let _ ← eval m h
  | .evalToLocal h name => do let _ ← evalToLocal m h name
  | .reserve name => reserve name
  | .freshName => do let _ ← freshName
  | .pushLine text => pushStatement (.line text)

/-- A call on the writer, or one on its module. -/
inductive Event where
  | write (c : Call)
  | build (c : Module.Call)

/-- The module and the writer after a call on one of them. -/
def afterEvent [Stack] : Module × Writer → Event → Module × Writer
  | (m, w), .write c => (m, lastState (call m c w))
  | (m, w), .build c => (m.after c, w)

/-- The module and the writer after a session that starts with a new writer. -/
def session [Stack] (m : Module) (stem : Text) (es : List Event) : Module × Writer :=
  es.foldl afterEvent (m, { stem := stem })

theorem session_snoc [Stack] (m : Module) (stem : Text) (es : List Event) (e : Event) :
    session m stem (es ++ [e]) = afterEvent (session m stem es) e := by
  simp [session]

/-! ## What a call does -/

/-- A call ends with new texts and names, with a new local, or with a new line;
it fails only in the first way. -/
theorem call_cases (m : Module) (w : Writer) (c : Call) :
    (∃ s a k r, Rendering.Steps m w.rendering s ∧ ∃ t : List Text,
      call m c w = .ok () { w with arena := a, rendering := s, taken := t, reserved := r, counter := k }) ∨
    (∃ h n s a k r, Rendering.Steps m w.rendering s ∧ s.contains h ∧ (∀ n, (h, n) ∉ w.locals) ∧
      call m c w = .ok () (withLocal { w with arena := a, rendering := s, reserved := r, counter := k } h n)) ∨
    (∃ t, call m c w = .ok () { w with statements := w.statements.push (.line t) }) ∨
    ∃ e s a, Rendering.Steps m w.rendering s ∧ call m c w = .error e { w with arena := a, rendering := s } := by
  cases c with
  | eval h =>
    rcases eval_cases m h w with ⟨s, st, -, he⟩ | ⟨e, s, st, -, he⟩ | ⟨-, he⟩
    · refine .inl ⟨s, some m.key, w.counter, w.reserved, st, w.taken, ?_⟩
      simp only [call, bind, EStateM.bind, he]
      rfl
    · refine .inr (.inr (.inr ⟨e, s, some m.key, st, ?_⟩))
      simp only [call, bind, EStateM.bind, he]
    · refine .inr (.inr (.inr ⟨.secondModule, w.rendering, w.arena, .refl, ?_⟩))
      simp only [call, bind, EStateM.bind, he]
  | evalToLocal h name =>
    rcases evalToLocal_cases m h name w with ⟨n, -, he⟩ | ⟨hl, ⟨n, s, w₁, st, hs, hc, he⟩ | ⟨e, s, a, st, -, he⟩⟩
    · refine .inl ⟨w.rendering, w.arena, w.counter, w.reserved, .refl, w.taken, ?_⟩
      simp only [call, bind, EStateM.bind, he]
      rfl
    · rcases claim_cases name { w with arena := some m.key, rendering := s } with ⟨n', k, r, hc'⟩ | ⟨_, _, _, _, hc'⟩
      · rw [hc'] at hc
        cases hc
        refine .inr (.inl ⟨h, n, s, some m.key, k, r, st, hs, lookup_eq_none hl, ?_⟩)
        simp only [call, bind, EStateM.bind, he]
        rfl
      · rw [hc'] at hc
        cases hc
    · refine .inr (.inr (.inr ⟨e, s, a, st, ?_⟩))
      simp only [call, bind, EStateM.bind, he]
  | reserve name =>
    simp only [call, reserve]
    split
    · exact .inr (.inr (.inr ⟨.nameTaken name, w.rendering, w.arena, .refl, rfl⟩))
    · exact .inl ⟨w.rendering, w.arena, w.counter, name :: w.reserved, .refl, name :: w.taken, rfl⟩
  | freshName => exact .inl ⟨w.rendering, w.arena, _, w.reserved, .refl, w.taken, rfl⟩
  | pushLine t => exact .inr (.inr (.inl ⟨t, rfl⟩))

/-- A call keeps the writer faithful, whether it succeeds or not. -/
theorem Faithful.call {m : Module} {w : Writer} (f : Faithful m w) (c : Call) :
    Faithful m (lastState (call m c w)) := by
  rcases call_cases m w c with ⟨s, a, k, r, st, t, h⟩ | ⟨x, n, s, a, k, r, st, hs, hn, h⟩ | ⟨t, h⟩ | ⟨e, s, a, st, h⟩
  · rw [h]
    exact (f.steps st).of_same rfl rfl
  · rw [h]
    have f' : Faithful m { w with arena := a, rendering := s, reserved := r, counter := k } :=
      (f.steps st).of_same rfl rfl
    exact f'.withLocal hs hn n
  · rw [h]
    exact f.of_same rfl rfl
  · rw [h]
    exact (f.steps st).of_same rfl rfl

/-- A call that binds a local adds the line for it; no other call adds one. -/
theorem declares_call {m : Module} {w : Writer} (f : Faithful m w) (d : Declares m w.locals w.bindings)
    (c : Call) : Declares m (lastState (call m c w)).locals (lastState (call m c w)).bindings := by
  rcases call_cases m w c with ⟨s, a, k, r, st, t, h⟩ | ⟨x, n, s, a, k, r, st, hs, hn, h⟩ | ⟨t, h⟩ | ⟨e, s, a, st, h⟩
  · rw [h]
    exact d
  · rw [h]
    have hr : Renders m w.locals x (s.text x) := (f.steps st).renders_text hs
    simp only [lastState, withLocal, bindings, Array.toList_push, List.filter_append]
    exact .snoc d hr
  · rw [h]
    simpa [lastState, bindings, Statement.isBinding] using d
  · rw [h]
    exact d

/-- After every session the writer is faithful to the module. -/
theorem faithful_session [Stack] (m : Module) (stem : Text) (es : List Event) :
    Faithful (session m stem es).1 (session m stem es).2 := by
  induction es using List.reverseRecOn with
  | nil => exact faithful_new m stem
  | append_singleton es e ih =>
    rw [session_snoc]
    cases e with
    | write c => exact ih.call c
    | build c => exact ih.grow (Module.grows_after _ c)

/-- After every session the lines that bind locals declare them. -/
theorem declares_session [Stack] (m : Module) (stem : Text) (es : List Event) :
    Declares (session m stem es).1 (session m stem es).2.locals (session m stem es).2.bindings := by
  induction es using List.reverseRecOn with
  | nil => exact .nil
  | append_singleton es e ih =>
    have f := faithful_session m stem es
    rw [session_snoc]
    cases e with
    | write c => exact declares_call f ih c
    | build c => exact ih.grow (Module.grows_after _ c)

/-- After any calls on one writer and its growing module, in any order and with
failed ones among them:
the expressions with a text are in the module and closed under operands, and as
many renderings were made as there are texts;
the text of a bound expression is the name of its local, and that of any other
is its own rendering around texts of its operands;
each expression is bound once, and the lines that bind are those of the locals,
in order, each with a text of its expression that uses only locals bound before;
and a call that fails changes neither the lines nor the locals and their names. -/
theorem session_faithful [Stack] (m₀ : Module) (stem : Text) (es : List Event) :
    let m := (session m₀ stem es).1
    let w := (session m₀ stem es).2
    (∀ h, w.rendering.contains h → ∃ e, m.get h = .ok e ∧ ∀ c ∈ e.children, w.rendering.contains c) ∧
    w.rendering.count = w.rendering.texts.size ∧
    (∀ h n, w.locals.lookup h = some n → w.rendering.texts.get? h.index = some n) ∧
    (∀ h t, w.locals.lookup h = none → w.rendering.texts.get? h.index = some t →
      ∃ e texts, m.get h = .ok e ∧ (∀ c ∈ e.children, Renders m w.locals c (texts c)) ∧
        e.render m (e.children.map texts) = .ok t) ∧
    (w.locals.map Prod.fst).Nodup ∧
    Declares m w.locals (w.statements.toList.filter Statement.isBinding) ∧
    ∀ c e w', call m c w = .error e w' →
      w'.statements = w.statements ∧ w'.code = w.code ∧ w'.locals = w.locals ∧
        w'.reserved = w.reserved ∧ w'.taken = w.taken := by
  have f := faithful_session m₀ stem es
  refine ⟨f.closed, f.counted, fun h n hn => f.bound h n (mem_of_lookup hn),
    fun h t hn ht => f.own h t ht (lookup_eq_none hn), f.once, declares_session m₀ stem es, fun c e w' hc => ?_⟩
  rcases call_cases _ _ c with ⟨s, a, k, r, st, t, h⟩ | ⟨x, n, s, a, k, r, st, hs, hn, h⟩ | ⟨t, h⟩ | ⟨e', s, a, st, h⟩
  all_goals rw [h] at hc; cases hc
  exact ⟨rfl, rfl, rfl, rfl, rfl⟩

end Writer
end EffectGraph
