import EffectGraph.Proofs.Module.Runs
import EffectGraph.Proofs.Writer.Session
import Mathlib

/-!
# One writer and many modules

A writer is tied to the first module it renders from. Calls on it may name any
module: `secondModule_refused` says that, once it has rendered from a module, it
refuses to render from any other one, whatever is called in between, and changes
nothing. Only a look at the locals comes before that check: a handle to which the
writer has tied a local leads to that local, whatever module it is said to be
from (`foreign_local`).
-/

namespace EffectGraph.Writer

/-! ## One call -/

section
variable {m : Module} {h : ExprHandle} {name : Option Text} {w : Writer}

theorem eval_of_not_serves (hw : ¬Serves m w) : eval m h w = .error .secondModule w := by
  simp only [eval, bind, EStateM.bind, bindModule_of_not_serves hw]

theorem evalToLocal_of_lookup {n : Text} (hl : w.locals.lookup h = some n) : evalToLocal m h name w = .ok n w :=
  evalToLocal_eq_ok.2 (.inl ⟨hl, rfl⟩)

theorem evalToLocal_of_not_serves (hl : w.locals.lookup h = none) (hw : ¬Serves m w) :
    evalToLocal m h name w = .error .secondModule w := by
  simp only [evalToLocal, bind, EStateM.bind, EStateM.get_apply, hl, eval_of_not_serves hw]

theorem arena_eval (hw : Serves m w) : (lastState (eval m h w)).arena = some m.key := by
  rcases eval_cases m h w with ⟨s, -, -, he⟩ | ⟨e, s, -, -, he⟩ | ⟨hbad, -⟩
  · rw [he, lastState]
  · rw [he, lastState]
  · exact absurd hw hbad

theorem arena_evalToLocal (hl : w.locals.lookup h = none) (hw : Serves m w) :
    (lastState (evalToLocal m h name w)).arena = some m.key := by
  rcases eval_cases m h w with ⟨s, -, -, he⟩ | ⟨e, s, -, -, he⟩ | ⟨hbad, -⟩
  · rcases claim_cases name { w with arena := some m.key, rendering := s } with ⟨n, k, r, hc⟩ | ⟨n, -, -, -, hc⟩
    all_goals
      simp only [evalToLocal, bind, EStateM.bind, EStateM.get_apply, hl, he, hc]
      rfl
  · simp only [evalToLocal, bind, EStateM.bind, EStateM.get_apply, hl, he, lastState]
  · exact absurd hw hbad

theorem lastState_ignore {x : Write α} : lastState ((x >>= fun _ => pure ()) w) = lastState (x w) := by
  simp only [bind, EStateM.bind]
  cases x w <;> rfl

/-- A call changes nothing, or it ties the writer to a module that it serves, or it
does not look at the module. -/
theorem call_cases_arena (m : Module) (w : Writer) (c : Call) :
    lastState (call m c w) = w ∨
      (Serves m w ∧ (lastState (call m c w)).arena = some m.key) ∨
      (lastState (call m c w)).arena = w.arena ∧ ∀ m', call m' c w = call m c w := by
  cases c with
  | eval h =>
    by_cases hw : Serves m w
    · exact .inr (.inl ⟨hw, lastState_ignore (x := eval m h) ▸ arena_eval hw⟩)
    · exact .inl (lastState_ignore.trans (congrArg lastState (eval_of_not_serves hw)))
  | evalToLocal h name =>
    cases hl : w.locals.lookup h with
    | some n => exact .inl (lastState_ignore.trans (congrArg lastState (evalToLocal_of_lookup hl)))
    | none =>
      by_cases hw : Serves m w
      · exact .inr (.inl ⟨hw, lastState_ignore (x := evalToLocal m h name) ▸ arena_evalToLocal hl hw⟩)
      · exact .inl (lastState_ignore.trans (congrArg lastState (evalToLocal_of_not_serves hl hw)))
  | reserve name =>
    refine .inr (.inr ⟨?_, fun m' => rfl⟩)
    simp only [call, reserve]
    split <;> rfl
  | freshName => exact .inr (.inr ⟨rfl, fun m' => rfl⟩)
  | pushLine t => exact .inr (.inr ⟨rfl, fun m' => rfl⟩)

/-- A call that succeeds in rendering from a module. A handle that has a local is
not rendered. -/
def Call.RendersFrom (c : Call) (m : Module) (w : Writer) : Prop :=
  match c with
  | .eval h => ∃ t w', Writer.eval m h w = .ok t w'
  | .evalToLocal h name => w.locals.lookup h = none ∧ ∃ n w', Writer.evalToLocal m h name w = .ok n w'
  | _ => False

/-- Rendering from a module ties the writer to it. -/
theorem Call.RendersFrom.arena {c : Call} (hc : c.RendersFrom m w) :
    (lastState (call m c w)).arena = some m.key := by
  cases c with
  | eval h =>
    obtain ⟨t, w', ht⟩ := hc
    obtain ⟨hw, -⟩ := eval_eq_ok.1 ht
    exact (congrArg Writer.arena lastState_ignore).trans (arena_eval hw)
  | evalToLocal h name =>
    obtain ⟨hl, n, w', hn⟩ := hc
    rcases evalToLocal_eq_ok.1 hn with ⟨hl', -⟩ | ⟨-, hw, -⟩
    · rw [hl] at hl'
      cases hl'
    · exact (congrArg Writer.arena lastState_ignore).trans (arena_evalToLocal hl hw)
  | _ => exact hc.elim

end

/-! ## Any calls -/

/-- Modules, and a writer that may be called with any of them. -/
structure Bench where
  modules : Nat → Module
  writer : Writer
  keys : ∀ k, (modules k).key = k

namespace Bench

/-- A call on the writer with one of the modules, or a call on one of them. -/
inductive Act where
  | write (k : Nat) (c : Call)
  | build (k : Nat) (c : Module.Call)

/-- What a call leaves behind, whether it succeeds or not. -/
def after [Stack] (b : Bench) : Act → Bench
  | .write k c => { b with writer := lastState (call (b.modules k) c b.writer) }
  | .build k c =>
    { b with
      modules := Function.update b.modules k ((b.modules k).after c)
      keys := by
        intro j
        by_cases hj : j = k
        · rw [hj, Function.update_self, (Module.grows_after _ c).key, b.keys]
        · rw [Function.update_of_ne hj, b.keys] }

/-- New modules and a new writer. -/
def new (stem : Text) : Bench where
  modules := Module.empty
  writer := { stem := stem }
  keys _ := rfl

/-- What calls make of new modules and a new writer. -/
def reached [Stack] (stem : Text) (acts : List Act) : Bench := acts.foldl after (new stem)

/-- The writer is faithful to every module that it may render from. -/
def Sound (b : Bench) : Prop := ∀ k, Serves (b.modules k) b.writer → Faithful (b.modules k) b.writer

variable {b : Bench}

theorem Sound.after [Stack] (hb : b.Sound) (act : Act) : (b.after act).Sound := by
  intro j hj
  cases act with
  | write k c =>
    simp only [Bench.after] at hj ⊢
    rcases call_cases_arena (b.modules k) b.writer c with hsame | ⟨hk, harena⟩ | ⟨harena, hany⟩
    · rw [hsame] at hj ⊢
      exact hb j hj
    · obtain rfl : k = j := by simpa only [b.keys] using hj _ harena
      exact (hb k hk).call c
    · rw [← hany (b.modules j)]
      exact (hb j fun key hkey => hj key (harena.trans hkey)).call c
  | build k c =>
    simp only [Bench.after] at hj ⊢
    by_cases hjk : j = k
    · subst hjk
      rw [Function.update_self] at hj ⊢
      have hgrows := Module.grows_after (b.modules j) c
      exact (hb j fun key hkey => (hj key hkey).trans hgrows.key).grow hgrows
    · rw [Function.update_of_ne hjk] at hj ⊢
      exact hb j hj

theorem sound_reached [Stack] (stem : Text) (acts : List Act) : (reached stem acts).Sound := by
  induction acts using List.reverseRecOn with
  | nil => exact fun k _ => faithful_new _ stem
  | append_singleton acts act ih =>
    rw [reached, List.foldl_append]
    exact ih.after act

/-- A writer stays tied to its module. -/
theorem arena_after [Stack] {a : Nat} (ha : b.writer.arena = some a) (act : Act) :
    (b.after act).writer.arena = some a := by
  cases act with
  | write k c =>
    rcases call_cases_arena (b.modules k) b.writer c with hsame | ⟨hk, harena⟩ | ⟨harena, -⟩
    · exact (congrArg Writer.arena hsame).trans ha
    · exact harena.trans (congrArg some (hk a ha).symm)
    · exact harena.trans ha
  | build k c => exact ha

theorem arena_foldl [Stack] {a : Nat} (ha : b.writer.arena = some a) (acts : List Act) :
    (acts.foldl after b).writer.arena = some a := by
  induction acts generalizing b with
  | nil => exact ha
  | cons act acts ih => exact ih (arena_after ha act)

/-- Once a writer has rendered from a module `a`, and whatever is called later, it
does not render from another module: a call with that module fails and changes
nothing, unless it asks for a local of a handle that has one. Then it returns that
local, which is one of `a`. -/
theorem secondModule_refused [Stack] (stem : Text) (before later : List Act) (a k : Nat) (c : Call)
    (hc : c.RendersFrom ((reached stem before).modules a) (reached stem before).writer) (hne : k ≠ a)
    (h : ExprHandle) :
    let b := reached stem (before ++ .write a c :: later)
    eval (b.modules k) h b.writer = .error .secondModule b.writer ∧
    (b.writer.locals.lookup h = none →
      ∀ name, evalToLocal (b.modules k) h name b.writer = .error .secondModule b.writer) ∧
    ∀ n, b.writer.locals.lookup h = some n →
      (∀ name, evalToLocal (b.modules k) h name b.writer = .ok n b.writer) ∧
      (∃ e, (b.modules a).get h = .ok e) ∧ ∃ w', eval (b.modules a) h b.writer = .ok n w' := by
  intro b
  have harena : b.writer.arena = some a := by
    have htied : ((reached stem before).after (.write a c)).writer.arena = some a :=
      hc.arena.trans (congrArg some ((reached stem before).keys a))
    simpa only [b, reached, List.foldl_append, List.foldl_cons] using arena_foldl htied later
  have hforeign : ¬Serves (b.modules k) b.writer := fun hw => hne ((hw a harena).trans (b.keys k)).symm
  have hown : Serves (b.modules a) b.writer := by
    intro key hkey
    rw [harena] at hkey
    rw [b.keys, Option.some.inj hkey]
  have hfaithful : Faithful (b.modules a) b.writer := sound_reached stem _ a hown
  refine ⟨eval_of_not_serves hforeign, fun hl name => evalToLocal_of_not_serves hl hforeign, fun n hl => ?_⟩
  have hbound := hfaithful.bound h n (mem_of_lookup hl)
  have hcontains : b.writer.rendering.contains h := Rendering.contains_iff.2 ⟨_, hbound⟩
  obtain ⟨e, he, -⟩ := hfaithful.closed h hcontains
  refine ⟨fun name => evalToLocal_of_lookup hl, ⟨e, he⟩, ?_⟩
  have hwork : b.writer.rendering.work (b.modules a) [.visit h] = .ok () b.writer.rendering := by
    rw [Rendering.work, if_pos hcontains, Rendering.work]
  exact ⟨_, eval_eq_ok.2 ⟨hown, _, hwork, (Rendering.text_eq hbound).symm, rfl⟩⟩

/-- Calls that make a literal in each of two modules. -/
def twoLiterals : List Act := [.build 0 (.lit (.int 1)), .build 1 (.lit (.int 2)), .build 1 (.lit (.int 3))]

section

open scoped EffectGraph.Stack.Usual

theorem rendersFrom_twoLiterals : (Call.evalToLocal ⟨0⟩ none).RendersFrom ((reached "var" twoLiterals).modules 0)
    (reached "var" twoLiterals).writer := by
  refine ⟨by cbv, ?_⟩
  have hname : answer? (evalToLocal ((reached "var" twoLiterals).modules 0) ⟨0⟩ none
      (reached "var" twoLiterals).writer) = some "var0" := by
    cbv
  exact ⟨"var0", answer?_eq_some.1 hname⟩

theorem secondModule_refused_twoLiterals :
    let b := reached "var" (twoLiterals ++ [.write 0 (.evalToLocal ⟨0⟩ none)])
    eval (b.modules 1) ⟨1⟩ b.writer = .error .secondModule b.writer ∧
      evalToLocal (b.modules 1) ⟨1⟩ none b.writer = .error .secondModule b.writer := by
  intro b
  obtain ⟨heval, hlocal, -⟩ :=
    secondModule_refused "var" twoLiterals [] 0 1 _ rendersFrom_twoLiterals (by decide) ⟨1⟩
  have hfree : b.writer.locals.lookup ⟨1⟩ = none := by
    cbv
  exact ⟨heval, hlocal hfree none⟩

/-- A handle to a literal of the second module gets the local of a literal of the
first one, from which the writer has rendered. -/
theorem foreign_local :
    let b := reached "var" (twoLiterals ++ [.write 0 (.evalToLocal ⟨0⟩ none)])
    (Call.evalToLocal ⟨0⟩ none).RendersFrom ((reached "var" twoLiterals).modules 0)
      (reached "var" twoLiterals).writer ∧
    (b.modules 1).shaderText ⟨0⟩ = .ok "2" ∧ b.writer.code = "let var0 = 1;\n" ∧
      evalToLocal (b.modules 1) ⟨0⟩ none b.writer = .ok "var0" b.writer := by
  intro b
  refine ⟨rendersFrom_twoLiterals, by cbv, by cbv, evalToLocal_of_lookup ?_⟩
  cbv

end

end Bench
end EffectGraph.Writer
