import EffectGraph.Effect
import EffectGraph.Proofs.Writer.Names
import Mathlib.Data.List.Nodup

/-!
# How the lines of the outputs are written

What each step of writing the outputs does to the writer: reserving all names
(`forM_reserve_eq_ok`), a shared expression that gets a variable
(`evalToLocal_none_eq_ok`), and an output that gets its line
(`bindOutput_eq_ok`). All of them keep the names of the writer in order, and each
output finds its name reserved (`hoisted_named`, `forM_bindOutput`).
-/

namespace EffectGraph

namespace Writer

/-- A writer with names reserved, before anything is written. -/
def reserving (names : List Text) : Writer := { taken := names, reserved := names }

theorem named_reserving {names : List Text} (hn : names.Nodup) : Named (reserving names) := by
  constructor <;> simp [reserving, hn]

theorem reserve_reserving {names : List Text} {name : Text} {w : Writer} :
    reserve name (reserving names) = .ok () w ↔ name ∉ names ∧ w = reserving (name :: names) := by
  unfold reserve
  by_cases hname : name ∈ names
  · simp [reserving, hname]
  · simp [reserving, hname, eq_comm]

/-- Names can be reserved when they differ. -/
theorem forM_reserve_eq_ok {outputs : List (Text × α)} {w : Writer} :
    (outputs.forM fun o => reserve o.1) {} = .ok () w ↔
      (outputs.map Prod.fst).Nodup ∧ w = reserving (outputs.map Prod.fst).reverse := by
  have hloop : ∀ names : List Text, names.Nodup → ((outputs.forM fun o => reserve o.1) (reserving names) = .ok () w ↔
      ((outputs.map Prod.fst).reverse ++ names).Nodup ∧
        w = reserving ((outputs.map Prod.fst).reverse ++ names)) := by
    induction outputs with
    | nil =>
      intro names hn
      rw [List.map_nil, List.reverse_nil, List.nil_append, and_iff_right hn]
      exact ⟨fun h => by cases h; rfl, fun h => by rw [h]; rfl⟩
    | cons o outputs ih =>
      intro names hn
      rw [List.map_cons, List.reverse_cons, List.append_assoc, List.singleton_append]
      constructor
      · intro h
        obtain ⟨_, w₁, ho, h⟩ := EStateM.bind_eq_ok.1 h
        obtain ⟨hnew, rfl⟩ := reserve_reserving.1 ho
        exact (ih _ (List.nodup_cons.2 ⟨hnew, hn⟩)).1 h
      · rintro ⟨hall, rfl⟩
        have hcons := (List.nodup_append.1 hall).2.1
        exact EStateM.bind_eq_ok.2 ⟨(), _, reserve_reserving.2 ⟨(List.nodup_cons.1 hcons).1, rfl⟩,
          (ih _ hcons).2 ⟨hall, rfl⟩⟩
  have hstart := hloop [] List.nodup_nil
  rwa [List.append_nil, List.nodup_reverse] at hstart

/-- A shared expression keeps its variable or gets a fresh one. -/
theorem evalToLocal_none_eq_ok {m : Module} {h : ExprHandle} {w w' : Writer} {n : Text} :
    evalToLocal m h none w = .ok n w' ↔ (w.locals.lookup h = some n ∧ w' = w) ∨
      (w.locals.lookup h = none ∧ Serves m w ∧ ∃ s, w.rendering.work m [.visit h] = .ok () s ∧
        n = numbered w.stem (freeNumber w.stem w.taken w.counter) ∧
        w' = withLocal { w with
          arena := some m.key
          rendering := s
          counter := freeNumber w.stem w.taken w.counter + 1 } h n) := by
  rw [evalToLocal_eq_ok]
  refine or_congr_right (and_congr_right fun _ => and_congr_right fun _ => exists_congr fun s => ?_)
  constructor
  · rintro ⟨k, r, hwork, hclaim, rfl⟩
    rw [claim_none] at hclaim
    cases hclaim
    exact ⟨hwork, rfl, rfl⟩
  · rintro ⟨hwork, rfl, rfl⟩
    exact ⟨_, w.reserved, hwork, claim_none _, rfl⟩

/-- The variable of a shared expression has a name of its own. -/
theorem Named.hoist {m : Module} {h : ExprHandle} {w w' : Writer} {n : Text} (hn : Named w)
    (he : evalToLocal m h none w = .ok n w') : Named w' ∧ w'.reserved = w.reserved := by
  rcases evalToLocal_none_eq_ok.1 he with ⟨-, rfl⟩ | ⟨-, -, s, -, rfl, rfl⟩
  · exact ⟨hn, rfl⟩
  · have hnamed : Named { w with
        arena := some m.key
        rendering := s
        counter := freeNumber w.stem w.taken w.counter + 1 } := hn.of_same rfl rfl rfl
    exact ⟨hnamed.withLocal hn.fresh_not_local hn.fresh_not_reserved, rfl⟩

end Writer

namespace Compiler

open Writer

/-- An output whose name is reserved gets a line: for the variable its expression
has, or for a new one with that name. -/
theorem bindOutput_eq_ok {m : Module} {name : Text} {h : ExprHandle} {w w' : Writer} (hn : Named w)
    (hr : name ∈ w.reserved) :
    bindOutput m name h w = .ok () w' ↔
      (∃ n, w.locals.lookup h = some n ∧ w' = { w with statements := w.statements.push (.binding name n) }) ∨
      (w.locals.lookup h = none ∧ Serves m w ∧ ∃ s, w.rendering.work m [.visit h] = .ok () s ∧
        w' = withLocal { w with
          arena := some m.key
          rendering := s
          reserved := w.reserved.erase name } h name) := by
  -- A variable that is there has another name: this one is reserved.
  have hother : ∀ n, w.locals.lookup h = some n → n ≠ name := by
    rintro n hl rfl
    exact hn.apart _ (mem_of_lookup hl) hr
  have hclaimed : ∀ s, claim (some name) { w with arena := some m.key, rendering := s } =
      .ok name { w with arena := some m.key, rendering := s, reserved := w.reserved.erase name } :=
    fun s => if_pos hr
  constructor
  · intro hb
    obtain ⟨n, w₁, he, hline⟩ := EStateM.bind_eq_ok.1 hb
    rcases evalToLocal_eq_ok.1 he with ⟨hl, rfl⟩ | ⟨hl, hs, s, k, r, hwork, hclaim, rfl⟩
    · rw [if_pos (hother n hl)] at hline
      cases hline
      exact .inl ⟨n, hl, rfl⟩
    · rw [hclaimed] at hclaim
      cases hclaim
      rw [if_neg (by simp)] at hline
      cases hline
      exact .inr ⟨hl, hs, s, hwork, rfl⟩
  · rintro (⟨n, hl, rfl⟩ | ⟨hl, hs, s, hwork, rfl⟩)
    · refine EStateM.bind_eq_ok.2 ⟨n, w, evalToLocal_eq_ok.2 (.inl ⟨hl, rfl⟩), ?_⟩
      rw [if_pos (hother n hl)]
      rfl
    · refine EStateM.bind_eq_ok.2 ⟨name, _, evalToLocal_eq_ok.2 (.inr ⟨hl, hs, s, w.counter, w.reserved.erase name,
        hwork, hclaimed s, rfl⟩), ?_⟩
      rw [if_neg (by simp)]
      rfl

/-- The line of an output uses up its reservation and no other. -/
theorem named_bindOutput {m : Module} {name : Text} {h : ExprHandle} {w w' : Writer} (hn : Named w)
    (hr : name ∈ w.reserved) (hb : bindOutput m name h w = .ok () w') :
    Named w' ∧ ∀ n ∈ w.reserved, n ≠ name → n ∈ w'.reserved := by
  rcases (bindOutput_eq_ok hn hr).1 hb with ⟨n, -, rfl⟩ | ⟨-, -, s, -, rfl⟩
  · exact ⟨hn.of_same rfl rfl rfl, fun n hn _ => hn⟩
  · have hnamed : Named { w with arena := some m.key, rendering := s, reserved := w.reserved.erase name } :=
      (hn.erase name).of_same rfl rfl rfl
    refine ⟨hnamed.withLocal ?_ hn.reserved_once.not_mem_erase, fun n hn hne => (List.mem_erase_of_ne hne).2 hn⟩
    rintro p hp rfl
    exact hn.apart p hp hr

/-- What the line of each output keeps holds after all of them. The outputs differ, so
each finds its name reserved. -/
theorem forM_bindOutput {m : Module} {P : List (Text × ExprHandle) → Writer → Prop}
    (step : ∀ name h rest w w', Named w → name ∈ w.reserved → P ((name, h) :: rest) w →
      bindOutput m name h w = .ok () w' → P rest w')
    {outputs : List (Text × ExprHandle)} {w w' : Writer} (honce : (outputs.map Prod.fst).Nodup) (hn : Named w)
    (hr : ∀ o ∈ outputs, o.1 ∈ w.reserved) (h : (outputs.forM fun o => bindOutput m o.1 o.2) w = .ok () w')
    (hP : P outputs w) : P [] w' := by
  have hloop := forM_ok (P := fun rest w => Named w ∧ (rest.map Prod.fst).Nodup ∧ (∀ o ∈ rest, o.1 ∈ w.reserved) ∧
    P rest w) ?_ h ⟨hn, honce, hr, hP⟩
  · exact hloop.2.2.2
  · rintro ⟨name, h⟩ rest w₁ w₂ ⟨hn₁, honce₁, hr₁, hP₁⟩ hb
    have hname := hr₁ _ List.mem_cons_self
    obtain ⟨hnew, honce₂⟩ := List.nodup_cons.1 honce₁
    obtain ⟨hn₂, hkeep⟩ := named_bindOutput hn₁ hname hb
    refine ⟨hn₂, honce₂, fun o ho => ?_, step name h rest w₁ w₂ hn₁ hname hP₁ hb⟩
    exact hkeep _ (hr₁ o (List.mem_cons_of_mem _ ho)) fun he => hnew (he ▸ List.mem_map_of_mem ho)

/-- What each shared expression keeps that is hoisted holds after all of them. -/
theorem forM_hoistShared {m : Module} {P : Writer → Prop}
    (step : ∀ h n w w', P w → evalToLocal m h none w = .ok n w' → P w') {roots : List ExprHandle} {w w' : Writer}
    (h : hoistShared m roots w = .ok () w') (hP : P w) : P w' := by
  unfold hoistShared at h
  split at h
  · cases h
  · refine forM_ok (P := fun _ w => P w) ?_ h hP
    intro x _ w₁ w₂ hP₁ hx
    obtain ⟨n, w₃, he, hx⟩ := EStateM.bind_eq_ok.1 hx
    cases hx
    exact step x n w₁ _ hP₁ he

/-- Hoisting keeps the names in order and uses up no reservation. -/
theorem named_hoistShared {m : Module} {roots : List ExprHandle} {w w' : Writer} (hn : Named w)
    (h : hoistShared m roots w = .ok () w') : Named w' ∧ w'.reserved = w.reserved := by
  refine forM_hoistShared (P := fun w₁ => Named w₁ ∧ w₁.reserved = w.reserved) ?_ h ⟨hn, rfl⟩
  rintro x n w₁ w₂ ⟨hn₁, hr₁⟩ he
  obtain ⟨hn₂, hr₂⟩ := hn₁.hoist he
  exact ⟨hn₂, hr₂.trans hr₁⟩

/-- When the outputs get their lines, their names are reserved. -/
theorem hoisted_named [Stack] {c : Compiler} {m : Module} {outputs : List (Text × ExprHandle)} {w : Writer}
    (hn : (outputs.map Prod.fst).Nodup)
    (h : (if c.hoist then hoistShared m (outputs.map Prod.snd) else pure ())
      (reserving (outputs.map Prod.fst).reverse) = .ok () w) : Named w ∧ ∀ o ∈ outputs, o.1 ∈ w.reserved := by
  have hstart := named_reserving (List.nodup_reverse.2 hn)
  have hmem : ∀ o ∈ outputs, o.1 ∈ (outputs.map Prod.fst).reverse := fun o ho =>
    List.mem_reverse.2 (List.mem_map_of_mem ho)
  split at h
  · obtain ⟨hnamed, hr⟩ := named_hoistShared hstart h
    exact ⟨hnamed, fun o ho => hr ▸ hmem o ho⟩
  · cases h
    exact ⟨hstart, hmem⟩

/-- Writing the outputs: their names are reserved, shared expressions are hoisted
if that is wanted, and each output gets its line. -/
theorem writeOutputs_eq_ok [Stack] {c : Compiler} {m : Module} {outputs : List (Text × ExprHandle)} {w : Writer} :
    c.writeOutputs m outputs {} = .ok () w ↔ (outputs.map Prod.fst).Nodup ∧
      ∃ w₁, (if c.hoist then hoistShared m (outputs.map Prod.snd) else pure ())
          (reserving (outputs.map Prod.fst).reverse) = .ok () w₁ ∧
        (outputs.forM fun o => bindOutput m o.1 o.2) w₁ = .ok () w := by
  constructor
  · intro h
    obtain ⟨_, w₀, hreserve, h⟩ := EStateM.bind_eq_ok.1 h
    obtain ⟨hn, rfl⟩ := forM_reserve_eq_ok.1 hreserve
    refine ⟨hn, ?_⟩
    by_cases hc : c.hoist
    · rw [if_pos hc] at h ⊢
      obtain ⟨_, w₁, hhoist, h⟩ := EStateM.bind_eq_ok.1 h
      exact ⟨w₁, hhoist, h⟩
    · rw [if_neg hc] at h ⊢
      exact ⟨_, rfl, h⟩
  · rintro ⟨hn, w₁, hhoist, h⟩
    refine EStateM.bind_eq_ok.2 ⟨(), _, forM_reserve_eq_ok.2 ⟨hn, rfl⟩, ?_⟩
    by_cases hc : c.hoist
    · rw [if_pos hc] at hhoist ⊢
      exact EStateM.bind_eq_ok.2 ⟨(), w₁, hhoist, h⟩
    · rw [if_neg hc] at hhoist ⊢
      cases hhoist
      exact h

end Compiler
end EffectGraph
