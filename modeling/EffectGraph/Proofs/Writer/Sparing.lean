import EffectGraph.Proofs.Effect.Lines
import EffectGraph.Proofs.Spelling
import Mathlib

/-!
# Writers that write nothing out twice

A writer never renews a text, so an operand that gets a local after its user was
rendered stays written out there. `Sparing` is what holds of a writer whose
shared expressions get their locals in time: no text that it remembers writes out
a shared operand. It is kept as long as everything shared that an expression is
made of has a local when the expression is rendered (`Sparing.withLocal`).
-/

namespace EffectGraph

namespace Rendering

/-- Rendering an expression gives texts only to what it is made of. -/
theorem work_reaches {m : Module} {tasks : List Task} {s s' : Rendering} (h : work m tasks s = .ok () s')
    {c : ExprHandle} (hc : s'.contains c) : s.contains c ∨ ∃ t ∈ tasks, m.Reaches t.handle c := by
  fun_induction work m tasks s with
  | case1 s =>
    cases h
    exact .inl hc
  | case2 s x rest hx ih =>
    rcases ih h with hs | ⟨t, ht, hr⟩
    · exact .inl hs
    · exact .inr ⟨t, List.mem_cons_of_mem _ ht, hr⟩
  | case3 s x rest hx hlt ih =>
    rcases ih h with hs | ⟨t, ht, hr⟩
    · exact .inl hs
    · rcases List.mem_append.1 ht with ht | ht
      · obtain ⟨y, hy, rfl⟩ := List.mem_map.1 ht
        refine .inr ⟨.visit x, List.mem_cons_self, .head ?_ hr⟩
        rwa [Task.handle, Module.operands_eq (Module.get_of_lt hlt)]
      · rcases List.mem_cons.1 ht with rfl | ht
        · exact .inr ⟨.visit x, List.mem_cons_self, hr⟩
        · exact .inr ⟨t, List.mem_cons_of_mem _ ht, hr⟩
  | case4 => cases h
  | case5 s x e rest t hr ih =>
    rcases ih h with hs | ⟨t', ht, hr⟩
    · obtain ⟨t', ht'⟩ := contains_iff.1 hs
      rw [get?_record] at ht'
      split at ht'
      · next he => exact .inr ⟨.emit x e, List.mem_cons_self, he ▸ .refl⟩
      · exact .inl (contains_iff.2 ⟨t', ht'⟩)
    · exact .inr ⟨t', List.mem_cons_of_mem _ ht, hr⟩
  | case6 => cases h

end Rendering

namespace Writer

/-- Where an expression has a text but no local, the text writes it out, with names
for all shared operands. -/
def Spells (m : Module) (Shared : ExprHandle → Prop) (w : Writer) : Prop :=
  ∀ h t, w.rendering.texts.get? h.index = some t → (∀ n, (h, n) ∉ w.locals) →
    ∃ ops, Writes m w.locals Shared .line h t ops

variable {m : Module} {Shared : ExprHandle → Prop} {w : Writer}

/-- The text of an expression, as an operand. -/
theorem Spells.operand (sp : Spells m Shared w) (f : Faithful m w) {c : ExprHandle} (hc : w.rendering.contains c)
    (hs : Shared c → ∃ n, (c, n) ∈ w.locals) : ∃ ops, Writes m w.locals Shared .operand c (w.rendering.text c) ops := by
  obtain ⟨t, ht⟩ := Rendering.contains_iff.1 hc
  rw [Rendering.text_eq ht]
  by_cases hb : ∃ n, (c, n) ∈ w.locals
  · obtain ⟨n, hn⟩ := hb
    rw [f.bound c n hn] at ht
    cases ht
    exact ⟨[], .name hn⟩
  · obtain ⟨ops, hops⟩ := sp c t ht fun n hn => hb ⟨n, hn⟩
    exact ⟨ops, .inlined (fun hshared => hb (hs hshared)) hops⟩

/-- Recording a text whose shared operands all have locals. -/
theorem Spells.step (sp : Spells m Shared w) (f : Faithful m w) {s : Rendering} (st : Rendering.Step m w.rendering s)
    (hs : ∀ y, s.contains y → ¬w.rendering.contains y → ∀ c ∈ m.operands y, Shared c → ∃ n, (c, n) ∈ w.locals) :
    Spells m Shared { w with rendering := s } := by
  obtain ⟨he, hnew, hc, hr⟩ := st
  next y e t =>
  intro h t' ht hl
  rw [Rendering.get?_record] at ht
  split at ht
  · next hy =>
    subst hy
    cases ht
    have hshared := hs h (Rendering.contains_iff.2 ⟨t, by rw [Rendering.get?_record, if_pos rfl]⟩)
      (by simp [Rendering.contains_iff, hnew])
    rw [Module.operands_eq he] at hshared
    have hoperand : ∀ c, ∃ ops, c ∈ e.children →
        Writes m w.locals Shared .operand c (w.rendering.text c) ops := by
      intro c
      by_cases hmem : c ∈ e.children
      · obtain ⟨ops, hops⟩ := sp.operand f (hc c hmem) (hshared c hmem)
        exact ⟨ops, fun _ => hops⟩
      · exact ⟨[], fun h => absurd h hmem⟩
    choose ops hops using hoperand
    exact ⟨_, .spelled w.rendering.text ops he hops hr⟩
  · exact sp h t' ht hl

theorem Spells.steps (sp : Spells m Shared w) (f : Faithful m w) {s : Rendering}
    (st : Rendering.Steps m w.rendering s)
    (hs : ∀ y, s.contains y → ¬w.rendering.contains y → ∀ c ∈ m.operands y, Shared c → ∃ n, (c, n) ∈ w.locals) :
    Spells m Shared { w with rendering := s } := by
  induction st with
  | refl => exact sp
  | @tail s₁ s₂ st₁ st₂ ih =>
    have hkeep : ∀ y, s₁.contains y → s₂.contains y := fun y hy => Rendering.Steps.contains (.single st₂) hy
    have sp₁ := ih fun y hy hnew => hs y (hkeep y hy) hnew
    refine sp₁.step (f.steps st₁) st₂ fun y hy hnew => hs y hy fun hold => hnew (Rendering.Steps.contains st₁ hold)

theorem Spells.withLocal (sp : Spells m Shared w) (h : ExprHandle) (n : Text) :
    Spells m Shared (w.withLocal h n) := by
  intro x t ht hl
  have hx : x ≠ h := by
    rintro rfl
    exact hl n (List.mem_append_right _ (List.mem_singleton.2 rfl))
  have ht' : w.rendering.texts.get? x.index = some t := by
    have hrep := Rendering.get?_replace w.rendering h x n
    rw [if_neg hx] at hrep
    rw [← hrep]
    exact ht
  obtain ⟨ops, hops⟩ := sp x t ht' fun n' hn' => hl n' (List.mem_append_left _ hn')
  exact ⟨ops, hops.mono (.refl m) fun q hq => List.mem_append_left _ hq⟩

/-- What holds of a writer after it has written `lines`: every local has a line that
writes its expression out, every other line stands for a local, and no text writes
out a shared operand. -/
structure Sparing (m : Module) (Shared : ExprHandle → Prop) (lines : List Line) (w : Writer) : Prop where
  faithful : Faithful m w
  spells : Spells m Shared w
  statements : w.statements.toList = lines.map Line.statement
  locals : w.locals = (lines.filter fun l => !l.spelled.isEmpty).map fun l => (l.handle, l.name)
  own : ∀ l ∈ lines, l.spelled ≠ [] → Writes m w.locals Shared .line l.handle l.text l.spelled
  other : ∀ l ∈ lines, l.spelled = [] → ∃ n, (l.handle, n) ∈ w.locals ∧ l.text = n

theorem sparing_reserving (m : Module) (Shared : ExprHandle → Prop) (names : List Text) :
    Sparing m Shared [] (reserving names) where
  faithful := (faithful_new m "var").of_same rfl rfl
  spells h t ht := by simp [reserving] at ht
  statements := rfl
  locals := rfl
  own := by simp
  other := by simp

namespace Sparing

variable {lines : List Line}

/-- An expression that is rendered, its shared parts being bound, gets a line that
writes it out. -/
theorem withLocal (sp : Sparing m Shared lines w) {h : ExprHandle} {s : Rendering}
    (hwork : w.rendering.work m [.visit h] = .ok () s) (hl : ∀ n, (h, n) ∉ w.locals)
    (hs : ∀ y c, m.Reaches h y → c ∈ m.operands y → Shared c → ∃ n, (c, n) ∈ w.locals) (w₁ : Writer)
    (hr : w₁.rendering = s) (hlocals : w₁.locals = w.locals) (hstatements : w₁.statements = w.statements) (n : Text) :
    ∃ ops, ops ≠ [] ∧ Sparing m Shared (lines ++ [⟨h, n, s.text h, ops⟩]) (w₁.withLocal h n) := by
  obtain ⟨st, hh⟩ := Rendering.steps_of_work hwork
  have hparts : ∀ y, s.contains y → ¬w.rendering.contains y → ∀ c ∈ m.operands y, Shared c →
      ∃ n, (c, n) ∈ w.locals := by
    intro y hy hnew c hc
    rcases Rendering.work_reaches hwork hy with hold | ⟨t, ht, hreach⟩
    · exact absurd hold hnew
    · rw [List.mem_singleton] at ht
      subst ht
      exact hs y c hreach hc
  have f₁ : Faithful m w₁ := (sp.faithful.steps st).of_same hr hlocals
  have sp₁ : Spells m Shared w₁ := by
    have hsp := sp.spells.steps sp.faithful st hparts
    unfold Spells at hsp ⊢
    rwa [hr, hlocals]
  obtain ⟨t, ht⟩ := Rendering.contains_iff.1 hh
  obtain ⟨ops, hops⟩ := sp₁ h t (by rwa [hr]) (by rwa [hlocals])
  have hne : ops ≠ [] := List.ne_nil_of_mem hops.mem_of_line
  have hmore : ∀ q ∈ w.locals, q ∈ w.locals ++ [(h, n)] := fun q hq => List.mem_append_left _ hq
  have hlocals' : (w₁.withLocal h n).locals = w.locals ++ [(h, n)] := by
    rw [Writer.withLocal, hlocals]
  rw [hlocals] at hops
  refine ⟨ops, hne, f₁.withLocal (by rwa [hr]) (by rwa [hlocals]) n, sp₁.withLocal h n, ?_, ?_, ?_, ?_⟩
  · simp [Writer.withLocal, hstatements, sp.statements, Line.statement, hr]
  · rw [hlocals', sp.locals]
    simp [hne]
  · intro l hmem hspelled
    rw [hlocals']
    rcases List.mem_append.1 hmem with hmem | hmem
    · exact (sp.own l hmem hspelled).mono (.refl m) hmore
    · rw [List.mem_singleton] at hmem
      subst hmem
      rw [Rendering.text_eq ht]
      exact hops.mono (.refl m) hmore
  · intro l hmem hspelled
    rw [hlocals']
    rcases List.mem_append.1 hmem with hmem | hmem
    · obtain ⟨n', hn', ht'⟩ := sp.other l hmem hspelled
      exact ⟨n', hmore _ hn', ht'⟩
    · rw [List.mem_singleton] at hmem
      subst hmem
      exact absurd hspelled hne

/-- A line that writes its expression out is that of a local. -/
theorem bound (sp : Sparing m Shared lines w) {l : Line} (hl : l ∈ lines) (hne : l.spelled ≠ []) :
    (l.handle, l.name) ∈ w.locals := by
  rw [sp.locals]
  exact List.mem_map.2 ⟨l, List.mem_filter.2 ⟨hl, by simpa using hne⟩, rfl⟩

/-- The expressions with a local are those of the lines. -/
theorem exists_local_iff_mem_handles (sp : Sparing m Shared lines w) {x : ExprHandle} :
    (∃ n, (x, n) ∈ w.locals) ↔ x ∈ lines.map Line.handle := by
  constructor
  · rintro ⟨n, hn⟩
    rw [sp.locals] at hn
    obtain ⟨l, hl, he⟩ := List.mem_map.1 hn
    cases he
    exact List.mem_map_of_mem (List.mem_filter.1 hl).1
  · intro hx
    obtain ⟨l, hl, rfl⟩ := List.mem_map.1 hx
    by_cases hne : l.spelled = []
    · obtain ⟨n, hn, -⟩ := sp.other l hl hne
      exact ⟨n, hn⟩
    · exact ⟨l.name, sp.bound hl hne⟩

/-- The lines that write their expressions out cover these, if they are the shared ones
and the roots. -/
theorem covers {roots all : List ExprHandle} (sp : Sparing m (m.Shared roots all) lines w)
    (hlines : ∀ x, x ∈ lines.map Line.handle ↔ m.Shared roots all x ∨ x ∈ roots) :
    Covers m roots all w.locals (lines.filter fun l => !l.spelled.isEmpty) := by
  have hkeys : (lines.filter fun l => !l.spelled.isEmpty).map Line.handle = w.locals.map Prod.fst := by
    rw [sp.locals, List.map_map]
    rfl
  have hlocal : ∀ x, x ∈ w.locals.map Prod.fst ↔ ∃ n, (x, n) ∈ w.locals := by simp
  refine ⟨fun l hl => ?_, ?_, ?_, ?_⟩
  · obtain ⟨hl, hne⟩ := List.mem_filter.1 hl
    exact sp.own l hl (by simpa using hne)
  all_goals rw [hkeys]
  · exact fun x n hx => (hlocal x).2 ⟨n, hx⟩
  · exact sp.faithful.once
  · exact fun x => (hlocal x).trans (sp.exists_local_iff_mem_handles.trans (hlines x))

/-- A line that stands for a local. -/
theorem push (sp : Sparing m Shared lines w) {h : ExprHandle} {n : Text} (hn : (h, n) ∈ w.locals) (name : Text) :
    Sparing m Shared (lines ++ [⟨h, name, n, []⟩])
      { w with statements := w.statements.push (.binding name n) } where
  faithful := sp.faithful.of_same rfl rfl
  spells := sp.spells
  statements := by simp [sp.statements, Line.statement]
  locals := by simp [sp.locals]
  own l hmem hspelled := by
    rcases List.mem_append.1 hmem with hmem | hmem
    · exact sp.own l hmem hspelled
    · rw [List.mem_singleton] at hmem
      subst hmem
      exact absurd rfl hspelled
  other l hmem hspelled := by
    rcases List.mem_append.1 hmem with hmem | hmem
    · exact sp.other l hmem hspelled
    · rw [List.mem_singleton] at hmem
      subst hmem
      exact ⟨n, hn, rfl⟩

end Sparing
end Writer

end EffectGraph
