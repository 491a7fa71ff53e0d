import EffectGraph.Proofs.Work

/-!
# Work that failed

How to take failed work apart: a sequence fails with the first of its parts that
fails, and a loop at the first member where its step fails, after all members
before it went through.
-/

namespace EffectGraph

theorem Except.bind_eq_error {x : Except ε α} {f : α → Except ε β} {e : ε} :
    (x >>= f) = .error e ↔ x = .error e ∨ ∃ a, x = .ok a ∧ f a = .error e := by
  cases x with
  | ok a => simp [bind, Except.bind]
  | error e' => simp [bind, Except.bind]

theorem Except.map_eq_error {x : Except ε α} {f : α → β} {e : ε} : f <$> x = .error e ↔ x = .error e := by
  cases x <;> simp [Functor.map, Except.map]

theorem Except.throw_eq (e : ε) : (throw e : Except ε α) = .error e := rfl

theorem EStateM.bind_eq_error {x : EStateM ε σ α} {f : α → EStateM ε σ β} {s s' : σ} {e : ε} :
    (x >>= f) s = .error e s' ↔ x s = .error e s' ∨ ∃ a s₁, x s = .ok a s₁ ∧ f a s₁ = .error e s' := by
  simp only [bind, EStateM.bind]
  cases x s with
  | ok a s₁ => simp
  | error e' s₁ => simp

/-- A fold fails at the first member whose step fails. -/
theorem Except.foldlM_eq_error {f : β → α → Except ε β} {as : List α} {b : β} {e : ε} :
    as.foldlM f b = .error e ↔ ∃ done a rest b₁, as = done ++ a :: rest ∧ done.foldlM f b = .ok b₁ ∧
      f b₁ a = .error e := by
  constructor
  · intro h
    induction as generalizing b with
    | nil => cases h
    | cons a as ih =>
      rw [List.foldlM_cons, Except.bind_eq_error] at h
      rcases h with h | ⟨b₁, hb, h⟩
      · exact ⟨[], a, as, b, rfl, rfl, h⟩
      · obtain ⟨done, a', rest, b₂, rfl, hdone, ha'⟩ := ih h
        refine ⟨a :: done, a', rest, b₂, rfl, ?_, ha'⟩
        rw [List.foldlM_cons]
        exact Except.bind_eq_ok.2 ⟨b₁, hb, hdone⟩
  · rintro ⟨done, a, rest, b₁, rfl, hdone, ha⟩
    rw [List.foldlM_append, Except.bind_eq_error]
    refine .inr ⟨b₁, hdone, ?_⟩
    rw [List.foldlM_cons]
    exact Except.bind_eq_error.2 (.inl ha)

/-- A list is mapped up to the first member that cannot be. -/
theorem Except.mapM_eq_error {f : α → Except ε β} {as : List α} {e : ε} :
    as.mapM f = .error e ↔ ∃ done a rest, as = done ++ a :: rest ∧ (∀ x ∈ done, ∃ y, f x = .ok y) ∧
      f a = .error e := by
  induction as with
  | nil => simp [pure, Except.pure]
  | cons a as ih =>
    rw [List.mapM_cons, Except.bind_eq_error]
    constructor
    · rintro (h | ⟨b, hb, h⟩)
      · exact ⟨[], a, as, rfl, by simp, h⟩
      · rcases Except.bind_eq_error.1 h with h | ⟨bs, -, h⟩
        · obtain ⟨done, a', rest, rfl, hdone, ha'⟩ := ih.1 h
          exact ⟨a :: done, a', rest, rfl, List.forall_mem_cons.2 ⟨⟨b, hb⟩, hdone⟩, ha'⟩
        · cases h
    · rintro ⟨done, a', rest, hsplit, hdone, ha'⟩
      cases done with
      | nil =>
        cases hsplit
        exact .inl ha'
      | cons x done =>
        cases hsplit
        obtain ⟨⟨b, hb⟩, hdone⟩ := List.forall_mem_cons.1 hdone
        exact .inr ⟨b, hb, Except.bind_eq_error.2 (.inl (ih.2 ⟨done, a', rest, rfl, hdone, ha'⟩))⟩

/-- A loop fails at the first member whose step fails. -/
theorem EStateM.forM_eq_error {f : α → EStateM ε σ PUnit} {as : List α} {s s' : σ} {e : ε} :
    as.forM f s = .error e s' ↔ ∃ done a rest s₁, as = done ++ a :: rest ∧ done.forM f s = .ok ⟨⟩ s₁ ∧
      f a s₁ = .error e s' := by
  constructor
  · intro h
    induction as generalizing s with
    | nil => cases h
    | cons a as ih =>
      rcases EStateM.bind_eq_error.1 h with h | ⟨_, s₁, h₁, h⟩
      · exact ⟨[], a, as, s, rfl, rfl, h⟩
      · obtain ⟨done, a', rest, s₂, rfl, hdone, ha'⟩ := ih h
        exact ⟨a :: done, a', rest, s₂, rfl, EStateM.bind_eq_ok.2 ⟨_, s₁, h₁, hdone⟩, ha'⟩
  · rintro ⟨done, a, rest, s₁, rfl, hdone, ha⟩
    induction done generalizing s with
    | nil =>
      cases hdone
      exact EStateM.bind_eq_error.2 (.inl ha)
    | cons b done ih =>
      obtain ⟨_, s₂, hb, hdone⟩ := EStateM.bind_eq_ok.1 hdone
      exact EStateM.bind_eq_error.2 (.inr ⟨_, s₂, hb, ih hdone⟩)

/-- A list is mapped up to the first member that cannot be. -/
theorem EStateM.mapM_eq_error {f : α → EStateM ε σ β} {as : List α} {s s' : σ} {e : ε} :
    as.mapM f s = .error e s' ↔ ∃ done a rest bs s₁, as = done ++ a :: rest ∧ done.mapM f s = .ok bs s₁ ∧
      f a s₁ = .error e s' := by
  induction as generalizing s with
  | nil => simp [pure, EStateM.pure]
  | cons a as ih =>
    rw [List.mapM_cons, EStateM.bind_eq_error]
    constructor
    · rintro (h | ⟨b, s₁, hb, h⟩)
      · exact ⟨[], a, as, [], s, rfl, rfl, h⟩
      · rcases EStateM.bind_eq_error.1 h with h | ⟨bs, s₂, -, h⟩
        · obtain ⟨done, a', rest, bs, s₂, rfl, hdone, ha'⟩ := ih.1 h
          exact ⟨a :: done, a', rest, b :: bs, s₂, rfl, EStateM.mapM_cons_eq_ok.2 ⟨b, bs, s₁, hb, hdone, rfl⟩, ha'⟩
        · cases h
    · rintro ⟨done, a', rest, bs, s₂, hsplit, hdone, ha'⟩
      cases done with
      | nil =>
        cases hsplit
        cases hdone
        exact .inl ha'
      | cons x done =>
        cases hsplit
        obtain ⟨b, bs', s₁, hb, hbs, -⟩ := EStateM.mapM_cons_eq_ok.1 hdone
        exact .inr ⟨b, s₁, hb, EStateM.bind_eq_error.2 (.inl (ih.2 ⟨done, a', rest, bs', s₂, rfl, hbs, ha'⟩))⟩

end EffectGraph
