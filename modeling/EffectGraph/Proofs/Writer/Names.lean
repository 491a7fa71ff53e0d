import EffectGraph.Proofs.Writer.Texts

/-!
# The names of locals

A fresh name is one that is not taken (`fresh_not_taken`), and in a writer whose
names are in order (`Named`) a reserved name is never that of a local.
-/

namespace EffectGraph

/-- The name that a statement binds, if it is a binding. -/
def Statement.binds? : Statement → Option Text
  | .binding name _ => some name
  | .line _ => none

namespace Writer

/-- The names that the statements bind, in order. -/
def bindingNames (w : Writer) : List Text := w.statements.toList.filterMap Statement.binds?

/-! ## Fresh names -/

/-- Different numbers give different names. -/
theorem numbered_inj {stem : Text} {j k : Nat} (h : numbered stem j = numbered stem k) : j = k := by
  have hglyphs := congrArg Text.glyphs h
  simp only [numbered, Text.glyphs_append, List.append_cancel_left_eq, Text.glyphs_ofString] at hglyphs
  have hchars := List.map_injective_iff.2 (fun _ _ he => by simpa using he) hglyphs
  have hdigits : Nat.toDigits 10 j = Nat.toDigits 10 k := by
    simpa [toString, Nat.toList_repr] using hchars
  rw [← Nat.ofDigitChars_ten_toDigits (n := j), hdigits, Nat.ofDigitChars_ten_toDigits]

theorem le_freeNumber (stem : Text) (taken : List Text) (k : Nat) : k ≤ freeNumber stem taken k := by
  fun_induction freeNumber stem taken k with
  | case1 taken k _ _ ih => omega
  | case2 => exact Nat.le_refl _

/-- The name of the first free number is not taken. -/
theorem fresh_not_taken (stem : Text) (taken : List Text) (k : Nat) :
    numbered stem (freeNumber stem taken k) ∉ taken := by
  fun_induction freeNumber stem taken k with
  | case1 taken k _ _ ih =>
    intro hmem
    have hle := le_freeNumber stem (taken.erase (numbered stem k)) (k + 1)
    have hne : numbered stem (freeNumber stem (taken.erase (numbered stem k)) (k + 1)) ≠ numbered stem k := by
      intro he
      have := numbered_inj he
      omega
    exact ih ((List.mem_erase_of_ne hne).2 hmem)
  | case2 _ _ hfree => exact hfree

/-! ## Reserved names -/

/-- The names of a writer are in order: those of locals and reservations are
taken, and no name is both. -/
structure Named (w : Writer) : Prop where
  locals_taken : ∀ p ∈ w.locals, p.2 ∈ w.taken
  reserved_taken : ∀ n ∈ w.reserved, n ∈ w.taken
  apart : ∀ p ∈ w.locals, p.2 ∉ w.reserved
  locals_once : (w.locals.map Prod.snd).Nodup
  reserved_once : w.reserved.Nodup

theorem named_new (stem : Text) : Named { stem := stem } := by
  constructor <;> simp

namespace Named

variable {w : Writer}

/-- Only names matter. -/
theorem of_same (n : Named w) {w' : Writer} (hl : w'.locals = w.locals) (ht : w'.taken = w.taken)
    (hr : w'.reserved = w.reserved) : Named w' := by
  obtain ⟨h₁, h₂, h₃, h₄, h₅⟩ := n
  constructor <;> simpa only [hl, ht, hr]

theorem reserve (n : Named w) {name : Text} {w' : Writer} (h : reserve name w = .ok () w') :
    Named w' ∧ w' = { w with taken := name :: w.taken, reserved := name :: w.reserved } := by
  unfold Writer.reserve at h
  split at h
  · cases h
  · next hfree =>
    cases h
    refine ⟨⟨?_, ?_, ?_, n.locals_once, ?_⟩, rfl⟩
    · exact fun p hp => List.mem_cons_of_mem _ (n.locals_taken p hp)
    · intro x hx
      rcases List.mem_cons.1 hx with rfl | hx
      · exact List.mem_cons_self
      · exact List.mem_cons_of_mem _ (n.reserved_taken x hx)
    · intro p hp hx
      rcases List.mem_cons.1 hx with hx | hx
      · exact hfree (hx ▸ n.locals_taken p hp)
      · exact n.apart p hp hx
    · exact List.nodup_cons.2 ⟨fun hx => hfree (n.reserved_taken name hx), n.reserved_once⟩

/-- A fresh name is not that of a local. -/
theorem fresh_not_local (n : Named w) :
    ∀ p ∈ w.locals, p.2 ≠ numbered w.stem (freeNumber w.stem w.taken w.counter) := fun p hp he =>
  fresh_not_taken w.stem w.taken w.counter (he ▸ n.locals_taken p hp)

/-- A fresh name is not reserved. -/
theorem fresh_not_reserved (n : Named w) : numbered w.stem (freeNumber w.stem w.taken w.counter) ∉ w.reserved :=
  fun hr => fresh_not_taken w.stem w.taken w.counter (n.reserved_taken _ hr)

/-- A reservation may be used up. -/
theorem erase (n : Named w) (name : Text) : Named { w with reserved := w.reserved.erase name } where
  locals_taken := n.locals_taken
  reserved_taken x hx := n.reserved_taken x (List.mem_of_mem_erase hx)
  apart p hp hx := n.apart p hp (List.mem_of_mem_erase hx)
  locals_once := n.locals_once
  reserved_once := n.reserved_once.erase name

/-- A local with a name that no local has and that is reserved no longer. -/
theorem withLocal (n : Named w) {h : ExprHandle} {name : Text} (hl : ∀ p ∈ w.locals, p.2 ≠ name)
    (hr : name ∉ w.reserved) : Named (w.withLocal h name) := by
  unfold Writer.withLocal
  refine ⟨?_, ?_, ?_, ?_, n.reserved_once⟩
  · intro p hp
    rcases List.mem_append.1 hp with hp | hp
    · exact List.mem_insert_of_mem (n.locals_taken p hp)
    · rw [List.mem_singleton] at hp
      subst hp
      exact List.mem_insert_self
  · exact fun x hx => List.mem_insert_of_mem (n.reserved_taken x hx)
  · intro p hp
    rcases List.mem_append.1 hp with hp | hp
    · exact n.apart p hp
    · rw [List.mem_singleton] at hp
      subst hp
      exact hr
  · rw [List.map_append, List.nodup_append]
    refine ⟨n.locals_once, by simp, ?_⟩
    rintro a ha b hb rfl
    obtain ⟨p, hp, rfl⟩ := List.mem_map.1 ha
    rw [List.map_cons, List.map_nil, List.mem_singleton] at hb
    exact hl p hp hb

end Named

end Writer
end EffectGraph
