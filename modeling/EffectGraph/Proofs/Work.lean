import Mathlib.Data.List.Basic
import Mathlib.Data.List.Forall2
import Mathlib.Data.List.Induction

/-!
# Work that may fail

How to take successful work apart: a sequence succeeds when its parts do, and
what every step of a loop keeps, the loop keeps.
-/

namespace EffectGraph

/-- The last state of work, finished or not. -/
def lastState : EStateM.Result ε σ α → σ
  | .ok _ s => s
  | .error _ s => s

/-- The answer of work that finished. -/
def answer? : EStateM.Result ε σ α → Option α
  | .ok a _ => some a
  | .error _ _ => none

theorem answer?_eq_some {r : EStateM.Result ε σ α} {a : α} : answer? r = some a ↔ ∃ s, r = .ok a s := by
  cases r <;> simp [answer?]

/-! ## Lists member by member -/

theorem forall₂_mem_left {R : α → β → Prop} {as : List α} {bs : List β} (h : List.Forall₂ R as bs) {a : α}
    (ha : a ∈ as) : ∃ b ∈ bs, R a b := by
  induction h with
  | nil => cases ha
  | cons hb _ ih =>
    rcases List.mem_cons.1 ha with rfl | ha
    · exact ⟨_, List.mem_cons_self, hb⟩
    · obtain ⟨b, hm, hR⟩ := ih ha
      exact ⟨b, List.mem_cons_of_mem _ hm, hR⟩

theorem forall₂_mem_right {R : α → β → Prop} {as : List α} {bs : List β} (h : List.Forall₂ R as bs) {b : β}
    (hb : b ∈ bs) : ∃ a ∈ as, R a b :=
  forall₂_mem_left (List.Forall₂.flip h) hb

theorem forall₂_getElem? {R : α → β → Prop} {as : List α} {bs : List β} (h : List.Forall₂ R as bs) {k : Nat} {a : α}
    (ha : as[k]? = some a) : ∃ b, bs[k]? = some b ∧ R a b := by
  induction h generalizing k with
  | nil => simp at ha
  | cons hb _ ih =>
    cases k with
    | zero =>
      cases ha
      exact ⟨_, rfl, hb⟩
    | succ k => exact ih ha

theorem forall₂_of_getElem? {R : α → β → Prop} {as : List α} {bs : List β} (hlen : as.length = bs.length)
    (h : ∀ (k : Nat) a b, as[k]? = some a → bs[k]? = some b → R a b) : List.Forall₂ R as bs := by
  induction as generalizing bs with
  | nil =>
    rw [List.eq_nil_of_length_eq_zero hlen.symm]
    exact .nil
  | cons a as ih =>
    cases bs with
    | nil => cases hlen
    | cons b bs =>
      exact .cons (h 0 a b rfl rfl) (ih (Nat.succ.inj hlen) fun k a b ha hb => h (k + 1) a b ha hb)

theorem forall₂_trans {R : α → β → Prop} {S : β → γ → Prop} {T : α → γ → Prop} {as : List α} {bs : List β}
    {cs : List γ} (h : List.Forall₂ R as bs) (h' : List.Forall₂ S bs cs)
    (hRS : ∀ a, ∀ b ∈ bs, ∀ c, R a b → S b c → T a c) : List.Forall₂ T as cs := by
  induction h generalizing cs with
  | nil =>
    cases h'
    exact .nil
  | @cons a b as bs hab _ ih =>
    obtain ⟨c, _, hbc, hrest, rfl⟩ := List.forall₂_cons_left_iff.1 h'
    exact .cons (hRS a b List.mem_cons_self c hab hbc) (ih hrest fun a b hb c => hRS a b (List.mem_cons_of_mem _ hb) c)

theorem forall₂_of_map_eq {f : α → γ} {f' : β → γ} {as : List α} {bs : List β} (h : as.map f = bs.map f') :
    List.Forall₂ (fun a b => f a = f' b) as bs := by
  induction as generalizing bs with
  | nil =>
    rw [List.map_nil, eq_comm, List.map_eq_nil_iff] at h
    rw [h]
    exact .nil
  | cons a as ih =>
    cases bs with
    | nil => cases h
    | cons b bs =>
      rw [List.map_cons, List.map_cons, List.cons.injEq] at h
      exact .cons h.1 (ih h.2)

theorem find?_of_forall₂ {R : α → β → Prop} {p : α → Bool} {q : β → Bool} {as : List α} {bs : List β}
    (h : List.Forall₂ R as bs) (hpq : ∀ a b, R a b → p a = q b) {a : α} (ha : as.find? p = some a) :
    ∃ b, bs.find? q = some b ∧ R a b := by
  induction h with
  | nil => cases ha
  | @cons x y xs ys hxy _ ih =>
    rw [List.find?_cons] at ha
    rw [List.find?_cons, ← hpq x y hxy]
    cases hp : p x with
    | true =>
      rw [hp] at ha
      cases ha
      exact ⟨y, rfl, hxy⟩
    | false =>
      rw [hp] at ha
      exact ih ha

/-- In a list of pairs without repeated keys each key leads to its value. -/
theorem lookup_zip [DecidableEq α] {as : List α} {bs : List β} (hn : as.Nodup) {k : Nat} {a : α} {b : β}
    (ha : as[k]? = some a) (hb : bs[k]? = some b) : (as.zip bs).lookup a = some b := by
  induction as generalizing bs k with
  | nil => simp at ha
  | cons x as ih =>
    obtain ⟨hx, hn⟩ := List.nodup_cons.1 hn
    cases bs with
    | nil => simp at hb
    | cons y bs =>
      rw [List.zip_cons_cons]
      cases k with
      | zero =>
        cases ha
        cases hb
        exact List.lookup_cons_self
      | succ k =>
        have hmem : a ∈ as := List.mem_of_getElem? ha
        have hne : (a == x) = false := by
          rw [beq_eq_false_iff_ne]
          rintro rfl
          exact hx hmem
        rw [List.lookup_cons, hne]
        exact ih hn ha hb

theorem exists_lookup [DecidableEq α] {ps : List (α × β)} {a : α} (h : a ∈ ps.map Prod.fst) :
    ∃ b, ps.lookup a = some b := by
  cases hl : ps.lookup a with
  | some b => exact ⟨b, rfl⟩
  | none =>
    rw [List.lookup_eq_none_iff] at hl
    obtain ⟨p, hp, rfl⟩ := List.mem_map.1 h
    simpa using hl p hp

theorem mem_of_lookup [DecidableEq α] {ps : List (α × β)} {a : α} {b : β} (h : ps.lookup a = some b) :
    (a, b) ∈ ps := by
  obtain ⟨before, rest, rfl, -⟩ := List.lookup_eq_some_iff.1 h
  exact List.mem_append_right _ List.mem_cons_self

theorem isSome_lookup_iff [DecidableEq α] (a : α) (ps : List (α × β)) :
    (ps.lookup a).isSome ↔ a ∈ ps.map Prod.fst := by
  constructor
  · intro h
    obtain ⟨b, hb⟩ := Option.isSome_iff_exists.1 h
    exact List.mem_map_of_mem (f := Prod.fst) (mem_of_lookup hb)
  · intro h
    obtain ⟨b, hb⟩ := exists_lookup h
    rw [hb]
    rfl

theorem lookup_eq_some_iff_mem [DecidableEq α] {ps : List (α × β)} (hn : (ps.map Prod.fst).Nodup) {a : α} {b : β} :
    ps.lookup a = some b ↔ (a, b) ∈ ps := by
  refine ⟨mem_of_lookup, fun h => ?_⟩
  obtain ⟨before, rest, rfl⟩ := List.mem_iff_append.1 h
  refine List.lookup_eq_some_iff.2 ⟨before, rest, rfl, fun p hp => ?_⟩
  simp only [List.map_append, List.map_cons] at hn
  have hd := (List.nodup_append.1 hn).2.2 p.1 (List.mem_map_of_mem hp) a List.mem_cons_self
  simpa using Ne.symm hd

theorem exists_forall₂_iff {R : α → β → Prop} {as : List α} :
    (∃ bs, List.Forall₂ R as bs) ↔ ∀ a ∈ as, ∃ b, R a b := by
  induction as with
  | nil => simp
  | cons a as ih =>
    simp only [List.forall₂_cons_left_iff, List.forall_mem_cons, ← ih]
    constructor
    · rintro ⟨_, b, bs, hb, hbs, -⟩
      exact ⟨⟨b, hb⟩, bs, hbs⟩
    · rintro ⟨⟨b, hb⟩, bs, hbs⟩
      exact ⟨_, b, bs, hb, hbs, rfl⟩

/-- A member that a filter keeps stands, in the list, after the kept members before
it and no others. -/
theorem exists_split_of_filter {p : α → Bool} {as done rest : List α} {a : α} (h : as.filter p = done ++ a :: rest) :
    ∃ before after, as = before ++ a :: after ∧ ∀ b ∈ before, p b → b ∈ done := by
  obtain ⟨front, back, rfl, rfl, hback⟩ := List.filter_eq_append_iff.1 h
  obtain ⟨skipped, after, rfl, hskipped, -, -⟩ := List.filter_eq_cons_iff.1 hback
  refine ⟨front ++ skipped, after, by simp, fun b hb hp => ?_⟩
  rcases List.mem_append.1 hb with hb | hb
  · exact List.mem_filter.2 ⟨hb, hp⟩
  · exact absurd hp (hskipped b hb)

/-- Where every member stands after its needs, one more can stand at the end. -/
theorem closed_snoc {needs : α → List α} {as : List α} {a : α}
    (h : ∀ before x after, as = before ++ x :: after → ∀ y ∈ needs x, y ∈ before) (ha : ∀ y ∈ needs a, y ∈ as) :
    ∀ before x after, as ++ [a] = before ++ x :: after → ∀ y ∈ needs x, y ∈ before := by
  intro before x after hsplit y hy
  rcases List.eq_nil_or_concat after with rfl | ⟨after, last, rfl⟩
  · obtain ⟨rfl, hx⟩ := List.append_inj' hsplit rfl
    cases hx
    exact ha y hy
  · rw [← List.concat_cons, List.concat_eq_append, ← List.append_assoc] at hsplit
    obtain ⟨hpre, -⟩ := List.append_inj' hsplit rfl
    exact h before x after hpre y hy

/-- What each part of a list counts beyond its own key, the whole counts beyond
the keys. -/
theorem count_flatMap_eq_add [DecidableEq β] {f g : α → List β} {k : α → β} {as : List α} {b : β}
    (h : ∀ a ∈ as, (f a).count b = (if b = k a then 1 else 0) + (g a).count b) :
    (as.flatMap f).count b = (as.map k).count b + (as.flatMap g).count b := by
  induction as with
  | nil => rfl
  | cons a as ih =>
    have hrest := ih fun a ha => h a (List.mem_cons_of_mem _ ha)
    rw [List.flatMap_cons, List.flatMap_cons, List.map_cons, List.count_append, List.count_append, List.count_cons,
      hrest, h a List.mem_cons_self]
    by_cases hb : b = k a
    · rw [if_pos hb, if_pos (beq_iff_eq.2 hb.symm)]
      omega
    · rw [if_neg hb, if_neg (by simpa using Ne.symm hb)]
      omega

/-- Lists that have the same members with a part have that part equally often. -/
theorem count_flatMap_congr [DecidableEq α] [DecidableEq β] {f : α → List β} {as bs : List α} {b : β}
    (h : ∀ a, b ∈ f a → as.count a = bs.count a) : (as.flatMap f).count b = (bs.flatMap f).count b := by
  have hfilter : ∀ as : List α, (as.flatMap f).count b = ((as.filter fun a => b ∈ f a).flatMap f).count b := by
    intro as
    induction as with
    | nil => rfl
    | cons a as ih =>
      by_cases ha : b ∈ f a
      · simp [ha, ih]
      · simp [ha, ih, List.count_eq_zero.2 ha]
  have hperm : (as.filter fun a => b ∈ f a).Perm (bs.filter fun a => b ∈ f a) := by
    rw [List.perm_iff_count]
    intro a
    by_cases ha : b ∈ f a
    · rw [List.count_filter (by simpa using ha), List.count_filter (by simpa using ha), h a ha]
    · rw [List.count_eq_zero.2 (by simp [ha]), List.count_eq_zero.2 (by simp [ha])]
  rw [hfilter as, hfilter bs]
  exact (hperm.flatMap_right f).count_eq b

theorem eraseDups_snoc [DecidableEq α] (as : List α) (a : α) :
    (as ++ [a]).eraseDups = if a ∈ as then as.eraseDups else as.eraseDups ++ [a] := by
  rw [List.eraseDups_append]
  by_cases h : a ∈ as
  · simp [List.removeAll, h]
  · simp [List.removeAll, h, List.eraseDups_cons]

/-- Taken once each, the members of a list are all different. -/
theorem nodup_eraseDups [DecidableEq α] (as : List α) : as.eraseDups.Nodup := by
  induction as using List.reverseRecOn with
  | nil => exact List.nodup_nil
  | append_singleton as a ih =>
    rw [eraseDups_snoc]
    split
    · exact ih
    · next h =>
      rw [List.nodup_append]
      refine ⟨ih, List.pairwise_singleton _ a, fun x hx y hy hxy => ?_⟩
      rw [List.mem_singleton] at hy
      rw [List.mem_eraseDups, hxy, hy] at hx
      exact h hx

/-! ## Sequences and loops -/

theorem Except.bind_eq_ok {x : Except ε α} {f : α → Except ε β} {b : β} :
    (x >>= f) = .ok b ↔ ∃ a, x = .ok a ∧ f a = .ok b := by
  cases x with
  | ok a => simp [bind, Except.bind]
  | error e => simp [bind, Except.bind]

theorem Except.toOption_eq_some {x : Except ε α} {a : α} : x.toOption = some a ↔ x = .ok a := by
  cases x with
  | ok a => simp [Except.toOption]
  | error e => simp [Except.toOption]

theorem EStateM.bind_eq_ok {x : EStateM ε σ α} {f : α → EStateM ε σ β} {s s' : σ} {b : β} :
    (x >>= f) s = .ok b s' ↔ ∃ a s₁, x s = .ok a s₁ ∧ f a s₁ = .ok b s' := by
  simp only [bind, EStateM.bind]
  cases x s with
  | ok a s₁ => simp
  | error e s₁ => simp

theorem EStateM.bind_of_ok {x : EStateM ε σ α} {f : α → EStateM ε σ β} {s s' : σ} {a : α} (h : x s = .ok a s') :
    (x >>= f) s = f a s' := by
  simp only [bind, EStateM.bind, h]

theorem EStateM.bind_of_error {x : EStateM ε σ α} {f : α → EStateM ε σ β} {s s' : σ} {e : ε}
    (h : x s = .error e s') : (x >>= f) s = .error e s' := by
  simp only [bind, EStateM.bind, h]

theorem EStateM.get_apply (s : σ) : (get : EStateM ε σ σ) s = .ok s s := rfl

theorem EStateM.modify_apply (f : σ → σ) (s : σ) : (modify f : EStateM ε σ PUnit) s = .ok ⟨⟩ (f s) := rfl

theorem Except.mapM_cons_eq_ok {f : α → Except ε β} {a : α} {as : List α} {bs : List β} :
    (a :: as).mapM f = .ok bs ↔ ∃ b bs', f a = .ok b ∧ as.mapM f = .ok bs' ∧ bs = b :: bs' := by
  rw [List.mapM_cons, Except.bind_eq_ok]
  constructor
  · rintro ⟨b, hb, h⟩
    obtain ⟨bs', hbs, h⟩ := Except.bind_eq_ok.1 h
    cases h
    exact ⟨b, bs', hb, hbs, rfl⟩
  · rintro ⟨b, bs', hb, hbs, rfl⟩
    exact ⟨b, hb, Except.bind_eq_ok.2 ⟨bs', hbs, rfl⟩⟩

theorem EStateM.mapM_cons_eq_ok {f : α → EStateM ε σ β} {a : α} {as : List α} {bs : List β} {s s' : σ} :
    (a :: as).mapM f s = .ok bs s' ↔
      ∃ b bs' s₁, f a s = .ok b s₁ ∧ as.mapM f s₁ = .ok bs' s' ∧ bs = b :: bs' := by
  rw [List.mapM_cons, EStateM.bind_eq_ok]
  constructor
  · rintro ⟨b, s₁, hb, h⟩
    obtain ⟨bs', s₂, hbs, h⟩ := EStateM.bind_eq_ok.1 h
    cases h
    exact ⟨b, bs', s₁, hb, hbs, rfl⟩
  · rintro ⟨b, bs', s₁, hb, hbs, rfl⟩
    exact ⟨b, s₁, hb, EStateM.bind_eq_ok.2 ⟨bs', s', hbs, rfl⟩⟩

/-- A list is mapped when each of its members is. -/
theorem Except.mapM_eq_ok {f : α → Except ε β} {as : List α} {bs : List β} :
    as.mapM f = .ok bs ↔ List.Forall₂ (fun a b => f a = .ok b) as bs := by
  induction as generalizing bs with
  | nil =>
    rw [List.forall₂_nil_left_iff]
    exact ⟨fun h => by cases h; rfl, fun h => by rw [h]; rfl⟩
  | cons a as ih =>
    rw [Except.mapM_cons_eq_ok, List.forall₂_cons_left_iff]
    simp only [ih]

theorem Except.exists_of_mem_mapM {f : α → Except ε β} {as : List α} {bs : List β} (h : as.mapM f = .ok bs)
    {b : β} (hb : b ∈ bs) : ∃ a ∈ as, f a = .ok b :=
  forall₂_mem_right (Except.mapM_eq_ok.1 h) hb

theorem Except.exists_of_mapM_mem {f : α → Except ε β} {as : List α} {bs : List β} (h : as.mapM f = .ok bs)
    {a : α} (ha : a ∈ as) : ∃ b ∈ bs, f a = .ok b :=
  forall₂_mem_left (Except.mapM_eq_ok.1 h) ha

theorem Except.getElem?_of_mapM {f : α → Except ε β} {as : List α} {bs : List β} (h : as.mapM f = .ok bs)
    {k : Nat} {a : α} (ha : as[k]? = some a) : ∃ b, bs[k]? = some b ∧ f a = .ok b :=
  forall₂_getElem? (Except.mapM_eq_ok.1 h) ha

theorem Except.exists_mapM_eq_ok {f : α → Except ε β} {as : List α} :
    (∃ bs, as.mapM f = .ok bs) ↔ ∀ a ∈ as, ∃ b, f a = .ok b := by
  simp only [Except.mapM_eq_ok]
  exact exists_forall₂_iff

theorem Except.mapM_singleton_eq_ok {f : α → Except ε β} {a : α} {bs : List β} :
    [a].mapM f = .ok bs ↔ ∃ b, f a = .ok b ∧ bs = [b] := by
  rw [Except.mapM_eq_ok, List.forall₂_cons_left_iff]
  simp

theorem Except.mapM_append_eq_ok {f : α → Except ε β} {as as' : List α} {bs : List β} :
    (as ++ as').mapM f = .ok bs ↔
      ∃ bs₁ bs₂, as.mapM f = .ok bs₁ ∧ as'.mapM f = .ok bs₂ ∧ bs = bs₁ ++ bs₂ := by
  induction as generalizing bs with
  | nil => simp [pure, Except.pure]
  | cons a as ih =>
    simp only [List.cons_append, Except.mapM_cons_eq_ok, ih]
    constructor
    · rintro ⟨b, _, hb, ⟨bs₁, bs₂, h₁, h₂, rfl⟩, rfl⟩
      exact ⟨b :: bs₁, bs₂, ⟨b, bs₁, hb, h₁, rfl⟩, h₂, rfl⟩
    · rintro ⟨_, bs₂, ⟨b, bs₁, hb, h₁, rfl⟩, h₂, rfl⟩
      exact ⟨b, _, hb, ⟨bs₁, bs₂, h₁, h₂, rfl⟩, rfl⟩

theorem EStateM.forM_cons_eq_ok {f : α → EStateM ε σ PUnit} {a : α} {as : List α} {s s' : σ} :
    (a :: as).forM f s = .ok ⟨⟩ s' ↔ ∃ s₁, f a s = .ok ⟨⟩ s₁ ∧ as.forM f s₁ = .ok ⟨⟩ s' := by
  change (f a >>= fun _ => as.forM f) s = _ ↔ _
  rw [EStateM.bind_eq_ok]
  exact ⟨fun ⟨_, s₁, h⟩ => ⟨s₁, h⟩, fun ⟨s₁, h⟩ => ⟨_, s₁, h⟩⟩

theorem EStateM.forM_append_eq_ok {f : α → EStateM ε σ PUnit} {as as' : List α} {s s' : σ} :
    (as ++ as').forM f s = .ok ⟨⟩ s' ↔ ∃ s₁, as.forM f s = .ok ⟨⟩ s₁ ∧ as'.forM f s₁ = .ok ⟨⟩ s' := by
  induction as generalizing s with
  | nil =>
    constructor
    · intro h
      exact ⟨s, rfl, h⟩
    · rintro ⟨_, h, h'⟩
      cases h
      exact h'
  | cons a as ih =>
    simp only [List.cons_append, EStateM.forM_cons_eq_ok, ih]
    constructor
    · rintro ⟨s₁, h₁, s₂, h₂, h₃⟩
      exact ⟨s₂, ⟨s₁, h₁, h₂⟩, h₃⟩
    · rintro ⟨s₂, ⟨s₁, h₁, h₂⟩, h₃⟩
      exact ⟨s₁, h₁, s₂, h₂, h₃⟩

/-- What each step of a loop does to what is left, the loop does. -/
theorem forM_ok {f : α → EStateM ε σ PUnit} {P : List α → σ → Prop}
    (step : ∀ a as s s', P (a :: as) s → f a s = .ok ⟨⟩ s' → P as s') {as : List α} {s s' : σ}
    (h : as.forM f s = .ok ⟨⟩ s') (hs : P as s) : P [] s' := by
  induction as generalizing s with
  | nil =>
    cases h
    exact hs
  | cons a as ih =>
    change (f a >>= fun _ => as.forM f) s = _ at h
    obtain ⟨_, s₁, h₁, h₂⟩ := EStateM.bind_eq_ok.1 h
    exact ih h₂ (step a as s s₁ hs h₁)

/-- A loop whose steps all succeed succeeds. -/
theorem exists_forM_ok {f : α → EStateM ε σ PUnit} {P : List α → σ → Prop}
    (step : ∀ a as s, P (a :: as) s → ∃ s', f a s = .ok ⟨⟩ s' ∧ P as s') {as : List α} {s : σ} (hs : P as s) :
    ∃ s', as.forM f s = .ok ⟨⟩ s' ∧ P [] s' := by
  induction as generalizing s with
  | nil => exact ⟨s, rfl, hs⟩
  | cons a as ih =>
    obtain ⟨s₁, h₁, hs₁⟩ := step a as s hs
    obtain ⟨s₂, h₂, hs₂⟩ := ih hs₁
    exact ⟨s₂, EStateM.bind_eq_ok.2 ⟨_, s₁, h₁, h₂⟩, hs₂⟩

/-- Two loops whose steps stay side by side stay side by side. -/
theorem forM_ok_of_forall₂ {f : α → EStateM ε σ PUnit} {f' : β → EStateM ε τ PUnit} {R : α → β → Prop}
    {S : σ → τ → Prop}
    (step : ∀ a b s t s', R a b → S s t → f a s = .ok ⟨⟩ s' → ∃ t', f' b t = .ok ⟨⟩ t' ∧ S s' t') {as : List α}
    {bs : List β} (h : List.Forall₂ R as bs) {s s' : σ} {t : τ} (hs : S s t) (hrun : as.forM f s = .ok ⟨⟩ s') :
    ∃ t', bs.forM f' t = .ok ⟨⟩ t' ∧ S s' t' := by
  induction h generalizing s t with
  | nil =>
    cases hrun
    exact ⟨t, rfl, hs⟩
  | @cons a b as bs hab _ ih =>
    obtain ⟨_, s₁, h₁, h₂⟩ := EStateM.bind_eq_ok.1 hrun
    obtain ⟨t₁, ht₁, hs₁⟩ := step a b s t s₁ hab hs h₁
    obtain ⟨t', ht', hs'⟩ := ih hs₁ h₂
    exact ⟨t', EStateM.bind_eq_ok.2 ⟨_, t₁, ht₁, ht'⟩, hs'⟩

/-- A relation that every step of a loop stays in, the loop stays in. -/
theorem mapM_ok {f : α → EStateM ε σ β} {R : σ → σ → Prop} (refl : ∀ s, R s s)
    (trans : ∀ {s s' s'' : σ}, R s s' → R s' s'' → R s s'') (step : ∀ a s b s', f a s = .ok b s' → R s s')
    {as : List α} {bs : List β} {s s' : σ} (h : as.mapM f s = .ok bs s') : R s s' := by
  induction as generalizing s bs with
  | nil =>
    cases h
    exact refl _
  | cons a as ih =>
    obtain ⟨b, bs', s₁, h₁, h₂, -⟩ := EStateM.mapM_cons_eq_ok.1 h
    exact trans (step a s b s₁ h₁) (ih h₂)

end EffectGraph
