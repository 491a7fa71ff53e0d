import EffectGraph.Proofs.Writer.Modules
import EffectGraph.Proofs.Writer.Names

/-!
# What a writer has named

Calls on a writer reserve names, bind them to expressions and make fresh ones, and the
writer keeps none of these lists: it knows the names that are taken, those that are
still reserved, and the next number. `Orderly` says how these tables tell what has been
reserved, bound and made by then, and every call keeps it (`Orderly.call`). So after
any calls with any modules no name has been bound twice, no fresh name made twice or
found among the reserved ones, and a wanted name is refused just if it has been bound
(`names_kept_apart`).
-/

namespace EffectGraph.Writer

/-! ## The search for a number -/

/-- All numbers that the search passes have names that are taken. -/
theorem taken_of_lt_freeNumber {stem : Text} {taken : List Text} {k j : Nat} (hk : k ≤ j)
    (hj : j < freeNumber stem taken k) : numbered stem j ∈ taken := by
  fun_induction freeNumber stem taken k with
  | case1 taken k hmem _ ih =>
    rcases Nat.eq_or_lt_of_le hk with rfl | hlt
    · exact hmem
    · exact List.mem_of_mem_erase (ih hlt hj)
  | case2 => omega

/-- The search tries at most one name more than are taken. -/
theorem freeNumber_le (stem : Text) (taken : List Text) (k : Nat) : freeNumber stem taken k ≤ k + taken.length := by
  fun_induction freeNumber stem taken k with
  | case1 taken k hmem _ ih =>
    have hpos := List.length_pos_of_mem hmem
    rw [List.length_erase_of_mem hmem] at ih
    omega
  | case2 => exact Nat.le_add_right _ _

/-! ## What calls reserve, bind and make -/

/-- The name that a call reserves. -/
def Call.reserved? (w : Writer) : Call → Option Text
  | .reserve n => (answer? (Writer.reserve n w)).map fun _ => n
  | _ => none

/-- The name that a call binds to an expression that has no local yet. -/
def Call.bound? (m : Module) (w : Writer) : Call → Option Text
  | .evalToLocal h name =>
    if (w.locals.lookup h).isSome then none else answer? (Writer.evalToLocal m h name w)
  | _ => none

/-- The fresh name that a call makes, to return it or to bind it. -/
def Call.fresh? (m : Module) (w : Writer) : Call → Option Text
  | .freshName => answer? (Writer.freshName w)
  | .evalToLocal h none => Call.bound? m w (.evalToLocal h none)
  | _ => none

/-- Lines that are written and texts that are rendered leave the names as they are. -/
def SameNames (w w' : Writer) : Prop :=
  ∃ a s lines, w' = { w with arena := a, rendering := s, statements := lines } ∧ w'.bindingNames = w.bindingNames

/-- What a call does to the names: nothing, or it reserves one, or it makes one, or it
claims one for a local. -/
theorem call_names (m : Module) (w : Writer) (c : Call) :
    (c.bound? m w = none ∧ c.fresh? m w = none ∧
      (c.reserved? w = none ∧ SameNames w (lastState (call m c w)) ∨
        ∃ n, c.reserved? w = some n ∧ reserve n w = .ok () (lastState (call m c w)))) ∨
    (c.bound? m w = none ∧ c.reserved? w = none ∧
      ∃ n, c.fresh? m w = some n ∧ freshName w = .ok n (lastState (call m c w))) ∨
    ∃ h name n s w₁, c.bound? m w = some n ∧ c.fresh? m w = (if name = none then some n else none) ∧
      c.reserved? w = none ∧ claim name { w with arena := some m.key, rendering := s } = .ok n w₁ ∧
      lastState (call m c w) = w₁.withLocal h n := by
  cases c with
  | eval h =>
    refine .inl ⟨rfl, rfl, .inl ⟨rfl, ?_⟩⟩
    rw [call, lastState_ignore]
    rcases eval_cases m h w with ⟨s, -, -, he⟩ | ⟨e, s, -, -, he⟩ | ⟨-, he⟩
    all_goals
      rw [he]
      exact ⟨_, _, _, rfl, rfl⟩
  | evalToLocal h name =>
    have hfresh : ∀ o, Call.bound? m w (.evalToLocal h name) = o →
        Call.fresh? m w (.evalToLocal h name) = if name = none then o else none := by
      rintro _ rfl
      cases name <;> rfl
    rw [call, lastState_ignore]
    rcases evalToLocal_cases m h name w with ⟨n, hl, he⟩ | ⟨hl, ⟨n, s, w₁, -, -, hc, he⟩ | ⟨e, s, a, -, -, he⟩⟩
    · have hbound : Call.bound? m w (.evalToLocal h name) = none := by
        simp [Call.bound?, hl]
      refine .inl ⟨hbound, by rw [hfresh _ hbound, ite_self], .inl ⟨rfl, ?_⟩⟩
      rw [he]
      exact ⟨_, _, _, rfl, rfl⟩
    · have hbound : Call.bound? m w (.evalToLocal h name) = some n := by
        simp [Call.bound?, hl, he, answer?]
      exact .inr (.inr ⟨h, name, n, s, w₁, hbound, hfresh _ hbound, rfl, hc, by rw [he, lastState]⟩)
    · have hbound : Call.bound? m w (.evalToLocal h name) = none := by
        simp [Call.bound?, hl, he, answer?]
      refine .inl ⟨hbound, by rw [hfresh _ hbound, ite_self], .inl ⟨rfl, ?_⟩⟩
      rw [he]
      exact ⟨_, _, _, rfl, rfl⟩
  | reserve name =>
    refine .inl ⟨rfl, rfl, ?_⟩
    by_cases hn : name ∈ w.taken
    · refine .inl ⟨by simp [Call.reserved?, reserve, hn, answer?], w.arena, w.rendering, w.statements, ?_, ?_⟩
      all_goals simp [call, reserve, hn, lastState]
    · exact .inr ⟨name, by simp [Call.reserved?, reserve, hn, answer?], by simp [call, reserve, hn, lastState]⟩
  | freshName => exact .inr (.inl ⟨rfl, rfl, _, rfl, rfl⟩)
  | pushLine t =>
    refine .inl ⟨rfl, rfl, .inl ⟨rfl, w.arena, w.rendering, w.statements.push (.line t), rfl, ?_⟩⟩
    simp [call, pushStatement, EStateM.modify_apply, lastState, bindingNames, Statement.binds?]

/-! ## What the tables tell -/

/-- The tables of a writer with a stem that has reserved some names, bound some and made
some fresh ones. -/
structure Orderly (stem : Text) (reserved bound fresh : List Text) (w : Writer) : Prop where
  stem_eq : w.stem = stem
  named : Named w
  locals : w.locals.map Prod.snd = bound
  bindings : w.bindingNames = bound
  accounted : ∀ n ∈ w.taken, n ∈ bound ∨ n ∈ w.reserved
  waiting : ∀ n, n ∈ w.reserved ↔ n ∈ reserved ∧ n ∉ bound
  numbers : ∃ numbers : List Nat, fresh = numbers.map (numbered stem) ∧ numbers.Pairwise (· < ·) ∧
    ∀ k ∈ numbers, k < w.counter

theorem orderly_new (stem : Text) : Orderly stem [] [] [] { stem := stem } where
  stem_eq := rfl
  named := named_new stem
  locals := rfl
  bindings := rfl
  accounted := by simp
  waiting := by simp
  numbers := ⟨[], rfl, .nil, by simp⟩

namespace Orderly

variable {stem : Text} {reserved bound fresh : List Text} {w w' : Writer}

theorem mem_bound_iff (o : Orderly stem reserved bound fresh w) {n : Text} : n ∈ bound ↔ ∃ p ∈ w.locals, p.2 = n := by
  rw [← o.locals, List.mem_map]

theorem taken_of_bound (o : Orderly stem reserved bound fresh w) {n : Text} (hn : n ∈ bound) : n ∈ w.taken := by
  obtain ⟨p, hp, rfl⟩ := o.mem_bound_iff.1 hn
  exact o.named.locals_taken p hp

/-- No name has been bound twice. -/
theorem nodup_bound (o : Orderly stem reserved bound fresh w) : bound.Nodup := o.locals ▸ o.named.locals_once

/-- No fresh name has been made twice. -/
theorem nodup_fresh (o : Orderly stem reserved bound fresh w) : fresh.Nodup := by
  obtain ⟨numbers, rfl, hrising, -⟩ := o.numbers
  exact (hrising.imp Nat.ne_of_lt).map _ fun i j hne he => hne (numbered_inj he)

/-- A name from the next number on has not been made. -/
theorem numbered_not_mem_fresh (o : Orderly stem reserved bound fresh w) {k : Nat} (hk : w.counter ≤ k) :
    numbered stem k ∉ fresh := by
  obtain ⟨numbers, rfl, -, hbelow⟩ := o.numbers
  intro hmem
  obtain ⟨j, hj, he⟩ := List.mem_map.1 hmem
  have hlt := hbelow j hj
  have hjk := numbered_inj he
  omega

/-- A name that is reserved has not been bound. -/
theorem not_mem_bound (o : Orderly stem reserved bound fresh w) {n : Text} (hn : n ∈ w.reserved) : n ∉ bound := by
  intro hmem
  obtain ⟨p, hp, rfl⟩ := o.mem_bound_iff.1 hmem
  exact o.named.apart p hp hn

/-- The names that are taken are those that have been bound or reserved. -/
theorem mem_taken_iff (o : Orderly stem reserved bound fresh w) {n : Text} :
    n ∈ w.taken ↔ n ∈ bound ∨ n ∈ reserved := by
  constructor
  · intro hn
    exact (o.accounted n hn).imp_right fun hr => ((o.waiting n).1 hr).1
  · intro hn
    by_cases hbound : n ∈ bound
    · exact o.taken_of_bound hbound
    · exact o.named.reserved_taken n ((o.waiting n).2 ⟨hn.resolve_left hbound, hbound⟩)

/-- A name can be reserved if it has not been bound or reserved before. -/
theorem reserve_succeeds_iff (o : Orderly stem reserved bound fresh w) {n : Text} :
    (∃ w', Writer.reserve n w = .ok () w') ↔ n ∉ bound ∧ n ∉ reserved := by
  rw [← not_or, ← o.mem_taken_iff, Writer.reserve]
  split
  · next hn => simp [hn]
  · next hn => simp [hn]

theorem sameNames (o : Orderly stem reserved bound fresh w) (h : SameNames w w') :
    Orderly stem reserved bound fresh w' := by
  obtain ⟨a, s, lines, rfl, hbindings⟩ := h
  exact ⟨o.stem_eq, o.named.of_same rfl rfl rfl, o.locals, hbindings.trans o.bindings, o.accounted,
    o.waiting, o.numbers⟩

theorem reserve (o : Orderly stem reserved bound fresh w) {n : Text} (h : Writer.reserve n w = .ok () w') :
    Orderly stem (reserved ++ [n]) bound fresh w' := by
  have hnew := (o.reserve_succeeds_iff.1 ⟨w', h⟩).1
  obtain ⟨hnamed, rfl⟩ := o.named.reserve h
  refine ⟨o.stem_eq, hnamed, o.locals, o.bindings, fun x hx => ?_, fun x => ?_, o.numbers⟩
  · rcases List.mem_cons.1 hx with rfl | hx
    · exact .inr List.mem_cons_self
    · exact (o.accounted x hx).imp_right (List.mem_cons_of_mem _)
  · rw [List.mem_cons, o.waiting, List.mem_append, List.mem_singleton]
    by_cases hx : x = n
    · simp [hx, hnew]
    · simp [hx]

theorem freshName (o : Orderly stem reserved bound fresh w) {n : Text} (h : Writer.freshName w = .ok n w') :
    Orderly stem reserved bound (fresh ++ [n]) w' := by
  cases h
  have hle := le_freeNumber w.stem w.taken w.counter
  obtain ⟨numbers, rfl, hrising, hbelow⟩ := o.numbers
  refine ⟨o.stem_eq, o.named.of_same rfl rfl rfl, o.locals, o.bindings, o.accounted, o.waiting,
    numbers ++ [freeNumber w.stem w.taken w.counter], ?_, ?_, fun k hk => ?_⟩
  · rw [List.map_append, List.map_singleton, o.stem_eq]
  · refine List.pairwise_append.2 ⟨hrising, List.pairwise_singleton _ _, fun j hj k hk => ?_⟩
    rw [List.mem_singleton.1 hk]
    exact Nat.lt_of_lt_of_le (hbelow j hj) hle
  · rcases List.mem_append.1 hk with hk | hk
    · exact Nat.lt_succ_of_le (Nat.le_trans (Nat.le_of_lt (hbelow k hk)) hle)
    · rw [List.mem_singleton.1 hk]
      exact Nat.lt_succ_self _

/-- A local with a name that has not been bound; if the name was reserved, it is no
longer. -/
theorem withLocal (o : Orderly stem reserved bound fresh w) (h : ExprHandle) {n : Text} (hbound : n ∉ bound) :
    Orderly stem reserved (bound ++ [n]) fresh (Writer.withLocal { w with reserved := w.reserved.erase n } h n) where
  stem_eq := o.stem_eq
  named := (o.named.erase n).withLocal (fun p hp he => hbound (o.mem_bound_iff.2 ⟨p, hp, he⟩))
    o.named.reserved_once.not_mem_erase
  locals := by rw [Writer.withLocal, List.map_append, o.locals]; rfl
  bindings := by
    have hbindings := o.bindings
    unfold bindingNames at hbindings ⊢
    rw [Writer.withLocal, Array.toList_push, List.filterMap_append, hbindings]
    rfl
  accounted x hx := by
    by_cases hxn : x = n
    · exact .inl (List.mem_append_right _ (List.mem_singleton.2 hxn))
    · have hx := (List.mem_insert_iff.1 hx).resolve_left hxn
      exact (o.accounted x hx).imp (List.mem_append_left _) (List.mem_erase_of_ne hxn).2
  waiting x := by
    change x ∈ w.reserved.erase n ↔ _
    rw [o.named.reserved_once.mem_erase_iff, o.waiting, List.mem_append, List.mem_singleton, not_or]
    exact and_comm.trans and_assoc
  numbers := o.numbers

/-- A local whose name is claimed: a fresh one, or one that is wanted and reserved or
not taken, which has not been bound. -/
theorem claim (o : Orderly stem reserved bound fresh w) {name : Option Text} {n : Text}
    (h : Writer.claim name w = .ok n w') (x : ExprHandle) :
    Orderly stem reserved (bound ++ [n]) (fresh ++ (if name = none then some n else none).toList)
      (w'.withLocal x n) := by
  cases name with
  | none =>
    have hn : n ∉ w.taken := by
      cases h
      exact fresh_not_taken _ _ _
    have hsame : { w' with reserved := w'.reserved.erase n } = w' := by
      cases h
      rw [List.erase_of_not_mem fun hmem => hn (o.named.reserved_taken _ hmem)]
    rw [← hsame]
    exact (o.freshName h).withLocal x fun hmem => hn (o.taken_of_bound hmem)
  | some wanted =>
    rcases claim_some wanted w with ⟨hfree, hc⟩ | ⟨-, hc⟩
    · rw [hc] at h
      cases h
      rw [if_neg (Option.some_ne_none n), Option.toList_none, List.append_nil]
      refine o.withLocal x ?_
      rcases hfree with hr | ht
      · exact o.not_mem_bound hr
      · exact fun hmem => ht (o.taken_of_bound hmem)
    · rw [hc] at h
      cases h

/-- A call adds to what has been reserved, bound and made what it reserves, binds and
makes. -/
theorem call (o : Orderly stem reserved bound fresh w) (m : Module) (c : Call) :
    Orderly stem (reserved ++ (c.reserved? w).toList) (bound ++ (c.bound? m w).toList)
      (fresh ++ (c.fresh? m w).toList) (lastState (Writer.call m c w)) := by
  rcases call_names m w c with ⟨hb, hf, ⟨hr, hsame⟩ | ⟨n, hr, hn⟩⟩ | ⟨hb, hr, n, hf, hn⟩ |
    ⟨h, name, n, s, w₁, hb, hf, hr, hc, he⟩
  · simp only [hb, hf, hr, Option.toList_none, List.append_nil]
    exact o.sameNames hsame
  · simp only [hb, hf, hr, Option.toList_none, List.append_nil]
    exact o.reserve hn
  · simp only [hb, hf, hr, Option.toList_none, List.append_nil]
    exact o.freshName hn
  · rw [hb, hf, hr, he, Option.toList_none, List.append_nil]
    have o' : Orderly stem reserved bound fresh { w with arena := some m.key, rendering := s } :=
      o.sameNames ⟨_, _, _, rfl, rfl⟩
    exact o'.claim hc h

/-- A wanted name is refused if it has been bound, and given to the expression
otherwise. -/
theorem evalToLocal_some (o : Orderly stem reserved bound fresh w) {m : Module} {h : ExprHandle}
    (hl : w.locals.lookup h = none)
    {t : Text} (he : eval m h w = .ok t w') (n : Text) :
    (n ∈ bound → evalToLocal m h (some n) w = .error (.nameTaken n) w') ∧
      (n ∉ bound → ∃ w'', evalToLocal m h (some n) w = .ok n w'') := by
  have hopen : evalToLocal m h (some n) w = (do
      let name ← Writer.claim (some n)
      declare h name t
      return name : Write Text) w' := by
    simp only [evalToLocal, bind, EStateM.bind, EStateM.get_apply, hl, he]
  obtain ⟨-, s, -, -, rfl⟩ := eval_eq_ok.1 he
  rw [hopen]
  rcases claim_some n { w with arena := some m.key, rendering := s } with ⟨hfree, hc⟩ | ⟨⟨hr, ht⟩, hc⟩
  · refine ⟨fun hbound => ?_, fun _ => ?_⟩
    · rcases hfree with hr | ht
      · exact absurd hbound (o.not_mem_bound hr)
      · exact absurd (o.taken_of_bound hbound) ht
    · simp only [bind, EStateM.bind, hc]
      exact ⟨_, rfl⟩
  · refine ⟨fun _ => by simp only [bind, EStateM.bind, hc], fun hbound => ?_⟩
    exact absurd ((o.accounted n ht).resolve_left hbound) hr

end Orderly

/-! ## Any calls with any modules -/

namespace Bench

variable [Stack]

/-- What a call on the writer gives. -/
def Act.given (f : Module → Writer → Call → Option α) (b : Bench) : Act → Option α
  | .write k c => f (b.modules k) b.writer c
  | .build _ _ => none

/-- What the calls of a run give, in order. -/
def gathered (f : Module → Writer → Call → Option α) : Bench → List Act → List α
  | _, [] => []
  | b, act :: acts => (act.given f b).toList ++ gathered f (b.after act) acts

theorem gathered_snoc (f : Module → Writer → Call → Option α) (b : Bench) (acts : List Act) (act : Act) :
    gathered f b (acts ++ [act]) = gathered f b acts ++ (act.given f (acts.foldl after b)).toList := by
  induction acts generalizing b with
  | nil => simp [gathered]
  | cons a acts ih => simp [gathered, ih]

/-- The names that the calls of a run reserve, in order. -/
def reservedNames (stem : Text) (acts : List Act) : List Text := gathered (fun _ => Call.reserved?) (new stem) acts

/-- The names that the calls of a run bind to expressions, in order. -/
def boundNames (stem : Text) (acts : List Act) : List Text := gathered Call.bound? (new stem) acts

/-- The fresh names that the calls of a run make, in order. -/
def freshNames (stem : Text) (acts : List Act) : List Text := gathered Call.fresh? (new stem) acts

theorem orderly_reached (stem : Text) (acts : List Act) :
    Orderly stem (reservedNames stem acts) (boundNames stem acts) (freshNames stem acts)
      (reached stem acts).writer := by
  induction acts using List.reverseRecOn with
  | nil => exact orderly_new stem
  | append_singleton acts act ih =>
    rw [reservedNames, boundNames, freshNames, gathered_snoc, gathered_snoc, gathered_snoc, reached, List.foldl_append]
    cases act with
    | write k c => exact ih.call _ c
    | build k c =>
      simp only [Act.given, Option.toList_none, List.append_nil]
      exact ih

/-- After any calls on a writer with any modules, failed ones among them:
the names of the lines that bind locals are those that calls have bound, all different;
a name can be reserved if no call has bound or reserved it before, and one that has been
reserved stays so until a call binds it, which one at most does;
a fresh name is found by trying the numbers from the next one on, at most one more than
there are names taken, and is the first that has neither been bound nor been reserved; no
fresh name is made twice, whether it is returned or bound, and the one that an expression
gets where no name is wanted is the one that would be returned;
and an expression that can be rendered and has no local yet gets the wanted name, unless
a call before has bound it: then the name is refused. -/
theorem names_kept_apart (stem : Text) (acts : List Act) :
    let w := (reached stem acts).writer
    let reserved := reservedNames stem acts
    let bound := boundNames stem acts
    let fresh := freshNames stem acts
    (w.bindingNames = bound ∧ bound.Nodup) ∧
    (∀ n, (∃ w', reserve n w = .ok () w') ↔ n ∉ bound ∧ n ∉ reserved) ∧
    (∀ n, n ∈ w.reserved ↔ n ∈ reserved ∧ n ∉ bound) ∧
    (∃ k, freshName w = .ok (numbered stem k) { w with counter := k + 1 } ∧
      w.counter ≤ k ∧ k ≤ w.counter + w.taken.length ∧
      (∀ j, w.counter ≤ j → j < k → numbered stem j ∈ bound ∨ numbered stem j ∈ reserved) ∧
      numbered stem k ∉ bound ∧ numbered stem k ∉ reserved ∧ numbered stem k ∉ fresh) ∧
    fresh.Nodup ∧
    (∀ m h n w', w.locals.lookup h = none → evalToLocal m h none w = .ok n w' →
      ∃ w'', freshName w = .ok n w'') ∧
    ∀ m h t w', w.locals.lookup h = none → eval m h w = .ok t w' → ∀ n,
      (n ∈ bound → evalToLocal m h (some n) w = .error (.nameTaken n) w') ∧
      (n ∉ bound → ∃ w'', evalToLocal m h (some n) w = .ok n w'') := by
  intro w reserved bound fresh
  have o : Orderly stem reserved bound fresh w := orderly_reached stem acts
  have hfree : numbered stem (freeNumber stem w.taken w.counter) ∉ w.taken := fresh_not_taken _ _ _
  refine ⟨⟨o.bindings, o.nodup_bound⟩, fun n => o.reserve_succeeds_iff, o.waiting,
    ⟨freeNumber stem w.taken w.counter, ?_, le_freeNumber _ _ _, freeNumber_le _ _ _,
      fun j hj hlt => o.mem_taken_iff.1 (taken_of_lt_freeNumber hj hlt), fun hmem => ?_, fun hmem => ?_,
      o.numbered_not_mem_fresh (le_freeNumber _ _ _)⟩,
    o.nodup_fresh, fun m h n w' hl he => ?_, fun m h t w' hl he n => o.evalToLocal_some hl he n⟩
  · rw [← o.stem_eq]
    rfl
  · exact hfree (o.mem_taken_iff.2 (.inl hmem))
  · exact hfree (o.mem_taken_iff.2 (.inr hmem))
  · rcases evalToLocal_eq_ok.1 he with ⟨hl', -⟩ | ⟨-, -, s, k, r, -, hc, -⟩
    · rw [hl] at hl'
      cases hl'
    · cases hc
      exact ⟨_, rfl⟩

end Bench
end EffectGraph.Writer
