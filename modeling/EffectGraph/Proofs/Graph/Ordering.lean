import EffectGraph.Proofs.Graph.Sorting
import EffectGraph.Proofs.Work
import Mathlib

/-!
# Orders and closures of needs

While nodes are sorted, each node waits for as many needs as are not sorted yet
(`Sorting.Tracks`); so every node comes after its needs, and a sort gets stuck
only when the nodes left wait for one another. So a sort succeeds, with every node
after its needs (`Orders`), exactly when no node needs itself, directly or not
(`Acyclic`). What `closure` gathers is all that some nodes need, directly or not
(`mem_closure_iff`).
-/

namespace EffectGraph.Needs

/-- A node needs another. -/
def Needed (d : Needs) (n m : NodeId) : Prop := m ∈ d.of n

/-- The needs of the nodes are nodes, and are the same from both ends. -/
structure Mirrored (d : Needs) : Prop where
  within : ∀ n m, m ∈ d.of n → m.index < d.needs.size
  users : ∀ n m, (d.usersOf m).count n = (d.of n).count m

/-! ## How a sort stands -/

/-- How a sort stands when the nodes of `rest` have still to be told of a need:
each node waits for its needs that are not in the order, all that wait for
nothing are in line, and in the order needs come first. -/
structure Sorting.Tracks (d : Needs) (s : Sorting) (rest : List NodeId) : Prop where
  once : s.Once
  waiting : ∀ n : NodeId, n.index < d.needs.size →
    s.waiting[n.index]? = some ((d.of n).countP (· ∉ s.order) + rest.count n)
  inLine : ∀ n : NodeId, s.waiting[n.index]? = some 0 → n ∈ s.order ++ s.queue
  within : s.waiting.size = d.needs.size
  closed : ∀ before n after, s.order = before ++ n :: after → ∀ m ∈ d.of n, m ∈ before

theorem order_release (s : Sorting) (n : NodeId) : (release s n).order = s.order := by
  unfold release
  split <;> rfl

theorem order_releaseAll (s : Sorting) (ns : List NodeId) : (ns.foldl release s).order = s.order := by
  induction ns generalizing s with
  | nil => rfl
  | cons n ns ih => rw [List.foldl_cons, ih, order_release]

theorem index_ne {n x : NodeId} (h : x ≠ n) : n.index ≠ x.index := by
  rintro he
  cases n
  cases x
  cases he
  exact h rfl

/-- Taking one more member out of account. -/
theorem countP_not_mem_snoc {order : List NodeId} {n : NodeId} (hn : n ∉ order) (ns : List NodeId) :
    ns.countP (· ∉ order) = ns.countP (· ∉ order ++ [n]) + ns.count n := by
  induction ns with
  | nil => rfl
  | cons x ns ih =>
    by_cases hx : x = n
    · subst hx
      simp only [List.countP_cons, List.count_cons_self, ih]
      simp [hn]
      omega
    · simp only [List.countP_cons, List.count_cons_of_ne hx, ih]
      simp [hx]
      omega

namespace Sorting.Tracks

variable {d : Needs} {s : Sorting}

/-- The next node is told. -/
theorem release {n : NodeId} {rest : List NodeId} (h : s.Tracks d (n :: rest)) : (release s n).Tracks d rest := by
  have honce := h.once.release n
  unfold Needs.release at honce ⊢
  by_cases hn : n.index < d.needs.size
  · have hw := h.waiting n hn
    have hlt : n.index < s.waiting.size := by rwa [h.within]
    rw [List.count_cons_self, ← Nat.add_assoc] at hw
    generalize hk : (d.of n).countP (· ∉ s.order) + rest.count n = k at hw
    rw [hw] at honce ⊢
    refine ⟨honce, fun x hx => ?_, fun x hx => ?_, by simpa using h.within, h.closed⟩
    · by_cases hxn : x = n
      · subst hxn
        rw [Array.getElem?_setIfInBounds_self_of_lt hlt, hk]
      · rw [Array.getElem?_setIfInBounds_ne (index_ne hxn), h.waiting x hx, List.count_cons_of_ne (Ne.symm hxn)]
    · by_cases hxn : x = n
      · subst hxn
        rw [Array.getElem?_setIfInBounds_self_of_lt hlt, Option.some.injEq] at hx
        simp [hx]
      · rw [Array.getElem?_setIfInBounds_ne (index_ne hxn)] at hx
        have hline := List.mem_append.1 (h.inLine x hx)
        refine List.mem_append.2 (hline.imp_right fun hq => ?_)
        dsimp only
        split
        · exact List.mem_append_left _ hq
        · exact hq
  · have hnone : s.waiting[n.index]? = none := by
      rw [Array.getElem?_eq_none_iff, h.within]
      omega
    rw [hnone]
    refine ⟨h.once, fun x hx => ?_, h.inLine, h.within, h.closed⟩
    rw [h.waiting x hx, List.count_cons_of_ne]
    rintro rfl
    exact hn hx

theorem releaseAll {ns : List NodeId} (h : s.Tracks d ns) : (ns.foldl Needs.release s).Tracks d [] := by
  induction ns generalizing s with
  | nil => exact h
  | cons n ns ih => exact ih h.release

/-- A node in line has all its needs in the order. -/
theorem needs_sorted (h : s.Tracks d []) {n : NodeId} (hn : n ∈ s.order ++ s.queue) : ∀ m ∈ d.of n, m ∈ s.order := by
  have hfree := h.once.free n hn
  have hlt : n.index < d.needs.size := by
    rw [← h.within]
    exact (Array.getElem?_eq_some_iff.1 hfree).1
  rw [h.waiting n hlt, Option.some.injEq, List.count_nil, Nat.add_zero, List.countP_eq_zero] at hfree
  intro m hm
  simpa using hfree m hm

theorem sortNext (h : s.Tracks d []) (hd : d.Mirrored) : (d.sortNext s).Tracks d [] := by
  unfold Needs.sortNext
  split
  · exact h
  · next n queue hq =>
    apply releaseAll
    have hnew : n ∉ s.order := by
      have hnodup := h.once.nodup
      rw [hq, List.nodup_append] at hnodup
      exact fun hn => hnodup.2.2 n hn n List.mem_cons_self rfl
    have hneeds := h.needs_sorted (n := n) (by simp [hq])
    refine ⟨⟨?_, ?_⟩, fun x hx => ?_, fun x hx => ?_, h.within, closed_snoc h.closed hneeds⟩
    · simpa [hq] using h.once.nodup
    · simpa [hq] using h.once.free
    · rw [h.waiting x hx, hd.users, countP_not_mem_snoc hnew]
      simp
    · simpa [hq] using h.inLine x hx

theorem sortMany (h : s.Tracks d []) (hd : d.Mirrored) (k : Nat) : (d.sortMany k s).Tracks d [] := by
  induction k generalizing s with
  | zero => exact h
  | succ k ih => exact ih (h.sortNext hd)

end Sorting.Tracks

theorem tracks_sortStart (d : Needs) : d.sortStart.Tracks d [] where
  once := once_sortStart d
  waiting n hn := by
    simp [sortStart, Needs.of, hn]
  inLine n hn := by
    obtain ⟨hlt, hlen⟩ := Array.getElem?_eq_some_iff.1 hn
    have hlt' : n.index < d.needs.size := by simpa [sortStart] using hlt
    have hempty : (d.of n).isEmpty := by
      simpa [sortStart, Needs.of, hlt'] using hlen
    exact List.mem_append_right _ (List.mem_filter.2 ⟨List.mem_map.2 ⟨n.index, List.mem_range.2 hlt', rfl⟩, hempty⟩)
  within := by simp [sortStart]
  closed before n after h := by simp [sortStart] at h

/-- A sort goes on as long as a node is in line. -/
theorem sortMany_progress (d : Needs) (k : Nat) (s : Sorting) :
    (d.sortMany k s).queue = [] ∨ (d.sortMany k s).order.length = s.order.length + k := by
  induction k generalizing s with
  | zero => exact .inr rfl
  | succ k ih =>
    cases hq : s.queue with
    | nil =>
      have hstuck : ∀ k, d.sortMany k s = s := by
        intro k
        induction k with
        | zero => rfl
        | succ k ih => rw [sortMany, sortNext, hq, ih]
      rw [hstuck]
      exact .inl hq
    | cons n queue =>
      have hlen : (d.sortNext s).order.length = s.order.length + 1 := by
        simp [sortNext, hq, order_releaseAll]
      rcases ih (d.sortNext s) with h | h
      · exact .inl h
      · rw [hlen] at h
        exact .inr (by rw [sortMany, h]; omega)

/-! ## Orders and cycles -/

theorem mem_nodes {d : Needs} {n : NodeId} : n ∈ d.nodes ↔ n.index < d.needs.size := by
  unfold nodes
  rw [List.mem_map]
  constructor
  · rintro ⟨k, hk, rfl⟩
    exact List.mem_range.1 hk
  · intro hn
    exact ⟨n.index, List.mem_range.2 hn, rfl⟩

/-- No node needs itself, directly or not. -/
def Acyclic (d : Needs) : Prop := ∀ n, ¬Relation.TransGen d.Needed n n

/-- Every node once, each after those it needs. -/
structure Orders (d : Needs) (order : List NodeId) : Prop where
  once : order.Nodup
  all : ∀ n, n ∈ order ↔ n.index < d.needs.size
  closed : ∀ before n after, order = before ++ n :: after → ∀ m ∈ d.of n, m ∈ before

theorem index_lt_of_needed {d : Needs} {n m : NodeId} (h : d.Needed n m) : n.index < d.needs.size := by
  by_contra hn
  have hnil : d.of n = [] := by
    simp [Needs.of, hn]
  unfold Needed at h
  rw [hnil] at h
  cases h

/-- In an order, needs come before their users. -/
theorem Orders.idxOf_lt {d : Needs} {order : List NodeId} (h : d.Orders order) {n m : NodeId} (hm : d.Needed n m) :
    order.idxOf m < order.idxOf n := by
  obtain ⟨before, after, rfl⟩ := List.append_of_mem ((h.all n).2 (index_lt_of_needed hm))
  have hbefore : m ∈ before := h.closed before n after rfl m hm
  have hout : n ∉ before := fun hn => (List.nodup_append.1 h.once).2.2 n hn n List.mem_cons_self rfl
  rw [List.idxOf_append_of_mem hbefore, List.idxOf_append_of_notMem hout, List.idxOf_cons_self]
  exact List.idxOf_lt_length_of_mem hbefore

theorem Orders.acyclic {d : Needs} {order : List NodeId} (h : d.Orders order) : d.Acyclic := by
  have hlt : ∀ n m, Relation.TransGen d.Needed n m → order.idxOf m < order.idxOf n := by
    intro n m hnm
    induction hnm with
    | single hm => exact h.idxOf_lt hm
    | tail _ hm ih => exact (h.idxOf_lt hm).trans ih
  exact fun n hn => Nat.lt_irrefl _ (hlt n n hn)

/-- What is sorted is an order. -/
theorem Mirrored.orders_of_sorted {d : Needs} (hd : d.Mirrored) {order : List NodeId} (h : d.sorted = .ok order) :
    d.Orders order := by
  unfold sorted at h
  dsimp only at h
  split at h
  · next hlen =>
    cases h
    have ht := (tracks_sortStart d).sortMany hd d.needs.size
    have hnodup := (List.nodup_append.1 ht.once.nodup).1
    have hwithin : ∀ n ∈ (d.sortMany d.needs.size d.sortStart).order, n ∈ d.nodes := by
      intro n hn
      rw [mem_nodes, ← ht.within]
      exact (Array.getElem?_eq_some_iff.1 (ht.once.free n (List.mem_append_left _ hn))).1
    have hperm := (List.subperm_of_subset hnodup hwithin).perm_of_length_le (by simp [hlen, nodes])
    exact ⟨hnodup, fun n => by rw [hperm.mem_iff, mem_nodes], ht.closed⟩
  · cases h

/-- Where no node needs itself, of the nodes outside a list one needs only
members of it. -/
theorem Mirrored.exists_ready {d : Needs} (hd : d.Mirrored) (hac : d.Acyclic) {order : List NodeId} {n : NodeId}
    (hn : n.index < d.needs.size) (hout : n ∉ order) :
    ∃ m : NodeId, m.index < d.needs.size ∧ m ∉ order ∧ ∀ x ∈ d.of m, x ∈ order := by
  -- On finitely many nodes an acyclic relation is well-founded; take a minimal one.
  let r : Fin d.needs.size → Fin d.needs.size → Prop := fun a b => Relation.TransGen d.Needed ⟨b⟩ ⟨a⟩
  have : IsTrans _ r := ⟨fun a b c hab hbc => hbc.trans hab⟩
  have : Std.Irrefl r := ⟨fun a => hac ⟨a⟩⟩
  have hwf : WellFounded r := Finite.wellFounded_of_trans_of_irrefl r
  obtain ⟨k, hk, hmin⟩ := hwf.has_min {k | (⟨k⟩ : NodeId) ∉ order} ⟨⟨n.index, hn⟩, hout⟩
  refine ⟨⟨k⟩, k.isLt, hk, fun x hx => ?_⟩
  by_contra hxout
  exact hmin ⟨x.index, hd.within _ x hx⟩ hxout (.single hx)

theorem Mirrored.sorted_of_acyclic {d : Needs} (hd : d.Mirrored) (hac : d.Acyclic) : ∃ order, d.sorted = .ok order := by
  have ht := (tracks_sortStart d).sortMany hd d.needs.size
  suffices hlen : (d.sortMany d.needs.size d.sortStart).order.length = d.needs.size by
    exact ⟨_, if_pos hlen⟩
  rcases sortMany_progress d d.needs.size d.sortStart with hq | hlen
  · generalize d.sortMany d.needs.size d.sortStart = s at ht hq
    have hall : ∀ n : NodeId, n.index < d.needs.size → n ∈ s.order := by
      intro n hn
      by_contra hout
      obtain ⟨m, hm, hmout, hneeds⟩ := hd.exists_ready hac hn hout
      have hfree : s.waiting[m.index]? = some 0 := by
        rw [ht.waiting m hm]
        simpa using hneeds
      exact hmout (by simpa [hq] using ht.inLine m hfree)
    have hperm : s.order.Perm d.nodes := by
      rw [List.perm_ext_iff_of_nodup (List.nodup_append.1 ht.once.nodup).1 d.nodup_nodes]
      intro n
      rw [mem_nodes]
      refine ⟨fun hn => ?_, hall n⟩
      rw [← ht.within]
      exact (Array.getElem?_eq_some_iff.1 (ht.once.free n (List.mem_append_left _ hn))).1
    simpa [nodes] using hperm.length_eq
  · rw [hlen]
    simp [sortStart]

/-! ## All that is needed -/

/-- A search for all that is needed, under way: a node in line is fresh or found,
what a found node needs is found or in line, and what any node needs is fresh or
found. -/
structure Searching (d : Needs) (fresh stack found : List NodeId) : Prop where
  inLine : ∀ n ∈ stack, n ∈ fresh ∨ n ∈ found
  followed : ∀ n ∈ found, ∀ m ∈ d.of n, m ∈ found ∨ m ∈ stack
  known : ∀ n m, m ∈ d.of n → m ∈ fresh ∨ m ∈ found

section Searching

variable {d : Needs} {fresh stack rest found : List NodeId} {n m : NodeId}

/-- A node that is found is no longer fresh; every other stays what it is. -/
theorem mem_erase_or_mem_cons (h : m ∈ fresh ∨ m ∈ found) : m ∈ fresh.erase n ∨ m ∈ n :: found := by
  by_cases hmn : m = n
  · exact .inr (hmn ▸ List.mem_cons_self)
  · exact h.imp (List.mem_erase_of_ne hmn).2 (List.mem_cons_of_mem _)

/-- A first visit finds a node and puts what it needs in line. -/
theorem Searching.first (h : d.Searching fresh (n :: rest) found) :
    d.Searching (fresh.erase n) (d.of n ++ rest) (n :: found) := by
  refine ⟨fun x hx => mem_erase_or_mem_cons ?_, fun x hx m hm => ?_,
    fun x m hm => mem_erase_or_mem_cons (h.known x m hm)⟩
  · rcases List.mem_append.1 hx with hx | hx
    · exact h.known n x hx
    · exact h.inLine x (List.mem_cons_of_mem _ hx)
  · rcases List.mem_cons.1 hx with rfl | hx
    · exact .inr (List.mem_append_left _ hm)
    · rcases h.followed x hx m hm with hm | hm
      · exact .inl (List.mem_cons_of_mem _ hm)
      · rcases List.mem_cons.1 hm with rfl | hm
        · exact .inl List.mem_cons_self
        · exact .inr (List.mem_append_right _ hm)

theorem Searching.found_of_not_fresh (h : d.Searching fresh (n :: rest) found) (hn : n ∉ fresh) : n ∈ found :=
  (h.inLine n List.mem_cons_self).resolve_left hn

/-- A node visited again leaves the line. -/
theorem Searching.again (h : d.Searching fresh (n :: rest) found) (hn : n ∉ fresh) : d.Searching fresh rest found := by
  refine ⟨fun x hx => h.inLine x (List.mem_cons_of_mem _ hx), fun x hx m hm => ?_, h.known⟩
  rcases h.followed x hx m hm with hm | hm
  · exact .inl hm
  · rcases List.mem_cons.1 hm with rfl | hm
    · exact .inl (h.found_of_not_fresh hn)
    · exact .inr hm

theorem mem_gather_of_found (hm : m ∈ found) : m ∈ d.gather fresh stack found := by
  fun_induction gather d fresh stack found with
  | case1 => exact hm
  | case2 _ _ _ _ _ _ ih => exact ih (List.mem_cons_of_mem _ hm)
  | case3 _ _ _ _ _ ih => exact ih hm

theorem Searching.mem_gather_of_inLine (h : d.Searching fresh stack found) (hm : m ∈ stack) :
    m ∈ d.gather fresh stack found := by
  fun_induction gather d fresh stack found with
  | case1 => cases hm
  | case2 fresh found n rest _ _ ih =>
    rcases List.mem_cons.1 hm with rfl | hm
    · exact mem_gather_of_found List.mem_cons_self
    · exact ih h.first (List.mem_append_right _ hm)
  | case3 fresh found n rest hn ih =>
    rcases List.mem_cons.1 hm with rfl | hm
    · exact mem_gather_of_found (h.found_of_not_fresh hn)
    · exact ih (h.again hn) hm

/-- What the search finds is closed under needs. -/
theorem Searching.gather_closed (h : d.Searching fresh stack found) (hn : n ∈ d.gather fresh stack found)
    (hm : m ∈ d.of n) : m ∈ d.gather fresh stack found := by
  fun_induction gather d fresh stack found with
  | case1 => simpa using h.followed n hn m hm
  | case2 _ _ _ _ _ _ ih => exact ih h.first hn
  | case3 _ _ _ _ hx ih => exact ih (h.again hx) hn

/-- What the search finds was found before, or is needed from a node in line. -/
theorem exists_reaches_of_mem_gather (hm : m ∈ d.gather fresh stack found) :
    m ∈ found ∨ ∃ n ∈ stack, Relation.ReflTransGen d.Needed n m := by
  fun_induction gather d fresh stack found with
  | case1 => exact .inl hm
  | case2 fresh found n rest _ _ ih =>
    rcases ih hm with hm | ⟨x, hx, hreach⟩
    · rcases List.mem_cons.1 hm with rfl | hm
      · exact .inr ⟨m, List.mem_cons_self, .refl⟩
      · exact .inl hm
    · rcases List.mem_append.1 hx with hx | hx
      · exact .inr ⟨n, List.mem_cons_self, .head hx hreach⟩
      · exact .inr ⟨x, List.mem_cons_of_mem _ hx, hreach⟩
  | case3 fresh found n rest _ ih =>
    exact (ih hm).imp_right fun ⟨x, hx, hreach⟩ => ⟨x, List.mem_cons_of_mem _ hx, hreach⟩

end Searching

/-- The closure of some nodes are the nodes they need, directly or not. -/
theorem Mirrored.mem_closure_iff {d : Needs} (h : d.Mirrored) {roots : List NodeId}
    (hroots : ∀ r ∈ roots, r.index < d.needs.size) {n : NodeId} :
    n ∈ d.closure roots ↔ ∃ r ∈ roots, Relation.ReflTransGen d.Needed r n := by
  have hsearch : d.Searching d.nodes roots [] :=
    ⟨fun r hr => .inl (mem_nodes.2 (hroots r hr)), by simp, fun n m hm => .inl (mem_nodes.2 (h.within n m hm))⟩
  constructor
  · intro hn
    exact (exists_reaches_of_mem_gather hn).resolve_left List.not_mem_nil
  · rintro ⟨r, hr, hreach⟩
    induction hreach with
    | refl => exact hsearch.mem_gather_of_inLine hr
    | tail _ hm ih => exact hsearch.gather_closed ih hm

end EffectGraph.Needs
