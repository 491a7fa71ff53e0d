import EffectGraph.Proofs.Graph.Ordering
import Mathlib

/-!
# The search for cycles

A search follows needs along a path. When it comes back to a node of its path, the
part of the path from that node on is a cycle (`IsCycle`), and that is what it tells
(`findCycle_eq_error`). When it runs out of nodes, every node has been done after
those it needs (`Search`), so the nodes in the order in which they were done are an
order of the needs, and there is no cycle (`Mirrored.orders_of_findCycle`).
-/

namespace EffectGraph.Needs

/-- A walk along a relation that ends where it starts and meets no other node twice. -/
structure IsCycle (r : NodeId → NodeId → Prop) (c : List NodeId) : Prop where
  closed : ∃ n ns, c = n :: ns ++ [n]
  once : c.dropLast.Nodup
  walk : c.IsChain r

/-- The node where a cycle starts leads back to itself. -/
theorem IsCycle.exists_transGen {r : NodeId → NodeId → Prop} {c : List NodeId} (h : IsCycle r c) :
    ∃ n, Relation.TransGen r n n := by
  obtain ⟨n, ns, rfl⟩ := h.closed
  refine ⟨n, ?_⟩
  cases ns with
  | nil => exact .single (List.isChain_pair.1 h.walk)
  | cons m ns =>
    obtain ⟨hm, hwalk⟩ := List.isChain_cons_cons.1 h.walk
    have hback := List.relationReflTransGen_of_exists_isChain (m :: ns ++ [n]) hwalk (by simp)
    exact .head' hm (by simpa using hback)

/-! ## What is left to look at -/

/-- Whatever is left to look at from a node, the node needs. -/
def Pending (d : Needs) (stack : List Frame) : Prop := ∀ f ∈ stack, ∀ m ∈ f.pending, d.Needed f.node m

section

variable {d : Needs} {n m : NodeId} {ms : List NodeId} {f : Frame} {rest : List Frame}

theorem pending_nil (d : Needs) : d.Pending [] := by
  intro f hf
  cases hf

theorem Pending.head (h : d.Pending (⟨n, m :: ms⟩ :: rest)) : d.Needed n m :=
  h _ List.mem_cons_self m List.mem_cons_self

theorem Pending.tail (h : d.Pending (f :: rest)) : d.Pending rest := fun f hf => h f (List.mem_cons_of_mem _ hf)

/-- One need less to look at. -/
theorem Pending.next (h : d.Pending (⟨n, m :: ms⟩ :: rest)) : d.Pending (⟨n, ms⟩ :: rest) := by
  intro f hf x hx
  rcases List.mem_cons.1 hf with rfl | hf
  · exact h _ List.mem_cons_self x (List.mem_cons_of_mem _ hx)
  · exact h.tail f hf x hx

/-- All the needs of one node more. -/
theorem Pending.push (h : d.Pending rest) (n : NodeId) : d.Pending (⟨n, d.of n⟩ :: rest) := by
  intro f hf x hx
  rcases List.mem_cons.1 hf with rfl | hf
  · exact hx
  · exact h f hf x hx

end

/-! ## A search that fails has closed a cycle -/

/-- Each node of a path is needed by the next, none is on it twice, and what is left
to look at is needed. -/
structure Path (d : Needs) (stack : List Frame) : Prop where
  chain : stack.IsChain fun f f' => d.Needed f'.node f.node
  once : (stack.map Frame.node).Nodup
  pending : d.Pending stack

namespace Path

variable {d : Needs} {n m : NodeId} {ms : List NodeId} {rest : List Frame}

/-- A path of one node, all whose needs are left to look at. -/
theorem single (d : Needs) (n : NodeId) : d.Path [⟨n, d.of n⟩] where
  chain := .singleton _
  once := List.nodup_singleton n
  pending := (pending_nil d).push n

/-- A path without its last node. -/
theorem tail {f : Frame} (h : d.Path (f :: rest)) : d.Path rest where
  chain := h.chain.tail
  once := (List.nodup_cons.1 h.once).2
  pending := h.pending.tail

/-- A path on which the last node has one need less to look at. -/
theorem next (h : d.Path (⟨n, m :: ms⟩ :: rest)) : d.Path (⟨n, ms⟩ :: rest) where
  chain := by
    cases rest with
    | nil => exact .singleton _
    | cons f rest =>
      obtain ⟨hneed, hrest⟩ := List.isChain_cons_cons.1 h.chain
      exact List.isChain_cons_cons.2 ⟨hneed, hrest⟩
  once := h.once
  pending := h.pending.next

/-- A path that goes on to a need of its last node. -/
theorem push (h : d.Path (⟨n, ms⟩ :: rest)) (hm : d.Needed n m) (hout : m ∉ n :: rest.map Frame.node) :
    d.Path (⟨m, d.of m⟩ :: ⟨n, ms⟩ :: rest) where
  chain := List.isChain_cons_cons.2 ⟨hm, h.chain⟩
  once := List.nodup_cons.2 ⟨hout, h.once⟩
  pending := h.pending.push m

/-- A need of the last node of a path that is on the path closes a cycle. -/
theorem closes (h : d.Path (⟨n, m :: ms⟩ :: rest)) (hm : m ∈ n :: rest.map Frame.node) :
    IsCycle d.Needed (closeCycle (n :: rest.map Frame.node) m) := by
  have hneed : d.Needed n m := h.pending.head
  have honce := h.once
  have hchain := (List.isChain_map Frame.node (R := fun x y => d.Needed y x)).2 h.chain
  rw [List.map_cons] at honce hchain
  -- The path runs from its last node down to `m` and on to its first node.
  obtain ⟨above, below, hpath, hout⟩ := List.eq_append_cons_of_mem hm
  have hwhile : (n :: rest.map Frame.node).takeWhile (· != m) = above := by
    rw [hpath, List.takeWhile_append_of_pos]
    · simp
    · intro x hx
      rw [bne_iff_ne]
      rintro rfl
      exact hout hx
  rw [hpath] at honce hchain
  unfold closeCycle
  rw [hwhile]
  have hup : (m :: above.reverse).Nodup ∧ (m :: above.reverse).IsChain d.Needed := by
    have hsnoc : m :: above.reverse = (above ++ [m]).reverse := by simp
    rw [hsnoc, List.nodup_reverse, List.isChain_reverse]
    rw [← List.singleton_append, ← List.append_assoc] at honce
    exact ⟨(List.nodup_append.1 honce).1, (List.isChain_split.1 hchain).1⟩
  have hlast : (m :: above.reverse).getLast? = some n := by
    have hhead := congrArg List.head? hpath
    rw [List.head?_cons] at hhead
    cases above with
    | nil => exact hhead.symm
    | cons x above =>
      rw [List.reverse_cons, ← List.cons_append, List.getLast?_concat]
      exact hhead.symm
  refine ⟨⟨m, above.reverse, rfl⟩, ?_, ?_⟩
  · rw [List.dropLast_concat]
    exact hup.1
  refine hup.2.append (.singleton m) fun x hx y hy => ?_
  rw [hlast] at hx
  cases hx
  cases hy
  exact hneed

end Path

theorem follow_error {d : Needs} {fresh : List NodeId} {stack : List Frame} {cycle : List NodeId}
    (hp : d.Path stack) (h : d.follow fresh stack = .error cycle) : IsCycle d.Needed cycle := by
  fun_induction follow d fresh stack with
  | case1 => cases h
  | case2 fresh n rest ih => exact ih hp.tail h
  | case3 fresh n m ms rest hm =>
    cases h
    exact hp.closes hm
  | case4 fresh n m ms rest hm _ _ ih =>
    exact ih (hp.next.push hp.pending.head hm) h
  | case5 fresh n m ms rest _ _ ih => exact ih hp.next h

theorem followAll_error {d : Needs} {fresh ns cycle : List NodeId} (h : d.followAll fresh ns = .error cycle) :
    IsCycle d.Needed cycle := by
  induction ns generalizing fresh with
  | nil => cases h
  | cons n ns ih =>
    unfold followAll at h
    split at h
    · split at h
      · exact ih h
      · next hf =>
        cases h
        exact follow_error (.single d n) hf
    · exact ih h

/-- What a search tells is a cycle. -/
theorem findCycle_eq_error {d : Needs} {err : Error} (h : d.findCycle = .error err) :
    ∃ c, err = .cycle c ∧ IsCycle d.Needed c := by
  unfold findCycle at h
  cases hf : d.followAll d.nodes d.nodes with
  | ok _ =>
    rw [hf] at h
    cases h
  | error cycle =>
    rw [hf] at h
    cases h
    exact ⟨cycle, rfl, followAll_error hf⟩

theorem findCycle_of_acyclic {d : Needs} (h : d.Acyclic) : d.findCycle = .ok () := by
  cases hf : d.findCycle with
  | ok _ => rfl
  | error err =>
    obtain ⟨c, -, hc⟩ := findCycle_eq_error hf
    obtain ⟨n, hn⟩ := hc.exists_transGen
    exact absurd hn (h n)

/-! ## A search that ends has met no cycle -/

/-- What the nodes of a path wait for: what a node needs is left to look at, or done,
or the node above it on the path, if there is one. -/
inductive Waits (d : Needs) (done : List NodeId) : Option NodeId → List Frame → Prop
  | nil {above : Option NodeId} : Waits d done above []
  | cons {above : Option NodeId} {n : NodeId} {ms : List NodeId} {rest : List Frame} :
      (∀ m ∈ d.of n, m ∈ ms ∨ m ∈ done ∨ above = some m) → Waits d done (some n) rest →
      Waits d done above (⟨n, ms⟩ :: rest)

/-- More nodes may be done, the one above the path among them. -/
theorem Waits.mono {d : Needs} {done done' : List NodeId} {above above' : Option NodeId} {stack : List Frame}
    (h : d.Waits done above stack) (hdone : ∀ n ∈ done, n ∈ done')
    (habove : ∀ n, above = some n → n ∈ done' ∨ above' = some n) : d.Waits done' above' stack := by
  induction h generalizing above' with
  | nil => exact .nil
  | cons hneeds _ ih =>
    refine .cons (fun m hm => ?_) (ih fun n hn => .inr hn)
    rcases hneeds m hm with hm | hm | hm
    · exact .inl hm
    · exact .inr (.inl (hdone m hm))
    · exact .inr (habove m hm)

/-- How a search stands: every node is fresh, on the path or done, and the nodes that
are done were so after those they need. -/
structure Search (d : Needs) (fresh : List NodeId) (stack : List Frame) (done : List NodeId) : Prop where
  parts : (fresh ++ (stack.map Frame.node ++ done)).Perm d.nodes
  closed : ∀ before n after, done = before ++ n :: after → ∀ m ∈ d.of n, m ∈ before
  waits : d.Waits done none stack
  pending : d.Pending stack

namespace Search

variable {d : Needs} {fresh done : List NodeId} {n m : NodeId} {ms : List NodeId} {rest : List Frame}

theorem start (d : Needs) : d.Search d.nodes [] [] where
  parts := by simp
  closed before n after h := by simp at h
  waits := .nil
  pending := pending_nil d

/-- A fresh node becomes the path. -/
theorem begin (h : d.Search fresh [] done) (hn : n ∈ fresh) : d.Search (fresh.erase n) [⟨n, d.of n⟩] done where
  parts := by
    refine .trans ?_ h.parts
    have hmove := (List.perm_cons_erase hn).symm.append_right done
    exact .trans List.perm_middle hmove
  closed := h.closed
  waits := .cons (fun m hm => .inl hm) .nil
  pending := (pending_nil d).push n

/-- The path goes on to a fresh node. -/
theorem push (h : d.Search fresh (⟨n, m :: ms⟩ :: rest) done) (hm : m ∈ fresh) :
    d.Search (fresh.erase m) (⟨m, d.of m⟩ :: ⟨n, ms⟩ :: rest) done where
  parts := by
    refine .trans ?_ h.parts
    have hmove := (List.perm_cons_erase hm).symm.append_right (n :: (rest.map Frame.node ++ done))
    exact .trans List.perm_middle hmove
  closed := h.closed
  waits := by
    cases h.waits with
    | cons hneeds hrest =>
      refine .cons (fun x hx => .inl hx) (.cons (fun x hx => ?_) hrest)
      rcases hneeds x hx with hx | hx | hx
      · rcases List.mem_cons.1 hx with rfl | hx
        · exact .inr (.inr rfl)
        · exact .inl hx
      · exact .inr (.inl hx)
      · cases hx
  pending := h.pending.next.push m

/-- A need of the last node that is neither fresh nor on the path is done. -/
theorem skip (hd : d.Mirrored) (h : d.Search fresh (⟨n, m :: ms⟩ :: rest) done)
    (hpath : m ∉ n :: rest.map Frame.node) (hm : m ∉ fresh) : d.Search fresh (⟨n, ms⟩ :: rest) done where
  parts := h.parts
  closed := h.closed
  waits := by
    have hneed : d.Needed n m := h.pending.head
    have hdone : m ∈ done := by
      have hnode := h.parts.mem_iff.2 (mem_nodes.2 (hd.within n m hneed))
      rw [List.mem_append, List.mem_append] at hnode
      exact (hnode.resolve_left hm).resolve_left hpath
    cases h.waits with
    | cons hneeds hrest =>
      refine .cons (fun x hx => ?_) hrest
      rcases hneeds x hx with hx | hx
      · rcases List.mem_cons.1 hx with rfl | hx
        · exact .inr (.inl hdone)
        · exact .inl hx
      · exact .inr hx
  pending := h.pending.next

/-- The last node of the path, with nothing left to look at, is done. -/
theorem finish (h : d.Search fresh (⟨n, []⟩ :: rest) done) : d.Search fresh rest (done ++ [n]) where
  parts := by
    refine .trans (.append_left fresh ?_) h.parts
    rw [← List.append_assoc]
    exact List.perm_append_singleton n _
  closed := by
    cases h.waits with
    | cons hneeds _ =>
      refine closed_snoc h.closed fun m hm => ?_
      simpa using hneeds m hm
  waits := by
    cases h.waits with
    | cons _ hrest =>
      refine hrest.mono (fun x hx => List.mem_append_left _ hx) fun x hx => ?_
      cases hx
      exact .inl (List.mem_append_right _ List.mem_cons_self)
  pending := h.pending.tail

/-- When all nodes are done, they are in order. -/
theorem orders (h : d.Search [] [] done) : d.Orders done where
  once := h.parts.nodup_iff.2 d.nodup_nodes
  all n := by
    rw [← mem_nodes]
    exact h.parts.mem_iff
  closed := h.closed

end Search

/-- A search that follows a path to its end leaves all nodes of the path done. -/
theorem follow_ok {d : Needs} (hd : d.Mirrored) {fresh fresh' done : List NodeId} {stack : List Frame}
    (hs : d.Search fresh stack done) (h : d.follow fresh stack = .ok fresh') :
    (∀ n ∈ fresh', n ∈ fresh) ∧ ∃ done', d.Search fresh' [] done' := by
  fun_induction follow d fresh stack generalizing done with
  | case1 =>
    cases h
    exact ⟨fun n hn => hn, done, hs⟩
  | case2 fresh n rest ih => exact ih hs.finish h
  | case3 => cases h
  | case4 fresh n m ms rest _ hm _ ih =>
    obtain ⟨hsub, hdone⟩ := ih (hs.push hm) h
    exact ⟨fun x hx => List.mem_of_mem_erase (hsub x hx), hdone⟩
  | case5 fresh n m ms rest hpath hm ih => exact ih (hs.skip hd hpath hm) h

theorem followAll_ok {d : Needs} (hd : d.Mirrored) {fresh done ns : List NodeId} (hs : d.Search fresh [] done)
    (hns : ∀ n ∈ fresh, n ∈ ns) (h : d.followAll fresh ns = .ok ()) : ∃ order, d.Orders order := by
  induction ns generalizing fresh done with
  | nil =>
    obtain rfl := List.eq_nil_iff_forall_not_mem.2 fun n hn => List.not_mem_nil (hns n hn)
    exact ⟨done, hs.orders⟩
  | cons n ns ih =>
    have hfresh : fresh.Nodup := (List.nodup_append.1 (hs.parts.nodup_iff.2 d.nodup_nodes)).1
    unfold followAll at h
    split at h
    · next hn =>
      split at h
      · next fresh' hf =>
        obtain ⟨hsub, done', hs'⟩ := follow_ok hd (hs.begin hn) hf
        refine ih hs' (fun x hx => ?_) h
        have hx' := (hfresh.mem_erase_iff).1 (hsub x hx)
        exact (List.mem_cons.1 (hns x hx'.2)).resolve_left hx'.1
      · cases h
    · next hn =>
      refine ih hs (fun x hx => (List.mem_cons.1 (hns x hx)).resolve_left ?_) h
      rintro rfl
      exact hn hx

/-- Where a search finds no cycle, the nodes have an order. -/
theorem Mirrored.orders_of_findCycle {d : Needs} (hd : d.Mirrored) (h : d.findCycle = .ok ()) :
    ∃ order, d.Orders order := by
  unfold findCycle at h
  cases hf : d.followAll d.nodes d.nodes with
  | ok _ => exact followAll_ok hd (.start d) (fun n hn => hn) hf
  | error cycle =>
    rw [hf] at h
    cases h

end EffectGraph.Needs
