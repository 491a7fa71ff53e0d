import EffectGraph.Graph.Order
import Mathlib.Data.List.Nodup

/-!
# Sorting takes each node once

A node is put in line when it has nothing left to wait for, and then it is told
of no need again: so no node is in line or in the order twice (`Once`), whatever
the needs of the nodes are.
-/

namespace EffectGraph.Needs

/-- No node is in the order or in line twice, and those that are wait for
nothing. -/
structure Sorting.Once (s : Sorting) : Prop where
  nodup : (s.order ++ s.queue).Nodup
  free : ∀ n ∈ s.order ++ s.queue, s.waiting[n.index]? = some 0

namespace Sorting.Once

variable {s : Sorting}

/-- A node that still waits is neither in the order nor in line. -/
theorem not_mem (h : s.Once) {n : NodeId} {k : Nat} (hk : s.waiting[n.index]? = some (k + 1)) :
    n ∉ s.order ++ s.queue := by
  intro hm
  rw [h.free n hm] at hk
  cases hk

theorem free_of_ne (h : s.Once) {n x : NodeId} (k : Nat) (hx : x ∈ s.order ++ s.queue) (hne : x ≠ n) :
    (s.waiting.setIfInBounds n.index k)[x.index]? = some 0 := by
  have hindex : n.index ≠ x.index := by
    intro he
    apply hne
    cases x
    cases n
    cases he
    rfl
  rw [Array.getElem?_setIfInBounds_ne hindex]
  exact h.free x hx

theorem release (h : s.Once) (n : NodeId) : (release s n).Once := by
  unfold Needs.release
  split
  · next k hk =>
    have hout := h.not_mem hk
    by_cases h0 : k = 0
    · -- The last need of the node: it goes in line.
      subst h0
      have hlt : n.index < s.waiting.size := (Array.getElem?_eq_some_iff.1 hk).1
      simp only [if_true]
      constructor
      · rw [← List.append_assoc, List.nodup_append]
        refine ⟨h.nodup, List.nodup_singleton n, ?_⟩
        intro a ha b hb hab
        rw [List.mem_singleton] at hb
        exact hout (hb ▸ hab ▸ ha)
      · intro x hx
        rw [← List.append_assoc, List.mem_append, List.mem_singleton] at hx
        by_cases hxn : x = n
        · subst hxn
          rw [Array.getElem?_setIfInBounds_self_of_lt hlt]
        · exact h.free_of_ne 0 (hx.resolve_right hxn) hxn
    · simp only [if_neg h0]
      refine ⟨h.nodup, ?_⟩
      intro x hx
      exact h.free_of_ne k hx fun hxn => hout (hxn ▸ hx)
  · exact h

theorem releaseAll (h : s.Once) (ns : List NodeId) : (ns.foldl Needs.release s).Once := by
  induction ns generalizing s with
  | nil => exact h
  | cons n ns ih => exact ih (h.release n)

theorem sortNext (h : s.Once) (d : Needs) : (d.sortNext s).Once := by
  unfold Needs.sortNext
  split
  · exact h
  · next n queue hq =>
    apply releaseAll
    constructor
    · simpa [hq] using h.nodup
    · simpa [hq] using h.free

theorem sortMany (h : s.Once) (d : Needs) (k : Nat) : (d.sortMany k s).Once := by
  induction k generalizing s with
  | zero => exact h
  | succ k ih => exact ih (h.sortNext d)

end Sorting.Once

theorem nodup_nodes (d : Needs) : d.nodes.Nodup :=
  List.nodup_range.map fun i j he => by cases he; rfl

theorem once_sortStart (d : Needs) : d.sortStart.Once where
  nodup := d.nodup_nodes.filter _
  free := by
    intro n hn
    simp only [sortStart, List.nil_append, List.mem_filter] at hn
    obtain ⟨hn, hempty⟩ := hn
    unfold nodes at hn
    obtain ⟨k, hk, rfl⟩ := List.mem_map.1 hn
    have hlt : k < d.needs.size := List.mem_range.1 hk
    simpa [sortStart, Needs.of, hlt] using hempty

/-- Every node is in the order at most once. -/
theorem nodup_of_sorted {d : Needs} {order : List NodeId} (h : d.sorted = .ok order) : order.Nodup := by
  unfold sorted at h
  dsimp only at h
  split at h
  · cases h
    have honce := (once_sortStart d).sortMany d d.needs.size
    exact (List.nodup_append.1 honce.nodup).1
  · cases h

end EffectGraph.Needs
