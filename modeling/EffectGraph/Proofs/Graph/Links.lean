import EffectGraph.Proofs.Graph.Calls
import Mathlib.Data.List.Nodup

/-!
# Lists of links

Every link is stored twice: an output slot lists the inputs it feeds, an input
slot the output it reads. `Links` is the single list of (output, input) pairs
both stand for, in the order the links were made, `Links.ends` the two views of
it, and `Links.after` what each call does to it.
-/

namespace EffectGraph

/-- Links from output to input slots, in the order they were made. -/
abbrev Links := List (SlotId × SlotId)

namespace Links

/-- The other ends of the links of a slot. -/
def ends (L : Links) (s : SlotId) : SlotDir → List SlotId
  | .output => (L.filter (·.1 = s)).map Prod.snd
  | .input => (L.filter (·.2 = s)).map Prod.fst

/-- Links an output to an input: a link that is there stays where it is, any
other link of the input goes. -/
def link (L : Links) (o i : SlotId) : Links :=
  if (o, i) ∈ L then L else L.filter (·.2 ≠ i) ++ [(o, i)]

/-- Removes a link. -/
def unlink (L : Links) (o i : SlotId) : Links := L.erase (o, i)

/-- Removes all links of a slot. -/
def unlinkAll (L : Links) (s : SlotId) : Links := L.filter fun p => p.1 ≠ s ∧ p.2 ≠ s

/-- The links after a call on a graph that has the links `L`. A call with a slot
that the graph does not have, or of the wrong direction, changes none. -/
def after (L : Links) (g : Graph) : Graph.Call → Links
  | .link o i => if g.dirOf? o = some .output ∧ g.dirOf? i = some .input then L.link o i else L
  | .unlink o i => if g.dirOf? o = some .output ∧ g.dirOf? i = some .input then L.unlink o i else L
  | .unlinkAll s => if (g.dirOf? s).isSome then L.unlinkAll s else L
  | .addNode _ | .setAttribute _ _ => L

/-! ## The two views of a list -/

theorem mem_ends_output {L : Links} {o i : SlotId} : i ∈ L.ends o .output ↔ (o, i) ∈ L := by
  simp [ends]

theorem mem_ends_input {L : Links} {o i : SlotId} : o ∈ L.ends i .input ↔ (o, i) ∈ L := by
  simp [ends]

/-- No two links end in one input. -/
def Once (L : Links) : Prop := (L.map Prod.snd).Nodup

theorem Once.eq_of_mem {L : Links} (h : L.Once) {o o' i : SlotId} (ho : (o, i) ∈ L) (ho' : (o', i) ∈ L) :
    o = o' := by
  have := List.inj_on_of_nodup_map h ho ho' rfl
  exact congrArg Prod.fst this

theorem Once.filter {L : Links} (h : L.Once) (p : SlotId × SlotId → Bool) : Once (L.filter p) :=
  (List.filter_sublist.map Prod.snd).nodup h

theorem Once.nodup {L : Links} (h : L.Once) : L.Nodup := List.Nodup.of_map _ h

/-- An output lists each of its inputs once. -/
theorem Once.nodup_ends {L : Links} (h : L.Once) (o : SlotId) : (L.ends o .output).Nodup :=
  h.filter _

/-- An input of a list without repeated inputs has one source or none. -/
theorem Once.ends_input {L : Links} (h : L.Once) {o i : SlotId} (ho : (o, i) ∈ L) :
    L.ends i .input = [o] := by
  unfold ends
  have hf : L.filter (·.2 = i) = [(o, i)] := by
    apply List.Perm.eq_singleton
    rw [List.perm_ext_iff_of_nodup (h.nodup.filter _) (List.nodup_singleton _)]
    rintro ⟨o', i'⟩
    simp only [List.mem_filter, decide_eq_true_eq, List.mem_singleton, Prod.mk.injEq]
    constructor
    · rintro ⟨hm, rfl⟩
      exact ⟨h.eq_of_mem hm ho, rfl⟩
    · rintro ⟨rfl, rfl⟩
      exact ⟨ho, rfl⟩
  rw [hf]
  rfl

theorem ends_input_eq_nil {L : Links} {i : SlotId} (h : ∀ o, (o, i) ∉ L) : L.ends i .input = [] := by
  rw [List.eq_nil_iff_forall_not_mem]
  intro o ho
  exact h o (mem_ends_input.1 ho)

/-! ## What the calls do to the views -/

theorem link_of_mem {L : Links} {o i : SlotId} (h : (o, i) ∈ L) : L.link o i = L := if_pos h

theorem link_of_not_mem {L : Links} {o i : SlotId} (h : (o, i) ∉ L) :
    L.link o i = L.filter (·.2 ≠ i) ++ [(o, i)] := if_neg h

theorem mem_link {L : Links} {o i : SlotId} {p : SlotId × SlotId} (h : p ∈ L.link o i) : p ∈ L ∨ p = (o, i) := by
  unfold link at h
  split at h
  · exact .inl h
  · rcases List.mem_append.1 h with h | h
    · exact .inl (List.mem_filter.1 h).1
    · exact .inr (List.mem_singleton.1 h)

theorem Once.link {L : Links} (h : L.Once) (o i : SlotId) : (L.link o i).Once := by
  unfold Links.link
  split
  · exact h
  · unfold Once
    rw [List.map_append, List.nodup_append]
    refine ⟨h.filter _, by simp, ?_⟩
    rintro a ha b hb rfl
    simp at ha hb
    exact ha.2 hb

theorem Once.unlink {L : Links} (h : L.Once) (o i : SlotId) : (L.unlink o i).Once :=
  (List.erase_sublist.map Prod.snd).nodup h

theorem Once.unlinkAll {L : Links} (h : L.Once) (s : SlotId) : (L.unlinkAll s).Once := h.filter _

theorem Once.unlink_eq_filter {L : Links} (h : L.Once) (o i : SlotId) :
    L.unlink o i = L.filter (· ≠ (o, i)) := by
  unfold Links.unlink
  rw [h.nodup.erase_eq_filter]
  apply List.filter_congr
  intro p _
  simp [bne, beq_eq_decide]

/-- A link that is there is all that ends in its input. -/
theorem Once.unlink_of_mem {L : Links} (h : L.Once) {o i : SlotId} (hm : (o, i) ∈ L) :
    L.unlink o i = L.filter (·.2 ≠ i) := by
  rw [h.unlink_eq_filter]
  apply List.filter_congr
  rintro ⟨o', i'⟩ hp
  by_cases hi : i' = i
  · subst hi
    simp [h.eq_of_mem hp hm]
  · simp [hi]

theorem unlink_of_not_mem {L : Links} {o i : SlotId} (h : (o, i) ∉ L) : L.unlink o i = L :=
  List.erase_of_not_mem h

theorem unlinkAll_of_output {L : Links} {s : SlotId} (h : ∀ o, (o, s) ∉ L) :
    L.unlinkAll s = L.filter (·.1 ≠ s) := by
  apply List.filter_congr
  rintro ⟨o, i⟩ hp
  have hi : i ≠ s := fun he => h o (he ▸ hp)
  simp [hi]

theorem unlinkAll_of_input {L : Links} {s : SlotId} (h : ∀ i, (s, i) ∉ L) :
    L.unlinkAll s = L.filter (·.2 ≠ s) := by
  apply List.filter_congr
  rintro ⟨o, i⟩ hp
  have ho : o ≠ s := fun he => h i (he ▸ hp)
  simp [ho]

theorem ends_filter_output (L : Links) (p : SlotId × SlotId → Bool) (s : SlotId) :
    Links.ends (L.filter p) s .output = (L.ends s .output).filter fun i => p (s, i) := by
  simp only [ends, List.filter_map, List.filter_filter]
  congr 1
  apply List.filter_congr
  rintro ⟨o, i⟩ -
  by_cases ho : o = s
  · simp [ho]
  · simp [ho]

theorem ends_filter_input (L : Links) (p : SlotId × SlotId → Bool) (s : SlotId) :
    Links.ends (L.filter p) s .input = (L.ends s .input).filter fun o => p (o, s) := by
  simp only [ends, List.filter_map, List.filter_filter]
  congr 1
  apply List.filter_congr
  rintro ⟨o, i⟩ -
  by_cases hi : i = s
  · simp [hi]
  · simp [hi]

/-- A new link takes its input out of every output's list and puts it last in
its own. -/
theorem ends_link_output {L : Links} {o i : SlotId} (h : (o, i) ∉ L) (s : SlotId) :
    (L.link o i).ends s .output = (L.ends s .output).filter (· ≠ i) ++ if s = o then [i] else [] := by
  have happ : (L.link o i).ends s .output =
      Links.ends (L.filter (·.2 ≠ i)) s .output ++ Links.ends [(o, i)] s .output := by
    rw [link_of_not_mem h]
    simp [ends]
  rw [happ, ends_filter_output]
  congr 1
  by_cases hs : s = o
  · simp [ends, hs]
  · simp [ends, hs, Ne.symm hs]

/-- A new link is the only one of its input. -/
theorem ends_link_input {L : Links} {o i : SlotId} (h : (o, i) ∉ L) (s : SlotId) :
    (L.link o i).ends s .input = if s = i then [o] else L.ends s .input := by
  have happ : (L.link o i).ends s .input =
      Links.ends (L.filter (·.2 ≠ i)) s .input ++ Links.ends [(o, i)] s .input := by
    rw [link_of_not_mem h]
    simp [ends]
  rw [happ, ends_filter_input]
  by_cases hs : s = i
  · simp [ends, hs]
  · simp [ends, hs, Ne.symm hs]

end Links

end EffectGraph
