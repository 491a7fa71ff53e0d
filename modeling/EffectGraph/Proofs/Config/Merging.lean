import EffectGraph.Proofs.Config.Joining
import EffectGraph.Proofs.Effect.Stages
import Mathlib

/-!
# Repeated links in merged files

A merged definition has the links of all files, each once, at the place where
it was first given. An input reads what the last of its links says, so leaving
out repetitions keeps its source exactly when that last link is also the last
to be given for the first time (`sourceSlot_merge_eq_iff`). A link that is given
again after another one to the same input loses the input to the other one
(`reclaimed_input`).
-/

namespace EffectGraph

/-! ## Each member once -/

theorem filter_eraseDups [DecidableEq α] (p : α → Bool) (as : List α) :
    as.eraseDups.filter p = (as.filter p).eraseDups := by
  induction as using List.reverseRecOn with
  | nil => rfl
  | append_singleton as a ih =>
    rw [eraseDups_snoc, List.filter_append]
    by_cases hp : p a
    · rw [List.filter_cons_of_pos hp, List.filter_nil, eraseDups_snoc, ← ih]
      by_cases h : a ∈ as
      · simp [h, hp]
      · simp [h, hp]
    · rw [List.filter_cons_of_neg hp, List.filter_nil, List.append_nil, ← ih]
      by_cases h : a ∈ as
      · simp [h]
      · simp [h, hp]

/-- The last member, each taken once, is the one whose first occurrence is last. -/
theorem getLast?_eraseDups_eq_some_iff [DecidableEq α] {as : List α} {a : α} :
    as.eraseDups.getLast? = some a ↔ a ∈ as ∧ ∀ b ∈ as, as.idxOf b ≤ as.idxOf a := by
  induction as using List.reverseRecOn with
  | nil => simp
  | append_singleton as x ih =>
    rw [eraseDups_snoc]
    by_cases hx : x ∈ as
    · have hmem : ∀ b, b ∈ as ++ [x] ↔ b ∈ as := by
        intro b
        simp only [List.mem_append, List.mem_singleton, or_iff_left_iff_imp]
        rintro rfl
        exact hx
      simp only [if_pos hx, ih, hmem]
      refine and_congr_right fun ha => forall₂_congr fun b hb => ?_
      rw [List.idxOf_append_of_mem hb, List.idxOf_append_of_mem ha]
    · rw [if_neg hx, List.getLast?_concat, Option.some.injEq]
      have hlast : (as ++ [x]).idxOf x = as.length := by
        rw [List.idxOf_append_of_notMem hx]
        simp
      constructor
      · rintro rfl
        refine ⟨by simp, fun b hb => ?_⟩
        rw [hlast]
        have := List.idxOf_lt_length_of_mem hb
        simp only [List.length_append, List.length_singleton] at this
        omega
      · rintro ⟨ha, hmax⟩
        by_contra hne
        have ha' : a ∈ as := by
          simpa [Ne.symm hne] using ha
        have hle := hmax x (by simp)
        rw [hlast, List.idxOf_append_of_mem ha'] at hle
        have := List.idxOf_lt_length_of_mem ha'
        omega

namespace Config

/-- A merged definition has the links of all files, each once. -/
theorem links_merge [Stack] {name : String} {configs : List GraphConfig} {d : Definition}
    (h : merge name configs = .ok d) : d.links = (configs.flatMap (·.links)).eraseDups :=
  (gathers_merge h).links

end Config

namespace Builder

/-- Where links can be made, they can be made again. -/
theorem Built.repeat_links {registry : Registry} {ds : List NodeDef} {ls ls' : List LinkDef}
    {nodes : List Node} {pairs : List (SlotId × SlotId)} {b : Builder} (h : Built registry ds ls nodes pairs b)
    (hls : ∀ l ∈ ls', l ∈ ls) :
    ∃ pairs' b', Built registry ds ls' nodes pairs' b' ∧ b'.nodeIds = b.nodeIds ∧ b'.graph.nodes = b.graph.nodes ∧
      b'.resolve = b.resolve ∧ b'.graph.dirOf? = b.graph.dirOf? := by
  refine h.relinked fun l hl => ?_
  obtain ⟨p, -, hp⟩ := Except.exists_of_mapM_mem h.mapM_resolveLink (hls l hl)
  exact ⟨p, hp⟩

end Builder

namespace Config

/-- Leaving out repeated links keeps the source of an input exactly when the last
link to it is also the last to be given for the first time. -/
theorem sourceSlot_merge_eq_iff [Stack] (registry : Registry) (name : String) (configs : List GraphConfig)
    (d : Definition)
    (b : Builder) (hd : merge name configs = .ok d)
    (hb : Compiler.construct { registry := registry } d = .ok b) :
    ∃ b', Compiler.construct { registry := registry } { d with links := configs.flatMap (·.links) } = .ok b' ∧
      b'.nodeIds = b.nodeIds ∧ b'.graph.nodes = b.graph.nodes ∧
      ∀ i, b.graph.dirOf? i = some .input →
        let into := b.into (configs.flatMap (·.links)) i
        (b.graph.sourceSlot i = b'.graph.sourceSlot i ↔
          ∀ l, into.getLast? = some l → ∀ l' ∈ into, into.idxOf l' ≤ into.idxOf l) := by
  have hlinks := links_merge hd
  obtain ⟨nodes, pairs, h⟩ := Compiler.construct_eq_ok.1 hb
  obtain ⟨pairs', b', h', hids, hnodes, hresolve, hdirs⟩ := h.repeat_links
    fun l (hl : l ∈ configs.flatMap (·.links)) => by rwa [hlinks, List.mem_eraseDups]
  refine ⟨b', Compiler.construct_eq_ok.2 ⟨nodes, pairs', h'⟩, hids, hnodes, fun i hi => ?_⟩
  have hinto : b.into d.links i = (b.into (configs.flatMap (·.links)) i).eraseDups := by
    rw [hlinks]
    exact filter_eraseDups _ _
  have hsame : ∀ l p, b'.resolveLink l = .ok p ↔ b.resolveLink l = .ok p := by
    intro l p
    simp only [Builder.resolveLink_eq_ok, hresolve, hdirs]
  have hinto' : b'.into (configs.flatMap (·.links)) i = b.into (configs.flatMap (·.links)) i := by
    simp only [Builder.into, hresolve]
  have hi' : b'.graph.dirOf? i = some .input := by
    rw [hdirs, hi]
  dsimp only
  cases hlast : (b.into (configs.flatMap (·.links)) i).getLast? with
  | none =>
    -- No link leads to the input, so it reads nothing either way.
    have hnil := List.getLast?_eq_none_iff.1 hlast
    rw [h.sourceSlot_eq_none hi (by rw [hinto, hnil]; rfl), h'.sourceSlot_eq_none hi' (by rw [hinto', hnil])]
    simp
  | some l =>
    obtain ⟨hmem, htarget⟩ := List.mem_filter.1 (List.mem_of_getLast? hlast)
    obtain ⟨⟨o, i₁⟩, -, hp⟩ := Except.exists_of_mapM_mem h'.mapM_resolveLink hmem
    rw [hsame] at hp
    have hi₁ : i₁ = i := by
      simpa [(Builder.resolveLink_eq_ok.1 hp).2.1, Except.toOption] using htarget
    subst hi₁
    rw [(h'.sourceSlot_eq_some_iff hi').2 ⟨l, by rw [hinto', hlast], (hsame l _).2 hp⟩,
      h.sourceSlot_eq_some_iff hi, hinto]
    have hlinked : (∃ l', (b.into (configs.flatMap (·.links)) i₁).eraseDups.getLast? = some l' ∧
        b.resolveLink l' = .ok (o, i₁)) ↔ (b.into (configs.flatMap (·.links)) i₁).eraseDups.getLast? = some l := by
      constructor
      · rintro ⟨l', hl', hp'⟩
        rwa [← h.resolveLink_injective hp hp'] at hl'
      · intro hl
        exact ⟨l, hl, hp⟩
    rw [hlinked, getLast?_eraseDups_eq_some_iff]
    simp [List.mem_of_getLast? hlast]

/-- A file with a node that reads the velocity of a particle. -/
def velocityFile : GraphConfig where
  name := "direction"
  nodes := [{ id := "v", type := "Attribute", params := [(.str "attribute", .str "velocity")] },
    { id := "p", type := "Attribute", params := [(.str "attribute", .str "position")] },
    { id := "n", type := "Normalize" }]
  links := [⟨"v.velocity", "n.in"⟩]

/-- A file that makes the node read the velocity and then the position. -/
def positionFile : GraphConfig where
  name := "direction"
  links := [⟨"v.velocity", "n.in"⟩, ⟨"p.position", "n.in"⟩]

/-- A file that makes the node read the position and then the velocity again. -/
def reclaimingFile : GraphConfig where
  name := "direction"
  links := [⟨"p.position", "n.in"⟩, ⟨"v.velocity", "n.in"⟩]

/-- What the first file merges into with either of the others. -/
def direction : Definition where
  name := "direction"
  nodes := velocityFile.nodes
  links := [⟨"v.velocity", "n.in"⟩, ⟨"p.position", "n.in"⟩]

open scoped EffectGraph.Stack.Usual in
theorem sourceSlot_merge_eq_positionFile : ∃ b b', merge "direction" [velocityFile, positionFile] = .ok direction ∧
    Compiler.construct {} direction = .ok b ∧
    Compiler.construct {} { direction with links := [velocityFile, positionFile].flatMap (·.links) } = .ok b' ∧
    b.graph.dirOf? ⟨2⟩ = some .input ∧ b.graph.sourceSlot ⟨2⟩ = b'.graph.sourceSlot ⟨2⟩ := by
  have hd : merge "direction" [velocityFile, positionFile] = .ok direction := by
    cbv
  have hb : (Compiler.construct {} direction).toOption.map (fun b => (b.graph.dirOf? ⟨2⟩,
      b.into ([velocityFile, positionFile].flatMap (·.links)) ⟨2⟩)) = some (some .input,
        [⟨"v.velocity", "n.in"⟩, ⟨"v.velocity", "n.in"⟩, ⟨"p.position", "n.in"⟩]) := by
    cbv
  simp only [Option.map_eq_some_iff, Except.toOption_eq_some, Prod.mk.injEq] at hb
  obtain ⟨b, hb, hi, hinto⟩ := hb
  obtain ⟨b', hb', -, -, hsource⟩ := sourceSlot_merge_eq_iff Registry.builtin _ _ _ b hd hb
  refine ⟨b, b', hd, hb, hb', hi, (hsource ⟨2⟩ hi).2 ?_⟩
  rw [hinto]
  decide

open scoped EffectGraph.Stack.Usual in
/-- Without its repetitions a link may lose its input: the graph of the merged
definition reads the position, that of all links as given the velocity. -/
theorem reclaimed_input : ∃ b b', merge "direction" [velocityFile, reclaimingFile] = .ok direction ∧
    Compiler.construct {} direction = .ok b ∧
    Compiler.construct {} { direction with links := [velocityFile, reclaimingFile].flatMap (·.links) } = .ok b' ∧
    b.graph.dirOf? ⟨2⟩ = some .input ∧ b.graph.sourceSlot ⟨2⟩ = .ok (some ⟨1⟩) ∧
    b'.graph.sourceSlot ⟨2⟩ = .ok (some ⟨0⟩) := by
  have hd : merge "direction" [velocityFile, reclaimingFile] = .ok direction := by
    cbv
  have hb : (Compiler.construct {} direction).toOption.map (fun b => (b.graph.dirOf? ⟨2⟩, b.graph.sourceSlot ⟨2⟩)) =
      some (some .input, .ok (some ⟨1⟩)) := by
    cbv
  have hb' : (Compiler.construct {} { direction with
      links := [velocityFile, reclaimingFile].flatMap (·.links) }).toOption.map (·.graph.sourceSlot ⟨2⟩) =
      some (.ok (some ⟨0⟩)) := by
    cbv
  simp only [Option.map_eq_some_iff, Except.toOption_eq_some, Prod.mk.injEq] at hb hb'
  obtain ⟨b, hb, hi, hs⟩ := hb
  obtain ⟨b', hb', hs'⟩ := hb'
  exact ⟨b, b', hd, hb, hb', hi, hs, hs'⟩

end Config
end EffectGraph
