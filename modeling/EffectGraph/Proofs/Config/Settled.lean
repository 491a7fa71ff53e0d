import EffectGraph.Proofs.Config.Joining

/-!
# What merging settles

A definition that comes out of a merge has no two nodes, properties or outputs of
one name, and its outputs are references (`Settled`, `settled_merge`). So what
uses the definition later need not expect these faults.
-/

namespace EffectGraph.Config

/-- What holds of a merged definition. -/
structure Settled (d : Definition) : Prop where
  nodes : (d.nodes.map (·.id)).Nodup
  properties : (d.properties.map Prod.fst).Nodup
  outputs : (d.outputs.map Prod.fst).Nodup
  references : ∀ o ∈ d.outputs, ∃ parts, slotRef o.2 = .ok parts

/-- A merged definition is settled. -/
theorem settled_merge [Stack] {name : String} {configs : List GraphConfig} {d : Definition}
    (h : merge name configs = .ok d) : Settled d := by
  obtain ⟨hagrees, rfl⟩ := merge_eq_ok.1 h
  refine ⟨nodup_firsts _, ?_, ?_, fun o ho => ?_⟩
  · rw [map_fst_properties]
    exact hagrees.properties
  · rw [map_fst_outputs]
    exact hagrees.outputs
  · obtain ⟨output, hmem, rfl⟩ := List.mem_map.1 ho
    obtain ⟨id, slot, hsplit⟩ := hagrees.references output hmem
    exact ⟨_, slotRef_eq_ok_iff.2 hsplit⟩

end EffectGraph.Config
