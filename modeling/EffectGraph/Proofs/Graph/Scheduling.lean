import EffectGraph.Proofs.Graph.Cycles
import EffectGraph.Proofs.Graph.Dependencies
import EffectGraph.Proofs.Graph.Evaluation
import Mathlib

/-!
# The order of evaluation

Before it evaluates anything, an evaluator finds out what the nodes of its graph need
and puts them in order. There are two ways this ends (`build_cases`): with an order in
which every node comes after those it depends on (`Ordered`), or with a cycle of
dependencies. So it fails on the graphs that have a cycle and on no others, and names
one (`build_names_cycle`); of any other graph it finds the whole order and the
dependencies from both ends (`build_orders`).
-/

namespace EffectGraph

namespace Graph

/-- A node needs each node once. -/
theorem nodup_of_allNeeds {g : Graph} {d : Needs} (h : g.allNeeds = .ok d) (n : NodeId) : (d.of n).Nodup := by
  obtain ⟨needs, hneeds, h⟩ := Except.bind_eq_ok.1 h
  cases h
  simp only [Needs.of, Array.getD_eq_getD_getElem?, List.getElem?_toArray]
  cases hn : needs[n.index]? with
  | none => exact List.nodup_nil
  | some ns =>
    obtain ⟨k, -, hk⟩ := Except.exists_of_mem_mapM hneeds (List.mem_of_getElem? hn)
    obtain ⟨inputs, -, hk⟩ := Except.bind_eq_ok.1 hk
    obtain ⟨sources, -, hk⟩ := Except.bind_eq_ok.1 hk
    cases hk
    exact nodup_eraseDups _

end Graph

namespace Evaluator

/-- The order of evaluation of an acyclic graph: each node after those it depends on. -/
structure Ordered (g : Graph) (d : Needs) (order : List NodeId) : Prop where
  needs : g.allNeeds = .ok d
  sorted : d.sorted = .ok order
  cycle : d.findCycle = .ok ()
  orders : d.Orders order
  mirrored : d.Mirrored
  size : d.needs.size = g.nodes.size
  needed : d.Needed = g.DependsOn

variable {g : Graph} {L : Links}

theorem ordered_of_acyclic (ha : g.Agrees L) (hg : g.Laid) (hac : g.Acyclic) : ∃ d order, Ordered g d order := by
  obtain ⟨d, hneeds, hsize, hd, hneeded⟩ := ha.allNeeds_eq hg
  have hac' : d.Acyclic := by
    rwa [Needs.Acyclic, hneeded]
  obtain ⟨order, hsorted⟩ := hd.sorted_of_acyclic hac'
  exact ⟨d, order, hneeds, hsorted, Needs.findCycle_of_acyclic hac', hd.orders_of_sorted hsorted, hd, hsize, hneeded⟩

theorem Ordered.acyclic {d : Needs} {order : List NodeId} (h : Ordered g d order) : g.Acyclic := by
  have hac := h.orders.acyclic
  rwa [Needs.Acyclic, h.needed] at hac

theorem Ordered.build_eq {d : Needs} {order : List NodeId} (h : Ordered g d order) (e : Evaluator) (m : Module) :
    build g (e, m) = .ok () ({ e with needs := d, order := order }, m) := by
  simp only [build, reorder, h.needs, h.cycle, h.sorted]

/-- An evaluator finds an order of its graph, or a cycle in it. -/
theorem build_cases (ha : g.Agrees L) (hg : g.Laid) (e : Evaluator) (m : Module) :
    (∃ d order, Ordered g d order ∧ build g (e, m) = .ok () ({ e with needs := d, order := order }, m)) ∨
      ∃ d c, Needs.IsCycle g.DependsOn c ∧ build g (e, m) = .error (.cycle c) ({ e with needs := d }, m) := by
  obtain ⟨d, hneeds, -, hd, hneeded⟩ := ha.allNeeds_eq hg
  cases hfind : d.findCycle with
  | ok _ =>
    obtain ⟨order, horders⟩ := hd.orders_of_findCycle hfind
    have hac : g.Acyclic := by
      have hac := horders.acyclic
      rwa [Needs.Acyclic, hneeded] at hac
    obtain ⟨d, order, ho⟩ := ordered_of_acyclic ha hg hac
    exact .inl ⟨d, order, ho, ho.build_eq e m⟩
  | error err =>
    obtain ⟨c, rfl, hc⟩ := Needs.findCycle_eq_error hfind
    refine .inr ⟨d, c, hneeded ▸ hc, ?_⟩
    simp only [build, reorder, hneeds, hfind]

/-- Where no order is found, nothing is evaluated. -/
theorem evaluate_of_build_error [Stack] {e : Evaluator} {m : Module} {err : Error} {s : Evaluator × Module}
    (h : build g (e, m) = .error err s) (targets : Option (List SlotId)) :
    evaluate g targets (e, m) = .error err s := by
  simp only [evaluate, bind, EStateM.bind, h]

/-- Whatever calls made the graph, an evaluator fails to find an order exactly when some
node depends on itself, directly or not. It fails by naming the nodes of a cycle, from
one of them along dependencies back to it, no other twice; and then an evaluation for
any slots fails alike, with the values of the evaluator and the module as they were. -/
theorem build_names_cycle [Stack] (cs : List Graph.Call) (e : Evaluator) (m : Module) :
    let g := Graph.reached cs
    ((∃ c s, build g (e, m) = .error (.cycle c) s) ↔ ∃ n, Relation.TransGen g.DependsOn n n) ∧
    ∀ err s, build g (e, m) = .error err s →
      (∃ c, err = .cycle c ∧ Needs.IsCycle g.DependsOn c ∧ err.kind = .evaluation ∧
        err.message = "Cycle detected in graph: " ++ String.intercalate " -> " (c.map fun n => toString n.id)) ∧
      (∀ targets, evaluate g targets (e, m) = .error err s) ∧ s.1.values = e.values ∧ s.2 = m := by
  intro g
  rcases build_cases (Graph.reached_agrees cs) (Graph.reached_laid cs) e m with
    ⟨d, order, ho, hbuild⟩ | ⟨d, c, hc, hbuild⟩
  · refine ⟨⟨?_, ?_⟩, fun err s h => ?_⟩
    · rintro ⟨c, s, h⟩
      rw [hbuild] at h
      cases h
    · rintro ⟨n, hn⟩
      exact absurd hn (ho.acyclic n)
    · rw [hbuild] at h
      cases h
  · refine ⟨⟨fun _ => hc.exists_transGen, fun _ => ⟨c, _, hbuild⟩⟩, fun err s h => ?_⟩
    have hevaluate := evaluate_of_build_error h
    rw [hbuild] at h
    cases h
    exact ⟨⟨c, rfl, hc, rfl, rfl⟩, hevaluate, rfl, rfl⟩

/-- Two nodes that read each other: the search starts at the first, and comes back to it. -/
example : (match build (Graph.reached [.addNode .normalize, .addNode .normalize, .link ⟨1⟩ ⟨2⟩, .link ⟨3⟩ ⟨0⟩])
      ({}, {}) with
    | .error (.cycle c) _ => c
    | _ => []) = [⟨0⟩, ⟨1⟩, ⟨0⟩] := by
  cbv

/-- Whatever calls made the graph, if no node depends on itself, directly or not, an
evaluator finds an order: every node once, each after those it depends on. It knows
what each node depends on, each node once, and, from the other end, the same of the
nodes that depend on it. -/
theorem build_orders (cs : List Graph.Call) (hac : (Graph.reached cs).Acyclic) (e : Evaluator) (m : Module) :
    let g := Graph.reached cs
    ∃ e', build g (e, m) = .ok () (e', m) ∧
      e'.order.Perm g.nodeIds ∧
      (∀ before n after, e'.order = before ++ n :: after → ∀ d, g.DependsOn n d → d ∈ before) ∧
      (∀ n, (e'.needs.of n).Nodup ∧ ∀ d, d ∈ e'.needs.of n ↔ g.DependsOn n d) ∧
      (∀ n, (e'.needs.usersOf n).Nodup ∧ ∀ u, u ∈ e'.needs.usersOf n ↔ n ∈ e'.needs.of u) ∧
      e'.needs.needs.size = g.nodes.size ∧ e'.values = e.values := by
  intro g
  have hg : g.Laid := Graph.reached_laid cs
  obtain ⟨d, order, ho⟩ := ordered_of_acyclic (Graph.reached_agrees cs) hg hac
  have hneeded : ∀ n x, x ∈ d.of n ↔ g.DependsOn n x := fun n x => iff_of_eq (congrFun₂ ho.needed n x)
  have honce : ∀ n, (d.of n).Nodup := Graph.nodup_of_allNeeds ho.needs
  have husers : ∀ n u, (d.usersOf n).count u = (d.of u).count n := fun n u => ho.mirrored.users u n
  refine ⟨{ e with needs := d, order := order }, ho.build_eq e m, ?_, ?_, fun n => ⟨honce n, hneeded n⟩, ?_,
    ho.size, rfl⟩
  · have hnodes : g.nodeIds = d.nodes := by
      rw [Graph.nodeIds, Needs.nodes, ho.size]
    rw [hnodes, List.perm_ext_iff_of_nodup ho.orders.once d.nodup_nodes]
    intro n
    rw [ho.orders.all, Needs.mem_nodes]
  · intro before n after hsplit x hx
    exact ho.orders.closed before n after hsplit x ((hneeded n x).2 hx)
  · refine fun n => ⟨List.nodup_iff_count_le_one.2 fun u => ?_, fun u => ?_⟩
    · rw [husers]
      exact List.nodup_iff_count_le_one.1 (honce u) n
    · rw [← List.count_pos_iff, husers, List.count_pos_iff]

/-- Calls that make a graph whose nodes stand after those that read them; the first
reads the second with both its inputs. -/
def backwards : List Graph.Call :=
  [.addNode (.arithmetic .add), .addNode .normalize, .addNode (.attribute .velocity),
    .link ⟨5⟩ ⟨3⟩, .link ⟨4⟩ ⟨0⟩, .link ⟨4⟩ ⟨1⟩]

theorem build_orders_backwards :
    (Graph.reached backwards).Acyclic ∧ ∃ e', build (Graph.reached backwards) ({}, {}) = .ok () (e', {}) ∧
      e'.order = [⟨2⟩, ⟨1⟩, ⟨0⟩] ∧ e'.needs.of ⟨0⟩ = [⟨1⟩] ∧ e'.needs.usersOf ⟨1⟩ = [⟨0⟩] ∧
      e'.order.Perm (Graph.reached backwards).nodeIds := by
  have hrun : (match build (Graph.reached backwards) ({}, {}) with
      | .ok _ (e, _) => some (e.order, e.needs.of ⟨0⟩, e.needs.usersOf ⟨1⟩)
      | .error _ _ => none) = some ([⟨2⟩, ⟨1⟩, ⟨0⟩], [⟨1⟩], [⟨0⟩]) := by
    cbv
  have hac : (Graph.reached backwards).Acyclic := by
    rcases build_cases (Graph.reached_agrees backwards) (Graph.reached_laid backwards) {} {} with
      ⟨d, order, ho, -⟩ | ⟨d, c, -, hbuild⟩
    · exact ho.acyclic
    · rw [hbuild] at hrun
      cases hrun
  obtain ⟨e', hbuild, hperm, -⟩ := build_orders backwards hac {} {}
  rw [hbuild, Option.some.injEq, Prod.mk.injEq, Prod.mk.injEq] at hrun
  exact ⟨hac, e', hbuild, hrun.1, hrun.2.1, hrun.2.2, hperm⟩

end Evaluator

end EffectGraph
