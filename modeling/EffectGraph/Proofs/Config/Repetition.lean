import EffectGraph.Proofs.Config.Joining
import EffectGraph.Proofs.Config.Strays
import EffectGraph.Proofs.Data.Equality

/-!
# Splitting files and repeating entries

What files merge into is told by all their entries in a row: it does not matter
how they are split, and nodes and links that an earlier file has may be given
again (`merge_as_one_file`). A node that is given again is compared with the first
one of its identifier. That comparison goes part by part, as collections of
different files are never the same one, so parameters that hold themselves are
not found to be equal however they are written (`merge_selfHolding`).
-/

namespace EffectGraph.Config

/-- A node that says what another one says, with parameters that can be compared. -/
structure Restates [Stack] (n n₀ : NodeDef) : Prop where
  id : n.id = n₀.id
  type : n.type = n₀.type
  params : (Data.map n.params).spelled Stack.compared = (Data.map n₀.params).spelled Stack.compared
  comparable : Data.Comparable Stack.compared ((Data.map n.params).spelled Stack.compared)

section

variable {cells : Nat → List Data} {n n₀ first : NodeDef}

theorem Restates.sameNode? [Stack] (h : Restates n n₀) (hn : Data.Filed cells Stack.compared (.map n.params))
    (hn₀ : Data.Filed cells Stack.compared (.map n₀.params)) : Config.sameNode? n₀ n = some true := by
  rw [Config.sameNode?, if_pos ⟨h.id.symm, h.type.symm⟩, Data.same?, Data.sameIn_spelled hn₀ hn h.comparable,
    ← h.params]
  exact Data.sameIn_self h.comparable

/-- What is defined like a node is defined like what restates it. -/
theorem Restates.sameNode?_of_same [Stack] (h : Restates n n₀) (hn : Data.Filed cells Stack.compared (.map n.params))
    (hn₀ : Data.Filed cells Stack.compared (.map n₀.params))
    (hfirst : Data.Filed cells Stack.compared (.map first.params)) (hsame : Config.sameNode? first n₀ = some true) :
    Config.sameNode? first n = some true := by
  unfold Config.sameNode? at hsame ⊢
  split at hsame
  · next hboth =>
    rw [if_pos ⟨hboth.1.trans h.id.symm, hboth.2.trans h.type.symm⟩]
    have hcomparable := h.comparable
    rw [h.params] at hcomparable
    rw [Data.same?, Data.sameIn_spelled hfirst hn h.comparable, h.params, ← Data.sameIn_spelled hfirst hn₀ hcomparable]
    exact hsame
  · cases hsame

/-- Where entries agree, every node is the first of its identifier or defined like it. -/
theorem Agrees.eq_or_sameNode? [Stack] {c : GraphConfig} (hc : Agrees c) (hmem : n ∈ c.nodes)
    (hfirst : c.nodes.find? (·.id == n.id) = some first) : first = n ∨ Config.sameNode? first n = some true := by
  obtain ⟨before, after, hsplit⟩ := List.append_of_mem hmem
  rw [hsplit, List.find?_append] at hfirst
  cases hbefore : before.find? (·.id == n.id) with
  | some m =>
    rw [hbefore, Option.some_or, Option.some.injEq] at hfirst
    subst hfirst
    exact .inr (hc.nodes before n after m hsplit hbefore)
  | none =>
    rw [hbefore, Option.none_or, List.find?_cons_of_pos (by simp)] at hfirst
    exact .inl (Option.some.inj hfirst).symm

/-- Where entries agree, a node that restates one of them fits behind them. -/
theorem Restates.fitNode [Stack] {c : GraphConfig} (hc : Agrees c) (h : Restates n n₀) (hmem : n₀ ∈ c.nodes)
    (hfiled : ∀ m ∈ c.nodes, Data.Filed cells Stack.compared (.map m.params))
    (hn : Data.Filed cells Stack.compared (.map n.params)) : FitNode c.nodes n := by
  intro first hfirst
  rw [h.id] at hfirst
  rcases hc.eq_or_sameNode? hmem hfirst with rfl | hsame
  · exact h.sameNode? hn (hfiled _ hmem)
  · exact h.sameNode?_of_same hn (hfiled _ hmem) (hfiled _ (List.mem_of_find?_eq_some hfirst)) hsame

/-- A node with the identifier of another one is not added if it fits. -/
theorem addNode_again [Stack] {name : String} {c : GraphConfig} (h : FitNode c.nodes n)
    (hmem : n.id ∈ c.nodes.map (·.id)) :
    addNode (gathered name c) n = .ok (gathered name c) := by
  have hold : (c.nodes.find? (·.id == n.id)).isSome := by
    obtain ⟨m, hm, hid⟩ := List.mem_map.1 hmem
    exact List.find?_isSome.2 ⟨m, hm, by simp [hid]⟩
  refine addNode_gathered.2 ⟨h, ?_⟩
  simp only [gathered, firsts_snoc, if_pos hold]

theorem addNodes_again [Stack] {name : String} {c : GraphConfig} {ns : List NodeDef}
    (h : ∀ n ∈ ns, addNode (gathered name c) n = .ok (gathered name c)) :
    ns.foldlM addNode (gathered name c) = .ok (gathered name c) := by
  induction ns with
  | nil => rfl
  | cons n ns ih =>
    rw [List.foldlM_cons, h n List.mem_cons_self]
    exact ih fun m hm => h m (List.mem_cons_of_mem _ hm)

theorem addLinks_again {d : Definition} {ls : List LinkDef} (h : ∀ l ∈ ls, l ∈ d.links) :
    ls.foldl addLink d = d := by
  induction ls with
  | nil => rfl
  | cons l ls ih =>
    rw [List.foldl_cons, addLink, if_pos (h l List.mem_cons_self)]
    exact ih fun m hm => h m (List.mem_cons_of_mem _ hm)

/-- A file may begin with nodes and links that were there before. -/
theorem addConfig_again [Stack] {name : String} {c x : GraphConfig} {ns : List NodeDef} {ls : List LinkDef}
    (hns : ∀ n ∈ ns, addNode (gathered name c) n = .ok (gathered name c)) (hls : ∀ l ∈ ls, l ∈ c.links) :
    addConfig (gathered name c) { x with nodes := ns ++ x.nodes, links := ls ++ x.links } =
      addConfig (gathered name c) x := by
  unfold addConfig
  dsimp only
  rw [List.foldlM_append, addNodes_again hns]
  cases hnodes : x.nodes.foldlM addNode (gathered name c) with
  | error e => simp only [bind, Except.bind, hnodes]
  | ok d =>
    have hlinks : ∀ l ∈ ls, l ∈ d.links := by
      rw [(addNodes_gathered.1 hnodes).2]
      exact fun l hl => List.mem_eraseDups.2 (hls l hl)
    simp only [bind, Except.bind, hnodes, List.foldl_append, addLinks_again hlinks]

end

theorem merge_append [Stack] (name : String) (front back : List GraphConfig) :
    merge name (front ++ back) = merge name front >>= fun d => back.foldlM addConfig d :=
  List.foldlM_append

/-- Files are merged exactly if all their entries agree, and the definition has what
these entries say. So files with the same entries in a row are merged alike. A
file may also give nodes and links again that are in the files before it, if the
parameters of these nodes can be compared; the cells of a file are the same
wherever its webs are. -/
theorem merge_as_one_file [Stack] (name : String) (configs : List GraphConfig) :
    ((∃ d, merge name configs = .ok d) ↔ Agrees (joined configs)) ∧
    (∀ d, merge name configs = .ok d → Gathers name (joined configs) d) ∧
    (∀ configs', joined configs' = joined configs → ∀ d, merge name configs' = .ok d ↔ merge name configs = .ok d) ∧
    ∀ front c back ns ls cells, configs = front ++ c :: back →
      (∀ n ∈ (joined front).nodes ++ ns, Data.Filed cells Stack.compared (.map n.params)) →
      (∀ n ∈ ns, ∃ n₀ ∈ (joined front).nodes, Restates n n₀) → (∀ l ∈ ls, l ∈ (joined front).links) →
      merge name (front ++ { c with nodes := ns ++ c.nodes, links := ls ++ c.links } :: back) = merge name configs := by
  refine ⟨⟨fun ⟨d, hd⟩ => (merge_eq_ok.1 hd).1, fun h => ⟨_, merge_eq_ok.2 ⟨h, rfl⟩⟩⟩, fun d => gathers_merge,
    fun configs' hjoined d => by rw [merge_eq_ok, merge_eq_ok, hjoined], ?_⟩
  rintro front c back ns ls cells rfl hfiled hns hls
  rw [merge_append, merge_append]
  cases hfront : merge name front with
  | error e => rfl
  | ok d =>
    obtain ⟨hagrees, rfl⟩ := merge_eq_ok.1 hfront
    -- What is given again leaves the definition of the files before as it is.
    have hagain : ∀ n ∈ ns, addNode (gathered name (joined front)) n = .ok (gathered name (joined front)) := by
      intro n hn
      obtain ⟨n₀, hmem, hrestates⟩ := hns n hn
      refine addNode_again (hrestates.fitNode hagrees hmem (fun m hm => hfiled m (List.mem_append_left _ hm))
        (hfiled n (List.mem_append_right _ hn))) ?_
      rw [hrestates.id]
      exact List.mem_map_of_mem hmem
    simp only [bind, Except.bind, List.foldlM_cons, addConfig_again hagain hls]

/-- A list that a file has in two places. -/
def sharedList : List Data := [.list [.int 1]]

/-- A node with parameters that share a list. -/
def sharingNode (file : Nat) : NodeDef where
  id := "n"
  type := "Time"
  params := [(.str "a", .web file sharedList 0), (.str "b", .web file sharedList 0)]

theorem spelled_sharingNode (room file : Nat) : (Data.map (sharingNode file).params).spelled (room + 3) =
    .map [(.str "a", .list [.int 1]), (.str "b", .list [.int 1])] := rfl

theorem comparable_sharingNode (room file : Nat) :
    Data.Comparable (room + 3) ((Data.map (sharingNode file).params).spelled (room + 3)) := by
  have hkeys : Data.sameIn (room + 2) (.str "b") (.str "a") = some false := rfl
  rw [spelled_sharingNode]
  simp [Data.Comparable, Data.held, Data.expose, hkeys]

theorem filed_sharingNode (room file : Nat) :
    Data.Filed (fun _ => sharedList) (room + 3) (.map (sharingNode file).params) := by
  simp [sharingNode, Data.expose, sharedList, Data.close, Data.closeAll, Data.Filed, Data.held]

section

open scoped EffectGraph.Stack.Usual

theorem restates_sharingNode (file file' : Nat) : Restates (sharingNode file) (sharingNode file') :=
  ⟨rfl, rfl, (spelled_sharingNode 997 file).trans (spelled_sharingNode 997 file').symm, comparable_sharingNode 997 file⟩

theorem merge_as_one_file_sharing :
    merge "g" [{ name := "g", nodes := [sharingNode 0] }, { name := "g", nodes := [sharingNode 1] }] =
      .ok { name := "g", nodes := [sharingNode 0] } := by
  obtain ⟨-, -, -, hagain⟩ := merge_as_one_file "g" [{ name := "g", nodes := [sharingNode 0] }, { name := "g" }]
  have hfiled : ∀ n ∈ [sharingNode 0, sharingNode 1],
      Data.Filed (fun _ => sharedList) Stack.compared (.map n.params) := by
    rw [List.forall_mem_cons, List.forall_mem_singleton]
    exact ⟨filed_sharingNode 997 0, filed_sharingNode 997 1⟩
  have hns : ∀ n ∈ [sharingNode 1], ∃ n₀ ∈ [sharingNode 0], Restates n n₀ := by
    rw [List.forall_mem_singleton]
    exact ⟨_, List.mem_singleton_self _, restates_sharingNode 1 0⟩
  exact (hagain [{ name := "g", nodes := [sharingNode 0] }] { name := "g" } [] [sharingNode 1] [] _ rfl hfiled hns
    (by simp)).trans rfl

end

/-! ## Parameters that hold themselves -/

/-- A list that holds itself. -/
def selfHolding (file : Nat) : Data := .web file [.list [.cell 0]] 0

/-- A node with such a list for a parameter. -/
def selfHoldingNode (file : Nat) : NodeDef where
  id := "n"
  type := "Time"
  params := [(.str "v", selfHolding file)]

theorem expose_selfHolding (file : Nat) : (selfHolding file).expose = .list [selfHolding file] := rfl

theorem spelled_selfHolding (room file file' : Nat) :
    (selfHolding file).spelled room = (selfHolding file').spelled room := by
  induction room with
  | zero => rfl
  | succ room ih => simp only [Data.spelled, expose_selfHolding, List.map_singleton, ih]

/-- Lists of different files that hold themselves are compared without end. -/
theorem sameIn_selfHolding {file file' : Nat} (h : file ≠ file') (room : Nat) :
    Data.sameIn room (selfHolding file) (selfHolding file') = none := by
  have hself : Data.isSelf (selfHolding file) (selfHolding file') = false := by
    simp [Data.isSelf, selfHolding, Data.place?, h]
  induction room with
  | zero => simp [Data.sameIn, hself]
  | succ room ih => simp [Data.sameIn, hself, expose_selfHolding, Data.sameItems, ih, Data.both]

theorem sameNode?_selfHoldingNode [Stack] {file file' : Nat} (h : file ≠ file') :
    sameNode? (selfHoldingNode file) (selfHoldingNode file') = none := by
  have hparams : ∀ room, Data.sameIn (room + 2) (.map (selfHoldingNode file).params)
      (.map (selfHoldingNode file').params) = none := by
    intro room
    have hname : Data.sameIn (room + 1) (.str "v") (.str "v") = some true := rfl
    rw [Data.sameIn]
    simp [Data.isSelf, Data.place?, Data.expose, selfHoldingNode, Data.sameEntries, hname, sameIn_selfHolding h,
      Data.both]
  obtain ⟨room, hroom⟩ := Stack.exists_compared
  rw [sameNode?, if_pos ⟨rfl, rfl⟩, Data.same?, hroom, hparams]

open scoped EffectGraph.Stack.Usual in
/-- A node with a parameter that holds itself cannot be given again: a file that has
it is merged alone, but not with another file that has it. -/
theorem merge_selfHolding :
    (∀ room, (Data.map (selfHoldingNode 1).params).spelled room = (Data.map (selfHoldingNode 0).params).spelled room) ∧
      merge "g" [{ name := "g", nodes := [selfHoldingNode 0] }] = .ok { name := "g", nodes := [selfHoldingNode 0] } ∧
      merge "g" [{ name := "g", nodes := [selfHoldingNode 0] }, { name := "g", nodes := [selfHoldingNode 1] }] =
        .error .endlessComparison := by
  have hfirst : merge "g" [{ name := "g", nodes := [selfHoldingNode 0] }] =
      .ok { name := "g", nodes := [selfHoldingNode 0] } := rfl
  refine ⟨fun room => ?_, hfirst, ?_⟩
  · cases room with
    | zero => rfl
    | succ room => simp [Data.spelled, Data.expose, selfHoldingNode, spelled_selfHolding room 1 0]
  · have hfind : [selfHoldingNode 0].find? (·.id == (selfHoldingNode 1).id) = some (selfHoldingNode 0) :=
      List.find?_cons_of_pos (by simp [selfHoldingNode])
    exact (Strays.node (List.singleton_append).symm hfirst (List.nil_append _).symm rfl hfind
      (.endless (sameNode?_selfHoldingNode Nat.zero_ne_one))).merge_eq

end EffectGraph.Config
