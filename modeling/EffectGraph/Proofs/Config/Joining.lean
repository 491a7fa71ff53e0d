import EffectGraph.Config.Merge
import EffectGraph.Proofs.Graph.Building

/-!
# Files as one file

Merging treats a list of files as the one file that has all their entries in a
row (`joined`). It succeeds exactly if these entries agree (`Agrees`), and the
definition that it leaves is told by them (`Gathers`, `merge_eq_ok`). Each kind of
entries is added to a field of its own, so that the kinds can be looked at one
after the other although every file has entries of all of them.
-/

namespace EffectGraph

/-! ## Entries one after the other -/

/-- Every member is fit to come after those before it and after `seen`. -/
def Follows (fit : List α → α → Prop) : List α → List α → Prop
  | _, [] => True
  | seen, a :: as => fit seen a ∧ Follows fit (seen ++ [a]) as

section

variable {fit : List α → α → Prop} {seen as bs : List α}

theorem follows_append : Follows fit seen (as ++ bs) ↔ Follows fit seen as ∧ Follows fit (seen ++ as) bs := by
  induction as generalizing seen with
  | nil => simp [Follows]
  | cons a as ih => simp [Follows, ih, and_assoc]

theorem follows_iff : Follows fit seen as ↔ ∀ before a after, as = before ++ a :: after → fit (seen ++ before) a := by
  induction as generalizing seen with
  | nil => simp [Follows]
  | cons a as ih =>
    rw [Follows, ih]
    constructor
    · rintro ⟨ha, has⟩ before b after he
      cases before with
      | nil =>
        cases he
        rwa [List.append_nil]
      | cons c before =>
        cases he
        simpa using has before b after rfl
    · intro h
      refine ⟨by simpa using h [] a as rfl, fun before b after he => ?_⟩
      simpa using h (a :: before) b after (by rw [he, List.cons_append])

/-- Fit to come after others whose key it does not share. -/
theorem follows_nodup {key : α → β} : Follows (fun seen a => key a ∉ seen.map key) [] as ↔ (as.map key).Nodup := by
  induction as using List.reverseRecOn with
  | nil => simp [Follows]
  | append_singleton as a ih =>
    rw [follows_append, ih, List.map_append, List.nodup_append_comm]
    simp [Follows, and_comm]

theorem follows_and {fit' : List α → α → Prop} :
    Follows (fun seen a => fit seen a ∧ fit' seen a) seen as ↔ Follows fit seen as ∧ Follows fit' seen as := by
  induction as generalizing seen with
  | nil => simp [Follows]
  | cons a as ih => simp [Follows, ih, and_and_and_comm]

theorem follows_const {p : α → Prop} : Follows (fun _ a => p a) seen as ↔ ∀ a ∈ as, p a := by
  induction as generalizing seen with
  | nil => simp [Follows]
  | cons a as ih => simp [Follows, ih]

/-- A loop whose state is told by the members that it has been through. -/
theorem Except.foldlM_eq_ok_iff {f : β → α → Except ε β} (state : List α → β)
    (step : ∀ seen a b, f (state seen) a = .ok b ↔ fit seen a ∧ b = state (seen ++ [a])) {b : β} :
    as.foldlM f (state seen) = .ok b ↔ Follows fit seen as ∧ b = state (seen ++ as) := by
  induction as generalizing seen with
  | nil => simp [Follows, pure, Except.pure, eq_comm]
  | cons a as ih =>
    rw [List.foldlM_cons, Except.bind_eq_ok]
    simp only [step, Follows]
    constructor
    · rintro ⟨_, ⟨ha, rfl⟩, h⟩
      simpa [ha, and_assoc] using ih.1 h
    · rintro ⟨⟨ha, has⟩, rfl⟩
      exact ⟨_, ⟨ha, rfl⟩, ih.2 ⟨has, by simp⟩⟩

end

namespace Config

/-! ## What files come to -/

/-- The first definition of every node, in order. -/
def firsts : List NodeDef → List NodeDef
  | [] => []
  | n :: ns => n :: (firsts ns).filter (·.id != n.id)

/-- One file with the entries of all files, in order. -/
def joined (configs : List GraphConfig) : GraphConfig where
  name := ""
  nodes := configs.flatMap (·.nodes)
  links := configs.flatMap (·.links)
  properties := configs.flatMap (·.properties)
  outputs := configs.flatMap (·.outputs)
  modifiers := configs.flatMap (·.modifiers)

/-- The entries of a file behind those of another one. -/
def followedBy (c x : GraphConfig) : GraphConfig :=
  { c with
    nodes := c.nodes ++ x.nodes
    links := c.links ++ x.links
    properties := c.properties ++ x.properties
    outputs := c.outputs ++ x.outputs
    modifiers := c.modifiers ++ x.modifiers }

theorem joined_snoc (configs : List GraphConfig) (x : GraphConfig) :
    joined (configs ++ [x]) = followedBy (joined configs) x := by
  simp [joined, followedBy]

/-! ## The first definitions -/

theorem find?_firsts (ns : List NodeDef) (i : Text) :
    (firsts ns).find? (·.id == i) = ns.find? (·.id == i) := by
  induction ns with
  | nil => rfl
  | cons n ns ih =>
    rw [firsts, List.find?_cons, List.find?_cons]
    by_cases h : n.id = i
    · simp [h]
    · have hkeep : ∀ m : NodeDef, decide ((m.id != n.id) = true ∧ (m.id == i) = true) = (m.id == i) := by
        intro m
        by_cases hm : m.id = i
        · simp [hm, Ne.symm h]
        · simp [hm]
      simp only [beq_eq_false_iff_ne.2 h, List.find?_filter, hkeep, ih]

theorem firsts_snoc (ns : List NodeDef) (n : NodeDef) :
    firsts (ns ++ [n]) = if (ns.find? (·.id == n.id)).isSome then firsts ns else firsts ns ++ [n] := by
  induction ns with
  | nil => rfl
  | cons m ns ih =>
    rw [List.cons_append, firsts, ih, List.find?_cons, firsts]
    by_cases h : m.id = n.id
    · simp only [h, BEq.rfl, Option.isSome_some, if_true]
      split
      · rfl
      · simp
    · simp only [beq_eq_false_iff_ne.2 h]
      split
      · rfl
      · simp [Ne.symm h]

theorem nodup_firsts (ns : List NodeDef) : ((firsts ns).map (·.id)).Nodup := by
  induction ns with
  | nil => exact List.nodup_nil
  | cons n ns ih =>
    rw [firsts, List.map_cons, List.nodup_cons]
    refine ⟨fun h => ?_, ih.sublist (List.filter_sublist.map _)⟩
    obtain ⟨m, hm, hid⟩ := List.mem_map.1 h
    simpa [hid] using (List.mem_filter.1 hm).2

/-! ## Entries that agree -/

variable [Stack]

/-- The entries of a file do not contradict one another, and are well formed. -/
structure Agrees (c : GraphConfig) : Prop where
  /-- A node that is defined again is defined like the first one of its identifier. -/
  nodes : ∀ before n after first, c.nodes = before ++ n :: after →
    before.find? (·.id == n.id) = some first → sameNode? first n = some true
  properties : (c.properties.map (·.name)).Nodup
  values : ∀ p ∈ c.properties, ∃ v, p.literal = .ok v
  outputs : (c.outputs.map (·.name)).Nodup
  references : ∀ o ∈ c.outputs, ∃ id slot, o.slot.SplitsAtDot id slot

/-- A definition has what a file says. -/
structure Gathers (name : String) (c : GraphConfig) (d : Definition) : Prop where
  name : d.name = name
  nodes : d.nodes = firsts c.nodes
  links : d.links = c.links.eraseDups
  properties : List.Forall₂ (fun p q => q.1 = p.name ∧ p.literal = .ok q.2) c.properties d.properties
  outputs : d.outputs = c.outputs.map fun o => (o.name, o.slot)
  modifiers : d.modifiers = c.modifiers

/-! ## Merging -/

/-- The definition that the entries of a file come to if they agree. -/
def gathered (name : String) (c : GraphConfig) : Definition where
  name := name
  nodes := firsts c.nodes
  links := c.links.eraseDups
  properties := c.properties.map fun p => (p.name, p.literal.toOption.getD default)
  outputs := c.outputs.map fun o => (o.name, o.slot)
  modifiers := c.modifiers

theorem map_fst_properties (name : String) (c : GraphConfig) :
    (gathered name c).properties.map Prod.fst = c.properties.map (·.name) := by
  simp [gathered, Function.comp_def]

theorem map_fst_outputs (name : String) (c : GraphConfig) :
    (gathered name c).outputs.map Prod.fst = c.outputs.map (·.name) := by
  simp [gathered, Function.comp_def]

theorem gathers_gathered (name : String) {c : GraphConfig} (h : ∀ p ∈ c.properties, ∃ v, p.literal = .ok v) :
    Gathers name c (gathered name c) where
  name := rfl
  nodes := rfl
  links := rfl
  properties := by
    rw [gathered, List.forall₂_map_right_iff, List.forall₂_same]
    intro p hp
    obtain ⟨v, hv⟩ := h p hp
    simp [hv, Except.toOption]
  outputs := rfl
  modifiers := rfl

/-- A node may come after those it is defined like, if they have its identifier. -/
def FitNode (seen : List NodeDef) (n : NodeDef) : Prop :=
  ∀ first, seen.find? (·.id == n.id) = some first → sameNode? first n = some true

/-- A property may come after those of other names, if it has a literal. -/
def FitProperty (seen : List PropertyConfig) (p : PropertyConfig) : Prop :=
  p.name ∉ seen.map (·.name) ∧ ∃ v, p.literal = .ok v

/-- An output may come after those of other names, if it names a slot. -/
def FitOutput (seen : List OutputConfig) (o : OutputConfig) : Prop :=
  o.name ∉ seen.map (·.name) ∧ ∃ id slot, o.slot.SplitsAtDot id slot

section

variable {name : String} {c : GraphConfig} {d : Definition}

theorem addNode_gathered {n : NodeDef} : addNode (gathered name c) n = .ok d ↔
    FitNode c.nodes n ∧ d = gathered name { c with nodes := c.nodes ++ [n] } := by
  unfold addNode
  simp only [FitNode, gathered, find?_firsts, firsts_snoc]
  cases hfirst : c.nodes.find? (·.id == n.id) with
  | none => simp [eq_comm]
  | some first =>
    cases hsame : sameNode? first n with
    | none => simp [hsame]
    | some same => cases same <;> simp [hsame, eq_comm]

theorem addLink_gathered (l : LinkDef) :
    addLink (gathered name c) l = gathered name { c with links := c.links ++ [l] } := by
  simp only [addLink, gathered, eraseDups_snoc, List.mem_eraseDups]
  split <;> rfl

theorem addProperty_gathered {p : PropertyConfig} : addProperty (gathered name c) p = .ok d ↔
    FitProperty c.properties p ∧ d = gathered name { c with properties := c.properties ++ [p] } := by
  unfold addProperty FitProperty
  have hlookup := isSome_lookup_iff p.name (gathered name c).properties
  rw [map_fst_properties] at hlookup
  by_cases hold : p.name ∈ c.properties.map (·.name)
  · rw [if_pos (hlookup.2 hold)]
    simp [hold, bind, Except.bind]
  · rw [if_neg (mt hlookup.1 hold)]
    cases hv : p.literal with
    | error e => simp [bind, Except.bind]
    | ok v => simp [hold, hv, gathered, bind, Except.bind, pure, Except.pure, Except.toOption, eq_comm]

theorem addOutput_gathered {o : OutputConfig} : addOutput (gathered name c) o = .ok d ↔
    FitOutput c.outputs o ∧ d = gathered name { c with outputs := c.outputs ++ [o] } := by
  unfold addOutput FitOutput
  simp only [← slotRef_eq_ok_iff]
  have hlookup := isSome_lookup_iff o.name (gathered name c).outputs
  rw [map_fst_outputs] at hlookup
  by_cases hold : o.name ∈ c.outputs.map (·.name)
  · rw [if_pos (hlookup.2 hold)]
    simp [hold, bind, Except.bind]
  · rw [if_neg (mt hlookup.1 hold)]
    cases hr : slotRef o.slot with
    | error e => simp [bind, Except.bind]
    | ok parts =>
      obtain ⟨id, slot⟩ := parts
      simp [hold, gathered, bind, Except.bind, pure, Except.pure, eq_comm]

/-- The entries of a file may come after those of another one. -/
structure MayFollow (c x : GraphConfig) : Prop where
  nodes : Follows FitNode c.nodes x.nodes
  properties : Follows FitProperty c.properties x.properties
  outputs : Follows FitOutput c.outputs x.outputs

theorem addNodes_gathered {ns : List NodeDef} : ns.foldlM addNode (gathered name c) = .ok d ↔
    Follows FitNode c.nodes ns ∧ d = gathered name { c with nodes := c.nodes ++ ns } :=
  Except.foldlM_eq_ok_iff (fun ns => gathered name { c with nodes := ns }) fun _ _ _ => addNode_gathered

theorem addLinks_gathered (c : GraphConfig) (ls : List LinkDef) :
    ls.foldl addLink (gathered name c) = gathered name { c with links := c.links ++ ls } := by
  induction ls generalizing c with
  | nil => simp
  | cons l ls ih =>
    rw [List.foldl_cons, addLink_gathered, ih]
    simp

theorem addProperties_gathered {ps : List PropertyConfig} : ps.foldlM addProperty (gathered name c) = .ok d ↔
    Follows FitProperty c.properties ps ∧ d = gathered name { c with properties := c.properties ++ ps } :=
  Except.foldlM_eq_ok_iff (fun ps => gathered name { c with properties := ps })
    fun _ _ _ => addProperty_gathered

theorem addOutputs_gathered {os : List OutputConfig} : os.foldlM addOutput (gathered name c) = .ok d ↔
    Follows FitOutput c.outputs os ∧ d = gathered name { c with outputs := c.outputs ++ os } :=
  Except.foldlM_eq_ok_iff (fun os => gathered name { c with outputs := os }) fun _ _ _ => addOutput_gathered

theorem addConfig_gathered {x : GraphConfig} :
    addConfig (gathered name c) x = .ok d ↔ MayFollow c x ∧ d = gathered name (followedBy c x) := by
  unfold addConfig
  simp only [Except.bind_eq_ok, addNodes_gathered, pure, Except.pure, Except.ok.injEq]
  constructor
  · rintro ⟨_, ⟨hnodes, rfl⟩, h⟩
    rw [addLinks_gathered] at h
    obtain ⟨_, hp, _, ho, rfl⟩ := h
    obtain ⟨hproperties, rfl⟩ := addProperties_gathered.1 hp
    obtain ⟨houtputs, rfl⟩ := addOutputs_gathered.1 ho
    exact ⟨⟨hnodes, hproperties, houtputs⟩, rfl⟩
  · rintro ⟨⟨hnodes, hproperties, houtputs⟩, rfl⟩
    refine ⟨_, ⟨hnodes, rfl⟩, ?_⟩
    rw [addLinks_gathered]
    exact ⟨_, addProperties_gathered.2 ⟨hproperties, rfl⟩, _, addOutputs_gathered.2 ⟨houtputs, rfl⟩, rfl⟩

end

/-- Entries agree if each may come after those before it. -/
theorem agrees_iff {c : GraphConfig} : Agrees c ↔ MayFollow (joined []) c := by
  have hproperties : Follows FitProperty [] c.properties ↔
      (c.properties.map (·.name)).Nodup ∧ ∀ p ∈ c.properties, ∃ v, p.literal = .ok v := by
    unfold FitProperty
    rw [follows_and, follows_nodup, follows_const]
  have houtputs : Follows FitOutput [] c.outputs ↔
      (c.outputs.map (·.name)).Nodup ∧ ∀ o ∈ c.outputs, ∃ id slot, o.slot.SplitsAtDot id slot := by
    unfold FitOutput
    rw [follows_and, follows_nodup, follows_const]
  have hnodes : Follows FitNode [] c.nodes ↔ ∀ before n after, c.nodes = before ++ n :: after → FitNode before n :=
    follows_iff
  constructor
  · intro h
    exact ⟨hnodes.2 fun before n after he first hfirst => h.nodes before n after first he hfirst,
      hproperties.2 ⟨h.properties, h.values⟩, houtputs.2 ⟨h.outputs, h.references⟩⟩
  · intro h
    obtain ⟨hnames, hvalues⟩ := hproperties.1 h.properties
    obtain ⟨hnames', hreferences⟩ := houtputs.1 h.outputs
    exact ⟨fun before n after first he hfirst => hnodes.1 h.nodes before n after he first hfirst,
      hnames, hvalues, hnames', hreferences⟩

theorem agrees_followedBy {c x : GraphConfig} : Agrees (followedBy c x) ↔ Agrees c ∧ MayFollow c x := by
  rw [agrees_iff, agrees_iff]
  constructor
  · rintro ⟨hnodes, hproperties, houtputs⟩
    have hn := follows_append.1 hnodes
    have hp := follows_append.1 hproperties
    have ho := follows_append.1 houtputs
    exact ⟨⟨hn.1, hp.1, ho.1⟩, ⟨hn.2, hp.2, ho.2⟩⟩
  · rintro ⟨h, h'⟩
    exact ⟨follows_append.2 ⟨h.nodes, h'.nodes⟩, follows_append.2 ⟨h.properties, h'.properties⟩,
      follows_append.2 ⟨h.outputs, h'.outputs⟩⟩

theorem follows_iff_agrees {configs : List GraphConfig} :
    Follows (fun seen x => MayFollow (joined seen) x) [] configs ↔ Agrees (joined configs) := by
  induction configs using List.reverseRecOn with
  | nil => exact ⟨fun _ => agrees_iff.2 ⟨trivial, trivial, trivial⟩, fun _ => trivial⟩
  | append_singleton configs x ih =>
    rw [follows_append, ih, joined_snoc, agrees_followedBy]
    simp [Follows]

/-- Files are merged exactly if all their entries agree. -/
theorem merge_eq_ok {name : String} {configs : List GraphConfig} {d : Definition} :
    merge name configs = .ok d ↔ Agrees (joined configs) ∧ d = gathered name (joined configs) := by
  rw [← follows_iff_agrees]
  change configs.foldlM addConfig (gathered name (joined [])) = _ ↔ _
  refine Except.foldlM_eq_ok_iff (fun seen => gathered name (joined seen)) fun seen x d => ?_
  rw [joined_snoc, addConfig_gathered]

theorem gathers_merge {name : String} {configs : List GraphConfig} {d : Definition}
    (h : merge name configs = .ok d) : Gathers name (joined configs) d := by
  obtain ⟨hagrees, rfl⟩ := merge_eq_ok.1 h
  exact gathers_gathered name hagrees.values

end Config
end EffectGraph
