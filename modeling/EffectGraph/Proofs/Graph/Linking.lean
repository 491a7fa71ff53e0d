import EffectGraph.Proofs.Graph.Links

/-!
# A graph stores one list of links

`Agrees g L` says that the slots of `g` hold exactly the two views of the list
`L`. On such a graph every call either is refused, by its checks alone, or has
the effect of its counterpart on the list: `link_eq`, `unlink_eq` and
`unlinkAll_eq`, with `relink` for writing a list into the slots. So the list
that a run of calls makes is the one its graph stores (`reached_agrees`).
-/

namespace EffectGraph

/-! ## Slots of the right direction -/

namespace Slot

theorem expectDir_of_dir {s : Slot} {d : SlotDir} (h : s.dir = d) : expectDir d s = .ok () s := by
  simp only [expectDir]
  rw [EStateM.bind_of_ok (EStateM.get_apply s), if_neg (not_not.2 h)]
  rfl

theorem expectDir_of_ne {s : Slot} {d : SlotDir} (h : s.dir ≠ d) :
    expectDir d s = .error (.slotDir s.id s.name s.dir d) s := by
  simp only [expectDir]
  rw [EStateM.bind_of_ok (EStateM.get_apply s), if_pos h]
  rfl

theorem linkTo_of_output {s : Slot} (h : s.dir = .output) (i : SlotId) :
    linkTo i s = .ok () (if i ∈ s.linked then s else { s with linked := s.linked ++ [i] }) := by
  rw [linkTo, EStateM.bind_of_ok (expectDir_of_dir h)]
  rfl

theorem unlinkFrom_of_output {s : Slot} (h : s.dir = .output) (i : SlotId) :
    unlinkFrom i s = .ok (decide (i ∈ s.linked)) { s with linked := s.linked.erase i } := by
  rw [unlinkFrom, EStateM.bind_of_ok (expectDir_of_dir h), EStateM.bind_of_ok (EStateM.get_apply s)]
  by_cases hi : i ∈ s.linked
  · rw [if_pos hi, decide_eq_true hi]
    rfl
  · rw [if_neg hi, decide_eq_false hi, List.erase_of_not_mem hi]
    rfl

theorem linkInput_of_input {s : Slot} (h : s.dir = .input) (o : SlotId) :
    linkInput o s = .ok () { s with linked := [o] } := by
  rw [linkInput, EStateM.bind_of_ok (expectDir_of_dir h)]
  rfl

theorem unlinkInput_of_input {s : Slot} (h : s.dir = .input) :
    unlinkInput s = .ok () { s with linked := [] } := by
  rw [unlinkInput, EStateM.bind_of_ok (expectDir_of_dir h)]
  rfl

theorem unlinkFrom_of_input {s : Slot} (h : s.dir = .input) (i : SlotId) :
    unlinkFrom i s = .error (.slotDir s.id s.name .input .output) s := by
  have hne : s.dir ≠ .output := by
    rw [h]
    decide
  rw [unlinkFrom, EStateM.bind_of_error (expectDir_of_ne hne), h]

/-- A slot that, if it is an output, feeds input `i` no more. -/
def without (i : SlotId) (s : Slot) : Slot :=
  if s.dir = .output then { s with linked := s.linked.filter (· ≠ i) } else s

theorem without_eq_self {i : SlotId} {s : Slot} (h : s.dir = .output → i ∉ s.linked) : s.without i = s := by
  unfold without
  split
  · next hd =>
    have hkeep : s.linked.filter (· ≠ i) = s.linked := by
      rw [List.filter_eq_self]
      intro x hx
      simpa using fun he : x = i => h hd (he ▸ hx)
    rw [hkeep]
  · rfl

theorem erase_eq_without {i : SlotId} {s : Slot} (hd : s.dir = .output) (hn : s.linked.Nodup) :
    { s with linked := s.linked.erase i } = s.without i := by
  unfold without
  rw [if_pos hd, hn.erase_eq_filter]
  congr 1
  apply List.filter_congr
  intro x _
  simp [bne, beq_eq_decide]

end Slot

namespace Graph

/-! ## Graphs that hold a list of links -/

/-- The graph with the two views of `L` in its slots. -/
def relink (g : Graph) (L : Links) : Graph :=
  { g with slots := g.slots.mapIdx fun k slot => { slot with linked := L.ends ⟨k⟩ slot.dir } }

/-- The slots of a graph hold the links `L`, which go from its outputs to its
inputs, at most one to each input. -/
structure Agrees (g : Graph) (L : Links) : Prop where
  once : L.Once
  joins : ∀ p ∈ L, g.dirOf? p.1 = some .output ∧ g.dirOf? p.2 = some .input
  stored : g.relink L = g

theorem getElem?_relink (g : Graph) (L : Links) (s : SlotId) :
    (g.relink L).slots[s.index]? =
      g.slots[s.index]?.map fun slot => { slot with linked := L.ends s slot.dir } := by
  simp [relink]

theorem eq_relink {g g' : Graph} {L : Links} (hn : g'.nodes = g.nodes)
    (hs : ∀ s : SlotId, g'.slots[s.index]? = (g.relink L).slots[s.index]?) : g' = g.relink L := by
  obtain ⟨nodes, slots⟩ := g'
  cases hn
  congr 1
  exact Array.ext_getElem? fun k => hs ⟨k⟩

@[simp] theorem nodes_setSlot (g : Graph) (s : SlotId) (slot : Slot) : (g.setSlot s slot).nodes = g.nodes := rfl

theorem setSlot_self {g : Graph} {s : SlotId} {slot : Slot} (h : g.slots[s.index]? = some slot) :
    g.setSlot s slot = g := by
  obtain ⟨nodes, slots⟩ := g
  simp only [setSlot, Graph.mk.injEq, true_and]
  apply Array.ext_getElem?
  intro k
  rw [Array.getElem?_setIfInBounds]
  by_cases hk : s.index = k
  · subst hk
    obtain ⟨hlt, rfl⟩ := Array.getElem?_eq_some_iff.1 h
    simp [hlt]
  · simp [hk]

theorem onSlot_of_ok {g : Graph} {s : SlotId} {slot slot' : Slot} {f : EStateM Error Slot α} {a : α}
    (h : g.slots[s.index]? = some slot) (hf : f slot = .ok a slot') :
    onSlot s f g = .ok a (g.setSlot s slot') := by
  simp only [onSlot, slot_of_getElem? h, hf]

/-- Work that a slot refuses before it changes leaves the graph as it was. -/
theorem onSlot_of_error {g : Graph} {s : SlotId} {slot : Slot} {f : EStateM Error Slot α} {e : Error}
    (h : g.slots[s.index]? = some slot) (hf : f slot = .error e slot) : onSlot s f g = .error e g := by
  simp only [onSlot, slot_of_getElem? h, hf, setSlot_self h]

theorem reading_slot {g : Graph} {s : SlotId} {slot : Slot} (h : g.slots[s.index]? = some slot) :
    reading (·.slot s) g = .ok slot g :=
  reading_of_ok (slot_of_getElem? h)

namespace Agrees

variable {g : Graph} {L : Links}

theorem linked (h : g.Agrees L) {s : SlotId} {slot : Slot} (hs : g.slots[s.index]? = some slot) :
    slot.linked = L.ends s slot.dir := by
  have := congrArg (·.slots[s.index]?) h.stored
  simp only [getElem?_relink, hs, Option.map_some, Option.some.injEq] at this
  exact (congrArg Slot.linked this).symm

theorem linked_output (h : g.Agrees L) {s : SlotId} {slot : Slot} (hs : g.slots[s.index]? = some slot)
    (hd : slot.dir = .output) : slot.linked = L.ends s .output := by
  rw [h.linked hs, hd]

theorem linked_input (h : g.Agrees L) {s : SlotId} {slot : Slot} (hs : g.slots[s.index]? = some slot)
    (hd : slot.dir = .input) : slot.linked = L.ends s .input := by
  rw [h.linked hs, hd]

/-- Taking an input off an output leaves the inputs other than it. -/
theorem erase_eq_without (h : g.Agrees L) {o : SlotId} {so : Slot} (ho : g.slots[o.index]? = some so)
    (hso : so.dir = .output) (i : SlotId) : { so with linked := so.linked.erase i } = so.without i := by
  apply Slot.erase_eq_without hso
  rw [h.linked_output ho hso]
  exact h.once.nodup_ends o

/-! ## The calls on such a graph -/

/-- Once input `i` is out of every output's list, linking it to `o` makes the
slots hold the new list. -/
theorem setSlot_link (h : g.Agrees L) {o i : SlotId} {so si : Slot} (ho : g.slots[o.index]? = some so)
    (hso : so.dir = .output) (hi : g.slots[i.index]? = some si) (hsi : si.dir = .input) (hn : (o, i) ∉ L)
    {g₁ : Graph} (hg₁ : g₁.nodes = g.nodes)
    (hslots : ∀ s : SlotId, g₁.slots[s.index]? = g.slots[s.index]?.map (Slot.without i)) :
    (g₁.setSlot o { so with linked := so.linked ++ [i] }).setSlot i { si with linked := [o] } =
      g.relink (L.link o i) := by
  apply eq_relink (by simp [hg₁])
  intro s
  rw [getElem?_setSlot, getElem?_setSlot, getElem?_relink, hslots]
  -- Slot by slot: the input, the output, and those that only lose the input.
  by_cases hi' : s = i
  · subst hi'
    have hne : s ≠ o := ne_of_dirs (dirOf?_eq_some_iff.2 ⟨so, ho, hso⟩) (dirOf?_eq_some_iff.2 ⟨si, hi, hsi⟩)
    simp [hi, hsi, hne, Links.ends_link_input hn]
  · by_cases ho' : s = o
    · subst ho'
      have hkeep : (L.ends s .output).filter (· ≠ i) = L.ends s .output := by
        rw [List.filter_eq_self]
        intro x hx
        simpa using fun he : x = i => hn (Links.mem_ends_output.1 (he ▸ hx))
      simp only [hi', if_false, if_true, ho, Option.map_some, hso, Links.ends_link_output hn,
        h.linked_output ho hso, hkeep]
    · cases hs : g.slots[s.index]? with
      | none => simp
      | some slot =>
        cases hd : slot.dir with
        | output => simp [hi', ho', hd, Slot.without, Links.ends_link_output hn, h.linked_output hs hd]
        | input => simp [hi', ho', hd, Slot.without, Links.ends_link_input hn, ← h.linked_input hs hd]

/-- An input that no output feeds is in no list. -/
theorem getElem?_without (h : g.Agrees L) {i : SlotId} (hn : ∀ o, (o, i) ∉ L) (s : SlotId) :
    g.slots[s.index]? = g.slots[s.index]?.map (Slot.without i) := by
  cases hs : g.slots[s.index]? with
  | none => rfl
  | some slot =>
    rw [Option.map_some, Slot.without_eq_self]
    intro hd hm
    rw [h.linked_output hs hd] at hm
    exact hn s (Links.mem_ends_output.1 hm)

/-- Taking input `i` off the output that feeds it takes it off every output. -/
theorem getElem?_setSlot_without (h : g.Agrees L) {p i : SlotId} {sp : Slot}
    (hp : g.slots[p.index]? = some sp) (hm : (p, i) ∈ L) (s : SlotId) :
    (g.setSlot p (sp.without i)).slots[s.index]? = g.slots[s.index]?.map (Slot.without i) := by
  rw [getElem?_setSlot]
  by_cases hs : s = p
  · subst hs
    simp [hp]
  · rw [if_neg hs]
    cases hs' : g.slots[s.index]? with
    | none => rfl
    | some slot =>
      rw [Option.map_some, Slot.without_eq_self]
      intro hd hx
      rw [h.linked_output hs' hd] at hx
      exact hs (h.once.eq_of_mem (Links.mem_ends_output.1 hx) hm)

/-- The last two steps of a link that is not there yet. -/
theorem link_steps (h : g.Agrees L) {o i : SlotId} {so si : Slot} (ho : g.slots[o.index]? = some so)
    (hso : so.dir = .output) (hi : g.slots[i.index]? = some si) (hsi : si.dir = .input) (hn : (o, i) ∉ L)
    {g₁ : Graph} (hg₁ : g₁.nodes = g.nodes)
    (hslots : ∀ s : SlotId, g₁.slots[s.index]? = g.slots[s.index]?.map (Slot.without i)) :
    (do onSlot o (Slot.linkTo i); onSlot i (Slot.linkInput o)) g₁ =
      EStateM.Result.ok () (g.relink (L.link o i)) := by
  have hfree : i ∉ so.linked := by
    rw [h.linked_output ho hso]
    exact fun hm => hn (Links.mem_ends_output.1 hm)
  have ho₁ : g₁.slots[o.index]? = some so := by
    rw [hslots, ho, Option.map_some, Slot.without_eq_self fun _ => hfree]
  have hne : i ≠ o := ne_of_dirs (dirOf?_eq_some_iff.2 ⟨so, ho, hso⟩) (dirOf?_eq_some_iff.2 ⟨si, hi, hsi⟩)
  have hi₂ : (g₁.setSlot o { so with linked := so.linked ++ [i] }).slots[i.index]? = some si := by
    rw [getElem?_setSlot, if_neg hne, hslots, hi, Option.map_some,
      Slot.without_eq_self fun hd => by rw [hd] at hsi; cases hsi]
  rw [EStateM.bind_of_ok (onSlot_of_ok ho₁ (Slot.linkTo_of_output hso i)), if_neg hfree,
    onSlot_of_ok hi₂ (Slot.linkInput_of_input hsi o), h.setSlot_link ho hso hi hsi hn hg₁ hslots]

/-- A link to an input that reads no other output. -/
theorem link_in_place {o i : SlotId} {so si : Slot} (ho : g.slots[o.index]? = some so) (hso : so.dir = .output)
    (hi : g.slots[i.index]? = some si) (hsi : si.dir = .input) (hread : ∀ p ∈ si.linked.head?, p = o) :
    link o i g = (do onSlot o (Slot.linkTo i); onSlot i (Slot.linkInput o)) g := by
  rw [Graph.link, EStateM.bind_of_ok (reading_slot ho), EStateM.bind_of_ok (reading_slot hi),
    if_neg (by simp [Slot.isOutput, Slot.isInput, hso, hsi])]
  cases hp : si.linked.head? with
  | none => rfl
  | some p =>
    simp only [hread p hp, ne_eq, not_true_eq_false, if_false]

/-- A link to an input that reads another output, which loses it first. -/
theorem link_over {o i p : SlotId} {so si : Slot} (ho : g.slots[o.index]? = some so) (hso : so.dir = .output)
    (hi : g.slots[i.index]? = some si) (hsi : si.dir = .input) (hread : si.linked.head? = some p) (hp : p ≠ o) :
    link o i g = (do
      let _ ← onSlot p (Slot.unlinkFrom i)
      onSlot o (Slot.linkTo i)
      onSlot i (Slot.linkInput o)) g := by
  rw [Graph.link, EStateM.bind_of_ok (reading_slot ho), EStateM.bind_of_ok (reading_slot hi),
    if_neg (by simp [Slot.isOutput, Slot.isInput, hso, hsi])]
  simp only [hread, if_pos hp]

/-- Linking an output to an input makes the slots hold the list with that link. -/
theorem link_eq (h : g.Agrees L) {o i : SlotId} (ho : g.dirOf? o = some .output)
    (hi : g.dirOf? i = some .input) : link o i g = .ok () (g.relink (L.link o i)) := by
  obtain ⟨so, ho, hso⟩ := dirOf?_eq_some_iff.1 ho
  obtain ⟨si, hi, hsi⟩ := dirOf?_eq_some_iff.1 hi
  have hread := h.linked_input hi hsi
  by_cases hm : ∃ p, (p, i) ∈ L
  · obtain ⟨p, hm⟩ := hm
    rw [h.once.ends_input hm] at hread
    by_cases hp : p = o
    · -- The link is there: both ends are set to what they hold.
      subst hp
      have hfed : i ∈ so.linked := by
        rw [h.linked_output ho hso]
        exact Links.mem_ends_output.2 hm
      have hkeep : { si with linked := [p] } = si := by
        rw [← hread]
      rw [link_in_place ho hso hi hsi (by simp [hread]),
        EStateM.bind_of_ok (onSlot_of_ok ho (Slot.linkTo_of_output hso i)), if_pos hfed, setSlot_self ho,
        onSlot_of_ok hi (Slot.linkInput_of_input hsi p), hkeep, setSlot_self hi,
        Links.link_of_mem hm, h.stored]
    · -- Another output feeds the input and loses it first.
      have hn : (o, i) ∉ L := fun ho => hp (h.once.eq_of_mem hm ho)
      obtain ⟨sp, hp', hsp⟩ := dirOf?_eq_some_iff.1 (h.joins _ hm).1
      have hdrop := onSlot_of_ok hp' (Slot.unlinkFrom_of_output hsp i)
      rw [h.erase_eq_without hp' hsp] at hdrop
      rw [link_over ho hso hi hsi (by simp [hread]) hp, EStateM.bind_of_ok hdrop]
      exact h.link_steps ho hso hi hsi hn rfl (h.getElem?_setSlot_without hp' hm)
  · have hn : ∀ p, (p, i) ∉ L := fun p hp => hm ⟨p, hp⟩
    rw [Links.ends_input_eq_nil hn] at hread
    rw [link_in_place ho hso hi hsi (by simp [hread])]
    exact h.link_steps ho hso hi hsi (hn o) rfl (h.getElem?_without hn)

/-- With input `i` out of every list and reading nothing, the slots hold the
list without its link. -/
theorem eq_relink_free (h : g.Agrees L) {i : SlotId} {si : Slot} (hi : g.slots[i.index]? = some si)
    (hsi : si.dir = .input) {g' : Graph} (hn : g'.nodes = g.nodes)
    (hslots : ∀ s : SlotId, g'.slots[s.index]? =
      if s = i then some { si with linked := [] } else g.slots[s.index]?.map (Slot.without i)) :
    g' = g.relink (L.filter (·.2 ≠ i)) := by
  apply eq_relink hn
  intro s
  rw [hslots, getElem?_relink]
  by_cases hs : s = i
  · subst hs
    simp [hi, hsi, Links.ends_filter_input]
  · rw [if_neg hs]
    cases hs' : g.slots[s.index]? with
    | none => rfl
    | some slot =>
      cases hd : slot.dir with
      | output => simp [hd, Slot.without, Links.ends_filter_output, h.linked_output hs' hd]
      | input => simp [hd, hs, Slot.without, Links.ends_filter_input, ← h.linked_input hs' hd]

/-- Unlinking an output from an input says whether they were linked, and removes
the link. -/
theorem unlink_eq (h : g.Agrees L) {o i : SlotId} (ho : g.dirOf? o = some .output)
    (hi : g.dirOf? i = some .input) :
    unlink o i g = .ok (decide ((o, i) ∈ L)) (g.relink (L.unlink o i)) := by
  have hne := ne_of_dirs ho hi
  obtain ⟨so, ho, hso⟩ := dirOf?_eq_some_iff.1 ho
  obtain ⟨si, hi, hsi⟩ := dirOf?_eq_some_iff.1 hi
  have hfed : i ∈ so.linked ↔ (o, i) ∈ L := by
    rw [h.linked_output ho hso]
    exact Links.mem_ends_output
  have hdrop := onSlot_of_ok ho (Slot.unlinkFrom_of_output hso i)
  rw [h.erase_eq_without ho hso] at hdrop
  have hopen : unlink o i g = (do
      if ← onSlot o (Slot.unlinkFrom i) then
        onSlot i Slot.unlinkInput
        return true
      else return false) g := by
    rw [Graph.unlink, EStateM.bind_of_ok (reading_slot ho), EStateM.bind_of_ok (reading_slot hi)]
    simp only [Slot.isInput, hsi]
    rfl
  rw [hopen, EStateM.bind_of_ok hdrop]
  by_cases hm : (o, i) ∈ L
  · have hi₁ : (g.setSlot o (so.without i)).slots[i.index]? = some si := by
      rw [getElem?_setSlot, if_neg hne, hi]
    have hfree : (g.setSlot o (so.without i)).setSlot i { si with linked := [] } =
        g.relink (L.filter (·.2 ≠ i)) := by
      refine h.eq_relink_free hi hsi ?_ fun s => ?_
      · rfl
      rw [getElem?_setSlot, h.getElem?_setSlot_without ho hm]
      by_cases hs : s = i
      · subst hs
        simp [hi]
      · simp [hs]
    rw [h.once.unlink_of_mem hm, ← hfree, if_pos (decide_eq_true (hfed.2 hm)),
      EStateM.bind_of_ok (onSlot_of_ok hi₁ (Slot.unlinkInput_of_input hsi)), decide_eq_true hm]
    rfl
  · have hkeep : so.without i = so := Slot.without_eq_self fun _ => mt hfed.1 hm
    rw [if_neg (by simpa using mt hfed.1 hm), hkeep, setSlot_self ho, decide_eq_false hm, Links.unlink_of_not_mem hm,
      h.stored]
    rfl

end Agrees

theorem dropRemote_of_input {g : Graph} {s i : SlotId} {si : Slot} (hi : g.slots[i.index]? = some si)
    (hsi : si.dir = .input) : dropRemote s i g = .ok () (g.setSlot i { si with linked := [] }) := by
  rw [dropRemote, EStateM.bind_of_ok (reading_slot hi), if_pos (by simp [Slot.isInput, hsi]),
    onSlot_of_ok hi (Slot.unlinkInput_of_input hsi)]

theorem dropRemote_of_output {g : Graph} {s o : SlotId} {so : Slot} (ho : g.slots[o.index]? = some so)
    (hso : so.dir = .output) : dropRemote s o g = .ok () (g.setSlot o { so with linked := so.linked.erase s }) := by
  rw [dropRemote, EStateM.bind_of_ok (reading_slot ho), if_neg (by simp [Slot.isInput, hso]),
    EStateM.bind_of_ok (onSlot_of_ok ho (Slot.unlinkFrom_of_output hso s))]
  rfl

/-- Taking slot `s` off inputs leaves each of them reading nothing. -/
theorem forM_dropRemote {s : SlotId} (is : List SlotId) :
    ∀ g : Graph, (∀ i ∈ is, g.dirOf? i = some .input) →
      ∃ g', is.forM (dropRemote s) g = .ok () g' ∧ g'.nodes = g.nodes ∧ ∀ t : SlotId,
        g'.slots[t.index]? = g.slots[t.index]?.map fun slot => if t ∈ is then { slot with linked := [] } else slot := by
  induction is with
  | nil => intro g _; exact ⟨g, rfl, rfl, fun t => by simp⟩
  | cons i is ih =>
    intro g hg
    obtain ⟨si, hi, hsi⟩ := dirOf?_eq_some_iff.1 (hg i List.mem_cons_self)
    have hstep := dropRemote_of_input (s := s) hi hsi
    have hdirs : ∀ j ∈ is, (g.setSlot i { si with linked := [] }).dirOf? j = some .input := by
      intro j hj
      have hj := hg j (List.mem_cons_of_mem _ hj)
      simp only [dirOf?, getElem?_setSlot] at hj ⊢
      by_cases hji : j = i
      · subst hji
        rw [if_pos rfl, hi]
        exact congrArg some hsi
      · rw [if_neg hji]
        exact hj
    obtain ⟨g', hg', hn, hslots⟩ := ih _ hdirs
    refine ⟨g', ?_, hn, fun t => ?_⟩
    · exact EStateM.bind_eq_ok.2 ⟨_, _, hstep, hg'⟩
    · rw [hslots, getElem?_setSlot]
      by_cases ht : t = i
      · subst ht
        simp [hi]
      · simp [ht]

namespace Agrees

variable {g : Graph} {L : Links}

theorem unlinkAll_open {s : SlotId} {slot : Slot} (hs : g.slots[s.index]? = some slot) :
    unlinkAll s g = slot.linked.forM (dropRemote s) (g.setSlot s { slot with linked := [] }) := by
  have htake : onSlot s Slot.takeLinks g = .ok slot.linked (g.setSlot s { slot with linked := [] }) :=
    onSlot_of_ok hs rfl
  rw [Graph.unlinkAll, EStateM.bind_of_ok htake]

theorem unlinkAll_of_output (h : g.Agrees L) {s : SlotId} {slot : Slot} (hs : g.slots[s.index]? = some slot)
    (hd : slot.dir = .output) : unlinkAll s g = .ok () (g.relink (L.unlinkAll s)) := by
  have hdir : g.dirOf? s = some .output := dirOf?_eq_some_iff.2 ⟨slot, hs, hd⟩
  have hns : ∀ o, (o, s) ∉ L := fun o ho => ne_of_dirs hdir (h.joins _ ho).2 rfl
  have hfed : ∀ t, t ∈ slot.linked ↔ (s, t) ∈ L := fun t => by
    rw [h.linked_output hs hd]
    exact Links.mem_ends_output
  have hremote : ∀ i ∈ slot.linked, (g.setSlot s { slot with linked := [] }).dirOf? i = some .input := by
    intro i hi
    have hin := (h.joins _ ((hfed i).1 hi)).2
    have his : i ≠ s := fun he => hns s (he ▸ (hfed i).1 hi)
    rwa [dirOf?, getElem?_setSlot, if_neg his]
  obtain ⟨g', hg', hn, hslots⟩ := forM_dropRemote slot.linked _ hremote
  rw [unlinkAll_open hs, hg', Links.unlinkAll_of_output hns]
  congr 1
  -- Only the slot itself and the inputs it fed have changed.
  refine eq_relink hn fun t => ?_
  rw [hslots, getElem?_setSlot, getElem?_relink]
  by_cases hts : t = s
  · subst hts
    simp [hs, hd, Links.ends_filter_output]
  · rw [if_neg hts]
    cases ht : g.slots[t.index]? with
    | none => rfl
    | some st =>
      cases hdt : st.dir with
      | output =>
        have hnt : t ∉ slot.linked := fun hm =>
          ne_of_dirs (dirOf?_eq_some_iff.2 ⟨st, ht, hdt⟩) (h.joins _ ((hfed t).1 hm)).2 rfl
        simp [hdt, hnt, hts, Links.ends_filter_output, ← h.linked_output ht hdt]
      | input =>
        by_cases hm : (s, t) ∈ L
        · simp [hdt, hm, hfed, Links.ends_filter_input, h.once.ends_input hm]
        · have hkeep : (L.ends t .input).filter (· ≠ s) = L.ends t .input := by
            rw [List.filter_eq_self]
            intro o ho
            simpa using fun he : o = s => hm (he ▸ Links.mem_ends_input.1 ho)
          have hkeep' := Links.ends_filter_input L (fun p => decide (p.1 ≠ s)) t
          rw [hkeep] at hkeep'
          simp only [hdt, hm, hfed, if_false, Option.map_some, hkeep', ← h.linked_input ht hdt]

theorem unlinkAll_of_input (h : g.Agrees L) {s : SlotId} {slot : Slot} (hs : g.slots[s.index]? = some slot)
    (hd : slot.dir = .input) : unlinkAll s g = .ok () (g.relink (L.unlinkAll s)) := by
  have hdir : g.dirOf? s = some .input := dirOf?_eq_some_iff.2 ⟨slot, hs, hd⟩
  have hns : ∀ i, (s, i) ∉ L := fun i hi => ne_of_dirs (h.joins _ hi).1 hdir rfl
  rw [unlinkAll_open hs, Links.unlinkAll_of_input hns, h.linked_input hs hd]
  by_cases hm : ∃ o, (o, s) ∈ L
  · obtain ⟨o, hm⟩ := hm
    obtain ⟨so, ho, hso⟩ := dirOf?_eq_some_iff.1 (h.joins _ hm).1
    have hne : o ≠ s := (ne_of_dirs (h.joins _ hm).1 hdir).symm
    have ho₁ : (g.setSlot s { slot with linked := [] }).slots[o.index]? = some so := by
      rw [getElem?_setSlot, if_neg hne, ho]
    have hdrop := dropRemote_of_output (s := s) ho₁ hso
    rw [h.erase_eq_without ho hso] at hdrop
    rw [h.once.ends_input hm]
    refine (EStateM.bind_of_ok hdrop).trans ?_
    change EStateM.Result.ok _ _ = EStateM.Result.ok _ _
    congr 1
    refine h.eq_relink_free hs hd ?_ fun t => ?_
    · rfl
    have hwithout := h.getElem?_setSlot_without ho hm t
    rw [getElem?_setSlot] at hwithout
    rw [getElem?_setSlot, getElem?_setSlot]
    by_cases hts : t = s
    · subst hts
      simp [hs, Ne.symm hne]
    · rw [if_neg hts, if_neg hts, hwithout]
  · have hn : ∀ o, (o, s) ∉ L := fun o ho => hm ⟨o, ho⟩
    rw [Links.ends_input_eq_nil hn]
    change EStateM.Result.ok _ _ = EStateM.Result.ok _ _
    congr 1
    refine h.eq_relink_free hs hd ?_ fun t => ?_
    · rfl
    rw [getElem?_setSlot, ← h.getElem?_without hn]
    by_cases hts : t = s
    · subst hts
      simp [hs]
    · simp [hts]

/-- Unlinking a slot removes every link it is an end of. -/
theorem unlinkAll_eq (h : g.Agrees L) {s : SlotId} (hs : (g.dirOf? s).isSome) :
    unlinkAll s g = .ok () (g.relink (L.unlinkAll s)) := by
  obtain ⟨d, hd⟩ := Option.isSome_iff_exists.1 hs
  obtain ⟨slot, hs, rfl⟩ := dirOf?_eq_some_iff.1 hd
  cases hdir : slot.dir with
  | output => exact h.unlinkAll_of_output hs hdir
  | input => exact h.unlinkAll_of_input hs hdir

/-- Where the slots hold a list of links, an output lists the inputs paired
with it. -/
theorem linkedSlots_eq (h : g.Agrees L) {o : SlotId} (ho : g.dirOf? o = some .output) :
    g.linkedSlots o = .ok (L.ends o .output) := by
  obtain ⟨so, ho, hso⟩ := dirOf?_eq_some_iff.1 ho
  rw [← h.linked_output ho hso, Graph.linkedSlots, slot_of_getElem? ho]
  rfl

/-- Where the slots hold a list of links, an input reads the output paired with
it. -/
theorem sourceSlot_eq (h : g.Agrees L) {i : SlotId} (hi : g.dirOf? i = some .input) :
    g.sourceSlot i = .ok (L.ends i .input).head? := by
  obtain ⟨si, hi, hsi⟩ := dirOf?_eq_some_iff.1 hi
  rw [← h.linked_input hi hsi, Graph.sourceSlot, slot_of_getElem? hi]
  simp only [bind, Except.bind, Slot.isInput, hsi]
  rfl

theorem sourceSlot_eq_some_iff (h : g.Agrees L) {o i : SlotId} (hi : g.dirOf? i = some .input) :
    g.sourceSlot i = .ok (some o) ↔ (o, i) ∈ L := by
  rw [h.sourceSlot_eq hi, Except.ok.injEq]
  constructor
  · intro ho
    exact Links.mem_ends_input.1 (List.mem_of_head? ho)
  · intro ho
    rw [h.once.ends_input ho]
    rfl

theorem sourceSlot_eq_none_iff (h : g.Agrees L) {i : SlotId} (hi : g.dirOf? i = some .input) :
    g.sourceSlot i = .ok none ↔ ∀ o, (o, i) ∉ L := by
  rw [h.sourceSlot_eq hi, Except.ok.injEq, List.head?_eq_none_iff]
  constructor
  · intro hn o ho
    rw [h.once.ends_input ho] at hn
    cases hn
  · exact Links.ends_input_eq_nil

theorem empty : Agrees {} [] where
  once := List.nodup_nil
  joins := by simp
  stored := rfl

end Agrees

/-! ## Graphs made to hold a list -/

@[simp] theorem dirOf?_relink (g : Graph) (L : Links) (s : SlotId) : (g.relink L).dirOf? s = g.dirOf? s := by
  simp only [dirOf?, getElem?_relink, Option.map_map]
  rfl

theorem relink_relink (g : Graph) (L L' : Links) : (g.relink L).relink L' = g.relink L' := by
  refine eq_relink rfl fun s => ?_
  simp only [getElem?_relink, Option.map_map]
  rfl

/-- Writing links between outputs and inputs into the slots makes a graph hold
them. -/
theorem agrees_relink {g : Graph} {L : Links} (once : L.Once)
    (joins : ∀ p ∈ L, g.dirOf? p.1 = some .output ∧ g.dirOf? p.2 = some .input) : (g.relink L).Agrees L where
  once := once
  joins := by simpa using joins
  stored := relink_relink g L L

theorem freshSlots_linked {n : NodeId} {first : Nat} {ds : List SlotDecl} {slot : Slot}
    (h : slot ∈ freshSlots n first ds) : slot.linked = [] := by
  induction ds generalizing first with
  | nil => simp [freshSlots] at h
  | cons d ds ih =>
    rcases List.mem_cons.1 h with rfl | h
    · rfl
    · exact ih h

theorem getElem?_addNode_of_lt {g : Graph} {node : Node} {k : Nat} (hk : k < g.slots.size) :
    (g.addNode node).2.slots[k]? = g.slots[k]? := by
  simp [addNode, Array.getElem?_append, hk]

theorem dirOf?_addNode {g : Graph} {node : Node} {s : SlotId} {d : SlotDir} (h : g.dirOf? s = some d) :
    (g.addNode node).2.dirOf? s = some d := by
  obtain ⟨slot, hs, hd⟩ := dirOf?_eq_some_iff.1 h
  have hlt : s.index < g.slots.size := (Array.getElem?_eq_some_iff.1 hs).1
  exact dirOf?_eq_some_iff.2 ⟨slot, (getElem?_addNode_of_lt hlt).trans hs, hd⟩

namespace Agrees

variable {g : Graph} {L : Links}

theorem of_slots (h : g.Agrees L) {g' : Graph} (hs : g'.slots = g.slots) : g'.Agrees L where
  once := h.once
  joins := by simpa only [dirOf?, hs] using h.joins
  stored := by
    have := congrArg Graph.slots h.stored
    obtain ⟨nodes, slots⟩ := g'
    cases hs
    simp only [relink] at this ⊢
    rw [this]

theorem ends_eq_nil (h : g.Agrees L) {s : SlotId} (hs : g.dirOf? s = none) (d : SlotDir) : L.ends s d = [] := by
  rw [List.eq_nil_iff_forall_not_mem]
  intro t ht
  cases d with
  | output =>
    have := (h.joins _ (Links.mem_ends_output.1 ht)).1
    simp [hs] at this
  | input =>
    have := (h.joins _ (Links.mem_ends_input.1 ht)).2
    simp [hs] at this

/-- A new node's slots have no links. -/
theorem addNode (h : g.Agrees L) (node : Node) : (g.addNode node).2.Agrees L where
  once := h.once
  joins p hp := ⟨dirOf?_addNode (h.joins p hp).1, dirOf?_addNode (h.joins p hp).2⟩
  stored := by
    refine (eq_relink rfl fun s => ?_).symm
    rw [getElem?_relink]
    by_cases hs : s.index < g.slots.size
    · rw [getElem?_addNode_of_lt hs, ← getElem?_relink, h.stored]
    · -- The links join slots that were there, so none of them ends in a new one.
      have hnone : g.dirOf? s = none := by simp [dirOf?, Nat.le_of_not_lt hs]
      cases hs' : (g.addNode node).2.slots[s.index]? with
      | none => rfl
      | some slot =>
        have hfresh : slot ∈ freshSlots ⟨g.nodes.size⟩ g.slots.size node.slots := by
          simp only [Graph.addNode, Array.getElem?_append, hs, if_false] at hs'
          exact List.mem_of_getElem? (by simpa using hs')
        rw [Option.map_some, h.ends_eq_nil hnone, ← freshSlots_linked hfresh]

end Agrees

/-! ## Refused calls -/

theorem slot_cases (g : Graph) (s : SlotId) :
    (∃ slot, g.slot s = .ok slot ∧ g.dirOf? s = some slot.dir) ∨
      (g.slot s = .error (.invalidSlot s) ∧ g.dirOf? s = none) := by
  cases hs : g.slots[s.index]? with
  | some slot => exact .inl ⟨slot, slot_of_getElem? hs, dirOf?_of_getElem? hs⟩
  | none => exact .inr ⟨slot_of_size_le (Array.getElem?_eq_none_iff.1 hs), by simp [dirOf?, hs]⟩

/-- A call refuses slots that the graph does not have or that point the wrong
way, with a fault of contract, before it changes anything. -/
theorem link_refused {g : Graph} {o i : SlotId}
    (h : ¬(g.dirOf? o = some .output ∧ g.dirOf? i = some .input)) :
    ∃ e, link o i g = .error e g ∧ e.kind = .contract := by
  rcases g.slot_cases o with ⟨so, ho, hso⟩ | ⟨ho, -⟩
  · rcases g.slot_cases i with ⟨si, hi, hsi⟩ | ⟨hi, -⟩
    · refine ⟨.linkDirs o so.dir i si.dir, ?_, rfl⟩
      rw [hso, hsi] at h
      have hbad : (!so.isOutput || !si.isInput) = true := by
        cases hdo : so.dir <;> cases hdi : si.dir <;> simp_all [Slot.isOutput, Slot.isInput]
      rw [Graph.link, EStateM.bind_of_ok (reading_of_ok ho), EStateM.bind_of_ok (reading_of_ok hi), if_pos hbad]
      rfl
    · refine ⟨.invalidSlot i, ?_, rfl⟩
      rw [Graph.link, EStateM.bind_of_ok (reading_of_ok ho), EStateM.bind_of_error (reading_of_error hi)]
  · exact ⟨.invalidSlot o, EStateM.bind_of_error (reading_of_error ho), rfl⟩

theorem unlink_refused {g : Graph} {o i : SlotId}
    (h : ¬(g.dirOf? o = some .output ∧ g.dirOf? i = some .input)) :
    ∃ e, unlink o i g = .error e g ∧ e.kind = .contract := by
  rcases g.slot_cases o with ⟨so, ho, hso⟩ | ⟨ho, -⟩
  · rcases g.slot_cases i with ⟨si, hi, hsi⟩ | ⟨hi, -⟩
    · have hopen : unlink o i g = (do
          if !si.isInput then throw (.notInput i si.name)
          if ← onSlot o (Slot.unlinkFrom i) then
            onSlot i Slot.unlinkInput
            return true
          else return false : Rewire Bool) g := by
        rw [Graph.unlink, EStateM.bind_of_ok (reading_of_ok ho), EStateM.bind_of_ok (reading_of_ok hi)]
      rw [hopen]
      cases hdi : si.dir with
      | output =>
        refine ⟨.notInput i si.name, ?_, rfl⟩
        rw [if_pos (by simp [Slot.isInput, hdi])]
        rfl
      | input =>
        -- The output slot itself refuses, and has not changed by then.
        have hdo : so.dir = .input := by
          rw [hso, hsi, hdi] at h
          cases hdo : so.dir with
          | input => rfl
          | output => exact absurd ⟨congrArg some hdo, rfl⟩ h
        refine ⟨.slotDir so.id so.name .input .output, ?_, rfl⟩
        rw [if_neg (by simp [Slot.isInput, hdi])]
        exact EStateM.bind_of_error (onSlot_of_error (slot_eq_ok_iff.1 ho) (Slot.unlinkFrom_of_input hdo i))
    · refine ⟨.invalidSlot i, ?_, rfl⟩
      rw [Graph.unlink, EStateM.bind_of_ok (reading_of_ok ho), EStateM.bind_of_error (reading_of_error hi)]
  · exact ⟨.invalidSlot o, EStateM.bind_of_error (reading_of_error ho), rfl⟩

theorem unlinkAll_refused {g : Graph} {s : SlotId} (h : ¬(g.dirOf? s).isSome) :
    ∃ e, unlinkAll s g = .error e g ∧ e.kind = .contract := by
  rcases g.slot_cases s with ⟨slot, -, hd⟩ | ⟨hs, -⟩
  · simp [hd] at h
  · have htake : onSlot s Slot.takeLinks g = .error (.invalidSlot s) g := by
      simp only [onSlot, hs]
    exact ⟨.invalidSlot s, EStateM.bind_of_error htake, rfl⟩

/-! ## Every run -/

/-- The links after a run of calls on an empty graph. -/
def links (cs : List Call) : Links :=
  (cs.foldl (fun (g, L) c => (g.after c, L.after g c)) (({}, []) : Graph × Links)).2

theorem links_snoc (cs : List Call) (c : Call) : links (cs ++ [c]) = (links cs).after (reached cs) c := by
  have hfst : ∀ (cs : List Call) (g : Graph) (L : Links),
      (cs.foldl (fun (g, L) c => (g.after c, L.after g c)) (g, L)).1 = cs.foldl after g := by
    intro cs
    induction cs with
    | nil => intro g L; rfl
    | cons c cs ih => intro g L; exact ih _ _
  simp only [links, reached, List.foldl_append, List.foldl_cons, List.foldl_nil, ← hfst cs {} []]

namespace Agrees

variable {g : Graph} {L : Links}

/-! Linking and unlinking touch nothing but the links in the slots. -/

theorem after_link (h : g.Agrees L) (o i : SlotId) :
    g.after (.link o i) = g.relink (L.after g (.link o i)) := by
  by_cases hd : g.dirOf? o = some .output ∧ g.dirOf? i = some .input
  · simp only [Graph.after, Links.after, if_pos hd, h.link_eq hd.1 hd.2, lastState]
  · obtain ⟨e, he, -⟩ := link_refused hd
    simp only [Graph.after, Links.after, if_neg hd, he, lastState, h.stored]

theorem after_unlink (h : g.Agrees L) (o i : SlotId) :
    g.after (.unlink o i) = g.relink (L.after g (.unlink o i)) := by
  by_cases hd : g.dirOf? o = some .output ∧ g.dirOf? i = some .input
  · simp only [Graph.after, Links.after, if_pos hd, h.unlink_eq hd.1 hd.2, lastState]
  · obtain ⟨e, he, -⟩ := unlink_refused hd
    simp only [Graph.after, Links.after, if_neg hd, he, lastState, h.stored]

theorem after_unlinkAll (h : g.Agrees L) (s : SlotId) :
    g.after (.unlinkAll s) = g.relink (L.after g (.unlinkAll s)) := by
  by_cases hs : (g.dirOf? s).isSome
  · simp only [Graph.after, Links.after, if_pos hs, h.unlinkAll_eq hs, lastState]
  · obtain ⟨e, he, -⟩ := unlinkAll_refused hs
    simp only [Graph.after, Links.after, if_neg hs, he, lastState, h.stored]

/-- A call adds a node, or it leaves other links in the slots, or it makes an attribute
node read another attribute. -/
theorem after_cases (h : g.Agrees L) (c : Call) :
    (∃ node, c = .addNode node ∧ g.after c = (g.addNode node).2) ∨
      c.added? = none ∧ ((∃ L', g.after c = g.relink L') ∨
        ∃ (n : NodeId) (a a' : Attribute), g.nodes[n.index]? = some (.attribute a) ∧
          g.after c = { g with nodes := g.nodes.setIfInBounds n.index (.attribute a') }) := by
  cases c with
  | addNode node => exact .inl ⟨node, rfl, rfl⟩
  | link o i => exact .inr ⟨rfl, .inl ⟨_, h.after_link o i⟩⟩
  | unlink o i => exact .inr ⟨rfl, .inl ⟨_, h.after_unlink o i⟩⟩
  | unlinkAll s => exact .inr ⟨rfl, .inl ⟨_, h.after_unlinkAll s⟩⟩
  | setAttribute n a' =>
    rcases g.after_setAttribute n a' with ⟨a, hn, hg⟩ | hg
    · exact .inr ⟨rfl, .inr ⟨n, a, a', hn, hg⟩⟩
    · exact .inr ⟨rfl, .inl ⟨L, hg.trans h.stored.symm⟩⟩

/-- Every call keeps the slots in step with the list of links. -/
theorem after (h : g.Agrees L) (c : Call) : (g.after c).Agrees (L.after g c) := by
  cases c with
  | addNode node => exact h.addNode node
  | link o i =>
    rw [h.after_link]
    by_cases hd : g.dirOf? o = some .output ∧ g.dirOf? i = some .input
    · rw [Links.after, if_pos hd]
      refine agrees_relink (h.once.link o i) fun p hp => ?_
      rcases Links.mem_link hp with hp | rfl
      · exact h.joins p hp
      · exact hd
    · rwa [Links.after, if_neg hd, h.stored]
  | unlink o i =>
    rw [h.after_unlink]
    by_cases hd : g.dirOf? o = some .output ∧ g.dirOf? i = some .input
    · rw [Links.after, if_pos hd]
      exact agrees_relink (h.once.unlink o i) fun p hp => h.joins p (List.mem_of_mem_erase hp)
    · rwa [Links.after, if_neg hd, h.stored]
  | unlinkAll s =>
    rw [h.after_unlinkAll]
    by_cases hs : (g.dirOf? s).isSome
    · rw [Links.after, if_pos hs]
      exact agrees_relink (h.once.unlinkAll s) fun p hp => h.joins p (List.mem_filter.1 hp).1
    · rwa [Links.after, if_neg hs, h.stored]
  | setAttribute n a => exact h.of_slots (g.slots_after_setAttribute n a)

end Agrees

/-- After every run, the slots hold the list of links that the run makes. -/
theorem reached_agrees (cs : List Call) : (reached cs).Agrees (links cs) := by
  induction cs using List.reverseRecOn with
  | nil => exact .empty
  | append_singleton cs c ih =>
    rw [reached_snoc, links_snoc]
    exact ih.after c

/-- A call that fails with a fault of contract, and leaves the graph and its links as
they are. -/
def Refused (cs : List Call) (c : Call) (answer : EStateM.Result Error Graph α) : Prop :=
  (∃ e, answer = .error e (reached cs) ∧ e.kind = .contract) ∧ reached (cs ++ [c]) = reached cs ∧
    links (cs ++ [c]) = links cs

theorem refused_of {cs : List Call} {c : Call} {answer : EStateM.Result Error Graph α} {e : Error}
    (he : answer = .error e (reached cs)) (hk : e.kind = .contract) (hg : (reached cs).after c = lastState answer)
    (hL : (links cs).after (reached cs) c = links cs) : Refused cs c answer := by
  refine ⟨⟨e, he, hk⟩, ?_, ?_⟩
  · rw [reached_snoc, hg, he, lastState]
  · rw [links_snoc, hL]

/-- After any calls in any order, failed ones among them, the slots show one list of
links, both ends alike; each further call is refused exactly for a slot the graph does
not have or one of the wrong direction, and then leaves the graph as it found it, and
otherwise does to the graph what it does to the list. -/
theorem reached_refines_links (cs : List Call) :
    let g := reached cs
    let L := links cs
    let Joined (o i : SlotId) := g.dirOf? o = some .output ∧ g.dirOf? i = some .input
    (L.map Prod.snd).Nodup ∧ (∀ p ∈ L, Joined p.1 p.2) ∧
    (∀ o, g.dirOf? o = some .output → g.linkedSlots o = .ok ((L.filter (·.1 = o)).map Prod.snd)) ∧
    (∀ i, g.dirOf? i = some .input →
      (∀ o, g.sourceSlot i = .ok (some o) ↔ (o, i) ∈ L) ∧ (g.sourceSlot i = .ok none ↔ ∀ o, (o, i) ∉ L)) ∧
    (∀ node, reached (cs ++ [.addNode node]) = (g.addNode node).2 ∧ links (cs ++ [.addNode node]) = L) ∧
    (∀ o i, (Joined o i → link o i g = .ok () (reached (cs ++ [.link o i])) ∧
        links (cs ++ [.link o i]) = if (o, i) ∈ L then L else L.filter (·.2 ≠ i) ++ [(o, i)]) ∧
      (¬Joined o i → Refused cs (.link o i) (link o i g))) ∧
    (∀ o i, (Joined o i → unlink o i g = .ok (decide ((o, i) ∈ L)) (reached (cs ++ [.unlink o i])) ∧
        links (cs ++ [.unlink o i]) = L.erase (o, i)) ∧
      (¬Joined o i → Refused cs (.unlink o i) (unlink o i g))) ∧
    (∀ s, ((g.dirOf? s).isSome → unlinkAll s g = .ok () (reached (cs ++ [.unlinkAll s])) ∧
        links (cs ++ [.unlinkAll s]) = L.filter fun p => p.1 ≠ s ∧ p.2 ≠ s) ∧
      (¬(g.dirOf? s).isSome → Refused cs (.unlinkAll s) (unlinkAll s g))) := by
  have h := reached_agrees cs
  refine ⟨h.once, h.joins, fun o ho => h.linkedSlots_eq ho,
    fun i hi => ⟨fun o => h.sourceSlot_eq_some_iff hi, h.sourceSlot_eq_none_iff hi⟩,
    fun node => ⟨reached_snoc _ _, links_snoc _ _⟩, fun o i => ⟨fun hd => ⟨?_, ?_⟩, fun hd => ?_⟩,
    fun o i => ⟨fun hd => ⟨?_, ?_⟩, fun hd => ?_⟩, fun s => ⟨fun hs => ⟨?_, ?_⟩, fun hs => ?_⟩⟩
  · rw [reached_snoc, Graph.after, h.link_eq hd.1 hd.2, lastState]
  · rw [links_snoc]
    exact if_pos hd
  · obtain ⟨e, he, hk⟩ := link_refused hd
    exact refused_of he hk rfl (if_neg hd)
  · rw [reached_snoc, Graph.after, h.unlink_eq hd.1 hd.2, lastState]
  · rw [links_snoc]
    exact if_pos hd
  · obtain ⟨e, he, hk⟩ := unlink_refused hd
    exact refused_of he hk rfl (if_neg hd)
  · rw [reached_snoc, Graph.after, h.unlinkAll_eq hs, lastState]
  · rw [links_snoc]
    exact if_pos hs
  · obtain ⟨e, he, hk⟩ := unlinkAll_refused hs
    exact refused_of he hk rfl (if_neg hs)

end Graph
end EffectGraph
