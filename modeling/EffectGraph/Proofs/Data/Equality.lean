import EffectGraph.Data.Equal
import Mathlib.Data.List.Find

/-!
# Equality of data written again

Two collections are the same one if they are roots of one web at one place; then
they are equal whatever they hold. Other collections are equal if their parts
are. `spelled` writes data out without webs, so that what is written again
elsewhere is spelled the same. Data that is `Comparable` is equal to itself when
it is written again (`sameIn_self`), and what it is equal to is told by how it is
spelled (`sameIn_spelled`): that some collections are the same one does not show.
-/

namespace EffectGraph

theorem Moment.same_self (m : Moment) : m.same m = true := by
  unfold Moment.same
  cases m.ahead <;> simp

namespace Data

/-- The parts of a collection. -/
def held (d : Data) : List Data :=
  match d.expose with
  | .list xs | .tuple xs | .set xs => xs
  | .map es => es.flatMap fun e => [e.1, e.2]
  | .literal d _ => [d]
  | _ => []

/-- Data written out without webs, so many levels deep. -/
def spelled : Nat → Data → Data
  | 0, _ => .null
  | room + 1, d =>
    match d.expose with
    | .list xs => .list (xs.map (spelled room))
    | .tuple xs => .tuple (xs.map (spelled room))
    | .set xs => .set (xs.map (spelled room))
    | .map es => .map (es.map fun e => (spelled room e.1, spelled room e.2))
    | .literal d t => .literal (spelled room d) t
    | .web _ _ _ | .cell _ => .cell 0
    | d => d

/-- Data without NaN that holds nothing more than so many levels deep. The keys of
its mappings differ. -/
def Comparable : Nat → Data → Prop
  | 0, _ => False
  | room + 1, d =>
    (∀ x ∈ d.held, Comparable room x) ∧
      match d.expose with
      | .float x => ∀ source, x ≠ .nan source
      | .map es => es.Pairwise fun e f => sameIn room f.1 e.1 = some false
      | .web _ _ _ | .cell _ => False
      | _ => True

/-- Data whose webs, so many levels deep, have the cells that `cells` tells for
their files. -/
def Filed (cells : Nat → List Data) : Nat → Data → Prop
  | 0, _ => True
  | room + 1, d =>
    (∀ file cs root, d = .web file cs root → cs = cells file) ∧ ∀ x ∈ d.held, Filed cells room x

/-! ## Comparing part by part -/

section

variable {same same' : Data → Data → Option Bool} {f : Data → Data}

theorem sameItems_map {xs ys : List Data} (h : ∀ x ∈ xs, ∀ y ∈ ys, same x y = same' (f x) (f y)) :
    sameItems same xs ys = sameItems same' (xs.map f) (ys.map f) := by
  induction xs generalizing ys with
  | nil => cases ys <;> rfl
  | cons x xs ih =>
    cases ys with
    | nil => rfl
    | cons y ys =>
      have hrest := ih fun x hx y hy => h x (List.mem_cons_of_mem _ hx) y (List.mem_cons_of_mem _ hy)
      rw [List.map_cons, List.map_cons, sameItems, sameItems, h x List.mem_cons_self y List.mem_cons_self, hrest]

theorem sameMembers_map {xs ys : List Data} (h : ∀ x ∈ xs, ∀ y ∈ ys, same x y = same' (f x) (f y)) :
    (xs.all fun x => ys.any (same x · == some true)) =
      ((xs.map f).all fun x => (ys.map f).any (same' x · == some true)) := by
  rw [List.all_map, Bool.eq_iff_iff, List.all_eq_true, List.all_eq_true]
  refine forall₂_congr fun x hx => ?_
  rw [Function.comp, List.any_map, List.any_eq_true, List.any_eq_true]
  refine exists_congr fun y => and_congr_right fun hy => ?_
  rw [Function.comp, h x hx y hy]

theorem sameEntries_map {es fs : List (Data × Data)}
    (hkey : ∀ e ∈ es, ∀ g ∈ fs, same e.1 g.1 = same' (f e.1) (f g.1))
    (hvalue : ∀ e ∈ es, ∀ g ∈ fs, same e.2 g.2 = same' (f e.2) (f g.2)) :
    sameEntries same es fs =
      sameEntries same' (es.map fun e => (f e.1, f e.2)) (fs.map fun e => (f e.1, f e.2)) := by
  induction es with
  | nil => rfl
  | cons e es ih =>
    obtain ⟨k, v⟩ := e
    have hrest := ih (fun e he => hkey e (List.mem_cons_of_mem _ he)) fun e he => hvalue e (List.mem_cons_of_mem _ he)
    have hfind : (fs.map fun e => (f e.1, f e.2)).find? (fun g => same' (f k) g.1 != some false) =
        (fs.find? fun g => same k g.1 != some false).map fun e => (f e.1, f e.2) := by
      rw [List.find?_map]
      congr 1
      refine List.find?_congr fun g hg => ?_
      simp [hkey (k, v) List.mem_cons_self g hg]
    rw [List.map_cons, sameEntries, sameEntries, hfind, hrest]
    cases hg : fs.find? fun g => same k g.1 != some false with
    | none => rfl
    | some g =>
      have hmem := List.mem_of_find?_eq_some hg
      simp [hkey (k, v) List.mem_cons_self g hmem, hvalue (k, v) List.mem_cons_self g hmem]

theorem sameItems_self {xs : List Data} (h : ∀ x ∈ xs, same x x = some true) : sameItems same xs xs = some true := by
  induction xs with
  | nil => rfl
  | cons x xs ih =>
    rw [sameItems, h x List.mem_cons_self]
    exact ih fun x hx => h x (List.mem_cons_of_mem _ hx)

/-- Every entry is found at its own key, as the keys before differ from it. -/
theorem sameEntries_self {es : List (Data × Data)} (hkey : ∀ e ∈ es, same e.1 e.1 = some true)
    (hvalue : ∀ e ∈ es, same e.2 e.2 = some true) (hdiffer : es.Pairwise fun e g => same g.1 e.1 = some false) :
    sameEntries same es es = some true := by
  have key : ∀ before rest, before ++ rest = es → sameEntries same rest es = some true := by
    intro before rest
    induction rest generalizing before with
    | nil => exact fun _ => rfl
    | cons e rest ih =>
      intro he
      have hmem : e ∈ es := he ▸ List.mem_append_right _ List.mem_cons_self
      have hfind : es.find? (fun g => same e.1 g.1 != some false) = some e := by
        rw [← he, List.pairwise_append] at hdiffer
        rw [← he, List.find?_append, List.find?_cons_of_pos (by simp [hkey e hmem])]
        rw [List.find?_eq_none.2 fun g hg => by simp [hdiffer.2.2 g hg e List.mem_cons_self]]
        rfl
      obtain ⟨k, v⟩ := e
      rw [sameEntries, hfind]
      simp only [hkey _ hmem, hvalue _ hmem, both]
      exact ih (before ++ [(k, v)]) (by rw [← he, List.append_assoc, List.singleton_append])
  exact key [] es rfl

end

/-! ## Comparing data -/

variable {cells : Nat → List Data} {room : Nat} {d e : Data}

theorem sameFloat_self {x : Binary64} (h : ∀ source, x ≠ .nan source) : sameFloat x x = true := by
  cases x with
  | nan source => exact absurd rfl (h source)
  | inf neg => simp [sameFloat, Binary64.eq]
  | finite neg m e fits => simp [sameFloat, Binary64.eq]

/-- Comparable data is equal to itself. -/
theorem sameIn_self (h : Comparable room d) : sameIn room d d = some true := by
  induction room generalizing d with
  | zero => exact h.elim
  | succ room ih =>
    obtain ⟨hheld, hown⟩ := h
    rw [sameIn]
    by_cases hself : isSelf d d
    · rw [if_pos hself]
    rw [if_neg hself]
    unfold held at hheld
    cases hd : d.expose with
    | list xs =>
      simp only [hd] at hheld ⊢
      rw [if_pos trivial]
      exact sameItems_self fun x hx => ih (hheld x hx)
    | tuple xs =>
      simp only [hd] at hheld ⊢
      exact sameItems_self fun x hx => ih (hheld x hx)
    | set xs =>
      simp only [hd] at hheld ⊢
      have hall : ∀ x ∈ xs, xs.any (sameIn room x · == some true) = true := fun x hx =>
        List.any_eq_true.2 ⟨x, hx, by rw [ih (hheld x hx)]; rfl⟩
      simp [List.all_eq_true.2 hall]
    | map es =>
      simp only [hd, List.forall_mem_flatMap, List.forall_mem_cons, List.not_mem_nil, false_implies, implies_true,
        and_true] at hheld hown ⊢
      rw [if_pos trivial]
      exact sameEntries_self (fun e he => ih (hheld e he).1) (fun e he => ih (hheld e he).2) hown
    | literal x t =>
      simp only [hd, List.forall_mem_singleton] at hheld ⊢
      rw [ih hheld]
      simp [both]
    | float x =>
      rw [hd] at hown
      simp [sameAtom, sameFloat_self hown]
    | moment m => simp [sameAtom, Moment.same_self]
    | web file cs root =>
      rw [hd] at hown
      exact hown.elim
    | cell i =>
      rw [hd] at hown
      exact hown.elim
    | _ => simp [sameAtom]

theorem expose_spelled (room : Nat) (d : Data) : (d.spelled room).expose = d.spelled room := by
  cases room with
  | zero => rfl
  | succ room =>
    unfold spelled
    cases d.expose <;> rfl

theorem isSelf_spelled (d e : Data) : isSelf (d.spelled room) e = false := by
  have hplace : (d.spelled room).place? = none := by
    cases room with
    | zero => rfl
    | succ room =>
      unfold spelled
      cases d.expose <;> rfl
  rw [isSelf, hplace]
  rfl

theorem eq_of_isSelf (hd : Filed cells (room + 1) d) (he : Filed cells (room + 1) e) (h : isSelf d e) : d = e := by
  unfold isSelf at h
  cases d with
  | web file cs root =>
    cases e with
    | web file' cs' root' =>
      simp only [place?, Option.isSome_some, Bool.true_and, beq_iff_eq, Option.some.injEq, Prod.mk.injEq] at h
      obtain ⟨rfl, rfl⟩ := h
      rw [hd.1 _ _ _ rfl, he.1 _ _ _ rfl]
    | _ => simp [place?] at h
  | _ => simp [place?] at h

/-- What comparable data is equal to is told by how both are spelled. -/
theorem sameIn_spelled (hd : Filed cells room d) (he : Filed cells room e) (h : Comparable room (e.spelled room)) :
    sameIn room d e = sameIn room (d.spelled room) (e.spelled room) := by
  induction room generalizing d e with
  | zero => exact h.elim
  | succ room ih =>
    by_cases hself : isSelf d e
    · -- The same collection is not looked into; written out twice it is equal all the same.
      obtain rfl := eq_of_isSelf hd he hself
      rw [sameIn_self h, sameIn, if_pos hself]
    have hpart : ∀ x ∈ d.held, ∀ y ∈ e.held, Comparable room (y.spelled room) →
        sameIn room x y = sameIn room (x.spelled room) (y.spelled room) := fun x hx y hy =>
      ih (hd.2 x hx) (he.2 y hy)
    rw [sameIn, sameIn, if_neg hself, if_neg (by simp [isSelf_spelled]), expose_spelled, expose_spelled]
    obtain ⟨hheld, hown⟩ := h
    unfold held at hheld hpart
    rw [expose_spelled] at hheld
    unfold spelled at hheld ⊢
    generalize d.expose = d at hpart ⊢
    -- Data of two kinds differs, and spelling keeps the kind.
    cases he : e.expose with
    | list ys =>
      cases d with
      | list xs =>
        simp only [he, List.forall_mem_map] at hheld hpart
        simp only [List.length_map]
        rw [sameItems_map fun x hx y hy => hpart x hx y hy (hheld y hy)]
      | _ => rfl
    | tuple ys =>
      cases d with
      | tuple xs =>
        simp only [he, List.forall_mem_map] at hheld hpart
        exact sameItems_map fun x hx y hy => hpart x hx y hy (hheld y hy)
      | _ => rfl
    | set ys =>
      cases d with
      | set xs =>
        simp only [he, List.forall_mem_map] at hheld hpart
        simp only [List.length_map]
        rw [sameMembers_map fun x hx y hy => hpart x hx y hy (hheld y hy)]
      | _ => rfl
    | map fs =>
      cases d with
      | map es =>
        simp only [he, List.forall_mem_flatMap, List.forall_mem_cons, List.not_mem_nil, false_implies, implies_true,
          and_true, List.forall_mem_map] at hheld hpart
        simp only [List.length_map]
        rw [sameEntries_map (fun e he g hg => ((hpart e he).1 g hg).1 (hheld g hg).1)
          fun e he g hg => ((hpart e he).2 g hg).2 (hheld g hg).2]
      | _ => rfl
    | literal y u =>
      cases d with
      | literal x t =>
        simp only [he, List.forall_mem_singleton] at hheld hpart
        simp only [hpart hheld]
      | _ => rfl
    | web _ _ _ | cell _ => cases d <;> rfl
    | _ => cases d <;> rfl

end Data
end EffectGraph
