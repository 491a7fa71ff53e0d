import EffectGraph.Text.Glyph
import Mathlib.Data.List.Basic

/-!
# Parentheses in shader text

The operands of an operator stand between parentheses and commas. A text that
`Encloses` its own commas and closes just the parentheses it opens can be told
from what follows it: it ends at the first comma or closing parenthesis outside
its own parentheses (`Encloses.split`).
-/

namespace EffectGraph

/-- The glyphs that end an operand. -/
def EndsOperand (g : Glyph) : Prop := g = .char ')' ∨ g = .char ','

instance : DecidablePred EndsOperand := fun g => inferInstanceAs (Decidable (g = .char ')' ∨ g = .char ','))

/-- The number of open parentheses after a glyph. -/
def inside (d : Nat) (g : Glyph) : Nat := if g = .char '(' then d + 1 else if g = .char ')' then d - 1 else d

/-- Read from inside `d` parentheses, the text closes them and all that it opens,
and it has commas inside parentheses only. -/
def Encloses : Nat → List Glyph → Prop
  | d, [] => d = 0
  | d, c :: cs => (EndsOperand c → 0 < d) ∧ Encloses (inside d c) cs

/-- A text without parentheses and commas. -/
def Unmarked (cs : List Glyph) : Prop := ∀ c ∈ cs, c ≠ .char '(' ∧ ¬EndsOperand c

-- All glyphs are finitely many too, but only those of the text are looked at.
instance : DecidablePred Unmarked := fun cs => List.decidableBAll (fun c => c ≠ Glyph.char '(' ∧ ¬EndsOperand c) cs

theorem Unmarked.append {l r : List Glyph} (hl : Unmarked l) (hr : Unmarked r) : Unmarked (l ++ r) :=
  List.forall_mem_append.2 ⟨hl, hr⟩

theorem inside_add {c : Glyph} {d : Nat} (h : EndsOperand c → 0 < d) (e : Nat) :
    inside (d + e) c = inside d c + e := by
  unfold inside
  split
  · omega
  · split
    · next hc =>
      have := h (.inl hc)
      omega
    · rfl

theorem inside_of_unmarked {c : Glyph} (h : c ≠ .char '(' ∧ ¬EndsOperand c) (d : Nat) : inside d c = d := by
  unfold inside
  rw [if_neg h.1, if_neg fun hc => h.2 (.inl hc)]

namespace Encloses

variable {d e : Nat} {c c' : Glyph} {l l' r r' : List Glyph}

/-- What a text closes and encloses is nothing to what follows it. -/
theorem append_iff (h : Encloses d l) : Encloses (d + e) (l ++ r) ↔ Encloses e r := by
  induction l generalizing d with
  | nil =>
    obtain rfl : d = 0 := h
    rw [Nat.zero_add, List.nil_append]
  | cons c l ih =>
    have hopen : EndsOperand c → 0 < d + e := fun hc => Nat.add_pos_left (h.1 hc) e
    rw [List.cons_append, Encloses, and_iff_right hopen, inside_add h.1]
    exact ih h.2

theorem append_unmarked (h : Unmarked l) : Encloses d (l ++ r) ↔ Encloses d r := by
  induction l with
  | nil => rw [List.nil_append]
  | cons c l ih =>
    obtain ⟨hc, hl⟩ := List.forall_mem_cons.1 h
    have hopen : EndsOperand c → 0 < d := fun he => absurd he hc.2
    rw [List.cons_append, Encloses, and_iff_right hopen, inside_of_unmarked hc]
    exact ih hl

theorem of_unmarked (h : Unmarked l) : Encloses 0 l := by
  rw [← List.append_nil l, append_unmarked h, Encloses]

/-- A text that encloses its commas ends at the first comma or closing parenthesis
that is not its own. -/
theorem split (h : Encloses d l) (h' : Encloses d l') (hc : EndsOperand c) (hc' : EndsOperand c')
    (he : l ++ c :: r = l' ++ c' :: r') : l = l' ∧ c = c' ∧ r = r' := by
  induction l generalizing d l' with
  | nil =>
    obtain rfl : d = 0 := h
    cases l' with
    | nil => exact ⟨rfl, List.cons.inj he⟩
    | cons x l' =>
      obtain ⟨rfl, -⟩ := List.cons.inj he
      exact absurd (h'.1 hc) (Nat.lt_irrefl 0)
  | cons x l ih =>
    cases l' with
    | nil =>
      obtain rfl : d = 0 := h'
      obtain ⟨rfl, -⟩ := List.cons.inj he
      exact absurd (h.1 hc') (Nat.lt_irrefl 0)
    | cons y l' =>
      obtain ⟨rfl, htext⟩ := List.cons.inj he
      obtain ⟨rfl, htail⟩ := ih h.2 h'.2 htext
      exact ⟨rfl, htail⟩

end Encloses

/-- What stands before the first opening parenthesis is told by the text. -/
theorem opening_unique {l l' r r' : List Glyph} (h : Unmarked l) (h' : Unmarked l')
    (he : l ++ Glyph.char '(' :: r = l' ++ Glyph.char '(' :: r') : l = l' ∧ r = r' := by
  induction l generalizing l' with
  | nil =>
    cases l' with
    | nil => exact ⟨rfl, (List.cons.inj he).2⟩
    | cons x l' =>
      obtain ⟨rfl, -⟩ := List.cons.inj he
      obtain ⟨hne, -⟩ := h' (.char '(') List.mem_cons_self
      exact absurd rfl hne
  | cons x l ih =>
    cases l' with
    | nil =>
      obtain ⟨rfl, -⟩ := List.cons.inj he
      obtain ⟨hne, -⟩ := h (.char '(') List.mem_cons_self
      exact absurd rfl hne
    | cons y l' =>
      obtain ⟨rfl, htext⟩ := List.cons.inj he
      obtain ⟨rfl, htail⟩ := ih (List.forall_mem_cons.1 h).2 (List.forall_mem_cons.1 h').2 htext
      exact ⟨rfl, htail⟩

end EffectGraph
