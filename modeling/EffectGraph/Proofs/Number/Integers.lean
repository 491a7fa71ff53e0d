import EffectGraph.Data.Text
import EffectGraph.Proofs.Data.Showing

/-!
# Integers as floats

An integer that becomes a float becomes one without a fraction
(`isInteger_of_ofInt?`) and is short enough to be written out (`isLong_of_ofInt?`).
It keeps its value exactly when some float has that value (`eqInt_ofInt?`), and then
it does become a float (`exists_ofInt?_of_eqInt`).
-/

namespace EffectGraph

/-- The bound of significands as a power of two. -/
theorem significands_eq : significands = 2 ^ 53 := rfl

theorem roundDiv_of_dvd {n d : Nat} (hd : 0 < d) (h : d ∣ n) : roundDiv n d = n / d := by
  unfold roundDiv
  rw [Nat.mod_eq_zero_of_dvd h]
  exact if_pos (by omega)

namespace Binary64

@[simp]
theorem pow2_natCast (n : Nat) : pow2 n = 2 ^ n := rfl

@[simp]
theorem pow2_neg_natCast (n : Nat) : pow2 (-(n : Int)) = 1 := by
  rw [pow2, Int.toNat_neg_natCast]

theorem natAbs_signed (neg : Bool) (n : Nat) : (signed neg n).natAbs = n := by
  cases neg
  · exact Int.natAbs_natCast n
  · exact (Int.natAbs_neg n).trans (Int.natAbs_natCast n)

theorem signed_natAbs (i : Int) : signed (i < 0) i.natAbs = i := by
  unfold signed
  by_cases hi : i < 0
  · rw [if_pos (by simpa using hi)]
    omega
  · rw [if_neg (by simpa using hi)]
    omega

/-- An integer beyond the significands is cut to the places of one. -/
theorem ofRatio_one {n : Nat} (hn : significands ≤ n) (neg : Bool) :
    ofRatio neg n 1 =
      if roundDiv n (2 ^ (n.log2 - 52)) = significands then
        pack neg (significands / 2) (n.log2 - 52 + 1 : Nat)
      else pack neg (roundDiv n (2 ^ (n.log2 - 52))) (n.log2 - 52 : Nat) := by
  have hpos : n ≠ 0 := by
    rintro rfl
    exact absurd hn (by decide)
  have hlog : 53 ≤ n.log2 := (Nat.le_log2 hpos).2 (significands_eq ▸ hn)
  have hlow : ¬n < 2 ^ n.log2 := Nat.not_lt.2 (Nat.log2_self_le hpos)
  have hexp : max ((n.log2 : Int) - 52) (-1074) = (n.log2 - 52 : Nat) := by
    omega
  simp only [ofRatio, if_neg hpos, show Nat.log2 1 = 0 from rfl, Int.natCast_zero, Int.sub_zero, pow2_neg_natCast,
    pow2_natCast, Nat.mul_one, Nat.one_mul, if_neg hlow, hexp, Int.natCast_succ]

theorem ofInt?_of_le {i : Int} {x : Binary64} (hi : significands ≤ i.natAbs) :
    ofInt? i = some x ↔ ofRatio (i < 0) i.natAbs 1 = x ∧ ∀ s, x ≠ .inf s := by
  rw [ofInt?, if_neg (Nat.not_lt.2 hi)]
  cases ofRatio (i < 0) i.natAbs 1 with
  | inf s =>
    simp only [reduceCtorEq, false_iff, not_and]
    rintro rfl hx
    exact hx s rfl
  | nan _ | finite _ _ _ _ =>
    simp only [Option.some.injEq, iff_self_and]
    rintro rfl s hs
    cases hs

/-- The form of the float that an integer becomes: its exponent is not negative, and as
large as the integer makes it. -/
theorem exists_finite_of_ofInt? {i : Int} {x : Binary64} (h : ofInt? i = some x) :
    ∃ neg m, ∃ e : Nat, ∃ fits, x = .finite neg m e fits ∧ i.natAbs < 2 ^ (e + 53) := by
  have hpack : ∀ neg m, ∀ e : Nat, i.natAbs < 2 ^ (e + 53) → pack neg m e = x → (∀ s, x ≠ .inf s) →
      ∃ neg m, ∃ e : Nat, ∃ fits, x = .finite neg m e fits ∧ i.natAbs < 2 ^ (e + 53) := by
    intro neg m e hi hx hfinite
    unfold pack at hx
    split at hx
    · next fits => exact ⟨neg, m, e, fits, hx.symm, hi⟩
    · exact absurd hx.symm (hfinite neg)
  by_cases hsmall : i.natAbs < significands
  · rw [ofInt?, if_pos hsmall, Option.some.injEq] at h
    refine hpack _ _ 0 (by simpa [significands_eq] using hsmall) h ?_
    rintro s rfl
    rw [pack, dif_pos ⟨hsmall, by decide, by decide⟩] at h
    cases h
  · have hplaces : ∀ e, i.natAbs.log2 - 52 ≤ e → i.natAbs < 2 ^ (e + 53) := fun e he =>
      Nat.lt_of_lt_of_le Nat.lt_log2_self (Nat.pow_le_pow_right (by decide) (by omega))
    have hn := Nat.not_lt.1 hsmall
    obtain ⟨hx, hfinite⟩ := (ofInt?_of_le hn).1 h
    rw [ofRatio_one hn] at hx
    split at hx
    · exact hpack _ _ _ (hplaces _ (by omega)) hx hfinite
    · exact hpack _ _ _ (hplaces _ (Nat.le_refl _)) hx hfinite

theorem isInteger_of_ofInt? {i : Int} {x : Binary64} (h : ofInt? i = some x) : x.isInteger := by
  obtain ⟨neg, m, e, fits, rfl, -⟩ := exists_finite_of_ofInt? h
  simp [isInteger, Nat.mod_one]

/-- An integer beyond the range of floats has hundreds of digits, one that is too long
to be written thousands. -/
theorem isLong_of_ofInt? {i : Int} {x : Binary64} (h : ofInt? i = some x) : Data.isLong i = false := by
  obtain ⟨neg, m, e, fits, rfl, hi⟩ := exists_finite_of_ofInt? h
  have hdigits : i.natAbs < 10 ^ Reading.maxDigits :=
    calc i.natAbs < 2 ^ (e + 53) := hi
      _ ≤ 2 ^ Reading.maxDigits := Nat.pow_le_pow_right (by decide) (by unfold Reading.maxDigits; omega)
      _ ≤ 10 ^ Reading.maxDigits := Nat.pow_le_pow_left (by decide) _
  exact Bool.eq_false_iff.2 fun hlong => Nat.not_le.2 hdigits (Data.isLong_iff.1 hlong)

/-- The integers that are floats are the multiples of powers of two by significands. -/
theorem exists_places_of_eqInt {i : Int} {y : Binary64} (h : y.eqInt i) :
    ∃ m, ∃ e : Nat, m < significands ∧ e ≤ 971 ∧ i.natAbs = m * 2 ^ e := by
  cases y with
  | nan _ | inf _ => cases h
  | finite neg m e fits =>
    have habs : magnitude m e = i.natAbs * pow2 (-e) := by
      have := congrArg Int.natAbs (beq_iff_eq.1 h)
      rwa [natAbs_signed, Int.natAbs_mul, Int.natAbs_natCast] at this
    rcases Int.le_total 0 e with he | he
    · obtain ⟨n, rfl⟩ := Int.eq_ofNat_of_zero_le he
      rw [pow2_neg_natCast, Nat.mul_one] at habs
      exact ⟨m, n, fits.1, by omega, habs.symm⟩
    · -- Below one, the exponent only divides.
      obtain ⟨n, hn⟩ := Int.eq_ofNat_of_zero_le (Int.neg_nonneg_of_nonpos he)
      obtain rfl : e = -n := by omega
      rw [magnitude, pow2_neg_natCast, Nat.mul_one, Int.neg_neg, pow2_natCast] at habs
      have hle : i.natAbs ≤ m := habs ▸ Nat.le_mul_of_pos_right _ (Nat.two_pow_pos n)
      exact ⟨i.natAbs, 0, Nat.lt_of_le_of_lt hle fits.1, by decide, (Nat.mul_one _).symm⟩

/-- An integer that some float is equal to becomes such a float. -/
theorem exists_ofInt?_of_eqInt {i : Int} {y : Binary64} (h : y.eqInt i) : ∃ x, ofInt? i = some x ∧ x.eqInt i := by
  obtain ⟨m, e, hm, he, hi⟩ := exists_places_of_eqInt h
  have hexact : ∀ m, ∀ e : Nat, m < significands → e ≤ 971 → i.natAbs = m * 2 ^ e → (pack (i < 0) m e).eqInt i := by
    intro m e hm he hi
    rw [pack, dif_pos ⟨hm, by omega, by omega⟩, eqInt, pow2_neg_natCast, magnitude, pow2_natCast, ← hi, signed_natAbs]
    simp
  by_cases hsmall : i.natAbs < significands
  · exact ⟨_, if_pos hsmall, hexact _ 0 hsmall (by decide) (Nat.mul_one _).symm⟩
  have hn := Nat.not_lt.1 hsmall
  have hpos : i.natAbs ≠ 0 := by
    intro hzero
    rw [hzero] at hn
    exact absurd hn (by decide)
  -- The places that are cut off are among those that the float leaves out.
  have hplaces : i.natAbs.log2 - 52 ≤ e := by
    have hlt : i.natAbs < 2 ^ (53 + e) := by
      rw [hi, Nat.pow_add]
      exact Nat.mul_lt_mul_of_pos_right (significands_eq ▸ hm) (Nat.two_pow_pos e)
    have hlog := (Nat.log2_lt hpos).2 hlt
    omega
  have hdvd : 2 ^ (i.natAbs.log2 - 52) ∣ i.natAbs :=
    (Nat.pow_dvd_pow 2 hplaces).trans ⟨m, hi.trans (Nat.mul_comm _ _)⟩
  have hmant : i.natAbs / 2 ^ (i.natAbs.log2 - 52) < significands := by
    rw [Nat.div_lt_iff_lt_mul (Nat.two_pow_pos _), significands_eq, ← Nat.pow_add]
    exact Nat.lt_of_lt_of_le Nat.lt_log2_self (Nat.pow_le_pow_right (by decide) (by omega))
  have hround : (ofRatio (i < 0) i.natAbs 1).eqInt i := by
    rw [ofRatio_one hn, roundDiv_of_dvd (Nat.two_pow_pos _) hdvd, if_neg (Nat.ne_of_lt hmant)]
    exact hexact _ _ hmant (Nat.le_trans hplaces he) (Nat.div_mul_cancel hdvd).symm
  refine ⟨_, (ofInt?_of_le hn).2 ⟨rfl, fun s hs => ?_⟩, hround⟩
  rw [hs] at hround
  cases hround

/-- Rounding loses nothing where some float has the value. -/
theorem eqInt_ofInt? {i : Int} {x : Binary64} (h : ofInt? i = some x) : x.eqInt i ↔ ∃ y : Binary64, y.eqInt i := by
  refine ⟨fun hx => ⟨x, hx⟩, ?_⟩
  rintro ⟨y, hy⟩
  obtain ⟨x', hx', hexact⟩ := exists_ofInt?_of_eqInt hy
  cases h.symm.trans hx'
  exact hexact

/-- A float is equal to an integer if it has no fraction and this is its integer part. -/
theorem eqInt_iff_truncate? {x : Binary64} {i : Int} : x.eqInt i ↔ x.isInteger ∧ x.truncate? = some i := by
  cases x with
  | nan _ | inf _ => simp [eqInt, isInteger]
  | finite neg m e fits =>
    have hpos : 0 < pow2 (-e) := Nat.two_pow_pos _
    have hscale : ∀ n : Nat, signed neg (n * pow2 (-e)) = signed neg n * pow2 (-e) := by
      intro n
      cases neg <;> simp [signed]
    rw [eqInt, isInteger, truncate?, beq_iff_eq, beq_iff_eq, Option.some.injEq]
    constructor
    · intro h
      have hmag : magnitude m e = i.natAbs * pow2 (-e) := by
        have := congrArg Int.natAbs h
        rwa [natAbs_signed, Int.natAbs_mul, Int.natAbs_natCast] at this
      refine ⟨by rw [hmag, Nat.mul_mod_left], ?_⟩
      rw [hmag, hscale] at h
      rw [hmag, Nat.mul_div_cancel _ hpos]
      exact Int.eq_of_mul_eq_mul_right (by omega) h
    · rintro ⟨hmod, rfl⟩
      rw [← hscale, Nat.div_mul_cancel (Nat.dvd_of_mod_eq_zero hmod)]

/-- A float that is equal to an integer is below zero if the integer is. -/
theorem isNegative_of_eqInt {x : Binary64} {i : Int} (h : x.eqInt i) : x.isNegative = decide (i < 0) := by
  cases x with
  | nan _ | inf _ => cases h
  | finite neg m e fits =>
    have hscale : (0 : Int) < pow2 (-e) := Int.natCast_pos.2 (Nat.two_pow_pos _)
    have hmag : magnitude m e = 0 ↔ m = 0 := by simp [magnitude, pow2]
    have h : signed neg (magnitude m e) = i * pow2 (-e) := beq_iff_eq.1 h
    rw [isNegative, Bool.eq_iff_iff, Bool.and_eq_true, bne_iff_ne, decide_eq_true_iff, Ne, ← hmag]
    by_cases hi : i < 0
    · have := Int.mul_neg_of_neg_of_pos hi hscale
      cases neg
      · rw [signed, if_neg Bool.false_ne_true] at h
        omega
      · rw [signed, if_pos rfl] at h
        simp only [hi, true_and, iff_true]
        omega
    · have := Int.mul_nonneg (Int.not_lt.1 hi) (Int.le_of_lt hscale)
      simp only [hi, iff_false, not_and, not_not]
      rintro rfl
      rw [signed, if_pos rfl] at h
      omega

end Binary64
end EffectGraph
