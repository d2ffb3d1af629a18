import Mathlib.Tactic.Ring
import TypedStack.Binary.Format
/-!
# The patterns of a format in order

Of two patterns without sign the greater one stands for the greater number (`Format.units_lt`). This
is what makes the fields of a format stand in the order that they do: the exponent field is above
the fraction, and the hidden bit of a normal number makes up for the step from one exponent to the
next.

So all patterns have a place in one row of integers, their `Format.rank`: negative numbers by
falling magnitude, then the others by rising magnitude, and all NaNs in one place behind infinity.
The numeric order goes along that row (`Format.rank_lt_of_below`), and where it says nothing of two
numbers these are the same or the two zeros (`Format.eq_or_zeros`). A rank is an integer, so that
what is compared by rank is ordered totally without a word about floating-point numbers.
-/

set_option autoImplicit false

namespace TypedStack.Binary.Format

variable {f : Format} {a b bits : Nat}

/-! ## The value of a magnitude

A magnitude below the weight of the exponent field is that of a subnormal number and is itself the
number of units. Above that the exponent field counts how often the significand is doubled. -/

theorem fractionSize_eq (f : Format) : f.fractionSize = 2 ^ f.fractionBits := by
  rw [fractionSize, Nat.one_shiftLeft]

theorem fractionSize_pos (f : Format) : 0 < f.fractionSize := by
  rw [fractionSize_eq]
  exact Nat.two_pow_pos _

/-- A magnitude is that of a subnormal number, or splits into an exponent field and a fraction. -/
theorem subnormal_or_normal (f : Format) (m : Nat) :
    m < f.fractionSize ∨ ∃ k r, r < f.fractionSize ∧ m = (k + 1) * f.fractionSize + r := by
  by_cases h : m < f.fractionSize
  · exact .inl h
  · have hpos := f.fractionSize_pos
    have hfield : 0 < m / f.fractionSize := Nat.div_pos (by omega) hpos
    refine .inr ⟨m / f.fractionSize - 1, m % f.fractionSize, Nat.mod_lt _ hpos, ?_⟩
    rw [Nat.sub_add_cancel hfield, Nat.mul_comm]
    exact (Nat.div_add_mod _ _).symm

/-- A subnormal number has as many units as its pattern says. -/
theorem units_subnormal (h : f.magnitude bits < f.fractionSize) :
    f.units bits = f.magnitude bits := by
  have hfield : f.magnitude bits / f.fractionSize = 0 := Nat.div_eq_of_lt h
  simp [units, significand, shift, h, hfield]

/-- A normal number has the hidden bit, and is shifted by one less than its exponent field. -/
theorem units_normal {k r : Nat} (hr : r < f.fractionSize)
    (h : f.magnitude bits = (k + 1) * f.fractionSize + r) :
    f.units bits = (f.fractionSize + r) * 2 ^ k := by
  have hpos := f.fractionSize_pos
  have hge : ¬ (k + 1) * f.fractionSize + r < f.fractionSize := by
    rw [Nat.succ_mul]
    omega
  have hfield : ((k + 1) * f.fractionSize + r) / f.fractionSize = k + 1 := by
    rw [Nat.add_comm, Nat.add_mul_div_right _ _ hpos, Nat.div_eq_of_lt hr, Nat.zero_add]
  have hfraction : ((k + 1) * f.fractionSize + r) % f.fractionSize = r := by
    rw [Nat.add_comm, Nat.add_mul_mod_self_right, Nat.mod_eq_of_lt hr]
  simp only [units, significand, shift, h, hge, hfield, hfraction, if_false, Nat.shiftLeft_eq,
    Nat.add_sub_cancel]

/-- The greater of two magnitudes stands for the greater number. If the exponent fields differ, the
smaller number has less than twice the least significand, and the next power of two is not below
that. -/
theorem units_lt (h : f.magnitude a < f.magnitude b) : f.units a < f.units b := by
  obtain hb | ⟨k, r, hr, hb⟩ := f.subnormal_or_normal (f.magnitude b)
  · rw [units_subnormal hb, units_subnormal (Nat.lt_trans h hb)]
    exact h
  · rw [units_normal hr hb]
    obtain ha | ⟨j, q, hq, ha⟩ := f.subnormal_or_normal (f.magnitude a)
    · -- a subnormal number is below the least normal one
      rw [units_subnormal ha]
      calc f.magnitude a < f.fractionSize + r := by omega
        _ ≤ (f.fractionSize + r) * 2 ^ k := Nat.le_mul_of_pos_right _ (Nat.two_pow_pos k)
    · rw [units_normal hq ha]
      rw [ha, hb] at h
      rcases Nat.lt_trichotomy j k with hjk | rfl | hkj
      · -- the significand at most doubles, and the next power of two makes up for that
        calc (f.fractionSize + q) * 2 ^ j < (2 * f.fractionSize) * 2 ^ j :=
              Nat.mul_lt_mul_of_pos_right (by omega) (Nat.two_pow_pos j)
          _ = f.fractionSize * 2 ^ (j + 1) := by rw [Nat.pow_succ']; ac_rfl
          _ ≤ (f.fractionSize + r) * 2 ^ k :=
              Nat.mul_le_mul (Nat.le_add_right _ _) (Nat.pow_le_pow_right (by omega) hjk)
      · exact Nat.mul_lt_mul_of_pos_right (by omega) (Nat.two_pow_pos j)
      · have hfields : (k + 1 + 1) * f.fractionSize ≤ (j + 1) * f.fractionSize :=
          Nat.mul_le_mul_right _ (by omega)
        rw [Nat.succ_mul (k + 1)] at hfields
        omega

/-- The converse, since magnitudes are ordered totally and equal ones have equal units. -/
theorem magnitude_lt_of_units_lt (h : f.units a < f.units b) : f.magnitude a < f.magnitude b := by
  rcases Nat.lt_trichotomy (f.magnitude a) (f.magnitude b) with hlt | heq | hgt
  · exact hlt
  · have hunits : f.units a = f.units b := by simp only [units, significand, shift, heq]
    omega
  · have := units_lt hgt
    omega

theorem magnitude_eq_of_units_eq (h : f.units a = f.units b) : f.magnitude a = f.magnitude b := by
  rcases Nat.lt_trichotomy (f.magnitude a) (f.magnitude b) with hlt | heq | hgt
  · exact absurd h (Nat.ne_of_lt (units_lt hlt))
  · exact heq
  · exact absurd h (Nat.ne_of_gt (units_lt hgt))

/-- Zero is the only number without units. -/
theorem magnitude_eq_zero_of_units (h : f.units bits = 0) : f.magnitude bits = 0 := by
  by_contra hne
  have hzero : f.magnitude 0 < f.magnitude bits := by
    rw [magnitude, Nat.zero_mod]
    omega
  have := units_lt hzero
  omega

/-! ## The row of patterns

Ranks are found by three questions: whether the pattern is a NaN, whether it is negative, and what
its magnitude is. The small lemmas say what the rank is once they are answered. -/

/-- The place of a pattern among all patterns. Zero comes behind negative zero, and every NaN behind
infinity. The negative patterns are moved down by one, so that the two zeros have different
places. -/
def rank (f : Format) (bits : Nat) : Int :=
  if f.isNaN bits then f.infinity + 1
  else if f.isNegative bits then -(f.magnitude bits : Int) - 1
  else f.magnitude bits

theorem rank_nan (h : f.isNaN bits = true) : f.rank bits = f.infinity + 1 := by
  simp [rank, h]

theorem rank_negative (h : f.isNaN bits = false) (hn : f.isNegative bits = true) :
    f.rank bits = -(f.magnitude bits : Int) - 1 := by
  simp [rank, h, hn]

theorem rank_positive (h : f.isNaN bits = false) (hn : f.isNegative bits = false) :
    f.rank bits = f.magnitude bits := by
  simp [rank, h, hn]

theorem magnitude_le_infinity (h : f.isNaN bits = false) : f.magnitude bits ≤ f.infinity := by
  simpa [isNaN] using h

/-- Nothing but a NaN comes behind infinity. -/
theorem rank_le_infinity (h : f.isNaN bits = false) : f.rank bits ≤ f.infinity := by
  have hle := magnitude_le_infinity h
  cases hn : f.isNegative bits with
  | true =>
    rw [rank_negative h hn]
    omega
  | false =>
    rw [rank_positive h hn]
    omega

theorem rank_lt_nan (ha : f.isNaN a = false) (hb : f.isNaN b = true) : f.rank a < f.rank b := by
  have := rank_le_infinity ha
  rw [rank_nan hb]
  omega

theorem signed_negative (hn : f.isNegative bits = true) :
    f.signed bits = -(f.units bits : Int) := by
  simp [signed, hn]

theorem signed_positive (hn : f.isNegative bits = false) : f.signed bits = f.units bits := by
  simp [signed, hn]

/-- The numeric order goes along the row. The converse fails for the two zeros, which have the same
value and different places, and for NaNs. -/
theorem rank_lt_of_below (h : f.below a b = true) : f.rank a < f.rank b := by
  simp only [below, Bool.and_eq_true, Bool.not_eq_true', decide_eq_true_eq] at h
  obtain ⟨⟨ha, hb⟩, hlt⟩ := h
  cases hna : f.isNegative a with
  | true =>
    rw [rank_negative ha hna]
    rw [signed_negative hna] at hlt
    cases hnb : f.isNegative b with
    | true =>
      rw [rank_negative hb hnb]
      rw [signed_negative hnb] at hlt
      -- of two negative numbers the one with the greater magnitude is below the other
      have : f.magnitude b < f.magnitude a := magnitude_lt_of_units_lt (by omega)
      omega
    | false =>
      rw [rank_positive hb hnb]
      omega
  | false =>
    rw [rank_positive ha hna]
    rw [signed_positive hna] at hlt
    cases hnb : f.isNegative b with
    | true =>
      rw [signed_negative hnb] at hlt
      omega
    | false =>
      rw [rank_positive hb hnb]
      rw [signed_positive hnb] at hlt
      have : f.magnitude a < f.magnitude b := magnitude_lt_of_units_lt (by omega)
      omega

/-- A pattern is its magnitude with its sign, as long as it has no bits beyond those of the
format. -/
theorem eq_withSign (h : bits < 2 * f.signWeight) :
    bits = f.withSign (f.isNegative bits) (f.magnitude bits) := by
  by_cases hn : f.signWeight ≤ bits
  · have hsub : bits % f.signWeight = bits - f.signWeight := by
      rw [Nat.mod_eq_sub_mod hn, Nat.mod_eq_of_lt (by omega)]
    simp only [withSign, isNegative, magnitude, hn, decide_true, if_true, hsub]
    omega
  · have hmod : bits % f.signWeight = bits := Nat.mod_eq_of_lt (by omega)
    simp [withSign, isNegative, magnitude, hn, hmod]

/-- Two numbers neither of which is below the other are the same or the two zeros. In both cases
they have the same magnitude, and it is only the signs that may differ. -/
theorem eq_or_zeros (ha : f.isNaN a = false) (hb : f.isNaN b = false) (hab : f.below a b = false)
    (hba : f.below b a = false) : f.magnitude a = f.magnitude b ∧
      (f.isNegative a = f.isNegative b ∨ f.magnitude a = 0) := by
  have hsigned : f.signed a = f.signed b := by
    simp only [below, ha, hb, Bool.not_false, Bool.true_and, decide_eq_false_iff_not] at hab hba
    omega
  by_cases hs : f.isNegative a = f.isNegative b
  · have hunits : f.units a = f.units b := by
      cases hn : f.isNegative b with
      | true =>
        rw [signed_negative (hs.trans hn), signed_negative hn] at hsigned
        omega
      | false =>
        rw [signed_positive (hs.trans hn), signed_positive hn] at hsigned
        omega
    exact ⟨magnitude_eq_of_units_eq hunits, .inl hs⟩
  · -- a number that is its own negative is zero
    have hunits : f.units a = 0 ∧ f.units b = 0 := by
      cases hn : f.isNegative a with
      | true =>
        have hnb : f.isNegative b = false := by simpa [hn] using hs
        rw [signed_negative hn, signed_positive hnb] at hsigned
        omega
      | false =>
        have hnb : f.isNegative b = true := by simpa [hn] using hs
        rw [signed_positive hn, signed_negative hnb] at hsigned
        omega
    have hza := magnitude_eq_zero_of_units hunits.1
    exact ⟨hza.trans (magnitude_eq_zero_of_units hunits.2).symm, .inr hza⟩

/-- Only NaNs share their place. Patterns of the format are told apart by sign and magnitude, and
both can be read off the rank of a number. -/
theorem rank_eq_iff (ha : a < 2 * f.signWeight) (hb : b < 2 * f.signWeight) :
    f.rank a = f.rank b ↔ a = b ∨ f.isNaN a = true ∧ f.isNaN b = true := by
  constructor
  · intro h
    cases hna : f.isNaN a with
    | true =>
      cases hnb : f.isNaN b with
      | true => exact .inr ⟨rfl, rfl⟩
      | false =>
        have := rank_le_infinity hnb
        rw [rank_nan hna] at h
        omega
    | false =>
      cases hnb : f.isNaN b with
      | true =>
        have := rank_le_infinity hna
        rw [rank_nan hnb] at h
        omega
      | false =>
        have hsame : f.isNegative a = f.isNegative b ∧ f.magnitude a = f.magnitude b := by
          cases hsa : f.isNegative a <;> cases hsb : f.isNegative b
          · rw [rank_positive hna hsa, rank_positive hnb hsb] at h
            exact ⟨rfl, by omega⟩
          · rw [rank_positive hna hsa, rank_negative hnb hsb] at h
            omega
          · rw [rank_negative hna hsa, rank_positive hnb hsb] at h
            omega
          · rw [rank_negative hna hsa, rank_negative hnb hsb] at h
            exact ⟨rfl, by omega⟩
        rw [eq_withSign ha, eq_withSign hb, hsame.1, hsame.2]
        exact .inl rfl
  · rintro (rfl | ⟨hna, hnb⟩)
    · rfl
    · rw [rank_nan hna, rank_nan hnb]

end TypedStack.Binary.Format
