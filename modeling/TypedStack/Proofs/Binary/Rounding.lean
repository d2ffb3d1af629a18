import TypedStack.Proofs.Binary.Order
/-!
# Rounding to a format

A quotient of units is rounded by `Format.nearest`. What the format holds exactly is left as it is
(`Format.nearest_units`), numerator and denominator may be multiplied by the same number
(`Format.nearest_mul_right`), and an integer far below the greatest number stays finite
(`Format.nearest_lt_infinity`). A product or a quotient of two finite numbers is rounded once
(`Format.mul_finite`, `Format.div_finite`).

Rounding is done on a significand of full width: the quotient is shifted so that it has as many bits
as a significand with its hidden bit, rounded to an integer, and added to the exponent field as it
is. So a fact about rounding is a fact about the division of natural numbers, with a shift that
depends on the number of bits of the quotient. It is the shift that the lemmas about exact numbers
have to find.
-/

set_option autoImplicit false

namespace TypedStack.Binary

/-! ## Rounding what is exact

A quotient without remainder is not rounded. For a format this means that a significand of full
width, shifted, comes back with its shift. -/

/-- A quotient without remainder is itself. -/
theorem roundQuotient_exact (n : Nat) {den : Nat} (h : 0 < den) :
    roundQuotient (n * den) den = n := by
  simp [roundQuotient, Nat.mul_div_cancel n h, h]

/-- Both sides of a quotient may be multiplied by the same number. -/
theorem roundQuotient_mul_right (num den : Nat) {c : Nat} (hc : 0 < c) :
    roundQuotient (num * c) (den * c) = roundQuotient num den := by
  have htwice : 2 * (num * c % (den * c)) = 2 * (num % den) * c := by
    rw [Nat.mul_mod_mul_right, Nat.mul_assoc]
  simp only [roundQuotient, htwice, Nat.mul_div_mul_right num den hc,
    Nat.mul_lt_mul_right hc]

/-- Rounding goes at most one beyond the quotient that is rounded down. -/
theorem roundQuotient_le (num den : Nat) : roundQuotient num den ≤ num / den + 1 := by
  unfold roundQuotient
  simp only
  split
  · omega
  · split <;> omega

namespace Format

variable {f : Format} {a b bits : Nat}

/-- A significand of full width has as many bits as the fraction field and one more, and each shift
adds one. -/
theorem log2_shifted {f : Format} {s : Nat} (k : Nat) (hlow : f.fractionSize ≤ s)
    (hhigh : s < 2 * f.fractionSize) : (s * 2 ^ k).log2 = f.fractionBits + k := by
  rw [fractionSize_eq] at hlow hhigh
  have hpos : 0 < s := Nat.lt_of_lt_of_le (Nat.two_pow_pos _) hlow
  rw [Nat.log2_eq_iff (Nat.ne_of_gt (Nat.mul_pos hpos (Nat.two_pow_pos k)))]
  constructor
  · rw [Nat.pow_add]
    exact Nat.mul_le_mul_right _ hlow
  · rw [Nat.add_right_comm, Nat.pow_add, Nat.pow_succ']
    exact Nat.mul_lt_mul_of_pos_right hhigh (Nat.two_pow_pos k)

/-- A quotient that is a significand of full width, shifted, is not rounded. The pattern is then the
sum of the significand and of as many steps of the exponent field as the significand was shifted. -/
theorem nearest_exact {s k den : Nat} (hlow : f.fractionSize ≤ s) (hhigh : s < 2 * f.fractionSize)
    (hden : 0 < den) (hroom : k * f.fractionSize + s ≤ f.infinity) :
    f.nearest (s * 2 ^ k * den) den = k * f.fractionSize + s := by
  have hshift : (s * 2 ^ k * den / den).log2 - f.fractionBits = k := by
    rw [Nat.mul_div_cancel _ hden, log2_shifted k hlow hhigh]
    omega
  have hround : roundQuotient (s * 2 ^ k * den) (den <<< k) = s := by
    have hfactor : s * 2 ^ k * den = s * (den <<< k) := by
      rw [Nat.shiftLeft_eq]
      ring
    rw [hfactor]
    refine roundQuotient_exact s ?_
    rw [Nat.shiftLeft_eq]
    exact Nat.mul_pos hden (Nat.two_pow_pos k)
  simp only [nearest, hshift, hround, Nat.min_eq_right hroom]

/-- The number that such a quotient is rounded to has its value. The hidden bit of the significand
is one step of the exponent field, which is why one is taken off when the pattern is read. -/
theorem units_nearest_exact {s k den wide : Nat} (hlow : f.fractionSize ≤ s)
    (hhigh : s < 2 * f.fractionSize) (hden : 0 < den)
    (hroom : k * f.fractionSize + s ≤ f.infinity)
    (hwide : f.magnitude wide = f.nearest (s * 2 ^ k * den) den) : f.units wide = s * 2 ^ k := by
  have hsplit : f.magnitude wide = (k + 1) * f.fractionSize + (s - f.fractionSize) := by
    rw [hwide, nearest_exact hlow hhigh hden hroom, Nat.succ_mul]
    omega
  rw [units_normal (by omega) hsplit]
  congr 1
  omega

/-- A positive integer of at most the width of a significand, brought to full width. This loses
nothing, and is how integers and numbers of a narrow format come to be significands of a wide
one. -/
theorem full_width {n : Nat} (hpos : 0 < n) (hwidth : n.log2 ≤ f.fractionBits) :
    f.fractionSize ≤ n * 2 ^ (f.fractionBits - n.log2) ∧
      n * 2 ^ (f.fractionBits - n.log2) < 2 * f.fractionSize := by
  have hbounds := (Nat.log2_eq_iff (Nat.ne_of_gt hpos)).mp rfl
  have hsplit : 2 ^ f.fractionBits = 2 ^ n.log2 * 2 ^ (f.fractionBits - n.log2) := by
    rw [← Nat.pow_add]
    congr 1
    omega
  rw [fractionSize_eq, hsplit]
  constructor
  · exact Nat.mul_le_mul_right _ hbounds.1
  · rw [← Nat.mul_assoc, ← Nat.pow_succ']
    exact Nat.mul_lt_mul_of_pos_right hbounds.2 (Nat.two_pow_pos _)

theorem nearest_zero (den : Nat) (h : 0 < den) : f.nearest 0 den = 0 := by
  have hround : roundQuotient 0 den = 0 := by simpa using roundQuotient_exact 0 h
  simp [nearest, hround]

/-! ## Signs and magnitudes

The sign bit is above all others, and infinity is the greatest magnitude that is not a NaN. -/

/-- Above infinity there is one exponent field's worth of patterns, the NaNs, and then the sign
bit. -/
theorem infinity_add_fractionSize (f : Format) : f.infinity + f.fractionSize = f.signWeight := by
  have hpos := Nat.two_pow_pos f.exponentBits
  rw [infinity, signWeight, fractionSize_eq, Nat.one_shiftLeft, Nat.one_shiftLeft,
    Nat.add_comm f.fractionBits, Nat.pow_add, ← Nat.succ_mul]
  congr 1
  omega

theorem infinity_lt_signWeight (f : Format) : f.infinity < f.signWeight := by
  rw [← infinity_add_fractionSize]
  exact Nat.lt_add_of_pos_right f.fractionSize_pos

theorem magnitude_withSign {n : Nat} (negative : Bool) (h : n < f.signWeight) :
    f.magnitude (f.withSign negative n) = n := by
  cases negative with
  | true => simp [magnitude, withSign, Nat.mod_eq_of_lt h]
  | false => simp [magnitude, withSign, Nat.mod_eq_of_lt h]

theorem isNegative_withSign {n : Nat} (negative : Bool) (h : n < f.signWeight) :
    f.isNegative (f.withSign negative n) = negative := by
  cases negative with
  | true => simp [isNegative, withSign]
  | false => simp [isNegative, withSign, h]

theorem withSign_lt {n : Nat} (negative : Bool) (h : n < f.signWeight) :
    f.withSign negative n < 2 * f.signWeight := by
  unfold withSign
  split
  · omega
  · omega

theorem units_eq (f : Format) (bits : Nat) :
    f.units bits = f.significand bits * 2 ^ f.shift bits := by
  rw [units, Nat.shiftLeft_eq]

/-- With its hidden bit a significand has one bit more than the fraction field. -/
theorem significand_lt (f : Format) (bits : Nat) : f.significand bits < 2 * f.fractionSize := by
  have := f.fractionSize_pos
  have := Nat.mod_lt (f.magnitude bits) f.fractionSize_pos
  unfold significand
  dsimp only
  split
  · omega
  · omega

theorem log2_significand_le (h : 0 < f.significand bits) :
    (f.significand bits).log2 ≤ f.fractionBits := by
  have hlt := f.significand_lt bits
  rw [fractionSize_eq, ← Nat.pow_succ'] at hlt
  have := (Nat.log2_lt (Nat.ne_of_gt h)).mpr hlt
  omega

/-! ## Rounding back and forth

A pattern gives a number of units, and a quotient of units gives a pattern. The one undoes the
other. -/

/-- A finite number is not rounded: the quotient that it is the value of gives it back. Subnormal
numbers are a case of their own, since their significands do not have full width and are not shifted
at all. -/
theorem nearest_units {m den : Nat} (h : m < f.infinity) (hden : 0 < den) :
    f.nearest (f.units m * den) den = m := by
  have hmagnitude : f.magnitude m = m :=
    Nat.mod_eq_of_lt (Nat.lt_trans h f.infinity_lt_signWeight)
  obtain hsub | ⟨k, r, hr, hsplit⟩ := f.subnormal_or_normal m
  · rw [units_subnormal (by rwa [hmagnitude]), hmagnitude]
    have hshift : (m * den / den).log2 - f.fractionBits = 0 := by
      rw [Nat.mul_div_cancel _ hden]
      rcases Nat.eq_zero_or_pos m with rfl | hpos
      · simp
      · rw [fractionSize_eq] at hsub
        have := (Nat.log2_lt (Nat.ne_of_gt hpos)).mpr hsub
        omega
    simp only [nearest, hshift, Nat.shiftLeft_zero, roundQuotient_exact m hden, Nat.zero_mul,
      Nat.zero_add, Nat.min_eq_right (Nat.le_of_lt h)]
  · -- the significand of a normal number has full width
    have hfields : m = k * f.fractionSize + (f.fractionSize + r) := by
      rw [hsplit, Nat.succ_mul]
      omega
    rw [units_normal hr (by rw [hmagnitude]; exact hsplit),
      nearest_exact (by omega) (by omega) hden (by omega)]
    exact hfields.symm

/-- Both sides of a quotient may be multiplied by the same number, since neither the number of its
bits nor the remainder's share of the denominator changes. -/
theorem nearest_mul_right (f : Format) (num den : Nat) {c : Nat} (hc : 0 < c) :
    f.nearest (num * c) (den * c) = f.nearest num den := by
  have hshifted : ∀ k, (den * c) <<< k = (den <<< k) * c := by
    intro k
    rw [Nat.shiftLeft_eq, Nat.shiftLeft_eq]
    ring
  simp only [nearest, Nat.mul_div_mul_right num den hc, hshifted, roundQuotient_mul_right _ _ hc]

/-! ## Integers

An integer is a whole number of units, the unit being a power of two. It can be too great for a
format in two ways, by its size and by the number of its bits. -/

/-- The significand has at most one bit more than there is room for. That bit is a carry into the
exponent field, so the pattern is bounded by the number of bits of the quotient alone. -/
theorem nearest_le (f : Format) (num : Nat) :
    f.nearest num 1 ≤ (num.log2 - f.fractionBits + 2) * f.fractionSize := by
  unfold Format.nearest
  simp only [Nat.div_one]
  refine Nat.le_trans (Nat.min_le_right _ _) ?_
  generalize hk : num.log2 - f.fractionBits = k
  have hquotient : num / (1 <<< k) < 2 * f.fractionSize := by
    have hlog : num < 2 ^ (num.log2 + 1) := Nat.lt_log2_self
    have hle : num.log2 + 1 ≤ k + (f.fractionBits + 1) := by omega
    have hbound : num < 2 ^ k * 2 ^ (f.fractionBits + 1) := by
      rw [← Nat.pow_add]
      exact Nat.lt_of_lt_of_le hlog (Nat.pow_le_pow_right (by decide) hle)
    rw [Nat.one_shiftLeft]
    apply Nat.div_lt_of_lt_mul
    rw [Format.fractionSize, Nat.one_shiftLeft, ← Nat.pow_succ']
    exact hbound
  have hround := roundQuotient_le num (1 <<< k)
  rw [Nat.add_mul]
  omega

theorem log2_shiftLeft_le (k shift : Nat) : (k <<< shift).log2 ≤ k.log2 + shift := by
  induction shift with
  | zero => simp
  | succ shift ih =>
    by_cases hzero : k <<< shift = 0
    · rw [Nat.shiftLeft_succ, hzero]
      simp
    · rw [Nat.shiftLeft_succ, Nat.log2_two_mul hzero]
      omega

/-- An integer below half the greatest power of two is rounded to a finite number. The bound leaves
one bit for rounding up. -/
theorem nearest_lt_infinity {k : Nat} (h : k.log2 < 1023) :
    double.nearest (k <<< double.scale) 1 < double.infinity := by
  have hshift := log2_shiftLeft_le k double.scale
  have hscale : double.scale = 1074 := by decide
  have hfraction : double.fractionBits = 52 := rfl
  refine Nat.lt_of_le_of_lt (nearest_le _ _) ?_
  unfold infinity
  refine Nat.mul_lt_mul_of_pos_right ?_ (by decide)
  rw [hfraction]
  have : (1 <<< double.exponentBits) - 1 = 2047 := by decide
  omega

theorem ofInt_natCast (f : Format) (n : Nat) : f.ofInt n = f.nearest (n <<< f.scale) 1 := by
  have hnonneg : ¬ (n : Int) < 0 := by omega
  simp [ofInt, withSign, hnonneg]

/-- An integer of at most the width of a significand is not rounded. Brought to full width it is a
significand, and its shift is what is missing to the weight of one. -/
theorem units_ofInt {n : Nat} (h : n < 2 * double.fractionSize) :
    double.units (double.ofInt n) = n * 2 ^ double.scale := by
  have hscale : double.scale = 1074 := by decide
  have hfraction : double.fractionBits = 52 := rfl
  have hmagnitude :
      double.magnitude (double.ofInt n) = double.nearest (n * 2 ^ double.scale) 1 := by
    rw [ofInt_natCast, Nat.shiftLeft_eq]
    apply Nat.mod_eq_of_lt
    exact Nat.lt_of_le_of_lt (Nat.min_le_left _ _) double.infinity_lt_signWeight
  rcases Nat.eq_zero_or_pos n with rfl | hpos
  · rw [Nat.zero_mul, nearest_zero 1 (by decide)] at hmagnitude
    have hsmall := double.fractionSize_pos
    rw [← hmagnitude] at hsmall
    rw [units_subnormal hsmall, hmagnitude, Nat.zero_mul]
  · have hlog : n.log2 ≤ double.fractionBits := by
      rw [fractionSize_eq, ← Nat.pow_succ'] at h
      have := (Nat.log2_lt (Nat.ne_of_gt hpos)).mpr h
      omega
    obtain ⟨hlow, hhigh⟩ := full_width hpos hlog
    generalize hk : double.scale - (double.fractionBits - n.log2) = k
    have hvalue : n * 2 ^ (double.fractionBits - n.log2) * 2 ^ k * 1 = n * 2 ^ double.scale := by
      rw [Nat.mul_one, Nat.mul_assoc, ← Nat.pow_add]
      congr 2
      omega
    have hroom : k * double.fractionSize + n * 2 ^ (double.fractionBits - n.log2) ≤
        double.infinity := by
      have hfields : (k + 2) * double.fractionSize ≤ double.infinity := by
        refine Nat.mul_le_mul_right _ ?_
        have : (1 <<< double.exponentBits) - 1 = 2047 := by decide
        omega
      rw [Nat.add_mul] at hfields
      omega
    rw [← hvalue] at hmagnitude
    rw [units_nearest_exact hlow hhigh (by decide) hroom hmagnitude, ← hvalue, Nat.mul_one]

/-! ## Products and quotients

The operations of a format look for NaNs, infinities and zeros first. Between finite numbers without
sign none of these questions matters, and what is left is the exact result, rounded once. -/

theorem isNaN_finite (h : a < f.infinity) : f.isNaN a = false := by
  rw [isNaN, decide_eq_false_iff_not]
  exact Nat.not_lt.mpr (Nat.le_trans (Nat.mod_le _ _) (Nat.le_of_lt h))

theorem isInfinite_finite (h : a < f.infinity) : f.isInfinite a = false := by
  have hlt := Nat.lt_of_le_of_lt (Nat.mod_le a f.signWeight) h
  exact beq_eq_false_iff_ne.mpr (Nat.ne_of_lt hlt)

theorem isNegative_finite (h : a < f.infinity) : f.isNegative a = false := by
  have := f.infinity_lt_signWeight
  rw [isNegative, decide_eq_false_iff_not]
  omega

/-- The product of two numbers without sign is the exact one, rounded. -/
theorem mul_finite (ha : a < f.infinity) (hb : b < f.infinity) :
    f.mul a b = f.nearest (f.units a * f.units b) (1 <<< f.scale) := by
  simp [mul, isNaN_finite ha, isNaN_finite hb, isInfinite_finite ha, isInfinite_finite hb,
    isNegative_finite ha, isNegative_finite hb, withSign]

/-- The quotient of two numbers without sign is the exact one, rounded. -/
theorem div_finite (ha : a < f.infinity) (hb : b < f.infinity) (hzero : f.isZero b = false) :
    f.div a b = f.nearest (f.units a <<< f.scale) (f.units b) := by
  simp [div, isNaN_finite ha, isNaN_finite hb, isInfinite_finite ha, isInfinite_finite hb,
    isNegative_finite ha, isNegative_finite hb, hzero, withSign]

/-- Multiplying by one changes nothing. A number that has as many units as there are in one is
one. -/
theorem mul_of_units_one (ha : a < f.infinity) (hb : b < f.infinity)
    (hone : f.units b = 1 <<< f.scale) : f.mul a b = a := by
  rw [mul_finite ha hb, hone]
  exact nearest_units ha (by rw [Nat.one_shiftLeft]; exact Nat.two_pow_pos _)

end Format

end TypedStack.Binary
