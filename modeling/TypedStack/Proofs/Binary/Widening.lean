import TypedStack.Proofs.Binary.Rounding
/-!
# Widening is exact

A number of a narrow format is also one of a wide format, and rounding to the wide format finds it
(`Format.units_convert`). So widening keeps the sign, takes infinity to infinity and NaNs to a NaN,
and never changes the order of two patterns (`Format.rank_convert_lt`).

What makes one format wide enough for another is four inequalities between the widths of their
fields (`Format.WidensTo`). They say that each number of the narrow format, also a subnormal one,
has a significand that fits when it is brought to full width, and an exponent that is neither too
small nor too great. The 32-bit and the 64-bit format are related in this way, and this is decided
by computing.
-/

set_option autoImplicit false

namespace TypedStack.Binary

namespace Format

variable {f g : Format} {a b bits : Nat}

/-! ## From a narrow format to a wide one -/

/-- All numbers of the first format are normal numbers of the second, zero apart. `least` is about
the least subnormal number, which must not become subnormal again, and `greatest` about the greatest
number. -/
structure WidensTo (f g : Format) : Prop where
  exponent : 2 ≤ f.exponentBits
  payload : 1 ≤ g.fractionBits
  fraction : f.fractionBits ≤ g.fractionBits
  least : f.scale + g.fractionBits ≤ g.scale
  greatest : f.fractionBits + 2 ^ f.exponentBits + (g.scale - f.scale) ≤
    g.fractionBits + 2 ^ g.exponentBits

theorem single_widensTo_double : single.WidensTo double := by
  constructor <;> decide

/-- The exponent field of a finite number is not all ones, and so its shift leaves room for two
steps. -/
theorem shift_le (hwide : f.WidensTo g) (h : f.magnitude bits < f.infinity) :
    f.shift bits + 3 ≤ 2 ^ f.exponentBits := by
  have hfour : 2 ^ 2 ≤ 2 ^ f.exponentBits := Nat.pow_le_pow_right (by omega) hwide.exponent
  rw [infinity, Nat.one_shiftLeft, ← Nat.div_lt_iff_lt_mul f.fractionSize_pos] at h
  unfold shift
  omega

/-- Rounding a finite number to the wide format gives a finite number of the same value. Units of
the two formats differ by the scales, which are powers of two, so that nothing but the significand
has bits to lose, and it has fewer than there is room for. -/
theorem nearest_widened (hwide : f.WidensTo g) (h : f.magnitude bits < f.infinity) :
    g.nearest (f.units bits <<< g.scale) (1 <<< f.scale) < g.infinity ∧
      ∀ wide, g.magnitude wide = g.nearest (f.units bits <<< g.scale) (1 <<< f.scale) →
        g.units wide = f.units bits * 2 ^ (g.scale - f.scale) := by
  have hshift := shift_le hwide h
  obtain ⟨-, -, hfraction, hleast, hgreatest⟩ := hwide
  rw [Nat.shiftLeft_eq, Nat.one_shiftLeft, units_eq]
  rcases Nat.eq_zero_or_pos (f.significand bits) with hzero | hpos
  · rw [hzero, Nat.zero_mul, Nat.zero_mul, Nat.zero_mul, nearest_zero _ (Nat.two_pow_pos _)]
    refine ⟨?_, fun wide hw => ?_⟩
    · rw [infinity, Nat.one_shiftLeft]
      exact Nat.mul_pos (by omega) g.fractionSize_pos
    · rw [units_subnormal (by rw [hw]; exact g.fractionSize_pos), hw]
  · -- the significand is brought to full width, and the shift makes up for that
    have hwidth := Nat.le_trans (log2_significand_le hpos) hfraction
    have hlog := log2_significand_le hpos
    obtain ⟨hlow, hhigh⟩ := full_width hpos hwidth
    generalize f.significand bits = sig at *
    generalize hk : f.shift bits + (g.scale - f.scale) - (g.fractionBits - sig.log2) = k
    have hvalue : sig * 2 ^ (g.fractionBits - sig.log2) * 2 ^ k =
        sig * 2 ^ f.shift bits * 2 ^ (g.scale - f.scale) := by
      rw [Nat.mul_assoc, Nat.mul_assoc, ← Nat.pow_add, ← Nat.pow_add]
      congr 2
      omega
    have hnum : sig * 2 ^ f.shift bits * 2 ^ g.scale =
        sig * 2 ^ (g.fractionBits - sig.log2) * 2 ^ k * 2 ^ f.scale := by
      rw [hvalue, Nat.mul_assoc _ _ (2 ^ f.scale), ← Nat.pow_add]
      congr 2
      omega
    generalize sig * 2 ^ (g.fractionBits - sig.log2) = wideSig at *
    have hroom : k * g.fractionSize + wideSig < g.infinity := by
      have hfields : (k + 2) * g.fractionSize ≤ g.infinity := by
        rw [infinity, Nat.one_shiftLeft]
        exact Nat.mul_le_mul_right _ (by omega)
      rw [Nat.add_mul] at hfields
      omega
    rw [hnum, ← hvalue]
    constructor
    · rw [nearest_exact hlow hhigh (Nat.two_pow_pos _) (Nat.le_of_lt hroom)]
      exact hroom
    · intro wide hw
      exact units_nearest_exact hlow hhigh (Nat.two_pow_pos _) (Nat.le_of_lt hroom) hw

/-! ## What widening keeps

A converted number is looked at through its magnitude and its sign. The magnitude is infinite or
comes from rounding, and the sign is that of the number before. -/

theorem half_fraction (h : 1 ≤ f.fractionBits) :
    0 < f.fractionSize / 2 ∧ f.fractionSize / 2 < f.fractionSize := by
  have heven : f.fractionSize = 2 * 2 ^ (f.fractionBits - 1) := by
    rw [fractionSize_eq, ← Nat.pow_succ']
    congr 1
    omega
  have := Nat.two_pow_pos (f.fractionBits - 1)
  omega

theorem nan_lt_signWeight (h : 1 ≤ f.fractionBits) : f.nan < f.signWeight := by
  have hhalf := half_fraction h
  have hsum := f.infinity_add_fractionSize
  unfold nan
  omega

/-- The NaN that a format makes is one, as long as there is a fraction field to hold its mark. -/
theorem isNaN_nan (h : 1 ≤ f.fractionBits) : f.isNaN f.nan = true := by
  have hmod : f.magnitude f.nan = f.nan := Nat.mod_eq_of_lt (nan_lt_signWeight h)
  have hhalf := half_fraction h
  rw [isNaN, hmod, nan, decide_eq_true_eq]
  omega

theorem convert_nan (h : f.isNaN bits = true) : f.convert g bits = g.nan := by
  simp [convert, h]

/-- The magnitude of a converted number. Conversion treats an infinity apart, since its pattern
would otherwise be read as the number that follows the greatest finite one. -/
def converted (f g : Format) (bits : Nat) : Nat :=
  if f.isInfinite bits then g.infinity
  else g.nearest (f.units bits <<< g.scale) (1 <<< f.scale)

theorem converted_lt_signWeight (f g : Format) (bits : Nat) :
    f.converted g bits < g.signWeight := by
  have hle : f.converted g bits ≤ g.infinity := by
    unfold converted
    split
    · exact Nat.le_refl _
    · exact Nat.min_le_left _ _
  exact Nat.lt_of_le_of_lt hle g.infinity_lt_signWeight

theorem convert_number (h : f.isNaN bits = false) :
    f.convert g bits = g.withSign (f.isNegative bits) (f.converted g bits) := by
  simp [convert, h, converted]

theorem magnitude_convert (h : f.isNaN bits = false) :
    g.magnitude (f.convert g bits) = f.converted g bits := by
  rw [convert_number h, magnitude_withSign _ (converted_lt_signWeight f g bits)]

theorem isNegative_convert (h : f.isNaN bits = false) :
    g.isNegative (f.convert g bits) = f.isNegative bits := by
  rw [convert_number h, isNegative_withSign _ (converted_lt_signWeight f g bits)]

theorem convert_lt (hwide : f.WidensTo g) (bits : Nat) : f.convert g bits < 2 * g.signWeight := by
  cases h : f.isNaN bits with
  | true =>
    have := nan_lt_signWeight hwide.payload
    rw [convert_nan h]
    omega
  | false =>
    rw [convert_number h]
    exact withSign_lt _ (converted_lt_signWeight f g bits)

theorem converted_infinite (h : f.magnitude bits = f.infinity) :
    f.converted g bits = g.infinity := by
  simp [converted, isInfinite, h]

theorem converted_finite (hwide : f.WidensTo g) (h : f.magnitude bits < f.infinity) :
    f.converted g bits < g.infinity := by
  simpa [converted, isInfinite, Nat.ne_of_lt h] using (nearest_widened hwide h).1

/-- A widened number has the value that it had before; units differ by the scales. -/
theorem units_convert (hwide : f.WidensTo g) (h : f.magnitude bits < f.infinity) :
    g.units (f.convert g bits) = f.units bits * 2 ^ (g.scale - f.scale) := by
  have hnan : f.isNaN bits = false := by
    simp only [isNaN, decide_eq_false_iff_not]
    omega
  apply (nearest_widened hwide h).2
  rw [magnitude_convert hnan]
  simp [converted, isInfinite, Nat.ne_of_lt h]

/-- Widening neither makes a NaN of a number nor a number of a NaN. -/
theorem isNaN_convert (hwide : f.WidensTo g) (bits : Nat) :
    g.isNaN (f.convert g bits) = f.isNaN bits := by
  cases h : f.isNaN bits with
  | true => rw [convert_nan h, isNaN_nan hwide.payload]
  | false =>
    rw [isNaN, magnitude_convert h, decide_eq_false_iff_not, Nat.not_lt]
    rcases Nat.lt_or_eq_of_le (magnitude_le_infinity h) with hfinite | hinf
    · exact Nat.le_of_lt (converted_finite hwide hfinite)
    · exact Nat.le_of_eq (converted_infinite hinf)

/-- The greater of two magnitudes stays the greater one. If it is infinite this is because the
smaller one stays finite, and otherwise because both keep their values. -/
theorem magnitude_convert_lt (hwide : f.WidensTo g) (hlt : f.magnitude a < f.magnitude b)
    (ha : f.isNaN a = false) (hb : f.isNaN b = false) :
    g.magnitude (f.convert g a) < g.magnitude (f.convert g b) := by
  have hfinite : f.magnitude a < f.infinity := Nat.lt_of_lt_of_le hlt (magnitude_le_infinity hb)
  rcases Nat.lt_or_eq_of_le (magnitude_le_infinity hb) with hfinite' | hinf
  · apply magnitude_lt_of_units_lt
    rw [units_convert hwide hfinite, units_convert hwide hfinite']
    exact Nat.mul_lt_mul_of_pos_right (units_lt hlt) (Nat.two_pow_pos _)
  · rw [magnitude_convert ha, magnitude_convert hb, converted_infinite hinf]
    exact converted_finite hwide hfinite

/-- Nothing comes behind the NaNs. -/
theorem isNaN_of_rank_lt (h : f.rank a < f.rank b) : f.isNaN a = false := by
  cases ha : f.isNaN a with
  | false => rfl
  | true =>
    rw [rank_nan ha] at h
    cases hb : f.isNaN b with
    | true =>
      rw [rank_nan hb] at h
      omega
    | false =>
      have := rank_le_infinity hb
      omega

/-- Widening goes along the row of patterns. The cases are those of the rank: the second pattern may
be a NaN, and each of the two may be negative. -/
theorem rank_convert_lt (hwide : f.WidensTo g) (h : f.rank a < f.rank b) :
    g.rank (f.convert g a) < g.rank (f.convert g b) := by
  have hnan := isNaN_convert hwide
  have ha := isNaN_of_rank_lt h
  have ha' := (hnan a).trans ha
  cases hb : f.isNaN b with
  | true => exact rank_lt_nan ha' ((hnan b).trans hb)
  | false =>
    have hb' := (hnan b).trans hb
    have hna := isNegative_convert (g := g) ha
    have hnb := isNegative_convert (g := g) hb
    cases hsa : f.isNegative a with
    | true =>
      rw [rank_negative ha' (hna.trans hsa)]
      cases hsb : f.isNegative b with
      | true =>
        rw [rank_negative ha hsa, rank_negative hb hsb] at h
        -- among negative numbers the greater rank has the smaller magnitude
        have hlt : f.magnitude b < f.magnitude a := by omega
        have := magnitude_convert_lt hwide hlt hb ha
        rw [rank_negative hb' (hnb.trans hsb)]
        omega
      | false =>
        rw [rank_positive hb' (hnb.trans hsb)]
        omega
    | false =>
      rw [rank_positive ha hsa] at h
      cases hsb : f.isNegative b with
      | true =>
        rw [rank_negative hb hsb] at h
        omega
      | false =>
        rw [rank_positive hb hsb] at h
        have hlt : f.magnitude a < f.magnitude b := by omega
        have := magnitude_convert_lt hwide hlt ha hb
        rw [rank_positive ha' (hna.trans hsa), rank_positive hb' (hnb.trans hsb)]
        omega

/-- Patterns that share a place in the row share one after widening, since all NaNs become the
same. -/
theorem rank_convert_eq (ha : a < 2 * f.signWeight) (hb : b < 2 * f.signWeight)
    (h : f.rank a = f.rank b) : g.rank (f.convert g a) = g.rank (f.convert g b) := by
  rcases (rank_eq_iff ha hb).mp h with rfl | ⟨hna, hnb⟩
  · rfl
  · rw [convert_nan hna, convert_nan hnb]

end Format

end TypedStack.Binary
