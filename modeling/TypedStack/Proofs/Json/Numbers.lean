import TypedStack.Proofs.Binary.Rounding
import TypedStack.Proofs.Json.RoundTrip
import TypedStack.SyntaxTree.Writer
/-!
# Printed integers and binary numbers

An integer of 64 bits is printed as its digits, and a binary number as decimal digits that are found
by a search. Of the digits of an integer it is shown here that they are read back; that those of a
binary number are is what `Json.ReadsBack` says of the number, and from it follows that they can be
read back inside any text.

Reading does not always round to the nearest binary number. The digits are taken up as long as a
word of 64 bits holds them, the word is made a binary number, and this is multiplied with a power of
ten or divided by one, where each of the two steps rounds. For integers and for numbers of few
digits only one of them rounds, and these are read as the nearest number (`double?_ofInt`,
`double?_nearest`). For others the last digit can be off by one, and then a number that is printed
is not the one that is read.
-/

set_option autoImplicit false

namespace TypedStack

open Binary Decimal

namespace Json

namespace Number

/-- A number that is read back from its text, and not too great to be read at all. -/
structure Readable (n : Number) : Prop extends n.Spelled where
  inRange : n.double?.isSome = true

/-! ## Integers

Integers are printed without a point, and so they are told apart from other numbers when they are
read. -/

/-- The digits of an integer begin with a zero only if it is zero. -/
theorem ofInt_spelled (n : Int) : (Number.ofInt n).Spelled := by
  refine ⟨Nat.toDigits_ne_nil,
    fun c hc => Nat.isDigit_of_mem_toDigits (by decide) (by decide) hc, ?_, by simp [ofInt]⟩
  intro hlead
  by_cases hzero : n.natAbs = 0
  · simp [ofInt, hzero]
  · exact absurd hlead (head?_toDigits (Nat.pos_of_ne_zero hzero))

/-- An integer is read back as an integer. A minus stands only before a number that is not zero. -/
theorem int?_ofInt (n : Int) : (Number.ofInt n).int? = some n := by
  have hsign : (decide (n < 0) && n.natAbs == 0) = false := by
    by_cases hneg : n < 0
    · simp only [hneg, decide_true, Bool.true_and, beq_eq_false_iff_ne]
      omega
    · simp [hneg]
  simp only [int?, ofInt, List.isEmpty_nil, Option.isNone_none, Bool.and_self, digitsValue,
    Nat.ofDigitChars_ten_toDigits, hsign, Bool.not_false, if_true, decide_eq_true_eq,
    Option.some.injEq]
  by_cases hneg : n < 0
  · rw [if_pos hneg]
    omega
  · rw [if_neg hneg]
    omega

/-! ## Reading

The steps in which a number is rounded, and two kinds of numbers for which they come to one
rounding: integers, and numbers of few digits with a small power of ten. -/

/-- The value grows with every further digit, so what fits at the end has fitted all the way. -/
theorem le_ofDigitChars (cs : List Char) (init : Nat) : init ≤ Nat.ofDigitChars 10 cs init := by
  induction cs generalizing init with
  | nil => exact Nat.le_refl _
  | cons c cs ih =>
    rw [Nat.ofDigitChars_cons]
    exact Nat.le_trans (by omega) (ih _)

/-- Digits that 64 bits hold are all taken up. -/
theorem absorb_all {significand : Nat} {cs : List Char}
    (h : Nat.ofDigitChars 10 cs significand < UInt64.size) :
    absorb significand cs = (Nat.ofDigitChars 10 cs significand, []) := by
  induction cs generalizing significand with
  | nil => rfl
  | cons c cs ih =>
    rw [Nat.ofDigitChars_cons] at h ⊢
    have hroom := Nat.lt_of_le_of_lt (le_ofDigitChars cs _) h
    rw [absorb, if_pos hroom, ih h]

/-- The significand is then the value of all digits, and each digit behind the point takes one from
the power of ten. -/
theorem parts_eq {n : Number} (h : digitsValue (n.whole ++ n.fraction) < UInt64.size) :
    n.parts =
      (digitsValue (n.whole ++ n.fraction), n.exponent.getD 0 - n.fraction.length) := by
  have hsplit : digitsValue (n.whole ++ n.fraction) =
      Nat.ofDigitChars 10 n.fraction (Nat.ofDigitChars 10 n.whole 0) := Nat.ofDigitChars_append 0
  rw [hsplit] at h ⊢
  have hfront := Nat.lt_of_le_of_lt (le_ofDigitChars n.fraction _) h
  simp only [parts, absorb_all hfront, absorb_all h, List.length_nil, Prod.mk.injEq, true_and]
  omega

/-- Without a power of ten nothing is done to the significand but to make it a binary number. -/
theorem scaled?_zero {significand : Nat} (h : significand < UInt64.size) :
    scaled? significand 0 = some (Format.double.ofInt significand) := by
  have hlog : significand.log2 < 1023 := by
    rcases Nat.eq_zero_or_pos significand with rfl | hpos
    · decide
    · have hbits : significand < 2 ^ 64 := h
      have := (Nat.log2_lt (Nat.ne_of_gt hpos)).mpr hbits
      omega
  have hfinite := Format.nearest_lt_infinity hlog
  rw [← Format.ofInt_natCast] at hfinite
  have hone : Format.double.mul (Format.double.ofInt significand) (powerOfTen 0) =
      Format.double.ofInt significand :=
    Format.mul_of_units_one hfinite (by decide +kernel) (by decide +kernel)
  simp [scaled?, hone, Format.isInfinite_finite hfinite]

/-- An integer is rounded once, to the nearest binary number. -/
theorem double?_ofInt {n : Int} (h : n.natAbs < UInt64.size) :
    (Number.ofInt n).double? = some (Format.double.ofInt n).toUInt64 := by
  have hvalue : digitsValue ((Number.ofInt n).whole ++ (Number.ofInt n).fraction) = n.natAbs := by
    simp [ofInt, digitsValue]
  have hparts := parts_eq (n := Number.ofInt n) (by rwa [hvalue])
  rw [hvalue] at hparts
  have hexponent : (Number.ofInt n).exponent.getD 0 - (Number.ofInt n).fraction.length = 0 := rfl
  rw [hexponent] at hparts
  simp only [double?, hparts, scaled?_zero h, Option.map_some, Format.ofInt_natCast]
  rfl

/-- The integers of 64 bits, with or without a sign, are far from the greatest binary number. -/
theorem ofInt_readable {n : Int} (h : n.natAbs ≤ 9223372036854775808) :
    (Number.ofInt n).Readable := by
  refine ⟨ofInt_spelled n, ?_⟩
  have hsize : n.natAbs < UInt64.size := Nat.lt_of_le_of_lt h (by decide)
  rw [double?_ofInt hsize]
  rfl

/-! ### Numbers of few digits

A significand below `2 ^ 53` and a power of ten up to the twenty-second are binary numbers
themselves. Only what is done with the two is rounded, once, which is the rounding of the exact
result. -/

/-- The greatest power of ten that a binary number holds exactly. -/
def exactPower : Nat := 22

/-- Each of these powers is finite, is not zero, and is the power of ten in units of the format. -/
theorem powerOfTen_exact {e : Nat} (h : e ≤ exactPower) :
    powerOfTen e < Format.double.infinity ∧ Format.double.isZero (powerOfTen e) = false ∧
      Format.double.units (powerOfTen e) = 10 ^ e * 2 ^ Format.double.scale := by
  have hall : ∀ k : Fin 23, powerOfTen k < Format.double.infinity ∧
      Format.double.isZero (powerOfTen k) = false ∧
        Format.double.units (powerOfTen k) = 10 ^ k.val * 2 ^ Format.double.scale := by
    decide +kernel
  exact hall ⟨e, Nat.lt_succ_of_le h⟩

variable {digits : Nat} {e : Int}

/-- The guards against very great and very small numbers do not concern a number of few digits. -/
theorem ofDecimal_eq (hdigits : digits < 2 * Format.double.fractionSize)
    (he : e.natAbs ≤ exactPower) :
    Format.double.ofDecimal digits e =
      if 0 ≤ e then Format.double.nearest (digits * 10 ^ e.natAbs * 2 ^ Format.double.scale) 1
      else Format.double.nearest (digits * 2 ^ Format.double.scale) (10 ^ e.natAbs) := by
  have hsize : 2 * Format.double.fractionSize ≤ 10 ^ 16 := by decide
  have hlength : Format.decimalLength digits ≤ 16 := by
    rw [Format.decimalLength, Nat.length_toDigits_le_iff (by decide) (by decide)]
    omega
  have hexponent : ((1 <<< (Format.double.exponentBits - 1) : Nat) : Int) = 1024 := by decide
  have hscale : (Format.double.scale : Int) = 1074 := by decide
  unfold exactPower at he
  unfold Format.ofDecimal
  rcases Nat.eq_zero_or_pos digits with rfl | hpos
  · simp [Format.nearest_zero]
  · rw [if_neg (Nat.ne_of_gt hpos), if_neg (by omega), if_neg (by omega)]
    by_cases hnonneg : 0 ≤ e
    · have habs : e.toNat = e.natAbs := by omega
      rw [if_pos hnonneg, if_pos hnonneg, Nat.shiftLeft_eq, habs]
      rfl
    · have habs : (-e).toNat = e.natAbs := by omega
      rw [if_neg hnonneg, if_neg hnonneg, Nat.shiftLeft_eq, habs]
      rfl

/-- Such a number is far below the greatest binary number. -/
theorem log2_lt_of_few (hdigits : digits < 2 * Format.double.fractionSize) {p : Nat}
    (hp : p ≤ exactPower) : (digits * 10 ^ p).log2 < 1023 := by
  rcases Nat.eq_zero_or_pos (digits * 10 ^ p) with hzero | hpos
  · simp [hzero]
  · rw [Nat.log2_lt (Nat.ne_of_gt hpos)]
    calc digits * 10 ^ p ≤ (2 * Format.double.fractionSize) * 10 ^ exactPower :=
          Nat.mul_le_mul (Nat.le_of_lt hdigits) (Nat.pow_le_pow_right (by decide) hp)
      _ < 2 ^ 1023 := by decide +kernel

/-- Significand and power are held exactly, so that only their product or quotient is rounded. -/
theorem scaled?_few (hdigits : digits < 2 * Format.double.fractionSize)
    (he : e.natAbs ≤ exactPower) : scaled? digits e = some (Format.double.ofDecimal digits e) := by
  have hfinite : Format.double.ofInt digits < Format.double.infinity := by
    have hlog := log2_lt_of_few hdigits (Nat.zero_le exactPower)
    rw [Nat.pow_zero, Nat.mul_one] at hlog
    rw [Format.ofInt_natCast]
    exact Format.nearest_lt_infinity hlog
  have hunits := Format.units_ofInt hdigits
  obtain ⟨hpower, hnonzero, hten⟩ := powerOfTen_exact he
  have hscale : 0 < 2 ^ Format.double.scale := Nat.two_pow_pos _
  have hsmall : e.natAbs ≤ 22 := he
  rw [ofDecimal_eq hdigits he]
  unfold scaled? greatestPower
  by_cases hneg : e < 0
  -- Not so small a number that it would have to be divided twice.
  · have htimes : (e.natAbs - 1) / 308 = 0 := by omega
    rw [if_pos hneg, if_neg (by omega)]
    simp only [htimes, shrink, Nat.zero_mul, Nat.sub_zero, Option.some.injEq]
    rw [Format.div_finite hfinite hpower hnonzero, hunits, hten, Nat.shiftLeft_eq,
      Format.nearest_mul_right _ _ _ hscale]
  · have hproduct : Format.double.mul (Format.double.ofInt digits) (powerOfTen e.natAbs) =
        Format.double.nearest (digits * 10 ^ e.natAbs * 2 ^ Format.double.scale) 1 := by
      rw [Format.mul_finite hfinite hpower, hunits, hten, Nat.one_shiftLeft,
        ← Format.nearest_mul_right _ _ 1 hscale, Nat.one_mul, Nat.mul_mul_mul_comm, ← Nat.mul_assoc]
    have hrounded := Format.nearest_lt_infinity (log2_lt_of_few hdigits he)
    rw [Nat.shiftLeft_eq, ← hproduct] at hrounded
    have hplaces : e.natAbs ≤ 308 := by omega
    rw [if_neg hneg, if_pos hplaces, if_pos (Int.not_lt.mp hneg), ← hproduct]
    simp [Format.isInfinite_finite hrounded]

/-- **Few digits are rounded once.** A number of at most fifteen digits with a small power of ten is
read as the nearest binary number, the one that the literal of the language with these digits stands
for. -/
theorem double?_nearest {n : Number}
    (hdigits : digitsValue (n.whole ++ n.fraction) < 2 * Format.double.fractionSize)
    (hpower : (n.exponent.getD 0 - n.fraction.length).natAbs ≤ exactPower) :
    n.double? = some (Format.double.withSign n.negative
      (Literal.nearest ⟨n.whole, n.fraction, n.exponent.getD 0⟩ .double)).toUInt64 := by
  have hsize : 2 * Format.double.fractionSize ≤ UInt64.size := by decide
  simp only [double?, parts_eq (Nat.lt_of_lt_of_le hdigits hsize), scaled?_few hdigits hpower,
    Option.map_some, Literal.nearest]

/-! ## Binary numbers

Nothing is proved about the search for the shortest digits, except that it gives digits. -/

/-- What is printed for a binary number is made of digits. -/
theorem ofDouble?_digits {bits : UInt64} {n : Number} (h : ofDouble? bits = some n) :
    n.whole ≠ [] ∧ (∀ c ∈ n.whole, c.isDigit = true) ∧ ∀ c ∈ n.fraction, c.isDigit = true := by
  unfold ofDouble? at h
  dsimp only at h
  split at h
  · simp at h
  · split at h
    · rw [← Option.some.inj h]
      simp [Char.isDigit]
    · have hdigits : ∀ d ∈ (shortest .double .even bits.toNat).digits, d < 10 :=
        Scientific.normal_digits _ _
      generalize shortest .double .even bits.toNat = s at h hdigits
      split at h
      · obtain ⟨hwhole, hbefore, hafter⟩ := Scientific.positional_digits hdigits
        rw [← Option.some.inj h]
        exact ⟨by simpa [Scientific.digitChars] using hwhole, Scientific.isDigit_digitChars hbefore,
          Scientific.isDigit_digitChars hafter⟩
      · rw [← Option.some.inj h]
        refine ⟨by simp [Scientific.digitChars], Scientific.isDigit_digitChars ?_,
          Scientific.isDigit_digitChars ?_⟩
        · intro d hd
          exact hdigits d (by simp_all [Scientific.digits])
        · intro d hd
          exact hdigits d (by simp [Scientific.digits, hd])

end Number

/-- A zero before other digits makes the text of a number unreadable. -/
theorem parse?_zero {n : Number} (hwhole : ∀ c ∈ n.whole, c.isDigit = true)
    (hzero : n.whole.head? = some '0') (hmore : n.whole.length ≠ 1) :
    parse? (Json.scalar (.number n)).render = none := by
  have hnonempty : n.whole ≠ [] := by
    intro hnil
    simp [hnil] at hzero
  obtain ⟨c, cs, hrender, hspace, hother, hscan⟩ := scanScalar_number hnonempty hwhole []
  rw [scanNumber_zero hwhole hzero hmore stops_nil, List.append_nil] at hscan
  unfold parse? render tokens?
  simp [renderAt, Scalar.render, hrender, scanFrom_scalar hspace hother, hscan]

/-- The number is printed in a way that is read as the same number. -/
def ReadsBack (bits : UInt64) : Prop := (parse? (ofDouble bits).render).bind double? = some bits

instance (bits : UInt64) : Decidable (ReadsBack bits) :=
  inferInstanceAs (Decidable (_ = some bits))

/-- A number that is read back on its own is read back anywhere. If it were printed with a zero too
many, or as no number at all, it would not be read on its own either. -/
theorem ReadsBack.readable {bits : UInt64} (h : ReadsBack bits) :
    ∃ n, Number.ofDouble? bits = some n ∧ n.Readable ∧ n.double? = some bits := by
  unfold ReadsBack ofDouble at h
  cases hn : Number.ofDouble? bits with
  | none =>
    rw [hn] at h
    have hnull : parse? null.render = some null := parse?_render trivial
    rw [hnull] at h
    cases h
  | some n =>
    obtain ⟨hnonempty, hwhole, hfraction⟩ := Number.ofDouble?_digits hn
    rw [hn] at h
    have hlead : n.whole.head? = some '0' → n.whole.length = 1 := by
      intro hzero
      by_contra hmore
      rw [parse?_zero hwhole hzero hmore] at h
      cases h
    have hspelled : n.Spelled := ⟨hnonempty, hwhole, hlead, hfraction⟩
    have hparse : parse? (Json.scalar (.number n)).render = some _ := parse?_render hspelled
    rw [hparse] at h
    have hdouble : n.double? = some bits := h
    exact ⟨n, rfl, ⟨hspelled, by rw [hdouble]; rfl⟩, hdouble⟩

end Json

end TypedStack
