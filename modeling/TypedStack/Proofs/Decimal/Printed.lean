import Mathlib.Algebra.Order.Field.Power
import Mathlib.Algebra.Order.Field.Rat
import Mathlib.Tactic.NormNum
import Mathlib.Tactic.Positivity
import Mathlib.Tactic.Ring
import TypedStack.Proofs.Decimal.Reading
import TypedStack.Value.Text
/-!
# The printed text of a binary number denotes its decimal

A binary number is printed from the digits and the exponent of a decimal number, and its own size
only decides where the point goes. Texts are given a meaning here, an exact rational number
(`Token.rational?`), and so is a decimal number in scientific form (`Scientific.value`). Wherever
the point goes, the text denotes the decimal number it was made from (`printed_number_exact`).

So printing adds no error of its own: however the digits were found, the text says neither more nor
less than they do. That the digits read back as the binary number is another matter, and is not used
here.

The text is also made from the spelled form of the decimal number, as `1.25e3`, by cutting it up.
There every cut and every difference has to be in range (`Value.cutBody?`), and all of them are. The
exponent is bounded for that, since it is read as a word of 32 bits and its opposite has to be one
as well; the bound is far beyond the exponents of the formats.
-/

set_option autoImplicit false

namespace TypedStack

open Binary Decimal

/-! ## Exact numbers

Rational numbers, because a power of ten with a negative exponent is one and rounding is out of the
question. -/

namespace Decimal

/-- The number that a literal stands for. -/
def Literal.value (l : Literal) : ℚ :=
  digitsValue (l.whole ++ l.fraction) * 10 ^ (l.exponent - l.fraction.length)

namespace Scientific

/-- The leading digit is not zero, and each digit is below ten. -/
structure WellFormed (s : Scientific) : Prop where
  lead : 0 < s.lead
  digits : ∀ d ∈ s.digits, d < 10

/-- Digits with the point behind the first of them. -/
def pointed : List Nat → ℚ
  | [] => 0
  | d :: ds => d + pointed ds / 10

/-- The number in scientific form. -/
def value (s : Scientific) : ℚ := pointed s.digits * 10 ^ s.exponent

/-- The spelled form: `1.25e3`, and `1e3` for a single digit. -/
def spelled (s : Scientific) : List Char :=
  s.exponential { mark := 'e', signed := false, pointed := false }

end Scientific

end Decimal

/-- The exact number that a decimal text stands for. It is read as the literal of the language is,
sign first, but never rounded. -/
def Token.rational? (cs : List Char) : Option ℚ :=
  (literal? (takeSign cs).2).map fun l => if (takeSign cs).1 then -l.value else l.value

/-- The absolute value of a finite binary number. -/
def Binary.Format.absolute (f : Format) (bits : Nat) : ℚ := f.units bits / 2 ^ f.scale

namespace Decimal

/-- A zero behind the digits and one less in the power of ten leave the value as it is. -/
theorem digitsValue_behind (cs : List Char) (k : Nat) (n : Int) :
    (digitsValue (cs ++ List.replicate k '0') : ℚ) * 10 ^ (n - k) = digitsValue cs * 10 ^ n := by
  rw [digitsValue_append, digitsValue_zeros, List.length_replicate, Nat.add_zero]
  push_cast
  rw [← zpow_natCast, mul_assoc, ← zpow_add₀ (by norm_num)]
  congr 2
  omega

namespace Scientific

/-- The digits as a whole number, with the point moved behind the last of them. By induction on the
digits: the first one is worth as much as the length of the others says. -/
theorem digitsValue_pointed {ds : List Nat} (h : ∀ d ∈ ds, d < 10) :
    (digitsValue (digitChars ds) : ℚ) * 10 = pointed ds * 10 ^ ds.length := by
  induction ds with
  | nil => simp [digitChars, digitsValue, pointed]
  | cons d ds ih =>
    obtain ⟨hd, hds⟩ := List.forall_mem_cons.mp h
    have hsplit : digitsValue (digitChars (d :: ds)) =
        d * 10 ^ ds.length + digitsValue (digitChars ds) := by
      have happend := digitsValue_append [d.digitChar] (digitChars ds)
      rw [digitsValue_digitChar hd, length_digitChars] at happend
      exact happend
    rw [hsplit, Nat.cast_add, add_mul, ih hds, pointed, List.length_cons, pow_succ]
    push_cast
    ring

/-- The value of a decimal number as its digits without a point, times a power of ten. The exponent
counts the places before the point, and the digits behind the first are taken off it. -/
theorem value_eq {s : Scientific} (h : s.WellFormed) :
    s.value = digitsValue (digitChars s.digits) * 10 ^ (s.exponent - s.rest.length) := by
  have hpointed := digitsValue_pointed h.digits
  have hlength : s.digits.length = s.rest.length + 1 := rfl
  rw [hlength, pow_succ, ← mul_assoc] at hpointed
  have hwhole : (digitsValue (digitChars s.digits) : ℚ) = pointed s.digits * 10 ^ s.rest.length :=
    mul_right_cancel₀ (by norm_num) hpointed
  rw [value, hwhole, mul_assoc, ← zpow_natCast, ← zpow_add₀ (by norm_num)]
  congr 2
  omega

theorem pointed_nonneg (ds : List Nat) : 0 ≤ pointed ds := by
  induction ds with
  | nil => exact le_refl _
  | cons d ds ih =>
    rw [pointed]
    positivity

/-- A well-formed number is positive, since its leading digit is not zero. -/
theorem value_pos {s : Scientific} (h : s.WellFormed) : 0 < s.value := by
  have hlead : (0 : ℚ) < s.lead := Nat.cast_pos.mpr h.lead
  have hrest := pointed_nonneg s.rest
  rw [value, digits, pointed]
  positivity

/-! ## Where the point goes

Positional form has three cases. The point is among the digits, or behind them and behind zeros that
fill the gap, or before them and before zeros. In each case the literal has the value of the number.
-/

/-- There is always a digit behind the point. -/
theorem positional_fraction (s : Scientific) : s.positional.2 ≠ [] := by
  unfold positional
  split
  · dsimp only
    split
    · next hpoint =>
      intro hnil
      have := List.drop_eq_nil_iff.mp hnil
      omega
    · simp
  · simp [digits]

/-- Positional form has the same value. -/
theorem positional_value {s : Scientific} (h : s.WellFormed) :
    (Literal.mk (digitChars s.positional.1) (digitChars s.positional.2) 0).value = s.value := by
  rw [value_eq h, Literal.value]
  dsimp only
  rw [← digitChars_append, length_digitChars]
  have hlength : s.digits.length = s.rest.length + 1 := rfl
  unfold positional
  split
  · dsimp only
    split
    · -- the point is among the digits
      rw [List.take_append_drop, List.length_drop]
      congr 2
      omega
    · -- the point is behind the digits and the zeros that fill the gap
      generalize hgap : s.exponent.toNat + 1 - s.digits.length = gap
      have hzeros : s.digits ++ List.replicate gap 0 ++ [0] =
          s.digits ++ List.replicate (gap + 1) 0 := by
        rw [List.append_assoc, List.replicate_succ']
      have hpower : (0 - ([0] : List Nat).length : Int) =
          s.exponent - s.rest.length - (gap + 1 : Nat) := by
        rw [List.length_singleton]
        omega
      rw [hzeros, hpower, digitChars_append, digitChars_zeros, digitsValue_behind]
  · -- the point is before the digits, with zeros between
    dsimp only
    generalize hgap : (-s.exponent).toNat - 1 = gap
    have hzeros : [0] ++ (List.replicate gap 0 ++ s.digits) =
        List.replicate (gap + 1) 0 ++ s.digits := rfl
    rw [hzeros, digitChars_append, digitChars_zeros, digitsValue_before, List.length_append,
      List.length_replicate]
    congr 2
    omega

end Scientific

end Decimal

/-! ## Reading the texts

Each of the three forms, spelled, positional and with a power of ten, is read as a literal whose
parts are the digits that it was made from. -/

namespace Decimal.Scientific

variable {s : Scientific}

theorem isDigit_lead (h : s.WellFormed) : s.lead.digitChar.isDigit = true :=
  isDigit_digitChars h.digits _ List.mem_cons_self

theorem isDigit_rest (h : s.WellFormed) : ∀ c ∈ digitChars s.rest, c.isDigit = true :=
  isDigit_digitChars fun d hd => h.digits d (List.mem_cons_of_mem _ hd)

/-- The digits behind the point when one has to stand there. -/
def fractionChars (s : Scientific) : List Char :=
  if s.rest.isEmpty then ['0'] else digitChars s.rest

/-- With a power of ten a number is written as one digit, a point, further digits or a zero, and the
power. -/
theorem exponential_printStyle (s : Scientific) : s.exponential Value.printStyle =
    [s.lead.digitChar] ++ '.' :: (s.fractionChars ++ 'E' :: intChars false s.exponent) := by
  unfold exponential fractionChars
  split <;> rfl

theorem fractionChars_ne_nil (s : Scientific) : s.fractionChars ≠ [] := by
  unfold fractionChars
  split
  · simp
  · next hrest => simpa [digitChars] using hrest

theorem isDigit_fraction (h : s.WellFormed) : ∀ c ∈ s.fractionChars, c.isDigit = true := by
  unfold fractionChars
  split
  · exact List.forall_mem_singleton.mpr (by decide)
  · exact isDigit_rest h

/-- The spelled form is read back. A single digit has no point behind it, which makes two cases. -/
theorem literal?_spelled (h : s.WellFormed) :
    Token.literal? s.spelled = some ⟨[s.lead.digitChar], digitChars s.rest, s.exponent⟩ := by
  have hlead : ∀ c ∈ [s.lead.digitChar], c.isDigit = true := by simpa using isDigit_lead h
  have hpower := Token.exponent?_intChars (.inl rfl : 'e' = 'e' ∨ 'e' = 'E') s.exponent
  cases hrest : s.rest with
  | nil =>
    have hread := Token.literal?_whole hlead (List.cons_ne_nil _ _) (.inl rfl) hpower
    simpa [spelled, exponential, hrest, digitChars] using hread
  | cons d ds =>
    have hread := Token.literal?_point hlead (List.cons_ne_nil _ _) (isDigit_rest h)
      (by rintro c ⟨⟩; decide) hpower
    simpa [spelled, exponential, hrest] using hread

theorem spelled_value (h : s.WellFormed) :
    (Literal.mk [s.lead.digitChar] (digitChars s.rest) s.exponent).value = s.value := by
  rw [value_eq h, Literal.value]
  dsimp only
  rw [length_digitChars]
  rfl

theorem literal?_plain (h : s.WellFormed) :
    Token.literal? s.plain =
      some ⟨digitChars s.positional.1, digitChars s.positional.2, 0⟩ := by
  obtain ⟨hnonempty, hwhole, hfraction⟩ := positional_digits h.digits
  have hread := Token.literal?_point (isDigit_digitChars hwhole)
    (by simpa [digitChars] using hnonempty) (isDigit_digitChars hfraction)
    (by rintro c ⟨⟩) (rfl : Token.exponent? [] = some 0)
  rw [List.append_nil] at hread
  exact hread

theorem literal?_exponential (h : s.WellFormed) :
    Token.literal? (s.exponential Value.printStyle) =
      some ⟨[s.lead.digitChar], s.fractionChars, s.exponent⟩ := by
  rw [exponential_printStyle]
  exact Token.literal?_point (by simpa using isDigit_lead h) (List.cons_ne_nil _ _)
    (isDigit_fraction h) (by rintro c ⟨⟩; decide) (Token.exponent?_intChars (.inr rfl) _)

/-- A zero behind the point stands for no digit, and does not change the value. -/
theorem fraction_value (h : s.WellFormed) :
    (Literal.mk [s.lead.digitChar] s.fractionChars s.exponent).value = s.value := by
  unfold fractionChars
  split
  · next hrest =>
    have hnil := List.isEmpty_iff.mp hrest
    have hbehind := digitsValue_behind [s.lead.digitChar] 1 s.exponent
    rw [value_eq h, Literal.value, digits, hnil]
    simpa [digitChars] using hbehind
  · exact spelled_value h

end Decimal.Scientific

namespace Token

variable {cs : List Char} {l : Literal}

theorem rational?_literal (h : literal? cs = some l) : rational? cs = some l.value := by
  rw [rational?, takeSign_of_literal? h, h]
  rfl

theorem rational?_minus (h : literal? cs = some l) : rational? ('-' :: cs) = some (-l.value) := by
  have hsign : takeSign ('-' :: cs) = (true, cs) := rfl
  rw [rational?, hsign, h]
  rfl

end Token

/-! ## The text of a number

The sign comes first, and what follows depends on the size of the number. -/

namespace Value

/-- The text of a finite number other than zero, without its sign. -/
def numberBody (f : Format) (bits : Nat) (s : Scientific) : List Char :=
  if printsPlain f bits then s.plain else s.exponential printStyle

variable {f : Format} {bits : Nat} {s : Scientific}

/-- The text of a number that is neither zero nor infinite nor a NaN. -/
theorem numberText_eq (hnan : f.isNaN bits = false) (hinfinite : f.isInfinite bits = false)
    (hzero : f.isZero bits = false) (s : Scientific) :
    (numberText f bits s).toList =
      (if f.isNegative bits then ['-'] else []) ++ numberBody f bits s := by
  simp only [numberText, hnan, hinfinite, hzero, Bool.false_eq_true, if_false]
  unfold numberBody
  split <;> exact String.toList_ofList

/-- Whichever form is chosen, the text is read as a literal with the value of the decimal number. -/
theorem literal?_numberBody (hs : s.WellFormed) :
    ∃ l, Token.literal? (numberBody f bits s) = some l ∧ l.value = s.value := by
  unfold numberBody
  split
  · exact ⟨_, Scientific.literal?_plain hs, Scientific.positional_value hs⟩
  · exact ⟨_, Scientific.literal?_exponential hs, Scientific.fraction_value hs⟩

/-- Digits on both sides of a point, and nothing else. -/
def IsPlain (cs : List Char) : Prop :=
  ∃ whole fraction, whole ≠ [] ∧ fraction ≠ [] ∧ (∀ c ∈ whole, c.isDigit = true) ∧
    (∀ c ∈ fraction, c.isDigit = true) ∧ cs = whole ++ '.' :: fraction

/-- One digit, a point, further digits, and a power of ten. -/
def HasPower (n : Int) (cs : List Char) : Prop :=
  ∃ lead fraction, lead.isDigit = true ∧ fraction ≠ [] ∧ (∀ c ∈ fraction, c.isDigit = true) ∧
    cs = lead :: '.' :: (fraction ++ 'E' :: Scientific.intChars false n)

theorem isPlain_plain (hs : s.WellFormed) : IsPlain s.plain := by
  obtain ⟨hnonempty, hwhole, hfraction⟩ := Scientific.positional_digits hs.digits
  refine ⟨_, _, ?_, ?_, Scientific.isDigit_digitChars hwhole,
    Scientific.isDigit_digitChars hfraction, rfl⟩
  · simpa [Scientific.digitChars] using hnonempty
  · simpa [Scientific.digitChars] using s.positional_fraction

theorem hasPower_exponential (hs : s.WellFormed) :
    HasPower s.exponent (s.exponential printStyle) :=
  ⟨_, _, Scientific.isDigit_lead hs, s.fractionChars_ne_nil, Scientific.isDigit_fraction hs,
    s.exponential_printStyle⟩

/-- The mark of the power of ten tells the two forms apart: it is neither a digit nor a point. -/
theorem IsPlain.not_hasPower {cs : List Char} (h : IsPlain cs) (n : Int) : ¬ HasPower n cs := by
  obtain ⟨whole, fraction, -, -, hwhole, hfraction, rfl⟩ := h
  rintro ⟨lead, digits, -, -, -, heq⟩
  have hmark : 'E' ∈ whole ++ '.' :: fraction := by
    rw [heq]
    simp
  rcases List.mem_append.mp hmark with hmem | hmem
  · exact absurd (hwhole _ hmem) (by decide)
  · rcases List.mem_cons.mp hmem with hpoint | hmem
    · exact absurd hpoint (by decide)
    · exact absurd (hfraction _ hmem) (by decide)

/-- The form of the text says which way the decision went, in both directions. -/
theorem numberBody_form (hs : s.WellFormed) :
    (IsPlain (numberBody f bits s) ↔ printsPlain f bits = true) ∧
      (HasPower s.exponent (numberBody f bits s) ↔ ¬ printsPlain f bits = true) := by
  unfold numberBody
  by_cases hplain : printsPlain f bits = true
  · have hform := isPlain_plain hs
    rw [if_pos hplain]
    exact ⟨iff_of_true hform hplain,
      iff_of_false (hform.not_hasPower _) (not_not_intro hplain)⟩
  · have hform := hasPower_exponential hs
    rw [if_neg hplain]
    exact ⟨iff_of_false (fun h => h.not_hasPower _ hform) hplain, iff_of_true hform hplain⟩

/-- The decision is made on units and says what it means to say about the absolute value: at least a
thousandth, and less than ten million. -/
theorem printsPlain_iff (f : Format) (bits : Nat) :
    printsPlain f bits = true ↔ 1 / 1000 ≤ f.absolute bits ∧ f.absolute bits < 10 ^ 7 := by
  have hunit : (0 : ℚ) < 2 ^ f.scale := by positivity
  have hlow : 2 ^ f.scale ≤ f.units bits * 1000 ↔ 1 / 1000 ≤ f.absolute bits := by
    rw [Format.absolute, le_div_iff₀ hunit, div_mul_eq_mul_div, one_mul,
      div_le_iff₀ (by norm_num)]
    exact_mod_cast Iff.rfl
  have hhigh : f.units bits < 10000000 * 2 ^ f.scale ↔ f.absolute bits < 10 ^ 7 := by
    rw [Format.absolute, div_lt_iff₀ hunit]
    norm_num
    exact_mod_cast Iff.rfl
  rw [printsPlain, Bool.and_eq_true, decide_eq_true_iff, decide_eq_true_iff, Nat.one_shiftLeft,
    Nat.shiftLeft_eq, hlow, hhigh]

/-! ## The text cut out of the spelled form

The second way to the same text. Its steps can fail: a part that is cut out has to be there, a
difference must not be negative, and a number must have room in a word of 32 bits. Each such step
gives an option, and the theorem says that there is always a result. -/

/-- The first characters of a text, if there are as many. -/
def front? (n : Nat) (cs : List Char) : Option (List Char) :=
  if n ≤ cs.length then some (cs.take n) else none

/-- What stands behind the first characters, if there are as many. -/
def behind? (n : Nat) (cs : List Char) : Option (List Char) :=
  if n ≤ cs.length then some (cs.drop n) else none

/-- A difference of natural numbers, if it is one. -/
def minus? (n k : Nat) : Option Nat := if k ≤ n then some (n - k) else none

/-- A number that has room in 32 bits. -/
def word? (n : Int) : Option Int :=
  if -2147483648 ≤ n ∧ n ≤ 2147483647 then some n else none

/-- Digits with the point among them, before them or behind them. -/
def cutPlain? (digits : List Char) (exponent : Int) : Option (List Char) :=
  if 0 ≤ exponent then
    let point := exponent.toNat + 1
    if point < digits.length then do
      let whole ← front? point digits
      let fraction ← behind? point digits
      some (whole ++ '.' :: fraction)
    else do
      let gap ← minus? point digits.length
      some (digits ++ List.replicate gap '0' ++ ['.', '0'])
  else do
    let opposite ← word? (-exponent)
    let gap ← minus? opposite.toNat 1
    some ('0' :: '.' :: (List.replicate gap '0' ++ digits))

/-- The first digit, the others behind the point, and the power of ten. -/
def cutPower? (digits : List Char) (exponent : Int) : Option (List Char) := do
  let fraction ← (if 1 < digits.length then behind? 1 digits else some ['0'])
  let lead ← front? 1 digits
  some (lead ++ '.' :: (fraction ++ 'E' :: Scientific.intChars false exponent))

/-- The text of a number without its sign, made from the spelled form of its decimal. There is none
if a part is cut out that is not there, a difference would be negative, or a number has no room. -/
def cutBody? (f : Format) (bits : Nat) (spelled : List Char) : Option (List Char) := do
  let digits := (spelled.span (· != 'e')).1.filter (· != '.')
  let exponent ← (Token.integer? (spelled.span (· != 'e')).2.tail).bind word?
  if printsPlain f bits then cutPlain? digits exponent else cutPower? digits exponent

/-- Every cut is in range when the point goes among, behind or before the digits. -/
theorem cutPlain?_digits (hlow : -400 ≤ s.exponent) :
    cutPlain? (Scientific.digitChars s.digits) s.exponent = some s.plain := by
  unfold cutPlain? Scientific.plain Scientific.positional
  simp only [Scientific.length_digitChars]
  split
  · split
    · next hpoint =>
      have hle : s.exponent.toNat + 1 ≤ (Scientific.digitChars s.digits).length := by
        rw [Scientific.length_digitChars]
        omega
      rw [front?, behind?, if_pos hle, if_pos hle]
      simp only [Scientific.digitChars, List.map_take, List.map_drop]
      rfl
    · next hpoint =>
      rw [minus?, if_pos (Nat.le_of_not_lt hpoint)]
      simp only [Scientific.digitChars_append, Scientific.digitChars_zeros]
      rfl
  · next hexponent =>
    have hword : word? (-s.exponent) = some (-s.exponent) := if_pos (by omega)
    have hpositive : 1 ≤ (-s.exponent).toNat := by omega
    rw [hword, Option.bind_eq_bind, Option.bind_some, minus?, if_pos hpositive]
    simp only [Scientific.digitChars_append, Scientific.digitChars_zeros]
    rfl

/-- With a power of ten the first digit is cut off. It is there, since a decimal number has one. -/
theorem cutPower?_digits (s : Scientific) :
    cutPower? (Scientific.digitChars s.digits) s.exponent = some (s.exponential printStyle) := by
  obtain ⟨lead, rest, exponent⟩ := s
  cases rest with
  | nil => rfl
  | cons d ds => rfl

/-- The spelled form as what stands before the mark and what stands behind it. -/
theorem spelled_eq (s : Scientific) : s.spelled =
    (s.lead.digitChar :: pointText (Scientific.digitChars s.rest)) ++
      'e' :: Scientific.intChars false s.exponent := by
  unfold Scientific.spelled Scientific.exponential pointText
  cases s.rest with
  | nil => rfl
  | cons d ds => rfl

theorem bne_of_isDigit {c mark : Char} (hc : c.isDigit = true) (hmark : mark.isDigit = false) :
    (c != mark) = true := by
  rw [bne_iff_ne]
  rintro rfl
  rw [hc] at hmark
  cases hmark

/-- Before the mark of the power of ten stand the digits and perhaps a point. -/
theorem spelled_span (hs : s.WellFormed) :
    s.spelled.span (· != 'e') =
      (s.lead.digitChar :: pointText (Scientific.digitChars s.rest),
        'e' :: Scientific.intChars false s.exponent) := by
  rw [spelled_eq]
  apply span_append
  · intro c hc
    rcases List.mem_cons.mp hc with rfl | hc
    · exact bne_of_isDigit (Scientific.isDigit_lead hs) (by decide)
    · unfold pointText at hc
      split at hc
      · cases hc
      · rcases List.mem_cons.mp hc with rfl | hc
        · decide
        · exact bne_of_isDigit (Scientific.isDigit_rest hs c hc) (by decide)
  · rintro c ⟨⟩
    decide

theorem spelled_digits (hs : s.WellFormed) :
    (s.lead.digitChar :: pointText (Scientific.digitChars s.rest)).filter (· != '.') =
      Scientific.digitChars s.digits := by
  have hrest : (pointText (Scientific.digitChars s.rest)).filter (· != '.') =
      Scientific.digitChars s.rest := by
    have hkept : (Scientific.digitChars s.rest).filter (· != '.') = Scientific.digitChars s.rest :=
      List.filter_eq_self.mpr fun c hc =>
        bne_of_isDigit (Scientific.isDigit_rest hs c hc) (by decide)
    unfold pointText
    split
    · next hempty =>
      rw [List.isEmpty_iff.mp hempty]
      rfl
    · exact hkept
  have hlead : (s.lead.digitChar != '.') = true :=
    bne_of_isDigit (Scientific.isDigit_lead hs) (by decide)
  rw [List.filter_cons, if_pos hlead, hrest]
  rfl

/-- Nothing is out of range when the text is cut out of the spelled form, and it is the same
text. -/
theorem cutBody?_spelled (hs : s.WellFormed) (hlow : -400 ≤ s.exponent) (hhigh : s.exponent ≤ 400)
    (f : Format) (bits : Nat) : cutBody? f bits s.spelled = some (numberBody f bits s) := by
  have hword : word? s.exponent = some s.exponent := if_pos (by omega)
  unfold cutBody? numberBody
  rw [spelled_span hs]
  dsimp only
  rw [spelled_digits hs, List.tail_cons, Token.integer?_intChars, Option.bind_some, hword,
    Option.bind_eq_bind, Option.bind_some]
  split
  · exact cutPlain?_digits hlow
  · exact cutPower?_digits s

end Value

/-- **The text of a number is exact.** The text of a finite number other than zero denotes the
decimal number that it was made from, with the sign of the binary number, and nothing is out of
range when it is made. The text is in positional form if the absolute value is at least a thousandth
and less than ten million, and has a power of ten otherwise. -/
theorem printed_number_exact (f : Format) (bits : Nat) (s : Scientific) (hs : s.WellFormed)
    (hlow : -400 ≤ s.exponent) (hhigh : s.exponent ≤ 400) (hnan : f.isNaN bits = false)
    (hinfinite : f.isInfinite bits = false) (hzero : f.isZero bits = false) :
    Token.rational? s.spelled = some s.value ∧ 0 < s.value ∧
    Token.rational? (Value.numberText f bits s).toList =
      some (if f.isNegative bits then -s.value else s.value) ∧
    ∃ body, Value.cutBody? f bits s.spelled = some body ∧
      (Value.numberText f bits s).toList = (if f.isNegative bits then ['-'] else []) ++ body ∧
      (Value.IsPlain body ↔ 1 / 1000 ≤ f.absolute bits ∧ f.absolute bits < 10 ^ 7) ∧
      (Value.HasPower s.exponent body ↔
        ¬ (1 / 1000 ≤ f.absolute bits ∧ f.absolute bits < 10 ^ 7)) := by
  have htext := Value.numberText_eq hnan hinfinite hzero s
  refine ⟨?_, Scientific.value_pos hs, ?_, _, Value.cutBody?_spelled hs hlow hhigh f bits, htext,
    ?_⟩
  · rw [Token.rational?_literal (Scientific.literal?_spelled hs), Scientific.spelled_value hs]
  · obtain ⟨l, hread, hvalue⟩ := @Value.literal?_numberBody f bits s hs
    rw [htext, ← hvalue]
    split
    · exact Token.rational?_minus hread
    · exact Token.rational?_literal hread
  · rw [← Value.printsPlain_iff]
    exact Value.numberBody_form hs

/-- A number whose positional form needs a zero behind its digits. -/
def thousands : Scientific := { lead := 1, rest := [2, 5], exponent := 3 }

/-- The digits of the number end before the point. A zero fills the gap, and another one stands
behind the point. -/
theorem printed_number_exact_thousands :
    thousands.WellFormed ∧ thousands.spelled = "1.25e3".toList ∧ thousands.value = 1250 ∧
    Value.numberText .double 0xC093880000000000 thousands = "-1250.0" ∧
    Token.rational? "-1250.0".toList = some (-1250) ∧
    ∃ body, Value.cutBody? .double 0xC093880000000000 "1.25e3".toList = some body ∧
      "-1250.0".toList = '-' :: body ∧ Value.IsPlain body := by
  have hs : thousands.WellFormed := ⟨by decide, by decide⟩
  have hspelled : thousands.spelled = "1.25e3".toList := by decide
  have hvalue : thousands.value = 1250 := by
    norm_num [Scientific.value, Scientific.pointed, Scientific.digits, thousands]
  have htext : Value.numberText .double 0xC093880000000000 thousands = "-1250.0" := by
    decide +kernel
  have hnegative : Format.double.isNegative 0xC093880000000000 = true := by decide +kernel
  have hplain : Value.printsPlain .double 0xC093880000000000 = true := by decide +kernel
  obtain ⟨-, -, hread, body, hcut, hbody, hform, -⟩ :=
    printed_number_exact .double 0xC093880000000000 thousands hs (by decide) (by decide)
      (by decide +kernel) (by decide +kernel) (by decide +kernel)
  rw [htext, hnegative, if_pos rfl, hvalue] at hread
  rw [htext, hnegative, if_pos rfl] at hbody
  rw [hspelled] at hcut
  exact ⟨hs, hspelled, hvalue, htext, hread, body, hcut, hbody,
    hform.mpr ((Value.printsPlain_iff _ _).mp hplain)⟩

end TypedStack
