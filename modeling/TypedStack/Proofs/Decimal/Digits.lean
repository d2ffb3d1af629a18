import Mathlib.Tactic.Ring
import TypedStack.Decimal.Literal
import TypedStack.Decimal.Shortest
import TypedStack.Proofs.Inversion
/-!
# Runs of decimal digits

A run of digits ends where something else stands (`takeDigits_append`), and two runs in a row have
the value of the first, moved up by the length of the second, and that of the second
(`digitsValue_append`). The digits of a decimal number in scientific form are decimal ones, and they
stay so wherever the point goes (`Scientific.positional_digits`).

Three parts of the library read and write digits: the texts of the interchange format, the words of
the input of a program, and the numbers that it prints. What they share is here, and it knows
nothing of what the digits are used for.
-/

set_option autoImplicit false

namespace TypedStack.Decimal

/-! ## Taking digits -/

/-- Digits are taken up to what follows them, which must not begin with a digit. -/
theorem takeDigits_append {digits rest : List Char} (hdigits : ∀ c ∈ digits, c.isDigit = true)
    (hrest : ∀ c, rest.head? = some c → c.isDigit = false) :
    takeDigits (digits ++ rest) = (digits, rest) :=
  span_append hdigits hrest

/-- The point and the digits behind it. Without digits there is no point either. -/
def pointText (fraction : List Char) : List Char :=
  if fraction.isEmpty then [] else '.' :: fraction

/-- Neither a point nor what stands in its place carries on the digits before it. -/
theorem head?_pointText {fraction rest : List Char}
    (h : ∀ c, rest.head? = some c → c.isDigit = false) {c : Char}
    (hc : (pointText fraction ++ rest).head? = some c) : c.isDigit = false := by
  unfold pointText at hc
  split at hc
  · exact h c hc
  · cases hc
    decide

/-! ## Values of digits

The value of a run is the library's own reading of digit characters, with nothing before them. -/

/-- Two runs in a row: the first is worth more by a factor of ten for each digit of the second. -/
theorem digitsValue_append (cs ds : List Char) :
    digitsValue (cs ++ ds) = digitsValue cs * 10 ^ ds.length + digitsValue ds := by
  unfold digitsValue
  rw [Nat.ofDigitChars_append, Nat.ofDigitChars_eq_ofDigitChars_zero, Nat.mul_comm]

/-- Zeros are worth nothing, which is why they can fill a gap before the digits of a number. -/
theorem digitsValue_zeros (k : Nat) : digitsValue (List.replicate k '0') = 0 := by
  rw [digitsValue, Nat.ofDigitChars_replicate_zero, Nat.mul_zero]

theorem digitsValue_before (k : Nat) (cs : List Char) :
    digitsValue (List.replicate k '0' ++ cs) = digitsValue cs := by
  rw [digitsValue_append, digitsValue_zeros, Nat.zero_mul, Nat.zero_add]

theorem digitsValue_digitChar {d : Nat} (h : d < 10) : digitsValue [d.digitChar] = d := by
  have hall : ∀ k : Fin 10, digitsValue [k.val.digitChar] = k.val := by decide
  exact hall ⟨d, h⟩

/-- A positive number is written without a zero in front. The digits before the last are those of a
tenth of the number, and by induction these do not begin with a zero unless there are none. -/
theorem head?_toDigits {n : Nat} (h : 0 < n) : (Nat.toDigits 10 n).head? ≠ some '0' := by
  induction n using Nat.strongRecOn with
  | ind n ih =>
    by_cases hlt : n < 10
    · rw [Nat.toDigits_of_lt_base hlt]
      have hdigit : ∀ k : Fin 10, 0 < k.val → k.val.digitChar ≠ '0' := by decide
      simpa using hdigit ⟨n, hlt⟩ h
    · rw [Nat.toDigits_of_base_le (by decide) (Nat.le_of_not_lt hlt), List.head?_append]
      have hmore := ih (n / 10) (by omega) (by omega)
      cases hhead : (Nat.toDigits 10 (n / 10)).head? with
      | none => simp at hhead
      | some c =>
        rw [hhead] at hmore
        simpa using hmore

/-! ## Digits of decimal numbers

A decimal number in scientific form keeps its digits as numbers below ten, and they are made
characters only when it is written. -/

namespace Scientific

theorem digitChars_append (ds ds' : List Nat) :
    digitChars (ds ++ ds') = digitChars ds ++ digitChars ds' :=
  List.map_append

theorem digitChars_zeros (k : Nat) : digitChars (List.replicate k 0) = List.replicate k '0' := by
  rw [digitChars, List.map_replicate]
  rfl

theorem length_digitChars (ds : List Nat) : (digitChars ds).length = ds.length :=
  List.length_map _

/-- Numbers below ten are written as digits. -/
theorem isDigit_digitChars {ds : List Nat} (h : ∀ d ∈ ds, d < 10) :
    ∀ c ∈ digitChars ds, c.isDigit = true := by
  intro c hc
  obtain ⟨d, hd, rfl⟩ := List.mem_map.mp hc
  have hchar : ∀ k : Fin 10, k.val.digitChar.isDigit = true := by decide
  exact hchar ⟨d, h d hd⟩

/-- The digits that are found for a coefficient are decimal ones. They are those that the
coefficient is written with, without the zeros at the end, and if nothing is left then a single
zero. -/
theorem normal_digits (c : Nat) (x : Int) : ∀ d ∈ (Shortest.normal c x).digits, d < 10 := by
  simp only [Shortest.normal, Scientific.digits]
  generalize hds : (Nat.toDigits 10 c).map (fun ch => ch.toNat - '0'.toNat) = ds
  have hall : ∀ d ∈ ds, d < 10 := by
    intro d hd
    rw [← hds, List.mem_map] at hd
    obtain ⟨c, hc, rfl⟩ := hd
    have hdigit := Nat.isDigit_of_mem_toDigits (by decide) (by decide) hc
    rw [Char.isDigit_iff_toNat] at hdigit
    have : '0'.toNat = 48 := rfl
    have : '9'.toNat = 57 := rfl
    omega
  have hkept : ∀ d ∈ (ds.reverse.dropWhile (· == 0)).reverse, d < 10 := by
    intro d hd
    apply hall d
    simpa using (List.dropWhile_sublist _).subset (List.mem_reverse.mp hd)
  intro d hd
  generalize (ds.reverse.dropWhile (· == 0)).reverse = kept at hd hkept
  cases kept with
  | nil =>
    have hzero : d = 0 := by simpa using hd
    simp [hzero]
  | cons lead rest => exact hkept d hd

/-- The digits that are found for a number are decimal ones, with one at least before the point.
Positional form only cuts them in two and fills up with zeros. -/
theorem positional_digits {s : Scientific} (h : ∀ d ∈ s.digits, d < 10) :
    s.positional.1 ≠ [] ∧ (∀ d ∈ s.positional.1, d < 10) ∧ ∀ d ∈ s.positional.2, d < 10 := by
  have hzeros : ∀ k : Nat, ∀ d ∈ List.replicate k 0, d < 10 := by
    intro k d hd
    rw [List.eq_of_mem_replicate hd]
    decide
  unfold positional
  split
  · dsimp only
    split
    · refine ⟨by simp [digits], ?_, ?_⟩
      · intro d hd
        exact h d (List.mem_of_mem_take hd)
      · intro d hd
        exact h d (List.mem_of_mem_drop hd)
    · refine ⟨by simp [digits], ?_, by simp⟩
      intro d hd
      exact (List.mem_append.mp hd).elim (h d) (hzeros _ d)
  · refine ⟨by simp, by simp, ?_⟩
    intro d hd
    exact (List.mem_append.mp hd).elim (hzeros _ d) (h d)

end Scientific

end TypedStack.Decimal
