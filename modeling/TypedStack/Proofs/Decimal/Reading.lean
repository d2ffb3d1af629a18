import TypedStack.Machine.Token
import TypedStack.Proofs.Decimal.Digits
/-!
# Reading decimal texts

What a word of the input is read as when it is spelled as numbers are: a sign before digits, digits
on both sides of a point, a power of ten behind them. The digits of an integer are read back as the
integer (`integer?_intChars`), and a literal is read off its parts (`literal?_point`).

The statements take the parts of a spelling as they are and say what the whole is read as. So they
serve for every way of putting a number on paper, and the proofs about printing only have to show
that what is printed has such parts.
-/

set_option autoImplicit false

namespace TypedStack.Token

open Decimal

/-! ## Integers

A sign is taken off first, and what is left has to consist of digits. -/

/-- A word that begins with a digit has no sign, and nothing is taken off it. -/
theorem takeSign_unsigned {cs : List Char} (h : ∀ c, cs.head? = some c → c.isDigit = true) :
    takeSign cs = (false, cs) := by
  unfold takeSign
  split
  · exact absurd (h _ rfl) (by decide)
  · exact absurd (h _ rfl) (by decide)
  · rfl

/-- Digits are read as the number they are, with the sign in front of them. -/
theorem integer?_of_takeSign {cs digits : List Char} {negative : Bool}
    (hsign : takeSign cs = (negative, digits)) (hnonempty : digits ≠ [])
    (hdigits : ∀ c ∈ digits, c.isDigit = true) :
    integer? cs = some (if negative then -(digitsValue digits : Int) else digitsValue digits) := by
  have hrefused : ¬ (digits.isEmpty || !digits.all Char.isDigit) = true := by
    simpa [hnonempty] using hdigits
  unfold integer?
  rw [hsign]
  exact if_neg hrefused

/-- The text of an integer is read back as the integer. A minus is the only sign that is written,
and it is read as the sign of the digits behind it. -/
theorem integer?_intChars (n : Int) : integer? (Scientific.intChars false n) = some n := by
  have hdigits : ∀ c ∈ Nat.toDigits 10 n.natAbs, c.isDigit = true :=
    fun c hc => Nat.isDigit_of_mem_toDigits (by decide) (by decide) hc
  unfold Scientific.intChars
  by_cases hneg : n < 0
  · have hvalue : -(n.natAbs : Int) = n := by omega
    have hsign :
        takeSign ('-' :: Nat.toDigits 10 n.natAbs) = (true, Nat.toDigits 10 n.natAbs) := rfl
    rw [if_pos hneg, integer?_of_takeSign hsign Nat.toDigits_ne_nil hdigits,
      digitsValue, Nat.ofDigitChars_ten_toDigits, if_pos rfl, hvalue]
  · have hvalue : (n.natAbs : Int) = n := by omega
    have hsign := takeSign_unsigned fun c hc => hdigits c (List.mem_of_mem_head? hc)
    rw [if_neg hneg]
    simp only [Bool.false_eq_true, if_false]
    rw [integer?_of_takeSign hsign Nat.toDigits_ne_nil hdigits, digitsValue,
      Nat.ofDigitChars_ten_toDigits, if_neg (by decide), hvalue]

/-! ## Literals

A literal keeps its digits as they are written; it is rounded later, and not here. -/

/-- A power of ten is read back, whichever of the two marks stands before it. -/
theorem exponent?_intChars {mark : Char} (hmark : mark = 'e' ∨ mark = 'E') (n : Int) :
    exponent? (mark :: Scientific.intChars false n) = some n := by
  rw [exponent?, if_pos hmark, integer?_intChars]

/-- Digits on both sides of a point, and a power of ten behind them. -/
theorem literal?_point {whole fraction rest : List Char} {n : Int}
    (hwhole : ∀ c ∈ whole, c.isDigit = true) (hnonempty : whole ≠ [])
    (hfraction : ∀ c ∈ fraction, c.isDigit = true)
    (hrest : ∀ c, rest.head? = some c → c.isDigit = false) (hpower : exponent? rest = some n) :
    literal? (whole ++ '.' :: (fraction ++ rest)) = some ⟨whole, fraction, n⟩ := by
  have hbefore : takeDigits (whole ++ '.' :: (fraction ++ rest)) =
      (whole, '.' :: (fraction ++ rest)) :=
    takeDigits_append hwhole (by rintro c ⟨⟩; decide)
  have hbehind := takeDigits_append hfraction hrest
  simp [literal?, hbefore, hbehind, hnonempty, hpower]

/-- Digits without a point, and a power of ten behind them. -/
theorem literal?_whole {whole rest : List Char} {mark : Char} {n : Int}
    (hwhole : ∀ c ∈ whole, c.isDigit = true) (hnonempty : whole ≠ [])
    (hmark : mark = 'e' ∨ mark = 'E') (hpower : exponent? (mark :: rest) = some n) :
    literal? (whole ++ mark :: rest) = some ⟨whole, [], n⟩ := by
  have hbefore : takeDigits (whole ++ mark :: rest) = (whole, mark :: rest) := by
    apply takeDigits_append hwhole
    rintro c ⟨⟩
    rcases hmark with rfl | rfl <;> decide
  rcases hmark with rfl | rfl <;> simp [literal?, hbefore, hnonempty, hpower]

/-- A literal does not begin with a sign. -/
theorem takeSign_of_literal? {cs : List Char} {l : Literal} (h : literal? cs = some l) :
    takeSign cs = (false, cs) := by
  unfold takeSign
  split
  · simp [literal?, takeDigits, List.span_eq_takeWhile_dropWhile] at h
  · simp [literal?, takeDigits, List.span_eq_takeWhile_dropWhile] at h
  · rfl

end TypedStack.Token
