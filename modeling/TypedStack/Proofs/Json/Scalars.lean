import TypedStack.Json.Printer
import TypedStack.Json.Token
import TypedStack.Proofs.Decimal.Digits
/-!
# Reading back what is printed for a string or a number

The scanner takes a string up to its closing quote, so whatever follows is left alone. A number has
no end of its own: it is read back in front of a text that does not carry it on (`Stops`), as a line
end or a comma.

Both facts are stated with the rest of the text behind the value, since the scanner always has a
rest and gives it back. `scanScalar_render` is what they come to: the first character of a value
without parts says which of the scanners is at work, and that one stops where the value ends.
-/

set_option autoImplicit false

namespace TypedStack.Json

open Decimal

/-! ## Strings

Three kinds of characters are printed in three ways. Some have an escape of their own, the other
control characters are written by their number, and the rest stand for themselves. -/

/-- A control character is written with two digits behind two zeros. There are few enough of them to
go through them all. -/
theorem hexDigits_control {n : Nat} (h : n < 0x20) :
    Text.hexDigits 4 n = ['0', '0', (n / 16).digitChar, (n % 16).digitChar] ∧
      hexUnit? '0' '0' (n / 16).digitChar (n % 16).digitChar = some n := by
  have hall : ∀ k : Fin 0x20,
      Text.hexDigits 4 k = ['0', '0', (k.val / 16).digitChar, (k.val % 16).digitChar] ∧
        hexUnit? '0' '0' (k.val / 16).digitChar (k.val % 16).digitChar = some k.val := by decide
  exact hall ⟨n, h⟩

/-- Four digits behind `\u` are read as a unit of the encoding, and the text goes on behind them. -/
theorem scanText_unit (t : PartialText) (a b c d : Char) (rest : List Char) :
    scanText t ('\\' :: 'u' :: a :: b :: c :: d :: rest) =
      (hexUnit? a b c d).bind fun u => scanText (t.addUnit u) rest := by
  simp [scanText]

theorem scanText_plain (t : PartialText) {c : Char} (hquote : c ≠ '"') (hescape : c ≠ '\\')
    (hplain : ¬ c.toNat < 0x20) (rest : List Char) :
    scanText t (c :: rest) = scanText (t.add c) rest := by
  conv_lhs => unfold scanText
  simp [hquote, hescape, hplain]

/-- A character is scanned as it was before it was escaped. -/
theorem scanText_escape (t : PartialText) (c : Char) (rest : List Char) :
    scanText t (escape c ++ rest) = scanText (t.add c) rest := by
  unfold escape
  split
  case h_8 hquote hescape _ _ _ _ _ =>
    split
    case isTrue hcontrol =>
      -- A control character is no half of a surrogate pair, and so is added as it is.
      obtain ⟨hdigits, hunit⟩ := hexDigits_control hcontrol
      have hadd : t.addUnit c.toNat = t.add c := by
        unfold PartialText.addUnit
        rw [if_neg (by omega), if_neg (by omega), Char.ofNat_toNat]
      rw [hdigits]
      simp only [List.cons_append, List.nil_append, scanText_unit, hunit, Option.bind_some, hadd]
    case isFalse hplain => exact scanText_plain t hquote hescape hplain rest
  all_goals
    simp [scanText, simpleEscape?]

/-- A string is scanned up to its end, by induction on its characters. What has been read before is
kept in reverse, hence the reversal in the result. -/
theorem scanText_quoted (cs : List Char) (rest : List Char) (sofar : List Char) :
    scanText { chars := sofar } (cs.flatMap escape ++ '"' :: rest) =
      some (.text (String.ofList (sofar.reverse ++ cs)), rest) := by
  induction cs generalizing sofar with
  | nil =>
    unfold scanText
    simp [PartialText.finish]
  | cons c cs ih =>
    rw [List.flatMap_cons, List.append_assoc, scanText_escape]
    have hadd : PartialText.add { chars := sofar } c = { chars := c :: sofar } := rfl
    rw [hadd, ih]
    simp

theorem scanScalar_quote (s : String) (rest : List Char) :
    scanScalar '"' (s.toList.flatMap escape ++ '"' :: rest) = some (.text s, rest) := by
  show scanText {} _ = _
  rw [scanText_quoted]
  simp

/-! ## Numbers

The three parts of a number are scanned one after another. The first two may be cut short by what
follows, so that each needs to know what the next can begin with. -/

/-- A text that does not carry on a number in front of it. -/
def Stops (rest : List Char) : Prop :=
  ∀ c, rest.head? = some c → c.isDigit = false ∧ c ≠ '.' ∧ c ≠ 'e' ∧ c ≠ 'E'

namespace Number

/-- A number that is spelled as numbers are: its digits are digits, and no zero stands before other
digits. -/
structure Spelled (n : Number) : Prop where
  nonempty : n.whole ≠ []
  whole : ∀ c ∈ n.whole, c.isDigit = true
  lead : n.whole.head? = some '0' → n.whole.length = 1
  fraction : ∀ c ∈ n.fraction, c.isDigit = true

/-- The power of ten with its mark, where there is one. -/
def powerText : Option Int → List Char
  | none => []
  | some e => 'e' :: Scientific.intChars true e

theorem render_eq (n : Number) : n.render =
    (if n.negative then ['-'] else []) ++
      (n.whole ++ (pointText n.fraction ++ powerText n.exponent)) := by
  unfold render pointText
  simp only [List.append_assoc]
  cases n.exponent <;> rfl

end Number

/-- The power of ten is read back with its sign, and nothing is read where none was printed. -/
theorem scanExponent_powerText (e : Option Int) {rest : List Char} (h : Stops rest) :
    scanExponent (Number.powerText e ++ rest) = some (e, rest) := by
  cases e with
  | none =>
    cases rest with
    | nil => rfl
    | cons c rest =>
      obtain ⟨-, -, hsmall, hlarge⟩ := h c rfl
      simp [Number.powerText, scanExponent, hsmall, hlarge]
  | some e =>
    have hdigits : takeDigits (Nat.toDigits 10 e.natAbs ++ rest) =
        (Nat.toDigits 10 e.natAbs, rest) :=
      takeDigits_append (fun c hc => Nat.isDigit_of_mem_toDigits (by decide) (by decide) hc)
        fun c hc => (h c hc).1
    have hnonempty : (Nat.toDigits 10 e.natAbs).isEmpty = false := by simp
    by_cases hneg : e < 0
    · have hvalue : -(e.natAbs : Int) = e := by omega
      simp only [scanExponent, Number.powerText, Scientific.intChars, hneg, if_true, if_false,
        List.cons_append, Char.reduceEq, or_false, hdigits, hnonempty, Bool.false_eq_true,
        digitsValue, Nat.ofDigitChars_ten_toDigits, hvalue]
    · have hvalue : (e.natAbs : Int) = e := by omega
      simp only [scanExponent, Number.powerText, Scientific.intChars, hneg, if_true, if_false,
        List.cons_append, Char.reduceEq, or_false, hdigits, hnonempty, Bool.false_eq_true,
        digitsValue, Nat.ofDigitChars_ten_toDigits, hvalue]

/-- The digits behind the point are read back, and nothing is read where there is no point. -/
theorem scanFraction_pointText {fraction rest : List Char}
    (hfraction : ∀ c ∈ fraction, c.isDigit = true)
    (hrest : ∀ c, rest.head? = some c → c.isDigit = false ∧ c ≠ '.') :
    scanFraction (pointText fraction ++ rest) = some (fraction, rest) := by
  cases hempty : fraction.isEmpty with
  | true =>
    obtain rfl := List.isEmpty_iff.mp hempty
    simp only [pointText, List.isEmpty_nil, if_true, List.nil_append]
    unfold scanFraction
    split
    · next rest => exact absurd rfl (hrest '.' rfl).2
    · rfl
  | false =>
    have hdigits : takeDigits (fraction ++ rest) = (fraction, rest) :=
      takeDigits_append hfraction fun c hc => (hrest c hc).1
    simp [pointText, hempty, scanFraction, hdigits]

/-- Neither the mark of a power of ten nor what stands in its place is taken for a further digit or
a point. -/
theorem head?_powerText {e : Option Int} {rest : List Char} (h : Stops rest) {c : Char}
    (hc : (Number.powerText e ++ rest).head? = some c) : c.isDigit = false ∧ c ≠ '.' := by
  cases e with
  | none => exact ⟨(h c hc).1, (h c hc).2.1⟩
  | some e =>
    cases hc
    decide

/-- The digits before the point are taken up to the point, or up to what stands in its place. -/
theorem takeDigits_whole {n : Number} (hwhole : ∀ c ∈ n.whole, c.isDigit = true) {rest : List Char}
    (h : Stops rest) :
    takeDigits (n.whole ++ (pointText n.fraction ++ (Number.powerText n.exponent ++ rest))) =
      (n.whole, pointText n.fraction ++ (Number.powerText n.exponent ++ rest)) :=
  takeDigits_append hwhole fun _ hc => head?_pointText (fun _ hc => (head?_powerText h hc).1) hc

/-- A number that is spelled as numbers are is scanned up to its end. Nothing stands before its
digits that the scanner would refuse. -/
theorem scanNumber_spelled {n : Number} (hn : n.Spelled) {rest : List Char} (h : Stops rest) :
    scanNumber n.negative
      (n.whole ++ (pointText n.fraction ++ Number.powerText n.exponent) ++ rest) =
        some (.number n, rest) := by
  have hlead : (n.whole.isEmpty || (n.whole.head? == some '0' && 1 < n.whole.length)) = false := by
    simp only [Bool.or_eq_false_iff, List.isEmpty_eq_false_iff, Bool.and_eq_false_iff]
    refine ⟨hn.nonempty, ?_⟩
    by_cases hzero : n.whole.head? = some '0'
    · right
      simp [hn.lead hzero]
    · left
      simpa using hzero
  simp only [List.append_assoc, scanNumber, takeDigits_whole hn.whole h, hlead, Bool.false_eq_true,
    if_false, scanFraction_pointText hn.fraction (fun c hc => head?_powerText h hc),
    scanExponent_powerText n.exponent h, Option.bind_eq_bind, Option.bind_some]

/-- A zero before other digits is refused, whatever comes behind them. -/
theorem scanNumber_zero {n : Number} (hwhole : ∀ c ∈ n.whole, c.isDigit = true)
    (hzero : n.whole.head? = some '0') (hmore : n.whole.length ≠ 1) {rest : List Char}
    (h : Stops rest) :
    scanNumber n.negative
      (n.whole ++ (pointText n.fraction ++ Number.powerText n.exponent) ++ rest) = none := by
  have hlength : 1 < n.whole.length := by
    cases hcs : n.whole with
    | nil => simp [hcs] at hzero
    | cons c cs =>
      rw [hcs, List.length_cons] at hmore
      rw [List.length_cons]
      omega
  simp [List.append_assoc, scanNumber, takeDigits_whole hwhole h, hzero, hlength]

/-! ## All values without parts -/

/-- A value without parts is no string that stands for no text, and a number has a property. -/
def Scalar.Plain (P : Number → Prop) : Scalar → Prop
  | .number n => P n
  | .broken => False
  | _ => True

/-- The tokens of a single character. -/
def punctuation? : Char → Option Token
  | '[' => some .beginArray
  | ']' => some .endArray
  | '\x7b' => some .beginObject
  | '\x7d' => some .endObject
  | ',' => some .comma
  | ':' => some .colon
  | _ => none

/-- A digit is taken for nothing but the beginning of a number. -/
theorem isDigit_plain {d : Char} (h : d.isDigit = true) :
    isSpace d = false ∧ punctuation? d = none := by
  constructor
  · cases hspace : isSpace d with
    | false => rfl
    | true =>
      simp only [isSpace, Bool.or_eq_true, beq_iff_eq] at hspace
      rcases hspace with ((rfl | rfl) | rfl) | rfl <;> cases h
  · unfold punctuation?
    split
    case h_7 => rfl
    all_goals cases h

/-- A value that begins with a digit is a number without a sign. -/
theorem scanScalar_digit {d : Char} (h : d.isDigit = true) (rest : List Char) :
    scanScalar d rest = scanNumber false (d :: rest) := by
  unfold scanScalar
  split
  case h_6 => rfl
  all_goals cases h

/-- What is printed for a number starts with a sign or a digit, and the scanner goes by it. -/
theorem scanScalar_number {n : Number} (hnonempty : n.whole ≠ [])
    (hwhole : ∀ c ∈ n.whole, c.isDigit = true) (rest : List Char) :
    ∃ c cs, n.render = c :: cs ∧ isSpace c = false ∧ punctuation? c = none ∧
      scanScalar c (cs ++ rest) = scanNumber n.negative
        (n.whole ++ (pointText n.fraction ++ Number.powerText n.exponent) ++ rest) := by
  cases hneg : n.negative with
  | true =>
    exact ⟨'-', _, by simp [Number.render_eq, hneg], by decide, by decide, rfl⟩
  | false =>
    obtain ⟨d, ds, hcs⟩ := List.exists_cons_of_ne_nil hnonempty
    have hd : d.isDigit = true := hwhole d (by simp [hcs])
    obtain ⟨hspace, hother⟩ := isDigit_plain hd
    refine ⟨d, ds ++ (pointText n.fraction ++ Number.powerText n.exponent), ?_, hspace,
      hother, ?_⟩
    · simp [Number.render_eq, hneg, hcs]
    · rw [scanScalar_digit hd, hcs]
      simp

/-- What is printed for a value without parts starts with a character of its own, and is scanned up
to its end. -/
theorem scanScalar_render {s : Scalar} (hs : s.Plain Number.Spelled) {rest : List Char}
    (h : Stops rest) :
    ∃ c cs, s.render = c :: cs ∧ isSpace c = false ∧ punctuation? c = none ∧
      scanScalar c (cs ++ rest) = some (s, rest) := by
  cases s with
  | null => exact ⟨'n', ['u', 'l', 'l'], rfl, by decide, by decide, rfl⟩
  | bool b =>
    cases b with
    | true => exact ⟨'t', ['r', 'u', 'e'], rfl, by decide, by decide, rfl⟩
    | false => exact ⟨'f', ['a', 'l', 's', 'e'], rfl, by decide, by decide, rfl⟩
  | text t =>
    refine ⟨'"', t.toList.flatMap escape ++ ['"'], rfl, by decide, by decide, ?_⟩
    rw [List.append_assoc]
    exact scanScalar_quote t rest
  | number n =>
    obtain ⟨c, cs, hrender, hspace, hother, hscan⟩ := scanScalar_number hs.nonempty hs.whole rest
    exact ⟨c, cs, hrender, hspace, hother, hscan.trans (scanNumber_spelled hs h)⟩
  | broken => exact hs.elim

end TypedStack.Json
