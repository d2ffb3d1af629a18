import TypedStack.Binary.Format
import TypedStack.Decimal.Scientific
/-!
# The shortest decimal of a binary number

The fewest digits that read back as the same number: of the decimals with a given number of
digits only the two next to the number can be the nearest, so for 1, 2, 3, … digits both are
tested against the interval of reals that round to it. The first digit count with a hit wins, of
two hits the nearer. All comparisons are made on integers.
-/

set_option autoImplicit false

namespace TypedStack.Decimal

open Binary

/-- Which decimal is taken when two are equally near. -/
inductive Tie where
  | up
  | even
  deriving DecidableEq, Repr

namespace Shortest

/-- Whether `10 ^ e` is at most `num / den`. -/
def powerAtMost (num den : Nat) (e : Int) : Bool :=
  if 0 ≤ e then den * Nat.pow 10 e.toNat ≤ num else den ≤ num * Nat.pow 10 (-e).toNat

/-- The greatest `e` with `10 ^ e ≤ num / den`, from an estimate that is off by at most one. -/
def leadingExponent (num den : Nat) : Int :=
  let guess := (((num.log2 : Int) - (den.log2 : Int)) * 30103).fdiv 100000
  if !powerAtMost num den guess then guess - 1
  else if powerAtMost num den (guess + 1) then guess + 1
  else guess

/-- The reals that round to a number, as bounds in quarters of a unit. -/
structure Interval where
  low : Nat
  high : Nat
  closed : Bool

/-- The neighbours of a number lie one step away, a step being `2 ^ shift` units, but the lower
neighbour of a power of two only half a step. A real halfway belongs to the even significand. -/
def interval (f : Format) (bits : Nat) : Interval :=
  let units := f.units bits
  let step := 1 <<< f.shift bits
  let narrow := f.magnitude bits % f.fractionSize == 0 && 2 * f.fractionSize ≤ f.magnitude bits
  { low := 4 * units - (if narrow then step else 2 * step)
    high := 4 * units + 2 * step
    closed := f.significand bits % 2 == 0 }

/-- Whether `num / den` units lie inside. -/
def Interval.holds (i : Interval) (num den : Nat) : Bool :=
  if i.closed then i.low * den ≤ 4 * num && 4 * num ≤ i.high * den
  else i.low * den < 4 * num && 4 * num < i.high * den

/-- `c * 10 ^ x` in units, as a quotient. -/
def gridPoint (f : Format) (c : Nat) (x : Int) : Nat × Nat :=
  if 0 ≤ x then ((c * Nat.pow 10 x.toNat) <<< f.scale, 1)
  else (c <<< f.scale, Nat.pow 10 (-x).toNat)

/-- The coefficient of the decimal to use on the grid `10 ^ x`, if one reads back. -/
def onGrid (f : Format) (tie : Tie) (bits : Nat) (x : Int) : Option Nat :=
  let units := f.units bits
  let (one, den) := gridPoint f 1 x
  let down := units * den / one
  let i := interval f bits
  let downHit := i.holds (down * one) den
  let upHit := i.holds ((down + 1) * one) den
  if downHit && upHit then
    let twice := 2 * units * den
    let middle := (2 * down + 1) * one
    if twice < middle then some down
    else if middle < twice then some (down + 1)
    else match tie with
      | .up => some (down + 1)
      | .even => some (down + down % 2)
  else if downHit then some down
  else if upHit then some (down + 1)
  else none

/-- Searches the grids of `count`, `count + 1`, … digits. -/
def search (f : Format) (tie : Tie) (bits : Nat) (top : Int) : Nat → Nat → Nat × Int
  | 0, count => (0, top - count)
  | tries + 1, count =>
    let x := top - count + 1
    match onGrid f tie bits x with
    | some c => (c, x)
    | none => search f tie bits top tries (count + 1)

/-- The decimal number `c * 10 ^ x`, without trailing zeros. -/
def normal (c : Nat) (x : Int) : Scientific :=
  let ds := (Nat.toDigits 10 c).map (fun ch => ch.toNat - '0'.toNat)
  let kept := (ds.reverse.dropWhile (· == 0)).reverse
  { lead := kept.headD 0, rest := kept.tail, exponent := x + ds.length - 1 }

end Shortest

/-- The shortest decimal of the absolute value of a finite number other than zero. Seventeen
digits are enough for the 64-bit format. -/
def shortest (f : Format) (tie : Tie) (bits : Nat) : Scientific :=
  let top := Shortest.leadingExponent (f.units bits) (1 <<< f.scale)
  let (c, x) := Shortest.search f tie bits top 17 1
  Shortest.normal c x

end TypedStack.Decimal
