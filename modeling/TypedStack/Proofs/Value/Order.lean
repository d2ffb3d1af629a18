import TypedStack.Proofs.Binary.Widening
import TypedStack.Value.Basic
/-!
# Values of one type are totally ordered

The order of values mixes the numeric order of binary numbers with a comparison of their patterns as
signed words. It comes down to comparing integers: every value has a rank within its type
(`Value.rank`), and two values of one type compare as their ranks do (`Value.order_eq_ranks`). The
laws of a total order are then those of the integers, and what is left to say is which values share
a rank (`Value.rank_eq_iff`).

The hard part is the binary numbers. They are compared numerically first, and where neither is below
the other the patterns decide, as words with a sign in which all NaNs have been made the same. For
numbers that are equal this decides between the two zeros, and for NaNs it puts them above
everything else. Both steps agree with the rank of a pattern (`Value.orderKey_as_ranks`). Numbers of
32 bits are widened before they are compared, and widening goes along the row of patterns.
-/

set_option autoImplicit false

namespace TypedStack

open Binary

namespace Value

/-! ## Comparing by an integer

A comparison of words is a comparison of the integers that they stand for. -/

/-- What is ordered as two integers are compares as they do. Both the order and equality have to
carry over, since a comparison asks for the one and then for the other. -/
theorem compare_as_ints {α : Type} [LT α] [DecidableLT α] [DecidableEq α] {a b : α} {x y : Int}
    (hlt : a < b ↔ x < y) (heq : a = b ↔ x = y) : compareOfLessAndEq a b = compare x y := by
  unfold compareOfLessAndEq
  by_cases h : a < b
  · rw [if_pos h, Int.compare_eq_lt.mpr (hlt.mp h)]
  · rw [if_neg h]
    by_cases he : a = b
    · rw [if_pos he, Int.compare_eq_eq.mpr (heq.mp he)]
    · have hgt : y < x := by
        rw [hlt] at h
        rw [heq] at he
        omega
      rw [if_neg he, Int.compare_eq_gt.mpr hgt]

theorem compare_int64 (a b : Int64) : compare a b = compare a.toInt b.toInt :=
  compare_as_ints Int64.lt_iff_toInt_lt Int64.toInt_inj.symm

theorem compare_uint16 (a b : UInt16) : compare a b = compare (a.toNat : Int) (b.toNat : Int) := by
  apply compare_as_ints
  · rw [UInt16.lt_iff_toNat_lt, Int.ofNat_lt]
  · rw [Int.ofNat_inj, UInt16.toNat_inj]

theorem compare_bool (a b : Bool) : compare a b = compare (a.toNat : Int) (b.toNat : Int) := by
  cases a <;> cases b <;> rfl

/-! ## Binary numbers -/

/-- The word that a 64-bit number is compared by where the numeric order says nothing. For a
negative number the sign bit makes the word negative, and a greater magnitude then gives a greater
word. That is the wrong way round, and does no harm because only the two zeros and NaNs are ever
compared by their words. -/
theorem toInt_orderKey (bits : UInt64) : (orderKey bits).toInt =
    if Format.double.isNaN bits.toNat then (Format.double.nan : Int)
    else if Format.double.isNegative bits.toNat then
      (Format.double.magnitude bits.toNat : Int) - Format.double.signWeight
    else Format.double.magnitude bits.toNat := by
  unfold orderKey
  split
  · decide
  · have hword : bits.toInt64.toInt =
        if 2 * bits.toNat < 2 ^ 64 then (bits.toNat : Int) else bits.toNat - (2 ^ 64 : Nat) := by
      rw [← Int64.toInt_toBitVec, UInt64.toBitVec_toInt64, BitVec.toInt_eq_toNat_cond]
      rfl
    have hsize := bits.toNat_lt
    have hweight : Format.double.signWeight = 2 ^ 63 := by decide
    rw [hword]
    simp only [Format.isNegative, Format.magnitude, hweight, decide_eq_true_eq]
    -- as a word the pattern is negative exactly when its sign bit is set
    split <;> split <;> omega

/-- Of two numbers neither of which is below the other, a NaN is one, or they are the same, or the
two zeros; their words are then ordered as their ranks are. -/
theorem orderKey_as_ranks {a b : UInt64} (hab : Format.double.below a.toNat b.toNat = false)
    (hba : Format.double.below b.toNat a.toNat = false) :
    ((orderKey a).toInt < (orderKey b).toInt ↔
      Format.double.rank a.toNat < Format.double.rank b.toNat) ∧
    ((orderKey a).toInt = (orderKey b).toInt ↔
      Format.double.rank a.toNat = Format.double.rank b.toNat) := by
  have hnan : Format.double.infinity < Format.double.nan := by decide
  have hweight := Format.double.infinity_lt_signWeight
  rw [toInt_orderKey, toInt_orderKey]
  unfold Format.rank
  cases ha : Format.double.isNaN a.toNat with
  | true =>
    cases hb : Format.double.isNaN b.toNat with
    | true => simp
    | false =>
      have := Format.magnitude_le_infinity hb
      simp only [if_true, Bool.false_eq_true, if_false]
      split <;> omega
  | false =>
    cases hb : Format.double.isNaN b.toNat with
    | true =>
      have := Format.magnitude_le_infinity ha
      simp only [if_true, Bool.false_eq_true, if_false]
      split <;> omega
    | false =>
      -- only here does it matter that neither number is below the other
      obtain ⟨hmagnitude, hsame | hzero⟩ := Format.eq_or_zeros ha hb hab hba
      · rw [hsame, hmagnitude]
        simp
      · rw [← hmagnitude, hzero]
        simp only [Bool.false_eq_true, if_false]
        split <;> split <;> omega

/-- 64-bit numbers compare as their ranks do: the numeric order goes along the row of patterns, and
where it is silent the words do. -/
theorem compareDouble_eq_ranks (a b : UInt64) :
    compareDouble a b = compare (Format.double.rank a.toNat) (Format.double.rank b.toNat) := by
  unfold compareDouble
  by_cases hab : Format.double.below a.toNat b.toNat = true
  · rw [if_pos hab, Int.compare_eq_lt.mpr (Format.rank_lt_of_below hab)]
  by_cases hba : Format.double.below b.toNat a.toNat = true
  · rw [if_neg hab, if_pos hba, Int.compare_eq_gt.mpr (Format.rank_lt_of_below hba)]
  rw [if_neg hab, if_neg hba]
  obtain ⟨hlt, heq⟩ :=
    orderKey_as_ranks (Bool.eq_false_iff.mpr hab) (Bool.eq_false_iff.mpr hba)
  exact compare_as_ints (Int64.lt_iff_toInt_lt.trans hlt) (Int64.toInt_inj.symm.trans heq)

/-! ## The rank of a value

For each type of values the rank is an integer that the machine's own comparison goes by. For
integers, characters and truth values it is the value itself. -/

theorem single_lt (bits : UInt32) : bits.toNat < 2 * Format.single.signWeight := bits.toNat_lt

theorem double_lt (bits : UInt64) : bits.toNat < 2 * Format.double.signWeight := bits.toNat_lt

/-- A widened number fits into 64 bits, so that the word holds the pattern as it was computed. -/
theorem toNat_widen (bits : UInt32) :
    (widen bits).toNat = Format.single.convert .double bits.toNat := by
  have hlt := Format.convert_lt Format.single_widensTo_double bits.toNat
  have hweight : 2 * Format.double.signWeight = 2 ^ 64 := by decide
  rw [hweight] at hlt
  exact UInt64.toNat_ofNat_of_lt' hlt

/-- 32-bit numbers compare as their ranks do, since widening keeps the order of ranks. -/
theorem compare_widened (a b : UInt32) : compareDouble (widen a) (widen b) =
    compare (Format.single.rank a.toNat) (Format.single.rank b.toNat) := by
  rw [compareDouble_eq_ranks, toNat_widen, toNat_widen]
  have hwide := Format.single_widensTo_double
  rcases Int.lt_trichotomy (Format.single.rank a.toNat) (Format.single.rank b.toNat) with h | h | h
  · rw [Int.compare_eq_lt.mpr h, Int.compare_eq_lt]
    exact Format.rank_convert_lt hwide h
  · rw [Int.compare_eq_eq.mpr h, Int.compare_eq_eq]
    exact Format.rank_convert_eq (single_lt a) (single_lt b) h
  · rw [Int.compare_eq_gt.mpr h, Int.compare_eq_gt]
    exact Format.rank_convert_lt hwide h

/-- The place of a value among the values of its type. Ranks of values of different types are not
compared. -/
def rank : Value → Int
  | .int n => n.toInt
  | .char c => c.toNat
  | .float x => Format.single.rank x.toNat
  | .bool b => b.toNat
  | .double x => Format.double.rank x.toNat

def isNaN : Value → Bool
  | .float x => Format.single.isNaN x.toNat
  | .double x => Format.double.isNaN x.toNat
  | _ => false

/-- The numeric order of two binary numbers of one type. -/
def below : Value → Value → Bool
  | .float a, .float b => Format.single.below a.toNat b.toNat
  | .double a, .double b => Format.double.below a.toNat b.toNat
  | _, _ => false

/-- Values of one type compare as their ranks do. This is the only lemma that looks at the
definition of the order; the laws below speak of ranks. -/
theorem order_eq_ranks {a b : Value} (h : a.type = b.type) :
    a.order b = some (compare a.rank b.rank) := by
  cases a <;> cases b <;> cases h
  · exact congrArg some (compare_int64 _ _)
  · exact congrArg some (compare_uint16 _ _)
  · exact congrArg some (compare_widened _ _)
  · exact congrArg some (compare_bool _ _)
  · exact congrArg some (compareDouble_eq_ranks _ _)

/-- Values of different types are not compared at all. -/
theorem order_isSome {a b : Value} : (a.order b).isSome ↔ a.type = b.type := by
  constructor
  · intro h
    cases a <;> cases b <;> first | rfl | cases h
  · intro h
    rw [order_eq_ranks h]
    rfl

/-- Only a value itself and another NaN have its rank. -/
theorem rank_eq_iff {a b : Value} (h : a.type = b.type) :
    a.rank = b.rank ↔ a = b ∨ a.isNaN = true ∧ b.isNaN = true := by
  cases a <;> cases b <;> cases h
  case int.int.refl x y => simp [rank, isNaN, Int64.toInt_inj]
  case char.char.refl x y => simp [rank, isNaN, UInt16.toNat_inj]
  case float.float.refl x y =>
    simpa [rank, isNaN, UInt32.toNat_inj] using Format.rank_eq_iff (single_lt x) (single_lt y)
  case bool.bool.refl x y => cases x <;> cases y <;> simp [rank, isNaN]
  case double.double.refl x y =>
    simpa [rank, isNaN, UInt64.toNat_inj] using Format.rank_eq_iff (double_lt x) (double_lt y)

theorem rank_lt_of_below {a b : Value} (h : a.below b = true) :
    a.type = b.type ∧ a.rank < b.rank := by
  cases a <;> cases b <;> first | cases h | exact ⟨rfl, Format.rank_lt_of_below h⟩

/-- A NaN has the last place in its type. -/
theorem rank_lt_nan {a b : Value} (h : a.type = b.type) (ha : a.isNaN = false)
    (hb : b.isNaN = true) : a.rank < b.rank := by
  cases a <;> cases b <;> cases h <;> first | cases hb | exact Format.rank_lt_nan ha hb

/-! ## The laws

Each law is that of the integers, carried over by `order_eq_ranks`. -/

/-- Two values of one type, the first of which is not greater. -/
def AtMost (a b : Value) : Prop := ∃ o, a.order b = some o ∧ o ≠ .gt

/-- Not to be greater is to have a rank that is not greater, within one type. -/
theorem atMost_iff {a b : Value} : a.AtMost b ↔ a.type = b.type ∧ a.rank ≤ b.rank := by
  constructor
  · rintro ⟨o, ho, hle⟩
    have htype : a.type = b.type := order_isSome.mp (by rw [ho]; rfl)
    rw [order_eq_ranks htype, Option.some.injEq] at ho
    rw [← ho, Ne, Int.compare_eq_gt] at hle
    exact ⟨htype, by omega⟩
  · rintro ⟨htype, hle⟩
    refine ⟨_, order_eq_ranks htype, ?_⟩
    rw [Ne, Int.compare_eq_gt]
    omega

/-- Turning a comparison round reverses it. For values of different types both sides have no
result. -/
theorem order_swap (a b : Value) : b.order a = (a.order b).map Ordering.swap := by
  by_cases h : a.type = b.type
  · rw [order_eq_ranks h, order_eq_ranks h.symm, Option.map_some, Int.compare_swap]
  · have hnone : ∀ {c d : Value}, c.type ≠ d.type → c.order d = none := by
      intro c d hcd
      rw [← Option.not_isSome_iff_eq_none, order_isSome]
      exact hcd
    rw [hnone h, hnone (Ne.symm h), Option.map_none]

/-- **The order of values is total** within each type and defined within types only: turning a
comparison round reverses it, it is transitive, and only a value and itself or two NaNs are equal.
It agrees with the numeric order of binary numbers, has negative zero below zero, and every NaN
above all that is no NaN, infinity included. So a NaN has a place, and sorting by this order never
gets stuck on one. -/
theorem order_total (a b c : Value) :
    ((a.order b).isSome ↔ a.type = b.type) ∧
    b.order a = (a.order b).map Ordering.swap ∧
    (a.AtMost b → b.AtMost c → a.AtMost c) ∧
    (a.order b = some .eq ↔ a = b ∨ a.type = b.type ∧ a.isNaN = true ∧ b.isNaN = true) ∧
    (a.below b = true → a.order b = some .lt) ∧
    (a.type = b.type → a.isNaN = false → b.isNaN = true → a.order b = some .lt) ∧
    (ofSingle (Format.single.withSign true 0)).order (.float 0) = some .lt ∧
    (ofDouble (Format.double.withSign true 0)).order (.double 0) = some .lt ∧
    (ofSingle Format.single.infinity).isNaN = false ∧
    (ofDouble Format.double.infinity).isNaN = false := by
  refine ⟨order_isSome, order_swap a b, ?_, ?_, ?_, ?_, by decide, by decide, by decide, by decide⟩
  · intro hab hbc
    rw [atMost_iff] at *
    exact ⟨hab.1.trans hbc.1, Int.le_trans hab.2 hbc.2⟩
  · constructor
    · intro h
      have htype : a.type = b.type := order_isSome.mp (by rw [h]; rfl)
      rw [order_eq_ranks htype, Option.some.injEq, Int.compare_eq_eq, rank_eq_iff htype] at h
      exact h.imp_right fun hnan => ⟨htype, hnan⟩
    · intro h
      have htype : a.type = b.type := by
        rcases h with rfl | h
        · rfl
        · exact h.1
      rw [order_eq_ranks htype, Option.some.injEq, Int.compare_eq_eq, rank_eq_iff htype]
      exact h.imp_right And.right
  · intro hbelow
    obtain ⟨htype, hlt⟩ := rank_lt_of_below hbelow
    rw [order_eq_ranks htype, Int.compare_eq_lt.mpr hlt]
  · intro htype ha hb
    rw [order_eq_ranks htype, Int.compare_eq_lt.mpr (rank_lt_nan htype ha hb)]

end Value

end TypedStack
