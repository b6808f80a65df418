import Mathlib
import ChenDB.Executor.Distinct

/-
  Where a value stands among those it compares with, infinite
  doubles among them: an integer and a double are multiples
  of `2 ^ -1074`, and the infinities stand at the ends.
-/

--
-- Doubles
--

namespace ChenDB

namespace Executor

namespace Binary64

variable {left right : Binary64}

/- A finite double by its value, and an infinite one at an
   end. -/
def place (value : Binary64) : WithBot (WithTop ℤ) :=
  if value.isFinite then ((value.units : WithTop ℤ) : _)
  else if value.sign then ⊥
  else ⊤

variable {value : Binary64}

/- What is neither finite nor NaN is at an end. -/
theorem magnitude_infinite
    (hNumber : value.isNan = false)
    (hInfinite : value.isFinite = false) :
    value.magnitude = infinite := by
  unfold isNan at hNumber
  unfold isFinite at hInfinite
  simp only [decide_eq_false_iff_not] at hNumber hInfinite
  omega

theorem magnitude_finite
    (hFinite : value.isFinite = true) :
    value.magnitude < infinite := by
  simpa [isFinite] using hFinite

/- The order of the bits is that of the places. -/
theorem place_lt
    (hLeft : left.isNan = false)
    (hRight : right.isNan = false)
    (hLess : left.signed < right.signed) :
    left.place < right.place := by
  unfold place
  cases hOne : left.isFinite with
  | true =>
    have hBelow := magnitude_finite hOne
    cases hTwo : right.isFinite with
    | true =>
      rw [if_pos rfl, if_pos rfl, WithBot.coe_lt_coe,
        WithTop.coe_lt_coe, units_eq, units_eq]
      exact unitsOf_lt hLess
    | false =>
      have hEnd := magnitude_infinite hRight hTwo
      cases hSign : right.sign with
      | true =>
        unfold signed at hLess
        rw [hSign] at hLess
        simp only [if_true] at hLess
        split at hLess <;> omega
      | false =>
        rw [if_pos rfl, if_neg Bool.false_ne_true,
          if_neg Bool.false_ne_true]
        exact WithBot.coe_lt_coe.mpr
          (WithTop.coe_lt_top _)
  | false =>
    have hEnd := magnitude_infinite hLeft hOne
    have hRightEnd : right.magnitude ≤ infinite := by
      simpa [isNan] using hRight
    cases hSign : left.sign with
    | false =>
      unfold signed at hLess
      rw [hSign] at hLess
      simp only [Bool.false_eq_true, if_false] at hLess
      split at hLess <;> omega
    | true =>
      rw [if_neg Bool.false_ne_true, if_pos rfl]
      split
      · exact WithBot.bot_lt_coe _
      · split
        · rename_i hTwo hNegative
          have hOther := magnitude_infinite hRight
            (eq_false_of_ne_true hTwo)
          unfold signed at hLess
          rw [hSign, hNegative, hEnd, hOther] at hLess
          exact absurd hLess (lt_irrefl _)
        · exact bot_lt_top

theorem sign_of_signed
    (hSame : left.signed = right.signed)
    (hSome : left.magnitude ≠ 0) :
    left.sign = right.sign := by
  have hMagnitude := magnitude_of_signed hSame
  unfold signed at hSame
  cases hOne : left.sign <;> cases hTwo : right.sign <;>
    simp [hOne, hTwo] at hSame ⊢ <;> omega

/- The two zeros have one place. -/
theorem place_eq
    (hNumber : left.isNan = false)
    (hSame : left.signed = right.signed) :
    left.place = right.place := by
  have hMagnitude := magnitude_of_signed hSame
  have hFinite : left.isFinite = right.isFinite := by
    unfold isFinite
    rw [hMagnitude]
  unfold place
  rw [← hFinite]
  cases hOne : left.isFinite with
  | true => rw [if_pos rfl, if_pos rfl, units_of_signed hSame]
  | false =>
    have hEnd := magnitude_infinite hNumber hOne
    have hSign := sign_of_signed hSame (by
      rw [hEnd]
      decide)
    rw [if_neg Bool.false_ne_true,
      if_neg Bool.false_ne_true, hSign]

/- So doubles compare as their places do. -/
theorem compare_place
    (hLeft : left.isNan = false)
    (hRight : right.isNan = false) :
    left.compare right =
      Ord.compare left.place right.place := by
  unfold Binary64.compare
  rw [if_neg (by simp [hLeft, hRight])]
  rcases Int.lt_trichotomy left.signed right.signed with
    hLess | hSame | hMore
  · rw [compare_lt_iff_lt.mpr hLess, compare_lt_iff_lt.mpr
      (place_lt hLeft hRight hLess)]
  · rw [hSame, compare_eq_iff_eq.mpr rfl,
      compare_eq_iff_eq.mpr (place_eq hLeft hSame)]
  · rw [compare_gt_iff_gt.mpr hMore, compare_gt_iff_gt.mpr
      (place_lt hRight hLeft hMore)]

end Binary64

--
-- Numbers
--

/- An integer in units of the least double. -/
def placeNumber : Binary64 ⊕ Int → WithBot (WithTop ℤ)
  | .inl value => value.place
  | .inr value => ((value * 2 ^ 1074 : ℤ) : WithTop ℤ)

def numberNotNan : Binary64 ⊕ Int → Bool
  | .inl value => !value.isNan
  | .inr _ => true

theorem strictMono_place :
    StrictMono fun value : ℤ =>
      (((value : WithTop ℤ)) : WithBot (WithTop ℤ)) :=
  fun _ _ hLess => WithBot.coe_lt_coe.mpr
    (WithTop.coe_lt_coe.mpr hLess)

/- An infinite double is beyond every integer. -/
theorem compareInt_place
    {left : Binary64}
    (right : Int)
    (hLeft : left.isNan = false) :
    left.compareInt right =
      Ord.compare left.place (placeNumber (.inr right)) := by
  unfold Binary64.compareInt Binary64.place placeNumber
  rw [if_neg (by simp [hLeft])]
  cases left.isFinite with
  | true =>
    rw [if_pos rfl, if_pos rfl]
    exact (compare_map strictMono_place _ _).symm
  | false =>
    rw [if_neg Bool.false_ne_true,
      if_neg Bool.false_ne_true]
    split
    · exact (compare_lt_iff_lt.mpr
        (WithBot.bot_lt_coe _)).symm
    · exact (compare_gt_iff_gt.mpr
        (WithBot.coe_lt_coe.mpr
          (WithTop.coe_lt_top _))).symm

section Numbers

variable [FloatArithmetic]

theorem compareNumbers_place
    {left right : Binary64 ⊕ Int}
    (hLeft : numberNotNan left = true)
    (hRight : numberNotNan right = true) :
    compareNumbers left right =
      Ord.compare (placeNumber left) (placeNumber right) := by
  rcases left with left | left
  · have hLeft : left.isNan = false := by
      simpa [numberNotNan] using hLeft
    rcases right with right | right
    · exact Binary64.compare_place hLeft
        (by simpa [numberNotNan] using hRight)
    · exact compareInt_place right hLeft
  · rcases right with right | right
    · have hRight : right.isNan = false := by
        simpa [numberNotNan] using hRight
      show (right.compareInt left).swap = _
      rw [compareInt_place left hRight]
      exact compare_swap _ _
    · have hMono : StrictMono fun value : ℤ =>
          value * 2 ^ 1074 :=
        fun _ _ hLess => Int.mul_lt_mul_of_pos_right hLess
          (Int.pow_pos (by decide))
      exact ((compare_map strictMono_place _ _).trans
        (compare_map hMono left right)).symm

end Numbers

--
-- Values
--

/- NULL first, then the numbers, then the texts. -/
def place : Value Binary64 →
    WithBot (WithTop ℤ) ⊕ₗ String
  | .null => Sum.inlₗ ⊥
  | .bool value => Sum.inlₗ (placeNumber (.inr value.toInt))
  | .int value => Sum.inlₗ (placeNumber (.inr value))
  | .float value => Sum.inlₗ (placeNumber (.inl value))
  | .text value => Sum.inrₗ value

variable {value : Value Binary64} {number : Binary64 ⊕ Int}

theorem place_asNumber
    (hNumber : asNumber value = some number) :
    place value = Sum.inlₗ (placeNumber number) := by
  cases value <;> cases hNumber <;> rfl

theorem notNan_asNumber
    (hValue : value.notNan = true)
    (hNumber : asNumber value = some number) :
    numberNotNan number = true := by
  cases value with
  | null => cases hNumber
  | text value => cases hNumber
  | bool value =>
    cases hNumber
    rfl
  | int value =>
    cases hNumber
    rfl
  | float value =>
    cases hNumber
    exact hValue

theorem strictMono_inlₗ :
    StrictMono fun number : WithBot (WithTop ℤ) =>
      (Sum.inlₗ number : WithBot (WithTop ℤ) ⊕ₗ String) :=
  fun _ _ hLess => Sum.Lex.inl_lt_inl_iff.mpr hLess

theorem strictMono_inrₗ :
    StrictMono fun text : String =>
      (Sum.inrₗ text : WithBot (WithTop ℤ) ⊕ₗ String) :=
  fun _ _ hLess => Sum.Lex.inr_lt_inr_iff.mpr hLess

section Values

variable [FloatArithmetic] {left right : Value Binary64}

/- Python's `==` of two values. -/
theorem sameKey_place
    (hLeft : left ≠ .null)
    (hRight : right ≠ .null)
    (hOne : left.notNan = true)
    (hTwo : right.notNan = true) :
    sameKey left right =
      decide (place left = place right) := by
  cases hLeftNumber : asNumber left with
  | some first =>
    have hFirst := place_asNumber hLeftNumber
    cases hRightNumber : asNumber right with
    | some second =>
      have hCompare := compareNumbers_place
        (notNan_asNumber hOne hLeftNumber)
        (notNan_asNumber hTwo hRightNumber)
      simp only [sameKey, hLeftNumber, hRightNumber,
        hCompare, hFirst, place_asNumber hRightNumber,
        compare_eq_iff_eq]
      exact decide_eq_decide.mpr
        strictMono_inlₗ.injective.eq_iff.symm
    | none =>
      cases right with
      | null => exact absurd rfl hRight
      | text value =>
        rw [hFirst]
        cases left <;> simp_all [sameKey, asNumber, place]
      | _ => cases hRightNumber
  | none =>
    cases left with
    | null => exact absurd rfl hLeft
    | text value =>
      cases right with
      | null => exact absurd rfl hRight
      | text other =>
        simp only [sameKey, asNumber]
        exact decide_eq_decide.mpr
          strictMono_inrₗ.injective.eq_iff.symm
      | _ => simp [sameKey, asNumber, place]
    | _ => cases hLeftNumber

/- Python's `<` of two numbers or two texts. -/
theorem lessThan_place
    (hKind : left.kind = right.kind)
    (hNull : left ≠ .null)
    (hOne : left.notNan = true)
    (hTwo : right.notNan = true) :
    lessThan left right =
      .ok (decide (place left < place right)) := by
  rcases numbers_or_texts hKind hNull with
    ⟨first, second, hFirst, hSecond⟩ | ⟨first, second, rfl, rfl⟩
  · have hCompare := compareNumbers_place
      (notNan_asNumber hOne hFirst)
      (notNan_asNumber hTwo hSecond)
    simp only [lessThan, hFirst, hSecond, hCompare,
      place_asNumber hFirst, place_asNumber hSecond,
      compare_lt_iff_lt]
    exact congrArg _ (decide_eq_decide.mpr
      strictMono_inlₗ.lt_iff_lt.symm)
  · simp only [lessThan, asNumber, compare_lt_iff_lt]
    exact congrArg _ (decide_eq_decide.mpr
      strictMono_inrₗ.lt_iff_lt.symm)

omit [FloatArithmetic] in
theorem compare_toInt (left right : Bool) :
    Ord.compare left.toInt right.toInt =
      Ord.compare left right := by
  cases left <;> cases right <;> rfl

/- Truth values compare as the numbers that Python takes them
   for. -/
theorem compareValues_number
    {first second : Binary64 ⊕ Int}
    (hKind : left.kind = right.kind)
    (hFirst : asNumber left = some first)
    (hSecond : asNumber right = some second)
    (op : BinaryOperator) :
    compareValues left right op =
      .ok (compareNumbers first second) := by
  cases left with
  | null => cases hFirst
  | text value => cases hFirst
  | bool value =>
    cases right with
    | bool other =>
      cases hFirst
      cases hSecond
      exact congrArg _ (compare_toInt value other).symm
    | _ => simp [Value.kind] at hKind
  | int value =>
    cases right <;> cases hFirst <;> cases hSecond <;>
      first | rfl | simp [Value.kind] at hKind
  | float value =>
    cases right <;> cases hFirst <;> cases hSecond <;>
      first | rfl | simp [Value.kind] at hKind

/- What the engine makes of two values of one kind. -/
theorem compareValues_place
    (hKind : left.kind = right.kind)
    (hNull : left ≠ .null)
    (hOne : left.notNan = true)
    (hTwo : right.notNan = true)
    (op : BinaryOperator) :
    compareValues left right op =
      .ok (Ord.compare (place left) (place right)) := by
  rcases numbers_or_texts hKind hNull with
    ⟨first, second, hFirst, hSecond⟩ | ⟨first, second, rfl, rfl⟩
  · have hCompare := compareNumbers_place
      (notNan_asNumber hOne hFirst)
      (notNan_asNumber hTwo hSecond)
    rw [place_asNumber hFirst, place_asNumber hSecond,
      compare_map strictMono_inlₗ, ← hCompare]
    exact compareValues_number hKind hFirst hSecond op
  · exact congrArg _ (compare_map strictMono_inrₗ _ _).symm

end Values

end Executor

end ChenDB
