import Mathlib.Order.Compare
import Mathlib.Order.Monotone.Basic
import ChenDB.Executor.Expression

/-
  Doubles by their bits: a sign, eleven bits of exponent and
  fifty-two of fraction. What stands below the sign, read as
  one number, orders the doubles of one sign; the doubles are
  multiples of `2 ^ -1074`, and how many times orders them too.
-/

--
-- Patterns
--

namespace ChenDB

namespace Executor

structure Binary64 where
  bits : BitVec 64
deriving DecidableEq, Repr

namespace Binary64

def sign (value : Binary64) : Bool :=
  2 ^ 63 ≤ value.bits.toNat

/- Exponent and fraction, as one number. -/
def magnitude (value : Binary64) : Nat :=
  value.bits.toNat % 2 ^ 63

/- The magnitude of the infinities. -/
def infinite : Nat := 2047 * 2 ^ 52

def isFinite (value : Binary64) : Bool :=
  value.magnitude < infinite

def isNan (value : Binary64) : Bool :=
  infinite < value.magnitude

/- By sign and magnitude; the two zeros are one. -/
def signed (value : Binary64) : Int :=
  if value.sign then -(value.magnitude : Int)
  else value.magnitude

/- How many times `2 ^ -1074` a magnitude comes to: below the
   first exponent the fraction is all there is. -/
def scale (magnitude : Nat) : Nat :=
  if magnitude / 2 ^ 52 = 0 then magnitude
  else (2 ^ 52 + magnitude % 2 ^ 52) *
    2 ^ (magnitude / 2 ^ 52 - 1)

def units (value : Binary64) : Int :=
  if value.sign then -(scale value.magnitude : Int)
  else scale value.magnitude

def ofMagnitude (negative : Bool) (magnitude : Nat) :
    Binary64 :=
  ⟨BitVec.ofNat 64
    (if negative then 2 ^ 63 + magnitude else magnitude)⟩

/- The magnitude next to a number, and of two the even one. -/
def roundNat (number : Nat) : Nat :=
  let width := number.log2
  if number = 0 then 0
  else if width ≤ 52 then
    (width + 1023) * 2 ^ 52 +
      (number * 2 ^ (52 - width) - 2 ^ 52)
  else
    let unit := 2 ^ (width - 52)
    let whole := number / unit
    let left := 2 * (number % unit)
    let rounded :=
      if unit < left ∨ left = unit ∧ whole % 2 = 1 then
        whole + 1
      else whole
    (width + 1023) * 2 ^ 52 + (rounded - 2 ^ 52)

/- `float(number)`; none where it overflows. -/
def ofInt (number : Int) : Option Binary64 :=
  if roundNat number.natAbs < infinite then
    some (ofMagnitude (number < 0)
      (roundNat number.natAbs))
  else none

/- A NaN is neither below nor equal to anything. -/
def compare (left right : Binary64) : Ordering :=
  if left.isNan ∨ right.isNan then .gt
  else Ord.compare left.signed right.signed

def compareInt (left : Binary64) (right : Int) : Ordering :=
  if left.isNan then .gt
  else if left.isFinite then
    Ord.compare left.units (right * 2 ^ 1074)
  else if left.sign then .lt
  else .gt

def neg (value : Binary64) : Binary64 :=
  ofMagnitude (!value.sign) value.magnitude

end Binary64

/- What the machine makes of two doubles, and how Python writes
   one. Nothing here depends on it. -/
class FloatArithmetic where
  add : Binary64 → Binary64 → Binary64
  sub : Binary64 → Binary64 → Binary64
  mul : Binary64 → Binary64 → Binary64
  div : Binary64 → Binary64 → Binary64
  mod : Binary64 → Binary64 → Binary64
  exactMod : Binary64 ⊕ Int → Binary64 ⊕ Int → Binary64
  render : Binary64 → String

instance [FloatArithmetic] : Double Binary64 where
  ofInt number := (Binary64.ofInt number).getD
    (Binary64.ofMagnitude (number < 0) Binary64.infinite)
  neg := Binary64.neg
  add := FloatArithmetic.add
  sub := FloatArithmetic.sub
  mul := FloatArithmetic.mul
  div := FloatArithmetic.div
  mod := FloatArithmetic.mod
  exactMod := FloatArithmetic.exactMod
  isFinite := Binary64.isFinite
  compare := Binary64.compare
  compareInt := Binary64.compareInt
  render := FloatArithmetic.render

--
-- The Order of Doubles
--

namespace Binary64

theorem scale_succ (magnitude : Nat) :
    scale magnitude < scale (magnitude + 1) := by
  unfold scale
  rcases Nat.lt_or_ge (magnitude % 2 ^ 52 + 1) (2 ^ 52) with
    hSame | hNext
  · -- The exponent stays.
    have hExponent : (magnitude + 1) / 2 ^ 52 =
        magnitude / 2 ^ 52 := by omega
    have hFraction : (magnitude + 1) % 2 ^ 52 =
        magnitude % 2 ^ 52 + 1 := by omega
    rw [hExponent, hFraction]
    split
    · omega
    · exact Nat.mul_lt_mul_of_pos_right (by omega)
        (Nat.two_pow_pos _)
  · have hExponent : (magnitude + 1) / 2 ^ 52 =
        magnitude / 2 ^ 52 + 1 := by omega
    have hFraction : (magnitude + 1) % 2 ^ 52 = 0 := by omega
    rw [hExponent, hFraction, if_neg (Nat.succ_ne_zero _),
      Nat.add_sub_cancel, Nat.add_zero]
    split
    · rename_i hZero
      rw [hZero, Nat.pow_zero]
      omega
    · rename_i hSome
      have hPower : 2 ^ (magnitude / 2 ^ 52) =
          2 * 2 ^ (magnitude / 2 ^ 52 - 1) := by
        rw [← Nat.pow_succ']
        congr 1
        omega
      rw [hPower, ← Nat.mul_assoc]
      have hBound : 2 ^ 52 + magnitude % 2 ^ 52 <
          2 ^ 52 * 2 := by omega
      exact Nat.mul_lt_mul_of_pos_right hBound
        (Nat.two_pow_pos _)

theorem scale_strictMono : StrictMono scale :=
  strictMono_nat_of_lt_succ scale_succ

theorem scale_pos
    {magnitude : Nat}
    (hPos : 0 < magnitude) :
    0 < scale magnitude := by
  have hZero : scale 0 = 0 := rfl
  rw [← hZero]
  exact scale_strictMono hPos

/- The value of a double, as a function of what orders it. -/
def unitsOf (signed : Int) : Int :=
  if signed < 0 then -(scale signed.natAbs : Int)
  else scale signed.natAbs

theorem units_eq (value : Binary64) :
    value.units = unitsOf value.signed := by
  have hZero : scale 0 = 0 := rfl
  unfold units unitsOf signed
  cases value.sign with
  | false =>
    have hAbove : ¬ (value.magnitude : Int) < 0 := by omega
    simp [hAbove]
  | true =>
    rcases Nat.eq_zero_or_pos value.magnitude with
      hNone | hPos
    · simp [hNone, hZero]
    · have hBelow : -(value.magnitude : Int) < 0 := by
        omega
      rw [if_pos rfl, if_pos rfl, if_pos hBelow,
        Int.natAbs_neg, Int.natAbs_natCast]

theorem unitsOf_lt
    {low high : Int}
    (hLess : low < high) :
    unitsOf low < unitsOf high := by
  unfold unitsOf
  split
  · rename_i hLow
    have hLowPos := scale_pos (by omega : 0 < low.natAbs)
    split
    · have hScale := scale_strictMono
        (by omega : high.natAbs < low.natAbs)
      omega
    · omega
  · rw [if_neg (by omega)]
    have hScale := scale_strictMono
      (by omega : low.natAbs < high.natAbs)
    omega

/- Doubles compare as their values do. -/
theorem compare_units (left right : Binary64) :
    Ord.compare left.units right.units =
      Ord.compare left.signed right.signed := by
  rw [units_eq, units_eq]
  rcases Int.lt_trichotomy left.signed right.signed with
    hLess | hSame | hMore
  · rw [compare_lt_iff_lt.mpr hLess,
      compare_lt_iff_lt.mpr (unitsOf_lt hLess)]
  · rw [hSame, compare_eq_iff_eq.mpr rfl,
      compare_eq_iff_eq.mpr rfl]
  · rw [compare_gt_iff_gt.mpr hMore,
      compare_gt_iff_gt.mpr (unitsOf_lt hMore)]

end Binary64

end Executor

end ChenDB
