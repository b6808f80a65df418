import Mathlib.Algebra.Order.Ring.Cast
import Mathlib.Data.Sum.Order
import Mathlib.Data.String.Basic
import Mathlib.Order.Compare
import Mathlib.Order.WithBot
import ChenDB.Executor.HashAggregate

/-
  The order of values. A finite double is a rational and
  compares as one, with integers too; so the numbers, the
  truth values and the texts each stand in a linear order, and
  the comparisons of the engine and of Python follow it.
-/

--
-- Exact Values
--

namespace ChenDB

namespace Executor

/- What is relied on of Python's `float`: comparisons of finite
   doubles, and of one with an integer, are exact. -/
class ExactDouble (φ : Type) [Double φ] where
  exact : φ → ℚ
  compare_eq : ∀ {left right : φ},
    Double.isFinite left = true →
    Double.isFinite right = true →
      Double.compare left right =
        Ord.compare (exact left) (exact right)
  compareInt_eq : ∀ {left : φ} (right : Int),
    Double.isFinite left = true →
      Double.compareInt left right =
        Ord.compare (exact left) (right : ℚ)

theorem compare_of_lt
    {α : Type} [LinearOrder α]
    (left right : α) :
    (if left < right then Ordering.lt
      else if left = right then .eq
      else .gt) = Ord.compare left right :=
  (LinearOrder.compare_eq_compareOfLessAndEq left right).symm

theorem compare_swap
    {α : Type} [LinearOrder α]
    (left right : α) :
    (Ord.compare right left).swap =
      Ord.compare left right := by
  rcases lt_trichotomy left right with hLt | rfl | hGt
  · rw [compare_lt_iff_lt.mpr hLt, compare_gt_iff_gt.mpr hLt]
    rfl
  · rw [compare_eq_iff_eq.mpr rfl]
    rfl
  · rw [compare_gt_iff_gt.mpr hGt, compare_lt_iff_lt.mpr hGt]
    rfl

instance : ExactDouble Rat where
  exact value := value
  compare_eq _ _ := compare_of_lt _ _
  compareInt_eq _ _ := compare_of_lt _ _

variable {φ : Type} [Double φ]

/- Is the number, if it is a double, a finite one? -/
def finiteNumber : φ ⊕ Int → Bool
  | .inl value => Double.isFinite value
  | .inr _ => true

section Exact

variable [ExactDouble φ]

def exactOf : φ ⊕ Int → ℚ
  | .inl value => ExactDouble.exact value
  | .inr value => value

omit [Double φ] [ExactDouble φ] in
/- A map that keeps the order keeps comparisons. -/
theorem compare_map
    {α β : Type} [LinearOrder α] [LinearOrder β]
    {f : α → β}
    (hMono : StrictMono f)
    (left right : α) :
    Ord.compare (f left) (f right) =
      Ord.compare left right := by
  rcases lt_trichotomy left right with hLt | rfl | hGt
  · rw [compare_lt_iff_lt.mpr hLt,
      compare_lt_iff_lt.mpr (hMono hLt)]
  · rw [compare_eq_iff_eq.mpr rfl, compare_eq_iff_eq.mpr rfl]
  · rw [compare_gt_iff_gt.mpr hGt,
      compare_gt_iff_gt.mpr (hMono hGt)]

theorem compareNumbers_exact
    {left right : φ ⊕ Int}
    (hLeft : finiteNumber left = true)
    (hRight : finiteNumber right = true) :
    compareNumbers left right =
      Ord.compare (exactOf left) (exactOf right) := by
  cases left with
  | inl left =>
    cases right with
    | inl right => exact ExactDouble.compare_eq hLeft hRight
    | inr right => exact ExactDouble.compareInt_eq right hLeft
  | inr left =>
    cases right with
    | inl right =>
      have hSwapped := ExactDouble.compareInt_eq left hRight
      simp only [compareNumbers, hSwapped]
      exact compare_swap _ _
    | inr right =>
      exact (compare_map Int.cast_strictMono left
        right).symm

end Exact

--
-- Ranks
--

namespace Value

def finite : Value φ → Bool
  | .float value => Double.isFinite value
  | _ => true

end Value

section Rank

variable [ExactDouble φ]

/- Where a value stands in the order of its kind; NULL comes
   after everything. -/
def rank : Value φ → WithTop (ℚ ⊕ₗ String)
  | .null => ⊤
  | .bool value => (Sum.inlₗ (value.toInt : ℚ) : ℚ ⊕ₗ String)
  | .int value => (Sum.inlₗ (value : ℚ) : ℚ ⊕ₗ String)
  | .float value =>
    (Sum.inlₗ (ExactDouble.exact value) : ℚ ⊕ₗ String)
  | .text value => (Sum.inrₗ value : ℚ ⊕ₗ String)

theorem rank_number (number : φ ⊕ Int) :
    rank (ofNumber number) =
      (Sum.inlₗ (exactOf number) : ℚ ⊕ₗ String) := by
  cases number with
  | inl value => rfl
  | inr value => rfl

theorem strictMono_number :
    StrictMono fun number : ℚ =>
      ((Sum.inlₗ number : ℚ ⊕ₗ String) :
        WithTop (ℚ ⊕ₗ String)) :=
  fun _ _ hLt =>
    WithTop.coe_lt_coe.mpr (Sum.Lex.inl_lt_inl_iff.mpr hLt)

theorem strictMono_text :
    StrictMono fun text : String =>
      ((Sum.inrₗ text : ℚ ⊕ₗ String) :
        WithTop (ℚ ⊕ₗ String)) :=
  fun _ _ hLt =>
    WithTop.coe_lt_coe.mpr (Sum.Lex.inr_lt_inr_iff.mpr hLt)

theorem compareNumbers_rank
    {left right : φ ⊕ Int}
    (hLeft : finiteNumber left = true)
    (hRight : finiteNumber right = true) :
    compareNumbers left right =
      Ord.compare (rank (ofNumber left))
        (rank (ofNumber right)) := by
  rw [rank_number, rank_number,
    compareNumbers_exact hLeft hRight]
  exact (compare_map strictMono_number _ _).symm

theorem compareBools_rank (left right : Bool) :
    Ord.compare left right =
      Ord.compare (rank (.bool left : Value φ))
        (rank (.bool right : Value φ)) := by
  have hMono : StrictMono fun value : Bool =>
      ((value.toInt : ℤ) : ℚ) :=
    fun first second hLt => by
      rcases Bool.lt_iff.mp hLt with ⟨rfl, rfl⟩
      simp
  have hRanks := compare_map strictMono_number
    ((left.toInt : ℤ) : ℚ) ((right.toInt : ℤ) : ℚ)
  exact (hRanks.trans (compare_map hMono left right)).symm

variable {value : Value φ} {number : φ ⊕ Int}

/- The number that Python takes a value for. -/
theorem rank_asNumber
    (hNumber : asNumber value = some number) :
    rank value = rank (ofNumber number) := by
  cases value with
  | null => cases hNumber
  | text value => cases hNumber
  | bool value =>
    cases hNumber
    rfl
  | int value =>
    cases hNumber
    rfl
  | float value =>
    cases hNumber
    rfl

omit [ExactDouble φ] in
theorem finite_asNumber
    (hFinite : value.finite = true)
    (hNumber : asNumber value = some number) :
    finiteNumber number = true := by
  cases value with
  | null => cases hNumber
  | text value => cases hNumber
  | bool value =>
    cases hNumber
    rfl
  | int value =>
    cases hNumber
    rfl
  | float value =>
    cases hNumber
    exact hFinite

variable {left right : Value φ}

omit [Double φ] [ExactDouble φ] in
/- Two known values of one kind are two numbers or two texts,
   truth values being numbers to Python. -/
theorem numbers_or_texts
    (hKind : left.kind = right.kind)
    (hNull : left ≠ .null) :
    (∃ first second, asNumber left = some first ∧
      asNumber right = some second) ∨
    (∃ first second, left = .text first ∧
      right = .text second) := by
  cases left with
  | null => exact absurd rfl hNull
  | text left =>
    cases right with
    | text right => exact .inr ⟨left, right, rfl, rfl⟩
    | _ => simp [Value.kind] at hKind
  | bool left =>
    cases right with
    | bool right => exact .inl ⟨_, _, rfl, rfl⟩
    | _ => simp [Value.kind] at hKind
  | int left =>
    cases right with
    | int right => exact .inl ⟨_, _, rfl, rfl⟩
    | float right => exact .inl ⟨_, _, rfl, rfl⟩
    | _ => simp [Value.kind] at hKind
  | float left =>
    cases right with
    | int right => exact .inl ⟨_, _, rfl, rfl⟩
    | float right => exact .inl ⟨_, _, rfl, rfl⟩
    | _ => simp [Value.kind] at hKind

/- What Python's `<` makes of them. -/
theorem lessThan_rank
    (hKind : left.kind = right.kind)
    (hNull : left ≠ .null)
    (hLeft : left.finite = true)
    (hRight : right.finite = true) :
    lessThan left right =
      .ok (decide (rank left < rank right)) := by
  rcases numbers_or_texts hKind hNull with
    ⟨first, second, hFirst, hSecond⟩ | ⟨first, second, rfl, rfl⟩
  · have hCompare := compareNumbers_rank
      (finite_asNumber hLeft hFirst)
      (finite_asNumber hRight hSecond)
    simp only [lessThan, hFirst, hSecond, hCompare,
      rank_asNumber hFirst, rank_asNumber hSecond,
      compare_lt_iff_lt]
  · have hMono := compare_map strictMono_text first second
    simp only [lessThan, asNumber]
    rw [← hMono]
    simp only [compare_lt_iff_lt]
    rfl

/- Two known values of one kind: what the engine makes of
   them. -/
theorem compareValues_rank
    (hKind : left.kind = right.kind)
    (hNull : left ≠ .null)
    (hLeft : left.finite = true)
    (hRight : right.finite = true)
    (op : BinaryOperator) :
    compareValues left right op =
      .ok (Ord.compare (rank left) (rank right)) := by
  cases left with
  | null => exact absurd rfl hNull
  | bool left =>
    cases right with
    | bool right => exact congrArg _ (compareBools_rank _ _)
    | _ => simp [Value.kind] at hKind
  | text left =>
    cases right with
    | text right =>
      exact congrArg _
        (compare_map strictMono_text _ _).symm
    | _ => simp [Value.kind] at hKind
  | int left =>
    cases right with
    | int right =>
      exact congrArg _ (@compareNumbers_rank φ _ _
        (.inr left) (.inr right) rfl rfl)
    | float right =>
      exact congrArg _ (@compareNumbers_rank φ _ _
        (.inr left) (.inl right) rfl hRight)
    | _ => simp [Value.kind] at hKind
  | float left =>
    cases right with
    | int right =>
      exact congrArg _ (@compareNumbers_rank φ _ _
        (.inl left) (.inr right) hLeft rfl)
    | float right =>
      exact congrArg _ (@compareNumbers_rank φ _ _
        (.inl left) (.inl right) hLeft hRight)
    | _ => simp [Value.kind] at hKind

end Rank

end Executor

end ChenDB
