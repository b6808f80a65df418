import Mathlib.Algebra.Order.Group.Int
import ChenDB.Executor.HashAggregate
import ChenDB.Library.RunningTotal

/-
  `COUNT`, `SUM`, `MIN` and `MAX` over an INTEGER column. One
  accumulator keeps all four whichever it was made for, and
  checks the running sum at each step; so the order of the
  rows, and a sum nobody asked for, can decide whether there
  is a result.
-/

--
-- Aggregates of a Column
--

namespace ChenDB

namespace Executor

open ChenDB.Parser (AggregateFunction)
open Library.RunningTotal (Stays gains losses)

/- What the INTEGER codec takes. -/
abbrev StoredInteger :=
  {value : Int // int64Min ≤ value ∧ value ≤ int64Max}

/- What a row of an INTEGER column holds. -/
def ofStored {φ : Type} : Option StoredInteger → Value φ
  | none => .null
  | some value => .int value.1

/- The values that take part in an aggregate. -/
def known (values : List (Option StoredInteger)) : List Int :=
  values.filterMap (·.map Subtype.val)

section Column

variable (φ : Type) [Double φ] [TrueDivision φ]

/- An accumulator for the function, given the values in their
   order and then asked for its result. -/
def aggregate
    (function : AggregateFunction)
    (values : List (Option StoredInteger)) :
    Except EngineError (Value φ) := do
  let accumulator ← (values.map ofStored).foldlM
    Accumulator.add (Accumulator.start function)
  accumulator.value

end Column

--
-- The Accumulator over Integers
--

section Tally

variable {φ : Type}

/- The lesser of what there was and the next value. -/
def lesser (least : Option Int) (value : Int) : Option Int :=
  some (least.elim value (min · value))

def greater (most : Option Int) (value : Int) : Option Int :=
  some (most.elim value (max · value))

def ofKnown : Option Int → Value φ
  | none => .null
  | some value => .int value

/- What an accumulator holds after these values. -/
def tally
    (function : AggregateFunction)
    (values : List Int) : Accumulator φ :=
  { function := function
    count := values.length
    sum :=
      if values = [] then .null else .int values.sum
    min := ofKnown (values.foldl lesser none)
    max := ofKnown (values.foldl greater none) }

/- The error of a sum that no INTEGER holds. -/
def overflow (total : Int) : EngineError :=
  .evaluationError
    (s!"SUM overflowed: {total} does not fit in " ++
      s!"a 64-bit INTEGER [{int64Min}, {int64Max}]")

instance : RightCommutative lesser where
  right_comm least first second := by
    cases least with
    | none => simp [lesser, min_comm]
    | some least => simp [lesser, min_right_comm]

instance : RightCommutative greater where
  right_comm most first second := by
    cases most with
    | none => simp [greater, max_comm]
    | some most => simp [greater, max_right_comm]

theorem tally_perm
    (function : AggregateFunction)
    {values reordered : List Int}
    (hPerm : reordered.Perm values) :
    (tally function reordered : Accumulator φ) =
      tally function values := by
  have hEmpty : reordered = [] ↔ values = [] := by
    rw [← List.length_eq_zero_iff, hPerm.length_eq,
      List.length_eq_zero_iff]
  simp only [tally, hPerm.length_eq, hPerm.sum_eq, hEmpty,
    hPerm.foldl_eq]

variable {values : List (Option StoredInteger)}

theorem known_perm
    {reordered : List (Option StoredInteger)}
    (hPerm : reordered.Perm values) :
    (known reordered).Perm (known values) :=
  hPerm.filterMap _

theorem known_append
    (first rest : List (Option StoredInteger)) :
    known (first ++ rest) = known first ++ known rest :=
  List.filterMap_append

/- The known values of a column in another order are those of
   its rows in another order. -/
theorem exists_perm_known
    {ints : List Int}
    (hPerm : ints.Perm (known values)) :
    ∃ reordered : List (Option StoredInteger),
      reordered.Perm values ∧ known reordered = ints := by
  have hStored : known values =
      (values.filterMap id).map Subtype.val := by
    simp [known, List.map_filterMap]
  rw [hStored] at hPerm
  rcases (congrFun (congrFun
      (List.eq_map_comp_perm Subtype.val) ints) _).mpr hPerm
    with ⟨stored, rfl, hOrder⟩
  refine ⟨stored.map some ++ values.filter (!·.isSome), ?_, ?_⟩
  · have hSome : (values.filterMap id).map some =
        values.filter Option.isSome := by
      rw [List.map_filterMap_some_eq_filter_map_isSome,
        List.map_id]
    have hFront := hOrder.map some
    rw [hSome] at hFront
    exact (hFront.append_right _).trans
      (List.filter_append_perm _ _)
  · have hNone : known (values.filter (!·.isSome)) = [] := by
      simp [known, List.filterMap_eq_nil_iff]
    rw [known_append, hNone, List.append_nil]
    simp [known, List.filterMap_map]

end Tally

section Runs

variable {φ : Type} [Double φ] {function : AggregateFunction}
variable {values : List (Option StoredInteger)}

theorem checkTotal_int (total : Int) :
    checkTotal (.int total : Value φ) =
      if int64Min ≤ total ∧ total ≤ int64Max then
        .ok (.int total)
      else .error (overflow total) := rfl

/- A value that takes part: three choices, and a check between
   the first and the others. -/
theorem add_of_steps
    {accumulator : Accumulator φ}
    {value total : Value φ}
    {less more : Bool}
    (hKnown : value.isNull = false)
    (hTotal :
      (if accumulator.sum.isNull then .ok value
        else addValues accumulator.sum value) = .ok total)
    (hLess :
      (if accumulator.min.isNull then .ok true
        else lessThan value accumulator.min) = .ok less)
    (hMore :
      (if accumulator.max.isNull then .ok true
        else lessThan accumulator.max value) = .ok more) :
    accumulator.add value = (do
      let sum ← checkTotal total
      pure
        { function := accumulator.function
          count := accumulator.count + 1
          sum := sum
          min := if less then value else accumulator.min
          max := if more then value else accumulator.max }) := by
  unfold Accumulator.add
  rw [if_neg (by simp [hKnown])]
  -- Which of the three have a value already.
  by_cases hSum : accumulator.sum.isNull = true <;>
    by_cases hMin : accumulator.min.isNull = true <;>
    by_cases hMax : accumulator.max.isNull = true <;>
    simp_all [bind, Except.bind]

/- The total with one more value. -/
theorem total_int
    (done : List Int)
    (value : Int) :
    (if (if done = [] then .null
          else .int done.sum : Value φ).isNull then
        .ok (.int value)
      else addValues
        (if done = [] then .null else .int done.sum)
        (.int value)) =
      (.ok (.int (done.sum + value)) :
        Except EngineError (Value φ)) := by
  by_cases hEmpty : done = []
  · simp [hEmpty, Value.isNull]
  · simp [hEmpty, Value.isNull, addValues, asNumber,
      ofNumber, arithmetic, Except.map]

theorem lessThan_int (left right : Int) :
    lessThan (.int left : Value φ) (.int right) =
      .ok (decide (left < right)) := by
  simp [lessThan, asNumber, compareNumbers, Int.compare_eq_lt]

theorem replaces_least
    (least : Option Int)
    (value : Int) :
    ∃ less,
      (if (ofKnown least : Value φ).isNull then .ok true
        else lessThan (.int value : Value φ)
          (ofKnown least)) =
          (.ok less : Except EngineError Bool) ∧
      (if less then .int value else ofKnown least) =
        (ofKnown (lesser least value) : Value φ) := by
  cases least with
  | none => exact ⟨true, rfl, rfl⟩
  | some least =>
    refine ⟨decide (value < least),
      lessThan_int value least, ?_⟩
    by_cases hLess : value < least
    · simp [hLess, ofKnown, lesser, hLess.le]
    · simp [hLess, ofKnown, lesser, not_lt.mp hLess]

theorem replaces_most
    (most : Option Int)
    (value : Int) :
    ∃ more,
      (if (ofKnown most : Value φ).isNull then .ok true
        else lessThan (ofKnown most : Value φ)
          (.int value)) =
          (.ok more : Except EngineError Bool) ∧
      (if more then .int value else ofKnown most) =
        (ofKnown (greater most value) : Value φ) := by
  cases most with
  | none => exact ⟨true, rfl, rfl⟩
  | some most =>
    refine ⟨decide (most < value), lessThan_int most value, ?_⟩
    by_cases hMore : most < value
    · simp [hMore, ofKnown, greater, hMore.le]
    · simp [hMore, ofKnown, greater, not_lt.mp hMore]

/- One more value: the sum is checked, whatever the
   function. -/
theorem tally_add
    (done : List Int)
    (value : Int) :
    (tally function done : Accumulator φ).add (.int value) =
      if int64Min ≤ done.sum + value ∧
          done.sum + value ≤ int64Max then
        .ok (tally function (done ++ [value]))
      else .error (overflow (done.sum + value)) := by
  rcases @replaces_least φ _ (done.foldl lesser none)
      value with
    ⟨less, hLess, hLeast⟩
  rcases @replaces_most φ _ (done.foldl greater none)
      value with
    ⟨more, hMore, hMost⟩
  have hKnown : (Value.int value : Value φ).isNull = false :=
    rfl
  rw [add_of_steps rfl (total_int done value) hLess hMore,
    checkTotal_int]
  by_cases hFits : int64Min ≤ done.sum + value ∧
      done.sum + value ≤ int64Max
  · rw [if_pos hFits, if_pos hFits]
    simp [tally, bind, Except.bind, pure, Except.pure,
      hLeast, hMost]
  · rw [if_neg hFits, if_neg hFits]
    rfl

/- The accumulator's run from what it holds so far. -/
theorem foldlM_add
    (done : List Int) :
    (Stays int64Min int64Max done.sum (known values) →
      (values.map ofStored).foldlM Accumulator.add
          (tally function done : Accumulator φ) =
        .ok (tally function (done ++ known values))) ∧
    (¬ Stays int64Min int64Max done.sum (known values) →
      ∃ total,
        (values.map ofStored).foldlM Accumulator.add
          (tally function done : Accumulator φ) =
        .error (overflow total)) := by
  induction values generalizing done with
  | nil =>
    refine ⟨fun _ => ?_, fun hNot => absurd trivial hNot⟩
    simp [known]
    rfl
  | cons value rest ih =>
    cases value with
    | none =>
      have hSkip : (tally function done :
          Accumulator φ).add (ofStored none) =
            .ok (tally function done) := rfl
      simp only [List.map_cons, List.foldlM_cons, hSkip]
      exact ih done
    | some value =>
      have hSum : (done ++ [value.1]).sum =
          done.sum + value.1 := by simp
      have hNext := ih (done ++ [value.1])
      rw [hSum, List.append_assoc] at hNext
      simp only [List.map_cons, List.foldlM_cons,
        ofStored, tally_add]
      by_cases hFits : int64Min ≤ done.sum + value.1 ∧
          done.sum + value.1 ≤ int64Max
      · rw [if_pos hFits]
        refine ⟨fun hStays => hNext.1 hStays.2,
          fun hNot => hNext.2 fun hStays =>
            hNot ⟨hFits, hStays⟩⟩
      · rw [if_neg hFits]
        exact ⟨fun hStays => absurd hStays.1 hFits,
          fun _ => ⟨_, rfl⟩⟩

/- Asking for the function's result. -/
theorem aggregate_ok [TrueDivision φ]
    (hStays : Stays int64Min int64Max 0 (known values)) :
    aggregate φ function values =
      (tally function (known values)).value := by
  have hRun := (@foldlM_add φ _ function values []).1 hStays
  have hStart : (Accumulator.start function : Accumulator φ) =
      tally function [] := rfl
  unfold aggregate
  rw [hStart, hRun]
  rfl

theorem aggregate_overflow [TrueDivision φ]
    (hNot : ¬ Stays int64Min int64Max 0 (known values)) :
    ∃ total, aggregate φ function values =
      .error (overflow total) := by
  rcases (@foldlM_add φ _ function values []).2 hNot with
    ⟨total, hRun⟩
  have hStart : (Accumulator.start function : Accumulator φ) =
      tally function [] := rfl
  refine ⟨total, ?_⟩
  unfold aggregate
  rw [hStart, hRun]
  rfl

end Runs

--
-- Independence
--

section Independence

variable (φ : Type) [Double φ] [TrueDivision φ]

/- The same value, or an overflow error both times. -/
def SameOutcome
    (first second : Except EngineError (Value φ)) : Prop :=
  (∃ value, first = .ok value ∧ second = .ok value) ∨
    (∃ total, first = .error (overflow total)) ∧
      ∃ total, second = .error (overflow total)

/- Rows in another order give the same aggregates, and none
   raises on account of another. -/
structure Indifferent
    (values reordered : List (Option StoredInteger)) :
    Prop where
  same : ∀ function : AggregateFunction, function ≠ .avg →
    SameOutcome φ (aggregate φ function reordered)
      (aggregate φ function values)
  total : ∀ function : AggregateFunction,
    function ∈ [.count, .min, .max] →
      ∃ value, aggregate φ function reordered = .ok value
  sum : (∃ raised, aggregate φ .sum reordered =
      .error raised) ↔
    ¬ (int64Min ≤ (known reordered).sum ∧
      (known reordered).sum ≤ int64Max)

variable {φ}

variable {values reordered : List (Option StoredInteger)}

theorem stays_of_indifferent
    (hFree : Indifferent φ values reordered) :
    Stays int64Min int64Max 0 (known reordered) := by
  by_contra hNot
  rcases hFree.total .count (by simp) with ⟨value, hValue⟩
  rcases @aggregate_overflow φ _ .count reordered _ hNot with
    ⟨total, hRaised⟩
  rw [hValue] at hRaised
  cases hRaised

theorem indifferent_of_stays
    (hPerm : reordered.Perm values)
    (hStays : Stays int64Min int64Max 0 (known values))
    (hStays' :
      Stays int64Min int64Max 0 (known reordered)) :
    Indifferent φ values reordered where
  same function hFunction := by
    left
    rw [aggregate_ok hStays, aggregate_ok hStays',
      tally_perm function (known_perm hPerm)]
    cases function with
    | count => exact ⟨_, rfl, rfl⟩
    | sum => exact ⟨_, rfl, rfl⟩
    | min => exact ⟨_, rfl, rfl⟩
    | max => exact ⟨_, rfl, rfl⟩
    | avg => exact absurd rfl hFunction
  total function hFunction := by
    rw [aggregate_ok hStays']
    simp only [List.mem_cons, List.not_mem_nil,
      or_false] at hFunction
    rcases hFunction with rfl | rfl | rfl
    · exact ⟨_, rfl⟩
    · exact ⟨_, rfl⟩
    · exact ⟨_, rfl⟩
  sum := by
    have hFits : int64Min ≤ (known reordered).sum ∧
        (known reordered).sum ≤ int64Max := by
      by_cases hEmpty : known reordered = []
      · rw [hEmpty]
        decide
      · simpa using hStays'.sum hEmpty
    refine ⟨fun ⟨raised, hRaised⟩ => ?_,
      fun hNot => absurd hFits hNot⟩
    rw [aggregate_ok hStays'] at hRaised
    cases hRaised

variable (φ)

/- Every order of the rows gives the same, and nothing raises
   but a sum that does not fit, exactly when neither the
   positive values by themselves nor the negative ones pass
   the bounds of an INTEGER. -/
theorem indifferent_iff
    (values : List (Option StoredInteger)) :
    (∀ reordered : List (Option StoredInteger),
      reordered.Perm values → Indifferent φ values reordered) ↔
    int64Min ≤ losses (known values) ∧
      gains (known values) ≤ int64Max := by
  have hZero : int64Min ≤ 0 ∧ (0 : Int) ≤ int64Max := by
    decide
  rw [← Library.RunningTotal.stays_perm_iff hZero]
  constructor
  · intro hFree ints hPerm
    rcases exists_perm_known hPerm with
      ⟨reordered, hReordered, rfl⟩
    exact stays_of_indifferent (hFree reordered hReordered)
  · intro hStays reordered hPerm
    exact indifferent_of_stays hPerm
      (hStays _ (List.Perm.refl _))
      (hStays _ (known_perm hPerm))

/- `COUNT` of two values whose sum nobody asked for. -/
theorem count_overflows :
    ¬ ∀ reordered : List (Option StoredInteger),
      reordered.Perm
          [some ⟨int64Max, by decide⟩, some ⟨1, by decide⟩] →
        Indifferent Rat
          [some ⟨int64Max, by decide⟩, some ⟨1, by decide⟩]
          reordered := by
  intro hFree
  rcases (hFree _ (List.Perm.refl _)).total .count (by simp)
    with ⟨value, hValue⟩
  cases hValue

end Independence

end Executor

end ChenDB
