import ChenDB.Optimizer.ColumnCounts

/-
  The estimate of a comparison with a literal, over a column
  whose list is complete. Every listed value is counted as it
  is; a value that is not there counts as one row, and that
  row is taken from, or added to, what the other operators
  count.
-/

--
-- Rows Where a Comparison Is True
--

namespace ChenDB

namespace Optimizer

open Executor (Binary64 BinaryOperator BoundColumn
  BoundExpression FloatArithmetic binaryValue
  compareValues_place compare_swap comparison evaluate
  evaluateBound evaluate_strict noArithmetic place)
open Indexing (DataType)
open Library.Tally
open Planner (ColumnStatistics Comparable TableStatistics
  mirrored statisticsTarget)
open Serialization (Codable)

/- A column compared with a literal, one way round or the
   other. -/
inductive IsComparison
    (column : BoundColumn)
    (op : BinaryOperator)
    (value : Codable) : BoundExpression Binary64 → Prop where
  | written {node left right dataType} :
      IsComparison column op value
        (.binaryOp node op (.column left column)
          (.literal right value dataType))
  | reversed {node left right dataType} :
      IsComparison column op value
        (.binaryOp node (mirrored op)
          (.literal left value dataType)
          (.column right column))

variable {op : BinaryOperator}

theorem mirrored_mirrored
    (hOp : op.isComparison = true) :
    mirrored (mirrored op) = op := by
  cases op <;> rfl

theorem isComparison_mirrored
    (hOp : op.isComparison = true) :
    (mirrored op).isComparison = true := by
  cases op <;> first | rfl | cases hOp

/- What a comparison makes of an ordering and of the same the
   other way round. -/
theorem comparison_mirrored
    (hOp : op.isComparison = true)
    (order : Ordering) :
    comparison (mirrored op) order.swap =
      comparison op order := by
  cases op <;> cases order <;> rfl

section Truth

variable [FloatArithmetic]

/- Is the predicate TRUE on a row? -/
def isTrueOn
    (predicate : BoundExpression Binary64)
    (row : List Codable) : Bool :=
  match evaluateBound (fun index => row.get index)
      predicate with
  | .ok (.bool true) => true
  | _ => false

def trueRows
    (predicate : BoundExpression Binary64)
    (rows : List (List Codable)) : ℕ :=
  rows.countP (isTrueOn predicate)

/- Where the literal stands, as the operator has it. -/
def holdsAt
    (op : BinaryOperator)
    (value other : Codable) : Bool :=
  !other.isNull &&
    comparison op (Ord.compare (place other) (place value))

variable {op : BinaryOperator} {dataType : DataType}

theorem binaryValue_comparison
    (hOp : op.isComparison = true)
    {left right : Codable}
    (hLeft : Suits dataType left)
    (hRight : Suits dataType right) :
    binaryValue op left right =
      .ok (.bool (comparison op
        (Ord.compare (place left) (place right)))) := by
  have hValues := compareValues_place (hLeft.kind hRight)
    hLeft.ne_null hLeft.2 hRight.2 op
  cases op with
  | add => cases hOp
  | subtract => cases hOp
  | multiply => cases hOp
  | divide => cases hOp
  | modulo => cases hOp
  | and => cases hOp
  | or => cases hOp
  | _ =>
    simp only [binaryValue, hValues, bind, Except.bind,
      pure, Except.pure]

omit [FloatArithmetic] in
theorem isLogical_comparison
    (hOp : op.isComparison = true) :
    op.isLogical = false := by
  cases op <;> first | rfl | cases hOp

variable {value : Codable}

omit [FloatArithmetic] in
theorem Suits.known
    (hSuits : Suits dataType value) :
    value.isNull = false := by
  cases value with
  | null => exact absurd rfl hSuits.ne_null
  | _ => rfl

theorem isTrueOn_comparison
    {column : BoundColumn}
    {predicate : BoundExpression Binary64}
    {row : List Codable}
    (hOp : op.isComparison = true)
    (hPredicate : IsComparison column op value predicate)
    (hValue : Suits dataType value)
    (hIndex : column.columnIndex < row.length)
    (hOther : (row.getD column.columnIndex .null).isNull =
        true ∨
      Suits dataType
        (row.getD column.columnIndex .null)) :
    isTrueOn predicate row =
      holdsAt op value (row.getD column.columnIndex .null) := by
  have hColumn : evaluate (fun index => row.get index)
      (.column column.toBoundColumnRef) =
        .ok (row.getD column.columnIndex .null) := by
    rw [List.getD_eq_getElem _ _ hIndex, evaluate,
      dif_pos hIndex]
    rfl
  have hLiteral : evaluate (fun index => row.get index)
      (.literal value) = .ok value := by
    rw [evaluate]
  generalize row.getD column.columnIndex .null = other
    at hOther hColumn ⊢
  unfold isTrueOn evaluateBound holdsAt
  cases hPredicate with
  | written =>
    simp only [BoundExpression.toExpression]
    rw [evaluate_strict (isLogical_comparison hOp), hColumn,
      hLiteral]
    simp only [bind, Except.bind, hValue.known,
      Bool.false_eq_true, or_false]
    rcases hOther with hNull | hOther
    · simp [hNull, pure, Except.pure]
    · rw [hOther.known, if_neg Bool.false_ne_true,
        binaryValue_comparison hOp hOther hValue]
      cases comparison op _ <;> rfl
  | reversed =>
    simp only [BoundExpression.toExpression]
    rw [evaluate_strict (isLogical_comparison
      (isComparison_mirrored hOp)), hColumn, hLiteral]
    simp only [bind, Except.bind, hValue.known,
      Bool.false_eq_true, false_or]
    rcases hOther with hNull | hOther
    · simp [hNull, pure, Except.pure]
    · rw [hOther.known, if_neg Bool.false_ne_true,
        binaryValue_comparison (isComparison_mirrored hOp)
          hValue hOther, ← compare_swap,
        comparison_mirrored hOp]
      cases comparison op _ <;> rfl

end Truth

--
-- Occurrences
--

/- How many rows of a column are known, are below a literal,
   and are equal to it. -/
structure Occurrences where
  rows : ℕ
  known : ℕ
  below : ℕ
  equal : ℕ
  apart : below + equal ≤ known
  inside : known ≤ rows
  nonempty : 0 < rows

namespace Occurrences

variable (counts : Occurrences)

/- The rows on which a comparison is TRUE. -/
def matching : BinaryOperator → ℕ
  | .eq => counts.equal
  | .neq => counts.known - counts.equal
  | .lt => counts.below
  | .lte => counts.below + counts.equal
  | .gt => counts.known - counts.below - counts.equal
  | .gte => counts.known - counts.below
  | _ => 0

/- What the code takes for the rows equal to the literal: one
   at least, where any row is known. -/
def assumed : ℕ :=
  if counts.known = 0 then 0 else max counts.equal 1

/- The rows that the code comes to, before it sees to it that
   there is one at least. -/
def counted : BinaryOperator → ℤ
  | .eq => counts.assumed
  | .neq => counts.known - counts.assumed
  | .lt => counts.below
  | .lte => counts.below + counts.assumed
  | .gt => counts.known - (counts.below + counts.assumed)
  | .gte => counts.known - counts.below
  | _ => 0

/- The smallest selectivity is no more than the rows there
   are; and where the literal is not among the values, the row
   that it is taken for changes nothing. -/
def Exact (op : BinaryOperator) : Prop :=
  counts.rows ≤ 1000000 * max 1 (counts.matching op) ∧
    (0 < counts.equal ∨ counts.known = 0 ∨
      match op with
      | .neq => counts.known = 1 ∨
          counts.rows = 1000000 * counts.known
      | .lte => counts.below = 0 ∨ counts.below = counts.rows
      | .gt => counts.known - counts.below ≤ 1 ∨
          counts.rows = 1000000 * (counts.known - counts.below)
      | _ => True)

/- The estimate, in rows. -/
def estimated (op : BinaryOperator) : ℚ :=
  min (max (max (counts.counted op : ℚ) 1)
    (counts.rows / 1000000)) counts.rows

theorem estimated_eq_iff
    {op : BinaryOperator}
    (hOp : op.isComparison = true) :
    counts.estimated op = (max 1 (counts.matching op) : ℕ) ↔
      counts.Exact op := by
  have hScaled : 1000000 * counts.estimated op =
      (min (max (1000000 * max (counts.counted op) 1)
        counts.rows) (1000000 * counts.rows) : ℤ) := by
    unfold estimated
    rw [mul_min_of_nonneg _ _ (by decide),
      mul_max_of_nonneg _ _ (by decide)]
    push_cast
    ring_nf
  have hIff : counts.estimated op =
      (max 1 (counts.matching op) : ℕ) ↔
      min (max (1000000 * max (counts.counted op) 1)
        (counts.rows : ℤ)) (1000000 * counts.rows) =
        1000000 * (max 1 (counts.matching op) : ℕ) := by
    rw [← mul_right_inj' (by decide : (1000000 : ℚ) ≠ 0),
      hScaled]
    exact_mod_cast Iff.rfl
  rw [hIff]
  clear hIff hScaled
  have hApart := counts.apart
  have hInside := counts.inside
  have hNonempty := counts.nonempty
  unfold Exact matching counted assumed
  cases op with
  | eq =>
    simp only [or_true, and_true]
    split
    · omega
    · omega
  | neq =>
    simp only
    split
    · omega
    · omega
  | lt =>
    simp only [or_true, and_true]
    omega
  | lte =>
    simp only
    split
    · omega
    · omega
  | gt =>
    simp only
    split
    · omega
    · omega
  | gte =>
    simp only [or_true, and_true]
    omega
  | _ => cases hOp

end Occurrences

section Counting

variable {ω : Type} [LinearOrder ω]

/- By the three ways in which keys stand to a point. -/
theorem countP_compare
    (f : Ordering → Bool)
    (point : ω)
    (keys : List ω) :
    keys.countP (fun key => f (Ord.compare key point)) =
      (if f .lt then
        keys.countP fun key => decide (key < point) else 0) +
      (if f .eq then
        keys.countP fun key => decide (key = point) else 0) +
      (if f .gt then
        keys.countP fun key => decide (point < key)
      else 0) := by
  induction keys with
  | nil => simp
  | cons key keys ih =>
    simp only [List.countP_cons, ih]
    rcases lt_trichotomy key point with
      hLess | rfl | hMore
    · rw [compare_lt_iff_lt.mpr hLess]
      simp only [hLess, ne_of_lt hLess, lt_asymm hLess,
        decide_true, decide_false]
      cases f .lt <;> cases f .eq <;> cases f .gt <;>
        simp <;> omega
    · rw [compare_eq_iff_eq.mpr rfl]
      simp only [lt_irrefl, decide_true, decide_false]
      cases f .lt <;> cases f .eq <;> cases f .gt <;>
        simp <;> omega
    · rw [compare_gt_iff_gt.mpr hMore]
      simp only [hMore, (ne_of_lt hMore).symm,
        lt_asymm hMore, decide_true, decide_false]
      cases f .lt <;> cases f .eq <;> cases f .gt <;>
        simp <;> omega

end Counting

--
-- Estimates over a Complete List
--

namespace AnalyzedColumn

variable [FloatArithmetic] (analyzed : AnalyzedColumn)

/- The places of the values that are known. -/
def places : List (WithBot (WithTop ℤ) ⊕ₗ String) :=
  (known analyzed.values).map place

variable {value : Codable}

theorem countP_below
    (hValue : Suits analyzed.column.dataType value) :
    ((known analyzed.values).countP fun other =>
        Comparable.less other value) =
      analyzed.places.countP fun other =>
        decide (other < place value) := by
  rw [places, List.countP_map]
  refine List.countP_congr fun other hOther => ?_
  rw [(suits_ranks _).less
    (analyzed.info_gathered.suits other hOther) hValue]
  rfl

theorem countP_equal
    (hValue : Suits analyzed.column.dataType value) :
    ((known analyzed.values).countP fun other =>
        Comparable.same other value) =
      analyzed.places.countP fun other =>
        decide (other = place value) := by
  rw [places, List.countP_map]
  refine List.countP_congr fun other hOther => ?_
  rw [(suits_ranks _).same
    (analyzed.info_gathered.suits other hOther) hValue]
  rfl

/- Below the literal, equal to it and above it. -/
theorem parts (value : Codable) :
    analyzed.places.length =
      (analyzed.places.countP fun other =>
        decide (other < place value)) +
      (analyzed.places.countP fun other =>
        decide (other = place value)) +
      analyzed.places.countP fun other =>
        decide (place value < other) := by
  have hAll := countP_compare (fun _ => true)
    (place value) analyzed.places
  rw [List.countP_true] at hAll
  exact hAll

theorem length_places :
    analyzed.places.length = (known analyzed.values).length :=
  List.length_map _

/- How often the values of the column stand below a literal,
   and how often they equal it. -/
def occurrences
    (hValue : Suits analyzed.column.dataType value) :
    Occurrences where
  rows := analyzed.rows.length
  known := (known analyzed.values).length
  below := (known analyzed.values).countP fun other =>
    Comparable.less other value
  equal := (known analyzed.values).countP fun other =>
    Comparable.same other value
  apart := by
    rw [analyzed.countP_below hValue,
      analyzed.countP_equal hValue, ← analyzed.length_places,
      analyzed.parts value]
    exact Nat.le_add_right _ _
  inside := by
    have hNulls := analyzed.info_gathered.nulls
    rw [analyzed.length_values] at hNulls
    omega
  nonempty := analyzed.rows_pos

variable {op : BinaryOperator}

theorem matching_eq
    (hValue : Suits analyzed.column.dataType value)
    (hOp : op.isComparison = true) :
    (analyzed.places.countP fun other =>
        comparison op (Ord.compare other (place value))) =
      (analyzed.occurrences hValue).matching op := by
  have hParts := analyzed.parts value
  have hCompare :
      (analyzed.places.countP fun other =>
        comparison op (Ord.compare other (place value))) =
      (if comparison op .lt then
        analyzed.places.countP fun other =>
          decide (other < place value) else 0) +
      (if comparison op .eq then
        analyzed.places.countP fun other =>
          decide (other = place value) else 0) +
      (if comparison op .gt then
        analyzed.places.countP fun other =>
          decide (place value < other) else 0) :=
    countP_compare (comparison op) (place value)
      analyzed.places
  rw [hCompare]
  unfold Occurrences.matching occurrences
  simp only [analyzed.countP_below hValue,
    analyzed.countP_equal hValue, ← analyzed.length_places]
  generalize (analyzed.places.countP fun other =>
    decide (other < place value)) = below at hParts ⊢
  generalize (analyzed.places.countP fun other =>
    decide (other = place value)) = equal at hParts ⊢
  generalize (analyzed.places.countP fun other =>
    decide (place value < other)) = above at hParts ⊢
  cases op with
  | add => cases hOp
  | subtract => cases hOp
  | multiply => cases hOp
  | divide => cases hOp
  | modulo => cases hOp
  | and => cases hOp
  | or => cases hOp
  | _ => simp [comparison] <;> omega

/- The rows of the table that the comparison is TRUE on. -/
theorem trueRows_eq
    (hValue : Suits analyzed.column.dataType value)
    (hOp : op.isComparison = true)
    {column : BoundColumn}
    (hIndex : column.columnIndex = analyzed.position)
    {predicate : BoundExpression Binary64}
    (hPredicate : IsComparison column op value predicate) :
    trueRows predicate analyzed.rows =
      (analyzed.occurrences hValue).matching op := by
  rw [← analyzed.matching_eq hValue hOp]
  have hRows : trueRows predicate analyzed.rows =
      analyzed.values.countP (holdsAt op value) := by
    unfold trueRows values valuesAt
    rw [List.countP_map]
    refine List.countP_congr fun row hRow => ?_
    have hFits := analyzed.fits row hRow
    have hCell := fits_at hFits analyzed.isColumn
    have hWidth := (List.getElem?_eq_some_iff.mp
      analyzed.isColumn).1
    rw [isTrueOn_comparison hOp hPredicate hValue, hIndex]
    · rfl
    · rw [hIndex, ← hFits.length_eq]
      exact hWidth
    · rw [hIndex]
      cases hNull : (row.getD analyzed.position
          .null).isNull with
      | true => exact .inl rfl
      | false =>
        exact .inr (suits_of_hasType hCell.1 hCell.2 hNull)
  rw [hRows, places, List.countP_map, known, List.countP_filter]
  refine List.countP_congr fun other _ => ?_
  unfold holdsAt
  simp [and_comm]

theorem rowCount_ne_zero :
    analyzed.stats.rowCount ≠ 0 := by
  rw [analyzed.counted]
  exact Nat.pos_iff_ne_zero.mp analyzed.rows_pos

/- What is not NULL. -/
theorem nonNull_eq :
    1 - analyzed.info.nullFraction analyzed.stats.rowCount =
      ((known analyzed.values).length : ℚ) /
        analyzed.stats.rowCount := by
  have hNulls := analyzed.info_gathered.nulls
  rw [analyzed.length_values, ← analyzed.counted] at hNulls
  have hSum : (analyzed.info.nullCount : ℚ) +
      (known analyzed.values).length =
        analyzed.stats.rowCount := by
    exact_mod_cast hNulls
  have hNonzero : (analyzed.stats.rowCount : ℚ) ≠ 0 :=
    Nat.cast_ne_zero.mpr analyzed.rowCount_ne_zero
  unfold ColumnStatistics.nullFraction
  rw [if_neg analyzed.rowCount_ne_zero,
    sub_eq_iff_eq_add, ← add_div, add_comm, hSum,
    div_self hNonzero]

theorem listed_empty_iff
    (hFew : distinct analyzed.values ≤ statisticsTarget) :
    analyzed.info.mostCommon = [] ↔
      known analyzed.values = [] := by
  have hLength :=
    (analyzed.info_gathered.complete hFew).1.length_eq
  rw [length_tallied, ranked, List.length_map] at hLength
  rw [← List.length_eq_zero_iff, hLength,
    List.length_eq_zero_iff, List.dedup_eq_nil,
    List.map_eq_nil_iff]

theorem covers_iff
    (hFew : distinct analyzed.values ≤ statisticsTarget) :
    analyzed.info.coversEveryValue = true ↔
      known analyzed.values ≠ [] := by
  have hInfo := analyzed.info_gathered
  have hLength := (hInfo.complete hFew).1.length_eq
  rw [length_tallied, ranked, List.length_map] at hLength
  unfold ColumnStatistics.coversEveryValue
  rw [Bool.and_eq_true, Bool.not_eq_true', hInfo.distinct,
    hLength, Bool.eq_false_iff, ne_eq, List.isEmpty_iff,
    analyzed.listed_empty_iff hFew, decide_eq_true_eq]
  refine and_iff_left_of_imp fun hSome => ?_
  have hPos : 0 < distinct analyzed.values := by
    refine List.length_pos_of_ne_nil fun hNone => hSome ?_
    exact List.map_eq_nil_iff.mp
      ((List.dedup_eq_nil _).mp hNone)
  exact (max_eq_left hPos).symm

/- Equal rows, or the one row that an absent value is taken
   for. -/
theorem equalityFraction_complete
    (hValue : Suits analyzed.column.dataType value)
    (hFew : distinct analyzed.values ≤ statisticsTarget) :
    equalityFraction analyzed.info value
        analyzed.stats.rowCount =
      ((analyzed.occurrences hValue).assumed : ℚ) /
        analyzed.stats.rowCount := by
  have hInfo := analyzed.info_gathered
  have hPerm := (hInfo.complete hFew).1
  have hEqual : (analyzed.occurrences hValue).equal =
      analyzed.places.countP fun other =>
        decide (other = place value) :=
    analyzed.countP_equal hValue
  unfold equalityFraction
  rw [if_neg analyzed.rowCount_ne_zero]
  cases hFind : analyzed.info.mostCommon.find? fun entry =>
      Comparable.same entry.1 value with
  | some entry =>
    have hMem := hInfo.find_some hValue hFind
    have hCount := rows_eq_of_mem hInfo.nodup hMem
    rw [hInfo.rows_complete hFew] at hCount
    have hThere : place value ∈ analyzed.places :=
      (mem_tallied (hPerm.mem_iff.mp hMem)).1
    have hPos : 0 < entry.2 := by
      rw [← hCount]
      exact List.countP_pos_iff.mpr
        ⟨place value, hThere, decide_eq_true rfl⟩
    have hAssumed :
        (analyzed.occurrences hValue).assumed = entry.2 := by
      unfold Occurrences.assumed
      rw [if_neg, hEqual]
      · exact (congrArg (max · 1) hCount).trans
          (max_eq_left hPos)
      · intro hNone
        have hNil := List.length_eq_zero_iff.mp hNone
        rw [places, hNil] at hThere
        cases hThere
    rw [hAssumed]
  | none =>
    have hAbsent := hInfo.find_none hValue hFind
    have hNone : (analyzed.occurrences hValue).equal = 0 := by
      rw [hEqual]
      refine List.countP_eq_zero.mpr fun other hOther => ?_
      intro hSame
      refine hAbsent ?_
      rw [(hPerm.map Prod.fst).mem_iff, mem_keys_tallied,
        ← of_decide_eq_true hSame]
      exact hOther
    unfold Occurrences.assumed
    rw [hNone]
    by_cases hKnown : known analyzed.values = []
    · have hZero :
          (analyzed.occurrences hValue).known = 0 :=
        List.length_eq_zero_iff.mpr hKnown
      have hCovers :
          analyzed.info.coversEveryValue = false := by
        rw [Bool.eq_false_iff, ne_eq, analyzed.covers_iff hFew]
        exact not_not_intro hKnown
      have hOutside :
          outsideRange analyzed.info value = false := by
        rw [Bool.eq_false_iff, ne_eq,
          hInfo.outsideRange_iff hValue]
        exact fun hBoth => hBoth.1 hKnown
      have hEmpty : analyzed.info.mostCommon.isEmpty =
          true :=
        List.isEmpty_iff.mpr
          ((analyzed.listed_empty_iff hFew).mpr hKnown)
      simp [hCovers, hOutside, hEmpty, hZero,
        analyzed.nonNull_eq, hKnown]
    · have hCovers := (analyzed.covers_iff hFew).mpr hKnown
      have hSome :
          (analyzed.occurrences hValue).known ≠ 0 :=
        fun hZero => hKnown
          (List.length_eq_zero_iff.mp hZero)
      have hRows : 0 < analyzed.stats.rowCount :=
        Nat.pos_iff_ne_zero.mpr analyzed.rowCount_ne_zero
      simp [hCovers, hSome, oneRow, hRows]

theorem belowFraction_complete
    (hValue : Suits analyzed.column.dataType value)
    (hFew : distinct analyzed.values ≤ statisticsTarget)
    (inclusive : Bool) :
    belowFraction analyzed.info value
        analyzed.stats.rowCount inclusive =
      ((analyzed.occurrences hValue).below +
        if inclusive then
          ((analyzed.occurrences hValue).assumed : ℚ)
        else 0) / analyzed.stats.rowCount := by
  have hInfo := analyzed.info_gathered
  have hHistogram := (hInfo.complete hFew).2
  unfold belowFraction
  rw [if_neg analyzed.rowCount_ne_zero]
  by_cases hKnown : known analyzed.values = []
  · have hEmpty : analyzed.info.mostCommon.isEmpty = true :=
      List.isEmpty_iff.mpr
        ((analyzed.listed_empty_iff hFew).mpr hKnown)
    have hBelow : (analyzed.occurrences hValue).below = 0 := by
      unfold occurrences
      simp [hKnown]
    have hAssumed :
        (analyzed.occurrences hValue).assumed = 0 :=
      if_pos (List.length_eq_zero_iff.mpr hKnown)
    simp [hEmpty, hHistogram, analyzed.nonNull_eq, hKnown,
      hBelow, hAssumed]
  · have hSome : analyzed.info.mostCommon.isEmpty = false := by
      rw [Bool.eq_false_iff, ne_eq, List.isEmpty_iff,
        analyzed.listed_empty_iff hFew]
      exact hKnown
    have hBelow : (analyzed.occurrences hValue).below =
        Library.Tally.rows (fun candidate =>
          Comparable.less candidate value)
          analyzed.info.mostCommon := by
      rw [hInfo.listed_below hValue, hInfo.rows_complete hFew]
      exact analyzed.countP_below hValue
    have hNothing : histogramRowsBelow analyzed.info value
        analyzed.stats.rowCount = 0 := by
      unfold histogramRowsBelow
      simp [hHistogram]
    have hComparable : comparable analyzed.info.dataType
        value = true := by
      rw [hInfo.typed]
      exact hValue.1
    rw [hSome, hComparable, hNothing, ← hBelow,
      analyzed.equalityFraction_complete hValue hFew]
    cases inclusive with
    | true => simp [add_div]
    | false => simp

/- The match on the operator. -/
theorem operatorFraction_complete
    (hValue : Suits analyzed.column.dataType value)
    (hFew : distinct analyzed.values ≤ statisticsTarget)
    (hOp : op.isComparison = true) :
    operatorFraction analyzed.info value
        analyzed.stats.rowCount op =
      some (((analyzed.occurrences hValue).counted op : ℚ) /
        analyzed.stats.rowCount) := by
  have hKnown : ((known analyzed.values).length : ℚ) =
      (analyzed.occurrences hValue).known := rfl
  have hEquality :=
    analyzed.equalityFraction_complete hValue hFew
  have hBelow := analyzed.belowFraction_complete hValue hFew
  unfold Occurrences.counted
  cases op with
  | add => cases hOp
  | subtract => cases hOp
  | multiply => cases hOp
  | divide => cases hOp
  | modulo => cases hOp
  | and => cases hOp
  | or => cases hOp
  | _ =>
    simp only [operatorFraction, hEquality, hBelow,
      analyzed.nonNull_eq, hKnown, if_true,
      Bool.false_eq_true, if_false, add_zero]
    push_cast
    congr 1
    try ring

end AnalyzedColumn

section Estimates

variable [FloatArithmetic]

variable {op : BinaryOperator}

theorem selectivity_comparison
    (hOp : op.isComparison = true)
    (stats : TableStatistics)
    (node : Parser.Node)
    (left right : BoundExpression Binary64) :
    selectivity stats (.binaryOp node op left right) =
      comparisonSelectivity op left right stats := by
  cases op with
  | add => cases hOp
  | subtract => cases hOp
  | multiply => cases hOp
  | divide => cases hOp
  | modulo => cases hOp
  | and => cases hOp
  | or => cases hOp
  | _ =>
    rw [selectivity]
    · exact if_pos rfl
    all_goals
      intro hSame
      cases hSame

variable {column : BoundColumn} {value : Codable}
variable {predicate : BoundExpression Binary64}

omit [FloatArithmetic] in
theorem asColumnLiteral_comparison
    (hOp : op.isComparison = true)
    (hPredicate : IsComparison column op value predicate) :
    ∃ node written left right,
      predicate = .binaryOp node written left right ∧
        written.isComparison = true ∧
        asColumnLiteral written left right =
          some (column, op, value) := by
  cases hPredicate with
  | written => exact ⟨_, op, _, _, rfl, hOp, rfl⟩
  | reversed =>
    refine ⟨_, mirrored op, _, _, rfl,
      isComparison_mirrored hOp, ?_⟩
    rw [asColumnLiteral, mirrored_mirrored hOp]

/- What the comparison of an analyzed column with a literal
   comes to. -/
theorem selectivity_analyzed
    (analyzed : AnalyzedColumn)
    (hValue : Suits analyzed.column.dataType value)
    (hOp : op.isComparison = true)
    (hTable : column.tablePosition = some analyzed.position)
    (hPredicate : IsComparison column op value predicate)
    {fraction : ℚ}
    (hFraction : operatorFraction analyzed.info value
      analyzed.stats.rowCount op = some fraction) :
    selectivity analyzed.stats predicate =
      max fraction (1 / analyzed.stats.rowCount) := by
  rcases asColumnLiteral_comparison hOp hPredicate with
    ⟨node, written, left, right, rfl, hWritten, hMatched⟩
  rw [selectivity_comparison hWritten]
  have hStats : columnStats column analyzed.stats =
      some analyzed.info := by
    unfold columnStats
    rw [hTable]
    exact analyzed.isInfo
  have hRow : oneRow analyzed.stats.rowCount =
      1 / analyzed.stats.rowCount :=
    if_pos (Nat.pos_iff_ne_zero.mpr
      analyzed.rowCount_ne_zero)
  unfold comparisonSelectivity
  rw [hMatched]
  simp only
  rw [hStats]
  simp only
  rw [hValue.known, if_neg Bool.false_ne_true, hFraction, hRow]

theorem estimate_complete
    (analyzed : AnalyzedColumn)
    (hFew : distinct analyzed.values ≤ statisticsTarget)
    (hValue : Suits analyzed.column.dataType value)
    (hOp : op.isComparison = true)
    (hTable : column.tablePosition = some analyzed.position)
    (hPredicate : IsComparison column op value predicate) :
    estimateSelectivity (some predicate) analyzed.stats *
        analyzed.stats.rowCount =
      (analyzed.occurrences hValue).estimated op := by
  have hFraction :=
    analyzed.operatorFraction_complete hValue hFew hOp
  have hRows : (0 : ℚ) < analyzed.stats.rowCount :=
    Nat.cast_pos.mpr (Nat.pos_iff_ne_zero.mpr
      analyzed.rowCount_ne_zero)
  have hCount : ((analyzed.occurrences hValue).rows : ℚ) =
      analyzed.stats.rowCount := by
    rw [analyzed.counted]
    rfl
  unfold estimateSelectivity clamp minSelectivity
    Occurrences.estimated
  simp only
  rw [selectivity_analyzed analyzed hValue hOp hTable
    hPredicate hFraction, hCount,
    min_mul_of_nonneg _ _ hRows.le,
    max_mul_of_nonneg _ _ hRows.le,
    max_mul_of_nonneg _ _ hRows.le,
    div_mul_cancel₀ _ hRows.ne', div_mul_cancel₀ _ hRows.ne',
    one_mul, one_div_mul_eq_div]

/- The estimate is the number of the rows on which the
   comparison is TRUE, or one, exactly where the row that an
   absent value is taken for changes nothing, and the smallest
   selectivity is no more than that. -/
theorem estimate_exact_iff
    (analyzed : AnalyzedColumn)
    (hFew : distinct analyzed.values ≤ statisticsTarget)
    {value : Codable}
    (hValue : Suits analyzed.column.dataType value)
    {op : BinaryOperator}
    (hOp : op.isComparison = true)
    {column : BoundColumn}
    (hTable : column.tablePosition = some analyzed.position)
    (hIndex : column.columnIndex = analyzed.position)
    {predicate : BoundExpression Binary64}
    (hPredicate : IsComparison column op value predicate) :
    estimateSelectivity (some predicate) analyzed.stats *
        analyzed.stats.rowCount =
        (max 1 (trueRows predicate analyzed.rows) : ℕ) ↔
      (analyzed.occurrences hValue).Exact op := by
  rw [estimate_complete analyzed hFew hValue hOp hTable
    hPredicate, analyzed.trueRows_eq hValue hOp hIndex
      hPredicate]
  exact (analyzed.occurrences hValue).estimated_eq_iff hOp

end Estimates

section OneAndThree

attribute [local instance] noArithmetic

/- The rows 1 and 3. -/
def oneAndThree : AnalyzedColumn := integerColumn 1 [3]

/- The column of `oneAndThree`, bound. -/
def boundNumber : BoundColumn where
  name := "n"
  columnIndex := 0
  scanPosition := some 0
  dataType := .integer
  table := some "t"
  tableName := some "t"
  tablePosition := some 0

def atNoNode : Parser.Node :=
  { nodeId := 0
    span := { start := 0, stop := 0, line := 1, column := 1 } }

/- `n <= number`. -/
def numberAtMost (number : ℤ) : BoundExpression Binary64 :=
  .binaryOp atNoNode .lte (.column atNoNode boundNumber)
    (.literal atNoNode (.int number) (some .integer))

theorem isComparison_numberAtMost (number : ℤ) :
    IsComparison boundNumber .lte (.int number)
      (numberAtMost number) := .written

theorem suits_number (number : ℤ) :
    Suits oneAndThree.column.dataType
      (.int number : Codable) := ⟨rfl, rfl⟩

theorem distinct_oneAndThree :
    distinct oneAndThree.values ≤ statisticsTarget :=
  ((List.dedup_sublist _).length_le.trans
    (by decide : 2 ≤ statisticsTarget))

/- There is one row below the literal and one above, and the
   estimate is two. -/
theorem not_exact_two :
    ¬ (oneAndThree.occurrences (suits_number 2)).Exact
      .lte := by
  rintro ⟨_, hEqual | hKnown | hBelow | hAll⟩
  · exact absurd hEqual (by decide)
  · exact absurd hKnown (by decide)
  · exact absurd hBelow (by decide)
  · exact absurd hAll (by decide)

theorem absent_two_overestimated :
    estimateSelectivity (some (numberAtMost 2))
        oneAndThree.stats * oneAndThree.stats.rowCount ≠
      (max 1 (trueRows (numberAtMost 2)
        oneAndThree.rows) : ℕ) := by
  rw [estimate_complete oneAndThree distinct_oneAndThree
    (suits_number 2) rfl rfl (isComparison_numberAtMost 2),
    oneAndThree.trueRows_eq (suits_number 2) rfl rfl
      (isComparison_numberAtMost 2), ne_eq,
    (oneAndThree.occurrences (suits_number 2)).estimated_eq_iff
      rfl]
  exact not_exact_two

theorem estimate_exact_three :
    estimateSelectivity (some (numberAtMost 3))
        oneAndThree.stats * oneAndThree.stats.rowCount =
      (max 1 (trueRows (numberAtMost 3)
        oneAndThree.rows) : ℕ) := by
  refine (estimate_exact_iff oneAndThree distinct_oneAndThree
    (suits_number 3) rfl rfl rfl
    (isComparison_numberAtMost 3)).mpr ⟨?_, .inl ?_⟩
  · decide
  · decide

end OneAndThree

end Optimizer

end ChenDB
