import ChenDB.Optimizer.ColumnCounts

/-
  The estimate of an equijoin between two columns whose lists
  are complete is no estimate: it is the number of pairs of
  rows that match, out of all the pairs there are.
-/

--
-- Frequencies
--

namespace ChenDB

namespace Optimizer

open Executor (FloatArithmetic Value binaryValue compareValues
  compareValues_place comparison noArithmetic place sameKey
  sameKey_place)
open Library.Tally
open Planner (ColumnStatistics Comparable Counter
  statisticsTarget)
open Serialization (Codable)

section Dictionaries

variable {κ ν : Type} [Comparable κ]

theorem store_fresh
    {key : κ}
    {value : ν}
    {table : List (κ × ν)}
    (hFresh : ∀ entry ∈ table,
      Comparable.same entry.1 key = false) :
    store key value table = table ++ [(key, value)] := by
  induction table with
  | nil => rfl
  | cons entry table ih =>
    rw [store, hFresh entry (.head _),
      if_neg Bool.false_ne_true,
      ih fun other hOther =>
        hFresh other (.tail _ hOther),
      List.cons_append]

/- Of values that differ, every one keeps its place. -/
theorem frequencies_eq
    {info : ColumnStatistics κ}
    (hApart : info.mostCommon.Pairwise fun first second =>
      Comparable.same first.1 second.1 = false)
    (rowCount : ℕ) :
    frequencies info rowCount =
      info.mostCommon.map fun entry =>
        (entry.1, (entry.2 / rowCount : ℚ)) := by
  unfold frequencies
  generalize info.mostCommon = counts at hApart ⊢
  induction counts using List.reverseRecOn with
  | nil => rfl
  | append_singleton counts entry ih =>
    rcases List.pairwise_append.mp hApart with
      ⟨hBefore, _, hAcross⟩
    rw [List.foldl_append, ih hBefore, List.foldl_cons,
      List.foldl_nil, store_fresh, List.map_append]
    · rfl
    · intro other hOther
      rcases List.mem_map.mp hOther with ⟨old, hOld, rfl⟩
      exact hAcross old hOld entry (.head _)

theorem sum_filter {α : Type}
    (p : α → Bool)
    (f : α → ℚ)
    (xs : List α) :
    ((xs.filter p).map f).sum =
      (xs.map fun x => if p x then f x else 0).sum := by
  induction xs with
  | nil => rfl
  | cons x xs ih =>
    rw [List.map_cons, List.sum_cons, ← ih]
    cases hHolds : p x <;> simp [hHolds]

theorem sum_div {α : Type}
    (f : α → ℕ)
    (divisor : ℚ)
    (xs : List α) :
    (xs.map fun x => (f x : ℚ) / divisor).sum =
      ((xs.map f).sum : ℕ) / divisor := by
  induction xs with
  | nil => simp
  | cons x xs ih =>
    rw [List.map_cons, List.sum_cons, ih, List.map_cons,
      List.sum_cons, Nat.cast_add, add_div]

variable {ρ : Type} [DecidableEq ρ] {rank : κ → ρ}

/- A value is looked up by its rank, and comes with the count
   of that rank. -/
theorem lookUp_counts
    {counts : Counter κ}
    {value : κ}
    (rowCount : ℕ)
    (hNodup : ((ranked rank counts).map Prod.fst).Nodup)
    (hSame : ∀ entry ∈ counts,
      Comparable.same entry.1 value =
        decide (rank entry.1 = rank value)) :
    lookUp value (counts.map fun entry =>
        (entry.1, (entry.2 / rowCount : ℚ))) =
      if rank value ∈ (ranked rank counts).map Prod.fst then
        some (rows (fun other => decide (other = rank value))
          (ranked rank counts) / rowCount : ℚ)
      else none := by
  induction counts with
  | nil => rfl
  | cons entry counts ih =>
    have hRest := ih
      (List.nodup_cons.mp hNodup).2
      fun other hOther =>
        hSame other (.tail _ hOther)
    have hEntry := hSame entry (.head _)
    unfold lookUp at hRest ⊢
    rw [List.map_cons, List.find?_cons]
    by_cases hKey : rank entry.1 = rank value
    · have hNone : ∀ other ∈ ranked rank counts,
          decide (other.1 = rank value) = false := by
        intro other hOther
        refine decide_eq_false fun hOwn => ?_
        refine (List.nodup_cons.mp hNodup).1 ?_
        show rank entry.1 ∈ _
        rw [hKey, ← hOwn]
        exact List.mem_map_of_mem hOther
      have hCount : rows
          (fun other => decide (other = rank value))
          (ranked rank (entry :: counts)) = entry.2 := by
        rw [ranked, List.map_cons, rows_cons,
          if_pos (decide_eq_true hKey)]
        exact (congrArg _ (rows_none hNone)).trans
          (Nat.add_zero _)
      rw [hCount, hEntry, decide_eq_true hKey, if_pos]
      · rfl
      · exact List.mem_cons.mpr (.inl hKey.symm)
    · have hCount : rows
          (fun other => decide (other = rank value))
          (ranked rank (entry :: counts)) =
          rows (fun other => decide (other = rank value))
            (ranked rank counts) := by
        rw [ranked, List.map_cons, rows_cons,
          if_neg (by simpa using hKey), Nat.zero_add]
        rfl
      have hMem : rank value ∈
          (ranked rank (entry :: counts)).map Prod.fst ↔
          rank value ∈ (ranked rank counts).map Prod.fst :=
        List.mem_cons.trans
          (or_iff_right fun hSelf => hKey hSelf.symm)
      rw [hCount, hEntry, decide_eq_false hKey, hRest]
      simp only [hMem]

/- What the shared values come to. -/
theorem matched_eq
    {left right : Counter κ}
    (leftRows rightRows : ℕ)
    (hLeft : ((ranked rank left).map Prod.fst).Nodup)
    (hRight : ((ranked rank right).map Prod.fst).Nodup)
    (hOwn : ∀ entry ∈ left, ∀ other ∈ left,
      Comparable.same other.1 entry.1 =
        decide (rank other.1 = rank entry.1))
    (hSame : ∀ entry ∈ left, ∀ other ∈ right,
      Comparable.same other.1 entry.1 =
        decide (rank other.1 = rank entry.1)) :
    (((left.map fun entry =>
        (entry.1, (entry.2 / leftRows : ℚ))).filter
          fun entry => (lookUp entry.1 (right.map fun entry =>
            (entry.1, (entry.2 / rightRows : ℚ)))).isSome).map
        fun entry =>
          (lookUp entry.1 (left.map fun entry =>
            (entry.1, (entry.2 / leftRows : ℚ)))).getD 0 *
          (lookUp entry.1 (right.map fun entry =>
            (entry.1, (entry.2 / rightRows : ℚ)))).getD
              0).sum =
      (weigh (fun key => rows
        (fun other => decide (other = key))
          (ranked rank right)) (ranked rank left) : ℚ) /
        (leftRows * rightRows) := by
  have hTerm : ∀ entry ∈ left,
      (if (lookUp entry.1 (right.map fun entry =>
          (entry.1, (entry.2 / rightRows : ℚ)))).isSome then
        (lookUp entry.1 (left.map fun entry =>
          (entry.1, (entry.2 / leftRows : ℚ)))).getD 0 *
        (lookUp entry.1 (right.map fun entry =>
          (entry.1, (entry.2 / rightRows : ℚ)))).getD 0
      else 0) =
        (entry.2 * rows
          (fun other => decide (other = rank entry.1))
          (ranked rank right) : ℕ) /
          ((leftRows : ℚ) * rightRows) := by
    intro entry hEntry
    have hMem : (rank entry.1, entry.2) ∈
        ranked rank left := List.mem_map_of_mem hEntry
    rw [lookUp_counts rightRows hRight (hSame entry hEntry),
      lookUp_counts leftRows hLeft (hOwn entry hEntry),
      if_pos (List.mem_map_of_mem hMem),
      rows_eq_of_mem hLeft hMem]
    by_cases hThere : rank entry.1 ∈
        (ranked rank right).map Prod.fst
    · simp only [if_pos hThere, Option.isSome_some, if_true,
        Option.getD_some]
      push_cast
      ring
    · have hNone : ∀ other ∈ ranked rank right,
          decide (other.1 = rank entry.1) = false :=
        fun other hOther => decide_eq_false fun hKey =>
          hThere (hKey ▸ List.mem_map_of_mem hOther)
      rw [rows_none hNone]
      simp [if_neg hThere]
  rw [sum_filter, List.map_map]
  refine (congrArg List.sum
    (List.map_congr_left hTerm)).trans ?_
  rw [sum_div, weigh_ranked]

end Dictionaries

--
-- Matching Pairs
--

theorem countP_product {α β : Type}
    (p : α → β → Bool)
    (xs : List α)
    (ys : List β) :
    (xs.product ys).countP (fun pair => p pair.1 pair.2) =
      (xs.map fun x => ys.countP (p x)).sum := by
  unfold List.product
  rw [List.countP_flatMap]
  refine congrArg List.sum (List.map_congr_left fun x _ => ?_)
  exact List.countP_map

theorem sum_known
    (f : Codable → ℕ)
    (values : List Codable)
    (hNull : f .null = 0) :
    (values.map f).sum = ((known values).map f).sum := by
  induction values with
  | nil => rfl
  | cons value values ih =>
    rw [List.map_cons, List.sum_cons, ih]
    cases value <;> simp [known, Value.isNull, hNull]

section Pairs

variable [FloatArithmetic]

/- Values that are equal, NULL to nothing. -/
def equalValues (left right : Codable) : Bool :=
  !left.isNull && !right.isNull && sameKey left right

/- The pairs of rows whose values in two columns are equal. -/
def matchingPairs
    (left right : AnalyzedColumn) : ℕ :=
  (left.rows.product right.rows).countP fun pair =>
    equalValues (pair.1.getD left.position .null)
      (pair.2.getD right.position .null)

variable {value : Codable}

theorem known_real
    (analyzed : AnalyzedColumn)
    (hMem : value ∈ known analyzed.values) :
    value ≠ .null ∧ value.notNan = true := by
  have hSuits := analyzed.info_gathered.suits value hMem
  exact ⟨hSuits.ne_null, hSuits.2⟩

theorem notNan_value
    (analyzed : AnalyzedColumn)
    (hMem : value ∈ analyzed.values) :
    value.notNan = true := by
  cases hNull : value.isNull with
  | true =>
    cases value with
    | null => rfl
    | _ => cases hNull
  | false =>
    exact (known_real analyzed (List.mem_filter.mpr
      ⟨hMem, by simp [hNull]⟩)).2

theorem matchingPairs_eq (left right : AnalyzedColumn) :
    matchingPairs left right =
      (((known left.values).map place).map fun key =>
        ((known right.values).map place).countP
          fun other => decide (other = key)).sum := by
  have hRows : ∀ row : List Codable,
      right.rows.countP (fun other => equalValues
        (row.getD left.position .null)
        (other.getD right.position .null)) =
      right.values.countP (equalValues
        (row.getD left.position .null)) := by
    intro row
    unfold AnalyzedColumn.values valuesAt
    rw [List.countP_map]
    rfl
  refine (countP_product
    (fun row other : List Codable => equalValues
      (row.getD left.position .null)
      (other.getD right.position .null)) _ _).trans ?_
  simp only [hRows]
  have hValues : (left.rows.map fun row =>
      right.values.countP (equalValues
        (row.getD left.position .null))) =
      left.values.map fun value =>
        right.values.countP (equalValues value) := by
    unfold AnalyzedColumn.values valuesAt
    rw [List.map_map]
    rfl
  rw [hValues, sum_known, List.map_map]
  · refine congrArg List.sum
      (List.map_congr_left fun value hValue => ?_)
    rcases known_real left hValue with ⟨hNull, hNumber⟩
    show _ = ((known right.values).map place).countP _
    rw [List.countP_map, known, List.countP_filter]
    refine List.countP_congr fun other hOther => ?_
    unfold equalValues
    have hKnown : value.isNull = false := by
      cases value with
      | null => exact absurd rfl hNull
      | _ => rfl
    rw [hKnown]
    cases hOtherNull : other.isNull with
    | true => simp
    | false =>
      rcases known_real right (List.mem_filter.mpr
        ⟨hOther, by simp [hOtherNull]⟩) with
        ⟨hSome, hReal⟩
      rw [sameKey_place hNull hSome hNumber hReal]
      simp [eq_comm]
  · refine List.countP_eq_zero.mpr fun other _ => ?_
    exact Bool.false_ne_true

theorem listed_same
    (left right : AnalyzedColumn)
    {first second : Codable × ℕ}
    (hFirst : first ∈ left.info.mostCommon)
    (hSecond : second ∈ right.info.mostCommon) :
    Comparable.same second.1 first.1 =
      decide (place second.1 = place first.1) := by
  have hOne := known_real left
    (left.info_gathered.listed first hFirst)
  have hTwo := known_real right
    (right.info_gathered.listed second hSecond)
  exact sameKey_place hTwo.1 hOne.1 hTwo.2 hOne.2

theorem listed_apart (analyzed : AnalyzedColumn) :
    analyzed.info.mostCommon.Pairwise fun first second =>
      Comparable.same first.1 second.1 = false := by
  have hNodup := analyzed.info_gathered.nodup
  rw [ranked, List.map_map] at hNodup
  refine (List.pairwise_map.mp hNodup).imp_of_mem ?_
  intro first second hFirst hSecond hOther
  rw [listed_same analyzed analyzed hSecond hFirst]
  exact decide_eq_false hOther

/- NULL and a complete list account for every row. -/
theorem otherFraction_zero
    (analyzed : AnalyzedColumn)
    (hFew : distinct analyzed.values ≤ statisticsTarget) :
    otherFraction analyzed.info analyzed.stats.rowCount = 0 := by
  have hInfo := analyzed.info_gathered
  have hRows := analyzed.rows_pos
  have hSum : analyzed.info.nullCount +
      analyzed.info.mostCommonRows = analyzed.rows.length := by
    rw [hInfo.complete_rows hFew, hInfo.nulls,
      analyzed.length_values]
  have hSum : (analyzed.info.nullCount : ℚ) +
      analyzed.info.mostCommonRows = analyzed.rows.length := by
    exact_mod_cast hSum
  have hNonzero : (analyzed.rows.length : ℚ) ≠ 0 :=
    Nat.cast_ne_zero.mpr (Nat.pos_iff_ne_zero.mp hRows)
  unfold otherFraction ColumnStatistics.nullFraction
  rw [analyzed.counted,
    if_neg (Nat.pos_iff_ne_zero.mp hRows), sub_sub, ← add_div,
    hSum, div_self hNonzero, sub_self, max_self]

theorem listed_some
    (analyzed : AnalyzedColumn)
    (hSome : 1 ≤ distinct analyzed.values)
    (hFew : distinct analyzed.values ≤ statisticsTarget) :
    analyzed.info.mostCommon.isEmpty = false := by
  have hLength :=
    (analyzed.info_gathered.complete hFew).1.length_eq
  rw [length_tallied, ranked, List.length_map] at hLength
  rw [Bool.eq_false_iff, ne_eq, List.isEmpty_iff]
  intro hNone
  rw [hNone] at hLength
  unfold distinct at hSome
  rw [← hLength] at hSome
  exact absurd hSome (by decide)

/- Of one kind, they are equal where `=` is TRUE. -/
theorem equalValues_iff
    {first second : Codable}
    (hKind : first.kind = second.kind)
    (hFirst : first.notNan = true)
    (hSecond : second.notNan = true) :
    equalValues first second = true ↔
      binaryValue .eq first second = .ok (.bool true) := by
  by_cases hNull : first = .null
  · rw [hNull]
    refine iff_of_false (by simp [equalValues, Value.isNull])
      ?_
    simp [binaryValue, compareValues, bind, Except.bind]
  · have hOther : second ≠ .null := by
      rintro rfl
      cases first with
      | null => exact hNull rfl
      | _ => simp [Value.kind] at hKind
    have hKnown : ∀ value : Codable, value ≠ .null →
        value.isNull = false := by
      intro value hSome
      cases value with
      | null => exact absurd rfl hSome
      | _ => rfl
    simp only [equalValues, hKnown first hNull,
      hKnown second hOther,
      sameKey_place hNull hOther hFirst hSecond, binaryValue,
      compareValues_place hKind hNull hFirst hSecond, bind,
      Except.bind, pure, Except.pure, comparison,
      compare_eq_iff_eq]
    simp

/- Between complete lists the estimate is the share of the
   pairs that match; where the values compare at all, those
   are the pairs on which `=` is TRUE. -/
theorem mcvJoin_exact
    (left right : AnalyzedColumn)
    (hLeftSome : 1 ≤ distinct left.values)
    (hLeftFew : distinct left.values ≤ statisticsTarget)
    (hRightSome : 1 ≤ distinct right.values)
    (hRightFew : distinct right.values ≤ statisticsTarget) :
    mcvJoinSelectivity left.info right.info
        left.stats.rowCount right.stats.rowCount =
      some (clamp (matchingPairs left right /
        (left.rows.length * right.rows.length))) ∧
    ∀ first ∈ left.values, ∀ second ∈ right.values,
      first.kind = second.kind →
        (equalValues first second = true ↔
          binaryValue .eq first second =
            .ok (.bool true)) := by
  refine ⟨?_, fun first hFirst second hSecond hKind =>
    equalValues_iff hKind (notNan_value left hFirst)
      (notNan_value right hSecond)⟩
  have hLeft := left.info_gathered
  have hRight := right.info_gathered
  have hMatched := matched_eq left.stats.rowCount
    right.stats.rowCount hLeft.nodup hRight.nodup
    (fun _ hEntry _ hOther =>
      listed_same left left hEntry hOther)
    (fun _ hEntry _ hOther =>
      listed_same left right hEntry hOther)
  have hPairs : weigh (fun key => rows
      (fun other => decide (other = key))
        (ranked place right.info.mostCommon))
      (ranked place left.info.mostCommon) =
      matchingPairs left right := by
    rw [weigh_perm _ (hLeft.complete hLeftFew).1,
      weigh_tallied, matchingPairs_eq]
    simp only [hRight.rows_complete hRightFew]
  rw [hPairs] at hMatched
  unfold mcvJoinSelectivity
  rw [if_neg]
  · simp only [frequencies_eq (listed_apart left),
      frequencies_eq (listed_apart right),
      otherFraction_zero left hLeftFew,
      otherFraction_zero right hRightFew, hMatched, mul_zero,
      zero_div, add_zero, zero_mul, ite_self]
    rw [left.counted, right.counted]
  · rw [listed_some left hLeftSome hLeftFew,
      listed_some right hRightSome hRightFew]
    simp [left.counted, right.counted, left.nonempty,
      right.nonempty]

end Pairs

section Sevens

attribute [local instance] noArithmetic

theorem distinct_sevens :
    distinct (integerColumn 7 [7]).values = 1 := by
  show ([place (.int 7), place (.int 7)].dedup).length = 1
  rw [List.dedup_cons_of_mem (.head _)]
  rfl

theorem mcvJoin_exact_sevens :
    mcvJoinSelectivity (integerColumn 7 [7]).info
        (integerColumn 7 [7]).info 2 2 =
      some (clamp (matchingPairs (integerColumn 7 [7])
        (integerColumn 7 [7]) / (2 * 2))) :=
  (mcvJoin_exact (integerColumn 7 [7]) (integerColumn 7 [7])
    (le_of_eq distinct_sevens.symm)
    (distinct_sevens.trans_le (by decide))
    (le_of_eq distinct_sevens.symm)
    (distinct_sevens.trans_le (by decide))).1

end Sevens

end Optimizer

end ChenDB
