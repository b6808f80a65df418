import ChenDB.Executor.Places
import ChenDB.Optimizer.Cost
import ChenDB.Planner.EquiDepth

/-
  What the statistics of a column say of its values: the list
  and the histogram are those of the places of the values that
  are not NULL.
-/

--
-- Values of a Column
--

namespace ChenDB

namespace Optimizer

open Executor (FloatArithmetic lessThan_place place
  sameKey_place isNan_of_isFinite)
open Indexing (DataType)
open Library.Tally
open Planner (ColumnStatistics ColumnTally Comparable Counter
  Ranks TableStatistics gatherRows snapshotOf
  statisticsTarget summarise takeValue unknownDistinct)
open Serialization (Codable Column Schema)

/- Those that are not NULL. -/
def known (values : List Codable) : List Codable :=
  values.filter fun value => !value.isNull

/- The values of one column, row by row. -/
def valuesAt
    (position : ℕ)
    (rows : List (List Codable)) : List Codable :=
  rows.map fun row => row.getD position .null

/- How many different values there are. -/
def distinct (values : List Codable) : ℕ :=
  ((known values).map place).dedup.length

/- A value that compares with those of a column. -/
def Suits (dataType : DataType) (value : Codable) : Prop :=
  comparable dataType value = true ∧ value.notNan = true

variable {dataType : DataType}

theorem Suits.ne_null
    {value : Codable}
    (hSuits : Suits dataType value) :
    value ≠ .null := by
  rintro rfl
  cases dataType <;> cases hSuits.1

theorem Suits.kind
    {left right : Codable}
    (hLeft : Suits dataType left)
    (hRight : Suits dataType right) :
    left.kind = right.kind := by
  have hOne := hLeft.1
  have hTwo := hRight.1
  cases dataType <;> cases left <;>
    first
    | exact absurd hOne Bool.false_ne_true
    | (cases right <;>
        first
        | rfl
        | exact absurd hTwo Bool.false_ne_true)

section Ranks

variable [FloatArithmetic]

/- The values that suit one column are ranked by place. -/
theorem suits_ranks (dataType : DataType) :
    Ranks place (Suits dataType) where
  less := by
    intro first second hFirst hSecond
    simp only [Comparable.less,
      lessThan_place (hFirst.kind hSecond) hFirst.ne_null
        hFirst.2 hSecond.2]
  same := by
    intro first second hFirst hSecond
    exact sameKey_place hFirst.ne_null hSecond.ne_null
      hFirst.2 hSecond.2

end Ranks

--
-- One Pass
--

section Pass

variable [FloatArithmetic]

/- The value that a running comparison ends with. -/
def best
    (beats : Codable → Codable → Bool)
    (values : List Codable) : Option Codable :=
  values.foldl (fun found value =>
    ColumnTally.better beats value found) none

theorem foldl_takeValue (values : List Codable) :
    values.foldl takeValue ColumnTally.fresh =
      { seen := tally Comparable.same (known values)
        nulls := values.countP fun value => value.isNull
        minimum := best Comparable.less (known values)
        maximum := best (fun value found =>
          Comparable.less found value) (known values) } := by
  induction values using List.reverseRecOn with
  | nil => rfl
  | append_singleton values value ih =>
    rw [List.foldl_append, ih, List.foldl_cons, List.foldl_nil]
    unfold takeValue known best
    cases hNull : value.isNull with
    | true => simp [hNull]
    | false =>
      simp only [Bool.false_eq_true, if_false,
        ColumnTally.know, List.filter_append,
        List.countP_append, List.foldl_append]
      simp [hNull, tally_snoc]

variable {rows : List (List Codable)} {position : ℕ}

/- Every column of a table is gathered by itself. -/
theorem foldl_zipWith
    {tallies : List (ColumnTally Codable)}
    (hWide : ∀ row ∈ rows, row.length = tallies.length)
    (hPosition : position < tallies.length) :
    (rows.foldl (fun tallies row =>
        List.zipWith takeValue tallies row)
      tallies)[position]? =
      some ((valuesAt position rows).foldl takeValue
        tallies[position]) := by
  induction rows generalizing tallies with
  | nil => simp [valuesAt, hPosition]
  | cons row rows ih =>
    have hRow := hWide row (.head _)
    have hLength : (List.zipWith takeValue tallies
        row).length = tallies.length := by
      rw [List.length_zipWith, hRow, Nat.min_self]
    rw [List.foldl_cons, ih]
    · unfold valuesAt
      rw [List.map_cons, List.foldl_cons, List.getElem_zipWith]
      rw [List.getD_eq_getElem _ _ (hRow ▸ hPosition)]
    · intro other hOther
      rw [hLength]
      exact hWide other (.tail _ hOther)
    · rw [hLength]
      exact hPosition

/- A row that the heap of a table can hold. -/
def Fits (schema : Schema) (row : List Codable) : Prop :=
  List.Forall₂
    (fun (column : Column) (value : Codable) =>
      value.HasType column.dataType ∧ value.finite = true)
    schema.columns row

variable {schema : Schema} {column : Column}

theorem gatherRows_column
    (hRows : ∀ row ∈ rows, Fits schema row)
    (hColumn : schema.columns[position]? = some column) :
    (gatherRows schema rows)[position]? =
      some (((valuesAt position rows).foldl takeValue
        ColumnTally.fresh).describe column) := by
  rcases List.getElem?_eq_some_iff.mp hColumn with
    ⟨hPosition, rfl⟩
  unfold gatherRows
  rw [List.getElem?_zipWith, hColumn, foldl_zipWith]
  · simp
  · intro row hRow
    rw [List.length_map]
    exact (hRows row hRow).length_eq.symm
  · rw [List.length_map]
    exact hPosition

theorem fits_at
    {row : List Codable}
    (hFits : Fits schema row)
    (hColumn : schema.columns[position]? = some column) :
    (row.getD position .null).HasType column.dataType ∧
      (row.getD position .null).finite = true := by
  rcases List.getElem?_eq_some_iff.mp hColumn with
    ⟨hPosition, rfl⟩
  have hRow : position < row.length :=
    hFits.length_eq ▸ hPosition
  rw [List.getD_eq_getElem _ _ hRow]
  exact (List.forall₂_iff_get.mp hFits).2 position hPosition
    hRow

end Pass

--
-- What Is Gathered
--

section Gathered

variable [FloatArithmetic] {dataType : DataType}

/- The statistics of a column with some values. -/
structure Gathered
    (info : ColumnStatistics Codable)
    (dataType : DataType)
    (values : List Codable) : Prop where
  typed : info.dataType = dataType
  suits : ∀ value ∈ known values, Suits dataType value
  finite : ∀ value ∈ known values, value.finite = true
  nulls : info.nullCount + (known values).length = values.length
  distinct : info.distinctCount =
    max (distinct values) unknownDistinct
  listed : ∀ entry ∈ info.mostCommon, entry.1 ∈ known values
  bounded : ∀ bound ∈ info.histogram, bound ∈ known values
  summary : summarise (tallied ((known values).map place)) =
    (ranked place info.mostCommon, info.histogram.map place)
  minimum : info.minimum = best Comparable.less (known values)
  maximum : info.maximum =
    best (fun value found => Comparable.less found value)
      (known values)

variable {value : Codable}

theorem suits_of_hasType
    (hType : value.HasType dataType)
    (hFinite : value.finite = true)
    (hNull : value.isNull = false) :
    Suits dataType value := by
  rcases hType with hNone | hType
  · rw [hNull] at hNone
    cases hNone
  · cases value with
    | null => cases hNull
    | float value =>
      cases hType
      refine ⟨rfl, ?_⟩
      have hNan := isNan_of_isFinite hFinite
      show (!value.isNan) = true
      rw [hNan]
      rfl
    | _ =>
      cases hType
      exact ⟨rfl, rfl⟩

omit [FloatArithmetic] in
theorem countP_known (values : List Codable) :
    (values.countP fun value => value.isNull) +
      (known values).length = values.length := by
  rw [known, ← List.countP_eq_length_filter,
    List.length_eq_countP_add_countP
      (fun value : Codable => value.isNull)
      (l := values)]
  refine congrArg _ (List.countP_congr fun value _ => ?_)
  simp

theorem gathered_rows
    {schema : Schema}
    {rows : List (List Codable)}
    (hRows : ∀ row ∈ rows, Fits schema row)
    {position : ℕ}
    {column : Column}
    {info : ColumnStatistics Codable}
    (hColumn : schema.columns[position]? = some column)
    (hInfo : (gatherRows schema rows)[position]? = some info) :
    Gathered info column.dataType
      (valuesAt position rows) := by
  rw [gatherRows_column hRows hColumn, foldl_takeValue] at hInfo
  have hSuits : ∀ value ∈ known (valuesAt position rows),
      Suits column.dataType value ∧ value.finite = true := by
    intro value hMem
    rcases List.mem_filter.mp hMem with ⟨hMem, hNull⟩
    rcases List.mem_map.mp hMem with ⟨row, hRow, rfl⟩
    rcases fits_at (hRows row hRow) hColumn with
      ⟨hType, hFinite⟩
    exact ⟨suits_of_hasType hType hFinite (by
      simpa using hNull), hFinite⟩
  have hRanks := suits_ranks column.dataType
  have hSeen : ranked place (tally Comparable.same
      (known (valuesAt position rows))) =
      tallied ((known (valuesAt position rows)).map place) :=
    ranked_tally fun first hFirst second hSecond =>
      hRanks.same (hSuits first hFirst).1
        (hSuits second hSecond).1
  have hDrawn : ∀ entry ∈ tally Comparable.same
      (known (valuesAt position rows)),
      Suits column.dataType entry.1 :=
    fun entry hMem => (hSuits _ (drawn_tally hMem)).1
  have hSummary := hRanks.summarise hDrawn
  rw [hSeen] at hSummary
  cases hInfo
  exact
    { typed := rfl
      suits := fun value hMem => (hSuits value hMem).1
      finite := fun value hMem => (hSuits value hMem).2
      nulls := countP_known _
      distinct := by
        show max (tally _ _).length _ = _
        rw [distinct, ← length_tallied, ← hSeen, ranked,
          List.length_map]
      listed := fun entry hMem =>
        drawn_tally (Planner.mem_summarise hMem)
      bounded := by
        intro bound hMem
        rcases List.mem_map.mp
          (Planner.mem_histogram hMem) with
          ⟨entry, hEntry, rfl⟩
        exact drawn_tally hEntry
      summary := hSummary
      minimum := rfl
      maximum := rfl }

variable {info : ColumnStatistics Codable}
variable {values : List Codable}

/- With few different values the list is all of them. -/
theorem Gathered.complete
    (hInfo : Gathered info dataType values)
    (hFew : Optimizer.distinct values ≤ statisticsTarget) :
    (ranked place info.mostCommon).Perm
        (tallied ((known values).map place)) ∧
      info.histogram = [] := by
  have hLength := length_tallied ((known values).map place)
  have hSummary := Planner.summarise_complete
    (le_of_eq_of_le hLength hFew)
  rw [hInfo.summary] at hSummary
  exact ⟨hSummary.1, List.map_eq_nil_iff.mp hSummary.2⟩

omit [FloatArithmetic] in
theorem sum_ranked (counts : Counter Codable) :
    ((ranked place counts).map Prod.snd).sum =
      (counts.map Prod.snd).sum := by
  rw [ranked, List.map_map]
  rfl

omit [FloatArithmetic] in
/- All the rows counted are those of the values. -/
theorem sum_tallied {ρ : Type} [DecidableEq ρ]
    (values : List ρ) :
    ((tallied values).map Prod.snd).sum = values.length := by
  rw [← rows_all (p := fun _ => true) fun _ _ => rfl,
    rows_tallied, List.countP_true]

theorem Gathered.complete_rows
    (hInfo : Gathered info dataType values)
    (hFew : Optimizer.distinct values ≤ statisticsTarget) :
    info.mostCommonRows = (known values).length := by
  have hPerm := (hInfo.complete hFew).1
  have hSum := (hPerm.map Prod.snd).sum_eq
  rw [sum_ranked, sum_tallied, List.length_map] at hSum
  exact hSum

theorem Gathered.nodup
    (hInfo : Gathered info dataType values) :
    ((ranked place info.mostCommon).map Prod.fst).Nodup := by
  have hKeys := nodup_tallied ((known values).map place)
  rcases Nat.lt_or_ge statisticsTarget
      (Optimizer.distinct values) with hMany | hFew
  · have hSplits := (Planner.summarise_splits hKeys
      (lt_of_lt_of_eq hMany
        (length_tallied ((known values).map place)).symm)).1
    rw [hInfo.summary] at hSplits
    have hAll := (hSplits.perm.map Prod.fst).nodup_iff.mpr
      hKeys
    rw [List.map_append] at hAll
    exact (List.nodup_append.mp hAll).1
  · exact ((hInfo.complete hFew).1.map Prod.fst).nodup_iff.mpr
      hKeys

section Listed

variable (hInfo : Gathered info dataType values)

include hInfo

theorem Gathered.rows_complete
    (hFew : Optimizer.distinct values ≤ statisticsTarget)
    (p : WithBot (WithTop ℤ) ⊕ₗ String → Bool) :
    rows p (ranked place info.mostCommon) =
      ((known values).map place).countP p := by
  rw [rows_perm p (hInfo.complete hFew).1, rows_tallied]

/- The listed values below a literal, by their places. -/
theorem Gathered.listed_below
    (hSuits : Suits dataType value) :
    rows (fun candidate => Comparable.less candidate value)
        info.mostCommon =
      rows (fun other => decide (other < place value))
        (ranked place info.mostCommon) :=
  rows_ranked place fun entry hMem =>
    (suits_ranks dataType).less
      (hInfo.suits _ (hInfo.listed entry hMem)) hSuits

variable {entry : Codable × ℕ}

theorem Gathered.same_listed
    (hSuits : Suits dataType value)
    (hMem : entry ∈ info.mostCommon) :
    Comparable.same entry.1 value =
      decide (place entry.1 = place value) :=
  (suits_ranks dataType).same
    (hInfo.suits _ (hInfo.listed entry hMem)) hSuits

/- A literal that is found in the list has the count of its
   place. -/
theorem Gathered.find_some
    (hSuits : Suits dataType value)
    (hFind : (info.mostCommon.find? fun entry =>
      Comparable.same entry.1 value) = some entry) :
    (place value, entry.2) ∈ ranked place info.mostCommon := by
  have hMem := List.mem_of_find?_eq_some hFind
  have hSame := List.find?_some hFind
  rw [hInfo.same_listed hSuits hMem, decide_eq_true_eq] at hSame
  rw [← hSame]
  exact List.mem_map_of_mem hMem

theorem Gathered.find_none
    (hSuits : Suits dataType value)
    (hFind : (info.mostCommon.find? fun entry =>
      Comparable.same entry.1 value) = none) :
    place value ∉
      (ranked place info.mostCommon).map Prod.fst := by
  intro hMem
  rcases List.mem_map.mp hMem with ⟨key, hKey, hPlace⟩
  rcases List.mem_map.mp hKey with ⟨entry, hEntry, rfl⟩
  have hOther := List.find?_eq_none.mp hFind entry hEntry
  rw [hInfo.same_listed hSuits hEntry, decide_eq_true_eq]
    at hOther
  exact hOther hPlace

end Listed

variable {beats : Codable → Codable → Bool}

omit [FloatArithmetic] in
/- A running comparison has nothing to show only where there
   is nothing. -/
theorem best_none
    {values : List Codable} :
    best beats values = none ↔ values = [] := by
  induction values using List.reverseRecOn with
  | nil => exact iff_of_true rfl rfl
  | append_singleton values value _ =>
    refine iff_of_false ?_ (by simp)
    unfold best
    rw [List.foldl_append, List.foldl_cons, List.foldl_nil]
    unfold ColumnTally.better
    split
    · exact Option.some_ne_none _
    · split <;> exact Option.some_ne_none _

omit [FloatArithmetic] in
theorem best_some
    {ω : Type} [LinearOrder ω]
    (key : Codable → ω)
    {values : List Codable}
    (hBeats : ∀ first ∈ values, ∀ second ∈ values,
      beats first second = decide (key first < key second))
    {found : Codable}
    (hFound : best beats values = some found) :
    found ∈ values ∧ ∀ value ∈ values,
      key found ≤ key value := by
  induction values using List.reverseRecOn
    generalizing found with
  | nil => cases hFound
  | append_singleton values value ih =>
    unfold best at hFound
    rw [List.foldl_append, List.foldl_cons,
      List.foldl_nil] at hFound
    have hLast : value ∈ values ++ [value] :=
      List.mem_append_right _ (.head _)
    cases hBest : best beats values with
    | none =>
      have hNone := best_none.mp hBest
      unfold best at hBest
      rw [hBest] at hFound
      cases hFound
      rw [hNone]
      refine ⟨.head _, fun other hOther => ?_⟩
      rw [List.mem_singleton.mp hOther]
    | some old =>
      rcases ih (fun first hFirst second hSecond =>
        hBeats first (List.mem_append_left _ hFirst)
          second (List.mem_append_left _ hSecond))
        hBest with ⟨hOld, hLeast⟩
      have hCompare := hBeats value hLast old
        (List.mem_append_left _ hOld)
      unfold best at hBest
      rw [hBest] at hFound
      simp only [ColumnTally.better, hCompare,
        decide_eq_true_eq] at hFound
      split at hFound
      · rename_i hLess
        cases hFound
        refine ⟨hLast, fun other hOther => ?_⟩
        rcases List.mem_append.mp hOther with hIn | hIn
        · exact (le_of_lt hLess).trans
            (hLeast other hIn)
        · rw [List.mem_singleton.mp hIn]
      · rename_i hNot
        cases hFound
        refine ⟨List.mem_append_left _ hOld,
          fun other hOther => ?_⟩
        rcases List.mem_append.mp hOther with hIn | hIn
        · exact hLeast other hIn
        · rw [List.mem_singleton.mp hIn]
          exact not_lt.mp hNot

/- A literal is out of range where no value is as low, or none
   as high. -/
theorem Gathered.outsideRange_iff
    (hInfo : Gathered info dataType values)
    (hSuits : Suits dataType value) :
    outsideRange info value = true ↔
      known values ≠ [] ∧
        ((∀ other ∈ known values, place value < place other) ∨
          ∀ other ∈ known values,
            place other < place value) := by
  have hRanks := suits_ranks dataType
  unfold outsideRange
  rw [hInfo.minimum, hInfo.maximum, hInfo.typed]
  cases hMinimum : best Comparable.less (known values) with
  | none =>
    have hNone := best_none.mp hMinimum
    simp [hNone]
  | some minimum =>
    cases hMaximum : best (fun value found =>
        Comparable.less found value) (known values) with
    | none =>
      have hNone := best_none.mp hMaximum
      simp [hNone]
    | some maximum =>
      have hSome : known values ≠ [] := by
        intro hNone
        rw [best_none.mpr hNone] at hMinimum
        cases hMinimum
      rcases best_some place
        (fun first hFirst second hSecond =>
          hRanks.less (hInfo.suits first hFirst)
            (hInfo.suits second hSecond))
        hMinimum with ⟨hLowIn, hLow⟩
      rcases best_some
        (fun value => OrderDual.toDual (place value))
        (fun first hFirst second hSecond =>
          hRanks.less (hInfo.suits second hSecond)
            (hInfo.suits first hFirst))
        hMaximum with ⟨hHighIn, hHigh⟩
      simp only [hSuits.1, Bool.true_and, Bool.or_eq_true,
        hRanks.less hSuits (hInfo.suits _ hLowIn),
        hRanks.less (hInfo.suits _ hHighIn) hSuits,
        decide_eq_true_eq]
      refine Iff.trans ?_ (and_iff_right hSome).symm
      refine or_congr ⟨?_, fun hAll => hAll _ hLowIn⟩
        ⟨?_, fun hAll => hAll _ hHighIn⟩
      · exact fun hLess other hOther =>
          hLess.trans_le (hLow other hOther)
      · exact fun hLess other hOther =>
          lt_of_le_of_lt (hHigh other hOther) hLess

end Gathered

section Analyzed

variable [FloatArithmetic]

/- A column of a table that has been analyzed, with some rows
   in it. -/
structure AnalyzedColumn where
  schema : Schema
  rows : List (List Codable)
  nonempty : rows ≠ []
  fits : ∀ row ∈ rows, Fits schema row
  stats : TableStatistics
  counted : stats.rowCount = rows.length
  gathered : stats.columns = gatherRows schema rows
  position : ℕ
  column : Column
  isColumn : schema.columns[position]? = some column
  info : ColumnStatistics Codable
  isInfo : stats.column position = some info

namespace AnalyzedColumn

/- Some rows, and a column of theirs. -/
def ofRows
    (schema : Schema)
    (rows : List (List Codable))
    (nonempty : rows ≠ [])
    (fits : ∀ row ∈ rows, Fits schema row)
    (position : ℕ)
    {column : Column}
    (isColumn : schema.columns[position]? = some column) :
    AnalyzedColumn where
  schema := schema
  rows := rows
  nonempty := nonempty
  fits := fits
  stats := snapshotOf "" schema rows 0 0 0
  counted := rfl
  gathered := rfl
  position := position
  column := column
  isColumn := isColumn
  info := ((valuesAt position rows).foldl takeValue
    ColumnTally.fresh).describe column
  isInfo := gatherRows_column fits isColumn

/- The values of the column, row by row. -/
def values (analyzed : AnalyzedColumn) : List Codable :=
  valuesAt analyzed.position analyzed.rows

theorem length_values (analyzed : AnalyzedColumn) :
    analyzed.values.length = analyzed.rows.length :=
  List.length_map _

theorem rows_pos (analyzed : AnalyzedColumn) :
    0 < analyzed.rows.length :=
  List.length_pos_of_ne_nil analyzed.nonempty

theorem info_gathered (analyzed : AnalyzedColumn) :
    Gathered analyzed.info analyzed.column.dataType
      analyzed.values := by
  have hInfo := analyzed.isInfo
  unfold TableStatistics.column at hInfo
  rw [analyzed.gathered] at hInfo
  exact gathered_rows analyzed.fits analyzed.isColumn hInfo

end AnalyzedColumn

end Analyzed

/- A table with one column, of integers. -/
def integers : Schema where
  columns :=
    [{ name := "n", dataType := .integer, nullable := true }]
  nonempty := List.cons_ne_nil _ _

theorem fits_integer
    (number : ℤ)
    [FloatArithmetic] :
    Fits integers [.int number] :=
  List.forall₂_cons.mpr
    ⟨⟨.inr rfl, rfl⟩, List.forall₂_nil_left_iff.mpr rfl⟩

/- Rows of one integer each. -/
def integerColumn [FloatArithmetic]
    (first : ℤ)
    (rest : List ℤ) : AnalyzedColumn :=
  AnalyzedColumn.ofRows integers
    ((first :: rest).map fun number => [.int number])
    (List.cons_ne_nil _ _)
    (by
      intro row hRow
      rcases List.mem_map.mp hRow with ⟨number, _, rfl⟩
      exact fits_integer number)
    0 rfl

end Optimizer

end ChenDB
