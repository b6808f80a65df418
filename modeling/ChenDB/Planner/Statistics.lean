import ChenDB.Executor.Distinct
import ChenDB.Library.Rounding
import ChenDB.Library.Tally
import ChenDB.Serialization.Record

/-
  The statistics of a table: how often each value of a column
  comes, summed up as a list of the most common values and a
  histogram of the others.
-/

--
-- Summarising One Column
--

namespace ChenDB

namespace Planner

open Executor (Binary64 FloatArithmetic Value lessThan sameKey)
open Indexing (DataType)
open Library.Rounding (toDouble)
open Library.Tally
open Serialization (Codable Column Schema)

/- What Python makes of two values of one column: `<`, and
   `==`. -/
class Comparable (κ : Type) where
  less : κ → κ → Bool
  same : κ → κ → Bool

instance comparable_value [FloatArithmetic] :
    Comparable (Value Binary64) where
  less left right :=
    match lessThan left right with
    | .ok below => below
    -- A `TypeError`, to which no two values of a column lead.
    | .error _ => false
  same := sameKey

/- Ranks compare as they stand. -/
instance (priority := low) comparable_order
    {ρ : Type} [LinearOrder ρ] : Comparable ρ where
  less left right := decide (left < right)
  same left right := decide (left = right)

abbrev Counter (κ : Type) := List (κ × ℕ)

def statisticsTarget : ℕ := 32

def unknownDistinct : ℕ := 1

section Summary

variable {κ : Type}

/- `sorted`, by a `<`. -/
def sortedBy {α : Type}
    (before : α → α → Bool)
    (xs : List α) : List α :=
  xs.mergeSort fun first second => !before second first

variable [Comparable κ]

/- `<` of the tuples `(-count, value)`. -/
def commonBefore (first second : κ × ℕ) : Bool :=
  if first.2 = second.2 then
    !Comparable.same first.1 second.1 &&
      Comparable.less first.1 second.1
  else second.2 < first.2

/- `<` of the tuples `(value, count)`. -/
def valueBefore (first second : κ × ℕ) : Bool :=
  if Comparable.same first.1 second.1 then
    first.2 < second.2
  else Comparable.less first.1 second.1

/- `if value != bounds[-1]: bounds.append(value)`. -/
def addBound (value : κ) (bounds : List κ) : List κ :=
  match bounds.getLast? with
  | some last =>
    if Comparable.same value last then bounds
    else bounds ++ [value]
  | none => bounds ++ [value]

/- The inner loop of `_equi_depth`: past every edge that the
   running count has reached, of which no more than `turns`
   are left. -/
def passEdges
    (buckets : ℕ)
    (edges : ℕ → ℚ)
    (running : ℕ)
    (value : κ) : ℕ → List κ → ℕ → List κ × ℕ
  | 0, bounds, edge => (bounds, edge)
  | turns + 1, bounds, edge =>
    if edge < buckets ∧ edges edge ≤ running then
      passEdges buckets edges running value turns
        (addBound value bounds) (edge + 1)
    else (bounds, edge)

/- The variables of the outer loop. -/
structure Boundaries (κ : Type) where
  bounds : List κ
  running : ℕ
  edge : ℕ

def Boundaries.next
    (buckets : ℕ)
    (edges : ℕ → ℚ)
    (state : Boundaries κ)
    (entry : κ × ℕ) : Boundaries κ :=
  let running := state.running + entry.2
  let (bounds, edge) :=
    passEdges buckets edges running entry.1
      (buckets - state.edge) state.bounds state.edge
  { bounds, running, edge }

/- `edge * step`, where `step` is `total / buckets`: both are
   doubles, and what a running count is held against. -/
def edgeAt (total buckets edge : ℕ) : ℚ :=
  toDouble (edge * toDouble (total / buckets))

/- `_equi_depth`. -/
def equiDepth
    (rest : Counter κ)
    (buckets : ℕ) : List κ :=
  let total := (rest.map Prod.snd).sum
  if total = 0 ∨ rest.length < 2 then []
  else
    match rest.head?, rest.getLast? with
    | some first, some last =>
      let state := rest.foldl
        (Boundaries.next buckets (edgeAt total buckets))
        { bounds := [first.1], running := 0, edge := 1 }
      addBound last.1 state.bounds
    | _, _ => []

/- The entries whose value is in no entry of a list, in the
   order of their values. -/
def restOf (mostCommon counts : Counter κ) : Counter κ :=
  sortedBy valueBefore (counts.filter fun entry =>
    !mostCommon.any fun common =>
      Comparable.same common.1 entry.1)

def summarise (counts : Counter κ) : Counter κ × List κ :=
  if counts.isEmpty then ([], [])
  else
    let ordered := sortedBy commonBefore counts
    if ordered.length ≤ statisticsTarget then (ordered, [])
    else
      let mostCommon := ordered.take statisticsTarget
      (mostCommon, equiDepth (restOf mostCommon counts)
        statisticsTarget)

end Summary

--
-- Statistics
--

structure ColumnStatistics (κ : Type) where
  name : String
  dataType : DataType
  distinctCount : ℕ
  nullCount : ℕ
  minimum : Option κ
  maximum : Option κ
  mostCommon : Counter κ
  histogram : List κ

namespace ColumnStatistics

variable {κ : Type}

/- In exact arithmetic, as everything but the edges of the
   histogram. -/
def nullFraction
    (info : ColumnStatistics κ)
    (rowCount : ℕ) : ℚ :=
  if rowCount = 0 then 0 else info.nullCount / rowCount

def mostCommonRows (info : ColumnStatistics κ) : ℕ :=
  (info.mostCommon.map Prod.snd).sum

def coversEveryValue (info : ColumnStatistics κ) : Bool :=
  !info.mostCommon.isEmpty &&
    info.mostCommon.length = info.distinctCount

def hasRange (info : ColumnStatistics κ) : Bool :=
  info.minimum.isSome && info.maximum.isSome &&
    (info.dataType = .integer || info.dataType = .float)

end ColumnStatistics

structure TableStatistics where
  tableName : String
  rowCount : ℕ
  pageCount : ℕ
  columns : List (ColumnStatistics Codable)
  gatheredAtNs : ℕ
  writesAtGather : ℕ

/- Out of range is out of the table. -/
def TableStatistics.column
    (stats : TableStatistics)
    (position : ℕ) : Option (ColumnStatistics Codable) :=
  stats.columns[position]?

--
-- Gathering
--

/- What `gather` keeps of one column while it scans. -/
structure ColumnTally (κ : Type) where
  seen : Counter κ
  nulls : ℕ
  minimum : Option κ
  maximum : Option κ

namespace ColumnTally

variable {κ : Type}

def fresh : ColumnTally κ :=
  { seen := [], nulls := 0, minimum := none, maximum := none }

/- The value itself, where there is none yet or where it beats
   the one there is. -/
def better
    (beats : κ → κ → Bool)
    (value : κ)
    (best : Option κ) : Option κ :=
  match best with
  | none => some value
  | some best =>
    if beats value best then some value else some best

variable [Comparable κ]

/- A value that is not NULL. -/
def know (tally : ColumnTally κ) (value : κ) :
    ColumnTally κ :=
  { tally with
    seen := add Comparable.same value tally.seen
    minimum := better Comparable.less value tally.minimum
    maximum := better (fun value best =>
      Comparable.less best value) value tally.maximum }

def describe
    (tally : ColumnTally κ)
    (column : Column) : ColumnStatistics κ :=
  let (mostCommon, histogram) := summarise tally.seen
  { name := column.name
    dataType := column.dataType
    distinctCount := max tally.seen.length unknownDistinct
    nullCount := tally.nulls
    minimum := tally.minimum
    maximum := tally.maximum
    mostCommon, histogram }

end ColumnTally

section Gathering

variable [FloatArithmetic]

/- The body of the inner loop. -/
def takeValue
    (tally : ColumnTally Codable)
    (value : Codable) : ColumnTally Codable :=
  if value.isNull then { tally with nulls := tally.nulls + 1 }
  else tally.know value

/- The rows a scan of the heap has decoded. -/
def gatherRows
    (schema : Schema)
    (rows : List (List Codable)) :
    List (ColumnStatistics Codable) :=
  let tallies := rows.foldl
    (fun tallies row => List.zipWith takeValue tallies row)
    (schema.columns.map fun _ => ColumnTally.fresh)
  List.zipWith ColumnTally.describe tallies schema.columns

/- The snapshot of a table whose rows have been decoded. -/
def snapshotOf
    (tableName : String)
    (schema : Schema)
    (rows : List (List Codable))
    (pageCount gatheredAtNs pageWrites : ℕ) :
    TableStatistics :=
  { tableName
    rowCount := rows.length
    pageCount
    columns := gatherRows schema rows
    gatheredAtNs
    writesAtGather := pageWrites }

end Gathering

--
-- Ranks for Values
--

/- On some values, Python's comparisons go by a rank. -/
structure Ranks {κ ρ : Type}
    [Comparable κ] [LinearOrder ρ]
    (rank : κ → ρ)
    (good : κ → Prop) : Prop where
  less : ∀ {first second}, good first → good second →
    Comparable.less first second =
      decide (rank first < rank second)
  same : ∀ {first second}, good first → good second →
    Comparable.same first second =
      decide (rank first = rank second)

section Transfer

variable {κ ρ : Type} [Comparable κ] [LinearOrder ρ]
variable {rank : κ → ρ} {good : κ → Prop}

theorem map_sortedBy {α β : Type}
    {before : α → α → Bool}
    {before' : β → β → Bool}
    {f : α → β}
    {xs : List α}
    (hSame : ∀ first ∈ xs, ∀ second ∈ xs,
      before first second = before' (f first) (f second)) :
    (sortedBy before xs).map f =
      sortedBy before' (xs.map f) := by
  refine List.map_mergeSort fun first hFirst second hSecond =>
    ?_
  rw [hSame second hSecond first hFirst]

variable {first second : κ × ℕ}

theorem Ranks.commonBefore
    (hRanks : Ranks rank good)
    (hFirst : good first.1)
    (hSecond : good second.1) :
    commonBefore first second =
      Planner.commonBefore (rank first.1, first.2)
        (rank second.1, second.2) := by
  unfold Planner.commonBefore
  rw [hRanks.less hFirst hSecond, hRanks.same hFirst hSecond]
  rfl

theorem Ranks.valueBefore
    (hRanks : Ranks rank good)
    (hFirst : good first.1)
    (hSecond : good second.1) :
    valueBefore first second =
      Planner.valueBefore (rank first.1, first.2)
        (rank second.1, second.2) := by
  unfold Planner.valueBefore
  rw [hRanks.less hFirst hSecond, hRanks.same hFirst hSecond]
  rfl

variable {value : κ} {bounds : List κ}

theorem Ranks.addBound
    (hRanks : Ranks rank good)
    (hValue : good value)
    (hBounds : ∀ bound ∈ bounds, good bound) :
    (addBound value bounds).map rank =
      Planner.addBound (rank value) (bounds.map rank) := by
  unfold Planner.addBound
  rw [List.getLast?_map]
  cases hLast : bounds.getLast? with
  | none => exact List.map_append
  | some last =>
    have hGood := hBounds last (List.mem_of_getLast? hLast)
    simp only [Option.map_some, hRanks.same hValue hGood]
    show _ = if decide (rank value = rank last) = true
      then _ else _
    split
    · rfl
    · exact List.map_append

variable {bound : κ}

theorem mem_addBound
    (hMem : bound ∈ addBound value bounds) :
    bound ∈ bounds ∨ bound = value := by
  unfold addBound at hMem
  split at hMem
  · split at hMem
    · exact .inl hMem
    · simpa using hMem
  · simpa using hMem

variable {buckets running turns edge : ℕ} {edges : ℕ → ℚ}

theorem mem_passEdges
    (hMem : bound ∈
      (passEdges buckets edges running value turns bounds
        edge).1) :
    bound ∈ bounds ∨ bound = value := by
  induction turns generalizing bounds edge with
  | zero => exact .inl hMem
  | succ turns ih =>
    rw [passEdges] at hMem
    split at hMem
    · rcases ih hMem with hOld | hNew
      · exact mem_addBound hOld
      · exact .inr hNew
    · exact .inl hMem

theorem Ranks.passEdges
    (hRanks : Ranks rank good)
    (hValue : good value)
    (hBounds : ∀ bound ∈ bounds, good bound) :
    Planner.passEdges buckets edges running (rank value) turns
        (bounds.map rank) edge =
      ((Planner.passEdges buckets edges running value turns
          bounds edge).1.map rank,
        (Planner.passEdges buckets edges running value turns
          bounds edge).2) := by
  induction turns generalizing bounds edge with
  | zero => rfl
  | succ turns ih =>
    rw [Planner.passEdges, Planner.passEdges]
    split
    · rw [← hRanks.addBound hValue hBounds]
      refine ih fun bound hMem => ?_
      rcases mem_addBound hMem with hOld | rfl
      · exact hBounds bound hOld
      · exact hValue
    · rfl

def Boundaries.ranked
    (rank : κ → ρ)
    (state : Boundaries κ) : Boundaries ρ :=
  { bounds := state.bounds.map rank
    running := state.running
    edge := state.edge }

variable {rest : Counter κ}

theorem Ranks.foldl_next
    (hRanks : Ranks rank good)
    (buckets : ℕ)
    (edges : ℕ → ℚ)
    (state : Boundaries κ)
    (hRest : ∀ entry ∈ rest, good entry.1)
    (hBounds : ∀ bound ∈ state.bounds, good bound) :
    (ranked rank rest).foldl (Boundaries.next buckets edges)
        (state.ranked rank) =
      (rest.foldl (Boundaries.next buckets edges)
        state).ranked rank := by
  induction rest generalizing state with
  | nil => rfl
  | cons entry rest ih =>
    have hEntry := hRest entry (.head _)
    have hNext :
        Boundaries.next buckets edges (state.ranked rank)
            (rank entry.1, entry.2) =
          (state.next buckets edges entry).ranked rank := by
      simp only [Boundaries.next, Boundaries.ranked,
        hRanks.passEdges hEntry hBounds]
    rw [Library.Tally.ranked, List.map_cons,
      List.foldl_cons, List.foldl_cons, hNext]
    refine ih _ (fun other hOther =>
      hRest other (.tail _ hOther)) ?_
    intro bound hMem
    rcases mem_passEdges hMem with hOld | rfl
    · exact hBounds bound hOld
    · exact hEntry

theorem mem_foldl_next
    {state : Boundaries κ}
    (hMem : bound ∈ (rest.foldl (Boundaries.next buckets edges)
      state).bounds) :
    bound ∈ state.bounds ∨ bound ∈ rest.map Prod.fst := by
  induction rest generalizing state with
  | nil => exact .inl hMem
  | cons entry rest ih =>
    rcases ih hMem with hOld | hNew
    · rcases mem_passEdges hOld with hOld | rfl
      · exact .inl hOld
      · exact .inr (.head _)
    · exact .inr (.tail _ hNew)

theorem Ranks.equiDepth
    (hRanks : Ranks rank good)
    (hRest : ∀ entry ∈ rest, good entry.1)
    (buckets : ℕ) :
    (equiDepth rest buckets).map rank =
      Planner.equiDepth (ranked rank rest) buckets := by
  have hCounts : (ranked rank rest).map Prod.snd =
      rest.map Prod.snd := by
    simp [ranked]
  have hLength : (ranked rank rest).length = rest.length :=
    List.length_map _
  unfold Planner.equiDepth
  simp only [hCounts, hLength]
  split
  · rfl
  · rw [ranked, List.head?_map, List.getLast?_map]
    cases hFirst : rest.head? with
    | none => rfl
    | some first =>
      cases hLast : rest.getLast? with
      | none => rfl
      | some last =>
        have hLow := hRest first
          (List.mem_of_head? hFirst)
        have hHigh := hRest last
          (List.mem_of_getLast? hLast)
        have hStart : ∀ bound ∈ [first.1], good bound :=
          fun bound hMem =>
            List.mem_singleton.mp hMem ▸ hLow
        have hState := hRanks.foldl_next buckets
          (edgeAt (rest.map Prod.snd).sum buckets)
          { bounds := [first.1], running := 0, edge := 1 }
          hRest hStart
        simp only [Option.map_some]
        rw [hRanks.addBound hHigh]
        · exact congrArg (fun state : Boundaries ρ =>
            Planner.addBound (rank last.1) state.bounds)
            hState.symm
        · intro bound hMem
          rcases mem_foldl_next hMem with hOld | hNew
          · exact hStart bound hOld
          · rcases List.mem_map.mp hNew with
              ⟨entry, hEntry, rfl⟩
            exact hRest entry hEntry

theorem mem_sortedBy {α : Type}
    {before : α → α → Bool}
    {xs : List α}
    {x : α} :
    x ∈ sortedBy before xs ↔ x ∈ xs :=
  (List.mergeSort_perm _ _).mem_iff

variable {counts : Counter κ}

theorem mem_summarise
    {entry : κ × ℕ}
    (hMem : entry ∈ (summarise counts).1) :
    entry ∈ counts := by
  unfold summarise at hMem
  split at hMem
  · cases hMem
  · simp only at hMem
    split at hMem
    · exact mem_sortedBy.mp hMem
    · exact mem_sortedBy.mp (List.mem_of_mem_take hMem)

theorem Ranks.restOf
    (hRanks : Ranks rank good)
    {mostCommon : Counter κ}
    (hCommon : ∀ entry ∈ mostCommon, good entry.1)
    (hCounts : ∀ entry ∈ counts, good entry.1) :
    ranked rank (restOf mostCommon counts) =
      Planner.restOf (ranked rank mostCommon)
        (ranked rank counts) := by
  have hFilter : (ranked rank counts).filter (fun entry =>
      !(ranked rank mostCommon).any fun common =>
        Comparable.same common.1 entry.1) =
      ranked rank (counts.filter fun entry =>
        !mostCommon.any fun common =>
          Comparable.same common.1 entry.1) := by
    unfold ranked
    rw [List.filter_map]
    refine congrArg _ (List.filter_congr fun entry hEntry =>
      ?_)
    simp only [Function.comp_apply, List.any_map]
    refine congrArg _ (Bool.eq_iff_iff.mpr ?_)
    simp only [List.any_eq_true, Function.comp_apply]
    refine exists_congr fun common =>
      and_congr_right fun hMem => ?_
    rw [hRanks.same (hCommon common hMem)
      (hCounts entry hEntry)]
    exact Iff.rfl
  unfold Planner.restOf
  rw [hFilter]
  refine map_sortedBy fun first hFirst second hSecond => ?_
  exact hRanks.valueBefore
    (hCounts first (List.mem_filter.mp hFirst).1)
    (hCounts second (List.mem_filter.mp hSecond).1)

/- A summary of ranks is the summary's ranks. -/
theorem Ranks.summarise
    (hRanks : Ranks rank good)
    (hCounts : ∀ entry ∈ counts, good entry.1) :
    Planner.summarise (ranked rank counts) =
      (ranked rank (summarise counts).1,
        (summarise counts).2.map rank) := by
  have hSorted : sortedBy Planner.commonBefore
      (ranked rank counts) =
      ranked rank (sortedBy Planner.commonBefore counts) := by
    refine (map_sortedBy fun first hFirst second hSecond =>
      ?_).symm
    exact hRanks.commonBefore (hCounts first hFirst)
      (hCounts second hSecond)
  have hLength : ∀ xs : Counter κ,
      (ranked rank xs).length = xs.length :=
    fun xs => List.length_map _
  unfold Planner.summarise
  simp only [hSorted, hLength]
  have hEmpty : (ranked rank counts).isEmpty =
      counts.isEmpty := List.isEmpty_map
  rw [hEmpty]
  split
  · rfl
  · split
    · rfl
    · have hCommon : ∀ entry ∈
          (sortedBy Planner.commonBefore counts).take
            statisticsTarget, good entry.1 :=
        fun entry hMem => hCounts entry
          (mem_sortedBy.mp (List.mem_of_mem_take hMem))
      have hTake : (ranked rank
          (sortedBy Planner.commonBefore counts)).take
            statisticsTarget =
          ranked rank ((sortedBy Planner.commonBefore
            counts).take statisticsTarget) := List.map_take.symm
      rw [hTake, ← hRanks.restOf hCommon hCounts,
        ← hRanks.equiDepth]
      intro entry hMem
      exact hCounts entry (List.mem_filter.mp
        (mem_sortedBy.mp hMem)).1

end Transfer

end Planner

end ChenDB
