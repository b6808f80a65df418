import ChenDB.Planner.IndexBounds
import ChenDB.Planner.Statistics

/-
  What part of the rows a predicate is expected to let
  through, from the statistics of the table. The arithmetic
  is exact here: the doubles of the code are its roundings.
-/

--
-- Bounds
--

namespace ChenDB

namespace Optimizer

open Executor (Binary64 BinaryOperator BoundColumn
  BoundExpression BoundItems FloatArithmetic asNumber)
open Indexing (DataType)
open Library.Tally (rows)
open Planner (ColumnStatistics Comparable TableStatistics
  mirrored)
open Serialization (Codable)

def defaultEqSelectivity : ℚ := 5 / 1000

def defaultIneqSelectivity : ℚ := 1 / 3

def minSelectivity : ℚ := 1 / 1000000

def clamp (selectivity : ℚ) : ℚ :=
  min (max selectivity minSelectivity) 1

/- The least a comparison's estimate may be. -/
def oneRow (rowCount : ℕ) : ℚ :=
  if 0 < rowCount then 1 / rowCount else minSelectivity

--
-- One Column
--

/- Can the value be ordered against those of a column? -/
def comparable : DataType → Codable → Bool
  | .boolean, .bool _ => true
  | .integer, .int _ => true
  | .integer, .float _ => true
  | .float, .int _ => true
  | .float, .float _ => true
  | .text, .text _ => true
  | _, _ => false

/- `float(value)`, which nothing but a number has. -/
def exactly (value : Codable) : ℚ :=
  match asNumber value with
  | some (.inl number) => number.units / 2 ^ 1074
  | some (.inr number) => number
  | none => 0

section Column

variable [FloatArithmetic]

/- Python's `<=`. -/
def atMost (left right : Codable) : Bool :=
  Comparable.less left right || Comparable.same left right

def outsideRange
    (info : ColumnStatistics Codable)
    (value : Codable) : Bool :=
  match info.minimum, info.maximum with
  | some minimum, some maximum =>
    comparable info.dataType value &&
      (Comparable.less value minimum ||
        Comparable.less maximum value)
  | _, _ => false

/- The rows that neither NULL nor a listed value accounts
   for. -/
def tailRows
    (info : ColumnStatistics Codable)
    (rowCount : ℕ) : ℤ :=
  rowCount - info.nullCount - info.mostCommonRows

def equalityFraction
    (info : ColumnStatistics Codable)
    (value : Codable)
    (rowCount : ℕ) : ℚ :=
  if rowCount = 0 then defaultEqSelectivity
  else
    match info.mostCommon.find? fun entry =>
        Comparable.same entry.1 value with
    | some entry => entry.2 / rowCount
    | none =>
      if info.coversEveryValue || outsideRange info value then
        oneRow rowCount
      else if info.mostCommon.isEmpty then
        (1 - info.nullFraction rowCount) /
          info.distinctCount
      else
        let tailDistinct : ℤ :=
          max (info.distinctCount - info.mostCommon.length) 1
        (max (tailRows info rowCount) 0 : ℤ) / rowCount /
          tailDistinct

/- `while whole < buckets and value >= bounds[whole + 1]`, on
   the boundaries after the first. -/
def wholeBuckets (value : Codable) : List Codable → ℕ
  | [] => 0
  | bound :: rest =>
    if atMost bound value then wholeBuckets value rest + 1
    else 0

/- How far from one boundary to the next a value is. -/
def withinBucket (value low high : Codable) : ℚ :=
  if (asNumber value).isSome && (asNumber low).isSome then
    let span := exactly high - exactly low
    if 0 < span then (exactly value - exactly low) / span
    else 1 / 2
  else 1 / 2

def histogramRowsBelow
    (info : ColumnStatistics Codable)
    (value : Codable)
    (rowCount : ℕ) : ℚ :=
  let bounds := info.histogram
  let covered := tailRows info rowCount
  match bounds.head?, bounds.getLast? with
  | some first, some last =>
    if bounds.length < 2 then 0
    else if covered ≤ 0 then 0
    else
      let buckets := bounds.length - 1
      let perBucket : ℚ := covered / buckets
      if atMost value first then 0
      else if atMost last value then covered
      else
        let whole := wholeBuckets value bounds.tail
        match bounds[whole]?, bounds[whole + 1]? with
        | some low, some high =>
          let within := withinBucket value low high
          (whole + min (max within 0) 1) * perBucket
        -- An `IndexError`: below the last boundary there is
        -- a next one.
        | _, _ => 0
  | _, _ => 0

/- A straight line from the least value to the greatest. -/
def uniformFraction
    (info : ColumnStatistics Codable)
    (value : Codable) : ℚ :=
  match info.minimum, info.maximum with
  | some minimum, some maximum =>
    if !info.hasRange || (asNumber value).isNone then
      defaultIneqSelectivity
    else
      let low := exactly minimum
      let high := exactly maximum
      let point := exactly value
      if high ≤ low then
        if low < point then 1 else minSelectivity
      else min (max ((point - low) / (high - low)) 0) 1
  | _, _ => defaultIneqSelectivity

def belowFraction
    (info : ColumnStatistics Codable)
    (value : Codable)
    (rowCount : ℕ)
    (inclusive : Bool) : ℚ :=
  if rowCount = 0 then defaultIneqSelectivity
  else if info.mostCommon.isEmpty && info.histogram.isEmpty then
    (1 - info.nullFraction rowCount) *
      uniformFraction info value
  else if !comparable info.dataType value then
    defaultIneqSelectivity
  else
    let listed := rows (fun candidate =>
      Comparable.less candidate value) info.mostCommon
    let fraction :=
      (listed + histogramRowsBelow info value rowCount) /
        rowCount
    if inclusive then
      fraction + equalityFraction info value rowCount
    else fraction

--
-- Predicates
--

/- `column <op> literal`, the operator mirrored if it is the
   other way round. -/
def asColumnLiteral
    (operator : BinaryOperator)
    (left right : BoundExpression Binary64) :
    Option (BoundColumn × BinaryOperator × Codable) :=
  match left, right with
  | .column _ column, .literal _ value _ =>
    some (column, operator, value)
  | .literal _ value _, .column _ column =>
    some (column, mirrored operator, value)
  | _, _ => none

/- By the position in the column's own table. -/
def columnStats
    (column : BoundColumn)
    (stats : TableStatistics) :
    Option (ColumnStatistics Codable) :=
  column.tablePosition.bind stats.column

/- The match on the operator. -/
def operatorFraction
    (info : ColumnStatistics Codable)
    (value : Codable)
    (rowCount : ℕ) : BinaryOperator → Option ℚ
  | .eq => some (equalityFraction info value rowCount)
  | .neq => some (1 - info.nullFraction rowCount -
      equalityFraction info value rowCount)
  | .lt => some (belowFraction info value rowCount false)
  | .lte => some (belowFraction info value rowCount true)
  | .gt => some (1 - info.nullFraction rowCount -
      belowFraction info value rowCount true)
  | .gte => some (1 - info.nullFraction rowCount -
      belowFraction info value rowCount false)
  | _ => none

def comparisonSelectivity
    (operator : BinaryOperator)
    (left right : BoundExpression Binary64)
    (stats : TableStatistics) : ℚ :=
  match asColumnLiteral operator left right with
  | none => defaultIneqSelectivity
  | some (column, operator, value) =>
    match columnStats column stats with
    | none => defaultEqSelectivity
    | some info =>
      if value.isNull then minSelectivity
      else
        match operatorFraction info value stats.rowCount
            operator with
        | some fraction =>
          max fraction (oneRow stats.rowCount)
        | none => defaultIneqSelectivity

/- The values of a list that is all literals. -/
def literalItems :
    BoundItems Binary64 → Option (List Codable)
  | .one (.literal _ value _) => some [value]
  | .more (.literal _ value _) rest =>
    (literalItems rest).map (value :: ·)
  | _ => none

def inListSelectivity
    (column : BoundColumn)
    (items : BoundItems Binary64)
    (negated : Bool)
    (stats : TableStatistics) : ℚ :=
  match columnStats column stats, literalItems items with
  | some info, some values =>
    let known := values.filter fun value => !value.isNull
    let total := (known.map fun value =>
      equalityFraction info value stats.rowCount).sum
    let nonNull := 1 - info.nullFraction stats.rowCount
    let total := min total nonNull
    max (if negated then nonNull - total else total)
      (oneRow stats.rowCount)
  | _, _ => defaultIneqSelectivity

def isNullSelectivity
    (column : BoundColumn)
    (negated : Bool)
    (stats : TableStatistics) : ℚ :=
  match columnStats column stats with
  | none => defaultEqSelectivity
  | some info =>
    let fraction := info.nullFraction stats.rowCount
    max (if negated then 1 - fraction else fraction)
      (oneRow stats.rowCount)

/- `_selectivity`. -/
def selectivity
    (stats : TableStatistics) : BoundExpression Binary64 → ℚ
  | .binaryOp _ .and left right =>
    selectivity stats left * selectivity stats right
  | .binaryOp _ .or left right =>
    let first := selectivity stats left
    let second := selectivity stats right
    first + second - first * second
  | .unaryOp _ .not operand => 1 - selectivity stats operand
  | .isNullTest _ (.column _ column) negated =>
    isNullSelectivity column negated stats
  | .inList _ (.column _ column) items negated _ =>
    inListSelectivity column items negated stats
  | .binaryOp _ operator left right =>
    if operator.isComparison then
      comparisonSelectivity operator left right stats
    else defaultIneqSelectivity
  | _ => defaultIneqSelectivity
termination_by structural predicate => predicate

/- The fraction of the rows that the predicate is expected to
   admit. -/
def estimateSelectivity
    (predicate : Option (BoundExpression Binary64))
    (stats : TableStatistics) : ℚ :=
  match predicate with
  | none => 1
  | some predicate => clamp (selectivity stats predicate)

end Column

--
-- Joins
--

section Joins

variable {κ ν : Type} [Comparable κ]

/- `table[key] = value`. -/
def store
    (key : κ)
    (value : ν) : List (κ × ν) → List (κ × ν)
  | [] => [(key, value)]
  | entry :: rest =>
    if Comparable.same entry.1 key then
      (entry.1, value) :: rest
    else entry :: store key value rest

/- `table[key]`, or none. -/
def lookUp (key : κ) (table : List (κ × ν)) : Option ν :=
  (table.find? fun entry =>
    Comparable.same entry.1 key).map Prod.snd

/- `{value: count / rows for value, count in most_common}`. -/
def frequencies
    (info : ColumnStatistics κ)
    (rowCount : ℕ) : List (κ × ℚ) :=
  info.mostCommon.foldl
    (fun table entry =>
      store entry.1 (entry.2 / rowCount : ℚ) table) []

/- The fraction that neither list accounts for. -/
def otherFraction
    (info : ColumnStatistics κ)
    (rowCount : ℕ) : ℚ :=
  max (1 - info.nullFraction rowCount -
    info.mostCommonRows / rowCount) 0

def mcvJoinSelectivity
    (left right : ColumnStatistics κ)
    (leftRows rightRows : ℕ) : Option ℚ :=
  if left.mostCommon.isEmpty || right.mostCommon.isEmpty ||
      leftRows = 0 || rightRows = 0 then none
  else
    let leftFrequency := frequencies left leftRows
    let rightFrequency := frequencies right rightRows
    let shared := leftFrequency.filter fun entry =>
      (lookUp entry.1 rightFrequency).isSome
    let matched := (shared.map fun entry =>
      (lookUp entry.1 leftFrequency).getD 0 *
        (lookUp entry.1 rightFrequency).getD 0).sum
    let unmatched := fun frequency : List (κ × ℚ) =>
      ((frequency.filter fun entry =>
        !shared.any fun common =>
          Comparable.same common.1 entry.1).map Prod.snd).sum
    let otherLeft := otherFraction left leftRows
    let otherRight := otherFraction right rightRows
    let tailLeft : ℤ := left.distinctCount - shared.length
    let tailRight : ℤ := right.distinctCount - shared.length
    let first := matched
    let second :=
      if 0 < tailRight then
        first + unmatched leftFrequency * otherRight / tailRight
      else first
    let third :=
      if 0 < tailLeft then
        second + otherLeft *
          (unmatched rightFrequency + otherRight) / tailLeft
      else second
    some (clamp third)

end Joins

end Optimizer

end ChenDB
