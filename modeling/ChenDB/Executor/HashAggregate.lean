import ChenDB.Executor.Binder
import ChenDB.Executor.Rational
import ChenDB.Library.Traversal

/-
  The aggregate operator: one row for each group of input
  rows, the values of the grouping keys and then those of the
  aggregates.
-/

--
-- Evaluation of Bound Expressions
--

namespace ChenDB

namespace Executor

open ChenDB.Parser (AggregateFunction)
open Library.StateExcept (ok_of_bind)

variable {φ : Type}

namespace BoundExpression

mutual

/- What evaluation makes of a bound expression; it has no
   case for a call. -/
def toExpression : BoundExpression φ → Expression φ
  | .column _ reference =>
    .column reference.toBoundColumnRef
  | .literal _ value _ => .literal value
  | .countRows _ => .refused "FunctionCall"
  | .functionCall _ _ _ => .refused "FunctionCall"
  | .unaryOp _ op operand => .unaryOp op (toExpression operand)
  | .binaryOp _ op left right =>
    .binaryOp op (toExpression left) (toExpression right)
  | .isNullTest _ operand negated =>
    .isNullTest (toExpression operand) negated
  | .inList _ operand items negated _ =>
    .inList (toExpression operand) (toItems items) negated
termination_by structural expression => expression

def toItems : BoundItems φ → Items φ
  | .one item => .one (toExpression item)
  | .more item rest =>
    .more (toExpression item) (toItems rest)
termination_by structural items => items

end

end BoundExpression

section Aggregates

variable [Double φ]

/- `evaluate`, on what the binder made. -/
def evaluateBound {width : Nat}
    (row : Row φ width)
    (expression : BoundExpression φ) :
    Except EngineError (Value φ) :=
  evaluate row expression.toExpression

--
-- Accumulators
--

/- `/` of two Python integers, rounded once. -/
class TrueDivision (φ : Type) where
  divideInts : Int → Int → φ

instance : TrueDivision Rat where
  divideInts left right := left / right

/- What Python's operators take for a number, booleans
   among them. -/
def asNumber : Value φ → Option (φ ⊕ Int)
  | .bool value => some (.inr value.toInt)
  | .int value => some (.inr value)
  | .float value => some (.inl value)
  | _ => none

/- A `TypeError`, which the values of one column do not
   lead to. -/
def unsupported (op : String) : EngineError :=
  .valueError s!"unsupported operand types for {op}"

/- Python's `+`. -/
def addValues
    (left right : Value φ) : Except EngineError (Value φ) :=
  match asNumber left, asNumber right with
  | some left, some right =>
    (arithmetic (· + ·) Double.add left right).map ofNumber
  | _, _ =>
    match left, right with
    | .text left, .text right => .ok (.text (left ++ right))
    | _, _ => .error (unsupported "+")

/- Python's `<`. -/
def lessThan
    (left right : Value φ) : Except EngineError Bool :=
  match asNumber left, asNumber right with
  | some left, some right =>
    .ok (compareNumbers left right = .lt)
  | _, _ =>
    match left, right with
    | .text left, .text right =>
      .ok (Ord.compare left right = .lt)
    | _, _ => .error (unsupported "<")

/- `check_numeric_range`, which lets a boolean or a text
   pass. -/
def checkTotal
    (total : Value φ) : Except EngineError (Value φ) :=
  match total with
  | .int value => checkNumericRange (.inr value) "SUM"
  | .float value => checkNumericRange (.inl value) "SUM"
  | value => .ok value

/- One aggregate's running state; `null` where there is no
   total, least or greatest value yet. -/
structure Accumulator (φ : Type) where
  function : AggregateFunction
  count : Nat
  sum : Value φ
  min : Value φ
  max : Value φ

namespace Accumulator

omit [Double φ] in
def start (function : AggregateFunction) : Accumulator φ :=
  { function := function
    count := 0
    sum := .null
    min := .null
    max := .null }

/- `add` of a value that is not a row count; NULL does not
   take part. -/
def add
    (accumulator : Accumulator φ)
    (value : Value φ) :
    Except EngineError (Accumulator φ) :=
  if value.isNull then .ok accumulator
  else do
    let total ←
      if accumulator.sum.isNull then .ok value
      else addValues accumulator.sum value
    let sum ← checkTotal total
    let lesser ←
      if accumulator.min.isNull then .ok true
      else lessThan value accumulator.min
    let greater ←
      if accumulator.max.isNull then .ok true
      else lessThan accumulator.max value
    return {
      function := accumulator.function
      count := accumulator.count + 1
      sum := sum
      min := if lesser then value else accumulator.min
      max := if greater then value else accumulator.max }

/- What one input row adds. -/
def addRow {width : Nat}
    (aggregate : Aggregate φ)
    (accumulator : Accumulator φ)
    (row : Row φ width) :
    Except EngineError (Accumulator φ) :=
  match aggregate with
  | .countRows =>
    .ok { accumulator with count := accumulator.count + 1 }
  | .over _ argument => do
      let value ← evaluateBound row argument
      accumulator.add value

variable [TrueDivision φ]

def value
    (accumulator : Accumulator φ) :
    Except EngineError (Value φ) :=
  match accumulator.function with
  | .count => .ok (.int accumulator.count)
  | .sum => .ok accumulator.sum
  | .avg =>
    if accumulator.count = 0 then .ok .null
    else
      match asNumber accumulator.sum with
      | some (.inr sum) =>
        .ok (.float (TrueDivision.divideInts sum
          accumulator.count))
      | some (.inl sum) =>
        .ok (.float (Double.div sum
          (Double.ofInt accumulator.count)))
      | none => .error (unsupported "/")
  | .min => .ok accumulator.min
  | .max => .ok accumulator.max

end Accumulator

/- An accumulator that has been given some rows. -/
def accumulate {width : Nat}
    (aggregate : Aggregate φ)
    (rows : List (Row φ width)) :
    Except EngineError (Accumulator φ) :=
  rows.foldlM (Accumulator.addRow aggregate)
    (Accumulator.start aggregate.function)

/- An aggregate's value over a group of rows. -/
def overGroup [TrueDivision φ] {width : Nat}
    (rows : List (Row φ width))
    (aggregate : Aggregate φ) :
    Except EngineError (Value φ) := do
  let accumulator ← accumulate aggregate rows
  accumulator.value

--
-- Groups
--

def keyOf {width : Nat}
    (keys : List (BoundExpression φ))
    (row : Row φ width) :
    Except EngineError (List (Value φ)) :=
  keys.mapM (evaluateBound row)

/- The groups so far, in the order of their first rows. Two
   keys are equal when their values are; a grouping expression
   has one type on every row, and the two zeros are one. -/
abbrev Groups (φ : Type) :=
  List (List (Value φ) × List (Accumulator φ))

def freshAccumulators
    (aggregation : BoundAggregation φ) : List (Accumulator φ) :=
  aggregation.aggregates.map fun entry =>
    .start entry.aggregate.function

/- One row, given to each accumulator of its group. -/
def addToEach {width : Nat}
    (row : Row φ width)
    (aggregates : List (BoundAggregate φ))
    (accumulators : List (Accumulator φ)) :
    Except EngineError (List (Accumulator φ)) :=
  (aggregates.zip accumulators).mapM fun pair =>
    pair.2.addRow pair.1.aggregate row

variable [DecidableEq φ]

def addToGroups {width : Nat}
    (aggregation : BoundAggregation φ)
    (groups : Groups φ)
    (row : Row φ width) :
    Except EngineError (Groups φ) := do
  let key ← keyOf aggregation.groupKeys row
  match groups.lookup key with
  | none => do
      let accumulators ← addToEach row aggregation.aggregates
        (freshAccumulators aggregation)
      return groups ++ [(key, accumulators)]
  | some accumulators => do
      let accumulators ← addToEach row aggregation.aggregates
        accumulators
      return groups.map fun group =>
        if group.1 = key then (key, accumulators) else group

variable [TrueDivision φ]
variable {width : Nat} {key : List (Value φ)}
variable {aggregation : BoundAggregation φ} {groups : Groups φ}

/- The grouped row that `HAVING` lets through, if it does. -/
def groupedRow
    (aggregation : BoundAggregation φ)
    (group : List (Value φ) × List (Accumulator φ)) :
    Except EngineError (Option (List (Value φ))) := do
  let values ← group.2.mapM Accumulator.value
  let row := group.1 ++ values
  match aggregation.having with
  | none => return some row
  | some having => do
      let value ← evaluateBound row.get having
      let kept ← isTrue value "HAVING"
      return if kept then some row else none

/- With no keys there is one group, rows or no rows. -/
def onOpen {width : Nat}
    (aggregation : BoundAggregation φ)
    (rows : List (Row φ width)) :
    Except EngineError (List (List (Value φ))) := do
  let groups ← rows.foldlM (addToGroups aggregation) []
  let groups :=
    if aggregation.groupKeys = [] ∧ groups = [] then
      [([], freshAccumulators aggregation)]
    else groups
  let output ← groups.mapM (groupedRow aggregation)
  return output.filterMap id

--
-- The Rows of Each Group
--

omit [DecidableEq φ] in
/- The row of a group that has rows: the values its rows
   agree on, and those of its aggregates. -/
def IsGroup {width : Nat}
    (aggregation : BoundAggregation φ)
    (rows : List (Row φ width))
    (grouped : List (Value φ)) : Prop :=
  rows ≠ [] ∧ ∃ key values,
    (∀ row ∈ rows, keyOf aggregation.groupKeys row = .ok key) ∧
    aggregation.aggregates.mapM
        (fun entry => overGroup rows entry.aggregate) =
      .ok values ∧
    grouped = key ++ values

omit [TrueDivision φ]

/- The rows that have a key. -/
def membersOf {width : Nat}
    (keys : List (BoundExpression φ))
    (key : List (Value φ))
    (rows : List (Row φ width)) : List (Row φ width) :=
  rows.filter fun row =>
    match keyOf keys row with
    | .ok found => found = key
    | .error _ => false

section Members

variable {keys : List (BoundExpression φ)}
variable {other : List (Value φ)}
variable {rows : List (Row φ width)} {row : Row φ width}

theorem keyOf_of_mem
    (hRow : row ∈ membersOf keys key rows) :
    row ∈ rows ∧ keyOf keys row = .ok key := by
  rcases List.mem_filter.mp hRow with ⟨hMem, hKey⟩
  refine ⟨hMem, ?_⟩
  cases hFound : keyOf keys row with
  | error raised =>
    rw [hFound] at hKey
    cases hKey
  | ok found =>
    rw [hFound] at hKey
    rw [of_decide_eq_true hKey]

theorem membersOf_snoc
    (hKey : keyOf keys row = .ok key) :
    membersOf keys other (rows ++ [row]) =
      membersOf keys other rows ++
        if key = other then [row] else [] := by
  unfold membersOf
  rw [List.filter_append]
  by_cases hSame : key = other <;> simp [hKey, hSame]

end Members

/- The accumulators of a group have been given its rows. -/
def GivenRows {width : Nat}
    (rows : List (Row φ width))
    (entry : BoundAggregate φ)
    (accumulator : Accumulator φ) : Prop :=
  accumulate entry.aggregate rows = .ok accumulator

omit [DecidableEq φ] in
theorem freshAccumulators_given {width : Nat}
    (aggregation : BoundAggregation φ) :
    List.Forall₂ (GivenRows ([] : List (Row φ width)))
      aggregation.aggregates
      (freshAccumulators aggregation) := by
  unfold freshAccumulators
  rw [List.forall₂_map_right_iff]
  exact List.forall₂_same.mpr fun _ _ => rfl

omit [DecidableEq φ] in
theorem addToEach_given {width : Nat}
    {rows : List (Row φ width)}
    {row : Row φ width}
    {aggregates : List (BoundAggregate φ)}
    {accumulators final : List (Accumulator φ)}
    (hGiven : List.Forall₂ (GivenRows rows) aggregates
      accumulators)
    (hAdd : addToEach row aggregates accumulators = .ok final) :
    List.Forall₂ (GivenRows (rows ++ [row])) aggregates
      final := by
  induction hGiven generalizing final with
  | nil =>
    cases hAdd
    exact .nil
  | @cons entry accumulator aggregates accumulators hHead _
      ih =>
    unfold addToEach at hAdd
    rw [List.zip_cons_cons, List.mapM_cons] at hAdd
    rcases ok_of_bind hAdd with ⟨first, hFirst, hRest⟩
    rcases ok_of_bind hRest with ⟨others, hOthers, hEnd⟩
    cases hEnd
    refine .cons ?_ (ih hOthers)
    unfold GivenRows accumulate at hHead ⊢
    rw [Library.Traversal.foldlM_snoc, hHead]
    exact hFirst

/- The groups that some rows have been put in: each has the
   rows of its key, and each row has its group. -/
structure Collected {width : Nat}
    (aggregation : BoundAggregation φ)
    (rows : List (Row φ width))
    (groups : Groups φ) : Prop where
  given : ∀ group ∈ groups,
    membersOf aggregation.groupKeys group.1 rows ≠ [] ∧
      List.Forall₂
        (GivenRows
          (membersOf aggregation.groupKeys group.1 rows))
        aggregation.aggregates group.2
  covered : ∀ row ∈ rows, ∃ group ∈ groups,
    keyOf aggregation.groupKeys row = .ok group.1

namespace Collected

variable {rows : List (Row φ width)} {row : Row φ width}

variable {accumulators : List (Accumulator φ)}

/- A row whose key no group has begins one. -/
theorem begin_group
    (hCollected : Collected aggregation rows groups)
    (hKey : keyOf aggregation.groupKeys row = .ok key)
    (hNone : groups.lookup key = none)
    (hAdd : addToEach row aggregation.aggregates
      (freshAccumulators aggregation) = .ok accumulators) :
    Collected aggregation (rows ++ [row])
      (groups ++ [(key, accumulators)]) where
  given := by
    have hNew : ∀ group ∈ groups, key ≠ group.1 := by
      intro group hGroup hSame
      have hOther := List.lookup_eq_none_iff.mp hNone group
        hGroup
      simp [hSame] at hOther
    intro group hGroup
    rw [membersOf_snoc hKey]
    rcases List.mem_append.mp hGroup with hOld | hLast
    · rw [if_neg (hNew group hOld), List.append_nil]
      exact hCollected.given group hOld
    · rw [List.mem_singleton.mp hLast, if_pos rfl]
      have hEmpty :
          membersOf aggregation.groupKeys key rows = [] := by
        refine List.eq_nil_iff_forall_not_mem.mpr
          fun member hMember => ?_
        rcases keyOf_of_mem hMember with ⟨hMem, hHas⟩
        rcases hCollected.covered member hMem with
          ⟨other, hOther, hFound⟩
        rw [hHas] at hFound
        cases hFound
        exact hNew other hOther rfl
      rw [hEmpty]
      exact ⟨List.cons_ne_nil _ _,
        addToEach_given (freshAccumulators_given aggregation)
          hAdd⟩
  covered := by
    intro member hMember
    rcases List.mem_append.mp hMember with hOld | hLast
    · rcases hCollected.covered member hOld with
        ⟨group, hGroup, hFound⟩
      exact ⟨group, List.mem_append_left _ hGroup, hFound⟩
    · rw [List.mem_singleton.mp hLast]
      exact ⟨(key, accumulators), List.mem_append_right _
        (.head _), hKey⟩

/- Any other row joins the group of its key. -/
theorem join_group
    (hCollected : Collected aggregation rows groups)
    (hKey : keyOf aggregation.groupKeys row = .ok key)
    {before : List (Accumulator φ)}
    (hSome : groups.lookup key = some before)
    (hAdd : addToEach row aggregation.aggregates before =
      .ok accumulators) :
    Collected aggregation (rows ++ [row])
      (groups.map fun group =>
        if group.1 = key then (key, accumulators)
        else group) where
  given := by
    intro group hGroup
    rcases List.mem_map.mp hGroup with ⟨old, hOld, rfl⟩
    by_cases hSame : old.1 = key
    · rw [if_pos hSame, membersOf_snoc hKey, if_pos rfl]
      have hBefore := hCollected.given (key, before)
        (Library.Traversal.mem_of_lookup hSome)
      exact ⟨List.append_ne_nil_of_right_ne_nil _
          (List.cons_ne_nil _ _),
        addToEach_given hBefore.2 hAdd⟩
    · rw [if_neg hSame, membersOf_snoc hKey,
        if_neg (Ne.symm hSame), List.append_nil]
      exact hCollected.given old hOld
  covered := by
    intro member hMember
    have hKept : ∀ group ∈ groups,
        ∃ other ∈ groups.map (fun group =>
            if group.1 = key then (key, accumulators)
            else group),
          other.1 = group.1 := by
      intro group hGroup
      refine ⟨_, List.mem_map_of_mem hGroup, ?_⟩
      by_cases hSame : group.1 = key
      · rw [if_pos hSame, hSame]
      · rw [if_neg hSame]
    rcases List.mem_append.mp hMember with hOld | hLast
    · rcases hCollected.covered member hOld with
        ⟨group, hGroup, hFound⟩
      rcases hKept group hGroup with ⟨other, hOther, hSame⟩
      exact ⟨other, hOther, by rw [hSame, hFound]⟩
    · rcases hKept (key, before)
        (Library.Traversal.mem_of_lookup hSome) with
        ⟨other, hOther, hSame⟩
      refine ⟨other, hOther, ?_⟩
      rw [List.mem_singleton.mp hLast, hSame, hKey]

end Collected

theorem addToGroups_collected {width : Nat}
    {rows : List (Row φ width)}
    {row : Row φ width}
    {final : Groups φ}
    (hCollected : Collected aggregation rows groups)
    (hAdd : addToGroups aggregation groups row = .ok final) :
    Collected aggregation (rows ++ [row]) final := by
  unfold addToGroups at hAdd
  rcases ok_of_bind hAdd with ⟨key, hKey, hRest⟩
  cases hLookup : groups.lookup key with
  | none =>
    rw [hLookup] at hRest
    rcases ok_of_bind hRest with ⟨accumulators, hEach, hEnd⟩
    cases hEnd
    exact hCollected.begin_group hKey hLookup hEach
  | some before =>
    rw [hLookup] at hRest
    rcases ok_of_bind hRest with ⟨accumulators, hEach, hEnd⟩
    cases hEnd
    exact hCollected.join_group hKey hLookup hEach

theorem collected_of_rows {width : Nat}
    {rows : List (Row φ width)}
    (hFold : rows.foldlM (addToGroups aggregation) [] =
      .ok groups) :
    Collected aggregation rows groups := by
  have hStart : Collected aggregation
      ([] : List (Row φ width)) [] :=
    { given := fun _ hGroup => absurd hGroup List.not_mem_nil
      covered := fun _ hRow => absurd hRow List.not_mem_nil }
  have hAll : Collected aggregation ([] ++ rows) groups :=
    Library.Traversal.foldlM_induction
      (motive := Collected aggregation)
      (fun _ _ _ _ hDone hStep =>
        addToGroups_collected hDone hStep)
      hStart hFold
  rwa [List.nil_append] at hAll

variable [TrueDivision φ]

variable {group : List (Value φ) × List (Accumulator φ)}
variable {grouped : List (Value φ)}

omit [DecidableEq φ] in
/- `HAVING` takes nothing off a row. -/
theorem groupedRow_ok
    (hRow : groupedRow aggregation group = .ok (some grouped)) :
    ∃ values, group.2.mapM Accumulator.value = .ok values ∧
      grouped = group.1 ++ values := by
  unfold groupedRow at hRow
  rcases ok_of_bind hRow with ⟨values, hValues, hRest⟩
  refine ⟨values, hValues, ?_⟩
  cases hHaving : aggregation.having with
  | none =>
    rw [hHaving] at hRest
    cases hRest
    rfl
  | some having =>
    rw [hHaving] at hRest
    rcases ok_of_bind hRest with ⟨value, _, hRest⟩
    rcases ok_of_bind hRest with ⟨kept, _, hEnd⟩
    cases kept with
    | false => cases hEnd
    | true =>
      cases hEnd
      rfl

/- What comes out for a group is its grouped row. -/
theorem groupedRow_isGroup {width : Nat}
    {rows : List (Row φ width)}
    (hCollected : Collected aggregation rows groups)
    (hGroup : group ∈ groups)
    (hRow : groupedRow aggregation group = .ok (some grouped)) :
    IsGroup aggregation
      (membersOf aggregation.groupKeys group.1 rows)
      grouped := by
  rcases hCollected.given group hGroup with ⟨hSome, hGiven⟩
  rcases groupedRow_ok hRow with ⟨values, hValues, hSame⟩
  refine ⟨hSome, group.1, values,
    fun row hMember => (keyOf_of_mem hMember).2, ?_, hSame⟩
  refine Library.Traversal.mapM_of_forall₂
    (Library.Traversal.forall₂_comp hGiven
      (Library.Traversal.forall₂_of_mapM hValues) ?_)
  intro entry accumulator value hAccumulate hValue
  unfold overGroup
  rw [hAccumulate]
  exact hValue

/- Every row that comes out of input rows is the grouped row
   of the input rows with one key. -/
theorem onOpen_groups {width : Nat}
    {rows : List (Row φ width)}
    {output : List (List (Value φ))}
    (hRows : rows ≠ [])
    (hOpen : onOpen aggregation rows = .ok output) :
    ∀ grouped ∈ output, ∃ key,
      IsGroup aggregation
        (membersOf aggregation.groupKeys key rows)
        grouped := by
  unfold onOpen at hOpen
  rcases ok_of_bind hOpen with ⟨groups, hFold, hRest⟩
  have hCollected := collected_of_rows hFold
  -- Rows have groups, so the group of no rows is not made.
  have hGroups : groups ≠ [] := by
    rcases List.exists_mem_of_ne_nil rows hRows with ⟨row, hRow⟩
    rcases hCollected.covered row hRow with ⟨group, hGroup, _⟩
    exact List.ne_nil_of_mem hGroup
  rw [if_neg (fun hNone => hGroups hNone.2)] at hRest
  rcases ok_of_bind hRest with ⟨filtered, hMap, hEnd⟩
  cases hEnd
  intro grouped hGrouped
  rcases List.mem_filterMap.mp hGrouped with
    ⟨found, hFound, hSome⟩
  rcases Library.Traversal.exists_of_forall₂
    (Library.Traversal.forall₂_of_mapM hMap) hFound with
    ⟨group, hGroup, hRow⟩
  cases hSome
  exact ⟨group.1, groupedRow_isGroup hCollected hGroup hRow⟩

end Aggregates

end Executor

end ChenDB
