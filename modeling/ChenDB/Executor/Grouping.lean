import ChenDB.Executor.Evaluation
import ChenDB.Executor.HashAggregate

/-
  Expressions of a grouped query: when two of them read the
  same, what one is worth on a row of a group once its
  aggregates are known, and which columns stray from the
  grouping.
-/

--
-- Reading the Same
--

namespace ChenDB

namespace Executor

open ChenDB.Parser (AggregateFunction Node)

variable {φ : Type}

/- One place for all nodes. -/
def nowhere : Node :=
  { nodeId := 0
    span := { start := 0, stop := 0, line := 1, column := 1 } }

/- A column by its index alone. -/
def bareColumn (index : Nat) : BoundColumn :=
  { name := ""
    columnIndex := index
    scanPosition := none
    dataType := .integer
    table := none
    tableName := none
    tablePosition := none }

namespace BoundExpression

mutual

/- The expression without the place it was written in, the
   names it is shown by and the identities of its lists. -/
def bare : BoundExpression φ → BoundExpression φ
  | .column _ reference =>
    .column nowhere (bareColumn reference.columnIndex)
  | .literal _ value dataType =>
    .literal nowhere value dataType
  | .countRows _ => .countRows nowhere
  | .functionCall _ function argument =>
    .functionCall nowhere function (bare argument)
  | .unaryOp _ op operand => .unaryOp nowhere op (bare operand)
  | .binaryOp _ op left right =>
    .binaryOp nowhere op (bare left) (bare right)
  | .isNullTest _ operand negated =>
    .isNullTest nowhere (bare operand) negated
  | .inList _ operand items negated _ =>
    .inList nowhere (bare operand) (bareItems items)
      negated 0
termination_by structural expression => expression

def bareItems : BoundItems φ → BoundItems φ
  | .one item => .one (bare item)
  | .more item rest => .more (bare item) (bareItems rest)
termination_by structural items => items

end

mutual

@[simp] theorem bare_bare :
    ∀ expression : BoundExpression φ,
      expression.bare.bare = expression.bare
  | .column _ _ => rfl
  | .literal _ _ _ => rfl
  | .countRows _ => rfl
  | .functionCall _ _ argument => by
      simp only [bare, bare_bare argument]
  | .unaryOp _ _ operand => by
      simp only [bare, bare_bare operand]
  | .binaryOp _ _ left right => by
      simp only [bare, bare_bare left, bare_bare right]
  | .isNullTest _ operand _ => by
      simp only [bare, bare_bare operand]
  | .inList _ operand items _ _ => by
      simp only [bare, bare_bare operand, bareItems_bare items]

theorem bareItems_bare :
    ∀ items : BoundItems φ,
      bareItems (bareItems items) = bareItems items
  | .one item => by simp only [bareItems, bare_bare item]
  | .more item rest => by
      simp only [bareItems, bare_bare item, bareItems_bare rest]

end

mutual

/- Its nodes are the bare ones of its nodes. -/
theorem walk_bare :
    ∀ expression : BoundExpression φ,
      expression.bare.walk = expression.walk.map bare
  | .column _ _ => rfl
  | .literal _ _ _ => rfl
  | .countRows _ => rfl
  | .functionCall _ _ argument => by
      simp only [bare, walk, List.map_cons, walk_bare argument]
  | .unaryOp _ _ operand => by
      simp only [bare, walk, List.map_cons, walk_bare operand]
  | .binaryOp _ _ left right => by
      simp only [bare, walk, List.map_cons, List.map_append,
        walk_bare left, walk_bare right]
  | .isNullTest _ operand _ => by
      simp only [bare, walk, List.map_cons, walk_bare operand]
  | .inList _ operand items _ _ => by
      simp only [bare, walk, List.map_cons, List.map_append,
        walk_bare operand, walkItems_bare items]

theorem walkItems_bare :
    ∀ items : BoundItems φ,
      walkItems (bareItems items) = (walkItems items).map bare
  | .one item => by
      simp only [bareItems, walkItems, walk_bare item]
  | .more item rest => by
      simp only [bareItems, walkItems, List.map_append,
        walk_bare item, walkItems_bare rest]

end

theorem mem_walk_self (expression : BoundExpression φ) :
    expression ∈ expression.walk := by
  cases expression <;> simp [walk]

/- The identity that an `IN` list is told by. -/
def identity : BoundExpression φ → Option Nat
  | .inList _ _ _ _ identity => some identity
  | _ => none

end BoundExpression

open BoundExpression (bare isCall isColumn toItems walk
  walkItems)

/- The expression that a signature was taken of, given the
   objects by their identities. -/
def ofSignature
    (objects : Nat → BoundExpression φ) :
    Signature φ → BoundExpression φ
  | .col index => .column nowhere (bareColumn index)
  | .lit value dataType => .literal nowhere value dataType
  | .rows => .countRows nowhere
  | .agg function argument =>
    .functionCall nowhere function
      (ofSignature objects argument)
  | .un op operand =>
    .unaryOp nowhere op (ofSignature objects operand)
  | .bin op left right =>
    .binaryOp nowhere op (ofSignature objects left)
      (ofSignature objects right)
  | .null negated operand =>
    .isNullTest nowhere (ofSignature objects operand) negated
  | .other identity => objects identity

/- Each identity is one object's. -/
def Objects
    (objects : Nat → BoundExpression φ)
    (nodes : List (BoundExpression φ)) : Prop :=
  ∀ node ∈ nodes, ∀ identity,
    node.identity = some identity → objects identity = node.bare

variable {objects : Nat → BoundExpression φ}

/- Fewer nodes, fewer lists to tell apart. -/
theorem Objects.mono
    {nodes fewer : List (BoundExpression φ)}
    (hObjects : Objects objects nodes)
    (hSub : fewer ⊆ nodes) :
    Objects objects fewer :=
  fun node hNode => hObjects node (hSub hNode)

/- A signature tells all of an expression that there is to
   read, once its objects are known. -/
theorem bare_of_signature :
    ∀ expression : BoundExpression φ,
      Objects objects expression.walk →
        expression.bare =
          ofSignature objects (signature expression)
  | .column _ _, _ => rfl
  | .literal _ _ _, _ => rfl
  | .countRows _, _ => rfl
  | .functionCall _ _ argument, hObjects => by
      have hArgument := bare_of_signature argument
        (hObjects.mono (by simp [walk]))
      simp only [bare, signature, ofSignature, hArgument]
  | .unaryOp _ _ operand, hObjects => by
      have hOperand := bare_of_signature operand
        (hObjects.mono (by simp [walk]))
      simp only [bare, signature, ofSignature, hOperand]
  | .binaryOp _ _ left right, hObjects => by
      have hLeft := bare_of_signature left
        (hObjects.mono (by simp [walk]))
      have hRight := bare_of_signature right
        (hObjects.mono (by simp [walk]))
      simp only [bare, signature, ofSignature, hLeft, hRight]
  | .isNullTest _ operand _, hObjects => by
      have hOperand := bare_of_signature operand
        (hObjects.mono (by simp [walk]))
      simp only [bare, signature, ofSignature, hOperand]
  | .inList node operand items negated identity, hObjects => by
      have hObject := hObjects _
        (BoundExpression.mem_walk_self _) identity rfl
      simp only [signature, ofSignature, hObject]

/- So one signature is one expression. -/
theorem bare_eq_of_signature
    {first second : BoundExpression φ}
    (hFirst : Objects objects first.walk)
    (hSecond : Objects objects second.walk)
    (hSame : signature first = signature second) :
    first.bare = second.bare := by
  rw [bare_of_signature first hFirst,
    bare_of_signature second hSecond, hSame]

--
-- Evaluating the Same
--

section Evaluating

variable [Double φ] {width width' : Nat}
variable {row : Row φ width} {row' : Row φ width'}

mutual

/- Nothing that is taken off is evaluated. -/
theorem evaluateBound_bare (row : Row φ width) :
    ∀ expression : BoundExpression φ,
      evaluateBound row expression.bare =
        evaluateBound row expression
  | .column _ _ => rfl
  | .literal _ _ _ => rfl
  | .countRows _ => rfl
  | .functionCall _ _ _ => rfl
  | .unaryOp _ op operand =>
    evaluate_unaryOp op (evaluateBound_bare row operand)
  | .binaryOp _ op left right =>
    evaluate_binaryOp op (evaluateBound_bare row left)
      (evaluateBound_bare row right)
  | .isNullTest _ operand negated =>
    evaluate_isNullTest negated
      (evaluateBound_bare row operand)
  | .inList _ operand items negated _ =>
    evaluate_inList negated (evaluateBound_bare row operand)
      (fun value unknown =>
        evaluateItems_bare row value unknown negated items)

theorem evaluateItems_bare
    (row : Row φ width)
    (value : Value φ)
    (unknown negated : Bool) :
    ∀ items : BoundItems φ,
      evaluateItems row value unknown negated
          (toItems (BoundExpression.bareItems items)) =
        evaluateItems row value unknown negated (toItems items)
  | .one item =>
    evaluateItems_one value unknown negated
      (evaluateBound_bare row item)
  | .more item rest =>
    evaluateItems_more value unknown negated
      (evaluateBound_bare row item)
      (fun unknown =>
        evaluateItems_bare row value unknown negated rest)

end

/- Names no column and calls nothing. -/
def closed (nodes : List (BoundExpression φ)) : Bool :=
  nodes.all fun node => !node.isColumn && !node.isCall

mutual

/- What names no column reads no row. -/
theorem evaluateBound_closed
    (row : Row φ width)
    (row' : Row φ width') :
    ∀ expression : BoundExpression φ,
      closed expression.walk →
        evaluateBound row expression =
          evaluateBound row' expression
  | .column _ _, hClosed => by
      simp [closed, walk, isColumn] at hClosed
  | .literal _ _ _, _ => rfl
  | .countRows _, _ => rfl
  | .functionCall _ _ _, _ => rfl
  | .unaryOp _ op operand, hClosed => by
      refine evaluate_unaryOp op
        (evaluateBound_closed row row' operand ?_)
      simp_all [closed, walk]
  | .binaryOp _ op left right, hClosed => by
      refine evaluate_binaryOp op
        (evaluateBound_closed row row' left ?_)
        (evaluateBound_closed row row' right ?_) <;>
      simp_all [closed, walk]
  | .isNullTest _ operand negated, hClosed => by
      refine evaluate_isNullTest negated
        (evaluateBound_closed row row' operand ?_)
      simp_all [closed, walk]
  | .inList _ operand items negated _, hClosed => by
      refine evaluate_inList negated
        (evaluateBound_closed row row' operand ?_)
        (fun value unknown => evaluateItems_closed row row'
          value unknown negated items ?_) <;>
      simp_all [closed, walk]

theorem evaluateItems_closed
    (row : Row φ width)
    (row' : Row φ width')
    (value : Value φ)
    (unknown negated : Bool) :
    ∀ items : BoundItems φ,
      closed (walkItems items) →
        evaluateItems row value unknown negated
            (toItems items) =
          evaluateItems row' value unknown negated
            (toItems items)
  | .one item, hClosed =>
    evaluateItems_one value unknown negated
      (evaluateBound_closed row row' item hClosed)
  | .more item rest, hClosed => by
      refine evaluateItems_more value unknown negated
        (evaluateBound_closed row row' item ?_)
        (fun unknown => evaluateItems_closed row row' value
          unknown negated rest ?_) <;>
      simp_all [closed, walkItems]

end

--
-- Aggregates by Their Values
--

variable [TrueDivision φ]

mutual

/- The expression with each aggregate call replaced by its
   value over a group. -/
def withAggregates
    (rows : List (Row φ width)) :
    BoundExpression φ → Except EngineError (BoundExpression φ)
  | .column node reference => return .column node reference
  | .literal node value dataType =>
    return .literal node value dataType
  | .countRows node => do
      let value ← overGroup rows .countRows
      return .literal node value none
  | .functionCall node function argument => do
      let value ← overGroup rows (.over function argument)
      return .literal node value none
  | .unaryOp node op operand => do
      let operand ← withAggregates rows operand
      return .unaryOp node op operand
  | .binaryOp node op left right => do
      let left ← withAggregates rows left
      let right ← withAggregates rows right
      return .binaryOp node op left right
  | .isNullTest node operand negated => do
      let operand ← withAggregates rows operand
      return .isNullTest node operand negated
  | .inList node operand items negated identity => do
      let operand ← withAggregates rows operand
      let items ← itemsWithAggregates rows items
      return .inList node operand items negated identity
termination_by structural expression => expression

def itemsWithAggregates
    (rows : List (Row φ width)) :
    BoundItems φ → Except EngineError (BoundItems φ)
  | .one item => do
      let item ← withAggregates rows item
      return .one item
  | .more item rest => do
      let item ← withAggregates rows item
      let rest ← itemsWithAggregates rows rest
      return .more item rest
termination_by structural items => items

end

/- The original expression on one row of a group. -/
def evaluateOver
    (rows : List (Row φ width))
    (row : Row φ width)
    (expression : BoundExpression φ) :
    Except EngineError (Value φ) := do
  let replaced ← withAggregates rows expression
  evaluateBound row replaced

/- Nor is it by the accumulators of a group. -/
omit [TrueDivision φ] in
theorem addRow_bare
    (function : AggregateFunction)
    (argument : BoundExpression φ) :
    @Accumulator.addRow φ _ width
        (.over function argument.bare) =
      Accumulator.addRow (.over function argument) := by
  funext accumulator row
  simp only [Accumulator.addRow, evaluateBound_bare]

theorem overGroup_bare
    (rows : List (Row φ width))
    (function : AggregateFunction)
    (argument : BoundExpression φ) :
    overGroup rows (.over function argument.bare) =
      overGroup rows (.over function argument) := by
  simp only [overGroup, accumulate, addRow_bare,
    Aggregate.function]

mutual

theorem withAggregates_bare (rows : List (Row φ width)) :
    ∀ expression : BoundExpression φ,
      withAggregates rows expression.bare =
        (withAggregates rows expression).map bare
  | .column _ _ => rfl
  | .literal _ _ _ => rfl
  | .countRows _ => by
      simp only [bare, withAggregates]
      cases overGroup rows .countRows <;> rfl
  | .functionCall _ function argument => by
      simp only [bare, withAggregates, overGroup_bare]
      cases overGroup rows (.over function argument) <;> rfl
  | .unaryOp _ _ operand => by
      simp only [bare, withAggregates,
        withAggregates_bare rows operand]
      cases withAggregates rows operand <;> rfl
  | .binaryOp _ _ left right => by
      simp only [bare, withAggregates,
        withAggregates_bare rows left,
        withAggregates_bare rows right]
      cases withAggregates rows left with
      | error raised => rfl
      | ok value =>
        cases withAggregates rows right <;> rfl
  | .isNullTest _ operand _ => by
      simp only [bare, withAggregates,
        withAggregates_bare rows operand]
      cases withAggregates rows operand <;> rfl
  | .inList _ operand items _ _ => by
      simp only [bare, withAggregates,
        withAggregates_bare rows operand,
        itemsWithAggregates_bare rows items]
      cases withAggregates rows operand with
      | error raised => rfl
      | ok value =>
        cases itemsWithAggregates rows items <;> rfl

theorem itemsWithAggregates_bare
    (rows : List (Row φ width)) :
    ∀ items : BoundItems φ,
      itemsWithAggregates rows
          (BoundExpression.bareItems items) =
        (itemsWithAggregates rows items).map
          BoundExpression.bareItems
  | .one item => by
      simp only [BoundExpression.bareItems, itemsWithAggregates,
        withAggregates_bare rows item]
      cases withAggregates rows item <;> rfl
  | .more item rest => by
      simp only [BoundExpression.bareItems, itemsWithAggregates,
        withAggregates_bare rows item,
        itemsWithAggregates_bare rows rest]
      cases withAggregates rows item with
      | error raised => rfl
      | ok value =>
        cases itemsWithAggregates rows rest <;> rfl

end

theorem evaluateOver_bare
    (rows : List (Row φ width))
    (row : Row φ width)
    (expression : BoundExpression φ) :
    evaluateOver rows row expression.bare =
      evaluateOver rows row expression := by
  unfold evaluateOver
  rw [withAggregates_bare]
  cases withAggregates rows expression with
  | error raised => rfl
  | ok replaced => exact evaluateBound_bare row replaced

/- Expressions that read the same have the same value. -/
theorem evaluateOver_congr
    (rows : List (Row φ width))
    (row : Row φ width)
    {first second : BoundExpression φ}
    (hSame : first.bare = second.bare) :
    evaluateOver rows row first =
      evaluateOver rows row second := by
  rw [← evaluateOver_bare, hSame, evaluateOver_bare]

mutual

/- Nothing to replace where nothing is called. -/
theorem withAggregates_of_no_call
    (rows : List (Row φ width)) :
    ∀ expression : BoundExpression φ,
      (∀ node ∈ expression.walk, node.isCall = false) →
        withAggregates rows expression = .ok expression
  | .column _ _, _ => rfl
  | .literal _ _ _, _ => rfl
  | .countRows _, hNone => by
      simp [walk, isCall, BoundExpression.asAggregate] at hNone
  | .functionCall _ _ _, hNone => by
      simp [walk, isCall, BoundExpression.asAggregate] at hNone
  | .unaryOp _ _ operand, hNone => by
      have hOperand := withAggregates_of_no_call rows operand
        (fun node hNode => hNone node (by simp [walk, hNode]))
      simp only [withAggregates, hOperand]
      rfl
  | .binaryOp _ _ left right, hNone => by
      have hLeft := withAggregates_of_no_call rows left
        (fun node hNode => hNone node (by simp [walk, hNode]))
      have hRight := withAggregates_of_no_call rows right
        (fun node hNode => hNone node (by simp [walk, hNode]))
      simp only [withAggregates, hLeft, hRight]
      rfl
  | .isNullTest _ operand _, hNone => by
      have hOperand := withAggregates_of_no_call rows operand
        (fun node hNode => hNone node (by simp [walk, hNode]))
      simp only [withAggregates, hOperand]
      rfl
  | .inList _ operand items _ _, hNone => by
      have hOperand := withAggregates_of_no_call rows operand
        (fun node hNode => hNone node (by simp [walk, hNode]))
      have hItems := itemsWithAggregates_of_no_call rows items
        (fun node hNode => hNone node (by simp [walk, hNode]))
      simp only [withAggregates, hOperand, hItems]
      rfl

theorem itemsWithAggregates_of_no_call
    (rows : List (Row φ width)) :
    ∀ items : BoundItems φ,
      (∀ node ∈ walkItems items, node.isCall = false) →
        itemsWithAggregates rows items = .ok items
  | .one item, hNone => by
      have hItem := withAggregates_of_no_call rows item hNone
      simp only [itemsWithAggregates, hItem]
      rfl
  | .more item rest, hNone => by
      have hItem := withAggregates_of_no_call rows item
        (fun node hNode =>
          hNone node (by simp [walkItems, hNode]))
      have hRest := itemsWithAggregates_of_no_call rows rest
        (fun node hNode =>
          hNone node (by simp [walkItems, hNode]))
      simp only [itemsWithAggregates, hItem, hRest]
      rfl

end

/- Without a call a group is read by its row. -/
theorem evaluateOver_of_no_call
    (rows : List (Row φ width))
    (row : Row φ width)
    {expression : BoundExpression φ}
    (hNone : ∀ node ∈ expression.walk, node.isCall = false) :
    evaluateOver rows row expression =
      evaluateBound row expression := by
  unfold evaluateOver
  rw [withAggregates_of_no_call rows expression hNone]
  rfl

end Evaluating

--
-- Settled Expressions
--

/- No call is left to evaluate above the aggregate, and every
   `IN` list there is a constant one. -/
def settled : BoundExpression φ → Bool
  | .column _ _ => true
  | .literal _ _ _ => true
  | .countRows _ => false
  | .functionCall _ _ _ => false
  | .unaryOp _ _ operand => settled operand
  | .binaryOp _ _ left right => settled left && settled right
  | .isNullTest _ operand _ => settled operand
  | .inList _ operand items _ _ =>
    closed (walk operand ++ walkItems items)

@[simp] theorem isColumn_bare
    (expression : BoundExpression φ) :
    expression.bare.isColumn = expression.isColumn := by
  cases expression <;> rfl

@[simp] theorem isCall_bare
    (expression : BoundExpression φ) :
    expression.bare.isCall = expression.isCall := by
  cases expression <;> rfl

theorem closed_map_bare (nodes : List (BoundExpression φ)) :
    closed (nodes.map bare) = closed nodes := by
  simp [closed, Function.comp_def]

theorem settled_bare :
    ∀ expression : BoundExpression φ,
      settled expression.bare = settled expression
  | .column _ _ => rfl
  | .literal _ _ _ => rfl
  | .countRows _ => rfl
  | .functionCall _ _ _ => rfl
  | .unaryOp _ _ operand => by
      simp only [bare, settled, settled_bare operand]
  | .binaryOp _ _ left right => by
      simp only [bare, settled, settled_bare left,
        settled_bare right]
  | .isNullTest _ operand _ => by
      simp only [bare, settled, settled_bare operand]
  | .inList _ operand items _ _ => by
      simp only [bare, settled, BoundExpression.walk_bare,
        BoundExpression.walkItems_bare, ← List.map_append,
        closed_map_bare]

/- A settled list reads neither column nor call. -/
theorem closed_inList
    {node : Node}
    {operand : BoundExpression φ}
    {items : BoundItems φ}
    {negated : Bool}
    {identity : Nat}
    (hSettled : settled
      (.inList node operand items negated identity)) :
    closed (walk
      (.inList node operand items negated identity)) := by
  simpa [settled, closed, walk, isColumn, isCall,
    BoundExpression.asAggregate] using hSettled

/- A column that stands outside every aggregate and is no
   part of a grouping expression. -/
mutual

def Stray
    (keys : List (BoundExpression φ)) :
    BoundExpression φ → Prop
  | .column node reference =>
    ∀ key ∈ keys, key.bare ≠ bare (.column node reference)
  | .literal _ _ _ => False
  | .countRows _ => False
  | .functionCall _ _ _ => False
  | .unaryOp node op operand =>
    (∀ key ∈ keys,
      key.bare ≠ bare (.unaryOp node op operand)) ∧
      Stray keys operand
  | .binaryOp node op left right =>
    (∀ key ∈ keys,
      key.bare ≠ bare (.binaryOp node op left right)) ∧
      (Stray keys left ∨ Stray keys right)
  | .isNullTest node operand negated =>
    (∀ key ∈ keys,
      key.bare ≠ bare (.isNullTest node operand negated)) ∧
      Stray keys operand
  | .inList node operand items negated identity =>
    (∀ key ∈ keys,
      key.bare ≠ bare
        (.inList node operand items negated identity)) ∧
      (Stray keys operand ∨ StrayItems keys items)
termination_by structural expression => expression

def StrayItems
    (keys : List (BoundExpression φ)) :
    BoundItems φ → Prop
  | .one item => Stray keys item
  | .more item rest => Stray keys item ∨ StrayItems keys rest
termination_by structural items => items

end

/- What has a stray column in it is no key itself. -/
theorem Stray.not_key
    {keys : List (BoundExpression φ)}
    {expression key : BoundExpression φ}
    (hStray : Stray keys expression)
    (hKey : key ∈ keys) :
    key.bare ≠ expression.bare := by
  cases expression with
  | column node reference => exact hStray key hKey
  | literal node value dataType => exact hStray.elim
  | countRows node => exact hStray.elim
  | functionCall node function argument =>
    exact hStray.elim
  | unaryOp node op operand => exact hStray.1 key hKey
  | binaryOp node op left right => exact hStray.1 key hKey
  | isNullTest node operand negated =>
    exact hStray.1 key hKey
  | inList node operand items negated identity =>
    exact hStray.1 key hKey

mutual

theorem stray_bare (keys : List (BoundExpression φ)) :
    ∀ expression : BoundExpression φ,
      Stray keys expression.bare ↔ Stray keys expression
  | .column _ _ => Iff.rfl
  | .literal _ _ _ => Iff.rfl
  | .countRows _ => Iff.rfl
  | .functionCall _ _ _ => Iff.rfl
  | .unaryOp _ _ operand => by
      simp only [bare, Stray, BoundExpression.bare_bare,
        stray_bare keys operand]
  | .binaryOp _ _ left right => by
      simp only [bare, Stray, BoundExpression.bare_bare,
        stray_bare keys left, stray_bare keys right]
  | .isNullTest _ operand _ => by
      simp only [bare, Stray, BoundExpression.bare_bare,
        stray_bare keys operand]
  | .inList _ operand items _ _ => by
      simp only [bare, Stray, BoundExpression.bare_bare,
        BoundExpression.bareItems_bare, stray_bare keys operand,
        strayItems_bare keys items]

theorem strayItems_bare (keys : List (BoundExpression φ)) :
    ∀ items : BoundItems φ,
      StrayItems keys (BoundExpression.bareItems items) ↔
        StrayItems keys items
  | .one item => by
      simp only [BoundExpression.bareItems, StrayItems,
        stray_bare keys item]
  | .more item rest => by
      simp only [BoundExpression.bareItems, StrayItems,
        stray_bare keys item, strayItems_bare keys rest]

end

mutual

/- There is no column to be stray. -/
theorem not_stray_of_closed
    (keys : List (BoundExpression φ)) :
    ∀ expression : BoundExpression φ,
      closed expression.walk → ¬ Stray keys expression
  | .column _ _, hClosed => by
      simp [closed, walk, isColumn] at hClosed
  | .literal _ _ _, _ => id
  | .countRows _, _ => id
  | .functionCall _ _ _, _ => id
  | .unaryOp _ _ operand, hClosed => fun hStray =>
    not_stray_of_closed keys operand
      (by simp_all [closed, walk]) hStray.2
  | .binaryOp _ _ left right, hClosed => fun hStray =>
    hStray.2.elim
      (not_stray_of_closed keys left
        (by simp_all [closed, walk]))
      (not_stray_of_closed keys right
        (by simp_all [closed, walk]))
  | .isNullTest _ operand _, hClosed => fun hStray =>
    not_stray_of_closed keys operand
      (by simp_all [closed, walk]) hStray.2
  | .inList _ operand items _ _, hClosed => fun hStray =>
    hStray.2.elim
      (not_stray_of_closed keys operand
        (by simp_all [closed, walk]))
      (not_strayItems_of_closed keys items
        (by simp_all [closed, walk]))

theorem not_strayItems_of_closed
    (keys : List (BoundExpression φ)) :
    ∀ items : BoundItems φ,
      closed (walkItems items) → ¬ StrayItems keys items
  | .one item, hClosed =>
    not_stray_of_closed keys item hClosed
  | .more item rest, hClosed => fun hStray =>
    hStray.elim
      (not_stray_of_closed keys item
        (by simp_all [closed, walkItems]))
      (not_strayItems_of_closed keys rest
        (by simp_all [closed, walkItems]))

end

end Executor

end ChenDB
