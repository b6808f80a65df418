import ChenDB.Executor.Grouping

/-
  Rewriting over a group, one expression at a time: the
  rewritten one has on the row of a group the value that the
  original has on any row of the group, as long as no `IN`
  list with a column or an aggregate in it is left in it.
-/

--
-- The Layout of the Grouped Row
--

namespace ChenDB

namespace Executor

open BoundExpression (isCall isColumn walk walkItems)
open Library.StateExcept (ok_of_bind)

variable {φ : Type}

/- A call that computes the aggregate. -/
def Aggregate.call : Aggregate φ → BoundExpression φ
  | .countRows => .countRows nowhere
  | .over function argument =>
    .functionCall nowhere function argument

theorem signature_call
    {expression : BoundExpression φ}
    {aggregate : Aggregate φ}
    (hCall : expression.asAggregate = some aggregate) :
    signature expression = signature aggregate.call := by
  cases expression <;>
    simp_all [BoundExpression.asAggregate] <;>
    subst hCall <;> rfl

/- The aggregates have the slots behind the keys, each under
   the signature of its call. -/
structure Tabled
    (keys : List (BoundExpression φ))
    (seen : Seen φ) : Prop where
  slots : ∀ index (hIndex : index < seen.length),
    seen[index].2.slot = keys.length + index
  signatures : ∀ pair ∈ seen,
    pair.1 = signature pair.2.aggregate.call

/- The nodes that a plan was made from. -/
def planNodes
    (keys : List (BoundExpression φ))
    (seen : Seen φ) : List (BoundExpression φ) :=
  keys.flatMap walk ++
    seen.flatMap fun pair => pair.2.aggregate.call.walk

section Slots

variable [DecidableEq φ]

variable {expressions : List (BoundExpression φ)}
variable {wanted : Signature φ} {index : Nat}

theorem indexBySignature_some
    (hIndex : indexBySignature expressions wanted =
      some index) :
    ∃ expression, expressions[index]? = some expression ∧
      signature expression = wanted := by
  unfold indexBySignature at hIndex
  rcases Option.map_eq_some_iff.mp hIndex with
    ⟨entry, hFind, rfl⟩
  have hMem := List.mem_reverse.mp
    (List.mem_of_find?_eq_some hFind)
  have hSame := List.find?_some hFind
  refine ⟨entry.1, ?_, of_decide_eq_true hSame⟩
  exact List.mem_zipIdx_iff_getElem?.mp hMem

variable {expression : BoundExpression φ}

theorem indexBySignature_isSome
    (hAt : expressions[index]? = some expression)
    (hSame : signature expression = wanted) :
    (indexBySignature expressions wanted).isSome := by
  simp only [indexBySignature, Option.isSome_map,
    List.find?_isSome]
  exact ⟨(expression, index),
    List.mem_reverse.mpr
      (List.mem_zipIdx_iff_getElem?.mpr hAt),
    decide_eq_true hSame⟩

variable [Spelling φ]

variable {keys : List (BoundExpression φ)} {seen : Seen φ}
variable {reference : BoundExpression φ}

/- A slot is a reference to a key, or to an aggregate. -/
theorem groupSlot_cases
    (hSlot : groupSlot keys seen expression = some reference) :
    (∃ index key dataType name,
      keys[index]? = some key ∧
        signature key = signature expression ∧
        reference = slotRef expression index dataType name) ∨
    (∃ entry dataType name,
      (signature expression, entry) ∈ seen ∧
        reference =
          slotRef expression entry.slot dataType name) := by
  unfold groupSlot at hSlot
  cases hIndex : indexBySignature keys
      (signature expression) with
  | some index =>
    rw [hIndex] at hSlot
    rcases indexBySignature_some hIndex with ⟨key, hKey, hSame⟩
    cases hSlot
    exact .inl ⟨index, key, _, _, hKey, hSame, rfl⟩
  | none =>
    rw [hIndex] at hSlot
    rcases Option.map_eq_some_iff.mp hSlot with
      ⟨entry, hLookup, rfl⟩
    exact .inr ⟨entry, _, _,
      Library.Traversal.mem_of_lookup hLookup, rfl⟩

/- Every column reference is to a grouped row of so many
   columns. -/
def Addresses
    (width : Nat)
    (expression : BoundExpression φ) : Prop :=
  ∀ node reference,
    .column node reference ∈ expression.walk →
      reference.table = none ∧ reference.columnIndex < width

variable {width : Nat}

omit [DecidableEq φ] in
theorem addresses_slotRef
    {slot : Nat}
    (origin : BoundExpression φ)
    (dataType : Option Indexing.DataType)
    (name : String)
    (hSlot : slot < width) :
    Addresses width (slotRef origin slot dataType name) := by
  intro node reference hMem
  simp only [slotRef, walk, List.mem_singleton,
    BoundExpression.column.injEq] at hMem
  rcases hMem with ⟨_, rfl⟩
  exact ⟨rfl, hSlot⟩

theorem addresses_groupSlot
    (hTabled : Tabled keys seen)
    (hSlot : groupSlot keys seen expression = some reference) :
    Addresses (keys.length + seen.length) reference := by
  rcases groupSlot_cases hSlot with
    ⟨index, key, dataType, name, hKey, _, rfl⟩ |
    ⟨entry, dataType, name, hEntry, rfl⟩
  · have hIndex := (List.getElem?_eq_some_iff.mp hKey).1
    exact addresses_slotRef _ _ _ (by omega)
  · rcases List.getElem_of_mem hEntry with
      ⟨index, hIndex, hAt⟩
    have hPlace := hTabled.slots index hIndex
    simp only [hAt] at hPlace
    exact addresses_slotRef _ _ _ (by omega)

omit [DecidableEq φ] [Spelling φ] in
theorem addresses_of_closed
    (hClosed : closed expression.walk) :
    Addresses width expression := by
  intro node reference hMem
  have hNode := List.all_eq_true.mp hClosed _ hMem
  simp [isColumn] at hNode

end Slots

--
-- Values in the Grouped Row
--

section Values

variable [Double φ] [TrueDivision φ] {width : Nat}

omit [TrueDivision φ] in
theorem evaluateBound_slotRef [Spelling φ]
    {grouped : List (Value φ)}
    {slot : Nat}
    {value : Value φ}
    (origin : BoundExpression φ)
    (dataType : Option Indexing.DataType)
    (name : String)
    (hValue : grouped[slot]? = some value) :
    evaluateBound grouped.get
        (slotRef origin slot dataType name) =
      .ok value := by
  rcases List.getElem?_eq_some_iff.mp hValue with ⟨hSlot, hAt⟩
  simp only [evaluateBound, slotRef,
    BoundExpression.toExpression, evaluate]
  rw [dif_pos hSlot]
  exact congrArg Except.ok hAt

theorem evaluateOver_call
    (rows : List (Row φ width))
    (row : Row φ width)
    (aggregate : Aggregate φ) :
    evaluateOver rows row aggregate.call =
      overGroup rows aggregate := by
  cases aggregate with
  | countRows =>
    simp only [Aggregate.call, evaluateOver, withAggregates]
    cases overGroup rows .countRows <;> rfl
  | «over» function argument =>
    simp only [Aggregate.call, evaluateOver, withAggregates]
    cases overGroup rows (.over function argument) <;> rfl

variable {aggregation : BoundAggregation φ}
variable {rows : List (Row φ width)} {row : Row φ width}
variable {grouped : List (Value φ)}

variable {index : Nat}

/- A key's slot holds what the key is on each row. -/
theorem IsGroup.key_value
    (hGroup : IsGroup aggregation rows grouped)
    (hRow : row ∈ rows)
    {key : BoundExpression φ}
    (hKey : aggregation.groupKeys[index]? = some key) :
    ∃ value, grouped[index]? = some value ∧
      evaluateBound row key = .ok value := by
  rcases hGroup with ⟨_, keyRow, values, hKeys, _, rfl⟩
  have hEach := Library.Traversal.forall₂_of_mapM
    (hKeys row hRow)
  rcases List.getElem?_eq_some_iff.mp hKey with ⟨hIndex, hAt⟩
  have hLength := hEach.length_eq
  have hHere : index < keyRow.length := by omega
  refine ⟨keyRow[index], ?_, ?_⟩
  · rw [List.getElem?_append_left hHere]
    exact List.getElem?_eq_getElem hHere
  · have hGet := List.forall₂_iff_get.mp hEach
    have hValue := hGet.2 index hIndex hHere
    rw [List.get_eq_getElem, hAt] at hValue
    exact hValue

/- An aggregate's slot holds its value over the group. -/
theorem IsGroup.aggregate_value
    (hGroup : IsGroup aggregation rows grouped)
    {entry : BoundAggregate φ}
    (hEntry : aggregation.aggregates[index]? = some entry) :
    ∃ value,
      grouped[aggregation.groupKeys.length + index]? =
          some value ∧
        overGroup rows entry.aggregate = .ok value := by
  rcases hGroup with ⟨hRows, keyRow, values, hKeys, hOver, rfl⟩
  rcases List.exists_mem_of_ne_nil rows hRows with ⟨row, hRow⟩
  have hKeyRow := (Library.Traversal.forall₂_of_mapM
    (hKeys row hRow)).length_eq
  have hEach := Library.Traversal.forall₂_of_mapM hOver
  rcases List.getElem?_eq_some_iff.mp hEntry with ⟨hIndex, hAt⟩
  have hLength := hEach.length_eq
  have hHere : index < values.length := by omega
  refine ⟨values[index], ?_, ?_⟩
  · rw [hKeyRow,
      List.getElem?_append_right (by omega : _ ≤ _)]
    simp only [Nat.add_sub_cancel_left]
    exact List.getElem?_eq_getElem hHere
  · have hGet := List.forall₂_iff_get.mp hEach
    have hValue := hGet.2 index hIndex hHere
    rw [List.get_eq_getElem, hAt] at hValue
    exact hValue

/- The slots hold what the keys and the aggregates are, on
   this row of these rows. -/
structure Holds
    (aggregation : BoundAggregation φ)
    (rows : List (Row φ width))
    (row : Row φ width)
    (grouped : List (Value φ)) : Prop where
  keys : ∀ {index : Nat} {key : BoundExpression φ},
    aggregation.groupKeys[index]? = some key →
      ∃ value, grouped[index]? = some value ∧
        evaluateBound row key = .ok value
  aggregates : ∀ {index : Nat} {entry : BoundAggregate φ},
    aggregation.aggregates[index]? = some entry →
      ∃ value,
        grouped[aggregation.groupKeys.length + index]? =
            some value ∧
          overGroup rows entry.aggregate = .ok value

theorem IsGroup.holds
    (hGroup : IsGroup aggregation rows grouped)
    (hRow : row ∈ rows) :
    Holds aggregation rows row grouped where
  keys := hGroup.key_value hRow
  aggregates := hGroup.aggregate_value

end Values

--
-- Rewriting
--

section Rewriting

variable [Spelling φ] [DecidableEq φ]

/- What rewriting does to an expression that it accepts. -/
inductive Rewrites
    (keys : List (BoundExpression φ))
    (seen : Seen φ) :
    BoundExpression φ → BoundExpression φ → Prop where
  | slot {expression reference}
      (hSlot : groupSlot keys seen expression =
        some reference) :
      Rewrites keys seen expression reference
  | literal {node value dataType} :
      Rewrites keys seen (.literal node value dataType)
        (.literal node value dataType)
  | call {expression}
      (hSlot : groupSlot keys seen expression = none)
      (hCall : expression.isCall) :
      Rewrites keys seen expression expression
  | inList {node operand items negated identity}
      (hSlot : groupSlot keys seen
        (.inList node operand items negated identity) = none) :
      Rewrites keys seen
        (.inList node operand items negated identity)
        (.inList node operand items negated identity)
  | unaryOp {node op operand operand'}
      (hSlot : groupSlot keys seen
        (.unaryOp node op operand) = none)
      (hOperand : Rewrites keys seen operand operand') :
      Rewrites keys seen (.unaryOp node op operand)
        (.unaryOp node op operand')
  | binaryOp {node op left right left' right'}
      (hSlot : groupSlot keys seen
        (.binaryOp node op left right) = none)
      (hLeft : Rewrites keys seen left left')
      (hRight : Rewrites keys seen right right') :
      Rewrites keys seen (.binaryOp node op left right)
        (.binaryOp node op left' right')
  | isNullTest {node operand negated operand'}
      (hSlot : groupSlot keys seen
        (.isNullTest node operand negated) = none)
      (hOperand : Rewrites keys seen operand operand') :
      Rewrites keys seen (.isNullTest node operand negated)
        (.isNullTest node operand' negated)

theorem rewrites_of_ok
    {keys : List (BoundExpression φ)}
    {seen : Seen φ} :
    ∀ {expression rewritten : BoundExpression φ},
      rewriteOverGroup keys seen expression = .ok rewritten →
        Rewrites keys seen expression rewritten
  | expression, rewritten, hOk => by
    unfold rewriteOverGroup at hOk
    cases hSlot : groupSlot keys seen expression with
    | some reference =>
      simp only [hSlot] at hOk
      cases hOk
      exact .slot hSlot
    | none =>
      simp only [hSlot] at hOk
      cases expression with
      | column node reference => cases hOk
      | literal node value dataType =>
        cases hOk
        exact .literal
      | countRows node =>
        cases hOk
        exact .call hSlot rfl
      | functionCall node function argument =>
        cases hOk
        exact .call hSlot rfl
      | unaryOp node op operand =>
        rcases ok_of_bind hOk with ⟨operand', hOperand, hEnd⟩
        cases hEnd
        exact .unaryOp hSlot (rewrites_of_ok hOperand)
      | binaryOp node op left right =>
        rcases ok_of_bind hOk with ⟨left', hLeft, hRest⟩
        rcases ok_of_bind hRest with ⟨right', hRight, hEnd⟩
        cases hEnd
        exact .binaryOp hSlot (rewrites_of_ok hLeft)
          (rewrites_of_ok hRight)
      | isNullTest node operand negated =>
        rcases ok_of_bind hOk with ⟨operand', hOperand, hEnd⟩
        cases hEnd
        exact .isNullTest hSlot (rewrites_of_ok hOperand)
      | inList node operand items negated identity =>
        cases hOk
        exact .inList hSlot

section Same

variable {keys : List (BoundExpression φ)} {seen : Seen φ}
variable {objects : Nat → BoundExpression φ}

variable {pair : Signature φ × BoundAggregate φ}

omit [Spelling φ] [DecidableEq φ] in
theorem Tabled.entry_at
    (hTabled : Tabled keys seen)
    (hPair : pair ∈ seen) :
    ∃ index, (seen.map Prod.snd)[index]? = some pair.2 ∧
      pair.2.slot = keys.length + index := by
  rcases List.getElem_of_mem hPair with ⟨index, hIndex, hAt⟩
  refine ⟨index, ?_, ?_⟩
  · rw [List.getElem?_map, List.getElem?_eq_getElem hIndex,
      hAt]
    rfl
  · rw [← hTabled.slots index hIndex, hAt]

omit [Spelling φ] [DecidableEq φ] in
theorem planNodes_key
    (hObjects : Objects objects (planNodes keys seen))
    {key : BoundExpression φ}
    (hKey : key ∈ keys) :
    Objects objects key.walk :=
  hObjects.mono (fun _ hNode =>
    List.mem_append_left _
      (List.mem_flatMap.mpr ⟨key, hKey, hNode⟩))

omit [Spelling φ] [DecidableEq φ] in
theorem planNodes_call
    (hObjects : Objects objects (planNodes keys seen))
    (hPair : pair ∈ seen) :
    Objects objects pair.2.aggregate.call.walk :=
  hObjects.mono (fun _ hNode =>
    List.mem_append_right _
      (List.mem_flatMap.mpr ⟨pair, hPair, hNode⟩))

variable [Double φ] [TrueDivision φ] {width : Nat}
variable {rows : List (Row φ width)} {row : Row φ width}
variable {grouped : List (Value φ)}
variable {having : Option (BoundExpression φ)}

section Grouped

variable
    (hTabled : Tabled keys seen)
    (hObjects : Objects objects (planNodes keys seen))
    (hKeys : ∀ key ∈ keys, ∀ node ∈ key.walk,
      node.isCall = false)
    (hGroup : Holds
      { groupKeys := keys
        aggregates := seen.map Prod.snd
        having := having } rows row grouped)

include hTabled hObjects hKeys hGroup

/- The slot an expression is given holds its value. -/
theorem groupSlot_same
    {expression reference : BoundExpression φ}
    (hExpression : Objects objects expression.walk)
    (hSlot : groupSlot keys seen expression = some reference) :
    ∃ value, evaluateOver rows row expression = .ok value ∧
      evaluateBound grouped.get reference = .ok value := by
  rcases groupSlot_cases hSlot with
    ⟨index, key, dataType, name, hKey, hSame, rfl⟩ |
    ⟨entry, dataType, name, hEntry, rfl⟩
  · have hMem := List.mem_of_getElem? hKey
    have hBare := bare_eq_of_signature hExpression
      (planNodes_key hObjects hMem) hSame.symm
    rcases hGroup.keys hKey with ⟨value, hValue, hOn⟩
    refine ⟨value, ?_, evaluateBound_slotRef _ _ _ hValue⟩
    rw [evaluateOver_congr rows row hBare,
      evaluateOver_of_no_call rows row (hKeys key hMem), hOn]
  · have hSame := hTabled.signatures _ hEntry
    have hBare := bare_eq_of_signature hExpression
      (planNodes_call hObjects hEntry) hSame
    rcases hTabled.entry_at hEntry with ⟨index, hAt, hPlace⟩
    rcases hGroup.aggregates hAt with ⟨value, hValue, hOver⟩
    refine ⟨value, ?_, ?_⟩
    · rw [evaluateOver_congr rows row hBare,
        evaluateOver_call, hOver]
    · rw [hPlace]
      exact evaluateBound_slotRef _ _ _ hValue

/- With its aggregates replaced, the expression is on a row
   of the group what it is, rewritten, on the group's row. -/
theorem rewrites_same
    {expression rewritten : BoundExpression φ}
    (hRewrites : Rewrites keys seen expression rewritten)
    (hExpression : Objects objects expression.walk)
    (hSettled : settled rewritten) :
    ∃ replaced,
      withAggregates rows expression = .ok replaced ∧
        evaluateBound row replaced =
          evaluateBound grouped.get rewritten := by
  induction hRewrites with
  | slot hSlot =>
    rcases groupSlot_same hTabled hObjects hKeys hGroup
      hExpression hSlot with ⟨value, hOver, hSlotValue⟩
    rcases ok_of_bind hOver with ⟨replaced, hReplaced, hValue⟩
    exact ⟨replaced, hReplaced, hValue.trans hSlotValue.symm⟩
  | literal => exact ⟨_, rfl, rfl⟩
  | @call expression hSlot hCall =>
    cases expression <;>
      simp [isCall, BoundExpression.asAggregate, settled]
        at hCall hSettled
  | @inList node operand items negated identity hSlot =>
    have hClosed := closed_inList hSettled
    refine ⟨_, withAggregates_of_no_call rows _ ?_,
      evaluateBound_closed row grouped.get _ hClosed⟩
    intro inner hInner
    have hNode := List.all_eq_true.mp hClosed inner hInner
    simp only [Bool.and_eq_true, Bool.not_eq_true'] at hNode
    exact hNode.2
  | @unaryOp node op operand operand' hSlot hOperand ih =>
    rcases ih (hExpression.mono (by simp [walk])) hSettled
      with ⟨replaced, hReplaced, hSame⟩
    refine ⟨.unaryOp node op replaced, ?_,
      evaluate_unaryOp op hSame⟩
    simp only [withAggregates, hReplaced]
    rfl
  | @binaryOp node op left right left' right' hSlot hLeft
      hRight ihLeft ihRight =>
    simp only [settled, Bool.and_eq_true] at hSettled
    rcases ihLeft (hExpression.mono (by simp [walk]))
      hSettled.1 with ⟨first, hFirst, hSameLeft⟩
    rcases ihRight (hExpression.mono (by simp [walk]))
      hSettled.2 with ⟨second, hSecond, hSameRight⟩
    refine ⟨.binaryOp node op first second, ?_,
      evaluate_binaryOp op hSameLeft hSameRight⟩
    simp only [withAggregates, hFirst, hSecond]
    rfl
  | @isNullTest node operand negated operand' hSlot hOperand
      ih =>
    rcases ih (hExpression.mono (by simp [walk])) hSettled
      with ⟨replaced, hReplaced, hSame⟩
    refine ⟨.isNullTest node replaced negated, ?_,
      evaluate_isNullTest negated hSame⟩
    simp only [withAggregates, hReplaced]
    rfl

end Grouped

end Same

--
-- Columns and Calls That Are Left
--

section Left

variable {keys : List (BoundExpression φ)} {seen : Seen φ}
variable {objects : Nat → BoundExpression φ}

variable {expression rewritten : BoundExpression φ}

theorem rewrites_addresses
    (hTabled : Tabled keys seen)
    (hRewrites : Rewrites keys seen expression rewritten)
    (hSettled : settled rewritten) :
    Addresses (keys.length + seen.length) rewritten := by
  induction hRewrites with
  | slot hSlot => exact addresses_groupSlot hTabled hSlot
  | literal =>
    intro node reference hMem
    simp [walk] at hMem
  | @call expression hSlot hCall =>
    cases expression <;>
      simp [isCall, BoundExpression.asAggregate, settled]
        at hCall hSettled
  | inList hSlot =>
    exact addresses_of_closed (closed_inList hSettled)
  | unaryOp hSlot hOperand ih =>
    intro node reference hMem
    simp only [walk, List.mem_cons, reduceCtorEq,
      false_or] at hMem
    exact ih hSettled node reference hMem
  | binaryOp hSlot hLeft hRight ihLeft ihRight =>
    simp only [settled, Bool.and_eq_true] at hSettled
    intro node reference hMem
    simp only [walk, List.mem_cons, reduceCtorEq, false_or,
      List.mem_append] at hMem
    exact hMem.elim (ihLeft hSettled.1 node reference)
      (ihRight hSettled.2 node reference)
  | isNullTest hSlot hOperand ih =>
    intro node reference hMem
    simp only [walk, List.mem_cons, reduceCtorEq,
      false_or] at hMem
    exact ih hSettled node reference hMem

/- What has a slot is a grouping key or an aggregate. -/
theorem not_stray_of_slot
    (hTabled : Tabled keys seen)
    (hObjects : Objects objects (planNodes keys seen))
    {reference : BoundExpression φ}
    (hExpression : Objects objects expression.walk)
    (hSlot : groupSlot keys seen expression = some reference) :
    ¬ Stray keys expression := by
  intro hStray
  rcases groupSlot_cases hSlot with
    ⟨index, key, _, _, hKey, hSame, _⟩ |
    ⟨entry, _, _, hEntry, _⟩
  · have hMem := List.mem_of_getElem? hKey
    exact hStray.not_key hMem
      (bare_eq_of_signature (planNodes_key hObjects hMem)
        hExpression hSame)
  · have hSame := hTabled.signatures _ hEntry
    have hBare := bare_eq_of_signature hExpression
      (planNodes_call hObjects hEntry) hSame
    have hCall := (stray_bare keys expression).mpr hStray
    rw [hBare, stray_bare] at hCall
    cases hAggregate : entry.aggregate with
    | countRows =>
      rw [hAggregate] at hCall
      exact hCall
    | «over» function argument =>
      rw [hAggregate] at hCall
      exact hCall

theorem rewrites_not_stray
    (hTabled : Tabled keys seen)
    (hObjects : Objects objects (planNodes keys seen))
    (hRewrites : Rewrites keys seen expression rewritten)
    (hExpression : Objects objects expression.walk)
    (hSettled : settled rewritten) :
    ¬ Stray keys expression := by
  induction hRewrites with
  | slot hSlot =>
    exact not_stray_of_slot hTabled hObjects hExpression
      hSlot
  | literal => exact id
  | @call expression hSlot hCall =>
    cases expression <;>
      simp [isCall, BoundExpression.asAggregate, settled]
        at hCall hSettled
  | inList hSlot =>
    exact not_stray_of_closed keys _
      (closed_inList hSettled)
  | unaryOp hSlot hOperand ih =>
    exact fun hStray =>
      ih (hExpression.mono (by simp [walk])) hSettled
        hStray.2
  | binaryOp hSlot hLeft hRight ihLeft ihRight =>
    simp only [settled, Bool.and_eq_true] at hSettled
    exact fun hStray => hStray.2.elim
      (ihLeft (hExpression.mono (by simp [walk]))
        hSettled.1)
      (ihRight (hExpression.mono (by simp [walk]))
        hSettled.2)
  | isNullTest hSlot hOperand ih =>
    exact fun hStray =>
      ih (hExpression.mono (by simp [walk])) hSettled
        hStray.2

omit [Spelling φ] in
/- Does an `IN` list that rewriting leaves where it stands
   have such a node in it? Rewriting stops at aggregates and
   at what has a grouping key's signature. -/
def leaves
    (wanted : BoundExpression φ → Bool)
    (keys : List (BoundExpression φ))
    (expression : BoundExpression φ) : Bool :=
  if (indexBySignature keys (signature expression)).isSome
  then false
  else
    match expression with
    | .unaryOp _ _ operand => leaves wanted keys operand
    | .binaryOp _ _ left right =>
      leaves wanted keys left || leaves wanted keys right
    | .isNullTest _ operand _ => leaves wanted keys operand
    | .inList _ operand items _ _ =>
      (walk operand ++ walkItems items).any wanted
    | _ => false

omit [Spelling φ] in
theorem leaves_call
    (wanted : BoundExpression φ → Bool)
    (keys : List (BoundExpression φ))
    (hCall : expression.isCall) :
    leaves wanted keys expression = false := by
  cases expression with
  | countRows node => simp [leaves]
  | functionCall node function argument => simp [leaves]
  | _ => cases hCall

omit [Spelling φ] [DecidableEq φ] in
/- Only a call has a call's signature. -/
theorem isCall_of_signature
    {aggregate : Aggregate φ}
    (hSame : signature expression = signature aggregate.call) :
    expression.isCall := by
  cases aggregate <;> cases expression <;>
    first
    | rfl
    | cases hSame

theorem groupSlot_none
    (hSlot : groupSlot keys seen expression = none) :
    indexBySignature keys (signature expression) = none ∧
      seen.lookup (signature expression) = none := by
  unfold groupSlot at hSlot
  cases hIndex : indexBySignature keys
      (signature expression) with
  | some index =>
    rw [hIndex] at hSlot
    cases hSlot
  | none =>
    rw [hIndex] at hSlot
    exact ⟨rfl, Option.map_eq_none_iff.mp hSlot⟩

def isColumnOrCall (node : BoundExpression φ) : Bool :=
  node.isColumn || node.isCall

/- With every call registered and no list left that names
   anything, rewriting settles an expression. -/
theorem rewrites_settled
    (hRewrites : Rewrites keys seen expression rewritten)
    (hCalls : ∀ call ∈ expression.calls,
      (seen.lookup (signature call)).isSome)
    (hLists : leaves isColumnOrCall keys expression = false) :
    settled rewritten := by
  induction hRewrites with
  | slot hSlot =>
    rcases groupSlot_cases hSlot with
      ⟨_, _, _, _, _, _, rfl⟩ | ⟨_, _, _, _, rfl⟩ <;> rfl
  | literal => rfl
  | @call expression hSlot hCall =>
    have hSome := hCalls expression
      (List.mem_filter.mpr
        ⟨BoundExpression.mem_walk_self expression, hCall⟩)
    rw [(groupSlot_none hSlot).2] at hSome
    cases hSome
  | inList hSlot =>
    simp only [leaves, (groupSlot_none hSlot).1,
      Option.isSome_none, Bool.false_eq_true,
      if_false] at hLists
    simp only [List.any_eq_false] at hLists
    refine List.all_eq_true.mpr fun node hNode => ?_
    have hPlain := hLists node hNode
    simpa [isColumnOrCall] using hPlain
  | unaryOp hSlot hOperand ih =>
    simp only [leaves, (groupSlot_none hSlot).1,
      Option.isSome_none, Bool.false_eq_true,
      if_false] at hLists
    exact ih (fun call hCall => hCalls call
      (by simp_all [BoundExpression.calls, walk])) hLists
  | binaryOp hSlot hLeft hRight ihLeft ihRight =>
    simp only [leaves, (groupSlot_none hSlot).1,
      Option.isSome_none, Bool.false_eq_true, if_false,
      Bool.or_eq_false_iff] at hLists
    have hFirst := ihLeft (fun call hCall => hCalls call
      (by simp_all [BoundExpression.calls, walk])) hLists.1
    have hSecond := ihRight (fun call hCall => hCalls call
      (by simp_all [BoundExpression.calls, walk])) hLists.2
    simp only [settled, hFirst, hSecond, Bool.and_self]
  | isNullTest hSlot hOperand ih =>
    simp only [leaves, (groupSlot_none hSlot).1,
      Option.isSome_none, Bool.false_eq_true,
      if_false] at hLists
    exact ih (fun call hCall => hCalls call
      (by simp_all [BoundExpression.calls, walk])) hLists

/- A column in a list that is left keeps its index into the
   input row. -/
theorem rewrites_leaves_column
    (hTabled : Tabled keys seen)
    (hRewrites : Rewrites keys seen expression rewritten)
    (hLists : leaves isColumn keys expression) :
    ∃ node reference,
      .column node reference ∈ expression.walk ∧
        .column node reference ∈ rewritten.walk := by
  induction hRewrites with
  | @slot expression reference hSlot =>
    rcases groupSlot_cases hSlot with
      ⟨_, key, _, _, hKey, hSame, _⟩ |
      ⟨entry, _, _, hEntry, _⟩
    · unfold leaves at hLists
      rw [if_pos (indexBySignature_isSome hKey hSame)]
        at hLists
      cases hLists
    · have hCall := isCall_of_signature
        (hTabled.signatures _ hEntry)
      rw [leaves_call _ _ hCall] at hLists
      cases hLists
  | literal => simp [leaves] at hLists
  | @call expression hSlot hCall =>
    rw [leaves_call _ _ hCall] at hLists
    cases hLists
  | @inList node operand items negated identity hSlot =>
    simp only [leaves, (groupSlot_none hSlot).1,
      Option.isSome_none, Bool.false_eq_true,
      if_false] at hLists
    rcases List.any_eq_true.mp hLists with
      ⟨inner, hInner, hColumn⟩
    cases inner with
    | column place reference =>
      exact ⟨place, reference, .tail _ hInner,
        .tail _ hInner⟩
    | _ => cases hColumn
  | unaryOp hSlot hOperand ih =>
    simp only [leaves, (groupSlot_none hSlot).1,
      Option.isSome_none, Bool.false_eq_true,
      if_false] at hLists
    rcases ih hLists with ⟨place, reference, hBefore, hAfter⟩
    exact ⟨place, reference, .tail _ hBefore,
      .tail _ hAfter⟩
  | binaryOp hSlot hLeft hRight ihLeft ihRight =>
    simp only [leaves, (groupSlot_none hSlot).1,
      Option.isSome_none, Bool.false_eq_true, if_false,
      Bool.or_eq_true] at hLists
    rcases hLists with hLists | hLists
    · rcases ihLeft hLists with
        ⟨place, reference, hBefore, hAfter⟩
      exact ⟨place, reference,
        by simp [walk, hBefore], by simp [walk, hAfter]⟩
    · rcases ihRight hLists with
        ⟨place, reference, hBefore, hAfter⟩
      exact ⟨place, reference,
        by simp [walk, hBefore], by simp [walk, hAfter]⟩
  | isNullTest hSlot hOperand ih =>
    simp only [leaves, (groupSlot_none hSlot).1,
      Option.isSome_none, Bool.false_eq_true,
      if_false] at hLists
    rcases ih hLists with ⟨place, reference, hBefore, hAfter⟩
    exact ⟨place, reference, .tail _ hBefore,
      .tail _ hAfter⟩

end Left

--
-- Registered Aggregates
--

section Registering

omit [Spelling φ] [DecidableEq φ] in
mutual

/- The nodes under a node of a tree are nodes of it. -/
theorem walk_subset :
    ∀ expression node : BoundExpression φ,
      node ∈ expression.walk → node.walk ⊆ expression.walk
  | .column _ _, node, hNode => by
      simp only [walk, List.mem_singleton] at hNode
      rw [hNode]
      exact fun _ => id
  | .literal _ _ _, node, hNode => by
      simp only [walk, List.mem_singleton] at hNode
      rw [hNode]
      exact fun _ => id
  | .countRows _, node, hNode => by
      simp only [walk, List.mem_singleton] at hNode
      rw [hNode]
      exact fun _ => id
  | .functionCall _ _ argument, node, hNode => by
      rcases List.mem_cons.mp hNode with rfl | hInner
      · exact fun _ => id
      · exact List.subset_cons_of_subset _
          (walk_subset argument node hInner)
  | .unaryOp _ _ operand, node, hNode => by
      rcases List.mem_cons.mp hNode with rfl | hInner
      · exact fun _ => id
      · exact List.subset_cons_of_subset _
          (walk_subset operand node hInner)
  | .binaryOp _ _ left right, node, hNode => by
      rcases List.mem_cons.mp hNode with rfl | hInner
      · exact fun _ => id
      · refine List.subset_cons_of_subset _ ?_
        rcases List.mem_append.mp hInner with hLeft | hRight
        · exact List.subset_append_of_subset_left _
            (walk_subset left node hLeft)
        · exact List.subset_append_of_subset_right _
            (walk_subset right node hRight)
  | .isNullTest _ operand _, node, hNode => by
      rcases List.mem_cons.mp hNode with rfl | hInner
      · exact fun _ => id
      · exact List.subset_cons_of_subset _
          (walk_subset operand node hInner)
  | .inList _ operand items _ _, node, hNode => by
      rcases List.mem_cons.mp hNode with rfl | hInner
      · exact fun _ => id
      · refine List.subset_cons_of_subset _ ?_
        rcases List.mem_append.mp hInner with hOperand | hItem
        · exact List.subset_append_of_subset_left _
            (walk_subset operand node hOperand)
        · exact List.subset_append_of_subset_right _
            (walkItems_subset items node hItem)

theorem walkItems_subset :
    ∀ (items : BoundItems φ) (node : BoundExpression φ),
      node ∈ walkItems items → node.walk ⊆ walkItems items
  | .one item, node, hNode => walk_subset item node hNode
  | .more item rest, node, hNode => by
      rcases List.mem_append.mp hNode with hItem | hRest
      · exact List.subset_append_of_subset_left _
          (walk_subset item node hItem)
      · exact List.subset_append_of_subset_right _
          (walkItems_subset rest node hRest)

end

/- What registering some calls, one after another, has come
   to. -/
structure Registered
    (keys : List (BoundExpression φ))
    (calls : List (BoundExpression φ))
    (seen : Seen φ) : Prop where
  tabled : Tabled keys seen
  found : ∀ call ∈ calls, call.isCall →
    (seen.lookup (signature call)).isSome
  called : ∀ pair ∈ seen, ∃ call ∈ calls,
    call.asAggregate = some pair.2.aggregate

omit [Spelling φ] in
theorem Registered.start
    (keys : List (BoundExpression φ)) :
    Registered keys [] [] where
  tabled :=
    { slots := fun _ hIndex => absurd hIndex (Nat.not_lt_zero _)
      signatures := fun _ hPair =>
        absurd hPair List.not_mem_nil }
  found := fun _ hCall => absurd hCall List.not_mem_nil
  called := fun _ hPair => absurd hPair List.not_mem_nil

omit [Spelling φ] in
/- One more call, already answered for. -/
theorem Registered.again
    {keys calls : List (BoundExpression φ)}
    {seen : Seen φ}
    (hRegistered : Registered keys calls seen)
    {call : BoundExpression φ}
    (hFound : call.isCall →
      (seen.lookup (signature call)).isSome) :
    Registered keys (calls ++ [call]) seen where
  tabled := hRegistered.tabled
  found := by
    intro other hOther hCall
    rcases List.mem_append.mp hOther with hOther | hOther
    · exact hRegistered.found other hOther hCall
    · rw [List.mem_singleton.mp hOther] at hCall ⊢
      exact hFound hCall
  called := by
    intro pair hPair
    rcases hRegistered.called pair hPair with
      ⟨other, hOther, hSame⟩
    exact ⟨other, List.mem_append_left _ hOther, hSame⟩

variable {keys calls : List (BoundExpression φ)} {seen : Seen φ}
variable {call : BoundExpression φ}

omit [Spelling φ] in
theorem Registered.new
    (hRegistered : Registered keys calls seen)
    {aggregate : Aggregate φ}
    (hCall : call.asAggregate = some aggregate)
    (label : String) :
    Registered keys (calls ++ [call])
      (seen ++ [(signature call,
        { aggregate := aggregate
          slot := keys.length + seen.length
          label := label })]) where
  tabled :=
    { slots := by
        intro index hIndex
        by_cases hOld : index < seen.length
        · rw [List.getElem_append_left hOld]
          exact hRegistered.tabled.slots index hOld
        · have hLast : index = seen.length := by
            simp only [List.length_append,
              List.length_singleton] at hIndex
            omega
          subst hLast
          simp
      signatures := by
        intro pair hPair
        rcases List.mem_append.mp hPair with hPair | hPair
        · exact hRegistered.tabled.signatures pair hPair
        · rw [List.mem_singleton.mp hPair]
          exact signature_call hCall }
  found := by
    intro other hOther hIsCall
    rw [List.lookup_append]
    rcases List.mem_append.mp hOther with hOther | hOther
    · have hOld := hRegistered.found other hOther hIsCall
      rw [Option.isSome_or, hOld, Bool.true_or]
    · rw [List.mem_singleton.mp hOther]
      simp
  called := by
    intro pair hPair
    rcases List.mem_append.mp hPair with hPair | hPair
    · rcases hRegistered.called pair hPair with
        ⟨other, hOther, hSame⟩
      exact ⟨other, List.mem_append_left _ hOther, hSame⟩
    · rw [List.mem_singleton.mp hPair]
      exact ⟨call, List.mem_append_right _
        (List.mem_singleton.mpr rfl), hCall⟩

theorem register_registered
    {final : Seen φ}
    (hRegistered : Registered keys calls seen)
    (hOk : register keys.length seen call = .ok final) :
    Registered keys (calls ++ [call]) final := by
  unfold register at hOk
  cases hCall : call.asAggregate with
  | none =>
    rw [hCall] at hOk
    cases hOk
    refine hRegistered.again fun hIsCall => ?_
    rw [isCall, hCall] at hIsCall
    cases hIsCall
  | some aggregate =>
    rw [hCall] at hOk
    rcases ok_of_bind hOk with ⟨_, _, hRest⟩
    by_cases hFound : (seen.lookup (signature call)).isSome
    · rw [if_pos hFound] at hRest
      cases hRest
      exact hRegistered.again fun _ => hFound
    · rw [if_neg hFound] at hRest
      cases hRest
      exact hRegistered.new hCall _

/- Registering every call of a list. -/
theorem registered_of_foldlM
    (hOk : calls.foldlM (register keys.length) [] = .ok seen) :
    Registered keys calls seen := by
  have hAll : Registered keys ([] ++ calls) seen :=
    Library.Traversal.foldlM_induction
      (motive := Registered keys)
      (fun _ _ _ _ hDone hStep =>
        register_registered hDone hStep)
      (Registered.start keys) hOk
  rwa [List.nil_append] at hAll

omit [Spelling φ] in
/- The objects of the calls are those of the plan. -/
theorem Registered.objects
    {nodes : List (BoundExpression φ)}
    {objects : Nat → BoundExpression φ}
    (hRegistered : Registered keys calls seen)
    (hObjects : Objects objects nodes)
    (hKeys : keys.flatMap walk ⊆ nodes)
    (hCalls : ∀ call ∈ calls, call.walk ⊆ nodes) :
    Objects objects (planNodes keys seen) := by
  intro node hNode
  rcases List.mem_append.mp hNode with hKey | hSeen
  · exact hObjects node (hKeys hKey)
  · rcases List.mem_flatMap.mp hSeen with
      ⟨pair, hPair, hInner⟩
    rcases hRegistered.called pair hPair with
      ⟨call, hCall, hSame⟩
    cases call with
    | countRows place =>
      simp only [BoundExpression.asAggregate,
        Option.some.injEq] at hSame
      rw [← hSame] at hInner
      simp only [Aggregate.call, walk,
        List.mem_singleton] at hInner
      rw [hInner]
      intro identity hIdentity
      cases hIdentity
    | functionCall place function argument =>
      simp only [BoundExpression.asAggregate,
        Option.some.injEq] at hSame
      rw [← hSame] at hInner
      rcases List.mem_cons.mp hInner with rfl | hInner
      · intro identity hIdentity
        cases hIdentity
      · exact hObjects node
          (hCalls _ hCall (.tail _ hInner))
    | _ => cases hSame

end Registering

end Rewriting

end Executor

end ChenDB
