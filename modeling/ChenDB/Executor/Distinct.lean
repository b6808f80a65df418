import ChenDB.Executor.HashJoin
import ChenDB.Executor.StaticTypes
import ChenDB.Indexing.KeyOrder
import ChenDB.Library.Classes

/-
  GROUP BY and DISTINCT, by the keys Python's dictionaries and
  sets tell apart.
-/

--
-- Equal Doubles
--

namespace ChenDB

namespace Executor

open Indexing (DataType withoutMinusZero
  signed_withoutMinusZero)
open Library.Classes (Lawful firsts leaders tuples)
open Library.StateExcept (ok_of_bind)
open ChenDB.Parser (Node)

namespace Binary64

theorem compare_eq_iff {left right : Binary64} :
    left.compare right = .eq ↔
      left.isNan = false ∧ right.isNan = false ∧
        left.signed = right.signed := by
  unfold Binary64.compare
  by_cases hNan : left.isNan = true ∨ right.isNan = true
  · rw [if_pos hNan]
    refine iff_of_false nofun ?_
    rintro ⟨hLeft, hRight, _⟩
    rcases hNan with hNan | hNan
    · rw [hLeft] at hNan
      cases hNan
    · rw [hRight] at hNan
      cases hNan
  · rw [if_neg hNan, compare_eq_iff_eq]
    rw [not_or, Bool.not_eq_true, Bool.not_eq_true] at hNan
    exact ⟨fun hSame => ⟨hNan.1, hNan.2, hSame⟩,
      fun hAll => hAll.2.2⟩

variable {left : Binary64}

theorem compareInt_eq_iff
    {right : Int} :
    left.compareInt right = .eq ↔
      left.isNan = false ∧ left.isFinite = true ∧
        left.units = right * 2 ^ 1074 := by
  unfold Binary64.compareInt
  cases hNan : left.isNan with
  | true =>
    exact iff_of_false nofun fun hAll => nomatch hAll.1
  | false =>
    cases hFinite : left.isFinite with
    | true =>
      exact compare_eq_iff_eq.trans
        ⟨fun hSame => ⟨rfl, rfl, hSame⟩,
          fun hAll => hAll.2.2⟩
    | false =>
      refine iff_of_false ?_ fun hAll => nomatch hAll.2.1
      cases left.sign <;> exact nofun

theorem natAbs_signed (value : Binary64) :
    value.signed.natAbs = value.magnitude := by
  unfold Binary64.signed
  split <;> simp

variable {right : Binary64}

theorem units_of_signed
    (hSame : left.signed = right.signed) :
    left.units = right.units := by
  have hUnits := compare_units left right
  rw [hSame, compare_eq_iff_eq.mpr rfl] at hUnits
  exact compare_eq_iff_eq.mp hUnits

theorem signed_of_units
    (hSame : left.units = right.units) :
    left.signed = right.signed := by
  have hUnits := compare_units left right
  rw [hSame, compare_eq_iff_eq.mpr rfl] at hUnits
  exact compare_eq_iff_eq.mp hUnits.symm

theorem magnitude_of_signed
    (hSame : left.signed = right.signed) :
    left.magnitude = right.magnitude := by
  rw [← natAbs_signed, ← natAbs_signed, hSame]

end Binary64

section Keys

variable [FloatArithmetic]

instance lawfulEquality_binary64 :
    LawfulEquality Binary64 where
  symm := by
    rintro (left | left) (right | right) hSame
    · rcases Binary64.compare_eq_iff.mp hSame with
        ⟨hLeft, hRight, hSigned⟩
      exact Binary64.compare_eq_iff.mpr
        ⟨hRight, hLeft, hSigned.symm⟩
    · exact Ordering.swap_eq_eq.mpr hSame
    · exact Ordering.swap_eq_eq.mp hSame
    · exact compare_eq_iff_eq.mpr
        (compare_eq_iff_eq.mp hSame).symm
  trans := by
    rintro (first | first) (second | second)
      (third | third) hFirst hSecond
    · rcases Binary64.compare_eq_iff.mp hFirst with
        ⟨hOne, _, hSigned⟩
      rcases Binary64.compare_eq_iff.mp hSecond with
        ⟨_, hThree, hLater⟩
      exact Binary64.compare_eq_iff.mpr
        ⟨hOne, hThree, hSigned.trans hLater⟩
    · rcases Binary64.compare_eq_iff.mp hFirst with
        ⟨hOne, _, hSigned⟩
      rcases Binary64.compareInt_eq_iff.mp hSecond with
        ⟨_, hFinite, hUnits⟩
      refine Binary64.compareInt_eq_iff.mpr ⟨hOne, ?_,
        (Binary64.units_of_signed hSigned).trans hUnits⟩
      unfold Binary64.isFinite at hFinite ⊢
      rw [Binary64.magnitude_of_signed hSigned]
      exact hFinite
    · rcases Binary64.compareInt_eq_iff.mp hFirst with
        ⟨hOne, _, hUnits⟩
      rcases Binary64.compareInt_eq_iff.mp
          (Ordering.swap_eq_eq.mp hSecond) with
        ⟨hThree, _, hLater⟩
      exact Binary64.compare_eq_iff.mpr ⟨hOne, hThree,
        Binary64.signed_of_units (hUnits.trans hLater.symm)⟩
    · have hInts : second = third :=
        compare_eq_iff_eq.mp hSecond
      rw [← hInts]
      exact hFirst
    · rcases Binary64.compareInt_eq_iff.mp
          (Ordering.swap_eq_eq.mp hFirst) with
        ⟨_, hFinite, hUnits⟩
      rcases Binary64.compare_eq_iff.mp hSecond with
        ⟨_, hThree, hSigned⟩
      refine Ordering.swap_eq_eq.mpr
        (Binary64.compareInt_eq_iff.mpr ⟨hThree, ?_,
          (Binary64.units_of_signed hSigned).symm.trans
            hUnits⟩)
      unfold Binary64.isFinite at hFinite ⊢
      rw [← Binary64.magnitude_of_signed hSigned]
      exact hFinite
    · rcases Binary64.compareInt_eq_iff.mp
          (Ordering.swap_eq_eq.mp hFirst) with
        ⟨_, _, hUnits⟩
      rcases Binary64.compareInt_eq_iff.mp hSecond with
        ⟨_, _, hLater⟩
      have hScaled : first * 2 ^ 1074 = third * 2 ^ 1074 :=
        hUnits.symm.trans hLater
      exact compare_eq_iff_eq.mpr
        (mul_right_cancel₀ (pow_ne_zero _ two_ne_zero) hScaled)
    · have hInts : first = second :=
        compare_eq_iff_eq.mp hFirst
      rw [hInts]
      exact hSecond
    · exact compare_eq_iff_eq.mpr
        ((compare_eq_iff_eq.mp hFirst).trans
          (compare_eq_iff_eq.mp hSecond))

/- Anything but a double that is no number. -/
def Value.notNan : Value Binary64 → Bool
  | .float value => !value.isNan
  | _ => true

omit [FloatArithmetic] in
theorem isNan_of_isFinite
    {value : Binary64}
    (hFinite : value.isFinite = true) :
    value.isNan = false := by
  unfold Binary64.isFinite at hFinite
  unfold Binary64.isNan
  simp only [decide_eq_true_eq, decide_eq_false_iff_not]
    at hFinite ⊢
  omega

theorem lawful_sameKey :
    Lawful (sameKey : Value Binary64 → Value Binary64 →
      Bool) where
  symm _ _ := sameKey_symm
  trans _ _ _ := sameKey_trans

theorem sameKey_refl
    {value : Value Binary64}
    (hNumber : value.notNan = true) :
    sameKey value value = true := by
  cases value with
  | null => rfl
  | bool value => cases value <;> rfl
  | int value =>
    simp [sameKey, asNumber, compareNumbers]
  | float value =>
    have hNan : value.isNan = false := by
      simpa [Value.notNan] using hNumber
    have hSame : value.compare value = .eq :=
      Binary64.compare_eq_iff.mpr ⟨hNan, hNan, rfl⟩
    exact decide_eq_true hSame
  | text value => simp [sameKey, asNumber]

--
-- Distinct Values
--

/- Both NULL, or `=` is TRUE of them. -/
def notDistinct (left right : Value Binary64) : Bool :=
  match left, right with
  | .null, .null => true
  | left, right =>
    match compareValues left right .eq with
    | .ok order => order = .eq
    | .error _ => false

/- The name of the Python type. -/
def typeName : Value Binary64 → String
  | .null => "null"
  | .bool _ => "bool"
  | .int _ => "int"
  | .float _ => "float"
  | .text _ => "str"

/- `distinct_key` of a value: its type goes with it, and minus
   zero becomes zero. -/
def distinctKey (value : Value Binary64) :
    String × Value Binary64 :=
  (typeName value,
    match value with
    | .float value => .float (withoutMinusZero value)
    | value => value)

def sameDistinct
    (left right : String × Value Binary64) : Bool :=
  left.1 = right.1 && sameKey left.2 right.2

theorem lawful_sameDistinct : Lawful sameDistinct where
  symm := by
    intro first second hSame
    simp only [sameDistinct, Bool.and_eq_true,
      decide_eq_true_eq] at hSame ⊢
    exact ⟨hSame.1.symm, sameKey_symm hSame.2⟩
  trans := by
    intro first second third hFirst hSecond
    simp only [sameDistinct, Bool.and_eq_true,
      decide_eq_true_eq] at hFirst hSecond ⊢
    exact ⟨hFirst.1.trans hSecond.1,
      sameKey_trans hFirst.2 hSecond.2⟩

omit [FloatArithmetic] in
theorem isNan_withoutMinusZero (value : Binary64) :
    (withoutMinusZero value).isNan = value.isNan := by
  unfold Binary64.isNan
  rw [Binary64.magnitude_of_signed
    (signed_withoutMinusZero value)]

/- Not one integer and one double. -/
def SameShape : Value Binary64 → Value Binary64 → Prop
  | .int _, .float _ => False
  | .float _, .int _ => False
  | _, _ => True

variable {left right : Value Binary64}

/- The tagged keys tell apart what SQL does. -/
theorem sameDistinct_iff
    (hShape : SameShape left right) :
    sameDistinct (distinctKey left) (distinctKey right) =
      notDistinct left right := by
  cases left with
  | null =>
    cases right <;>
      simp [sameDistinct, distinctKey, typeName, notDistinct,
        compareValues, sameKey, asNumber]
  | bool left =>
    cases right with
    | bool right => cases left <;> cases right <;> rfl
    | _ =>
      simp [sameDistinct, distinctKey, typeName,
        notDistinct, compareValues]
  | int left =>
    cases right with
    | float right => cases hShape
    | int right => rfl
    | _ =>
      simp [sameDistinct, distinctKey, typeName,
        notDistinct, compareValues]
  | float left =>
    cases right with
    | int right => cases hShape
    | float right =>
      have hSame : (withoutMinusZero left).compare
            (withoutMinusZero right) = .eq ↔
          left.compare right = .eq := by
        rw [Binary64.compare_eq_iff, Binary64.compare_eq_iff,
          isNan_withoutMinusZero, isNan_withoutMinusZero,
          signed_withoutMinusZero,
          signed_withoutMinusZero]
      simp only [sameDistinct, distinctKey, typeName,
        notDistinct, compareValues, sameKey, asNumber,
        compareNumbers, decide_true, Bool.true_and]
      exact decide_eq_decide.mpr hSame
    | _ =>
      simp [sameDistinct, distinctKey, typeName,
        notDistinct, compareValues]
  | text left =>
    cases right with
    | text right =>
      simp [sameDistinct, distinctKey, typeName,
        notDistinct, compareValues, sameKey, asNumber]
    | _ =>
      simp [sameDistinct, distinctKey, typeName,
        notDistinct, compareValues]

variable {dataType : DataType}

omit [FloatArithmetic] in
theorem Value.HasType.same
    (hLeft : left.HasType dataType)
    (hRight : right.HasType dataType) :
    left.isNull = true ∨ right.isNull = true ∨
      literalType left = literalType right := by
  rcases hLeft with hNull | hLeft
  · exact .inl hNull
  · rcases hRight with hNull | hRight
    · exact .inr (.inl hNull)
    · exact .inr (.inr (hLeft.trans hRight.symm))

/- Of values of one type, so do the plain ones. -/
theorem sameKey_iff_notDistinct
    (hLeft : left.HasType dataType)
    (hRight : right.HasType dataType) :
    sameKey left right = notDistinct left right := by
  have hTypes := hLeft.same hRight
  cases left with
  | null =>
    cases right <;>
      simp [sameKey, asNumber, notDistinct, compareValues]
  | bool left =>
    cases right with
    | bool right => cases left <;> cases right <;> rfl
    | null => rfl
    | _ =>
      rcases hTypes with hNull | hNull | hSame <;>
        cases ‹_›
  | int left =>
    cases right with
    | int right => rfl
    | null => rfl
    | _ =>
      rcases hTypes with hNull | hNull | hSame <;>
        cases ‹_›
  | float left =>
    cases right with
    | float right => rfl
    | null => rfl
    | _ =>
      rcases hTypes with hNull | hNull | hSame <;>
        cases ‹_›
  | text left =>
    cases right with
    | text right =>
      simp [sameKey, asNumber, notDistinct, compareValues]
    | null => rfl
    | _ =>
      rcases hTypes with hNull | hNull | hSame <;>
        cases ‹_›

--
-- No Value Is a NaN
--

variable {width : Nat} {row : Row Binary64 width}
variable {value : Value Binary64}

def RealRow (row : Row Binary64 width) : Prop :=
  ∀ index, (row index).notNan = true

/- No literal of an expression is a NaN; there is no way to
   write one. -/
def RealLiterals (expression : BoundExpression Binary64) :
    Prop :=
  ∀ node literal dataType,
    .literal node literal dataType ∈ expression.walk →
      literal.notNan = true

theorem notNan_of_check
    {number : Binary64 ⊕ Int}
    {what : String}
    (hOk : checkNumericRange number what = .ok value) :
    value.notNan = true := by
  cases number with
  | inl number =>
    simp only [checkNumericRange] at hOk
    split at hOk
    · rename_i hFinite
      cases hOk
      simp [Value.notNan, isNan_of_isFinite hFinite]
    · cases hOk
  | inr number =>
    simp only [checkNumericRange] at hOk
    split at hOk
    · cases hOk
      rfl
    · cases hOk

variable {first second : Binary64 ⊕ Int}

theorem notNan_of_divide
    (hOk : divide first second = .ok value) :
    value.notNan = true := by
  unfold divide at hOk
  split at hOk
  · cases hOk
  · split at hOk
    · cases hOk
      rfl
    · rcases ok_of_bind hOk with ⟨_, _, hLast⟩
      exact notNan_of_check hLast

theorem notNan_of_modulo
    (hOk : modulo first second = .ok value) :
    value.notNan = true := by
  unfold modulo at hOk
  split at hOk
  · cases hOk
  · rcases ok_of_bind hOk with ⟨_, _, hLast⟩
    exact notNan_of_check hLast

theorem notNan_of_binaryValue
    {op : BinaryOperator}
    (hOk : binaryValue op left right = .ok value) :
    value.notNan = true := by
  cases op
  case add | subtract | multiply =>
    rcases numbers_of_ok hOk with ⟨_, _, _, _, hRest⟩
    rcases ok_of_bind hRest with ⟨_, _, hLast⟩
    exact notNan_of_check hLast
  case divide =>
    rcases numbers_of_ok hOk with ⟨_, _, _, _, hLast⟩
    exact notNan_of_divide hLast
  case modulo =>
    rcases numbers_of_ok hOk with ⟨_, _, _, _, hLast⟩
    exact notNan_of_modulo hLast
  all_goals
    rcases ok_of_bind hOk with ⟨order, _, hLast⟩
    cases hLast
    rfl

/- Whatever an expression comes to is a number, if it is a
   double. -/
theorem notNan_evaluate
    (hRow : RealRow row)
    (expression : BoundExpression Binary64)
    (hLiterals : RealLiterals expression)
    {value : Value Binary64}
    (hValue : evaluateBound row expression = .ok value) :
    value.notNan = true := by
  cases expression with
  | column node reference =>
    simp only [evaluateBound, BoundExpression.toExpression,
      evaluate] at hValue
    split at hValue
    · cases hValue
      exact hRow _
    · cases hValue
  | literal node constant dataType =>
    cases hValue
    exact hLiterals node _ dataType
      (BoundExpression.mem_walk_self _)
  | countRows node => cases hValue
  | functionCall node function argument => cases hValue
  | unaryOp node op operand =>
    rcases unaryOp_ok hValue with ⟨found, hFound, hNull | hLast⟩
    · cases value with
      | null => rfl
      | _ => cases hNull
    · have hOperand := notNan_evaluate hRow operand
        (fun place literal dataType hMem =>
          hLiterals place literal dataType
            (.tail _ hMem)) hFound
      cases op with
      | not =>
        rcases ok_of_bind hLast with ⟨known, _, hEnd⟩
        cases hEnd
        rfl
      | negate =>
        rcases ok_of_bind hLast with ⟨number, _, hEnd⟩
        exact notNan_of_check hEnd
      | plus =>
        rcases ok_of_bind hLast with ⟨number, _, hEnd⟩
        cases hEnd
        exact hOperand
  | binaryOp node op left right =>
    cases hLogical : op.isLogical with
    | true =>
      rcases logical_known hLogical hValue with ⟨known, rfl⟩
      cases known <;> rfl
    | false =>
      unfold evaluateBound at hValue
      rw [BoundExpression.toExpression,
        evaluate_strict hLogical] at hValue
      rcases ok_of_bind hValue with ⟨first, _, hRest⟩
      rcases ok_of_bind hRest with ⟨second, _, hLast⟩
      split at hLast
      · cases hLast
        rfl
      · exact notNan_of_binaryValue hLast
  | isNullTest node operand negated =>
    simp only [evaluateBound, BoundExpression.toExpression,
      evaluate] at hValue
    rcases ok_of_bind hValue with ⟨found, _, hLast⟩
    cases hLast
    rfl
  | inList node operand items negated identity =>
    simp only [evaluateBound, BoundExpression.toExpression,
      evaluate] at hValue
    rcases ok_of_bind hValue with ⟨found, _, hLast⟩
    rcases evaluateItems_known _ _ hLast with ⟨known, rfl⟩
    cases known <;> rfl
termination_by structural expression

--
-- Groups
--

/- One row, given to the accumulators of its group. -/
def addRowTo
    (aggregation : BoundAggregation Binary64)
    (groups : Groups Binary64)
    (row : Row Binary64 width) :
    Except EngineError (Groups Binary64) := do
  let key ← keyOf aggregation.groupKeys row
  Library.Classes.addTo (tuples sameKey)
    (fun accumulators row =>
      addToEach row aggregation.aggregates accumulators)
    (freshAccumulators aggregation) key row groups

/- With no keys there is one group, rows or no rows. -/
def groupsOf
    (aggregation : BoundAggregation Binary64)
    (rows : List (Row Binary64 width)) :
    Except EngineError (Groups Binary64) := do
  let groups ← rows.foldlM (addRowTo aggregation) []
  pure (if aggregation.groupKeys.isEmpty && groups.isEmpty then
    [([], freshAccumulators aggregation)]
  else groups)

/- `HashAggregate`: the rows it emits. -/
def aggregateRows [TrueDivision Binary64]
    (aggregation : BoundAggregation Binary64)
    (rows : List (Row Binary64 width)) :
    Except EngineError (List (List (Value Binary64))) := do
  let groups ← groupsOf aggregation rows
  let output ← groups.mapM (groupedRow aggregation)
  return output.filterMap id

/- The key of a row whose keys have been evaluated. -/
def keyAt
    (keys : List (BoundExpression Binary64))
    (row : Row Binary64 width) : List (Value Binary64) :=
  match keyOf keys row with
  | .ok key => key
  | .error _ => []

theorem keyAt_ok
    {keys : List (BoundExpression Binary64)}
    {key : List (Value Binary64)}
    (hKey : keyOf keys row = .ok key) :
    keyAt keys row = key := by
  unfold keyAt
  rw [hKey]

/- Whether a group is of a row's key. -/
def takesIn
    (keys : List (BoundExpression Binary64))
    (group : List (Value Binary64) ×
      List (Accumulator Binary64))
    (row : Row Binary64 width) : Bool :=
  tuples notDistinct group.1 (keyAt keys row)

/- The groups are those of keys that are pairwise equal or
   both NULL, in the order of their first rows; each row is in
   one, and has been given to its accumulators. -/
structure PartitionsInput
    (aggregation : BoundAggregation Binary64)
    (rows : List (Row Binary64 width))
    (groups : Groups Binary64) : Prop where
  once : ∀ row ∈ rows, ∃! group, group ∈ groups ∧
    takesIn aggregation.groupKeys group row = true
  share : ∀ row ∈ rows, ∀ other ∈ rows,
    (∃ group ∈ groups,
      takesIn aggregation.groupKeys group row = true ∧
      takesIn aggregation.groupKeys group other = true) ↔
    tuples notDistinct (keyAt aggregation.groupKeys row)
      (keyAt aggregation.groupKeys other) = true
  ordered : aggregation.groupKeys ≠ [] ∨ rows ≠ [] →
    groups.map Prod.fst =
      (leaders (tuples notDistinct)
        (keyAt aggregation.groupKeys) rows).map
          (keyAt aggregation.groupKeys)
  given : ∀ group ∈ groups,
    (rows.filter
      (takesIn aggregation.groupKeys group)).foldlM
        (fun accumulators row => addToEach row
          aggregation.aggregates accumulators)
        (freshAccumulators aggregation) = .ok group.2
  single : aggregation.groupKeys = [] → groups.length = 1

omit [FloatArithmetic] in
theorem tuples_congr
    {same other : Value Binary64 → Value Binary64 → Bool}
    {left right : List (Value Binary64)}
    (hEach : List.Forall₂ (fun one two =>
      same one two = other one two) left right) :
    tuples same left right = tuples other left right := by
  induction hEach with
  | nil => rfl
  | cons hHead _ ih =>
    rw [tuples, tuples, hHead, ih]

omit [FloatArithmetic] in
theorem Typed.hasType
    {dataType : Option DataType}
    (hTyped : Typed dataType value) :
    value.HasType (dataType.getD .boolean) := by
  cases dataType with
  | none =>
    exact (typed_condition (hTyped.unknown rfl)).known
      .boolean rfl
  | some dataType => exact hTyped.known _ rfl

/- Two rows, and the keys they are grouped by. -/
structure Keyed
    (types : ColumnTypes)
    (keys : List (BoundExpression Binary64))
    (row : Row Binary64 width) : Prop where
  conforms : Conforms types row
  real : RealRow row
  keyed : keyOf keys row = .ok (keyAt keys row)

variable {types : ColumnTypes}
variable {keys : List (BoundExpression Binary64)}

variable {other : Row Binary64 width}

theorem keys_agree
    {first second : List (Value Binary64)}
    (hRow : Conforms types row)
    (hOther : Conforms types other)
    (hKeys : ∀ key ∈ keys, Declared types key)
    (hFirst : keyOf keys row = .ok first)
    (hSecond : keyOf keys other = .ok second) :
    List.Forall₂ (fun one two =>
      sameKey one two = notDistinct one two) first second := by
  have hOne := Library.Traversal.forall₂_of_mapM hFirst
  have hTwo := Library.Traversal.forall₂_of_mapM hSecond
  clear hFirst hSecond
  induction hOne generalizing second with
  | nil =>
    cases hTwo
    exact .nil
  | cons hHead hTail ih =>
    cases hTwo with
    | cons hNext hLater =>
      have hKey := hKeys _ (.head _)
      refine .cons (sameKey_iff_notDistinct
        (typed_evaluate hRow _ hKey hHead).hasType
        (typed_evaluate hOther _ hKey hNext).hasType) ?_
      exact ih (fun key hMem =>
        hKeys key (.tail _ hMem)) hLater

theorem tuples_agree
    (hKeys : ∀ key ∈ keys, Declared types key)
    (hRow : Keyed types keys row)
    (hOther : Keyed types keys other) :
    tuples sameKey (keyAt keys row) (keyAt keys other) =
      tuples notDistinct (keyAt keys row)
        (keyAt keys other) :=
  tuples_congr (keys_agree hRow.conforms hOther.conforms hKeys
    hRow.keyed hOther.keyed)

theorem keyAt_real
    (hLiterals : ∀ key ∈ keys, RealLiterals key)
    (hRow : Keyed types keys row) :
    ∀ value ∈ keyAt keys row, value.notNan = true := by
  have hEach := Library.Traversal.forall₂_of_mapM hRow.keyed
  intro value hMem
  rcases List.forall₂_iff_get.mp hEach with ⟨hLength, hAt⟩
  rcases List.getElem_of_mem hMem with ⟨index, hIndex, rfl⟩
  exact notNan_evaluate hRow.real _
    (hLiterals _ (List.getElem_mem (by omega)))
    (hAt index (by omega) hIndex)

theorem keyAt_refl
    (hLiterals : ∀ key ∈ keys, RealLiterals key)
    (hRow : Keyed types keys row) :
    tuples sameKey (keyAt keys row) (keyAt keys row) = true :=
  Library.Classes.tuples_refl fun value hMem =>
    sameKey_refl (keyAt_real hLiterals hRow value hMem)

variable {aggregation : BoundAggregation Binary64}
variable {rows : List (Row Binary64 width)}
variable {groups : Groups Binary64}

/- The loop, with the keys already evaluated. -/
theorem foldlM_keyed
    {before : Groups Binary64}
    (hOk : rows.foldlM (addRowTo aggregation) before =
      .ok groups) :
    rows.foldlM (fun groups row =>
      Library.Classes.addTo (tuples sameKey)
        (fun accumulators row =>
          addToEach row aggregation.aggregates accumulators)
        (freshAccumulators aggregation)
        (keyAt aggregation.groupKeys row) row groups)
      before = .ok groups ∧
    ∀ row ∈ rows, keyOf aggregation.groupKeys row =
      .ok (keyAt aggregation.groupKeys row) := by
  induction rows generalizing before with
  | nil => exact ⟨hOk, fun _ hMem =>
    absurd hMem List.not_mem_nil⟩
  | cons row rest ih =>
    rw [List.foldlM_cons] at hOk
    rcases ok_of_bind hOk with ⟨next, hStep, hRest⟩
    rcases ok_of_bind hStep with ⟨key, hKey, hAdd⟩
    rcases ih hRest with ⟨hLater, hKeyed⟩
    rw [← keyAt_ok hKey] at hAdd hKey
    refine ⟨?_, List.forall_mem_cons.mpr ⟨hKey, hKeyed⟩⟩
    rw [List.foldlM_cons, hAdd]
    exact hLater

/- What is shared with a group of the loop is what is shared
   with the row it began with. -/
theorem partitionsInput_of_ok
    (hKeys : ∀ key ∈ aggregation.groupKeys,
      Declared types key ∧ RealLiterals key)
    (hRows : ∀ row ∈ rows, Conforms types row ∧ RealRow row)
    (hOk : groupsOf aggregation rows = .ok groups) :
    PartitionsInput aggregation rows groups := by
  rcases ok_of_bind hOk with ⟨found, hFold, hEnd⟩
  rcases foldlM_keyed hFold with ⟨hLoop, hKeyed⟩
  have hEach : ∀ row ∈ rows,
      Keyed types aggregation.groupKeys row :=
    fun row hRow => ⟨(hRows row hRow).1, (hRows row hRow).2,
      hKeyed row hRow⟩
  have hDeclared : ∀ key ∈ aggregation.groupKeys,
      Declared types key := fun key hKey => (hKeys key hKey).1
  have hRefl : ∀ row ∈ rows, tuples sameKey
      (keyAt aggregation.groupKeys row)
      (keyAt aggregation.groupKeys row) = true :=
    fun row hRow => keyAt_refl
      (fun key hKey => (hKeys key hKey).2) (hEach row hRow)
  have hLawful := lawful_sameKey.tuples
  have hPart := Library.Classes.partitioned_of_foldlM hLawful
    hRefl hLoop
  have hAgree : ∀ row ∈ rows, ∀ other ∈ rows,
      tuples sameKey (keyAt aggregation.groupKeys row)
          (keyAt aggregation.groupKeys other) =
        tuples notDistinct (keyAt aggregation.groupKeys row)
          (keyAt aggregation.groupKeys other) :=
    fun row hRow other hOther =>
      tuples_agree hDeclared (hEach row hRow)
        (hEach other hOther)
  -- The key of a group is the key of one of the rows.
  have hBegun : ∀ group ∈ found, ∃ row ∈ rows,
      group.1 = keyAt aggregation.groupKeys row := by
    intro group hGroup
    have hKey := List.mem_map_of_mem (f := Prod.fst) hGroup
    rw [hPart.keys] at hKey
    rcases List.mem_map.mp hKey with ⟨row, hRow, hSame⟩
    exact ⟨row, Library.Classes.firsts_subset [] rows hRow,
      hSame.symm⟩
  have hTakes : ∀ group ∈ found, ∀ row ∈ rows,
      takesIn aggregation.groupKeys group row =
        tuples sameKey group.1
          (keyAt aggregation.groupKeys row) := by
    intro group hGroup row hRow
    rcases hBegun group hGroup with ⟨first, hFirst, hSame⟩
    unfold takesIn
    rw [hSame, hAgree first hFirst row hRow]
  have hFound : found ≠ [] ↔ rows ≠ [] := by
    rw [not_iff_not, ← List.map_eq_nil_iff, hPart.keys,
      List.map_eq_nil_iff]
    constructor
    · intro hNone
      cases rows with
      | nil => rfl
      | cons row rest => cases hNone
    · rintro rfl
      rfl
  cases hNothing :
      aggregation.groupKeys.isEmpty && found.isEmpty with
  | true =>
    rw [hNothing] at hEnd
    cases hEnd
    rw [Bool.and_eq_true, List.isEmpty_iff,
      List.isEmpty_iff] at hNothing
    have hEmpty : rows = [] := by
      by_contra hSome
      exact hFound.mpr hSome hNothing.2
    subst hEmpty
    exact {
      once := fun _ hMem => absurd hMem List.not_mem_nil
      share := fun _ hMem => absurd hMem List.not_mem_nil
      ordered := by
        rintro (hSome | hSome)
        · exact absurd hNothing.1 hSome
        · exact absurd rfl hSome
      given := by
        intro group hGroup
        rw [List.mem_singleton.mp hGroup]
        rfl
      single := fun _ => rfl }
  | false =>
    rw [hNothing] at hEnd
    cases hEnd
    exact {
      once := by
        intro row hRow
        rcases hPart.existsUnique hLawful hRefl hRow with
          ⟨group, ⟨hGroup, hSame⟩, hOnly⟩
        refine ⟨group, ⟨hGroup, ?_⟩, ?_⟩
        · rw [hTakes group hGroup row hRow]
          exact hSame
        · rintro other ⟨hOther, hTaken⟩
          rw [hTakes other hOther row hRow] at hTaken
          exact hOnly other ⟨hOther, hTaken⟩
      share := by
        intro row hRow other hOther
        rw [← hAgree row hRow other hOther,
          ← hPart.share_iff hLawful hRefl hRow]
        refine exists_congr fun group =>
          and_congr_right fun hGroup => ?_
        rw [hTakes group hGroup row hRow,
          hTakes group hGroup other hOther]
      ordered := by
        intro _
        show found.map Prod.fst = _
        rw [hPart.keys, Library.Classes.firsts_eq_leaders
          hLawful hRefl,
          Library.Classes.leaders_congr hAgree]
      given := by
        intro group hGroup
        rw [← hPart.states group hGroup]
        refine congrArg (List.foldlM _ _) ?_
        exact List.filter_congr fun row hRow =>
          hTakes group hGroup row hRow
      single := by
        intro hNone
        rw [hNone] at hNothing
        have hKey : ∀ group ∈ found, group.1 = [] := by
          intro group hGroup
          rcases hBegun group hGroup with ⟨row, _, hSame⟩
          rw [hSame, hNone]
          rfl
        have hApart := List.pairwise_map.mp
          (hPart.keys ▸
            Library.Classes.firsts_pairwise rows)
        cases found with
        | nil => cases hNothing
        | cons first rest =>
          cases rest with
          | nil => rfl
          | cons second rest =>
            have hNot := (List.pairwise_cons.mp
              hApart).1 second (.head _)
            rw [hKey first (.head _),
              hKey second (List.mem_cons_of_mem _
                (.head _))] at hNot
            cases hNot }

--
-- Distinct Rows
--

/- `Distinct`: the rows it emits. -/
def distinctRows (rows : List (List (Value Binary64))) :
    List (List (Value Binary64)) :=
  firsts (tuples sameDistinct) (List.map distinctKey) [] rows

/- No column holds an integer in one row and a double in
   another. -/
def Uniform (rows : List (List (Value Binary64))) : Prop :=
  ∀ row ∈ rows, ∀ other ∈ rows, List.Forall₂ SameShape row other

theorem sameDistinct_refl
    (hNumber : value.notNan = true) :
    sameDistinct (distinctKey value) (distinctKey value) =
      true := by
  unfold sameDistinct
  rw [Bool.and_eq_true]
  refine ⟨decide_eq_true rfl, sameKey_refl ?_⟩
  cases value with
  | float value =>
    simpa [distinctKey, Value.notNan,
      isNan_withoutMinusZero] using hNumber
  | _ => rfl

theorem tuples_distinctKey
    {first second : List (Value Binary64)}
    (hShape : List.Forall₂ SameShape first second) :
    tuples sameDistinct (first.map distinctKey)
        (second.map distinctKey) =
      tuples notDistinct first second := by
  induction hShape with
  | nil => rfl
  | cons hHead _ ih =>
    rw [List.map_cons, List.map_cons, tuples, tuples,
      sameDistinct_iff hHead, ih]

theorem distinctRows_eq
    {rows : List (List (Value Binary64))}
    (hUniform : Uniform rows)
    (hReal : ∀ row ∈ rows, ∀ value ∈ row, value.notNan = true) :
    distinctRows rows =
      leaders (tuples notDistinct) id rows := by
  unfold distinctRows
  rw [Library.Classes.firsts_eq_leaders
    lawful_sameDistinct.tuples]
  · exact Library.Classes.leaders_congr
      fun row hRow other hOther =>
        tuples_distinctKey (hUniform row hRow other hOther)
  · intro row hRow
    refine Library.Classes.tuples_refl fun key hKey => ?_
    rcases List.mem_map.mp hKey with ⟨value, hValue, rfl⟩
    exact sameDistinct_refl (hReal row hRow value hValue)

--
-- DISTINCT and GROUP BY
--

/- `SELECT DISTINCT k1, ..., kn`, from the rows of the FROM
   and the WHERE. -/
def selectDistinct
    (projections : List (BoundExpression Binary64))
    (rows : List (Row Binary64 width)) :
    Except EngineError (List (List (Value Binary64))) := do
  let projected ← rows.mapM (keyOf projections)
  pure (distinctRows projected)

/- `SELECT k1, ..., kn GROUP BY k1, ..., kn`. -/
def selectGrouped [TrueDivision Binary64]
    (projections : List (BoundExpression Binary64))
    (aggregation : BoundAggregation Binary64)
    (rows : List (Row Binary64 width)) :
    Except EngineError (List (List (Value Binary64))) := do
  let grouped ← aggregateRows aggregation rows
  grouped.mapM fun row => keyOf projections row.get

def columnsOf
    (columns : List (Node × BoundColumn)) :
    List (BoundExpression Binary64) :=
  columns.map fun column => .column column.1 column.2

/- The value of a column, wherever it is. -/
def valueAt
    (row : Row Binary64 width)
    (column : Node × BoundColumn) : Value Binary64 :=
  if hIndex : column.2.columnIndex < width then
    row ⟨column.2.columnIndex, hIndex⟩
  else .null

variable {column : Node × BoundColumn}

theorem evaluate_column
    (hIndex : column.2.columnIndex < width) :
    evaluateBound row (.column column.1 column.2) =
      .ok (valueAt row column) := by
  simp only [evaluateBound, BoundExpression.toExpression,
    evaluate, valueAt, dif_pos hIndex]

theorem keyOf_columns
    {columns : List (Node × BoundColumn)}
    (hColumns : ∀ column ∈ columns,
      column.2.columnIndex < width) :
    keyOf (columnsOf columns) row =
      .ok (columns.map (valueAt row)) := by
  induction columns with
  | nil => rfl
  | cons column rest ih =>
    have hRest := ih fun other hMem =>
      hColumns other (.tail _ hMem)
    unfold keyOf columnsOf at hRest ⊢
    rw [List.map_cons, List.mapM_cons, hRest,
      evaluate_column (hColumns column (.head _))]
    rfl

omit [FloatArithmetic] in
theorem alike_of_hasType
    (hLeft : left.HasType dataType)
    (hRight : right.HasType dataType) :
    SameShape left right := by
  have hSame := hLeft.same hRight
  cases left with
  | int left =>
    cases right with
    | float right =>
      rcases hSame with hNull | hNull | hSame <;>
        cases ‹_›
    | _ => trivial
  | float left =>
    cases right with
    | int right =>
      rcases hSame with hNull | hNull | hSame <;>
        cases ‹_›
    | _ => trivial
  | _ => trivial

variable {projections : List (Node × BoundColumn)}
variable {rewritten : List (BoundExpression Binary64)}

omit [FloatArithmetic] in
/- The plan of columns that are grouped by themselves. -/
theorem planned_columns
    {keys : List (Node × BoundColumn)}
    [Spelling Binary64]
    (hPlan : planAggregation (columnsOf projections)
      (columnsOf keys) none =
        .ok (rewritten, some aggregation)) :
    aggregation =
      { groupKeys := columnsOf keys
        aggregates := []
        having := none } ∧
    columnsOf keys ≠ [] ∧
    (columnsOf projections).mapM
      (rewriteOverGroup (columnsOf keys) []) =
        .ok rewritten := by
  have hCalls : (columnsOf projections ++
      (none : Option (BoundExpression Binary64)).toList).flatMap
        BoundExpression.calls = [] := by
    rw [Option.toList_none, List.append_nil,
      List.flatMap_eq_nil_iff]
    intro expression hMem
    rcases List.mem_map.mp hMem with ⟨column, _, rfl⟩
    rfl
  unfold planAggregation at hPlan
  simp only [hCalls, List.foldlM_nil] at hPlan
  rcases ok_of_bind hPlan with ⟨seen, hSeen, hRest⟩
  cases hSeen
  split at hRest
  · cases hRest
  · rename_i hSome
    rcases ok_of_bind hRest with ⟨found, hFound, hRest⟩
    rcases ok_of_bind hRest with ⟨having, hHaving, hEnd⟩
    cases hHaving
    cases hEnd
    exact ⟨rfl, fun hNone => hSome ⟨hNone, rfl⟩, hFound⟩

/- The slot of a column holds its value. -/
theorem evaluate_slot
    [Spelling Binary64]
    {keys : List (Node × BoundColumn)}
    {reference : BoundExpression Binary64}
    (hSlot : rewriteOverGroup (columnsOf keys) []
      (.column column.1 column.2) = .ok reference) :
    evaluateBound (keys.map (valueAt row)).get reference =
      .ok (valueAt row column) := by
  rw [rewriteOverGroup] at hSlot
  unfold groupSlot at hSlot
  cases hIndex : indexBySignature (columnsOf keys)
      (signature (.column column.1 column.2)) with
  | none =>
    rw [hIndex] at hSlot
    cases hSlot
  | some index =>
    rw [hIndex] at hSlot
    cases hSlot
    rcases indexBySignature_some hIndex with ⟨key, hKey, hSame⟩
    rw [columnsOf, List.getElem?_map,
      Option.map_eq_some_iff] at hKey
    rcases hKey with ⟨found, hFound, rfl⟩
    have hColumn : found.2.columnIndex =
        column.2.columnIndex := by
      simpa [signature] using hSame
    rcases List.getElem?_eq_some_iff.mp hFound with
      ⟨hBelow, hAt⟩
    have hLength : index <
        (keys.map (valueAt row)).length := by
      rwa [List.length_map]
    simp only [evaluateBound, slotRef,
      BoundExpression.toExpression, evaluate, dif_pos hLength,
      List.get_eq_getElem, List.getElem_map, hAt]
    unfold valueAt
    simp only [hColumn]

theorem keyOf_slots
    [Spelling Binary64]
    {keys : List (Node × BoundColumn)}
    (hRewrite : (columnsOf projections).mapM
      (rewriteOverGroup (columnsOf keys) []) = .ok rewritten) :
    keyOf rewritten (keys.map (valueAt row)).get =
      .ok (projections.map (valueAt row)) := by
  have hEach := Library.Traversal.forall₂_of_mapM hRewrite
  clear hRewrite
  refine Library.Traversal.mapM_of_forall₂ ?_
  induction projections generalizing rewritten with
  | nil =>
    cases hEach
    exact .nil
  | cons column rest ih =>
    cases hEach with
    | cons hHead hTail =>
      exact .cons (evaluate_slot hHead) (ih hTail)

/- With nothing to aggregate the accumulators stay empty. -/
theorem foldlM_nothing
    (rows : List (Row Binary64 width))
    {accumulators : List (Accumulator Binary64)}
    (hOk : rows.foldlM (fun accumulators row =>
      addToEach row [] accumulators) [] = .ok accumulators) :
    accumulators = [] := by
  induction rows with
  | nil =>
    cases hOk
    rfl
  | cons row rest ih => exact ih hOk

theorem groupsOf_total
    (keys : List (BoundExpression Binary64))
    (having : Option (BoundExpression Binary64))
    (hKeyed : ∀ row ∈ rows,
      keyOf keys row = .ok (keyAt keys row)) :
    ∃ groups, groupsOf
      { groupKeys := keys, aggregates := [], having := having }
      rows = .ok groups := by
  have hFold : ∀ before : Groups Binary64, ∃ groups,
      rows.foldlM (addRowTo { groupKeys := keys
                              aggregates := []
                              having := having }) before =
        .ok groups := by
    induction rows with
    | nil => exact fun before => ⟨before, rfl⟩
    | cons row rest ih =>
      intro before
      rcases Library.Classes.addTo_total
          (fun accumulators (row : Row Binary64 width) =>
            (⟨[], rfl⟩ : ∃ next, addToEach row []
              accumulators = .ok next))
          (keyAt keys row) row before with
        ⟨next, hNext⟩
      rcases ih (fun other hMem => hKeyed other
        (.tail _ hMem)) next with
        ⟨groups, hGroups⟩
      refine ⟨groups, ?_⟩
      rw [List.foldlM_cons]
      unfold addRowTo at hGroups ⊢
      rw [hKeyed row (.head _)]
      show (do
        let next ← Library.Classes.addTo _ _ _ _ _ _
        _) = _
      rw [hNext]
      exact hGroups
  rcases hFold [] with ⟨groups, hGroups⟩
  unfold groupsOf
  rw [hGroups]
  exact ⟨_, rfl⟩

omit [FloatArithmetic] in
theorem mapM_total {α β : Type}
    {f : α → Except EngineError β}
    {g : α → β}
    {xs : List α}
    (hEach : ∀ x ∈ xs, f x = .ok (g x)) :
    xs.mapM f = .ok (xs.map g) := by
  refine Library.Traversal.mapM_of_forall₂ ?_
  rw [List.forall₂_map_right_iff]
  exact List.forall₂_same.mpr hEach

omit [FloatArithmetic] in
theorem map_valueAt
    {keys : List (Node × BoundColumn)}
    (hSame : projections.map (·.2.columnIndex) =
      keys.map (·.2.columnIndex))
    (row : Row Binary64 width) :
    projections.map (valueAt row) = keys.map (valueAt row) := by
  have hAll := congrArg (List.map fun index =>
    if hIndex : index < width then row ⟨index, hIndex⟩
    else Value.null) hSame
  rw [List.map_map, List.map_map] at hAll
  exact hAll

omit [FloatArithmetic] in
/- Rows of the values of some columns. -/
theorem uniform_columns
    {keys : List (Node × BoundColumn)}
    (hKeys : ∀ key ∈ keys, key.2.columnIndex < width ∧
      types key.2.columnIndex = some key.2.dataType)
    (hRows : ∀ row ∈ rows, Conforms types row ∧ RealRow row) :
    Uniform (rows.map fun row => keys.map (valueAt row)) ∧
      ∀ output ∈ rows.map (fun row => keys.map (valueAt row)),
        ∀ value ∈ output, value.notNan = true := by
  have hValue : ∀ row ∈ rows, ∀ key ∈ keys,
      (valueAt row key).HasType key.2.dataType ∧
        (valueAt row key).notNan = true := by
    intro row hRow key hKey
    have hIndex := (hKeys key hKey).1
    have hAt : valueAt row key =
        row ⟨key.2.columnIndex, hIndex⟩ := dif_pos hIndex
    rw [hAt]
    exact ⟨(hRows row hRow).1 ⟨_, hIndex⟩ _
      (hKeys key hKey).2, (hRows row hRow).2 _⟩
  constructor
  · intro output hOutput other hOther
    rcases List.mem_map.mp hOutput with ⟨row, hRow, rfl⟩
    rcases List.mem_map.mp hOther with ⟨row', hRow', rfl⟩
    rw [List.forall₂_map_left_iff, List.forall₂_map_right_iff]
    exact List.forall₂_same.mpr fun key hKey =>
      alike_of_hasType (hValue row hRow key hKey).1
        (hValue row' hRow' key hKey).1
  · intro output hOutput value hMem
    rcases List.mem_map.mp hOutput with ⟨row, hRow, rfl⟩
    rcases List.mem_map.mp hMem with ⟨key, hKey, rfl⟩
    exact (hValue row hRow key hKey).2

/- What the grouping of columns by themselves emits. -/
theorem aggregateRows_columns [TrueDivision Binary64]
    {keys : List (Node × BoundColumn)}
    (hSome : columnsOf keys ≠ [])
    (hKeys : ∀ key ∈ keys, key.2.columnIndex < width ∧
      types key.2.columnIndex = some key.2.dataType)
    (hRows : ∀ row ∈ rows, Conforms types row ∧ RealRow row) :
    aggregateRows
        { groupKeys := columnsOf keys
          aggregates := []
          having := none } rows =
      .ok ((leaders (tuples notDistinct)
        (fun row => keys.map (valueAt row)) rows).map
          fun row => keys.map (valueAt row)) := by
  have hKeyed : ∀ row : Row Binary64 width,
      keyOf (columnsOf keys) row =
        .ok (keys.map (valueAt row)) := fun row =>
    keyOf_columns fun key hKey => (hKeys key hKey).1
  have hKeyAt : keyAt (columnsOf keys) =
      fun row : Row Binary64 width => keys.map (valueAt row) :=
    funext fun row => keyAt_ok (hKeyed row)
  rcases groupsOf_total (columnsOf keys) none
    (fun row (_ : row ∈ rows) => by
      rw [hKeyAt]
      exact hKeyed row) with ⟨groups, hGroups⟩
  have hBound : ∀ key ∈ columnsOf keys,
      Declared types key ∧ RealLiterals key := by
    intro key hKey
    rcases List.mem_map.mp hKey with ⟨column, hColumn, rfl⟩
    refine ⟨(hKeys column hColumn).2, ?_⟩
    intro node literal dataType hMem
    cases List.mem_singleton.mp hMem
  have hPart := partitionsInput_of_ok hBound hRows hGroups
  have hFirst := hPart.ordered (.inl hSome)
  have hEmit : ∀ group ∈ groups, groupedRow
      { groupKeys := columnsOf keys
        aggregates := []
        having := none } group = .ok (some group.1) := by
    intro group hGroup
    have hNone := foldlM_nothing _ (hPart.given group hGroup)
    unfold groupedRow
    rw [hNone]
    simp only [List.mapM_nil, pure, Except.pure, bind,
      Except.bind, List.append_nil]
  unfold aggregateRows
  simp only [hGroups, mapM_total hEmit, bind, Except.bind,
    pure, Except.pure, List.filterMap_map]
  have hKept : (id ∘ fun group : List (Value Binary64) ×
      List (Accumulator Binary64) => some group.1) =
        some ∘ Prod.fst := rfl
  rw [hKept, ← List.filterMap_map, List.filterMap_some, hFirst]
  simp only [hKeyAt]

/-
  The groups of GROUP BY are the classes of the input rows
  under SQL's `IS NOT DISTINCT FROM`, whatever the keys, and
  the rows DISTINCT lets through are the first of each; so
  DISTINCT columns and columns grouped by themselves are the
  same rows, in the same order.
-/
theorem partitions_input [TrueDivision Binary64]
    [Spelling Binary64]
    (types : ColumnTypes) :
    (∀ aggregation (rows : List (Row Binary64 width)) groups,
      (∀ key ∈ aggregation.groupKeys,
        Declared types key ∧ RealLiterals key) →
      (∀ row ∈ rows, Conforms types row ∧ RealRow row) →
      groupsOf aggregation rows = .ok groups →
        PartitionsInput aggregation rows groups) ∧
    (∀ rows : List (List (Value Binary64)),
      Uniform rows →
      (∀ row ∈ rows, ∀ value ∈ row, value.notNan = true) →
        distinctRows rows =
          leaders (tuples notDistinct) id rows) ∧
    (∀ (projections keys : List (Node × BoundColumn))
        rewritten aggregation
        (rows : List (Row Binary64 width)),
      (∀ key ∈ keys, key.2.columnIndex < width ∧
        types key.2.columnIndex = some key.2.dataType) →
      projections.map (·.2.columnIndex) =
        keys.map (·.2.columnIndex) →
      planAggregation (columnsOf projections) (columnsOf keys)
        none = .ok (rewritten, some aggregation) →
      (∀ row ∈ rows, Conforms types row ∧ RealRow row) →
        selectGrouped rewritten aggregation rows =
          selectDistinct (columnsOf projections) rows) := by
  refine ⟨fun _ _ _ hKeys hRows hOk =>
    partitionsInput_of_ok hKeys hRows hOk,
    fun _ hUniform hReal => distinctRows_eq hUniform hReal,
    ?_⟩
  intro projections keys rewritten aggregation rows hKeys
    hSame hPlan hRows
  rcases planned_columns hPlan with ⟨rfl, hSome, hRewrite⟩
  have hProjected : ∀ row : Row Binary64 width,
      keyOf (columnsOf projections) row =
        .ok (keys.map (valueAt row)) := by
    intro row
    rw [keyOf_columns, map_valueAt hSame]
    intro column hColumn
    have hIndex := List.mem_map_of_mem
      (f := fun entry : Node × BoundColumn =>
        entry.2.columnIndex) hColumn
    rw [hSame] at hIndex
    rcases List.mem_map.mp hIndex with ⟨key, hKey, hEqual⟩
    exact hEqual ▸ (hKeys key hKey).1
  rcases uniform_columns hKeys hRows with ⟨hUniform, hReal⟩
  have hSlots : ∀ output ∈ (leaders (tuples notDistinct)
      (fun row => keys.map (valueAt row)) rows).map
        (fun row => keys.map (valueAt row)),
      keyOf rewritten output.get = .ok (id output) := by
    intro output hOutput
    rcases List.mem_map.mp hOutput with ⟨row, _, rfl⟩
    rw [keyOf_slots hRewrite, map_valueAt hSame]
    rfl
  unfold selectGrouped selectDistinct
  rw [aggregateRows_columns hSome hKeys hRows,
    mapM_total fun row _ => hProjected row]
  show List.mapM _ _ = Except.ok (distinctRows _)
  rw [mapM_total hSlots, List.map_id,
    distinctRows_eq hUniform hReal,
    Library.Classes.leaders_map]
  rfl

end Keys

--
-- The Two Zeros
--

section Zeros

/- Nothing is added up or written out here. -/
abbrev noArithmetic : FloatArithmetic :=
  ⟨fun left _ => left, fun left _ => left,
    fun left _ => left, fun left _ => left,
    fun left _ => left, fun _ _ => ⟨0⟩, fun _ => ""⟩

attribute [local instance] noArithmetic

/- Zero and minus zero, each twice NULL apart. -/
def zeros : List (List (Value Binary64)) :=
  [[.float ⟨0⟩], [.null], [.float ⟨BitVec.ofNat 64 (2 ^ 63)⟩],
    [.null]]

theorem partitions_input_zeros :
    distinctRows zeros = [[.float ⟨0⟩], [.null]] := by
  have hUniform : Uniform zeros := by
    intro row hRow other hOther
    simp only [zeros, List.mem_cons, List.not_mem_nil,
      or_false] at hRow hOther
    rcases hRow with rfl | rfl | rfl | rfl <;>
      rcases hOther with rfl | rfl | rfl | rfl <;>
      exact .cons trivial .nil
  have hReal : ∀ row ∈ zeros, ∀ value ∈ row,
      value.notNan = true := by decide
  exact ((@partitions_input noArithmetic 0
    ⟨fun _ _ => ⟨0⟩⟩ ⟨id, fun _ => ""⟩ fun _ => none).2.1
      zeros hUniform hReal).trans (by decide)

end Zeros

end Executor

end ChenDB
