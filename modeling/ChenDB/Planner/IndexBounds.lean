import ChenDB.Executor.HashJoin
import ChenDB.Indexing.KeyOrder
import ChenDB.Library.KeyRange

/-
  Comparisons of one column with literals, folded into the
  range of an index that they stand for.
-/

--
-- Comparisons
--

namespace ChenDB

namespace Planner

open Executor (BinaryOperator Binary64 BoundColumnRef
  Expression FloatArithmetic Row Value compareNumbers
  compareValues comparison evaluate sameKey)
open Indexing (Alike DataType Key KeyTexts Lower Storable
  bigEndian bigEndian_lt decodeKey decodeKey_float encodeKey
  encodeKey_payload floatToSortable floatToSortable_eq
  floatToSortable_lt nullKey payload payload_eq payload_lt
  signed_withoutMinusZero smallestValueKey valuePrefix
  withoutMinusZero)
open Library (KeyRange)
open scoped Library.ByteOrder

/- `_MIRRORED`. -/
def mirrored : BinaryOperator → BinaryOperator
  | .lt => .gt
  | .lte => .gte
  | .gt => .lt
  | .gte => .lte
  | op => op

/- `column <op> literal`, or the same the other way round. -/
def asColumnComparison {φ : Type}
    (expression : Expression φ) :
    Option (BoundColumnRef × BinaryOperator × Value φ) :=
  match expression with
  | .binaryOp op left right =>
    if !op.isComparison then none
    else if op = .neq then none
    else
      match left, right with
      | .column column, .literal value =>
        some (column, op, value)
      | .literal value, .column column =>
        some (column, mirrored op, value)
      | _, _ => none
  | _ => none

/- The comparisons an index can bound. -/
def isBounding : BinaryOperator → Bool
  | .eq | .lt | .lte | .gt | .gte => true
  | _ => false

variable {op : BinaryOperator}

/- What matches is a comparison, one way round or the other. -/
theorem asColumnComparison_some {φ : Type}
    {expression : Expression φ}
    {column : BoundColumnRef}
    {value : Value φ}
    (hMatch : asColumnComparison expression =
      some (column, op, value)) :
    isBounding op = true ∧
      (expression =
          .binaryOp op (.column column) (.literal value) ∨
        expression = .binaryOp (mirrored op) (.literal value)
          (.column column)) := by
  unfold asColumnComparison at hMatch
  split at hMatch
  · rename_i written left right
    split at hMatch
    · cases hMatch
    rename_i hComparison
    split at hMatch
    · cases hMatch
    rename_i hNeq
    have hOp : isBounding written = true ∧
        isBounding (mirrored written) = true ∧
        mirrored (mirrored written) = written := by
      cases written <;> simp_all [isBounding, mirrored,
        BinaryOperator.isComparison]
    split at hMatch
    · cases hMatch
      exact ⟨hOp.1, .inl rfl⟩
    · cases hMatch
      refine ⟨hOp.2.1, .inr ?_⟩
      rw [hOp.2.2]
    · cases hMatch
  · cases hMatch

--
-- Bounds
--

/- A range of keys, and the positions of the comparisons it
   stands for. -/
structure IndexBounds where
  range : KeyRange Key
  absorbed : List Nat

/- An equality bounds both ends. -/
def narrow
    (op : BinaryOperator)
    (key : Key)
    (range : KeyRange Key) : Option (KeyRange Key) :=
  match op with
  | .eq => some ((range.raise key true).lower key true)
  | .gt => some (range.raise key false)
  | .gte => some (range.raise key true)
  | .lt => some (range.lower key false)
  | .lte => some (range.lower key true)
  | _ => none

section Folding

variable [FloatArithmetic] [KeyTexts]

/- One turn of the loop of `_bounds_for`. A comparison is left
   to a filter when its literal is NULL, has no key of the
   index's type, or is not what its key says. -/
def absorb
    (dataType : DataType)
    (bounds : IndexBounds)
    (position : Nat)
    (candidate : Expression Binary64) :
    Except EngineError IndexBounds :=
  match asColumnComparison candidate with
  | none => .ok bounds
  | some (_, op, value) =>
    if value.isNull then .ok bounds
    else
      match encodeKey value dataType with
      | .error (.indexingError _) => .ok bounds
      | .error raised => .error raised
      | .ok key =>
        match decodeKey key dataType with
        | .error raised => .error raised
        | .ok decoded =>
          if !sameKey decoded value then .ok bounds
          else
            match narrow op key bounds.range with
            | none => .ok bounds
            | some range => .ok
                { range := range
                  absorbed :=
                    position :: bounds.absorbed }

def absorbAll
    (dataType : DataType)
    (bounds : IndexBounds) :
    List (Nat × Expression Binary64) →
      Except EngineError IndexBounds
  | [] => .ok bounds
  | candidate :: rest => do
      let after ←
        absorb dataType bounds candidate.1 candidate.2
      absorbAll dataType after rest

/- NULL keys sort below every value's. -/
def anchored (range : KeyRange Key) : KeyRange Key :=
  match range.low with
  | none =>
    { range with
      low := some smallestValueKey
      includeLow := true }
  | some _ => range

def boundsFor
    (candidates : List (Nat × Expression Binary64))
    (dataType : DataType) :
    Except EngineError (Option IndexBounds) := do
  let bounds ← absorbAll dataType
    { range := ⟨none, none, true, true⟩, absorbed := [] }
    candidates
  if bounds.absorbed.isEmpty then pure none
  else pure (some
    { bounds with range := anchored bounds.range })

--
-- Absorbed Comparisons
--

/- A comparison whose literal the index's key says exactly. -/
structure Absorbed
    (dataType : DataType)
    (candidate : Expression Binary64)
    (column : BoundColumnRef)
    (op : BinaryOperator)
    (value : Value Binary64)
    (key : Key) : Prop where
  matched : asColumnComparison candidate =
    some (column, op, value)
  known : value.isNull = false
  encoded : encodeKey value dataType = .ok key
  exact : ∃ decoded, decodeKey key dataType = .ok decoded ∧
    sameKey decoded value = true

def IsAbsorbed
    (dataType : DataType)
    (candidate : Expression Binary64) : Prop :=
  ∃ column op value key,
    Absorbed dataType candidate column op value key

/- What a comparison with a key asks of a key. -/
def Admits (op : BinaryOperator) (key item : Key) : Prop :=
  match op with
  | .eq => item = key
  | .lt => item < key
  | .lte => item ≤ key
  | .gt => key < item
  | .gte => key ≤ item
  | _ => False

variable {op : BinaryOperator}

omit [FloatArithmetic] [KeyTexts] in
theorem narrow_some
    (hOp : isBounding op = true)
    (key : Key)
    (range : KeyRange Key) :
    ∃ narrowed, narrow op key range = some narrowed ∧
      (∀ item, narrowed.Contains item ↔
        range.Contains item ∧ Admits op key item) ∧
      ∀ low, narrowed.low = some low →
        range.low = some low ∨ low = key := by
  cases op with
  | eq =>
    refine ⟨_, rfl, fun item => ?_, fun low hLow => ?_⟩
    · rw [KeyRange.contains_lower, KeyRange.contains_raise,
        and_assoc]
      exact and_congr_right fun _ =>
        ⟨fun hBoth => le_antisymm hBoth.2 hBoth.1,
          fun hSame => ⟨hSame.ge, hSame.le⟩⟩
    · rw [KeyRange.lower_low] at hLow
      exact KeyRange.raise_low hLow
  | lt =>
    exact ⟨_, rfl, KeyRange.contains_lower range key false,
      fun low hLow => .inl
        ((KeyRange.lower_low range key false) ▸ hLow)⟩
  | lte =>
    exact ⟨_, rfl, KeyRange.contains_lower range key true,
      fun low hLow => .inl
        ((KeyRange.lower_low range key true) ▸ hLow)⟩
  | gt =>
    exact ⟨_, rfl, KeyRange.contains_raise range key false,
      fun low hLow => KeyRange.raise_low hLow⟩
  | gte =>
    exact ⟨_, rfl, KeyRange.contains_raise range key true,
      fun low hLow => KeyRange.raise_low hLow⟩
  | _ => cases hOp

variable {dataType : DataType} {value : Value Binary64}
variable {key : Key}

omit [FloatArithmetic] in
/- Every literal's key is at or above the smallest value's. -/
theorem smallest_le
    (hKnown : value.isNull = false)
    (hKey : encodeKey value dataType = .ok key) :
    smallestValueKey ≤ key := by
  have hPrefix : ∀ rest : List UInt8,
      smallestValueKey ≤ valuePrefix ++ rest := by
    intro rest
    cases rest with
    | nil => exact le_refl _
    | cons head tail => exact le_of_lt (List.Lex.cons .nil)
  cases Indexing.encodeKey_encodes hKey with
  | null => cases hKnown
  | _ => exact hPrefix _

variable {bounds after : IndexBounds} {position : Nat}
variable {candidate : Expression Binary64}

/- Everything a turn of the loop can come to. -/
theorem absorb_ok
    (hOk : absorb dataType bounds position candidate =
      .ok after) :
    (after = bounds ∧ ¬ IsAbsorbed dataType candidate) ∨
      ∃ column op value key,
        Absorbed dataType candidate column op value key ∧
        narrow op key bounds.range = some after.range ∧
        after.absorbed = position :: bounds.absorbed := by
  unfold absorb at hOk
  split at hOk
  · rename_i hNone
    cases hOk
    refine .inl ⟨rfl, ?_⟩
    rintro ⟨column, op, value, key, hAbsorbed⟩
    cases hNone.symm.trans hAbsorbed.matched
  · rename_i column op value hMatch
    have hSame : ∀ {column' op' value' key},
        Absorbed dataType candidate column' op' value' key →
          value' = value := by
      intro column' op' value' key hAbsorbed
      cases hMatch.symm.trans hAbsorbed.matched
      rfl
    split at hOk
    · rename_i hNull
      cases hOk
      refine .inl ⟨rfl, ?_⟩
      rintro ⟨_, _, _, _, hAbsorbed⟩
      have hKnown := hAbsorbed.known
      rw [hSame hAbsorbed, hNull] at hKnown
      cases hKnown
    · rename_i hKnown
      split at hOk
      · rename_i hRaised
        cases hOk
        refine .inl ⟨rfl, ?_⟩
        rintro ⟨_, _, _, _, hAbsorbed⟩
        have hEncoded := hAbsorbed.encoded
        rw [hSame hAbsorbed, hRaised] at hEncoded
        cases hEncoded
      · cases hOk
      · rename_i key hEncoded
        split at hOk
        · cases hOk
        rename_i decoded hDecoded
        split at hOk
        · rename_i hDiffers
          cases hOk
          refine .inl ⟨rfl, ?_⟩
          rintro ⟨_, _, _, _, hAbsorbed⟩
          rcases hAbsorbed.exact with ⟨again, hAgain, hExact⟩
          have hOther := hAbsorbed.encoded
          rw [hSame hAbsorbed] at hOther hExact
          cases hEncoded.symm.trans hOther
          cases hDecoded.symm.trans hAgain
          rw [hExact] at hDiffers
          cases hDiffers
        · rename_i hExact
          have hAbsorbed : Absorbed dataType candidate column
              op value key :=
            ⟨hMatch, Bool.eq_false_of_not_eq_true hKnown,
              hEncoded, decoded, hDecoded,
              by simpa using hExact⟩
          rcases narrow_some
            (asColumnComparison_some hMatch).1 key
              bounds.range with ⟨narrowed, hNarrow, _⟩
          rw [hNarrow] at hOk
          cases hOk
          exact .inr ⟨column, op, value, key, hAbsorbed,
            hNarrow, rfl⟩

/- What is asked of a key by a comparison, if it is absorbed. -/
def Admitted
    (dataType : DataType)
    (candidate : Expression Binary64)
    (item : Key) : Prop :=
  ∀ column op value key,
    Absorbed dataType candidate column op value key →
      Admits op key item

/- The lower end is no key of NULL. -/
def AboveNull (range : KeyRange Key) : Prop :=
  ∀ low, range.low = some low → smallestValueKey ≤ low

theorem Absorbed.unique
    {column column' : BoundColumnRef}
    {op' : BinaryOperator}
    {value' : Value Binary64}
    {key' : Key}
    (hFirst : Absorbed dataType candidate column op value key)
    (hSecond : Absorbed dataType candidate column' op' value'
      key') :
    op' = op ∧ key' = key := by
  cases hFirst.matched.symm.trans hSecond.matched
  cases hFirst.encoded.symm.trans hSecond.encoded
  exact ⟨rfl, rfl⟩

theorem absorb_contains
    (hOk : absorb dataType bounds position candidate =
      .ok after) :
    (∀ item, after.range.Contains item ↔
        bounds.range.Contains item ∧
          Admitted dataType candidate item) ∧
      (∀ other, other ∈ after.absorbed ↔
        other ∈ bounds.absorbed ∨
          other = position ∧ IsAbsorbed dataType candidate) ∧
      (AboveNull bounds.range → AboveNull after.range) := by
  rcases absorb_ok hOk with ⟨rfl, hNot⟩ |
    ⟨column, op, value, key, hAbsorbed, hNarrow, hPositions⟩
  · have hAdmitted : ∀ item,
        Admitted dataType candidate item :=
      fun item column op value key hAbsorbed =>
        absurd ⟨column, op, value, key, hAbsorbed⟩ hNot
    refine ⟨fun item => ?_, fun other => ?_, id⟩
    · exact (and_iff_left (hAdmitted item)).symm
    · exact (or_iff_left fun hBoth => hNot hBoth.2).symm
  · rcases narrow_some
      (asColumnComparison_some hAbsorbed.matched).1 key
        bounds.range with ⟨narrowed, hSame, hContains, hLow⟩
    cases hNarrow.symm.trans hSame
    refine ⟨fun item => ?_, fun other => ?_,
      fun hAbove => ?_⟩
    · rw [hContains item]
      refine and_congr_right fun _ => ⟨fun hAdmits => ?_,
        fun hAdmitted => hAdmitted _ _ _ _ hAbsorbed⟩
      intro column' op' value' key' hOther
      rcases hAbsorbed.unique hOther with ⟨rfl, rfl⟩
      exact hAdmits
    · rw [hPositions, List.mem_cons, or_comm]
      have hIs : IsAbsorbed dataType candidate :=
        ⟨column, op, value, key, hAbsorbed⟩
      simp [hIs]
    · intro low hSome
      rcases hLow low hSome with hOld | rfl
      · exact hAbove low hOld
      · exact smallest_le hAbsorbed.known hAbsorbed.encoded

theorem absorbAll_contains
    {candidates : List (Nat × Expression Binary64)}
    (hOk : absorbAll dataType bounds candidates = .ok after) :
    (∀ item, after.range.Contains item ↔
        bounds.range.Contains item ∧
          ∀ entry ∈ candidates,
            Admitted dataType entry.2 item) ∧
      (∀ position, position ∈ after.absorbed ↔
        position ∈ bounds.absorbed ∨
          ∃ entry ∈ candidates, position = entry.1 ∧
            IsAbsorbed dataType entry.2) ∧
      (AboveNull bounds.range → AboveNull after.range) := by
  induction candidates generalizing bounds with
  | nil =>
    cases hOk
    simp
  | cons candidate rest ih =>
    rcases Library.StateExcept.ok_of_bind hOk with
      ⟨middle, hFirst, hRest⟩
    rcases absorb_contains hFirst with
      ⟨hContains, hPositions, hLow⟩
    rcases ih hRest with ⟨hContains', hPositions', hLow'⟩
    refine ⟨fun item => ?_, fun position => ?_,
      fun hAbove => hLow' (hLow hAbove)⟩
    · rw [hContains', hContains, and_assoc]
      simp only [List.forall_mem_cons]
    · rw [hPositions', hPositions, or_assoc]
      simp only [List.exists_mem_cons_iff]

end Folding

--
-- Keys and Comparisons
--

/- The order of two keys, as a comparison reports it. -/
def Agrees (order : Ordering) (item key : Key) : Prop :=
  match order with
  | .lt => item < key
  | .eq => item = key
  | .gt => key < item

variable {item key : Key}

/- Values and keys in one order. -/
theorem agrees_compare
    {α : Type} [LinearOrder α]
    {left right : α}
    (hLess : left < right → item < key)
    (hSame : left = right → item = key)
    (hMore : right < left → key < item) :
    Agrees (Ord.compare left right) item key := by
  rcases lt_trichotomy left right with hLt | hEq | hGt
  · rw [compare_lt_iff_lt.mpr hLt]
    exact hLess hLt
  · rw [compare_eq_iff_eq.mpr hEq]
    exact hSame hEq
  · rw [compare_gt_iff_gt.mpr hGt]
    exact hMore hGt

variable {order : Ordering}

theorem admits_agrees
    (hOp : isBounding op = true)
    (hAgrees : Agrees order item key) :
    Admits op key item ↔ comparison op order = true := by
  cases order with
  | lt =>
    have hLess : item < key := hAgrees
    cases op <;>
      simp_all [isBounding, Admits, comparison, hLess.le,
        hLess.ne, hLess.not_ge, hLess.not_gt]
  | eq =>
    have hSame : item = key := hAgrees
    subst hSame
    cases op <;> simp_all [isBounding, Admits, comparison]
  | gt =>
    have hMore : key < item := hAgrees
    cases op <;>
      simp_all [isBounding, Admits, comparison, hMore.le,
        hMore.ne', hMore.not_ge, hMore.not_gt]

/- A comparison the other way round. -/
theorem comparison_mirrored
    (hOp : isBounding op = true)
    (order : Ordering) :
    comparison (mirrored op) order.swap =
      comparison op order := by
  cases op <;> cases hOp <;> cases order <;> rfl

section Doubles

variable [FloatArithmetic]

omit [FloatArithmetic] in
theorem notNan_of_finite
    {value : Binary64}
    (hFinite : value.isFinite = true) :
    value.isNan = false := by
  have hBelow := of_decide_eq_true hFinite
  exact decide_eq_false (by omega)

omit [FloatArithmetic] in
theorem compare_signed
    {left right : Binary64}
    (hLeft : left.isNan = false)
    (hRight : right.isNan = false) :
    Binary64.compare left right =
      Ord.compare left.signed right.signed := by
  unfold Binary64.compare
  rw [hLeft, hRight]
  rfl

/- A literal that is what its key says: the double the key is
   of, and how a finite double compares with the literal. -/
theorem compare_exact
    {stored key : Binary64}
    {number : Binary64 ⊕ Int}
    (hFinite : stored.isFinite = true)
    (hNumber : number = .inl key ∨ ∃ whole, number = .inr whole)
    (hExact : compareNumbers
      (.inl (withoutMinusZero key)) number = .eq) :
    compareNumbers (.inl stored) number =
        Ord.compare stored.signed key.signed ∧
      compareNumbers number (.inl stored) =
        Ord.compare key.signed stored.signed := by
  have hStored := notNan_of_finite hFinite
  have hSigned := signed_withoutMinusZero key
  rcases hNumber with rfl | ⟨whole, rfl⟩
  · have hKey : key.isNan = false := by
      by_contra hNan
      have hNan := Bool.eq_true_of_not_eq_false hNan
      have hOrder : Binary64.compare (withoutMinusZero key)
          key = .gt := by
        unfold Binary64.compare
        simp [hNan]
      cases hOrder.symm.trans hExact
    exact ⟨compare_signed hStored hKey,
      compare_signed hKey hStored⟩
  · have hOrder : Binary64.compareInt (withoutMinusZero key)
        whole = .eq := hExact
    have hUnits : key.units = whole * 2 ^ 1074 := by
      unfold Binary64.compareInt at hOrder
      split at hOrder
      · cases hOrder
      split at hOrder
      · rw [compare_eq_iff_eq, Binary64.units_eq, hSigned,
          ← Binary64.units_eq] at hOrder
        exact hOrder
      · split at hOrder
        · cases hOrder
        · cases hOrder
    have hCompare : Binary64.compareInt stored whole =
        Ord.compare stored.signed key.signed := by
      unfold Binary64.compareInt
      rw [hStored, hFinite, ← hUnits]
      exact Binary64.compare_units _ _
    refine ⟨hCompare, ?_⟩
    show (Binary64.compareInt stored whole).swap = _
    rw [hCompare]
    exact Executor.compare_swap _ _

end Doubles

/- Of two values of one type, the keys in the order of the
   values. -/
theorem agrees_storable
    {dataType : DataType}
    {stored value : Value Binary64}
    (hStored : Storable dataType stored)
    (hValue : Storable dataType value)
    (hLess : order = .lt → Lower stored value)
    (hSame : order = .eq → Alike stored value)
    (hMore : order = .gt → Lower value stored) :
    Agrees order (valuePrefix ++ payload stored)
      (valuePrefix ++ payload value) := by
  cases order with
  | lt =>
    exact List.append_left_lt
      (payload_lt hStored hValue (hLess rfl))
  | eq => exact congrArg _ (payload_eq hStored (hSame rfl))
  | gt =>
    exact List.append_left_lt
      (payload_lt hValue hStored (hMore rfl))

theorem agrees_doubles (stored key : Binary64) :
    Agrees (Ord.compare stored.signed key.signed)
      (valuePrefix ++ bigEndian (floatToSortable stored).toNat)
      (valuePrefix ++ bigEndian (floatToSortable key).toNat) :=
  agrees_compare
    (fun hLess => List.append_left_lt
      (bigEndian_lt (floatToSortable_lt hLess)
        (floatToSortable key).isLt))
    (fun hSame => congrArg (valuePrefix ++ bigEndian ·)
      (floatToSortable_eq hSame))
    (fun hMore => List.append_left_lt
      (bigEndian_lt (floatToSortable_lt hMore)
        (floatToSortable stored).isLt))

section Values

variable [FloatArithmetic] [KeyTexts]

variable {value : Value Binary64}

omit [KeyTexts] in
/- A double and a literal that is a number, either way round. -/
theorem compareValues_number
    {literal : Binary64 ⊕ Int}
    (hNumber : Indexing.asNumber value = some literal)
    (stored : Binary64)
    (op : BinaryOperator) :
    compareValues (.float stored) value op =
        .ok (compareNumbers (.inl stored) literal) ∧
      compareValues value (.float stored) op =
        .ok (compareNumbers literal (.inl stored)) ∧
      (sameKey (.float stored) value = true →
        compareNumbers (.inl stored) literal = .eq) := by
  cases value with
  | int whole =>
    cases hNumber
    exact ⟨rfl, rfl, of_decide_eq_true⟩
  | float other =>
    cases hNumber
    exact ⟨rfl, rfl, of_decide_eq_true⟩
  | _ => cases hNumber

variable {dataType : DataType} {item key : Key}

/- The key of a stored value and that of a literal are in the
   order that the engine finds the two in. -/
theorem compare_agrees
    {stored : Value Binary64}
    (hStored : Storable dataType stored)
    (hItem : encodeKey stored dataType = .ok item)
    (hKnown : value.isNull = false)
    (hKey : encodeKey value dataType = .ok key)
    (hExact : ∃ decoded,
      decodeKey key dataType = .ok decoded ∧
        sameKey decoded value = true)
    (op : BinaryOperator) :
    ∃ order, Agrees order item key ∧
      compareValues stored value op = .ok order ∧
      compareValues value stored op = .ok order.swap := by
  cases (encodeKey_payload hStored).symm.trans hItem
  cases hStored with
  | integer hLow hHigh =>
    rename_i number
    cases Indexing.encodeKey_encodes hKey with
    | null => cases hKnown
    | int hLow' hHigh' =>
      rename_i literal
      exact ⟨Ord.compare number literal,
        agrees_storable (.integer hLow hHigh)
          (.integer hLow' hHigh')
          compare_lt_iff_lt.mp
          (fun hSame => congrArg Value.int
            (compare_eq_iff_eq.mp hSame))
          compare_gt_iff_gt.mp,
        rfl,
        congrArg Except.ok
          (Executor.compare_swap literal number).symm⟩
  | float hFinite =>
    rename_i number
    rcases hExact with ⟨decoded, hDecoded, hSame⟩
    cases Indexing.encodeKey_encodes hKey with
    | null => cases hKnown
    | double hNumber hBits =>
      rename_i literal bits
      have hDouble : ∃ double : Binary64,
          bits = (floatToSortable double).toNat ∧
          (literal = .inl double ∨
            ∃ whole, literal = .inr whole) := by
        cases literal with
        | inl double =>
          cases hBits
          exact ⟨double, rfl, .inl rfl⟩
        | inr whole =>
          rcases Option.map_eq_some_iff.mp hBits with
            ⟨double, _, rfl⟩
          exact ⟨double, rfl, .inr ⟨whole, rfl⟩⟩
      rcases hDouble with ⟨double, rfl, hLiteral⟩
      cases (decodeKey_float double).symm.trans hDecoded
      have hEqual := (compareValues_number hNumber
        (withoutMinusZero double) op).2.2 hSame
      rcases compare_exact hFinite hLiteral hEqual with
        ⟨hForth, hBack⟩
      rcases compareValues_number hNumber number op with
        ⟨hStored, hReversed, _⟩
      refine ⟨_, agrees_doubles number double, ?_, ?_⟩
      · rw [hStored, hForth]
      · rw [hReversed, hBack, Executor.compare_swap]
  | boolean flag =>
    cases Indexing.encodeKey_encodes hKey with
    | null => cases hKnown
    | bool literal =>
      refine ⟨Ord.compare flag literal,
        agrees_storable (.boolean flag) (.boolean literal)
          ?_ ?_ ?_, rfl,
        congrArg Except.ok
          (Executor.compare_swap literal flag).symm⟩
      · cases flag <;> cases literal <;> simp [Lower]
      · cases flag <;> cases literal <;> simp [Alike]
      · cases flag <;> cases literal <;> simp [Lower]
  | text text =>
    cases Indexing.encodeKey_encodes hKey with
    | null => cases hKnown
    | text literal =>
      exact ⟨Ord.compare text literal,
        agrees_storable (.text text) (.text literal)
          (fun hLess => String.lt_iff_toList_lt.mp
            (compare_lt_iff_lt.mp hLess))
          (fun hSame => congrArg Value.text
            (compare_eq_iff_eq.mp hSame))
          (fun hMore => String.lt_iff_toList_lt.mp
            (compare_gt_iff_gt.mp hMore)),
        rfl,
        congrArg Except.ok
          (Executor.compare_swap literal text).symm⟩

variable {width : Nat}

variable {op : BinaryOperator} {row : Row Binary64 width}

omit [KeyTexts] in
theorem evaluate_bounding
    {left right : Expression Binary64}
    {first second : Value Binary64}
    (hOp : isBounding op = true)
    (hFirst : evaluate row left = .ok first)
    (hSecond : evaluate row right = .ok second) :
    evaluate row (.binaryOp op left right) =
      if first.isNull ∨ second.isNull then .ok .null
      else (do
        let order ← compareValues first second op
        pure (.bool (comparison op order))) := by
  have hLogical : op.isLogical = false := by
    cases op <;> cases hOp <;> rfl
  rw [Executor.evaluate_strict hLogical, hFirst, hSecond]
  cases op <;> cases hOp <;> rfl

variable {column : BoundColumnRef} {index : Fin width}

omit [KeyTexts] in
theorem evaluate_column
    (hIndex : column.columnIndex = index) :
    evaluate row (.column column) = .ok (row index) := by
  have hWidth : column.columnIndex < width :=
    hIndex ▸ index.isLt
  have hSame : (⟨column.columnIndex, hWidth⟩ : Fin width) =
      index := Fin.ext hIndex
  simp only [evaluate]
  rw [dif_pos hWidth, hSame]

omit [FloatArithmetic] [KeyTexts] in
theorem isBounding_mirrored
    (hOp : isBounding op = true) :
    isBounding (mirrored op) = true := by
  cases op <;> cases hOp <;> rfl

variable {candidate : Expression Binary64}

/- An absorbed comparison is TRUE of a stored value where its
   key admits the value's. -/
theorem admits_iff
    (hAbsorbed : Absorbed dataType candidate column op value
      key)
    (hIndex : column.columnIndex = index)
    (hStored : Storable dataType (row index))
    (hItem : encodeKey (row index) dataType = .ok item) :
    Admits op key item ↔
      evaluate row candidate = .ok (.bool true) := by
  rcases asColumnComparison_some hAbsorbed.matched with
    ⟨hOp, hSides⟩
  have hColumn : evaluate row (.column column) =
      .ok (row index) := evaluate_column hIndex
  have hKnown : ¬ (row index).isNull = true := by
    rw [hStored.known]
    exact Bool.false_ne_true
  have hLiteral : ¬ value.isNull = true := by
    rw [hAbsorbed.known]
    exact Bool.false_ne_true
  rcases hSides with rfl | rfl
  · rcases compare_agrees hStored hItem hAbsorbed.known
      hAbsorbed.encoded hAbsorbed.exact op with
      ⟨order, hAgrees, hForth, _⟩
    rw [evaluate_bounding hOp hColumn rfl,
      if_neg (not_or.mpr ⟨hKnown, hLiteral⟩), hForth,
      admits_agrees hOp hAgrees]
    show _ ↔ Except.ok (Value.bool _) = _
    simp
  · rcases compare_agrees hStored hItem hAbsorbed.known
      hAbsorbed.encoded hAbsorbed.exact (mirrored op) with
      ⟨order, hAgrees, _, hBack⟩
    rw [evaluate_bounding (isBounding_mirrored hOp) rfl hColumn,
      if_neg (not_or.mpr ⟨hLiteral, hKnown⟩), hBack,
      admits_agrees hOp hAgrees, ← comparison_mirrored hOp]
    show _ ↔ Except.ok (Value.bool _) = _
    simp

/- No comparison is TRUE of NULL. -/
theorem evaluate_null
    (hAbsorbed : Absorbed dataType candidate column op value
      key)
    (hIndex : column.columnIndex = index)
    (hNull : row index = .null) :
    evaluate row candidate = .ok .null := by
  rcases asColumnComparison_some hAbsorbed.matched with
    ⟨hOp, rfl | rfl⟩
  · rw [evaluate_bounding hOp (evaluate_column hIndex) rfl,
      hNull]
    exact if_pos (.inl rfl)
  · rw [evaluate_bounding (isBounding_mirrored hOp) rfl
      (evaluate_column hIndex), hNull]
    exact if_pos (.inr rfl)

--
-- The Range
--

variable {range : KeyRange Key}

omit [FloatArithmetic] [KeyTexts] in
/- Above the keys of NULL there is nothing to leave out. -/
theorem contains_anchored
    (hItem : smallestValueKey ≤ item) :
    (anchored range).Contains item ↔ range.Contains item := by
  unfold anchored
  split
  · rename_i hLow
    refine and_congr ?_ Iff.rfl
    constructor
    · intro _ low hSome
      rw [hLow] at hSome
      cases hSome
    · intro _ low hSome
      cases hSome
      exact hItem
  · exact Iff.rfl

omit [FloatArithmetic] [KeyTexts] in
theorem anchored_null
    (hAbove : AboveNull range) :
    ¬ (anchored range).Contains nullKey := by
  have hNull : nullKey < smallestValueKey :=
    List.Lex.rel (by decide)
  unfold anchored
  split
  · exact fun hContains =>
      hNull.not_ge (hContains.1 _ rfl)
  · rename_i low hLow
    intro hContains
    have hFrom := hContains.1 low hLow
    have hBound : low ≤ nullKey := by
      split at hFrom
      · exact hFrom
      · exact le_of_lt hFrom
    exact (hNull.trans_le (hAbove low hLow)).not_ge hBound

/-
  The range contains the key of what the column holds, NULL or
  a value of its type, where all the comparisons that were
  absorbed are TRUE of it. The positions of the candidates
  differ, and they are comparisons of one column.
-/
theorem boundsFor_contains
    (candidates : List (Nat × Expression Binary64))
    (dataType : DataType)
    (bounds : IndexBounds)
    (row : Row Binary64 width)
    (index : Fin width)
    (hPositions : (candidates.map Prod.fst).Nodup)
    (hColumn : ∀ entry ∈ candidates, ∀ column op value,
      asColumnComparison entry.2 = some (column, op, value) →
        column.columnIndex = index)
    (hBounds : boundsFor candidates dataType =
      .ok (some bounds))
    (hStored : row index = .null ∨
      Storable dataType (row index)) :
    ∃ item,
      encodeKey (row index) dataType = .ok item ∧
      (bounds.range.Contains item ↔
        ∀ entry ∈ candidates, entry.1 ∈ bounds.absorbed →
          evaluate row entry.2 = .ok (.bool true)) := by
  rcases Library.StateExcept.ok_of_bind hBounds with
    ⟨folded, hFold, hRest⟩
  split at hRest
  · cases hRest
  rename_i hSome
  cases hRest
  rcases absorbAll_contains hFold with
    ⟨hContains, hAbsorbed, hLow⟩
  have hAbove := hLow nofun
  have hEntry : ∀ entry ∈ candidates,
      entry.1 ∈ folded.absorbed ↔
        IsAbsorbed dataType entry.2 := by
    intro entry hMem
    rw [hAbsorbed]
    constructor
    · rintro (hNone | ⟨other, hOther, hSame, hIs⟩)
      · cases hNone
      · rw [List.inj_on_of_nodup_map hPositions hMem hOther
          hSame]
        exact hIs
    · exact fun hIs => .inr ⟨entry, hMem, rfl, hIs⟩
  rcases hStored with hNull | hStored
  · refine ⟨nullKey, by rw [hNull]; rfl, ?_⟩
    refine iff_of_false (anchored_null hAbove) fun hAll => ?_
    rcases List.exists_mem_of_ne_nil folded.absorbed
      (fun hNil => hSome (List.isEmpty_iff.mpr hNil)) with
      ⟨position, hPosition⟩
    rcases (hAbsorbed position).mp hPosition with
      hNone | ⟨entry, hMem, rfl, hIs⟩
    · cases hNone
    · have hTrue := hAll entry hMem hPosition
      rcases hIs with ⟨column, op, value, key, hIs⟩
      rw [evaluate_null hIs
        (hColumn entry hMem _ _ _ hIs.matched) hNull] at hTrue
      cases hTrue
  · refine ⟨_, encodeKey_payload hStored, ?_⟩
    have hItem := encodeKey_payload hStored
    have hAll := hContains (valuePrefix ++ payload (row index))
    rw [and_iff_right (KeyRange.contains_unbounded _ _ _)]
      at hAll
    refine (contains_anchored
      (smallest_le hStored.known hItem)).trans (hAll.trans ?_)
    refine forall_congr' fun entry =>
      forall_congr' fun hMem => ?_
    constructor
    · intro hAdmitted hPosition
      rcases (hEntry entry hMem).mp hPosition with
        ⟨column, op, value, key, hIs⟩
      exact (admits_iff hIs
        (hColumn entry hMem _ _ _ hIs.matched) hStored
          hItem).mp (hAdmitted _ _ _ _ hIs)
    · intro hTrue column op value key hIs
      exact (admits_iff hIs
        (hColumn entry hMem _ _ _ hIs.matched) hStored
          hItem).mpr (hTrue ((hEntry entry hMem).mpr
            ⟨column, op, value, key, hIs⟩))

end Values

/- `x > 3 AND 5 >= x`. -/
def between : List (Nat × Expression Binary64) :=
  [(0, .binaryOp .gt (.column ⟨"x", 0, some 0⟩)
      (.literal (.int 3))),
    (1, .binaryOp .gte (.literal (.int 5))
      (.column ⟨"x", 0, some 0⟩))]

theorem boundsFor_contains_between :
    ∃ (_ : FloatArithmetic) (_ : KeyTexts),
      ∃ bounds item,
        boundsFor between .integer = .ok (some bounds) ∧
        encodeKey (.int 4 : Value Binary64) .integer =
          .ok item ∧
        bounds.range.Contains item := by
  -- Integers alone are compared here.
  let arithmetic : FloatArithmetic :=
    ⟨fun left _ => left, fun left _ => left,
      fun left _ => left, fun left _ => left,
      fun left _ => left, fun _ _ => ⟨0⟩, fun _ => ""⟩
  let texts : KeyTexts :=
    ⟨fun _ => "", fun _ _ => "", fun _ => ""⟩
  refine ⟨arithmetic, texts, ?_⟩
  have hBounds : boundsFor between .integer =
      .ok (some _) := rfl
  have hColumn : ∀ entry ∈ between, ∀ column op value,
      asColumnComparison entry.2 = some (column, op, value) →
        column.columnIndex = (0 : Fin 1) := by
    intro entry hMem column op value hMatch
    rcases List.mem_pair.mp hMem with rfl | rfl
    · cases hMatch
      rfl
    · cases hMatch
      rfl
  rcases boundsFor_contains between .integer _
    (fun _ => .int 4) 0 (by decide) hColumn hBounds
    (.inr (.integer (by decide) (by decide))) with
    ⟨item, hItem, hContains⟩
  refine ⟨_, item, hBounds, hItem, hContains.mpr ?_⟩
  intro entry hMem _
  rcases List.mem_pair.mp hMem with rfl | rfl
  · rfl
  · rfl

end Planner

end ChenDB
