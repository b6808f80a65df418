import Mathlib.Data.Finset.NAry
import ChenDB.Executor.Evaluation
import ChenDB.Executor.Rational

/-
  Proving that a predicate cannot be TRUE once the columns of
  some tables are all NULL, by evaluating it over sets of
  possible outcomes.
-/

--
-- Outcomes
--

namespace ChenDB

namespace Optimizer

open Executor (BinaryOperator BoundColumnRef Double Expression
  Items Row Value condition_ok evaluate_strict)
open Library.StateExcept (ok_of_bind)

/- One of the three results of SQL. -/
inductive Verdict where
  | true
  | false
  | unknown
deriving DecidableEq, Repr

/- Which results an expression could produce. -/
abbrev Truth := Finset Verdict

/- No information. -/
def anyTruth : Truth := {.true, .false, .unknown}

/- NULL, as the truth value it has in a condition. -/
def nullTruth : Truth := {.unknown}

namespace Verdict

def and : Verdict → Verdict → Verdict
  | .true, .true => .true
  | .true, .false => .false
  | .true, .unknown => .unknown
  | .false, _ => .false
  | .unknown, .false => .false
  | .unknown, _ => .unknown

def or : Verdict → Verdict → Verdict
  | .true, _ => .true
  | .false, .true => .true
  | .false, .false => .false
  | .false, .unknown => .unknown
  | .unknown, .true => .true
  | .unknown, _ => .unknown

def not : Verdict → Verdict
  | .true => .false
  | .false => .true
  | .unknown => .unknown

end Verdict

/- A truth table applied pointwise to sets of outcomes. -/
def combine
    (table : Verdict → Verdict → Verdict)
    (left right : Truth) : Truth :=
  Finset.image₂ table left right

variable {φ : Type}

mutual

/- Every result an expression could produce with the sources
   all NULL. -/
def truthOf (sources : Finset Nat) : Expression φ → Truth
  | .literal (.bool value) =>
    if value then {.true} else {.false}
  | .literal .null => nullTruth
  | .literal _ => anyTruth
  | .isNullTest operand negated =>
    if definitelyNull sources operand then
      if negated then {.false} else {.true}
    else {.true, .false}
  | .unaryOp .not operand =>
    (truthOf sources operand).image Verdict.not
  | .unaryOp _ _ => anyTruth
  | .binaryOp .and left right =>
    combine .and (truthOf sources left)
      (truthOf sources right)
  | .binaryOp .or left right =>
    combine .or (truthOf sources left)
      (truthOf sources right)
  | .binaryOp operator left right =>
    if operator.isComparison ∧
        (definitelyNull sources left ∨
          definitelyNull sources right) then
      nullTruth
    else anyTruth
  | .inList operand items _ =>
    if definitelyNull sources operand then nullTruth
    else if allNull sources items then nullTruth
    else anyTruth
  | .column column =>
    if column.scanPosition.any (· ∈ sources) then nullTruth
    else anyTruth
  | .refused _ => anyTruth

/- Is the expression NULL for certain? -/
def definitelyNull
    (sources : Finset Nat) : Expression φ → Bool
  | .literal .null => true
  | .literal _ => false
  | .column column => column.scanPosition.any (· ∈ sources)
  | .unaryOp .not operand =>
    (truthOf sources operand).image Verdict.not = nullTruth
  | .unaryOp _ operand => definitelyNull sources operand
  | .binaryOp .and left right =>
    combine .and (truthOf sources left)
      (truthOf sources right) = nullTruth
  | .binaryOp .or left right =>
    combine .or (truthOf sources left)
      (truthOf sources right) = nullTruth
  | .binaryOp operator left right =>
    if operator.isComparison then
      (if definitelyNull sources left ∨
          definitelyNull sources right then
        nullTruth
      else anyTruth) = nullTruth
    else
      definitelyNull sources left ||
        definitelyNull sources right
  | .isNullTest _ _ => false
  | .inList _ _ _ => false
  | .refused _ => false

def allNull (sources : Finset Nat) : Items φ → Bool
  | .one item => definitelyNull sources item
  | .more item rest =>
    definitelyNull sources item && allNull sources rest

end

/- The conjunction of the predicates, taken in order, with
   nothing left to add once it is FALSE. -/
def conjunction
    (sources : Finset Nat)
    (outcome : Truth) : List (Expression φ) → Truth
  | [] => outcome
  | predicate :: rest =>
    let outcome :=
      combine .and outcome (truthOf sources predicate)
    if outcome = {.false} then outcome
    else conjunction sources outcome rest

/- Can the conjunction of the predicates never be TRUE? -/
def rejectsNulls
    (predicates : List (Expression φ))
    (sources : Finset Nat) : Bool :=
  .true ∉ conjunction sources {.true} predicates

--
-- Soundness
--

/- The column references of an expression. -/
mutual

def references : Expression φ → List BoundColumnRef
  | .literal _ => []
  | .column column => [column]
  | .isNullTest operand _ => references operand
  | .inList operand items _ =>
    references operand ++ itemReferences items
  | .unaryOp _ operand => references operand
  | .binaryOp _ left right =>
    references left ++ references right
  | .refused _ => []

def itemReferences : Items φ → List BoundColumnRef
  | .one item => references item
  | .more item rest =>
    references item ++ itemReferences rest

end

/- Every reference to a source reads a NULL. -/
def Blank {width : Nat}
    (sources : Finset Nat)
    (row : Row φ width)
    (columns : List BoundColumnRef) : Prop :=
  ∀ column ∈ columns,
    column.scanPosition.any (· ∈ sources) = true →
      ∀ hIndex : column.columnIndex < width,
        row ⟨column.columnIndex, hIndex⟩ = .null

/- A value is among the outcomes; one that is no verdict
   leaves them open. -/
def Allows (truth : Truth) : Value φ → Prop
  | .null => .unknown ∈ truth
  | .bool true => .true ∈ truth
  | .bool false => .false ∈ truth
  | _ => truth = anyTruth

section Outcomes

theorem allows_any (value : Value φ) :
    Allows anyTruth value := by
  unfold Allows
  split <;> simp [anyTruth]

theorem allows_null :
    Allows nullTruth (Value.null : Value φ) := by
  simp [Allows, nullTruth]

theorem null_of_allows
    {value : Value φ}
    (hAllows : Allows nullTruth value) :
    value = .null := by
  have hOpen : nullTruth ≠ anyTruth := by decide
  cases value with
  | null => rfl
  | bool value =>
    cases value with
    | true => simp [Allows, nullTruth] at hAllows
    | false => simp [Allows, nullTruth] at hAllows
  | int value => exact absurd hAllows hOpen
  | float value => exact absurd hAllows hOpen
  | text value => exact absurd hAllows hOpen

theorem not_sound
    {truth : Truth}
    {known : Bool}
    (hAllows : Allows truth (.bool known : Value φ)) :
    Allows (truth.image Verdict.not)
      (.bool (!known) : Value φ) := by
  cases known with
  | true => exact Finset.mem_image.mpr ⟨.true, hAllows, rfl⟩
  | false =>
    exact Finset.mem_image.mpr ⟨.false, hAllows, rfl⟩

end Outcomes

section Strict

theorem truthOf_strict
    {op : BinaryOperator}
    (hOp : op.isLogical = false)
    (sources : Finset Nat)
    (left right : Expression φ) :
    truthOf sources (.binaryOp op left right) =
      if op.isComparison ∧
          (definitelyNull sources left ∨
            definitelyNull sources right) then nullTruth
      else anyTruth := by
  cases op
  case and => cases hOp
  case or => cases hOp
  all_goals simp only [truthOf]

theorem definitelyNull_strict
    {op : BinaryOperator}
    (hOp : op.isLogical = false)
    {sources : Finset Nat}
    {left right : Expression φ}
    (hNull : definitelyNull sources
      (.binaryOp op left right) = true) :
    definitelyNull sources left = true ∨
      definitelyNull sources right = true := by
  have hOpen : anyTruth ≠ nullTruth := by decide
  cases op
  case and => cases hOp
  case or => cases hOp
  all_goals
    simp only [definitelyNull, BinaryOperator.isComparison,
      if_true, Bool.false_eq_true, if_false,
      decide_eq_true_eq, Bool.or_eq_true] at hNull
    first
      | exact hNull
      | (by_contra hNeither
         rw [if_neg hNeither] at hNull
         exact hOpen hNull)

end Strict

def verdictOf : Option Bool → Verdict
  | none => .unknown
  | some true => .true
  | some false => .false

theorem allows_ofOption
    {truth : Truth}
    {known : Option Bool} :
    Allows truth (Executor.ofOption known : Value φ) ↔
      verdictOf known ∈ truth := by
  rcases known with _ | value
  · rfl
  · cases value <;> rfl

section Logical

variable [Double φ] {width : Nat} {row : Row φ width}
variable {left right : Expression φ} {value : Value φ}

/- What a connective that evaluates went through: its value
   is settled by its first operand, or by both. -/
def Combined
    (row : Row φ width)
    (table : Verdict → Verdict → Verdict)
    (left right : Expression φ)
    (value : Value φ) : Prop :=
  ∃ first result,
    Executor.evaluate row left =
        .ok (Executor.ofOption first) ∧
      value = Executor.ofOption result ∧
      ((∀ other, verdictOf result =
          table (verdictOf first) other) ∨
        ∃ second, Executor.evaluate row right =
            .ok (Executor.ofOption second) ∧
          verdictOf result = table (verdictOf first)
            (verdictOf second))

theorem combined_of_both
    {table : Verdict → Verdict → Verdict}
    {what : String}
    {first : Option Bool}
    {last : Option Bool → Except EngineError (Value φ)}
    (hLeft : Executor.evaluate row left =
      .ok (Executor.ofOption first))
    (hOk : (do
      let second ← Executor.evaluate row right
      let second ← Executor.condition second what
      last second) = .ok value)
    (hLast : ∀ second, ∃ result,
      last second = .ok (Executor.ofOption result) ∧
        verdictOf result = table (verdictOf first)
          (verdictOf second)) :
    Combined row table left right value := by
  rcases ok_of_bind hOk with ⟨after, hRight, hRest⟩
  rcases ok_of_bind hRest with ⟨second, hCondition, hValue⟩
  rw [condition_ok hCondition] at hRight
  rcases hLast second with ⟨result, hResult, hTable⟩
  rw [hResult, Except.ok.injEq] at hValue
  exact ⟨first, result, hLeft, hValue.symm,
    .inr ⟨second, hRight, hTable⟩⟩

theorem and_combined
    (hOk : Executor.evaluate row (.binaryOp .and left right) =
      .ok value) :
    Combined row .and left right value := by
  simp only [Executor.evaluate] at hOk
  rcases ok_of_bind hOk with ⟨before, hLeft, hRest⟩
  rcases ok_of_bind hRest with ⟨first, hFirst, hLast⟩
  rw [condition_ok hFirst] at hLeft
  rcases first with _ | _ | _
  · apply combined_of_both hLeft hLast
    rintro (_ | _ | _)
    · exact ⟨none, rfl, rfl⟩
    · exact ⟨some false, rfl, rfl⟩
    · exact ⟨none, rfl, rfl⟩
  · cases hLast
    exact ⟨_, some false, hLeft, rfl, .inl fun _ => rfl⟩
  · apply combined_of_both hLeft hLast
    rintro (_ | _ | _)
    · exact ⟨none, rfl, rfl⟩
    · exact ⟨some false, rfl, rfl⟩
    · exact ⟨some true, rfl, rfl⟩

theorem or_combined
    (hOk : Executor.evaluate row (.binaryOp .or left right) =
      .ok value) :
    Combined row .or left right value := by
  simp only [Executor.evaluate] at hOk
  rcases ok_of_bind hOk with ⟨before, hLeft, hRest⟩
  rcases ok_of_bind hRest with ⟨first, hFirst, hLast⟩
  rw [condition_ok hFirst] at hLeft
  rcases first with _ | _ | _
  · apply combined_of_both hLeft hLast
    rintro (_ | _ | _)
    · exact ⟨none, rfl, rfl⟩
    · exact ⟨none, rfl, rfl⟩
    · exact ⟨some true, rfl, rfl⟩
  · apply combined_of_both hLeft hLast
    rintro (_ | _ | _)
    · exact ⟨none, rfl, rfl⟩
    · exact ⟨some false, rfl, rfl⟩
    · exact ⟨some true, rfl, rfl⟩
  · cases hLast
    exact ⟨_, some true, hLeft, rfl, .inl fun _ => rfl⟩

end Logical

theorem logical_cases
    {op : BinaryOperator}
    (hOp : op.isLogical = true) :
    op = .and ∨ op = .or := by
  cases op
  case and => exact .inl rfl
  case or => exact .inr rfl
  all_goals cases hOp

theorem nonempty_ite
    (p : Prop)
    [Decidable p] :
    (if p then nullTruth else anyTruth).Nonempty := by
  split
  · exact ⟨.unknown, by simp [nullTruth]⟩
  · exact ⟨.true, by simp [anyTruth]⟩

/- Some outcome is always possible. -/
theorem truthOf_nonempty
    (sources : Finset Nat) :
    (expression : Expression φ) →
      (truthOf sources expression).Nonempty
  | .column column => by
      rw [truthOf]
      exact nonempty_ite _
  | .literal value => by
      cases value with
      | bool value =>
        cases value <;> simp [truthOf]
      | null => simp [truthOf, nullTruth]
      | int value => simp [truthOf, anyTruth]
      | float value => simp [truthOf, anyTruth]
      | text value => simp [truthOf, anyTruth]
  | .isNullTest operand negated => by
      rw [truthOf]
      split
      · split <;> simp
      · simp
  | .inList operand items negated => by
      rw [truthOf]
      split
      · simp [nullTruth]
      · exact nonempty_ite _
  | .unaryOp op operand => by
      cases op with
      | not =>
        rw [truthOf]
        exact (truthOf_nonempty sources operand).image _
      | negate => simp [truthOf, anyTruth]
      | plus => simp [truthOf, anyTruth]
  | .binaryOp op left right => by
      have hLeft := truthOf_nonempty sources left
      have hRight := truthOf_nonempty sources right
      cases hOp : op.isLogical with
      | false =>
        rw [truthOf_strict hOp]
        exact nonempty_ite _
      | true =>
        rcases logical_cases hOp with hAnd | hOr
        · rw [hAnd, truthOf]
          exact hLeft.image₂ hRight
        · rw [hOr, truthOf]
          exact hLeft.image₂ hRight
  | .refused nodeType => by
      simp [truthOf, anyTruth]

section Soundness

variable [Double φ] {width : Nat} {row : Row φ width}
variable {sources : Finset Nat}

omit [Double φ] in
theorem Blank.left
    {left right : List BoundColumnRef}
    (hBlank : Blank sources row (left ++ right)) :
    Blank sources row left :=
  fun column hMem =>
    hBlank column (List.mem_append_left _ hMem)

omit [Double φ] in
theorem Blank.right
    {left right : List BoundColumnRef}
    (hBlank : Blank sources row (left ++ right)) :
    Blank sources row right :=
  fun column hMem =>
    hBlank column (List.mem_append_right _ hMem)

theorem column_sound
    {column : BoundColumnRef}
    (hBlank : Blank sources row [column])
    {value : Value φ}
    (hOk : Executor.evaluate row (.column column) = .ok value)
    (hSource :
      column.scanPosition.any (· ∈ sources) = true) :
    value = .null := by
  simp only [Executor.evaluate] at hOk
  split at hOk
  · rename_i hIndex
    cases hOk
    exact hBlank column (.head _) hSource hIndex
  · cases hOk

theorem strict_null
    {op : BinaryOperator}
    (hOp : op.isLogical = false)
    {left right : Expression φ}
    {value : Value φ}
    (hOk : Executor.evaluate row (.binaryOp op left right) =
      .ok value)
    (hLeft : ∀ first, Executor.evaluate row left = .ok first →
      definitelyNull sources left = true → first = .null)
    (hRight : ∀ second,
      Executor.evaluate row right = .ok second →
        definitelyNull sources right = true →
          second = .null)
    (hNull : definitelyNull sources left = true ∨
      definitelyNull sources right = true) :
    value = .null := by
  rw [evaluate_strict hOp] at hOk
  rcases ok_of_bind hOk with ⟨first, hFirst, hRest⟩
  rcases ok_of_bind hRest with ⟨second, hSecond, hLast⟩
  have hEither : first.isNull = true ∨
      second.isNull = true := by
    rcases hNull with hSource | hSource
    · left
      rw [hLeft first hFirst hSource]
      rfl
    · right
      rw [hRight second hSecond hSource]
      rfl
  rw [if_pos hEither] at hLast
  cases hLast
  rfl

/- An item of an `IN` list that cannot match. -/
theorem matchItem_null
    {value candidate : Value φ}
    {unknown found after : Bool}
    (hOk : Executor.matchItem value unknown candidate =
      .ok (found, after))
    (hNull : unknown = true ∨ candidate = .null) :
    found = false ∧ after = true := by
  have hEither : candidate.isNull = true ∨
      unknown = true := by
    rcases hNull with hUnknown | hSource
    · exact .inr hUnknown
    · left
      rw [hSource]
      rfl
  unfold Executor.matchItem at hOk
  rw [if_pos hEither] at hOk
  cases hOk
  exact ⟨rfl, rfl⟩

theorem Combined.allows
    {table : Verdict → Verdict → Verdict}
    {left right : Expression φ}
    {value : Value φ}
    (hCombined : Combined row table left right value)
    {truth other : Truth}
    (hLeft : ∀ first, Executor.evaluate row left = .ok first →
      Allows truth first)
    (hRight : ∀ second,
      Executor.evaluate row right = .ok second →
        Allows other second)
    (hOther : other.Nonempty) :
    Allows (combine table truth other) value := by
  rcases hCombined with
    ⟨first, result, hFirst, hValue, hSettled | ⟨second, hSecond, hTable⟩⟩
  · rcases hOther with ⟨verdict, hVerdict⟩
    rw [hValue, allows_ofOption, hSettled verdict]
    exact Finset.mem_image₂_of_mem
      (allows_ofOption.mp (hLeft _ hFirst)) hVerdict
  · rw [hValue, allows_ofOption, hTable]
    exact Finset.mem_image₂_of_mem
      (allows_ofOption.mp (hLeft _ hFirst))
      (allows_ofOption.mp (hRight _ hSecond))

omit [Double φ] in
theorem logical_null
    {truth : Truth}
    (hNull : truth = nullTruth)
    {value : Value φ}
    (hAllows : Allows truth value) :
    value = .null := by
  rw [hNull] at hAllows
  exact null_of_allows hAllows

/-
  Whatever an expression evaluates to is among the outcomes
  found for it, and is NULL where that was called certain.
-/
mutual

theorem truthOf_sound :
    (expression : Expression φ) →
    Blank sources row (references expression) →
    (value : Value φ) →
    Executor.evaluate row expression = .ok value →
      Allows (truthOf sources expression) value ∧
        (definitelyNull sources expression = true →
          value = .null)
  | .literal literal, _, value, hOk => by
      simp only [Executor.evaluate, Except.ok.injEq] at hOk
      rw [← hOk]
      cases literal with
      | bool known =>
        cases known <;>
          simp [truthOf, definitelyNull, Allows]
      | null => simp [truthOf, Allows, nullTruth]
      | int known =>
        simp [truthOf, definitelyNull, Allows]
      | float known =>
        simp [truthOf, definitelyNull, Allows]
      | text known =>
        simp [truthOf, definitelyNull, Allows]
  | .column column, hBlank, value, hOk => by
      rw [references] at hBlank
      have hNull := column_sound hBlank hOk
      rw [truthOf, definitelyNull]
      refine ⟨?_, hNull⟩
      split
      · rename_i hSource
        rw [hNull hSource]
        exact allows_null
      · exact allows_any value
  | .isNullTest operand negated, hBlank, value, hOk => by
      rw [references] at hBlank
      simp only [Executor.evaluate] at hOk
      rcases ok_of_bind hOk with ⟨seen, hSeen, hRest⟩
      have hOperand := truthOf_sound operand hBlank seen hSeen
      cases hRest
      rw [truthOf, definitelyNull]
      refine ⟨?_, by simp⟩
      split
      · rename_i hSource
        rw [hOperand.2 hSource]
        cases negated <;> simp [Allows, Value.isNull]
      · cases negated <;> cases seen.isNull <;> simp [Allows]
  | .inList operand items negated, hBlank, value, hOk => by
      rw [references] at hBlank
      simp only [Executor.evaluate] at hOk
      rcases ok_of_bind hOk with ⟨seen, hSeen, hRest⟩
      have hOperand :=
        truthOf_sound operand hBlank.left seen hSeen
      have hItems := items_sound items hBlank.right value seen
        seen.isNull negated hRest
      rw [truthOf, definitelyNull]
      refine ⟨?_, by simp⟩
      split
      · rename_i hSource
        rw [hItems (.inl (by rw [hOperand.2 hSource]; rfl))]
        exact allows_null
      · split
        · rename_i hAll
          rw [hItems (.inr hAll)]
          exact allows_null
        · exact allows_any value
  | .unaryOp op operand, hBlank, value, hOk => by
      rw [references] at hBlank
      simp only [Executor.evaluate] at hOk
      rcases ok_of_bind hOk with ⟨seen, hSeen, hRest⟩
      have hOperand := truthOf_sound operand hBlank seen hSeen
      cases op with
      | not =>
        have hAllows : Allows
            ((truthOf sources operand).image Verdict.not)
              value := by
          cases seen with
          | null =>
            cases hRest
            exact Finset.mem_image.mpr
              ⟨.unknown, hOperand.1, rfl⟩
          | bool known =>
            cases hRest
            exact not_sound hOperand.1
          | int known => cases hRest
          | float known => cases hRest
          | text known => cases hRest
        rw [truthOf, definitelyNull]
        exact ⟨hAllows, fun hNull =>
          logical_null (of_decide_eq_true hNull) hAllows⟩
      | negate =>
        rw [truthOf, definitelyNull]
        · refine ⟨allows_any value, fun hSource => ?_⟩
          rw [hOperand.2 hSource] at hRest
          cases hRest
          rfl
        · simp
        · simp
      | plus =>
        rw [truthOf, definitelyNull]
        · refine ⟨allows_any value, fun hSource => ?_⟩
          rw [hOperand.2 hSource] at hRest
          cases hRest
          rfl
        · simp
        · simp
  | .binaryOp op left right, hBlank, value, hOk => by
      rw [references] at hBlank
      have hLeft := truthOf_sound left hBlank.left
      have hRight := truthOf_sound right hBlank.right
      cases hOp : op.isLogical with
      | false =>
        have hStrict := strict_null hOp hOk
          (fun first hFirst => (hLeft first hFirst).2)
          (fun second hSecond => (hRight second hSecond).2)
        rw [truthOf_strict hOp]
        constructor
        · split
          · rename_i hSource
            rw [hStrict hSource.2]
            exact allows_null
          · exact allows_any value
        · exact fun hNull =>
            hStrict (definitelyNull_strict hOp hNull)
      | true =>
        rcases logical_cases hOp with hAnd | hOr
        · subst hAnd
          have hAllows := (and_combined hOk).allows
            (fun first hFirst => (hLeft first hFirst).1)
            (fun second hSecond => (hRight second hSecond).1)
            (truthOf_nonempty sources right)
          rw [truthOf, definitelyNull]
          exact ⟨hAllows, fun hNull =>
            logical_null (of_decide_eq_true hNull) hAllows⟩
        · subst hOr
          have hAllows := (or_combined hOk).allows
            (fun first hFirst => (hLeft first hFirst).1)
            (fun second hSecond => (hRight second hSecond).1)
            (truthOf_nonempty sources right)
          rw [truthOf, definitelyNull]
          exact ⟨hAllows, fun hNull =>
            logical_null (of_decide_eq_true hNull) hAllows⟩
  | .refused nodeType, _, value, hOk => by
      simp only [Executor.evaluate] at hOk
      cases hOk

theorem items_sound :
    (items : Items φ) →
    Blank sources row (itemReferences items) →
    (value seen : Value φ) →
    (unknown negated : Bool) →
    Executor.evaluateItems row seen unknown negated items =
      .ok value →
    unknown = true ∨ allNull sources items = true →
      value = .null
  | .one item, hBlank, value, seen, unknown, negated, hOk,
      hNull => by
      rw [itemReferences] at hBlank
      simp only [Executor.evaluateItems] at hOk
      rcases ok_of_bind hOk with ⟨candidate, hItem, hNext⟩
      rcases ok_of_bind hNext with
        ⟨⟨found, after⟩, hMatch, hRest⟩
      have hSound := truthOf_sound item hBlank candidate hItem
      rcases matchItem_null hMatch (hNull.imp_right hSound.2)
        with ⟨hFound, hAfter⟩
      rw [hFound, hAfter] at hRest
      cases hRest
      rfl
  | .more item rest, hBlank, value, seen, unknown, negated,
      hOk, hNull => by
      rw [itemReferences] at hBlank
      simp only [Executor.evaluateItems] at hOk
      rcases ok_of_bind hOk with ⟨candidate, hItem, hNext⟩
      rcases ok_of_bind hNext with
        ⟨⟨found, after⟩, hMatch, hRest⟩
      have hSound :=
        truthOf_sound item hBlank.left candidate hItem
      have hFirst : unknown = true ∨
          definitelyNull sources item = true := by
        rcases hNull with hUnknown | hAll
        · exact .inl hUnknown
        · rw [allNull, Bool.and_eq_true] at hAll
          exact .inr hAll.1
      rcases matchItem_null hMatch
        (hFirst.imp_right hSound.2) with ⟨hFound, hAfter⟩
      rw [hFound, hAfter] at hRest
      exact items_sound rest hBlank.right value seen true
        negated hRest (.inl rfl)

end

end Soundness

--
-- Conjunctions
--

/- A conjunction that cannot be TRUE has a part that cannot. -/
theorem true_mem_conjunction
    {sources : Finset Nat}
    {predicates : List (Expression φ)}
    (hAll : ∀ predicate ∈ predicates,
      .true ∈ truthOf sources predicate)
    {outcome : Truth}
    (hOutcome : .true ∈ outcome) :
    .true ∈ conjunction sources outcome predicates := by
  induction predicates generalizing outcome with
  | nil => exact hOutcome
  | cons predicate rest ih =>
    have hBoth : .true ∈ combine .and outcome
        (truthOf sources predicate) :=
      Finset.mem_image₂.mpr
        ⟨.true, hOutcome, .true,
          hAll predicate (.head _), rfl⟩
    unfold conjunction
    simp only
    split
    · exact hBoth
    · exact ih (fun later hLater =>
        hAll later (.tail _ hLater)) hBoth

theorem exists_rejecting
    {predicates : List (Expression φ)}
    {sources : Finset Nat}
    (hRejects : rejectsNulls predicates sources = true) :
    ∃ predicate ∈ predicates,
      .true ∉ truthOf sources predicate := by
  by_contra hNone
  simp only [not_exists, not_and, not_not] at hNone
  have hTrue := true_mem_conjunction hNone
    (Finset.mem_singleton_self Verdict.true)
  simp [rejectsNulls, hTrue] at hRejects

/- Some part of a conjunction that rejects NULLs is TRUE of no
   row whose sources are all NULL. -/
theorem rejectsNulls_sound [Double φ]
    {width : Nat}
    {predicates : List (Expression φ)}
    {sources : Finset Nat}
    (hRejects : rejectsNulls predicates sources = true) :
    ∃ predicate ∈ predicates,
      ∀ row : Row φ width,
        Blank sources row (references predicate) →
          Executor.evaluate row predicate ≠
            .ok (.bool true) := by
  rcases exists_rejecting hRejects with ⟨predicate, hMem, hTrue⟩
  refine ⟨predicate, hMem, fun row hBlank hOk => ?_⟩
  exact hTrue (truthOf_sound predicate hBlank _ hOk).1

--
-- The Analysis as a Whole
--

/- What a result is as a condition. A number or a text is no
   condition at all. -/
def truthClass : Value φ → Option Verdict
  | .null => some .unknown
  | .bool true => some .true
  | .bool false => some .false
  | _ => none

theorem mem_of_allows
    {truth : Truth}
    {value : Value φ}
    (hAllows : Allows truth value)
    {verdict : Verdict}
    (hClass : truthClass value = some verdict) :
    verdict ∈ truth := by
  cases value with
  | null =>
    cases hClass
    exact hAllows
  | bool known =>
    cases known with
    | true =>
      cases hClass
      exact hAllows
    | false =>
      cases hClass
      exact hAllows
  | int known => cases hClass
  | float known => cases hClass
  | text known => cases hClass

/- With the sources all NULL, the result of an expression is
   among the outcomes found for it, and NULL where that was
   called certain. -/
theorem nullRejection_sound [Double φ]
    {width : Nat}
    (expression : Expression φ)
    (sources : Finset Nat)
    (row : Row φ width)
    (hBlank : Blank sources row (references expression))
    (value : Value φ)
    (hOk : Executor.evaluate row expression = .ok value) :
    (∀ verdict, truthClass value = some verdict →
      verdict ∈ truthOf sources expression) ∧
    (definitelyNull sources expression = true →
      value = .null) := by
  rcases truthOf_sound expression hBlank value hOk with
    ⟨hAllows, hNull⟩
  exact ⟨fun verdict hClass => mem_of_allows hAllows hClass,
    hNull⟩

/- `a.n = 1 AND b.x = 5`. -/
def bothEqual : Expression Rat :=
  .binaryOp .and
    (.binaryOp .eq
      (.column
        { name := "n"
          columnIndex := 0
          scanPosition := some 0 })
      (.literal (.int 1)))
    (.binaryOp .eq
      (.column
        { name := "x"
          columnIndex := 1
          scanPosition := some 1 })
      (.literal (.int 5)))

/- A row of `a` beside the blank `b`. -/
theorem nullRejection_sound_and :
    truthOf {1} bothEqual = {.unknown, .false} ∧
      Verdict.unknown ∈ truthOf {1} bothEqual := by
  let row : Row Rat 2 :=
    fun index => if index = 0 then .int 1 else .null
  have hBlank :
      Blank {1} row (references bothEqual) := by
    intro column hMem hSource hIndex
    rcases List.mem_cons.mp hMem with rfl | hMem
    · cases hSource
    · rcases List.mem_singleton.mp hMem with rfl
      rfl
  have hSound := nullRejection_sound bothEqual {1} row hBlank
    .null rfl
  exact ⟨by decide, hSound.1 .unknown rfl⟩

end Optimizer

end ChenDB
