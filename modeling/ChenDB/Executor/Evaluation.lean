import ChenDB.Executor.Expression
import ChenDB.Library.StateExcept

/-
  What an evaluation depends on, and what an expression that
  evaluates came through.
-/

namespace ChenDB

namespace Executor

open Library.StateExcept (ok_of_bind)

variable {φ : Type} [Double φ]

--
-- Evaluating the Same
--

section Congruence

variable {width width' : Nat}
variable {row : Row φ width} {row' : Row φ width'}

variable {operand operand' : Expression φ}

/- Each node once its operands are known. -/
theorem evaluate_unaryOp
    (op : UnaryOperator)
    (hOperand : evaluate row operand = evaluate row' operand') :
    evaluate row (.unaryOp op operand) =
      evaluate row' (.unaryOp op operand') := by
  simp only [evaluate, hOperand]

theorem evaluate_binaryOp
    (op : BinaryOperator)
    {left left' right right' : Expression φ}
    (hLeft : evaluate row left = evaluate row' left')
    (hRight : evaluate row right = evaluate row' right') :
    evaluate row (.binaryOp op left right) =
      evaluate row' (.binaryOp op left' right') := by
  cases op <;> simp only [evaluate, hLeft, hRight]

theorem evaluate_isNullTest
    (negated : Bool)
    (hOperand : evaluate row operand = evaluate row' operand') :
    evaluate row (.isNullTest operand negated) =
      evaluate row' (.isNullTest operand' negated) := by
  simp only [evaluate, hOperand]

theorem evaluate_inList
    (negated : Bool)
    {items items' : Items φ}
    (hOperand : evaluate row operand = evaluate row' operand')
    (hItems : ∀ value unknown,
      evaluateItems row value unknown negated items =
        evaluateItems row' value unknown negated items') :
    evaluate row (.inList operand items negated) =
      evaluate row' (.inList operand' items' negated) := by
  simp only [evaluate, hOperand, hItems]

variable {item item' : Expression φ}

/- The items of a list, one by one. -/
theorem evaluateItems_one
    (value : Value φ)
    (unknown negated : Bool)
    (hItem : evaluate row item = evaluate row' item') :
    evaluateItems row value unknown negated (.one item) =
      evaluateItems row' value unknown negated
        (.one item') := by
  simp only [evaluateItems, hItem]

theorem evaluateItems_more
    (value : Value φ)
    (unknown negated : Bool)
    {rest rest' : Items φ}
    (hItem : evaluate row item = evaluate row' item')
    (hRest : ∀ unknown,
      evaluateItems row value unknown negated rest =
        evaluateItems row' value unknown negated rest') :
    evaluateItems row value unknown negated
        (.more item rest) =
      evaluateItems row' value unknown negated
        (.more item' rest') := by
  simp only [evaluateItems, hItem, hRest]

end Congruence

--
-- Results
--

section Results

variable {width : Nat} {row : Row φ width}
variable {left right : Expression φ} {value : Value φ}

variable {op : BinaryOperator}

/- Every operator but `AND` and `OR` evaluates both of its
   operands, and comes to NULL when one does. -/
theorem evaluate_strict
    (hOp : op.isLogical = false)
    (left right : Expression φ) :
    evaluate row (.binaryOp op left right) = (do
      let left ← evaluate row left
      let right ← evaluate row right
      if left.isNull ∨ right.isNull then pure .null
      else binaryValue op left right) := by
  cases op
  case and => cases hOp
  case or => cases hOp
  all_goals simp only [evaluate]

variable {what : String}

omit [Double φ] in
/- A condition is a boolean or NULL. -/
theorem condition_ok
    {value : Value φ}
    {known : Option Bool}
    (hOk : condition value what = .ok known) :
    value = ofOption known := by
  cases value with
  | bool value =>
    cases hOk
    rfl
  | null =>
    cases hOk
    rfl
  | int value => cases hOk
  | float value => cases hOk
  | text value => cases hOk

/- The second operand of `AND` or `OR`, and what is made of
   it. -/
theorem second_known
    {last : Option Bool → Except EngineError (Value φ)}
    (hOk : (do
      let second ← evaluate row right
      let second ← condition second what
      last second) = .ok value)
    (hLast : ∀ second, ∃ known,
      last second = .ok (ofOption known)) :
    ∃ known, value = ofOption known := by
  rcases ok_of_bind hOk with ⟨after, _, hRest⟩
  rcases ok_of_bind hRest with ⟨second, _, hValue⟩
  rcases hLast second with ⟨known, hKnown⟩
  rw [hKnown] at hValue
  cases hValue
  exact ⟨known, rfl⟩

/- What `AND` or `OR` comes to is a condition itself. -/
theorem logical_known
    (hOp : op.isLogical = true)
    (hOk : evaluate row (.binaryOp op left right) = .ok value) :
    ∃ known, value = ofOption known := by
  cases op
  case and =>
    simp only [evaluate] at hOk
    rcases ok_of_bind hOk with ⟨before, _, hRest⟩
    rcases ok_of_bind hRest with ⟨first, _, hLast⟩
    rcases first with _ | _ | _
    · refine second_known hLast fun second => ?_
      rcases second with _ | _ | _
      · exact ⟨none, rfl⟩
      · exact ⟨some false, rfl⟩
      · exact ⟨none, rfl⟩
    · cases hLast
      exact ⟨some false, rfl⟩
    · refine second_known hLast fun second => ?_
      rcases second with _ | _ | _
      · exact ⟨none, rfl⟩
      · exact ⟨some false, rfl⟩
      · exact ⟨some true, rfl⟩
  case or =>
    simp only [evaluate] at hOk
    rcases ok_of_bind hOk with ⟨before, _, hRest⟩
    rcases ok_of_bind hRest with ⟨first, _, hLast⟩
    rcases first with _ | _ | _
    · refine second_known hLast fun second => ?_
      rcases second with _ | _ | _
      · exact ⟨none, rfl⟩
      · exact ⟨none, rfl⟩
      · exact ⟨some true, rfl⟩
    · refine second_known hLast fun second => ?_
      rcases second with _ | _ | _
      · exact ⟨none, rfl⟩
      · exact ⟨some false, rfl⟩
      · exact ⟨some true, rfl⟩
    · cases hLast
      exact ⟨some true, rfl⟩
  all_goals cases hOp

/- So is what an `IN` list comes to. -/
theorem evaluateItems_known
    {negated : Bool}
    {sought : Value φ} :
    (items : Items φ) →
    (unknown : Bool) →
    evaluateItems row sought unknown negated items = .ok value →
    ∃ known, value = ofOption known
  | .one item, unknown, hOk => by
      simp only [evaluateItems] at hOk
      rcases ok_of_bind hOk with ⟨candidate, _, hRest⟩
      rcases ok_of_bind hRest with
        ⟨⟨found, after⟩, _, hLast⟩
      cases found with
      | true =>
        cases hLast
        exact ⟨some (!negated), rfl⟩
      | false =>
        cases after with
        | true =>
          cases hLast
          exact ⟨none, rfl⟩
        | false =>
          cases hLast
          exact ⟨some negated, rfl⟩
  | .more item rest, unknown, hOk => by
      simp only [evaluateItems] at hOk
      rcases ok_of_bind hOk with ⟨candidate, _, hRest⟩
      rcases ok_of_bind hRest with
        ⟨⟨found, after⟩, _, hLast⟩
      cases found with
      | true =>
        cases hLast
        exact ⟨some (!negated), rfl⟩
      | false => exact evaluateItems_known rest after hLast

end Results

end Executor

end ChenDB
