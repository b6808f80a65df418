import ChenDB.Executor.Binary64
import ChenDB.Executor.Overflows

/-
  Evaluating at plan time what depends on no row. A subtree
  whose evaluation raises an evaluation error stays as it is,
  to raise when the query runs; an `OverflowError` fails the
  planning, even of a query that would not get to it.
-/

--
-- The Rewrite
--

namespace ChenDB

namespace Optimizer

open Executor (Binary64 Double Expression FloatArithmetic Items
  Overflows Row Value evaluate evaluateItems)

open Library.StateExcept (ok_of_bind)

variable {φ : Type}

mutual

/- Can the expression be evaluated with no row? -/
def isConstant : Expression φ → Bool
  | .literal _ => true
  | .column _ => false
  | .unaryOp _ operand => isConstant operand
  | .binaryOp _ left right =>
    isConstant left && isConstant right
  | .isNullTest operand _ => isConstant operand
  | .inList operand items _ =>
    isConstant operand && allConstant items
  | .refused _ => false

def allConstant : Items φ → Bool
  | .one item => isConstant item
  | .more item rest => isConstant item && allConstant rest

end

/- The empty tuple, as a row. -/
def noRow : Row φ 0 := fun index => index.elim0

def isLiteral : Expression φ → Bool
  | .literal _ => true
  | _ => false

section Fold

variable [Double φ]

/- An evaluation error is caught, to be raised when the query
   runs. An `OverflowError` is not. -/
def tryFold
    (expression : Expression φ) :
    Except EngineError (Expression φ) :=
  if isLiteral expression ∨ ¬ isConstant expression then
    .ok expression
  else
    match evaluate noRow expression with
    | .ok value => .ok (.literal value)
    | .error (.evaluationError _) => .ok expression
    | .error raised => .error raised

mutual

/- Any subtree that does not depend on a row, evaluated. The
   items of an `IN` list are folded and the list is not, and
   neither is a test for NULL. -/
def foldConstantsIn :
    Expression φ → Except EngineError (Expression φ)
  | .literal value => .ok (.literal value)
  | .column column => .ok (.column column)
  | .unaryOp op operand => do
      let inner ← foldConstantsIn operand
      tryFold (.unaryOp op inner)
  | .binaryOp op left right => do
      let newLeft ← foldConstantsIn left
      let newRight ← foldConstantsIn right
      tryFold (.binaryOp op newLeft newRight)
  | .inList operand items negated => do
      let newOperand ← foldConstantsIn operand
      let folded ← foldConstantsInItems items
      pure (.inList newOperand folded negated)
  | .isNullTest operand negated => do
      let inner ← foldConstantsIn operand
      pure (.isNullTest inner negated)
  | .refused nodeType => .ok (.refused nodeType)

def foldConstantsInItems :
    Items φ → Except EngineError (Items φ)
  | .one item => do
      let folded ← foldConstantsIn item
      pure (.one folded)
  | .more item rest => do
      let folded ← foldConstantsIn item
      let others ← foldConstantsInItems rest
      pure (.more folded others)

end

mutual

/- Some operation on constants overflows, needed or not. -/
def FoldOverflows : Expression φ → Prop
  | .literal _ => False
  | .column _ => False
  | .unaryOp op operand =>
    FoldOverflows operand ∨
      isConstant (.unaryOp op operand) = true ∧
        Overflows noRow (.unaryOp op operand)
  | .binaryOp op left right =>
    FoldOverflows left ∨ FoldOverflows right ∨
      isConstant (.binaryOp op left right) = true ∧
        Overflows noRow (.binaryOp op left right)
  | .inList operand items _ =>
    FoldOverflows operand ∨ ItemsFoldOverflow items
  | .isNullTest operand _ => FoldOverflows operand
  | .refused _ => False

def ItemsFoldOverflow : Items φ → Prop
  | .one item => FoldOverflows item
  | .more item rest =>
    FoldOverflows item ∨ ItemsFoldOverflow rest

end

end Fold

--
-- Constants
--

section Constants

variable [Double φ] {width width' : Nat}

mutual

/- A constant comes to the same, or raises the same, on any
   row. -/
theorem evaluate_constant
    (row : Row φ width)
    (row' : Row φ width') :
    (expression : Expression φ) →
    isConstant expression = true →
      evaluate row expression = evaluate row' expression
  | .literal _, _ => rfl
  | .unaryOp op operand, hConstant =>
    Executor.evaluate_unaryOp op
      (evaluate_constant row row' operand hConstant)
  | .binaryOp op left right, hConstant => by
      rcases Bool.and_eq_true_iff.mp hConstant with
        ⟨hLeft, hRight⟩
      exact Executor.evaluate_binaryOp op
        (evaluate_constant row row' left hLeft)
        (evaluate_constant row row' right hRight)
  | .isNullTest operand negated, hConstant =>
    Executor.evaluate_isNullTest negated
      (evaluate_constant row row' operand hConstant)
  | .inList operand items negated, hConstant => by
      rcases Bool.and_eq_true_iff.mp hConstant with
        ⟨hOperand, hItems⟩
      exact Executor.evaluate_inList negated
        (evaluate_constant row row' operand hOperand)
        (fun value unknown =>
          evaluateItems_constant row row' value unknown
            negated items hItems)

theorem evaluateItems_constant
    (row : Row φ width)
    (row' : Row φ width')
    (value : Value φ)
    (unknown negated : Bool) :
    (items : Items φ) →
    allConstant items = true →
      evaluateItems row value unknown negated items =
        evaluateItems row' value unknown negated items
  | .one item, hConstant =>
    Executor.evaluateItems_one value unknown negated
      (evaluate_constant row row' item hConstant)
  | .more item rest, hConstant => by
      rcases Bool.and_eq_true_iff.mp hConstant with
        ⟨hItem, hRest⟩
      exact Executor.evaluateItems_more value unknown negated
        (evaluate_constant row row' item hItem)
        (fun unknown =>
          evaluateItems_constant row row' value unknown
            negated rest hRest)

end

/- Folding one node changes nothing, where it returns. -/
theorem evaluate_tryFold
    (row : Row φ width)
    {expression folded : Expression φ}
    (hFold : tryFold expression = .ok folded) :
    evaluate row folded = evaluate row expression ∧
      isConstant folded = isConstant expression := by
  unfold tryFold at hFold
  split at hFold
  · cases hFold
    exact ⟨rfl, rfl⟩
  · rename_i hBoth
    have hConstant : isConstant expression = true :=
      Decidable.not_not.mp (not_or.mp hBoth).2
    split at hFold
    · rename_i value hValue
      cases hFold
      rw [evaluate_constant row noRow expression hConstant,
        hValue, hConstant]
      exact ⟨rfl, rfl⟩
    · cases hFold
      exact ⟨rfl, rfl⟩
    · cases hFold

mutual

/- On every row, the folded expression comes to the same value
   or raises the same error. -/
theorem evaluate_foldConstantsIn
    (row : Row φ width) :
    (expression : Expression φ) →
    {folded : Expression φ} →
    foldConstantsIn expression = .ok folded →
      evaluate row folded = evaluate row expression ∧
        isConstant folded = isConstant expression
  | .literal _, _, rfl => ⟨rfl, rfl⟩
  | .column _, _, rfl => ⟨rfl, rfl⟩
  | .unaryOp op operand, folded, hFold => by
      rcases ok_of_bind hFold with ⟨inner, hInner, hTry⟩
      have hSame := evaluate_foldConstantsIn row operand hInner
      have hNode := evaluate_tryFold row hTry
      exact ⟨hNode.1.trans
          (Executor.evaluate_unaryOp op hSame.1),
        hNode.2.trans hSame.2⟩
  | .binaryOp op left right, folded, hFold => by
      rcases ok_of_bind hFold with ⟨newLeft, hLeft, hRest⟩
      rcases ok_of_bind hRest with ⟨newRight, hRight, hTry⟩
      have hLeft := evaluate_foldConstantsIn row left hLeft
      have hRight := evaluate_foldConstantsIn row right hRight
      have hNode := evaluate_tryFold row hTry
      refine ⟨hNode.1.trans
        (Executor.evaluate_binaryOp op hLeft.1 hRight.1),
        hNode.2.trans ?_⟩
      simp only [isConstant, hLeft.2, hRight.2]
  | .isNullTest operand negated, folded, hFold => by
      rcases ok_of_bind hFold with ⟨inner, hInner, hDone⟩
      cases hDone
      have hSame := evaluate_foldConstantsIn row operand hInner
      exact ⟨Executor.evaluate_isNullTest negated hSame.1,
        hSame.2⟩
  | .inList operand items negated, folded, hFold => by
      rcases ok_of_bind hFold with ⟨inner, hInner, hRest⟩
      rcases ok_of_bind hRest with ⟨others, hItems, hDone⟩
      cases hDone
      have hSame := evaluate_foldConstantsIn row operand hInner
      have hOthers :=
        evaluateItems_foldConstantsIn row negated items hItems
      refine ⟨Executor.evaluate_inList negated hSame.1
        hOthers.1, ?_⟩
      simp only [isConstant, hSame.2, hOthers.2]
  | .refused _, _, rfl => ⟨rfl, rfl⟩

theorem evaluateItems_foldConstantsIn
    (row : Row φ width)
    (negated : Bool) :
    (items : Items φ) →
    {folded : Items φ} →
    foldConstantsInItems items = .ok folded →
      (∀ value unknown,
        evaluateItems row value unknown negated folded =
          evaluateItems row value unknown negated items) ∧
        allConstant folded = allConstant items
  | .one item, folded, hFold => by
      rcases ok_of_bind hFold with ⟨inner, hInner, hDone⟩
      cases hDone
      have hSame := evaluate_foldConstantsIn row item hInner
      exact ⟨fun value unknown =>
          Executor.evaluateItems_one value unknown negated
            hSame.1, hSame.2⟩
  | .more item rest, folded, hFold => by
      rcases ok_of_bind hFold with ⟨inner, hInner, hRest⟩
      rcases ok_of_bind hRest with ⟨others, hOthers, hDone⟩
      cases hDone
      have hSame := evaluate_foldConstantsIn row item hInner
      have hOthers :=
        evaluateItems_foldConstantsIn row negated rest hOthers
      refine ⟨fun value unknown =>
        Executor.evaluateItems_more value unknown negated
          hSame.1 fun unknown => hOthers.1 value unknown, ?_⟩
      simp only [allConstant, hSame.2, hOthers.2]

end

end Constants

--
-- What Folding Changes
--

section Returns

variable [Double φ]

variable {α β : Type} {first : Except EngineError α}

/- The whole returns where each part does. -/
theorem returns_bind
    {next : α → Except EngineError β}
    {p : Prop}
    (hNext : ∀ inner, first = .ok inner →
      ((∃ value, next inner = .ok value) ↔ p)) :
    (∃ value, (first >>= next) = .ok value) ↔
      (∃ inner, first = .ok inner) ∧ p := by
  constructor
  · rintro ⟨value, hOk⟩
    rcases ok_of_bind hOk with ⟨inner, hFirst, hRest⟩
    exact ⟨⟨inner, hFirst⟩,
      (hNext inner hFirst).mp ⟨value, hRest⟩⟩
  · rintro ⟨⟨inner, hFirst⟩, hRest⟩
    rw [hFirst]
    exact (hNext inner hFirst).mpr hRest

theorem returns_map
    (build : α → β) :
    (∃ value, (do
      let inner ← first
      pure (build inner)) = Except.ok value) ↔
      ∃ inner, first = .ok inner :=
  (returns_bind fun _ _ => iff_of_true ⟨_, rfl⟩
    trivial).trans (iff_of_eq (and_true _))

/- A node built from folded parts, which come to the same. -/
theorem tryFold_returns
    {built expression : Expression φ}
    (hSame : evaluate noRow built = evaluate noRow expression)
    (hConstant : isConstant built = isConstant expression) :
    (∃ folded, tryFold built = .ok folded) ↔
      ¬ (isConstant expression = true ∧
        Overflows noRow expression) := by
  rw [Executor.overflows_iff, ← hSame, ← hConstant]
  unfold tryFold
  split
  case isTrue hKept =>
    refine iff_of_true ⟨_, rfl⟩ ?_
    rintro ⟨hIs, message, hRaised⟩
    rcases hKept with hLiteral | hNot
    · cases built <;> simp [isLiteral] at hLiteral
      cases hRaised
    · exact hNot hIs
  case isFalse hFold =>
    have hIs : isConstant built = true :=
      Decidable.not_not.mp (not_or.mp hFold).2
    split
    case h_1 value hValue =>
      refine iff_of_true ⟨_, rfl⟩ ?_
      rintro ⟨_, message, hRaised⟩
      rw [hValue] at hRaised
      cases hRaised
    case h_2 message hRaised =>
      refine iff_of_true ⟨_, rfl⟩ ?_
      rintro ⟨_, other, hOther⟩
      rw [hRaised] at hOther
      cases hOther
    case h_3 raised hOther hRaised =>
      refine iff_of_false nofun (not_not.mpr ⟨hIs, ?_⟩)
      -- Nothing but the two errors comes out of `evaluate`.
      rcases (Executor.evaluate_overflows noRow
        built).otherwise raised hRaised with
        hOver | ⟨message, rfl⟩
      · exact Executor.overflows_iff.mp hOver
      · exact absurd rfl (hOther message)

mutual

/- Folding returns when no operation on constants overflows. -/
theorem foldConstantsIn_returns :
    (expression : Expression φ) →
      ((∃ folded, foldConstantsIn expression = .ok folded) ↔
        ¬ FoldOverflows expression)
  | .literal _ => iff_of_true ⟨_, rfl⟩ not_false
  | .column _ => iff_of_true ⟨_, rfl⟩ not_false
  | .unaryOp op operand => by
      refine (returns_bind fun inner hInner => ?_).trans
        ((and_congr_left' (foldConstantsIn_returns
          operand)).trans not_or.symm)
      have hSame := evaluate_foldConstantsIn noRow operand
        hInner
      exact tryFold_returns
        (Executor.evaluate_unaryOp op hSame.1) hSame.2
  | .binaryOp op left right => by
      simp only [FoldOverflows, not_or,
        ← foldConstantsIn_returns left,
        ← foldConstantsIn_returns right]
      refine returns_bind fun newLeft hLeft =>
        returns_bind fun newRight hRight => ?_
      have hLeft := evaluate_foldConstantsIn noRow left hLeft
      have hRight := evaluate_foldConstantsIn noRow right hRight
      refine tryFold_returns
        (Executor.evaluate_binaryOp op hLeft.1 hRight.1) ?_
      simp only [isConstant, hLeft.2, hRight.2]
  | .isNullTest operand negated =>
    (returns_map _).trans (foldConstantsIn_returns operand)
  | .inList operand items negated => by
      simp only [FoldOverflows, not_or,
        ← foldConstantsIn_returns operand,
        ← foldConstantsInItems_returns items]
      exact returns_bind fun _ _ => returns_map _
  | .refused _ => iff_of_true ⟨_, rfl⟩ not_false

theorem foldConstantsInItems_returns :
    (items : Items φ) →
      ((∃ folded, foldConstantsInItems items = .ok folded) ↔
        ¬ ItemsFoldOverflow items)
  | .one item =>
    (returns_map _).trans (foldConstantsIn_returns item)
  | .more item rest => by
      simp only [ItemsFoldOverflow, not_or,
        ← foldConstantsIn_returns item,
        ← foldConstantsInItems_returns rest]
      exact returns_bind fun _ _ => returns_map _

end

variable {width : Nat}

/- The same value, and an error where there is one. -/
def SameOutcome
    (first second : Except EngineError (Value φ)) : Prop :=
  (∀ value, first = .ok value ↔ second = .ok value) ∧
    ((∃ raised, first = .error raised) ↔
      ∃ raised, second = .error raised)

end Returns

/- `FALSE AND (1 % 1e999 = 0)`. -/
def shortCircuit : Expression Binary64 :=
  .binaryOp .and (.literal (.bool false))
    (.binaryOp .eq
      (.binaryOp .modulo (.literal (.int 1))
        (.literal (.float
          (.ofMagnitude false Executor.Binary64.infinite))))
      (.literal (.int 0)))

end Optimizer

end ChenDB
