import ChenDB.Executor.Overflows
import ChenDB.Executor.Rational

/-
  Whether an expression over 64-bit integers comes to one, or
  raises an evaluation error. Each operator checks its own
  result, except for the division of two integers, and lets
  out what Python's own arithmetic raises.
-/

--
-- Integers in Range
--

namespace ChenDB

namespace Executor

open Library.StateExcept (ok_of_bind)

variable {φ : Type}

/- What the INTEGER codec accepts. -/
def FitsInteger (value : Int) : Prop :=
  int64Min ≤ value ∧ value ≤ int64Max

instance (value : Int) : Decidable (FitsInteger value) :=
  inferInstanceAs (Decidable (_ ∧ _))

def Value.Fits : Value φ → Prop
  | .int value => FitsInteger value
  | _ => True

mutual

/- Every integer literal is a 64-bit one. -/
def LiteralsFit : Expression φ → Prop
  | .literal value => value.Fits
  | .column _ => True
  | .isNullTest operand _ => LiteralsFit operand
  | .inList operand items _ =>
    LiteralsFit operand ∧ ItemsFit items
  | .unaryOp _ operand => LiteralsFit operand
  | .binaryOp _ left right =>
    LiteralsFit left ∧ LiteralsFit right
  | .refused _ => True

def ItemsFit : Items φ → Prop
  | .one item => LiteralsFit item
  | .more item rest => LiteralsFit item ∧ ItemsFit rest

end

def RowFits {width : Nat} (row : Row φ width) : Prop :=
  ∀ index, (row index).Fits

/- The negation of the least integer, which is the only one
   that an expression comes to without fitting. -/
def beyond : Int := -int64Min

/-
  A quotient that does not fit is the negation of the least
  integer; it comes from dividing that by -1, or from handing
  on a dividend that did not fit in the first place.
-/
theorem tdiv_fits
    {left : Int}
    (hLeft : int64Min ≤ left ∧ left ≤ beyond)
    (right : Int) :
    FitsInteger (Int.tdiv left right) ∨
      Int.tdiv left right = beyond ∧
        (left = int64Min ∧ right = -1 ∨
          left = beyond ∧ right = 1) := by
  unfold FitsInteger beyond int64Min int64Max at *
  have hSmaller := Int.natAbs_tdiv_le_natAbs left right
  by_cases hOne : right = 1
  · rw [hOne, Int.tdiv_one]
    omega
  by_cases hMinus : right = -1
  · rw [hMinus, Int.tdiv_neg, Int.tdiv_one]
    omega
  by_cases hZero : right = 0
  · rw [hZero, Int.tdiv_zero]
    omega
  · -- Two and above: the quotient is half the dividend at most.
    have hHalf : (Int.tdiv left right).natAbs ≤
        left.natAbs / 2 := by
      rw [Int.natAbs_tdiv]
      exact Nat.div_le_div_left (by omega) (by decide)
    omega

--
-- Operators
--

section Operators

variable {value : Value φ}

variable [Double φ]

variable {what : String}

/- A number that passed the check. -/
theorem fits_of_check
    {number : φ ⊕ Int}
    (hOk : checkNumericRange number what = .ok value) :
    value.Fits := by
  cases number with
  | inl number =>
    simp only [checkNumericRange] at hOk
    split at hOk
    · cases hOk
      trivial
    · cases hOk
  | inr number =>
    simp only [checkNumericRange] at hOk
    split at hOk
    · rename_i hFits
      cases hOk
      exact hFits
    · cases hOk

variable {left right : Value φ}

omit [Double φ] in
/- Both operands of an operator that takes numbers. -/
theorem numbers_of_ok
    {next : (φ ⊕ Int) × (φ ⊕ Int) →
      Except EngineError (Value φ)}
    (hOk : (do
      let numbers ← (do
        let left ← requireNumber left what
        let right ← requireNumber right what
        pure (left, right))
      next numbers) = .ok value) :
    ∃ first second,
      left = ofNumber first ∧
      right = ofNumber second ∧
      next (first, second) = .ok value := by
  rcases ok_of_bind hOk with ⟨numbers, hNumbers, hLast⟩
  rcases ok_of_bind hNumbers with ⟨first, hLeft, hRest⟩
  rcases ok_of_bind hRest with ⟨second, hRight, hPair⟩
  cases hPair
  exact ⟨first, second, requireNumber_iff.mp hLeft,
    requireNumber_iff.mp hRight, hLast⟩

variable {first second : φ ⊕ Int}

/- Division checks its result unless both are integers. -/
theorem divide_fits
    (hOk : divide first second = .ok value) :
    value.Fits ∨ ∃ dividend divisor,
      first = .inr dividend ∧ second = .inr divisor ∧
        value = .int (Int.tdiv dividend divisor) := by
  unfold divide at hOk
  split at hOk
  · cases hOk
  · split at hOk
    · cases hOk
      exact .inr ⟨_, _, rfl, rfl, rfl⟩
    · rcases ok_of_bind hOk with
        ⟨_, _, hLast⟩
      exact .inl (fits_of_check hLast)

theorem modulo_fits
    (hOk : modulo first second = .ok value) :
    value.Fits := by
  unfold modulo at hOk
  split at hOk
  · cases hOk
  · rcases ok_of_bind hOk with
      ⟨_, _, hLast⟩
    exact fits_of_check hLast

/- Of two known operands, only a division of integers comes to
   something unchecked. -/
theorem binaryValue_fits
    {op : BinaryOperator}
    (hOk : binaryValue op left right = .ok value) :
    value.Fits ∨
      op = .divide ∧ ∃ dividend divisor,
        left = .int dividend ∧ right = .int divisor ∧
          value = .int (Int.tdiv dividend divisor) := by
  cases op
  case add =>
    rcases numbers_of_ok hOk with ⟨_, _, _, _, hRest⟩
    rcases ok_of_bind hRest with ⟨_, _, hLast⟩
    exact .inl (fits_of_check hLast)
  case subtract =>
    rcases numbers_of_ok hOk with ⟨_, _, _, _, hRest⟩
    rcases ok_of_bind hRest with ⟨_, _, hLast⟩
    exact .inl (fits_of_check hLast)
  case multiply =>
    rcases numbers_of_ok hOk with ⟨_, _, _, _, hRest⟩
    rcases ok_of_bind hRest with ⟨_, _, hLast⟩
    exact .inl (fits_of_check hLast)
  case modulo =>
    rcases numbers_of_ok hOk with ⟨_, _, _, _, hLast⟩
    exact .inl (modulo_fits hLast)
  case divide =>
    rcases numbers_of_ok hOk with
      ⟨first, second, rfl, rfl, hLast⟩
    rcases divide_fits hLast with
      hFits | ⟨dividend, divisor, rfl, rfl, hValue⟩
    · exact .inl hFits
    · exact .inr ⟨rfl, dividend, divisor, rfl, rfl, hValue⟩
  -- What is left compares.
  all_goals
    rcases ok_of_bind hOk with ⟨order, _, hLast⟩
    cases hLast
    exact .inl trivial

theorem unaryValue_fits
    {op : UnaryOperator}
    {operand : Value φ}
    (hOk : unaryValue op operand = .ok value) :
    value.Fits ∨ op = .plus ∧ value = operand := by
  cases op with
  | not =>
    rcases ok_of_bind hOk with ⟨known, _, hLast⟩
    cases hLast
    exact .inl trivial
  | negate =>
    rcases ok_of_bind hOk with ⟨number, _, hLast⟩
    exact .inl (fits_of_check hLast)
  | plus =>
    rcases ok_of_bind hOk with ⟨number, _, hLast⟩
    cases hLast
    exact .inr ⟨rfl, rfl⟩

end Operators

--
-- Expressions
--

section Results

variable [Double φ] {width : Nat} {row : Row φ width}

/-
  The value of the expression is the quotient of the least
  integer by -1, handed on by no more than unary plus signs
  and divisions by 1.
-/
def DividesLeast (row : Row φ width) : Expression φ → Prop
  | .unaryOp .plus operand => DividesLeast row operand
  | .binaryOp .divide left right =>
    evaluate row left = .ok (.int int64Min) ∧
        evaluate row right = .ok (.int (-1)) ∨
      DividesLeast row left ∧ evaluate row right = .ok (.int 1)
  | _ => False

section Steps

variable {value : Value φ}

omit [Double φ] in
theorem fits_of_known
    {known : Option Bool}
    (hKnown : value = ofOption known) : value.Fits := by
  rw [hKnown]
  cases known with
  | none => trivial
  | some known => trivial

theorem unary_result
    {op : UnaryOperator}
    {operand : Expression φ}
    (hOk : evaluate row (.unaryOp op operand) = .ok value) :
    value.Fits ∨
      op = .plus ∧ evaluate row operand = .ok value := by
  simp only [evaluate] at hOk
  rcases ok_of_bind hOk with ⟨inner, hInner, hLast⟩
  rw [hInner]
  cases inner with
  | null =>
    cases hLast
    exact .inl trivial
  | _ =>
    exact (unaryValue_fits hLast).imp_right fun hBoth =>
      ⟨hBoth.1, congrArg _ hBoth.2.symm⟩

theorem binary_result
    {op : BinaryOperator}
    {left right : Expression φ}
    (hOk : evaluate row (.binaryOp op left right) = .ok value) :
    value.Fits ∨
      op = .divide ∧ ∃ dividend divisor,
        evaluate row left = .ok (.int dividend) ∧
        evaluate row right = .ok (.int divisor) ∧
        value = .int (Int.tdiv dividend divisor) := by
  by_cases hOp : op.isLogical = true
  · rcases logical_known hOp hOk with ⟨known, hKnown⟩
    exact .inl (fits_of_known hKnown)
  rw [evaluate_strict (Bool.eq_false_of_not_eq_true hOp)]
    at hOk
  rcases ok_of_bind hOk with ⟨first, hLeft, hRest⟩
  rcases ok_of_bind hRest with ⟨second, hRight, hLast⟩
  split at hLast
  · cases hLast
    exact .inl trivial
  · rw [hLeft, hRight]
    refine (binaryValue_fits hLast).imp_right ?_
    rintro ⟨rfl, dividend, divisor, rfl, rfl, hValue⟩
    exact ⟨rfl, dividend, divisor, rfl, rfl, hValue⟩

end Steps

/- What an expression comes to, if it is an integer. -/
theorem int_result
    (hRow : RowFits row) :
    (expression : Expression φ) →
    LiteralsFit expression →
    (value : Int) →
    evaluate row expression = .ok (.int value) →
      FitsInteger value ∨
        value = beyond ∧ DividesLeast row expression
  | .literal literal, hLiterals, value, hOk => by
      cases hOk
      exact .inl hLiterals
  | .column column, hLiterals, value, hOk => by
      simp only [evaluate] at hOk
      split at hOk
      · rename_i hIndex
        have hFits := hRow ⟨column.columnIndex, hIndex⟩
        rw [Except.ok.inj hOk] at hFits
        exact .inl hFits
      · cases hOk
  | .isNullTest operand negated, hLiterals, value, hOk => by
      simp only [evaluate] at hOk
      rcases ok_of_bind hOk with ⟨inner, _, hLast⟩
      cases hLast
  | .inList operand items negated, hLiterals, value, hOk => by
      simp only [evaluate] at hOk
      rcases ok_of_bind hOk with ⟨inner, _, hLast⟩
      rcases evaluateItems_known items _ hLast with
        ⟨known, hKnown⟩
      exact .inl (fits_of_known hKnown)
  | .unaryOp op operand, hLiterals, value, hOk => by
      rcases unary_result hOk with hFits | ⟨rfl, hOperand⟩
      · exact .inl hFits
      · exact int_result hRow operand hLiterals value hOperand
  | .binaryOp op left right, hLiterals, value, hOk => by
      rcases binary_result hOk with hFits |
        ⟨rfl, dividend, divisor, hLeft, hRight, hValue⟩
      · exact .inl hFits
      · have hDividend := int_result hRow left hLiterals.1
          dividend hLeft
        have hBounds : int64Min ≤ dividend ∧
            dividend ≤ beyond := by
          unfold FitsInteger beyond int64Min int64Max at *
          omega
        cases hValue
        rcases tdiv_fits hBounds divisor with hFits |
          ⟨hBeyond, ⟨rfl, rfl⟩ | ⟨rfl, rfl⟩⟩
        · exact .inl hFits
        · exact .inr ⟨hBeyond, .inl ⟨hLeft, hRight⟩⟩
        · have hNot : ¬ FitsInteger beyond := by decide
          have hFurther := hDividend.resolve_left hNot
          exact .inr ⟨hBeyond, .inr ⟨hFurther.2, hRight⟩⟩
  | .refused nodeType, hLiterals, value, hOk => by
      cases hOk

/- The quotient is what the expression comes to. -/
theorem divides_result :
    (expression : Expression φ) →
    DividesLeast row expression →
    evaluate row expression = .ok (.int beyond)
  | .unaryOp .plus operand, hDivides => by
      simp only [evaluate, divides_result operand hDivides]
      rfl
  | .binaryOp .divide left right, hDivides => by
      rcases hDivides with ⟨hLeft, hRight⟩ | ⟨hLeft, hRight⟩
      · simp only [evaluate, hLeft, hRight]
        rfl
      · simp only [evaluate, divides_result left hLeft, hRight]
        rfl

/-
  An expression comes to nothing but an integer that fits, or
  to a value of another type, or raises an evaluation error,
  exactly when it is not the quotient of the least integer by
  -1 and gets to no numbers on which Python itself raises.
-/
theorem result_fits_iff
    (expression : Expression φ)
    (hLiterals : LiteralsFit expression)
    (hRow : RowFits row) :
    (∀ value, evaluate row expression = .ok (.int value) →
      FitsInteger value) ∧
    (∀ raised, evaluate row expression = .error raised →
      ∃ message, raised = .evaluationError message) ↔
    ¬ DividesLeast row expression ∧
      ¬ Overflows row expression := by
  have hOutcome := evaluate_overflows row expression
  constructor
  · rintro ⟨hFits, hErrors⟩
    constructor
    · intro hDivides
      have hBeyond := hFits beyond
        (divides_result expression hDivides)
      exact absurd hBeyond (by decide)
    · intro hOver
      rcases hOutcome.raises hOver with ⟨message, hRaised⟩
      rcases hErrors _ hRaised with ⟨_, hOther⟩
      cases hOther
  · rintro ⟨hNot, hNone⟩
    constructor
    · intro value hOk
      rcases int_result hRow expression hLiterals value hOk with
        hFits | ⟨_, hDivides⟩
      · exact hFits
      · exact absurd hDivides hNot
    · intro raised hRaised
      exact (hOutcome.otherwise raised hRaised).resolve_left
        hNone

end Results

/- `n / -1`. -/
def negatedQuotient : Expression Rat :=
  .binaryOp .divide
    (.column
      { name := "n"
        columnIndex := 0
        scanPosition := some 0 })
    (.unaryOp .negate (.literal (.int 1)))

theorem negatedQuotient_fit :
    LiteralsFit negatedQuotient := by
  refine ⟨trivial, ?_⟩
  show FitsInteger 1
  decide

/- A row where the quotient fits. -/
theorem result_fits_seven :
    (∀ value,
      evaluate (fun _ : Fin 1 => .int 7) negatedQuotient =
        .ok (.int value) → FitsInteger value) ∧
    ∀ raised,
      evaluate (fun _ : Fin 1 => .int 7) negatedQuotient =
        .error raised →
      ∃ message, raised = .evaluationError message := by
  have hRow : RowFits fun _ : Fin 1 =>
      (Value.int 7 : Value Rat) := fun _ => by
    show FitsInteger 7
    decide
  refine (result_fits_iff negatedQuotient negatedQuotient_fit
    hRow).mpr ⟨?_, ?_⟩
  · rintro (⟨hLeft, _⟩ | ⟨hLeft, _⟩)
    · cases hLeft
    · exact hLeft
  · intro hOver
    rcases (evaluate_overflows _ _).raises hOver with
      ⟨_, hRaised⟩
    cases hRaised

/- The least integer, divided by -1, comes to what no column
   takes. -/
theorem least_quotient :
    ¬ ∀ (row : Row Rat 1) (value : Int),
      RowFits row →
      evaluate row negatedQuotient = .ok (.int value) →
        FitsInteger value := by
  intro hAll
  have hRow : RowFits fun _ : Fin 1 =>
      (Value.int int64Min : Value Rat) := fun _ => by
    show FitsInteger int64Min
    decide
  have hBeyond := hAll _ beyond hRow rfl
  exact absurd hBeyond (by decide)

end Executor

end ChenDB
