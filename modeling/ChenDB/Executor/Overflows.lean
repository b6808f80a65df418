import ChenDB.Executor.Evaluation

/-
  What an evaluation that fails raises: an evaluation error, or
  the `OverflowError` of Python's own arithmetic, which nothing
  in `evaluate` looks for. That one comes where a double meets
  an integer that is too large for one, and where a remainder
  is taken exactly and the double is infinite.
-/

namespace ChenDB

namespace Executor

variable {φ : Type}

--
-- Where Python Raises
--

section Operators

/- No double is near the number. -/
def TooLarge : φ ⊕ Int → Prop
  | .inl _ => False
  | .inr value => beyondDouble ≤ value.natAbs

variable [Double φ]

/- The exact remainder that no fraction is there for. -/
def NoFraction (left right : φ ⊕ Int) : Prop :=
  (compareNumbers left (.inr exactInDouble) = .gt ∨
    compareNumbers right (.inr exactInDouble) = .gt) ∧
  ¬ (hasFraction left = true ∧ hasFraction right = true)

/- The numbers, one of them a double and one an integer, on
   which the arithmetic itself raises. -/
def OverflowsAt
    (op : BinaryOperator)
    (left right : φ ⊕ Int) : Prop :=
  left.isLeft ≠ right.isLeft ∧
  match op with
  | .add | .subtract | .multiply =>
    TooLarge left ∨ TooLarge right
  | .divide =>
    compareNumbers right (.inr 0) ≠ .eq ∧
      (TooLarge left ∨ TooLarge right)
  | .modulo =>
    compareNumbers right (.inr 0) ≠ .eq ∧
      NoFraction (magnitude left) (magnitude right)
  | _ => False

/- The same of two values, which are numbers then. -/
def ValuesOverflow
    (op : BinaryOperator)
    (left right : Value φ) : Prop :=
  ∃ first second, left = ofNumber first ∧
    right = ofNumber second ∧ OverflowsAt op first second

/- Is the second operand evaluated, when the first is known? -/
def ReadsOn
    (op : BinaryOperator)
    (first : Value φ) : Prop :=
  match op with
  | .and => first = .null ∨ first = .bool true
  | .or => first = .null ∨ first = .bool false
  | _ => True

variable {width : Nat}

mutual

/- Evaluation gets to two numbers on which Python raises. -/
def Overflows (row : Row φ width) : Expression φ → Prop
  | .literal _ => False
  | .column _ => False
  | .isNullTest operand _ => Overflows row operand
  | .inList operand items _ =>
    Overflows row operand ∨
      ∃ value, evaluate row operand = .ok value ∧
        ItemsOverflow row value value.isNull items
  | .unaryOp _ operand => Overflows row operand
  | .binaryOp op left right =>
    Overflows row left ∨
      ∃ first, evaluate row left = .ok first ∧
        ReadsOn op first ∧
        (Overflows row right ∨
          ∃ second, evaluate row right = .ok second ∧
            ValuesOverflow op first second)
  | .refused _ => False

/- The same of the items left to look at. -/
def ItemsOverflow
    (row : Row φ width)
    (value : Value φ)
    (unknown : Bool) : Items φ → Prop
  | .one item => Overflows row item
  | .more item rest =>
    Overflows row item ∨
      ∃ candidate next,
        evaluate row item = .ok candidate ∧
        matchItem value unknown candidate = .ok (false, next) ∧
        ItemsOverflow row value next rest

end

end Operators

--
-- Outcomes
--

/- An `OverflowError` where `overflows` says so, and no other
   error than an evaluation error elsewhere. -/
structure OverflowsWhen
    {α : Type}
    (overflows : Prop)
    (outcome : Except EngineError α) : Prop where
  raises : overflows →
    ∃ message, outcome = .error (.overflowError message)
  otherwise : ∀ raised, outcome = .error raised →
    overflows ∨ ∃ message, raised = .evaluationError message

namespace OverflowsWhen

variable {α β : Type} {p q : Prop}

theorem ok (value : α) :
    OverflowsWhen False (.ok value) where
  raises := False.elim
  otherwise _ hRaised := nomatch hRaised

theorem error (message : String) :
    OverflowsWhen False
      (.error (.evaluationError message) :
        Except EngineError α) where
  raises := False.elim
  otherwise raised hRaised := by
    cases hRaised
    exact .inr ⟨message, rfl⟩

theorem congr
    {outcome : Except EngineError α}
    (hOutcome : OverflowsWhen p outcome)
    (hIff : p ↔ q) : OverflowsWhen q outcome := by
  rwa [propext hIff] at hOutcome

variable {first : Except EngineError α}
variable {next : α → Except EngineError β}

theorem bind
    {r : α → Prop}
    (hFirst : OverflowsWhen p first)
    (hNext : ∀ value, OverflowsWhen (r value) (next value)) :
    OverflowsWhen (p ∨ ∃ value, first = .ok value ∧ r value)
      (first >>= next) := by
  constructor
  · rintro (hOver | ⟨value, rfl, hOver⟩)
    · rcases hFirst.raises hOver with ⟨message, rfl⟩
      exact ⟨message, rfl⟩
    · exact (hNext value).raises hOver
  · intro raised hRaised
    cases first with
    | ok value =>
      rcases (hNext value).otherwise raised hRaised with
        hOver | hMessage
      · exact .inl (.inr ⟨value, rfl, hOver⟩)
      · exact .inr hMessage
    | error inner =>
      cases hRaised
      exact (hFirst.otherwise _ rfl).imp_left .inl

/- The first part cannot overflow, and what does is the same
   whatever it comes to. -/
theorem bind_first
    (hFirst : OverflowsWhen p first)
    (hNext : ∀ value, OverflowsWhen False (next value)) :
    OverflowsWhen p (first >>= next) :=
  (hFirst.bind hNext).congr (by simp)

theorem ite
    {c : Prop} [Decidable c]
    {second : Except EngineError α}
    (hFirst : OverflowsWhen p first)
    (hSecond : OverflowsWhen q second) :
    OverflowsWhen (c ∧ p ∨ ¬ c ∧ q)
      (if c then first else second) := by
  split
  case isTrue hc => exact hFirst.congr (by simp [hc])
  case isFalse hc => exact hSecond.congr (by simp [hc])

end OverflowsWhen

open OverflowsWhen (ok error bind_first ite)

--
-- Operators
--

theorem requireBoolean_overflows
    (value : Value φ)
    (what : String) :
    OverflowsWhen False (requireBoolean value what) := by
  unfold requireBoolean
  split
  · exact ok _
  · exact error _

/- What passes for a number is one. -/
theorem requireNumber_iff
    {value : Value φ}
    {what : String}
    {number : φ ⊕ Int} :
    requireNumber value what = .ok number ↔
      value = ofNumber number := by
  constructor
  · intro hOk
    cases value with
    | int value =>
      cases hOk
      rfl
    | float value =>
      cases hOk
      rfl
    | null => cases hOk
    | bool value => cases hOk
    | text value => cases hOk
  · rintro rfl
    cases number with
    | inl value => rfl
    | inr value => rfl

theorem requireNumber_overflows
    (value : Value φ)
    (what : String) :
    OverflowsWhen False (requireNumber value what) := by
  unfold requireNumber
  split
  · exact ok _
  · exact ok _
  · exact error _

theorem condition_overflows
    (value : Value φ)
    (what : String) :
    OverflowsWhen False (condition value what) := by
  unfold condition
  split
  · exact ok _
  · exact bind_first (requireBoolean_overflows _ _)
      fun _ => ok _

section Arithmetic

variable [Double φ]

theorem checkNumericRange_overflows
    (number : φ ⊕ Int)
    (what : String) :
    OverflowsWhen False (checkNumericRange number what) := by
  unfold checkNumericRange
  split
  · exact (ite (ok _) (error _)).congr (by simp)
  · exact (ite (ok _) (error _)).congr (by simp)

theorem toDouble_overflows (number : φ ⊕ Int) :
    OverflowsWhen (TooLarge number) (toDouble number) := by
  cases number with
  | inl value => exact ok _
  | inr value =>
    simp only [toDouble, TooLarge]
    split
    case isTrue hLarge =>
      exact ⟨fun _ => ⟨_, rfl⟩, fun _ _ => .inl hLarge⟩
    case isFalse hSmall => exact (ok _).congr (by simp [hSmall])

/- Both operands are made doubles, the left one first. -/
theorem onDoubles_overflows
    (doubles : φ → φ → φ)
    (left right : φ ⊕ Int) :
    OverflowsWhen (TooLarge left ∨ TooLarge right)
      (onDoubles doubles left right) := by
  refine ((toDouble_overflows left).bind fun first =>
    bind_first (toDouble_overflows right)
      fun second => ok _).congr ?_
  constructor
  · exact Or.imp_right fun ⟨_, _, hLarge⟩ => hLarge
  · rintro (hLarge | hLarge)
    · exact .inl hLarge
    · cases hLeft : toDouble left with
      | ok first => exact .inr ⟨first, rfl, hLarge⟩
      | error raised =>
        refine .inl ?_
        cases left with
        | inl value => cases hLeft
        | inr value =>
          simp only [toDouble] at hLeft
          split at hLeft
          · assumption
          · cases hLeft

theorem arithmetic_overflows
    (ints : Int → Int → Int)
    (doubles : φ → φ → φ)
    (left right : φ ⊕ Int) :
    OverflowsWhen
      (left.isLeft ≠ right.isLeft ∧
        (TooLarge left ∨ TooLarge right))
      (arithmetic ints doubles left right) := by
  cases left with
  | inl left =>
    refine (onDoubles_overflows doubles _ _).congr ?_
    cases right with
    | inl right => simp [TooLarge]
    | inr right => simp
  | inr left =>
    cases right with
    | inl right =>
      exact (onDoubles_overflows doubles _ _).congr
        (by simp)
    | inr right => exact (ok _).congr (by simp)

theorem divide_overflows (left right : φ ⊕ Int) :
    OverflowsWhen (OverflowsAt .divide left right)
      (divide left right) := by
  have hDoubles : OverflowsWhen
      (TooLarge left ∨ TooLarge right) (do
        let quotient ← onDoubles Double.div left right
        checkNumericRange quotient "/") :=
    bind_first (onDoubles_overflows _ _ _)
      fun _ => checkNumericRange_overflows _ _
  unfold divide
  split
  case isTrue hZero =>
    exact (error _).congr (by simp [OverflowsAt, hZero])
  case isFalse hZero =>
    split
    · exact (ok _).congr (by simp [OverflowsAt])
    · rename_i hBoth
      refine hDoubles.congr ?_
      cases left <;> cases right <;>
        simp_all [OverflowsAt, TooLarge]

@[simp] theorem isLeft_magnitude (number : φ ⊕ Int) :
    (magnitude number).isLeft = number.isLeft := by
  unfold magnitude
  split
  · cases number <;> rfl
  · rfl

/- A magnitude at which a double is exact. -/
theorem small_of_magnitude
    (number : φ ⊕ Int)
    (hExact : compareNumbers (magnitude number)
      (.inr exactInDouble) ≠ .gt) :
    ¬ TooLarge (magnitude number) := by
  cases number with
  | inl value =>
    unfold magnitude
    split
    all_goals exact not_false
  | inr value =>
    have hAbs : magnitude (.inr value : φ ⊕ Int) =
        .inr value.natAbs := by
      have hSign : isNegative (.inr value : φ ⊕ Int) =
          decide (value < 0) :=
        decide_eq_decide.mpr Int.compare_eq_lt
      unfold magnitude
      rw [hSign]
      by_cases hNegative : value < 0
      · rw [decide_eq_true hNegative]
        show Sum.inr (-value) = _
        congr 1
        omega
      · rw [decide_eq_false hNegative]
        show Sum.inr value = _
        congr 1
        omega
    rw [hAbs] at hExact ⊢
    have hMost := mt Int.compare_eq_gt.mpr hExact
    have hDouble : exactInDouble < beyondDouble := by decide
    show ¬ beyondDouble ≤ (value.natAbs : Int).natAbs
    omega

/- Of two magnitudes the exact remainder needs fractions, and
   the other one is of numbers that doubles hold. -/
theorem exactRemainder_overflows (left right : φ ⊕ Int) :
    OverflowsWhen
      (left.isLeft ≠ right.isLeft ∧
        NoFraction (magnitude left) (magnitude right))
      (exactRemainder (magnitude left) (magnitude right)) := by
  have hSmallLeft := small_of_magnitude left
  have hSmallRight := small_of_magnitude right
  rw [← isLeft_magnitude left, ← isLeft_magnitude right]
  generalize magnitude left = left at *
  generalize magnitude right = right at *
  unfold exactRemainder NoFraction
  split
  · exact (ok _).congr (by simp)
  · exact (ok _).congr (by simp)
  · rename_i hInts hDoubles
    have hMixed : left.isLeft ≠ right.isLeft := by
      cases left <;> cases right <;> simp_all
    split
    case isTrue hBeyond =>
      split
      case isTrue hBoth =>
        exact (ok _).congr (by simp [hBoth])
      case isFalse hNone =>
        exact ⟨fun _ => ⟨_, rfl⟩,
          fun _ _ => .inl ⟨hMixed, hBeyond, hNone⟩⟩
    case isFalse hWithin =>
      refine (onDoubles_overflows _ _ _).congr ?_
      have hWithin := not_or.mp hWithin
      simp [hSmallLeft hWithin.1, hSmallRight hWithin.2,
        hWithin]

theorem modulo_overflows (left right : φ ⊕ Int) :
    OverflowsWhen (OverflowsAt .modulo left right)
      (modulo left right) := by
  unfold modulo
  split
  case isTrue hZero =>
    exact (error _).congr (by simp [OverflowsAt, hZero])
  case isFalse hZero =>
    exact (bind_first (exactRemainder_overflows left right)
      fun _ => checkNumericRange_overflows _ _).congr
        (by simp [OverflowsAt, hZero])

theorem compareValues_overflows
    (left right : Value φ)
    (op : BinaryOperator) :
    OverflowsWhen False (compareValues left right op) := by
  unfold compareValues
  split
  all_goals first
    | exact ok _
    | exact error _

/- Numbers are taken out of both values first. -/
theorem numbers_overflow
    {op : BinaryOperator}
    {left right : Value φ}
    {next : (φ ⊕ Int) × (φ ⊕ Int) →
      Except EngineError (Value φ)}
    (hNext : ∀ first second,
      OverflowsWhen (OverflowsAt op first second)
        (next (first, second))) :
    OverflowsWhen (ValuesOverflow op left right) (do
      let numbers ← (do
        let left ← requireNumber left op.value
        let right ← requireNumber right op.value
        pure (left, right))
      next numbers) := by
  have hNumbers :=
    (requireNumber_overflows left op.value).bind fun first =>
      bind_first (requireNumber_overflows right op.value)
        fun second => ok (first, second)
  refine (hNumbers.bind fun numbers =>
    hNext numbers.1 numbers.2).congr ?_
  constructor
  · rintro (hNever | ⟨numbers, hOk, hOver⟩)
    · simp at hNever
    · rcases Library.StateExcept.ok_of_bind hOk with
        ⟨first, hFirst, hRest⟩
      rcases Library.StateExcept.ok_of_bind hRest with
        ⟨second, hSecond, hPair⟩
      cases hPair
      exact ⟨first, second, requireNumber_iff.mp hFirst,
        requireNumber_iff.mp hSecond, hOver⟩
  · rintro ⟨first, second, hFirst, hSecond, hOver⟩
    have hFirst : requireNumber left op.value = .ok first :=
      requireNumber_iff.mpr hFirst
    have hSecond : requireNumber right op.value = .ok second :=
      requireNumber_iff.mpr hSecond
    refine .inr ⟨(first, second), ?_, hOver⟩
    rw [hFirst, hSecond]
    rfl

theorem binaryValue_overflows
    (op : BinaryOperator)
    (left right : Value φ) :
    OverflowsWhen (ValuesOverflow op left right)
      (binaryValue op left right) := by
  have hCompared : OverflowsWhen False (do
      let order ← compareValues left right op
      pure (Value.bool (comparison op order) : Value φ)) :=
    bind_first (compareValues_overflows left right op)
      fun _ => ok _
  cases op
  case add =>
    exact numbers_overflow fun _ _ =>
      bind_first (arithmetic_overflows _ _ _ _)
        fun _ => checkNumericRange_overflows _ _
  case subtract =>
    exact numbers_overflow fun _ _ =>
      bind_first (arithmetic_overflows _ _ _ _)
        fun _ => checkNumericRange_overflows _ _
  case multiply =>
    exact numbers_overflow fun _ _ =>
      bind_first (arithmetic_overflows _ _ _ _)
        fun _ => checkNumericRange_overflows _ _
  case divide =>
    exact numbers_overflow fun _ _ => divide_overflows _ _
  case modulo =>
    exact numbers_overflow fun _ _ => modulo_overflows _ _
  -- What is left compares.
  all_goals
    exact hCompared.congr (by simp [ValuesOverflow, OverflowsAt])

theorem unaryValue_overflows
    (op : UnaryOperator)
    (value : Value φ) :
    OverflowsWhen False (unaryValue op value) := by
  cases op with
  | not =>
    exact bind_first (requireBoolean_overflows _ _)
      fun _ => ok _
  | negate =>
    exact bind_first (requireNumber_overflows _ _)
      fun _ => checkNumericRange_overflows _ _
  | plus =>
    exact bind_first (requireNumber_overflows _ _)
      fun _ => ok _

theorem matchItem_overflows
    (value : Value φ)
    (unknown : Bool)
    (candidate : Value φ) :
    OverflowsWhen False
      (matchItem value unknown candidate) :=
  (ite (ok _)
    (bind_first (compareValues_overflows _ _ _)
      fun _ => ok _)).congr (by simp)

end Arithmetic

--
-- Expressions
--

section Evaluation

variable [Double φ] {width : Nat}

variable {row : Row φ width} {right : Expression φ}

/- What follows the first operand of `AND` and `OR`. -/
theorem second_overflows
    {what : String}
    {last : Option Bool → Except EngineError (Value φ)}
    {p : Prop}
    (hRight : OverflowsWhen p (evaluate row right))
    (hLast : ∀ second, OverflowsWhen False (last second)) :
    OverflowsWhen p (do
      let second ← evaluate row right
      let second ← condition second what
      last second) :=
  bind_first hRight fun _ =>
    bind_first (condition_overflows _ _) hLast

variable {op : BinaryOperator}

/- Numbers are not NULL. -/
theorem known_of_overflow
    {left right : Value φ}
    (hOver : ValuesOverflow op left right) :
    ¬ (left.isNull = true ∨ right.isNull = true) := by
  rcases hOver with ⟨first, second, rfl, rfl, _⟩
  cases first <;> cases second <;> simp [ofNumber, Value.isNull]

variable {left : Expression φ}

/- The other operators, which evaluate both operands. -/
theorem strict_overflows
    (hOp : op.isLogical = false)
    (hLeft : OverflowsWhen (Overflows row left)
      (evaluate row left))
    (hRight : OverflowsWhen (Overflows row right)
      (evaluate row right)) :
    OverflowsWhen (Overflows row (.binaryOp op left right))
      (evaluate row (.binaryOp op left right)) := by
  have hReads (first : Value φ) : ReadsOn op first := by
    cases op
    case and => cases hOp
    case or => cases hOp
    all_goals trivial
  have hBoth (first second : Value φ) :
      OverflowsWhen (ValuesOverflow op first second)
        (if first.isNull ∨ second.isNull then pure .null
          else binaryValue op first second) := by
    refine (ite (ok _)
      (binaryValue_overflows op first second)).congr ?_
    simp only [and_false, false_or]
    exact ⟨And.right,
      fun hOver => ⟨known_of_overflow hOver, hOver⟩⟩
  rw [evaluate_strict hOp]
  refine (hLeft.bind fun first =>
    hRight.bind (hBoth first)).congr ?_
  simp only [Overflows, hReads, true_and]

/- `AND` and `OR` do not get to the second operand when the
   first one settles the matter. -/
theorem logical_overflows
    (hOp : op.isLogical = true)
    (hLeft : OverflowsWhen (Overflows row left)
      (evaluate row left))
    (hRight : OverflowsWhen (Overflows row right)
      (evaluate row right)) :
    OverflowsWhen (Overflows row (.binaryOp op left right))
      (evaluate row (.binaryOp op left right)) := by
  have hNone (first second : Value φ) :
      ¬ ValuesOverflow op first second := by
    rintro ⟨_, _, _, _, _, hOver⟩
    cases op
    case and => exact hOver
    case or => exact hOver
    all_goals cases hOp
  cases op
  case and =>
    refine (hLeft.bind (r := fun first =>
      ReadsOn .and first ∧ Overflows row right)
        fun first => ?_).congr (by simp [Overflows, hNone])
    cases first with
    | null =>
      refine (second_overflows hRight fun second => ?_).congr
        (by simp [ReadsOn])
      split <;> exact ok _
    | bool known =>
      cases known with
      | false => exact (ok _).congr (by simp [ReadsOn])
      | true =>
        refine (second_overflows hRight
          fun second => ?_).congr (by simp [ReadsOn])
        split <;> exact ok _
    | _ => exact (error _).congr (by simp [ReadsOn])
  case or =>
    refine (hLeft.bind (r := fun first =>
      ReadsOn .or first ∧ Overflows row right)
        fun first => ?_).congr (by simp [Overflows, hNone])
    cases first with
    | null =>
      refine (second_overflows hRight fun second => ?_).congr
        (by simp [ReadsOn])
      split <;> exact ok _
    | bool known =>
      cases known with
      | true => exact (ok _).congr (by simp [ReadsOn])
      | false =>
        refine (second_overflows hRight
          fun second => ?_).congr (by simp [ReadsOn])
        split <;> exact ok _
    | _ => exact (error _).congr (by simp [ReadsOn])
  all_goals cases hOp

mutual

/- What raises in an evaluation, and how. -/
theorem evaluate_overflows
    (row : Row φ width) :
    (expression : Expression φ) →
      OverflowsWhen (Overflows row expression)
        (evaluate row expression)
  | .literal _ => ok _
  | .column _ => by
      simp only [evaluate, Overflows]
      split
      · exact ok _
      · exact error _
  | .isNullTest operand _ =>
    bind_first (evaluate_overflows row operand)
      fun _ => ok _
  | .inList operand items negated =>
    (evaluate_overflows row operand).bind fun value =>
      evaluateItems_overflow row value negated items
        value.isNull
  | .unaryOp _ operand =>
    bind_first (evaluate_overflows row operand)
      fun value => by
        split
        · exact ok _
        · exact unaryValue_overflows _ _
  | .binaryOp op left right => by
      have hLeft := evaluate_overflows row left
      have hRight := evaluate_overflows row right
      cases hOp : op.isLogical with
      | true => exact logical_overflows hOp hLeft hRight
      | false => exact strict_overflows hOp hLeft hRight
  | .refused _ => error _

theorem evaluateItems_overflow
    (row : Row φ width)
    (value : Value φ)
    (negated : Bool) :
    (items : Items φ) →
    (unknown : Bool) →
      OverflowsWhen (ItemsOverflow row value unknown items)
        (evaluateItems row value unknown negated items)
  | .one item, unknown =>
    bind_first (evaluate_overflows row item) fun _ =>
      bind_first (matchItem_overflows _ _ _) fun _ =>
        (ite (ok _) (ite (ok _) (ok _))).congr (by simp)
  | .more item rest, unknown => by
      refine ((evaluate_overflows row item).bind
        fun candidate =>
          (matchItem_overflows value unknown candidate).bind
            (r := fun matched => matched.1 = false ∧
              ItemsOverflow row value matched.2 rest)
            fun matched => ?_).congr ?_
      · refine (ite (ok _) (evaluateItems_overflow row value
          negated rest matched.2)).congr ?_
        simp
      · simp only [ItemsOverflow, false_or, Prod.exists]
        constructor
        · rintro (hItem | ⟨candidate, hItem, found, next,
            hMatch, rfl, hOver⟩)
          · exact .inl hItem
          · exact .inr
              ⟨candidate, next, hItem, hMatch, hOver⟩
        · rintro (hItem | ⟨candidate, next, hItem, hMatch,
            hOver⟩)
          · exact .inl hItem
          · exact .inr ⟨candidate, hItem, false, next,
              hMatch, rfl, hOver⟩

end

/- Where an `OverflowError` comes out. -/
theorem overflows_iff
    {expression : Expression φ} :
    Overflows row expression ↔
      ∃ message,
        evaluate row expression =
          .error (.overflowError message) := by
  have hOutcome := evaluate_overflows row expression
  refine ⟨hOutcome.raises, ?_⟩
  rintro ⟨message, hRaised⟩
  refine (hOutcome.otherwise _ hRaised).resolve_right ?_
  rintro ⟨_, hOther⟩
  cases hOther

end Evaluation

end Executor

end ChenDB
