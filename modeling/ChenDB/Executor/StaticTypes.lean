import ChenDB.Executor.IntegerRange
import ChenDB.Executor.OrderBy

/-
  Static types: what the binder says of the type of an
  expression, and what its values are.
-/

--
-- Types of Values
--

namespace ChenDB

namespace Executor

open ChenDB.Parser (AggregateFunction Node)
open Indexing (DataType)
open Library.StateExcept (ok_of_bind)

variable {φ : Type}
variable {value : Value φ} {width : Nat} {types : ColumnTypes}

/- `_literal_type`: NULL has none. -/
def literalType : Value φ → Option DataType
  | .null => none
  | .bool _ => some .boolean
  | .int _ => some .integer
  | .float _ => some .float
  | .text _ => some .text

/- NULL is of every type. -/
def Value.HasType
    (value : Value φ)
    (dataType : DataType) : Prop :=
  value.isNull = true ∨ literalType value = some dataType

def Value.isBoolean : Value φ → Bool
  | .bool _ => true
  | _ => false

/- NULL or a boolean. -/
def Value.IsCondition (value : Value φ) : Prop :=
  value.isNull = true ∨ value.isBoolean = true

theorem hasType_null (dataType : DataType) :
    (Value.null : Value φ).HasType dataType :=
  .inl rfl

theorem isBoolean_iff {value : Value φ} :
    value.isBoolean = true ↔
      literalType value = some .boolean := by
  cases value <;> simp [literalType, Value.isBoolean]

theorem isNull_iff {value : Value φ} :
    value.isNull = true ↔ literalType value = none := by
  cases value <;> simp [literalType, Value.isNull]

/- Whether a condition has another type is whether it is
   NULL. -/
theorem Value.IsCondition.hasType_iff
    {value : Value φ}
    {dataType : DataType}
    (hCondition : value.IsCondition)
    (hOther : dataType ≠ .boolean) :
    value.HasType dataType ↔ value.isBoolean = false := by
  rw [Bool.eq_false_iff, ne_eq, isBoolean_iff]
  constructor
  · rintro (hNull | hType)
    · rw [isNull_iff.mp hNull]
      exact nofun
    · rw [hType]
      exact fun hSame => hOther (Option.some.inj hSame)
  · intro hNot
    rcases hCondition with hNull | hBool
    · exact .inl hNull
    · exact absurd (isBoolean_iff.mp hBool) hNot

def ofSum : φ ⊕ Int → DataType
  | .inl _ => .float
  | .inr _ => .integer

/- The type of what two numbers are put together to. -/
def joined : φ ⊕ Int → φ ⊕ Int → DataType
  | .inr _, .inr _ => .integer
  | _, _ => .float

theorem literalType_number (number : φ ⊕ Int) :
    literalType (ofNumber number) =
      some (ofSum number) := by
  cases number <;> rfl

--
-- Types of Results
--

section Operators

variable [Double φ]

variable {number : φ ⊕ Int}

theorem literalType_of_check
    {what : String}
    (hOk : checkNumericRange number what = .ok value) :
    literalType value = some (ofSum number) := by
  cases number with
  | inl number =>
    simp only [checkNumericRange] at hOk
    split at hOk
    · cases hOk
      rfl
    · cases hOk
  | inr number =>
    simp only [checkNumericRange] at hOk
    split at hOk
    · cases hOk
      rfl
    · cases hOk

variable {doubles : φ → φ → φ} {first second : φ ⊕ Int}

theorem ofSum_onDoubles
    (hOk : onDoubles doubles first second = .ok number) :
    ofSum number = .float := by
  rcases ok_of_bind hOk with ⟨_, _, hRest⟩
  rcases ok_of_bind hRest with ⟨_, _, hDone⟩
  cases hDone
  rfl

theorem ofSum_arithmetic
    {ints : Int → Int → Int}
    (hOk : arithmetic ints doubles first second = .ok number) :
    ofSum number = joined first second := by
  cases first with
  | inl first => exact ofSum_onDoubles hOk
  | inr first =>
    cases second with
    | inl second => exact ofSum_onDoubles hOk
    | inr second =>
      cases hOk
      rfl

@[simp] theorem ofSum_negate (number : φ ⊕ Int) :
    ofSum (negate number) = ofSum number := by
  cases number <;> rfl

theorem literalType_of_divide
    (hOk : divide first second = .ok value) :
    literalType value = some (joined first second) := by
  unfold divide at hOk
  split at hOk
  · cases hOk
  · split at hOk
    · cases hOk
      rfl
    · rename_i hDoubles
      rcases ok_of_bind hOk with ⟨_, hQuotient, hLast⟩
      rw [literalType_of_check hLast, ofSum_onDoubles hQuotient]
      cases first with
      | inl first => rfl
      | inr first =>
        cases second with
        | inl second => rfl
        | inr second => exact absurd rfl (hDoubles _ _ rfl)

/- The magnitude of a number is a number of its type. -/
theorem joined_magnitude (first second : φ ⊕ Int) :
    joined (magnitude first) (magnitude second) =
      joined first second := by
  unfold magnitude
  split <;> split <;> cases first <;> cases second <;> rfl

theorem ofSum_exactRemainder
    (hOk : exactRemainder first second = .ok number) :
    ofSum number = joined first second := by
  unfold exactRemainder at hOk
  split at hOk
  · cases hOk
    rfl
  · cases hOk
    rfl
  · rename_i hInts _
    have hJoined : joined first second = .float := by
      cases first with
      | inl first => rfl
      | inr first =>
        cases second with
        | inl second => rfl
        | inr second => exact absurd rfl (hInts _ _ rfl)
    rw [hJoined]
    split at hOk
    · split at hOk
      · cases hOk
        rfl
      · cases hOk
    · exact ofSum_onDoubles hOk

theorem literalType_of_modulo
    (hOk : modulo first second = .ok value) :
    literalType value = some (joined first second) := by
  unfold modulo at hOk
  split at hOk
  · cases hOk
  · rcases ok_of_bind hOk with ⟨_, hRemainder, hLast⟩
    rw [literalType_of_check hLast,
      ← joined_magnitude first second,
      ← ofSum_exactRemainder hRemainder]
    split
    · rw [ofSum_negate]
    · rfl

variable {op : BinaryOperator}

/- An operator that neither compares nor is logical takes two
   numbers to one. -/
theorem literalType_of_binaryValue
    {left right : Value φ}
    (hOp : (op.isComparison || op.isLogical) = false)
    (hOk : binaryValue op left right = .ok value) :
    ∃ first second,
      literalType left = some (ofSum first) ∧
      literalType right = some (ofSum second) ∧
      literalType value =
        some (joined (φ := φ) first second) := by
  have hAssemble : ∀ {first second : φ ⊕ Int},
      left = ofNumber first →
      right = ofNumber second →
      literalType value = some (joined first second) →
      ∃ first second,
        literalType left = some (ofSum first) ∧
        literalType right = some (ofSum second) ∧
        literalType value =
          some (joined (φ := φ) first second) := by
    rintro first second rfl rfl hType
    exact ⟨first, second, literalType_number _,
      literalType_number _, hType⟩
  cases op
  case add =>
    rcases numbers_of_ok hOk with ⟨_, _, hLeft, hRight, hRest⟩
    rcases ok_of_bind hRest with ⟨_, hNumber, hLast⟩
    refine hAssemble hLeft hRight ?_
    rw [literalType_of_check hLast, ofSum_arithmetic hNumber]
  case subtract =>
    rcases numbers_of_ok hOk with ⟨_, _, hLeft, hRight, hRest⟩
    rcases ok_of_bind hRest with ⟨_, hNumber, hLast⟩
    refine hAssemble hLeft hRight ?_
    rw [literalType_of_check hLast, ofSum_arithmetic hNumber]
  case multiply =>
    rcases numbers_of_ok hOk with ⟨_, _, hLeft, hRight, hRest⟩
    rcases ok_of_bind hRest with ⟨_, hNumber, hLast⟩
    refine hAssemble hLeft hRight ?_
    rw [literalType_of_check hLast, ofSum_arithmetic hNumber]
  case divide =>
    rcases numbers_of_ok hOk with ⟨_, _, hLeft, hRight, hLast⟩
    exact hAssemble hLeft hRight (literalType_of_divide hLast)
  case modulo =>
    rcases numbers_of_ok hOk with ⟨_, _, hLeft, hRight, hLast⟩
    exact hAssemble hLeft hRight (literalType_of_modulo hLast)
  all_goals cases hOp

/- Every operator that is not arithmetic comes to NULL or a
   boolean. -/
theorem condition_of_binaryOp
    {width : Nat}
    {row : Row φ width}
    {left right : Expression φ}
    (hOp : (op.isComparison || op.isLogical) = true)
    (hOk : evaluate row (.binaryOp op left right) = .ok value) :
    value.IsCondition := by
  cases hLogical : op.isLogical with
  | true =>
    rcases logical_known hLogical hOk with ⟨known, rfl⟩
    cases known with
    | none => exact .inl rfl
    | some known => exact .inr rfl
  | false =>
    rw [evaluate_strict hLogical] at hOk
    rcases ok_of_bind hOk with ⟨first, _, hRest⟩
    rcases ok_of_bind hRest with ⟨second, _, hLast⟩
    split at hLast
    · cases hLast
      exact .inl rfl
    · cases op
      case eq | neq | lt | lte | gt | gte =>
        rcases ok_of_bind hLast with ⟨order, _, hLast⟩
        cases hLast
        exact .inr rfl
      case and | or => cases hLogical
      all_goals cases hOp

end Operators

--
-- Types of Expressions
--

/- The declared types of the columns of the joined row. -/
abbrev ColumnTypes := Nat → Option DataType

mutual

/- Each column has the type that it was declared with, and
   each literal its own, as the parser gives it. -/
def Declared
    (types : ColumnTypes) : BoundExpression φ → Prop
  | .column _ reference =>
    types reference.columnIndex = some reference.dataType
  | .literal _ value dataType => dataType = literalType value
  | .countRows _ => True
  | .functionCall _ _ argument => Declared types argument
  | .unaryOp _ _ operand => Declared types operand
  | .binaryOp _ _ left right =>
    Declared types left ∧ Declared types right
  | .isNullTest _ operand _ => Declared types operand
  | .inList _ operand items _ _ =>
    Declared types operand ∧ DeclaredItems types items
termination_by structural expression => expression

def DeclaredItems
    (types : ColumnTypes) : BoundItems φ → Prop
  | .one item => Declared types item
  | .more item rest =>
    Declared types item ∧ DeclaredItems types rest
termination_by structural items => items

end

/- A row whose values are of the declared types. -/
def Conforms {width : Nat}
    (types : ColumnTypes)
    (row : Row φ width) : Prop :=
  ∀ (index : Fin width) dataType,
    types index = some dataType → (row index).HasType dataType

section Soundness

variable [Double φ] {row : Row φ width}

variable {op : UnaryOperator} {operand : Value φ}
variable {dataType : DataType}

/- A unary operator keeps the type of its operand. -/
theorem hasType_of_unaryValue
    (hOk : unaryValue op operand = .ok value)
    (hOperand : operand.HasType dataType) :
    value.HasType dataType := by
  cases op with
  | not =>
    rcases ok_of_bind hOk with ⟨known, hKnown, hLast⟩
    cases hLast
    cases operand with
    | bool operand => exact hOperand
    | null => cases hKnown
    | int operand => cases hKnown
    | float operand => cases hKnown
    | text operand => cases hKnown
  | negate =>
    rcases ok_of_bind hOk with ⟨number, hNumber, hLast⟩
    rw [requireNumber_iff.mp hNumber] at hOperand
    refine .inr ?_
    rw [literalType_of_check hLast, ofSum_negate,
      ← literalType_number]
    rcases hOperand with hNull | hType
    · cases number <;> cases hNull
    · exact hType
  | plus =>
    rcases ok_of_bind hOk with ⟨number, _, hLast⟩
    cases hLast
    exact hOperand

/- The type of arithmetic on operands of two types. -/
def arithmeticType
    (left right : Option DataType) : Option DataType :=
  if left = right then left
  else
    match left, right with
    | some .integer, some .float => some .float
    | some .float, some .integer => some .float
    | _, _ => none

omit [Double φ] in
theorem staticType_arithmetic
    {node : Node}
    {op : BinaryOperator}
    {left right : BoundExpression φ}
    (hOp : (op.isComparison || op.isLogical) = false) :
    staticType (.binaryOp node op left right) =
      arithmeticType (staticType left) (staticType right) := by
  rcases Bool.or_eq_false_iff.mp hOp with ⟨hFirst, hSecond⟩
  simp only [staticType, hFirst, hSecond, Bool.false_eq_true,
    or_self, if_false]
  rfl

/- What an arithmetic operator comes to, when it is not
   NULL. -/
theorem numbers_of_arithmetic
    {op : BinaryOperator}
    {left right : Expression φ}
    (hOp : (op.isComparison || op.isLogical) = false)
    (hOk : evaluate row (.binaryOp op left right) = .ok value) :
    value.isNull = true ∨ ∃ leftValue rightValue,
      ∃ first second : φ ⊕ Int,
        evaluate row left = .ok leftValue ∧
        evaluate row right = .ok rightValue ∧
        literalType leftValue = some (ofSum first) ∧
        literalType rightValue = some (ofSum second) ∧
        literalType value = some (joined first second) := by
  rw [evaluate_strict (Bool.or_eq_false_iff.mp hOp).2] at hOk
  rcases ok_of_bind hOk with ⟨leftValue, hLeft, hRest⟩
  rcases ok_of_bind hRest with ⟨rightValue, hRight, hLast⟩
  split at hLast
  · cases hLast
    exact .inl rfl
  · rcases literalType_of_binaryValue hOp hLast with
      ⟨first, second, hFirst, hSecond, hValue⟩
    exact .inr ⟨leftValue, rightValue, first, second,
      hLeft, hRight, hFirst, hSecond, hValue⟩

omit [Double φ] in
theorem type_of_number
    {number : φ ⊕ Int}
    (hType : value.HasType dataType)
    (hNumber : literalType value = some (ofSum number)) :
    ofSum number = dataType := by
  rcases hType with hNull | hType
  · rw [isNull_iff, hNumber] at hNull
    cases hNull
  · rw [hNumber] at hType
    exact Option.some.inj hType

/- The value of an expression is of its static type; where
   the type is not known, it is NULL or a boolean. -/
structure Typed
    (dataType : Option DataType)
    (value : Value φ) : Prop where
  known : ∀ found, dataType = some found → value.HasType found
  unknown : dataType = none → value.IsCondition

omit [Double φ] in
theorem Typed.null (dataType : Option DataType) :
    Typed dataType (Value.null : Value φ) where
  known := fun found _ => hasType_null found
  unknown := fun _ => .inl rfl

omit [Double φ] in
theorem Typed.of_hasType
    (hType : value.HasType dataType) :
    Typed (some dataType) value where
  known := by
    rintro _ ⟨⟩
    exact hType
  unknown := nofun

omit [Double φ] in
theorem typed_condition
    (hCondition : value.IsCondition) :
    Typed (some .boolean) value := by
  refine .of_hasType ?_
  rcases hCondition with hNull | hBool
  · exact .inl hNull
  · exact .inr (isBoolean_iff.mp hBool)

/- A unary operator evaluates its operand, and looks at what
   is known. -/
theorem unaryOp_ok
    {operand : Expression φ}
    (hOk : evaluate row (.unaryOp op operand) = .ok value) :
    ∃ found, evaluate row operand = .ok found ∧
      (value.isNull = true ∨
        unaryValue op found = .ok value) := by
  simp only [evaluate] at hOk
  rcases ok_of_bind hOk with ⟨found, hFound, hLast⟩
  refine ⟨found, hFound, ?_⟩
  cases found with
  | null =>
    cases hLast
    exact .inl rfl
  | _ => exact .inr hLast

/- Of the conditions, only `NOT` takes a boolean. -/
theorem condition_of_unaryValue
    (hOk : unaryValue op operand = .ok value)
    (hOperand : operand.IsCondition) :
    value.IsCondition := by
  cases op with
  | not =>
    rcases ok_of_bind hOk with ⟨known, _, hLast⟩
    cases hLast
    exact .inr rfl
  | negate =>
    rcases ok_of_bind hOk with ⟨number, hNumber, _⟩
    rw [requireNumber_iff.mp hNumber] at hOperand
    cases number <;> rcases hOperand with hNull | hBool <;>
      cases ‹_›
  | plus =>
    rcases ok_of_bind hOk with ⟨number, hNumber, _⟩
    rw [requireNumber_iff.mp hNumber] at hOperand
    cases number <;> rcases hOperand with hNull | hBool <;>
      cases ‹_›

omit [Double φ] in
/- The types of two operands, and of what arithmetic makes of
   their values. -/
theorem typed_arithmetic
    {left right : Option DataType}
    {leftValue rightValue : Value φ}
    {first second : φ ⊕ Int}
    (hLeft : Typed left leftValue)
    (hRight : Typed right rightValue)
    (hFirst : literalType leftValue = some (ofSum first))
    (hSecond : literalType rightValue = some (ofSum second))
    (hValue : literalType value = some (joined first second)) :
    Typed (arithmeticType left right) value := by
  have hOperand : ∀ {dataType : Option DataType}
      {operand : Value φ} {number : φ ⊕ Int},
      Typed dataType operand →
      literalType operand = some (ofSum number) →
      dataType = some (ofSum number) := by
    intro dataType operand number hTyped hNumber
    cases dataType with
    | none =>
      rcases hTyped.unknown rfl with hNull | hBool
      · rw [isNull_iff, hNumber] at hNull
        cases hNull
      · rw [isBoolean_iff, hNumber] at hBool
        cases number <;> cases hBool
    | some dataType =>
      rw [type_of_number (hTyped.known _ rfl) hNumber]
  rw [hOperand hLeft hFirst, hOperand hRight hSecond]
  cases first <;> cases second <;>
    exact .of_hasType (.inr hValue)

/- A value is of the static type of its expression. -/
theorem typed_evaluate
    (hRow : Conforms types row)
    (expression : BoundExpression φ)
    (hDeclared : Declared types expression)
    {value : Value φ}
    (hValue : evaluateBound row expression = .ok value) :
    Typed (staticType expression) value := by
  cases expression with
  | column node reference =>
    simp only [evaluateBound, BoundExpression.toExpression,
      evaluate] at hValue
    split at hValue
    · rename_i hIndex
      cases hValue
      exact .of_hasType
        (hRow ⟨reference.columnIndex, hIndex⟩ _ hDeclared)
    · cases hValue
  | literal node constant dataType =>
    cases hValue
    simp only [Declared] at hDeclared
    simp only [staticType, hDeclared]
    cases value with
    | null => exact .null _
    | _ => exact .of_hasType (.inr rfl)
  | countRows node => cases hValue
  | functionCall node function argument => cases hValue
  | unaryOp node op operand =>
    rcases unaryOp_ok hValue with ⟨found, hFound, hNull | hLast⟩
    · cases value with
      | null => exact .null _
      | _ => cases hNull
    · have hTyped :=
        typed_evaluate hRow operand hDeclared hFound
      exact ⟨fun dataType hType => hasType_of_unaryValue
          hLast (hTyped.known dataType hType),
        fun hNone => condition_of_unaryValue hLast
          (hTyped.unknown hNone)⟩
  | binaryOp node op left right =>
    cases hOp : op.isComparison || op.isLogical with
    | true =>
      have hType : staticType
          (.binaryOp node op left right) =
            some .boolean := by
        rw [Bool.or_eq_true] at hOp
        simp only [staticType, if_pos hOp]
      rw [hType]
      exact typed_condition
        (condition_of_binaryOp hOp hValue)
    | false =>
      rw [staticType_arithmetic hOp]
      rcases numbers_of_arithmetic hOp hValue with
        hNull | ⟨leftValue, rightValue, first, second,
          hLeft, hRight, hFirst, hSecond, hBoth⟩
      · cases value with
        | null => exact .null _
        | _ => cases hNull
      · exact typed_arithmetic
          (typed_evaluate hRow left hDeclared.1 hLeft)
          (typed_evaluate hRow right hDeclared.2 hRight)
          hFirst hSecond hBoth
  | isNullTest node operand negated =>
    simp only [evaluateBound, BoundExpression.toExpression,
      evaluate] at hValue
    rcases ok_of_bind hValue with ⟨found, _, hLast⟩
    cases hLast
    exact .of_hasType (.inr rfl)
  | inList node operand items negated identity =>
    simp only [evaluateBound, BoundExpression.toExpression,
      evaluate] at hValue
    rcases ok_of_bind hValue with ⟨found, _, hLast⟩
    refine ⟨fun dataType hType => ?_, fun _ => ?_⟩
    · simp only [staticType] at hType
      cases hType
    · rcases evaluateItems_known _ _ hLast with ⟨known, rfl⟩
      cases known with
      | none => exact .inl rfl
      | some known => exact .inr rfl
termination_by structural expression

end Soundness

--
-- Types and Signatures
--

/- Expressions that read the same have one static type. -/
theorem staticType_of_signature
    {types : ColumnTypes} :
    ∀ first second : BoundExpression φ,
      Declared types first → Declared types second →
      signature first = signature second →
      staticType first = staticType second
  | .column _ reference, second, hFirst, hSecond, hSame => by
      cases second with
      | column node other =>
        simp only [signature, Signature.col.injEq] at hSame
        simp only [Declared] at hFirst hSecond
        rw [hSame, hSecond] at hFirst
        simp only [staticType]
        exact hFirst.symm
      | _ => simp [signature] at hSame
  | .literal _ _ _, second, _, _, hSame => by
      cases second with
      | literal node value dataType =>
        simp only [signature, Signature.lit.injEq] at hSame
        exact hSame.2
      | _ => simp [signature] at hSame
  | .countRows _, second, _, _, hSame => by
      cases second with
      | countRows node => rfl
      | _ => simp [signature] at hSame
  | .functionCall _ function argument, second, hFirst,
      hSecond, hSame => by
      cases second with
      | functionCall node other argument' =>
        simp only [signature, Signature.agg.injEq] at hSame
        rcases hSame with ⟨rfl, hArgument⟩
        have hType := staticType_of_signature argument
          argument' hFirst hSecond hArgument
        simp only [staticType, hType]
      | _ => simp [signature] at hSame
  | .unaryOp _ op operand, second, hFirst, hSecond, hSame => by
      cases second with
      | unaryOp node other operand' =>
        simp only [signature, Signature.un.injEq] at hSame
        exact staticType_of_signature operand operand'
          hFirst hSecond hSame.2
      | _ => simp [signature] at hSame
  | .binaryOp _ op left right, second, hFirst, hSecond,
      hSame => by
      cases second with
      | binaryOp node other left' right' =>
        simp only [signature, Signature.bin.injEq] at hSame
        rcases hSame with ⟨rfl, hLeft, hRight⟩
        have hLeftType := staticType_of_signature left left'
          hFirst.1 hSecond.1 hLeft
        have hRightType := staticType_of_signature right
          right' hFirst.2 hSecond.2 hRight
        simp only [staticType, hLeftType, hRightType]
      | _ => simp [signature] at hSame
  | .isNullTest _ _ _, second, _, _, hSame => by
      cases second with
      | isNullTest node operand negated => rfl
      | _ => simp [signature] at hSame
  | .inList _ _ _ _ _, second, _, _, hSame => by
      cases second with
      | inList node operand items negated identity => rfl
      | _ => simp [signature] at hSame

mutual

theorem declared_of_mem :
    ∀ expression node : BoundExpression φ,
      Declared types expression → node ∈ expression.walk →
      Declared types node
  | .column _ _, node, hDeclared, hMem => by
      rw [List.mem_singleton.mp hMem]
      exact hDeclared
  | .literal _ _ _, node, hDeclared, hMem => by
      rw [List.mem_singleton.mp hMem]
      exact hDeclared
  | .countRows _, node, hDeclared, hMem => by
      rw [List.mem_singleton.mp hMem]
      exact hDeclared
  | .functionCall _ _ argument, node, hDeclared, hMem => by
      rcases List.mem_cons.mp hMem with rfl | hMem
      · exact hDeclared
      · exact declared_of_mem argument node hDeclared hMem
  | .unaryOp _ _ operand, node, hDeclared, hMem => by
      rcases List.mem_cons.mp hMem with rfl | hMem
      · exact hDeclared
      · exact declared_of_mem operand node hDeclared hMem
  | .binaryOp _ _ left right, node, hDeclared, hMem => by
      rcases List.mem_cons.mp hMem with rfl | hMem
      · exact hDeclared
      · rcases List.mem_append.mp hMem with hMem | hMem
        · exact declared_of_mem left node hDeclared.1 hMem
        · exact declared_of_mem right node hDeclared.2 hMem
  | .isNullTest _ operand _, node, hDeclared, hMem => by
      rcases List.mem_cons.mp hMem with rfl | hMem
      · exact hDeclared
      · exact declared_of_mem operand node hDeclared hMem
  | .inList _ operand items _ _, node, hDeclared, hMem => by
      rcases List.mem_cons.mp hMem with rfl | hMem
      · exact hDeclared
      · rcases List.mem_append.mp hMem with hMem | hMem
        · exact declared_of_mem operand node hDeclared.1 hMem
        · exact declared_of_memItems items node hDeclared.2
            hMem

theorem declared_of_memItems :
    ∀ (items : BoundItems φ) (node : BoundExpression φ),
      DeclaredItems types items →
      node ∈ BoundExpression.walkItems items →
      Declared types node
  | .one item, node, hDeclared, hMem =>
    declared_of_mem item node hDeclared hMem
  | .more item rest, node, hDeclared, hMem => by
      rcases List.mem_append.mp hMem with hMem | hMem
      · exact declared_of_mem item node hDeclared.1 hMem
      · exact declared_of_memItems rest node hDeclared.2 hMem

end

--
-- Types of Aggregates
--

section Aggregates

variable [Double φ]

/- The values an aggregate takes in, row by row: those that
   are not NULL. -/
def knownValues
    (rows : List (Row φ width))
    (argument : BoundExpression φ) : List (Value φ) :=
  rows.filterMap fun row =>
    match evaluateBound row argument with
    | .ok value => if value.isNull then none else some value
    | .error _ => none

variable {rows : List (Row φ width)} {row : Row φ width}
variable {argument : BoundExpression φ}

theorem mem_knownValues :
    value ∈ knownValues rows argument ↔
      value.isNull = false ∧
        ∃ row ∈ rows, evaluateBound row argument =
          .ok value := by
  unfold knownValues
  rw [List.mem_filterMap]
  constructor
  · rintro ⟨row, hRow, hKept⟩
    cases hValue : evaluateBound row argument with
    | error raised =>
      rw [hValue] at hKept
      cases hKept
    | ok found =>
      rw [hValue] at hKept
      simp only at hKept
      split at hKept
      · cases hKept
      · rename_i hKnown
        cases hKept
        exact ⟨Bool.eq_false_of_not_eq_true hKnown, row,
          hRow, hValue⟩
  · rintro ⟨hKnown, row, hRow, hValue⟩
    refine ⟨row, hRow, ?_⟩
    rw [hValue]
    simp only [hKnown, Bool.false_eq_true, if_false]

theorem knownValues_snoc
    (hValue : evaluateBound row argument = .ok value) :
    knownValues (rows ++ [row]) argument =
      knownValues rows argument ++
        if value.isNull then [] else [value] := by
  unfold knownValues
  rw [List.filterMap_append]
  refine congrArg _ ?_
  cases hNull : value.isNull <;>
    simp [hValue, hNull]

variable {accumulator : Accumulator φ}

/- The steps of adding a value that is not NULL. -/
theorem add_known
    (hKnown : value.isNull = false) :
    accumulator.add value =
      (if accumulator.sum.isNull then .ok value
        else addValues accumulator.sum value).bind
          fun total => (checkTotal total).bind fun sum =>
      (if accumulator.min.isNull then .ok true
        else lessThan value accumulator.min).bind
          fun lesser =>
      (if accumulator.max.isNull then .ok true
        else lessThan accumulator.max value).bind
          fun greater => .ok
            { function := accumulator.function
              count := accumulator.count + 1
              sum := sum
              min :=
                if lesser then value else accumulator.min
              max :=
                if greater then value
                else accumulator.max } := by
  unfold Accumulator.add
  rw [if_neg (by simp [hKnown])]
  by_cases hSum : accumulator.sum.isNull = true <;>
    by_cases hMin : accumulator.min.isNull = true <;>
    by_cases hMax : accumulator.max.isNull = true <;>
    simp only [hSum, hMin, hMax, if_true, if_false, bind,
      Bool.false_eq_true] <;>
    rfl

variable {next : Accumulator φ}

/- What a value that is not NULL does to an accumulator. -/
theorem add_ok
    (hKnown : value.isNull = false)
    (hOk : accumulator.add value = .ok next) :
    next.function = accumulator.function ∧
    next.count = accumulator.count + 1 ∧
    (∃ total, checkTotal total = .ok next.sum ∧
      (accumulator.sum.isNull = true ∧ total = value ∨
        accumulator.sum.isNull = false ∧
          addValues accumulator.sum value = .ok total)) ∧
    (next.min = value ∨ accumulator.min.isNull = false ∧
      next.min = accumulator.min) ∧
    (next.max = value ∨ accumulator.max.isNull = false ∧
      next.max = accumulator.max) := by
  rw [add_known hKnown] at hOk
  rcases ok_of_bind hOk with ⟨total, hTotal, hRest⟩
  rcases ok_of_bind hRest with ⟨sum, hSum, hRest⟩
  rcases ok_of_bind hRest with ⟨lesser, hLesser, hRest⟩
  rcases ok_of_bind hRest with ⟨greater, hGreater, hLast⟩
  cases hLast
  refine ⟨rfl, rfl, ⟨total, hSum, ?_⟩, ?_, ?_⟩
  · cases hNone : accumulator.sum.isNull with
    | true =>
      rw [hNone] at hTotal
      cases hTotal
      exact .inl ⟨rfl, rfl⟩
    | false =>
      rw [hNone] at hTotal
      exact .inr ⟨rfl, hTotal⟩
  · cases lesser with
    | true => exact .inl rfl
    | false =>
      refine .inr ⟨?_, rfl⟩
      cases hNone : accumulator.min.isNull with
      | true =>
        rw [hNone] at hLesser
        cases hLesser
      | false => rfl
  · cases greater with
    | true => exact .inl rfl
    | false =>
      refine .inr ⟨?_, rfl⟩
      cases hNone : accumulator.max.isNull with
      | true =>
        rw [hNone] at hGreater
        cases hGreater
      | false => rfl

variable {total : Value φ}

theorem literalType_of_total
    {sum : Value φ}
    (hOk : checkTotal total = .ok sum) :
    literalType sum = literalType total := by
  cases total with
  | int total =>
    have hCheck : checkNumericRange (.inr total) "SUM" =
        .ok sum := hOk
    exact literalType_of_check hCheck
  | float total =>
    have hCheck : checkNumericRange (.inl total) "SUM" =
        .ok sum := hOk
    exact literalType_of_check hCheck
  | null =>
    cases hOk
    rfl
  | bool total =>
    cases hOk
    rfl
  | text total =>
    cases hOk
    rfl

variable {left right : Value φ}

/- Two numbers, or two texts, have been added up. -/
theorem addValues_ok
    (hOk : addValues left right = .ok total) :
    (∃ first second number,
      asNumber left = some first ∧
      asNumber right = some second ∧
      ofSum number = joined (φ := φ) first second ∧
      total = ofNumber number) ∨
    ∃ first second, left = .text first ∧
      right = .text second ∧ total = .text (first ++ second) := by
  unfold addValues at hOk
  split at hOk
  · rename_i first second hFirst hSecond
    cases hSum : arithmetic (· + ·) Double.add first second with
    | error raised =>
      rw [hSum] at hOk
      cases hOk
    | ok number =>
      rw [hSum] at hOk
      cases hOk
      exact .inl ⟨first, second, number, hFirst, hSecond,
        ofSum_arithmetic hSum, rfl⟩
  · split at hOk
    · cases hOk
      exact .inr ⟨_, _, rfl, rfl, rfl⟩
    · cases hOk

/- A running total of numbers of one type is one too, and of
   booleans, an integer. -/
theorem literalType_of_addValues
    (hOk : addValues left right = .ok total) :
    (∀ dataType, dataType = .integer ∨ dataType = .float →
      literalType left = some dataType →
      literalType right = some dataType →
      literalType total = some dataType) ∧
    (right.isBoolean = true →
      left.isBoolean = true ∨ literalType left = some .integer →
      literalType total = some .integer) := by
  rcases addValues_ok hOk with
    ⟨first, second, number, hLeft, hRight, hType, rfl⟩ |
      ⟨first, second, rfl, rfl, rfl⟩
  · rw [literalType_number, hType]
    cases left <;> cases hLeft <;> cases right <;>
      cases hRight <;>
      simp [literalType, Value.isBoolean, joined]
  · simp [literalType, Value.isBoolean]

/- What an accumulator has come to over the values that are
   not NULL. -/
structure Totals
    (values : List (Value φ))
    (accumulator : Accumulator φ) : Prop where
  counted : accumulator.count = values.length
  sum_null : values = [] → accumulator.sum = .null
  sum_known : values ≠ [] → accumulator.sum.isNull = false
  sum_number : ∀ dataType,
    dataType = .integer ∨ dataType = .float →
    (∀ value ∈ values, literalType value = some dataType) →
    values ≠ [] → literalType accumulator.sum = some dataType
  sum_boolean : (∀ value ∈ values, value.isBoolean = true) →
    values ≠ [] →
      if values.length = 1 then
        accumulator.sum.isBoolean = true
      else literalType accumulator.sum = some .integer
  min_null : values = [] → accumulator.min = .null
  min_known : values ≠ [] → accumulator.min ∈ values
  max_null : values = [] → accumulator.max = .null
  max_known : values ≠ [] → accumulator.max ∈ values

omit [Double φ] in
theorem Totals.start (function : AggregateFunction) :
    Totals [] (Accumulator.start function :
      Accumulator φ) where
  counted := rfl
  sum_null := fun _ => rfl
  sum_known := fun hSome => absurd rfl hSome
  sum_number := fun _ _ _ hSome => absurd rfl hSome
  sum_boolean := fun _ hSome => absurd rfl hSome
  min_null := fun _ => rfl
  min_known := fun hSome => absurd rfl hSome
  max_null := fun _ => rfl
  max_known := fun hSome => absurd rfl hSome

variable {values : List (Value φ)}

omit [Double φ] in
/- The least and the greatest value so far, with one more. -/
theorem mem_of_replaced
    {before after : Value φ}
    (hNull : values = [] → before = .null)
    (hKnown : values ≠ [] → before ∈ values)
    (hAfter : after = value ∨ before.isNull = false ∧
      after = before) :
    after ∈ values ++ [value] := by
  rw [List.mem_append, List.mem_singleton]
  rcases hAfter with rfl | ⟨hSome, rfl⟩
  · exact .inr rfl
  · by_cases hEmpty : values = []
    · rw [hNull hEmpty] at hSome
      cases hSome
    · exact .inl (hKnown hEmpty)

theorem addValues_known
    (hOk : addValues left right = .ok total) :
    total.isNull = false := by
  rcases addValues_ok hOk with
    ⟨_, _, number, _, _, _, rfl⟩ | ⟨_, _, _, _, rfl⟩
  · cases number <;> rfl
  · rfl

theorem Totals.add
    (hTotals : Totals values accumulator)
    (hKnown : value.isNull = false)
    (hOk : accumulator.add value = .ok next) :
    Totals (values ++ [value]) next := by
  rcases add_ok hKnown hOk with
    ⟨_, hCount, ⟨total, hSum, hTotal⟩, hMin, hMax⟩
  have hNew : values ++ [value] ≠ [] := by simp
  have hSumType := literalType_of_total hSum
  -- The total is the value itself only for the first one.
  have hFirst : values = [] → total = value := by
    intro hEmpty
    rcases hTotal with ⟨_, hSame⟩ | ⟨hSome, _⟩
    · exact hSame
    · rw [hTotals.sum_null hEmpty] at hSome
      cases hSome
  have hLater : values ≠ [] →
      addValues accumulator.sum value = .ok total := by
    intro hSome
    rcases hTotal with ⟨hNull, _⟩ | ⟨_, hAdd⟩
    · rw [hTotals.sum_known hSome] at hNull
      cases hNull
    · exact hAdd
  refine {
    counted := ?_
    sum_null := fun hEmpty => absurd hEmpty hNew
    sum_known := fun _ => ?_
    sum_number := ?_
    sum_boolean := ?_
    min_null := fun hEmpty => absurd hEmpty hNew
    min_known := fun _ => mem_of_replaced hTotals.min_null
      hTotals.min_known hMin
    max_null := fun hEmpty => absurd hEmpty hNew
    max_known := fun _ => mem_of_replaced hTotals.max_null
      hTotals.max_known hMax }
  · rw [hCount, hTotals.counted, List.length_append,
      List.length_singleton]
  · have hTotalKnown : total.isNull = false := by
      by_cases hEmpty : values = []
      · rw [hFirst hEmpty]
        exact hKnown
      · exact addValues_known (hLater hEmpty)
    rw [Bool.eq_false_iff, ne_eq, isNull_iff, hSumType,
      ← isNull_iff]
    simp [hTotalKnown]
  · intro dataType hNumber hAll _
    have hValue := hAll value (by simp)
    rw [hSumType]
    by_cases hEmpty : values = []
    · rw [hFirst hEmpty]
      exact hValue
    · have hBefore := hTotals.sum_number dataType hNumber
        (fun other hMem => hAll other
          (List.mem_append_left _ hMem)) hEmpty
      exact (literalType_of_addValues (hLater hEmpty)).1
        dataType hNumber hBefore hValue
  · intro hAll _
    have hValue := hAll value (by simp)
    by_cases hEmpty : values = []
    · rw [if_pos (by simp [hEmpty]), isBoolean_iff, hSumType,
        hFirst hEmpty, ← isBoolean_iff]
      exact hValue
    · have hLength := List.length_pos_of_ne_nil hEmpty
      rw [if_neg (by
        rw [List.length_append, List.length_singleton]
        omega), hSumType]
      have hBefore := hTotals.sum_boolean
        (fun other hMem => hAll other
          (List.mem_append_left _ hMem)) hEmpty
      refine (literalType_of_addValues (hLater hEmpty)).2
        hValue ?_
      split at hBefore
      · exact .inl hBefore
      · exact .inr hBefore

/- What an aggregate comes to over the rows of a group. -/
theorem totals_of_accumulate
    {function : AggregateFunction}
    (hOk : accumulate (.over function argument) rows =
      .ok accumulator) :
    Totals (knownValues rows argument) accumulator ∧
      accumulator.function = function := by
  refine @Library.Traversal.foldlM_induction _ _ _ _
    (fun done accumulator =>
      Totals (knownValues done argument) accumulator ∧
        accumulator.function = function)
    ?_ rows [] _ _ ⟨Totals.start function, rfl⟩ hOk
  rintro done state row next ⟨hTotals, hFunction⟩ hStep
  rcases ok_of_bind hStep with ⟨value, hValue, hAdd⟩
  rw [knownValues_snoc hValue]
  cases hNull : value.isNull with
  | true =>
    unfold Accumulator.add at hAdd
    rw [if_pos hNull] at hAdd
    cases hAdd
    rw [if_pos rfl, List.append_nil]
    exact ⟨hTotals, hFunction⟩
  | false =>
    rw [if_neg (by simp)]
    exact ⟨hTotals.add hNull hAdd,
      (add_ok hNull hAdd).1.trans hFunction⟩

variable [TrueDivision φ]

/- An aggregate of unknown type that comes to a boolean: the
   least or the greatest of some, or the sum of one. -/
def Misleads
    (rows : List (Row φ width)) : Aggregate φ → Prop
  | .over .min argument =>
    staticType argument = none ∧ knownValues rows argument ≠ []
  | .over .max argument =>
    staticType argument = none ∧ knownValues rows argument ≠ []
  | .over .sum argument =>
    staticType argument = none ∧
      (knownValues rows argument).length = 1
  | _ => False

variable {span : Parser.SourceSpan}

omit [Double φ] [TrueDivision φ] in
theorem requireAggregable_sum
    {argument : BoundExpression φ}
    {dataType : DataType}
    (hOk : requireAggregable span (.over .sum argument) =
      .ok ())
    (hType : staticType argument = some dataType) :
    dataType = .integer ∨ dataType = .float := by
  simp only [requireAggregable, true_or, if_true, hType]
    at hOk
  cases dataType with
  | integer => exact .inl rfl
  | float => exact .inr rfl
  | boolean => cases hOk
  | text => cases hOk

/- The slot of an aggregate has the type of its reference,
   unless the aggregate misleads. -/
theorem aggregate_hasType_iff
    {types : ColumnTypes}
    {aggregate : Aggregate φ}
    (hAggregable : requireAggregable span aggregate = .ok ())
    (hDeclared : ∀ argument, aggregate.argument =
      some argument → Declared types argument)
    (hRows : ∀ row ∈ rows, Conforms types row)
    (hValue : overGroup rows aggregate = .ok value) :
    value.HasType
        ((aggregateType aggregate).getD .integer) ↔
      ¬ Misleads rows aggregate := by
  rcases ok_of_bind hValue with ⟨accumulator, hRun, hLast⟩
  cases aggregate with
  | countRows =>
    refine iff_of_true ?_ id
    have hFunction : accumulator.function = .count := by
      refine @Library.Traversal.foldlM_induction _ _ _ _
        (fun _ state => state.function = .count)
        ?_ rows [] _ _ rfl hRun
      intro done state row next hFunction hStep
      cases hStep
      exact hFunction
    unfold Accumulator.value at hLast
    rw [hFunction] at hLast
    cases hLast
    exact .inr rfl
  | «over» function argument =>
    rcases totals_of_accumulate hRun with ⟨hTotals, hFunction⟩
    have hArgument := hDeclared argument rfl
    have hTyped : ∀ found ∈ knownValues rows argument,
        found.isNull = false ∧
          Typed (staticType argument) found := by
      intro found hMem
      rcases mem_knownValues.mp hMem with
        ⟨hKnown, row, hRow, hFound⟩
      exact ⟨hKnown, typed_evaluate (hRows row hRow)
        argument hArgument hFound⟩
    have hBooleans : staticType argument = none →
        ∀ found ∈ knownValues rows argument,
          found.isBoolean = true := by
      intro hNone found hMem
      rcases (hTyped found hMem).2.unknown hNone with
        hNull | hBool
      · rw [(hTyped found hMem).1] at hNull
        cases hNull
      · exact hBool
    have hKnownType : ∀ dataType,
        staticType argument = some dataType →
        ∀ found ∈ knownValues rows argument,
          literalType found = some dataType := by
      intro dataType hType found hMem
      rcases (hTyped found hMem).2.known _ hType with
        hNull | hFound
      · rw [(hTyped found hMem).1] at hNull
        cases hNull
      · exact hFound
    -- The least and the greatest value go the same way.
    have hExtreme : ∀ extreme : Value φ,
        (knownValues rows argument = [] → extreme = .null) →
        (knownValues rows argument ≠ [] →
          extreme ∈ knownValues rows argument) →
        (extreme.HasType
            ((staticType argument).getD .integer) ↔
          ¬ (staticType argument = none ∧
            knownValues rows argument ≠ [])) := by
      intro extreme hNone hSome
      by_cases hEmpty : knownValues rows argument = []
      · rw [hNone hEmpty]
        exact iff_of_true (hasType_null _)
          fun hBoth => hBoth.2 hEmpty
      · have hMem := hSome hEmpty
        cases hType : staticType argument with
        | none =>
          refine iff_of_false ?_
            fun hNot => hNot ⟨rfl, hEmpty⟩
          have hBool := hBooleans hType extreme hMem
          rw [Option.getD_none,
            Value.IsCondition.hasType_iff (.inr hBool)
              (by decide), hBool]
          exact nofun
        | some dataType =>
          exact iff_of_true
            (.inr (hKnownType _ hType extreme hMem))
            fun hBoth => nomatch hBoth.1
    unfold Accumulator.value at hLast
    rw [hFunction] at hLast
    cases function with
    | count =>
      cases hLast
      exact iff_of_true (.inr rfl) id
    | avg =>
      refine iff_of_true ?_ id
      simp only at hLast
      split at hLast
      · cases hLast
        exact .inl rfl
      · split at hLast
        · cases hLast
          exact .inr rfl
        · cases hLast
          exact .inr rfl
        · cases hLast
    | min =>
      cases hLast
      exact hExtreme _ hTotals.min_null hTotals.min_known
    | max =>
      cases hLast
      exact hExtreme _ hTotals.max_null hTotals.max_known
    | sum =>
      cases hLast
      simp only [aggregateType, Misleads]
      by_cases hEmpty : knownValues rows argument = []
      · rw [hTotals.sum_null hEmpty, hEmpty]
        exact iff_of_true (hasType_null _)
          fun hBoth => nomatch hBoth.2
      · cases hType : staticType argument with
        | none =>
          have hBool := hTotals.sum_boolean
            (hBooleans hType) hEmpty
          split at hBool
          · rename_i hOne
            refine iff_of_false ?_
              fun hNot => hNot ⟨rfl, hOne⟩
            rw [Option.getD_none,
              Value.IsCondition.hasType_iff (.inr hBool)
                (by decide), hBool]
            exact nofun
          · rename_i hMany
            exact iff_of_true (.inr hBool)
              fun hBoth => hMany hBoth.2
        | some dataType =>
          exact iff_of_true
            (.inr (hTotals.sum_number dataType
              (requireAggregable_sum hAggregable hType)
              (hKnownType _ hType) hEmpty))
            fun hBoth => nomatch hBoth.1

end Aggregates

--
-- Types of Slots
--

section Slots

variable [Spelling φ] [DecidableEq φ]

/- The slot references that rewriting makes of an
   expression. -/
def created
    (keys : List (BoundExpression φ))
    (seen : Seen φ)
    (expression : BoundExpression φ) :
    List (BoundExpression φ) :=
  match groupSlot keys seen expression with
  | some reference => [reference]
  | none =>
    match expression with
    | .unaryOp _ _ operand => created keys seen operand
    | .binaryOp _ _ left right =>
      created keys seen left ++ created keys seen right
    | .isNullTest _ operand _ => created keys seen operand
    | _ => []

variable {keys : List (BoundExpression φ)} {seen : Seen φ}
variable {reference : BoundExpression φ}

/- A created reference is the slot of a node of the
   expression. -/
theorem mem_created :
    ∀ expression : BoundExpression φ,
      reference ∈ created keys seen expression →
      ∃ node ∈ expression.walk,
        groupSlot keys seen node = some reference := by
  intro expression hMem
  rw [created.eq_def] at hMem
  cases hSlot : groupSlot keys seen expression with
  | some found =>
    rw [hSlot] at hMem
    rw [List.mem_singleton.mp hMem]
    exact ⟨expression, BoundExpression.mem_walk_self _, hSlot⟩
  | none =>
    rw [hSlot] at hMem
    cases expression with
    | unaryOp place op operand =>
      rcases mem_created operand hMem with ⟨node, hNode, hFound⟩
      exact ⟨node, .tail _ hNode, hFound⟩
    | binaryOp place op left right =>
      rcases List.mem_append.mp hMem with hMem | hMem
      · rcases mem_created left hMem with
          ⟨node, hNode, hFound⟩
        exact ⟨node, List.mem_cons_of_mem _
          (List.mem_append_left _ hNode), hFound⟩
      · rcases mem_created right hMem with
          ⟨node, hNode, hFound⟩
        exact ⟨node, List.mem_cons_of_mem _
          (List.mem_append_right _ hNode), hFound⟩
    | isNullTest place operand negated =>
      rcases mem_created operand hMem with ⟨node, hNode, hFound⟩
      exact ⟨node, .tail _ hNode, hFound⟩
    | _ => cases hMem
termination_by structural expression => expression

/- A slot that a rewriting makes refers to a key of the same
   type, or to an aggregate. -/
theorem groupSlot_typed
    {expression : BoundExpression φ}
    (hKeys : ∀ key ∈ keys, Declared types key)
    (hExpression : Declared types expression)
    (hSlot : groupSlot keys seen expression = some reference) :
    (∃ index key name,
      keys[index]? = some key ∧
        reference = slotRef expression index
          (staticType key) name) ∨
    (∃ pair ∈ seen, ∃ name,
      reference = slotRef expression pair.2.slot
        (aggregateType pair.2.aggregate) name) := by
  unfold groupSlot at hSlot
  cases hIndex : indexBySignature keys
      (signature expression) with
  | some index =>
    rw [hIndex] at hSlot
    rcases indexBySignature_some hIndex with ⟨key, hKey, hSame⟩
    cases hSlot
    refine .inl ⟨index, key, "", hKey, ?_⟩
    rw [staticType_of_signature key expression
      (hKeys key (List.mem_of_getElem? hKey)) hExpression
      hSame]
  | none =>
    rw [hIndex] at hSlot
    rcases Option.map_eq_some_iff.mp hSlot with
      ⟨entry, hLookup, rfl⟩
    exact .inr ⟨_, Library.Traversal.mem_of_lookup hLookup,
      _, rfl⟩

/- What is registered can be added up. -/
theorem aggregable_of_foldlM
    {keys : Nat}
    {calls : List (BoundExpression φ)}
    (hOk : calls.foldlM (register keys) [] = .ok seen) :
    ∀ pair ∈ seen, ∃ span,
      requireAggregable span pair.2.aggregate = .ok () := by
  refine @Library.Traversal.foldlM_induction _ _ _ _
    (fun _ (seen : Seen φ) => ∀ pair ∈ seen, ∃ span,
      requireAggregable span pair.2.aggregate = .ok ())
    ?_ calls [] _ _
    (fun _ hMem => absurd hMem List.not_mem_nil) hOk
  intro done state call next hSeen hStep
  unfold register at hStep
  cases hCall : call.asAggregate with
  | none =>
    rw [hCall] at hStep
    cases hStep
    exact hSeen
  | some aggregate =>
    rw [hCall] at hStep
    rcases ok_of_bind hStep with ⟨_, hAggregable, hLast⟩
    split at hLast
    · cases hLast
      exact hSeen
    · cases hLast
      intro pair hMem
      rcases List.mem_append.mp hMem with hMem | hMem
      · exact hSeen pair hMem
      · rw [List.mem_singleton.mp hMem]
        exact ⟨_, hAggregable⟩

omit [Spelling φ] [DecidableEq φ] in
theorem declared_argument
    {call argument : BoundExpression φ}
    {aggregate : Aggregate φ}
    (hDeclared : Declared types call)
    (hCall : call.asAggregate = some aggregate)
    (hArgument : aggregate.argument = some argument) :
    Declared types argument := by
  cases call with
  | functionCall place function operand =>
    cases hCall
    cases hArgument
    exact hDeclared
  | countRows place =>
    cases hCall
    cases hArgument
  | _ => cases hCall

variable [Double φ] [TrueDivision φ]

/- The slots of a plan, and of the sort terms bound after it,
   hold values of the types of their references. -/
def SlotsTyped
    (width : Nat)
    (types : ColumnTypes)
    (projections groupKeys : List (BoundExpression φ))
    (having : Option (BoundExpression φ)) : Prop :=
  (∀ expression ∈
      projections ++ groupKeys ++ having.toList,
    Declared types expression) →
  ∀ rewritten aggregation
      (rows : List (Row φ width)) row grouped,
    planAggregation projections groupKeys having =
      .ok (rewritten, some aggregation) →
    (∀ row ∈ rows, Conforms types row) →
    IsGroupRow aggregation rows row grouped →
    ∀ expression node reference,
      Declared types expression →
      .column node reference ∈ created groupKeys
        (seenAgain aggregation.aggregates) expression →
      ∃ value,
        grouped[reference.columnIndex]? = some value ∧
          value.HasType reference.dataType

/- A slot whose type is not known, although what is in it is
   not NULL: of a key, or of an aggregate. -/
def SlotMisleads
    (aggregation : BoundAggregation φ)
    (rows : List (Row φ width))
    (row : Row φ width)
    (slot : Nat) : Prop :=
  match aggregation.groupKeys[slot]? with
  | some key => staticType key = none ∧
      evaluateBound row key ≠ .ok .null
  | none =>
    ∃ entry, aggregation.aggregates[
        slot - aggregation.groupKeys.length]? = some entry ∧
      Misleads rows entry.aggregate

omit [Spelling φ] [DecidableEq φ] [TrueDivision φ] in
theorem key_hasType_iff
    {row : Row φ width}
    {key : BoundExpression φ}
    {value : Value φ}
    (hRow : Conforms types row)
    (hKey : Declared types key)
    (hValue : evaluateBound row key = .ok value) :
    value.HasType ((staticType key).getD .integer) ↔
      ¬ (staticType key = none ∧
        evaluateBound row key ≠ .ok .null) := by
  have hTyped := typed_evaluate hRow key hKey hValue
  cases hType : staticType key with
  | some dataType =>
    exact iff_of_true (hTyped.known _ hType)
      fun hBoth => nomatch hBoth.1
  | none =>
    have hCondition := hTyped.unknown hType
    rw [Option.getD_none, hCondition.hasType_iff
      (by decide), hValue]
    cases value with
    | null =>
      exact iff_of_true rfl fun hBoth => hBoth.2 rfl
    | bool known =>
      refine iff_of_false ?_ fun hNot => hNot ⟨rfl, ?_⟩
      · exact Bool.noConfusion
      · intro hSame
        cases hSame
    | _ =>
      rcases hCondition with hNull | hBool <;>
        cases ‹_›

/-
  Static types are sound: an expression whose type is known
  comes to a value of that type or to NULL. A slot of the
  grouped row holds a value of the type that its references
  are given, those in the sort terms too, unless that type
  was not known and the value is a boolean.
-/
theorem static_types_iff
    (types : ColumnTypes) :
    (∀ (expression : BoundExpression φ) dataType
        (row : Row φ width) value,
      Declared types expression → Conforms types row →
      staticType expression = some dataType →
      evaluateBound row expression = .ok value →
        value.HasType dataType) ∧
    ∀ (projections groupKeys : List (BoundExpression φ))
        having rewritten aggregation
        (rows : List (Row φ width)) row grouped,
      (∀ expression ∈
          projections ++ groupKeys ++ having.toList,
        Declared types expression) →
      planAggregation projections groupKeys having =
        .ok (rewritten, some aggregation) →
      (∀ row ∈ rows, Conforms types row) →
      IsGroupRow aggregation rows row grouped →
      ∀ expression node reference,
        Declared types expression →
        .column node reference ∈ created groupKeys
          (seenAgain aggregation.aggregates) expression →
        ∃ value,
          grouped[reference.columnIndex]? = some value ∧
          (value.HasType reference.dataType ↔
            ¬ SlotMisleads aggregation rows row
              reference.columnIndex) := by
  constructor
  · intro expression dataType row value hDeclared hRow hType
      hValue
    exact (typed_evaluate hRow expression hDeclared
      hValue).known dataType hType
  · intro projections groupKeys having rewritten aggregation
      rows row grouped hDeclared hPlan hRows hGroup expression
      node reference hOuter hMem
    have hSeen : ∃ seen,
        ((projections ++ having.toList).flatMap
          BoundExpression.calls).foldlM
            (register groupKeys.length) [] = .ok seen ∧
        aggregation.groupKeys = groupKeys ∧
        aggregation.aggregates = seen.map Prod.snd := by
      unfold planAggregation at hPlan
      rcases ok_of_bind hPlan with ⟨seen, hSeen, hRest⟩
      refine ⟨seen, hSeen, ?_⟩
      split at hRest
      · cases hRest
      · rcases ok_of_bind hRest with ⟨_, _, hRest⟩
        rcases ok_of_bind hRest with ⟨_, _, hRest⟩
        cases hRest
        exact ⟨rfl, rfl⟩
    rcases hSeen with ⟨seen, hFold, hKeys, hAggregates⟩
    have hRegistered := registered_of_foldlM hFold
    rw [hAggregates, seenAgain_eq hRegistered.tabled] at hMem
    have hKeysDeclared : ∀ key ∈ groupKeys,
        Declared types key := fun key hKey =>
      hDeclared key (List.mem_append_left _
        (List.mem_append_right _ hKey))
    rcases mem_created expression hMem with
      ⟨inner, hInner, hSlot⟩
    have hInnerDeclared :=
      declared_of_mem expression inner hOuter hInner
    have hHolds := hGroup.holds
    rcases groupSlot_typed hKeysDeclared hInnerDeclared hSlot
      with ⟨index, key, name, hKey, hReference⟩ |
        ⟨pair, hPair, name, hReference⟩
    · cases hReference
      rw [← hKeys] at hKey
      rcases hHolds.keys hKey with ⟨value, hAt, hValue⟩
      refine ⟨value, hAt, ?_⟩
      have hRow : Conforms types row := by
        rcases hGroup with ⟨_, hRow⟩ | ⟨_, hNone, _⟩
        · exact hRows row hRow
        · rw [hNone] at hKey
          cases hKey
      unfold SlotMisleads
      simp only [hKey]
      rw [hKeys] at hKey
      exact key_hasType_iff hRow
        (hKeysDeclared key (List.mem_of_getElem? hKey))
        hValue
    · cases hReference
      rcases List.getElem_of_mem hPair with ⟨index, hIndex, hAt⟩
      have hPlace := hRegistered.tabled.slots index hIndex
      rw [hAt] at hPlace
      have hEntry : aggregation.aggregates[index]? =
          some pair.2 := by
        rw [hAggregates, List.getElem?_map,
          List.getElem?_eq_getElem hIndex, hAt]
        rfl
      rcases hHolds.aggregates hEntry with
        ⟨value, hThere, hValue⟩
      rw [hKeys] at hThere
      refine ⟨value, by simpa only [slotRef, hPlace] using
        hThere, ?_⟩
      have hBeyond :
          aggregation.groupKeys[pair.2.slot]? = none := by
        rw [List.getElem?_eq_none_iff, hKeys, hPlace]
        exact Nat.le_add_right _ _
      unfold SlotMisleads
      simp only [hBeyond]
      rw [hPlace, hKeys, Nat.add_sub_cancel_left, hEntry]
      simp only [Option.some.injEq, exists_eq_left']
      rcases aggregable_of_foldlM hFold pair hPair with
        ⟨span, hAggregable⟩
      refine aggregate_hasType_iff hAggregable ?_ hRows hValue
      intro argument hArgument
      rcases hRegistered.called pair hPair with
        ⟨call, hCall, hSame⟩
      rcases List.mem_flatMap.mp hCall with
        ⟨source, hSource, hCall⟩
      have hSourceDeclared : Declared types source := by
        rcases List.mem_append.mp hSource with hIn | hIn
        · exact hDeclared _ (List.mem_append_left _
            (List.mem_append_left _ hIn))
        · exact hDeclared _ (List.mem_append_right _ hIn)
      have hCallDeclared := declared_of_mem source call
        hSourceDeclared (List.mem_filter.mp hCall).1
      exact declared_argument hCallDeclared hSame hArgument

end Slots

--
-- The Least of Some Conditions
--

/- `SELECT MIN(a IN (1)) FROM t`. -/
def leastInList : Parser.SelectStatement Rat :=
  { projections :=
      [{ node := nowhere
         expression := .functionCall nowhere .min
          (.inList nowhere
            (.columnRef nowhere "a" none)
            (.one (.literal nowhere (.int 1) (some .integer)))
            false)
         alias_ := none }]
    table := { node := nowhere, name := "t", alias_ := none }
    joins := []
    where_ := none
    groupBy := []
    having := none
    orderBy := [] }

/- The columns of `twoColumns`. -/
def integerColumns : ColumnTypes := fun index =>
  if index < 2 then some .integer else none

/- The condition that `leastInList` is over, bound. -/
def isOne : BoundExpression Rat :=
  .inList nowhere
    (.column nowhere
      { name := "a"
        columnIndex := 0
        scanPosition := some 0
        dataType := .integer
        table := some "t"
        tableName := some "t"
        tablePosition := some 0 })
    (.one (.literal nowhere (.int 1) (some .integer)))
    false 0

def leastOfIsOne : BoundExpression Rat :=
  .functionCall nowhere .min isOne

/- A row of `t` with 1 in both columns. -/
def rowOfOnes : Row Rat 2 := fun _ => .int 1

theorem conforms_rowOfOnes :
    Conforms integerColumns rowOfOnes := by
  intro index dataType hType
  simp only [integerColumns, if_pos index.isLt] at hType
  exact .inr hType

theorem declared_leastOfIsOne :
    Declared integerColumns leastOfIsOne :=
  ⟨rfl, rfl⟩

def leastOnly : BoundAggregation Rat :=
  { groupKeys := []
    aggregates :=
      [{ aggregate := .over .min isOne
         slot := 0
         label := labelOf leastOfIsOne }]
    having := none }

def leastSlot : BoundExpression Rat :=
  slotRef leastOfIsOne 0 none (labelOf leastOfIsOne)

theorem planned_leastOnly :
    planAggregation [leastOfIsOne] [] none =
      .ok ([leastSlot], some leastOnly) :=
  rfl

/- The grouped row of one row with a 1 in `a`. -/
theorem isGroupRow_leastOnly :
    IsGroupRow leastOnly [rowOfOnes] rowOfOnes
      [.bool true] :=
  .inl ⟨⟨List.cons_ne_nil _ _, [], [.bool true],
    fun _ _ => rfl, rfl, rfl⟩, .head _⟩

theorem leastSlot_created :
    leastSlot ∈ created []
      (seenAgain leastOnly.aggregates) leastOfIsOne := by
  exact List.mem_singleton.mpr rfl

theorem all_declared :
    ∀ expression ∈ [leastOfIsOne],
      Declared integerColumns expression := by
  intro expression hMem
  rw [List.mem_singleton.mp hMem]
  exact declared_leastOfIsOne

theorem all_conform :
    ∀ row ∈ [rowOfOnes], Conforms integerColumns row := by
  intro row hMem
  rw [List.mem_singleton.mp hMem]
  exact conforms_rowOfOnes

theorem static_types_iff_least :
    (Value.int 1 : Value Rat).HasType .integer ∧
    ∃ value : Value Rat,
      [Value.bool true][0]? = some value ∧
      (value.HasType .integer ↔
        ¬ SlotMisleads leastOnly [rowOfOnes] rowOfOnes 0) :=
  ⟨(static_types_iff integerColumns).1
      (.literal nowhere (.int 1) (some .integer)) .integer
      rowOfOnes (.int 1) rfl conforms_rowOfOnes rfl rfl,
    (static_types_iff integerColumns).2 [leastOfIsOne] []
      none _ leastOnly [rowOfOnes] rowOfOnes _ all_declared
      planned_leastOnly all_conform isGroupRow_leastOnly
      leastOfIsOne _ _ declared_leastOfIsOne
      leastSlot_created⟩

/- The least of some conditions is a boolean, in a slot that
   is said to be an integer. -/
theorem slots_mistyped :
    ∃ clauses,
      (bindClauses twoColumns leastInList).run 0 =
        .ok clauses 1 ∧
      ¬ SlotsTyped 2 integerColumns clauses.projections
        clauses.groupKeys clauses.having := by
  refine ⟨_, rfl, fun hTyped => ?_⟩
  rcases hTyped all_declared _ leastOnly [rowOfOnes]
      rowOfOnes _ planned_leastOnly all_conform
      isGroupRow_leastOnly leastOfIsOne _ _ declared_leastOfIsOne
      leastSlot_created with ⟨value, hAt, hType⟩
  cases hAt
  rcases hType with hNull | hType
  · cases hNull
  · cases hType

end Executor

end ChenDB
