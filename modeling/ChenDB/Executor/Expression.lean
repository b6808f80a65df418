import Mathlib.Algebra.Group.Int.Defs
import Mathlib.Algebra.GroupWithZero.Nat
import ChenDB.Errors

/-
  Expressions and their evaluation against one row, with the
  three-valued logic of SQL: an unknown input is an unknown
  result, and `AND` and `OR` look past an unknown that cannot
  matter.
-/

--
-- Values
--

namespace ChenDB

namespace Executor

/-
  The arithmetic of Python's `float`, which this development
  leaves open. An operand may be infinite, as the literal
  `1e999` is; none is a NaN.
-/
class Double (φ : Type) where
  /- Of an integer that is not too large for a double. -/
  ofInt : Int → φ
  neg : φ → φ
  add : φ → φ → φ
  sub : φ → φ → φ
  mul : φ → φ → φ
  div : φ → φ → φ
  /- `%` on operands that are not negative. -/
  mod : φ → φ → φ
  /- `float(Fraction(left) % Fraction(right))`, for operands
     that are finite. -/
  exactMod : φ ⊕ Int → φ ⊕ Int → φ
  isFinite : φ → Bool
  compare : φ → φ → Ordering
  /- Exact, whatever the size of the integer. -/
  compareInt : φ → Int → Ordering
  render : φ → String

variable {φ : Type}

/- What a column or an expression holds; `null` is SQL's. -/
inductive Value (φ : Type) where
  | null
  | bool (value : Bool)
  | int (value : Int)
  | float (value : φ)
  | text (value : String)
deriving DecidableEq, Repr

def int64Min : Int := -(2 ^ 63)

def int64Max : Int := 2 ^ 63 - 1

/- Above this an integer is not exactly a double. -/
def exactInDouble : Int := 9007199254740992

/- The least magnitude that rounds to no finite double, which
   is `2 ^ 1024 - 2 ^ 970`. -/
def beyondDouble : Nat := (2 ^ 54 - 1) * (2 ^ 194) ^ 5

namespace Value

def isNull : Value φ → Bool
  | .null => true
  | _ => false

def kind : Value φ → String
  | .null => "NoneType"
  | .bool _ => "BOOLEAN"
  | .int _ => "number"
  | .float _ => "number"
  | .text _ => "TEXT"

def typeName : Value φ → String
  | .null => "NULL"
  | value => value.kind

end Value

def requireBoolean
    (value : Value φ)
    (what : String) : Except EngineError Bool :=
  match value with
  | .bool value => .ok value
  | value => .error (.evaluationError
      s!"{what} needs a boolean operand, got {value.typeName}")

/- A value that is a number: a double or an integer. -/
def requireNumber
    (value : Value φ)
    (what : String) : Except EngineError (φ ⊕ Int) :=
  match value with
  | .int value => .ok (.inr value)
  | .float value => .ok (.inl value)
  | value => .error (.evaluationError
      s!"{what} needs a numeric operand, got {value.typeName}")

def ofNumber : φ ⊕ Int → Value φ
  | .inl value => .float value
  | .inr value => .int value

--
-- Arithmetic
--

section Arithmetic

variable [Double φ]

/- The value, unless no column could hold it. -/
def checkNumericRange
    (value : φ ⊕ Int)
    (what : String) : Except EngineError (Value φ) :=
  match value with
  | .inr value =>
    if int64Min ≤ value ∧ value ≤ int64Max then
      .ok (.int value)
    else
      .error (.evaluationError
        (s!"{what} overflowed: {value} does not fit in " ++
          s!"a 64-bit INTEGER [{int64Min}, {int64Max}]"))
  | .inl value =>
    if Double.isFinite value then .ok (.float value)
    else
      .error (.evaluationError
        (s!"{what} produced {Double.render value}, " ++
          "which FLOAT cannot represent; NaN and " ++
          "infinity have no total order, so nothing " ++
          "could sort or index it"))

/- `float(value)`. -/
def toDouble : φ ⊕ Int → Except EngineError φ
  | .inl value => .ok value
  | .inr value =>
    if beyondDouble ≤ value.natAbs then
      .error (.overflowError
        "int too large to convert to float")
    else .ok (Double.ofInt value)

/- Both operands of an operator that takes doubles. -/
def onDoubles
    (doubles : φ → φ → φ)
    (left right : φ ⊕ Int) : Except EngineError (φ ⊕ Int) := do
  let left ← toDouble left
  let right ← toDouble right
  pure (.inl (doubles left right))

/- Integers stay integers; a double makes the other one a
   double too. -/
def arithmetic
    (ints : Int → Int → Int)
    (doubles : φ → φ → φ)
    (left right : φ ⊕ Int) : Except EngineError (φ ⊕ Int) :=
  match left, right with
  | .inr left, .inr right => .ok (.inr (ints left right))
  | left, right => onDoubles doubles left right

def compareNumbers (left right : φ ⊕ Int) : Ordering :=
  match left, right with
  | .inr left, .inr right => Ord.compare left right
  | .inl left, .inl right => Double.compare left right
  | .inl left, .inr right => Double.compareInt left right
  | .inr left, .inl right =>
    (Double.compareInt right left).swap

def negate : φ ⊕ Int → φ ⊕ Int
  | .inl value => .inl (Double.neg value)
  | .inr value => .inr (-value)

/- Is the number below zero? -/
def isNegative (value : φ ⊕ Int) : Bool :=
  compareNumbers value (.inr 0) = .lt

def magnitude (value : φ ⊕ Int) : φ ⊕ Int :=
  if isNegative value then negate value else value

def divide
    (left right : φ ⊕ Int) : Except EngineError (Value φ) :=
  if compareNumbers right (.inr 0) = .eq then
    .error (.evaluationError "division by zero")
  else
    match left, right with
    | .inr left, .inr right => .ok (.int (Int.tdiv left right))
    | left, right => do
        let quotient ← onDoubles Double.div left right
        checkNumericRange quotient "/"

/- Does `Fraction` take the number? -/
def hasFraction : φ ⊕ Int → Bool
  | .inl value => Double.isFinite value
  | .inr _ => true

/- `left % right` for operands that are not negative. -/
def exactRemainder
    (left right : φ ⊕ Int) : Except EngineError (φ ⊕ Int) :=
  match left, right with
  | .inr left, .inr right => .ok (.inr (left % right))
  | .inl left, .inl right => .ok (.inl (Double.mod left right))
  | left, right =>
    if compareNumbers left (.inr exactInDouble) = .gt ∨
        compareNumbers right (.inr exactInDouble) = .gt then
      if hasFraction left ∧ hasFraction right then
        .ok (.inl (Double.exactMod left right))
      else
        .error (.overflowError
          "cannot convert Infinity to integer ratio")
    else onDoubles Double.mod left right

/- The sign follows the dividend. -/
def modulo
    (left right : φ ⊕ Int) : Except EngineError (Value φ) :=
  if compareNumbers right (.inr 0) = .eq then
    .error (.evaluationError "modulo by zero")
  else do
    let remainder ←
      exactRemainder (magnitude left) (magnitude right)
    checkNumericRange
      (if isNegative left then negate remainder
        else remainder) "%"

end Arithmetic

--
-- Expressions
--

inductive BinaryOperator where
  | eq
  | neq
  | lt
  | lte
  | gt
  | gte
  | add
  | subtract
  | multiply
  | divide
  | modulo
  | and
  | or
deriving DecidableEq, Repr

namespace BinaryOperator

def value : BinaryOperator → String
  | .eq => "="
  | .neq => "<>"
  | .lt => "<"
  | .lte => "<="
  | .gt => ">"
  | .gte => ">="
  | .add => "+"
  | .subtract => "-"
  | .multiply => "*"
  | .divide => "/"
  | .modulo => "%"
  | .and => "AND"
  | .or => "OR"

def isComparison : BinaryOperator → Bool
  | .eq | .neq | .lt | .lte | .gt | .gte => true
  | _ => false

def isLogical : BinaryOperator → Bool
  | .and | .or => true
  | _ => false

end BinaryOperator

inductive UnaryOperator where
  | not
  | negate
  | plus
deriving DecidableEq, Repr

/- A column reference as the binder resolves it. -/
structure BoundColumnRef where
  name : String
  columnIndex : Nat
  /- Which table of the `FROM`, when there is one. -/
  scanPosition : Option Nat
deriving DecidableEq, Repr

/-
  Expressions over bound columns. Node types that evaluation
  refuses (`Star`, and what the binder leaves nothing of) are
  `refused`, by name.
-/
mutual

inductive Expression (φ : Type) where
  | literal (value : Value φ)
  | column (column : BoundColumnRef)
  | isNullTest (operand : Expression φ) (negated : Bool)
  | inList
      (operand : Expression φ)
      (items : Items φ)
      (negated : Bool)
  | unaryOp
      (operator : UnaryOperator)
      (operand : Expression φ)
  | binaryOp
      (operator : BinaryOperator)
      (left right : Expression φ)
  | refused (nodeType : String)

/- The items of an `IN` list, of which there is one at least
   (the parser reads one before it looks for a comma). -/
inductive Items (φ : Type) where
  | one (item : Expression φ)
  | more (item : Expression φ) (rest : Items φ)

end

--
-- Evaluation
--

/- A joined row: one slot for each column of the `FROM`. -/
abbrev Row (φ : Type) (width : Nat) := Fin width → Value φ

section Evaluation

variable [Double φ]

/- Which of two values is the greater; numbers compare with
   numbers, booleans with booleans and text with text. -/
def compareValues
    (left right : Value φ)
    (op : BinaryOperator) : Except EngineError Ordering :=
  match left, right with
  | .bool left, .bool right => .ok (Ord.compare left right)
  | .text left, .text right => .ok (Ord.compare left right)
  | .int left, .int right =>
    .ok (compareNumbers (.inr left : φ ⊕ Int) (.inr right))
  | .int left, .float right =>
    .ok (compareNumbers (.inr left) (.inl right))
  | .float left, .int right =>
    .ok (compareNumbers (.inl left) (.inr right))
  | .float left, .float right =>
    .ok (compareNumbers (.inl left) (.inl right))
  | left, right => .error (.evaluationError
      (s!"cannot compare {left.kind} with {right.kind} " ++
        s!"using {op.value}; SQL requires an explicit cast"))

/- What a comparison makes of an ordering. -/
def comparison (op : BinaryOperator) (order : Ordering) :
    Bool :=
  match op with
  | .eq => order = .eq
  | .neq => order ≠ .eq
  | .lt => order = .lt
  | .lte => order ≠ .gt
  | .gt => order = .gt
  | .gte => order ≠ .lt
  | _ => false

/- Every operator but `AND` and `OR`, on two known values. -/
def binaryValue
    (op : BinaryOperator)
    (left right : Value φ) :
    Except EngineError (Value φ) :=
  let numbers : Except EngineError ((φ ⊕ Int) × (φ ⊕ Int)) :=
    do
      let left ← requireNumber left op.value
      let right ← requireNumber right op.value
      pure (left, right)
  match op with
  | .add => do
      let (left, right) ← numbers
      let number ←
        arithmetic (· + ·) Double.add left right
      checkNumericRange number op.value
  | .subtract => do
      let (left, right) ← numbers
      let number ←
        arithmetic (· - ·) Double.sub left right
      checkNumericRange number op.value
  | .multiply => do
      let (left, right) ← numbers
      let number ←
        arithmetic (· * ·) Double.mul left right
      checkNumericRange number op.value
  | .divide => do
      let (left, right) ← numbers
      divide left right
  | .modulo => do
      let (left, right) ← numbers
      modulo left right
  | op => do
      let order ← compareValues left right op
      pure (.bool (comparison op order))

def unaryValue
    (op : UnaryOperator)
    (value : Value φ) : Except EngineError (Value φ) :=
  match op with
  | .not => do
      let value ← requireBoolean value "NOT"
      pure (.bool (!value))
  | .negate => do
      let number ← requireNumber value "unary -"
      checkNumericRange (negate number) "unary -"
  | .plus => do
      let _ ← requireNumber value "unary +"
      pure value

/- `None` for an unknown operand, and a boolean otherwise. -/
def condition
    (value : Value φ)
    (what : String) : Except EngineError (Option Bool) :=
  match value with
  | .null => .ok none
  | value => do
      let known ← requireBoolean value what
      pure (some known)

def ofOption : Option Bool → Value φ
  | none => .null
  | some value => .bool value

/- Whether an item is the value looked for, and whether an
   unknown has come by. -/
def matchItem
    (value : Value φ)
    (unknown : Bool)
    (candidate : Value φ) :
    Except EngineError (Bool × Bool) :=
  if candidate.isNull ∨ unknown then pure (false, true)
  else do
    let order ← compareValues value candidate .eq
    pure (order = .eq, false)

mutual

def evaluate {width : Nat}
    (row : Row φ width) :
    Expression φ → Except EngineError (Value φ)
  | .literal value => .ok value
  | .column column =>
    if hIndex : column.columnIndex < width then
      .ok (row ⟨column.columnIndex, hIndex⟩)
    else
      .error (.evaluationError
        (s!"column index {column.columnIndex} is " ++
          s!"outside a {width}-column row"))
  | .isNullTest operand negated => do
      let value ← evaluate row operand
      pure (.bool
        (if negated then !value.isNull else value.isNull))
  | .inList operand items negated => do
      let value ← evaluate row operand
      evaluateItems row value value.isNull negated items
  | .unaryOp op operand => do
      let value ← evaluate row operand
      match value with
      | .null => pure .null
      | value => unaryValue op value
  | .binaryOp .and left right => do
      let first ← evaluate row left
      let first ← condition first "AND"
      match first with
      | some false => pure (.bool false)
      | first => do
          let second ← evaluate row right
          let second ← condition second "AND"
          match first, second with
          | _, some false => pure (.bool false)
          | some true, some true => pure (.bool true)
          | _, _ => pure .null
  | .binaryOp .or left right => do
      let first ← evaluate row left
      let first ← condition first "OR"
      match first with
      | some true => pure (.bool true)
      | first => do
          let second ← evaluate row right
          let second ← condition second "OR"
          match first, second with
          | _, some true => pure (.bool true)
          | some false, some false => pure (.bool false)
          | _, _ => pure .null
  | .binaryOp op left right => do
      let left ← evaluate row left
      let right ← evaluate row right
      if left.isNull ∨ right.isNull then pure .null
      else binaryValue op left right
  | .refused nodeType =>
    .error (.evaluationError
      (if nodeType = "Star" then
        "'*' is expanded by the binder and cannot be " ++
          "evaluated directly"
      else s!"cannot evaluate {nodeType}"))
termination_by structural expression => expression

/- The items left to look at, with whether an unknown has
   come by. -/
def evaluateItems {width : Nat}
    (row : Row φ width)
    (value : Value φ)
    (unknown negated : Bool) :
    Items φ → Except EngineError (Value φ)
  | .one item => do
      let candidate ← evaluate row item
      let (found, unknown) ← matchItem value unknown candidate
      if found then pure (.bool (!negated))
      else if unknown then pure .null
      else pure (.bool negated)
  | .more item rest => do
      let candidate ← evaluate row item
      let (found, unknown) ← matchItem value unknown candidate
      if found then pure (.bool (!negated))
      else evaluateItems row value unknown negated rest
termination_by structural items => items

end

/- Only an exact `True` lets a row through. -/
def isTrue
    (value : Value φ)
    (clause : String) : Except EngineError Bool :=
  match value with
  | .null => .ok false
  | .bool value => .ok value
  | value => .error (.evaluationError
      (s!"{clause} must be a boolean, got " ++
        s!"{value.typeName}; a bare value is not a condition"))

end Evaluation

end Executor

end ChenDB
