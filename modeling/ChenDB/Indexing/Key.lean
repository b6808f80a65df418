import ChenDB.Executor.Expression
import ChenDB.Library.Struct

/-
  Index keys: column values encoded so that the order of the
  bytes is the order of the values.
-/

--
-- Encoding
--

namespace ChenDB

namespace Indexing

open Executor (Value int64Min int64Max)
open Library.Struct (Bytes encode)

/- A column's declared type. -/
inductive DataType where
  | integer
  | float
  | boolean
  | text
deriving DecidableEq, Repr

/- What the encoding asks of Python's `float` and `repr`. -/
class SortableDouble (φ : Type) where
  /- `_float_to_sortable(float(value))`; none where the
     integer is too large to convert. -/
  sortable : φ ⊕ Int → Option Nat
  bounded : ∀ value bits,
    sortable value = some bits → bits < 256 ^ 8
  render : Value φ → String
  describe : DataType → List UInt8 → String

abbrev Key := Bytes

def minusInfinity : Key := [0]

def nullKey : Key := [1]

def valuePrefix : Key := [2]

def isNullKey (key : Key) : Bool :=
  key = nullKey

/- Big-endian, in eight bytes. -/
def bigEndian (value : Nat) : Bytes :=
  (encode 8 value).reverse

def intBias : Int := 2 ^ 63

variable {φ : Type} [SortableDouble φ]

def wrongType
    (what : String)
    (value : Value φ) : Except EngineError Key :=
  .error (.indexingError
    (s!"index key must be {what}, " ++
      s!"got {SortableDouble.render value}"))

def encodeDouble (value : φ ⊕ Int) : Except EngineError Key :=
  match SortableDouble.sortable value with
  | none => .error (.valueError
      "int too large to convert to float")
  | some bits => .ok (valuePrefix ++ bigEndian bits)

/- One column value in its order-preserving form. -/
def encodeKey
    (value : Value φ) :
    DataType → Except EngineError Key :=
  match value with
  | .null => fun _ => .ok nullKey
  | value => fun
    | .integer =>
      match value with
      | .int number =>
        if int64Min ≤ number ∧ number ≤ int64Max then
          .ok (valuePrefix ++
            bigEndian (number + intBias).toNat)
        else
          .error (.indexingError
            (s!"integer {number} does not fit in 64 " ++
              "bits and cannot be indexed"))
      | value => wrongType "an INTEGER" value
    | .float =>
      match value with
      | .float number => encodeDouble (.inl number)
      | .int number => encodeDouble (φ := φ) (.inr number)
      | value => wrongType "a FLOAT" value
    | .boolean =>
      match value with
      | .bool flag =>
        .ok (valuePrefix ++ [if flag then 1 else 0])
      | value => wrongType "a BOOLEAN" value
    | .text =>
      match value with
      | .text text =>
        .ok (valuePrefix ++ text.toByteArray.data.toList)
      | value => wrongType "TEXT" value

--
-- What a Key Says
--

omit [SortableDouble φ] in
theorem bigEndian_inj
    {first second : Nat}
    (hFirst : first < 256 ^ 8)
    (hSecond : second < 256 ^ 8)
    (hSame : bigEndian first = bigEndian second) :
    first = second := by
  have hBytes : encode 8 first = encode 8 second :=
    List.reverse_injective hSame
  rw [← Library.Struct.decode_encode hFirst, hBytes,
    Library.Struct.decode_encode hSecond]

/- A value as a number. -/
def asNumber : Value φ → Option (φ ⊕ Int)
  | .int number => some (.inr number)
  | .float number => some (.inl number)
  | _ => none

/- Values a column of the type takes for one: the same, or
   numbers that are one double. -/
def SameKey
    (dataType : DataType)
    (first second : Value φ) : Prop :=
  first = second ∨
    dataType = .float ∧
      ∃ one other bits,
        asNumber first = some one ∧
        asNumber second = some other ∧
        SortableDouble.sortable one = some bits ∧
        SortableDouble.sortable other = some bits

/- How each value that has a key is encoded. -/
inductive Encodes :
    DataType → Value φ → Key → Prop where
  | null (dataType : DataType) :
      Encodes dataType .null nullKey
  | int {number} :
      int64Min ≤ number → number ≤ int64Max →
      Encodes .integer (.int number)
        (valuePrefix ++ bigEndian (number + intBias).toNat)
  | double {value number bits} :
      asNumber value = some number →
      SortableDouble.sortable number = some bits →
      Encodes .float value (valuePrefix ++ bigEndian bits)
  | bool (flag : Bool) :
      Encodes .boolean (.bool flag)
        (valuePrefix ++ [if flag then 1 else 0])
  | text (text : String) :
      Encodes .text (.text text)
        (valuePrefix ++ text.toByteArray.data.toList)

variable {value : Value φ} {key : Key}

theorem encodeDouble_encodes
    {number : φ ⊕ Int}
    (hNumber : asNumber value = some number)
    (hKey : encodeDouble number = .ok key) :
    Encodes .float value key := by
  unfold encodeDouble at hKey
  split at hKey
  · cases hKey
  · rename_i bits hBits
    cases hKey
    exact .double hNumber hBits

variable {dataType : DataType}

theorem encodeKey_encodes
    (hKey : encodeKey value dataType = .ok key) :
    Encodes dataType value key := by
  cases value with
  | null =>
    cases hKey
    exact .null dataType
  | bool flag =>
    cases dataType with
    | boolean =>
      cases hKey
      exact .bool flag
    | _ => cases hKey
  | int number =>
    cases dataType with
    | integer =>
      simp only [encodeKey] at hKey
      split at hKey
      · rename_i hRange
        cases hKey
        exact .int hRange.1 hRange.2
      · cases hKey
    | float => exact encodeDouble_encodes rfl hKey
    | _ => cases hKey
  | float number =>
    cases dataType with
    | float => exact encodeDouble_encodes rfl hKey
    | _ => cases hKey
  | text text =>
    cases dataType with
    | text =>
      cases hKey
      exact .text text
    | _ => cases hKey

/- Every key sorts above the first separator of a node. -/
theorem encodeKey_above
    (hKey : encodeKey value dataType = .ok key) :
    ∃ tag rest, key = tag :: rest ∧ 0 < tag := by
  cases encodeKey_encodes hKey with
  | null => exact ⟨1, [], rfl, by decide⟩
  | _ => exact ⟨2, _, rfl, by decide⟩

theorem Encodes.ne_null
    {rest : Bytes} :
    valuePrefix ++ rest ≠ nullKey := by
  simp [valuePrefix, nullKey]

theorem encodeKey_sameKey
    {first second : Value φ}
    (hFirst : encodeKey first dataType = .ok key)
    (hSecond : encodeKey second dataType = .ok key) :
    SameKey dataType first second := by
  have hOther := encodeKey_encodes hSecond
  cases encodeKey_encodes hFirst with
  | null =>
    generalize hNull : nullKey = key at hOther
    cases hOther with
    | null => exact .inl rfl
    | _ => exact absurd hNull.symm Encodes.ne_null
  | int hLow hHigh =>
    rename_i number
    generalize hSame : valuePrefix ++ bigEndian
      (number + intBias).toNat = key at hOther
    cases hOther with
    | null => exact absurd hSame Encodes.ne_null
    | int hLow' hHigh' =>
      rename_i other
      have hBits := List.append_cancel_left hSame
      unfold int64Min at hLow hLow'
      unfold int64Max at hHigh hHigh'
      have hNat := bigEndian_inj
        (by unfold intBias; omega)
        (by unfold intBias; omega) hBits
      unfold intBias at hNat
      left
      congr 1
      omega
  | double hNumber hBits =>
    rename_i number bits
    generalize hSame : valuePrefix ++ bigEndian bits = key
      at hOther
    cases hOther with
    | null => exact absurd hSame Encodes.ne_null
    | double hNumber' hBits' =>
      rename_i other bits'
      have hNat := bigEndian_inj
        (SortableDouble.bounded _ _ hBits)
        (SortableDouble.bounded _ _ hBits')
        (List.append_cancel_left hSame)
      rw [← hNat] at hBits'
      exact .inr ⟨rfl, number, other, bits, hNumber,
        hNumber', hBits, hBits'⟩
  | bool flag =>
    generalize hSame :
      valuePrefix ++ [if flag then (1 : UInt8) else 0] = key
      at hOther
    cases hOther with
    | null => exact absurd hSame Encodes.ne_null
    | bool other =>
      left
      have hByte := List.append_cancel_left hSame
      cases flag <;> cases other <;> simp at hByte ⊢
  | text text =>
    generalize hSame : valuePrefix ++
      text.toByteArray.data.toList = key at hOther
    cases hOther with
    | null => exact absurd hSame Encodes.ne_null
    | text other =>
      left
      have hBytes := List.append_cancel_left hSame
      congr 1
      apply String.toByteArray_inj.mp
      apply ByteArray.ext
      exact Array.toList_inj.mp hBytes

/- Doubles for tables that have none. -/
instance : SortableDouble Empty where
  sortable := fun
    | .inl value => value.elim
    | .inr _ => none
  bounded := by
    intro value bits hBits
    cases value with
    | inl value => exact value.elim
    | inr number => cases hBits
  render := fun _ => "?"
  describe := fun _ _ => "?"

end Indexing

end ChenDB
