import ChenDB.Executor.Binary64
import ChenDB.Indexing.Key
import ChenDB.Library.ByteOrder
import ChenDB.Library.StateExcept

/-
  The codec of each column type: what a value must be, the
  bytes it becomes, and the value those bytes are read back
  as.
-/

--
-- Errors
--

namespace ChenDB

namespace Serialization

open Executor (Binary64 Value int64Min int64Max)
open Indexing (DataType)
open Library.ByteOrder (fromUTF8?_utf8 utf8)
open Library.StateExcept (ok_of_bind)
open Library.Struct

/- What encoding and decoding raise, Python's own exceptions
   last. -/
inductive RecordError where
  | schemaMismatch (message : String)
  | nullConstraint (message : String)
  | typeMismatch (message : String)
  | serialization (message : String)
  | overflowError (message : String)
  | structError (message : String)
  | valueError (message : String)
  | attributeError (message : String)
deriving DecidableEq, Repr

/- How Python writes a name, and what it says of bytes that
   are no text. -/
class PythonText where
  repr : String → String
  decodeError : Bytes → String

abbrev Codable := Value Binary64

/- `type(value).__name__`, and NULL for `None`. -/
def pythonTypeName : Codable → String
  | .null => "NULL"
  | .bool _ => "bool"
  | .int _ => "int"
  | .float _ => "float"
  | .text _ => "str"

def sqlName : DataType → String
  | .integer => "INTEGER"
  | .float => "FLOAT"
  | .boolean => "BOOLEAN"
  | .text => "TEXT"

--
-- Codecs
--

/- The width of a type whose values are all as wide. -/
def fixedSize : DataType → Option Nat
  | .integer => some 8
  | .float => some 8
  | .boolean => some 1
  | .text => none

def expected
    (dataType : DataType)
    (value : Codable) : Except RecordError Unit :=
  .error (.typeMismatch
    (s!"expected {sqlName dataType}, got " ++
      pythonTypeName value))

/- A double that is not finite, as Python shows it. -/
def showSpecial (value : Binary64) : String :=
  if value.isNan then "nan"
  else if value.sign then "-inf"
  else "inf"

/- `float(value)` of an integer. -/
def toFloat (number : Int) : Except RecordError Binary64 :=
  match Binary64.ofInt number with
  | some value => .ok value
  | none => .error (.overflowError
      "int too large to convert to float")

def requireFinite
    (value : Binary64) : Except RecordError Unit :=
  if value.isFinite then .ok ()
  else .error (.typeMismatch
    (s!"FLOAT cannot store {showSpecial value}; NaN and " ++
      "infinity have no total order, so a sort or an " ++
      "index over them would not be sorted"))

/- The `validate` of each codec. -/
def validate
    (dataType : DataType)
    (value : Codable) : Except RecordError Unit :=
  match dataType, value with
  | .integer, .int number =>
    if int64Min ≤ number ∧ number ≤ int64Max then .ok ()
    else .error (.typeMismatch
      (s!"integer {number} does not fit in 64 bits " ++
        s!"[{int64Min}, {int64Max}]"))
  | .float, .int number => do
      let value ← toFloat number
      requireFinite value
  | .float, .float value => requireFinite value
  | .boolean, .bool _ => .ok ()
  | .text, .text _ => .ok ()
  | dataType, value => expected dataType value

/- `<q`: two's complement, the least byte first. -/
def packInt64 (number : Int) : Bytes :=
  encode 8 (number % 2 ^ 64).toNat

def unpackInt64 (bytes : Bytes) : Int :=
  let number := decode bytes
  if number < 2 ^ 63 then number else (number : Int) - 2 ^ 64

/- `<I`. -/
def packUInt32 (number : Nat) : Except RecordError Bytes :=
  if number < 2 ^ 32 then .ok (encode 4 number)
  else .error (.structError
    "'I' format requires 0 <= number <= 4294967295")

/- The `encode` of each codec, on a value it has found to be
   one of its own. -/
def encodeValue
    (dataType : DataType)
    (value : Codable) : Except RecordError Bytes :=
  match dataType, value with
  | .integer, .int number => .ok (packInt64 number)
  | .float, .int number => do
      let value ← toFloat number
      pure (encode 8 value.bits.toNat)
  | .float, .float value => .ok (encode 8 value.bits.toNat)
  | .boolean, .bool value => .ok [if value then 1 else 0]
  | .text, .text value => do
      let payload := utf8 value
      let length ← packUInt32 payload.length
      pure (length ++ payload)
  | _, value => .error (.structError
      s!"cannot pack {pythonTypeName value}")

def requireBytes
    (buf : Bytes)
    (offset size : Nat)
    (typeName : String) : Except RecordError Unit :=
  if offset + size > buf.length then
    .error (.serialization
      (s!"{typeName} needs {size} bytes at offset " ++
        s!"{offset}, but the record is only {buf.length} " ++
        "bytes: it is truncated or does not match this " ++
        "schema"))
  else .ok ()

variable [PythonText]

def decodeText
    (buf : Bytes)
    (offset : Nat) : Except RecordError (Codable × Nat) := do
  requireBytes buf offset 4 "TEXT length prefix"
  let length := decode (slice buf offset (offset + 4))
  let start := offset + 4
  let stop := start + length
  if stop > buf.length then
    throw (.serialization
      (s!"TEXT claims {length} bytes at offset {start} " ++
        s!"but the record is only {buf.length} bytes"))
  let payload := slice buf start stop
  match String.fromUTF8? ⟨payload.toArray⟩ with
  | some text => pure (.text text, stop)
  | none => throw (.serialization
      (s!"TEXT at offset {start} is not valid UTF-8: " ++
        PythonText.decodeError payload))

/- The `decode` of each codec: the value at an offset, and
   the offset after it. -/
def decodeValue
    (dataType : DataType)
    (buf : Bytes)
    (offset : Nat) : Except RecordError (Codable × Nat) :=
  match dataType with
  | .integer => do
      requireBytes buf offset 8 "INTEGER"
      let bytes := slice buf offset (offset + 8)
      pure (.int (unpackInt64 bytes), offset + 8)
  | .float => do
      requireBytes buf offset 8 "FLOAT"
      let bytes := slice buf offset (offset + 8)
      pure (.float ⟨BitVec.ofNat 64 (decode bytes)⟩, offset + 8)
  | .boolean => do
      requireBytes buf offset 1 "BOOLEAN"
      let bytes := slice buf offset (offset + 1)
      pure (.bool (decode bytes ≠ 0), offset + 1)
  | .text => decodeText buf offset

/- `encoded_size`, which looks at the value of a TEXT only. -/
def encodedSize
    (dataType : DataType)
    (value : Codable) : Except RecordError Nat :=
  match fixedSize dataType with
  | some size => .ok size
  | none =>
    match value with
    | .text value => .ok (4 + (utf8 value).length)
    | value => .error (.attributeError
        (s!"'{pythonTypeName value}' object has no " ++
          "attribute 'encode'"))

--
-- One Value There and Back
--

omit [PythonText] in
/- What a value is read back as: an integer in a FLOAT column
   has become a double. -/
def stored (dataType : DataType) (value : Codable) : Codable :=
  match dataType, value with
  | .float, .int number =>
    match Binary64.ofInt number with
    | some value => .float value
    | none => .int number
  | _, value => value

variable {number : Int}

omit [PythonText] in
theorem unpackInt64_packInt64
    (hLow : int64Min ≤ number)
    (hHigh : number ≤ int64Max) :
    unpackInt64 (packInt64 number) = number := by
  unfold int64Min at hLow
  unfold int64Max at hHigh
  unfold unpackInt64 packInt64
  rw [decode_encode (by omega)]
  simp only
  split <;> omega

omit [PythonText] in
theorem decode_encode_bits (value : Binary64) :
    (⟨BitVec.ofNat 64 (decode (encode 8 value.bits.toNat))⟩ :
      Binary64) = value := by
  have hFits : value.bits.toNat < 256 ^ 8 := value.bits.isLt
  rw [decode_encode hFits, BitVec.ofNat_toNat,
    BitVec.setWidth_eq]

omit [PythonText] in
theorem requireBytes_ok
    {buf : Bytes}
    {offset size : Nat}
    (hInside : offset + size ≤ buf.length)
    (typeName : String) :
    requireBytes buf offset size typeName = .ok () :=
  if_neg (Nat.not_lt.mpr hInside)

variable {dataType : DataType} {value : Codable} {bytes : Bytes}

omit [PythonText] in
/- An encoded value takes up as many bytes as it is said to,
   and takes up some. -/
theorem encodedSize_encodeValue
    (hEncode : encodeValue dataType value = .ok bytes) :
    encodedSize dataType value = .ok bytes.length ∧
      0 < bytes.length := by
  cases dataType with
  | integer =>
    cases value <;> cases hEncode
    rw [packInt64, length_encode]
    exact ⟨rfl, by decide⟩
  | float =>
    cases value with
    | int number =>
      rcases ok_of_bind hEncode with ⟨value, _, hEnd⟩
      cases hEnd
      rw [length_encode]
      exact ⟨rfl, by decide⟩
    | float value =>
      cases hEncode
      rw [length_encode]
      exact ⟨rfl, by decide⟩
    | _ => cases hEncode
  | boolean =>
    cases value <;> cases hEncode
    exact ⟨rfl, Nat.one_pos⟩
  | text =>
    cases value with
    | text value =>
      rcases ok_of_bind hEncode with ⟨length, hLength, hEnd⟩
      cases hEnd
      unfold packUInt32 at hLength
      split at hLength
      · cases hLength
        rw [List.length_append, length_encode]
        exact ⟨rfl, by omega⟩
      · cases hLength
    | _ => cases hEncode

/- A text is read back from behind its length. -/
theorem decodeText_encoded
    {text : String}
    (hFits : (utf8 text).length < 2 ^ 32)
    (before after : Bytes) :
    decodeText
        (before ++ ((encode 4 (utf8 text).length ++
          utf8 text) ++ after)) before.length =
      .ok (.text text,
        before.length + (4 + (utf8 text).length)) := by
  have hLength : (encode 4 (utf8 text).length).length = 4 :=
    length_encode _ _
  have hPrefix : slice
      (before ++ ((encode 4 (utf8 text).length ++
        utf8 text) ++ after)) before.length
      (before.length + 4) =
        encode 4 (utf8 text).length := by
    rw [List.append_assoc]
    exact slice_middle rfl (by rw [hLength]) _
  have hPayload : slice
      (before ++ ((encode 4 (utf8 text).length ++
        utf8 text) ++ after)) (before.length + 4)
      (before.length + 4 + (utf8 text).length) =
        utf8 text := by
    rw [List.append_assoc, ← List.append_assoc before]
    refine slice_middle ?_ rfl _
    rw [List.length_append, hLength]
  unfold decodeText
  rw [requireBytes_ok (by simp), hPrefix,
    decode_encode (by omega)]
  simp only [bind, Except.bind, hPayload, fromUTF8?_utf8]
  rw [if_neg (by simp; omega)]
  simp only [pure, Except.pure, Except.ok.injEq,
    Prod.mk.injEq, true_and]
  omega

theorem decodeInteger_encoded
    (hLow : int64Min ≤ number)
    (hHigh : number ≤ int64Max)
    (before after : Bytes) :
    decodeValue .integer
        (before ++ (packInt64 number ++ after))
        before.length =
      .ok (.int number, before.length + 8) := by
  have hLength : (packInt64 number).length = 8 :=
    length_encode _ _
  have hSlice : slice (before ++ (packInt64 number ++ after))
      before.length (before.length + 8) = packInt64 number :=
    slice_middle rfl (by rw [hLength]) after
  have hInside : before.length + 8 ≤
      (before ++ (packInt64 number ++ after)).length := by
    rw [List.length_append, List.length_append, hLength]
    omega
  simp only [decodeValue, requireBytes_ok hInside, bind,
    Except.bind, hSlice, unpackInt64_packInt64 hLow hHigh]
  rfl

theorem decodeFloat_encoded
    (value : Binary64)
    (before after : Bytes) :
    decodeValue .float
        (before ++ (encode 8 value.bits.toNat ++ after))
        before.length =
      .ok (.float value, before.length + 8) := by
  have hLength : (encode 8 value.bits.toNat).length = 8 :=
    length_encode _ _
  have hSlice : slice
      (before ++ (encode 8 value.bits.toNat ++ after))
      before.length (before.length + 8) =
        encode 8 value.bits.toNat :=
    slice_middle rfl (by rw [hLength]) after
  have hInside : before.length + 8 ≤
      (before ++
        (encode 8 value.bits.toNat ++ after)).length := by
    rw [List.length_append, List.length_append, hLength]
    omega
  simp only [decodeValue, requireBytes_ok hInside, bind,
    Except.bind, hSlice, decode_encode_bits]
  rfl

theorem decodeBoolean_encoded
    (value : Bool)
    (before after : Bytes) :
    decodeValue .boolean
        (before ++ ([if value then 1 else 0] ++ after))
        before.length =
      .ok (.bool value, before.length + 1) := by
  have hSlice : slice
      (before ++ ([if value then 1 else 0] ++ after))
      before.length (before.length + 1) =
        [if value then 1 else 0] :=
    slice_middle rfl rfl after
  have hInside : before.length + 1 ≤
      (before ++
        ([if value then 1 else 0] ++ after)).length := by
    rw [List.length_append, List.length_append,
      List.length_singleton]
    omega
  simp only [decodeValue, requireBytes_ok hInside, bind,
    Except.bind, hSlice]
  cases value <;> rfl

omit [PythonText] in
theorem validate_int64
    (hValid : validate .integer (.int number) = .ok ()) :
    int64Min ≤ number ∧ number ≤ int64Max := by
  by_contra hNot
  simp only [validate, if_neg hNot] at hValid
  cases hValid

omit [PythonText] in
theorem stored_int
    {value : Binary64}
    (hFloat : toFloat number = .ok value) :
    stored .float (.int number) = .float value := by
  unfold toFloat at hFloat
  cases hOf : Binary64.ofInt number with
  | none =>
    rw [hOf] at hFloat
    cases hFloat
  | some found =>
    rw [hOf] at hFloat
    cases hFloat
    simp only [stored, hOf]

/- What was written for a value is read back, wherever it
   stands. -/
theorem decodeValue_encodeValue
    (hValid : validate dataType value = .ok ())
    (hEncode : encodeValue dataType value = .ok bytes)
    (before after : Bytes) :
    decodeValue dataType (before ++ (bytes ++ after))
        before.length =
      .ok (stored dataType value,
        before.length + bytes.length) := by
  cases dataType with
  | integer =>
    cases value with
    | int number =>
      cases hEncode
      rcases validate_int64 hValid with ⟨hLow, hHigh⟩
      have hLength : (packInt64 number).length = 8 :=
        length_encode _ _
      rw [hLength]
      exact decodeInteger_encoded hLow hHigh before after
    | _ => cases hEncode
  | float =>
    cases value with
    | int number =>
      rcases ok_of_bind hEncode with ⟨value, hFloat, hEnd⟩
      cases hEnd
      rw [stored_int hFloat, length_encode]
      exact decodeFloat_encoded value before after
    | float value =>
      cases hEncode
      rw [length_encode]
      exact decodeFloat_encoded value before after
    | _ => cases hEncode
  | boolean =>
    cases value with
    | bool value =>
      cases hEncode
      exact decodeBoolean_encoded value before after
    | _ => cases hEncode
  | text =>
    cases value with
    | text text =>
      rcases ok_of_bind hEncode with ⟨length, hLength, hEnd⟩
      cases hEnd
      unfold packUInt32 at hLength
      split at hLength
      · rename_i hFits
        cases hLength
        rw [List.length_append, length_encode]
        exact decodeText_encoded hFits before after
      · cases hLength
    | _ => cases hEncode

end Serialization

end ChenDB
