import ChenDB.Serialization.Types
import ChenDB.Transaction.Manager

/-
  Rows as bytes: a bitmap with a bit for each column that is
  NULL, and then the values of the others.
-/

--
-- Schemas
--

namespace ChenDB

namespace Serialization

open Indexing (DataType)
open Library.StateExcept (ok_of_bind)
open Library.Struct
open Transaction (TupleHeader)

structure Column where
  name : String
  dataType : DataType
  nullable : Bool
deriving DecidableEq, Repr

structure Schema where
  columns : List Column
  nonempty : columns ≠ []

/- One bit for each column, rounded up. -/
def Schema.nullBitmapSize (schema : Schema) : Nat :=
  (schema.columns.length + 7) / 8

--
-- The Bitmap
--

/- `bitmap[index // 8] |= 1 << (index % 8)`. -/
def setNull (bitmap : Bytes) (index : Nat) : Bytes :=
  bitmap.modify (index / 8) fun byte =>
    UInt8.ofNat (byte.toNat ||| 1 <<< (index % 8))

/- `_is_null`. -/
def isNullAt (raw : Bytes) (index : Nat) : Bool :=
  (raw.getD (index / 8) 0).toNat.testBit (index % 8)

theorem length_setNull (bitmap : Bytes) (index : Nat) :
    (setNull bitmap index).length = bitmap.length :=
  List.length_modify _ _ _

variable {bitmap : Bytes} {index : Nat}

theorem isNullAt_setNull
    (hInside : index / 8 < bitmap.length)
    (position : Nat) :
    isNullAt (setNull bitmap index) position =
      (isNullAt bitmap position ||
        decide (position = index)) := by
  unfold isNullAt setNull
  rw [List.getD_eq_getElem?_getD, List.getD_eq_getElem?_getD,
    List.getElem?_modify]
  by_cases hByte : index / 8 = position / 8
  · simp only [if_pos hByte]
    rw [← hByte, List.getElem?_eq_getElem hInside]
    simp only [Option.map_eq_map, Option.map_some,
      Option.getD_some]
    have hOne : 1 <<< (index % 8) < 2 ^ 8 := by
      rw [Nat.one_shiftLeft]
      exact Nat.pow_lt_pow_right (by decide) (by omega)
    have hOr := Nat.or_lt_two_pow
      (bitmap[index / 8]).toNat_lt hOne
    rw [UInt8.toNat_ofNat_of_lt' hOr, Nat.testBit_or,
      Nat.one_shiftLeft, Nat.testBit_two_pow]
    congr 1
    rw [decide_eq_decide]
    omega
  · simp only [if_neg hByte]
    have hOther : position ≠ index := by
      rintro rfl
      exact hByte rfl
    rw [decide_eq_false hOther, Bool.or_false]
    cases bitmap[position / 8]? <;> rfl

theorem isNullAt_append
    {position : Nat}
    (hInside : position / 8 < bitmap.length)
    (rest : Bytes) :
    isNullAt (bitmap ++ rest) position =
      isNullAt bitmap position := by
  unfold isNullAt
  rw [List.getD_eq_getElem?_getD, List.getD_eq_getElem?_getD,
    List.getElem?_append_left hInside]

/- The bitmap once the values from an index on are in. -/
def withNulls : Bytes → Nat → List Codable → Bytes
  | bitmap, _, [] => bitmap
  | bitmap, index, value :: rest =>
    withNulls
      (if value.isNull then setNull bitmap index else bitmap)
      (index + 1) rest

theorem length_withNulls
    (bitmap : Bytes)
    (index : Nat)
    (values : List Codable) :
    (withNulls bitmap index values).length =
      bitmap.length := by
  induction values generalizing bitmap index with
  | nil => rfl
  | cons value rest ih =>
    rw [withNulls, ih]
    split
    · exact length_setNull bitmap index
    · rfl

theorem isNullAt_withNulls
    {values : List Codable}
    (hInside : index + values.length ≤ 8 * bitmap.length)
    (position : Nat) :
    isNullAt (withNulls bitmap index values) position =
      (isNullAt bitmap position ||
        (decide (index ≤ position) &&
          (values[position - index]?).any (·.isNull))) := by
  induction values generalizing bitmap index with
  | nil => simp [withNulls]
  | cons value rest ih =>
    rw [List.length_cons] at hInside
    have hLength : (if value.isNull then
        setNull bitmap index else bitmap).length =
        bitmap.length := by
      split
      · exact length_setNull bitmap index
      · rfl
    have hHere : isNullAt (if value.isNull then
        setNull bitmap index else bitmap) position =
        (isNullAt bitmap position ||
          (decide (position = index) && value.isNull)) := by
      cases value.isNull with
      | true =>
        rw [if_pos rfl, Bool.and_true,
          isNullAt_setNull (by omega)]
      | false => simp
    rw [withNulls, ih (by rw [hLength]; omega), hHere,
      Bool.or_assoc]
    congr 1
    rcases Nat.lt_trichotomy position index with
      hBefore | rfl | hAfter
    · rw [decide_eq_false (by omega),
        decide_eq_false (by omega),
        decide_eq_false (by omega)]
      rfl
    · simp
    · have hStep : position - index =
          (position - (index + 1)) + 1 := by omega
      rw [decide_eq_false (by omega), decide_eq_true (by omega),
        decide_eq_true (by omega), hStep,
        List.getElem?_cons_succ]
      rfl

--
-- Encoding and Decoding
--

section Codec

variable [PythonText]

/- What a codec raises, with the column that it is about;
   Python's own exceptions pass as they are. -/
def inColumn (column : Column) : RecordError → RecordError
  | .schemaMismatch message => .schemaMismatch
      s!"column {PythonText.repr column.name}: {message}"
  | .nullConstraint message => .nullConstraint
      s!"column {PythonText.repr column.name}: {message}"
  | .typeMismatch message => .typeMismatch
      s!"column {PythonText.repr column.name}: {message}"
  | .serialization message => .serialization
      s!"column {PythonText.repr column.name}: {message}"
  | raised => raised

/- The loop of `encode_record`, from a column on, with the
   bitmap and the bytes there are so far. -/
def encodeColumns :
    List Column → List Codable → Nat → Bytes → Bytes →
      Except RecordError Bytes
  | column :: columns, value :: values, index, bitmap, parts =>
    if value.isNull then
      if column.nullable then
        encodeColumns columns values (index + 1)
          (setNull bitmap index) parts
      else
        throw (.nullConstraint
          (s!"column {PythonText.repr column.name} is " ++
            "NOT NULL but received NULL"))
    else do
      (validate column.dataType value).mapError
        (inColumn column)
      let bytes ← encodeValue column.dataType value
      encodeColumns columns values (index + 1) bitmap
        (parts ++ bytes)
  | _, _, _, bitmap, parts => .ok (bitmap ++ parts)

def encodeRecord
    (schema : Schema)
    (values : List Codable) : Except RecordError Bytes :=
  if values.length ≠ schema.columns.length then
    .error (.schemaMismatch
      (s!"row has {values.length} values but table has " ++
        s!"{schema.columns.length} columns"))
  else
    encodeColumns schema.columns values 0
      (List.replicate schema.nullBitmapSize 0) []

def requireBitmap
    (schema : Schema)
    (raw : Bytes) : Except RecordError Unit :=
  if raw.length < schema.nullBitmapSize then
    .error (.serialization
      (s!"record is {raw.length} bytes, too short for a " ++
        s!"{schema.nullBitmapSize}-byte null bitmap"))
  else .ok ()

/- The loop of `decode_record`: the values from a column on,
   and the offset after them. -/
def decodeColumns
    (raw : Bytes) :
    List Column → Nat → Nat →
      Except RecordError (List Codable × Nat)
  | [], _, offset => .ok ([], offset)
  | column :: columns, index, offset =>
    if isNullAt raw index then do
      let (values, stop) ←
        decodeColumns raw columns (index + 1) offset
      pure (.null :: values, stop)
    else do
      let (value, next) ←
        decodeValue column.dataType raw offset
      let (values, stop) ←
        decodeColumns raw columns (index + 1) next
      pure (value :: values, stop)

def decodeRecord
    (schema : Schema)
    (raw : Bytes) : Except RecordError (List Codable) := do
  requireBitmap schema raw
  let (values, offset) ← decodeColumns raw schema.columns 0
    schema.nullBitmapSize
  if offset ≠ raw.length then
    throw (.serialization
      (s!"record has {(raw.length : Int) - offset} " ++
        s!"trailing bytes after decoding " ++
        s!"{schema.columns.length} columns; the schema " ++
        "does not match this data"))
  else pure values

/- Where one column lives inside a record; a NULL is at -1,
   and takes up nothing. -/
structure FieldLayout where
  index : Nat
  name : String
  typeName : String
  isNull : Bool
  offset : Int
  length : Nat
  value : Codable

structure RecordLayout where
  values : List Codable
  fields : List FieldLayout
  nullBitmap : Bytes
  nullBitmapSize : Nat
  totalSize : Nat

/- The loop of `describe_record`. -/
def describeColumns
    (raw : Bytes) :
    List Column → Nat → Nat →
      Except RecordError (List Codable × List FieldLayout)
  | [], _, _ => .ok ([], [])
  | column :: columns, index, offset =>
    if isNullAt raw index then do
      let (values, fields) ←
        describeColumns raw columns (index + 1) offset
      let field : FieldLayout :=
        { index := index
          name := column.name
          typeName := sqlName column.dataType
          isNull := true
          offset := -1
          length := 0
          value := .null }
      pure (.null :: values, field :: fields)
    else do
      let (value, next) ←
        decodeValue column.dataType raw offset
      let (values, fields) ←
        describeColumns raw columns (index + 1) next
      let field : FieldLayout :=
        { index := index
          name := column.name
          typeName := sqlName column.dataType
          isNull := false
          offset := offset
          length := next - offset
          value := value }
      pure (value :: values, field :: fields)

def describeRecord
    (schema : Schema)
    (raw : Bytes) : Except RecordError RecordLayout := do
  requireBitmap schema raw
  let (values, fields) ← describeColumns raw schema.columns 0
    schema.nullBitmapSize
  return {
    values := values
    fields := fields
    nullBitmap := raw.take schema.nullBitmapSize
    nullBitmapSize := schema.nullBitmapSize
    totalSize := raw.length }

/- The sizes of the values, in pairs with their columns. -/
def encodedSizes :
    List Column → List Codable → Nat → Except RecordError Nat
  | [], [], size => .ok size
  | column :: columns, value :: values, size =>
    if value.isNull then encodedSizes columns values size
    else do
      let more ← encodedSize column.dataType value
      encodedSizes columns values (size + more)
  | [], _ :: _, _ => .error (.valueError
      "zip() argument 2 is longer than argument 1")
  | _ :: _, [], _ => .error (.valueError
      "zip() argument 2 is shorter than argument 1")

def estimateRecordSize
    (schema : Schema)
    (values : List Codable) : Except RecordError Nat :=
  encodedSizes schema.columns values schema.nullBitmapSize

--
-- Tuple Headers
--

def tupleHeaderSize : Nat := 8

def addTupleHeader
    (payload : Bytes)
    (xmin xmax : Nat) : Except RecordError Bytes := do
  let first ← packUInt32 xmin
  let second ← packUInt32 xmax
  pure (first ++ second ++ payload)

def readTupleHeader
    (raw : Bytes) : Except RecordError TupleHeader :=
  if raw.length < tupleHeaderSize then
    .error (.serialization
      (s!"record is {raw.length} bytes, too short for an " ++
        s!"{tupleHeaderSize}-byte tuple header"))
  else
    .ok
      { xmin := decode (slice raw 0 4)
        xmax := decode (slice raw 4 8) }

def stripTupleHeader (raw : Bytes) : Bytes :=
  raw.drop tupleHeaderSize

/- Only the four bytes of `xmax` are packed again. -/
def setXmax
    (raw : Bytes)
    (xmax : Nat) : Except RecordError Bytes :=
  if raw.length < 8 then
    .error (.structError
      ("pack_into requires a buffer of at least 8 bytes " ++
        "for packing 4 bytes at offset 4 (actual buffer " ++
        s!"size is {raw.length})"))
  else do
    let field ← packUInt32 xmax
    pure (overwriteAt raw 4 field)

--
-- Encoded Rows
--

omit [PythonText] in
/- The bytes that the values of some columns become. -/
inductive Encodes :
    List Column → List Codable → Bytes → Prop where
  | nil : Encodes [] [] []
  | null {column columns values bytes}
      (hRest : Encodes columns values bytes) :
      Encodes (column :: columns) (.null :: values) bytes
  | value {column columns value values bytes rest}
      (hSome : value.isNull = false)
      (hValid : validate column.dataType value = .ok ())
      (hEncode : encodeValue column.dataType value = .ok bytes)
      (hRest : Encodes columns values rest) :
      Encodes (column :: columns) (value :: values)
        (bytes ++ rest)

variable {columns : List Column} {values : List Codable}
variable {raw : Bytes}

theorem encodeColumns_ok
    {index : Nat}
    {bitmap parts : Bytes}
    (hLength : values.length = columns.length)
    (hOk : encodeColumns columns values index bitmap parts =
      .ok raw) :
    ∃ bytes, Encodes columns values bytes ∧
      raw = withNulls bitmap index values ++
        (parts ++ bytes) := by
  induction columns generalizing values index bitmap parts with
  | nil =>
    cases values with
    | nil =>
      cases hOk
      exact ⟨[], .nil, by rw [List.append_nil]; rfl⟩
    | cons value values => cases hLength
  | cons column columns ih =>
    cases values with
    | nil => cases hLength
    | cons value values =>
      rw [List.length_cons, List.length_cons,
        Nat.add_right_cancel_iff] at hLength
      unfold encodeColumns at hOk
      cases hNull : value.isNull with
      | true =>
        rw [if_pos hNull] at hOk
        cases hNullable : column.nullable with
        | false =>
          rw [if_neg (by simp [hNullable])] at hOk
          cases hOk
        | true =>
          rw [if_pos hNullable] at hOk
          rcases ih hLength hOk with ⟨bytes, hEncodes, rfl⟩
          cases value <;> cases hNull
          exact ⟨bytes, .null hEncodes, rfl⟩
      | false =>
        rw [if_neg (by simp [hNull])] at hOk
        rcases ok_of_bind hOk with ⟨_, hValid, hRest⟩
        rcases ok_of_bind hRest with ⟨bytes, hEncode, hRest⟩
        have hValue : validate column.dataType value =
            .ok () := by
          cases hFound :
              validate column.dataType value with
          | error raised =>
            rw [hFound] at hValid
            cases hValid
          | ok known => rfl
        rcases ih hLength hRest with ⟨rest, hEncodes, rfl⟩
        refine ⟨bytes ++ rest,
          .value hNull hValue hEncode hEncodes, ?_⟩
        rw [withNulls, if_neg (by simp [hNull]),
          List.append_assoc]

/- The row that comes back. -/
def storedRow
    (columns : List Column)
    (values : List Codable) : List Codable :=
  List.zipWith (fun column value =>
    stored column.dataType value) columns values

omit [PythonText] in
theorem storedRow_null
    (column : Column)
    (columns : List Column)
    (values : List Codable) :
    storedRow (column :: columns) (.null :: values) =
      .null :: storedRow columns values := by
  unfold storedRow
  rw [List.zipWith_cons_cons]
  cases column.dataType <;> rfl

/- The fields cover the bytes from one offset to another,
   one after the other; those that are NULL cover none. -/
def Covers :
    Nat → Nat → List FieldLayout → Prop
  | start, stop, [] => start = stop
  | start, stop, field :: rest =>
    if field.isNull then
      field.offset = -1 ∧ field.length = 0 ∧
        Covers start stop rest
    else
      field.offset = start ∧ 0 < field.length ∧
        Covers (start + field.length) stop rest

/- A field says which column it is of, and what it holds. -/
def Describes
    (index : Nat)
    (columns : List Column)
    (values : List Codable)
    (fields : List FieldLayout) : Prop :=
  fields.map FieldLayout.index =
      List.range' index columns.length ∧
    fields.map FieldLayout.name = columns.map Column.name ∧
    fields.map FieldLayout.typeName =
      columns.map (fun column => sqlName column.dataType) ∧
    fields.map FieldLayout.value = values ∧
    fields.map FieldLayout.isNull = values.map (·.isNull)

omit [PythonText] in
theorem stored_isNull
    (dataType : DataType)
    (value : Codable) :
    (stored dataType value).isNull = value.isNull := by
  unfold stored
  split
  · split <;> rfl
  · rfl

variable {bytes : Bytes}

/- Decoding what was encoded, from a column on. -/
theorem decodeColumns_encodes
    (hEncodes : Encodes columns values bytes)
    (before : Bytes)
    (index : Nat)
    (hNulls : ∀ position value,
      values[position]? = some value →
        isNullAt (before ++ bytes) (index + position) =
          value.isNull) :
    decodeColumns (before ++ bytes) columns index
        before.length =
      .ok (storedRow columns values,
        (before ++ bytes).length) := by
  induction hEncodes generalizing before index with
  | nil => simp [decodeColumns, storedRow]
  | @null column columns values bytes hRest ih =>
    have hHere : isNullAt (before ++ bytes) index = true :=
      hNulls 0 .null rfl
    have hOthers := ih before (index + 1) (by
      intro position value hValue
      have hNext := hNulls (position + 1) value hValue
      rwa [← Nat.add_assoc, Nat.add_right_comm] at hNext)
    unfold decodeColumns
    rw [if_pos hHere, hOthers, storedRow_null]
    rfl
  | @value column columns value values bytes rest hSome hValid
      hEncode hRest ih =>
    have hHere := hNulls 0 value rfl
    rw [hSome, Nat.add_zero] at hHere
    have hValue := decodeValue_encodeValue hValid hEncode
      before rest
    have hOthers := ih (before ++ bytes) (index + 1) (by
      intro position value hValue
      have hNext := hNulls (position + 1) value hValue
      rw [← Nat.add_assoc, Nat.add_right_comm] at hNext
      rwa [List.append_assoc])
    rw [List.append_assoc, List.length_append] at hOthers
    unfold decodeColumns
    rw [if_neg (by rw [hHere]; decide), hValue]
    simp only [bind, Except.bind, hOthers]
    rfl

omit [PythonText] in
theorem encodedSizes_encodes
    (hEncodes : Encodes columns values bytes)
    (size : Nat) :
    encodedSizes columns values size =
      .ok (size + bytes.length) := by
  induction hEncodes generalizing size with
  | nil => rfl
  | null hRest ih => exact ih size
  | value hSome hValid hEncode hRest ih =>
    unfold encodedSizes
    rw [if_neg (by simp [hSome]),
      (encodedSize_encodeValue hEncode).1]
    simp only [bind, Except.bind, ih]
    rw [List.length_append, Nat.add_assoc]

omit [PythonText] in
/- A field in front of those that describe the rest. -/
theorem Describes.cons
    {index : Nat}
    {columns : List Column}
    {values : List Codable}
    {fields : List FieldLayout}
    (hRest : Describes (index + 1) columns values fields)
    {column : Column}
    {field : FieldLayout}
    (hIndex : field.index = index)
    (hName : field.name = column.name)
    (hType : field.typeName = sqlName column.dataType)
    (hNull : field.isNull = field.value.isNull) :
    Describes index (column :: columns)
      (field.value :: values) (field :: fields) := by
  rcases hRest with ⟨hIndexes, hNames, hTypes, hValues, hNulls⟩
  refine ⟨?_, ?_, ?_, ?_, ?_⟩
  · rw [List.map_cons, hIndexes, hIndex, List.length_cons,
      List.range'_succ]
  · rw [List.map_cons, List.map_cons, hNames, hName]
  · rw [List.map_cons, List.map_cons, hTypes, hType]
  · rw [List.map_cons, hValues]
  · rw [List.map_cons, List.map_cons, hNulls, hNull]

/- Describing what was encoded, from a column on. -/
theorem describeColumns_encodes
    (hEncodes : Encodes columns values bytes)
    (before : Bytes)
    (index : Nat)
    (hNulls : ∀ position value,
      values[position]? = some value →
        isNullAt (before ++ bytes) (index + position) =
          value.isNull) :
    ∃ fields,
      describeColumns (before ++ bytes) columns index
          before.length =
        .ok (storedRow columns values, fields) ∧
      Describes index columns (storedRow columns values)
        fields ∧
      Covers before.length (before ++ bytes).length
        fields := by
  induction hEncodes generalizing before index with
  | nil =>
    refine ⟨[], rfl, ⟨rfl, rfl, rfl, rfl, rfl⟩, ?_⟩
    rw [List.append_nil]
    exact rfl
  | @null column columns values bytes hRest ih =>
    have hHere : isNullAt (before ++ bytes) index = true :=
      hNulls 0 .null rfl
    rcases ih before (index + 1) (by
      intro position value hValue
      have hNext := hNulls (position + 1) value hValue
      rwa [← Nat.add_assoc, Nat.add_right_comm] at hNext)
      with ⟨fields, hOthers, hDescribes, hCovers⟩
    let field : FieldLayout :=
      { index := index
        name := column.name
        typeName := sqlName column.dataType
        isNull := true
        offset := -1
        length := 0
        value := .null }
    rw [storedRow_null]
    have hField := hDescribes.cons
      (rfl : field.index = index)
      (rfl : field.name = column.name) rfl rfl
    refine ⟨field :: fields, ?_, hField, rfl, rfl, hCovers⟩
    unfold describeColumns
    rw [if_pos hHere, hOthers]
    rfl
  | @value column columns value values bytes rest hSome hValid
      hEncode hRest ih =>
    have hHere : isNullAt (before ++ (bytes ++ rest)) index =
        false := (hNulls 0 value rfl).trans hSome
    have hValue := decodeValue_encodeValue hValid hEncode
      before rest
    rcases ih (before ++ bytes) (index + 1) (by
      intro position value hValue
      have hNext := hNulls (position + 1) value hValue
      rw [← Nat.add_assoc, Nat.add_right_comm] at hNext
      rwa [List.append_assoc])
      with ⟨fields, hOthers, hDescribes, hCovers⟩
    rw [List.append_assoc, List.length_append] at hOthers
    rw [List.append_assoc, List.length_append] at hCovers
    let field : FieldLayout :=
      { index := index
        name := column.name
        typeName := sqlName column.dataType
        isNull := false
        offset := before.length
        length := before.length + bytes.length -
          before.length
        value := stored column.dataType value }
    have hLength : field.length = bytes.length :=
      Nat.add_sub_cancel_left _ _
    refine ⟨field :: fields, ?_,
      hDescribes.cons rfl rfl rfl ?_, ?_⟩
    · unfold describeColumns
      rw [if_neg (by rw [hHere]; decide), hValue]
      simp only [bind, Except.bind, hOthers]
      rfl
    · exact ((stored_isNull _ _).trans hSome).symm
    · refine ⟨rfl, ?_, ?_⟩
      · rw [hLength]
        exact (encodedSize_encodeValue hEncode).2
      · rw [hLength]
        exact hCovers

--
-- Whole Records
--

/- What holds of the bytes of a row. -/
structure RoundTrip
    (schema : Schema)
    (values : List Codable)
    (raw : Bytes) : Prop where
  decoded : decodeRecord schema raw =
    .ok (storedRow schema.columns values)
  estimated : estimateRecordSize schema values = .ok raw.length
  described : ∃ layout, describeRecord schema raw = .ok layout ∧
    layout.values = storedRow schema.columns values ∧
    layout.totalSize = raw.length ∧
    layout.nullBitmapSize = schema.nullBitmapSize ∧
    layout.nullBitmap = raw.take schema.nullBitmapSize ∧
    Describes 0 schema.columns
      (storedRow schema.columns values) layout.fields ∧
    Covers schema.nullBitmapSize raw.length layout.fields

omit [PythonText] in
/- Bit `i` of the bitmap of an encoded row says whether value
   `i` is NULL. -/
theorem isNullAt_encoded
    (schema : Schema)
    (hLength : values.length = schema.columns.length)
    (bytes : Bytes)
    {position : Nat}
    {value : Codable}
    (hValue : values[position]? = some value) :
    isNullAt
        (withNulls (List.replicate schema.nullBitmapSize 0) 0
          values ++ bytes) position =
      value.isNull := by
  have hHere := (List.getElem?_eq_some_iff.mp hValue).1
  have hSize : schema.nullBitmapSize =
      (schema.columns.length + 7) / 8 := rfl
  have hZero : isNullAt
      (List.replicate schema.nullBitmapSize 0) position =
      false := by
    unfold isNullAt
    rw [List.getD_eq_getElem?_getD, List.getElem?_replicate,
      if_pos (by omega)]
    exact Nat.zero_testBit _
  rw [isNullAt_append (by
      rw [length_withNulls, List.length_replicate]
      omega),
    isNullAt_withNulls (by
      rw [List.length_replicate]
      omega),
    hZero, Nat.sub_zero, hValue]
  rfl

theorem roundTrip_of_encodeRecord
    {schema : Schema}
    (hOk : encodeRecord schema values = .ok raw) :
    RoundTrip schema values raw := by
  unfold encodeRecord at hOk
  by_cases hArity : values.length ≠ schema.columns.length
  · rw [if_pos hArity] at hOk
    cases hOk
  · rw [if_neg hArity] at hOk
    have hLength := not_not.mp hArity
    rcases encodeColumns_ok hLength hOk with
      ⟨bytes, hEncodes, rfl⟩
    rw [List.nil_append] at *
    have hNulls := fun position value
        (hValue : values[position]? = some value) =>
      isNullAt_encoded schema hLength bytes hValue
    generalize hBitmap : withNulls
      (List.replicate schema.nullBitmapSize 0) 0 values =
        bitmap at hNulls ⊢
    have hSize : bitmap.length = schema.nullBitmapSize := by
      rw [← hBitmap, length_withNulls, List.length_replicate]
    have hWide : requireBitmap schema (bitmap ++ bytes) =
        .ok () := by
      refine if_neg ?_
      rw [List.length_append]
      omega
    constructor
    · have hColumns := decodeColumns_encodes hEncodes bitmap 0
        (by simpa using hNulls)
      rw [hSize] at hColumns
      unfold decodeRecord
      rw [hWide]
      simp only [bind, Except.bind, hColumns]
      rw [if_neg (by simp)]
      rfl
    · unfold estimateRecordSize
      rw [encodedSizes_encodes hEncodes, List.length_append,
        hSize]
    · rcases describeColumns_encodes hEncodes bitmap 0
        (by simpa using hNulls) with
        ⟨fields, hColumns, hDescribes, hCovers⟩
      rw [hSize] at hColumns hCovers
      refine ⟨{
          values := storedRow schema.columns values
          fields := fields
          nullBitmap := (bitmap ++ bytes).take
            schema.nullBitmapSize
          nullBitmapSize := schema.nullBitmapSize
          totalSize := (bitmap ++ bytes).length }, ?_, rfl,
        rfl, rfl, rfl, hDescribes, hCovers⟩
      unfold describeRecord
      rw [hWide]
      simp only [bind, Except.bind, hColumns]
      rfl

omit [PythonText] in
theorem packUInt32_ok
    {number : Nat}
    (hOk : packUInt32 number = .ok bytes) :
    number < 2 ^ 32 ∧ bytes = encode 4 number := by
  unfold packUInt32 at hOk
  split at hOk
  · rename_i hFits
    cases hOk
    exact ⟨hFits, rfl⟩
  · cases hOk

omit [PythonText] in
/- What a header was made of is read back, and a deletion
   leaves everything else as it was. -/
theorem setXmax_addTupleHeader
    {payload headered : Bytes}
    {xmin xmax : Nat}
    (hOk : addTupleHeader payload xmin xmax = .ok headered) :
    readTupleHeader headered =
        .ok { xmin := xmin, xmax := xmax } ∧
      stripTupleHeader headered = payload ∧
      ∀ later, setXmax headered later =
        addTupleHeader payload xmin later := by
  rcases ok_of_bind hOk with ⟨first, hFirst, hRest⟩
  rcases ok_of_bind hRest with ⟨second, hSecond, hEnd⟩
  cases hEnd
  rcases packUInt32_ok hFirst with ⟨hXmin, rfl⟩
  rcases packUInt32_ok hSecond with ⟨hXmax, rfl⟩
  have hFour : (encode 4 xmin).length = 4 := length_encode _ _
  have hSame : (encode 4 xmax).length = 4 := length_encode _ _
  have hWide : ¬ (encode 4 xmin ++ encode 4 xmax ++
      payload).length < 8 := by
    rw [List.length_append, List.length_append, hFour, hSame]
    omega
  refine ⟨?_, ?_, fun later => ?_⟩
  · have hLeft : slice (encode 4 xmin ++ encode 4 xmax ++
        payload) 0 4 = encode 4 xmin := by
      rw [List.append_assoc]
      exact slice_middle (List.length_nil).symm
        (by rw [hFour]) _
    have hRight : slice (encode 4 xmin ++ encode 4 xmax ++
        payload) 4 8 = encode 4 xmax := by
      rw [List.append_assoc]
      exact slice_middle hFour.symm (by rw [hSame]) _
    unfold readTupleHeader tupleHeaderSize
    rw [if_neg hWide, hLeft, hRight,
      decode_encode (by omega), decode_encode (by omega)]
  · unfold stripTupleHeader tupleHeaderSize
    exact List.drop_left' (by simp)
  · unfold setXmax addTupleHeader
    rw [if_neg hWide, hFirst]
    simp only [bind, Except.bind]
    cases hLater : packUInt32 later with
    | error raised => rfl
    | ok field =>
      rcases packUInt32_ok hLater with ⟨_, rfl⟩
      have hField : (encode 4 later).length = 4 :=
        length_encode _ _
      have hTake : (encode 4 xmin ++ encode 4 xmax ++
          payload).take 4 = encode 4 xmin := by
        rw [List.append_assoc]
        exact List.take_left' hFour
      have hDrop : (encode 4 xmin ++ encode 4 xmax ++
          payload).drop (4 + 4) = payload :=
        List.drop_left' (by simp)
      simp only [pure, Except.pure, Except.ok.injEq]
      unfold overwriteAt
      rw [hField, hTake, hDrop]

/- A row that is encoded comes back, its size is the one that
   was estimated, its fields are where they are said to be,
   and deleting a version changes its `xmax` alone. -/
theorem record_round_trip
    {schema : Schema}
    {values : List Codable}
    {raw : Bytes}
    (hOk : encodeRecord schema values = .ok raw) :
    RoundTrip schema values raw ∧
      ∀ payload xmin xmax headered,
        addTupleHeader payload xmin xmax = .ok headered →
          readTupleHeader headered =
              .ok { xmin := xmin, xmax := xmax } ∧
            stripTupleHeader headered = payload ∧
            ∀ later, setXmax headered later =
              addTupleHeader payload xmin later :=
  ⟨roundTrip_of_encodeRecord hOk,
    fun _ _ _ _ hHeader => setXmax_addTupleHeader hHeader⟩

end Codec

/- Names as they are. -/
abbrev asWritten : PythonText where
  repr name := name
  decodeError _ := ""

def idAndName : Schema where
  columns :=
    [{ name := "id", dataType := .integer, nullable := false },
     { name := "name", dataType := .text, nullable := true }]
  nonempty := List.cons_ne_nil _ _

theorem record_round_trip_null :
    @RoundTrip asWritten idAndName [.int 7, .null]
      [2, 7, 0, 0, 0, 0, 0, 0, 0] :=
  (@record_round_trip asWritten idAndName [.int 7, .null] _
    rfl).1

end Serialization

end ChenDB
