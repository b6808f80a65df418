import ChenDB.Wal.Stream

/-
  Log records as bytes, and the scan of a log file that may
  end in a torn or stale record.
-/

--
-- Encoding
--

namespace ChenDB

namespace Wal

open Library.Struct

def RecordType.value : RecordType → Nat
  | .update => 1
  | .commit => 2
  | .abort => 3
  | .checkpoint => 4

/- `RecordType(value)`, which raises on other values. -/
def RecordType.ofValue? : Nat → Option RecordType
  | 1 => some .update
  | 2 => some .commit
  | 3 => some .abort
  | 4 => some .checkpoint
  | _ => none

@[simp] theorem RecordType.ofValue?_value
    (recordType : RecordType) :
    ofValue? recordType.value = some recordType := by
  cases recordType <;> rfl

/- A decoded image length above this is not believed. -/
def maxImageBytes : Nat := 2 ^ 20

namespace LogRecord

/- The header after the checksum. -/
def headerFields (record : LogRecord Bytes) :
    List (Nat × Nat) :=
  [ (8, record.lsn), (8, record.prevLsn),
    (8, record.transactionId),
    (1, record.recordType.value),
    (1, 0),
    (2, 0),
    (4, record.pageId),
    (4, record.beforeImage.length),
    (4, record.afterImage.length) ]

/- What the checksum covers. -/
def coveredBytes (record : LogRecord Bytes) : Bytes :=
  pack record.headerFields ++
    (record.beforeImage ++ record.afterImage)

def toBytes (record : LogRecord Bytes) : Bytes :=
  encode 4 (crc32 record.coveredBytes) ++ record.coveredBytes

/-
  The fields fit the widths `to_bytes` packs them into, and
  the images the bound the decoder sets.
-/
structure Encodable (record : LogRecord Bytes) : Prop where
  lsn : record.lsn < 2 ^ 64
  prevLsn : record.prevLsn < 2 ^ 64
  transactionId : record.transactionId < 2 ^ 64
  pageId : record.pageId < 2 ^ 32
  beforeImage : record.beforeImage.length ≤ maxImageBytes
  afterImage : record.afterImage.length ≤ maxImageBytes

theorem Encodable.fits
    {record : LogRecord Bytes}
    (hEncodable : record.Encodable) :
    Fits record.headerFields := by
  have hBefore := hEncodable.beforeImage
  have hAfter := hEncodable.afterImage
  have hType : record.recordType.value < 256 := by
    cases record.recordType <;> decide
  intro field hMem
  simp only [headerFields, List.mem_cons,
    List.not_mem_nil, or_false] at hMem
  unfold maxImageBytes at hBefore hAfter
  rcases hMem with rfl | rfl | rfl | rfl | rfl | rfl | rfl |
    rfl | rfl
  · exact hEncodable.lsn
  · exact hEncodable.prevLsn
  · exact hEncodable.transactionId
  · simpa using hType
  · decide
  · decide
  · exact hEncodable.pageId
  · simp only []
    omega
  · simp only []
    omega

@[simp] theorem length_headerBytes
    (record : LogRecord Bytes) :
    (pack record.headerFields).length = 40 := by
  rw [length_pack]
  rfl

theorem length_toBytes (record : LogRecord Bytes) :
    record.toBytes.length = record.size := by
  simp only [toBytes, coveredBytes, List.length_append,
    length_encode, length_headerBytes]
  unfold size recordHeaderSize
  simp only [ByteImage.byteLength]
  omega

end LogRecord

--
-- Decoding
--

/-
  Decode the record at the start of these bytes, or `none`
  if it is not whole: the header or an image cut short, a
  length out of bounds, a wrong checksum, an LSN that is not
  the position, or an unknown type.
-/
def decodeHead
    (bytes : Bytes)
    (position : Nat) : Option (LogRecord Bytes) :=
  if bytes.length < recordHeaderSize then
    none
  else
    match unpack [4, 8, 8, 8, 1, 1, 2, 4, 4, 4] bytes with
    | [checksum, lsn, prevLsn, transactionId, typeValue, _,
        _, pageId, beforeLen, afterLen] =>
      if beforeLen > maxImageBytes ∨
          afterLen > maxImageBytes then
        none
      else if bytes.length <
          recordHeaderSize + beforeLen + afterLen then
        none
      else if crc32 (slice bytes 4
            (recordHeaderSize + beforeLen + afterLen)) ≠
          checksum then
        none
      else if lsn ≠ position then
        none
      else
        (RecordType.ofValue? typeValue).map
          fun recordType =>
            { lsn := lsn
              prevLsn := prevLsn
              transactionId := transactionId
              recordType := recordType
              pageId := pageId
              beforeImage :=
                slice bytes recordHeaderSize
                  (recordHeaderSize + beforeLen)
              afterImage :=
                slice bytes (recordHeaderSize + beforeLen)
                  (recordHeaderSize + beforeLen + afterLen) }
    | _ => none

/- `decode_record(raw, offset, base_lsn)`. -/
def decodeRecord
    (raw : Bytes)
    (offset baseLsn : Nat) : Option (LogRecord Bytes) :=
  decodeHead (raw.drop offset) (baseLsn + offset)

/-
  `read_all` from a file offset, and whether something there
  could not be decoded. Each record takes bytes, so as many
  steps as there are bytes are enough.
-/
def readFrom
    (baseLsn : Nat) :
    Nat → Nat → Bytes → List (LogRecord Bytes) × Bool
  | 0, _, bytes => ([], bytes ≠ [])
  | fuel + 1, offset, bytes =>
    if bytes = [] then
      ([], false)
    else
      match decodeHead bytes (baseLsn + offset) with
      | none => ([], true)
      | some record =>
        let found := readFrom baseLsn fuel
          (offset + record.size)
          (bytes.drop record.size)
        (record :: found.1, found.2)

def readAllBytes
    (baseLsn : Nat)
    (raw : Bytes) : List (LogRecord Bytes) × Bool :=
  readFrom baseLsn raw.length 0 raw

--
-- Whole Records
--

/- The widths of the header, checksum included. -/
def headerWidths : List Nat :=
  [4, 8, 8, 8, 1, 1, 2, 4, 4, 4]

/- These bytes start with this record, whole. -/
structure Whole
    (bytes : Bytes)
    (position : Nat)
    (record : LogRecord Bytes) : Prop where
  lsn : record.lsn = position
  size : record.size ≤ bytes.length
  header : ∃ flags reserved : Nat,
    unpack headerWidths bytes =
      [ crc32 (slice bytes 4 record.size), record.lsn,
        record.prevLsn, record.transactionId,
        record.recordType.value, flags, reserved,
        record.pageId, record.beforeImage.length,
        record.afterImage.length ]
  beforeImage : record.beforeImage =
    slice bytes recordHeaderSize
      (recordHeaderSize + record.beforeImage.length)
  afterImage : record.afterImage =
    slice bytes
      (recordHeaderSize + record.beforeImage.length)
      record.size
  beforeBound : record.beforeImage.length ≤ maxImageBytes
  afterBound : record.afterImage.length ≤ maxImageBytes

theorem LogRecord.size_eq (record : LogRecord Bytes) :
    record.size = recordHeaderSize +
      record.beforeImage.length +
        record.afterImage.length := rfl

theorem RecordType.value_of_ofValue?
    {value : Nat}
    {recordType : RecordType}
    (hKnown : ofValue? value = some recordType) :
    recordType.value = value := by
  unfold ofValue? at hKnown
  split at hKnown
  · cases hKnown
    rfl
  · cases hKnown
    rfl
  · cases hKnown
    rfl
  · cases hKnown
    rfl
  · cases hKnown

variable {bytes : Bytes}

theorem length_slice
    {start stop : Nat}
    (hStop : stop ≤ bytes.length) :
    (slice bytes start stop).length = stop - start := by
  unfold slice
  rw [List.length_take, List.length_drop]
  omega

variable {position : Nat} {record : LogRecord Bytes}

/- What the decoder accepts is a whole record. -/
theorem whole_of_decodeHead
    (hDecoded : decodeHead bytes position = some record) :
    Whole bytes position record := by
  unfold decodeHead at hDecoded
  split at hDecoded
  · cases hDecoded
  split at hDecoded
  · rename_i checksum lsn prevLsn transactionId typeValue
      flags reserved pageId beforeLen afterLen hHeader
    split at hDecoded
    · cases hDecoded
    rename_i hBounds
    split at hDecoded
    · cases hDecoded
    rename_i hLong
    split at hDecoded
    · cases hDecoded
    rename_i hChecksum
    split at hDecoded
    · cases hDecoded
    rename_i hPosition
    rcases Option.map_eq_some_iff.mp hDecoded with
      ⟨recordType, hType, rfl⟩
    have hBefore :
        (slice bytes recordHeaderSize
          (recordHeaderSize + beforeLen)).length =
            beforeLen := by
      rw [length_slice (by omega)]
      omega
    have hAfter :
        (slice bytes (recordHeaderSize + beforeLen)
          (recordHeaderSize + beforeLen +
            afterLen)).length = afterLen := by
      rw [length_slice (by omega)]
      omega
    have hSum : recordHeaderSize + beforeLen + afterLen ≤
        bytes.length := by
      omega
    have hValue := RecordType.value_of_ofValue? hType
    rw [ne_eq, Decidable.not_not] at hChecksum
    rw [ne_eq, Decidable.not_not] at hPosition
    constructor
    · exact hPosition
    · rw [LogRecord.size_eq]
      simp only [hBefore, hAfter]
      exact hSum
    · refine ⟨flags, reserved, ?_⟩
      rw [LogRecord.size_eq]
      simp only [hBefore, hAfter]
      rw [hChecksum, hValue]
      exact hHeader
    · simp only [hBefore]
    · rw [LogRecord.size_eq]
      simp only [hBefore, hAfter]
    · simp only [hBefore]
      omega
    · simp only [hAfter]
      omega
  · cases hDecoded

/- Every whole record is accepted. -/
theorem decodeHead_of_whole
    (hWhole : Whole bytes position record) :
    decodeHead bytes position = some record := by
  have hSize := hWhole.size
  have hSum := record.size_eq
  have hLong : ¬ bytes.length < recordHeaderSize := by
    omega
  rcases hWhole.header with ⟨flags, reserved, hHeader⟩
  unfold headerWidths at hHeader
  unfold decodeHead
  rw [if_neg hLong, hHeader]
  have hBefore := hWhole.beforeBound
  have hAfter := hWhole.afterBound
  simp only []
  rw [if_neg (by omega), ← hSum, if_neg (by omega),
    if_neg (by simp), if_neg (by simp [hWhole.lsn]),
    RecordType.ofValue?_value, Option.map_some,
    ← hWhole.beforeImage, ← hWhole.afterImage]

/- Bytes after a whole record make no difference to it. -/
theorem whole_append_iff
    (hFits : record.size ≤ bytes.length)
    (rest : Bytes) :
    Whole (bytes ++ rest) position record ↔
      Whole bytes position record := by
  have hSum := record.size_eq
  have hHeader :
      unpack headerWidths (bytes ++ rest) =
        unpack headerWidths bytes := by
    apply unpack_append
    change recordHeaderSize ≤ bytes.length
    omega
  have hCovered :
      slice (bytes ++ rest) 4 record.size =
        slice bytes 4 record.size :=
    slice_append hFits rest
  have hBefore :
      slice (bytes ++ rest) recordHeaderSize
          (recordHeaderSize + record.beforeImage.length) =
        slice bytes recordHeaderSize
          (recordHeaderSize + record.beforeImage.length) :=
    slice_append (by omega) rest
  have hAfter :
      slice (bytes ++ rest)
          (recordHeaderSize + record.beforeImage.length)
          record.size =
        slice bytes
          (recordHeaderSize + record.beforeImage.length)
          record.size :=
    slice_append hFits rest
  constructor
  · intro hWhole
    refine ⟨hWhole.lsn, hFits, ?_, ?_, ?_,
      hWhole.beforeBound, hWhole.afterBound⟩
    · rw [← hHeader, ← hCovered]
      exact hWhole.header
    · rw [← hBefore]
      exact hWhole.beforeImage
    · rw [← hAfter]
      exact hWhole.afterImage
  · intro hWhole
    refine ⟨hWhole.lsn, ?_, ?_, ?_, ?_,
      hWhole.beforeBound, hWhole.afterBound⟩
    · rw [List.length_append]
      omega
    · rw [hHeader, hCovered]
      exact hWhole.header
    · rw [hBefore]
      exact hWhole.beforeImage
    · rw [hAfter]
      exact hWhole.afterImage

/- The header reads back, whatever follows the record. -/
theorem LogRecord.unpack_toBytes
    (hFits : Fits record.headerFields)
    (rest : Bytes) :
    unpack headerWidths (record.toBytes ++ rest) =
      crc32 record.coveredBytes ::
        record.headerFields.map Prod.snd := by
  have hAll : Fits ((4, crc32 record.coveredBytes) ::
      record.headerFields) := by
    intro field hMem
    rcases List.mem_cons.mp hMem with rfl | hField
    · exact crc32_lt _
    · exact hFits field hField
  have hFields := unpack_pack hAll
    (record.beforeImage ++ record.afterImage ++ rest)
  have hSplit : record.toBytes ++ rest =
      pack ((4, crc32 record.coveredBytes) ::
          record.headerFields) ++
        (record.beforeImage ++ record.afterImage ++
          rest) := by
    unfold LogRecord.toBytes LogRecord.coveredBytes
    simp only [pack, List.append_assoc]
  rw [hSplit]
  exact hFields

/- An encoded record is whole. -/
theorem whole_toBytes
    (hEncodable : record.Encodable) :
    Whole record.toBytes record.lsn record := by
  have hLength := record.length_toBytes
  have hSum := record.size_eq
  have hPrefix :
      (encode 4 (crc32 record.coveredBytes) ++
        pack record.headerFields).length =
          recordHeaderSize := by
    rw [List.length_append, length_encode,
      LogRecord.length_headerBytes]
    rfl
  have hSplit : record.toBytes =
      (encode 4 (crc32 record.coveredBytes) ++
        pack record.headerFields) ++
          (record.beforeImage ++ record.afterImage) := by
    unfold LogRecord.toBytes LogRecord.coveredBytes
    rw [List.append_assoc]
  have hCovered : slice record.toBytes 4 record.size =
      record.coveredBytes := by
    unfold slice LogRecord.toBytes
    rw [List.drop_left' (length_encode _ _)]
    apply List.take_of_length_le
    have hWhole : (encode 4 (crc32 record.coveredBytes) ++
        record.coveredBytes).length = record.size :=
      hLength
    rw [List.length_append, length_encode] at hWhole
    omega
  refine ⟨rfl, by omega, ⟨0, 0, ?_⟩, ?_, ?_,
    hEncodable.beforeImage, hEncodable.afterImage⟩
  · rw [hCovered]
    have hHeader := LogRecord.unpack_toBytes
      hEncodable.fits []
    rw [List.append_nil] at hHeader
    exact hHeader
  · unfold slice
    rw [hSplit, List.drop_left' hPrefix,
      Nat.add_sub_cancel_left, List.take_left]
  · unfold slice
    rw [hSplit, ← List.append_assoc, hSum,
      Nat.add_sub_cancel_left,
      List.drop_left' (by
        rw [List.length_append, hPrefix])]
    exact List.take_length.symm

/- A record reads back from its bytes, whatever follows. -/
theorem decodeHead_toBytes
    (hEncodable : record.Encodable)
    (rest : Bytes) :
    decodeHead (record.toBytes ++ rest) record.lsn =
      some record := by
  apply decodeHead_of_whole
  apply (whole_append_iff
    (Nat.le_of_eq record.length_toBytes.symm) rest).mpr
  exact whole_toBytes hEncodable

/-
  The start of a record that was cut short is not taken for
  a record: a header that is there says how long it is.
-/
theorem decodeHead_torn
    (hFits : Fits record.headerFields)
    {torn : Bytes}
    (hPrefix : torn <+: record.toBytes)
    (hTorn : torn ≠ record.toBytes)
    (position : Nat) :
    decodeHead torn position = none := by
  rcases hPrefix with ⟨rest, hRest⟩
  have hShort : torn.length < record.size := by
    rw [← record.length_toBytes, ← hRest, List.length_append]
    have hSome : rest ≠ [] := by
      rintro rfl
      rw [List.append_nil] at hRest
      exact hTorn hRest
    have hLength := List.length_pos_iff.mpr hSome
    omega
  by_contra hDecoded
  rcases Option.ne_none_iff_exists'.mp hDecoded with
    ⟨found, hFound⟩
  have hWhole := whole_of_decodeHead hFound
  have hLong : headerWidths.sum ≤ torn.length := by
    have hSize := hWhole.size
    rw [found.size_eq] at hSize
    change recordHeaderSize ≤ torn.length
    omega
  rcases hWhole.header with ⟨flags, reserved, hHeader⟩
  have hFields := LogRecord.unpack_toBytes hFits []
  rw [List.append_nil, ← hRest, unpack_append hLong,
    hHeader] at hFields
  simp only [LogRecord.headerFields, List.map_cons,
    List.map_nil, List.cons.injEq] at hFields
  have hSame : found.size = record.size := by
    rw [found.size_eq, record.size_eq]
    omega
  have hSize := hWhole.size
  omega

--
-- Scanning a File
--

theorem size_le_of_decodeHead
    (hDecoded : decodeHead bytes position = some record) :
    record.size ≤ bytes.length :=
  (whole_of_decodeHead hDecoded).size

/- As many steps as there are bytes are enough. -/
theorem readFrom_fuel
    (baseLsn offset : Nat)
    (bytes : Bytes)
    (fuel fuel' : Nat)
    (hEnough : bytes.length ≤ fuel)
    (hEnough' : bytes.length ≤ fuel') :
    readFrom baseLsn fuel offset bytes =
      readFrom baseLsn fuel' offset bytes := by
  induction fuel generalizing offset bytes fuel' with
  | zero =>
    have hEmpty : bytes = [] :=
      List.eq_nil_of_length_eq_zero (by omega)
    subst hEmpty
    cases fuel' with
    | zero => rfl
    | succ fuel' => simp [readFrom]
  | succ fuel ih =>
    cases fuel' with
    | zero =>
      have hEmpty : bytes = [] :=
        List.eq_nil_of_length_eq_zero (by omega)
      subst hEmpty
      simp [readFrom]
    | succ fuel' =>
      unfold readFrom
      split
      · rfl
      · cases hHead : decodeHead bytes
            (baseLsn + offset) with
        | none => rfl
        | some record =>
          have hSize := record.size_pos
          have hRest :
              (bytes.drop record.size).length =
                bytes.length - record.size :=
            List.length_drop
          have hBoth := ih (offset + record.size)
            (bytes.drop record.size) fuel' (by omega)
            (by omega)
          simp only [hBoth]

variable {baseLsn fuel : Nat}

/- No record is found before the place the scan starts. -/
theorem lsn_ge_of_mem_readFrom
    {offset : Nat}
    (hMem : record ∈ (readFrom baseLsn fuel offset bytes).1) :
    baseLsn + offset ≤ record.lsn := by
  induction fuel generalizing offset bytes with
  | zero => cases hMem
  | succ fuel ih =>
    unfold readFrom at hMem
    split at hMem
    · cases hMem
    · split at hMem
      · cases hMem
      · rename_i head hHead
        have hLsn := (whole_of_decodeHead hHead).lsn
        rcases List.mem_cons.mp hMem with rfl | hLater
        · omega
        · have hRest := ih hLater
          omega

/- What is read is contiguous from where the scan starts. -/
theorem readFrom_contiguous
    (baseLsn fuel offset : Nat)
    (bytes : Bytes) :
    Contiguous (baseLsn + offset)
      (readFrom baseLsn fuel offset bytes).1 := by
  induction fuel generalizing offset bytes with
  | zero => trivial
  | succ fuel ih =>
    unfold readFrom
    split
    · trivial
    · cases hHead : decodeHead bytes
          (baseLsn + offset) with
      | none => trivial
      | some record =>
        refine ⟨(whole_of_decodeHead hHead).lsn, ?_⟩
        rw [Nat.add_assoc]
        exact ih _ _

theorem readAllBytes_contiguous
    (baseLsn : Nat)
    (raw : Bytes) :
    Contiguous baseLsn (readAllBytes baseLsn raw).1 :=
  readFrom_contiguous baseLsn raw.length 0 raw

/- Nothing is read exactly when nothing is there or what is
   there does not start with a whole record. -/
theorem readAllBytes_eq_nil_iff
    (baseLsn : Nat)
    (raw : Bytes) :
    (readAllBytes baseLsn raw).1 = [] ↔
      raw = [] ∨ decodeHead raw baseLsn = none := by
  unfold readAllBytes
  cases raw with
  | nil => simp [readFrom]
  | cons byte rest =>
    rw [List.length_cons, readFrom, if_neg (by simp),
      Nat.add_zero]
    cases decodeHead (byte :: rest) baseLsn with
    | none => simp
    | some record => simp

/- The bytes of a run of records. -/
def encodeAll (records : List (LogRecord Bytes)) : Bytes :=
  records.flatMap LogRecord.toBytes

variable {records : List (LogRecord Bytes)}

/-
  A scan over contiguous records reads them all back and
  goes on with what follows them.
-/
theorem readFrom_encodeAll
    (offset : Nat)
    (hRun : Contiguous (baseLsn + offset) records)
    (hEncodable : ∀ record ∈ records, record.Encodable)
    (tail : Bytes)
    (hEnough :
      (encodeAll records ++ tail).length ≤ fuel) :
    readFrom baseLsn fuel offset
        (encodeAll records ++ tail) =
      (records ++ (readFrom baseLsn tail.length
          (offset + totalSize records) tail).1,
        (readFrom baseLsn tail.length
          (offset + totalSize records) tail).2) := by
  induction records generalizing offset fuel with
  | nil =>
    exact readFrom_fuel baseLsn offset _ _ _ hEnough
      (Nat.le_refl _)
  | cons record records ih =>
    rcases hRun with ⟨hLsn, hRest⟩
    have hHead := hEncodable record (.head _)
    have hOthers := fun later hLater =>
      hEncodable later (.tail _ hLater)
    have hSize := record.size_pos
    have hBytes : encodeAll (record :: records) ++ tail =
        record.toBytes ++ (encodeAll records ++ tail) := by
      unfold encodeAll
      rw [List.flatMap_cons, List.append_assoc]
    have hLength := record.length_toBytes
    have hDecoded := decodeHead_toBytes hHead
      (encodeAll records ++ tail)
    rw [hLsn] at hDecoded
    rw [hBytes, List.length_append] at hEnough
    rw [hBytes]
    cases fuel with
    | zero => omega
    | succ fuel =>
      have hNonempty :
          record.toBytes ++
            (encodeAll records ++ tail) ≠ [] := by
        apply List.append_ne_nil_of_left_ne_nil
        apply List.ne_nil_of_length_pos
        omega
      rw [readFrom, if_neg hNonempty, hDecoded]
      simp only []
      rw [Nat.add_assoc] at hRest
      rw [List.drop_left' hLength,
        ih _ hRest hOthers (by omega), totalSize_cons,
        Nat.add_assoc]
      rfl

/- What was written contiguously is read back whole. -/
theorem readAllBytes_encodeAll
    (hRun : Contiguous baseLsn records)
    (hEncodable : ∀ record ∈ records, record.Encodable) :
    readAllBytes baseLsn (encodeAll records) =
      (records, false) := by
  have hRead := readFrom_encodeAll 0 hRun
    hEncodable [] (Nat.le_refl _)
  rw [List.append_nil] at hRead
  unfold readAllBytes
  rw [hRead]
  simp [readFrom]

/-
  A log whose last record was cut short reads as the whole
  records in front of it, and says so unless nothing of that
  record is there.
-/
theorem readAllBytes_torn
    {baseLsn : Nat}
    {records : List (LogRecord Bytes)}
    (hRun : Contiguous baseLsn records)
    (hEncodable : ∀ record ∈ records, record.Encodable)
    {last : LogRecord Bytes}
    (hFits : Fits last.headerFields)
    {torn : Bytes}
    (hPrefix : torn <+: last.toBytes)
    (hTorn : torn ≠ last.toBytes) :
    readAllBytes baseLsn (encodeAll records ++ torn) =
      (records, decide (torn ≠ [])) := by
  have hRead := readFrom_encodeAll 0 hRun hEncodable torn
    (Nat.le_refl _)
  have hTail : readFrom baseLsn torn.length
      (0 + totalSize records) torn =
        ([], decide (torn ≠ [])) := by
    cases torn with
    | nil => rfl
    | cons byte rest =>
      rw [List.length_cons, readFrom, if_neg (by simp),
        decodeHead_torn hFits hPrefix hTorn]
      simp
  unfold readAllBytes
  rw [hRead, hTail, List.append_nil]

/- A commit record of which twelve bytes were written. -/
theorem readAllBytes_torn_commit :
    readAllBytes 0
      (encodeAll [⟨0, 0, 1, .update, 2, [], [7, 8]⟩] ++
        (LogRecord.toBytes
          ⟨46, 0, 1, .commit, 0, [], []⟩).take 12) =
      ([⟨0, 0, 1, .update, 2, [], [7, 8]⟩], true) :=
  readAllBytes_torn (by exact ⟨rfl, trivial⟩)
    (by
      intro record hMem
      rcases List.mem_singleton.mp hMem with rfl
      exact ⟨by decide, by decide, by decide, by decide,
        by decide, by decide⟩)
    (by decide) (List.take_prefix _ _) (by decide +kernel)

/-
  The first record appended behind bytes that do not start
  with a whole record is never read: a scan that gets past
  those bytes at all has jumped over its position.
-/
theorem not_mem_readAllBytes
    {leftover : Bytes}
    (hLeftover : leftover ≠ [])
    (hTorn : decodeHead leftover baseLsn = none)
    (later : Bytes)
    (hLsn : record.lsn = baseLsn + leftover.length) :
    record ∉
      (readAllBytes baseLsn (leftover ++ later)).1 := by
  have hLength : 0 < leftover.length :=
    List.length_pos_iff.mpr hLeftover
  unfold readAllBytes
  intro hMem
  rw [List.length_append] at hMem
  cases hFuel : leftover.length + later.length with
  | zero => omega
  | succ fuel =>
    rw [hFuel] at hMem
    unfold readFrom at hMem
    split at hMem
    · cases hMem
    · split at hMem
      · cases hMem
      · rename_i head hHead
        have hWhole := whole_of_decodeHead hHead
        rw [Nat.add_zero] at hWhole
        have hLong : leftover.length < head.size := by
          by_contra hShort
          have hOld := (whole_append_iff
            (Nat.le_of_not_lt hShort) later).mp hWhole
          rw [decodeHead_of_whole hOld] at hTorn
          cases hTorn
        rcases List.mem_cons.mp hMem with rfl | hLater
        · have hHeadLsn := hWhole.lsn
          omega
        · have hFrom := lsn_ge_of_mem_readFrom hLater
          omega

end Wal

end ChenDB
