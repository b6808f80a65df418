import ChenDB.Errors
import ChenDB.Wal.Record

/-
  The meta page: the decoded fields of page 0, and its bytes.
-/

--
-- The Meta Page
--

namespace ChenDB

namespace Storage

open Library.Struct

def defaultPageSize : Nat := 4096

def invalidPageId : PageId := 0xFFFFFFFF

def metaPageId : PageId := 0

def formatVersion : Nat := 5

structure MetaPage where
  pageSize : Nat
  pageCount : Nat
  formatVersion : Nat
  freeListHead : PageId
  catalogTablesFirst : PageId
  catalogTablesLast : PageId
  catalogColumnsFirst : PageId
  catalogColumnsLast : PageId
  catalogIndexesFirst : PageId
  catalogIndexesLast : PageId
  nextObjectId : Nat
  /- LSN of the last record describing this page. -/
  lsn : Nat
  /- LSN of the first byte of the log file. -/
  checkpointLsn : Nat
  /- The next transaction id, as of the last meta write. -/
  nextXid : Nat
  flags : Nat
deriving DecidableEq, Repr

namespace MetaPage

/- `MetaPage(page_size=..., page_count=1)`. -/
def create (pageSize : Nat) : MetaPage where
  pageSize := pageSize
  pageCount := 1
  formatVersion := Storage.formatVersion
  freeListHead := invalidPageId
  catalogTablesFirst := invalidPageId
  catalogTablesLast := invalidPageId
  catalogColumnsFirst := invalidPageId
  catalogColumnsLast := invalidPageId
  catalogIndexesFirst := invalidPageId
  catalogIndexesLast := invalidPageId
  nextObjectId := 0
  lsn := 0
  checkpointLsn := 0
  nextXid := 0
  flags := 0

end MetaPage

--
-- The Bytes of Page 0
--

/- "ChenDB Format 1" and a zero byte. -/
def magic : Bytes :=
  [ 67, 104, 101, 110, 68, 66, 32, 70, 111, 114, 109, 97,
    116, 32, 49, 0 ]

def metaHeaderSize : Nat := 88

/- The checksum is the last field of the header. -/
def metaChecksumOffset : Nat := metaHeaderSize - 4

namespace MetaPage

/- The fields between the magic and the checksum. -/
def headerFields (page : MetaPage) : List (Nat × Nat) :=
  [ (4, page.formatVersion), (4, page.pageSize),
    (4, page.pageCount), (4, page.freeListHead),
    (4, page.catalogTablesFirst),
    (4, page.catalogTablesLast),
    (4, page.catalogColumnsFirst),
    (4, page.catalogColumnsLast),
    (4, page.catalogIndexesFirst),
    (4, page.catalogIndexesLast),
    (4, page.nextObjectId), (8, page.lsn),
    (8, page.checkpointLsn), (4, page.nextXid),
    (4, page.flags) ]

/- Encode into a full page, checksum included. -/
def toBytes (page : MetaPage) : Bytes :=
  let covered := magic ++ pack page.headerFields
  covered ++ encode 4 (crc32 covered) ++
    List.replicate (page.pageSize - metaHeaderSize) 0

end MetaPage

/- One byte as Python's `repr` of a bytes literal has it. -/
def reprByte (quote byte : UInt8) : String :=
  let hexDigit := fun n : Nat =>
    String.singleton ("0123456789abcdef".toList.getD n '0')
  if byte = quote ∨ byte = 92 then
    "\\" ++ String.singleton (Char.ofNat byte.toNat)
  else if byte = 9 then "\\t"
  else if byte = 10 then "\\n"
  else if byte = 13 then "\\r"
  else if 32 ≤ byte ∧ byte < 127 then
    String.singleton (Char.ofNat byte.toNat)
  else
    "\\x" ++ hexDigit (byte.toNat / 16) ++
      hexDigit (byte.toNat % 16)

/- Python's `repr` of bytes. -/
def reprBytes (bytes : Bytes) : String :=
  let quote : UInt8 :=
    if 39 ∈ bytes ∧ 34 ∉ bytes then 34 else 39
  let mark := String.singleton (Char.ofNat quote.toNat)
  "b" ++ mark ++
    String.join (bytes.map (reprByte quote)) ++ mark

/- Eight hexadecimal digits. -/
def hex8 (value : Nat) : String :=
  let digits := String.ofList (Nat.toDigits 16 value)
  String.ofList (List.replicate (8 - digits.length) '0') ++
    digits

/- What to tell the holder of a file of an old version. -/
def upgradeHint : Nat → String
  | 1 =>
    " Version 1 files predate the catalog (Milestone 4) " ++
      "and cannot be upgraded in place; recreate the database."
  | 2 =>
    " Version 2 files predate the index catalog " ++
      "(Milestone 5) and cannot be upgraded in place; recreate " ++
      "the database."
  | 3 =>
    " Version 3 files predate the write-ahead log " ++
      "(Milestone 9). Upgrading would mean inventing a " ++
      "checkpoint_lsn for a file that never had one; recreate " ++
      "the database."
  | 4 =>
    " Version 4 files predate MVCC (Milestone 10): their " ++
      "rows have no tuple header, so no transaction can be said " ++
      "to have created them. Recreate the database."
  | _ => ""

/- The widths of the header after the magic. -/
def metaWidths : List Nat :=
  [4, 4, 4, 4, 4, 4, 4, 4, 4, 4, 4, 8, 8, 4, 4, 4]

/- Decode page 0, checking magic, version and checksum. -/
def MetaPage.fromBytes
    (verifyChecksum : Bool)
    (raw : Bytes) : Except EngineError MetaPage :=
  if raw.length < metaHeaderSize then
    .error (.corruptDatabase
      (s!"file is {raw.length} bytes, too short to hold a " ++
        s!"{metaHeaderSize}-byte header"))
  else
    match unpack metaWidths (raw.drop 16) with
    | [version, pageSize, pageCount, freeListHead,
        tablesFirst, tablesLast, columnsFirst, columnsLast,
        indexesFirst, indexesLast, nextObjectId, lsn,
        checkpointLsn, nextXid, flags, stored] =>
      if raw.take 16 ≠ magic then
        .error (.corruptDatabase
          (s!"bad magic {reprBytes (raw.take 16)}: not a " ++
            s!"ChenDB database file"))
      else if version ≠ Storage.formatVersion then
        .error (.corruptDatabase
          (s!"format version {version} is not supported " ++
            s!"(this build understands version {Storage.formatVersion})." ++
            upgradeHint version))
      else
        let actual := crc32 (raw.take metaChecksumOffset)
        if verifyChecksum ∧ actual ≠ stored then
          .error (.checksumMismatch
            (s!"meta page: checksum mismatch (stored " ++
              s!"0x{hex8 stored}, computed 0x{hex8 actual})"))
        else if pageCount < 1 then
          .error (.corruptDatabase
            s!"page_count {pageCount} must be at least 1")
        else
          .ok
            { pageSize := pageSize
              pageCount := pageCount
              formatVersion := version
              freeListHead := freeListHead
              catalogTablesFirst := tablesFirst
              catalogTablesLast := tablesLast
              catalogColumnsFirst := columnsFirst
              catalogColumnsLast := columnsLast
              catalogIndexesFirst := indexesFirst
              catalogIndexesLast := indexesLast
              nextObjectId := nextObjectId
              lsn := lsn
              checkpointLsn := checkpointLsn
              nextXid := nextXid
              flags := flags }
    | _ => .error (.corruptDatabase "")

/- The LSN in an encoded meta page. -/
def readMetaLsn (raw : Bytes) : Nat :=
  if raw.length < metaHeaderSize then 0
  else decode (slice raw 60 68)

end Storage

end ChenDB
