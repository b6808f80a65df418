import ChenDB.Library.Struct

/-
  One entry of the write-ahead log, over any type of page
  image. A record's position in the stream is its LSN, and
  the images it carries decide how many bytes it takes.
-/

--
-- Page Images
--

namespace ChenDB

abbrev PageId := Nat

abbrev Bytes := Library.Struct.Bytes

namespace Wal

/-
  What the log needs of a page image: its length in bytes,
  and the empty image a record carries when it has none.
-/
class ByteImage (ι : Type) where
  empty : ι
  byteLength : ι → Nat
  byteLength_empty : byteLength empty = 0

export ByteImage (byteLength)

attribute [simp] ByteImage.byteLength_empty

instance : ByteImage Bytes where
  empty := []
  byteLength := List.length
  byteLength_empty := rfl

--
-- Records
--

inductive RecordType where
  | update
  | commit
  | abort
  | checkpoint
deriving DecidableEq, Repr

/- A record belonging to no transaction. -/
def noTransaction : Nat := 0

/- checksum, lsn, prev_lsn, transaction, type, flags,
   reserved, page id and the two image lengths. -/
def recordHeaderSize : Nat := 44

structure LogRecord (ι : Type) where
  lsn : Nat
  prevLsn : Nat
  transactionId : Nat
  recordType : RecordType
  pageId : PageId
  beforeImage : ι
  afterImage : ι
deriving DecidableEq, Repr

namespace LogRecord

variable {ι : Type} [ByteImage ι]

def size (record : LogRecord ι) : Nat :=
  recordHeaderSize + byteLength record.beforeImage +
    byteLength record.afterImage

/- One past this record: the LSN of the next one. -/
def endLsn (record : LogRecord ι) : Nat :=
  record.lsn + record.size

/- The record alone is enough to roll its page back. -/
def hasUndo (record : LogRecord ι) : Bool :=
  byteLength record.beforeImage ≠ 0

theorem size_pos (record : LogRecord ι) :
    0 < record.size := by
  unfold size recordHeaderSize
  omega

end LogRecord

end Wal

end ChenDB
