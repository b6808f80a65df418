import ChenDB.Storage.Page
import ChenDB.Storage.Reopen

/-
  A new database created beside a log file that is already
  there. The log is opened at base LSN 0, behind whatever the
  file holds, and nothing empties it before the first
  checkpoint, so the recovery of the new database starts with
  the old bytes.
-/

--
-- Creating a Database
--

namespace ChenDB

namespace Storage

open Library Library.Struct Wal

/- `stamp_meta_lsn` of the first meta page. -/
def newMetaBytes (pageSize lsn : Nat) : Bytes :=
  { MetaPage.create pageSize with lsn := lsn }.toBytes

/- The log calls of `Pager.__init__` on a new file: the meta
   page is written, and synced. -/
def createCalls (pageSize : Nat) : List (LogCall Bytes) :=
  [ .appendUpdate noTransaction metaPageId []
      (newMetaBytes pageSize), .flush ]

/- The log of a new database after these calls, with the
   bytes its file held before. -/
def createdLog
    (old : Bytes)
    (pageSize : Nat)
    (calls : List (LogCall Bytes)) : LogFile :=
  let opened := LogFile.openAt old 0
  opened.withLog
    (callsAfter opened.log (createCalls pageSize ++ calls))

/- The data file of a new database as the sync left it. -/
def createdFile (old : Bytes) (pageSize : Nat) : Bytes :=
  newMetaBytes pageSize old.length

/-
  Whatever the new database logs before its first checkpoint,
  a recovery reads the records it wrote itself and no others.
  Fields too wide for `to_bytes` raise and are left out.
-/
def Unaffected (old : Bytes) (pageSize : Nat) : Prop :=
  ∀ calls,
    (∀ record ∈ (createdLog old pageSize calls).log.file,
        record.Encodable) →
      (createdLog old pageSize calls).readAll =
        ((createdLog old pageSize calls).log.file, false)

theorem createdLog_placed
    (old : Bytes)
    (pageSize : Nat)
    (calls : List (LogCall Bytes)) :
    (createdLog old pageSize calls).log.Placed old.length ∧
      (createdLog old pageSize calls).log.baseLsn = 0 := by
  have hPlaced := runCalls_placed
    (createCalls pageSize ++ calls) rfl (openAt_placed old 0)
  rw [Nat.zero_add] at hPlaced
  exact hPlaced.2

theorem createdLog_readAll
    (old : Bytes)
    (pageSize : Nat)
    (calls : List (LogCall Bytes)) :
    (createdLog old pageSize calls).readAll =
      readAllBytes 0 (old ++ encodeAll
        (createdLog old pageSize calls).log.file) := by
  unfold LogFile.readAll
  rw [(createdLog_placed old pageSize calls).2]
  rfl

--
-- When the Old Log Is Not Seen
--

/- The first record of a new database. -/
def firstRecord
    (old : Bytes)
    (pageSize : Nat) : LogRecord Bytes where
  lsn := old.length
  prevLsn := 0
  transactionId := noTransaction
  recordType := .update
  pageId := metaPageId
  beforeImage := []
  afterImage := newMetaBytes pageSize old.length

theorem createdLog_file
    (old : Bytes)
    (pageSize : Nat) :
    (createdLog old pageSize []).log.file =
      [firstRecord old pageSize] := by
  unfold createdLog createCalls callsAfter
  simp only [List.append_nil, List.foldl_cons,
    List.foldl_nil, LogFile.withLog, LogCall.after]
  unfold WriteAheadLog.updated WriteAheadLog.updateRecord
  simp only [LogFile.openAt, WriteAheadLog.openFile,
    WriteAheadLog.superseded, Option.filter_none]
  unfold WriteAheadLog.flushed firstRecord
  simp [WriteAheadLog.stage, WriteAheadLog.nextRecord,
    WriteAheadLog.nextLsn]

variable {pageSize : Nat}

/- A page size the pager takes fits a log record. -/
theorem length_newMetaBytes
    {lsn : Nat}
    (hSize : validatePageSize pageSize = .ok ()) :
    (newMetaBytes pageSize lsn).length ≤ maxImageBytes := by
  have hBounds : pageSize ≤ 65536 := by
    unfold validatePageSize at hSize
    split at hSize
    · cases hSize
    · omega
  have hHeader :
      (MetaPage.headerFields
        { MetaPage.create pageSize with lsn := lsn }).map
          Prod.fst =
        [4, 4, 4, 4, 4, 4, 4, 4, 4, 4, 4, 8, 8, 4, 4] := rfl
  unfold newMetaBytes MetaPage.toBytes
  simp only [List.length_append, List.length_replicate,
    length_encode, length_pack, hHeader]
  simp only [MetaPage.create, magic, maxImageBytes,
    List.length_cons, List.length_nil, List.sum_cons,
    List.sum_nil]
  omega

variable {old : Bytes}

theorem firstRecord_encodable
    (hSize : validatePageSize pageSize = .ok ())
    (hRoom : old.length < 2 ^ 64) :
    (firstRecord old pageSize).Encodable where
  lsn := hRoom
  prevLsn := Nat.two_pow_pos 64
  transactionId := Nat.two_pow_pos 64
  pageId := Nat.two_pow_pos 32
  beforeImage := Nat.zero_le _
  afterImage := length_newMetaBytes hSize

/- A whole record at the head is read first. -/
theorem readAllBytes_head
    {baseLsn : Nat}
    {raw : Bytes}
    {record : LogRecord Bytes}
    (hHead : decodeHead raw baseLsn = some record) :
    ∃ rest, (readAllBytes baseLsn raw).1 =
      record :: rest := by
  cases raw with
  | nil =>
    have hSize := size_le_of_decodeHead hHead
    have hPos := record.size_pos
    rw [List.length_nil] at hSize
    omega
  | cons byte bytes =>
    unfold readAllBytes
    rw [List.length_cons, readFrom, if_neg (by simp),
      Nat.add_zero, hHead]
    exact ⟨_, rfl⟩

/- Over an old log the very first record is already not what
   a recovery reads first. -/
theorem not_unaffected
    (hSize : validatePageSize pageSize = .ok ())
    (hRoom : old.length < 2 ^ 64)
    (hOld : old ≠ []) :
    ¬ Unaffected old pageSize := by
  intro hUnaffected
  have hRead := hUnaffected []
  rw [createdLog_readAll, createdLog_file] at hRead
  have hFirst := hRead (by
    intro record hRecord
    rw [List.mem_singleton.mp hRecord]
    exact firstRecord_encodable hSize hRoom)
  have hFound : firstRecord old pageSize ∈
      (readAllBytes 0 (old ++ encodeAll
        [firstRecord old pageSize])).1 := by
    rw [hFirst]
    exact List.mem_singleton_self _
  cases hHead : decodeHead old 0 with
  | none =>
    exact not_mem_readAllBytes hOld hHead _
      (Nat.zero_add _).symm hFound
  | some head =>
    -- The old record at offset 0 is still read first.
    have hLonger : decodeHead (old ++ encodeAll
        [firstRecord old pageSize]) 0 = some head :=
      decodeHead_of_whole ((whole_append_iff
        (size_le_of_decodeHead hHead) _).mpr
          (whole_of_decodeHead hHead))
    rcases readAllBytes_head hLonger with ⟨rest, hRest⟩
    rw [hFirst] at hRest
    have hSame : firstRecord old pageSize = head :=
      (List.cons.inj hRest).1
    have hLsn := (whole_of_decodeHead hHead).lsn
    rw [← hSame] at hLsn
    exact hOld (List.eq_nil_of_length_eq_zero hLsn)

/-
  A log file already there leaves a new database alone
  exactly when it is empty.
-/
theorem unaffected_iff
    {old : Bytes}
    {pageSize : Nat}
    (hSize : validatePageSize pageSize = .ok ())
    (hRoom : old.length < 2 ^ 64) :
    Unaffected old pageSize ↔ old = [] := by
  constructor
  · intro hUnaffected
    by_contra hOld
    exact not_unaffected hSize hRoom hOld hUnaffected
  · intro hEmpty
    subst hEmpty
    intro calls hEncodable
    have hPlaced := (createdLog_placed [] pageSize calls).1
    rw [createdLog_readAll, List.nil_append]
    exact readAllBytes_encodeAll hPlaced.run hEncodable

/- Transaction 1 of the new database writes page 1 and
   commits. -/
def committedPage (lsn : Nat) : Bytes :=
  List.replicate 4 67 ++ encode 8 lsn ++ List.replicate 244 67

def commitCalls : List (LogCall Bytes) :=
  [ .appendUpdate 1 1 [] committedPage, .commit 1 ]

/- Page 1 after a crash that follows the commit. -/
def pageAfterCrash (old : Bytes) : Option Bytes :=
  ((reopen "db" defaultPageSize true
    (createdFile old 256)
    (createdLog old 256 commitCalls).raw).toOption).map
      fun pager => slice pager.data 256 512

/-
  One byte left of an old log is enough: transaction 1 has
  committed and its COMMIT record is in the log file, yet
  after a crash the page it wrote is not there.
-/
theorem stale_log_loses_commit :
    (createdLog [0] 256 commitCalls).log.file.any
        (fun record => record.recordType = .commit ∧
          record.transactionId = 1) = true ∧
      pageAfterCrash [0] = some [] ∧
      ¬ Unaffected [0] 256 := by
  refine ⟨rfl, ?_, not_unaffected rfl (by decide)
    (by decide)⟩
  decide +kernel

/- No log file: the new database is on its own. -/
theorem unaffected_no_log :
    Unaffected [] 4096 :=
  (unaffected_iff rfl (by decide)).mpr rfl

end Storage

end ChenDB
