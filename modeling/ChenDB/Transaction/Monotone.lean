import ChenDB.Transaction.Lives
import ChenDB.Transaction.Timeline

/-
  LSNs only grow, across checkpoints, crashes and
  recoveries: the log that is opened again starts past every
  page that is in the file.
-/

--
-- Marks
--

namespace ChenDB

namespace Database

open Library.StateExcept
open Storage
open Transaction (OpenTransaction TransactionManager UndoLog)
open Wal (LogRecord RecordType WriteAheadLog noTransaction
  totalSize)

variable {π : Type}
variable {lsn transactionId : Nat} {pageId : PageId}
variable {image before : PageImage π}
variable {log : WriteAheadLog (PageImage π)}
variable {core core' : Core π} {metaPage : MetaPage}

/- The LSN comes before the base, or one of the changes in
   these records has it. -/
def Marks
    (base : Nat)
    (records : List (LogRecord (PageImage π)))
    (lsn : Nat) : Prop :=
  lsn < base ∨
    ∃ record ∈ records, record.recordType = .update ∧
      record.lsn = lsn

/- Where it shows a meta page, it shows this base. -/
def Based
    (base : Nat)
    (pageId : PageId)
    (image : PageImage π) : Prop :=
  pageId = metaPageId →
    ∀ page, image.asMeta = .ok page → page.checkpointLsn = base

/- An image the log accounts for. -/
structure Fits
    (base : Nat)
    (records : List (LogRecord (PageImage π)))
    (pageId : PageId)
    (image : PageImage π) : Prop where
  marked : Marks base records image.lsn
  based : Based base pageId image

/- Neither image of a record is newer than the record. -/
structure Sober
    (base : Nat)
    (records : List (LogRecord (PageImage π)))
    (record : LogRecord (PageImage π)) : Prop where
  before : record.beforeImage.lsn ≤ record.lsn
  after : record.afterImage.lsn ≤ record.lsn
  beforeFits : Fits base records record.pageId
    record.beforeImage
  afterFits : Fits base records record.pageId
    record.afterImage

section Marks

variable {base : Nat}
variable {records records' : List (LogRecord (PageImage π))}

theorem Marks.mono
    (hMarks : Marks base records lsn)
    (hRecords : ∀ record ∈ records,
      record.recordType = .update →
      ∃ kept ∈ records', kept.recordType = .update ∧
        kept.lsn = record.lsn) :
    Marks base records' lsn := by
  rcases hMarks with hOld | ⟨record, hRecord, hUpdate, rfl⟩
  · exact .inl hOld
  · exact .inr (hRecords record hRecord hUpdate)

theorem Marks.append
    (later : List (LogRecord (PageImage π)))
    (hMarks : Marks base records lsn) :
    Marks base (records ++ later) lsn :=
  hMarks.mono fun record hRecord hUpdate =>
    ⟨record, List.mem_append_left _ hRecord, hUpdate, rfl⟩

/- A mark is below what bounds the base and the records. -/
theorem Marks.lsn_lt
    {bound : Nat}
    (hMarks : Marks base records lsn)
    (hBase : base ≤ bound)
    (hBelow : ∀ record ∈ records, record.lsn < bound) :
    lsn < bound := by
  rcases hMarks with hOld | ⟨record, hRecord, _, rfl⟩
  · omega
  · exact hBelow record hRecord

theorem Fits.mono
    (hFits : Fits base records pageId image)
    (hRecords : ∀ lsn, Marks base records lsn →
      Marks base records' lsn) :
    Fits base records' pageId image :=
  ⟨hRecords _ hFits.marked, hFits.based⟩

theorem Sober.mono
    {record : LogRecord (PageImage π)}
    (hSober : Sober base records record)
    (hRecords : ∀ lsn, Marks base records lsn →
      Marks base records' lsn) :
    Sober base records' record :=
  ⟨hSober.before, hSober.after, hSober.beforeFits.mono hRecords,
    hSober.afterFits.mono hRecords⟩

variable {page : MetaPage}

/- Only a meta page is read as one. -/
theorem asMeta_eq
    (hMeta : image.asMeta = .ok page) :
    image = .metaPage page := by
  cases image with
  | metaPage held =>
    unfold PageImage.asMeta at hMeta
    simp only at hMeta
    split at hMeta
    · cases hMeta
    · rw [Except.ok.inj hMeta]
  | empty => nomatch hMeta
  | zeros size => nomatch hMeta
  | slotted held => nomatch hMeta

theorem based_slotted
    (page : Page π) :
    Based base pageId (.slotted page) := by
  intro _ held hMeta
  nomatch asMeta_eq hMeta

theorem based_metaPage
    (hBase : page.checkpointLsn = base) :
    Based (π := π) base pageId (.metaPage page) := by
  intro _ held hMeta
  have hSame := PageImage.metaPage.inj (asMeta_eq hMeta)
  rw [← hSame]
  exact hBase

/- Stamping leaves the base in a meta page alone. -/
theorem Based.stamp
    (hBased : Based base pageId image)
    (lsn : Nat) : Based base pageId (image.stamp lsn) := by
  intro hPage held hMeta
  have hImage := asMeta_eq hMeta
  cases image with
  | empty => nomatch hImage
  | zeros size => nomatch hImage
  | slotted page => nomatch hImage
  | metaPage page =>
    have hSame := PageImage.metaPage.inj hImage
    rw [← hSame]
    unfold PageImage.stamp PageImage.asMeta at hMeta
    simp only at hMeta
    split at hMeta
    · cases hMeta
    · rename_i hCount
      exact hBased hPage page (if_neg hCount)

theorem fits_empty
    (hOrigin : Marks base records 0) :
    Fits base records pageId .empty := by
  refine ⟨hOrigin, fun _ held hMeta => ?_⟩
  cases hMeta

end Marks

--
-- The Log
--

section Log

variable {log' : WriteAheadLog (PageImage π)}

/- Every record of the log, staged or written. -/
def logged (log : WriteAheadLog (PageImage π)) :
    List (LogRecord (PageImage π)) :=
  log.file ++ log.buffer

def Known
    (log : WriteAheadLog (PageImage π))
    (lsn : Nat) : Prop :=
  Marks log.baseLsn (logged log) lsn

def Written
    (log : WriteAheadLog (PageImage π))
    (lsn : Nat) : Prop :=
  Marks log.baseLsn log.file lsn

/- The file ends where the next flush begins, and what is
   read of it is sober. -/
structure Even
    (log : WriteAheadLog (PageImage π)) : Prop where
  placed : log.flushedLsn = log.baseLsn + totalSize log.file
  below : ∀ record ∈ log.file, record.lsn < log.flushedLsn
  sober : ∀ record ∈ log.readable ++ log.buffer,
    Sober log.baseLsn (logged log) record

theorem Written.known
    (hWritten : Written log lsn) : Known log lsn :=
  hWritten.append log.buffer

theorem Written.lsn_lt
    (hWritten : Written log lsn)
    (hEven : Even log) : lsn < log.flushedLsn := by
  have hPlaced := hEven.placed
  exact Marks.lsn_lt hWritten (by omega) hEven.below

theorem Known.lsn_lt
    (hKnown : Known log lsn)
    (hEven : Even log)
    (hStaged : log.Staged) : lsn < log.nextLsn := by
  have hPlaced := hEven.placed
  have hNext := hStaged.nextLsn_eq
  refine Marks.lsn_lt hKnown (by omega) fun record hRecord => ?_
  rcases List.mem_append.mp hRecord with hFile | hBuffer
  · have hBelow := hEven.below record hFile
    omega
  · rw [hNext]
    exact hStaged.run.lsn_lt hBuffer

/- What is known and was flushed past is in the file. -/
theorem Known.written
    (hKnown : Known log lsn)
    (hStaged : log.Staged)
    (hFlushed : lsn < log.flushedLsn ∨ log.buffer = []) :
    Written log lsn := by
  rcases hKnown with hBase | ⟨record, hRecord, hUpdate, rfl⟩
  · exact .inl hBase
  · rcases List.mem_append.mp hRecord with hFile | hBuffer
    · exact .inr ⟨record, hFile, hUpdate, rfl⟩
    · have hStart := hStaged.flushedLsn_le hBuffer
      rcases hFlushed with hLess | hNone
      · omega
      · rw [hNone] at hBuffer
        cases hBuffer

/- The log goes on, and nothing it accounts for is lost. -/
structure Onward
    (log log' : WriteAheadLog (PageImage π)) : Prop where
  even : Even log'
  base : log'.baseLsn = log.baseLsn
  known : ∀ lsn, Known log lsn → Known log' lsn
  written : ∀ lsn, Written log lsn → Written log' lsn

/- A change of the log that keeps its records. -/
theorem onward_same
    (hEven : Even log)
    (hBase : log'.baseLsn = log.baseLsn)
    (hFile : log'.file = log.file)
    (hBuffer : log'.buffer = log.buffer)
    (hFlushed : log'.flushedLsn = log.flushedLsn) :
    Onward log log' := by
  have hLogged : logged log' = logged log := by
    unfold logged
    rw [hFile, hBuffer]
  have hReadable : log'.readable = log.readable := by
    unfold WriteAheadLog.readable
    rw [hBase, hFile]
  refine ⟨⟨?_, ?_, ?_⟩, hBase, ?_, ?_⟩
  · rw [hFlushed, hBase, hFile]
    exact hEven.placed
  · rw [hFile, hFlushed]
    exact hEven.below
  · rw [hReadable, hBuffer, hBase, hLogged]
    exact hEven.sober
  · unfold Known
    rw [hBase, hLogged]
    exact fun _ h => h
  · unfold Written
    rw [hBase, hFile]
    exact fun _ h => h

theorem onward_flushed
    (hEven : Even log)
    (hStaged : log.Staged) : Onward log log.flushed := by
  have hLogged : logged log.flushed = logged log := by
    unfold logged
    rw [WriteAheadLog.flushed_file,
      WriteAheadLog.flushed_buffer, List.append_nil]
  have hPlaced := hEven.placed
  refine ⟨⟨?_, ?_, ?_⟩, log.flushed_baseLsn, ?_, ?_⟩
  · rw [WriteAheadLog.flushed_flushedLsn,
      WriteAheadLog.flushed_baseLsn,
      WriteAheadLog.flushed_file, Wal.totalSize_append]
    omega
  · intro record hRecord
    rw [WriteAheadLog.flushed_file] at hRecord
    rw [WriteAheadLog.flushed_flushedLsn]
    rcases List.mem_append.mp hRecord with hFile | hBuffer
    · have hBelow := hEven.below record hFile
      omega
    · exact hStaged.run.lsn_lt hBuffer
  · intro record hRecord
    rw [WriteAheadLog.flushed_buffer, List.append_nil]
      at hRecord
    rw [WriteAheadLog.flushed_baseLsn, hLogged]
    exact hEven.sober record (List.mem_append.mpr
      (WriteAheadLog.mem_readable_flushed hRecord))
  · unfold Known
    rw [WriteAheadLog.flushed_baseLsn, hLogged]
    exact fun _ h => h
  · intro lsn hWritten
    unfold Written
    rw [WriteAheadLog.flushed_baseLsn,
      WriteAheadLog.flushed_file]
    exact hWritten.append log.buffer

variable {record : LogRecord (PageImage π)}

theorem known_stage
    (hKnown : Known log lsn) :
    Known (log.stage record) lsn := by
  unfold Known logged WriteAheadLog.stage
  simp only
  rw [← List.append_assoc]
  exact hKnown.append [record]

theorem onward_stage
    (hEven : Even log)
    (hSober : Sober log.baseLsn (logged (log.stage record))
      record) :
    Onward log (log.stage record) where
  even :=
    { placed := hEven.placed
      below := hEven.below
      sober := by
        intro held hHeld
        rcases List.mem_append.mp hHeld with hRead | hBuffer
        · exact (hEven.sober held
            (List.mem_append_left _ hRead)).mono
              fun _ => known_stage
        · rcases List.mem_append.mp hBuffer with hOld | hNew
          · exact (hEven.sober held
              (List.mem_append_right _ hOld)).mono
                fun _ => known_stage
          · rw [List.mem_singleton.mp hNew]
            exact hSober }
  base := rfl
  known := fun _ => known_stage
  written := fun _ h => h

/- A record that ends something holds no image. -/
theorem onward_ended
    (hEven : Even log)
    (hOrigin : Known log 0)
    (recordType : RecordType)
    (transactionId : Nat) :
    Onward log (log.stage
      (log.endRecord recordType transactionId)) := by
  have hEmpty : ∀ pageId, Fits log.baseLsn
      (logged (log.stage
        (log.endRecord recordType transactionId)))
      pageId .empty :=
    fun _ => fits_empty (known_stage hOrigin)
  exact onward_stage hEven
    ⟨Nat.zero_le _, Nat.zero_le _, hEmpty _, hEmpty _⟩

section Updated

variable {changed : PageId}
variable {afterFor : Nat → PageImage π}

/- The record a change is logged as is staged. -/
theorem known_updateRecord :
    Known (log.updated transactionId changed before afterFor)
      (log.updateRecord transactionId changed before
        afterFor).lsn := by
  unfold WriteAheadLog.updated WriteAheadLog.updateRecord
  cases log.superseded transactionId changed with
  | none =>
    exact .inr ⟨_, List.mem_append_right _
      (List.mem_append_right _ (List.mem_singleton_self _)),
      rfl, rfl⟩
  | some tail =>
    exact .inr ⟨_, List.mem_append_right _
      (List.mem_append_right _ (List.mem_singleton_self _)),
      rfl, rfl⟩

/- The record that takes the tail's place has its LSN. -/
theorem known_replaceTail
    (hStaged : log.Staged)
    {tail record : LogRecord (PageImage π)}
    (hTail : tail ∈ log.bufferTail)
    (hUpdate : record.recordType = .update)
    (hLsn : record.lsn = tail.lsn)
    (hKnown : Known log lsn) :
    Known (log.replaceTail record) lsn := by
  refine Marks.mono hKnown fun held hHeld hType => ?_
  rcases List.mem_append.mp hHeld with hFile | hBuffer
  · exact ⟨held, List.mem_append_left _ hFile, hType, rfl⟩
  · rw [hStaged.buffer_eq hTail] at hBuffer
    rcases List.mem_append.mp hBuffer with hEarly | hLast
    · exact ⟨held, List.mem_append_right _
        (List.mem_append_left _ hEarly), hType, rfl⟩
    · rw [List.mem_singleton.mp hLast]
      exact ⟨record, List.mem_append_right _
        (List.mem_append_right _
          (List.mem_singleton_self _)), hUpdate, hLsn⟩

theorem known_updated
    (hStaged : log.Staged)
    (hKnown : Known log lsn) :
    Known (log.updated transactionId changed before afterFor)
      lsn := by
  unfold WriteAheadLog.updated WriteAheadLog.updateRecord
  cases hTail : log.superseded transactionId changed with
  | none => exact known_stage hKnown
  | some tail =>
    exact known_replaceTail hStaged
      (hStaged.superseded hTail).1 rfl rfl hKnown

/- A change is logged by a sober record. -/
theorem onward_updated
    (hEven : Even log)
    (hStaged : log.Staged)
    (hOrigin : Known (log.updated transactionId changed
      before afterFor) 0)
    (hBefore : before = .empty ∨
      Fits log.baseLsn (logged log) changed before)
    (hStamped : ∀ lsn, (afterFor lsn).lsn = lsn)
    (hBased : ∀ lsn, Based log.baseLsn changed
      (afterFor lsn)) :
    Onward log (log.updated transactionId changed before
      afterFor) := by
  have hGrows : ∀ lsn, Known log lsn → Known (log.updated
      transactionId changed before afterFor) lsn :=
    fun _ => known_updated hStaged
  have hRecord : Known
      (log.updated transactionId changed before afterFor)
      (log.updateRecord transactionId changed before
        afterFor).lsn := known_updateRecord
  revert hOrigin hGrows hRecord
  unfold WriteAheadLog.updated WriteAheadLog.updateRecord
  cases hTail : log.superseded transactionId changed with
  | none =>
    intro hOrigin hGrows hRecord
    refine onward_stage hEven ⟨?_, ?_, ?_, ?_⟩
    · rcases hBefore with rfl | hFits
      · exact Nat.zero_le _
      · exact Nat.le_of_lt
          (Known.lsn_lt hFits.marked hEven hStaged)
    · exact Nat.le_of_eq (hStamped _)
    · rcases hBefore with rfl | hFits
      · exact fits_empty hOrigin
      · exact hFits.mono hGrows
    · refine ⟨?_, hBased _⟩
      change Marks _ _ (afterFor _).lsn
      rw [hStamped]
      exact hRecord
  | some tail =>
    intro hOrigin hGrows hRecord
    rcases hStaged.superseded hTail with ⟨hLast, _, _, hPage, _⟩
    have hOld := hEven.sober tail
      (List.mem_append_right _
        (WriteAheadLog.tail_mem_buffer hStaged hLast))
    refine ⟨⟨hEven.placed, hEven.below, ?_⟩, rfl, hGrows,
      fun _ h => h⟩
    intro held hHeld
    rcases List.mem_append.mp hHeld with hRead | hBuffer
    · exact (hEven.sober held
        (List.mem_append_left _ hRead)).mono hGrows
    · rcases List.mem_append.mp hBuffer with hEarly | hNew
      · exact (hEven.sober held (List.mem_append_right _
          ((List.dropLast_sublist _).mem hEarly))).mono
            hGrows
      · rw [List.mem_singleton.mp hNew]
        refine ⟨hOld.before, Nat.le_of_eq (hStamped _),
          ?_, ?_, hBased _⟩
        · have hKept := hOld.beforeFits.mono hGrows
          rw [hPage] at hKept
          exact hKept
        · change Marks _ _ (afterFor _).lsn
          rw [hStamped]
          exact hRecord

end Updated

end Log

--
-- Files and Log
--

/- What an open engine's files, cache and log agree on. -/
structure Level (core : Core π) : Prop where
  even : Even core.files.wal
  origin : Known core.files.wal 0
  metaBased : core.metaPage.checkpointLsn =
    core.files.wal.baseLsn
  metaKnown : Known core.files.wal core.metaPage.lsn
  fresh : core.files.pages = [] → core.files.wal.baseLsn = 0
  cached : ∀ pageId frame,
    core.cache pageId = some frame →
    Fits core.files.wal.baseLsn (logged core.files.wal)
      pageId frame.data
  stored : ∀ pageId image,
    core.files.pages[pageId]? = some image →
    Fits core.files.wal.baseLsn (logged core.files.wal)
      pageId image
  undone : ∀ transaction ∈ core.transactions.running,
    ∀ record ∈ transaction.undo.records,
      Based core.files.wal.baseLsn record.pageId
        record.beforeImage

section Level

/- What a reader of a page gets fits the log. -/
theorem Level.view
    (hLevel : Level core)
    (hView : core.view pageId = some image) :
    Fits core.files.wal.baseLsn (logged core.files.wal)
      pageId image := by
  unfold Core.view at hView
  cases hFrame : core.cache pageId with
  | some frame =>
    rw [hFrame] at hView
    rw [← Option.some.inj hView]
    exact hLevel.cached pageId frame hFrame
  | none =>
    rw [hFrame] at hView
    exact hLevel.stored pageId image hView

/- A step that leaves the file of pages alone. -/
theorem Level.moved
    (hLevel : Level core)
    (hOnward : Onward core.files.wal core'.files.wal)
    (hPages : core'.files.pages = core.files.pages)
    (hMeta : core'.metaPage.checkpointLsn =
      core.metaPage.checkpointLsn)
    (hMetaKnown :
      Known core'.files.wal core'.metaPage.lsn)
    (hCache : ∀ pageId frame,
      core'.cache pageId = some frame →
      core.cache pageId = some frame ∨
        Fits core'.files.wal.baseLsn
          (logged core'.files.wal) pageId frame.data)
    (hUndone : ∀ transaction ∈ core'.transactions.running,
      ∀ record ∈ transaction.undo.records,
        Based core.files.wal.baseLsn record.pageId
          record.beforeImage) :
    Level core' where
  even := hOnward.even
  origin := hOnward.known 0 hLevel.origin
  metaBased := by
    rw [hMeta, hOnward.base]
    exact hLevel.metaBased
  metaKnown := hMetaKnown
  fresh := by
    rw [hPages, hOnward.base]
    exact hLevel.fresh
  cached := by
    intro pageId frame hFrame
    rcases hCache pageId frame hFrame with hOld | hNew
    · have hFits := hLevel.cached pageId frame hOld
      refine ⟨hOnward.known _ hFits.marked, ?_⟩
      rw [hOnward.base]
      exact hFits.based
    · exact hNew
  stored := by
    intro pageId image hImage
    rw [hPages] at hImage
    have hFits := hLevel.stored pageId image hImage
    refine ⟨hOnward.known _ hFits.marked, ?_⟩
    rw [hOnward.base]
    exact hFits.based
  undone := by
    rw [hOnward.base]
    exact hUndone

/- Only the log moved. -/
theorem Level.onward
    (hLevel : Level core)
    (hOnward : Onward core.files.wal log)
    (history : List (Moment π)) :
    Level { core with
      files := { core.files with
        wal := log
        history := history } } :=
  hLevel.moved hOnward rfl rfl
    (hOnward.known _ hLevel.metaKnown)
    (fun _ _ h => .inl h) hLevel.undone

theorem Onward.refl
    (hEven : Even log) : Onward log log :=
  onward_same hEven rfl rfl rfl rfl

/- Neither file nor log moved. -/
theorem Level.still
    (hLevel : Level core)
    (hFiles : core'.files = core.files)
    (hMeta : core'.metaPage.checkpointLsn =
      core.metaPage.checkpointLsn)
    (hMetaKnown :
      Known core.files.wal core'.metaPage.lsn)
    (hCache : ∀ pageId frame,
      core'.cache pageId = some frame →
      core.cache pageId = some frame ∨
        Fits core.files.wal.baseLsn
          (logged core.files.wal) pageId frame.data)
    (hUndone : ∀ transaction ∈ core'.transactions.running,
      ∀ record ∈ transaction.undo.records,
        Based core.files.wal.baseLsn record.pageId
          record.beforeImage) :
    Level core' := by
  refine hLevel.moved ?_ (by rw [hFiles]) hMeta ?_ ?_
    hUndone
  · rw [hFiles]
    exact Onward.refl hLevel.even
  · rw [hFiles]
    exact hMetaKnown
  · rw [hFiles]
    exact hCache

/- A page written to the file, past the pool or by it. -/
theorem Level.put
    (hLevel : Level core)
    (hFits : Fits core.files.wal.baseLsn
      (logged core.files.wal) pageId image)
    {cache : PageId → Option (Frame (PageImage π))}
    (hCache : ∀ other frame, cache other = some frame →
      Fits core.files.wal.baseLsn (logged core.files.wal)
        other frame.data)
    (history : List (Moment π)) :
    Level { core with
      cache := cache
      files := { core.files with
        pages := putPage core.pageSize core.files.pages
          pageId image
        history := history } } where
  even := hLevel.even
  origin := hLevel.origin
  metaBased := hLevel.metaBased
  metaKnown := hLevel.metaKnown
  fresh := by
    intro hNone
    have hLength := congrArg List.length hNone
    simp only [putPage, List.length_set, List.length_append,
      List.length_replicate, List.length_nil] at hLength
    omega
  cached := hCache
  stored := by
    intro other held hHeld
    simp only [getElem?_putPage] at hHeld
    split at hHeld
    · rename_i hSame
      rw [hSame, ← Option.some.inj hHeld]
      exact hFits
    · split at hHeld
      · exact hLevel.stored other held hHeld
      · split at hHeld
        · rw [← Option.some.inj hHeld]
          exact ⟨hLevel.origin,
            fun _ _ hMeta => nomatch hMeta⟩
        · cases hHeld
  undone := hLevel.undone

end Level

--
-- Opening Again
--

/- What stored files need for a log that opens past every
   page. -/
structure Reopens
    (stored : Pager.Stored π)
    (base : Nat) : Prop where
  below : ∀ record ∈ stored.records,
    record.lsn < base + totalSize stored.records
  origin : stored.pages = [] ∧ stored.records = [] ∨
    Marks base stored.records 0
  pages : ∀ image ∈ stored.pages,
    Marks base stored.records image.lsn
  sober : ∀ record ∈
    (WriteAheadLog.scan base 0 stored.records).1,
    Sober base stored.records record

/- Whichever meta page is read first. -/
def Restarts (stored : Pager.Stored π) : Prop :=
  ∀ metaPage, Heads stored metaPage →
    Reopens stored metaPage.checkpointLsn

/- The base that is read back is the log's. -/
theorem Level.heads
    (hLevel : Level core)
    {records : List (LogRecord (PageImage π))}
    (hHeads : Heads ⟨core.files.pages, records⟩ metaPage) :
    metaPage.checkpointLsn = core.files.wal.baseLsn := by
  unfold Heads at hHeads
  cases hPages : core.files.pages with
  | nil =>
    simp only [hPages] at hHeads
    rcases hHeads with ⟨pageSize, rfl⟩
    exact (hLevel.fresh hPages).symm
  | cons page rest =>
    simp only [hPages] at hHeads
    have hFirst :
        core.files.pages[metaPageId]? = some page := by
      rw [hPages]
      rfl
    exact (hLevel.stored metaPageId page hFirst).based rfl
      metaPage hHeads

/- The record of every page in the file is there too. -/
def Settled (files : Files π) : Prop :=
  ∀ image ∈ files.pages, Written files.wal image.lsn

/- A crash then leaves what can be opened again. -/
theorem Level.restarts
    (hLevel : Level core)
    (hStaged : core.files.wal.Staged)
    (hSettled : Settled core.files) :
    Restarts ⟨core.files.pages, core.files.wal.file⟩ := by
  intro metaPage hHeads
  have hEven := hLevel.even
  have hPlaced := hEven.placed
  rw [hLevel.heads hHeads]
  refine ⟨fun record hRecord => ?_, ?_, fun image hImage => ?_,
    fun record hRecord => ?_⟩
  · have hBelow := hEven.below record hRecord
    simp only
    omega
  · by_cases hFlushed : 0 < core.files.wal.flushedLsn
    · exact .inr (hLevel.origin.written hStaged
        (.inl hFlushed))
    · -- nothing has reached either file yet
      refine .inl ⟨List.eq_nil_iff_forall_not_mem.mpr ?_,
        List.eq_nil_iff_forall_not_mem.mpr ?_⟩
      · intro image hImage
        have hLess := Written.lsn_lt (hSettled image hImage)
          hEven
        omega
      · intro record hRecord
        have hBelow := hEven.below record hRecord
        omega
  · exact hSettled image hImage
  · have hFile := (WriteAheadLog.scan_isPrefix _ _ _).subset
      hRecord
    have hBelow := hEven.below record hFile
    have hSober := hEven.sober record
      (List.mem_append_left _ hRecord)
    have hBefore := hSober.before
    have hAfter := hSober.after
    exact ⟨hBefore, hAfter,
      ⟨Known.written hSober.beforeFits.marked hStaged
        (.inl (by omega)), hSober.beforeFits.based⟩,
      ⟨Known.written hSober.afterFits.marked hStaged
        (.inl (by omega)), hSober.afterFits.based⟩⟩

/- A log opened on stored files is level with them, unless
   there is nothing in them yet. -/
theorem level_opened
    {stored : Pager.Stored π}
    (hHeads : Heads stored metaPage)
    (hReopens : Reopens stored metaPage.checkpointLsn)
    (hOrigin : Marks metaPage.checkpointLsn stored.records
      0) :
    Level (opened stored metaPage) := by
  have hLogged : logged (opened stored metaPage).files.wal =
      stored.records := List.append_nil _
  have hFirst : ∀ image,
      stored.pages[metaPageId]? = some image →
      image.asMeta = .ok metaPage := by
    intro image hImage
    unfold Heads at hHeads
    cases hPages : stored.pages with
    | nil =>
      rw [hPages] at hImage
      cases hImage
    | cons page rest =>
      simp only [hPages] at hHeads
      rw [hPages] at hImage
      rw [← Option.some.inj hImage]
      exact hHeads
  refine ⟨⟨rfl, hReopens.below, ?_⟩, ?_, rfl, ?_, ?_,
    (fun _ _ hFrame => nomatch hFrame), ?_,
    (fun _ hRunning => nomatch hRunning)⟩
  · rw [hLogged]
    intro record hRecord
    rcases List.mem_append.mp hRecord with hRead | hBuffer
    · exact hReopens.sober record hRead
    · cases hBuffer
  · unfold Known
    rw [hLogged]
    exact hOrigin
  · unfold Known
    rw [hLogged]
    unfold Heads at hHeads
    cases hPages : stored.pages with
    | nil =>
      simp only [hPages] at hHeads
      rcases hHeads with ⟨pageSize, rfl⟩
      exact hOrigin
    | cons page rest =>
      have hPage := hFirst page (by rw [hPages]; rfl)
      have hMarks := hReopens.pages page
        (by rw [hPages]; exact .head _)
      rw [asMeta_eq hPage] at hMarks
      exact hMarks
  · intro hNone
    have hPages : stored.pages = [] := hNone
    unfold Heads at hHeads
    simp only [hPages] at hHeads
    rcases hHeads with ⟨pageSize, rfl⟩
    rfl
  · intro pageId image hImage
    rw [hLogged]
    refine ⟨hReopens.pages image
      (List.mem_of_getElem? hImage), ?_⟩
    rintro rfl page hMeta
    have hSame := (hFirst image hImage).symm.trans hMeta
    rw [Except.ok.inj hSame]
    rfl

--
-- Steps That Stay Level
--

section LevelSteps

variable {reason : String}

/- What is captured was there, or is the image given. -/
theorem mem_captured
    {undo : UndoLog (PageImage π)}
    {record : Transaction.UndoRecord (PageImage π)}
    (hRecord : record ∈
      (undo.capture pageId image reason).records) :
    record ∈ undo.records ∨
      record.pageId = pageId ∧
        record.beforeImage = image := by
  unfold UndoLog.capture at hRecord
  split at hRecord
  · exact .inl hRecord
  · split at hRecord
    · exact .inl hRecord
    · rcases List.mem_append.mp hRecord with hOld | hNew
      · exact .inl hOld
      · rw [List.mem_singleton.mp hNew]
        exact .inr ⟨rfl, rfl⟩

variable {manager : TransactionManager (PageImage π)}
variable {transaction : OpenTransaction (PageImage π)}

theorem mem_captureIn
    {session : String}
    (hMem : transaction ∈ (manager.captureIn session pageId
      image reason).running) :
    ∃ old ∈ manager.running,
      transaction.undo = old.undo ∨
        transaction.undo =
          old.undo.capture pageId image reason := by
  unfold TransactionManager.captureIn at hMem
  rcases Transaction.running_updateIn hMem with
    ⟨old, hOld, rfl | rfl⟩
  · exact ⟨old, hOld, .inr rfl⟩
  · exact ⟨_, hOld, .inl rfl⟩

variable {capture : Bool}

theorem answers_files
    (hAnswers : core.Answers pageId reason capture core'
      transactionId before) :
    core'.files = core.files := by
  unfold Core.Answers at hAnswers
  split at hAnswers
  · cases hAnswers <;> rfl
  · rw [hAnswers.1]

theorem Level.answers
    (hLevel : Level core)
    (hAnswers : core.Answers pageId reason capture core'
      transactionId before) :
    Level core' ∧
      (before = .empty ∨
        Fits core.files.wal.baseLsn
          (logged core.files.wal) pageId before) := by
  unfold Core.Answers at hAnswers
  split at hAnswers
  · cases hAnswers with
    | outside _ => exact ⟨hLevel, .inl rfl⟩
    | again _ _ _ => exact ⟨hLevel, .inl rfl⟩
    | first _ _ _ hView =>
      have hFits := hLevel.view hView
      refine ⟨?_, .inr hFits⟩
      refine hLevel.still rfl rfl hLevel.metaKnown
        (fun _ _ h => .inl h) ?_
      intro transaction hTransaction record hRecord
      rcases mem_captureIn hTransaction with
        ⟨old, hOld, hSame | hCaptured⟩
      · rw [hSame] at hRecord
        exact hLevel.undone old hOld record hRecord
      · rw [hCaptured] at hRecord
        rcases mem_captured hRecord with hHeld | hNew
        · exact hLevel.undone old hOld record hHeld
        · rw [hNew.1, hNew.2]
          exact hFits.based
  · rw [hAnswers.1]
    exact ⟨hLevel, .inl hAnswers.2.2⟩

variable {raw : PageImage π}

/- Whatever the engine writes shows the log's base. -/
theorem Level.writes
    (hLevel : Level core)
    (hWrites : core.Writes Anywhere pageId raw) :
    Based core.files.wal.baseLsn pageId raw := by
  cases hWrites with
  | metaPage _ => exact based_metaPage hLevel.metaBased
  | page _ => exact based_slotted _
  | blank _ => exact based_slotted _
  | undone hTransaction hRecord hPage =>
    rw [← hPage]
    exact hLevel.undone _ hTransaction _ hRecord
  | replayed hRecord _ hPage =>
    rw [← hPage]
    exact (hLevel.even.sober _ (List.mem_append_left _
      hRecord)).beforeFits.based

/- A change logged and handed to the pool. -/
theorem Level.logged
    (hLevel : Level core)
    (hStaged : core.files.wal.Staged)
    (hBefore : before = .empty ∨
      Fits core.files.wal.baseLsn
        (logged core.files.wal) pageId before)
    (hBased : Based core.files.wal.baseLsn pageId raw)
    (hRaw : raw ≠ .empty) :
    Level (core.logged pageId transactionId before raw) := by
  have hOnward : Onward core.files.wal
      (core.files.wal.updated transactionId pageId before
        raw.stamp) :=
    onward_updated hLevel.even hStaged
      (known_updated hStaged hLevel.origin) hBefore
      (fun _ => PageImage.lsn_stamp hRaw _)
      (fun _ => hBased.stamp _)
  refine hLevel.moved hOnward rfl ?_ ?_ ?_ hLevel.undone
  · unfold Core.logged
    simp only
    split <;> rfl
  · unfold Core.logged
    simp only
    split
    · exact known_updateRecord
    · exact hOnward.known _ hLevel.metaKnown
  · intro other frame hFrame
    simp only [Core.logged] at hFrame
    by_cases hSame : other = pageId
    · rw [hSame, Function.update_self, Option.some.injEq]
        at hFrame
      rw [hSame, ← hFrame]
      refine .inr ⟨?_, ?_⟩
      · change Known _ (raw.stamp _).lsn
        rw [PageImage.lsn_stamp hRaw]
        exact known_updateRecord
      · rw [show (core.logged pageId transactionId before
          raw).files.wal.baseLsn = core.files.wal.baseLsn
          from hOnward.base]
        exact hBased.stamp _
    · rw [Function.update_of_ne hSame] at hFrame
      exact .inl hFrame

/- An open transaction keeps its undo, or starts with
   none. -/
theorem undo_managed
    {manager' : TransactionManager (PageImage π)}
    (hManaged : Core.Managed manager manager')
    (hMem : transaction ∈ manager'.running) :
    transaction.undo.records = [] ∨
      ∃ old ∈ manager.running,
        transaction.undo = old.undo := by
  cases hManaged with
  | begun hBegin =>
    unfold TransactionManager.begin at hBegin
    split at hBegin
    · split at hBegin
      · cases hBegin
        exact .inr ⟨_, hMem, rfl⟩
      · split at hBegin
        · cases hBegin
        · cases hBegin
          rcases Transaction.running_updateIn hMem with
            ⟨old, hOld, hSame | hSame⟩
          all_goals
            exact .inr ⟨old, hOld, by rw [hSame]⟩
    · cases hBegin
      rcases List.mem_append.mp hMem with hOld | hNew
      · exact .inr ⟨_, hOld, rfl⟩
      · rw [List.mem_singleton.mp hNew]
        exact .inl rfl
  | retired =>
    exact .inr ⟨_, (List.mem_filter.mp hMem).1, rfl⟩
  | updated hUndo =>
    rcases Transaction.running_updateIn hMem with
      ⟨old, hOld, hSame | hSame⟩
    · exact .inr ⟨old, hOld, by rw [hSame, hUndo]⟩
    · exact .inr ⟨old, hOld, by rw [hSame]⟩

theorem Level.managed
    (hLevel : Level core)
    (hManaged : Core.Managed core.transactions manager) :
    Level { core with transactions := manager } := by
  refine hLevel.still rfl rfl hLevel.metaKnown
    (fun _ _ h => .inl h) ?_
  intro transaction hTransaction record hRecord
  rcases undo_managed hManaged hTransaction with
    hNone | ⟨old, hMem, hSame⟩
  · rw [hNone] at hRecord
    cases hRecord
  · rw [hSame] at hRecord
    exact hLevel.undone old hMem record hRecord

/- The log as it stands once the pool's flush asked for it
   to go first. -/
def ledFiles
    (files : Files π)
    (image : PageImage π) : Files π :=
  { files with
    wal := if image.lsn > files.wal.flushedLsn then
      files.wal.flushed else files.wal }.note .logFlushed

theorem ledFiles_onward
    (hEven : Even core.files.wal)
    (hStaged : core.files.wal.Staged)
    (image : PageImage π) :
    Onward core.files.wal (ledFiles core.files image).wal ∧
      (ledFiles core.files image).wal.Staged := by
  unfold ledFiles Files.note
  simp only
  split
  · exact ⟨onward_flushed hEven hStaged, hStaged.flushed⟩
  · exact ⟨Onward.refl hEven, hStaged⟩

section Synced

variable
    (hLevel : Level core)
    (hStaged : core.files.wal.Staged)

include hLevel hStaged

theorem Level.writtenBack
    (hHit : core.cache pageId = some ⟨pageId, image, true⟩) :
    Level { core with
      cache := Function.update core.cache pageId
        (some ⟨pageId, image, false⟩)
      files := core.files.writtenBack core.pageSize pageId
        image } := by
  have hOnward := (ledFiles_onward hLevel.even hStaged image).1
  have hLed : Level
      { core with files := ledFiles core.files image } :=
    hLevel.onward hOnward _
  have hFits := hLed.cached pageId _ hHit
  refine hLed.put hFits ?_ _
  intro other frame hFrame
  by_cases hSame : other = pageId
  · rw [hSame, Function.update_self, Option.some.injEq]
      at hFrame
    rw [hSame, ← hFrame]
    exact hFits
  · rw [Function.update_of_ne hSame] at hFrame
    exact hLed.cached other frame hFrame

/- A page that did not overtake its record has it in the
   file when it gets there itself. -/
theorem Level.written
    (hHit : core.cache pageId = some ⟨pageId, image, true⟩)
    (hBehind : ¬ Overtaken image core.files.wal.flushedLsn
      (!core.files.wal.buffer.isEmpty)) :
    Written (ledFiles core.files image).wal image.lsn := by
  rcases ledFiles_onward hLevel.even hStaged image with
    ⟨hOnward, hStaged'⟩
  have hFits := hLevel.cached pageId _ hHit
  refine (hOnward.known _ hFits.marked).written hStaged' ?_
  unfold ledFiles Files.note
  simp only
  split
  · exact .inr (WriteAheadLog.flushed_buffer _)
  · rename_i hBelow
    by_cases hNone : core.files.wal.buffer = []
    · exact .inr hNone
    · have hApart : image.lsn ≠
          core.files.wal.flushedLsn := by
        intro hSame
        exact hBehind ⟨by simpa using hNone, hSame⟩
      exact .inl (by omega)

/- With nothing staged, nothing is missing from the file. -/
theorem Level.settled
    (hEmpty : core.files.wal.buffer = []) :
    Settled core.files := by
  intro image hImage
  rcases List.mem_iff_getElem?.mp hImage with ⟨pageId, hPage⟩
  exact Known.written (hLevel.stored pageId image hPage).marked
    hStaged (.inr hEmpty)

/- A log that starts over past every LSN, and a meta page
   in the file that says where. -/
theorem Level.rebased
    {log : WriteAheadLog (PageImage π)}
    (hFile : log.file = [])
    (hBuffer : log.buffer = [])
    (hFlushed : log.flushedLsn = log.baseLsn)
    (hBase : core.files.wal.nextLsn ≤ log.baseLsn)
    {metaPage : MetaPage}
    (hCheckpoint : metaPage.checkpointLsn = log.baseLsn)
    (hKnown : Known core.files.wal metaPage.lsn)
    (hIdle : core.transactions.running = [])
    (history : List (Moment π)) :
    Level { core with
      cache := Function.update core.cache metaPageId none
      files :=
        { pages := putPage core.pageSize core.files.pages
            metaPageId (.metaPage metaPage)
          wal := log
          history := history }
      metaPage := metaPage } := by
  have hPast : ∀ lsn, Known core.files.wal lsn →
      lsn < log.baseLsn := by
    intro lsn hOld
    have hLess := hOld.lsn_lt hLevel.even hStaged
    omega
  have hReadable : log.readable = [] := by
    unfold WriteAheadLog.readable
    rw [hFile]
    rfl
  refine ⟨⟨?_, ?_, ?_⟩, .inl (hPast 0 hLevel.origin),
    hCheckpoint, .inl (hPast _ hKnown), ?_, ?_, ?_, ?_⟩
  · rw [hFile, hFlushed]
    rfl
  · rw [hFile]
    exact fun _ hNone => nomatch hNone
  · rw [hReadable, hBuffer]
    exact fun _ hNone => nomatch hNone
  · intro hNone
    have hLength := congrArg List.length hNone
    simp only [putPage, List.length_set, List.length_append,
      List.length_replicate, List.length_nil] at hLength
    omega
  · intro pageId frame hFrame
    simp only at hFrame
    by_cases hSame : pageId = metaPageId
    · simp [hSame] at hFrame
    · rw [Function.update_of_ne hSame] at hFrame
      exact ⟨.inl (hPast _
        (hLevel.cached pageId frame hFrame).marked),
        fun hZero => absurd hZero hSame⟩
  · intro pageId image hImage
    simp only [getElem?_putPage] at hImage
    split at hImage
    · rw [← Option.some.inj hImage]
      exact ⟨.inl (hPast _ hKnown),
        based_metaPage hCheckpoint⟩
    · rename_i hOther
      split at hImage
      · have hOld := hLevel.stored pageId image hImage
        exact ⟨.inl (hPast _ hOld.marked),
          fun hZero => absurd hZero hOther⟩
      · split at hImage
        · rename_i hNone
          exact absurd hNone (Nat.not_lt_zero _)
        · cases hImage
  · rw [hIdle]
    exact fun _ hNone => nomatch hNone

theorem Level.checkpointed
    (hEmpty : core.files.wal.buffer = [])
    (hIdle : core.transactions.running = []) :
    Level core.checkpointed := by
  have hNext : core.files.wal.nextLsn ≤
      core.files.wal.truncated.baseLsn := by
    rw [hStaged.nextLsn_eq, hEmpty]
    exact Nat.le_refl _
  have hBuffer : core.files.wal.truncated.buffer = [] := hEmpty
  have hCheckpoint : ({ core.metaPage with
      checkpointLsn := core.files.wal.truncated.baseLsn
      } : MetaPage).checkpointLsn =
        core.files.wal.truncated.baseLsn := rfl
  exact hLevel.rebased hStaged rfl hBuffer rfl hNext
    hCheckpoint hLevel.metaKnown hIdle _

end Synced

/- With no change logged since the last checkpoint, the
   base in the file is past every page. -/
theorem Level.restarts_cutOff
    (hLevel : Level core)
    (hEmpty : core.files.wal.buffer = [])
    (hUnchanged : Unchanged core.files.wal.file) :
    Restarts (π := π) ⟨core.files.pages, []⟩ := by
  intro metaPage hHeads
  rw [hLevel.heads hHeads]
  have hPast : ∀ lsn, Known core.files.wal lsn →
      lsn < core.files.wal.baseLsn := by
    intro lsn hKnown
    unfold Known Database.logged at hKnown
    rw [hEmpty, List.append_nil] at hKnown
    rcases hKnown with hOld | ⟨record, hRecord, hUpdate, _⟩
    · exact hOld
    · exact absurd hUpdate (hUnchanged record hRecord)
  refine ⟨fun _ hNone => (nomatch hNone),
    .inr (.inl (hPast 0 hLevel.origin)),
    fun image hImage => ?_, fun _ hNone => (nomatch hNone)⟩
  rcases List.mem_iff_getElem?.mp hImage with ⟨pageId, hPage⟩
  exact .inl (hPast _ (hLevel.stored pageId image
    hPage).marked)

/- The new base is in the file, the old records still are:
   none of them can be read from there. -/
theorem Level.restarts_stale
    (hLevel : Level core)
    (hFile : core.files.wal.file = [])
    (hBuffer : core.files.wal.buffer = [])
    {records : List (LogRecord (PageImage π))}
    (hStale : ∀ record ∈ records,
      record.lsn < core.files.wal.baseLsn) :
    Restarts ⟨core.files.pages, records⟩ := by
  intro metaPage hHeads
  rw [hLevel.heads hHeads]
  have hPast : ∀ lsn, Known core.files.wal lsn →
      lsn < core.files.wal.baseLsn := by
    intro lsn hKnown
    unfold Known Database.logged at hKnown
    rw [hFile, hBuffer] at hKnown
    rcases hKnown with hOld | ⟨_, hNone, _⟩
    · exact hOld
    · cases hNone
  refine ⟨fun record hRecord => ?_,
    .inr (.inl (hPast 0 hLevel.origin)),
    fun image hImage => ?_, ?_⟩
  · have hLess := hStale record hRecord
    simp only
    omega
  · rcases List.mem_iff_getElem?.mp hImage with
      ⟨pageId, hPage⟩
    exact .inl (hPast _
      (hLevel.stored pageId image hPage).marked)
  · cases records with
    | nil => exact fun _ hNone => nomatch hNone
    | cons record rest =>
      have hLess := hStale record (.head _)
      rw [Wal.scan_of_stale rest (Nat.ne_of_lt hLess)]
      exact fun _ hNone => nomatch hNone

end LevelSteps

--
-- The Invariant
--

/- Every moment at which no page is ahead of its record can
   be opened again, if it is restartable. -/
def Recorded : List (Moment π) → Prop
  | [] => True
  | moment :: earlier =>
    (¬ PageAhead (moment :: earlier) →
      Restartable moment earlier →
      Restarts ⟨moment.pages, moment.records⟩) ∧
    Recorded earlier

structure Monotone (core : Core π) : Prop where
  rule : WriteAhead core
  level : Level core
  settled : ¬ PageAhead core.files.history → Settled core.files
  recorded : Recorded core.files.history
  current : core.files.history.head?.map Moment.records =
    some core.files.wal.file

theorem Recorded.moment
    {later earlier : List (Moment π)}
    {moment : Moment π}
    (hRecorded : Recorded (later ++ moment :: earlier))
    (hBehind : ¬ PageAhead (moment :: earlier))
    (hRestartable : Restartable moment earlier) :
    Restarts ⟨moment.pages, moment.records⟩ := by
  induction later with
  | nil => exact hRecorded.1 hBehind hRestartable
  | cons _ rest ih => exact ih hRecorded.2

section Invariant

/- A step that changes no file. -/
theorem Monotone.unnoted
    (hCore : Monotone core)
    (hRule : WriteAhead core')
    (hLevel : Level core')
    (hPages : core'.files.pages = core.files.pages)
    (hHistory : core'.files.history = core.files.history)
    (hBase : core'.files.wal.baseLsn = core.files.wal.baseLsn)
    (hFile : core'.files.wal.file = core.files.wal.file) :
    Monotone core' := by
  refine ⟨hRule, hLevel, ?_, ?_, ?_⟩
  · rw [hHistory]
    intro hBehind
    unfold Settled Written
    rw [hPages, hBase, hFile]
    exact hCore.settled hBehind
  · rw [hHistory]
    exact hCore.recorded
  · rw [hHistory, hFile]
    exact hCore.current

/- Behind before and behind after: unless the log file has
   changed, no page was ahead before. -/
theorem not_pageAhead_earlier
    {moment : Moment π}
    {earlier : List (Moment π)}
    (hBehind : ¬ PageAhead (moment :: earlier))
    (hSame : earlier.head?.map Moment.records =
      some moment.records) :
    ¬ PageAhead earlier :=
  fun hEarlier => hBehind (.inr ⟨hEarlier, hSame⟩)

/- A step that changes a file and leaves it level. -/
theorem Monotone.noted
    (hCore : Monotone core)
    (hRule : WriteAhead core')
    (hLevel : Level core')
    {event : FileEvent π}
    (hHistory : core'.files.history =
      ⟨event, core'.files.pages, core'.files.wal.file⟩ ::
        core.files.history)
    (hSettled : Settled core'.files ∨
      core'.files.wal.file = core.files.wal.file ∧
        (Settled core.files → Settled core'.files)) :
    Monotone core' := by
  have hNow : ¬ PageAhead core'.files.history →
      Settled core'.files := by
    intro hBehind
    rcases hSettled with hWhole | ⟨hFile, hKept⟩
    · exact hWhole
    · refine hKept (hCore.settled ?_)
      rw [hHistory] at hBehind
      exact not_pageAhead_earlier hBehind
        (hCore.current.trans (congrArg some hFile.symm))
  refine ⟨hRule, hLevel, hNow, ?_, ?_⟩
  · rw [hHistory] at hNow ⊢
    exact ⟨fun hBehind _ => hLevel.restarts hRule.staged
      (hNow hBehind), hCore.recorded⟩
  · rw [hHistory]
    rfl

theorem settled_put
    (hLevel : Level core)
    (hStaged : core.files.wal.Staged)
    (hSettled : Settled core.files)
    (hWritten : Written core.files.wal image.lsn)
    (history : List (Moment π)) :
    Settled { core.files with
      pages := putPage core.pageSize core.files.pages pageId
        image
      history := history } := by
  intro held hHeld
  rcases List.mem_iff_getElem?.mp hHeld with ⟨other, hPage⟩
  simp only [getElem?_putPage] at hPage
  split at hPage
  · rw [← Option.some.inj hPage]
    exact hWritten
  · split at hPage
    · exact hSettled held (List.mem_of_getElem? hPage)
    · split at hPage
      · rw [← Option.some.inj hPage]
        have hLess := hWritten.lsn_lt hLevel.even
        exact hLevel.origin.written hStaged
          (.inl (Nat.lt_of_le_of_lt (Nat.zero_le _) hLess))
      · cases hPage

theorem Monotone.writtenBack
    (hCore : Monotone core)
    (hHit : core.cache pageId = some ⟨pageId, image, true⟩) :
    Monotone { core with
      cache := Function.update core.cache pageId
        (some ⟨pageId, image, false⟩)
      files := core.files.writtenBack core.pageSize pageId
        image } := by
  have hStaged := hCore.rule.staged
  have hRule := hCore.rule.writtenBack hHit
  rcases ledFiles_onward hCore.level.even hStaged image with
    ⟨hOnward, hStaged'⟩
  have hLed : Level
      { core with files := ledFiles core.files image } :=
    hCore.level.onward hOnward _
  -- the log was flushed, or it is as it was
  have hAsked : ¬ PageAhead
        (ledFiles core.files image).history →
      Settled (ledFiles core.files image) := by
    by_cases hFlushed :
        image.lsn > core.files.wal.flushedLsn
    · intro _
      refine hLed.settled hStaged' ?_
      simp only [ledFiles, Files.note, if_pos hFlushed]
      exact WriteAheadLog.flushed_buffer _
    · have hWal : (ledFiles core.files image).wal =
          core.files.wal := if_neg hFlushed
      intro hBehind
      have hOld := hCore.settled (not_pageAhead_earlier
        hBehind (hCore.current.trans
          (congrArg (fun log => some
            (WriteAheadLog.file log)) hWal.symm)))
      unfold Settled at hOld ⊢
      rw [hWal]
      exact hOld
  have hBack : ¬ PageAhead (core.files.writtenBack
        core.pageSize pageId image).history →
      Settled (core.files.writtenBack core.pageSize pageId
        image) := by
    intro hBehind
    have hLate := hAsked (not_pageAhead_earlier hBehind rfl)
    refine settled_put hLed hStaged' hLate
      (hCore.level.written hStaged hHit fun hOvertaken => ?_)
      _
    exact hBehind (.inl (decide_eq_true hOvertaken))
  have hLevel := hCore.level.writtenBack hStaged hHit
  exact ⟨hRule, hLevel, hBack,
    ⟨fun hBehind _ =>
        hLevel.restarts hRule.staged (hBack hBehind),
      fun hBehind _ =>
        hLed.restarts hStaged' (hAsked hBehind),
      hCore.recorded⟩, rfl⟩

theorem Monotone.quiet
    (hCore : Monotone core)
    (hQuiet : core.Quiet core') : Monotone core' := by
  have hRule := hCore.rule.quiet hQuiet
  have hLevel := hCore.level
  cases hQuiet with
  | @load pageId image hMiss hPage =>
    refine hCore.unnoted hRule ?_ rfl rfl rfl rfl
    refine hLevel.still rfl rfl hLevel.metaKnown
      (fun other frame hFrame => ?_) hLevel.undone
    simp only at hFrame
    by_cases hSame : other = pageId
    · rw [hSame, Function.update_self, Option.some.injEq]
        at hFrame
      rw [hSame, ← hFrame]
      exact .inr (hLevel.stored pageId image hPage)
    · rw [Function.update_of_ne hSame] at hFrame
      exact .inl hFrame
  | @drop pageId image hHit =>
    refine hCore.unnoted hRule ?_ rfl rfl rfl rfl
    refine hLevel.still rfl rfl hLevel.metaKnown
      (fun other frame hFrame => ?_) hLevel.undone
    simp only at hFrame
    by_cases hSame : other = pageId
    · simp [hSame] at hFrame
    · rw [Function.update_of_ne hSame] at hFrame
      exact .inl hFrame
  | writeBack hHit => exact hCore.writtenBack hHit
  | clear _ =>
    refine hCore.unnoted hRule ?_ rfl rfl rfl rfl
    exact hLevel.still rfl rfl hLevel.metaKnown
      (fun _ _ hFrame => nomatch hFrame) hLevel.undone

theorem Monotone.changed
    (hCore : Monotone core)
    {reason : String}
    {capture : Bool}
    {transactionId : Nat}
    {before raw : PageImage π}
    (hRule : WriteAhead
      (core'.logged pageId transactionId before raw))
    (hAnswers : core.Answers pageId reason capture core'
      transactionId before)
    (hWrites : core'.Writes Anywhere pageId raw)
    (hLength : Wal.byteLength raw = core.pageSize) :
    Monotone (core'.logged pageId transactionId before
      raw) := by
  have hFiles := answers_files hAnswers
  have hRaw : raw ≠ .empty := by
    rintro rfl
    exact hCore.rule.sized hLength.symm
  have hStaged : core'.files.wal.Staged := by
    rw [hFiles]
    exact hCore.rule.staged
  rcases hCore.level.answers hAnswers with ⟨hAnswered, hBefore⟩
  rw [← hFiles] at hBefore
  refine hCore.unnoted hRule (hAnswered.logged hStaged
    hBefore (hAnswered.writes hWrites) hRaw) ?_ ?_ ?_ ?_
  all_goals rw [← hFiles]
  · rfl
  · rfl
  · exact WriteAheadLog.updated_baseLsn _ _ _ _
  · exact WriteAheadLog.updated_file _ _ _ _

/- The log is cut off with the old base still in the meta
   page, which is then written with the new one. -/
theorem Monotone.checkpointed
    (hCore : Monotone core)
    (hRule : WriteAhead core.checkpointed)
    (hEmpty : core.files.wal.buffer = [])
    (hIdle : core.transactions.running = []) :
    Monotone core.checkpointed := by
  have hLevel := hCore.level.checkpointed hCore.rule.staged
    hEmpty hIdle
  have hSettled : Settled core.checkpointed.files :=
    hLevel.settled hRule.staged hEmpty
  refine ⟨hRule, hLevel, fun _ => hSettled,
    ⟨fun _ _ => hLevel.restarts hRule.staged hSettled,
      fun _ hRestartable => ?_, hCore.recorded⟩, rfl⟩
  rcases Option.map_eq_some_iff.mp hCore.current with
    ⟨previous, hPrevious, hRecords⟩
  have hUnchanged := hRestartable rfl previous hPrevious
  rw [hRecords] at hUnchanged
  exact hCore.level.restarts_cutOff hEmpty hUnchanged

/- Recovery writes the meta page with the new base while the
   log still holds the old records, then restarts the log. -/
theorem Monotone.restarted
    (hCore : Monotone core)
    {metaPage : MetaPage}
    {baseLsn : Nat}
    (hRule : WriteAhead (core.restarted metaPage baseLsn))
    {image : PageImage π}
    (hPage : core.files.pages[metaPageId]? = some image)
    (hMeta : image.asMeta = .ok metaPage)
    (hBase : core.files.wal.nextLsn ≤ baseLsn)
    (hIdle : core.transactions.running = []) :
    Monotone (core.restarted metaPage baseLsn) := by
  have hStaged := hCore.rule.staged
  have hLevel : Level (core.restarted metaPage baseLsn) := by
    have hNext : core.files.wal.nextLsn ≤
        (core.files.wal.resetAt baseLsn).baseLsn := hBase
    have hKnown : Known core.files.wal metaPage.lsn := by
      have hFits := hCore.level.stored metaPageId image hPage
      rw [asMeta_eq hMeta] at hFits
      exact hFits.marked
    have hCheckpoint : ({ metaPage with
        checkpointLsn := baseLsn } : MetaPage).checkpointLsn =
          (core.files.wal.resetAt baseLsn).baseLsn := rfl
    exact hCore.level.rebased hStaged rfl rfl rfl hNext
      hCheckpoint hKnown hIdle _
  have hSettled : Settled
      (core.restarted metaPage baseLsn).files :=
    hLevel.settled hRule.staged rfl
  refine ⟨hRule, hLevel, fun _ => hSettled,
    ⟨fun _ _ => hLevel.restarts hRule.staged hSettled,
      fun _ _ => ?_, hCore.recorded⟩, rfl⟩
  refine hLevel.restarts_stale rfl rfl
    fun record hRecord => ?_
  have hBelow := hCore.level.even.below record hRecord
  have hNext := hStaged.nextLsn_eq
  change record.lsn < baseLsn
  omega

theorem Monotone.flushed
    (hCore : Monotone core)
    (hRule : WriteAhead { core with
      files := { core.files with
        wal := core.files.wal.flushed }.note .logFlushed }) :
    Monotone { core with
      files := { core.files with
        wal := core.files.wal.flushed }.note
          .logFlushed } := by
  have hLevel := hCore.level.onward
    (onward_flushed hCore.level.even hCore.rule.staged)
    (Files.note { core.files with
      wal := core.files.wal.flushed } .logFlushed).history
  refine hCore.noted hRule hLevel rfl (.inl ?_)
  exact hLevel.settled hRule.staged
    (WriteAheadLog.flushed_buffer _)

theorem monotone_stable :
    Stable Anywhere (Monotone (π := π)) := by
  intro core core' hCore hStep
  have hRule := writeAhead_stable core core' hCore.rule hStep
  have hLevel := hCore.level
  cases hStep with
  | quiet hQuiet => exact hCore.quiet hQuiet
  | intended hIntends =>
    have hAnswers := Core.Answers.of_intends hIntends
    have hFiles := answers_files hAnswers
    refine hCore.unnoted hRule (hLevel.answers hAnswers).1
      ?_ ?_ ?_ ?_
    all_goals rw [hFiles]
  | changed reason capture hAnswers hWrites hLength =>
    exact hCore.changed hRule hAnswers hWrites hLength
  | edited hLsn hCheckpoint _ _ =>
    refine hCore.unnoted hRule ?_ rfl rfl rfl rfl
    refine hLevel.still rfl hCheckpoint ?_
      (fun _ _ h => .inl h) hLevel.undone
    rw [hLsn]
    exact hLevel.metaKnown
  | reloaded hView hMeta =>
    refine hCore.unnoted hRule ?_ rfl rfl rfl rfl
    have hFits := hLevel.view hView
    refine hLevel.still rfl ?_ ?_
      (fun _ _ h => .inl h) hLevel.undone
    · exact (hFits.based rfl _ hMeta).trans
        hLevel.metaBased.symm
    · have hMarked := hFits.marked
      rw [asMeta_eq hMeta] at hMarked
      exact hMarked
  | ended recordType transactionId _ =>
    refine hCore.unnoted hRule ?_ rfl rfl rfl rfl
    exact hLevel.onward (onward_ended hLevel.even
      hLevel.origin recordType transactionId) _
  | forgot transactionId =>
    refine hCore.unnoted hRule ?_ rfl rfl rfl rfl
    have hOnward : Onward core.files.wal
        (core.files.wal.forget transactionId) :=
      onward_same hLevel.even rfl rfl rfl rfl
    exact hLevel.onward hOnward _
  | flushed => exact hCore.flushed hRule
  | stamped _ hIdle =>
    refine hCore.unnoted hRule ?_ rfl rfl rfl rfl
    exact hLevel.still rfl rfl hLevel.metaKnown
      (fun _ _ h => .inl h) hLevel.undone
  | checkpointed _ hEmpty hIdle =>
    exact hCore.checkpointed hRule hEmpty hIdle
  | shut _ =>
    refine hCore.unnoted hRule ?_ rfl rfl rfl rfl
    have hOnward : Onward core.files.wal
        { core.files.wal with closed := true } :=
      onward_same hLevel.even rfl rfl rfl rfl
    exact hLevel.onward hOnward _
  | managed hManaged =>
    exact hCore.unnoted hRule (hLevel.managed hManaged) rfl
      rfl rfl rfl
  | joined =>
    refine hCore.unnoted hRule ?_ rfl rfl rfl rfl
    exact hLevel.still rfl rfl hLevel.metaKnown
      (fun _ _ h => .inl h) hLevel.undone

/- What recovery reads can be put back, and logged again. -/
theorem Level.replayed
    (hLevel : Level core)
    (hStaged : core.files.wal.Staged)
    {record : LogRecord (PageImage π)}
    (hRecord : record ∈ core.readable)
    (hImage : image = record.afterImage ∨
      image = record.beforeImage) :
    Fits core.files.wal.baseLsn core.files.wal.file
      record.pageId image ∧
      image.lsn ≤ core.files.wal.nextLsn := by
  have hFile := (WriteAheadLog.scan_isPrefix _ _ _).subset
    hRecord
  have hBelow := hLevel.even.below record hFile
  have hNext := hStaged.nextLsn_eq
  have hSober := hLevel.even.sober record
    (List.mem_append_left _ hRecord)
  have hBoth : image.lsn ≤ record.lsn ∧
      Fits core.files.wal.baseLsn
        (Database.logged core.files.wal) record.pageId
        image := by
    rcases hImage with rfl | rfl
    · exact ⟨hSober.after, hSober.afterFits⟩
    · exact ⟨hSober.before, hSober.beforeFits⟩
  exact ⟨⟨Known.written hBoth.2.marked hStaged
    (.inl (by omega)), hBoth.2.based⟩, by omega⟩

/- The database is not serving anyone. -/
def Idle (core : Core π) : Prop :=
  core.transactions.running = []

theorem monotone_recoverable :
    Recoverable fun core : Core π =>
      Monotone core ∧ Idle core := by
  rintro core core' ⟨hCore, hIdle⟩ hStep
  have hRule := writeAhead_recoverable core core' hCore.rule
    hStep
  have hStaged := hCore.rule.staged
  have hLevel := hCore.level
  cases hStep with
  | recovered _ hRecord _ hImage _ =>
    have hFits := (hLevel.replayed hStaged hRecord
      (hImage.imp_right And.left)).1
    have hPut := hLevel.put
      (hFits.mono fun _ h => Written.known h) hLevel.cached
    refine ⟨hCore.noted hRule (hPut _) rfl
      (.inr ⟨rfl, fun hSettled => ?_⟩), hIdle⟩
    exact settled_put hLevel hStaged hSettled hFits.marked
      _
  | @compensated record _ hRecord _ _ =>
    refine ⟨hCore.unnoted hRule ?_ rfl rfl rfl rfl, hIdle⟩
    rcases hLevel.replayed hStaged hRecord (.inr rfl) with
      ⟨hFits, hBefore⟩
    let undo := core.files.wal.nextRecord .update
      record.transactionId record.pageId .empty
      record.beforeImage
    have hEmpty : Fits core.files.wal.baseLsn
        (Database.logged (core.files.wal.stage undo))
        record.pageId .empty :=
      fits_empty (known_stage hLevel.origin)
    have hUndo : Fits core.files.wal.baseLsn
        (Database.logged (core.files.wal.stage undo))
        record.pageId record.beforeImage :=
      hFits.mono fun _ h => known_stage (Written.known h)
    exact hLevel.onward (onward_stage hLevel.even
      ⟨Nat.zero_le _, hBefore, hEmpty, hUndo⟩) _
  | aborted transactionId _ =>
    refine ⟨hCore.unnoted hRule ?_ rfl rfl rfl rfl, hIdle⟩
    have hEnded := onward_ended hLevel.even hLevel.origin
      .abort transactionId
    have hOnward : Onward
        (core.files.wal.stage (core.files.wal.endRecord
          .abort transactionId))
        ((core.files.wal.stage (core.files.wal.endRecord
          .abort transactionId)).forget transactionId) :=
      onward_same hEnded.even rfl rfl rfl rfl
    exact (hLevel.onward hEnded
      core.files.history).onward hOnward _
  | flushed _ => exact ⟨hCore.flushed hRule, hIdle⟩
  | restarted _ hPage hMeta hBase =>
    exact ⟨hCore.restarted hRule hPage hMeta hBase hIdle, hIdle⟩

end Invariant

--
-- Opening
--

section Opening

variable {stored : Pager.Stored π}

theorem recorded_opened (hRestarts : Restarts stored) :
    Recorded (opened stored metaPage).files.history :=
  ⟨fun _ _ => hRestarts, trivial⟩

/- An engine over files that are not all empty. -/
theorem monotone_opened
    (hValid : validatePageSize metaPage.pageSize = .ok ())
    (hHeads : Heads stored metaPage)
    (hRestarts : Restarts stored)
    (hOrigin : Marks metaPage.checkpointLsn stored.records
      0) :
    Monotone (opened stored metaPage) where
  rule := writeAhead_opened stored hValid
  level :=
    level_opened hHeads (hRestarts metaPage hHeads) hOrigin
  settled := fun _ => (hRestarts metaPage hHeads).pages
  recorded := recorded_opened hRestarts
  current := rfl

theorem monotone_installed
    {core : Core π}
    (hCore : Monotone core)
    (highestXid : Nat) :
    Monotone (installed core highestXid) := by
  refine hCore.unnoted
    (hCore.rule.still rfl rfl fun _ _ h _ => h) ?_ rfl rfl
    rfl rfl
  exact hCore.level.still rfl rfl hCore.level.metaKnown
    (fun _ _ h => .inl h) (fun _ hNone => nomatch hNone)

/- The first change of a new database is its meta page. -/
theorem level_created (pageSize : Nat) :
    Level ((opened (π := π) ⟨[], []⟩
      (MetaPage.create pageSize)).logged metaPageId
        noTransaction .empty
        (.metaPage (MetaPage.create pageSize))) := by
  let core := opened (π := π) ⟨[], []⟩
    (MetaPage.create pageSize)
  let raw : PageImage π := .metaPage (MetaPage.create pageSize)
  have hStamped : ∀ lsn, (raw.stamp lsn).lsn = lsn :=
    fun _ => rfl
  have hBased : Based core.files.wal.baseLsn metaPageId raw :=
    based_metaPage rfl
  have hStaged : core.files.wal.Staged :=
    WriteAheadLog.openFile_staged _ _
  have hEven : Even core.files.wal :=
    ⟨rfl, fun _ hNone => (nomatch hNone),
      fun _ hNone => (nomatch hNone)⟩
  have hFirst : Known (core.files.wal.updated noTransaction
      metaPageId .empty raw.stamp) 0 := known_updateRecord
  have hOnward := onward_updated hEven hStaged hFirst
    (.inl rfl) hStamped fun _ => hBased.stamp _
  refine ⟨hOnward.even, hFirst, rfl, hFirst, fun _ => rfl,
    ?_, fun _ _ hNone => (nomatch hNone),
    fun _ hNone => (nomatch hNone)⟩
  intro pageId frame hFrame
  simp only [Core.logged] at hFrame
  by_cases hSame : pageId = metaPageId
  · rw [hSame, Function.update_self, Option.some.injEq]
      at hFrame
    rw [hSame, ← hFrame]
    exact ⟨hFirst, hBased.stamp _⟩
  · rw [Function.update_of_ne hSame] at hFrame
    cases hFrame

/- There is nothing to read, drop or write back. -/
theorem created_calm (metaPage : MetaPage) :
    Calm fun core : Core π =>
      core = opened ⟨[], []⟩ metaPage := by
  rintro core core' rfl hQuiet
  cases hQuiet with
  | load _ hPage => cases hPage
  | drop hHit => cases hHit
  | writeBack hHit => cases hHit
  | clear _ => rfl

variable {pageSize : Nat}

theorem writeMeta_created
    (hValid : validatePageSize pageSize = .ok ()) :
    Triple
      (Ready fun core : Core π =>
        core = opened ⟨[], []⟩ (MetaPage.create pageSize))
      Pager.writeMeta
      (fun _ => Ready Monotone)
      (fun _ engine => Recorded engine.files.history) := by
  have hRestarts : Restarts (π := π) ⟨[], []⟩ := by
    intro metaPage _
    exact ⟨fun _ hNone => (nomatch hNone),
      .inl ⟨rfl, rfl⟩, fun _ hNone => (nomatch hNone),
      fun _ hNone => (nomatch hNone)⟩
  unfold Pager.writeMeta
  refine Triple.read fun engine hReady => ?_
  have hMeta : engine.metaPage = MetaPage.create pageSize := by
    have hSame := congrArg Core.metaPage hReady.2
    exact hSame
  rw [hMeta]
  refine (Pager.writeAt_spec (created_calm _)
    monotone_stable.calm _ _ _ _ ?_).weaken
    (fun _ h => h ▸ hReady) (fun _ _ h => h)
    (fun _ current h => ?_)
  · rintro core core' transactionId before rfl hAnswers
      hLength
    have hOpened : WriteAhead (opened (π := π) ⟨[], []⟩
        (MetaPage.create pageSize)) :=
      writeAhead_opened ⟨[], []⟩ hValid
    -- no hook is installed yet
    unfold Core.Answers at hAnswers
    rw [if_pos rfl] at hAnswers
    cases hAnswers with
    | again hWatching => cases hWatching
    | first hWatching => cases hWatching
    | outside _ =>
      exact ⟨hOpened.logged _ _ _ hLength,
        level_created pageSize,
        fun _ _ hNone => (nomatch hNone),
        recorded_opened hRestarts, rfl⟩
  · have hHistory := congrArg
      (fun core : Core π => core.files.history) h.2
    change current.files.history = _ at hHistory
    rw [hHistory]
    exact recorded_opened hRestarts

theorem created_keeps
    (hValid : validatePageSize pageSize = .ok ()) :
    Triple
      (Ready fun core : Core π =>
        core = opened ⟨[], []⟩ (MetaPage.create pageSize))
      (do
        Pager.writeMeta
        Pager.sync)
      (fun _ => Ready Monotone)
      (fun _ engine => Recorded engine.files.history) := by
  refine Triple.bind (writeMeta_created hValid) fun _ => ?_
  exact (Pager.sync_keeps monotone_stable).raises
    (fun _ _ h => h.2.recorded)

/- The same over a log that was left without its pages. -/
theorem recreated_keeps :
    Triple (Ready (Monotone (π := π)))
      (do
        Pager.writeMeta
        Pager.sync)
      (fun _ => Ready Monotone)
      (fun _ engine => Recorded engine.files.history) := by
  refine Triple.bind
    ((Pager.writeMeta_keeps monotone_stable).raises
      (fun _ _ h => h.2.recorded)) fun _ => ?_
  exact (Pager.sync_keeps monotone_stable).raises
    (fun _ _ h => h.2.recorded)

theorem install_keeps (installs : Bool) :
    Triple (Ready (Monotone (π := π)))
      (if installs then install else pure ())
      (fun _ => Ready Monotone)
      (fun _ engine => Recorded engine.files.history) := by
  refine Triple.start fun engine hReady => ?_
  refine (install_spec (J := Monotone) installs
    engine.recovery.highestXid).weaken
    (fun _ h => by rw [h]; exact ⟨hReady, rfl⟩)
    (fun _ current h => ?_) (fun _ current h => ?_)
  · refine ⟨h.1, ?_⟩
    have hBooted := h.2
    unfold Booted at hBooted
    split at hBooted
    · rcases hBooted with ⟨bare, hBare, hSame⟩
      rw [hSame]
      exact monotone_installed hBare _
    · exact hBooted
  · rcases h with ⟨core, hCore, hFiles⟩
    rw [← hFiles]
    exact hCore.recorded

variable {options : Pager.Options}

/- A life begins with the invariant. -/
theorem boot_keeps
    {frames : Nat}
    (hEnough : minPoolFrames ≤ frames)
    (hValid : validatePageSize metaPage.pageSize = .ok ())
    (hHeads : Heads stored metaPage)
    (hRestarts : Restarts stored)
    (installs : Bool) :
    Triple
      (fun engine => engine =
        Pager.engineOver options stored metaPage
          (BufferPool.ofFrames metaPage.pageSize frames))
      (boot (!stored.pages.isEmpty) installs)
      (fun _ => Ready Monotone)
      (fun _ engine => Recorded engine.files.history) := by
  let start : Engine π :=
    { Pager.engineOver options stored metaPage
        (BufferPool.ofFrames metaPage.pageSize frames) with
      files := (Pager.engineOver options stored metaPage
        (BufferPool.ofFrames metaPage.pageSize
          frames)).files.note .opened }
  have hGood : start.Good :=
    ⟨BufferPool.sound_ofFrames hEnough,
      WriteAheadLog.openFile_staged _ _, rfl, rfl⟩
  have hReopens := hRestarts metaPage hHeads
  unfold boot
  refine Triple.bind ?_ fun _ => install_keeps installs
  unfold Pager.start
  apply Triple.bind (Q := fun _ engine => engine = start)
  · apply Triple.modify
    intro engine hEngine
    rw [hEngine]
  intro _
  rcases hReopens.origin with ⟨hPages, hRecords⟩ | hOrigin
  · have hStored : stored = ⟨[], []⟩ := by
      cases stored
      simp only at hPages hRecords
      rw [hPages, hRecords]
    have hCore : start.core = opened ⟨[], []⟩ metaPage := by
      rw [← hStored]
      rfl
    subst hStored
    rcases hHeads with ⟨pageSize, rfl⟩
    refine (created_keeps hValid).pre
      (fun _ h => by rw [h]; exact ⟨hGood, hCore⟩)
  · have hCore : Monotone start.core :=
      monotone_opened hValid hHeads hRestarts hOrigin
    cases hPages : stored.pages with
    | nil =>
      exact recreated_keeps.pre
        (fun _ h => by rw [h]; exact ⟨hGood, hCore⟩)
    | cons page rest =>
      have hStart : Ready (Database.Opening fun core =>
          Monotone core ∧ Idle core) start :=
        ⟨hGood, ⟨hCore, rfl⟩, rfl⟩
      refine (restore_spec monotone_recoverable
        hStart).weaken
        (fun _ h => h) (fun _ _ h => ⟨h.1.1, h.1.2.1⟩)
        (fun _ current h => ?_)
      rcases h with ⟨core, hLeft, hFiles⟩
      rw [← hFiles]
      exact hLeft.1.recorded

variable {engine : Engine π}

theorem opening_keeps
    (hRestarts : Restarts stored)
    (hOpening : Pager.opening options stored = .ok engine)
    (hValid : validatePageSize engine.pageSize = .ok ())
    (installs : Bool) :
    Triple (fun current => current = engine)
      (boot (!stored.pages.isEmpty) installs)
      (fun _ => Ready Monotone)
      (fun _ engine => Recorded engine.files.history) := by
  rcases opening_spec hOpening with
    ⟨metaPage, frames, hHeads, hEnough, rfl⟩
  exact boot_keeps hEnough hValid hHeads hRestarts installs

theorem living_monotone
    (hRestarts : Restarts stored)
    (hLiving : Living stored engine) :
    Monotone engine.core := by
  refine (living_keeps monotone_stable ?_ hLiving).1
  intro installs options engine final hOpening hValid hBoot
  exact (opening_keeps hRestarts hOpening hValid
    installs).of_ok rfl hBoot

theorem lived_recorded
    (hRestarts : Restarts stored)
    {files : Files π}
    (hLived : Lived stored files) :
    Recorded files.history := by
  cases hLived with
  | serving hLiving =>
    exact (living_monotone hRestarts hLiving).recorded
  | failing installs hOpening hValid hBoot =>
    exact (opening_keeps hRestarts hOpening hValid
      installs).of_error rfl hBoot

/- Crash after crash, what is left can be opened again. -/
theorem reached_restarts
    (hReached : Reached stored) : Restarts stored := by
  induction hReached with
  | created =>
    intro metaPage _
    exact ⟨fun _ hNone => (nomatch hNone),
      .inl ⟨rfl, rfl⟩, fun _ hNone => (nomatch hNone),
      fun _ hNone => (nomatch hNone)⟩
  | crashed _ hLived hHistory hBehind hRestartable ih =>
    have hRecorded := lived_recorded ih hLived
    rw [hHistory] at hRecorded
    exact hRecorded.moment hBehind hRestartable

end Opening

--
-- Appends Follow Pages
--

/-
  The next record, and the record of any change, gets an LSN
  past that of every page in the file.
-/
def AppendsPast (files : Files π) : Prop :=
  ∀ image ∈ files.pages,
    image.lsn < files.wal.nextLsn ∧
    ∀ transactionId changed before afterFor,
      image.lsn < (files.wal.updateRecord transactionId
        changed before afterFor).lsn

theorem appendsPast_of
    {files : Files π}
    (hStaged : files.wal.Staged)
    (hPages : ∀ image ∈ files.pages,
      image.lsn < files.wal.flushedLsn) :
    AppendsPast files := by
  intro image hImage
  have hLess := hPages image hImage
  refine ⟨?_, fun transactionId changed before afterFor => ?_⟩
  · have hNext := hStaged.nextLsn_eq
    omega
  · have hStart := WriteAheadLog.flushedLsn_le_updateRecord
      transactionId changed before afterFor hStaged
    omega

/- A new database with a page, checkpointed. -/
def checkpointedDatabase : Engine Bytes :=
  [.allocatePage .heap, .sync, .checkpoint].foldl
    (afterCall "default") newDatabase

theorem checkpointedDatabase_living :
    Living ⟨[], []⟩ checkpointedDatabase :=
  living_afterCalls "default"
    (@Living.opened Bytes ⟨[], []⟩ true newOptions _ _ rfl
      rfl rfl)
    (by decide +kernel)

/- The checkpoint has run to its end. -/
def writtenMoment : Moment Bytes :=
  checkpointedDatabase.files.history.head
    (by decide +kernel)

/- The log is cut off, the meta page not yet written. -/
def cutOffMoment : Moment Bytes :=
  checkpointedDatabase.files.history.tail.head
    (by decide +kernel)

/- What a crash at a moment leaves. -/
def Moment.left (moment : Moment π) : Pager.Stored π :=
  ⟨moment.pages, moment.records⟩

/-
  However often it crashed before: when the files are opened
  again, and in every later state of that life in which no
  page is ahead of its record, what is appended to the log
  gets an LSN past that of every page in the file.
-/
theorem appends_follow_pages
    {stored : Pager.Stored π}
    (hReached : Reached stored) :
    (∀ options engine,
      Pager.opening options stored = .ok engine →
      AppendsPast engine.files) ∧
    ∀ engine, Living stored engine →
      ¬ PageAhead engine.files.history →
      AppendsPast engine.files := by
  have hRestarts := reached_restarts hReached
  refine ⟨fun options engine hOpening => ?_,
    fun engine hLiving hBehind => ?_⟩
  · rcases opening_spec hOpening with
      ⟨metaPage, frames, hHeads, _, rfl⟩
    have hReopens := hRestarts metaPage hHeads
    refine appendsPast_of
      (WriteAheadLog.openFile_staged _ _) fun image hImage => ?_
    exact (hReopens.pages image hImage).lsn_lt
      (Nat.le_add_right _ _) hReopens.below
  · have hCore := living_monotone hRestarts hLiving
    exact appendsPast_of hCore.rule.staged fun image hImage =>
      Written.lsn_lt (hCore.settled hBehind image hImage)
        hCore.level.even

/- Opened again after a crash behind the whole checkpoint. -/
theorem appends_follow_pages_checkpointed :
    writtenMoment.event = .metaWritten ∧
      ∃ engine,
        reopen newOptions (Moment.left writtenMoment) =
          some engine ∧
        engine.files.pages ≠ [] ∧
        AppendsPast engine.files := by
  have hEvent : writtenMoment.event = .metaWritten := by
    decide +kernel
  have hSplit : checkpointedDatabase.files.history =
      [] ++ writtenMoment ::
        checkpointedDatabase.files.history.tail :=
    (List.cons_head_tail _).symm
  have hBehind : ¬ PageAhead (writtenMoment ::
      checkpointedDatabase.files.history.tail) :=
    not_pageAhead_of (by decide +kernel)
  have hRestartable : Restartable writtenMoment
      checkpointedDatabase.files.history.tail := by
    intro hCut
    rw [hEvent] at hCut
    cases hCut
  have hReached : Reached (Moment.left writtenMoment) :=
    .crashed .created (.serving checkpointedDatabase_living)
      hSplit hBehind hRestartable
  have hReopens : (reopen newOptions
      (Moment.left writtenMoment)).any (fun engine =>
        !engine.files.pages.isEmpty &&
        engine.files.history.all (fun moment =>
          !Moment.overtaken moment)) = true := by
    decide +kernel
  refine ⟨hEvent, ?_⟩
  rcases (Option.any_eq_true _ _).mp hReopens with
    ⟨engine, hEngine, hHolds⟩
  rw [Bool.and_eq_true] at hHolds
  refine ⟨engine, hEngine, by simpa using hHolds.1, ?_⟩
  exact (appends_follow_pages hReached).2 engine
    (living_reopen hEngine) (not_pageAhead_of hHolds.2)

/-
  A crash between the truncation and the meta page: opened
  again, the log starts at an LSN that pages already have.
-/
theorem pages_outrun_appends :
    Living ⟨[], []⟩ checkpointedDatabase ∧
      cutOffMoment ∈ checkpointedDatabase.files.history ∧
      cutOffMoment.event = .logTruncated ∧
      ∃ engine,
        reopen newOptions (Moment.left cutOffMoment) =
          some engine ∧
        Living (Moment.left cutOffMoment) engine ∧
        ∃ image ∈ engine.files.pages,
          engine.files.wal.nextLsn < image.lsn := by
  have hReopens : (reopen newOptions
      (Moment.left cutOffMoment)).any (fun engine =>
        engine.files.pages.any fun image =>
          decide (engine.files.wal.nextLsn < image.lsn)) =
        true := by
    decide +kernel
  refine ⟨checkpointedDatabase_living,
    List.mem_of_mem_tail (List.head_mem _),
    by decide +kernel, ?_⟩
  rcases (Option.any_eq_true _ _).mp hReopens with
    ⟨engine, hEngine, hHolds⟩
  rcases List.any_eq_true.mp hHolds with ⟨image, hImage, hPast⟩
  exact ⟨engine, hEngine, living_reopen hEngine, image,
    hImage, of_decide_eq_true hPast⟩

end Database

end ChenDB
