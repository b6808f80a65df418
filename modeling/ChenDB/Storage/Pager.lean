import ChenDB.Storage.Buffer
import ChenDB.Storage.Page
import ChenDB.Transaction.Manager
import ChenDB.Wal.Recovery

/-
  The pager: page-granular access to the database file,
  through the buffer pool and behind the log. The state holds
  the transaction manager its write hook is bound to, and a
  record of every moment at which a file changed, which
  nothing reads.
-/

--
-- Files
--

namespace ChenDB

namespace Storage

open Library.StateExcept
open Transaction (TransactionManager)
open Wal (LogRecord RecoveryReport WriteAheadLog noTransaction)

/- What changed a file. -/
inductive FileEvent (π : Type) where
  | opened
  | logFlushed
  /- The pool wrote a page; where the log stood when it was
     asked to go first. -/
  | wroteBack
      (pageId : PageId)
      (image : PageImage π)
      (flushedLsn : Nat)
      (staged : Bool)
  | logTruncated
  | metaWritten
  | pageRecovered
  | logReset
deriving DecidableEq, Repr

/- Both files as a change left them. -/
structure Moment (π : Type) where
  event : FileEvent π
  pages : List (PageImage π)
  records : List (LogRecord (PageImage π))
deriving DecidableEq, Repr

/- The database file and the log, with the moments newest
   first. -/
structure Files (π : Type) where
  pages : List (PageImage π)
  wal : WriteAheadLog (PageImage π)
  history : List (Moment π)

/- The file with a page written; a gap reads as zeros. -/
def putPage
    {π : Type}
    (pageSize : Nat)
    (pages : List (PageImage π))
    (pageId : PageId)
    (image : PageImage π) : List (PageImage π) :=
  (pages ++ List.replicate (pageId + 1 - pages.length)
    (PageImage.zeros pageSize)).set pageId image

abbrev FilesM (π α : Type) :=
  EStateM EngineError (Files π) α

namespace Files

variable {π : Type}

/- The files after a change, with the moment noted. -/
def note
    (files : Files π)
    (event : FileEvent π) : Files π :=
  { files with
    history :=
      { event := event
        pages := files.pages
        records := files.wal.file } :: files.history }

def onLog
    {α : Type}
    (program : Wal.LogM (PageImage π) α) : FilesM π α :=
  focus Files.wal (fun files wal =>
    { files with wal := wal }) program

/- Run a log operation that changes the log file. -/
def changeLog
    {α : Type}
    (event : FileEvent π)
    (program : Wal.LogM (PageImage π) α) : FilesM π α := do
  let value ← onLog program
  modify fun files => files.note event
  return value

def readFromDisk
    (pageSize : Nat)
    (pageId : PageId) : FilesM π (PageImage π) := do
  match (← get).pages[pageId]? with
  | some image => return image
  | none =>
    throw (.corruptDatabase
      (s!"short read on page {pageId}: got 0 of " ++
        s!"{pageSize} bytes"))

/-
  The pool's write-through, with the write-ahead rule in
  front of it.
-/
def writeToDiskWriteAhead
    (pageSize : Nat)
    (pageId : PageId)
    (image : PageImage π) : FilesM π Unit := do
  let wal := (← get).wal
  changeLog .logFlushed (WriteAheadLog.flushThrough image.lsn)
  modify fun files =>
    { files with
      pages := putPage pageSize files.pages pageId
        image }.note
      (.wroteBack pageId image wal.flushedLsn
        (!wal.buffer.isEmpty))

end Files

--
-- The Engine's State
--

structure Engine (π : Type) where
  path : String
  databaseId : String
  pool : BufferPool (PageImage π)
  files : Files π
  /- The decoded meta page. -/
  metaPage : MetaPage
  pageSize : Nat
  verifyChecksums : Bool
  closed : Bool
  recovery : RecoveryReport
  /- A database installed its hooks. -/
  watching : Bool
  transactions : TransactionManager (PageImage π)
  session : String

abbrev EngineM (π α : Type) :=
  EStateM EngineError (Engine π) α

/- What the transaction layer says about a page that is
   about to change. -/
structure WriteIntent (π : Type) where
  transactionId : Nat
  beforeImage : Option (PageImage π)

def PageType.reason : PageType → String
  | .free => "free"
  | .metaPage => "meta"
  | .heap => "heap"
  | .schema => "schema"
  | .btreeInternal => "btree_internal"
  | .btreeLeaf => "btree_leaf"
  | .overflow => "overflow"

namespace Pager

variable {π : Type}

def poolEnv (pageSize : Nat) :
    PoolEnv (Files π) (PageImage π) where
  readThrough := Files.readFromDisk pageSize
  writeThrough := Files.writeToDiskWriteAhead pageSize

def onPool
    {α : Type}
    (program : PoolM (Files π) (PageImage π) α) :
    EngineM π α :=
  focus (fun engine => (engine.pool, engine.files))
    (fun engine part =>
      { engine with pool := part.1, files := part.2 })
    program

def onFiles
    {α : Type}
    (program : FilesM π α) : EngineM π α :=
  focus Engine.files
    (fun engine files => { engine with files := files })
    program

def fromExcept
    {α : Type} :
    Except EngineError α → EngineM π α
  | .ok value => pure value
  | .error raised => throw raised

def ensureOpen : EngineM π Unit := do
  let engine ← get
  if engine.closed then
    throw (.valueError s!"pager for {engine.path} is closed")

def checkPageId (pageId : PageId) : EngineM π Unit := do
  let engine ← get
  if ¬ pageId < engine.metaPage.pageCount then
    throw (.pageNotFound
      (s!"page {pageId} is outside the file (it holds pages " ++
        s!"0..{(engine.metaPage.pageCount : Int) - 1})"))

--
-- Logical Page Access
--

def fetch (pageId : PageId) :
    EngineM π (PageImage π × Bool) := do
  let engine ← get
  onPool (BufferPool.fetch (poolEnv engine.pageSize) pageId)

/- `TransactionManager.before_write`, as the pager's hook. -/
def beforeWrite
    (pageId : PageId)
    (reason : String) :
    EngineM π (Option (WriteIntent π)) := do
  let engine ← get
  if ¬ engine.watching then
    return none
  else
    match engine.transactions.activeIn engine.session with
    | none => return none
    | some transaction =>
      if transaction.undo.has pageId then
        return some
          { transactionId := transaction.transactionId
            beforeImage := none }
      else
        let (image, _) ← fetch pageId
        modify fun engine => { engine with
          transactions := engine.transactions.captureIn
            engine.session pageId image reason }
        return some
          { transactionId := transaction.transactionId
            beforeImage := some image }

/-
  Log this change and stamp the record's LSN into the page.
  The LSN of the meta page is kept in its decoded copy too.
-/
def logChange
    (pageId : PageId)
    (raw : PageImage π)
    (intent : Option (WriteIntent π)) :
    EngineM π (PageImage π) := do
  let record ← onFiles (Files.onLog
    (WriteAheadLog.appendUpdate
      ((intent.map WriteIntent.transactionId).getD
        noTransaction)
      pageId
      ((intent.bind WriteIntent.beforeImage).getD .empty)
      raw.stamp))
  modify fun engine =>
    if pageId = metaPageId then
      { engine with
        metaPage := { engine.metaPage with
          lsn := record.lsn } }
    else engine
  return raw.stamp record.lsn

/- The intent of a write, unless its caller took care of it. -/
def intentFor
    (pageId : PageId)
    (reason : String)
    (capture : Bool) :
    EngineM π (Option (WriteIntent π)) :=
  if capture then beforeWrite pageId reason else pure none

/- Hand a page to the pool. -/
def writeAt
    (pageId : PageId)
    (raw : PageImage π)
    (reason : String)
    (capture : Bool) : EngineM π Unit := do
  let engine ← get
  if Wal.byteLength raw ≠ engine.pageSize then
    throw (.valueError
      (s!"page {pageId}: refusing to write " ++
        s!"{Wal.byteLength raw} bytes into a " ++
        s!"{engine.pageSize}-byte slot"))
  else
    let intent ← intentFor pageId reason capture
    let stamped ← logChange pageId raw intent
    onPool (BufferPool.store (poolEnv engine.pageSize)
      pageId stamped)

--
-- The Meta Page
--

/- Mutate the live meta page; `writeMeta` persists it. -/
def editMeta (f : MetaPage → MetaPage) : EngineM π Unit :=
  modify fun engine => { engine with
    metaPage := f engine.metaPage }

def writeMeta : EngineM π Unit := do
  let engine ← get
  writeAt metaPageId (.metaPage engine.metaPage)
    "meta page" true

/- Persist in-memory changes to the meta page. -/
def flushMeta : EngineM π Unit :=
  writeMeta

/- Re-read the meta page from the pool into memory. -/
def reloadMeta : EngineM π Unit := do
  let (raw, _) ← fetch metaPageId
  let page ← fromExcept raw.asMeta
  modify fun engine => { engine with metaPage := page }

/-
  Persist the meta page without logging it or going through
  the pool.
-/
def writeMetaDirectly (checkpointLsn : Nat) :
    EngineM π Unit := do
  modify fun engine => { engine with
    metaPage := { engine.metaPage with
      checkpointLsn := checkpointLsn } }
  modify fun engine => { engine with
    files := { engine.files with
      pages := putPage engine.pageSize engine.files.pages
        metaPageId (.metaPage engine.metaPage) }.note
      .metaWritten }
  onPool (BufferPool.invalidate metaPageId)

--
-- Page Access
--

def readRaw (pageId : PageId) :
    EngineM π (PageImage π) := do
  ensureOpen
  checkPageId pageId
  let (raw, _) ← fetch pageId
  return raw

/- A page served from the pool is not verified again. -/
def readPage (pageId : PageId) : EngineM π (Page π) := do
  ensureOpen
  if pageId = metaPageId then
    throw (.valueError
      ("page 0 is the meta page; use Pager.meta or " ++
        "Pager.read_raw(0)"))
  else
    checkPageId pageId
    let engine ← get
    let (raw, cached) ← fetch pageId
    fromExcept (Page.fromBytes pageId raw
      (engine.verifyChecksums && !cached) (!cached))

def writePage
    (pageId : PageId)
    (page : Page π) : EngineM π Unit := do
  ensureOpen
  if pageId = metaPageId then
    throw (.valueError
      "cannot overwrite the meta page with a slotted page")
  else
    checkPageId pageId
    writeAt pageId (.slotted page) page.pageType.reason true

/- Write a before-image back, without capturing one. -/
def restorePage
    (pageId : PageId)
    (image : PageImage π) : EngineM π Unit := do
  ensureOpen
  writeAt pageId image "rollback" false

--
-- Allocation
--

/- A page on the free list, decoded. -/
def readFree (pageId : PageId) : EngineM π (Page π) := do
  let engine ← get
  let (raw, _) ← fetch pageId
  fromExcept (Page.fromBytes pageId raw
    engine.verifyChecksums true)

/- Pop the free list, or take the next id of the file. -/
def takePageId : EngineM π (PageId × Bool) := do
  let engine ← get
  if engine.metaPage.freeListHead ≠ invalidPageId then
    let pageId := engine.metaPage.freeListHead
    let freed ← readFree pageId
    editMeta fun page =>
      { page with freeListHead := freed.nextPageId }
    return (pageId, true)
  else
    let pageId := engine.metaPage.pageCount
    editMeta fun page => { page with pageCount := pageId + 1 }
    return (pageId, false)

/- The hook called by hand: what it answers is dropped. -/
def captureByHand
    (pageId : PageId)
    (reason : String)
    (needed : Bool) : EngineM π Unit := do
  if needed then
    let _ ← beforeWrite pageId reason

/- Whatever is cached for the page is superseded wholesale,
   so its frame is dropped before the page is written. -/
def overwriteAt
    (pageId : PageId)
    (raw : PageImage π)
    (reason : String) : EngineM π Unit := do
  onPool (BufferPool.invalidate pageId)
  writeAt pageId raw reason false

/-
  A fresh page. A recycled one is captured before its frame
  is dropped, and then written without a capture.
-/
def allocatePage (pageType : PageType) :
    EngineM π (PageId × Page π) := do
  ensureOpen
  let (pageId, recycled) ← takePageId
  let engine ← get
  let page ← fromExcept
    (Page.create pageType engine.pageSize)
  captureByHand pageId "recycled from the free list" recycled
  overwriteAt pageId (.slotted page) "allocated"
  writeMeta
  return (pageId, page)

/- Push a page onto the free list. -/
def freePage (pageId : PageId) : EngineM π Unit := do
  ensureOpen
  if pageId = metaPageId then
    throw (.valueError "cannot free the meta page")
  else
    checkPageId pageId
    let _ ← readFree pageId
    let engine ← get
    let blank ← fromExcept
      (Page.create .free engine.pageSize)
    let page : Page π :=
      { blank with
        nextPageId := engine.metaPage.freeListHead }
    captureByHand pageId "freed" true
    overwriteAt pageId (.slotted page) "freed"
    editMeta fun page => { page with freeListHead := pageId }
    writeMeta

--
-- Durability
--

def flushPool : EngineM π Unit := do
  let engine ← get
  onPool (BufferPool.flush (poolEnv engine.pageSize))

/- The log first, then the dirty frames. -/
def sync : EngineM π Unit := do
  ensureOpen
  onFiles (Files.changeLog .logFlushed WriteAheadLog.flush)
  flushPool

def logCommit (transactionId : Nat) : EngineM π Unit := do
  let _ ← onFiles (Files.changeLog .logFlushed
    (WriteAheadLog.commit transactionId))

def logAbort (transactionId : Nat) : EngineM π Unit := do
  let _ ← onFiles (Files.onLog
    (WriteAheadLog.abort transactionId))

/- `Database._stamp_next_xid`, the hook before a checkpoint. -/
def stampNextXid : EngineM π Unit :=
  modify fun engine =>
    if engine.watching then
      { engine with
        metaPage := { engine.metaPage with
          nextXid := engine.transactions.nextId }
        transactions := { engine.transactions with
          frozenXid := engine.transactions.nextId } }
    else engine

/- `WriteAheadLog.checkpoint` with the pager's flush. -/
def checkpointLog : EngineM π Unit := do
  flushPool
  let _ ← onFiles (Files.changeLog .logFlushed
    WriteAheadLog.appendCheckpoint)
  onFiles (Files.changeLog .logTruncated
    WriteAheadLog.truncate)

/-
  Flush every dirty page, then discard the log. The log is
  truncated before the meta page says where it restarts.
-/
def checkpoint : EngineM π Unit := do
  ensureOpen
  stampNextXid
  checkpointLog
  let engine ← get
  writeMetaDirectly engine.files.wal.baseLsn

/- `self._pool.clear(flush=False)` and the file let go. -/
def dropAll : EngineM π Unit := do
  onPool BufferPool.drop
  modify fun engine => { engine with closed := true }

/- `BufferPool.clear`, then the file let go. -/
def closeLog : EngineM π Unit := do
  onFiles (Files.changeLog .logFlushed WriteAheadLog.close)
  flushPool
  dropAll

/- Checkpoint and close. -/
def close : EngineM π Unit := do
  if (← get).closed then
    return
  else
    checkpoint
    closeLog

/- What a crash leaves, reproduced on purpose. -/
def abandon : EngineM π Unit := do
  if (← get).closed then
    return
  else
    onFiles (Files.onLog WriteAheadLog.abandon)
    dropAll

--
-- Recovery
--

/- The LSN a page carries in the file, -1 where none is. -/
def pageLsnOnDisk (pageId : PageId) : EngineM π Int := do
  match (← get).files.pages[pageId]? with
  | some image => return image.lsn
  | none => return -1

/- Write a page image straight to the file. -/
def applyRecoveredPage
    (pageId : PageId)
    (image : PageImage π) : EngineM π Unit := do
  let engine ← get
  if Wal.byteLength image ≠ engine.pageSize then
    throw (.corruptDatabase
      (s!"log record for page {pageId} holds " ++
        s!"{Wal.byteLength image} bytes, but this file uses " ++
        s!"{engine.pageSize}-byte pages"))
  else
    modify fun engine => { engine with
      files := { engine.files with
        pages := putPage engine.pageSize engine.files.pages
          pageId image }.note .pageRecovered }

def recoveryEnv :
    Wal.RecoveryEnv (EStateM EngineError (Engine π))
      (PageImage π) where
  readAll := onFiles (Files.onLog WriteAheadLog.readAll)
  append recordType transactionId pageId after := do
    let _ ← onFiles (Files.onLog
      (WriteAheadLog.append recordType transactionId pageId
        .empty after))
  abort := logAbort
  flush := onFiles
    (Files.changeLog .logFlushed WriteAheadLog.flush)
  readPageLsn := pageLsnOnDisk
  applyPage := applyRecoveredPage

/- `BufferPool.clear`, flushing first. -/
def clearPool : EngineM π Unit := do
  flushPool
  onPool BufferPool.drop

/- Restart the log past everything recovery applied. -/
def restartLog (report : RecoveryReport) :
    EngineM π Unit := do
  flushPool
  let engine ← get
  let base := max report.highestLsn
    engine.files.wal.nextLsn
  reloadMeta
  writeMetaDirectly base
  onFiles (Files.changeLog .logReset
    (WriteAheadLog.reset base))
  clearPool

/- Bring the file up to date with the log. -/
def recover : EngineM π Unit := do
  let report ← Wal.recover recoveryEnv
  modify fun engine => { engine with recovery := report }
  if ¬ report.ran then
    return
  else
    restartLog report

/- Refuse a file shorter than the meta page claims. -/
def checkFileLength : EngineM π Unit := do
  let engine ← get
  let size := engine.files.pages.length * engine.pageSize
  let expected := engine.metaPage.pageCount * engine.pageSize
  if size < expected then
    throw (.corruptDatabase
      (s!"{engine.path} is {size} bytes but the meta page " ++
        s!"claims {engine.metaPage.pageCount} pages of " ++
        s!"{engine.pageSize} bytes ({expected} bytes). The " ++
        "file was truncated or partially written."))

--
-- Opening
--

/- The arguments of `Pager.__init__` and of `Database`. -/
structure Options where
  path : String
  databaseId : String
  pageSize : Nat
  verifyChecksums : Bool
  bufferPoolFrames : Nat
deriving DecidableEq, Repr

/- What is stored under a path when it is opened. -/
structure Stored (π : Type) where
  pages : List (PageImage π)
  records : List (LogRecord (PageImage π))
deriving DecidableEq, Repr

/- An engine over the stored files, nothing read yet. -/
def engineOver
    (options : Options)
    (stored : Stored π)
    (metaPage : MetaPage)
    (pool : BufferPool (PageImage π)) : Engine π where
  path := options.path
  databaseId := options.databaseId
  pool := pool
  files :=
    { pages := stored.pages
      wal := WriteAheadLog.openFile stored.records
        metaPage.checkpointLsn
      history := [] }
  metaPage := metaPage
  pageSize := metaPage.pageSize
  verifyChecksums := options.verifyChecksums
  closed := false
  recovery := RecoveryReport.initial
  watching := false
  transactions := TransactionManager.create 0
  session := "default"

/- `Pager.__init__` up to the opening of the log. -/
def opening
    (options : Options)
    (stored : Stored π) :
    Except EngineError (Engine π) := do
  validatePageSize options.pageSize
  let pool ← BufferPool.create options.pageSize
    options.bufferPoolFrames
  match stored.pages with
  | [] =>
    return engineOver options stored
      (MetaPage.create options.pageSize) pool
  | page :: _ =>
    let metaPage ← page.asMeta
    if options.pageSize ≠ defaultPageSize ∧
        options.pageSize ≠ metaPage.pageSize then
      throw (.corruptDatabase
        (s!"{options.path} was created with " ++
          s!"{metaPage.pageSize}-byte pages; cannot " ++
          s!"reopen it with {options.pageSize}-byte pages"))
    else
      return engineOver options stored metaPage
        { pool with pageSize := metaPage.pageSize }

/- The rest of `Pager.__init__`. -/
def start (existed : Bool) : EngineM π Unit := do
  modify fun engine => { engine with
    files := engine.files.note .opened }
  if existed then
    recover
    checkFileLength
  else
    writeMeta
    sync

end Pager

end Storage

end ChenDB
