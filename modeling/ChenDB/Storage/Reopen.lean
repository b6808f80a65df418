import ChenDB.Storage.Meta
import ChenDB.Wal.LogFile
import ChenDB.Wal.RecoveryRun

/-
  Opening an existing database file: the meta page is read,
  the log opened at its checkpoint LSN, recovery run against
  the bytes of the file, and the log restarted if it ran.
-/

--
-- The Files While Opening
--

namespace ChenDB

namespace Storage

open Library Library.Struct Wal

/- The pager's state while it opens an existing file. No
   page is in the buffer pool yet. -/
structure Reopening where
  path : String
  data : Bytes
  wal : LogFile
  metaPage : MetaPage
  pageSize : Nat
  verifyChecksums : Bool

abbrev ReopenM := EStateM EngineError Reopening

namespace Reopening

def withLog
    (pager : Reopening)
    (log : WriteAheadLog Bytes) : Reopening :=
  { pager with wal := pager.wal.withLog log }

def onLog {α : Type} (program : LogM Bytes α) :
    ReopenM α :=
  StateExcept.focus (fun pager => pager.wal.log) withLog
    program

end Reopening

/- `read_lsn`: the LSN of an encoded slotted page. -/
def readLsn (raw : Bytes) : Nat :=
  if raw.length < 24 then 0 else decode (slice raw 4 12)

/- `_page_lsn_on_disk`: -1 for a page past the end. -/
def pageLsnOnDisk (pageId : PageId) : ReopenM Int := do
  let pager ← get
  let needed := (pageId + 1) * pager.pageSize
  if pager.data.length < needed then
    return -1
  else
    let raw := slice pager.data (pageId * pager.pageSize) needed
    return if pageId = metaPageId then
      (readMetaLsn raw : Int) else (readLsn raw : Int)

/- `_extend_file_to`: zeros up to this many pages. -/
def extendFileTo (pageCount : Nat) : ReopenM Unit :=
  modify fun pager =>
    let needed := pageCount * pager.pageSize
    { pager with
      data := pager.data ++
        List.replicate (needed - pager.data.length) 0 }

/- `_apply_recovered_page`: straight to the file. -/
def applyRecoveredPage
    (pageId : PageId)
    (image : Bytes) : ReopenM Unit := do
  let pager ← get
  if image.length ≠ pager.pageSize then
    throw (.corruptDatabase
      (s!"log record for page {pageId} holds " ++
        s!"{image.length} bytes, but this file uses " ++
        s!"{pager.pageSize}-byte pages"))
  else
    extendFileTo (pageId + 1)
    modify fun pager =>
      { pager with
        data := overwriteAt pager.data
          (pageId * pager.pageSize) image }

/- The log and callbacks `_recover` hands to recovery. -/
def reopenEnv : RecoveryEnv ReopenM Bytes where
  readAll := do return (← get).wal.readAll
  append recordType transactionId pageId after := do
    let _ ← Reopening.onLog
      (WriteAheadLog.append recordType transactionId pageId
        ByteImage.empty after)
  abort transactionId := do
    let _ ← Reopening.onLog
      (WriteAheadLog.abort transactionId)
  flush := Reopening.onLog WriteAheadLog.flush
  readPageLsn := pageLsnOnDisk
  applyPage := applyRecoveredPage

/- `reload_meta` through the pool, which holds nothing and
   so reads the page from the file. -/
def reloadMetaFromDisk : ReopenM Unit := do
  let pager ← get
  let raw := slice pager.data 0 pager.pageSize
  if raw.length ≠ pager.pageSize then
    throw (.corruptDatabase
      (s!"short read on page 0: got {raw.length} of " ++
        s!"{pager.pageSize} bytes"))
  else
    match MetaPage.fromBytes pager.verifyChecksums raw with
    | .error raised => throw raised
    | .ok page => set { pager with metaPage := page }

/- `_write_meta_directly`, around the log and the pool. -/
def writeMetaDirectly (checkpointLsn : Nat) :
    ReopenM Unit :=
  modify fun pager =>
    let page :=
      { pager.metaPage with checkpointLsn := checkpointLsn }
    { pager with
      metaPage := page
      data := overwriteAt pager.data 0 page.toBytes }

/- `Pager._recover`. -/
def recoverFiles : ReopenM Unit := do
  let report ← recover reopenEnv
  if report.ran = false then
    return
  else
    let base := max report.highestLsn (← get).wal.log.nextLsn
    reloadMetaFromDisk
    writeMetaDirectly base
    modify fun pager =>
      { pager with wal := pager.wal.reset base }

/- `_check_file_length`: shorter than claimed is refused. -/
def checkFileLength : ReopenM Unit := do
  let pager ← get
  let expected := pager.metaPage.pageCount * pager.pageSize
  if pager.data.length < expected then
    throw (.corruptDatabase
      (s!"{pager.path} is {pager.data.length} bytes but the " ++
        s!"meta page claims {pager.metaPage.pageCount} pages of " ++
        s!"{pager.pageSize} bytes ({expected} bytes). The file was " ++
        s!"truncated or partially written."))

/- `Pager.__init__` on a file that exists and is not empty,
   with the log file beside it. -/
def reopen
    (path : String)
    (requestedPageSize : Nat)
    (verifyChecksums : Bool)
    (data log : Bytes) :
    Except EngineError Reopening :=
  match MetaPage.fromBytes verifyChecksums
      (data.take defaultPageSize) with
  | .error raised => .error raised
  | .ok page =>
    if requestedPageSize ≠ defaultPageSize ∧
        requestedPageSize ≠ page.pageSize then
      .error (.corruptDatabase
        (s!"{path} was created with {page.pageSize}-byte " ++
          s!"pages; cannot reopen it with {requestedPageSize}-byte pages"))
    else
      let opening : Reopening :=
        { path := path
          data := data
          wal := LogFile.openAt log page.checkpointLsn
          metaPage := page
          pageSize := page.pageSize
          verifyChecksums := verifyChecksums }
      match (do
          recoverFiles
          checkFileLength : ReopenM Unit).run opening with
      | .ok _ pager => .ok pager
      | .error raised _ => .error raised

--
-- What Opening Leaves of the Log
--

section Spec

open Library.StateExcept

/- Recovery never closes the log it reads. -/
theorem reopenEnv_applyPage
    (pageId : PageId)
    (image : Bytes) :
    Triple (fun pager => pager.wal.log.closed = false)
      (reopenEnv.applyPage pageId image)
      (fun _ pager => pager.wal.log.closed = false)
      (fun _ pager => pager.wal.log.closed = false) := by
  apply Triple.read
  intro pager hOpen
  apply Triple.ite
  · intro _
    apply Triple.throw
    rintro _ rfl
    exact hOpen
  · intro _
    rintro _ rfl
    exact hOpen

theorem reopenEnv_keeps
    (records : List (LogRecord Bytes)) :
    reopenEnv.Keeps records
      (fun pager => pager.wal.log.closed = false) where
  append record _ _ _ := by
    intro pager hOpen
    simp [reopenEnv, Reopening.onLog,
      WriteAheadLog.append_run hOpen, Reopening.withLog,
      LogFile.withLog, hOpen]
  abort transactionId := by
    intro pager hOpen
    simp [reopenEnv, Reopening.onLog,
      WriteAheadLog.abort_run hOpen, Reopening.withLog,
      LogFile.withLog, WriteAheadLog.forget, hOpen]
  flush := by
    intro pager hOpen
    simp [reopenEnv, Reopening.onLog,
      WriteAheadLog.flush_run hOpen, Reopening.withLog,
      LogFile.withLog, hOpen]
  readPageLsn pageId := by
    apply Triple.read
    intro pager hOpen
    apply Triple.ite
    · intro _
      apply Triple.pure
      rintro _ rfl
      exact hOpen
    · intro _
      apply Triple.pure
      rintro _ rfl
      exact hOpen
  redo record _ _ :=
    reopenEnv_applyPage record.pageId record.afterImage
  undo record _ _ _ :=
    reopenEnv_applyPage record.pageId record.beforeImage

theorem reopenEnv_readAll_run (pager : Reopening) :
    reopenEnv.readAll.run pager =
      .ok pager.wal.readAll pager := rfl

/- The meta page is read without touching the log. -/
theorem reloadMetaFromDisk_keeps
    (P : LogFile → Prop) :
    Triple (fun pager => P pager.wal) reloadMetaFromDisk
      (fun _ pager => P pager.wal) (fun _ _ => True) := by
  apply Triple.read
  intro pager hWal
  apply Triple.ite
  · intro _
    exact Triple.throw (fun _ _ => trivial)
  · intro _
    split
    · exact Triple.throw (fun _ _ => trivial)
    · apply Triple.set
      intro _ _
      exact hWal

theorem checkFileLength_keeps
    (P : LogFile → Prop) :
    Triple (fun pager => P pager.wal) checkFileLength
      (fun _ pager => P pager.wal) (fun _ _ => True) := by
  apply Triple.read
  intro pager hWal
  apply Triple.ite
  · intro _
    exact Triple.throw (fun _ _ => trivial)
  · intro _
    apply Triple.pure
    rintro _ rfl
    exact hWal

/- The log is a fresh stream over an empty file. -/
def Restarted (wal : LogFile) : Prop :=
  wal.leftover = [] ∧ wal.log.closed = false ∧
    wal.log.file = [] ∧
    wal.log.Placed wal.log.baseLsn

theorem restarted_reset
    (wal : LogFile)
    (hOpen : wal.log.closed = false)
    (baseLsn : Nat) :
    Restarted (wal.reset baseLsn) :=
  ⟨rfl, hOpen, rfl,
    ⟨rfl, trivial, fun _ hTail => by cases hTail⟩,
    trivial, rfl⟩

/-
  Recovery that found no whole record leaves the log file as
  it was; otherwise the log starts again, empty.
-/
theorem recoverFiles_spec
    (pager : Reopening)
    (hOpen : pager.wal.log.closed = false) :
    Triple (fun start => start = pager) recoverFiles
      (fun _ final =>
        if pager.wal.readAll.1 = [] then
          final.wal = pager.wal
        else Restarted final.wal)
      (fun _ _ => True) := by
  by_cases hEmpty : pager.wal.readAll.1 = []
  · simp only [if_pos hEmpty]
    have hRead : reopenEnv.readAll.run pager =
        .ok ([], pager.wal.readAll.2) pager := by
      rw [reopenEnv_readAll_run, ← hEmpty]
    rcases recover_of_empty hRead with ⟨report, hRun, hRan, -⟩
    intro start hStart
    subst hStart
    unfold recoverFiles
    rw [EStateM.run_bind, hRun]
    simp [hRan]
  · simp only [if_neg hEmpty]
    have hRecover := recover_of_records (reopenEnv_keeps _)
      (reopenEnv_readAll_run pager) hEmpty hOpen
    unfold recoverFiles
    refine Triple.bind (hRecover.raises
      (fun _ _ _ => trivial)) ?_
    intro report
    apply Triple.assume
    intro hReport
    rw [if_neg (by simp [hReport.1])]
    apply Triple.read
    intro recovered hLog
    apply Triple.bind
    · apply (reloadMetaFromDisk_keeps
        (fun wal => wal.log.closed = false)).weaken
      · rintro _ rfl
        exact hLog
      · intro _ _ h
        exact h
      · intro _ _ h
        exact h
    · intro _ reloaded hReloaded
      exact restarted_reset _ hReloaded _

theorem openAt_readAll
    (raw : Bytes)
    (baseLsn : Nat) :
    (LogFile.openAt raw baseLsn).readAll =
      readAllBytes baseLsn raw := by
  unfold LogFile.readAll LogFile.raw
  change readAllBytes baseLsn (raw ++ encodeAll []) = _
  unfold encodeAll
  rw [List.flatMap_nil, List.append_nil]

/- What an opened file's log is, from the bytes it held. -/
theorem reopen_spec
    {path : String}
    {requestedPageSize : Nat}
    {verifyChecksums : Bool}
    {data log : Bytes}
    {pager : Reopening}
    {page : MetaPage}
    (hReopen : reopen path requestedPageSize
      verifyChecksums data log = .ok pager)
    (hMeta : MetaPage.fromBytes verifyChecksums
      (data.take defaultPageSize) = .ok page) :
    if (readAllBytes page.checkpointLsn log).1 = [] then
      pager.wal = LogFile.openAt log page.checkpointLsn
    else Restarted pager.wal := by
  unfold reopen at hReopen
  rw [hMeta] at hReopen
  simp only at hReopen
  split at hReopen
  · cases hReopen
  · split at hReopen
    · rename_i _ _ final hRun
      cases hReopen
      have hRecover := recoverFiles_spec
        { path := path
          data := data
          wal := LogFile.openAt log page.checkpointLsn
          metaPage := page
          pageSize := page.pageSize
          verifyChecksums := verifyChecksums } rfl
      simp only [openAt_readAll] at hRecover
      have hBoth := hRecover.bind fun _ =>
        checkFileLength_keeps fun wal =>
          if (readAllBytes page.checkpointLsn log).1 = []
          then wal = LogFile.openAt log page.checkpointLsn
          else Restarted wal
      exact hBoth.of_ok rfl hRun
    · cases hReopen

end Spec

--
-- Stranded Records
--

/-
  Whatever is logged from here on, each record that reaches
  the file is read when it is opened again at this base.
  Fields too wide for `to_bytes` raise and are left out.
-/
def NothingStranded (wal : LogFile) : Prop :=
  ∀ calls final,
    (runCalls calls).run wal.log = .ok () final →
      (∀ record ∈ final.file, record.Encodable) →
        ∀ record ∈ final.file,
          record ∈
            (LogFile.openAt (wal.withLog final).raw
              wal.log.baseLsn).readAll.1

/- Over an empty file nothing is stranded. -/
theorem nothingStranded_of_restarted
    {wal : LogFile}
    (hRestarted : Restarted wal) :
    NothingStranded wal := by
  rcases hRestarted with ⟨hEmpty, hOpen, -, hPlaced⟩
  intro calls final hRun hEncodable record hMem
  rcases runCalls_placed calls hOpen hPlaced with
    ⟨hCalls, hFinal, hBase⟩
  rw [hRun] at hCalls
  cases hCalls
  have hRaw : (wal.withLog (callsAfter wal.log calls)).raw =
      encodeAll (callsAfter wal.log calls).file := by
    unfold LogFile.raw
    change wal.leftover ++ _ = _
    rw [hEmpty]
    rfl
  rw [openAt_readAll, hRaw,
    readAllBytes_encodeAll hFinal.run hEncodable]
  exact hMem

/- The log as it stands behind bytes found on opening. -/
theorem openAt_placed
    (raw : Bytes)
    (baseLsn : Nat) :
    (LogFile.openAt raw baseLsn).log.Placed
      (baseLsn + raw.length) where
  staged := ⟨rfl, trivial, fun _ hTail => by cases hTail⟩
  run := trivial
  flushed := rfl

variable {log : Bytes}

/- Behind something undecodable the first one is lost. -/
theorem stranded_of_torn
    {baseLsn : Nat}
    (hNonempty : log ≠ [])
    (hTorn : decodeHead log baseLsn = none)
    (hRoom : baseLsn + log.length < 2 ^ 64) :
    ¬ NothingStranded (LogFile.openAt log baseLsn) := by
  intro hNothing
  have hPlaced := openAt_placed log baseLsn
  rcases runCalls_placed [.commit 1] rfl hPlaced with ⟨hRun, -⟩
  let wal := LogFile.openAt log baseLsn
  let record := wal.log.endRecord .commit 1
  have hFile : (callsAfter wal.log [.commit 1]).file =
      [record] := by
    change ((wal.log.stage record).flushed.forget 1).file =
      [record]
    exact WriteAheadLog.flushed_file _
  have hLsn : record.lsn = baseLsn + log.length := rfl
  have hEncodable : record.Encodable := by
    refine ⟨?_, ?_, ?_, ?_, ?_, ?_⟩
    · rw [hLsn]
      exact hRoom
    · change 0 < 2 ^ 64
      decide
    · change 1 < 2 ^ 64
      decide
    · change 0 < 2 ^ 32
      decide
    · change 0 ≤ maxImageBytes
      exact Nat.zero_le _
    · change 0 ≤ maxImageBytes
      exact Nat.zero_le _
  have hRead := hNothing _ _ hRun
    (by
      rw [hFile]
      intro found hFound
      rw [List.mem_singleton.mp hFound]
      exact hEncodable) record
    (by
      rw [hFile]
      exact List.mem_singleton_self record)
  rw [openAt_readAll] at hRead
  exact not_mem_readAllBytes hNonempty hTorn _ hLsn hRead

/-
  After an existing file has been opened, no later record is
  stranded exactly when the log was empty or started with a
  whole record, which makes recovery run and truncate it, or
  when no further LSN fits its field at all.
-/
theorem nothingStranded_iff
    {path : String}
    {requestedPageSize : Nat}
    {verifyChecksums : Bool}
    {data log : Bytes}
    {pager : Reopening}
    {page : MetaPage}
    (hReopen : reopen path requestedPageSize
      verifyChecksums data log = .ok pager)
    (hMeta : MetaPage.fromBytes verifyChecksums
      (data.take defaultPageSize) = .ok page) :
    NothingStranded pager.wal ↔
      log = [] ∨
        (decodeRecord log 0 page.checkpointLsn).isSome ∨
        2 ^ 64 ≤ page.checkpointLsn + log.length := by
  have hSpec := reopen_spec hReopen hMeta
  have hHead :
      decodeRecord log 0 page.checkpointLsn =
        decodeHead log page.checkpointLsn := rfl
  rw [hHead]
  by_cases hNone :
      (readAllBytes page.checkpointLsn log).1 = []
  · rw [if_pos hNone] at hSpec
    rw [hSpec]
    rcases (readAllBytes_eq_nil_iff _ _).mp hNone with
      rfl | hTorn
    · refine ⟨fun _ => .inl rfl, fun _ => ?_⟩
      apply nothingStranded_of_restarted
      exact ⟨rfl, rfl, rfl, openAt_placed [] _⟩
    · rw [hTorn]
      constructor
      · intro hNothing
        by_contra hOther
        rw [not_or, not_or, Nat.not_le] at hOther
        exact stranded_of_torn hOther.1 hTorn hOther.2.2
          hNothing
      · rintro (rfl | hSome | hFull)
        · apply nothingStranded_of_restarted
          exact ⟨rfl, rfl, rfl, openAt_placed [] _⟩
        · cases hSome
        · -- Every record would start past the last LSN.
          intro calls final hRun hEncodable record hMem
          rcases runCalls_placed calls rfl
              (openAt_placed log page.checkpointLsn) with
            ⟨hCalls, hFinal, -⟩
          rw [hRun] at hCalls
          cases hCalls
          have hStart := (hFinal.run.mem_bounds hMem).1
          have hFits := (hEncodable record hMem).lsn
          omega
  · rw [if_neg hNone] at hSpec
    refine ⟨fun _ => ?_,
      fun _ => nothingStranded_of_restarted hSpec⟩
    right
    left
    rw [readAllBytes_eq_nil_iff, not_or] at hNone
    exact Option.ne_none_iff_isSome.mp hNone.2

/- The file of a database that was only ever created. -/
def newFile : Bytes :=
  (MetaPage.create defaultPageSize).toBytes

theorem newFile_meta :
    MetaPage.fromBytes true
        (newFile.take defaultPageSize) =
      .ok (MetaPage.create defaultPageSize) := by
  have hDecoded :
      (MetaPage.fromBytes true
          (newFile.take defaultPageSize)).toOption =
        some (MetaPage.create defaultPageSize) := by
    decide +kernel
  revert hDecoded
  cases MetaPage.fromBytes true
      (newFile.take defaultPageSize) with
  | error raised =>
    intro hDecoded
    cases hDecoded
  | ok page =>
    intro hDecoded
    exact congrArg Except.ok (Option.some.inj hDecoded)

/- A whole record, and the first byte of another. -/
def commitThenTorn : Bytes :=
  (⟨0, 0, 1, .commit, 0, [], []⟩ : LogRecord Bytes).toBytes ++
    [0]

/- A created file opens again beside either torn log. -/
theorem reopen_newFile
    (hLog : log = commitThenTorn ∨ log = [0]) :
    ∃ pager,
      reopen "db" defaultPageSize true newFile log =
        .ok pager := by
  have hOpens :
      (reopen "db" defaultPageSize true newFile
        log).toOption.isSome = true := by
    rcases hLog with rfl | rfl
    · decide +kernel
    · decide +kernel
  revert hOpens
  cases reopen "db" defaultPageSize true newFile log with
  | error raised =>
    intro hOpens
    cases hOpens
  | ok pager =>
    intro _
    exact ⟨pager, rfl⟩

/- Behind a whole first record nothing is stranded. -/
theorem nothingStranded_iff_commit :
    ∃ pager,
      reopen "db" defaultPageSize true newFile
        commitThenTorn = .ok pager ∧
      NothingStranded pager.wal := by
  rcases reopen_newFile (.inl rfl) with ⟨pager, hReopen⟩
  refine ⟨pager, hReopen, ?_⟩
  exact (nothingStranded_iff hReopen newFile_meta).mpr
    (.inr (.inl (by decide +kernel)))

/-
  One byte of a torn first record is enough: the file opens,
  and a commit logged after that is never read again.
-/
theorem stranded_behind_torn_record :
    ∃ pager,
      reopen "db" defaultPageSize true newFile [0] = .ok pager ∧
      ¬ NothingStranded pager.wal := by
  rcases reopen_newFile (.inr rfl) with ⟨pager, hReopen⟩
  refine ⟨pager, hReopen, ?_⟩
  have hSpec := reopen_spec hReopen newFile_meta
  have hTorn : decodeHead [0] 0 = none := by
    decide
  have hNone :
      (readAllBytes (MetaPage.create
        defaultPageSize).checkpointLsn [0]).1 = [] :=
    (readAllBytes_eq_nil_iff _ _).mpr (.inr hTorn)
  rw [if_pos hNone] at hSpec
  rw [hSpec]
  exact stranded_of_torn (by decide) hTorn (by decide)

end Storage

end ChenDB
