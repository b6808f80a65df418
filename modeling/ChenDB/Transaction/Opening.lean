import ChenDB.Transaction.Calls

/-
  Opening a database, crash or no crash: the steps recovery
  takes, and the core that an engine starts its life with.
-/

--
-- The Steps of Recovery
--

namespace ChenDB

namespace Storage

open Wal (LogRecord RecordType RecoveryReport
  WriteAheadLog noTransaction)

variable {π : Type}

namespace Core

/- Nothing is cached. -/
def Uncached (core : Core π) : Prop :=
  core.cache = fun _ => none

/- The meta page re-read and written with the new base, and
   the log restarted there. -/
def restarted
    (core : Core π)
    (metaPage : MetaPage)
    (baseLsn : Nat) : Core π :=
  let written :=
    { core with metaPage := metaPage }.metaWritten baseLsn
  { written with
    files := { written.files with
      wal := written.files.wal.resetAt baseLsn }.note
        .logReset }

/- Everything recovery does, while nothing is cached. -/
inductive Recovers : Core π → Core π → Prop where
  | recovered
      {core : Core π}
      {record : LogRecord (PageImage π)}
      {image : PageImage π} :
      core.Uncached →
      record ∈ core.readable →
      record.recordType = .update →
      (image = record.afterImage ∨
        image = record.beforeImage ∧ record.hasUndo = true) →
      Wal.byteLength image = core.pageSize →
      Recovers core { core with
        files := { core.files with
          pages := putPage core.pageSize core.files.pages
            record.pageId image }.note .pageRecovered }
  | compensated
      {core : Core π}
      {record : LogRecord (PageImage π)} :
      core.Uncached →
      record ∈ core.readable →
      record.recordType = .update →
      record.hasUndo = true →
      Recovers core { core with
        files := { core.files with
          wal := core.files.wal.stage
            (core.files.wal.nextRecord .update
              record.transactionId record.pageId .empty
              record.beforeImage) } }
  | aborted {core : Core π} (transactionId : Nat) :
      core.Uncached →
      Recovers core { core with
        files := { core.files with
          wal := (core.files.wal.stage
            (core.files.wal.endRecord .abort
              transactionId)).forget transactionId } }
  | flushed {core : Core π} :
      core.Uncached →
      Recovers core { core with
        files := { core.files with
          wal := core.files.wal.flushed }.note .logFlushed }
  | restarted
      {core : Core π}
      {image : PageImage π}
      {metaPage : MetaPage}
      {baseLsn : Nat} :
      core.Uncached →
      core.files.pages[metaPageId]? = some image →
      image.asMeta = .ok metaPage →
      core.files.wal.nextLsn ≤ baseLsn →
      Recovers core (core.restarted metaPage baseLsn)

end Core

/- Every step of recovery keeps the property. -/
def Recoverable (J : Core π → Prop) : Prop :=
  ∀ core core', J core → core.Recovers core' → J core'

end Storage

namespace Database

open Library.StateExcept
open Storage
open Storage.Pager (Keeps onFiles)
open Transaction (TransactionManager)
open Wal (LogRecord RecordType RecoveryReport
  WriteAheadLog noTransaction)

variable {π : Type} {J : Core π → Prop}

/- What recovery goes by while it runs. -/
def Replaying
    (J : Core π → Prop)
    (records : List (LogRecord (PageImage π)))
    (core : Core π) : Prop :=
  J core ∧ core.Uncached ∧ Reading records core

variable {image : PageImage π}

theorem applyRecoveredPage_keeps
    (hRecoverable : Recoverable J)
    {records : List (LogRecord (PageImage π))}
    {record : LogRecord (PageImage π)}
    (hRecord : record ∈ records)
    (hUpdate : record.recordType = .update)
    (hImage : image = record.afterImage ∨
      image = record.beforeImage ∧ record.hasUndo = true) :
    Keeps (Replaying J records)
      (Pager.applyRecoveredPage record.pageId image) := by
  unfold Pager.applyRecoveredPage
  refine Triple.read fun engine hReady => ?_
  refine Triple.ite (fun _ => Triple.throw fun _ h =>
    h ▸ hReady) fun hFits => ?_
  refine Triple.modify fun current hSame => ?_
  subst hSame
  rcases hReady with ⟨hGood, hJ, hUncached, hReading⟩
  refine ⟨⟨hGood.sound, hGood.staged, hGood.walOpen,
    hGood.isOpen⟩, ?_, hUncached, hReading⟩
  exact hRecoverable current.core _ hJ
    (.recovered hUncached (hReading record hRecord) hUpdate
      hImage (by simpa [Engine.core] using hFits))

theorem recoveryEnv_keeps
    (hRecoverable : Recoverable J)
    (records : List (LogRecord (PageImage π))) :
    Pager.recoveryEnv.Keeps records
      (Ready (Replaying J records)) where
  append := by
    intro record hRecord hUpdate hUndo
    refine Triple.bind
      (Q := fun _ => Ready (Replaying J records)) ?_
      fun _ => Triple.pure fun _ h => h
    refine (Pager.onLog_keeps
      (fun log => log.stage (log.nextRecord .update
        record.transactionId record.pageId .empty
        record.beforeImage))
      (fun _ hOpen => ⟨_, WriteAheadLog.append_run hOpen
        .update record.transactionId record.pageId .empty
        record.beforeImage⟩)
      (fun _ h => h.stage rfl) (fun _ => rfl)
      fun core hCore => ?_).raises (fun _ _ h => h.elim)
    rcases hCore with ⟨hJ, hUncached, hReading⟩
    exact ⟨hRecoverable core _ hJ (.compensated hUncached
      (hReading record hRecord) hUpdate hUndo), hUncached,
      hReading⟩
  abort := by
    intro transactionId
    refine Triple.bind
      (Q := fun _ => Ready (Replaying J records)) ?_
      fun _ => Triple.pure fun _ h => h
    refine (Pager.onLog_keeps
      (fun log => (log.stage (log.endRecord .abort
        transactionId)).forget transactionId)
      (fun _ hOpen => ⟨_, WriteAheadLog.abort_run hOpen
        transactionId⟩)
      (fun _ h => (h.stage rfl).forget _) (fun _ => rfl)
      fun core hCore => ?_).raises (fun _ _ h => h.elim)
    rcases hCore with ⟨hJ, hUncached, hReading⟩
    exact ⟨hRecoverable core _ hJ
      (.aborted transactionId hUncached), hUncached,
      hReading⟩
  flush := by
    refine (Pager.changeLog_keeps .logFlushed
      WriteAheadLog.flushed
      (fun _ hOpen => ⟨(), WriteAheadLog.flush_run hOpen⟩)
      (fun _ h => h.flushed) WriteAheadLog.flushed_closed
      fun core hCore => ?_).raises (fun _ _ h => h.elim)
    rcases hCore with ⟨hJ, hUncached, hReading⟩
    refine ⟨hRecoverable core _ hJ (.flushed hUncached),
      hUncached, fun record hRecord => ?_⟩
    unfold Core.readable Files.note
    simp only [WriteAheadLog.flushed_baseLsn,
      WriteAheadLog.flushed_file]
    exact mem_scan_append (hReading record hRecord) _
  readPageLsn := by
    intro pageId
    unfold Pager.recoveryEnv Pager.pageLsnOnDisk
    refine Triple.read fun engine hReady => ?_
    split
    all_goals exact Triple.pure fun _ h => h ▸ hReady
  redo := fun record hRecord hUpdate =>
    applyRecoveredPage_keeps hRecoverable hRecord hUpdate
      (.inl rfl)
  undo := fun record hRecord hUpdate hUndo =>
    applyRecoveredPage_keeps hRecoverable hRecord hUpdate
      (.inr ⟨rfl, hUndo⟩)

/- A property and an empty cache. -/
def Opening
    (J : Core π → Prop)
    (core : Core π) : Prop :=
  J core ∧ core.Uncached

/- Only what the file has is cached, and `start` otherwise. -/
def Peeking
    (start core : Core π) : Prop :=
  { core with cache := fun _ => none } = start ∧
    ∀ pageId frame, core.cache pageId = some frame →
      frame.dirty = false ∧
        start.files.pages[pageId]? = some frame.data

theorem peeking_calm (start : Core π) :
    Calm (Peeking start) := by
  rintro core core' ⟨hSame, hClean⟩ hQuiet
  have hFiles : core.files = start.files := by
    have hFiles := congrArg Core.files hSame
    exact hFiles
  cases hQuiet with
  | load hMiss hPage =>
    refine ⟨hSame, fun other frame hFrame => ?_⟩
    simp only [Function.update_apply] at hFrame
    split at hFrame
    · rename_i hOther
      cases hFrame
      rw [hOther, ← hFiles]
      exact ⟨rfl, hPage⟩
    · exact hClean other frame hFrame
  | drop hHeld =>
    refine ⟨hSame, fun other frame hFrame => ?_⟩
    simp only [Function.update_apply] at hFrame
    split at hFrame
    · cases hFrame
    · exact hClean other frame hFrame
  | writeBack hHeld =>
    exact absurd (hClean _ _ hHeld).1 (by simp)
  | clear hAll =>
    exact ⟨hSame, fun other frame hFrame => by
      cases hFrame⟩

/- What a peek shows is what the file has. -/
theorem Peeking.view
    {start core : Core π}
    (hPeeking : Peeking start core)
    {pageId : PageId}
    (hView : core.view pageId = some image) :
    start.files.pages[pageId]? = some image := by
  have hFiles : core.files = start.files := by
    have hFiles := congrArg Core.files hPeeking.1
    exact hFiles
  unfold Core.view at hView
  cases hFrame : core.cache pageId with
  | none =>
    rw [hFrame] at hView
    rw [← hFiles]
    exact hView
  | some frame =>
    rw [hFrame] at hView
    cases hView
    exact (hPeeking.2 pageId frame hFrame).2

/- A pool with nothing dirty let go of. -/
theorem clearPool_spec :
    Triple
      (Ready fun core => J { core with
          cache := fun _ => none } ∧
        ∀ pageId frame, core.cache pageId = some frame →
          frame.dirty = false)
      (Pager.clearPool (π := π))
      (fun _ => Ready (Opening J))
      (fun _ _ => False) := by
  rintro engine ⟨hGood, hJ, hClean⟩
  have hFlush :
      (Pager.flushPool (π := π)).run engine =
        .ok () engine := by
    unfold Pager.flushPool
    rw [EStateM.run_bind, EStateM.run_get]
    simp only [Pager.onPool, run_focus]
    rw [BufferPool.flush_of_clean hClean]
  unfold Pager.clearPool
  rw [EStateM.run_bind, hFlush]
  refine ⟨⟨?_, hGood.staged, hGood.walOpen, hGood.isOpen⟩,
    hJ, rfl⟩
  have hSize := hGood.sound.size
  rw [← hSize]
  exact BufferPool.sound_ofFrames hGood.sound.enough

theorem restartLog_spec
    (hRecoverable : Recoverable J)
    (report : RecoveryReport) :
    Triple (Ready (Opening J)) (Pager.restartLog report)
      (fun _ => Ready (Opening J))
      (fun _ engine => J { engine.core with
        cache := fun _ => none }) := by
  unfold Pager.restartLog
  refine Triple.start fun engine hReady => ?_
  rcases hReady with ⟨hGood, hJ, hUncached⟩
  have hStart : ∀ current, current = engine →
      Ready (Peeking engine.core) current := by
    rintro current rfl
    refine ⟨hGood, ?_, fun pageId frame hFrame => ?_⟩
    · unfold Core.Uncached at hUncached
      rw [← hUncached]
    · rw [hUncached] at hFrame
      cases hFrame
  have hForget : ∀ current : Engine π,
      Peeking engine.core current.core →
        J { current.core with cache := fun _ => none } :=
    fun current hPeeking => hPeeking.1.symm ▸ hJ
  refine Triple.bind
    ((Pager.flushPool_spec (peeking_calm _)).weaken hStart
      (fun _ _ h => h.1) (fun _ _ h => h.elim)) fun _ => ?_
  refine Triple.read fun flushed hFlushed => ?_
  unfold Pager.reloadMeta
  have hWal : flushed.files.wal = engine.files.wal := by
    have hFiles := congrArg Core.files hFlushed.2.1
    exact congrArg Files.wal hFiles
  -- the meta page is read back, then the log restarts
  refine Triple.bind
    (Q := fun _ => Ready fun core => ∃ image metaPage,
      engine.core.files.pages[metaPageId]? = some image ∧
      image.asMeta = .ok metaPage ∧
      core.metaPage = metaPage ∧
      Peeking engine.core { core with
        metaPage := engine.metaPage }) ?_ fun _ => ?_
  · refine Triple.bind
      ((Pager.fetch_spec (peeking_calm engine.core)
        metaPageId).weaken (fun _ h => h ▸ hFlushed)
        (fun _ _ h => h)
        (fun _ current h => hForget current h.2))
      fun found => ?_
    refine Triple.bind
      ((Pager.fromExcept_keeps found.1.asMeta).raises
        (fun _ current h => hForget current h.1.2))
      fun metaPage => ?_
    refine Triple.modify fun current hCurrent => ?_
    rcases hCurrent with ⟨⟨⟨hGood', hPeek⟩, hView⟩, hMeta⟩
    have hSameMeta :
        current.core.metaPage = engine.metaPage :=
      congrArg Core.metaPage hPeek.1
    refine ⟨⟨hGood'.sound, hGood'.staged, hGood'.walOpen,
      hGood'.isOpen⟩, found.1, metaPage,
      hPeek.view hView, hMeta, rfl, ?_, hPeek.2⟩
    rw [← hPeek.1, ← hSameMeta]
    rfl
  · refine Triple.bind
      ((Pager.writeMetaDirectly_spec (max report.highestLsn
          flushed.files.wal.nextLsn)
        (K := fun core => J (({ core with
              cache := fun _ => none
              files := { core.files with
                wal := core.files.wal.resetAt
                  (max report.highestLsn
                    flushed.files.wal.nextLsn)
                }.note .logReset } : Core π)) ∧
            ∀ pageId frame, core.cache pageId = some frame →
              frame.dirty = false) ?_).raises
        (fun _ _ h => h.elim)) fun _ => ?_
    · rintro core ⟨image, metaPage, hPage, hMeta, hSame,
        hPeek⟩
      refine ⟨?_, ?_⟩
      · have hNext : engine.core.files.wal.nextLsn ≤
            max report.highestLsn
              flushed.files.wal.nextLsn := by
          rw [hWal]
          exact Nat.le_max_right _ _
        have hRestarted := hRecoverable _ _ hJ
          (.restarted hUncached hPage hMeta hNext)
        rw [← hPeek.1] at hRestarted
        simpa [Core.restarted, Core.metaWritten, hSame]
          using hRestarted
      · intro pageId frame hFrame
        simp only [Core.metaWritten, Function.update_apply]
          at hFrame
        split at hFrame
        · cases hFrame
        · exact (hPeek.2 pageId frame hFrame).1
    · refine Triple.bind
        ((Pager.changeLog_keeps
          (K := fun core => J { core with
              cache := fun _ => none } ∧
            ∀ pageId frame, core.cache pageId = some frame →
              frame.dirty = false) .logReset
          (fun log => log.resetAt (max report.highestLsn
            flushed.files.wal.nextLsn))
          (fun _ hOpen =>
            ⟨(), WriteAheadLog.reset_run hOpen _⟩)
          (fun _ _ => WriteAheadLog.Staged.resetAt _)
          (fun _ => rfl) fun core hCore => hCore).raises
          (fun _ _ h => h.elim)) fun _ => ?_
      exact clearPool_spec.raises (fun _ _ h => h.elim)

/- What a recovery that returned has found. -/
def Found
    (records : List (LogRecord (PageImage π)))
    (report : RecoveryReport) : Prop :=
  report.highestXid = (Wal.analyse records).highestXid

theorem recover_spec
    (hRecoverable : Recoverable J)
    (records : List (LogRecord (PageImage π))) :
    Triple
      (fun engine => Ready (Opening J) engine ∧
        engine.core.readable = records)
      (Pager.recover (π := π))
      (fun _ engine => Ready (Opening J) engine ∧
        Found records engine.recovery)
      (fun _ engine => J { engine.core with
        cache := fun _ => none }) := by
  unfold Pager.recover
  refine Triple.start fun engine hEngine => ?_
  rcases hEngine with ⟨⟨hGood, hJ, hUncached⟩, hReadable⟩
  have hReadLog := Files.onLog_run
    (WriteAheadLog.readAll_run hGood.walOpen)
  have hRead :
      (Pager.recoveryEnv (π := π)).readAll.run engine =
        .ok (WriteAheadLog.scan engine.files.wal.baseLsn 0
          engine.files.wal.file) engine := by
    unfold Pager.recoveryEnv Pager.onFiles
    simp only
    rw [run_focus, hReadLog]
  have hRecords : (WriteAheadLog.scan
      engine.files.wal.baseLsn 0
        engine.files.wal.file).1 = records := hReadable
  rcases hScan : WriteAheadLog.scan
      engine.files.wal.baseLsn 0 engine.files.wal.file with
    ⟨scanned, torn⟩
  rw [hScan] at hRead hRecords
  simp only at hRecords
  subst hRecords
  by_cases hEmpty : scanned = []
  · subst hEmpty
    rcases Wal.recover_of_empty hRead with
      ⟨report, hRun, hRan, hXid⟩
    rintro current rfl
    rw [EStateM.run_bind, hRun]
    simp only [EStateM.run_bind, EStateM.run_modify, hRan,
      Bool.false_eq_true, not_false_eq_true, ↓reduceIte]
    exact ⟨⟨⟨hGood.sound, hGood.staged, hGood.walOpen,
      hGood.isOpen⟩, hJ, hUncached⟩, hXid⟩
  · have hReplaying :
        Ready (Replaying J scanned) engine := by
      refine ⟨hGood, hJ, hUncached, fun record hRecord => ?_⟩
      rw [hReadable]
      exact hRecord
    refine Triple.bind
      ((Wal.recover_of_records
        (recoveryEnv_keeps hRecoverable scanned) hRead
        hEmpty hReplaying).raises (fun _ current h => ?_))
      fun report => ?_
    · rw [← h.2.2.1]
      exact h.2.1
    · refine Triple.bind
        (Q := fun _ current => Ready (Opening J) current ∧
          report.ran = true ∧
          current.recovery = report ∧
          report.highestXid = (Wal.analyse scanned).highestXid)
        (Triple.modify fun current hCurrent => ?_)
        fun _ => ?_
      · rcases hCurrent with
          ⟨⟨hGood', hJ', hUncached', _⟩, hRan, _, hXid⟩
        exact ⟨⟨⟨hGood'.sound, hGood'.staged,
          hGood'.walOpen, hGood'.isOpen⟩, hJ', hUncached'⟩,
          hRan, rfl, hXid⟩
      · refine Triple.ite (fun hIdle => ?_) fun _ => ?_
        · refine Triple.pure fun current hCurrent => ?_
          exact absurd hCurrent.2.1 hIdle
        · intro current hCurrent
          rcases hCurrent with ⟨hReady, _, hSame, hXid⟩
          have hRest := restartLog_spec hRecoverable report
            current hReady
          have hKept := leaves_restartLog report current
            current ⟨rfl, rfl, rfl, rfl⟩
          cases hRun :
              (Pager.restartLog (π := π) report).run
                current with
          | ok value final =>
            rw [hRun] at hRest hKept
            refine ⟨hRest, ?_⟩
            unfold Found
            rw [hKept.recovery, hSame]
            exact hXid
          | error raised final =>
            rw [hRun] at hRest
            exact hRest

--
-- Opening
--

/- The core over stored files, nothing read yet. -/
def opened
    (stored : Pager.Stored π)
    (metaPage : MetaPage) : Core π where
  cache := fun _ => none
  files :=
    ({ pages := stored.pages
       wal := WriteAheadLog.openFile stored.records
         metaPage.checkpointLsn
       history := [] } : Files π).note .opened
  metaPage := metaPage
  pageSize := metaPage.pageSize
  watching := false
  transactions := TransactionManager.create 0
  session := "default"

/- The meta page the engine goes by when it starts. -/
def Heads
    (stored : Pager.Stored π)
    (metaPage : MetaPage) : Prop :=
  match stored.pages with
  | [] => ∃ pageSize, metaPage = MetaPage.create pageSize
  | page :: _ => page.asMeta = .ok metaPage

/- The database's hooks set, ids starting at the horizon. -/
def installed
    (core : Core π)
    (highestXid : Nat) : Core π :=
  { core with
    watching := true
    transactions := TransactionManager.create
      (max (max core.metaPage.nextXid (highestXid + 1)) 1)
    session := "default" }

/- The highest id in the log that recovery reads. -/
def loggedXid
    (stored : Pager.Stored π)
    (metaPage : MetaPage) : Nat :=
  match stored.pages with
  | [] => 0
  | _ =>
    (Wal.analyse (WriteAheadLog.scan
      metaPage.checkpointLsn 0
        stored.records).1).highestXid

variable {options : Pager.Options} {stored : Pager.Stored π}

theorem opening_spec
    {engine : Engine π}
    (hOpening : Pager.opening options stored = .ok engine) :
    ∃ metaPage frames,
      Heads stored metaPage ∧ minPoolFrames ≤ frames ∧
        engine = Pager.engineOver options stored metaPage
          (BufferPool.ofFrames metaPage.pageSize
            frames) := by
  unfold Pager.opening at hOpening
  rcases ok_of_bind hOpening with ⟨_, _, hAfterSize⟩
  rcases ok_of_bind hAfterSize with ⟨pool, hPool, hRest⟩
  have hEnough :
      minPoolFrames ≤ options.bufferPoolFrames ∧
        pool = BufferPool.ofFrames options.pageSize
          options.bufferPoolFrames := by
    unfold BufferPool.create at hPool
    split at hPool
    · cases hPool
    · cases hPool
      exact ⟨by omega, rfl⟩
  rcases hEnough with ⟨hEnough, rfl⟩
  cases hPages : stored.pages with
  | nil =>
    rw [hPages] at hRest
    cases hRest
    exact ⟨_, _, by simp [Heads, hPages], hEnough, rfl⟩
  | cons page rest =>
    rw [hPages] at hRest
    rcases ok_of_bind hRest with ⟨metaPage, hMeta, hEngine⟩
    split at hEngine
    · cases hEngine
    · cases hEngine
      exact ⟨_, _, by simp [Heads, hPages, hMeta], hEnough, rfl⟩

/- `Database.open` up to the catalog. -/
def boot (existed installs : Bool) : EngineM π Unit := do
  Pager.start existed
  if installs then
    install

/- The core a database is left with when it has opened. -/
def Booted
    (J : Core π → Prop)
    (installs : Bool)
    (highestXid : Nat)
    (core : Core π) : Prop :=
  if installs then
    ∃ bare, J bare ∧ core = installed bare highestXid
  else J core

/- What is left when opening fails. -/
def Failed
    (J : Core π → Prop)
    (engine : Engine π) : Prop :=
  ∃ core, J core ∧ core.files = engine.files

theorem install_spec
    (installs : Bool)
    (highestXid : Nat) :
    Triple
      (fun engine : Engine π => Ready J engine ∧
        engine.recovery.highestXid = highestXid)
      (if installs then install else pure ())
      (fun _ => Ready (Booted J installs highestXid))
      (fun _ => Failed J) := by
  cases installs with
  | true =>
    apply Triple.modify
    intro engine hEngine
    rcases hEngine with ⟨⟨hGood, hJ⟩, hXid⟩
    refine ⟨⟨hGood.sound, hGood.staged, hGood.walOpen,
      hGood.isOpen⟩, engine.core, hJ, ?_⟩
    rw [← hXid]
    rfl
  | false =>
    apply Triple.pure
    intro engine hEngine
    exact hEngine.1

variable {start : Engine π}

theorem create_spec
    (hStable : Stable Allowed J)
    (hUnwatched : start.watching = false) :
    Triple
      (fun engine => Ready J engine ∧ Unmoved start engine)
      (do
        Pager.writeMeta
        Pager.sync)
      (fun _ engine => Ready J engine ∧ Unmoved start engine)
      (fun _ => Failed J) := by
  apply Triple.bind (Q := fun _ engine => Ready J engine ∧
    Unmoved start engine)
  · exact ((Pager.writeMeta_keeps hStable).conj
      (writeMeta_unwatched start hUnwatched)).raises
        (fun _ engine h => ⟨engine.core, h.1.2, rfl⟩)
  · intro _
    exact ((Pager.sync_keeps hStable).conj
      (leaves_sync start)).raises
        (fun _ engine h => ⟨engine.core, h.1.2, rfl⟩)

theorem restore_spec
    (hRecoverable : Recoverable J)
    (hStart : Ready (Opening J) start) :
    Triple (fun engine => engine = start)
      (do
        Pager.recover
        Pager.checkFileLength)
      (fun _ engine => Ready J engine ∧
        engine.recovery.highestXid =
          (Wal.analyse start.core.readable).highestXid)
      (fun _ => Failed J) := by
  apply Triple.bind
    (Q := fun _ engine => Ready (Opening J) engine ∧
      Found start.core.readable engine.recovery)
  · apply (recover_spec hRecoverable
      start.core.readable).weaken
    · intro engine hSame
      rw [hSame]
      exact ⟨hStart, rfl⟩
    · exact fun _ _ h => h
    · exact fun _ engine h => ⟨_, h, rfl⟩
  intro _
  unfold Pager.checkFileLength
  apply Triple.read
  intro engine hEngine
  rcases hEngine with ⟨⟨hGood, hJ, _⟩, hFound⟩
  apply Triple.ite
  · intro _
    apply Triple.throw
    intro current hSame
    rw [hSame]
    exact ⟨engine.core, hJ, rfl⟩
  · intro _
    apply Triple.pure
    intro current hSame
    rw [hSame]
    exact ⟨⟨hGood, hJ⟩, hFound⟩

/- Opening, from what holds of the stored files. -/
theorem boot_spec
    (hStable : Stable Allowed J)
    (hRecoverable : Recoverable J)
    {metaPage : MetaPage}
    {frames : Nat}
    (hEnough : minPoolFrames ≤ frames)
    (hOpened : J (opened stored metaPage))
    (installs : Bool) :
    Triple
      (fun engine => engine =
        Pager.engineOver options stored metaPage
          (BufferPool.ofFrames metaPage.pageSize frames))
      (boot (!stored.pages.isEmpty) installs)
      (fun _ => Ready (Booted J installs
        (loggedXid stored metaPage)))
      (fun _ => Failed J) := by
  let start : Engine π :=
    { Pager.engineOver options stored metaPage
        (BufferPool.ofFrames metaPage.pageSize frames) with
      files := (Pager.engineOver options stored metaPage
        (BufferPool.ofFrames metaPage.pageSize
          frames)).files.note .opened }
  have hReady : Ready (Opening J) start := by
    refine ⟨⟨BufferPool.sound_ofFrames hEnough, ?_, rfl,
      rfl⟩, hOpened, rfl⟩
    exact WriteAheadLog.openFile_staged _ _
  unfold boot
  refine Triple.bind ?_ fun _ =>
    install_spec installs (loggedXid stored metaPage)
  unfold Pager.start
  apply Triple.bind (Q := fun _ engine => engine = start)
  · apply Triple.modify
    intro engine hEngine
    rw [hEngine]
  · intro _
    cases hPages : stored.pages with
    | nil =>
      have hUnwatched : start.watching = false := rfl
      apply (create_spec hStable hUnwatched).weaken
      · intro engine hSame
        rw [hSame]
        exact ⟨⟨hReady.1, hReady.2.1⟩, ⟨rfl, rfl, rfl, rfl⟩⟩
      · intro _ engine hEngine
        refine ⟨hEngine.1, ?_⟩
        rw [hEngine.2.recovery]
        simp [loggedXid, hPages, start, Pager.engineOver,
          RecoveryReport.initial]
      · exact fun _ _ h => h
    | cons page rest =>
      apply (restore_spec hRecoverable hReady).weaken
      · exact fun _ h => h
      · intro _ engine hEngine
        refine ⟨hEngine.1, ?_⟩
        rw [hEngine.2]
        simp [loggedXid, hPages]
        rfl
      · exact fun _ _ h => h

end Database

end ChenDB
