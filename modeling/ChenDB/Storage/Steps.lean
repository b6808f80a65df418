import Mathlib.Logic.Function.Basic
import ChenDB.Storage.Pager
import ChenDB.Wal.Stream

/-
  The engine seen through its pool: what is cached is a map,
  and the pool may read a page in, drop a clean one or write
  a dirty one back whenever it likes. Every pager operation
  is a run of the steps listed here.
-/

--
-- The Abstract State
--

namespace ChenDB

namespace Storage

open Library.StateExcept
open Transaction (TransactionManager)
open Wal (LogRecord RecordType WriteAheadLog noTransaction)

variable {π : Type}
variable {α : Type}

structure Core (π : Type) where
  cache : PageId → Option (Frame (PageImage π))
  files : Files π
  metaPage : MetaPage
  pageSize : Nat
  watching : Bool
  transactions : TransactionManager (PageImage π)
  session : String

def Engine.core (engine : Engine π) : Core π where
  cache := engine.pool.cached
  files := engine.files
  metaPage := engine.metaPage
  pageSize := engine.pageSize
  watching := engine.watching
  transactions := engine.transactions
  session := engine.session

/- The files after the pool wrote a page back. -/
def Files.writtenBack
    (files : Files π)
    (pageSize : Nat)
    (pageId : PageId)
    (image : PageImage π) : Files π :=
  let logged :=
    { files with
      wal := if image.lsn > files.wal.flushedLsn then
        files.wal.flushed else files.wal }.note .logFlushed
  { logged with
    pages := putPage pageSize files.pages pageId
      image }.note
    (.wroteBack pageId image files.wal.flushedLsn
      (!files.wal.buffer.isEmpty))

namespace Core

/- What a reader of the page gets. -/
def view
    (core : Core π)
    (pageId : PageId) : Option (PageImage π) :=
  match core.cache pageId with
  | some frame => some frame.data
  | none => core.files.pages[pageId]?

/- What the pool does by itself. -/
inductive Quiet : Core π → Core π → Prop where
  | load {core pageId image} :
      core.cache pageId = none →
      core.files.pages[pageId]? = some image →
      Quiet core { core with
        cache := Function.update core.cache pageId
          (some ⟨pageId, image, false⟩) }
  | drop {core pageId image} :
      core.cache pageId = some ⟨pageId, image, false⟩ →
      Quiet core { core with
        cache := Function.update core.cache pageId none }
  | writeBack {core pageId image} :
      core.cache pageId = some ⟨pageId, image, true⟩ →
      Quiet core { core with
        cache := Function.update core.cache pageId
          (some ⟨pageId, image, false⟩)
        files := core.files.writtenBack core.pageSize pageId
          image }
  | clear {core} :
      (∀ pageId frame, core.cache pageId = some frame →
        frame.dirty = false) →
      Quiet core { core with cache := fun _ => none }

/-
  What the write hook answers: the transaction to file the
  change under, and the image to put back when this is its
  first write to the page.
-/
inductive Intends
    (core : Core π)
    (pageId : PageId)
    (reason : String) :
    Core π → Nat → PageImage π → Prop where
  | outside :
      (core.watching = false ∨
        core.transactions.activeIn core.session = none) →
      Intends core pageId reason core noTransaction .empty
  | again {transaction} :
      core.watching = true →
      core.transactions.activeIn core.session =
        some transaction →
      transaction.undo.has pageId = true →
      Intends core pageId reason core
        transaction.transactionId .empty
  | first {transaction image} :
      core.watching = true →
      core.transactions.activeIn core.session =
        some transaction →
      transaction.undo.has pageId = false →
      core.view pageId = some image →
      Intends core pageId reason
        { core with
          transactions := core.transactions.captureIn
            core.session pageId image reason }
        transaction.transactionId image

/- The record a change is logged as. -/
def changeRecord
    (core : Core π)
    (pageId : PageId)
    (transactionId : Nat)
    (before raw : PageImage π) :
    LogRecord (PageImage π) :=
  core.files.wal.updateRecord transactionId pageId before
    raw.stamp

/- What a write is filed under, captured or not. -/
def Answers
    (core : Core π)
    (pageId : PageId)
    (reason : String)
    (capture : Bool)
    (core' : Core π)
    (transactionId : Nat)
    (before : PageImage π) : Prop :=
  if capture then
    core.Intends pageId reason core' transactionId before
  else
    core' = core ∧ transactionId = noTransaction ∧
      before = .empty

/- The state after a change was logged and buffered. -/
def logged
    (core : Core π)
    (pageId : PageId)
    (transactionId : Nat)
    (before raw : PageImage π) : Core π :=
  let record :=
    core.changeRecord pageId transactionId before raw
  { core with
    files := { core.files with
      wal := core.files.wal.updated transactionId pageId
        before raw.stamp }
    cache := Function.update core.cache pageId
      (some ⟨pageId, raw.stamp record.lsn, true⟩)
    metaPage :=
      if pageId = metaPageId then
        { core.metaPage with lsn := record.lsn }
      else core.metaPage }

/- The records the log hands back when it is read. -/
def readable (core : Core π) :
    List (LogRecord (PageImage π)) :=
  (WriteAheadLog.scan core.files.wal.baseLsn 0
    core.files.wal.file).1

/-
  Where the image of a change comes from. `Allowed` says
  which pages the engine's callers write.
-/
inductive Writes
    (Allowed : PageId → Page π → Prop)
    (core : Core π)
    (pageId : PageId) : PageImage π → Prop where
  | metaPage :
      pageId = metaPageId →
      Writes Allowed core pageId (.metaPage core.metaPage)
  | page {page} :
      Allowed pageId page →
      Writes Allowed core pageId (.slotted page)
  | blank {page} :
      page.slots = [] →
      Writes Allowed core pageId (.slotted page)
  | undone {transaction record} :
      transaction ∈ core.transactions.running →
      record ∈ transaction.undo.records →
      record.pageId = pageId →
      Writes Allowed core pageId record.beforeImage
  | replayed {record} :
      record ∈ core.readable →
      record.hasUndo = true →
      record.pageId = pageId →
      Writes Allowed core pageId record.beforeImage

/- What may happen to the open transactions. -/
inductive Managed
    (manager : TransactionManager (PageImage π)) :
    TransactionManager (PageImage π) → Prop where
  | begun {manager' implicit session isolation} :
      manager.begin implicit session isolation = .ok manager' →
      Managed manager manager'
  | retired {session} :
      Managed manager (manager.retire session)
  | updated {session f hSame} :
      (∀ transaction, (f transaction).undo = transaction.undo) →
      Managed manager (manager.updateIn session f hSame)

/- The meta page written straight to the file. -/
def metaWritten
    (core : Core π)
    (checkpointLsn : Nat) : Core π :=
  let metaPage :=
    { core.metaPage with checkpointLsn := checkpointLsn }
  { core with
    files := { core.files with
      pages := putPage core.pageSize core.files.pages
        metaPageId (.metaPage metaPage) }.note .metaWritten
    metaPage := metaPage
    cache := Function.update core.cache metaPageId none }

/- The log truncated, then the meta page saying so. -/
def checkpointed (core : Core π) : Core π :=
  { core with
    files := { core.files with
      wal := core.files.wal.truncated }.note
        .logTruncated }.metaWritten
    core.files.wal.truncated.baseLsn

/- Everything an open engine does. -/
inductive Step
    (Allowed : PageId → Page π → Prop) :
    Core π → Core π → Prop where
  | quiet {core core'} :
      core.Quiet core' → Step Allowed core core'
  | intended
      {core core' pageId reason transactionId before} :
      core.Intends pageId reason core' transactionId
        before →
      Step Allowed core core'
  | changed
      (reason : String)
      (capture : Bool)
      {core core' pageId transactionId before raw} :
      core.Answers pageId reason capture core' transactionId
        before →
      core'.Writes Allowed pageId raw →
      Wal.byteLength raw = core.pageSize →
      Step Allowed core
        (core'.logged pageId transactionId before raw)
  | edited {core : Core π} {metaPage : MetaPage} :
      metaPage.lsn = core.metaPage.lsn →
      metaPage.checkpointLsn = core.metaPage.checkpointLsn →
      metaPage.nextXid = core.metaPage.nextXid →
      metaPage.pageSize = core.metaPage.pageSize →
      Step Allowed core { core with metaPage := metaPage }
  | reloaded {core : Core π} {image metaPage} :
      core.view metaPageId = some image →
      image.asMeta = .ok metaPage →
      Step Allowed core { core with metaPage := metaPage }
  | ended
      (recordType : RecordType)
      (transactionId : Nat)
      {core} :
      recordType ≠ .update →
      Step Allowed core { core with
        files := { core.files with
          wal := core.files.wal.stage
            (core.files.wal.endRecord recordType
              transactionId) } }
  | forgot (transactionId : Nat) {core} :
      Step Allowed core { core with
        files := { core.files with
          wal := core.files.wal.forget transactionId } }
  | flushed {core} :
      Step Allowed core { core with
        files := { core.files with
          wal := core.files.wal.flushed }.note .logFlushed }
  | stamped {core} :
      core.watching = true →
      core.transactions.running = [] →
      Step Allowed core { core with
        metaPage := { core.metaPage with
          nextXid := core.transactions.nextId }
        transactions := { core.transactions with
          frozenXid := core.transactions.nextId } }
  | checkpointed {core} :
      (∀ pageId frame, core.cache pageId = some frame →
        frame.dirty = false) →
      core.files.wal.buffer = [] →
      core.transactions.running = [] →
      Step Allowed core core.checkpointed
  | shut {core} :
      core.files.wal.buffer = [] →
      Step Allowed core { core with
        files := { core.files with
          wal := { core.files.wal with closed := true } } }
  | managed {core manager} :
      Managed core.transactions manager →
      Step Allowed core { core with
        transactions := manager }
  | joined {core session} :
      Step Allowed core { core with session := session }

end Core

--
-- Callbacks
--

namespace Files

variable {program : Wal.LogM (PageImage π) α}
variable {files : Files π} {value : α}
variable {wal : WriteAheadLog (PageImage π)}

theorem onLog_run
    (hRun : program.run files.wal = .ok value wal) :
    (onLog program).run files =
      .ok value { files with wal := wal } := by
  simp [onLog, hRun]

theorem changeLog_run
    (event : FileEvent π)
    (hRun : program.run files.wal = .ok value wal) :
    (changeLog event program).run files =
      .ok value
        ({ files with wal := wal }.note event) := by
  unfold changeLog
  rw [EStateM.run_bind, onLog_run hRun]
  rfl

theorem writeToDiskWriteAhead_run
    (hOpen : files.wal.closed = false)
    (pageSize : Nat)
    (pageId : PageId)
    (image : PageImage π) :
    (writeToDiskWriteAhead pageSize pageId image).run
        files =
      .ok () (files.writtenBack pageSize pageId image) := by
  have hFlush := changeLog_run .logFlushed
    (WriteAheadLog.flushThrough_run hOpen image.lsn)
  simp only [writeToDiskWriteAhead, EStateM.run_bind,
    EStateM.run_get, hFlush]
  rfl

theorem writtenBack_closed
    (files : Files π)
    (pageSize : Nat)
    (pageId : PageId)
    (image : PageImage π) :
    (files.writtenBack pageSize pageId image).wal.closed =
      files.wal.closed := by
  unfold writtenBack note
  simp only
  split
  · exact WriteAheadLog.flushed_closed _
  · rfl

theorem writtenBack_staged
    (hStaged : files.wal.Staged)
    (pageSize : Nat)
    (pageId : PageId)
    (image : PageImage π) :
    (files.writtenBack pageSize pageId
      image).wal.Staged := by
  unfold writtenBack note
  simp only
  split
  · exact hStaged.flushed
  · exact hStaged

end Files

variable {pages : List (PageImage π)} {pageId other : Nat}
variable {image : PageImage π}

theorem getElem?_putPage
    {pageSize : Nat} :
    (putPage pageSize pages pageId image)[other]? =
      if other = pageId then some image
      else if other < pages.length then pages[other]?
      else if other < pageId then some (.zeros pageSize)
      else none := by
  unfold putPage
  rw [List.getElem?_set]
  by_cases hSame : other = pageId
  · subst hSame
    simp
    omega
  · rw [if_neg (Ne.symm hSame), if_neg hSame,
      List.getElem?_append]
    split
    · rfl
    · rw [List.getElem?_replicate]
      have hIff : other - pages.length <
          pageId + 1 - pages.length ↔ other < pageId := by
        omega
      simp [hIff]

variable {held : PageImage π}

/- Other pages of the file stay readable. -/
theorem getElem?_putPage_of_some
    {pageSize : Nat}
    (hOther : other ≠ pageId)
    (hHeld : pages[other]? = some held) :
    (putPage pageSize pages pageId image)[other]? =
      some held := by
  have hLength : other < pages.length := by
    by_contra hPast
    rw [List.getElem?_eq_none (by omega)] at hHeld
    cases hHeld
  rw [getElem?_putPage, if_neg hOther, if_pos hLength, hHeld]

/- A log operation leaves the database file alone. -/
theorem Files.onLog_pages
    {α : Type}
    (program : Wal.LogM (PageImage π) α)
    (pages : List (PageImage π)) :
    Triple (fun files : Files π => files.pages = pages)
      (onLog program)
      (fun _ files => files.pages = pages)
      (fun _ files => files.pages = pages) := by
  refine Triple.focus fun files hPages => ?_
  intro wal _
  cases program.run wal with
  | ok value final => exact hPages
  | error raised final => exact hPages

theorem Files.writeToDiskWriteAhead_keeps
    (pageSize : Nat)
    (image : PageImage π)
    (hOther : other ≠ pageId) :
    Triple
      (fun files : Files π =>
        files.pages[pageId]? = some held)
      (writeToDiskWriteAhead pageSize other image)
      (fun _ files => files.pages[pageId]? = some held)
      (fun _ _ => True) := by
  unfold writeToDiskWriteAhead changeLog
  refine Triple.read fun files hHeld => ?_
  refine Triple.bind
    (Q := fun _ (after : Files π) =>
      after.pages = files.pages) ?_ fun _ => ?_
  · refine Triple.bind
      ((onLog_pages _ files.pages).weaken
        (fun _ h => by rw [h]) (fun _ _ h => h)
        (fun _ _ _ => trivial)) fun _ => ?_
    refine Triple.bind
      (Q := fun _ (after : Files π) =>
        after.pages = files.pages)
      (Triple.modify fun _ h => h) fun _ => ?_
    exact Triple.pure fun _ h => h
  · refine Triple.modify fun after hPages => ?_
    simp only [note, hPages]
    exact getElem?_putPage_of_some (Ne.symm hOther) hHeld

--
-- Engines Ready for a Call
--

/- What holds of an open engine between two operations. -/
structure Engine.Good (engine : Engine π) : Prop where
  sound : engine.pool.Sound engine.pageSize 0
  staged : engine.files.wal.Staged
  walOpen : engine.files.wal.closed = false
  isOpen : engine.closed = false

/- The engine is good and its core has the property. -/
def Ready
    (J : Core π → Prop)
    (engine : Engine π) : Prop :=
  engine.Good ∧ J engine.core

/- The pool keeps the property, whatever it does. -/
def Calm (J : Core π → Prop) : Prop :=
  ∀ core core', J core → core.Quiet core' → J core'

variable {core core' : Core π}
variable {Allowed : PageId → Page π → Prop}

theorem Core.Quiet.pageSize
    (hQuiet : core.Quiet core') :
    core'.pageSize = core.pageSize := by
  cases hQuiet <;> rfl

theorem Core.Answers.pageSize
    {pageId : PageId}
    {reason : String}
    {capture : Bool}
    {transactionId : Nat}
    {before : PageImage π}
    (hAnswers : core.Answers pageId reason capture core'
      transactionId before) :
    core'.pageSize = core.pageSize := by
  unfold Core.Answers at hAnswers
  split at hAnswers
  · cases hAnswers <;> rfl
  · rw [hAnswers.1]

variable {J : Core π → Prop}

theorem Core.Step.pageSize
    (hStep : core.Step Allowed core') :
    core'.pageSize = core.pageSize := by
  cases hStep with
  | quiet hQuiet => exact hQuiet.pageSize
  | intended hIntends => cases hIntends <;> rfl
  | changed reason capture hAnswers hWrites hLength =>
    exact hAnswers.pageSize
  | _ => rfl

/- Every step of the engine keeps the property. -/
def Stable
    (Allowed : PageId → Page π → Prop)
    (J : Core π → Prop) : Prop :=
  ∀ core core', J core → core.Step Allowed core' → J core'

theorem Stable.calm
    {J : Core π → Prop}
    (hStable : Stable Allowed J) : Calm J :=
  fun core core' hJ hQuiet =>
    hStable core core' hJ (.quiet hQuiet)

namespace Pager

variable {J' : Core π → Prop}

/- The rest of the core while the pool works. -/
def withPool
    (J : Core π → Prop)
    (core : Core π)
    (cache : PageId → Option (Frame (PageImage π)))
    (files : Files π) : Prop :=
  (files.wal.Staged ∧ files.wal.closed = false) ∧
    J { core with cache := cache, files := files }

theorem quiet_withPool
    (hCalm : Calm J)
    (core : Core π) :
    (poolEnv core.pageSize).Quiet
      (fun pageId image files =>
        files.pages[pageId]? = some image)
      (withPool J core) where
  drop := by
    intro cache files pageId image hState hFrame
    refine ⟨hState.1, ?_⟩
    exact hCalm { core with cache := cache, files := files }
      _ hState.2 (.drop hFrame)
  writeBack := by
    intro cache pageId image hFrame files hState
    rcases hState with ⟨⟨hStaged, hOpen⟩, hJ⟩
    unfold poolEnv
    simp only
    rw [Files.writeToDiskWriteAhead_run hOpen]
    refine ⟨⟨Files.writtenBack_staged hStaged _ _ _, ?_⟩, ?_⟩
    · rw [Files.writtenBack_closed]
      exact hOpen
    · exact hCalm
        { core with cache := cache, files := files } _ hJ
        (.writeBack hFrame)
  read := by
    intro cache pageId
    unfold poolEnv Files.readFromDisk
    refine Triple.read fun files hState => ?_
    cases hPage : files.pages[pageId]? with
    | some image =>
      refine Triple.pure fun current hSame => ?_
      rw [hSame]
      exact ⟨hState, hPage⟩
    | none =>
      refine Triple.throw fun current hSame => ?_
      rw [hSame]
      exact hState
  keeps := by
    intro pageId image other written hOther
    unfold poolEnv
    simp only
    exact Files.writeToDiskWriteAhead_keeps _ _ hOther
  load := by
    intro cache files pageId image hState hPage hMiss
    refine ⟨hState.1, ?_⟩
    exact hCalm { core with cache := cache, files := files }
      _ hState.2 (.load hMiss hPage)

theorem fetch_spec
    (hCalm : Calm J)
    (pageId : PageId) :
    Triple (Ready J) (fetch pageId)
      (fun found engine => Ready J engine ∧
        engine.core.view pageId = some found.1)
      (fun _ => Ready J) := by
  unfold fetch
  refine Triple.read fun engine hReady => ?_
  rcases hReady with ⟨hGood, hJ⟩
  refine Triple.focus fun state hState => ?_
  subst hState
  have hFetch := BufferPool.fetch_spec state.pageSize
    (quiet_withPool hCalm state.core) pageId
  refine hFetch.weaken ?_ ?_ ?_
  · rintro part rfl
    exact ⟨hGood.sound, ⟨hGood.staged, hGood.walOpen⟩, hJ⟩
  · rintro found part ⟨hSound, ⟨⟨hStaged, hOpen⟩, hJ'⟩,
      frame, hFrame, hData⟩
    refine ⟨⟨⟨hSound, hStaged, hOpen, hGood.isOpen⟩, hJ'⟩, ?_⟩
    simp [Core.view, Engine.core, hFrame, hData]
  · rintro raised part ⟨hSound, ⟨hStaged, hOpen⟩, hJ'⟩
    exact ⟨⟨hSound, hStaged, hOpen, hGood.isOpen⟩, hJ'⟩

/- The hook, from what it may answer. -/
theorem beforeWrite_spec
    (After : Nat → PageImage π → Core π → Prop)
    (hCalm : Calm J)
    (pageId : PageId)
    (reason : String)
    (hIntends : ∀ core core' transactionId before,
      J core →
      core.Intends pageId reason core' transactionId
        before →
      After transactionId before core') :
    Triple (Ready J) (beforeWrite pageId reason)
      (fun intent => Ready (After
        ((intent.map WriteIntent.transactionId).getD
          noTransaction)
        ((intent.bind WriteIntent.beforeImage).getD .empty)))
      (fun _ => Ready J) := by
  unfold beforeWrite
  refine Triple.read fun engine hReady => ?_
  have hGood := hReady.1
  refine Triple.ite (fun hIdle => ?_) fun hWatching => ?_
  · refine Triple.pure fun current hSame => ?_
    subst hSame
    refine ⟨hGood, hIntends _ _ _ _ hReady.2 (.outside ?_)⟩
    exact .inl (by simpa [Engine.core] using hIdle)
  · have hWatching' : engine.core.watching = true := by
      simpa [Engine.core] using hWatching
    cases hActive :
        engine.transactions.activeIn engine.session with
    | none =>
      refine Triple.pure fun current hSame => ?_
      subst hSame
      refine ⟨hGood, hIntends _ _ _ _ hReady.2
        (.outside ?_)⟩
      exact .inr hActive
    | some transaction =>
      simp only
      refine Triple.ite (fun hHas => ?_) fun hNew => ?_
      · refine Triple.pure fun current hSame => ?_
        subst hSame
        exact ⟨hGood, hIntends _ _ _ _ hReady.2
          (.again hWatching' hActive hHas)⟩
      · -- the page is read before anything is captured
        let K : Core π → Prop := fun core =>
          J core ∧ core.watching = true ∧
            core.transactions.activeIn core.session =
              some transaction
        have hCalm' : Calm K := by
          intro core core' hK hQuiet
          refine ⟨hCalm core core' hK.1 hQuiet, ?_⟩
          cases hQuiet <;> exact hK.2
        refine Triple.bind ((fetch_spec hCalm'
          pageId).weaken ?_ (fun _ _ h => h)
          (fun _ _ h => ⟨h.1, h.2.1⟩)) fun found => ?_
        · rintro current rfl
          exact ⟨hGood, hReady.2, hWatching', hActive⟩
        · refine Triple.bind
            (Q := fun _ => Ready (After
              transaction.transactionId found.1))
            (Triple.modify fun current hCurrent => ?_)
            fun _ => Triple.pure fun _ h => h
          rcases hCurrent with
            ⟨⟨hGood', hJ', hWatch, hSame⟩, hView⟩
          refine ⟨⟨hGood'.sound, hGood'.staged,
            hGood'.walOpen, hGood'.isOpen⟩, ?_⟩
          exact hIntends _ _ _ _ hJ' (.first hWatch hSame
            (by simpa using hNew) hView)

/- What logging leaves, before the pool has the page. -/
theorem logChange_run
    {engine : Engine π}
    (hGood : engine.Good)
    (pageId : PageId)
    (raw : PageImage π)
    (intent : Option (WriteIntent π)) :
    let transactionId :=
      (intent.map WriteIntent.transactionId).getD
        noTransaction
    let before :=
      (intent.bind WriteIntent.beforeImage).getD .empty
    let record := engine.core.changeRecord pageId
      transactionId before raw
    ∃ final,
      (logChange pageId raw intent).run engine =
        .ok (raw.stamp record.lsn) final ∧
      final.Good ∧
      final.pool = engine.pool ∧
      { final.core with
        cache := Function.update final.core.cache pageId
          (some ⟨pageId, raw.stamp record.lsn, true⟩) } =
        engine.core.logged pageId transactionId before
          raw := by
  intro transactionId before record
  have hAppend := Files.onLog_run
    (WriteAheadLog.appendUpdate_run hGood.walOpen
      hGood.staged transactionId pageId before raw.stamp)
  have hLog :
      (onFiles (Files.onLog (WriteAheadLog.appendUpdate
          transactionId pageId before raw.stamp))).run
          engine =
        .ok record { engine with
          files := { engine.files with
            wal := engine.files.wal.updated transactionId
              pageId before raw.stamp } } := by
    simp only [onFiles, run_focus, hAppend]
    rfl
  have hStaged := hGood.staged.updated transactionId pageId
    before raw.stamp
  have hOpen :
      (engine.files.wal.updated transactionId pageId before
        raw.stamp).closed = false := by
    simpa using hGood.walOpen
  unfold logChange
  rw [EStateM.run_bind, hLog]
  by_cases hMeta : pageId = metaPageId
  · refine ⟨_, rfl, ⟨?_, ?_, ?_, ?_⟩, ?_, ?_⟩
    all_goals simp only [hMeta, ↓reduceIte]
    · exact hGood.sound
    · exact hMeta ▸ hStaged
    · exact hMeta ▸ hOpen
    · exact hGood.isOpen
    · simp [Core.logged, Engine.core, record, hMeta]
  · refine ⟨_, rfl, ⟨?_, ?_, ?_, ?_⟩, ?_, ?_⟩
    all_goals simp only [hMeta, ↓reduceIte]
    · exact hGood.sound
    · exact hStaged
    · exact hOpen
    · exact hGood.isOpen
    · simp [Core.logged, Engine.core, record, hMeta]

/- A page in the pool, when all but its frame is in place. -/
theorem store_spec
    (hCalm : Calm J)
    (pageId : PageId)
    (raw : PageImage π) :
    Triple
      (fun engine => engine.Good ∧
        Wal.byteLength raw = engine.pageSize ∧
        J { engine.core with
          cache := Function.update engine.core.cache pageId
            (some ⟨pageId, raw, true⟩) })
      (do
        let engine ← get
        onPool (BufferPool.store (poolEnv engine.pageSize)
          pageId raw))
      (fun _ => Ready J)
      (fun _ _ => False) := by
  refine Triple.read fun engine hEngine => ?_
  rcases hEngine with ⟨hGood, hLength, hJ⟩
  refine Triple.focus fun state hState => ?_
  subst hState
  have hStore := BufferPool.store_spec state.pageSize
    (quiet_withPool hCalm state.core).toEvictable pageId raw
  refine hStore.weaken ?_ ?_ (fun _ _ h => h)
  · rintro part rfl
    exact ⟨hGood.sound, hLength,
      ⟨hGood.staged, hGood.walOpen⟩, hJ⟩
  · rintro _ part ⟨hSound, ⟨hStaged, hOpen⟩, hJ'⟩
    exact ⟨⟨hSound, hStaged, hOpen, hGood.isOpen⟩, hJ'⟩

/- Logging a page and handing it to the pool is one change
   of the core. -/
theorem logStore_spec
    (hCalm : Calm J)
    (pageSize : Nat)
    (pageId : PageId)
    (raw : PageImage π)
    (intent : Option (WriteIntent π)) :
    Triple
      (fun engine => engine.Good ∧
        engine.pageSize = pageSize ∧
        Wal.byteLength raw = pageSize ∧
        J (engine.core.logged pageId
          ((intent.map WriteIntent.transactionId).getD
            noTransaction)
          ((intent.bind WriteIntent.beforeImage).getD .empty)
          raw))
      (do
        let stamped ← logChange pageId raw intent
        onPool (BufferPool.store (poolEnv pageSize) pageId
          stamped))
      (fun _ => Ready J)
      (fun _ _ => False) := by
  refine Triple.start fun engine hEngine => ?_
  rcases hEngine with ⟨hGood, hSize, hLength, hJ⟩
  rcases logChange_run hGood pageId raw intent with
    ⟨final, hRun, hFinal, hPool, hCore⟩
  revert hRun hCore
  generalize (engine.core.changeRecord pageId _ _ raw).lsn = lsn
  intro hRun hCore
  have hFinalSize : final.pageSize = pageSize := by
    have hSame := congrArg Core.pageSize hCore
    exact hSame.trans hSize
  have hRest := store_spec hCalm pageId (raw.stamp lsn) final
    ⟨hFinal, by
      rw [PageImage.byteLength_stamp, hLength, hFinalSize],
      by
        rw [hCore]
        exact hJ⟩
  rintro state rfl
  rw [EStateM.run_bind, EStateM.run_get] at hRest
  rw [EStateM.run_bind, hRun]
  simp only [hFinalSize] at hRest
  exact hRest

/- A page change, from what is logged and buffered. -/
theorem writeAt_spec
    (hCalm : Calm J)
    (hCalm' : Calm J')
    (pageId : PageId)
    (raw : PageImage π)
    (reason : String)
    (capture : Bool)
    (hWrite : ∀ core core' transactionId before,
      J core →
      core.Answers pageId reason capture core' transactionId
        before →
      Wal.byteLength raw = core.pageSize →
      J' (core'.logged pageId transactionId before raw)) :
    Triple (Ready J) (writeAt pageId raw reason capture)
      (fun _ => Ready J') (fun _ => Ready J) := by
  unfold writeAt
  refine Triple.read fun engine hReady => ?_
  refine Triple.ite (fun _ => ?_) fun hFits => ?_
  · refine Triple.throw fun current hSame => ?_
    rw [hSame]
    exact hReady
  · have hLength : Wal.byteLength raw = engine.pageSize := by
      simpa using hFits
    let K : Core π → Prop := fun core =>
      J core ∧ core.pageSize = engine.pageSize
    have hCalmK : Calm K := by
      intro core core' hK hQuiet
      refine ⟨hCalm core core' hK.1 hQuiet, ?_⟩
      cases hQuiet <;> exact hK.2
    let After : Nat → PageImage π → Core π → Prop :=
      fun transactionId before core' =>
        core'.pageSize = engine.pageSize ∧
          J' (core'.logged pageId transactionId before raw)
    refine Triple.bind
      (Q := fun intent => Ready (After
        ((intent.map WriteIntent.transactionId).getD
          noTransaction)
        ((intent.bind WriteIntent.beforeImage).getD
          .empty))) ?_ fun intent => ?_
    · have hStart : ∀ current, current = engine →
          Ready K current := by
        rintro current rfl
        exact ⟨hReady.1, hReady.2, rfl⟩
      unfold intentFor
      cases capture with
      | true =>
        refine (beforeWrite_spec After hCalmK pageId
          reason ?_).weaken hStart (fun _ _ h => h)
          (fun _ _ h => ⟨h.1, h.2.1⟩)
        intro core core' transactionId before hK hIntends
        refine ⟨?_, hWrite core core' transactionId before
          hK.1 hIntends (hLength.trans hK.2.symm)⟩
        cases hIntends <;> exact hK.2
      | false =>
        refine Triple.pure fun current hSame => ?_
        have hK := hStart current hSame
        refine ⟨hK.1, hK.2.2, hWrite current.core _ _ _
          hK.2.1 ⟨rfl, rfl, rfl⟩
          (hLength.trans hK.2.2.symm)⟩
    · refine (logStore_spec hCalm' engine.pageSize pageId raw
        intent).weaken (fun current hCurrent => ?_)
        (fun _ _ h => h) (fun _ _ h => h.elim)
      exact ⟨hCurrent.1, hCurrent.2.1, hLength, hCurrent.2.2⟩

/-
  A page written over wholesale: its frame is dropped first,
  and no one sees the page without it.
-/
theorem overwriteAt_spec
    (hCalm : Calm J)
    (pageId : PageId)
    (raw : PageImage π)
    (reason : String) :
    Triple
      (fun engine => engine.Good ∧
        Wal.byteLength raw = engine.pageSize ∧
        J (engine.core.logged pageId noTransaction .empty
          raw))
      (overwriteAt pageId raw reason)
      (fun _ => Ready J)
      (fun _ _ => False) := by
  refine Triple.start fun engine hEngine => ?_
  rcases hEngine with ⟨hGood, hLength, hJ⟩
  unfold overwriteAt
  refine Triple.bind
    (Q := fun _ current => current =
      { engine with pool := engine.pool.release pageId })
    ?_ fun _ => ?_
  · rintro current rfl
    rfl
  · unfold writeAt
    refine Triple.read fun current hCurrent => ?_
    subst hCurrent
    have hFits :
        ¬ Wal.byteLength raw ≠ engine.pageSize := by
      simp [hLength]
    simp only [if_neg hFits]
    refine (logStore_spec hCalm engine.pageSize pageId raw
      none).pre ?_
    rintro current rfl
    refine ⟨⟨hGood.sound.release pageId, hGood.staged,
      hGood.walOpen, hGood.isOpen⟩, rfl, hLength, ?_⟩
    -- the change sets the frame, whatever was in its place
    simpa [Core.logged, Core.changeRecord, Engine.core]
      using hJ

theorem flushPool_spec (hCalm : Calm J) :
    Triple (Ready J) (flushPool (π := π))
      (fun _ engine => Ready J engine ∧
        ∀ pageId frame,
          engine.core.cache pageId = some frame →
          frame.dirty = false)
      (fun _ _ => False) := by
  unfold flushPool
  refine Triple.read fun engine hReady => ?_
  rcases hReady with ⟨hGood, hJ⟩
  refine Triple.focus fun state hState => ?_
  subst hState
  have hFlush := BufferPool.flush_spec state.pageSize
    (quiet_withPool hCalm state.core).toEvictable
  refine hFlush.weaken ?_ ?_ (fun _ _ h => h)
  · rintro part rfl
    exact ⟨hGood.sound, ⟨hGood.staged, hGood.walOpen⟩, hJ⟩
  · rintro _ part ⟨hSound, ⟨⟨hStaged, hOpen⟩, hJ'⟩, hClean⟩
    exact ⟨⟨⟨hSound, hStaged, hOpen, hGood.isOpen⟩, hJ'⟩,
      hClean⟩

end Pager

--
-- Pager Operations
--

namespace Pager

/- The operation keeps the property, also when it raises. -/
abbrev Keeps
    {α : Type}
    (J : Core π → Prop)
    (program : EngineM π α) : Prop :=
  Triple (Ready J) program (fun _ => Ready J)
    (fun _ => Ready J)

/- A change of the state that is a step of the core. -/
theorem modify_keeps
    (hStable : Stable Allowed J)
    {f : Engine π → Engine π}
    (hGood : ∀ engine : Engine π, engine.Good → (f engine).Good)
    (hStep : ∀ engine : Engine π, engine.Good → J engine.core →
      engine.core.Step Allowed (f engine).core) :
    Keeps J (modify f) := by
  refine Triple.modify fun engine hReady => ?_
  exact ⟨hGood engine hReady.1, hStable _ _ hReady.2
    (hStep engine hReady.1 hReady.2)⟩

theorem ensureOpen_keeps :
    Keeps J (ensureOpen (π := π)) := by
  unfold ensureOpen
  refine Triple.read fun engine hReady => ?_
  refine Triple.ite (fun _ => Triple.throw ?_)
    fun _ => Triple.pure ?_
  all_goals
    rintro current rfl
    exact hReady

theorem checkPageId_keeps (pageId : PageId) :
    Keeps J (checkPageId (π := π) pageId) := by
  unfold checkPageId
  refine Triple.read fun engine hReady => ?_
  refine Triple.ite (fun _ => Triple.throw ?_)
    fun _ => Triple.pure ?_
  all_goals
    rintro current rfl
    exact hReady

variable {P : Engine π → Prop}

theorem fromExcept_keeps
    (outcome : Except EngineError α) :
    Triple P (fromExcept outcome)
      (fun value engine => P engine ∧ outcome = .ok value)
      (fun _ => P) := by
  cases outcome with
  | ok value => exact Triple.pure fun _ h => ⟨h, rfl⟩
  | error raised => exact Triple.throw fun _ h => h

/- A new page is blank, if making it returns. -/
theorem create_bind
    {Q : α → Engine π → Prop}
    {E : EngineError → Engine π → Prop}
    {rest : Page π → EngineM π α}
    (pageType : PageType)
    (pageSize : Nat)
    (hRest : Triple P (rest (Page.blank pageType pageSize))
      Q E)
    (hRaises : ∀ raised engine, P engine → E raised engine) :
    Triple P
      (fromExcept (Page.create pageType pageSize) >>= rest)
      Q E := by
  refine Triple.bind ((fromExcept_keeps _).raises hRaises) fun page => ?_
  refine Triple.start fun engine hEngine => ?_
  rw [Page.eq_blank_of_create hEngine.2]
  exact hRest.pre (fun _ h => h ▸ hEngine.1)

theorem fetch_keeps
    (hStable : Stable Allowed J)
    (pageId : PageId) :
    Keeps J (fetch pageId) :=
  (fetch_spec hStable.calm pageId).post (fun _ _ h => h.1)

theorem readRaw_keeps
    (hStable : Stable Allowed J)
    (pageId : PageId) :
    Keeps J (readRaw pageId) := by
  unfold readRaw
  refine ensureOpen_keeps.bind fun _ => ?_
  refine (checkPageId_keeps pageId).bind fun _ => ?_
  refine (fetch_keeps hStable pageId).bind fun found => ?_
  exact Triple.pure fun _ h => h

theorem readPage_keeps
    (hStable : Stable Allowed J)
    (pageId : PageId) :
    Keeps J (readPage pageId) := by
  unfold readPage
  refine ensureOpen_keeps.bind fun _ => ?_
  refine Triple.ite (fun _ => Triple.throw fun _ h => h)
    fun _ => ?_
  refine (checkPageId_keeps pageId).bind fun _ => ?_
  refine Triple.read fun engine hReady => ?_
  refine Triple.bind
    ((fetch_keeps hStable pageId).pre
      (fun _ h => h ▸ hReady)) fun found => ?_
  exact (fromExcept_keeps _).post (fun _ _ h => h.1)

variable {K : Core π → Prop}

/- A write is a step, whatever the hook answers. -/
theorem writeAt_keeps
    (hStable : Stable Allowed J)
    (hCalm : Calm K)
    (hK : ∀ core, K core → J core)
    (pageId : PageId)
    (raw : PageImage π)
    (reason : String)
    (capture : Bool)
    (hWrites : ∀ core core' transactionId before,
      K core →
      core.Answers pageId reason capture core' transactionId
        before →
      core'.Writes Allowed pageId raw) :
    Triple (Ready K) (writeAt pageId raw reason capture)
      (fun _ => Ready J) (fun _ => Ready J) := by
  refine (writeAt_spec hCalm hStable.calm pageId raw reason
    capture ?_).raises (fun _ _ h => ⟨h.1, hK _ h.2⟩)
  intro core core' transactionId before hCore hAnswers
    hLength
  exact hStable core _ (hK core hCore)
    (.changed reason capture hAnswers (hWrites core core' transactionId
      before hCore hAnswers) hLength)

variable {pageId : PageId}

/- The hook changes the open transactions at most. -/
theorem answers_metaPage
    {core core' : Core π}
    {reason : String}
    {capture : Bool}
    {transactionId : Nat}
    {before : PageImage π}
    (hAnswers : core.Answers pageId reason capture core'
      transactionId before) :
    core'.metaPage = core.metaPage := by
  unfold Core.Answers at hAnswers
  split at hAnswers
  · cases hAnswers <;> rfl
  · rw [hAnswers.1]

theorem writeMeta_keeps (hStable : Stable Allowed J) :
    Keeps J (writeMeta (π := π)) := by
  unfold writeMeta
  refine Triple.read fun engine hReady => ?_
  let K : Core π → Prop := fun core =>
    J core ∧ core.metaPage = engine.metaPage
  have hCalm : Calm K := by
    intro core core' hCore hQuiet
    refine ⟨hStable.calm core core' hCore.1 hQuiet, ?_⟩
    cases hQuiet <;> exact hCore.2
  refine (writeAt_keeps hStable hCalm (fun _ h => h.1) _ _
    _ _ ?_).pre ?_
  · intro core core' transactionId before hCore hAnswers
    have hSame : core'.metaPage = engine.metaPage :=
      (answers_metaPage hAnswers).trans hCore.2
    rw [← hSame]
    exact .metaPage rfl
  · rintro current rfl
    exact ⟨hReady.1, hReady.2, rfl⟩

variable {page : Page π}

theorem writePage_keeps
    (hStable : Stable Allowed J)
    (hAllowed : Allowed pageId page) :
    Keeps J (writePage pageId page) := by
  unfold writePage
  refine ensureOpen_keeps.bind fun _ => ?_
  refine Triple.ite (fun _ => Triple.throw fun _ h => h)
    fun _ => ?_
  refine (checkPageId_keeps pageId).bind fun _ => ?_
  exact writeAt_keeps hStable hStable.calm (fun _ h => h) _
    _ _ _ fun _ _ _ _ _ _ => .page hAllowed

theorem reloadMeta_keeps (hStable : Stable Allowed J) :
    Keeps J (reloadMeta (π := π)) := by
  unfold reloadMeta
  refine Triple.bind (fetch_spec hStable.calm metaPageId)
    fun found => ?_
  refine Triple.bind
    ((fromExcept_keeps found.1.asMeta).raises (fun _ _ h => h.1)) fun page => ?_
  refine Triple.modify fun engine hEngine => ?_
  rcases hEngine with ⟨⟨⟨hGood, hJ⟩, hView⟩, hMeta⟩
  exact ⟨⟨hGood.sound, hGood.staged, hGood.walOpen,
    hGood.isOpen⟩, hStable _ _ hJ (.reloaded hView hMeta)⟩

theorem readFree_keeps
    (hStable : Stable Allowed J)
    (pageId : PageId) :
    Keeps J (readFree pageId) := by
  unfold readFree
  refine Triple.read fun engine hReady => ?_
  refine Triple.bind
    ((fetch_keeps hStable pageId).pre
      (fun _ h => h ▸ hReady)) fun found => ?_
  exact (fromExcept_keeps _).post (fun _ _ h => h.1)

/- In-memory changes to the meta page's other fields. -/
theorem editMeta_keeps
    (hStable : Stable Allowed J)
    {f : MetaPage → MetaPage}
    (hSame : ∀ page,
      (f page).lsn = page.lsn ∧
        (f page).checkpointLsn = page.checkpointLsn ∧
        (f page).nextXid = page.nextXid ∧
        (f page).pageSize = page.pageSize) :
    Keeps J (editMeta (π := π) f) := by
  unfold editMeta
  refine modify_keeps hStable ?_ ?_
  · intro engine hGood
    exact ⟨hGood.sound, hGood.staged, hGood.walOpen,
      hGood.isOpen⟩
  · intro engine _ _
    have hFields := hSame engine.metaPage
    exact .edited hFields.1 hFields.2.1 hFields.2.2.1
      hFields.2.2.2

theorem takePageId_keeps (hStable : Stable Allowed J) :
    Keeps J (takePageId (π := π)) := by
  unfold takePageId
  refine Triple.read fun engine hReady => ?_
  refine Triple.ite (fun _ => ?_) fun _ => ?_
  · refine Triple.bind
      ((readFree_keeps hStable _).pre
        (fun _ h => h ▸ hReady)) fun freed => ?_
    refine Triple.bind (Q := fun _ => Ready J) ?_
      fun _ => Triple.pure fun _ h => h
    exact editMeta_keeps hStable
      fun _ => ⟨rfl, rfl, rfl, rfl⟩
  · refine Triple.bind (Q := fun _ => Ready J) ?_
      fun _ => Triple.pure fun _ h => h
    refine Triple.weaken (P := Ready J) ?_
      (fun _ h => h ▸ hReady) (fun _ _ h => h)
      (fun _ _ h => h)
    exact editMeta_keeps hStable
      fun _ => ⟨rfl, rfl, rfl, rfl⟩

theorem captureByHand_keeps
    (hStable : Stable Allowed J)
    (pageId : PageId)
    (reason : String)
    (needed : Bool) :
    Keeps J (captureByHand (π := π) pageId reason
      needed) := by
  unfold captureByHand
  refine Triple.ite (fun _ => ?_) fun _ =>
    Triple.pure fun _ h => h
  have hHook := beforeWrite_spec
    (fun _ _ => J) hStable.calm pageId reason
    (fun core core' transactionId before hJ hIntends =>
      hStable core core' hJ (.intended hIntends))
  exact hHook.bind fun _ => Triple.pure fun _ h => h

/- A blank page put in the place of whatever was there. -/
theorem overwriteAt_keeps
    (hStable : Stable Allowed J)
    (pageId : PageId)
    (hBlank : page.slots = [])
    (reason : String) :
    Triple
      (fun engine => Ready J engine ∧
        page.pageSize = engine.pageSize)
      (overwriteAt pageId (.slotted page) reason)
      (fun _ => Ready J)
      (fun _ => Ready J) := by
  refine (overwriteAt_spec hStable.calm pageId
    (.slotted page) reason).weaken ?_ (fun _ _ h => h)
    (fun _ _ h => h.elim)
  rintro engine ⟨⟨hGood, hJ⟩, hSize⟩
  refine ⟨hGood, hSize, hStable _ _ hJ ?_⟩
  exact .changed reason false ⟨rfl, rfl, rfl⟩
    (.blank hBlank) hSize

theorem allocatePage_keeps
    (hStable : Stable Allowed J)
    (pageType : PageType) :
    Keeps J (allocatePage (π := π) pageType) := by
  unfold allocatePage
  refine ensureOpen_keeps.bind fun _ => ?_
  refine (takePageId_keeps hStable).bind fun taken => ?_
  refine Triple.read fun engine hReady => ?_
  let K : Core π → Prop := fun core =>
    J core ∧ core.pageSize = engine.pageSize
  have hStableK : Stable Allowed K := by
    intro core core' hCore hStep
    refine ⟨hStable core core' hCore.1 hStep, ?_⟩
    exact hStep.pageSize.trans hCore.2
  refine Triple.weaken (P := Ready K) ?_
    (fun _ h => h ▸ ⟨hReady.1, hReady.2, rfl⟩)
    (fun _ _ h => h) (fun _ _ h => h)
  refine create_bind pageType engine.pageSize ?_
    fun _ _ h => ⟨h.1, h.2.1⟩
  refine Triple.bind
    ((captureByHand_keeps hStableK taken.1 _ _).raises
      (fun _ _ h => ⟨h.1, h.2.1⟩)) fun _ => ?_
  refine Triple.bind
    ((overwriteAt_keeps hStable taken.1 rfl _).pre
      (fun _ h => ⟨⟨h.1, h.2.1⟩, h.2.2.symm⟩)) fun _ => ?_
  refine (writeMeta_keeps hStable).bind fun _ => ?_
  exact Triple.pure fun _ h => h

theorem freePage_keeps
    (hStable : Stable Allowed J)
    (pageId : PageId) :
    Keeps J (freePage (π := π) pageId) := by
  unfold freePage
  refine ensureOpen_keeps.bind fun _ => ?_
  refine Triple.ite (fun _ => Triple.throw fun _ h => h)
    fun _ => ?_
  refine (checkPageId_keeps pageId).bind fun _ => ?_
  refine (readFree_keeps hStable pageId).bind fun _ => ?_
  refine Triple.read fun engine hReady => ?_
  let K : Core π → Prop := fun core =>
    J core ∧ core.pageSize = engine.pageSize
  have hStableK : Stable Allowed K := by
    intro core core' hCore hStep
    refine ⟨hStable core core' hCore.1 hStep, ?_⟩
    exact hStep.pageSize.trans hCore.2
  refine Triple.weaken (P := Ready K) ?_
    (fun _ h => h ▸ ⟨hReady.1, hReady.2, rfl⟩)
    (fun _ _ h => h) (fun _ _ h => h)
  refine create_bind .free engine.pageSize ?_
    fun _ _ h => ⟨h.1, h.2.1⟩
  refine Triple.bind
    ((captureByHand_keeps hStableK pageId _ _).raises
      (fun _ _ h => ⟨h.1, h.2.1⟩)) fun _ => ?_
  refine Triple.bind
    ((overwriteAt_keeps hStable pageId rfl _).pre
      (fun _ h => ⟨⟨h.1, h.2.1⟩, h.2.2.symm⟩)) fun _ => ?_
  refine Triple.bind (Q := fun _ => Ready J) ?_
    fun _ => writeMeta_keeps hStable
  exact editMeta_keeps hStable fun _ => ⟨rfl, rfl, rfl, rfl⟩

section OnLog

/- A log operation that is known to run, and what it leaves. -/
variable {program : Wal.LogM (PageImage π) α}
variable (event : FileEvent π)
variable (after : WriteAheadLog (PageImage π) →
  WriteAheadLog (PageImage π))
variable (hRun : ∀ log : WriteAheadLog (PageImage π),
  log.closed = false → ∃ value,
    program.run log = .ok value (after log))
variable (hStaged : ∀ log : WriteAheadLog (PageImage π),
  log.Staged → (after log).Staged)
variable (hClosed : ∀ log : WriteAheadLog (PageImage π),
  (after log).closed = log.closed)

include hRun hStaged hClosed

/- It is a step. -/
theorem onLog_keeps
    (hStep : ∀ core, J core → K { core with
      files := { core.files with
        wal := after core.files.wal } }) :
    Triple (Ready J) (onFiles (Files.onLog program))
      (fun _ => Ready K) (fun _ _ => False) := by
  intro engine hReady
  rcases hReady with ⟨hGood, hJ⟩
  rcases hRun engine.files.wal hGood.walOpen with
    ⟨value, hProgram⟩
  have hLog := Files.onLog_run hProgram
  simp only [onFiles, run_focus, hLog]
  refine ⟨⟨hGood.sound, hStaged _ hGood.staged, ?_,
    hGood.isOpen⟩, hStep _ hJ⟩
  exact (hClosed _).trans hGood.walOpen

/- The same with the moment noted. -/
theorem changeLog_keeps
    (hStep : ∀ core, J core → K { core with
      files := { core.files with
        wal := after core.files.wal }.note event }) :
    Triple (Ready J)
      (onFiles (Files.changeLog event program))
      (fun _ => Ready K) (fun _ _ => False) := by
  intro engine hReady
  rcases hReady with ⟨hGood, hJ⟩
  rcases hRun engine.files.wal hGood.walOpen with
    ⟨value, hProgram⟩
  have hLog := Files.changeLog_run event hProgram
  simp only [onFiles, run_focus, hLog]
  refine ⟨⟨hGood.sound, hStaged _ hGood.staged, ?_,
    hGood.isOpen⟩, hStep _ hJ⟩
  exact (hClosed _).trans hGood.walOpen

end OnLog

theorem flushLog_keeps (hStable : Stable Allowed J) :
    Triple (Ready J)
      (onFiles (Files.changeLog .logFlushed
        WriteAheadLog.flush))
      (fun _ => Ready (π := π) J) (fun _ _ => False) :=
  changeLog_keeps .logFlushed WriteAheadLog.flushed
    (fun _ hOpen => ⟨(), WriteAheadLog.flush_run hOpen⟩)
    (fun _ h => h.flushed) WriteAheadLog.flushed_closed
    fun core hJ => hStable core _ hJ .flushed

theorem sync_keeps (hStable : Stable Allowed J) :
    Keeps J (sync (π := π)) := by
  unfold sync
  refine ensureOpen_keeps.bind fun _ => ?_
  refine Triple.bind
    ((flushLog_keeps hStable).raises (fun _ _ h => h.elim)) fun _ => ?_
  exact (flushPool_spec hStable.calm).weaken (fun _ h => h)
    (fun _ _ h => h.1) (fun _ _ h => h.elim)

/- A commit: staged, flushed, and its chain forgotten. -/
theorem logCommit_keeps
    (hStable : Stable Allowed J)
    (transactionId : Nat) :
    Keeps J (logCommit (π := π) transactionId) := by
  unfold logCommit
  refine Triple.bind (Q := fun _ => Ready J) ?_
    fun _ => Triple.pure fun _ h => h
  refine (changeLog_keeps .logFlushed
    (fun log => (log.stage (log.endRecord .commit
      transactionId)).flushed.forget transactionId)
    (fun _ hOpen => ⟨_, WriteAheadLog.commit_run hOpen
      transactionId⟩)
    (fun _ h => ((h.stage rfl).flushed).forget _)
    (fun _ => WriteAheadLog.flushed_closed _)
    fun core hJ => ?_).raises (fun _ _ h => h.elim)
  have hEnded := hStable core _ hJ
    (.ended .commit transactionId (by simp))
  have hFlushed := hStable _ _ hEnded .flushed
  exact hStable _ _ hFlushed (.forgot transactionId)

theorem logAbort_keeps
    (hStable : Stable Allowed J)
    (transactionId : Nat) :
    Keeps J (logAbort (π := π) transactionId) := by
  unfold logAbort
  refine Triple.bind (Q := fun _ => Ready J) ?_
    fun _ => Triple.pure fun _ h => h
  refine (onLog_keeps
    (fun log => (log.stage (log.endRecord .abort
      transactionId)).forget transactionId)
    (fun _ hOpen => ⟨_, WriteAheadLog.abort_run hOpen
      transactionId⟩)
    (fun _ h => (h.stage rfl).forget _) (fun _ => rfl)
    fun core hJ => ?_).raises (fun _ _ h => h.elim)
  have hEnded := hStable core _ hJ
    (.ended .abort transactionId (by simp))
  exact hStable _ _ hEnded (.forgot transactionId)

/- No transaction is open, here and while the pool works. -/
theorem idle_calm (hCalm : Calm J) :
    Calm fun core : Core π =>
      J core ∧ core.transactions.running = [] := by
  intro core core' hCore hQuiet
  refine ⟨hCalm core core' hCore.1 hQuiet, ?_⟩
  cases hQuiet <;> exact hCore.2

theorem stampNextXid_keeps (hStable : Stable Allowed J) :
    Triple
      (Ready fun core => J core ∧
        core.transactions.running = [])
      (stampNextXid (π := π))
      (fun _ => Ready fun core => J core ∧
        core.transactions.running = [])
      (fun _ _ => False) := by
  refine Triple.modify fun engine hReady => ?_
  rcases hReady with ⟨hGood, hJ, hIdle⟩
  by_cases hWatching : engine.watching = true
  · rw [if_pos hWatching]
    refine ⟨⟨hGood.sound, hGood.staged, hGood.walOpen,
      hGood.isOpen⟩, ?_, hIdle⟩
    exact hStable engine.core _ hJ
      (.stamped hWatching hIdle)
  · rw [if_neg hWatching]
    exact ⟨hGood, hJ, hIdle⟩

/- The meta page rewritten around the pool and the log. -/
theorem writeMetaDirectly_spec
    (checkpointLsn : Nat)
    {J : Core π → Prop}
    (hWritten : ∀ core, J core →
      K (core.metaWritten checkpointLsn)) :
    Triple (Ready J) (writeMetaDirectly checkpointLsn)
      (fun _ => Ready K) (fun _ _ => False) := by
  rintro engine ⟨hGood, hJ⟩
  refine ⟨⟨hGood.sound.release _, hGood.staged,
    hGood.walOpen, hGood.isOpen⟩, ?_⟩
  have hCore := hWritten engine.core hJ
  unfold Core.metaWritten at hCore
  unfold Engine.core at hCore ⊢
  simp only [BufferPool.cached_release]
  exact hCore

/- The log cut off, the meta page still to be written. -/
def CutOff
    (J : Core π → Prop)
    (core : Core π) : Prop :=
  ∃ before : Core π, J before ∧
    core = { before with
      files := { before.files with
        wal := before.files.wal.truncated }.note
          .logTruncated }

theorem checkpointLog_spec (hStable : Stable Allowed J) :
    Triple
      (Ready fun core => J core ∧
        core.transactions.running = [])
      (checkpointLog (π := π))
      (fun _ => Ready (CutOff fun core =>
        (J core ∧ core.transactions.running = []) ∧
          (∀ pageId frame,
            core.cache pageId = some frame →
            frame.dirty = false) ∧
          core.files.wal.buffer = []))
      (fun _ _ => False) := by
  unfold checkpointLog
  refine Triple.bind
    (flushPool_spec (idle_calm hStable.calm)) fun _ => ?_
  refine Triple.bind
    (Q := fun _ => Ready fun core =>
      (J core ∧ core.transactions.running = []) ∧
        (∀ pageId frame, core.cache pageId = some frame →
          frame.dirty = false) ∧
        core.files.wal.buffer = []) ?_ fun _ => ?_
  · refine (changeLog_keeps (J := fun core =>
        (J core ∧ core.transactions.running = []) ∧
          ∀ pageId frame, core.cache pageId = some frame →
            frame.dirty = false) .logFlushed
      (fun log => (log.stage (log.endRecord .checkpoint
        noTransaction)).flushed)
      (fun _ hOpen =>
        ⟨_, WriteAheadLog.appendCheckpoint_run hOpen⟩)
      (fun _ h => (h.stage rfl).flushed)
      (fun _ => WriteAheadLog.flushed_closed _)
      fun core hCore => ?_).pre (fun _ h => ⟨h.1.1, h.1.2, h.2⟩)
    have hEnded := hStable core _ hCore.1.1
      (.ended .checkpoint noTransaction (by simp))
    exact ⟨⟨hStable _ _ hEnded .flushed, hCore.1.2⟩,
      hCore.2, WriteAheadLog.flushed_buffer _⟩
  · exact changeLog_keeps .logTruncated
      WriteAheadLog.truncated
      (fun _ _ => ⟨(), WriteAheadLog.truncate_run⟩)
      (fun _ h => h.truncated) (fun _ => rfl)
      fun core hCore => ⟨core, hCore, rfl⟩

/-
  A checkpoint with no transaction open: pages, then the
  CHECKPOINT record, then the log cut off and the meta page
  rewritten.
-/
theorem checkpoint_keeps (hStable : Stable Allowed J) :
    Triple
      (Ready fun core => J core ∧
        core.transactions.running = [])
      (checkpoint (π := π))
      (fun _ => Ready fun core =>
        (J core ∧ core.transactions.running = []) ∧
          ∀ pageId frame, core.cache pageId = some frame →
            frame.dirty = false)
      (fun _ => Ready J) := by
  unfold checkpoint checkpointLog
  refine Triple.bind
    (ensureOpen_keeps.raises (fun _ _ h => ⟨h.1, h.2.1⟩))
    fun _ => ?_
  refine Triple.bind
    ((stampNextXid_keeps hStable).raises (fun _ _ h => h.elim)) fun _ => ?_
  refine Triple.bind
    ((checkpointLog_spec hStable).raises (fun _ _ h => h.elim)) fun _ => ?_
  refine Triple.read fun engine hReady => ?_
  refine (writeMetaDirectly_spec
    (J := fun core => core = engine.core)
    engine.files.wal.baseLsn ?_).weaken
    (fun _ h => ⟨h ▸ hReady.1, by rw [h]⟩) (fun _ _ h => h)
    (fun _ _ h => h.elim)
  rintro core rfl
  rcases hReady.2 with ⟨before, ⟨⟨hJ, hIdle⟩, hClean⟩, hCut⟩
  have hBase : engine.files.wal.baseLsn =
      before.files.wal.truncated.baseLsn := by
    have hSame := congrArg
      (fun core : Core π => core.files.wal.baseLsn) hCut
    exact hSame
  rw [hCut, hBase]
  refine ⟨⟨hStable before _ hJ
    (.checkpointed hClean.1 hClean.2 hIdle), hIdle⟩, ?_⟩
  intro pageId frame hFrame
  simp only [Core.metaWritten, Function.update_apply]
    at hFrame
  split at hFrame
  · cases hFrame
  · exact hClean.1 pageId frame hFrame

/- A clean engine let go of: nothing is written any more. -/
theorem closeLog_run
    {engine : Engine π}
    (hOpen : engine.files.wal.closed = false)
    (hClean : ∀ pageId frame,
      engine.core.cache pageId = some frame →
      frame.dirty = false) :
    ∃ pool : BufferPool (PageImage π),
      (pool.cached = fun _ => none) ∧
      (closeLog (π := π)).run engine =
        .ok () { engine with
          pool := pool
          files := { engine.files with
            wal := { engine.files.wal.flushed with
              closed := true } }.note .logFlushed
          closed := true } := by
  have hClose := Files.changeLog_run .logFlushed
    (WriteAheadLog.close_run hOpen)
  have hFlush :
      (flushPool (π := π)).run
          { engine with
            files := { engine.files with
              wal := { engine.files.wal.flushed with
                closed := true } }.note .logFlushed } =
        .ok () { engine with
          files := { engine.files with
            wal := { engine.files.wal.flushed with
              closed := true } }.note .logFlushed } := by
    unfold flushPool
    rw [EStateM.run_bind, EStateM.run_get]
    simp only [onPool, run_focus]
    rw [BufferPool.flush_of_clean hClean]
  unfold closeLog
  simp only [EStateM.run_bind, onFiles, run_focus, hClose,
    hFlush]
  exact ⟨_, rfl, rfl⟩

theorem closeLog_keeps (hStable : Stable Allowed J) :
    Triple
      (Ready fun core => J core ∧
        ∀ pageId frame, core.cache pageId = some frame →
          frame.dirty = false)
      (closeLog (π := π))
      (fun _ engine => J engine.core ∧ engine.closed = true)
      (fun _ _ => False) := by
  rintro engine ⟨hGood, hJ, hClean⟩
  rcases closeLog_run hGood.walOpen hClean with
    ⟨pool, hEmpty, hRun⟩
  have hFlushed := hStable _ _ hJ .flushed
  have hShut := hStable _ _ hFlushed
    (.shut (WriteAheadLog.flushed_buffer _))
  have hCleared := hStable.calm _ _ hShut (.clear hClean)
  rw [hRun]
  refine ⟨?_, rfl⟩
  unfold Engine.core
  rw [hEmpty]
  exact hCleared

theorem close_keeps (hStable : Stable Allowed J) :
    Triple
      (Ready fun core => J core ∧
        core.transactions.running = [])
      (close (π := π))
      (fun _ engine => J engine.core ∧ engine.closed = true)
      (fun _ => Ready J) := by
  unfold close
  refine Triple.read fun engine hReady => ?_
  refine Triple.ite (fun hClosed => ?_) fun _ => ?_
  · have hOpen := hReady.1.isOpen
    rw [hOpen] at hClosed
    cases hClosed
  · refine Triple.bind
      ((checkpoint_keeps hStable).pre
        (fun _ h => h ▸ hReady)) fun _ => ?_
    exact (closeLog_keeps hStable).weaken
      (fun _ h => ⟨h.1, h.2.1.1, h.2.2⟩) (fun _ _ h => h)
      (fun _ _ h => h.elim)

end Pager

end Storage

end ChenDB
