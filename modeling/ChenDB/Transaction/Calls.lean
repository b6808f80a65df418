import ChenDB.Storage.Steps
import ChenDB.Transaction.Control

/-
  The calls an open engine takes, each a run of the steps of
  its core, so whatever every step keeps every call keeps.
-/

--
-- Calls
--

namespace ChenDB

namespace Database

open Library.StateExcept
open Storage
open Storage.Pager (Keeps fromExcept)
open Transaction (IsolationLevel OpenTransaction
  TransactionManager UndoRecord)
open Wal (LogRecord WriteAheadLog noTransaction)

variable {π : Type}

/- The fields of the meta page that are the catalog's. -/
structure CatalogPages where
  tablesFirst : PageId
  tablesLast : PageId
  columnsFirst : PageId
  columnsLast : PageId
  indexesFirst : PageId
  indexesLast : PageId
  nextObjectId : Nat
deriving DecidableEq, Repr

/- The meta page with these fields in it. -/
def CatalogPages.install
    (pages : CatalogPages)
    (page : MetaPage) : MetaPage :=
  { page with
    catalogTablesFirst := pages.tablesFirst
    catalogTablesLast := pages.tablesLast
    catalogColumnsFirst := pages.columnsFirst
    catalogColumnsLast := pages.columnsLast
    catalogIndexesFirst := pages.indexesFirst
    catalogIndexesLast := pages.indexesLast
    nextObjectId := pages.nextObjectId }

/- What a session may ask of the engine. -/
inductive Call (π : Type) where
  | readRaw (pageId : PageId)
  | readPage (pageId : PageId)
  | writePage (pageId : PageId) (page : Page π)
  | allocatePage (pageType : PageType)
  | freePage (pageId : PageId)
  | editMeta (pages : CatalogPages)
  | flushMeta
  | sync
  | flushPool
  | logCommit (transactionId : Nat)
  | logAbort (transactionId : Nat)
  | begin (implicit : Bool) (isolation : IsolationLevel)
  | markFailed
  | commit
  | rollback
  | checkpoint
  | close
deriving DecidableEq, Repr

/- A call, for what it does and not for what it returns. -/
def perform : Call π → EngineM π Unit
  | .readRaw pageId => do
      let _ ← Pager.readRaw pageId
  | .readPage pageId => do
      let _ ← Pager.readPage pageId
  | .writePage pageId page => Pager.writePage pageId page
  | .allocatePage pageType => do
      let _ ← Pager.allocatePage pageType
  | .freePage pageId => Pager.freePage pageId
  | .editMeta pages => Pager.editMeta pages.install
  | .flushMeta => Pager.flushMeta
  | .sync => Pager.sync
  | .flushPool => Pager.flushPool
  | .logCommit transactionId =>
    Pager.logCommit transactionId
  | .logAbort transactionId => Pager.logAbort transactionId
  | .begin implicit isolation => begin implicit isolation
  | .markFailed => do
      let engine ← get
      manage fun manager =>
        manager.markFailed engine.session
  | .commit => do
      let _ ← commit
  | .rollback => do
      let _ ← rollback
  | .checkpoint => checkpoint
  | .close => close

/- The pages a call writes are pages its caller may write. -/
def Call.Within
    (Allowed : PageId → Page π → Prop) : Call π → Prop
  | .writePage pageId page => Allowed pageId page
  | _ => True

--
-- Transaction Control
--

variable {Allowed : PageId → Page π → Prop} {J : Core π → Prop}

theorem ensureOpen_keeps :
    Keeps J (ensureOpen (π := π)) := by
  unfold ensureOpen
  refine Triple.read fun engine hReady => ?_
  refine Triple.ite (fun _ => Triple.throw ?_)
    fun _ => Triple.pure ?_
  all_goals
    rintro current rfl
    exact hReady

theorem manage_keeps
    (hStable : Stable Allowed J)
    {f : TransactionManager (PageImage π) →
      TransactionManager (PageImage π)}
    (hManaged : ∀ manager, Core.Managed manager (f manager)) :
    Keeps J (manage f) := by
  refine Pager.modify_keeps hStable ?_ ?_
  · intro engine hGood
    exact ⟨hGood.sound, hGood.staged, hGood.walOpen,
      hGood.isOpen⟩
  · intro engine _ _
    exact .managed (hManaged engine.transactions)

theorem markFailed_keeps (hStable : Stable Allowed J) :
    Keeps J (perform (π := π) .markFailed) := by
  refine Triple.read fun engine hReady => ?_
  refine (manage_keeps hStable fun manager => ?_).pre
    (fun _ h => h ▸ hReady)
  exact .updated fun _ => rfl

theorem begin_keeps
    (hStable : Stable Allowed J)
    (implicit : Bool)
    (isolation : IsolationLevel) :
    Keeps J (begin (π := π) implicit isolation) := by
  unfold begin
  refine ensureOpen_keeps.bind fun _ => ?_
  refine Triple.read fun engine hReady => ?_
  refine Triple.bind
    ((Pager.fromExcept_keeps (P := fun current =>
      current = engine) _).raises (fun _ _ h => h ▸ hReady))
    fun manager => ?_
  refine Triple.modify fun current hCurrent => ?_
  rcases hCurrent with ⟨rfl, hBegun⟩
  have hGood := hReady.1
  exact ⟨⟨hGood.sound, hGood.staged, hGood.walOpen,
    hGood.isOpen⟩, hStable _ _ hReady.2
      (.managed (.begun hBegun))⟩

theorem Calm.and
    {J K : Core π → Prop}
    (hJ : Calm J)
    (hK : Calm K) :
    Calm fun core => J core ∧ K core :=
  fun core core' hCore hQuiet =>
    ⟨hJ core core' hCore.1 hQuiet, hK core core' hCore.2 hQuiet⟩

/- What the pages put back are taken from stays there while
   they are put back. -/
structure Sources
    (pageId : PageId)
    (image : PageImage π)
    (Allowed : PageId → Page π → Prop)
    (P : Core π → Prop) : Prop where
  calm : Calm P
  logged : ∀ core, P core →
    P (core.logged pageId noTransaction .empty image)
  writes : ∀ core, P core → core.Writes Allowed pageId image

/- Putting a page back, while its source is there. -/
theorem restorePage_keeps
    (hStable : Stable Allowed J)
    {P : Core π → Prop}
    {pageId : PageId}
    {image : PageImage π}
    (hSources : Sources pageId image Allowed P) :
    Keeps (fun core => J core ∧ P core)
      (Pager.restorePage pageId image) := by
  unfold Pager.restorePage
  refine Pager.ensureOpen_keeps.bind fun _ => ?_
  have hCalm := Calm.and hStable.calm hSources.calm
  refine Pager.writeAt_spec hCalm hCalm _ _ _ _ ?_
  intro core core' transactionId before hCore hAnswers
    hLength
  have hWrites : core'.Writes Allowed pageId image := by
    rw [hAnswers.1]
    exact hSources.writes core hCore.2
  have hStep := Core.Step.changed "rollback" false hAnswers
    hWrites hLength
  refine ⟨hStable core _ hCore.1 hStep, ?_⟩
  rcases hAnswers with ⟨rfl, rfl, rfl⟩
  exact hSources.logged _ hCore.2

section Undo

variable {I : Core π → Prop}

/- What a run of the undo log keeps is what each of its
   restores keeps. -/
theorem applyUndo_run
    (records : List (UndoRecord (PageImage π)))
    (hRestore : ∀ record ∈ records,
      Keeps I (Pager.restorePage record.pageId
        record.beforeImage)) :
    Keeps I (applyUndo records) := by
  induction records with
  | nil => exact Triple.pure fun _ h => h
  | cons record rest ih =>
    refine (hRestore record (.head _)).bind fun _ => ?_
    exact ih fun later hLater =>
      hRestore later (.tail _ hLater)

/- The same of the records that the log hands back. -/
theorem restoreRecords_run
    {transactionId : Nat}
    (records : List (LogRecord (PageImage π)))
    (hRestore : ∀ record ∈ records,
      record.transactionId = transactionId →
      record.hasUndo = true →
      Keeps I (Pager.restorePage record.pageId
        record.beforeImage))
    (restored : List PageId) :
    Keeps I
      (restoreRecords transactionId records restored) := by
  induction records generalizing restored with
  | nil => exact Triple.pure fun _ h => h
  | cons record rest ih =>
    have hRest := ih fun later hLater =>
      hRestore later (.tail _ hLater)
    unfold restoreRecords
    refine Triple.ite (fun _ => hRest restored)
      fun hUndo => ?_
    refine Triple.ite (fun _ => hRest restored)
      fun _ => ?_
    rw [not_or, not_not, not_not] at hUndo
    exact (hRestore record (.head _) hUndo.1 hUndo.2).bind
      fun _ => hRest _

/- The log is flushed, read, and its records put back. -/
theorem restoreFromWal_run
    {transactionId : Nat}
    (hFlush : Triple (Ready I)
      (Pager.onFiles (Files.changeLog .logFlushed
        WriteAheadLog.flush))
      (fun _ => Ready I) (fun _ _ => False))
    (hRestore : ∀ engine, Ready I engine →
      Triple (fun current => current = engine)
        (restoreRecords transactionId engine.core.readable [])
        (fun _ => Ready I) (fun _ => Ready I)) :
    Keeps I (restoreFromWal transactionId) := by
  unfold restoreFromWal
  refine Triple.bind (hFlush.raises fun _ _ h => h.elim)
    fun _ => ?_
  refine Triple.start fun engine hReady => ?_
  have hRead :
      (Files.onLog WriteAheadLog.readAll).run
          engine.files = _ :=
    Files.onLog_run
      (WriteAheadLog.readAll_run hReady.1.walOpen)
  refine Triple.bind
    (Q := fun found current => current = engine ∧
      found.1 = engine.core.readable) ?_ fun found => ?_
  · rintro current rfl
    rw [Pager.onFiles, run_focus, hRead]
    exact ⟨rfl, rfl⟩
  · refine Triple.start fun current hCurrent => ?_
    rcases hCurrent with ⟨rfl, hFound⟩
    simp only [hFound]
    exact hRestore current hReady

end Undo

/- The open transactions are those of a fixed manager. -/
def Managing
    (manager : TransactionManager (PageImage π))
    (core : Core π) : Prop :=
  core.transactions = manager

variable {manager : TransactionManager (PageImage π)}
variable {transaction : OpenTransaction (PageImage π)}

/- The images of the undo log of an open transaction. -/
theorem sources_of_undo
    (Allowed : PageId → Page π → Prop)
    (hOpen : transaction ∈ manager.running)
    {record : UndoRecord (PageImage π)}
    (hRecord : record ∈ transaction.undo.records) :
    Sources record.pageId record.beforeImage Allowed
      (Managing manager) where
  calm := by
    intro core core' hCore hQuiet
    cases hQuiet <;> exact hCore
  logged := fun _ h => h
  writes := fun core hCore =>
    .undone (hCore ▸ hOpen) hRecord rfl

theorem applyUndo_keeps
    (hStable : Stable Allowed J)
    (hOpen : transaction ∈ manager.running)
    (records : List (UndoRecord (PageImage π)))
    (hRecords : ∀ record ∈ records,
      record ∈ transaction.undo.records) :
    Keeps (fun core => J core ∧ Managing manager core)
      (applyUndo records) :=
  applyUndo_run records fun record hMem =>
    restorePage_keeps hStable
      (sources_of_undo Allowed hOpen (hRecords record hMem))

variable {session : String}

theorem mem_of_activeIn
    (hActive :
      manager.activeIn session = some transaction) :
    transaction ∈ manager.running :=
  List.mem_of_find?_eq_some hActive

theorem requireActive_ok
    {what : String}
    (hActive : manager.requireActive what session =
      .ok transaction) :
    manager.activeIn session = some transaction := by
  unfold TransactionManager.requireActive at hActive
  split at hActive
  · cases hActive
  · rename_i found hFound
    cases hActive
    exact hFound

theorem undoActive_keeps (hStable : Stable Allowed J) :
    Keeps J (undoActive (π := π)) := by
  unfold undoActive
  refine Triple.read fun engine hReady => ?_
  refine Triple.bind
    ((Pager.fromExcept_keeps (P := fun current =>
      current = engine) _).raises (fun _ _ h => h ▸ hReady))
    fun transaction => ?_
  refine Triple.start fun current hCurrent => ?_
  rcases hCurrent with ⟨rfl, hActive⟩
  have hOpen := mem_of_activeIn (requireActive_ok hActive)
  refine Triple.bind (Q := fun _ => Ready J) ?_ fun _ => ?_
  · refine (applyUndo_keeps hStable hOpen
      transaction.undo.rewind fun record hRecord => by
        simpa [Transaction.UndoLog.rewind] using
          hRecord).weaken (fun _ h => ?_)
      (fun _ _ h => ⟨h.1, h.2.1⟩)
      (fun _ _ h => ⟨h.1, h.2.1⟩)
    rw [h]
    exact ⟨hReady.1, hReady.2, rfl⟩
  · refine Triple.bind (Q := fun _ => Ready J) ?_
      fun _ => Triple.pure fun _ h => h
    exact manage_keeps hStable fun _ => .retired

variable {record : LogRecord (PageImage π)}

/- What the log hands back it still hands back when more has
   been written after it. -/
theorem mem_scan_append
    {base offset : Nat}
    {file : List (LogRecord (PageImage π))}
    (hRecord :
      record ∈ (WriteAheadLog.scan base offset file).1)
    (later : List (LogRecord (PageImage π))) :
    record ∈
      (WriteAheadLog.scan base offset (file ++ later)).1 := by
  induction file generalizing offset with
  | nil => simp [WriteAheadLog.scan] at hRecord
  | cons first rest ih =>
    rw [List.cons_append]
    unfold WriteAheadLog.scan at hRecord ⊢
    split at hRecord
    · rename_i hPlaced
      rw [if_pos hPlaced]
      rcases List.mem_cons.mp hRecord with rfl | hLater
      · simp
      · exact .tail _ (ih hLater)
    · cases hRecord

/- No quiet step takes a record out of the log. -/
theorem readable_quiet
    {core core' : Core π}
    (hQuiet : core.Quiet core')
    (hRecord : record ∈ core.readable) :
    record ∈ core'.readable := by
  cases hQuiet with
  | writeBack hFrame =>
    unfold Core.readable Files.writtenBack Files.note
      at *
    simp only
    split
    · rw [WriteAheadLog.flushed_baseLsn,
        WriteAheadLog.flushed_file]
      exact mem_scan_append hRecord _
    · exact hRecord
  | _ => exact hRecord

/- These records can be read from the log. -/
def Reading
    (records : List (LogRecord (PageImage π)))
    (core : Core π) : Prop :=
  ∀ record ∈ records, record ∈ core.readable

/- The images that the log still hands back. -/
theorem sources_of_log
    (Allowed : PageId → Page π → Prop)
    {records : List (LogRecord (PageImage π))}
    (hRecord : record ∈ records)
    (hUndo : record.hasUndo = true) :
    Sources record.pageId record.beforeImage Allowed
      (Reading records) where
  calm := fun _ _ hCore hQuiet later hLater =>
    readable_quiet hQuiet (hCore later hLater)
  logged := by
    intro core hCore later hLater
    simpa [Core.readable, Core.logged] using
      hCore later hLater
  writes := fun core hCore =>
    .replayed (hCore record hRecord) hUndo rfl

theorem restoreFromWal_keeps
    (hStable : Stable Allowed J)
    (transactionId : Nat) :
    Keeps J (restoreFromWal (π := π) transactionId) := by
  refine restoreFromWal_run (Pager.flushLog_keeps hStable)
    fun engine hReady => ?_
  refine (restoreRecords_run engine.core.readable
    (fun record hRecord _ hUndo => restorePage_keeps hStable
      (sources_of_log Allowed hRecord hUndo)) []).weaken
    (fun _ h => ?_) (fun _ _ h => ⟨h.1, h.2.1⟩)
    (fun _ _ h => ⟨h.1, h.2.1⟩)
  rw [h]
  exact ⟨hReady.1, hReady.2, fun _ hRecord => hRecord⟩

/- Out of memory, or out of the log after an overflow. -/
theorem rollback_keeps (hStable : Stable Allowed J) :
    Keeps J (rollback (π := π)) := by
  unfold rollback
  refine ensureOpen_keeps.bind fun _ => ?_
  refine Triple.read fun engine hReady => ?_
  refine Triple.bind (Q := fun _ => Ready J) ?_ fun _ => ?_
  · refine Triple.weaken (P := Ready J) ?_
      (fun _ h => h ▸ hReady) (fun _ _ h => h)
      (fun _ _ h => h)
    unfold restoreOverflow
    split
    · exact Triple.pure fun _ h => h
    · split
      · exact restoreFromWal_keeps hStable _
      · exact Triple.pure fun _ h => h
  · refine (undoActive_keeps hStable).bind
      fun transaction => ?_
    refine (Pager.logAbort_keeps hStable _).bind fun _ => ?_
    refine (Pager.reloadMeta_keeps hStable).bind fun _ => ?_
    exact Triple.pure fun _ h => h

/- A commit only retires the transaction. -/
theorem commit_retires
    {committed : TransactionManager (PageImage π) ×
      OpenTransaction (PageImage π)}
    (hCommit : manager.commit session = .ok committed) :
    committed.1 = manager.retire session := by
  unfold TransactionManager.commit at hCommit
  cases hActive : manager.requireActive "COMMIT" session with
  | error raised =>
    rw [hActive] at hCommit
    cases hCommit
  | ok transaction =>
    rw [hActive] at hCommit
    change (if transaction.state = .failed then _
      else _) = _ at hCommit
    split at hCommit
    · cases hCommit
    · cases hCommit
      rfl

/- A failed transaction is rolled back instead. -/
theorem commit_keeps (hStable : Stable Allowed J) :
    Keeps J (commit (π := π)) := by
  unfold commit
  refine ensureOpen_keeps.bind fun _ => ?_
  refine Triple.read fun engine hReady => ?_
  refine Triple.ite (fun _ => ?_) fun _ => ?_
  · exact (rollback_keeps hStable).pre (fun _ h => h ▸ hReady)
  · refine Triple.bind
      ((Pager.fromExcept_keeps (P := fun current =>
        current = engine) _).raises (fun _ _ h => h ▸ hReady))
      fun committed => ?_
    refine Triple.start fun current hCurrent => ?_
    rcases hCurrent with ⟨rfl, hCommit⟩
    have hManager := commit_retires hCommit
    refine Triple.bind (Q := fun _ => Ready J) ?_
      fun _ => ?_
    · refine Triple.modify fun after hSame => ?_
      subst hSame
      have hGood := hReady.1
      refine ⟨⟨hGood.sound, hGood.staged, hGood.walOpen,
        hGood.isOpen⟩, ?_⟩
      rw [hManager]
      exact hStable _ _ hReady.2 (.managed .retired)
    · refine (Pager.logCommit_keeps hStable _).bind
        fun _ => ?_
      exact Triple.pure fun _ h => h

--
-- Checkpoint and Close
--

/- It is refused while a transaction is open. -/
theorem checkpoint_keeps (hStable : Stable Allowed J) :
    Keeps J (checkpoint (π := π)) := by
  unfold checkpoint
  refine ensureOpen_keeps.bind fun _ => ?_
  refine Triple.read fun engine hReady => ?_
  refine Triple.ite (fun _ => Triple.throw fun _ h =>
    h ▸ hReady) fun hIdle => ?_
  refine (Pager.checkpoint_keeps hStable).weaken
    (fun _ h => ?_) (fun _ _ h => ⟨h.1, h.2.1.1⟩)
    (fun _ _ h => h)
  subst h
  refine ⟨hReady.1, hReady.2, ?_⟩
  simpa [TransactionManager.anyOpen, Engine.core]
    using hIdle

theorem inSession_keeps
    {α : Type}
    (hStable : Stable Allowed J)
    {program : EngineM π α}
    (hKeeps : Keeps J program)
    (session : String) :
    Keeps J (inSession session program) := by
  have hJoin : ∀ (engine : Engine π) (session : String),
      Ready J engine →
        Ready J { engine with session := session } := by
    intro engine session hReady
    have hGood := hReady.1
    exact ⟨⟨hGood.sound, hGood.staged, hGood.walOpen,
      hGood.isOpen⟩, hStable _ _ hReady.2 .joined⟩
  unfold inSession
  refine Triple.focus fun engine hReady => ?_
  refine hKeeps.weaken (fun _ h => ?_)
    (fun _ part h => hJoin part engine.session h)
    (fun _ part h => hJoin part engine.session h)
  rw [h]
  exact hJoin engine session hReady

theorem rollbackAll_keeps
    (hStable : Stable Allowed J)
    (sessions : List String) :
    Keeps J (rollbackAll (π := π) sessions) := by
  induction sessions with
  | nil => exact Triple.pure fun _ h => h
  | cons session rest ih =>
    unfold rollbackAll
    exact (inSession_keeps hStable (rollback_keeps hStable)
      session).bind fun _ => ih

--
-- What Leaves the Transactions Alone
--

/- Transactions, session and what recovery found are those
   of another state. -/
structure Unmoved
    (start engine : Engine π) : Prop where
  transactions : engine.transactions = start.transactions
  session : engine.session = start.session
  watching : engine.watching = start.watching
  recovery : engine.recovery = start.recovery

/- A program that neither captures nor ends anything. -/
abbrev Leaves
    {α : Type}
    (program : EngineM π α) : Prop :=
  ∀ start,
    Triple (Unmoved start) program (fun _ => Unmoved start)
      (fun _ => Unmoved start)

section Leaves

variable {α β : Type}

/- The rules, for every state before alike. -/
theorem Leaves.bind
    {program : EngineM π α}
    {next : α → EngineM π β}
    (hFirst : Leaves program)
    (hNext : ∀ value, Leaves (next value)) :
    Leaves (program >>= next) :=
  fun start =>
    (hFirst start).bind fun value => hNext value start

theorem Leaves.pure (value : α) :
    Leaves (Pure.pure value : EngineM π α) :=
  fun _ => Triple.pure fun _ h => h

theorem Leaves.throw (raised : EngineError) :
    Leaves (throw raised : EngineM π α) :=
  fun _ => Triple.throw fun _ h => h

theorem Leaves.get :
    Leaves (get : EngineM π (Engine π)) :=
  fun _ => Triple.get fun _ h => h

theorem Leaves.ite
    {c : Prop} [Decidable c]
    {yes no : EngineM π α}
    (hYes : Leaves yes)
    (hNo : Leaves no) :
    Leaves (if c then yes else no) :=
  fun start =>
    Triple.ite (fun _ => hYes start) fun _ => hNo start

theorem Leaves.modify
    {f : Engine π → Engine π}
    (hSame : ∀ engine, Unmoved engine (f engine)) :
    Leaves (modify f) := by
  intro start
  refine Triple.modify fun engine hEngine => ?_
  have hChanged := hSame engine
  exact ⟨hChanged.transactions.trans hEngine.transactions,
    hChanged.session.trans hEngine.session,
    hChanged.watching.trans hEngine.watching,
    hChanged.recovery.trans hEngine.recovery⟩

/- The fields are no part of the pool. -/
theorem leaves_onPool
    (program : PoolM (Files π) (PageImage π) α) :
    Leaves (Pager.onPool program) := by
  intro start
  refine Triple.focus fun engine hEngine => ?_
  rcases hEngine with ⟨hManager, hSession, hWatching, hFound⟩
  intro part _
  cases program.run part with
  | ok value final =>
    exact ⟨hManager, hSession, hWatching, hFound⟩
  | error raised final =>
    exact ⟨hManager, hSession, hWatching, hFound⟩

theorem leaves_onFiles (program : FilesM π α) :
    Leaves (Pager.onFiles program) := by
  intro start
  refine Triple.focus fun engine hEngine => ?_
  rcases hEngine with ⟨hManager, hSession, hWatching, hFound⟩
  intro part _
  cases program.run part with
  | ok value final =>
    exact ⟨hManager, hSession, hWatching, hFound⟩
  | error raised final =>
    exact ⟨hManager, hSession, hWatching, hFound⟩

theorem leaves_fromExcept
    (outcome : Except EngineError α) :
    Leaves (fromExcept outcome : EngineM π α) := by
  cases outcome with
  | ok value => exact Leaves.pure value
  | error raised => exact Leaves.throw raised

theorem leaves_fetch (pageId : PageId) :
    Leaves (Pager.fetch (π := π) pageId) :=
  Leaves.get.bind fun _ => leaves_onPool _

theorem leaves_logStore
    (pageSize : Nat)
    (pageId : PageId)
    (raw : PageImage π)
    (intent : Option (WriteIntent π)) :
    Leaves (do
      let stamped ← Pager.logChange pageId raw intent
      Pager.onPool (BufferPool.store (Pager.poolEnv pageSize)
        pageId stamped)) := by
  refine Leaves.bind ?_ fun stamped => leaves_onPool _
  refine (leaves_onFiles _).bind fun record => ?_
  refine Leaves.bind (Leaves.modify fun engine => ?_)
    fun _ => Leaves.pure _
  split <;> exact ⟨rfl, rfl, rfl, rfl⟩

/- A write that is not captured. -/
theorem leaves_writeAt
    (pageId : PageId)
    (raw : PageImage π)
    (reason : String) :
    Leaves (Pager.writeAt pageId raw reason false) := by
  apply Leaves.get.bind
  intro engine
  apply Leaves.ite (Leaves.throw _)
  exact (Leaves.pure none).bind fun intent =>
    leaves_logStore _ _ _ intent

/- A write while no database watches. -/
theorem writeMeta_unwatched
    (start : Engine π)
    (hUnwatched : start.watching = false) :
    Triple (Unmoved start) (Pager.writeMeta (π := π))
      (fun _ => Unmoved start) (fun _ => Unmoved start) := by
  unfold Pager.writeMeta Pager.writeAt
  apply (Leaves.get start).bind
  intro engine
  apply (Leaves.get start).bind
  intro current
  apply Triple.ite (fun _ => Leaves.throw _ start)
  intro _
  refine Triple.bind (Q := fun _ => Unmoved start) ?_
    fun intent => leaves_logStore _ _ _ intent start
  unfold Pager.intentFor Pager.beforeWrite
  refine Triple.read fun engine hEngine => ?_
  refine Triple.ite (fun _ => Triple.pure ?_) fun hWatch => ?_
  · intro _ hSame
    rw [hSame]
    exact hEngine
  · rw [hEngine.watching, hUnwatched] at hWatch
    exact absurd Bool.false_ne_true hWatch

theorem leaves_restorePage
    (pageId : PageId)
    (image : PageImage π) :
    Leaves (Pager.restorePage pageId image) := by
  refine Leaves.bind ?_ fun _ => leaves_writeAt _ _ _
  exact Leaves.get.bind fun _ =>
    Leaves.ite (Leaves.throw _) (Leaves.pure _)

theorem leaves_applyUndo
    (records : List (UndoRecord (PageImage π))) :
    Leaves (applyUndo records) := by
  induction records with
  | nil => exact Leaves.pure _
  | cons record rest ih =>
    exact (leaves_restorePage _ _).bind fun _ => ih

theorem leaves_restoreRecords
    (transactionId : Nat)
    (records : List (LogRecord (PageImage π)))
    (restored : List PageId) :
    Leaves (restoreRecords transactionId records
      restored) := by
  induction records generalizing restored with
  | nil => exact Leaves.pure _
  | cons record rest ih =>
    unfold restoreRecords
    refine Leaves.ite (ih _) (Leaves.ite (ih _) ?_)
    exact (leaves_restorePage _ _).bind fun _ => ih _

/- Nothing to do without an overflow. -/
theorem leaves_restoreOverflow
    (active : Option (OpenTransaction (PageImage π))) :
    Leaves (restoreOverflow active) := by
  unfold restoreOverflow
  cases active with
  | none => exact Leaves.pure _
  | some transaction =>
    refine Leaves.ite ?_ (Leaves.pure _)
    refine (leaves_onFiles _).bind fun _ => ?_
    refine (leaves_onFiles _).bind fun found => ?_
    exact leaves_restoreRecords _ _ _

theorem leaves_logAbort (transactionId : Nat) :
    Leaves (Pager.logAbort (π := π) transactionId) :=
  (leaves_onFiles _).bind fun _ => Leaves.pure _

theorem leaves_reloadMeta :
    Leaves (Pager.reloadMeta (π := π)) := by
  refine (leaves_fetch _).bind fun found => ?_
  refine (leaves_fromExcept _).bind fun page => ?_
  exact Leaves.modify fun _ => ⟨rfl, rfl, rfl, rfl⟩

theorem leaves_flushPool :
    Leaves (Pager.flushPool (π := π)) :=
  Leaves.get.bind fun _ => leaves_onPool _

theorem leaves_writeMetaDirectly (checkpointLsn : Nat) :
    Leaves (Pager.writeMetaDirectly (π := π)
      checkpointLsn) := by
  unfold Pager.writeMetaDirectly
  refine Leaves.bind ?_ fun _ => Leaves.bind ?_ fun _ =>
    leaves_onPool _
  · exact Leaves.modify fun _ => ⟨rfl, rfl, rfl, rfl⟩
  · exact Leaves.modify fun _ => ⟨rfl, rfl, rfl, rfl⟩

theorem leaves_restartLog (report : Wal.RecoveryReport) :
    Leaves (Pager.restartLog (π := π) report) := by
  refine leaves_flushPool.bind fun _ => ?_
  refine Leaves.get.bind fun engine => ?_
  refine leaves_reloadMeta.bind fun _ => ?_
  refine (leaves_writeMetaDirectly _).bind fun _ => ?_
  refine (leaves_onFiles _).bind fun _ => ?_
  exact leaves_flushPool.bind fun _ => leaves_onPool _

theorem leaves_sync : Leaves (Pager.sync (π := π)) := by
  unfold Pager.sync Pager.ensureOpen
  refine Leaves.bind ?_ fun _ => ?_
  · exact Leaves.get.bind fun _ =>
      Leaves.ite (Leaves.throw _) (Leaves.pure _)
  · exact (leaves_onFiles _).bind fun _ => leaves_flushPool

theorem leaves_ensureOpen :
    Leaves (ensureOpen (π := π)) :=
  Leaves.get.bind fun _ =>
    Leaves.ite (Leaves.throw _) (Leaves.pure _)

end Leaves

/- A rollback ends the session's transaction and no other. -/
theorem rollback_retires (start : Engine π) :
    Triple (Unmoved start) (rollback (π := π))
      (fun _ => Unmoved { start with
        transactions :=
          start.transactions.retire start.session })
      (fun _ _ => True) := by
  have hWeak : ∀ {α : Type} {program : EngineM π α},
      Leaves program → ∀ start,
        Triple (Unmoved start) program
          (fun _ => Unmoved start) (fun _ _ => True) :=
    fun hLeaves start =>
      (hLeaves start).raises (fun _ _ _ => trivial)
  unfold rollback undoActive
  refine (hWeak leaves_ensureOpen _).bind fun _ => ?_
  refine (hWeak Leaves.get _).bind fun engine => ?_
  refine (hWeak (leaves_restoreOverflow _) _).bind
    fun _ => ?_
  refine Triple.bind (Q := fun _ =>
    Unmoved { start with
      transactions :=
        start.transactions.retire start.session }) ?_
    fun transaction => ?_
  · refine Triple.read fun current hCurrent => ?_
    refine Triple.weaken (P := Unmoved start) ?_
      (fun _ h => h ▸ hCurrent) (fun _ _ h => h)
      (fun _ _ h => h)
    refine (hWeak (leaves_fromExcept _) _).bind
      fun transaction => ?_
    refine (hWeak (leaves_applyUndo _) _).bind
      fun _ => ?_
    refine Triple.bind (Q := fun _ =>
      Unmoved { start with
        transactions :=
          start.transactions.retire start.session }) ?_
      fun _ => Triple.pure fun _ h => h
    refine Triple.modify fun last hLast => ?_
    refine ⟨?_, hLast.session, hLast.watching, hLast.recovery⟩
    simp only
    rw [hCurrent.session, hLast.transactions]
  · refine (hWeak (leaves_logAbort _) _).bind fun _ => ?_
    refine (hWeak leaves_reloadMeta _).bind fun _ => ?_
    exact Triple.pure fun _ h => h

/- By induction on the sessions: each is left idle. -/
theorem rollbackAll_idle (sessions : List String) :
    Triple
      (fun engine : Engine π =>
        ∀ transaction ∈ engine.transactions.running,
          transaction.session ∈ sessions)
      (rollbackAll sessions)
      (fun _ engine => engine.transactions.running = [])
      (fun _ _ => True) := by
  induction sessions with
  | nil =>
    refine Triple.pure fun engine hEngine => ?_
    rw [List.eq_nil_iff_forall_not_mem]
    intro transaction hMem
    exact absurd (hEngine transaction hMem) (by simp)
  | cons session rest ih =>
    unfold rollbackAll inSession
    refine Triple.bind (Triple.focus
      fun engine hEngine => ?_) fun _ => ih
    refine (rollback_retires
      { engine with session := session }).weaken
      (fun _ h => by
        rw [h]
        exact ⟨rfl, rfl, rfl, rfl⟩)
      (fun _ part hPart => ?_) (fun _ _ _ => trivial)
    intro transaction hMem
    have hRetired : transaction ∈
        (engine.transactions.retire session).running := by
      have hSame := hPart.transactions
      simp only at hSame
      rw [← hSame]
      exact hMem
    rcases List.mem_filter.mp hRetired with ⟨hOld, hOther⟩
    rcases List.mem_cons.mp (hEngine transaction hOld)
      with hSame | hLater
    · simp [hSame] at hOther
    · exact hLater

theorem close_keeps (hStable : Stable Allowed J) :
    Triple (Ready J) (close (π := π))
      (fun _ engine => J engine.core ∧ engine.closed = true)
      (fun _ => Ready J) := by
  unfold close
  refine Triple.read fun engine hReady => ?_
  refine Triple.ite (fun hClosed => ?_) fun _ => ?_
  · rw [hReady.1.isOpen] at hClosed
    cases hClosed
  · have hBoth := (rollbackAll_keeps hStable
      (sessions engine.transactions)).conj
        (rollbackAll_idle (sessions engine.transactions))
    refine Triple.bind (hBoth.weaken (fun _ h => ?_)
      (fun _ _ h => h) (fun _ _ h => h.1)) fun _ => ?_
    · rw [h]
      refine ⟨hReady, fun transaction hMem => ?_⟩
      unfold sessions
      rw [(List.perm_insertionSort _ _).mem_iff]
      exact List.mem_map.mpr ⟨transaction, hMem, rfl⟩
    · exact (Pager.close_keeps hStable).pre
        (fun _ h => ⟨h.1.1, h.1.2, h.2⟩)

--
-- All Calls
--

/- What holds after a call: the engine is ready for the next
   one, or it has been closed. -/
def Rests
    (J : Core π → Prop)
    (engine : Engine π) : Prop :=
  J engine.core ∧ (engine.Good ∨ engine.closed = true)

variable {call : Call π}

/- Only a close leaves an engine that is not ready. -/
theorem perform_ready
    (hStable : Stable Allowed J)
    (hWithin : call.Within Allowed)
    (hCall : call ≠ .close) :
    Keeps J (perform call) := by
  have hDone : ∀ {α : Type} {program : EngineM π α},
      Keeps J program →
        Keeps J (do let _ ← program) :=
    fun hKeeps => hKeeps.bind fun _ =>
      Triple.pure fun _ h => h
  cases call with
  | readRaw pageId =>
    exact hDone (Pager.readRaw_keeps hStable _)
  | readPage pageId =>
    exact hDone (Pager.readPage_keeps hStable _)
  | writePage pageId page =>
    exact Pager.writePage_keeps hStable hWithin
  | allocatePage pageType =>
    exact hDone (Pager.allocatePage_keeps hStable _)
  | freePage pageId => exact Pager.freePage_keeps hStable _
  | editMeta pages =>
    exact Pager.editMeta_keeps hStable
      fun _ => ⟨rfl, rfl, rfl, rfl⟩
  | flushMeta => exact Pager.writeMeta_keeps hStable
  | sync => exact Pager.sync_keeps hStable
  | flushPool =>
    exact (Pager.flushPool_spec hStable.calm).weaken
      (fun _ h => h) (fun _ _ h => h.1)
      (fun _ _ h => h.elim)
  | logCommit transactionId =>
    exact Pager.logCommit_keeps hStable _
  | logAbort transactionId =>
    exact Pager.logAbort_keeps hStable _
  | begin implicit isolation =>
    exact begin_keeps hStable _ _
  | markFailed => exact markFailed_keeps hStable
  | commit => exact hDone (commit_keeps hStable)
  | rollback => exact hDone (rollback_keeps hStable)
  | checkpoint => exact checkpoint_keeps hStable
  | close => exact absurd rfl hCall

/- A close may end at rest, any other call is ready. -/
theorem perform_keeps
    (hStable : Stable Allowed J)
    (hWithin : call.Within Allowed) :
    Triple (Ready J) (perform call) (fun _ => Rests J)
      (fun _ => Rests J) := by
  by_cases hCall : call = .close
  · rw [hCall]
    exact (close_keeps hStable).weaken (fun _ h => h)
      (fun _ _ h => ⟨h.1, .inr h.2⟩)
      (fun _ _ h => ⟨h.2, .inl h.1⟩)
  · exact (perform_ready hStable hWithin hCall).weaken
      (fun _ h => h) (fun _ _ h => ⟨h.2, .inl h.1⟩)
      (fun _ _ h => ⟨h.2, .inl h.1⟩)

end Database

end ChenDB
