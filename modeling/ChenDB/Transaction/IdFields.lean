import ChenDB.Serialization.Record
import ChenDB.Storage.SlottedPage
import ChenDB.Transaction.Lives

/-
  Transaction ids and the four-byte fields they are written
  to, over histories of opens, calls, closes and crashes.
-/

--
-- Calls That Hand Out No Id
--

namespace ChenDB

namespace Database

open Library.StateExcept
open Library.Struct (Fits encode)
open Serialization (addTupleHeader packUInt32)
open Storage
open Transaction (IsolationLevel TransactionManager)
open Wal (WriteAheadLog)

variable {π : Type}

/- The next id after the program is the one before it. -/
abbrev HandsOutNone
    {α : Type}
    (program : EngineM π α) : Prop :=
  ∀ next,
    Triple (fun engine => engine.transactions.nextId = next)
      program
      (fun _ engine => engine.transactions.nextId = next)
      (fun _ engine => engine.transactions.nextId = next)

section HandsOutNone

variable {α β : Type}

/- The next id is one of the fields that are left. -/
theorem Leaves.handsOutNone
    {program : EngineM π α}
    (hLeaves : Leaves program) :
    HandsOutNone program := by
  intro next
  refine Triple.start fun start hStart => ?_
  refine (hLeaves start).weaken ?_ ?_ ?_
  · rintro _ rfl
    exact ⟨rfl, rfl, rfl, rfl⟩
  · intro _ engine hEngine
    rw [hEngine.transactions]
    exact hStart
  · intro _ engine hEngine
    rw [hEngine.transactions]
    exact hStart

/- The rules, for every next id alike. -/
theorem HandsOutNone.bind
    {program : EngineM π α}
    {after : α → EngineM π β}
    (hFirst : HandsOutNone program)
    (hNext : ∀ value, HandsOutNone (after value)) :
    HandsOutNone (program >>= after) :=
  fun next => (hFirst next).bind fun value => hNext value next

theorem HandsOutNone.pure (value : α) :
    HandsOutNone (Pure.pure value : EngineM π α) :=
  (Leaves.pure value).handsOutNone

theorem HandsOutNone.throw (raised : EngineError) :
    HandsOutNone (throw raised : EngineM π α) :=
  (Leaves.throw raised).handsOutNone

theorem HandsOutNone.get :
    HandsOutNone (get : EngineM π (Engine π)) :=
  Leaves.get.handsOutNone

theorem HandsOutNone.ite
    {c : Prop} [Decidable c]
    {yes no : EngineM π α}
    (hYes : HandsOutNone yes)
    (hNo : HandsOutNone no) :
    HandsOutNone (if c then yes else no) :=
  fun next =>
    Triple.ite (fun _ => hYes next) fun _ => hNo next

theorem HandsOutNone.modify
    {f : Engine π → Engine π}
    (hSame : ∀ engine, (f engine).transactions.nextId =
      engine.transactions.nextId) :
    HandsOutNone (modify f) :=
  fun _ => Triple.modify fun engine hEngine =>
    (hSame engine).trans hEngine

theorem handsOutNone_ensureOpen :
    HandsOutNone (Pager.ensureOpen (π := π)) :=
  HandsOutNone.get.bind fun _ => .ite (.throw _) (.pure _)

theorem handsOutNone_checkPageId (pageId : PageId) :
    HandsOutNone (Pager.checkPageId (π := π) pageId) :=
  HandsOutNone.get.bind fun _ => .ite (.throw _) (.pure _)

theorem handsOutNone_beforeWrite
    (pageId : PageId)
    (reason : String) :
    HandsOutNone (Pager.beforeWrite (π := π) pageId
      reason) := by
  refine HandsOutNone.get.bind fun engine => ?_
  refine .ite (.pure _) ?_
  split
  · exact .pure _
  · refine .ite (.pure _) ?_
    refine (leaves_fetch _).handsOutNone.bind fun found => ?_
    refine HandsOutNone.bind (.modify fun _ => rfl)
      fun _ => ?_
    exact .pure _

/- A capture changes the transaction, not the next id. -/
theorem handsOutNone_writeAt
    (pageId : PageId)
    (raw : PageImage π)
    (reason : String)
    (capture : Bool) :
    HandsOutNone (Pager.writeAt pageId raw reason
      capture) := by
  refine HandsOutNone.get.bind fun engine => ?_
  refine .ite (.throw _) ?_
  refine HandsOutNone.bind ?_ fun intent =>
    (leaves_logStore _ _ _ intent).handsOutNone
  exact .ite (handsOutNone_beforeWrite _ _) (.pure _)

theorem handsOutNone_writeMeta :
    HandsOutNone (Pager.writeMeta (π := π)) :=
  HandsOutNone.get.bind fun _ => handsOutNone_writeAt _ _ _ _

theorem handsOutNone_editMeta (f : MetaPage → MetaPage) :
    HandsOutNone (Pager.editMeta (π := π) f) :=
  .modify fun _ => rfl

theorem handsOutNone_readFree (pageId : PageId) :
    HandsOutNone (Pager.readFree (π := π) pageId) := by
  refine HandsOutNone.get.bind fun engine => ?_
  exact (leaves_fetch _).handsOutNone.bind fun _ =>
    (leaves_fromExcept _).handsOutNone

theorem handsOutNone_captureByHand
    (pageId : PageId)
    (reason : String)
    (needed : Bool) :
    HandsOutNone (Pager.captureByHand (π := π) pageId reason
      needed) :=
  .ite ((handsOutNone_beforeWrite _ _).bind fun _ => .pure _)
    (.pure _)

theorem handsOutNone_overwriteAt
    (pageId : PageId)
    (raw : PageImage π)
    (reason : String) :
    HandsOutNone (Pager.overwriteAt pageId raw reason) :=
  (leaves_onPool _).handsOutNone.bind fun _ =>
    handsOutNone_writeAt _ _ _ _

/- From the free list or from the end of the file. -/
theorem handsOutNone_allocatePage (pageType : PageType) :
    HandsOutNone (Pager.allocatePage (π := π) pageType) := by
  refine handsOutNone_ensureOpen.bind fun _ => ?_
  refine HandsOutNone.bind ?_ fun taken => ?_
  · refine HandsOutNone.get.bind fun engine => ?_
    refine .ite ?_ ?_
    · refine (handsOutNone_readFree _).bind fun freed => ?_
      exact (handsOutNone_editMeta _).bind fun _ => .pure _
    · exact (handsOutNone_editMeta _).bind fun _ => .pure _
  refine HandsOutNone.get.bind fun engine => ?_
  refine (leaves_fromExcept _).handsOutNone.bind fun _ => ?_
  refine (handsOutNone_captureByHand _ _ _).bind fun _ => ?_
  refine (handsOutNone_overwriteAt _ _ _).bind fun _ => ?_
  exact handsOutNone_writeMeta.bind fun _ => .pure _

theorem handsOutNone_freePage (pageId : PageId) :
    HandsOutNone (Pager.freePage (π := π) pageId) := by
  refine handsOutNone_ensureOpen.bind fun _ => ?_
  refine .ite (.throw _) ?_
  refine (handsOutNone_checkPageId _).bind fun _ => ?_
  refine (handsOutNone_readFree _).bind fun _ => ?_
  refine HandsOutNone.get.bind fun engine => ?_
  refine (leaves_fromExcept _).handsOutNone.bind fun _ => ?_
  refine (handsOutNone_captureByHand _ _ _).bind fun _ => ?_
  refine (handsOutNone_overwriteAt _ _ _).bind fun _ => ?_
  exact (handsOutNone_editMeta _).bind fun _ =>
    handsOutNone_writeMeta

theorem handsOutNone_pagerCheckpoint :
    HandsOutNone (Pager.checkpoint (π := π)) := by
  refine handsOutNone_ensureOpen.bind fun _ => ?_
  refine HandsOutNone.bind (.modify fun engine => ?_)
    fun _ => ?_
  · split
    · rfl
    · rfl
  refine HandsOutNone.bind ?_ fun _ => ?_
  · refine leaves_flushPool.handsOutNone.bind fun _ => ?_
    exact (leaves_onFiles _).handsOutNone.bind fun _ =>
      (leaves_onFiles _).handsOutNone
  · exact HandsOutNone.get.bind fun _ =>
      (leaves_writeMetaDirectly _).handsOutNone

theorem handsOutNone_manage
    {f : TransactionManager (PageImage π) →
      TransactionManager (PageImage π)}
    (hSame : ∀ manager, (f manager).nextId = manager.nextId) :
    HandsOutNone (manage f) :=
  .modify fun engine => hSame engine.transactions

/- A transaction retires, and its id with it. -/
theorem handsOutNone_rollback :
    HandsOutNone (rollback (π := π)) := by
  refine leaves_ensureOpen.handsOutNone.bind fun _ => ?_
  refine HandsOutNone.get.bind fun engine => ?_
  refine (leaves_restoreOverflow _).handsOutNone.bind
    fun _ => ?_
  refine HandsOutNone.bind ?_ fun transaction => ?_
  · refine HandsOutNone.get.bind fun current => ?_
    refine (leaves_fromExcept _).handsOutNone.bind
      fun transaction => ?_
    refine (leaves_applyUndo _).handsOutNone.bind fun _ => ?_
    refine HandsOutNone.bind (handsOutNone_manage fun _ => rfl)
      fun _ => ?_
    exact .pure _
  · refine (leaves_logAbort _).handsOutNone.bind fun _ => ?_
    exact leaves_reloadMeta.handsOutNone.bind fun _ => .pure _

theorem nextId_commit
    {ι : Type}
    {manager manager' : TransactionManager ι}
    {session : String}
    {transaction : Transaction.OpenTransaction ι}
    (hCommit : manager.commit session =
      .ok (manager', transaction)) :
    manager'.nextId = manager.nextId := by
  rcases ok_of_bind hCommit with ⟨active, _, hRest⟩
  split at hRest
  · cases hRest
  · cases hRest
    rfl

/- A failed transaction is rolled back instead. -/
theorem handsOutNone_commit :
    HandsOutNone (commit (π := π)) := by
  refine leaves_ensureOpen.handsOutNone.bind fun _ => ?_
  intro next
  refine Triple.read fun engine hEngine => ?_
  refine Triple.weaken (P := fun current : Engine π =>
    current.transactions.nextId = next) ?_
    (fun _ h => h ▸ hEngine) (fun _ _ h => h) (fun _ _ h => h)
  refine Triple.ite (fun _ => handsOutNone_rollback next)
    fun _ => ?_
  refine Triple.bind (Pager.fromExcept_keeps _)
    fun ended => ?_
  rcases ended with ⟨manager, transaction⟩
  refine Triple.assume fun hCommit => ?_
  refine Triple.bind (Q := fun _ current =>
    current.transactions.nextId = next)
    (Triple.modify fun _ _ => ?_) fun _ => ?_
  · exact (nextId_commit hCommit).trans hEngine
  · exact ((leaves_onFiles _).handsOutNone.bind fun _ =>
      HandsOutNone.pure _).bind (fun _ => .pure _) next

theorem handsOutNone_checkpoint :
    HandsOutNone (checkpoint (π := π)) := by
  refine leaves_ensureOpen.handsOutNone.bind fun _ => ?_
  refine HandsOutNone.get.bind fun engine => ?_
  refine .ite (.throw _) ?_
  exact handsOutNone_pagerCheckpoint

theorem handsOutNone_inSession
    (session : String)
    {program : EngineM π α}
    (hProgram : HandsOutNone program) :
    HandsOutNone (inSession session program) := by
  intro next
  refine Triple.focus fun engine hEngine => ?_
  refine (hProgram next).pre (fun part h => ?_)
  rw [h]
  exact hEngine

/- By induction on the sessions. -/
theorem handsOutNone_rollbackAll (sessions : List String) :
    HandsOutNone (rollbackAll (π := π) sessions) := by
  induction sessions with
  | nil => exact .pure _
  | cons session rest ih =>
    exact (handsOutNone_inSession session
      handsOutNone_rollback).bind fun _ => ih

theorem handsOutNone_close :
    HandsOutNone (close (π := π)) := by
  refine HandsOutNone.get.bind fun engine => ?_
  refine .ite (.pure _) ?_
  refine (handsOutNone_rollbackAll _).bind fun _ => ?_
  refine HandsOutNone.get.bind fun rolled => ?_
  refine .ite (.pure _) ?_
  refine handsOutNone_pagerCheckpoint.bind fun _ => ?_
  refine (leaves_onFiles _).handsOutNone.bind fun _ => ?_
  refine leaves_flushPool.handsOutNone.bind fun _ => ?_
  refine (leaves_onPool _).handsOutNone.bind fun _ => ?_
  exact .modify fun _ => rfl

/- Only a begin does. -/
theorem perform_handsOutNone
    {call : Call π}
    (hCall : ∀ implicit isolation,
      call ≠ .begin implicit isolation) :
    HandsOutNone (perform call) := by
  have hDone : ∀ {α : Type} {program : EngineM π α},
      HandsOutNone program →
        HandsOutNone (do let _ ← program) :=
    fun hProgram => hProgram.bind fun _ => .pure _
  cases call with
  | readRaw pageId =>
    refine hDone (handsOutNone_ensureOpen.bind fun _ => ?_)
    refine (handsOutNone_checkPageId _).bind fun _ => ?_
    exact (leaves_fetch _).handsOutNone.bind fun _ =>
      .pure _
  | readPage pageId =>
    refine hDone (handsOutNone_ensureOpen.bind fun _ => ?_)
    refine .ite (.throw _) ?_
    refine (handsOutNone_checkPageId _).bind fun _ => ?_
    refine HandsOutNone.get.bind fun engine => ?_
    exact (leaves_fetch _).handsOutNone.bind fun _ =>
      (leaves_fromExcept _).handsOutNone
  | writePage pageId page =>
    refine handsOutNone_ensureOpen.bind fun _ => ?_
    refine .ite (.throw _) ?_
    refine (handsOutNone_checkPageId _).bind fun _ => ?_
    exact handsOutNone_writeAt _ _ _ _
  | allocatePage pageType =>
    exact hDone (handsOutNone_allocatePage _)
  | freePage pageId => exact handsOutNone_freePage _
  | editMeta pages => exact handsOutNone_editMeta _
  | flushMeta => exact handsOutNone_writeMeta
  | sync => exact leaves_sync.handsOutNone
  | flushPool => exact leaves_flushPool.handsOutNone
  | logCommit transactionId =>
    exact hDone (leaves_onFiles _).handsOutNone
  | logAbort transactionId =>
    exact (leaves_logAbort _).handsOutNone
  | begin implicit isolation => exact absurd rfl (hCall _ _)
  | markFailed =>
    exact HandsOutNone.get.bind fun _ =>
      handsOutNone_manage fun _ => rfl
  | commit => exact hDone handsOutNone_commit
  | rollback => exact hDone handsOutNone_rollback
  | checkpoint => exact handsOutNone_checkpoint
  | close => exact handsOutNone_close

end HandsOutNone

--
-- Handing Out Ids
--

/- The ids that a call of a session hands out. -/
def handedOut
    (session : String)
    (engine : Engine π) : Call π → List Nat
  | .begin _ _ =>
    if (engine.transactions.activeIn session).isNone then
      [engine.transactions.nextId]
    else []
  | _ => []

theorem handedOut_cases
    (session : String)
    (engine : Engine π)
    (call : Call π) :
    handedOut session engine call = [] ∨
      handedOut session engine call =
        [engine.transactions.nextId] := by
  cases call with
  | begin implicit isolation =>
    by_cases hNone :
        (engine.transactions.activeIn session).isNone = true
    · exact .inr (if_pos hNone)
    · exact .inl (if_neg hNone)
  | _ => exact .inl rfl

section Begins

variable {ι : Type} {manager : TransactionManager ι}
variable {session : String}

/- A new transaction takes the next id. -/
theorem begin_of_none
    (implicit : Bool)
    (isolation : IsolationLevel)
    (hNone : manager.activeIn session = none) :
    ∃ manager',
      manager.begin implicit session isolation = .ok manager' ∧
      manager'.nextId = manager.nextId + 1 ∧
      manager'.running = manager.running ++
        [manager.start implicit session isolation] := by
  unfold TransactionManager.begin
  split
  · rename_i hSome
    rw [hNone] at hSome
    cases hSome
  · exact ⟨_, rfl, rfl, rfl⟩

/- A second BEGIN takes none. -/
theorem begin_of_some
    {implicit : Bool}
    {isolation : IsolationLevel}
    (hSome : manager.activeIn session ≠ none)
    {manager' : TransactionManager ι}
    (hBegin : manager.begin implicit session isolation =
      .ok manager') :
    manager'.nextId = manager.nextId := by
  unfold TransactionManager.begin at hBegin
  split at hBegin
  · split at hBegin
    · cases hBegin
      rfl
    · split at hBegin
      · cases hBegin
      · cases hBegin
        rfl
  · rename_i hNone
    exact absurd hNone hSome

end Begins

/- What a begin leaves behind is the engine with the manager's
   answer. -/
theorem afterCall_begin
    (session : String)
    {engine : Engine π}
    (hOpen : engine.closed = false)
    (implicit : Bool)
    (isolation : IsolationLevel) :
    afterCall session engine (.begin implicit isolation) =
      match engine.transactions.begin implicit session
        isolation with
      | .ok manager => { engine with transactions := manager }
      | .error _ => engine := by
  unfold afterCall inSession
  rw [run_focus]
  have hBegin :
      (perform (.begin implicit isolation)).run
          { engine with session := session } =
        match engine.transactions.begin implicit session
          isolation with
        | .ok manager => .ok ()
            { engine with
              session := session
              transactions := manager }
        | .error raised => .error raised
            { engine with session := session } := by
    unfold perform begin ensureOpen manage
    simp only [EStateM.run_bind, EStateM.run_get, hOpen,
      Bool.false_eq_true, if_false, EStateM.run_pure]
    cases engine.transactions.begin implicit session
      isolation with
    | ok manager => rfl
    | error raised => rfl
  rw [hBegin]
  cases engine.transactions.begin implicit session
    isolation with
  | ok manager => rfl
  | error raised => rfl

/- The next id is past the one that is handed out. -/
theorem nextId_afterCall
    (session : String)
    {engine : Engine π}
    (hOpen : engine.closed = false)
    (call : Call π) :
    (afterCall session engine call).transactions.nextId =
      engine.transactions.nextId +
        (handedOut session engine call).length := by
  by_cases hBegin : ∃ implicit isolation,
      call = .begin implicit isolation
  · rcases hBegin with ⟨implicit, isolation, rfl⟩
    rw [afterCall_begin session hOpen]
    unfold handedOut
    cases hActive :
        engine.transactions.activeIn session with
    | none =>
      rcases begin_of_none implicit isolation hActive with
        ⟨manager, hRun, hNext, _⟩
      rw [hRun]
      exact hNext
    | some transaction =>
      cases hRun : engine.transactions.begin implicit
          session isolation with
      | error raised => rfl
      | ok manager =>
        exact begin_of_some (by simp [hActive]) hRun
  · have hNone : handedOut session engine call = [] := by
      cases call with
      | begin implicit isolation =>
        exact absurd ⟨_, _, rfl⟩ hBegin
      | _ => rfl
    rw [hNone]
    have hFrame : HandsOutNone (inSession session
        (perform call)) :=
      handsOutNone_inSession session
        (perform_handsOutNone fun implicit isolation hSame =>
          hBegin ⟨implicit, isolation, hSame⟩)
    have hRun := hFrame engine.transactions.nextId engine rfl
    unfold afterCall
    cases hRan :
        (inSession session (perform call)).run engine with
    | ok value final =>
      rw [hRan] at hRun
      exact hRun
    | error raised final =>
      rw [hRan] at hRun
      exact hRun

--
-- What a Close Leaves
--

/- The log is empty, and page 0 has the next id. -/
structure Stamped
    (next : Nat)
    (files : Files π) : Prop where
  page : ∃ page rest,
    files.pages = .metaPage page :: rest ∧ page.nextXid = next
  log : files.wal.file = []

/- No frame is dirty, and nothing is staged. -/
def AllClean (core : Core π) : Prop :=
  (∀ pageId frame, core.cache pageId = some frame →
    frame.dirty = false) ∧
  core.files.wal.buffer = []

theorem always_stable :
    Stable Anywhere fun _ : Core π => True :=
  fun _ _ _ _ => trivial

/- A property that the pool and the files have no part in. -/
def Outside (P : Engine π → Prop) : Prop :=
  ∀ engine pool files, P engine →
    P { engine with pool := pool, files := files }

section Outside

variable {P : Engine π → Prop}

/- The pool may do what it likes. -/
theorem Outside.onPool
    (hOutside : Outside P)
    {α : Type}
    (program : PoolM (Files π) (PageImage π) α) :
    Triple P (Pager.onPool program) (fun _ => P)
      (fun _ => P) := by
  refine Triple.focus fun engine hEngine part _ => ?_
  cases program.run part with
  | ok value final => exact hOutside engine _ _ hEngine
  | error raised final => exact hOutside engine _ _ hEngine

theorem Outside.onFiles
    (hOutside : Outside P)
    {α : Type}
    (program : FilesM π α) :
    Triple P (Pager.onFiles program) (fun _ => P)
      (fun _ => P) := by
  refine Triple.focus fun engine hEngine part _ => ?_
  cases program.run part with
  | ok value final =>
    exact hOutside engine engine.pool _ hEngine
  | error raised final =>
    exact hOutside engine engine.pool _ hEngine

theorem Outside.flushPool
    (hOutside : Outside P) :
    Triple P (Pager.flushPool (π := π)) (fun _ => P)
      (fun _ => P) :=
  Triple.read fun _ hEngine =>
    (hOutside.onPool _).pre (fun _ h => h ▸ hEngine)

theorem Outside.checkpointLog
    (hOutside : Outside P) :
    Triple P (Pager.checkpointLog (π := π)) (fun _ => P)
      (fun _ => P) := by
  refine hOutside.flushPool.bind fun _ => ?_
  exact (hOutside.onFiles _).bind fun _ => hOutside.onFiles _

theorem Outside.sync
    (hOutside : Outside P) :
    Triple P (Pager.sync (π := π)) (fun _ => P)
      (fun _ => P) := by
  refine Triple.bind (Q := fun _ => P) ?_ fun _ => ?_
  · exact Triple.read fun _ hEngine =>
      Triple.ite
        (fun _ => Triple.throw fun _ h => h ▸ hEngine)
        fun _ => Triple.pure fun _ h => h ▸ hEngine
  · exact (hOutside.onFiles _).bind fun _ =>
      hOutside.flushPool

end Outside

/- The meta page has the next id, and is to be written. -/
def Stamps
    (next : Nat)
    (engine : Engine π) : Prop :=
  engine.metaPage.nextXid = next ∧
    engine.transactions.nextId = next

theorem outside_stamps (next : Nat) :
    Outside (Stamps (π := π) next) :=
  fun _ _ _ h => h

/- A checkpoint starts with the next id. -/
theorem stampNextXid_stamps (next : Nat) :
    Triple
      (fun engine : Engine π => engine.watching = true ∧
        engine.transactions.nextId = next)
      Pager.stampNextXid (fun _ => Stamps next)
      (fun _ _ => False) := by
  refine Triple.modify fun engine hEngine => ?_
  rw [if_pos hEngine.1]
  exact ⟨hEngine.2, hEngine.2⟩

theorem writeMetaDirectly_stamped
    (next checkpointLsn : Nat) :
    Triple
      (fun engine : Engine π => Ready AllClean engine ∧
        engine.files.wal.file = [] ∧ Stamps next engine)
      (Pager.writeMetaDirectly checkpointLsn)
      (fun _ engine => Ready AllClean engine ∧
        Stamped next engine.files ∧
        engine.transactions.nextId = next)
      (fun _ _ => False) := by
  rintro engine ⟨⟨hGood, hClean, hBuffer⟩, hFile, hXid, hNext⟩
  refine ⟨⟨⟨hGood.sound.release _, hGood.staged,
    hGood.walOpen, hGood.isOpen⟩, ?_, hBuffer⟩,
    ⟨?_, hFile⟩, hNext⟩
  · intro pageId frame hFrame
    have hCached : (engine.pool.release metaPageId).cached
        pageId = some frame := hFrame
    rw [BufferPool.cached_release, Function.update_apply]
      at hCached
    split at hCached
    · cases hCached
    · exact hClean pageId frame hCached
  · cases hPages : engine.files.pages with
    | nil =>
      refine ⟨{ engine.metaPage with
        checkpointLsn := checkpointLsn }, [], ?_, hXid⟩
      show putPage engine.pageSize engine.files.pages 0 _ = _
      rw [hPages]
      rfl
    | cons image rest =>
      refine ⟨{ engine.metaPage with
        checkpointLsn := checkpointLsn }, rest, ?_, hXid⟩
      show putPage engine.pageSize engine.files.pages 0 _ = _
      rw [hPages]
      simp [putPage]

/- It empties the log and then writes the meta page. -/
theorem checkpoint_stamps (next : Nat) :
    Triple
      (fun engine : Engine π =>
        (Ready (fun core => core.transactions.running = [])
          engine ∧ engine.watching = true) ∧
        engine.transactions.nextId = next)
      Pager.checkpoint
      (fun _ engine => Ready AllClean engine ∧
        Stamped next engine.files ∧
        engine.transactions.nextId = next)
      (fun _ _ => True) := by
  unfold Pager.checkpoint
  refine Triple.bind (Q := fun _ engine =>
    (Ready (fun core => True ∧
      core.transactions.running = []) engine ∧
        engine.watching = true) ∧
      engine.transactions.nextId = next) ?_ fun _ => ?_
  · exact Triple.read fun engine hEngine =>
      Triple.ite (fun _ => Triple.throw fun _ _ => trivial)
        fun _ => Triple.pure fun _ h =>
          h ▸ ⟨⟨⟨hEngine.1.1.1, trivial,
            hEngine.1.1.2⟩, hEngine.1.2⟩, hEngine.2⟩
  refine Triple.bind
    (((Pager.stampNextXid_keeps always_stable).conj
      (stampNextXid_stamps next)).weaken
        (fun _ h => ⟨h.1.1, h.1.2, h.2⟩) (fun _ _ h => h)
        (fun _ _ h => h.1.elim)) fun _ => ?_
  refine Triple.bind
    (((Pager.checkpointLog_spec always_stable).conj
      (outside_stamps next).checkpointLog).raises
        (fun _ _ h => h.1.elim)) fun _ => ?_
  refine Triple.read fun engine hEngine => ?_
  refine (writeMetaDirectly_stamped next _).weaken
    (fun _ h => h ▸ ?_) (fun _ _ h => h)
    (fun _ _ h => h.elim)
  rcases hEngine with
    ⟨⟨hGood, before, hBefore, hCut⟩, hStamps⟩
  refine ⟨⟨hGood, ?_⟩, ?_, hStamps⟩
  · rw [hCut]
    exact hBefore.2
  · have hFile := congrArg
      (fun core : Core π => core.files.wal.file) hCut
    exact hFile

/- There is nothing left to flush. -/
theorem closeLog_stamped (next : Nat) :
    Triple
      (fun engine : Engine π => Ready AllClean engine ∧
        Stamped next engine.files ∧
        engine.transactions.nextId = next)
      Pager.closeLog
      (fun _ engine => Stamped next engine.files ∧
        engine.transactions.nextId = next)
      (fun _ _ => True) := by
  rintro engine
    ⟨⟨hGood, hClean, hBuffer⟩, hStamped, hNext⟩
  rcases Pager.closeLog_run hGood.walOpen hClean with
    ⟨pool, _, hRun⟩
  rw [hRun]
  refine ⟨⟨hStamped.page, ?_⟩, hNext⟩
  have hStaged : engine.files.wal.buffer = [] := hBuffer
  show engine.files.wal.flushed.file = []
  rw [WriteAheadLog.flushed_file, hStamped.log, hStaged,
    List.append_nil]

theorem watching_stable :
    Stable Anywhere fun core : Core π =>
      core.watching = true := by
  intro core core' hCore hStep
  cases hStep with
  | quiet hQuiet => cases hQuiet <;> exact hCore
  | intended hIntends => cases hIntends <;> exact hCore
  | changed reason capture hAnswers _ _ =>
    unfold Core.Answers at hAnswers
    split at hAnswers
    · cases hAnswers <;> exact hCore
    · rw [hAnswers.1]
      exact hCore
  | _ => exact hCore

/- A close that returns leaves the next id in page 0. -/
theorem close_stamps (next : Nat) :
    Triple
      (fun engine : Engine π =>
        Ready (fun core => core.watching = true) engine ∧
        engine.transactions.nextId = next)
      (close (π := π))
      (fun _ engine => Stamped next engine.files ∧
        engine.transactions.nextId = next)
      (fun _ _ => True) := by
  unfold close
  refine Triple.read fun engine hEngine => ?_
  refine Triple.ite (fun hClosed => ?_) fun _ => ?_
  · rw [hEngine.1.1.isOpen] at hClosed
    cases hClosed
  have hAll := ((rollbackAll_keeps (π := π) watching_stable
    (sessions engine.transactions)).conj
      (rollbackAll_idle (sessions engine.transactions))).conj
    (handsOutNone_rollbackAll
      (sessions engine.transactions) next)
  refine Triple.bind (hAll.weaken (fun _ h => ?_)
    (fun _ _ h => h) (fun _ _ _ => trivial)) fun _ => ?_
  · rw [h]
    refine ⟨⟨hEngine.1, fun transaction hMem => ?_⟩, hEngine.2⟩
    unfold sessions
    rw [(List.perm_insertionSort _ _).mem_iff]
    exact List.mem_map.mpr ⟨transaction, hMem, rfl⟩
  · unfold Pager.close
    refine Triple.read fun rolled hRolled => ?_
    refine Triple.ite (fun hClosed => ?_) fun _ => ?_
    · rw [hRolled.1.1.1.isOpen] at hClosed
      cases hClosed
    exact ((checkpoint_stamps next).pre
      (fun _ h => h ▸ ⟨⟨⟨hRolled.1.1.1, hRolled.1.2⟩,
        hRolled.1.1.2⟩, hRolled.2⟩)).bind fun _ => closeLog_stamped next

--
-- Opening Again
--

/- The log is empty, and the decoded meta page has the id. -/
theorem recover_idle (next : Nat) :
    Triple
      (fun engine : Engine π =>
        engine.metaPage.nextXid = next ∧
        engine.files.wal.file = [] ∧
        engine.files.wal.closed = false)
      Pager.recover
      (fun _ engine => engine.metaPage.nextXid = next ∧
        engine.recovery.highestXid = 0)
      (fun _ _ => True) := by
  rintro engine ⟨hNext, hFile, hOpen⟩
  have hRead :
      (Pager.recoveryEnv (π := π)).readAll.run engine =
        .ok ([], false) engine := by
    unfold Pager.recoveryEnv Pager.onFiles
    simp only
    rw [run_focus,
      Files.onLog_run (WriteAheadLog.readAll_run hOpen),
      hFile]
    rfl
  rcases Wal.recover_of_empty hRead with
    ⟨report, hRun, hRan, hXid⟩
  unfold Pager.recover
  rw [EStateM.run_bind, hRun]
  simp only [EStateM.run_bind, EStateM.run_modify, hRan,
    Bool.false_eq_true, not_false_eq_true, ↓reduceIte]
  exact ⟨hNext, hXid⟩

/- An empty log has no higher id. -/
theorem install_horizon (next : Nat) :
    Triple
      (fun engine : Engine π =>
        engine.metaPage.nextXid = next ∧
        engine.recovery.highestXid = 0)
      install
      (fun _ engine =>
        engine.transactions.nextId = max next 1)
      (fun _ _ => False) := by
  refine Triple.modify fun engine hEngine => ?_
  show max (horizon engine) 1 = max next 1
  unfold horizon
  rw [hEngine.1, hEngine.2]
  omega

theorem start_idle (next : Nat) :
    Triple
      (fun engine : Engine π =>
        engine.metaPage.nextXid = next ∧
        engine.files.wal.file = [] ∧
        engine.files.wal.closed = false)
      (Pager.start true)
      (fun _ engine => engine.metaPage.nextXid = next ∧
        engine.recovery.highestXid = 0)
      (fun _ _ => True) := by
  unfold Pager.start
  refine Triple.bind (Q := fun _ engine =>
    engine.metaPage.nextXid = next ∧
      engine.files.wal.file = [] ∧
      engine.files.wal.closed = false)
    (Triple.modify fun _ h => h) fun _ => ?_
  refine Triple.ite (fun _ => ?_) (fun h => absurd rfl h)
  refine (recover_idle next).bind fun _ => ?_
  exact Triple.read fun engine hEngine =>
    Triple.ite (fun _ => Triple.throw fun _ _ => trivial)
      fun _ => Triple.pure fun _ h => h ▸ hEngine

/- A file of its own, nobody watching yet. -/
def Fresh (engine : Engine π) : Prop :=
  (engine.metaPage.nextXid = 0 ∧
    engine.recovery.highestXid = 0) ∧
  engine.watching = false

theorem outside_fresh : Outside (Fresh (π := π)) :=
  fun _ _ _ h => h

/- Nobody watches, so no change is captured. -/
theorem writeMeta_fresh :
    Triple (Fresh (π := π)) Pager.writeMeta (fun _ => Fresh)
      (fun _ => Fresh) := by
  unfold Pager.writeMeta
  refine Triple.read fun engine hEngine => ?_
  unfold Pager.writeAt
  refine Triple.read fun current hCurrent => ?_
  refine Triple.weaken (P := Fresh) ?_
    (fun _ h => h ▸ hCurrent ▸ hEngine) (fun _ _ h => h)
    (fun _ _ h => h)
  refine Triple.ite (fun _ => Triple.throw fun _ h => h)
    fun _ => ?_
  refine Triple.bind (Q := fun _ => Fresh) ?_
    fun intent => ?_
  · unfold Pager.intentFor Pager.beforeWrite
    refine Triple.read fun watched hWatched => ?_
    refine Triple.ite (fun _ => Triple.pure ?_)
      fun hWatching => ?_
    · rintro _ rfl
      exact hWatched
    · rw [hWatched.2] at hWatching
      exact absurd Bool.false_ne_true hWatching
  refine Triple.bind (Q := fun _ => Fresh) ?_
    fun _ => outside_fresh.onPool _
  refine (outside_fresh.onFiles _).bind fun record => ?_
  refine Triple.bind (Triple.modify fun current h => ?_)
    fun _ => Triple.pure fun _ h => h
  split
  · exact h
  · exact h

theorem start_fresh :
    Triple (Fresh (π := π)) (Pager.start false)
      (fun _ => Fresh) (fun _ => Fresh) := by
  unfold Pager.start
  refine Triple.bind (Q := fun _ => Fresh)
    (Triple.modify fun _ h => h) fun _ => ?_
  refine Triple.ite (fun h => nomatch h) (fun _ => ?_)
  exact writeMeta_fresh.bind fun _ => outside_fresh.sync

/- Opening again, from what the pager's own start comes to. -/
theorem nextId_reopen
    {options : Pager.Options}
    {stored : Pager.Stored π}
    {next : Nat}
    (hStart : ∀ metaPage frames, Heads stored metaPage →
      Triple
        (fun engine => engine =
          Pager.engineOver options stored metaPage
            (BufferPool.ofFrames metaPage.pageSize frames))
        (Pager.start (!stored.pages.isEmpty))
        (fun _ engine => engine.metaPage.nextXid = next ∧
          engine.recovery.highestXid = 0)
        (fun _ _ => True))
    {final : Engine π}
    (hReopen : reopen options stored = some final) :
    final.transactions.nextId = max next 1 := by
  unfold reopen at hReopen
  split at hReopen
  · cases hReopen
  rename_i fresh hOpening
  split at hReopen
  · split at hReopen
    · rename_i _ opened hBoot
      cases hReopen
      rcases opening_spec hOpening with
        ⟨metaPage, frames, hHeads, _, rfl⟩
      have hBooted := (hStart metaPage frames hHeads).bind
        fun _ => (install_horizon next).raises (fun _ _ h => h.elim)
      exact hBooted.of_ok rfl hBoot
    · cases hReopen
  · cases hReopen

theorem eq_of_asMeta
    {page found : MetaPage}
    (hFound : (PageImage.metaPage page : PageImage π).asMeta =
      .ok found) :
    found = page := by
  unfold PageImage.asMeta at hFound
  simp only at hFound
  split at hFound
  · cases hFound
  · cases hFound
    rfl

/- Where a close left off the ids go on. -/
theorem nextId_reopen_stamped
    {options : Pager.Options}
    {files : Files π}
    {next : Nat}
    (hStamped : Stamped next files)
    {final : Engine π}
    (hReopen :
      reopen options ⟨files.pages, files.wal.file⟩ =
        some final) :
    final.transactions.nextId = max next 1 := by
  rcases hStamped with
    ⟨⟨page, rest, hPages, hNext⟩, hFile⟩
  refine nextId_reopen (fun metaPage frames hHeads => ?_)
    hReopen
  unfold Heads at hHeads
  simp only [hPages] at hHeads
  cases eq_of_asMeta hHeads
  have hExisted : (!(Pager.Stored.mk files.pages
      files.wal.file).pages.isEmpty) = true := by
    simp [hPages]
  rw [hExisted]
  refine (start_idle next).pre (fun engine h => ?_)
  rw [h]
  exact ⟨hNext, hFile, rfl⟩

/- The ids of a new file start at one. -/
theorem nextId_created
    {options : Pager.Options}
    {final : Engine π}
    (hReopen : reopen options ⟨[], []⟩ = some final) :
    final.transactions.nextId = 1 := by
  show final.transactions.nextId = max 0 1
  refine nextId_reopen (fun metaPage frames hHeads => ?_)
    hReopen
  rcases hHeads with ⟨pageSize, rfl⟩
  refine start_fresh.weaken (fun engine h => ?_)
    (fun _ _ h => h.1) (fun _ _ _ => trivial)
  rw [h]
  exact ⟨⟨rfl, rfl⟩, rfl⟩

theorem reopen_ready
    {options : Pager.Options}
    {stored : Pager.Stored π}
    {final : Engine π}
    (hReopen : reopen options stored = some final) :
    Ready (fun core => core.watching = true) final := by
  unfold reopen at hReopen
  split at hReopen
  · cases hReopen
  rename_i fresh hOpening
  split at hReopen
  · split at hReopen
    · rename_i _ opened hBoot
      cases hReopen
      rcases opening_spec hOpening with
        ⟨metaPage, frames, _, hEnough, rfl⟩
      rcases (boot_spec always_stable
        (fun _ _ _ _ => trivial) hEnough trivial true).of_ok
          rfl hBoot with ⟨hGood, bare, _, hCore⟩
      exact ⟨hGood, by rw [hCore]; rfl⟩
    · cases hReopen
  · cases hReopen

--
-- Histories
--

/-
  One database file: created, opened again after each close,
  and opened again on whatever files a crash left. The ids are
  those handed out so far. `HandsOut` is asked of an engine
  that hands one out, and `Recalls` of one opened after a
  crash.
-/
inductive History
    (HandsOut : Engine π → Prop)
    (Recalls : List Nat → Engine π → Prop) :
    List Nat → Engine π → Prop where
  | created {options engine} :
      reopen options ⟨[], []⟩ = some engine →
      History HandsOut Recalls [] engine
  | called
      (session : String)
      (call : Call π)
      {ids engine} :
      History HandsOut Recalls ids engine →
      engine.closed = false →
      (handedOut session engine call ≠ [] → HandsOut engine) →
      History HandsOut Recalls
        (ids ++ handedOut session engine call)
        (afterCall session engine call)
  | reopened {options ids engine final} :
      History HandsOut Recalls ids engine →
      engine.closed = true →
      reopen options
        ⟨engine.files.pages, engine.files.wal.file⟩ =
          some final →
      History HandsOut Recalls ids final
  | crashed {options ids engine stored final} :
      History HandsOut Recalls ids engine →
      reopen options stored = some final →
      Recalls ids final →
      History HandsOut Recalls ids final

/- There is an id left for the one after this. -/
def HasRoom (engine : Engine π) : Prop :=
  engine.transactions.nextId + 1 < 2 ^ 32

/- The ids go on above those handed out. -/
def GoesOn
    (ids : List Nat)
    (engine : Engine π) : Prop :=
  (∀ id ∈ ids, id < engine.transactions.nextId) ∧
    engine.transactions.nextId < 2 ^ 32

/- `MetaPage.to_bytes`, where `struct` takes the fields. -/
def metaBytes (page : MetaPage) :
    Except PageRaise Library.Struct.Bytes :=
  if Fits page.headerFields then .ok page.toBytes
  else .error .structError

/- No id outgrows a field, and no two are the same. -/
structure IdsFit
    (ids : List Nat)
    (engine : Engine π) : Prop where
  once : ids.Nodup
  header : ∀ payload, ∀ xmin ∈ ids, ∀ xmax,
    (xmax = Wal.noTransaction ∨ xmax ∈ ids) →
      ∃ raw, addTupleHeader payload xmin xmax = .ok raw
  stamp : ∀ page raw, metaBytes page = .ok raw →
    ∃ stamped, metaBytes { page with
      nextXid := engine.transactions.nextId } = .ok stamped

/- What carries a history on. -/
structure Numbered
    (ids : List Nat)
    (engine : Engine π) : Prop where
  once : ids.Nodup
  goesOn : GoesOn ids engine
  rests : Rests (fun core => core.watching = true) engine
  closed : engine.closed = true →
    Stamped engine.transactions.nextId engine.files

/- The next id is one of the fields of the meta page. -/
theorem mem_headerFields
    {page : MetaPage}
    {next : Nat}
    {field : Nat × Nat}
    (hField : field ∈
      { page with nextXid := next }.headerFields) :
    field = (4, next) ∨ field ∈ page.headerFields := by
  have hBefore : page.headerFields =
      page.headerFields.take 13 ++
        [(4, page.nextXid), (4, page.flags)] := rfl
  have hAfter : { page with nextXid := next }.headerFields =
      page.headerFields.take 13 ++
        [(4, next), (4, page.flags)] := rfl
  rw [hAfter] at hField
  rw [hBefore]
  rcases List.mem_append.mp hField with hFront | hBack
  · exact .inr (List.mem_append_left _ hFront)
  · rcases List.mem_cons.mp hBack with hNext | hFlags
    · exact .inl hNext
    · exact .inr (List.mem_append_right _
        (.tail _ hFlags))

/- Below the next id everything fits. -/
theorem Numbered.fit
    {ids : List Nat}
    {engine : Engine π}
    (hNumbered : Numbered ids engine) :
    IdsFit ids engine := by
  rcases hNumbered.goesOn with ⟨hBelow, hNext⟩
  have hPacked : ∀ id, id < 2 ^ 32 →
      packUInt32 id = .ok (encode 4 id) := by
    intro id hId
    unfold packUInt32
    rw [if_pos hId]
  refine ⟨hNumbered.once, ?_, ?_⟩
  · intro payload xmin hXmin xmax hXmax
    have hFirst := (hBelow xmin hXmin).trans hNext
    have hSecond : xmax < 2 ^ 32 := by
      rcases hXmax with hNone | hXmax
      · unfold Wal.noTransaction at hNone
        omega
      · exact (hBelow xmax hXmax).trans hNext
    unfold addTupleHeader
    rw [hPacked xmin hFirst, hPacked xmax hSecond]
    exact ⟨_, rfl⟩
  · intro page raw hRaw
    unfold metaBytes at hRaw ⊢
    split at hRaw
    · rename_i hFits
      refine ⟨_, if_pos fun field hField => ?_⟩
      rcases mem_headerFields hField with rfl | hOld
      · exact hNext
      · exact hFits field hOld
    · cases hRaw

theorem watching_joined
    {engine : Engine π}
    (hReady : Ready (fun core => core.watching = true) engine)
    (session : String) :
    Ready (fun core => core.watching = true)
      { engine with session := session } :=
  ⟨⟨hReady.1.sound, hReady.1.staged, hReady.1.walOpen,
    hReady.1.isOpen⟩, hReady.2⟩

/- A call leaves an engine that is open and good, or one that
   has been closed and has stamped its page. -/
theorem afterCall_rests
    (session : String)
    {engine : Engine π}
    (hReady : Ready (fun core => core.watching = true) engine)
    (call : Call π) :
    Rests (fun core => core.watching = true)
        (afterCall session engine call) ∧
      ((afterCall session engine call).closed = true →
        Stamped (afterCall session engine
            call).transactions.nextId
          (afterCall session engine call).files) := by
  by_cases hClose : call = .close
  · subst hClose
    have hJoined := watching_joined hReady session
    unfold afterCall inSession
    rw [run_focus]
    cases hRun : (perform (.close : Call π)).run
        { engine with session := session } with
    | ok value final =>
      have hKept := (close_keeps watching_stable).of_ok
        hJoined hRun
      have hStamped := (close_stamps _).of_ok
        ⟨hJoined, rfl⟩ hRun
      refine ⟨⟨hKept.1, .inr hKept.2⟩, fun _ => ?_⟩
      show Stamped final.transactions.nextId final.files
      rw [hStamped.2]
      exact hStamped.1
    | error raised final =>
      have hKept := watching_joined
        ((close_keeps watching_stable).of_error hJoined hRun)
        engine.session
      refine ⟨⟨hKept.2, .inl hKept.1⟩,
        fun hClosed => ?_⟩
      have hOpen : final.closed = false := hKept.1.isOpen
      rw [show final.closed = true from hClosed] at hOpen
      cases hOpen
  · have hKeeps := inSession_keeps watching_stable
      (perform_ready watching_stable (by
        cases call <;> trivial) hClose) session
    have hAfter : Ready (fun core => core.watching = true)
        (afterCall session engine call) := by
      unfold afterCall
      cases hRun :
          (inSession session (perform call)).run engine with
      | ok value final => exact hKeeps.of_ok hReady hRun
      | error raised final => exact hKeeps.of_error hReady hRun
    refine ⟨⟨hAfter.2, .inl hAfter.1⟩,
      fun hClosed => ?_⟩
    rw [hAfter.1.isOpen] at hClosed
    cases hClosed

/- One call more, by whether it hands out an id. -/
theorem goesOn_append
    {ids : List Nat}
    {engine final : Engine π}
    (hGoesOn : GoesOn ids engine)
    {session : String}
    {call : Call π}
    (hRoom : handedOut session engine call ≠ [] →
      HasRoom engine)
    (hNext : final.transactions.nextId =
      engine.transactions.nextId +
        (handedOut session engine call).length)
    (hOnce : ids.Nodup) :
    (ids ++ handedOut session engine call).Nodup ∧
      GoesOn (ids ++ handedOut session engine call) final := by
  rcases hGoesOn with ⟨hBelow, hSmall⟩
  rcases handedOut_cases session engine call with hNone | hOne
  · rw [hNone, List.append_nil]
    rw [hNone, List.length_nil, Nat.add_zero] at hNext
    refine ⟨hOnce, fun id hId => ?_, ?_⟩
    · rw [hNext]
      exact hBelow id hId
    · rw [hNext]
      exact hSmall
  · have hLeft := hRoom (by simp [hOne])
    rw [hOne, List.length_singleton] at hNext
    rw [hOne]
    refine ⟨?_, fun id hId => ?_, ?_⟩
    · refine List.nodup_append'.mpr
        ⟨hOnce, List.nodup_singleton _, ?_⟩
      intro id hId hNew
      rw [List.mem_singleton.mp hNew] at hId
      exact Nat.lt_irrefl _ (hBelow _ hId)
    · rw [hNext]
      rcases List.mem_append.mp hId with hOld | hNew
      · exact Nat.lt_succ_of_lt (hBelow id hOld)
      · rw [List.mem_singleton.mp hNew]
        exact Nat.lt_succ_self _
    · rw [hNext]
      exact hLeft

/- By induction on the history. -/
theorem numbered
    {ids : List Nat}
    {engine : Engine π}
    (hHistory : History HasRoom GoesOn ids engine) :
    Numbered ids engine := by
  induction hHistory with
  | created hReopen =>
    have hReady := reopen_ready hReopen
    have hNext := nextId_created hReopen
    refine ⟨List.nodup_nil, ⟨fun _ h => ?_, ?_⟩,
      ⟨hReady.2, .inl hReady.1⟩, fun hClosed => ?_⟩
    · exact (List.not_mem_nil h).elim
    · rw [hNext]
      exact Nat.one_lt_two_pow (by decide)
    · rw [hReady.1.isOpen] at hClosed
      cases hClosed
  | @called session call ids engine _ hOpen hRoom ih =>
    have hReady : Ready (fun core => core.watching = true)
        engine := ready_of_rests ih.rests hOpen
    have hNext := nextId_afterCall session hOpen call
    rcases goesOn_append ih.goesOn hRoom hNext ih.once with
      ⟨hOnce, hGoesOn⟩
    rcases afterCall_rests session hReady call with
      ⟨hRests, hStamped⟩
    exact ⟨hOnce, hGoesOn, hRests, hStamped⟩
  | @reopened options ids engine final _ hClosed hReopen ih =>
    have hReady := reopen_ready hReopen
    have hNext := nextId_reopen_stamped (ih.closed hClosed)
      hReopen
    have hStarted := engine.transactions.started
    have hSame : final.transactions.nextId =
        engine.transactions.nextId := by
      omega
    refine ⟨ih.once, ?_, ⟨hReady.2, .inl hReady.1⟩,
      fun hAgain => ?_⟩
    · unfold GoesOn
      rw [hSame]
      exact ih.goesOn
    · rw [hReady.1.isOpen] at hAgain
      cases hAgain
  | crashed _ hReopen hRecalls ih =>
    have hReady := reopen_ready hReopen
    refine ⟨ih.once, hRecalls,
      ⟨hReady.2, .inl hReady.1⟩, fun hAgain => ?_⟩
    rw [hReady.1.isOpen] at hAgain
    cases hAgain

theorem ids_fit
    {ids : List Nat}
    {engine : Engine π}
    (hHistory : History HasRoom GoesOn ids engine) :
    IdsFit ids engine :=
  (numbered hHistory).fit

def firstBegin : Call Library.Struct.Bytes :=
  .begin false .readCommitted

/- Closed with a transaction open, and opened again. -/
def closedAfter
    (engine : Engine Library.Struct.Bytes) :
    Engine Library.Struct.Bytes :=
  afterCall "a" (afterCall "a" engine firstBegin) .close

def reopenedAfter
    (engine : Engine Library.Struct.Bytes) :
    Option (Engine Library.Struct.Bytes) :=
  reopen newOptions ⟨(closedAfter engine).files.pages,
    (closedAfter engine).files.wal.file⟩

/- A transaction before a close, and one after the database
   is opened again. -/
theorem ids_fit_reopened :
    ∃ engine : Engine Library.Struct.Bytes,
      IdsFit [1, 2] engine := by
  have hComputed : (reopen newOptions ⟨[], []⟩).any
      (fun engine =>
        !engine.closed &&
          decide (handedOut "a" engine firstBegin = [1]) &&
          !(afterCall "a" engine firstBegin).closed &&
          (closedAfter engine).closed &&
          (reopenedAfter engine).any fun again =>
            !again.closed &&
              decide (again.transactions.nextId = 2) &&
              decide (handedOut "a" again firstBegin = [2])) =
        true := by
    decide +kernel
  rcases (Option.any_eq_true _ _).mp hComputed with
    ⟨engine, hCreated, hEngine⟩
  simp only [Bool.and_eq_true, Bool.not_eq_true',
    decide_eq_true_eq, Option.any_eq_true] at hEngine
  rcases hEngine with ⟨⟨⟨⟨hOpen, hOne⟩, hStill⟩, hClosed⟩,
    again, hReopened, ⟨hAgain, hNext⟩, hTwo⟩
  have hRoom : HasRoom engine := by
    unfold HasRoom
    rw [nextId_created hCreated]
    omega
  have hLeft : HasRoom again := by
    unfold HasRoom
    rw [hNext]
    omega
  have hBegun := @History.called _ HasRoom GoesOn "a"
    firstBegin _ _ (.created hCreated) hOpen fun _ => hRoom
  have hEnded := History.called "a" .close hBegun hStill
    fun hSome => absurd rfl hSome
  have hFit := ids_fit (.called "a" firstBegin
    (.reopened hEnded hClosed hReopened) hAgain fun _ => hLeft)
  rw [hOne, hTwo] at hFit
  exact ⟨_, hFit⟩

--
-- Ids That Run Out
--

/- One session after another. -/
def sessionName (number : Nat) : String :=
  String.ofList (List.replicate number 's')

theorem length_sessionName (number : Nat) :
    (sessionName number).length = number := by
  simp [sessionName]

/- However many transactions there are to be, a history has
   them, and they get the ids from one on. -/
theorem begins (count : Nat) :
    ∃ engine : Engine Library.Struct.Bytes,
      History (fun _ => True) (fun _ _ => True)
        (List.range' 1 count) engine ∧
      engine.closed = false ∧
      engine.transactions.nextId = count + 1 ∧
      ∀ transaction ∈ engine.transactions.running,
        transaction.session.length < count := by
  induction count with
  | zero =>
    have hComputed : (reopen (π := Library.Struct.Bytes)
        newOptions ⟨[], []⟩).any (fun engine =>
          !engine.closed &&
            engine.transactions.running.isEmpty) =
              true := by
      decide +kernel
    rcases (Option.any_eq_true _ _).mp hComputed with
      ⟨engine, hOpened, hHolds⟩
    rw [Bool.and_eq_true, Bool.not_eq_true',
      List.isEmpty_iff] at hHolds
    refine ⟨engine, .created hOpened, hHolds.1,
      nextId_created hOpened, fun transaction hMem => ?_⟩
    rw [hHolds.2] at hMem
    exact (List.not_mem_nil hMem).elim
  | succ count ih =>
    rcases ih with ⟨engine, hHistory, hOpen, hNext, hSessions⟩
    have hNone : engine.transactions.activeIn
        (sessionName count) = none := by
      refine List.find?_eq_none.mpr fun transaction hMem => ?_
      have hShort := hSessions transaction hMem
      rw [decide_eq_true_eq]
      intro hSame
      rw [hSame, length_sessionName] at hShort
      exact Nat.lt_irrefl _ hShort
    have hIds : handedOut (sessionName count) engine
        (.begin false .readCommitted) = [count + 1] := by
      unfold handedOut
      rw [hNone, hNext]
      rfl
    rcases begin_of_none false .readCommitted hNone with
      ⟨manager, hBegin, hLater, hRunning⟩
    have hAfter : afterCall (sessionName count) engine
        (.begin false .readCommitted) =
          { engine with transactions := manager } := by
      rw [afterCall_begin _ hOpen, hBegin]
    have hLonger := History.called (sessionName count)
      (.begin false .readCommitted) hHistory hOpen
        fun _ => trivial
    have hRange : List.range' 1 count ++ [count + 1] =
        List.range' 1 (count + 1) := by
      rw [List.range'_concat, Nat.one_mul, Nat.add_comm 1 count]
    rw [hIds, hAfter, hRange] at hLonger
    refine ⟨_, hLonger, hOpen, ?_,
      fun transaction hMem => ?_⟩
    · exact hLater.trans (congrArg (· + 1) hNext)
    · have hMem : transaction ∈ manager.running := hMem
      rw [hRunning] at hMem
      rcases List.mem_append.mp hMem with hOld | hNew
      · exact Nat.lt_succ_of_lt (hSessions _ hOld)
      · rw [List.mem_singleton.mp hNew]
        show (sessionName count).length < count + 1
        rw [length_sessionName]
        exact Nat.lt_succ_self _

/- The transaction that gets the id `2 ^ 32` cannot write a
   row. -/
theorem ids_outgrow :
    ∃ engine : Engine Library.Struct.Bytes,
      History (fun _ => True) (fun _ _ => True)
        (List.range' 1 (2 ^ 32)) engine ∧
      ¬ IdsFit (List.range' 1 (2 ^ 32)) engine := by
  rcases begins (2 ^ 32) with ⟨engine, hHistory, _⟩
  refine ⟨engine, hHistory, fun hFit => ?_⟩
  have hLast : 2 ^ 32 ∈ List.range' 1 (2 ^ 32) := by
    rw [List.mem_range'_1]
    omega
  rcases hFit.header [] (2 ^ 32) hLast Wal.noTransaction
    (.inl rfl) with ⟨raw, hRaw⟩
  rcases ok_of_bind hRaw with ⟨first, hFirst, _⟩
  exact Nat.lt_irrefl _
    (Serialization.packUInt32_ok hFirst).1

end Database

end ChenDB
