import ChenDB.Transaction.Manager

/-
  What a snapshot sees, against what happened: a run of the
  manager with a log of its happenings, and the finished
  transactions read off that log.
-/

--
-- Handing Out Snapshots
--

namespace ChenDB

namespace Transaction

open Wal (noTransaction)

variable {ι : Type}
variable {frozenXid : Nat} {manager : TransactionManager ι}
variable {session : String}

namespace IsolationLevel

/- A fresh snapshot for every statement. -/
def perStatement : IsolationLevel → Bool
  | .readCommitted => true
  | .repeatableRead => false

end IsolationLevel

namespace OpenTransaction

/- The snapshot a transaction goes on reading through. -/
def kept (transaction : OpenTransaction ι) :
    Option Snapshot :=
  if transaction.isolation.perStatement then none
  else transaction.snapshot

end OpenTransaction

namespace TransactionManager

/- Remember the snapshot a session's transaction took. -/
def hold
    (manager : TransactionManager ι)
    (session : String)
    (snapshot : Snapshot) : TransactionManager ι :=
  manager.updateIn session
    (fun transaction =>
      { transaction with snapshot := some snapshot })
    (fun _ => ⟨rfl, rfl⟩)

/- The view this transaction should read through, now. -/
def snapshotFor
    (manager : TransactionManager ι)
    (transaction : OpenTransaction ι) :
    TransactionManager ι × Snapshot :=
  match transaction.kept with
  | some snapshot => (manager, snapshot)
  | none =>
    let snapshot :=
      manager.takeSnapshot transaction.transactionId
    (manager.hold transaction.session snapshot, snapshot)

/- `Database.snapshot`, for a session with or without a
   transaction. -/
def snapshotIn
    (manager : TransactionManager ι)
    (session : String) :
    TransactionManager ι × Snapshot :=
  match manager.activeIn session with
  | none => (manager, manager.takeSnapshot noTransaction)
  | some transaction => manager.snapshotFor transaction

/- The horizon moved up, as a checkpoint does. -/
def freeze (manager : TransactionManager ι) :
    TransactionManager ι :=
  { manager with frozenXid := manager.nextId }

end TransactionManager

--
-- Runs
--

inductive Happening where
  | began (xid : Nat)
  | finished (xid : Nat)
  | took (snapshot : Snapshot)
  | handed (snapshot : Snapshot)
deriving DecidableEq, Repr

inductive Operation where
  | begin
      (implicit : Bool)
      (session : String)
      (isolation : IsolationLevel)
  | commit (session : String)
  | rollback (session : String)
  | markFailed (session : String)
  | snapshot (session : String)
  | checkpoint
deriving DecidableEq, Repr

/- The manager, with what has happened, newest first. -/
structure Timeline (ι : Type) where
  manager : TransactionManager ι
  log : List Happening

namespace Timeline

/- A manager just created, at the horizon of an open. -/
def start (frozenXid : Nat) : Timeline ι where
  manager := TransactionManager.create frozenXid
  log := []

/- The id a `begin` handed out, if it opened anything. -/
def beganWith
    (before after : TransactionManager ι) :
    List Happening :=
  if before.nextId < after.nextId then
    [.began before.nextId]
  else []

/- The session's transaction over, committed or undone. -/
def finish
    (timeline : Timeline ι)
    (session : String) : Timeline ι :=
  match timeline.manager.activeIn session with
  | none => timeline
  | some transaction =>
    { manager := timeline.manager.retire session
      log := .finished transaction.transactionId ::
        timeline.log }

/- What a reader is given, and whether it was taken now. -/
def read
    (timeline : Timeline ι)
    (session : String) : Timeline ι :=
  let (manager, snapshot) := timeline.manager.snapshotIn session
  let keeps :=
    ((timeline.manager.activeIn session).bind
      OpenTransaction.kept).isSome
  { manager := manager
    log := .handed snapshot ::
      (if keeps then timeline.log
        else .took snapshot :: timeline.log) }

/- A call that is refused leaves everything as it was. -/
def step
    (timeline : Timeline ι) :
    Operation → Timeline ι
  | .begin implicit session isolation =>
    match timeline.manager.begin implicit session
        isolation with
    | .error _ => timeline
    | .ok manager =>
      { manager := manager
        log := beganWith timeline.manager manager ++
          timeline.log }
  | .commit session => timeline.finish session
  | .rollback session => timeline.finish session
  | .markFailed session =>
    { timeline with
      manager := timeline.manager.markFailed session }
  | .snapshot session => timeline.read session
  | .checkpoint =>
    if timeline.manager.anyOpen then timeline
    else
      { timeline with manager := timeline.manager.freeze }

def run (timeline : Timeline ι) :
    List Operation → Timeline ι :=
  List.foldl step timeline

end Timeline

/- The transaction was over: it finished in the run, or it
   lies below the horizon the run was opened with. -/
def Finished
    (frozenXid : Nat)
    (log : List Happening)
    (xid : Nat) : Prop :=
  xid < frozenXid ∨ .finished xid ∈ log

/- The snapshot sees its owner and what had finished. -/
def SeesFinished
    (frozenXid : Nat)
    (earlier : List Happening)
    (snapshot : Snapshot) : Prop :=
  ∀ xid, 0 < xid →
    (snapshot.sees xid = true ↔
      xid = snapshot.owner ∨ Finished frozenXid earlier xid)

--
-- The Manager Against Its Log
--

/- The running transactions are the handed-out ids that
   have not finished, and none lies below the horizon. -/
structure Timeline.Agrees
    (frozenXid : Nat)
    (timeline : Timeline ι) : Prop where
  opened : max frozenXid 1 ≤ timeline.manager.nextId
  finished : ∀ xid, .finished xid ∈ timeline.log ↔
    max frozenXid 1 ≤ xid ∧
      xid < timeline.manager.nextId ∧
      xid ∉ timeline.manager.runningIds
  below : timeline.manager.frozenXid ≤ timeline.manager.nextId
  above : frozenXid ≤ timeline.manager.frozenXid
  live : ∀ xid ∈ timeline.manager.runningIds,
    timeline.manager.frozenXid ≤ xid ∧ max frozenXid 1 ≤ xid

theorem runningIds_updateIn
    (manager : TransactionManager ι)
    (session : String)
    (f : OpenTransaction ι → OpenTransaction ι)
    (hSame : ∀ transaction,
      (f transaction).session = transaction.session ∧
        (f transaction).transactionId =
          transaction.transactionId) :
    (manager.updateIn session f hSame).runningIds =
      manager.runningIds := by
  unfold TransactionManager.runningIds
    TransactionManager.updateIn
    TransactionManager.mapRunning
  simp only [List.map_map]
  apply List.map_congr_left
  intro transaction _
  simp only [Function.comp_apply]
  split
  · exact (hSame transaction).2
  · simp

theorem runningIds_hold
    (manager : TransactionManager ι)
    (session : String)
    (snapshot : Snapshot) :
    (manager.hold session snapshot).runningIds =
      manager.runningIds :=
  runningIds_updateIn manager session
    (fun transaction =>
      { transaction with snapshot := some snapshot })
    (fun _ => ⟨rfl, rfl⟩)

theorem runningIds_markFailed
    (manager : TransactionManager ι)
    (session : String) :
    (manager.markFailed session).runningIds =
      manager.runningIds :=
  runningIds_updateIn manager session
    (fun transaction => { transaction with state := .failed })
    (fun _ => ⟨rfl, rfl⟩)

/- Of an open transaction, retiring its session removes just
   its id. -/
theorem mem_runningIds_retire
    {manager : TransactionManager ι}
    {session : String}
    {transaction : OpenTransaction ι}
    (hActive :
      manager.activeIn session = some transaction)
    (xid : Nat) :
    xid ∈ (manager.retire session).runningIds ↔
      xid ∈ manager.runningIds ∧
        xid ≠ transaction.transactionId := by
  have hMem := List.mem_of_find?_eq_some hActive
  have hSession := List.find?_some hActive
  simp only [decide_eq_true_eq] at hSession
  unfold TransactionManager.runningIds
    TransactionManager.retire
  simp only [List.mem_map, List.mem_filter, ne_eq,
    decide_not, Bool.not_eq_eq_eq_not, Bool.not_true,
    decide_eq_false_iff_not]
  constructor
  · intro hRest
    rcases hRest with ⟨other, ⟨hOther, hDiffers⟩, hXid⟩
    refine ⟨⟨other, hOther, hXid⟩, fun hSame => ?_⟩
    have hEqual := List.inj_on_of_nodup_map manager.ids
      hOther hMem (hXid.trans hSame)
    rw [hEqual] at hDiffers
    exact hDiffers hSession
  · intro hBoth
    rcases hBoth with ⟨⟨other, hOther, hXid⟩, hDiffers⟩
    refine ⟨other, ⟨hOther, fun hSame => ?_⟩, hXid⟩
    have hEqual := List.inj_on_of_nodup_map
      manager.sessions hOther hMem
        (hSame.trans hSession.symm)
    rw [hEqual] at hXid
    exact hDiffers hXid.symm

theorem start_agrees (frozenXid : Nat) :
    (Timeline.start frozenXid : Timeline ι).Agrees
      frozenXid where
  opened := Nat.le_refl _
  finished := by
    intro xid
    constructor
    · intro hFinished
      exact absurd hFinished List.not_mem_nil
    · intro hBetween
      exact absurd hBetween.1 (Nat.not_le.mpr hBetween.2.1)
  below := Nat.le_max_left _ _
  above := Nat.le_refl _
  live := by
    simp [Timeline.start, TransactionManager.create,
      TransactionManager.runningIds]

section Steps

variable {timeline : Timeline ι}

/- A change of nothing the log speaks about. -/
theorem Timeline.Agrees.same
    (hAgrees : timeline.Agrees frozenXid)
    {after : Timeline ι}
    (hNext : after.manager.nextId = timeline.manager.nextId)
    (hFrozen : after.manager.frozenXid =
      timeline.manager.frozenXid)
    (hRunning : after.manager.runningIds =
      timeline.manager.runningIds)
    (hLog : ∀ xid, .finished xid ∈ after.log ↔
      .finished xid ∈ timeline.log) :
    after.Agrees frozenXid where
  opened := by
    rw [hNext]
    exact hAgrees.opened
  finished := by
    intro xid
    rw [hLog, hNext, hRunning]
    exact hAgrees.finished xid
  below := by
    rw [hNext, hFrozen]
    exact hAgrees.below
  above := by
    rw [hFrozen]
    exact hAgrees.above
  live := by
    rw [hFrozen, hRunning]
    exact hAgrees.live

/- A snapshot taken now sees what has finished by now. -/
theorem Timeline.Agrees.takeSnapshot
    (hAgrees : timeline.Agrees frozenXid)
    (owner : Nat) :
    SeesFinished frozenXid timeline.log
      (timeline.manager.takeSnapshot owner) := by
  intro xid hPositive
  have hFinished := hAgrees.finished xid
  have hOpened := hAgrees.opened
  have hBelow := hAgrees.below
  have hAbove := hAgrees.above
  have hLive := hAgrees.live xid
  have hMax := Nat.le_max_left frozenXid 1
  have hCases : frozenXid ≤ xid → max frozenXid 1 ≤ xid :=
    fun hXid => Nat.max_le.mpr ⟨hXid, hPositive⟩
  unfold Finished Snapshot.sees
    TransactionManager.takeSnapshot Snapshot.take
  have hTransaction : xid ≠ noTransaction :=
    Nat.pos_iff_ne_zero.mp hPositive
  rw [hFinished, if_neg hTransaction]
  by_cases hRunning :
      xid ∈ timeline.manager.runningIds
  · have hBounds := hLive hRunning
    simp only [hRunning, not_true, decide_false]
    grind
  · simp only [hRunning, not_false_eq_true, decide_true]
    grind

variable {implicit : Bool}
variable {isolation : IsolationLevel}

theorem begin_cases
    {manager' : TransactionManager ι}
    (hBegin : manager.begin implicit session isolation =
      .ok manager') :
    (manager'.nextId = manager.nextId ∧
      manager'.frozenXid = manager.frozenXid ∧
      manager'.runningIds = manager.runningIds) ∨
    (manager'.nextId = manager.nextId + 1 ∧
      manager'.frozenXid = manager.frozenXid ∧
      manager'.runningIds =
        manager.runningIds ++ [manager.nextId]) := by
  unfold TransactionManager.begin at hBegin
  split at hBegin
  · split at hBegin
    · cases hBegin
      exact .inl ⟨rfl, rfl, rfl⟩
    · split at hBegin
      · cases hBegin
      · cases hBegin
        exact .inl ⟨rfl, rfl, runningIds_updateIn _ _ _ _⟩
  · cases hBegin
    refine .inr ⟨rfl, rfl, ?_⟩
    simp [TransactionManager.add, TransactionManager.runningIds,
      TransactionManager.start]

theorem Timeline.Agrees.begin
    (hAgrees : timeline.Agrees frozenXid)
    (hBegin : timeline.manager.begin implicit session
      isolation = .ok manager) :
    Timeline.Agrees frozenXid
      { manager := manager
        log := Timeline.beganWith timeline.manager manager ++
          timeline.log } := by
  have hLog : ∀ xid,
      .finished xid ∈ Timeline.beganWith timeline.manager
          manager ++ timeline.log ↔
        .finished xid ∈ timeline.log := by
    intro xid
    unfold Timeline.beganWith
    split <;> simp
  rcases begin_cases hBegin with
    ⟨hNext, hFrozen, hRunning⟩ | ⟨hNext, hFrozen, hRunning⟩
  · exact hAgrees.same hNext hFrozen hRunning hLog
  · have hOpened := hAgrees.opened
    have hBelow := hAgrees.below
    constructor
    · simp only [hNext]
      omega
    · intro xid
      rw [hLog, hAgrees.finished xid]
      simp only [hNext, hRunning, List.mem_append,
        List.mem_singleton]
      constructor
      · intro hOld
        refine ⟨hOld.1, by omega, ?_⟩
        rw [not_or]
        exact ⟨hOld.2.2, by omega⟩
      · intro hNew
        rw [not_or] at hNew
        exact ⟨hNew.1, by omega, hNew.2.2.1⟩
    · simp only [hNext, hFrozen]
      omega
    · simp only [hFrozen]
      exact hAgrees.above
    · intro xid hXid
      simp only [hFrozen]
      simp only [hRunning, List.mem_append,
        List.mem_singleton] at hXid
      rcases hXid with hOld | hNew
      · exact hAgrees.live xid hOld
      · rw [hNew]
        exact ⟨hBelow, hOpened⟩

theorem Timeline.Agrees.finish
    (hAgrees : timeline.Agrees frozenXid)
    (session : String) :
    (timeline.finish session).Agrees frozenXid := by
  unfold Timeline.finish
  cases hActive : timeline.manager.activeIn session with
  | none => exact hAgrees
  | some transaction =>
    have hMem := List.mem_of_find?_eq_some hActive
    have hAssigned :=
      (timeline.manager.assigned transaction hMem).2
    have hRunning : transaction.transactionId ∈
        timeline.manager.runningIds :=
      List.mem_map.mpr ⟨transaction, hMem, rfl⟩
    have hLive := hAgrees.live _ hRunning
    constructor
    · exact hAgrees.opened
    · intro xid
      have hFinished := hAgrees.finished xid
      simp only [List.mem_cons, Happening.finished.injEq,
        mem_runningIds_retire hActive, hFinished]
      constructor
      · intro hEither
        rcases hEither with hNow | hOld
        · rw [hNow]
          exact ⟨hLive.2, hAssigned, fun h => h.2 rfl⟩
        · exact ⟨hOld.1, hOld.2.1,
            fun h => hOld.2.2 h.1⟩
      · intro hRest
        by_cases hSame :
            xid = transaction.transactionId
        · exact .inl hSame
        · refine .inr ⟨hRest.1, hRest.2.1, ?_⟩
          exact fun h => hRest.2.2 ⟨h, hSame⟩
    · exact hAgrees.below
    · exact hAgrees.above
    · intro xid hXid
      rw [mem_runningIds_retire hActive] at hXid
      exact hAgrees.live xid hXid.1

theorem snapshotIn_same
    (manager : TransactionManager ι)
    (session : String) :
    (manager.snapshotIn session).1.nextId =
        manager.nextId ∧
      (manager.snapshotIn session).1.frozenXid =
        manager.frozenXid ∧
      (manager.snapshotIn session).1.runningIds =
        manager.runningIds := by
  unfold TransactionManager.snapshotIn
  split
  · exact ⟨rfl, rfl, rfl⟩
  · unfold TransactionManager.snapshotFor
    split
    · exact ⟨rfl, rfl, rfl⟩
    · exact ⟨rfl, rfl, runningIds_hold _ _ _⟩

theorem Timeline.Agrees.read
    (hAgrees : timeline.Agrees frozenXid)
    (session : String) :
    (timeline.read session).Agrees frozenXid := by
  rcases snapshotIn_same timeline.manager session with
    ⟨hNext, hFrozen, hRunning⟩
  apply hAgrees.same hNext hFrozen hRunning
  intro xid
  unfold Timeline.read
  simp only
  split <;> simp

theorem Timeline.Agrees.step
    (hAgrees : timeline.Agrees frozenXid)
    (operation : Operation) :
    (timeline.step operation).Agrees frozenXid := by
  cases operation with
  | begin implicit session isolation =>
    unfold Timeline.step
    simp only
    split
    · exact hAgrees
    · rename_i manager hBegin
      exact hAgrees.begin hBegin
  | commit session => exact hAgrees.finish session
  | rollback session => exact hAgrees.finish session
  | markFailed session =>
    exact hAgrees.same rfl rfl
      (runningIds_markFailed _ _) (fun _ => Iff.rfl)
  | snapshot session => exact hAgrees.read session
  | checkpoint =>
    unfold Timeline.step
    simp only
    split
    · exact hAgrees
    · rename_i hIdle
      have hNone : timeline.manager.runningIds = [] := by
        simpa [TransactionManager.anyOpen,
          TransactionManager.runningIds] using hIdle
      have hOpened := hAgrees.opened
      have hMax := Nat.le_max_left frozenXid 1
      constructor
      · exact hOpened
      · exact hAgrees.finished
      · exact Nat.le_refl _
      · exact Nat.le_trans hMax hOpened
      · intro xid hXid
        unfold TransactionManager.freeze
          TransactionManager.runningIds at hXid
        unfold TransactionManager.runningIds at hNone
        rw [hNone] at hXid
        cases hXid

end Steps

--
-- Snapshots Against the Log
--

/- Every snapshot in the log and every one still held was
   taken at some moment, and sees what had finished then. -/
structure Timeline.Recorded
    (frozenXid : Nat)
    (timeline : Timeline ι) : Prop where
  sees : ∀ later earlier snapshot,
    timeline.log = later ++ .took snapshot :: earlier →
      SeesFinished frozenXid earlier snapshot
  handed : ∀ snapshot, .handed snapshot ∈ timeline.log →
    .took snapshot ∈ timeline.log
  held : ∀ transaction ∈ timeline.manager.running,
    ∀ snapshot, transaction.snapshot = some snapshot →
      .took snapshot ∈ timeline.log

section Records

variable {timeline : Timeline ι}

theorem start_recorded (frozenXid : Nat) :
    (Timeline.start frozenXid : Timeline ι).Recorded
      frozenXid where
  sees := by simp [Timeline.start]
  handed := by simp [Timeline.start]
  held := by
    simp [Timeline.start, TransactionManager.create]

/- More happenings, none of which is about snapshots. -/
theorem Timeline.Recorded.quiet
    (hRecorded : timeline.Recorded frozenXid)
    (happenings : List Happening)
    (hQuiet : ∀ snapshot,
      .took snapshot ∉ happenings ∧
        .handed snapshot ∉ happenings)
    (hHeld : ∀ transaction ∈ manager.running,
      transaction.snapshot = none ∨
      ∃ before ∈ timeline.manager.running,
        transaction.snapshot = before.snapshot) :
    Timeline.Recorded frozenXid
      { manager := manager
        log := happenings ++ timeline.log } where
  sees := by
    intro later earlier snapshot hLog
    rcases List.append_eq_append_iff.mp hLog with
      ⟨rest, hLater, hRest⟩ | ⟨rest, hHappenings, hRest⟩
    · exact hRecorded.sees rest earlier snapshot hRest
    · cases rest with
      | nil =>
        exact hRecorded.sees [] earlier snapshot
          (by simpa using hRest.symm)
      | cons first rest =>
        rw [List.cons_append, List.cons.injEq] at hRest
        have hMem : .took snapshot ∈ happenings := by
          rw [hHappenings, hRest.1]
          simp
        exact absurd hMem (hQuiet snapshot).1
  handed := by
    intro snapshot hMem
    rcases List.mem_append.mp hMem with hNew | hOld
    · exact absurd hNew (hQuiet snapshot).2
    · exact List.mem_append_right _
        (hRecorded.handed snapshot hOld)
  held := by
    intro transaction hMem snapshot hSnapshot
    rcases hHeld transaction hMem with
      hNone | ⟨before, hBefore, hSame⟩
    · rw [hNone] at hSnapshot
      cases hSnapshot
    · rw [hSame] at hSnapshot
      exact List.mem_append_right _
        (hRecorded.held before hBefore snapshot hSnapshot)

theorem running_updateIn
    {f : OpenTransaction ι → OpenTransaction ι}
    {hSame : ∀ transaction,
      (f transaction).session = transaction.session ∧
        (f transaction).transactionId =
          transaction.transactionId}
    {transaction : OpenTransaction ι}
    (hMem : transaction ∈
      (manager.updateIn session f hSame).running) :
    ∃ before ∈ manager.running,
      transaction = f before ∨ transaction = before := by
  rcases List.mem_map.mp hMem with ⟨before, hBefore, hEq⟩
  refine ⟨before, hBefore, ?_⟩
  split at hEq
  · exact .inl hEq.symm
  · exact .inr hEq.symm

theorem begin_held
    {manager' : TransactionManager ι}
    {implicit : Bool}
    {isolation : IsolationLevel}
    (hBegin : manager.begin implicit session isolation =
      .ok manager') :
    ∀ transaction ∈ manager'.running,
      transaction.snapshot = none ∨
      ∃ before ∈ manager.running,
        transaction.snapshot = before.snapshot := by
  intro transaction hMem
  unfold TransactionManager.begin at hBegin
  split at hBegin
  · split at hBegin
    · cases hBegin
      exact .inr ⟨transaction, hMem, rfl⟩
    · split at hBegin
      · cases hBegin
      · cases hBegin
        rcases running_updateIn hMem with
          ⟨before, hBefore, hSame | hSame⟩
        all_goals
          exact .inr ⟨before, hBefore, by rw [hSame]⟩
  · cases hBegin
    rcases List.mem_append.mp hMem with hOld | hNew
    · exact .inr ⟨transaction, hOld, rfl⟩
    · rw [List.mem_singleton.mp hNew]
      exact .inl rfl

section Recorded

variable (hRecorded : timeline.Recorded frozenXid)

include hRecorded

theorem Timeline.Recorded.finish
    (session : String) :
    (timeline.finish session).Recorded frozenXid := by
  unfold Timeline.finish
  cases hActive : timeline.manager.activeIn session with
  | none => exact hRecorded
  | some transaction =>
    apply hRecorded.quiet
      [.finished transaction.transactionId]
    · simp
    · intro other hOther
      have hOld := (List.mem_filter.mp hOther).1
      exact .inr ⟨other, hOld, rfl⟩

/- A snapshot taken now goes on the log, and is handed out. -/
theorem Timeline.Recorded.take
    (hAgrees : timeline.Agrees frozenXid)
    (owner : Nat)
    (hHeld : ∀ transaction ∈ manager.running,
      transaction.snapshot =
        some (timeline.manager.takeSnapshot owner) ∨
      ∃ before ∈ timeline.manager.running,
        transaction.snapshot = before.snapshot) :
    Timeline.Recorded frozenXid
      { manager := manager
        log := .handed (timeline.manager.takeSnapshot
            owner) ::
          .took (timeline.manager.takeSnapshot owner) ::
            timeline.log } where
  sees := by
    intro later earlier snapshot hLog
    cases later with
    | nil => cases hLog
    | cons first later =>
      rw [List.cons_append, List.cons.injEq] at hLog
      cases later with
      | nil =>
        rw [List.nil_append, List.cons.injEq] at hLog
        rcases hLog with ⟨_, hTook, hEarlier⟩
        cases hTook
        rw [← hEarlier]
        exact hAgrees.takeSnapshot owner
      | cons second later =>
        rw [List.cons_append, List.cons.injEq] at hLog
        exact hRecorded.sees later earlier snapshot
          hLog.2.2
  handed := by
    intro snapshot hMem
    simp only [List.mem_cons, Happening.handed.injEq,
      reduceCtorEq, false_or] at hMem
    rcases hMem with hNow | hOld
    · rw [hNow]
      simp
    · have hTook := hRecorded.handed snapshot hOld
      simp [hTook]
  held := by
    intro transaction hMem snapshot hSnapshot
    rcases hHeld transaction hMem with
      hNow | ⟨before, hBefore, hSame⟩
    · rw [hNow] at hSnapshot
      cases hSnapshot
      simp
    · rw [hSame] at hSnapshot
      have hTook :=
        hRecorded.held before hBefore snapshot hSnapshot
      simp [hTook]

/- A snapshot taken before is handed out once more. -/
theorem Timeline.Recorded.again
    {snapshot : Snapshot}
    (hTook : .took snapshot ∈ timeline.log) :
    Timeline.Recorded frozenXid
      { timeline with
        log := .handed snapshot :: timeline.log } where
  sees := by
    intro later earlier other hLog
    cases later with
    | nil => cases hLog
    | cons first later =>
      rw [List.cons_append, List.cons.injEq] at hLog
      exact hRecorded.sees later earlier other hLog.2
  handed := by
    intro other hOther
    simp only [List.mem_cons, Happening.handed.injEq]
      at hOther
    rcases hOther with hNow | hOld
    · rw [hNow]
      simp [hTook]
    · have hOldTook := hRecorded.handed other hOld
      simp [hOldTook]
  held := by
    intro other hOther held hSnapshot
    have hOldTook := hRecorded.held other hOther held hSnapshot
    simp [hOldTook]

theorem Timeline.Recorded.read
    (hAgrees : timeline.Agrees frozenXid)
    (session : String) :
    (timeline.read session).Recorded frozenXid := by
  unfold Timeline.read TransactionManager.snapshotIn
  cases hActive : timeline.manager.activeIn session with
  | none =>
    apply hRecorded.take hAgrees noTransaction
    intro transaction hMem
    exact .inr ⟨transaction, hMem, rfl⟩
  | some transaction =>
    have hMem := List.mem_of_find?_eq_some hActive
    cases hKept : transaction.kept with
    | some snapshot =>
      simp only [TransactionManager.snapshotFor, hKept,
        Option.bind_some, Option.isSome_some, if_true]
      have hHeld : transaction.snapshot =
          some snapshot := by
        unfold OpenTransaction.kept at hKept
        split at hKept
        · cases hKept
        · exact hKept
      exact hRecorded.again
        (hRecorded.held transaction hMem snapshot hHeld)
    | none =>
      simp only [TransactionManager.snapshotFor, hKept,
        Option.bind_some, Option.isSome_none,
        Bool.false_eq_true, if_false]
      apply hRecorded.take hAgrees
        transaction.transactionId
      intro other hOther
      rcases running_updateIn hOther with
        ⟨before, hBefore, hSame | hSame⟩
      · rw [hSame]
        exact .inl rfl
      · rw [hSame]
        exact .inr ⟨before, hBefore, rfl⟩

theorem Timeline.Recorded.step
    (hAgrees : timeline.Agrees frozenXid)
    (operation : Operation) :
    (timeline.step operation).Recorded frozenXid := by
  cases operation with
  | begin implicit session isolation =>
    unfold Timeline.step
    simp only
    split
    · exact hRecorded
    · rename_i manager hBegin
      apply hRecorded.quiet (Timeline.beganWith _ _)
      · intro snapshot
        unfold Timeline.beganWith
        split <;> simp
      · exact begin_held hBegin
  | commit session => exact hRecorded.finish session
  | rollback session => exact hRecorded.finish session
  | markFailed session =>
    apply hRecorded.quiet []
    · simp
    · intro transaction hMem
      rcases running_updateIn hMem with
        ⟨before, hBefore, hSame | hSame⟩
      all_goals
        exact .inr ⟨before, hBefore, by rw [hSame]⟩
  | snapshot session => exact hRecorded.read hAgrees session
  | checkpoint =>
    unfold Timeline.step
    simp only
    split
    · exact hRecorded
    · exact hRecorded.quiet [] (by simp) (fun transaction hMem =>
          .inr ⟨transaction, hMem, rfl⟩)

end Recorded

end Records

theorem Timeline.run_recorded
    {frozenXid : Nat}
    {timeline : Timeline ι}
    (hAgrees : timeline.Agrees frozenXid)
    (hRecorded : timeline.Recorded frozenXid)
    (operations : List Operation) :
    (timeline.run operations).Recorded frozenXid := by
  induction operations generalizing timeline with
  | nil => exact hRecorded
  | cons operation rest ih =>
    exact ih (hAgrees.step operation)
      (hRecorded.step hAgrees operation)

/-
  Every snapshot handed out in a run was taken at a moment of
  it, sees just its owner and the transactions that had
  finished by then, and shows just the versions whose creator
  it sees and whose deleter it does not.
-/
theorem handed_sees_finished
    (frozenXid : Nat)
    (operations : List Operation)
    {snapshot : Snapshot}
    (hHanded : .handed snapshot ∈
      ((Timeline.start frozenXid : Timeline ι).run
        operations).log) :
    ∃ later earlier,
      ((Timeline.start frozenXid : Timeline ι).run
          operations).log =
        later ++ .took snapshot :: earlier ∧
      SeesFinished frozenXid earlier snapshot ∧
      ∀ header : TupleHeader, 0 < header.xmin →
        (visible header snapshot = true ↔
          (header.xmin = snapshot.owner ∨
            Finished frozenXid earlier header.xmin) ∧
          (header.xmax = noTransaction ∨
            ¬ Finished frozenXid earlier header.xmax ∧
              header.xmax ≠ snapshot.owner)) := by
  have hRecorded := Timeline.run_recorded
    (start_agrees (ι := ι) frozenXid)
    (start_recorded frozenXid) operations
  have hTook := hRecorded.handed snapshot hHanded
  rcases List.append_of_mem hTook with ⟨later, earlier, hLog⟩
  have hSees := hRecorded.sees later earlier snapshot hLog
  refine ⟨later, earlier, hLog, hSees, ?_⟩
  intro header hCreated
  unfold visible
  rw [Bool.and_eq_true, hSees header.xmin hCreated,
    Bool.not_eq_true', ← Bool.not_eq_true]
  by_cases hLive : header.xmax = noTransaction
  · simp [hLive, Snapshot.sees]
  · have hDeleted := hSees header.xmax
      (Nat.pos_of_ne_zero hLive)
    rw [hDeleted, not_or]
    tauto

/- Two sessions open a transaction each, the second commits,
   and then the first reads. -/
theorem handed_sees_finished_commit :
    ∃ later earlier,
      ((Timeline.start 1 : Timeline Nat).run
          [ .begin false "a" .repeatableRead,
            .begin false "b" .readCommitted, .commit "b",
            .snapshot "a" ]).log =
        later ++ .took (Snapshot.take 3 [1] 1 1) :: earlier ∧
      SeesFinished 1 earlier (Snapshot.take 3 [1] 1 1) ∧
      ∀ header : TupleHeader, 0 < header.xmin →
        (visible header (Snapshot.take 3 [1] 1 1) = true ↔
          (header.xmin = (Snapshot.take 3 [1] 1 1).owner ∨
            Finished 1 earlier header.xmin) ∧
          (header.xmax = noTransaction ∨
            ¬ Finished 1 earlier header.xmax ∧
              header.xmax ≠
                (Snapshot.take 3 [1] 1 1).owner)) :=
  handed_sees_finished 1 _ (by decide)

end Transaction

end ChenDB
