import ChenDB.Transaction.Timeline

/-
  What the snapshots that open transactions hold can see, in
  every state of the manager, and the horizon they set.
-/

--
-- The Horizon
--

namespace ChenDB

namespace Transaction

open Wal (noTransaction)

variable {ι : Type}

namespace TransactionManager

/- The lowest `xmin` an open transaction may be reading at. -/
def oldestSnapshotXmin
    (manager : TransactionManager ι) : Nat :=
  let live := manager.running.filterMap fun transaction =>
    transaction.snapshot.map Snapshot.xmin
  (live.min?).getD manager.nextId

end TransactionManager

--
-- Sound Managers
--

/- A snapshot its owner may hold in this state: it sees
   everything below its `xmin`, and nobody else's work that
   is unfinished or yet to come. -/
structure Snapshot.Fits
    (snapshot : Snapshot)
    (manager : TransactionManager ι) : Prop where
  past : ∀ xid, 0 < xid → xid < snapshot.xmin →
    snapshot.sees xid = true
  others : ∀ xid ∈ manager.runningIds,
    xid ≠ snapshot.owner → snapshot.sees xid = false
  future : ∀ xid, manager.nextId ≤ xid →
    xid ≠ snapshot.owner → snapshot.sees xid = false
  bounded : snapshot.xmin ≤ manager.nextId

structure TransactionManager.Sound
    (manager : TransactionManager ι) : Prop where
  below : manager.frozenXid ≤ manager.nextId
  live : ∀ xid ∈ manager.runningIds, manager.frozenXid ≤ xid
  held : ∀ transaction ∈ manager.running,
    ∀ snapshot, transaction.snapshot = some snapshot →
      snapshot.Fits manager ∧
        snapshot.owner = transaction.transactionId ∧
        snapshot.xmin ≤ transaction.transactionId

section Facts

variable {manager : TransactionManager ι}

theorem runningIds_bounds
    {xid : Nat}
    (hRunning : xid ∈ manager.runningIds) :
    0 < xid ∧ xid < manager.nextId := by
  rcases List.mem_map.mp hRunning with ⟨transaction, hMem, rfl⟩
  exact manager.assigned transaction hMem

theorem create_sound (frozenXid : Nat) :
    (TransactionManager.create frozenXid :
      TransactionManager ι).Sound where
  below := Nat.le_max_left _ _
  live := by
    simp [TransactionManager.create,
      TransactionManager.runningIds]
  held := by simp [TransactionManager.create]

theorem xmin_take_le
    (manager : TransactionManager ι)
    (owner : Nat) :
    (manager.takeSnapshot owner).xmin ≤ manager.nextId ∧
      ∀ xid ∈ manager.runningIds,
        (manager.takeSnapshot owner).xmin ≤ xid := by
  unfold TransactionManager.takeSnapshot Snapshot.take
  cases hMin : manager.runningIds.min? with
  | none =>
    rw [List.min?_eq_none_iff] at hMin
    simp [hMin]
  | some least =>
    rw [List.min?_eq_some_iff] at hMin
    have hBounds := runningIds_bounds hMin.1
    exact ⟨Nat.le_of_lt hBounds.2, hMin.2⟩

/- A snapshot taken now. -/
theorem TransactionManager.Sound.takeSnapshot
    (hSound : manager.Sound)
    (owner : Nat) :
    (manager.takeSnapshot owner).Fits manager where
  past := by
    intro xid hPositive hPast
    rcases xmin_take_le manager owner with ⟨hNext, hLeast⟩
    have hIdle : xid ∉ manager.runningIds := by
      intro hRunning
      have hLe := hLeast xid hRunning
      omega
    have hBelow : xid < manager.nextId := by omega
    have hXid : xid ≠ noTransaction :=
      Nat.pos_iff_ne_zero.mp hPositive
    unfold Snapshot.sees
    simp only [TransactionManager.takeSnapshot,
      Snapshot.take, hXid, if_false, hIdle,
      not_false_eq_true, decide_true]
    grind
  others := by
    intro xid hRunning hOther
    have hLive := hSound.live xid hRunning
    unfold Snapshot.sees
    simp only [TransactionManager.takeSnapshot,
      Snapshot.take] at hOther ⊢
    simp [hOther, hRunning, Nat.not_lt_of_ge hLive]
  future := by
    intro xid hFuture hOther
    have hBelow := hSound.below
    unfold Snapshot.sees
    simp only [TransactionManager.takeSnapshot,
      Snapshot.take] at hOther ⊢
    simp only [hOther, if_false, ge_iff_le, hFuture, if_true]
    grind
  bounded := (xmin_take_le manager owner).1

variable {manager' : TransactionManager ι}

/- A held snapshot keeps fitting while no new id runs but
   the next ones. -/
theorem Snapshot.Fits.mono
    {snapshot : Snapshot}
    (hFits : snapshot.Fits manager)
    (hNext : manager.nextId ≤ manager'.nextId)
    (hRunning : ∀ xid ∈ manager'.runningIds,
      xid ∈ manager.runningIds ∨ manager.nextId ≤ xid) :
    snapshot.Fits manager' where
  past := hFits.past
  others := by
    intro xid hXid hOther
    rcases hRunning xid hXid with hOld | hNew
    · exact hFits.others xid hOld hOther
    · exact hFits.future xid hNew hOther
  future := by
    intro xid hXid hOther
    exact hFits.future xid (Nat.le_trans hNext hXid) hOther
  bounded := Nat.le_trans hFits.bounded hNext

/- Soundness goes by the ids and the snapshots held. -/
theorem TransactionManager.Sound.mono
    (hSound : manager.Sound)
    (manager' : TransactionManager ι)
    (hNext : manager.nextId ≤ manager'.nextId)
    (hFrozen : manager'.frozenXid = manager.frozenXid)
    (hRunning : ∀ xid ∈ manager'.runningIds,
      xid ∈ manager.runningIds ∨ manager.nextId ≤ xid)
    (hHeld : ∀ transaction ∈ manager'.running,
      transaction.snapshot = none ∨
      ∃ before ∈ manager.running,
        transaction.snapshot = before.snapshot ∧
          transaction.transactionId = before.transactionId) :
    manager'.Sound where
  below := by
    rw [hFrozen]
    exact Nat.le_trans hSound.below hNext
  live := by
    intro xid hXid
    rw [hFrozen]
    rcases hRunning xid hXid with hOld | hNew
    · exact hSound.live xid hOld
    · exact Nat.le_trans hSound.below hNew
  held := by
    intro transaction hMem snapshot hSnapshot
    rcases hHeld transaction hMem with
      hNone | ⟨before, hBefore, hSame, hId⟩
    · rw [hNone] at hSnapshot
      cases hSnapshot
    · rw [hSame] at hSnapshot
      rw [hId]
      rcases hSound.held before hBefore snapshot hSnapshot
        with ⟨hFits, hRest⟩
      exact ⟨hFits.mono hNext hRunning, hRest⟩

theorem begin_sound
    (hSound : manager.Sound)
    {implicit : Bool}
    {session : String}
    {isolation : IsolationLevel}
    (hBegin : manager.begin implicit session isolation =
      .ok manager') :
    manager'.Sound := by
  have hIds := begin_cases hBegin
  apply hSound.mono manager'
  · rcases hIds with ⟨hNext, _⟩ | ⟨hNext, _⟩ <;> omega
  · rcases hIds with ⟨_, hFrozen, _⟩ | ⟨_, hFrozen, _⟩
    all_goals exact hFrozen
  · intro xid hXid
    rcases hIds with ⟨_, _, hRunning⟩ | ⟨_, _, hRunning⟩
    · rw [hRunning] at hXid
      exact .inl hXid
    · rw [hRunning, List.mem_append,
        List.mem_singleton] at hXid
      rcases hXid with hOld | hNew
      · exact .inl hOld
      · exact .inr (Nat.le_of_eq hNew.symm)
  · intro transaction hMem
    unfold TransactionManager.begin at hBegin
    split at hBegin
    · split at hBegin
      · cases hBegin
        exact .inr ⟨transaction, hMem, rfl, rfl⟩
      · split at hBegin
        · cases hBegin
        · cases hBegin
          rcases running_updateIn hMem with
            ⟨before, hBefore, hSame | hSame⟩
          all_goals
            rw [hSame]
            exact .inr ⟨before, hBefore, rfl, rfl⟩
    · cases hBegin
      rcases List.mem_append.mp hMem with hOld | hNew
      · exact .inr ⟨transaction, hOld, rfl, rfl⟩
      · rw [List.mem_singleton.mp hNew]
        exact .inl rfl

theorem retire_sound
    (hSound : manager.Sound)
    (session : String) :
    (manager.retire session).Sound := by
  have hSub : ∀ transaction ∈
      (manager.retire session).running,
      transaction ∈ manager.running :=
    fun _ hMem => (List.mem_filter.mp hMem).1
  apply hSound.mono (manager.retire session)
    (Nat.le_refl _) rfl
  · intro xid hXid
    rcases List.mem_map.mp hXid with ⟨transaction, hMem, rfl⟩
    exact .inl (List.mem_map.mpr
      ⟨transaction, hSub transaction hMem, rfl⟩)
  · intro transaction hMem
    exact .inr
      ⟨transaction, hSub transaction hMem, rfl, rfl⟩

theorem markFailed_sound
    (hSound : manager.Sound)
    (session : String) :
    (manager.markFailed session).Sound := by
  apply hSound.mono (manager.markFailed session)
    (Nat.le_refl _) rfl
  · intro xid hXid
    rw [runningIds_markFailed] at hXid
    exact .inl hXid
  · intro transaction hMem
    rcases running_updateIn hMem with
      ⟨before, hBefore, hSame | hSame⟩
    all_goals
      rw [hSame]
      exact .inr ⟨before, hBefore, rfl, rfl⟩

theorem freeze_sound
    (hIdle : manager.anyOpen = false) :
    manager.freeze.Sound := by
  have hNone : manager.running = [] := by
    simpa [TransactionManager.anyOpen] using hIdle
  constructor
  · exact Nat.le_refl _
  · simp [TransactionManager.freeze,
      TransactionManager.runningIds, hNone]
  · simp [TransactionManager.freeze, hNone]

theorem hold_sound
    (hSound : manager.Sound)
    {transaction : OpenTransaction ι}
    (hActive : manager.activeIn transaction.session =
      some transaction) :
    (manager.hold transaction.session
      (manager.takeSnapshot
        transaction.transactionId)).Sound := by
  have hMem := List.mem_of_find?_eq_some hActive
  have hRunning : ∀ xid ∈ (manager.hold transaction.session
      (manager.takeSnapshot
        transaction.transactionId)).runningIds,
      xid ∈ manager.runningIds ∨ manager.nextId ≤ xid := by
    intro xid hXid
    rw [runningIds_hold] at hXid
    exact .inl hXid
  constructor
  · exact hSound.below
  · intro xid hXid
    rw [runningIds_hold] at hXid
    exact hSound.live xid hXid
  · intro other hOther snapshot hSnapshot
    rcases List.mem_map.mp hOther with ⟨before, hBefore, hEq⟩
    by_cases hSession :
        before.session = transaction.session
    · rw [if_pos hSession] at hEq
      have hSame := List.inj_on_of_nodup_map
        manager.sessions hBefore hMem hSession
      subst hEq
      cases hSnapshot
      rw [hSame]
      refine ⟨(hSound.takeSnapshot _).mono
        (Nat.le_refl _) hRunning, rfl, ?_⟩
      exact (xmin_take_le manager _).2 _
        (List.mem_map.mpr ⟨transaction, hMem, rfl⟩)
    · rw [if_neg hSession] at hEq
      subst hEq
      rcases hSound.held before hBefore snapshot hSnapshot
        with ⟨hFits, hRest⟩
      exact ⟨hFits.mono (Nat.le_refl _) hRunning, hRest⟩

theorem snapshotIn_sound
    (hSound : manager.Sound)
    (session : String) :
    (manager.snapshotIn session).1.Sound := by
  unfold TransactionManager.snapshotIn
  cases hActive : manager.activeIn session with
  | none => exact hSound
  | some transaction =>
    have hSession := List.find?_some hActive
    simp only [decide_eq_true_eq] at hSession
    simp only [TransactionManager.snapshotFor]
    cases hKept : transaction.kept with
    | some snapshot => exact hSound
    | none =>
      apply hold_sound hSound
      rw [hSession]
      exact hActive

end Facts

variable {timeline : Timeline ι}

theorem Timeline.step_sound
    (hSound : timeline.manager.Sound)
    (operation : Operation) :
    (timeline.step operation).manager.Sound := by
  have hFinish : ∀ session,
      (timeline.finish session).manager.Sound := by
    intro session
    unfold Timeline.finish
    split
    · exact hSound
    · exact retire_sound hSound session
  cases operation with
  | begin implicit session isolation =>
    unfold Timeline.step
    simp only
    split
    · exact hSound
    · rename_i manager hBegin
      exact begin_sound hSound hBegin
  | commit session => exact hFinish session
  | rollback session => exact hFinish session
  | markFailed session => exact markFailed_sound hSound session
  | snapshot session => exact snapshotIn_sound hSound session
  | checkpoint =>
    unfold Timeline.step
    simp only
    split
    · exact hSound
    · rename_i hIdle
      apply freeze_sound
      simpa using hIdle

/- The manager is sound whatever has happened to it. -/
theorem Timeline.run_sound
    (hSound : timeline.manager.Sound)
    (operations : List Operation) :
    (timeline.run operations).manager.Sound := by
  induction operations generalizing timeline with
  | nil => exact hSound
  | cons operation rest ih =>
    exact ih (Timeline.step_sound hSound operation)

variable {xid : Nat}

/- An id handed out that is not running does not run again. -/
theorem Timeline.step_settled
    (hIdle : xid ∉ timeline.manager.runningIds)
    (hPast : xid < timeline.manager.nextId)
    (operation : Operation) :
    xid ∉ (timeline.step operation).manager.runningIds ∧
      xid < (timeline.step operation).manager.nextId := by
  have hFinish : ∀ session,
      xid ∉ (timeline.finish session).manager.runningIds ∧
        xid < (timeline.finish session).manager.nextId := by
    intro session
    unfold Timeline.finish
    cases hActive : timeline.manager.activeIn session with
    | none => exact ⟨hIdle, hPast⟩
    | some transaction =>
      refine ⟨fun hXid => ?_, hPast⟩
      rw [mem_runningIds_retire hActive] at hXid
      exact hIdle hXid.1
  cases operation with
  | begin implicit session isolation =>
    unfold Timeline.step
    simp only
    split
    · exact ⟨hIdle, hPast⟩
    · rename_i manager hBegin
      rcases begin_cases hBegin with
        ⟨hNext, _, hRunning⟩ | ⟨hNext, _, hRunning⟩
      · simp only [hNext, hRunning]
        exact ⟨hIdle, hPast⟩
      · simp only [hNext, hRunning, List.mem_append,
          List.mem_singleton, not_or]
        exact ⟨⟨hIdle, by omega⟩, by omega⟩
  | commit session => exact hFinish session
  | rollback session => exact hFinish session
  | markFailed session =>
    refine ⟨?_, hPast⟩
    unfold Timeline.step
    simp only [runningIds_markFailed]
    exact hIdle
  | snapshot session =>
    rcases snapshotIn_same timeline.manager session
      with ⟨hNext, _, hRunning⟩
    unfold Timeline.step Timeline.read
    simp only [hNext, hRunning]
    exact ⟨hIdle, hPast⟩
  | checkpoint =>
    unfold Timeline.step
    simp only
    split <;> exact ⟨hIdle, hPast⟩

theorem Timeline.run_settled
    (hIdle : xid ∉ timeline.manager.runningIds)
    (hPast : xid < timeline.manager.nextId)
    (operations : List Operation) :
    xid ∉ (timeline.run operations).manager.runningIds ∧
      xid < (timeline.run operations).manager.nextId := by
  induction operations generalizing timeline with
  | nil => exact ⟨hIdle, hPast⟩
  | cons operation rest ih =>
    have hStep := Timeline.step_settled hIdle hPast operation
    exact ih hStep.1 hStep.2

end Transaction

end ChenDB
