import ChenDB.Library.StateExcept
import ChenDB.Transaction.Horizon

/-
  Which transaction each session has open, and how the
  manager's operations move that.
-/

--
-- Active Transactions
--

namespace ChenDB

namespace Transaction

variable {ι : Type}

section Facts

variable {manager : TransactionManager ι} {session : String}

variable {transaction : OpenTransaction ι}

theorem activeIn_eq_some :
    manager.activeIn session = some transaction ↔
      transaction ∈ manager.running ∧
        transaction.session = session := by
  unfold TransactionManager.activeIn
  constructor
  · intro hFound
    have hSession := List.find?_some hFound
    simp only [decide_eq_true_eq] at hSession
    exact ⟨List.mem_of_find?_eq_some hFound, hSession⟩
  · intro hBoth
    rcases hBoth with ⟨hMem, hSession⟩
    cases hFind : manager.running.find? fun transaction =>
        transaction.session = session with
    | none =>
      have hNone := List.find?_eq_none.mp hFind _ hMem
      simp [hSession] at hNone
    | some found =>
      have hFound := List.find?_some hFind
      simp only [decide_eq_true_eq] at hFound
      rw [List.inj_on_of_nodup_map manager.sessions
        (List.mem_of_find?_eq_some hFind) hMem
          (hFound.trans hSession.symm)]

theorem mem_runningIds_of_activeIn
    (hActive :
      manager.activeIn session = some transaction) :
    transaction.transactionId ∈ manager.runningIds :=
  List.mem_map.mpr
    ⟨transaction, (activeIn_eq_some.mp hActive).1, rfl⟩

/- One transaction is never open in two sessions. -/
theorem session_of_id
    {first second : OpenTransaction ι}
    {other : String}
    (hFirst : manager.activeIn session = some first)
    (hSecond : manager.activeIn other = some second)
    (hSame : first.transactionId = second.transactionId) :
    session = other := by
  rcases activeIn_eq_some.mp hFirst with ⟨hMem, hSession⟩
  rcases activeIn_eq_some.mp hSecond with ⟨hOther, hHere⟩
  have hEqual := List.inj_on_of_nodup_map manager.ids
    hMem hOther hSame
  rw [← hSession, ← hHere, hEqual]

theorem activeIn_updateIn
    (changed : String)
    (f : OpenTransaction ι → OpenTransaction ι)
    (hSame : ∀ transaction,
      (f transaction).session = transaction.session ∧
        (f transaction).transactionId =
          transaction.transactionId) :
    (manager.updateIn changed f hSame).activeIn session =
      (manager.activeIn session).map fun transaction =>
        if session = changed then f transaction
        else transaction := by
  apply Option.ext
  intro found
  rw [activeIn_eq_some, Option.map_eq_some_iff]
  unfold TransactionManager.updateIn
    TransactionManager.mapRunning
  simp only [List.mem_map]
  constructor
  · intro hFound
    rcases hFound with ⟨⟨before, hBefore, hEq⟩, hSession⟩
    have hHere : before.session = session := by
      rw [← hSession, ← hEq]
      split
      · exact (hSame before).1.symm
      · rfl
    refine ⟨before, activeIn_eq_some.mpr
      ⟨hBefore, hHere⟩, ?_⟩
    rw [← hEq, hHere]
  · intro hFound
    rcases hFound with ⟨before, hActive, hEq⟩
    rcases activeIn_eq_some.mp hActive with ⟨hBefore, hHere⟩
    refine ⟨⟨before, hBefore, ?_⟩, ?_⟩
    · rw [hHere]
      exact hEq
    · rw [← hEq]
      split
      · rw [(hSame before).1, hHere]
      · exact hHere

theorem activeIn_hold
    (changed : String)
    (snapshot : Snapshot) :
    (manager.hold changed snapshot).activeIn session =
      (manager.activeIn session).map fun transaction =>
        if session = changed then
          { transaction with snapshot := some snapshot }
        else transaction :=
  activeIn_updateIn changed
    (fun transaction =>
      { transaction with snapshot := some snapshot })
    (fun _ => ⟨rfl, rfl⟩)

theorem activeIn_markFailed (changed : String) :
    (manager.markFailed changed).activeIn session =
      (manager.activeIn session).map fun transaction =>
        if session = changed then
          { transaction with state := .failed }
        else transaction :=
  activeIn_updateIn changed
    (fun transaction =>
      { transaction with state := .failed })
    (fun _ => ⟨rfl, rfl⟩)

theorem activeIn_retire (ended : String) :
    (manager.retire ended).activeIn session =
      if session = ended then none
      else manager.activeIn session := by
  by_cases hSame : session = ended
  · rw [if_pos hSame]
    cases hFound :
        (manager.retire ended).activeIn session with
    | none => rfl
    | some transaction =>
      rcases activeIn_eq_some.mp hFound with ⟨hMem, hSession⟩
      have hOther := (List.mem_filter.mp hMem).2
      simp [hSession, hSame] at hOther
  · rw [if_neg hSame]
    apply Option.ext
    intro transaction
    rw [activeIn_eq_some, activeIn_eq_some]
    unfold TransactionManager.retire
    simp only [List.mem_filter]
    constructor
    · intro hBoth
      exact ⟨hBoth.1.1, hBoth.2⟩
    · intro hBoth
      refine ⟨⟨hBoth.1, ?_⟩, hBoth.2⟩
      simp [hBoth.2, hSame]

variable {manager' : TransactionManager ι}

/- A `begin` opens a transaction where there was none, and
   leaves who the others are. -/
theorem activeIn_begin
    {implicit : Bool}
    {opened : String}
    {isolation : IsolationLevel}
    (hBegin : manager.begin implicit opened isolation =
      .ok manager')
    (hActive :
      manager.activeIn session = some transaction) :
    ∃ after, manager'.activeIn session = some after ∧
      after.transactionId = transaction.transactionId ∧
      after.snapshot = transaction.snapshot ∧
      after.isolation = transaction.isolation ∧
      after.state = transaction.state := by
  unfold TransactionManager.begin at hBegin
  split at hBegin
  · split at hBegin
    · cases hBegin
      exact ⟨transaction, hActive, rfl, rfl, rfl, rfl⟩
    · split at hBegin
      · cases hBegin
      · cases hBegin
        refine ⟨_, (activeIn_updateIn _ _ _).trans
          (congrArg _ hActive), ?_⟩
        split <;> exact ⟨rfl, rfl, rfl, rfl⟩
  · cases hBegin
    refine ⟨transaction, ?_, rfl, rfl, rfl, rfl⟩
    rcases activeIn_eq_some.mp hActive with ⟨hMem, hSession⟩
    exact activeIn_eq_some.mpr
      ⟨List.mem_append_left _ hMem, hSession⟩

theorem commit_cases
    (hCommit : manager.commit session =
      .ok (manager', transaction)) :
    manager.activeIn session = some transaction ∧
      transaction.state ≠ .failed ∧
      manager' = manager.retire session := by
  unfold TransactionManager.commit at hCommit
  rcases Library.StateExcept.ok_of_bind hCommit with
    ⟨found, hFound, hRest⟩
  unfold TransactionManager.requireActive at hFound
  split at hFound
  · cases hFound
  · rename_i active hActive
    cases hFound
    split at hRest
    · cases hRest
    · rename_i hState
      cases hRest
      exact ⟨hActive, hState, rfl⟩

/- What a read leaves a session's transaction as. -/
theorem activeIn_snapshotIn
    (reader : String)
    (hActive :
      manager.activeIn session = some transaction) :
    ∃ after,
      (manager.snapshotIn reader).1.activeIn session =
        some after ∧
      after.transactionId = transaction.transactionId ∧
      after.isolation = transaction.isolation ∧
      after.state = transaction.state ∧
      (transaction.kept.isSome →
        after.snapshot = transaction.snapshot) := by
  unfold TransactionManager.snapshotIn
  cases hReader : manager.activeIn reader with
  | none => exact ⟨transaction, hActive, rfl, rfl, rfl,
      fun _ => rfl⟩
  | some found =>
    simp only [TransactionManager.snapshotFor]
    cases hKept : found.kept with
    | some snapshot => exact ⟨transaction, hActive, rfl,
        rfl, rfl, fun _ => rfl⟩
    | none =>
      have hHere := (activeIn_eq_some.mp hReader).2
      refine ⟨_, (activeIn_hold _ _).trans
        (congrArg _ hActive), ?_⟩
      split
      · rename_i hSame
        refine ⟨rfl, rfl, rfl, fun hSome => ?_⟩
        rw [hSame, hHere, hReader] at hActive
        cases hActive
        rw [hKept] at hSome
        cases hSome
      · exact ⟨rfl, rfl, rfl, fun _ => rfl⟩

end Facts

end Transaction

end ChenDB
