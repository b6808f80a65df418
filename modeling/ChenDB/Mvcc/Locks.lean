import ChenDB.Mvcc.Vacuum

/-
  The lock table: who holds what, and what a request that
  finds no conflict is granted. A request that finds one
  waits; the caller asks again.
-/

--
-- The Lock Table
--

namespace ChenDB

namespace Mvcc

open Storage (RecordId)

inductive LockMode where
  | shared
  | exclusive
deriving DecidableEq, Repr

/- Who may hold what alongside whom. -/
def compatible : LockMode → LockMode → Bool
  | .shared, .shared => true
  | _, _ => false

theorem compatible_comm (held wanted : LockMode) :
    compatible held wanted = compatible wanted held := by
  cases held <;> cases wanted <;> rfl

/- What a lock is taken on, as it keys the table. -/
abbrev ResourceId := String

/- The resource of one row. -/
def rowResource
    (table : String)
    (recordId : RecordId) : ResourceId :=
  s!"{table}:{recordId.pageId}.{recordId.slotId}"

def maxLocksPerTransaction : Nat := 100000

/- One transaction's claim on one resource, granted. -/
structure LockRequest where
  transactionId : Nat
  resource : ResourceId
  mode : LockMode
deriving DecidableEq, Repr

def LockMode.value : LockMode → String
  | .shared => "shared"
  | .exclusive => "exclusive"

/-
  Every lock granted. Two transactions hold one resource
  only in modes that go together.
-/
structure LockManager where
  granted : List LockRequest
  alone : ∀ first ∈ granted, ∀ second ∈ granted,
    first.resource = second.resource →
      first.transactionId ≠ second.transactionId →
        compatible first.mode second.mode = true
deriving DecidableEq

namespace LockManager

def create : LockManager where
  granted := []
  alone := by simp

def heldBy
    (locks : LockManager)
    (transactionId : Nat) : List LockRequest :=
  locks.granted.filter fun request =>
    request.transactionId = transactionId

/- Which transactions stand in the way. -/
def conflictsWith
    (locks : LockManager)
    (transactionId : Nat)
    (resource : ResourceId)
    (mode : LockMode) : List Nat :=
  (locks.granted.filter fun request =>
    request.resource = resource ∧
      request.transactionId ≠ transactionId ∧
      ¬ compatible request.mode mode).map
        LockRequest.transactionId

/- An existing lock already covers the mode. -/
def alreadyHolds
    (locks : LockManager)
    (transactionId : Nat)
    (resource : ResourceId)
    (mode : LockMode) : Bool :=
  locks.granted.any fun request =>
    request.transactionId = transactionId &&
      request.resource = resource &&
      (request.mode = .exclusive || request.mode = mode)

/- Record the lock, in place of a weaker one. -/
def record
    (locks : LockManager)
    (transactionId : Nat)
    (resource : ResourceId)
    (mode : LockMode)
    (hFree : locks.conflictsWith transactionId resource
      mode = []) : LockManager where
  granted := ⟨transactionId, resource, mode⟩ ::
    locks.granted.filter fun request =>
      ¬ (request.transactionId = transactionId ∧
        request.resource = resource)
  alone := by
    have hOthers : ∀ request ∈ locks.granted,
        request.resource = resource →
          request.transactionId ≠ transactionId →
            compatible request.mode mode = true := by
      intro request hMem hResource hOther
      by_contra hConflict
      unfold conflictsWith at hFree
      rw [List.map_eq_nil_iff, List.filter_eq_nil_iff]
        at hFree
      have hNot := hFree request hMem
      simp [hResource, hOther, hConflict] at hNot
    intro first hFirst second hSecond hResource hDiffer
    rcases List.mem_cons.mp hFirst with hNew | hOld
    · rcases List.mem_cons.mp hSecond with hSame | hHeld
      · rw [hNew, hSame] at hDiffer
        exact absurd rfl hDiffer
      · rw [hNew] at hResource hDiffer ⊢
        rw [compatible_comm]
        exact hOthers second (List.mem_filter.mp hHeld).1
          hResource.symm hDiffer.symm
    · rcases List.mem_cons.mp hSecond with hNew | hHeld
      · rw [hNew] at hResource hDiffer ⊢
        exact hOthers first (List.mem_filter.mp hOld).1
          hResource hDiffer
      · exact locks.alone first (List.mem_filter.mp hOld).1
          second (List.mem_filter.mp hHeld).1 hResource
            hDiffer

/-
  Take a lock, or find that it has to be waited for. The
  timeout and the choice of a deadlock's victim are not
  made here.
-/
def tryAcquire
    (locks : LockManager)
    (transactionId : Nat)
    (resource : ResourceId)
    (mode : LockMode) :
    Except EngineError (Option LockManager) :=
  if locks.alreadyHolds transactionId resource mode then
    .ok (some locks)
  else if hFree : locks.conflictsWith transactionId resource
      mode = [] then
    if (locks.heldBy transactionId).length ≥
        maxLocksPerTransaction then
      .error (.lockTimeout
        (s!"transaction {transactionId} holds 100,000 " ++
          "locks. ChenDB does not escalate row locks to " ++
          "table locks, so a transaction this wide has no " ++
          "cheaper representation available."))
    else
      .ok (some (locks.record transactionId resource mode
        hFree))
  else .ok none

/- Drop every lock a transaction holds. -/
def releaseAll
    (locks : LockManager)
    (transactionId : Nat) : LockManager where
  granted := locks.granted.filter fun request =>
    request.transactionId ≠ transactionId
  alone := fun first hFirst second hSecond =>
    locks.alone first (List.mem_filter.mp hFirst).1
      second (List.mem_filter.mp hSecond).1

/- The transaction holds the resource for itself. -/
def Owns
    (locks : LockManager)
    (transactionId : Nat)
    (resource : ResourceId) : Prop :=
  ⟨transactionId, resource, .exclusive⟩ ∈ locks.granted

variable {locks : LockManager} {resource : ResourceId}

theorem Owns.unique
    {first second : Nat}
    (hFirst : locks.Owns first resource)
    (hSecond : locks.Owns second resource) :
    first = second := by
  by_contra hDiffer
  have hBoth := locks.alone _ hFirst _ hSecond rfl hDiffer
  simp [compatible] at hBoth

variable {transactionId : Nat}

/- A request that is granted owns what it asked for, and
   takes nothing away. -/
theorem tryAcquire_owns
    {locks' : LockManager}
    (hGranted : locks.tryAcquire transactionId resource
      .exclusive = .ok (some locks')) :
    locks'.Owns transactionId resource ∧
      ∀ other otherResource,
        locks.Owns other otherResource →
          locks'.Owns other otherResource := by
  unfold tryAcquire at hGranted
  split at hGranted
  · rename_i hHolds
    cases hGranted
    refine ⟨?_, fun _ _ hOwns => hOwns⟩
    unfold alreadyHolds at hHolds
    rcases List.any_eq_true.mp hHolds with
      ⟨request, hMem, hRequest⟩
    simp only [Bool.and_eq_true, decide_eq_true_eq,
      Bool.or_self] at hRequest
    rcases hRequest with ⟨⟨hId, hResource⟩, hMode⟩
    unfold Owns
    rw [← hId, ← hResource, ← hMode]
    exact hMem
  · split at hGranted
    · split at hGranted
      · cases hGranted
      · cases hGranted
        refine ⟨.head _, ?_⟩
        intro other otherResource hOwns
        unfold Owns record
        by_cases hSame : other = transactionId ∧
            otherResource = resource
        · rw [hSame.1, hSame.2]
          exact .head _
        · apply List.mem_cons_of_mem
          apply List.mem_filter.mpr
          exact ⟨hOwns, decide_eq_true hSame⟩
    · cases hGranted

theorem releaseAll_owns
    {other : Nat}
    (hOther : other ≠ transactionId)
    (hOwns : locks.Owns other resource) :
    (locks.releaseAll transactionId).Owns other resource := by
  apply List.mem_filter.mpr
  exact ⟨hOwns, by simpa using hOther⟩

end LockManager

end Mvcc

end ChenDB
