import Mathlib.Data.List.AList
import Mathlib.Data.Finset.Basic
import Mathlib.Data.List.Sort
import ChenDB.Library.CycleSearch
import ChenDB.Mvcc.Locks

/-
  The lock manager with its waiters: a call of `acquire` runs
  in sections, one up to each wait and one from each wake on,
  and between them other calls run theirs.
-/

--
-- The Lock Table
--

namespace ChenDB

namespace Concurrency

open Library.CycleSearch (walk)
open Mvcc (LockMode ResourceId compatible
  maxLocksPerTransaction)

/- A Python dictionary, up to the order of its keys. -/
abbrev Dict (κ ν : Type) := AList fun _ : κ => ν

/- One transaction's claim on one resource. -/
structure LockRequest where
  transactionId : Nat
  resource : ResourceId
  mode : LockMode
  waitingSince : Nat
deriving DecidableEq, Repr

/- Everything holding or wanting one resource. -/
structure LockTableEntry where
  holders : Dict Nat LockMode
  waiters : List LockRequest

namespace LockTableEntry

def empty : LockTableEntry := ⟨∅, []⟩

/- Which transactions stand in the way. Empty means grant
   it. -/
def conflictsWith
    (entry : LockTableEntry)
    (transactionId : Nat)
    (mode : LockMode) : List Nat :=
  (entry.holders.entries.filter fun held =>
    held.1 ≠ transactionId ∧ ¬ compatible held.2 mode).map
      Sigma.fst

theorem compatible_of_free
    {entry : LockTableEntry}
    {transactionId : Nat}
    {mode : LockMode}
    (hFree : entry.conflictsWith transactionId mode = [])
    (other : Nat)
    (held : LockMode)
    (hOther : other ≠ transactionId)
    (hHeld : entry.holders.lookup other = some held) :
    compatible held mode = true := by
  by_contra hConflict
  unfold conflictsWith at hFree
  rw [List.map_eq_nil_iff, List.filter_eq_nil_iff] at hFree
  have hNot := hFree ⟨other, held⟩
    (AList.mem_lookup_iff.mp hHeld)
  simp [hOther, hConflict] at hNot

end LockTableEntry

/- How much time a call of `acquire` has left, and how its
   timeout prints. -/
structure Deadline where
  passed : Bool
  timeout : String
deriving DecidableEq, Repr

inductive Answer where
  | granted
  | waiting
  | released (count : Nat)
deriving DecidableEq, Repr

structure LockManager where
  table : Dict ResourceId LockTableEntry
  /- The table, by transaction. -/
  heldBy : Dict Nat (Dict ResourceId LockMode)
  /- Who was chosen to break a cycle, and has not woken. -/
  victims : Finset Nat

namespace LockManager

def create : LockManager := ⟨∅, ∅, ∅⟩

def entryOf
    (locks : LockManager)
    (resource : ResourceId) : LockTableEntry :=
  (locks.table.lookup resource).getD .empty

def putEntry
    (locks : LockManager)
    (resource : ResourceId)
    (entry : LockTableEntry) : LockManager :=
  { locks with table := locks.table.insert resource entry }

/- The locks of one transaction. -/
def locksOf
    (locks : LockManager)
    (transactionId : Nat) : Dict ResourceId LockMode :=
  (locks.heldBy.lookup transactionId).getD ∅

--
-- The Wait-For Graph
--

/- Who is waiting for whom, a pair for each edge. -/
def buildGraph (locks : LockManager) : List (Nat × Nat) :=
  locks.table.entries.flatMap fun held =>
    held.2.waiters.flatMap fun waiter =>
      (held.2.conflictsWith waiter.transactionId
        waiter.mode).map fun blocker =>
          (waiter.transactionId, blocker)

/- `sorted(graph.get(node, ()))`. -/
def blockersIn
    (graph : List (Nat × Nat))
    (node : Nat) : List Nat :=
  ((graph.filter fun edge => edge.1 = node).map
    Prod.snd).dedup.insertionSort (· ≤ ·)

/- The first cycle that a search from a transaction meets. -/
def findCycle
    (locks : LockManager)
    (start : Nat) : List Nat :=
  let graph := locks.buildGraph
  walk (blockersIn graph) graph.length [] start

/- The youngest transaction in the cycle. -/
def chooseVictim (cycle : List Nat) : Nat :=
  cycle.max?.getD 0

/- The cycle a search comes to, and whom it adds to the
   victims. -/
def newVictim
    (locks : LockManager)
    (transactionId : Nat) : Option (List Nat × Nat) :=
  let cycle := locks.findCycle transactionId
  if cycle = [] then none
  else
    let victim := chooseVictim cycle
    if victim ∈ locks.victims then none
    else some (cycle, victim)

--
-- Acquiring
--

/- What `_check_victim` raises. -/
def deadlockError
    (transactionId : Nat)
    (cycle : List Nat)
    (resource : Option ResourceId) : EngineError :=
  let path :=
    match cycle with
    | [] => ""
    | first :: _ =>
      " " ++ String.intercalate " → " (cycle.map toString) ++
        s!" → {first}"
  let place :=
    match resource with
    | none => ""
    | some name => s!" waiting for '{name}'"
  .deadlock
    (s!"deadlock: transaction {transactionId}{place} is " ++
      s!"the youngest in the cycle{path}, so it is the one " ++
      "rolled back. Retry it; the other transactions will " ++
      "now proceed.")

def timeoutError
    (request : LockRequest)
    (deadline : Deadline)
    (conflicts : List Nat) : EngineError :=
  let sorted := conflicts.insertionSort (· ≤ ·)
  .lockTimeout
    (s!"transaction {request.transactionId} waited " ++
      s!"{deadline.timeout}s for {request.mode.value} on " ++
      s!"'{request.resource}', still held by {sorted}")

def tooManyError (transactionId : Nat) : EngineError :=
  .lockTimeout
    (s!"transaction {transactionId} holds 100,000 locks. " ++
      "ChenDB does not escalate row locks to table locks, " ++
      "so a transaction this wide has no cheaper " ++
      "representation available.")

/- `_already_holds`: a lock held covers the mode. -/
def alreadyHolds
    (locks : LockManager)
    (transactionId : Nat)
    (resource : ResourceId)
    (mode : LockMode) : Bool :=
  match (locks.locksOf transactionId).lookup resource with
  | none => false
  | some held => held = .exclusive ∨ held = mode

/- `self._table.setdefault`. -/
def setDefault
    (locks : LockManager)
    (resource : ResourceId) : LockManager :=
  locks.putEntry resource (locks.entryOf resource)

def enqueue
    (locks : LockManager)
    (request : LockRequest) : LockManager :=
  let entry := locks.entryOf request.resource
  locks.putEntry request.resource
    { entry with waiters := entry.waiters ++ [request] }

/- The `finally` of `acquire`. -/
def dequeue
    (locks : LockManager)
    (request : LockRequest) : LockManager :=
  let entry := locks.entryOf request.resource
  locks.putEntry request.resource
    { entry with waiters := entry.waiters.erase request }

def discardVictim
    (locks : LockManager)
    (transactionId : Nat) : LockManager :=
  { locks with
    victims := locks.victims.erase transactionId }

/- `_grant`, in place of a weaker lock. -/
def grant
    (locks : LockManager)
    (request : LockRequest) :
    LockManager × Except EngineError Answer :=
  let entry := locks.entryOf request.resource
  let held := locks.locksOf request.transactionId
  if held.keys.length ≥ maxLocksPerTransaction then
    ({ locks with
        heldBy := locks.heldBy.insert request.transactionId
          held },
      .error (tooManyError request.transactionId))
  else
    ({ table := locks.table.insert request.resource
          { entry with
            holders := entry.holders.insert
              request.transactionId request.mode },
       heldBy := locks.heldBy.insert request.transactionId
          (held.insert request.resource request.mode),
       victims := locks.victims },
      .ok .granted)

/- `_detect`: a victim other than the caller is only marked. -/
def detect
    (locks : LockManager)
    (transactionId : Nat)
    (resource : ResourceId) :
    LockManager × Option EngineError :=
  match locks.newVictim transactionId with
  | none => (locks, none)
  | some (cycle, victim) =>
    let marked := { locks with
      victims := insert victim locks.victims }
    if victim = transactionId then
      (marked.discardVictim transactionId,
        some (deadlockError transactionId cycle
          (some resource)))
    else (marked, none)

/- The loop of `acquire` where it looks at the holders, and
   what follows it. -/
def settle
    (locks : LockManager)
    (request : LockRequest)
    (deadline : Deadline) :
    LockManager × Except EngineError Answer :=
  let conflicts := (locks.entryOf
    request.resource).conflictsWith request.transactionId
      request.mode
  if conflicts = [] then (locks.dequeue request).grant request
  else if deadline.passed then
    (locks.dequeue request,
      .error (timeoutError request deadline conflicts))
  else (locks, .ok .waiting)

/- Look for a cycle, then at the holders. -/
def recheck
    (locks : LockManager)
    (request : LockRequest)
    (deadline : Deadline) :
    LockManager × Except EngineError Answer :=
  match locks.detect request.transactionId
      request.resource with
  | (locks, some raised) =>
    (locks.dequeue request, .error raised)
  | (locks, none) => locks.settle request deadline

/- `acquire` up to where it returns, raises or waits. -/
def acquire
    (locks : LockManager)
    (request : LockRequest)
    (deadline : Deadline) :
    LockManager × Except EngineError Answer :=
  let locks := locks.setDefault request.resource
  if locks.alreadyHolds request.transactionId
      request.resource request.mode then
    (locks, .ok .granted)
  else if request.transactionId ∈ locks.victims then
    (locks.discardVictim request.transactionId,
      .error (deadlockError request.transactionId [] none))
  else if (locks.entryOf request.resource).conflictsWith
      request.transactionId request.mode = [] then
    locks.grant request
  else (locks.enqueue request).recheck request deadline

/- `acquire` from where it wakes on. -/
def wake
    (locks : LockManager)
    (request : LockRequest)
    (deadline : Deadline) :
    LockManager × Except EngineError Answer :=
  if request.transactionId ∈ locks.victims then
    ((locks.discardVictim request.transactionId).dequeue
        request,
      .error (deadlockError request.transactionId [] none))
  else locks.recheck request deadline

--
-- Releasing
--

/- One lock dropped, and its entry where nobody is left. -/
def dropHolder
    (transactionId : Nat)
    (table : Dict ResourceId LockTableEntry)
    (resource : ResourceId) :
    Dict ResourceId LockTableEntry :=
  match table.lookup resource with
  | none => table
  | some entry =>
    let holders := entry.holders.erase transactionId
    if holders.keys = [] ∧ entry.waiters = [] then
      table.erase resource
    else table.insert resource
      { entry with holders := holders }

/- Drop every lock a transaction holds. -/
def releaseAll
    (locks : LockManager)
    (transactionId : Nat) :
    LockManager × Except EngineError Answer :=
  let resources := (locks.locksOf transactionId).keys
  ({ table := resources.foldl (dropHolder transactionId)
        locks.table,
     heldBy := locks.heldBy.erase transactionId,
     victims := locks.victims.erase transactionId },
    .ok (.released resources.length))

end LockManager

--
-- Sections
--

/- What runs at once, under the manager's lock. A call that
   waits is one of its entry's waiters. -/
inductive Section where
  | acquire (request : LockRequest) (deadline : Deadline)
  | wake (request : LockRequest) (deadline : Deadline)
  | releaseAll (transactionId : Nat)
deriving DecidableEq, Repr

def Section.transactionId : Section → Nat
  | .acquire request _ => request.transactionId
  | .wake request _ => request.transactionId
  | .releaseAll transactionId => transactionId

namespace LockManager

def step
    (locks : LockManager) :
    Section → Option (LockManager × Except EngineError Answer)
  | .acquire request deadline =>
    some (locks.acquire request deadline)
  | .wake request deadline =>
    if request ∈ (locks.entryOf request.resource).waiters
    then some (locks.wake request deadline)
    else none
  | .releaseAll transactionId =>
    some (locks.releaseAll transactionId)

/- The manager after some sections, and what each came to. -/
def run
    (locks : LockManager) :
    List Section →
      Option (LockManager × List (Except EngineError Answer))
  | [] => some (locks, [])
  | first :: rest => do
      let (after, result) ← locks.step first
      let (last, results) ← after.run rest
      pure (last, result :: results)

--
-- What a Section Does
--

/- In what mode a transaction holds a resource, by the table
   and by the transaction's own map. -/
def holderOf
    (locks : LockManager)
    (resource : ResourceId)
    (transactionId : Nat) : Option LockMode :=
  (locks.entryOf resource).holders.lookup transactionId

def heldOf
    (locks : LockManager)
    (transactionId : Nat)
    (resource : ResourceId) : Option LockMode :=
  (locks.locksOf transactionId).lookup resource

/- Nobody's locks are changed. -/
structure SameLocks (locks locks' : LockManager) : Prop where
  holders : ∀ resource transactionId,
    locks'.holderOf resource transactionId =
      locks.holderOf resource transactionId
  held : ∀ transactionId resource,
    locks'.heldOf transactionId resource =
      locks.heldOf transactionId resource

/- One lock is taken, which nobody stood in the way of. -/
structure Granted
    (locks locks' : LockManager)
    (request : LockRequest) : Prop where
  free : ∀ other held, other ≠ request.transactionId →
    locks.holderOf request.resource other = some held →
      compatible held request.mode = true
  holders : ∀ resource transactionId,
    locks'.holderOf resource transactionId =
      if resource = request.resource ∧
          transactionId = request.transactionId
      then some request.mode
      else locks.holderOf resource transactionId
  held : ∀ transactionId resource,
    locks'.heldOf transactionId resource =
      if resource = request.resource ∧
          transactionId = request.transactionId
      then some request.mode
      else locks.heldOf transactionId resource

/- What a transaction's own map names is dropped. -/
structure Released
    (locks locks' : LockManager)
    (transactionId : Nat) : Prop where
  holders : ∀ resource other,
    locks'.holderOf resource other =
      if other = transactionId ∧
          locks.heldOf transactionId resource ≠ none
      then none
      else locks.holderOf resource other
  held : ∀ other resource,
    locks'.heldOf other resource =
      if other = transactionId then none
      else locks.heldOf other resource

inductive Effect
    (locks locks' : LockManager) :
    Nat → Except EngineError Answer → Prop where
  | raised {transactionId raised} :
      SameLocks locks locks' →
      Effect locks locks' transactionId (.error raised)
  | waits {transactionId} :
      SameLocks locks locks' →
      Effect locks locks' transactionId (.ok .waiting)
  | covered {transactionId} :
      SameLocks locks locks' →
      Effect locks locks' transactionId (.ok .granted)
  | granted {transactionId request} :
      request.transactionId = transactionId →
      Granted locks locks' request →
      Effect locks locks' transactionId (.ok .granted)
  | released {transactionId count} :
      Released locks locks' transactionId →
      Effect locks locks' transactionId
        (.ok (.released count))

theorem SameLocks.refl (locks : LockManager) :
    SameLocks locks locks :=
  ⟨fun _ _ => rfl, fun _ _ => rfl⟩

variable {first second third : LockManager}

theorem SameLocks.trans
    (hFirst : SameLocks first second)
    (hSecond : SameLocks second third) :
    SameLocks first third where
  holders := fun resource transactionId =>
    (hSecond.holders resource transactionId).trans
      (hFirst.holders resource transactionId)
  held := fun transactionId resource =>
    (hSecond.held transactionId resource).trans
      (hFirst.held transactionId resource)

theorem entryOf_putEntry
    (locks : LockManager)
    (resource other : ResourceId)
    (entry : LockTableEntry) :
    (locks.putEntry resource entry).entryOf other =
      if other = resource then entry
      else locks.entryOf other := by
  unfold entryOf putEntry
  by_cases hSame : other = resource
  · rw [hSame, if_pos rfl, AList.lookup_insert,
      Option.getD_some]
  · rw [if_neg hSame, AList.lookup_insert_ne hSame]

/- An entry whose holders stay. -/
theorem putEntry_same
    (locks : LockManager)
    (resource : ResourceId)
    (entry : LockTableEntry)
    (hHolders : entry.holders =
      (locks.entryOf resource).holders) :
    SameLocks locks (locks.putEntry resource entry) where
  holders := by
    intro other transactionId
    unfold holderOf
    rw [entryOf_putEntry]
    split
    · rename_i hSame
      rw [hHolders, hSame]
    · rfl
  held := fun _ _ => rfl

theorem setDefault_same
    (locks : LockManager)
    (resource : ResourceId) :
    SameLocks locks (locks.setDefault resource) :=
  putEntry_same locks resource _ rfl

theorem enqueue_same
    (locks : LockManager)
    (request : LockRequest) :
    SameLocks locks (locks.enqueue request) :=
  putEntry_same locks request.resource _ rfl

theorem dequeue_same
    (locks : LockManager)
    (request : LockRequest) :
    SameLocks locks (locks.dequeue request) :=
  putEntry_same locks request.resource _ rfl

theorem discardVictim_same
    (locks : LockManager)
    (transactionId : Nat) :
    SameLocks locks (locks.discardVictim transactionId) :=
  ⟨fun _ _ => rfl, fun _ _ => rfl⟩

/- Who is marked does not change who holds what. -/
theorem detect_table
    (locks : LockManager)
    (transactionId : Nat)
    (resource : ResourceId) :
    (locks.detect transactionId resource).1.table =
        locks.table ∧
      (locks.detect transactionId resource).1.heldBy =
        locks.heldBy := by
  unfold detect
  split
  · exact ⟨rfl, rfl⟩
  · simp only
    split
    · exact ⟨rfl, rfl⟩
    · exact ⟨rfl, rfl⟩

variable {locks locks' : LockManager}

theorem SameLocks.of_table
    (hTable : locks'.table = locks.table)
    (hHeld : locks'.heldBy = locks.heldBy) :
    SameLocks locks locks' where
  holders := by
    intro resource transactionId
    unfold holderOf entryOf
    rw [hTable]
  held := by
    intro transactionId resource
    unfold heldOf locksOf
    rw [hHeld]

theorem locksOf_insert
    (locks : LockManager)
    (transactionId other : Nat)
    (held : Dict ResourceId LockMode) :
    ((locks.heldBy.insert transactionId held).lookup
        other).getD ∅ =
      if other = transactionId then held
      else locks.locksOf other := by
  by_cases hSame : other = transactionId
  · rw [hSame, if_pos rfl, AList.lookup_insert,
      Option.getD_some]
  · rw [if_neg hSame, AList.lookup_insert_ne hSame]
    rfl

theorem grant_effect
    (locks : LockManager)
    (request : LockRequest)
    (hFree : (locks.entryOf request.resource).conflictsWith
      request.transactionId request.mode = []) :
    Effect locks (locks.grant request).1
      request.transactionId (locks.grant request).2 := by
  unfold grant
  simp only
  split
  · apply Effect.raised
    refine ⟨fun _ _ => rfl, ?_⟩
    intro transactionId resource
    unfold heldOf
    conv_lhs => unfold locksOf
    simp only
    rw [locksOf_insert]
    split
    · rename_i hSame
      rw [hSame]
      rfl
    · rfl
  · apply Effect.granted rfl
    refine ⟨LockTableEntry.compatible_of_free hFree, ?_, ?_⟩
    · intro resource transactionId
      unfold holderOf
      have hEntry := entryOf_putEntry locks request.resource
        resource
        { locks.entryOf request.resource with
          holders := (locks.entryOf
            request.resource).holders.insert
              request.transactionId request.mode }
      conv_lhs => unfold entryOf
      unfold putEntry entryOf at hEntry
      simp only at hEntry ⊢
      rw [hEntry]
      by_cases hResource : resource = request.resource
      · rw [if_pos hResource]
        by_cases hId : transactionId = request.transactionId
        · rw [if_pos ⟨hResource, hId⟩, hId, AList.lookup_insert]
        · rw [if_neg (fun hBoth => hId hBoth.2),
            AList.lookup_insert_ne hId, hResource]
          rfl
      · rw [if_neg hResource,
          if_neg (fun hBoth => hResource hBoth.1)]
        rfl
    · intro transactionId resource
      unfold heldOf
      conv_lhs => unfold locksOf
      simp only
      rw [locksOf_insert]
      by_cases hId : transactionId = request.transactionId
      · rw [if_pos hId]
        by_cases hResource : resource = request.resource
        · rw [if_pos ⟨hResource, hId⟩, hResource,
            AList.lookup_insert]
        · rw [if_neg (fun hBoth => hResource hBoth.1),
            AList.lookup_insert_ne hResource, hId]
          rfl
      · rw [if_neg hId, if_neg (fun hBoth => hId hBoth.2)]

variable {transactionId : Nat}
variable {result : Except EngineError Answer}

theorem Effect.after_same
    (hSame : SameLocks first second)
    (hEffect : Effect second third transactionId result) :
    Effect first third transactionId result := by
  cases hEffect with
  | raised hLocks => exact .raised (hSame.trans hLocks)
  | waits hLocks => exact .waits (hSame.trans hLocks)
  | covered hLocks => exact .covered (hSame.trans hLocks)
  | granted hMine hGranted =>
    apply Effect.granted hMine
    refine ⟨?_, ?_, ?_⟩
    · intro other held hOther hHeld
      rw [← hSame.holders] at hHeld
      exact hGranted.free other held hOther hHeld
    · intro resource other
      rw [hGranted.holders, hSame.holders]
    · intro other resource
      rw [hGranted.held, hSame.held]
  | released hReleased =>
    apply Effect.released
    refine ⟨?_, ?_⟩
    · intro resource other
      rw [hReleased.holders, hSame.holders, hSame.held]
    · intro other resource
      rw [hReleased.held, hSame.held]

theorem detect_same
    (locks : LockManager)
    (transactionId : Nat)
    (resource : ResourceId) :
    SameLocks locks
      (locks.detect transactionId resource).1 :=
  have hTable := detect_table locks transactionId resource
  .of_table hTable.1 hTable.2

theorem entryOf_dequeue_holders
    (locks : LockManager)
    (request : LockRequest) :
    ((locks.dequeue request).entryOf
        request.resource).holders =
      (locks.entryOf request.resource).holders := by
  unfold dequeue
  simp only
  rw [entryOf_putEntry, if_pos rfl]

theorem settle_effect
    (locks : LockManager)
    (request : LockRequest)
    (deadline : Deadline) :
    Effect locks (locks.settle request deadline).1
      request.transactionId
      (locks.settle request deadline).2 := by
  unfold settle
  simp only
  split
  · rename_i hFree
    apply (grant_effect _ request ?_).after_same
      (dequeue_same locks request)
    unfold LockTableEntry.conflictsWith at hFree ⊢
    rw [entryOf_dequeue_holders]
    exact hFree
  · split
    · exact .raised (dequeue_same locks request)
    · exact .waits (.refl locks)

theorem recheck_effect
    (locks : LockManager)
    (request : LockRequest)
    (deadline : Deadline) :
    Effect locks (locks.recheck request deadline).1
      request.transactionId
      (locks.recheck request deadline).2 := by
  have hSame := detect_same locks request.transactionId
    request.resource
  unfold recheck
  split
  · rename_i after raised hDetect
    rw [hDetect] at hSame
    exact .raised (hSame.trans (dequeue_same after request))
  · rename_i after hDetect
    rw [hDetect] at hSame
    exact (settle_effect after request deadline).after_same
      hSame

theorem acquire_effect
    (locks : LockManager)
    (request : LockRequest)
    (deadline : Deadline) :
    Effect locks (locks.acquire request deadline).1
      request.transactionId
      (locks.acquire request deadline).2 := by
  have hSame := setDefault_same locks request.resource
  unfold acquire
  simp only
  split
  · exact .covered hSame
  · split
    · exact .raised (hSame.trans (discardVictim_same _ _))
    · split
      · rename_i hFree
        exact (grant_effect _ request hFree).after_same hSame
      · exact (recheck_effect _ request deadline).after_same
          (hSame.trans (enqueue_same _ request))

theorem wake_effect
    (locks : LockManager)
    (request : LockRequest)
    (deadline : Deadline) :
    Effect locks (locks.wake request deadline).1
      request.transactionId
      (locks.wake request deadline).2 := by
  unfold wake
  split
  · exact .raised ((discardVictim_same _ _).trans
      (dequeue_same _ request))
  · exact recheck_effect locks request deadline

/- A transaction's mode in one entry of a table. -/
def holderIn
    (table : Dict ResourceId LockTableEntry)
    (resource : ResourceId)
    (transactionId : Nat) : Option LockMode :=
  ((table.lookup resource).getD .empty).holders.lookup
    transactionId

theorem dropHolder_holderIn
    (transactionId : Nat)
    (table : Dict ResourceId LockTableEntry)
    (dropped resource : ResourceId)
    (other : Nat) :
    holderIn (dropHolder transactionId table dropped)
        resource other =
      if other = transactionId ∧ resource = dropped then none
      else holderIn table resource other := by
  unfold dropHolder
  cases hEntry : table.lookup dropped with
  | none =>
    simp only
    split
    · rename_i hBoth
      unfold holderIn
      rw [hBoth.2, hEntry]
      exact AList.lookup_empty other
    · rfl
  | some entry =>
    have hErased : (entry.holders.erase
        transactionId).lookup other =
        if other = transactionId then none
        else holderIn table dropped other := by
      unfold holderIn
      rw [hEntry, Option.getD_some]
      split
      · rename_i hSame
        rw [hSame, AList.lookup_erase]
      · rename_i hOther
        exact AList.lookup_erase_ne hOther
    simp only
    split
    · rename_i hEmpty
      have hNone : (entry.holders.erase
          transactionId).lookup other = none := by
        rw [AList.lookup_eq_none, AList.mem_keys, hEmpty.1]
        exact List.not_mem_nil
      rw [hErased] at hNone
      by_cases hResource : resource = dropped
      · unfold holderIn at hNone ⊢
        rw [hResource, AList.lookup_erase]
        split
        · exact AList.lookup_empty other
        · rename_i hNot
          rw [if_neg (fun hSame => hNot ⟨hSame, rfl⟩)]
            at hNone
          rw [hNone]
          exact AList.lookup_empty other
      · rw [if_neg (fun hBoth => hResource hBoth.2)]
        unfold holderIn
        rw [AList.lookup_erase_ne hResource]
    · by_cases hResource : resource = dropped
      · have hHere : holderIn (table.insert dropped
            { entry with holders :=
              entry.holders.erase transactionId })
            dropped other =
            (entry.holders.erase transactionId).lookup
              other := by
          unfold holderIn
          rw [AList.lookup_insert]
          rfl
        rw [hResource, hHere, hErased]
        simp only [and_true]
      · rw [if_neg (fun hBoth => hResource hBoth.2)]
        unfold holderIn
        rw [AList.lookup_insert_ne hResource]

theorem foldl_dropHolder
    (transactionId : Nat)
    (resources : List ResourceId)
    (table : Dict ResourceId LockTableEntry)
    (resource : ResourceId)
    (other : Nat) :
    holderIn (resources.foldl (dropHolder transactionId)
        table) resource other =
      if other = transactionId ∧ resource ∈ resources
      then none
      else holderIn table resource other := by
  induction resources generalizing table with
  | nil => simp
  | cons first rest ih =>
    rw [List.foldl_cons, ih, dropHolder_holderIn]
    by_cases hOther : other = transactionId
    · by_cases hFirst : resource = first
      · simp [hOther, hFirst]
      · simp [hOther, hFirst]
    · simp [hOther]

theorem releaseAll_released
    (locks : LockManager)
    (transactionId : Nat) :
    Released locks (locks.releaseAll transactionId).1
      transactionId where
  holders := by
    intro resource other
    have hDropped := foldl_dropHolder transactionId
      (locks.locksOf transactionId).keys locks.table resource
      other
    have hHeld : resource ∈ (locks.locksOf transactionId).keys ↔
        locks.heldOf transactionId resource ≠ none := by
      unfold heldOf
      rw [ne_eq, AList.lookup_eq_none, not_not, AList.mem_keys]
    simp only [hHeld] at hDropped
    exact hDropped
  held := by
    intro other resource
    unfold heldOf
    conv_lhs => unfold locksOf releaseAll
    simp only
    by_cases hSame : other = transactionId
    · rw [if_pos hSame, hSame, AList.lookup_erase]
      exact AList.lookup_empty resource
    · rw [if_neg hSame, AList.lookup_erase_ne hSame]
      rfl

variable {part : Section}

/- Everything a section can do to the locks. -/
theorem step_cases
    (hStep : locks.step part = some (locks', result)) :
    Effect locks locks' part.transactionId result := by
  cases part with
  | acquire request deadline =>
    unfold step at hStep
    have hEffect := acquire_effect locks request deadline
    rw [Option.some.inj hStep] at hEffect
    exact hEffect
  | wake request deadline =>
    simp only [step] at hStep
    split at hStep
    · have hEffect := wake_effect locks request deadline
      rw [Option.some.inj hStep] at hEffect
      exact hEffect
    · cases hStep
  | releaseAll transactionId =>
    cases hStep
    exact .released (releaseAll_released locks _)

--
-- Safety
--

/- No two holders stand in each other's way, and the table and
   the transactions' maps say the same. -/
structure Safe (locks : LockManager) : Prop where
  alone : ∀ resource first second held other,
    first ≠ second →
    locks.holderOf resource first = some held →
    locks.holderOf resource second = some other →
      compatible held other = true
  mirrored : ∀ resource transactionId,
    locks.holderOf resource transactionId =
      locks.heldOf transactionId resource

theorem create_safe : Safe create where
  alone := by
    intro resource first second held other _ hHeld
    cases hHeld
  mirrored := fun _ _ => rfl

theorem step_safe
    (hSafe : Safe locks)
    (hStep : locks.step part = some (locks', result)) :
    Safe locks' := by
  have hKept : SameLocks locks locks' → Safe locks' := by
    intro hSame
    refine ⟨?_, ?_⟩
    · intro resource first second held other hDiffer hHeld
        hOther
      rw [hSame.holders] at hHeld hOther
      exact hSafe.alone resource first second held other
        hDiffer hHeld hOther
    · intro resource transactionId
      rw [hSame.holders, hSame.held]
      exact hSafe.mirrored resource transactionId
  cases step_cases hStep with
  | raised hSame => exact hKept hSame
  | waits hSame => exact hKept hSame
  | covered hSame => exact hKept hSame
  | granted _ hGranted =>
    rename_i request
    refine ⟨?_, ?_⟩
    · intro resource first second held other hDiffer hHeld
        hOther
      rw [hGranted.holders] at hHeld hOther
      split at hHeld
      · rename_i hFirst
        cases hHeld
        rw [if_neg (fun hSecond =>
          hDiffer (hFirst.2.trans hSecond.2.symm)),
          hFirst.1] at hOther
        rw [Mvcc.compatible_comm]
        exact hGranted.free second other
          (fun hSame => hDiffer
            (hFirst.2.trans hSame.symm)) hOther
      · split at hOther
        · rename_i hFirst hSecond
          cases hOther
          rw [hSecond.1] at hHeld
          exact hGranted.free first held
            (fun hSame => hDiffer
              (hSame.trans hSecond.2.symm)) hHeld
        · exact hSafe.alone resource first second held other
            hDiffer hHeld hOther
    · intro resource transactionId
      rw [hGranted.holders, hGranted.held]
      split
      · rfl
      · exact hSafe.mirrored resource transactionId
  | released hReleased =>
    refine ⟨?_, ?_⟩
    · intro resource first second held other hDiffer hHeld
        hOther
      rw [hReleased.holders] at hHeld hOther
      split at hHeld
      · cases hHeld
      · split at hOther
        · cases hOther
        · exact hSafe.alone resource first second held other
            hDiffer hHeld hOther
    · intro resource transactionId
      rw [hReleased.holders, hReleased.held, hSafe.mirrored]
      split
      · rename_i hBoth
        rw [if_pos hBoth.1]
      · rename_i hNot
        split
        · rename_i hSame
          rw [hSame] at hNot ⊢
          by_contra hSome
          exact hNot ⟨rfl, hSome⟩
        · rfl

variable {last : LockManager} {parts : List Section}
variable {results : List (Except EngineError Answer)}

theorem run_safe
    (hSafe : Safe locks)
    (hRun : locks.run parts = some (last, results)) :
    Safe last := by
  induction parts generalizing locks results with
  | nil =>
    cases hRun
    exact hSafe
  | cons first rest ih =>
    unfold run at hRun
    rcases Option.bind_eq_some_iff.mp hRun with
      ⟨⟨after, result⟩, hFirst, hMore⟩
    rcases Option.bind_eq_some_iff.mp hMore with
      ⟨⟨end', others⟩, hRest, hSame⟩
    cases hSame
    exact ih (step_safe hSafe hFirst) hRest

/- Of a transaction's sections, none was granted anything or
   released. -/
def Refused
    (transactionId : Nat)
    (parts : List Section)
    (results : List (Except EngineError Answer)) : Prop :=
  ∀ pair ∈ parts.zip results,
    pair.1.transactionId = transactionId →
      pair.2 = .ok .waiting ∨ ∃ raised, pair.2 = .error raised

/- One that is only refused holds what it held. -/
theorem run_refused
    (hRun : locks.run parts = some (last, results))
    (hRefused : Refused transactionId parts results)
    (resource : ResourceId) :
    last.heldOf transactionId resource =
      locks.heldOf transactionId resource := by
  induction parts generalizing locks results with
  | nil =>
    cases hRun
    rfl
  | cons first rest ih =>
    unfold run at hRun
    rcases Option.bind_eq_some_iff.mp hRun with
      ⟨⟨after, result⟩, hFirst, hMore⟩
    rcases Option.bind_eq_some_iff.mp hMore with
      ⟨⟨end', others⟩, hRest, hSame⟩
    cases hSame
    have hLater : Refused transactionId rest others :=
      fun pair hMem hMine => hRefused pair
        (.tail _ hMem) hMine
    rw [ih hRest hLater]
    have hHere := hRefused (first, result)
      (.head _)
    simp only at hHere
    have hOthers : result ≠ .ok .waiting →
        (∀ raised, result ≠ .error raised) →
          first.transactionId ≠ transactionId := by
      intro hWaits hRaised hMine
      rcases hHere hMine with hIs | ⟨raised, hIs⟩
      · exact hWaits hIs
      · exact hRaised raised hIs
    cases step_cases hFirst with
    | raised hSame => exact hSame.held transactionId resource
    | waits hSame => exact hSame.held transactionId resource
    | covered hSame =>
      exact hSame.held transactionId resource
    | granted hMine hGranted =>
      have hOther := hOthers nofun nofun
      rw [hGranted.held, if_neg]
      exact fun hBoth =>
        hOther (hMine.symm.trans hBoth.2.symm)
    | released hReleased =>
      have hOther := hOthers nofun nofun
      rw [hReleased.held, if_neg hOther.symm]

/-
  After any run from an empty table, and at any point of it:
  holders go together, table and maps mirror each other, a
  transaction whose sections were all refused holds what it
  held, and one that releases is nowhere a holder.
-/
theorem lockTable_safe
    {parts : List Section}
    {locks : LockManager}
    {results : List (Except EngineError Answer)}
    (hRun : create.run parts = some (locks, results)) :
    Safe locks ∧
    (∀ during last results' transactionId,
      locks.run during = some (last, results') →
      Refused transactionId during results' →
      ∀ resource,
        last.heldOf transactionId resource =
            locks.heldOf transactionId resource ∧
          last.holderOf resource transactionId =
            locks.holderOf resource transactionId) ∧
    ∀ transactionId resource,
      (locks.releaseAll transactionId).1.holderOf resource
          transactionId = none ∧
        (locks.releaseAll transactionId).1.heldOf
          transactionId resource = none := by
  have hSafe := run_safe create_safe hRun
  refine ⟨hSafe, ?_, ?_⟩
  · intro during last results' transactionId hDuring hRefused
      resource
    have hHeld := run_refused hDuring hRefused resource
    refine ⟨hHeld, ?_⟩
    rw [(run_safe hSafe hDuring).mirrored, hSafe.mirrored]
    exact hHeld
  · intro transactionId resource
    have hReleased := releaseAll_released locks transactionId
    rw [hReleased.holders, hReleased.held, hSafe.mirrored,
      if_pos rfl]
    refine ⟨?_, rfl⟩
    split
    · rfl
    · rename_i hNot
      by_contra hSome
      exact hNot ⟨rfl, hSome⟩

/- One transaction takes a row, and another finds it taken
   and has no time left. -/
def timedOut : List Section :=
  [.acquire ⟨1, "users:4.1", .exclusive, 0⟩ ⟨false, "5"⟩,
    .acquire ⟨2, "users:4.1", .shared, 1⟩ ⟨true, "0"⟩]

theorem lockTable_safe_timedOut :
    ∃ locks results,
      create.run timedOut = some (locks, results) ∧
        Safe locks := by
  have hRuns : (create.run timedOut).isSome = true := by
    decide +kernel
  rcases Option.isSome_iff_exists.mp hRuns with
    ⟨⟨locks, results⟩, hRun⟩
  exact ⟨locks, results, hRun, (lockTable_safe hRun).1⟩

end LockManager

end Concurrency

end ChenDB
