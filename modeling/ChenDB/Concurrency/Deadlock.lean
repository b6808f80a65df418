import ChenDB.Concurrency.LockTable

/-
  Who is chosen to fail: only the youngest of a cycle, and
  somebody wherever a waiter that looked can reach one.
-/

--
-- Cycles of Waiting
--

namespace ChenDB

namespace Concurrency

open Library.CycleSearch (Edge IsCycle Loops Narrow
  walk_isCycle walk_ne_nil)
open Relation (ReflTransGen)

namespace LockManager

/- One wants something that the other holds. -/
def WaitsFor
    (locks : LockManager)
    (first second : Nat) : Prop :=
  (first, second) ∈ locks.buildGraph

/- The youngest of a cycle. -/
def Youngest
    (victim : Nat)
    (cycle : List Nat) : Prop :=
  victim ∈ cycle ∧ ∀ other ∈ cycle, other ≤ victim

theorem mem_blockersIn
    (graph : List (Nat × Nat))
    (first second : Nat) :
    second ∈ blockersIn graph first ↔
      (first, second) ∈ graph := by
  unfold blockersIn
  rw [List.mem_insertionSort, List.mem_dedup, List.mem_map]
  constructor
  · rintro ⟨⟨node, other⟩, hMem, hSame⟩
    rw [List.mem_filter] at hMem
    have hNode : node = first := of_decide_eq_true hMem.2
    rw [← hNode, ← hSame]
    exact hMem.1
  · intro hMem
    exact ⟨(first, second), List.mem_filter.mpr
      ⟨hMem, decide_eq_true rfl⟩, rfl⟩

theorem edge_blockersIn (locks : LockManager) :
    Edge (blockersIn locks.buildGraph) = locks.WaitsFor := by
  funext first second
  exact propext (mem_blockersIn _ first second)

/- Whom one waits for holds what it waits for. -/
theorem waitsFor_holder
    {locks : LockManager}
    {first second : Nat}
    (hWaits : locks.WaitsFor first second) :
    ∃ held ∈ locks.table.entries, ∃ waiter ∈ held.2.waiters,
      waiter.transactionId = first ∧
      ∃ mode, locks.holderOf held.1 second = some mode := by
  rcases List.mem_flatMap.mp hWaits with
    ⟨held, hHeld, hRest⟩
  rcases List.mem_flatMap.mp hRest with
    ⟨waiter, hWaiter, hEdge⟩
  rcases List.mem_map.mp hEdge with ⟨blocker, hBlocks, hIs⟩
  cases hIs
  refine ⟨held, hHeld, waiter, hWaiter, rfl, ?_⟩
  rcases List.mem_map.mp hBlocks with
    ⟨⟨holder, mode⟩, hHolder, rfl⟩
  have hEntry : locks.entryOf held.1 = held.2 := by
    unfold entryOf
    rw [AList.mem_lookup_iff.mpr hHeld]
    rfl
  refine ⟨mode, ?_⟩
  unfold holderOf
  rw [hEntry]
  exact AList.mem_lookup_iff.mpr (List.mem_filter.mp hHolder).1

variable {locks : LockManager} {start : Nat}

/- What the search finds is a cycle that it can reach. -/
theorem findCycle_isCycle
    (hFound : locks.findCycle start ≠ []) :
    IsCycle locks.WaitsFor (locks.findCycle start) ∧
      ∀ node ∈ locks.findCycle start,
        ReflTransGen locks.WaitsFor start node := by
  rw [← edge_blockersIn]
  unfold findCycle
  apply walk_isCycle (.singleton _) _ hFound
  intro node hMem
  rw [List.mem_singleton.mp hMem]

/- Where one can be reached, it finds one. -/
theorem findCycle_ne_nil
    (hLoops : Loops locks.WaitsFor start) :
    locks.findCycle start ≠ [] := by
  rw [← edge_blockersIn] at hLoops
  unfold findCycle
  have hKeys : ∀ node,
      blockersIn locks.buildGraph node ≠ [] →
        node ∈ locks.buildGraph.map Prod.fst := by
    intro node hSome
    rcases List.exists_mem_of_ne_nil _ hSome with ⟨other, hMem⟩
    rw [mem_blockersIn] at hMem
    exact List.mem_map_of_mem hMem
  apply walk_ne_nil hKeys List.nodup_nil
    (List.nil_subset _) _ hLoops
  rw [List.length_map]
  exact Nat.le_add_right _ _

variable {cycle : List Nat}

theorem chooseVictim_youngest
    (hSome : cycle ≠ []) :
    Youngest (chooseVictim cycle) cycle := by
  unfold chooseVictim
  cases hMax : cycle.max? with
  | none =>
    rw [List.max?_eq_none_iff] at hMax
    exact absurd hMax hSome
  | some victim =>
    rw [List.max?_eq_some_iff] at hMax
    exact hMax

variable {transactionId victim : Nat}

theorem newVictim_youngest
    (hVictim : locks.newVictim transactionId =
      some (cycle, victim)) :
    IsCycle locks.WaitsFor cycle ∧
      Youngest victim cycle := by
  unfold newVictim at hVictim
  simp only at hVictim
  split at hVictim
  · cases hVictim
  · rename_i hSome
    split at hVictim
    · cases hVictim
    · cases hVictim
      exact ⟨(findCycle_isCycle hSome).1,
        chooseVictim_youngest hSome⟩

--
-- Detection
--

/- The table in which a section looks for a cycle, if it comes
   to that. -/
def detection
    (locks : LockManager) : Section → Option LockManager
  | .acquire request _ =>
    let locks := locks.setDefault request.resource
    if locks.alreadyHolds request.transactionId
        request.resource request.mode then none
    else if request.transactionId ∈ locks.victims then none
    else if (locks.entryOf request.resource).conflictsWith
        request.transactionId request.mode = [] then none
    else some (locks.enqueue request)
  | .wake request _ =>
    if request.transactionId ∈ locks.victims then none
    else some locks
  | .releaseAll _ => none

/- What is reached from a waiter has a cycle whose youngest is
   to fail. -/
def Chosen
    (locks : LockManager)
    (start : Nat) : Prop :=
  ∃ cycle victim, IsCycle locks.WaitsFor cycle ∧
    (∀ node ∈ cycle, ReflTransGen locks.WaitsFor start node) ∧
    Youngest victim cycle ∧ victim ∈ locks.victims

variable {locks' : LockManager}

theorem waitsFor_of_table
    (hTable : locks'.table = locks.table) :
    locks'.WaitsFor = locks.WaitsFor := by
  funext first second
  unfold WaitsFor buildGraph
  rw [hTable]

variable {resource : Mvcc.ResourceId}

/- Where the search raises nothing, the youngest of what it
   found is marked. -/
theorem detect_chosen
    (hDetect : locks.detect transactionId resource =
      (locks', none))
    (hLoops : Loops locks.WaitsFor transactionId) :
    Chosen locks' transactionId := by
  have hFound := findCycle_ne_nil hLoops
  have hCycle := findCycle_isCycle hFound
  have hTable := (detect_table locks transactionId
    resource).1
  rw [hDetect] at hTable
  refine ⟨locks.findCycle transactionId, _, ?_, ?_,
    chooseVictim_youngest hFound, ?_⟩
  · rw [waitsFor_of_table hTable]
    exact hCycle.1
  · rw [waitsFor_of_table hTable]
    exact hCycle.2
  · unfold detect at hDetect
    split at hDetect
    · rename_i hNone
      cases hDetect
      unfold newVictim at hNone
      simp only at hNone
      rw [if_neg hFound] at hNone
      by_contra hNot
      rw [if_neg hNot] at hNone
      cases hNone
    · rename_i cycle victim hSome
      unfold newVictim at hSome
      simp only at hSome
      rw [if_neg hFound] at hSome
      split at hSome
      · cases hSome
      · cases hSome
        simp only at hDetect
        split at hDetect
        · cases hDetect
        · cases hDetect
          exact Finset.mem_insert_self _ _

variable {request : LockRequest} {deadline : Deadline}

/- A section that ends in a wait left the table as it was when
   it looked. -/
theorem recheck_waiting
    (hWaits : locks.recheck request deadline =
      (locks', .ok .waiting)) :
    locks.detect request.transactionId request.resource =
      (locks', none) := by
  unfold recheck at hWaits
  split at hWaits
  · cases hWaits
  · rename_i after hDetect
    unfold settle at hWaits
    simp only at hWaits
    split at hWaits
    · unfold grant at hWaits
      simp only at hWaits
      split at hWaits <;> cases hWaits
    · split at hWaits
      · cases hWaits
      · cases hWaits
        exact hDetect

variable {part : Section}

theorem step_waiting
    (hStep : locks.step part = some (locks', .ok .waiting)) :
    ∃ (moment : LockManager) (resource : Mvcc.ResourceId),
      moment.detect part.transactionId resource =
        (locks', none) := by
  cases part with
  | acquire request deadline =>
    have hAcquire : locks.acquire request deadline =
        (locks', .ok .waiting) := Option.some.inj hStep
    unfold acquire at hAcquire
    simp only at hAcquire
    split at hAcquire
    · cases hAcquire
    · split at hAcquire
      · cases hAcquire
      · split at hAcquire
        · unfold grant at hAcquire
          simp only at hAcquire
          split at hAcquire <;> cases hAcquire
        · exact ⟨_, _, recheck_waiting hAcquire⟩
  | wake request deadline =>
    simp only [step] at hStep
    split at hStep
    · have hWake := Option.some.inj hStep
      unfold wake at hWake
      split at hWake
      · cases hWake
      · exact ⟨_, _, recheck_waiting hWake⟩
    · cases hStep
  | releaseAll transactionId => cases hStep

theorem grant_victims
    (locks : LockManager)
    (request : LockRequest) :
    (locks.grant request).1.victims = locks.victims := by
  unfold grant
  simp only
  split <;> rfl

theorem settle_victims
    (locks : LockManager)
    (request : LockRequest)
    (deadline : Deadline) :
    (locks.settle request deadline).1.victims =
      locks.victims := by
  unfold settle
  simp only
  split
  · exact grant_victims _ request
  · split <;> rfl

/- One transaction is marked at most, and it is the one that
   the search came to. -/
theorem detect_victims
    {raised : Option EngineError}
    (hDetect : locks.detect transactionId resource =
      (locks', raised))
    (hMem : victim ∈ locks'.victims) :
    victim ∈ locks.victims ∨
      ∃ cycle, locks.newVictim transactionId =
        some (cycle, victim) := by
  unfold detect at hDetect
  split at hDetect
  · cases hDetect
    exact .inl hMem
  · rename_i cycle chosen hSome
    have hMarked : victim ∈ insert chosen locks.victims := by
      simp only at hDetect
      split at hDetect
      · cases hDetect
        exact Finset.mem_of_mem_erase hMem
      · cases hDetect
        exact hMem
    rcases Finset.mem_insert.mp hMarked with rfl | hOld
    · exact .inr ⟨cycle, hSome⟩
    · exact .inl hOld

theorem recheck_victims
    (hMem : victim ∈
      (locks.recheck request deadline).1.victims) :
    victim ∈ locks.victims ∨
      ∃ cycle, locks.newVictim request.transactionId =
        some (cycle, victim) := by
  unfold recheck at hMem
  split at hMem
  · rename_i hDetect
    exact detect_victims hDetect hMem
  · rename_i hDetect
    rw [settle_victims] at hMem
    exact detect_victims hDetect hMem

/- Everything a section can add to the victims. -/
theorem step_victims
    {result : Except EngineError Answer}
    (hStep : locks.step part = some (locks', result))
    (hMem : victim ∈ locks'.victims) :
    victim ∈ locks.victims ∨ ∃ moment cycle,
      locks.detection part = some moment ∧
      moment.newVictim part.transactionId =
        some (cycle, victim) := by
  cases part with
  | acquire request deadline =>
    have hAcquire : locks.acquire request deadline =
        (locks', result) := Option.some.inj hStep
    have hVictims : victim ∈
        (locks.acquire request deadline).1.victims := by
      rw [hAcquire]
      exact hMem
    unfold acquire at hVictims
    simp only at hVictims
    unfold detection
    simp only
    split at hVictims
    · exact .inl hVictims
    · rename_i hNone
      split at hVictims
      · exact .inl (Finset.mem_of_mem_erase hVictims)
      · rename_i hSpared
        split at hVictims
        · rw [grant_victims] at hVictims
          exact .inl hVictims
        · rename_i hBlocked
          rw [if_neg hNone, if_neg hSpared, if_neg hBlocked]
          rcases recheck_victims hVictims with
            hOld | ⟨cycle, hNew⟩
          · exact .inl hOld
          · exact .inr ⟨_, cycle, rfl, hNew⟩
  | wake request deadline =>
    simp only [step] at hStep
    split at hStep
    · have hVictims : victim ∈
          (locks.wake request deadline).1.victims := by
        rw [Option.some.inj hStep]
        exact hMem
      unfold wake at hVictims
      unfold detection
      simp only
      split at hVictims
      · exact .inl (Finset.mem_of_mem_erase hVictims)
      · rename_i hSpared
        rw [if_neg hSpared]
        rcases recheck_victims hVictims with
          hOld | ⟨cycle, hNew⟩
        · exact .inl hOld
        · exact .inr ⟨locks, cycle, rfl, hNew⟩
    · cases hStep
  | releaseAll transactionId =>
    cases hStep
    exact .inl (Finset.mem_of_mem_erase hMem)

/-
  From every table: whom a section marks is the youngest of a
  cycle that is there when it looks. A waiter that looked and
  goes on waiting leaves somebody chosen in a cycle it can
  reach, if there is one; and in every such cycle, where
  nobody it can reach waits for two.
-/
theorem deadlock_detected
    {locks locks' : LockManager}
    {part : Section}
    {result : Except EngineError Answer}
    (hStep : locks.step part = some (locks', result)) :
    (∀ moment cycle victim,
      locks.detection part = some moment →
      moment.newVictim part.transactionId =
          some (cycle, victim) →
        IsCycle moment.WaitsFor cycle ∧ Youngest victim cycle) ∧
    (∀ victim ∈ locks'.victims, victim ∉ locks.victims →
      ∃ moment cycle, locks.detection part = some moment ∧
        moment.newVictim part.transactionId =
          some (cycle, victim)) ∧
    (result = .ok .waiting →
      Loops locks'.WaitsFor part.transactionId →
        Chosen locks' part.transactionId) ∧
    (result = .ok .waiting →
      Narrow locks'.WaitsFor part.transactionId →
      ∀ cycle, IsCycle locks'.WaitsFor cycle →
        ∀ node ∈ cycle,
        ReflTransGen locks'.WaitsFor part.transactionId
            node →
          ∃ victim ∈ cycle, victim ∈ locks'.victims) := by
  have hChosen : result = .ok .waiting →
      Loops locks'.WaitsFor part.transactionId →
        Chosen locks' part.transactionId := by
    intro hWaits hLoops
    rw [hWaits] at hStep
    rcases step_waiting hStep with ⟨moment, resource, hDetect⟩
    have hTable := (detect_table moment part.transactionId
      resource).1
    rw [hDetect] at hTable
    rw [waitsFor_of_table hTable] at hLoops
    exact detect_chosen hDetect hLoops
  refine ⟨fun moment cycle victim _ hVictim =>
    newVictim_youngest hVictim, ?_, hChosen, ?_⟩
  · intro victim hMem hNew
    rcases step_victims hStep hMem with hOld | hAdded
    · exact absurd hOld hNew
    · exact hAdded
  · intro hWaits hNarrow cycle hCycle node hNode hReach
    rcases hChosen hWaits (hCycle.loops hNode hReach) with
      ⟨found, victim, hFound, hReached, hYoungest, hVictim⟩
    exact ⟨victim, hCycle.shared hFound hNarrow hNode
      hYoungest.1 hReach (hReached victim hYoungest.1),
      hVictim⟩

/- Where every lock is exclusive and a transaction waits for
   one resource at most, it waits for one other at most. -/
theorem narrow_of_exclusive
    {locks : LockManager}
    (hSafe : Safe locks)
    (hExclusive : ∀ resource holder mode,
      locks.holderOf resource holder = some mode →
        mode = .exclusive)
    (hOnce : ∀ first ∈ locks.table.entries,
      ∀ second ∈ locks.table.entries,
      ∀ one ∈ first.2.waiters, ∀ other ∈ second.2.waiters,
        one.transactionId = other.transactionId →
          first.1 = second.1)
    (start : Nat) : Narrow locks.WaitsFor start := by
  intro node _ first second hFirst hSecond
  rcases waitsFor_holder hFirst with
    ⟨held, hHeld, one, hOne, hNode, mode, hHolds⟩
  rcases waitsFor_holder hSecond with
    ⟨held', hHeld', other, hOther, hNode', mode', hHolds'⟩
  have hSame := hOnce held hHeld held' hHeld' one hOne other
    hOther (hNode.trans hNode'.symm)
  rw [← hSame] at hHolds'
  by_contra hApart
  have hBoth := hSafe.alone held.1 first second mode mode'
    hApart hHolds hHolds'
  rw [hExclusive _ _ _ hHolds, hExclusive _ _ _ hHolds']
    at hBoth
  cases hBoth

/- Transaction 1 holds one row, 2 and 3 share another, and
   each side wants the other's. -/
def overlapping : List Section :=
  [.acquire ⟨1, "users:4.1", .exclusive, 1⟩ ⟨false, "5"⟩,
    .acquire ⟨2, "users:4.2", .shared, 2⟩ ⟨false, "5"⟩,
    .acquire ⟨3, "users:4.2", .shared, 3⟩ ⟨false, "5"⟩,
    .acquire ⟨2, "users:4.1", .exclusive, 4⟩ ⟨false, "5"⟩,
    .acquire ⟨3, "users:4.1", .exclusive, 5⟩ ⟨false, "5"⟩]

def closing : Section :=
  .acquire ⟨1, "users:4.2", .exclusive, 6⟩ ⟨false, "5"⟩

theorem overlapping_steps :
    ∃ locks results locks',
      create.run overlapping = some (locks, results) ∧
      locks.step closing = some (locks', .ok .waiting) ∧
      locks'.buildGraph = [(1, 3), (1, 2), (2, 1), (3, 1)] ∧
      locks'.victims = {2} := by
  have hRuns : ((create.run overlapping).bind
      fun state => state.1.step closing).map
        (fun last => (last.2, last.1.buildGraph,
          last.1.victims)) =
      some (.ok .waiting,
        [(1, 3), (1, 2), (2, 1), (3, 1)], {2}) := by
    decide +kernel
  rcases Option.map_eq_some_iff.mp hRuns with
    ⟨⟨locks', result⟩, hBoth, hSame⟩
  rcases Option.bind_eq_some_iff.mp hBoth with
    ⟨⟨locks, results⟩, hRun, hStep⟩
  simp only [Prod.mk.injEq] at hSame
  rcases hSame with ⟨rfl, hGraph, hVictims⟩
  exact ⟨locks, results, locks', hRun, hStep, hGraph, hVictims⟩

/- The last request closes two cycles at once, and only one of
   them has a victim. -/
theorem overlapping_unchosen :
    ∃ locks results locks',
      create.run overlapping = some (locks, results) ∧
      locks.step closing = some (locks', .ok .waiting) ∧
      IsCycle locks'.WaitsFor [1, 3] ∧
      ∀ node ∈ [1, 3], node ∉ locks'.victims := by
  rcases overlapping_steps with
    ⟨locks, results, locks', hRun, hStep, hGraph, hVictims⟩
  refine ⟨locks, results, locks', hRun, hStep, ?_, ?_⟩
  · refine ⟨1, [3], rfl, ?_⟩
    unfold WaitsFor
    rw [hGraph]
    exact List.isChain_cons_cons.mpr ⟨by decide,
      List.isChain_cons_cons.mpr ⟨by decide, .singleton _⟩⟩
  · rw [hVictims]
    decide

/- The same section marks the youngest of the cycle that the
   search came to. -/
theorem deadlock_detected_closing :
    ∃ locks results locks',
      create.run overlapping = some (locks, results) ∧
      locks.step closing = some (locks', .ok .waiting) ∧
      Chosen locks' 1 := by
  rcases overlapping_steps with
    ⟨locks, results, locks', hRun, hStep, hGraph, _⟩
  have hLoops : Loops locks'.WaitsFor 1 := by
    unfold WaitsFor
    rw [hGraph]
    exact ⟨1, .refl, .tail (.single (by decide : (1, 3) ∈ _))
      (by decide)⟩
  exact ⟨locks, results, locks', hRun, hStep,
    (deadlock_detected hStep).2.2.1 rfl hLoops⟩

end LockManager

end Concurrency

end ChenDB
