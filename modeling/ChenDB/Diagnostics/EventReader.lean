import Mathlib.Logic.Function.Basic
import ChenDB.Errors
import ChenDB.Library.Paging

/-
  Trace events: threads that emit them, a ring buffer that
  keeps the latest, and a client that pages through them by
  sequence number. The number is drawn before the record is
  stored, and another thread may store one in between.
-/

--
-- Records
--

namespace ChenDB

namespace Diagnostics

open Library.Paging

variable {κ ε : Type}

/- What an event's class says of it. -/
class DiagnosticEvent (κ : outParam Type) (ε : Type) where
  category : ε → κ
  level : ε → Nat

/- An event and what the tracer stamps onto it. -/
structure TraceRecord (κ ε : Type) where
  seq : Nat
  category : κ
  level : Nat
  event : ε
deriving DecidableEq, Repr

--
-- The Ring Buffer
--

/- The most recent records, oldest first. -/
structure RingBufferSink (κ ε : Type) where
  capacity : Nat
  records : List (TraceRecord κ ε)
  total : Nat
  dropped : Nat
  positive : 1 ≤ capacity
  fits : records.length ≤ capacity

namespace RingBufferSink

def create (capacity : Nat) :
    Except EngineError (RingBufferSink κ ε) :=
  if hPositive : 1 ≤ capacity then
    .ok
      { capacity := capacity
        records := []
        total := 0
        dropped := 0
        positive := hPositive
        fits := Nat.zero_le _ }
  else .error (.valueError "capacity must be at least 1")

/- `deque.append`, which drops the oldest of a full buffer. -/
def record
    (sink : RingBufferSink κ ε)
    (item : TraceRecord κ ε) : RingBufferSink κ ε where
  capacity := sink.capacity
  records := (sink.records ++ [item]).drop
    (sink.records.length + 1 - sink.capacity)
  total := sink.total + 1
  dropped := if sink.records.length = sink.capacity then
    sink.dropped + 1 else sink.dropped
  positive := sink.positive
  fits := by
    have hPositive := sink.positive
    rw [List.length_drop, List.length_append,
      List.length_singleton]
    omega

/- Matching records, oldest first. -/
def snapshot [DecidableEq κ]
    (sink : RingBufferSink κ ε)
    (afterSeq limit : Option Nat)
    (categories : Option (List κ)) :
    List (TraceRecord κ ε) :=
  let items := match afterSeq with
    | none => sink.records
    | some seen =>
      sink.records.filter fun item => seen < item.seq
  let items := match categories with
    | none => items
    | some wanted =>
      items.filter fun item => item.category ∈ wanted
  match limit with
  | none => items
  | some limit => items.take limit

/- A page of the log that the buffer is. -/
theorem snapshot_eq [DecidableEq κ]
    (sink : RingBufferSink κ ε)
    (cursor : Option Nat)
    (limit : Nat) :
    sink.snapshot cursor (some limit) none =
      page TraceRecord.seq cursor limit sink.records := by
  cases cursor with
  | none =>
    have hAll : (sink.records.filter fun item =>
        beyond none item.seq) = sink.records :=
      List.filter_eq_self.mpr fun _ _ => rfl
    unfold page
    rw [hAll]
    rfl
  | some seen => rfl

end RingBufferSink

--
-- Threads and a Client
--

/- The tracer's counter, the records that threads have drawn a
   number for and not yet stored, the buffer, and the client's
   cursor with the pages it was given. -/
structure Watched (κ ε : Type) where
  level : Nat
  counter : Nat
  drawn : List (TraceRecord κ ε)
  sink : RingBufferSink κ ε
  cursor : Option Nat
  pages : List (List (TraceRecord κ ε))

/- What a thread or the client does next. -/
inductive Action (ε : Type) where
  | draw (event : ε)
  | store (seq : Nat)
  | poll (limit : Nat)

/- Nothing is emitted or polled yet. -/
def Watched.start
    (level : Nat)
    (sink : RingBufferSink κ ε) : Watched κ ε where
  level := level
  counter := 1
  drawn := []
  sink := sink
  cursor := none
  pages := []

variable [DecidableEq κ] [DiagnosticEvent κ ε]

/- `Tracer.emit` is `draw` and then `store`; an event above the
   level is not emitted. -/
def step
    (state : Watched κ ε) : Action ε → Option (Watched κ ε)
  | .draw event =>
    if state.level < DiagnosticEvent.level event then
      some state
    else
      some
        { state with
          counter := state.counter + 1
          drawn := state.drawn ++
            [{ seq := state.counter
               category := DiagnosticEvent.category event
               level := DiagnosticEvent.level event
               event := event }] }
  | .store seq =>
    match state.drawn.find? fun item => item.seq = seq with
    | none => none
    | some item =>
      some
        { state with
          drawn := state.drawn.filter fun other =>
            other.seq ≠ seq
          sink := state.sink.record item }
  | .poll limit =>
    if limit = 0 then none
    else
      let found :=
        state.sink.snapshot state.cursor (some limit) none
      some
        { state with
          cursor :=
            largest TraceRecord.seq state.cursor found
          pages := state.pages ++ [found] }

/- Once nothing is left for the client, it was given all that
   the buffer holds, once; and pages are in order. -/
def LosesNothing (state : Watched κ ε) : Prop :=
  (CaughtUp TraceRecord.seq state.sink.records state.cursor →
    ∀ item ∈ state.sink.records,
      (state.pages.flatten.filter fun other =>
        decide (other.seq = item.seq)) = [item]) ∧
  ∀ found ∈ state.pages, found.Pairwise (·.seq < ·.seq)

/- A record is stored when no smaller number is drawn and not
   stored yet. -/
def InOrder (state : Watched κ ε) : Action ε → Prop
  | .store seq => ∀ other ∈ state.drawn, seq ≤ other.seq
  | _ => True

/- The states of the runs that store in order. -/
inductive Reached (first : Watched κ ε) :
    Watched κ ε → Prop where
  | start : Reached first first
  | next
      {state following : Watched κ ε}
      (action : Action ε)
      (hReached : Reached first state)
      (hInOrder : InOrder state action)
      (hStep : step state action = some following) :
      Reached first following

--
-- The Invariant
--

/- What is stored is below what is drawn, and what is drawn
   below what comes. -/
structure Invariant (state : Watched κ ε) : Prop where
  reads : Reads TraceRecord.seq state.sink.records
    state.cursor state.pages.flatten
  stored : ∀ item ∈ state.sink.records, item.seq < state.counter
  apart : state.drawn.Pairwise (·.seq < ·.seq)
  drawn : ∀ item ∈ state.drawn,
    item.seq < state.counter ∧
      beyond state.cursor item.seq = true ∧
      ∀ other ∈ state.sink.records, other.seq < item.seq
  beyond : beyond state.cursor state.counter = true

omit [DecidableEq κ] [DiagnosticEvent κ ε] in
theorem invariant_start
    {level : Nat}
    {sink : RingBufferSink κ ε}
    (hEmpty : sink.records = []) :
    Invariant (Watched.start level sink) where
  reads := by
    unfold Watched.start
    rw [hEmpty]
    exact Reads.start
  stored := by
    unfold Watched.start
    rw [hEmpty]
    simp
  apart := List.Pairwise.nil
  drawn := by simp [Watched.start]
  beyond := rfl

variable {cursor : Option Nat} {number : Nat}

theorem beyond_succ
    (hBeyond : Library.Paging.beyond cursor number = true) :
    Library.Paging.beyond cursor (number + 1) = true := by
  cases cursor with
  | none => rfl
  | some seen =>
    have hLess := of_decide_eq_true hBeyond
    exact decide_eq_true (by omega)

omit [DecidableEq κ] [DiagnosticEvent κ ε] in
/- What a page leaves beyond the cursor. -/
theorem beyond_poll
    {items found : List (TraceRecord κ ε)}
    (hFound : ∀ item ∈ found, item ∈ items)
    (hBeyond : Library.Paging.beyond cursor number = true)
    (hAbove : ∀ item ∈ items, item.seq < number) :
    Library.Paging.beyond
      (largest TraceRecord.seq cursor found) number =
        true := by
  induction found generalizing cursor with
  | nil => exact hBeyond
  | cons first rest ih =>
    have hFirst := hAbove first
      (hFound first (.head _))
    refine ih (fun item hMem =>
      hFound item (.tail first hMem)) ?_
    cases cursor with
    | none => exact decide_eq_true hFirst
    | some seen =>
      have hSeen := of_decide_eq_true hBeyond
      exact decide_eq_true (by omega)

variable {state following : Watched κ ε}

theorem invariant_draw
    (hInvariant : Invariant state)
    {event : ε}
    (hStep : step state (.draw event) = some following) :
    Invariant following := by
  unfold step at hStep
  dsimp only at hStep
  split at hStep
  · cases hStep
    exact hInvariant
  · cases hStep
    exact
      { reads := hInvariant.reads
        stored := fun item hMem =>
          Nat.lt_succ_of_lt (hInvariant.stored item hMem)
        apart := by
          refine List.pairwise_append.mpr
            ⟨hInvariant.apart, List.pairwise_singleton _ _, ?_⟩
          intro item hMem new hNew
          rw [List.mem_singleton.mp hNew]
          exact (hInvariant.drawn item hMem).1
        drawn := by
          intro item hMem
          rcases List.mem_append.mp hMem with hMem | hMem
          · rcases hInvariant.drawn item hMem with
              ⟨hLess, hBeyond, hAbove⟩
            exact ⟨Nat.lt_succ_of_lt hLess, hBeyond, hAbove⟩
          · rw [List.mem_singleton.mp hMem]
            exact ⟨Nat.lt_succ_self _, hInvariant.beyond,
              hInvariant.stored⟩
        beyond := beyond_succ hInvariant.beyond }

/- The smallest number that is drawn goes behind all that are
   stored, and stays below the others that are drawn. -/
theorem invariant_store
    (hInvariant : Invariant state)
    {seq : Nat}
    (hInOrder : InOrder state (.store seq))
    (hStep : step state (.store seq) = some following) :
    Invariant following := by
  unfold step at hStep
  dsimp only at hStep
  split at hStep
  · cases hStep
  · rename_i item hFind
    cases hStep
    have hSeq : item.seq = seq := by
      simpa using List.find?_some hFind
    rcases hInvariant.drawn item (List.mem_of_find?_eq_some
      hFind) with ⟨hLess, hBeyond, hAbove⟩
    have hAdded := hInvariant.reads.add hAbove hBeyond
    have hKept : (state.sink.record item).records.Sublist
        (state.sink.records ++ [item]) := List.drop_sublist _ _
    have hEach : ∀ other ∈ (state.sink.record item).records,
        other ∈ state.sink.records ∨ other = item := by
      intro other hMem
      simpa using hKept.subset hMem
    exact
      { reads := hAdded.sublist hKept
        stored := by
          intro other hMem
          rcases hEach other hMem with hOld | rfl
          · exact hInvariant.stored other hOld
          · exact hLess
        apart := hInvariant.apart.sublist List.filter_sublist
        drawn := by
          intro other hMem
          rcases List.mem_filter.mp hMem with ⟨hOther, hNot⟩
          rcases hInvariant.drawn other hOther with
            ⟨hLess', hBeyond', hAbove'⟩
          refine ⟨hLess', hBeyond', ?_⟩
          intro old hOld
          rcases hEach old hOld with hOld | rfl
          · exact hAbove' old hOld
          · have hLe := hInOrder other hOther
            have hNe : other.seq ≠ seq := by simpa using hNot
            omega
        beyond := hInvariant.beyond }

theorem invariant_poll
    (hInvariant : Invariant state)
    {limit : Nat}
    (hStep : step state (.poll limit) = some following) :
    Invariant following := by
  unfold step at hStep
  dsimp only at hStep
  split at hStep
  · cases hStep
  · cases hStep
    rw [RingBufferSink.snapshot_eq]
    have hFound : ∀ item ∈ page TraceRecord.seq state.cursor
        limit state.sink.records, item ∈ state.sink.records :=
      fun item hMem =>
        (List.mem_filter.mp (List.mem_of_mem_take hMem)).1
    exact
      { reads := by
          dsimp only
          rw [List.flatten_concat]
          exact hInvariant.reads.poll limit
        stored := hInvariant.stored
        apart := hInvariant.apart
        drawn := by
          intro item hMem
          rcases hInvariant.drawn item hMem with
            ⟨hLess, hBeyond, hAbove⟩
          exact ⟨hLess, beyond_poll hFound hBeyond hAbove,
            hAbove⟩
        beyond := beyond_poll hFound hInvariant.beyond
          hInvariant.stored }

theorem invariant_reached
    {first : Watched κ ε}
    (hFirst : Invariant first)
    (hReached : Reached first state) :
    Invariant state := by
  induction hReached with
  | start => exact hFirst
  | next action _ hInOrder hStep ih =>
    cases action with
    | draw event => exact invariant_draw ih hStep
    | store seq => exact invariant_store ih hInOrder hStep
    | poll limit => exact invariant_poll ih hStep

/- As long as records are stored in the order of their numbers,
   the client loses nothing. -/
theorem nothing_lost
    {level capacity : Nat}
    {sink : RingBufferSink κ ε}
    (hSink : RingBufferSink.create capacity = .ok sink)
    (hReached : Reached (Watched.start level sink) state) :
    LosesNothing state := by
  have hEmpty : sink.records = [] := by
    unfold RingBufferSink.create at hSink
    split at hSink
    · cases hSink
      rfl
    · cases hSink
  have hInvariant := invariant_reached
    (invariant_start hEmpty) hReached
  constructor
  · intro hCaughtUp item hMem
    exact hInvariant.reads.exactly_once hCaughtUp hMem
  · intro found hFound
    have hPages := List.pairwise_flatten.mp hInvariant.reads.once
    exact hPages.1 found hFound

--
-- Two Threads
--

section TwoThreads

/- Events without anything to tell them apart. -/
local instance plainEvents : DiagnosticEvent Unit Unit where
  category _ := ()
  level _ := 10

def oneRecord (seq : Nat) : TraceRecord Unit Unit where
  seq := seq
  category := ()
  level := 10
  event := ()

def smallSink : RingBufferSink Unit Unit where
  capacity := 4
  records := []
  total := 0
  dropped := 0
  positive := by decide
  fits := by decide

/- Two threads draw, and store in the order of their numbers,
   with a poll before and after each. -/
theorem nothing_lost_two :
    ∃ state : Watched Unit Unit,
      [.draw (), .draw (), .poll 1, .store 1, .poll 1, .store 2,
          .poll 1].foldlM step (Watched.start 10 smallSink) =
        some state ∧
      state.pages = [[], [oneRecord 1], [oneRecord 2]] ∧
      LosesNothing state := by
  have hDrawn := Reached.next (.draw ())
    (.next (.draw ()) (@Reached.start _ _ _ _ (Watched.start 10
      smallSink)) trivial rfl) trivial rfl
  have hFirst := Reached.next (.poll 1) hDrawn trivial rfl
  have hStored := Reached.next (.store 1) hFirst
    (show ∀ other ∈ [oneRecord 1, oneRecord 2],
      1 ≤ other.seq by decide) rfl
  have hSecond := Reached.next (.poll 1) hStored trivial rfl
  have hAll := Reached.next (.store 2) hSecond
    (show ∀ other ∈ [oneRecord 2], 2 ≤ other.seq by decide) rfl
  have hSink : RingBufferSink.create 4 = .ok smallSink := rfl
  exact ⟨_, rfl, rfl, nothing_lost hSink
    (.next (.poll 1) hAll trivial rfl)⟩

/- Two threads draw, and the second stores and is read before
   the first has stored. -/
theorem second_stored_first :
    ∃ (actions : List (Action Unit)) (state : Watched Unit Unit),
      actions.foldlM step (Watched.start 10 smallSink) =
          some state ∧
        ¬ LosesNothing state := by
  refine ⟨[.draw (), .draw (), .store 2, .poll 1, .store 1], _,
    rfl, ?_⟩
  intro hNothing
  have hNone := hNothing.1 (by decide) (oneRecord 1) (by decide)
  exact absurd hNone (by decide)

end TwoThreads

end Diagnostics

end ChenDB
