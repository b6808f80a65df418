import ChenDB.Transaction.WriteAhead

/-
  A database over many lives: opened, called, lost to a crash
  at any change of its files, and opened again on what the
  crash left.
-/

--
-- One Life
--

namespace ChenDB

namespace Database

open Library.StateExcept
open Storage
open Wal (LogRecord)

variable {π : Type}

/- An engine opened on these stored files, and the calls any
   session makes on it, whether they return or raise. -/
inductive Living
    (stored : Pager.Stored π) : Engine π → Prop where
  | opened
      (installs : Bool)
      {options engine final} :
      Pager.opening options stored = .ok engine →
      validatePageSize engine.pageSize = .ok () →
      (boot (!stored.pages.isEmpty) installs).run engine =
        .ok () final →
      Living stored final
  | returned
      (session : String)
      {engine call final} :
      Living stored engine →
      engine.closed = false →
      (inSession session (perform call)).run engine =
        .ok () final →
      Living stored final
  | raised
      (session : String)
      {engine call raised final} :
      Living stored engine →
      engine.closed = false →
      (inSession session (perform call)).run engine =
        .error raised final →
      Living stored final

/- The files of a life, or of an opening that failed. -/
inductive Lived
    (stored : Pager.Stored π) : Files π → Prop where
  | serving {engine} :
      Living stored engine → Lived stored engine.files
  | failing
      (installs : Bool)
      {options engine raised final} :
      Pager.opening options stored = .ok engine →
      validatePageSize engine.pageSize = .ok () →
      (boot (!stored.pages.isEmpty) installs).run engine =
        .error raised final →
      Lived stored final.files

variable {stored : Pager.Stored π} {engine : Engine π}

theorem living_afterCall
    (session : String)
    (hLiving : Living stored engine)
    (hOpen : engine.closed = false)
    (call : Call π) :
    Living stored (afterCall session engine call) := by
  unfold afterCall
  cases hRun :
      (inSession session (perform call)).run engine with
  | ok _ final => exact .returned session hLiving hOpen hRun
  | error raised final =>
    exact .raised session hLiving hOpen hRun

theorem living_afterCalls
    (session : String)
    {calls : List (Call π)}
    (hLiving : Living stored engine)
    (hOpen : staysOpen session engine calls = true) :
    Living stored (calls.foldl (afterCall session) engine) := by
  induction calls generalizing engine with
  | nil => exact hLiving
  | cons call rest ih =>
    unfold staysOpen at hOpen
    rw [Bool.and_eq_true, Bool.not_eq_true'] at hOpen
    exact ih (living_afterCall session hLiving hOpen.1 call)
      hOpen.2

/- Open the stored files and start the database on them. -/
def reopen
    (options : Pager.Options)
    (stored : Pager.Stored π) : Option (Engine π) :=
  match Pager.opening options stored with
  | .error _ => none
  | .ok engine =>
    if validatePageSize engine.pageSize = .ok () then
      match (boot (!stored.pages.isEmpty) true).run
        engine with
      | .ok _ final => some final
      | .error _ _ => none
    else none

theorem living_reopen
    {options : Pager.Options}
    (hReopen : reopen options stored = some engine) :
    Living stored engine := by
  unfold reopen at hReopen
  split at hReopen
  · cases hReopen
  · rename_i fresh hOpening
    split at hReopen
    · rename_i hValid
      split at hReopen
      · rename_i value final hBoot
        cases hReopen
        exact .opened true hOpening hValid hBoot
      · cases hReopen
    · cases hReopen

/- What every step keeps holds through a life that begins
   with it. -/
theorem living_keeps
    {J : Core π → Prop}
    (hStable : Stable Anywhere J)
    (hBooted : ∀ installs options engine final,
      Pager.opening options stored = .ok engine →
      validatePageSize engine.pageSize = .ok () →
      (boot (!stored.pages.isEmpty) installs).run engine =
        .ok () final →
      Ready J final)
    (hLiving : Living stored engine) :
    Rests J engine := by
  induction hLiving with
  | opened installs hOpening hValid hBoot =>
    have hReady := hBooted installs _ _ _ hOpening hValid
      hBoot
    exact ⟨hReady.2, .inl hReady.1⟩
  | returned session _ hOpen hRun ih =>
    exact (call_rests hStable session _).of_ok
      (ready_of_rests ih hOpen) hRun
  | raised session _ hOpen hRun ih =>
    exact (call_rests hStable session _).of_error
      (ready_of_rests ih hOpen) hRun

--
-- Crashes
--

/- No change was logged since the last checkpoint. -/
def Unchanged (records : List (LogRecord (PageImage π))) :
    Prop :=
  ∀ record ∈ records, record.recordType ≠ .update

/-
  A crash here loses no LSN: the log was not just cut off
  with the meta page still to be rewritten, or else it held
  no change.
-/
def Restartable
    (moment : Moment π)
    (earlier : List (Moment π)) : Prop :=
  moment.event = .logTruncated →
    ∀ previous ∈ earlier.head?, Unchanged previous.records

/-
  A page is in the file whose record is not: it overtook its
  record, and the log file has not changed since.
-/
def PageAhead : List (Moment π) → Prop
  | [] => False
  | moment :: earlier =>
    Moment.overtaken moment = true ∨
      PageAhead earlier ∧
        earlier.head?.map Moment.records = some moment.records

theorem not_pageAhead_of
    {history : List (Moment π)}
    (hHistory : history.all (fun moment =>
      !Moment.overtaken moment) = true) :
    ¬ PageAhead history := by
  induction history with
  | nil => exact id
  | cons moment earlier ih =>
    rw [List.all_cons, Bool.and_eq_true,
      Bool.not_eq_true'] at hHistory
    rintro (hOvertaken | hEarlier)
    · rw [hHistory.1] at hOvertaken
      cases hOvertaken
    · exact ih hHistory.2 hEarlier.1

/-
  The files that lives in a row leave behind. Each starts on
  what a crash of the one before left, at any moment that is
  restartable and at which no page is ahead of its record.
-/
inductive Reached : Pager.Stored π → Prop where
  | created : Reached ⟨[], []⟩
  | crashed {stored files later moment earlier} :
      Reached stored →
      Lived stored files →
      files.history = later ++ moment :: earlier →
      ¬ PageAhead (moment :: earlier) →
      Restartable moment earlier →
      Reached ⟨moment.pages, moment.records⟩

end Database

end ChenDB
