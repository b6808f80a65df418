import ChenDB.Mvcc.Statements
import ChenDB.Transaction.Lives

/-
  Sessions that change rows side by side on one engine. A
  statement is a run of the page changes listed here, made in
  its session's transaction, and other sessions may run
  between any two of them.
-/

--
-- Records
--

namespace ChenDB

namespace Database

open Library.StateExcept
open Mvcc (Version deleted setXmax)
open Storage
open Storage.Pager (fromExcept)
open Transaction (IsolationLevel TransactionManager TupleHeader)

variable {ρ : Type}

/- A row version of a user table, or an entry of an index or
   of the catalog, which carries no tuple header. -/
inductive Record (ρ : Type) where
  | version (held : Version ρ)
  | plain (value : ρ)
deriving DecidableEq, Repr

instance [Payload ρ] : Payload (Record ρ) where
  size
    | .version held => Payload.size held
    | .plain value => Payload.size value

def Record.asVersion : Record ρ → Option (Version ρ)
  | .version held => some held
  | .plain _ => none

/- The row version in a slot of a page. -/
def versionAt
    (image : PageImage (Record ρ))
    (slotId : Nat) : Option (Version ρ) :=
  match image with
  | .slotted page => (page.read slotId).bind Record.asVersion
  | _ => none

/- No slot of the page holds a row version. -/
def Plain (page : Page (Record ρ)) : Prop :=
  ∀ slotId, versionAt (.slotted page) slotId = none

--
-- Page Changes
--

/- `Database._writer_xid`. -/
def writerXid : EngineM (Record ρ) Nat := do
  let engine ← get
  match engine.transactions.activeIn engine.session with
  | some transaction => return transaction.transactionId
  | none =>
    begin true Transaction.defaultIsolation
    return engine.transactions.nextId

/- `heap.insert` of a new version, on a page that may have
   room for it. -/
def place [Payload ρ]
    (pageId : PageId)
    (row : ρ) : EngineM (Record ρ) Unit := do
  let xid ← writerXid
  let page ← Pager.readPage pageId
  match ← fromExcept (HeapFile.place page
      (.version ⟨⟨xid, Wal.noTransaction⟩, row⟩)) with
  | (placed, some _) => Pager.writePage pageId placed
  | (_, none) => return

/- `_claim_row` and `heap.replace` with the claimed version's
   `xmax` set; the row is left alone once it is deleted. -/
def stamp [Payload ρ]
    (recordId : RecordId) : EngineM (Record ρ) Unit := do
  let xid ← writerXid
  let page ← Pager.readPage recordId.pageId
  match (page.read recordId.slotId).bind
      Record.asVersion with
  | none => return
  | some version =>
    if deleted version.header then
      return
    else
      match ← fromExcept (page.overwrite recordId.slotId
          (.version (setXmax version xid))) with
      | none => return
      | some written =>
        Pager.writePage recordId.pageId written

/- `HeapFile._extend` once it has a page: the old tail is
   linked to it. -/
def link
    (pageId nextPageId : PageId) :
    EngineM (Record ρ) Unit := do
  let page ← Pager.readPage pageId
  Pager.writePage pageId { page with nextPageId := nextPageId }

/-
  What the statements that change rows do to the pages. An
  insert that does not fit allocates a page, links it and
  places the row there; index nodes and rows of the catalog
  are kept on pages that hold no row version.
-/
inductive Work (ρ : Type) where
  | read (pageId : PageId)
  | place (pageId : PageId) (row : ρ)
  | stamp (recordId : RecordId)
  | link (pageId nextPageId : PageId)
  | keep (pageId : PageId) (page : Page (Record ρ))
      (plain : Plain page)
  | allocate (pageType : PageType)
  | editMeta (pages : CatalogPages)
  | flushMeta

/- The page a piece of work allocated, if it did. -/
def Work.perform [Payload ρ] :
    Work ρ → EngineM (Record ρ) (Option PageId)
  | .read pageId => do
      let _ ← Pager.readPage pageId
      return none
  | .place pageId row => do
      Database.place pageId row
      return none
  | .stamp recordId => do
      Database.stamp recordId
      return none
  | .link pageId nextPageId => do
      Database.link pageId nextPageId
      return none
  | .keep pageId page _ => do
      Pager.writePage pageId page
      return none
  | .allocate pageType => do
      let (pageId, _) ← Pager.allocatePage pageType
      return some pageId
  | .editMeta pages => do
      Pager.editMeta pages.install
      return none
  | .flushMeta => do
      Pager.flushMeta
      return none

--
-- Runs
--

/- Who allocated which page. -/
abbrev Allocated := List (Nat × PageId)

/- The page just handed out, if the page count covers it. -/
def granted
    (transactionId : Nat)
    (engine : Engine (Record ρ)) :
    Option PageId → Allocated
  | none => []
  | some pageId =>
    if pageId < engine.metaPage.pageCount then
      [(transactionId, pageId)]
    else []

/- What the other transactions allocated. -/
def Allocated.without
    (allocated : Allocated)
    (transactionId : Nat) : Allocated :=
  allocated.filter fun entry => entry.1 ≠ transactionId

/- The engine after a call, whether it returned or raised. -/
def after
    {π α : Type}
    (session : String)
    (program : EngineM π α)
    (engine : Engine π) : Engine π :=
  match (inSession session program).run engine with
  | .ok _ final => final
  | .error _ final => final

/-
  Any number of sessions on one database, one piece of work
  at a time, with several transactions open at once. `Clear`
  is asked of every state something is done in. A brand-new
  database starts with an empty log.
-/
inductive Interleaved [Payload ρ]
    (Clear : Engine (Record ρ) → Prop) :
    Engine (Record ρ) → Allocated → Prop where
  | opened {options stored engine} :
      (stored.pages = [] → stored.records = []) →
      reopen options stored = some engine →
      Interleaved Clear engine []
  | worked
      (session : String)
      (work : Work ρ)
      {engine allocated transaction result final} :
      Interleaved Clear engine allocated →
      Clear engine →
      engine.transactions.activeIn session = some transaction →
      (inSession session work.perform).run engine =
        .ok result final →
      Interleaved Clear final
        (granted transaction.transactionId final result ++
          allocated)
  | failed
      (session : String)
      (work : Work ρ)
      {engine allocated transaction raised final} :
      Interleaved Clear engine allocated →
      Clear engine →
      engine.transactions.activeIn session = some transaction →
      (inSession session work.perform).run engine =
        .error raised final →
      Interleaved Clear final allocated
  | began
      (session : String)
      (implicit : Bool)
      (isolation : IsolationLevel)
      {engine allocated} :
      Interleaved Clear engine allocated →
      Clear engine →
      Interleaved Clear
        (after session (begin implicit isolation) engine)
        allocated
  | committed
      (session : String)
      {engine allocated} :
      Interleaved Clear engine allocated →
      Clear engine →
      engine.transactions.isFailedIn session = false →
      Interleaved Clear (after session commit engine)
        allocated
  | rolledBack
      (session : String)
      {engine allocated transaction} :
      Interleaved Clear engine allocated →
      Clear engine →
      engine.transactions.activeIn session = some transaction →
      Interleaved Clear (after session rollback engine)
        (allocated.without transaction.transactionId)

/- What one session does next. -/
inductive Turn (ρ : Type) where
  | work (session : String) (work : Work ρ)
  | begin (session : String)
  | commit (session : String)
  | rollback (session : String)

/- The state after a turn, if a run can take it. -/
def Turn.take [Payload ρ]
    (Clear : Engine (Record ρ) → Prop)
    [DecidablePred Clear]
    (state : Engine (Record ρ) × Allocated)
    (turn : Turn ρ) :
    Option (Engine (Record ρ) × Allocated) :=
  let (engine, allocated) := state
  if Clear engine then
    match turn with
    | .work session piece =>
      match engine.transactions.activeIn session with
      | none => none
      | some transaction =>
        match (inSession session
            piece.perform).run engine with
        | .ok result final => some (final,
            granted transaction.transactionId final
              result ++ allocated)
        | .error _ final => some (final, allocated)
    | .begin session => some (after session
        (Database.begin false
          Transaction.defaultIsolation) engine, allocated)
    | .commit session =>
      if engine.transactions.isFailedIn session then none
      else some (after session Database.commit engine,
        allocated)
    | .rollback session =>
      match engine.transactions.activeIn session with
      | none => none
      | some transaction => some
          (after session Database.rollback engine,
            allocated.without transaction.transactionId)
  else none

section Turns

variable [Payload ρ] {Clear : Engine (Record ρ) → Prop}
variable [DecidablePred Clear]
variable {next : Engine (Record ρ) × Allocated}

variable {engine : Engine (Record ρ)} {allocated : Allocated}

theorem Interleaved.take
    (hRun : Interleaved Clear engine allocated)
    {turn : Turn ρ}
    (hTake : Turn.take Clear (engine, allocated) turn =
      some next) :
    Interleaved Clear next.1 next.2 := by
  simp only [Turn.take] at hTake
  split at hTake
  case isFalse => cases hTake
  case isTrue hClear =>
    cases turn with
    | work session piece =>
      cases hActive :
          engine.transactions.activeIn session with
      | none => simp [hActive] at hTake
      | some transaction =>
        cases hDone : (inSession session
            piece.perform).run engine with
        | ok result final =>
          simp only [hActive, hDone, Option.some.injEq] at hTake
          subst hTake
          exact .worked session piece hRun hClear
            hActive hDone
        | error raised final =>
          simp only [hActive, hDone, Option.some.injEq] at hTake
          subst hTake
          exact .failed session piece hRun hClear
            hActive hDone
    | begin session =>
      simp only [Option.some.injEq] at hTake
      subst hTake
      exact .began session _ _ hRun hClear
    | commit session =>
      simp only at hTake
      split at hTake
      · cases hTake
      · rename_i hAlive
        rw [Option.some.injEq] at hTake
        subst hTake
        exact .committed session hRun hClear
          (by simpa using hAlive)
    | rollback session =>
      cases hActive :
          engine.transactions.activeIn session with
      | none => simp [hActive] at hTake
      | some transaction =>
        simp only [hActive, Option.some.injEq] at hTake
        subst hTake
        exact .rolledBack session hRun hClear hActive

theorem Interleaved.turns
    (turns : List (Turn ρ))
    (hRun : Interleaved Clear engine allocated)
    (hTurns : turns.foldlM (Turn.take Clear)
      (engine, allocated) = some next) :
    Interleaved Clear next.1 next.2 := by
  induction turns generalizing engine allocated with
  | nil =>
    cases hTurns
    exact hRun
  | cons turn rest ih =>
    rw [List.foldlM_cons] at hTurns
    rcases Option.bind_eq_some_iff.mp hTurns with
      ⟨middle, hTake, hRest⟩
    exact ih (Interleaved.take hRun hTake) hRest

end Turns

--
-- Rolling Back Alone
--

/- No page is changed by two transactions that are open at
   the same time. -/
def Apart
    {ι : Type}
    (manager : TransactionManager ι) : Prop :=
  ∀ first ∈ manager.running, ∀ second ∈ manager.running,
    first.session ≠ second.session → ∀ pageId,
      first.undo.has pageId = true →
      second.undo.has pageId = false

instance {ι : Type} (manager : TransactionManager ι) :
    Decidable (Apart manager) :=
  decidable_of_iff
    (∀ first ∈ manager.running, ∀ second ∈ manager.running,
      first.session ≠ second.session →
        ∀ pageId ∈ first.undo.captured,
          pageId ∉ second.undo.captured) (by
      simp only [Apart, Transaction.UndoLog.has,
        decide_eq_true_eq, decide_eq_false_iff_not])

/- Another transaction inserted this version or set its
   `xmax`. -/
def Foreign
    (transactionId : Nat)
    (header : TupleHeader) : Prop :=
  header.xmin ≠ transactionId ∨
    deleted header = true ∧ header.xmax ≠ transactionId

/- The same version, still stamped by who else stamped it. -/
structure Survives
    (transactionId : Nat)
    (version kept : Version ρ) : Prop where
  row : kept.row = version.row
  xmin : kept.header.xmin = version.header.xmin
  xmax : deleted version.header = true →
    version.header.xmax ≠ transactionId →
    kept.header.xmax = version.header.xmax

/-
  What a rollback leaves of the others: every row version
  that another transaction inserted and every `xmax` it set
  is where it was, and the page count covers every page it
  allocated.
-/
structure Spared
    (transactionId : Nat)
    (allocated : Allocated)
    (engine final : Engine (Record ρ)) : Prop where
  versions : ∀ pageId image slotId version,
    engine.core.view pageId = some image →
    versionAt image slotId = some version →
    Foreign transactionId version.header →
    ∃ image' version',
      final.core.view pageId = some image' ∧
        versionAt image' slotId = some version' ∧
        Survives transactionId version version'
  pages : ∀ entry ∈ allocated,
    entry.1 ≠ transactionId →
    entry.2 < final.metaPage.pageCount

end Database

end ChenDB
