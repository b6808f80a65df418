import Mathlib.Data.List.Nodup
import Mathlib.Logic.Function.Basic
import ChenDB.Storage.Buffer

/-
  The buffer pool down to its frames: the frame array, the
  list of free indices and the ordered map from a page to
  the index of its frame.

  The pool is compared with what it stands for, the backing
  store overlaid with the images stored since the last time
  each page was written back or forgotten. The overlay is
  read off the history of the calls and of the writes the
  pool made.
-/

--
-- The Frame Array
--

namespace ChenDB

namespace Storage

open Library.StateExcept

/- One frame, free when it names no page. -/
structure PoolFrame (ι : Type) where
  pageId : Option PageId
  data : ι
  dirty : Bool
deriving DecidableEq, Repr

structure FramePool (ι : Type) where
  pageSize : Nat
  capacity : Nat
  frames : List (PoolFrame ι)
  /- Indices of the free frames; the last is taken first. -/
  free : List Nat
  /- The index of each resident page's frame, least recently
     used first. -/
  resident : List (PageId × Nat)
deriving DecidableEq, Repr

namespace FramePool

variable {ι : Type}

/- `BufferPool.__init__`. -/
def create
    [Wal.ByteImage ι]
    (pageSize capacity : Nat) :
    Except EngineError (FramePool ι) :=
  if capacity < minPoolFrames then
    .error (.valueError
      (s!"a buffer pool needs at least {minPoolFrames} " ++
        s!"frames, got {capacity}"))
  else
    .ok
      { pageSize := pageSize
        capacity := capacity
        frames := List.replicate capacity
          { pageId := none
            data := Wal.ByteImage.empty
            dirty := false }
        free := (List.range capacity).reverse
        resident := [] }

/- The frame a resident page is in. -/
def indexOf
    (pool : FramePool ι)
    (pageId : PageId) : Option Nat :=
  (pool.resident.find? fun entry =>
    entry.1 = pageId).map Prod.snd

/- The resident pages, least recently used first. -/
def pages (pool : FramePool ι) : List PageId :=
  pool.resident.map Prod.fst

/- The map without a page. -/
def popPage
    (pool : FramePool ι)
    (pageId : PageId) : FramePool ι :=
  { pool with
    resident := pool.resident.filter fun entry =>
      entry.1 ≠ pageId }

/- `OrderedDict.move_to_end`. -/
def moveToEnd
    (pool : FramePool ι)
    (pageId : PageId) : FramePool ι :=
  { pool with
    resident :=
      pool.resident.filter (fun entry =>
        entry.1 ≠ pageId) ++
      pool.resident.filter fun entry => entry.1 = pageId }

/- An assignment to the map: a page it has keeps its place. -/
def assign
    (pool : FramePool ι)
    (pageId : PageId)
    (index : Nat) : FramePool ι :=
  { pool with
    resident :=
      if pageId ∈ pool.pages then
        pool.resident.map fun entry =>
          if entry.1 = pageId then (pageId, index) else entry
      else pool.resident ++ [(pageId, index)] }

def setFrame
    (pool : FramePool ι)
    (index : Nat)
    (frame : PoolFrame ι) : FramePool ι :=
  { pool with frames := pool.frames.set index frame }

end FramePool

--
-- The Calls
--

abbrev FramesM (τ ι : Type) :=
  EStateM EngineError (FramePool ι × τ)

namespace FramePool

variable {τ ι : Type}

/- Run a callback on the state behind the pool. -/
def callback
    {α : Type}
    (program : EStateM EngineError τ α) :
    FramesM τ ι α :=
  focus Prod.snd (fun state back => (state.1, back)) program

def change
    (f : FramePool ι → FramePool ι) : FramesM τ ι Unit :=
  modify fun state => (f state.1, state.2)

/- `self._frames[index]`. -/
def frameAt (index : Nat) :
    FramesM τ ι (PoolFrame ι) := do
  let (pool, _) ← get
  match pool.frames[index]? with
  | some frame => return frame
  | none => throw (.indexError "list index out of range")

/-
  Drop the least recently used page, writing it back when it
  is dirty, and return its frame.
-/
def evict (env : PoolEnv τ ι) : FramesM τ ι Nat := do
  let (pool, _) ← get
  match pool.resident with
  | [] => throw (.keyError "dictionary is empty")
  | (victim, index) :: rest =>
    change fun pool => { pool with resident := rest }
    let frame ← frameAt index
    if frame.dirty then
      callback (env.writeThrough victim frame.data)
    change fun pool => pool.setFrame index
      { frame with pageId := none, dirty := false }
    return index

/- A free frame, or an evicted one. -/
def takeFrame (env : PoolEnv τ ι) : FramesM τ ι Nat := do
  let (pool, _) ← get
  match pool.free.getLast? with
  | some index =>
    change fun pool =>
      { pool with free := pool.free.dropLast }
    return index
  | none => evict env

def admitPage
    (env : PoolEnv τ ι)
    (pageId : PageId)
    (raw : ι)
    (dirty : Bool) : FramesM τ ι Unit := do
  let index ← takeFrame env
  let _ ← frameAt index
  change fun pool =>
    (pool.setFrame index
      { pageId := some pageId, data := raw, dirty := dirty
      }).assign pageId index

/- A copy of the page, reading it in if necessary. -/
def fetch
    (env : PoolEnv τ ι)
    (pageId : PageId) : FramesM τ ι ι := do
  let (pool, _) ← get
  match pool.indexOf pageId with
  | some index =>
    let frame ← frameAt index
    change fun pool => pool.moveToEnd pageId
    return frame.data
  | none =>
    let raw ← callback (env.readThrough pageId)
    admitPage env pageId raw false
    return raw

/- Copy an image into a frame and mark it dirty. -/
def store
    [Wal.ByteImage ι]
    (env : PoolEnv τ ι)
    (pageId : PageId)
    (raw : ι) : FramesM τ ι Unit := do
  let (pool, _) ← get
  if Wal.byteLength raw ≠ pool.pageSize then
    throw (.valueError
      (s!"page {pageId}: refusing to buffer " ++
        s!"{Wal.byteLength raw} bytes into a " ++
        s!"{pool.pageSize}-byte frame"))
  else
    match pool.indexOf pageId with
    | some index =>
      let frame ← frameAt index
      change fun pool =>
        (pool.setFrame index
          { frame with data := raw, dirty := true
          }).moveToEnd pageId
    | none => admitPage env pageId raw true

/- Forget a page without writing it back. -/
def invalidate (pageId : PageId) : FramesM τ ι Unit := do
  let (pool, _) ← get
  match pool.indexOf pageId with
  | none => return
  | some index =>
    change fun pool => pool.popPage pageId
    let frame ← frameAt index
    change fun pool =>
      { pool.setFrame index
          { frame with pageId := none, dirty := false }
        with free := pool.free ++ [index] }

/- Write back those of the entries whose frame is dirty;
   the number of writes. -/
def flushEntries
    (env : PoolEnv τ ι) :
    List (PageId × Nat) → FramesM τ ι Nat
  | [] => return 0
  | (pageId, index) :: rest => do
      let frame ← frameAt index
      if frame.dirty then
        callback (env.writeThrough pageId frame.data)
        change fun pool => pool.setFrame index
          { frame with dirty := false }
        return (← flushEntries env rest) + 1
      else
        flushEntries env rest

/- Write every dirty frame back. -/
def flush (env : PoolEnv τ ι) : FramesM τ ι Nat := do
  let (pool, _) ← get
  flushEntries env pool.resident

/- Every frame free again. -/
def reset (pool : FramePool ι) : FramePool ι :=
  { pool with
    frames := pool.frames.map fun frame =>
      { frame with pageId := none, dirty := false }
    resident := []
    free := (List.range pool.capacity).reverse }

/- Drop everything, flushing first unless told not to. -/
def clear
    (env : PoolEnv τ ι)
    (flushes : Bool) : FramesM τ ι Unit := do
  if flushes then
    let _ ← flush env
  change reset

end FramePool

--
-- What the Pool Stands For
--

/- What was done to a page, or to the pool. -/
inductive PoolEvent (ι : Type) where
  | fetched (pageId : PageId)
  | stored (pageId : PageId) (raw : ι)
  | wroteBack (pageId : PageId)
  | invalidated (pageId : PageId)
  | cleared

/- The image stored since the page was last written back or
   forgotten. The history is newest first. -/
def pending
    {ι : Type} :
    List (PoolEvent ι) → PageId → Option ι
  | [], _ => none
  | .fetched _ :: rest, pageId => pending rest pageId
  | .stored other raw :: rest, pageId =>
    if other = pageId then some raw else pending rest pageId
  | .wroteBack other :: rest, pageId
  | .invalidated other :: rest, pageId =>
    if other = pageId then none else pending rest pageId
  | .cleared :: _, _ => none

/- The page an event is a use of. -/
def PoolEvent.uses
    {ι : Type} : PoolEvent ι → Option PageId
  | .fetched pageId | .stored pageId _ => some pageId
  | _ => none

/- When the page was last fetched or stored; 0 for never. -/
def lastUse
    {ι : Type} :
    List (PoolEvent ι) → PageId → Nat
  | [], _ => 0
  | event :: rest, pageId =>
    if event.uses = some pageId then rest.length + 1
    else lastUse rest pageId

/-
  What the callbacks do, where `holds` says what the storage
  has for a page. Nothing is said of a callback that raises.
-/
structure PoolEnv.Backs
    {τ ι : Type}
    (env : PoolEnv τ ι)
    (holds : τ → PageId → Option ι) : Prop where
  read : ∀ pageId back raw back',
    (env.readThrough pageId).run back = .ok raw back' →
      holds back pageId = some raw ∧ holds back' = holds back
  write : ∀ pageId raw back back',
    (env.writeThrough pageId raw).run back = .ok () back' →
      holds back' =
        Function.update (holds back) pageId (some raw)

/- The callbacks raise only what `Raised` allows. -/
structure PoolEnv.Raises
    {τ ι : Type}
    (env : PoolEnv τ ι)
    (Raised : EngineError → Prop) : Prop where
  read : ∀ pageId, Triple (fun _ => True)
    (env.readThrough pageId) (fun _ _ => True)
    fun raised _ => Raised raised
  write : ∀ pageId raw, Triple (fun _ => True)
    (env.writeThrough pageId raw) (fun _ _ => True)
    fun raised _ => Raised raised

/- The storage behind the pool and the history so far. -/
abbrev Watched (τ ι : Type) := τ × List (PoolEvent ι)

/- Note an event of the history. -/
def note
    {τ ι : Type}
    (event : PoolEvent ι) :
    EStateM EngineError (Watched τ ι) Unit :=
  modify fun back => (back.1, event :: back.2)

/- The callbacks, every write noted. -/
def PoolEnv.watched
    {τ ι : Type}
    (env : PoolEnv τ ι) : PoolEnv (Watched τ ι) ι where
  readThrough pageId :=
    focus Prod.fst (fun back part => (part, back.2))
      (env.readThrough pageId)
  writeThrough pageId raw := do
    focus Prod.fst (fun back part => (part, back.2))
      (env.writeThrough pageId raw)
    note (.wroteBack pageId)

/- What the pool and the storage stand for together. -/
def content
    {τ ι : Type}
    (holds : τ → PageId → Option ι)
    (back : Watched τ ι)
    (pageId : PageId) : Option ι :=
  (pending back.2 pageId).or (holds back.1 pageId)

/- A call on the pool. -/
inductive PoolCall (ι : Type) where
  | fetch (pageId : PageId)
  | store (pageId : PageId) (raw : ι)
  | flush
  | invalidate (pageId : PageId)
  | clear (flushes : Bool)

namespace FramePool

variable {τ ι : Type} [Wal.ByteImage ι]

/- Make a call, noting it when it returns. -/
def perform
    (env : PoolEnv τ ι) :
    PoolCall ι → FramesM (Watched τ ι) ι Unit
  | .fetch pageId => do
      let _ ← fetch env.watched pageId
      callback (note (.fetched pageId))
  | .store pageId raw => do
      store env.watched pageId raw
      callback (note (.stored pageId raw))
  | .flush => do
      let _ ← flush env.watched
  | .invalidate pageId => do
      invalidate pageId
      callback (note (.invalidated pageId))
  | .clear flushes => do
      clear env.watched flushes
      callback (note .cleared)

/-
  What a sequence of calls reaches. A store of a wrong size
  is refused; a callback that raises ends the sequence.
-/
inductive Reached
    (env : PoolEnv τ ι)
    (pageSize capacity : Nat) :
    FramePool ι × Watched τ ι → Prop where
  | created
      {pool : FramePool ι}
      (back : τ) :
      create pageSize capacity = .ok pool →
      Reached env pageSize capacity (pool, back, [])
  | called
      {state state' : FramePool ι × Watched τ ι}
      (call : PoolCall ι) :
      Reached env pageSize capacity state →
      (perform env call).run state = .ok () state' →
      Reached env pageSize capacity state'
  | refused
      {state state' : FramePool ι × Watched τ ι}
      (pageId : PageId)
      {raw : ι}
      {raised : EngineError} :
      Reached env pageSize capacity state →
      Wal.byteLength raw ≠ state.1.pageSize →
      (perform env (.store pageId raw)).run state =
        .error raised state' →
      Reached env pageSize capacity state'

/- What a frame holds for its page. -/
def Backed
    (holds : τ → PageId → Option ι)
    (back : Watched τ ι)
    (pageId : PageId)
    (frame : PoolFrame ι) : Prop :=
  if frame.dirty then
    pending back.2 pageId = some frame.data
  else
    pending back.2 pageId = none ∧
      holds back.1 pageId = some frame.data

/-
  The pool is a cache of what it stands for. `spare` are the
  frames an eviction has just given its caller.
-/
structure Caches
    (holds : τ → PageId → Option ι)
    (spare : List Nat)
    (pool : FramePool ι)
    (back : Watched τ ι) : Prop where
  length : pool.frames.length = pool.capacity
  room : 0 < pool.capacity
  parts : (spare ++ pool.free ++
    pool.resident.map Prod.snd).Perm
      (List.range pool.capacity)
  distinct : pool.pages.Nodup
  named : ∀ entry ∈ pool.resident, ∃ frame,
    pool.frames[entry.2]? = some frame ∧
      frame.pageId = some entry.1 ∧
      Backed holds back entry.1 frame
  others : ∀ pageId, pageId ∉ pool.pages →
    pending back.2 pageId = none
  recent : pool.pages.Pairwise fun older newer =>
    lastUse back.2 older < lastUse back.2 newer

end FramePool

--
-- The History
--

section History

variable {τ ι : Type} {holds : τ → PageId → Option ι}

variable {event : PoolEvent ι} {pageId : PageId}

theorem pending_of_uses
    {other : PageId}
    (hUses : event.uses = some pageId)
    (hOther : other ≠ pageId)
    (history : List (PoolEvent ι)) :
    pending (event :: history) other =
      pending history other := by
  cases event with
  | fetched used => rfl
  | stored used raw =>
    have hSame : used = pageId := Option.some.inj hUses
    simp [pending, hSame, hOther.symm]
  | wroteBack used => cases hUses
  | invalidated used => cases hUses
  | cleared => cases hUses

theorem lastUse_le
    (history : List (PoolEvent ι))
    (pageId : PageId) :
    lastUse history pageId ≤ history.length := by
  induction history with
  | nil => exact Nat.le_refl 0
  | cons event rest ih =>
    unfold lastUse
    split
    · exact Nat.le_refl _
    · exact Nat.le_succ_of_le ih

theorem lastUse_of_uses
    (hUses : event.uses = some pageId)
    (history : List (PoolEvent ι))
    (other : PageId) :
    lastUse (event :: history) other =
      if other = pageId then history.length + 1
      else lastUse history other := by
  rw [lastUse, hUses]
  simp only [Option.some.injEq, eq_comm]

theorem lastUse_of_none
    (hUses : event.uses = none)
    (history : List (PoolEvent ι)) :
    lastUse (event :: history) = lastUse history := by
  funext pageId
  simp [lastUse, hUses]

variable {back : Watched τ ι}

theorem FramePool.Backed.content
    {frame : PoolFrame ι}
    (hBacked : FramePool.Backed holds back pageId frame) :
    content holds back pageId = some frame.data := by
  unfold FramePool.Backed at hBacked
  unfold Storage.content
  split at hBacked
  · rw [hBacked, Option.some_or]
  · rw [hBacked.1, Option.none_or, hBacked.2]

variable {back' : Watched τ ι}

/- Only what is pending and held for the page matters. -/
theorem FramePool.Backed.frame
    {frame : PoolFrame ι}
    (hBacked : FramePool.Backed holds back pageId frame)
    (hPending :
      pending back'.2 pageId = pending back.2 pageId)
    (hHolds : holds back'.1 pageId = holds back.1 pageId) :
    FramePool.Backed holds back' pageId frame := by
  unfold FramePool.Backed at hBacked ⊢
  rw [hPending, hHolds]
  exact hBacked

/- A page's image moved from the overlay to the storage. -/
theorem content_wroteBack
    {raw : ι}
    (hContent : content holds back pageId = some raw)
    (hHolds : holds back'.1 =
      Function.update (holds back.1) pageId (some raw))
    (hNoted : back'.2 = .wroteBack pageId :: back.2) :
    content holds back' = content holds back := by
  funext other
  by_cases hOther : other = pageId
  · rw [hOther, hContent]
    unfold content
    simp [hNoted, hHolds, pending]
  · unfold content
    have hApart : pageId ≠ other := fun h => hOther h.symm
    simp [hNoted, hHolds, pending, hOther, hApart]

end History

namespace FramePool

variable {τ ι : Type}

variable {state state' : FramePool ι × τ}

theorem callback_ok
    {α : Type}
    {program : EStateM EngineError τ α}
    {value : α}
    (hOk : (callback program).run state = .ok value state') :
    state'.1 = state.1 ∧
      program.run state.2 = .ok value state'.2 := by
  unfold callback at hOk
  rw [run_focus] at hOk
  cases hRun : program.run state.2 with
  | ok result back =>
    rw [hRun] at hOk
    cases hOk
    exact ⟨rfl, rfl⟩
  | error raised back =>
    rw [hRun] at hOk
    cases hOk

theorem frameAt_ok
    {index : Nat}
    {frame : PoolFrame ι}
    (hOk : (frameAt index).run state = .ok frame state') :
    state' = state ∧
      state.1.frames[index]? = some frame := by
  unfold frameAt at hOk
  rw [EStateM.run_bind, EStateM.run_get] at hOk
  cases hFrame : state.1.frames[index]? with
  | none =>
    simp only [hFrame] at hOk
    cases hOk
  | some held =>
    simp only [hFrame] at hOk
    cases hOk
    exact ⟨rfl, rfl⟩

section Env

variable {env : PoolEnv τ ι} {holds : τ → PageId → Option ι}

variable {raw : ι}

theorem watched_read
    (hBacks : env.Backs holds)
    {pageId : PageId}
    {back back' : Watched τ ι}
    (hOk : (env.watched.readThrough pageId).run back =
      .ok raw back') :
    holds back.1 pageId = some raw ∧
      holds back'.1 = holds back.1 ∧ back'.2 = back.2 := by
  unfold PoolEnv.watched at hOk
  simp only [run_focus] at hOk
  cases hRun : (env.readThrough pageId).run back.1 with
  | ok value part =>
    rw [hRun] at hOk
    cases hOk
    rcases hBacks.read _ _ _ _ hRun with ⟨hHeld, hSame⟩
    exact ⟨hHeld, hSame, rfl⟩
  | error raised part =>
    rw [hRun] at hOk
    cases hOk

theorem watched_write
    (hBacks : env.Backs holds)
    {pageId : PageId}
    {back back' : Watched τ ι}
    (hOk : (env.watched.writeThrough pageId raw).run back =
      .ok () back') :
    holds back'.1 =
        Function.update (holds back.1) pageId (some raw) ∧
      back'.2 = .wroteBack pageId :: back.2 := by
  unfold PoolEnv.watched at hOk
  rcases ok_of_run_bind hOk with ⟨value, middle, hWrite, hNote⟩
  rw [run_focus] at hWrite
  cases hRun : (env.writeThrough pageId raw).run back.1 with
  | ok value part =>
    rw [hRun] at hWrite
    cases hWrite
    cases hNote
    exact ⟨hBacks.write _ _ _ _ hRun, rfl⟩
  | error raised part =>
    rw [hRun] at hWrite
    cases hWrite

end Env

--
-- The Resident Map
--

/- The one entry of a key. -/
theorem filter_key
    {entries : List (PageId × Nat)}
    (hDistinct : (entries.map Prod.fst).Nodup)
    {pageId : PageId}
    {index : Nat}
    (hMem : (pageId, index) ∈ entries) :
    (entries.filter fun entry => entry.1 = pageId) =
      [(pageId, index)] := by
  induction entries with
  | nil => cases hMem
  | cons entry rest ih =>
    rw [List.map_cons, List.nodup_cons] at hDistinct
    rcases hDistinct with ⟨hNew, hRest⟩
    rcases List.mem_cons.mp hMem with hHere | hLater
    · subst hHere
      have hNone : (rest.filter fun entry =>
          entry.1 = pageId) = [] := by
        rw [List.filter_eq_nil_iff]
        intro other hOther hSame
        exact hNew (List.mem_map.mpr
          ⟨other, hOther, of_decide_eq_true hSame⟩)
      simp [hNone]
    · have hApart : entry.1 ≠ pageId := by
        intro hSame
        apply hNew
        rw [hSame]
        exact List.mem_map.mpr ⟨_, hLater, rfl⟩
      simp [hApart, ih hRest hLater]

variable {pool : FramePool ι} {pageId : PageId} {index : Nat}

theorem mem_of_indexOf
    (hIndex : pool.indexOf pageId = some index) :
    (pageId, index) ∈ pool.resident := by
  unfold indexOf at hIndex
  rw [Option.map_eq_some_iff] at hIndex
  rcases hIndex with ⟨entry, hEntry, hSnd⟩
  have hFst : entry.1 = pageId := by
    simpa using List.find?_some hEntry
  rw [← hFst, ← hSnd]
  exact List.mem_of_find?_eq_some hEntry

theorem not_mem_of_indexOf
    (hNone : pool.indexOf pageId = none) :
    pageId ∉ pool.pages := by
  intro hMem
  rcases List.mem_map.mp hMem with ⟨entry, hEntry, hFst⟩
  unfold indexOf at hNone
  rw [Option.map_eq_none_iff, List.find?_eq_none] at hNone
  exact hNone entry hEntry (by simp [hFst])

theorem popPage_pages :
    (pool.popPage pageId).pages =
      pool.pages.filter fun held => held ≠ pageId := by
  unfold popPage pages
  rw [List.filter_map]
  rfl

/- The entries of the others, then the page's own. -/
theorem resident_perm
    (hDistinct : pool.pages.Nodup)
    (hIndex : pool.indexOf pageId = some index) :
    pool.resident.Perm
      ((pool.popPage pageId).resident ++
        [(pageId, index)]) := by
  have hOwn := filter_key hDistinct (mem_of_indexOf hIndex)
  rw [← hOwn]
  have hSplit := List.filter_append_perm
    (fun entry : PageId × Nat => !decide (entry.1 = pageId))
    pool.resident
  simp only [Bool.not_not] at hSplit
  unfold popPage
  simp only [ne_eq, decide_not]
  exact hSplit.symm

theorem moveToEnd_resident
    (hDistinct : pool.pages.Nodup)
    (hIndex : pool.indexOf pageId = some index) :
    (pool.moveToEnd pageId).resident =
      (pool.popPage pageId).resident ++
        [(pageId, index)] := by
  unfold moveToEnd
  rw [filter_key hDistinct (mem_of_indexOf hIndex)]
  rfl

theorem assign_resident
    (hAbsent : pageId ∉ pool.pages) :
    (pool.assign pageId index).resident =
      pool.resident ++ [(pageId, index)] := by
  unfold assign
  rw [if_neg hAbsent]

--
-- What Each Call Keeps
--

variable {holds : τ → PageId → Option ι}
variable {back back' : Watched τ ι} {spare : List Nat}

/- Only what is held, what is pending and when each page was
   used matter. -/
theorem Caches.same
    (hCaches : Caches holds spare pool back)
    (hHolds : holds back'.1 = holds back.1)
    (hPending : pending back'.2 = pending back.2)
    (hLast : lastUse back'.2 = lastUse back.2) :
    Caches holds spare pool back' where
  length := hCaches.length
  room := hCaches.room
  parts := hCaches.parts
  distinct := hCaches.distinct
  named := by
    intro entry hEntry
    rcases hCaches.named entry hEntry with
      ⟨frame, hFrame, hName, hBacked⟩
    exact ⟨frame, hFrame, hName,
      hBacked.frame (by rw [hPending]) (by rw [hHolds])⟩
  others := by
    rw [hPending]
    exact hCaches.others
  recent := by
    rw [hLast]
    exact hCaches.recent

/- No frame serves two purposes. -/
theorem Caches.nodup
    (hCaches : Caches holds spare pool back) :
    (spare ++ pool.free ++
      pool.resident.map Prod.snd).Nodup :=
  hCaches.parts.nodup_iff.mpr List.nodup_range

theorem Caches.lt_of_mem
    (hCaches : Caches holds spare pool back)
    {used : Nat}
    (hMem : used ∈ spare ++ pool.free ++
      pool.resident.map Prod.snd) :
    used < pool.frames.length := by
  rw [hCaches.length]
  exact List.mem_range.mp (hCaches.parts.mem_iff.mp hMem)

variable {event : PoolEvent ι} {pool' : FramePool ι}

/-
  A page used: its entry goes to the end of the map, its
  frame as the event leaves it. The page may be new to the
  map, when its frame is the spare one.
-/
theorem Caches.used
    (hCaches : Caches holds spare pool back)
    (index : Nat)
    (others : List (PageId × Nat))
    {frame : PoolFrame ι}
    (hUses : event.uses = some pageId)
    (hParts : (spare ++ pool.resident.map Prod.snd).Perm
      ((others ++ [(pageId, index)]).map Prod.snd))
    (hOthers : others.Sublist pool.resident)
    (hKept : ∀ held, held ≠ pageId → held ∈ pool.pages →
      held ∈ others.map Prod.fst)
    (hApart : pageId ∉ others.map Prod.fst)
    (hFrame : frame.pageId = some pageId)
    (hBacked : Backed holds (back.1, event :: back.2)
      pageId frame)
    (hPool : pool' = { pool with
      frames := pool.frames.set index frame
      resident := others ++ [(pageId, index)] }) :
    Caches holds [] pool' (back.1, event :: back.2) := by
  have hPages : pool'.pages =
      others.map Prod.fst ++ [pageId] := by
    rw [hPool]
    exact List.map_append
  have hMoved : (spare ++ pool.free ++
      pool.resident.map Prod.snd).Perm
      (pool.free ++ (others ++
        [(pageId, index)]).map Prod.snd) := by
    rw [List.append_assoc]
    refine (List.perm_append_comm_assoc _ _ _).trans ?_
    exact hParts.append_left _
  have hDistinct : (pool.free ++ (others ++
      [(pageId, index)]).map Prod.snd).Nodup :=
    hMoved.nodup_iff.mp hCaches.nodup
  have hOlder : (others.map Prod.fst).Sublist pool.pages :=
    hOthers.map Prod.fst
  have hLength : index < pool.frames.length := by
    apply hCaches.lt_of_mem
    apply hMoved.mem_iff.mpr
    simp
  constructor
  case length =>
    rw [hPool]
    exact (List.length_set ..).trans hCaches.length
  case room =>
    rw [hPool]
    exact hCaches.room
  case parts =>
    rw [hPool]
    exact hMoved.symm.trans hCaches.parts
  case distinct =>
    rw [hPages]
    apply List.Nodup.append
      (hCaches.distinct.sublist hOlder)
      (List.nodup_singleton _)
    intro held hHeld hNew
    rw [List.mem_singleton.mp hNew] at hHeld
    exact hApart hHeld
  case named =>
    intro entry hEntry
    rw [hPool] at hEntry ⊢
    rcases List.mem_append.mp hEntry with hOld | hNew
    · have hNe : index ≠ entry.2 := by
        rw [List.map_append, ← List.append_assoc] at hDistinct
        intro hSame
        apply (List.nodup_append'.mp hDistinct).2.2
          (List.mem_append_right _
            (List.mem_map_of_mem hOld))
        rw [← hSame]
        simp
      have hOther : entry.1 ≠ pageId := by
        intro hSame
        apply hApart
        rw [← hSame]
        exact List.mem_map_of_mem hOld
      rcases hCaches.named entry (hOthers.subset hOld) with
        ⟨held, hHeld, hName, hOldBacked⟩
      refine ⟨held, ?_, hName, hOldBacked.frame
        (pending_of_uses hUses hOther _) rfl⟩
      exact (List.getElem?_set_ne hNe).trans hHeld
    · rw [List.mem_singleton.mp hNew]
      exact ⟨frame, List.getElem?_set_self hLength, hFrame,
        hBacked⟩
  case others =>
    intro held hHeld
    rw [hPages, List.mem_append, List.mem_singleton,
      not_or] at hHeld
    refine (pending_of_uses hUses hHeld.2 _).trans ?_
    apply hCaches.others
    intro hMem
    exact hHeld.1 (hKept held hHeld.2 hMem)
  case recent =>
    rw [hPages, List.pairwise_append]
    have hSame : ∀ held ∈ others.map Prod.fst,
        lastUse (event :: back.2) held =
          lastUse back.2 held := by
      intro held hHeld
      rw [lastUse_of_uses hUses, if_neg]
      intro hSame
      exact hApart (hSame ▸ hHeld)
    refine ⟨?_, List.pairwise_singleton _ _, ?_⟩
    · refine (hCaches.recent.sublist hOlder).imp_of_mem ?_
      intro older newer hOlder hNewer hBefore
      rw [hSame older hOlder, hSame newer hNewer]
      exact hBefore
    · intro older hOlder newer hNewer
      rw [List.mem_singleton.mp hNewer, hSame older hOlder,
        lastUse_of_uses hUses, if_pos rfl]
      exact Nat.lt_succ_of_le (lastUse_le _ _)

/- A resident page let go of; its frame is in hand. -/
theorem Caches.released
    (hCaches : Caches holds [] pool back)
    {others : List (PageId × Nat)}
    {frame : PoolFrame ι}
    (hResident : pool.resident.Perm
      (others ++ [(pageId, index)]))
    (hOthers : others.Sublist pool.resident)
    (hLast : lastUse back'.2 = lastUse back.2)
    (hPending : pending back'.2 pageId = none)
    (hSame : ∀ held, held ≠ pageId →
      pending back'.2 held = pending back.2 held ∧
        holds back'.1 held = holds back.1 held) :
    Caches holds [index]
      { pool with
        frames := pool.frames.set index frame
        resident := others } back' := by
  have hIndices : (pool.resident.map Prod.snd).Perm
      (index :: others.map Prod.snd) := by
    refine (hResident.map Prod.snd).trans ?_
    rw [List.map_append]
    exact List.perm_append_singleton _ _
  have hKeys : (others.map Prod.fst ++ [pageId]).Nodup := by
    have hPerm := hResident.map Prod.fst
    rw [List.map_append] at hPerm
    exact hPerm.nodup_iff.mp hCaches.distinct
  have hApart : pageId ∉ others.map Prod.fst := by
    intro hMem
    exact (List.nodup_append'.mp hKeys).2.2 hMem
      (List.mem_singleton_self _)
  have hParts : ([] ++ pool.free ++
      pool.resident.map Prod.snd).Perm
      ([index] ++ pool.free ++ others.map Prod.snd) := by
    rw [List.nil_append, List.append_assoc]
    refine (hIndices.append_left _).trans ?_
    exact List.perm_middle
  constructor
  case length =>
    exact (List.length_set ..).trans hCaches.length
  case room => exact hCaches.room
  case parts =>
    exact hParts.symm.trans hCaches.parts
  case distinct =>
    exact hCaches.distinct.sublist (hOthers.map _)
  case named =>
    intro entry hEntry
    have hNe : index ≠ entry.2 := by
      intro hIndex
      have hNodup := hParts.nodup_iff.mp hCaches.nodup
      rw [List.append_assoc] at hNodup
      apply (List.nodup_append'.mp hNodup).2.2
        (List.mem_singleton_self _)
      rw [hIndex]
      exact List.mem_append_right _
        (List.mem_map_of_mem hEntry)
    have hOther : entry.1 ≠ pageId := by
      intro hKey
      exact hApart (hKey ▸ List.mem_map_of_mem hEntry)
    rcases hCaches.named entry (hOthers.subset hEntry) with
      ⟨held, hHeld, hName, hBacked⟩
    exact ⟨held, (List.getElem?_set_ne hNe).trans hHeld,
      hName, hBacked.frame (hSame _ hOther).1
        (hSame _ hOther).2⟩
  case others =>
    intro held hHeld
    by_cases hPage : held = pageId
    · rw [hPage]
      exact hPending
    · refine (hSame held hPage).1.trans ?_
      apply hCaches.others
      intro hMem
      have hMoved := (hResident.map Prod.fst).mem_iff.mp hMem
      rw [List.map_append, List.mem_append] at hMoved
      rcases hMoved with hOld | hNew
      · exact hHeld hOld
      · exact hPage (List.mem_singleton.mp hNew)
  case recent =>
    rw [hLast]
    exact hCaches.recent.sublist (hOthers.map _)

variable {env : PoolEnv τ ι}

/- The least recently used page leaves, and only it. -/
theorem evict_spec
    (hBacks : env.Backs holds)
    (hCaches : Caches holds [] pool back)
    (hOk : (evict env.watched).run (pool, back) =
      .ok index (pool', back')) :
    Caches holds [index] pool' back' ∧
      content holds back' = content holds back ∧
      lastUse back'.2 = lastUse back.2 ∧
      pool'.pageSize = pool.pageSize ∧
      ∃ victim, pool.pages = victim :: pool'.pages := by
  unfold evict at hOk
  rw [EStateM.run_bind, EStateM.run_get] at hOk
  cases hResident : pool.resident with
  | nil =>
    simp only [hResident] at hOk
    cases hOk
  | cons entry rest =>
    rcases entry with ⟨victim, held⟩
    simp only [hResident] at hOk
    rcases ok_of_run_bind hOk with ⟨_, _, hPop, hOk⟩
    cases hPop
    rcases ok_of_run_bind hOk with ⟨frame, _, hRead, hOk⟩
    rcases frameAt_ok hRead with ⟨rfl, hFrame⟩
    have hHead : (victim, held) ∈ pool.resident := by
      rw [hResident]
      exact .head _
    rcases hCaches.named _ hHead with
      ⟨named, hNamed, -, hBacked⟩
    cases Option.some.inj (hFrame.symm.trans hNamed)
    have hPages : pool.pages =
        victim :: rest.map Prod.fst := by
      unfold pages
      rw [hResident]
      rfl
    have hPerm : pool.resident.Perm
        (rest ++ [(victim, held)]) := by
      rw [hResident]
      exact (List.perm_append_singleton _ _).symm
    have hRest : rest.Sublist pool.resident := by
      rw [hResident]
      exact List.sublist_cons_self _ _
    by_cases hDirty : frame.dirty = true
    · simp only [hDirty, if_true] at hOk
      rcases ok_of_run_bind hOk with ⟨_, middle, hWrite, hOk⟩
      rcases callback_ok hWrite with ⟨hPool, hWrite⟩
      rcases watched_write hBacks hWrite with ⟨hHolds, hNoted⟩
      rcases middle with ⟨_, written⟩
      cases hPool
      cases hOk
      have hLast : lastUse written.2 = lastUse back.2 :=
        (congrArg lastUse hNoted).trans
          (lastUse_of_none rfl _)
      refine ⟨hCaches.released hPerm hRest hLast ?_ ?_,
        content_wroteBack hBacked.content hHolds hNoted,
        hLast, rfl, victim, hPages⟩
      · rw [hNoted]
        simp [pending]
      · intro other hOther
        rw [hNoted, hHolds, Function.update_of_ne hOther]
        exact ⟨by simp [pending, hOther.symm], rfl⟩
    · simp only [hDirty] at hOk
      cases hOk
      unfold Backed at hBacked
      rw [if_neg hDirty] at hBacked
      exact ⟨hCaches.released hPerm hRest rfl hBacked.1
        fun _ _ => ⟨rfl, rfl⟩, rfl, rfl, rfl, victim,
        hPages⟩

/- A frame taken, and at most one page given up for it. -/
theorem takeFrame_spec
    (hBacks : env.Backs holds)
    (hCaches : Caches holds [] pool back)
    (hOk : (takeFrame env.watched).run (pool, back) =
      .ok index (pool', back')) :
    Caches holds [index] pool' back' ∧
      content holds back' = content holds back ∧
      lastUse back'.2 = lastUse back.2 ∧
      pool'.pageSize = pool.pageSize ∧
      (pool.pages = pool'.pages ∨
        ∃ victim, pool.pages = victim :: pool'.pages) := by
  unfold takeFrame at hOk
  rw [EStateM.run_bind, EStateM.run_get] at hOk
  cases hFree : pool.free.getLast? with
  | none =>
    simp only [hFree] at hOk
    rcases evict_spec hBacks hCaches hOk with
      ⟨hTaken, hContent, hLast, hSize, hVictim⟩
    exact ⟨hTaken, hContent, hLast, hSize, .inr hVictim⟩
  | some last =>
    simp only [hFree] at hOk
    cases hOk
    have hSplit : pool.free.dropLast ++ [index] =
        pool.free :=
      List.dropLast_append_getLast? index hFree
    refine ⟨⟨hCaches.length, hCaches.room, ?_,
      hCaches.distinct,
      hCaches.named, hCaches.others, hCaches.recent⟩,
      rfl, rfl, rfl, .inl rfl⟩
    refine List.Perm.trans ?_ hCaches.parts
    rw [List.nil_append, ← hSplit]
    exact (List.perm_append_singleton _ _).symm.append_right
      _

/- The page was used before every other resident one. -/
def Oldest
    (history : List (PoolEvent ι))
    (pool : FramePool ι)
    (pageId : PageId) : Prop :=
  ∀ other ∈ pool.pages, other ≠ pageId →
    lastUse history pageId < lastUse history other

/- Every page the pool no longer has was the oldest. -/
def EvictsOldest
    (history : List (PoolEvent ι))
    (pool pool' : FramePool ι) : Prop :=
  ∀ victim ∈ pool.pages, victim ∉ pool'.pages →
    Oldest history pool victim

theorem Caches.oldest
    (hCaches : Caches holds spare pool back)
    {victim : PageId}
    {rest : List PageId}
    (hPages : pool.pages = victim :: rest) :
    Oldest back.2 pool victim := by
  intro other hOther hNe
  have hRecent := hCaches.recent
  rw [hPages, List.pairwise_cons] at hRecent
  rw [hPages] at hOther
  rcases List.mem_cons.mp hOther with hSame | hLater
  · exact absurd hSame hNe
  · exact hRecent.1 other hLater

theorem moveToEnd_pages
    (hDistinct : pool.pages.Nodup)
    (hIndex : pool.indexOf pageId = some index) :
    (pool.moveToEnd pageId).pages.Perm pool.pages := by
  unfold pages
  rw [moveToEnd_resident hDistinct hIndex]
  exact (resident_perm hDistinct hIndex).symm.map _

/- A resident page used, its frame as the event leaves it. -/
theorem Caches.touched
    (hCaches : Caches holds [] pool back)
    (hIndex : pool.indexOf pageId = some index)
    {frame : PoolFrame ι}
    (hUses : event.uses = some pageId)
    (hFrame : frame.pageId = some pageId)
    (hBacked : Backed holds (back.1, event :: back.2)
      pageId frame) :
    Caches holds []
      ((pool.setFrame index frame).moveToEnd pageId)
      (back.1, event :: back.2) := by
  have hMoved := resident_perm hCaches.distinct hIndex
  refine hCaches.used index
    (pool.popPage pageId).resident hUses ?_
    List.filter_sublist ?_ ?_ hFrame hBacked ?_
  · exact hMoved.map Prod.snd
  · intro held hNe hHeld
    change held ∈ (pool.popPage pageId).pages
    rw [popPage_pages]
    exact List.mem_filter.mpr ⟨hHeld, by simpa using hNe⟩
  · intro hMem
    change pageId ∈ (pool.popPage pageId).pages at hMem
    rw [popPage_pages] at hMem
    simpa using (List.mem_filter.mp hMem).2
  · have hEnd : ((pool.setFrame index frame).moveToEnd
        pageId).resident =
        (pool.popPage pageId).resident ++
          [(pageId, index)] :=
      moveToEnd_resident hCaches.distinct hIndex
    change FramePool.mk pool.pageSize pool.capacity
      (pool.frames.set index frame) pool.free
      ((pool.setFrame index frame).moveToEnd
        pageId).resident = _
    rw [hEnd]

/- The frame of a resident page. -/
theorem Caches.frame
    (hCaches : Caches holds spare pool back)
    (hIndex : pool.indexOf pageId = some index)
    {frame : PoolFrame ι}
    (hFrame : pool.frames[index]? = some frame) :
    frame.pageId = some pageId ∧
      Backed holds back pageId frame := by
  rcases hCaches.named _ (mem_of_indexOf hIndex) with
    ⟨held, hHeld, hName, hBacked⟩
  cases Option.some.inj (hFrame.symm.trans hHeld)
  exact ⟨hName, hBacked⟩

variable {raw : ι}

/-
  A page that is not resident takes a frame. What it is
  backed by may be checked once the eviction is over.
-/
theorem admitPage_spec
    (hBacks : env.Backs holds)
    (hCaches : Caches holds [] pool back)
    (hAbsent : pageId ∉ pool.pages)
    {dirty : Bool}
    (hUses : event.uses = some pageId)
    (hBacked : ∀ taken : Watched τ ι,
      pending taken.2 pageId = none →
      content holds taken = content holds back →
      Backed holds (taken.1, event :: taken.2) pageId
        { pageId := some pageId, data := raw, dirty := dirty })
    {pool' : FramePool ι}
    (hOk : (admitPage env.watched pageId raw dirty).run
      (pool, back) = .ok () (pool', back')) :
    Caches holds [] pool' (back'.1, event :: back'.2) ∧
      content holds back' = content holds back ∧
      pool'.pageSize = pool.pageSize ∧
      EvictsOldest back.2 pool pool' := by
  unfold admitPage at hOk
  rcases ok_of_run_bind hOk with
    ⟨index, ⟨taken, taken'⟩, hTake, hOk⟩
  rcases takeFrame_spec hBacks hCaches hTake with
    ⟨hTaken, hContent, -, hSize, hLeft⟩
  rcases ok_of_run_bind hOk with ⟨old, _, hRead, hOk⟩
  rcases frameAt_ok hRead with ⟨rfl, -⟩
  cases hOk
  have hStill : pageId ∉ taken.pages := by
    intro hMem
    apply hAbsent
    rcases hLeft with hSame | ⟨victim, hVictim⟩
    · rw [hSame]
      exact hMem
    · rw [hVictim]
      exact .tail _ hMem
  have hResident : ((taken.setFrame index
      { pageId := some pageId, data := raw, dirty := dirty
      }).assign pageId index).resident =
      taken.resident ++ [(pageId, index)] :=
    assign_resident hStill
  refine ⟨?_, hContent, hSize, ?_⟩
  · refine hTaken.used index taken.resident hUses ?_
      (List.Sublist.refl _) (fun _ _ hHeld => hHeld) hStill
      rfl (hBacked taken' (hTaken.others pageId hStill)
        hContent) ?_
    · rw [List.map_append]
      exact (List.perm_append_singleton _ _).symm
    · change FramePool.mk taken.pageSize taken.capacity
        (taken.frames.set index _) taken.free
        ((taken.setFrame index _).assign pageId
          index).resident = _
      rw [hResident]
  · intro victim hVictim hGone
    have hPages : ((taken.setFrame index
        { pageId := some pageId, data := raw,
          dirty := dirty }).assign pageId index).pages =
        taken.pages ++ [pageId] := by
      unfold pages
      rw [hResident, List.map_append]
      rfl
    rcases hLeft with hSame | ⟨gone, hHead⟩
    · apply absurd _ hGone
      rw [hPages, ← hSame]
      exact List.mem_append_left _ hVictim
    · have hOldest := hCaches.oldest hHead
      rw [hHead] at hVictim
      rcases List.mem_cons.mp hVictim with hIs | hKept
      · rw [hIs]
        exact hOldest
      · apply absurd _ hGone
        rw [hPages]
        exact List.mem_append_left _ hKept

/- A fetch returns what the pool stands for. -/
theorem fetch_spec
    (hBacks : env.Backs holds)
    (hCaches : Caches holds [] pool back)
    (hOk : (fetch env.watched pageId).run (pool, back) =
      .ok raw (pool', back')) :
    content holds back pageId = some raw ∧
      Caches holds [] pool'
        (back'.1, .fetched pageId :: back'.2) ∧
      content holds back' = content holds back ∧
      pool'.pageSize = pool.pageSize ∧
      EvictsOldest back.2 pool pool' := by
  unfold fetch at hOk
  rw [EStateM.run_bind, EStateM.run_get] at hOk
  cases hIndex : pool.indexOf pageId with
  | some index =>
    simp only [hIndex] at hOk
    rcases ok_of_run_bind hOk with ⟨frame, _, hRead, hOk⟩
    rcases frameAt_ok hRead with ⟨rfl, hFrame⟩
    cases hOk
    rcases hCaches.frame hIndex hFrame with ⟨hName, hBacked⟩
    have hTouched : Caches holds []
        ((pool.setFrame index frame).moveToEnd pageId)
        (back.1, .fetched pageId :: back.2) :=
      hCaches.touched hIndex rfl hName
        (hBacked.frame rfl rfl)
    have hSame : pool.setFrame index frame = pool := by
      unfold setFrame
      rcases List.getElem?_eq_some_iff.mp hFrame with ⟨hLt, hAt⟩
      rw [← hAt, List.set_getElem_self]
    rw [hSame] at hTouched
    refine ⟨hBacked.content, hTouched, rfl, rfl, ?_⟩
    intro victim hVictim hGone
    apply absurd _ hGone
    exact (moveToEnd_pages hCaches.distinct
      hIndex).mem_iff.mpr hVictim
  | none =>
    simp only [hIndex] at hOk
    have hAbsent := not_mem_of_indexOf hIndex
    rcases ok_of_run_bind hOk with
      ⟨read, ⟨_, middle⟩, hRead, hOk⟩
    rcases callback_ok hRead with ⟨hPool, hRead⟩
    rcases watched_read hBacks hRead with
      ⟨hHeld, hHolds, hNoted⟩
    cases hPool
    have hSame : content holds middle =
        content holds back := by
      unfold content
      rw [hHolds, hNoted]
    rcases ok_of_run_bind hOk with ⟨_, _, hAdmit, hOk⟩
    cases hOk
    have hNone := hCaches.others pageId hAbsent
    have hContent :
        content holds back pageId = some raw := by
      unfold content
      rw [hNone, Option.none_or, hHeld]
    rcases admitPage_spec hBacks
      (hCaches.same hHolds (congrArg pending hNoted)
        (congrArg lastUse hNoted)) hAbsent
      (PoolEvent.uses.eq_1 pageId)
      (fun taken hPending hTaken => by
        rw [hSame] at hTaken
        unfold Backed
        refine ⟨hPending, ?_⟩
        have hPage := congrFun hTaken pageId
        rw [hContent] at hPage
        unfold content at hPage
        rw [hPending, Option.none_or] at hPage
        exact hPage) hAdmit with
      ⟨hAdmitted, hKept, hSize, hEvicts⟩
    rw [hNoted] at hEvicts
    exact ⟨hContent, hAdmitted, hKept.trans hSame, hSize,
      hEvicts⟩

section Store

variable [Wal.ByteImage ι]

variable {raw : ι}

/- An image of the wrong size changes nothing. -/
theorem store_refused
    (hSize : Wal.byteLength raw ≠ pool.pageSize)
    {raised : EngineError}
    {state' : FramePool ι × Watched τ ι}
    (hError : (perform env (.store pageId raw)).run
      (pool, back) = .error raised state') :
    state' = (pool, back) := by
  unfold perform store at hError
  simp only [EStateM.run_bind, EStateM.run_get] at hError
  rw [if_pos hSize] at hError
  cases hError
  rfl

theorem store_spec
    (hBacks : env.Backs holds)
    (hCaches : Caches holds [] pool back)
    {pool' : FramePool ι}
    (hOk : (store env.watched pageId raw).run
      (pool, back) = .ok () (pool', back')) :
    Caches holds [] pool'
        (back'.1, .stored pageId raw :: back'.2) ∧
      content holds back' = content holds back ∧
      pool'.pageSize = pool.pageSize ∧
      EvictsOldest back.2 pool pool' := by
  have hPending : ∀ taken : Watched τ ι,
      pending (.stored pageId raw :: taken.2) pageId =
        some raw := by
    intro taken
    simp [pending]
  unfold store at hOk
  rw [EStateM.run_bind, EStateM.run_get] at hOk
  by_cases hSize : Wal.byteLength raw ≠ pool.pageSize
  · simp only [if_pos hSize] at hOk
    cases hOk
  simp only [if_neg hSize] at hOk
  cases hIndex : pool.indexOf pageId with
  | some index =>
    simp only [hIndex] at hOk
    rcases ok_of_run_bind hOk with ⟨frame, _, hRead, hOk⟩
    rcases frameAt_ok hRead with ⟨rfl, hFrame⟩
    cases hOk
    rcases hCaches.frame hIndex hFrame with ⟨hName, -⟩
    refine ⟨hCaches.touched hIndex rfl hName
      (hPending back), rfl, rfl, ?_⟩
    intro victim hVictim hGone
    apply absurd _ hGone
    have hMoved : ((pool.setFrame index
        { frame with data := raw, dirty := true
        }).moveToEnd pageId).pages.Perm pool.pages :=
      moveToEnd_pages hCaches.distinct hIndex
    exact hMoved.mem_iff.mpr hVictim
  | none =>
    simp only [hIndex] at hOk
    have hStored : ∀ taken : Watched τ ι,
        Backed holds (taken.1, .stored pageId raw ::
          taken.2) pageId
          { pageId := some pageId, data := raw,
            dirty := true } :=
      fun taken => hPending taken
    exact admitPage_spec hBacks hCaches
      (not_mem_of_indexOf hIndex)
      (PoolEvent.uses.eq_2 pageId raw)
      (fun taken _ _ => hStored taken) hOk

end Store

/- A page forgotten stands for what the storage has. -/
theorem invalidate_spec
    (hCaches : Caches holds [] pool back)
    (hOk : (invalidate pageId).run (pool, back) =
      .ok () (pool', back')) :
    back' = back ∧ pool'.pageSize = pool.pageSize ∧
      Caches holds [] pool'
        (back.1, .invalidated pageId :: back.2) := by
  unfold invalidate at hOk
  rw [EStateM.run_bind, EStateM.run_get] at hOk
  cases hIndex : pool.indexOf pageId with
  | none =>
    simp only [hIndex] at hOk
    cases hOk
    refine ⟨rfl, rfl, hCaches.same rfl ?_
      (lastUse_of_none rfl _)⟩
    funext other
    by_cases hOther : pageId = other
    · have hNone := hCaches.others pageId
        (not_mem_of_indexOf hIndex)
      rw [hOther] at hNone
      simp [pending, hOther, hNone]
    · simp [pending, hOther]
  | some index =>
    simp only [hIndex] at hOk
    rcases ok_of_run_bind hOk with ⟨_, _, hPop, hOk⟩
    cases hPop
    rcases ok_of_run_bind hOk with ⟨frame, _, hRead, hOk⟩
    rcases frameAt_ok hRead with ⟨rfl, hFrame⟩
    cases hOk
    have hReleased : Caches holds [index]
        { pool with
          frames := pool.frames.set index
            { frame with pageId := none, dirty := false }
          resident := (pool.popPage pageId).resident }
        (back.1, .invalidated pageId :: back.2) := by
      apply hCaches.released
        (resident_perm hCaches.distinct hIndex)
        List.filter_sublist (lastUse_of_none rfl _)
      · simp [pending]
      · intro other hOther
        exact ⟨by simp [pending, hOther.symm], rfl⟩
    refine ⟨rfl, rfl, hReleased.length, hReleased.room, ?_,
      hReleased.distinct, hReleased.named,
      hReleased.others, hReleased.recent⟩
    refine List.Perm.trans ?_ hReleased.parts
    exact (List.perm_append_singleton _ _).append_right _

/- A dirty frame written back is clean. -/
theorem Caches.cleaned
    (hCaches : Caches holds [] pool back)
    (hEntry : (pageId, index) ∈ pool.resident)
    {frame : PoolFrame ι}
    (hFrame : pool.frames[index]? = some frame)
    (hHolds : holds back'.1 = Function.update
      (holds back.1) pageId (some frame.data))
    (hNoted : back'.2 = .wroteBack pageId :: back.2) :
    Caches holds []
      (pool.setFrame index { frame with dirty := false })
      back' := by
  have hIndices : (pool.resident.map Prod.snd).Nodup :=
    (List.nodup_append'.mp hCaches.nodup).2.1
  have hApart : ∀ other, other ≠ pageId →
      pending back'.2 other = pending back.2 other := by
    intro other hOther
    rw [hNoted]
    simp [pending, hOther.symm]
  have hOwn : pending back'.2 pageId = none := by
    rw [hNoted]
    simp [pending]
  have hLength : index < pool.frames.length := by
    apply hCaches.lt_of_mem
    exact List.mem_append_right _
      (List.mem_map.mpr ⟨_, hEntry, rfl⟩)
  constructor
  case length =>
    exact (List.length_set ..).trans hCaches.length
  case room => exact hCaches.room
  case parts => exact hCaches.parts
  case distinct => exact hCaches.distinct
  case named =>
    intro entry hMem
    rcases hCaches.named entry hMem with
      ⟨held, hHeld, hName, hBacked⟩
    by_cases hIndex : entry.2 = index
    · have hSame : entry = (pageId, index) :=
        List.inj_on_of_nodup_map hIndices hMem hEntry hIndex
      subst hSame
      cases Option.some.inj (hFrame.symm.trans hHeld)
      refine ⟨_, List.getElem?_set_self hLength, hName,
        hOwn, ?_⟩
      rw [hHolds, Function.update_self]
    · have hOther : entry.1 ≠ pageId := by
        intro hPage
        apply hIndex
        have hSame : entry = (pageId, index) :=
          List.inj_on_of_nodup_map hCaches.distinct hMem
            hEntry hPage
        rw [hSame]
      refine ⟨held, ?_, hName, hBacked.frame
        (hApart _ hOther) ?_⟩
      · exact (List.getElem?_set_ne
          fun h => hIndex h.symm).trans hHeld
      · rw [hHolds, Function.update_of_ne hOther]
  case others =>
    intro other hOther
    by_cases hPage : other = pageId
    · rw [hPage]
      exact hOwn
    · rw [hApart other hPage]
      exact hCaches.others other hOther
  case recent =>
    rw [hNoted, lastUse_of_none rfl]
    exact hCaches.recent

variable {count : Nat}

/- The entries flushed are clean, and what was clean stays
   so. -/
theorem flushEntries_spec
    (hBacks : env.Backs holds)
    (entries : List (PageId × Nat))
    {pool : FramePool ι}
    {back : Watched τ ι}
    (hCaches : Caches holds [] pool back)
    (hEntries : entries ⊆ pool.resident)
    (hOk : (flushEntries env.watched entries).run
      (pool, back) = .ok count (pool', back')) :
    Caches holds [] pool' back' ∧
      content holds back' = content holds back ∧
      lastUse back'.2 = lastUse back.2 ∧
      pool'.pageSize = pool.pageSize ∧
      pool'.resident = pool.resident ∧
      (∀ entry ∈ entries, pending back'.2 entry.1 = none) ∧
      ∀ other, pending back.2 other = none →
        pending back'.2 other = none := by
  induction entries generalizing pool back count with
  | nil =>
    cases hOk
    exact ⟨hCaches, rfl, rfl, rfl, rfl,
      fun _ hMem => absurd hMem List.not_mem_nil,
      fun _ hNone => hNone⟩
  | cons entry rest ih =>
    rcases entry with ⟨pageId, index⟩
    have hHere : (pageId, index) ∈ pool.resident :=
      hEntries (.head _)
    have hRest : rest ⊆ pool.resident := fun _ hMem =>
      hEntries (.tail _ hMem)
    unfold flushEntries at hOk
    rcases ok_of_run_bind hOk with ⟨frame, _, hRead, hOk⟩
    rcases frameAt_ok hRead with ⟨rfl, hFrame⟩
    rcases hCaches.named _ hHere with ⟨held, hHeld, -, hBacked⟩
    cases Option.some.inj (hFrame.symm.trans hHeld)
    by_cases hDirty : frame.dirty = true
    · simp only [hDirty, if_true] at hOk
      rcases ok_of_run_bind hOk with
        ⟨_, ⟨_, written⟩, hWrite, hOk⟩
      rcases callback_ok hWrite with ⟨hPool, hWrite⟩
      rcases watched_write hBacks hWrite with ⟨hHolds, hNoted⟩
      cases hPool
      rcases ok_of_run_bind hOk with ⟨_, _, hSet, hOk⟩
      cases hSet
      rcases ok_of_run_bind hOk with ⟨later, _, hLater, hOk⟩
      cases hOk
      have hCleaned := hCaches.cleaned hHere hFrame hHolds
        hNoted
      rcases ih hCleaned hRest hLater with
        ⟨hAfter, hContent, hLast, hSize, hSame, hClean, hStay⟩
      have hOwn : pending written.2 pageId = none := by
        rw [hNoted]
        simp [pending]
      refine ⟨hAfter, hContent.trans (content_wroteBack
        hBacked.content hHolds hNoted), hLast.trans ?_,
        hSize, hSame, ?_, ?_⟩
      · exact (congrArg lastUse hNoted).trans
          (lastUse_of_none rfl _)
      · intro entry hEntry
        rcases List.mem_cons.mp hEntry with hIs | hMem
        · rw [hIs]
          exact hStay pageId hOwn
        · exact hClean entry hMem
      · intro other hNone
        apply hStay
        rw [hNoted]
        simp [pending, hNone]
    · simp only [hDirty] at hOk
      rcases ih hCaches hRest hOk with
        ⟨hAfter, hContent, hLast, hSize, hSame, hClean, hStay⟩
      unfold Backed at hBacked
      rw [if_neg hDirty] at hBacked
      refine ⟨hAfter, hContent, hLast, hSize, hSame, ?_, hStay⟩
      intro entry hEntry
      rcases List.mem_cons.mp hEntry with hIs | hMem
      · rw [hIs]
        exact hStay pageId hBacked.1
      · exact hClean entry hMem

/- After a flush the storage has what the pool stood for. -/
theorem flush_spec
    (hBacks : env.Backs holds)
    (hCaches : Caches holds [] pool back)
    (hOk : (flush env.watched).run (pool, back) =
      .ok count (pool', back')) :
    Caches holds [] pool' back' ∧
      holds back'.1 = content holds back ∧
      pool'.pageSize = pool.pageSize ∧
      pool'.resident = pool.resident := by
  unfold flush at hOk
  rw [EStateM.run_bind, EStateM.run_get] at hOk
  rcases flushEntries_spec hBacks pool.resident hCaches
      (List.Subset.refl _) hOk with
    ⟨hAfter, hContent, -, hSize, hSame, hClean, -⟩
  refine ⟨hAfter, ?_, hSize, hSame⟩
  rw [← hContent]
  funext pageId
  have hNone : pending back'.2 pageId = none := by
    by_cases hMem : pageId ∈ pool.pages
    · rcases List.mem_map.mp hMem with ⟨entry, hEntry, rfl⟩
      exact hClean entry hEntry
    · apply hAfter.others
      unfold pages
      rw [hSame]
      exact hMem
  unfold content
  rw [hNone, Option.none_or]

theorem Caches.reset
    (hCaches : Caches holds [] pool back) :
    Caches holds [] pool.reset
      (back.1, .cleared :: back.2) where
  length := by
    unfold FramePool.reset
    exact (List.length_map _).trans hCaches.length
  room := hCaches.room
  parts := by
    unfold FramePool.reset
    simp only [List.nil_append, List.map_nil, List.append_nil]
    exact List.reverse_perm _
  distinct := List.nodup_nil
  named := fun _ hMem => absurd hMem List.not_mem_nil
  others := fun _ _ => rfl
  recent := List.Pairwise.nil

--
-- What a Call Raises
--

/- Run where `P` holds, a program raises only what `Raised`
   allows; `Q` says what it leaves. -/
abbrev RaisesOnly
    {α : Type}
    (Raised : EngineError → Prop)
    (P : FramePool ι → Prop)
    (program : FramesM τ ι α)
    (Q : α → FramePool ι → Prop) : Prop :=
  Triple (fun state => P state.1) program
    (fun value state => Q value state.1)
    fun raised _ => Raised raised

/- There are frames, and every one that is named is there. -/
structure Framed (pool : FramePool ι) : Prop where
  any : pool.free ++ pool.resident.map Prod.snd ≠ []
  there : ∀ index ∈ pool.free ++ pool.resident.map Prod.snd,
    index < pool.frames.length

theorem Caches.framed
    (hCaches : Caches holds [] pool back) :
    pool.Framed where
  any hNone := by
    have hParts := hCaches.parts
    have hRoom := hCaches.room
    rw [List.nil_append, hNone, List.nil_perm,
      List.range_eq_nil] at hParts
    omega
  there _ hMem := hCaches.lt_of_mem hMem

theorem Framed.lt
    (hFramed : pool.Framed)
    (hIndex : pool.indexOf pageId = some index) :
    index < pool.frames.length :=
  hFramed.there _ (List.mem_append_right _
    (List.mem_map_of_mem (mem_of_indexOf hIndex)))

section Raises

variable {Raised : EngineError → Prop}

theorem callback_raises
    {α : Type}
    {program : EStateM EngineError τ α}
    (hProgram : Triple (fun _ => True) program
      (fun _ _ => True) fun raised _ => Raised raised)
    (P : FramePool ι → Prop) :
    RaisesOnly Raised P (callback program) fun _ => P :=
  Triple.focus fun _ hState => hProgram.weaken
    (fun _ _ => trivial) (fun _ _ _ => hState) fun _ _ h => h

variable {P : Nat → Prop}

theorem frameAt_raises
    (hIndex : ∀ length, P length → index < length) :
    RaisesOnly (τ := τ) (ι := ι) Raised
      (fun pool => P pool.frames.length) (frameAt index)
      fun _ pool => P pool.frames.length := by
  refine Triple.read fun state hLength => ?_
  have hFrame : state.1.frames[index]? = _ :=
    List.getElem?_eq_getElem (hIndex _ hLength)
  simp only [hFrame]
  exact Triple.pure fun _ h => h ▸ hLength

theorem setFrame_raises
    (frame : PoolFrame ι) :
    RaisesOnly (τ := τ) Raised
      (fun pool => P pool.frames.length)
      (change fun pool => pool.setFrame index frame)
      fun _ pool => P pool.frames.length :=
  Triple.modify fun _ hLength =>
    (congrArg P List.length_set).mpr hLength

variable (hRaises : env.Raises Raised)

include hRaises

theorem takeFrame_raises :
    RaisesOnly Raised Framed (takeFrame env)
      fun index pool => index < pool.frames.length := by
  refine Triple.read fun state hFramed => ?_
  rcases state with ⟨pool, back⟩
  rcases hFramed with ⟨hSome, hThere⟩
  cases hFree : pool.free.getLast? with
  | some index =>
    simp only [hFree]
    refine Triple.bind (Triple.modify fun _ h => ?_)
      fun _ => Triple.pure fun _ h => h
    rw [h]
    exact hThere _ (List.mem_append_left _
      (List.mem_of_getLast? hFree))
  | none =>
    simp only [hFree]
    rw [List.getLast?_eq_none_iff] at hFree
    rw [hFree, List.nil_append] at hSome hThere
    refine Triple.read fun _ hSame => ?_
    cases hSame
    cases hResident : pool.resident with
    | nil => exact absurd (by rw [hResident]; rfl) hSome
    | cons entry rest =>
      rcases entry with ⟨victim, index⟩
      simp only [hResident]
      refine Triple.bind
        (Q := fun _ state => index < state.1.frames.length)
        (Triple.modify fun _ h => ?_) fun _ => ?_
      · rw [h]
        apply hThere
        simp [hResident]
      refine (frameAt_raises fun _ h => h).bind
        fun frame => ?_
      refine Triple.ite (fun _ => ?_) fun _ => ?_
      · refine (callback_raises (hRaises.write _ _)
          fun pool => index < pool.frames.length).bind
            fun _ => ?_
        exact (setFrame_raises (P := (index < ·))
          _).bind fun _ => Triple.pure fun _ h => h
      · exact (setFrame_raises (P := (index < ·))
          _).bind fun _ => Triple.pure fun _ h => h

theorem admitPage_raises
    (raw : ι)
    (dirty : Bool) :
    RaisesOnly Raised Framed
      (admitPage env pageId raw dirty) fun _ _ => True :=
  (takeFrame_raises hRaises).bind fun _ =>
    (frameAt_raises fun _ h => h).bind fun _ =>
      Triple.modify fun _ _ => trivial

theorem fetch_raises
    (pageId : PageId) :
    RaisesOnly Raised Framed (fetch env pageId)
      fun _ _ => True := by
  refine Triple.read fun state hFramed => ?_
  rcases state with ⟨pool, back⟩
  cases hIndex : pool.indexOf pageId with
  | some index =>
    simp only [hIndex]
    refine ((frameAt_raises (P := (index < ·))
      fun _ h => h).pre fun _ h => ?_).bind fun _ =>
        Triple.bind (Triple.modify fun _ _ => trivial)
          fun _ => Triple.pure fun _ h => h
    rw [h]
    exact hFramed.lt hIndex
  | none =>
    simp only [hIndex]
    refine ((callback_raises (hRaises.read pageId)
      Framed).pre fun _ h => h ▸ hFramed).bind fun _ => ?_
    exact (admitPage_raises hRaises _ _).bind fun _ =>
      Triple.pure fun _ h => h

theorem store_raises
    [Wal.ByteImage ι]
    (pageId : PageId)
    (raw : ι) :
    RaisesOnly Raised
      (fun pool => pool.Framed ∧
        Wal.byteLength raw = pool.pageSize)
      (store env pageId raw) fun _ _ => True := by
  refine Triple.read fun state hState => ?_
  rcases state with ⟨pool, back⟩
  rcases hState with ⟨hFramed, hSize⟩
  refine Triple.ite (fun hWrong => absurd hSize hWrong)
    fun _ => ?_
  cases hIndex : pool.indexOf pageId with
  | some index =>
    refine ((frameAt_raises (P := (index < ·))
      fun _ h => h).pre fun _ h => ?_).bind fun _ =>
        Triple.modify fun _ _ => trivial
    rw [h]
    exact hFramed.lt hIndex
  | none =>
    exact (admitPage_raises hRaises _ _).pre
      fun _ h => h ▸ hFramed

theorem flushEntries_raises
    {length : Nat}
    (entries : List (PageId × Nat))
    (hThere : ∀ entry ∈ entries, entry.2 < length) :
    RaisesOnly Raised
      (fun pool => pool.frames.length = length)
      (flushEntries env entries)
      fun _ pool => pool.frames.length = length := by
  induction entries with
  | nil => exact Triple.pure fun _ h => h
  | cons entry rest ih =>
    have hRest := ih fun later hLater =>
      hThere later (.tail _ hLater)
    unfold flushEntries
    refine (frameAt_raises (P := (· = length))
      fun _ h => h ▸ hThere _ (.head _)).bind fun frame => ?_
    refine Triple.ite (fun _ => ?_) fun _ => hRest
    refine (callback_raises (hRaises.write _ _)
      fun pool => pool.frames.length = length).bind
        fun _ => ?_
    refine (setFrame_raises (P := (· = length))
      _).bind fun _ => ?_
    exact hRest.bind fun _ => Triple.pure fun _ h => h

theorem flush_raises :
    RaisesOnly Raised Framed (flush env) fun _ _ => True := by
  refine Triple.read fun state hFramed => ?_
  refine ((flushEntries_raises hRaises state.1.resident
    fun entry hMem => ?_).pre fun _ h => by rw [h]).post
      fun _ _ _ => trivial
  exact hFramed.there _ (List.mem_append_right _
    (List.mem_map_of_mem hMem))

theorem watched_raises :
    env.watched.Raises Raised where
  read pageId := Triple.focus fun _ _ =>
    (hRaises.read pageId).pre fun _ _ => trivial
  write pageId raw := Triple.bind
    (Triple.focus fun _ _ =>
      (hRaises.write pageId raw).pre fun _ _ => trivial)
    fun _ => Triple.modify fun _ h => h

end Raises

--
-- Every Sequence of Calls
--

theorem note_ok
    {state state' : FramePool ι × Watched τ ι}
    (hOk : (callback (note event)).run state = .ok () state') :
    state' = (state.1, state.2.1, event :: state.2.2) := by
  cases hOk
  rfl

variable [Wal.ByteImage ι]

/- What a call leaves is a cache again. -/
theorem perform_spec
    (hBacks : env.Backs holds)
    (hCaches : Caches holds [] pool back)
    (call : PoolCall ι)
    (hOk : (perform env call).run (pool, back) =
      .ok () (pool', back')) :
    Caches holds [] pool' back' := by
  cases call with
  | fetch pageId =>
    rcases ok_of_run_bind hOk with ⟨raw, ⟨_, _⟩, hFetch, hNote⟩
    cases note_ok hNote
    exact (fetch_spec hBacks hCaches hFetch).2.1
  | store pageId raw =>
    rcases ok_of_run_bind hOk with ⟨_, ⟨_, _⟩, hStore, hNote⟩
    cases note_ok hNote
    exact (store_spec hBacks hCaches hStore).1
  | flush =>
    rcases ok_of_run_bind hOk with
      ⟨count, ⟨_, _⟩, hFlush, hRest⟩
    cases hRest
    exact (flush_spec hBacks hCaches hFlush).1
  | invalidate pageId =>
    rcases ok_of_run_bind hOk with
      ⟨_, ⟨_, _⟩, hInvalidate, hNote⟩
    cases note_ok hNote
    rcases invalidate_spec hCaches hInvalidate with
      ⟨rfl, -, hAfter⟩
    exact hAfter
  | clear flushes =>
    rcases ok_of_run_bind hOk with ⟨_, ⟨_, _⟩, hClear, hNote⟩
    cases note_ok hNote
    cases flushes with
    | false =>
      cases hClear
      exact hCaches.reset
    | true =>
      rcases ok_of_run_bind hClear with
        ⟨count, ⟨_, _⟩, hFlush, hReset⟩
      cases hReset
      exact (flush_spec hBacks hCaches hFlush).1.reset

variable {pageSize capacity : Nat}

theorem create_caches
    (hCreate : create pageSize capacity = .ok pool)
    (back : τ) :
    Caches holds [] pool (back, []) := by
  unfold create at hCreate
  split at hCreate
  · cases hCreate
  · rename_i hMin
    cases hCreate
    constructor
    case length => exact List.length_replicate
    case room =>
      exact Nat.lt_of_lt_of_le Nat.zero_lt_two
        (Nat.not_lt.mp hMin)
    case parts =>
      rw [List.nil_append, List.map_nil, List.append_nil]
      exact List.reverse_perm _
    case distinct => exact List.nodup_nil
    case named =>
      exact fun _ hMem => absurd hMem List.not_mem_nil
    case others => exact fun _ _ => rfl
    case recent => exact List.Pairwise.nil

theorem reached_caches
    (hBacks : env.Backs holds)
    {state : FramePool ι × Watched τ ι}
    (hReached : Reached env pageSize capacity state) :
    Caches holds [] state.1 state.2 := by
  induction hReached with
  | created back hCreate => exact create_caches hCreate back
  | called call _ hOk ih =>
    exact perform_spec hBacks ih call hOk
  | refused pageId _ hSize hError ih =>
    cases store_refused hSize hError
    exact ih

/-
  Whatever calls were made, the pool is a transparent
  write-back cache. The frames are free or resident, each
  resident page in the frame that names it; a fetch returns
  the image pending for the page, and what the storage holds
  when there is none; a flush leaves the storage with that
  content for every page; and a page evicted by a fetch or a
  store was used before every other resident one. No call
  raises what no callback does, a store of a wrong size
  apart, so the calls return where the callbacks do.
-/
theorem write_back_cache
    (hBacks : env.Backs holds)
    {pageSize capacity : Nat}
    {state : FramePool ι × Watched τ ι}
    (hReached : Reached env pageSize capacity state) :
    (state.1.resident.length ≤ state.1.capacity ∧
      state.1.frames.length = state.1.capacity ∧
      state.1.pages.Nodup ∧
      (state.1.free ++ state.1.resident.map Prod.snd).Perm
        (List.range state.1.capacity) ∧
      ∀ entry ∈ state.1.resident, ∃ frame,
        state.1.frames[entry.2]? = some frame ∧
          frame.pageId = some entry.1) ∧
    (∀ pageId raw state',
      (fetch env.watched pageId).run state =
          .ok raw state' →
        some raw =
            (pending state.2.2 pageId).or
              (holds state.2.1 pageId) ∧
          EvictsOldest state.2.2 state.1 state'.1) ∧
    (∀ pageId raw state',
      (store env.watched pageId raw).run state =
          .ok () state' →
        EvictsOldest state.2.2 state.1 state'.1) ∧
    (∀ count state',
      (flush env.watched).run state = .ok count state' →
        ∀ pageId, holds state'.2.1 pageId =
          (pending state.2.2 pageId).or
            (holds state.2.1 pageId)) ∧
    ∀ Raised, env.Raises Raised →
      ∀ raised state',
        (∀ pageId,
          (fetch env.watched pageId).run state =
            .error raised state' → Raised raised) ∧
        (∀ pageId raw,
          Wal.byteLength raw = state.1.pageSize →
          (store env.watched pageId raw).run state =
            .error raised state' → Raised raised) ∧
        ((flush env.watched).run state =
          .error raised state' → Raised raised) := by
  have hCaches := reached_caches hBacks hReached
  rcases state with ⟨pool, back⟩
  refine ⟨⟨?_, hCaches.length, hCaches.distinct,
    hCaches.parts, ?_⟩, ?_, ?_, ?_, ?_⟩
  · have hLength := hCaches.parts.length_eq
    simp only [List.nil_append, List.length_append,
      List.length_map, List.length_range] at hLength
    exact hLength ▸ Nat.le_add_left _ _
  · intro entry hEntry
    rcases hCaches.named entry hEntry with
      ⟨frame, hFrame, hName, -⟩
    exact ⟨frame, hFrame, hName⟩
  · intro pageId raw state' hOk
    rcases state' with ⟨pool', back'⟩
    rcases fetch_spec hBacks hCaches hOk with
      ⟨hContent, -, -, -, hEvicts⟩
    exact ⟨hContent.symm, hEvicts⟩
  · intro pageId raw state' hOk
    rcases state' with ⟨pool', back'⟩
    exact (store_spec hBacks hCaches hOk).2.2.2
  · intro count state' hOk pageId
    rcases state' with ⟨pool', back'⟩
    exact congrFun (flush_spec hBacks hCaches hOk).2.1 pageId
  · intro Raised hRaises raised state'
    have hWatched := watched_raises hRaises
    have hFramed := hCaches.framed
    exact ⟨fun pageId =>
        (fetch_raises hWatched pageId).of_error hFramed,
      fun pageId raw hSize =>
        (store_raises hWatched pageId raw).of_error
          ⟨hFramed, hSize⟩,
      (flush_raises hWatched).of_error hFramed⟩

end FramePool

/- Storage that is a dictionary, with an error for a page it
   does not have. -/
def dictionary : PoolEnv (PageId → Option Bytes) Bytes where
  readThrough pageId := do
    match (← get) pageId with
    | some raw => return raw
    | none => throw (.keyError s!"{pageId}")
  writeThrough pageId raw :=
    modify fun held => Function.update held pageId (some raw)

theorem dictionary_backs : dictionary.Backs id where
  read := by
    intro pageId back raw back' hOk
    unfold dictionary at hOk
    rw [EStateM.run_bind, EStateM.run_get] at hOk
    cases hHeld : back pageId with
    | none =>
      simp only [hHeld] at hOk
      cases hOk
    | some held =>
      simp only [hHeld] at hOk
      cases hOk
      exact ⟨hHeld, rfl⟩
  write := by
    intro pageId raw back back' hOk
    cases hOk
    rfl

theorem dictionary_raises :
    dictionary.Raises fun raised =>
      ∃ text, raised = .keyError text where
  read pageId := by
    refine Triple.read fun back _ => ?_
    cases back pageId with
    | none => exact Triple.throw fun _ _ => ⟨_, rfl⟩
    | some raw => exact Triple.pure fun _ _ => trivial
  write _ _ := Triple.modify fun _ h => h

/- The first page of three stored over two frames; a page
   never stored is a key the dictionary lacks. -/
theorem write_back_cache_evicting :
    ∃ state,
      FramePool.Reached dictionary 1 2 state ∧
        state.1.pages = [1, 2] ∧
        ∀ pageId,
          (∀ raw state',
            (FramePool.fetch dictionary.watched pageId).run
                state = .ok raw state' →
              some raw =
                (pending state.2.2 pageId).or
                  (state.2.1 pageId)) ∧
          ∀ raised state',
            (FramePool.fetch dictionary.watched pageId).run
                state = .error raised state' →
              ∃ text, raised = .keyError text := by
  have hReached : FramePool.Reached dictionary 1 2 _ :=
    .called (.store 2 [2]) (.called (.store 1 [1])
      (.called (.store 0 [0])
        (.created (fun _ => none) rfl) rfl) rfl) rfl
  have hCache := FramePool.write_back_cache dictionary_backs
    hReached
  exact ⟨_, hReached, rfl, fun pageId =>
    ⟨fun raw state' hOk =>
      (hCache.2.1 pageId raw state' hOk).1,
      fun raised state' => (hCache.2.2.2.2 _
        dictionary_raises raised state').1 pageId⟩⟩

end Storage

end ChenDB
