import Mathlib.Data.List.Nodup
import ChenDB.Errors
import ChenDB.Library.StateExcept
import ChenDB.Wal.Record

/-
  The buffer pool: a fixed number of frames with write-back
  and least-recently-used eviction. It reaches storage only
  through the two callbacks of `PoolEnv`; `τ` is the state
  behind them.
-/

--
-- Frames
--

namespace ChenDB

namespace Storage

open Library.StateExcept

structure Frame (ι : Type) where
  pageId : PageId
  data : ι
  dirty : Bool
deriving DecidableEq, Repr

/-
  The resident frames, least recently used first, and the
  number of frames that hold no page.
-/
structure BufferPool (ι : Type) where
  pageSize : Nat
  capacity : Nat
  free : Nat
  resident : List (Frame ι)
  distinct : (resident.map Frame.pageId).Nodup
deriving DecidableEq

def minPoolFrames : Nat := 2

namespace BufferPool

variable {ι : Type}

/- A pool with every frame free. -/
def ofFrames
    (pageSize capacity : Nat) : BufferPool ι where
  pageSize := pageSize
  capacity := capacity
  free := capacity
  resident := []
  distinct := List.nodup_nil

/- `BufferPool.__init__`. -/
def create
    (pageSize capacity : Nat) :
    Except EngineError (BufferPool ι) :=
  if capacity < minPoolFrames then
    .error (.valueError
      (s!"a buffer pool needs at least {minPoolFrames} " ++
        s!"frames, got {capacity}"))
  else .ok (ofFrames pageSize capacity)

/- What the pool holds for a page. -/
def cached
    (pool : BufferPool ι)
    (pageId : PageId) : Option (Frame ι) :=
  pool.resident.find? fun frame => frame.pageId = pageId

/- The pool without a page. -/
def remove
    (pool : BufferPool ι)
    (pageId : PageId) : BufferPool ι :=
  { pool with
    resident := pool.resident.filter fun frame =>
      frame.pageId ≠ pageId
    distinct := pool.distinct.sublist
      (List.filter_sublist.map Frame.pageId) }

/- The pool without a page, its frame free again. -/
def release
    (pool : BufferPool ι)
    (pageId : PageId) : BufferPool ι :=
  match pool.cached pageId with
  | none => pool
  | some _ =>
    { pool.remove pageId with free := pool.free + 1 }

/- The pool with a frame at the most recently used end. -/
def place
    (pool : BufferPool ι)
    (frame : Frame ι) : BufferPool ι :=
  { pool with
    resident :=
      (pool.remove frame.pageId).resident ++ [frame]
    distinct := by
      rw [List.map_append]
      refine List.Nodup.append
        (pool.remove frame.pageId).distinct
        (List.nodup_singleton _) ?_
      intro pageId hHeld hNew
      rw [List.map_singleton, List.mem_singleton] at hNew
      rcases List.mem_map.mp hHeld with ⟨held, hMem, hId⟩
      have hOther := (List.mem_filter.mp hMem).2
      simp [hId, hNew] at hOther }

/- The pool after a page reached the file. -/
def markClean
    (pool : BufferPool ι)
    (pageId : PageId) : BufferPool ι :=
  { pool with
    resident := pool.resident.map fun frame =>
      if frame.pageId = pageId then
        { frame with dirty := false }
      else frame
    distinct := by
      have hIds :
          (Frame.pageId ∘ fun frame : Frame ι =>
            if frame.pageId = pageId then
              { frame with dirty := false }
            else frame) = Frame.pageId := by
        funext frame
        simp only [Function.comp_apply]
        split <;> rfl
      rw [List.map_map, hIds]
      exact pool.distinct }

section Cached

variable (pool : BufferPool ι)

theorem pageId_of_cached
    {pageId : PageId}
    {frame : Frame ι}
    (hFrame : pool.cached pageId = some frame) :
    frame.pageId = pageId := by
  simpa using List.find?_some hFrame

@[simp] theorem cached_remove
    (pageId other : PageId) :
    (pool.remove pageId).cached other =
      if other = pageId then none
      else pool.cached other := by
  simp only [cached, remove, List.find?_filter]
  by_cases hOther : other = pageId
  · rw [if_pos hOther, List.find?_eq_none]
    intro frame _
    simp [hOther]
  · rw [if_neg hOther]
    congr 1
    funext frame
    by_cases hHit : frame.pageId = other
    · simp [hHit, hOther]
    · simp [hHit]

@[simp] theorem cached_place
    (frame : Frame ι)
    (other : PageId) :
    (pool.place frame).cached other =
      if other = frame.pageId then some frame
      else pool.cached other := by
  have hRemoved := cached_remove pool frame.pageId other
  unfold cached at hRemoved ⊢
  simp only [place, List.find?_append, hRemoved]
  by_cases hOther : other = frame.pageId
  · simp [hOther]
  · have hSkip : frame.pageId ≠ other := fun h =>
      hOther h.symm
    simp [hOther, hSkip]

@[simp] theorem cached_markClean
    (pageId other : PageId) :
    (pool.markClean pageId).cached other =
      if other = pageId then
        (pool.cached other).map fun frame =>
          { frame with dirty := false }
      else pool.cached other := by
  unfold cached markClean
  simp only [List.find?_map]
  have hSame :
      ((fun frame : Frame ι =>
          decide (frame.pageId = other)) ∘
        fun frame : Frame ι =>
          if frame.pageId = pageId then
            { frame with dirty := false }
          else frame) =
      fun frame => decide (frame.pageId = other) := by
    funext frame
    simp only [Function.comp_apply]
    split <;> rfl
  rw [hSame]
  cases hFound : pool.resident.find? fun frame =>
      decide (frame.pageId = other) with
  | none => simp
  | some frame =>
    have hId : frame.pageId = other := by
      simpa using List.find?_some hFound
    by_cases hOther : other = pageId
    · simp [hOther, hId]
    · simp [hOther, hId]

end Cached

end BufferPool

--
-- The Hot Path
--

/- `read_through` and `write_through`. -/
structure PoolEnv (τ ι : Type) where
  readThrough : PageId → EStateM EngineError τ ι
  writeThrough : PageId → ι → EStateM EngineError τ Unit

abbrev PoolM (τ ι : Type) :=
  EStateM EngineError (BufferPool ι × τ)

namespace BufferPool

variable {τ ι : Type}

/- Run a callback on the state behind the pool. -/
def behind
    {α : Type}
    (program : EStateM EngineError τ α) : PoolM τ ι α :=
  focus Prod.snd (fun state back => (state.1, back)) program

def modifyPool
    (f : BufferPool ι → BufferPool ι) : PoolM τ ι Unit :=
  modify fun state => (f state.1, state.2)

/-
  Drop the least recently used page, writing it back first
  when it is dirty. Its frame goes to the caller.
-/
def evict (env : PoolEnv τ ι) : PoolM τ ι Unit := do
  let (pool, _) ← get
  match pool.resident with
  | [] => throw (.keyError "dictionary is empty")
  | victim :: _ =>
    modifyPool fun pool => pool.remove victim.pageId
    if victim.dirty then
      behind (env.writeThrough victim.pageId victim.data)

/- A frame off the free list, or an evicted one. -/
def takeFrame (env : PoolEnv τ ι) : PoolM τ ι Unit := do
  let (pool, _) ← get
  if 0 < pool.free then
    modifyPool fun pool => { pool with free := pool.free - 1 }
  else
    evict env

/- `_admit`. -/
def admitFrame
    (env : PoolEnv τ ι)
    (pageId : PageId)
    (raw : ι)
    (dirty : Bool) : PoolM τ ι Unit := do
  takeFrame env
  modifyPool fun pool =>
    pool.place { pageId := pageId, data := raw, dirty := dirty }

/- A copy of the page, reading it in if necessary; the flag
   says whether the pool served it. -/
def fetch
    (env : PoolEnv τ ι)
    (pageId : PageId) : PoolM τ ι (ι × Bool) := do
  let (pool, _) ← get
  match pool.cached pageId with
  | some frame =>
    modifyPool fun pool => pool.place frame
    return (frame.data, true)
  | none =>
    let raw ← behind (env.readThrough pageId)
    admitFrame env pageId raw false
    return (raw, false)

/- Hold an image in a dirty frame. No disk write. -/
def store
    [Wal.ByteImage ι]
    (env : PoolEnv τ ι)
    (pageId : PageId)
    (raw : ι) : PoolM τ ι Unit := do
  let (pool, _) ← get
  if Wal.byteLength raw ≠ pool.pageSize then
    throw (.valueError
      (s!"page {pageId}: refusing to buffer " ++
        s!"{Wal.byteLength raw} bytes into a " ++
        s!"{pool.pageSize}-byte frame"))
  else
    match pool.cached pageId with
    | some _ =>
      modifyPool fun pool =>
        pool.place
          { pageId := pageId, data := raw, dirty := true }
    | none => admitFrame env pageId raw true

/- Forget a page without writing it back. -/
def invalidate (pageId : PageId) : PoolM τ ι Unit :=
  modifyPool fun pool => pool.release pageId

--
-- Durability
--

def flushFrame
    (env : PoolEnv τ ι)
    (frame : Frame ι) : PoolM τ ι Unit := do
  if frame.dirty then
    behind (env.writeThrough frame.pageId frame.data)
    modifyPool fun pool => pool.markClean frame.pageId

/- Write back those of the frames that are dirty. -/
def flushFrames
    (env : PoolEnv τ ι) : List (Frame ι) → PoolM τ ι Unit
  | [] => pure ()
  | frame :: rest => do
      flushFrame env frame
      flushFrames env rest

/- Write every dirty frame back. -/
def flush (env : PoolEnv τ ι) : PoolM τ ι Unit := do
  let (pool, _) ← get
  flushFrames env pool.resident

/- Drop everything without writing it back. -/
def drop : PoolM τ ι Unit :=
  modifyPool fun pool =>
    ofFrames pool.pageSize pool.capacity

--
-- Frames in Use
--

/-
  Every frame is free, resident, or one of the `inHand`
  frames an eviction has just given its caller.
-/
structure Sound
    (size inHand : Nat)
    (pool : BufferPool ι) : Prop where
  size : pool.pageSize = size
  frames :
    pool.free + pool.resident.length + inHand = pool.capacity
  enough : minPoolFrames ≤ pool.capacity

theorem sound_ofFrames
    {size capacity : Nat}
    (hEnough : minPoolFrames ≤ capacity) :
    (ofFrames size capacity : BufferPool ι).Sound size 0 :=
  ⟨rfl, by simp [ofFrames], hEnough⟩

section Length

variable {pool : BufferPool ι} {pageId : PageId} {size : Nat}

theorem remove_of_not_cached
    (hMiss : pool.cached pageId = none) :
    (pool.remove pageId).resident = pool.resident := by
  unfold cached at hMiss
  unfold remove
  rw [List.find?_eq_none] at hMiss
  rw [List.filter_eq_self]
  intro frame hFrame
  simpa using hMiss frame hFrame

variable {frame : Frame ι}

theorem length_remove
    (hHit : pool.cached pageId = some frame) :
    (pool.remove pageId).resident.length + 1 =
      pool.resident.length := by
  have hIds :
      ((pool.remove pageId).resident.map Frame.pageId) =
        (pool.resident.map Frame.pageId).erase pageId := by
    rw [pool.distinct.erase_eq_filter, List.filter_map]
    unfold remove
    congr 1
    apply List.filter_congr
    intro held _
    by_cases hId : held.pageId = pageId
    · simp [hId]
    · simp [hId]
  have hMem :
      pageId ∈ pool.resident.map Frame.pageId := by
    refine List.mem_map.mpr
      ⟨frame, List.mem_of_find?_eq_some hHit, ?_⟩
    exact pool.pageId_of_cached hHit
  have hLength := congrArg List.length hIds
  have hPos := List.length_pos_of_mem hMem
  rw [List.length_map, List.length_erase_of_mem hMem]
    at hLength
  rw [List.length_map] at hLength hPos
  omega

theorem Sound.touch
    (hSound : pool.Sound size 0)
    {held : Frame ι}
    (hHit : pool.cached frame.pageId = some held) :
    (pool.place frame).Sound size 0 := by
  have hLength := length_remove hHit
  have hFrames := hSound.frames
  refine ⟨hSound.size, ?_, hSound.enough⟩
  simp only [place, List.length_append, List.length_singleton]
  omega

theorem Sound.place
    (hSound : pool.Sound size 1)
    (hMiss : pool.cached frame.pageId = none) :
    (pool.place frame).Sound size 0 := by
  have hSame := remove_of_not_cached hMiss
  have hFrames := hSound.frames
  refine ⟨hSound.size, ?_, hSound.enough⟩
  simp only [BufferPool.place, hSame, List.length_append,
    List.length_singleton]
  omega

theorem Sound.remove
    (hSound : pool.Sound size 0)
    (hHit : pool.cached pageId = some frame) :
    (pool.remove pageId).Sound size 1 := by
  have hLength := length_remove hHit
  have hFrames := hSound.frames
  refine ⟨hSound.size, ?_, hSound.enough⟩
  change pool.free + (pool.remove pageId).resident.length +
    1 = pool.capacity
  omega

theorem Sound.markClean
    (hSound : pool.Sound size 0) :
    (pool.markClean pageId).Sound size 0 := by
  refine ⟨hSound.size, ?_, hSound.enough⟩
  simpa [BufferPool.markClean] using hSound.frames

end Length

end BufferPool

--
-- What the Pool Keeps
--

/-
  A property of what is cached and of the state behind the
  pool that survives an eviction.
-/
structure PoolEnv.Evictable
    {τ ι : Type}
    (env : PoolEnv τ ι)
    (K : (PageId → Option (Frame ι)) → τ → Prop) :
    Prop where
  drop : ∀ cache back pageId data,
    K cache back →
    cache pageId = some ⟨pageId, data, false⟩ →
    K (Function.update cache pageId none) back
  writeBack : ∀ cache pageId data,
    cache pageId = some ⟨pageId, data, true⟩ →
    Triple (K cache) (env.writeThrough pageId data)
      (fun _ => K (Function.update cache pageId
        (some ⟨pageId, data, false⟩)))
      (fun _ _ => False)

/-
  The property survives a page being read in as well, where
  `Holds` says what the storage has for a page.
-/
structure PoolEnv.Quiet
    {τ ι : Type}
    (env : PoolEnv τ ι)
    (Holds : PageId → ι → τ → Prop)
    (K : (PageId → Option (Frame ι)) → τ → Prop) :
    Prop extends env.Evictable K where
  read : ∀ cache pageId,
    Triple (K cache) (env.readThrough pageId)
      (fun data back =>
        K cache back ∧ Holds pageId data back)
      (fun _ => K cache)
  keeps : ∀ pageId data other image,
    other ≠ pageId →
    Triple (Holds pageId data) (env.writeThrough other image)
      (fun _ => Holds pageId data) (fun _ _ => True)
  load : ∀ cache back pageId data,
    K cache back →
    Holds pageId data back →
    cache pageId = none →
    K (Function.update cache pageId
      (some ⟨pageId, data, false⟩)) back

variable {τ ι : Type} {env : PoolEnv τ ι}
variable {K : (PageId → Option (Frame ι)) → τ → Prop}

/- A page that is not cached stays so while others leave. -/
theorem PoolEnv.Evictable.uncached
    (hKeeps : env.Evictable K)
    (pageId : PageId) :
    env.Evictable fun cache back =>
      cache pageId = none ∧ K cache back where
  drop := by
    intro cache back victim data hState hVictim
    refine ⟨?_, hKeeps.drop cache back victim data
      hState.2 hVictim⟩
    by_cases hSame : pageId = victim
    · simp [hSame]
    · simp [hSame, hState.1]
  writeBack := by
    intro cache victim data hVictim
    refine Triple.start fun back hState => ?_
    have hOther : pageId ≠ victim := by
      intro hSame
      rw [hSame, hVictim] at hState
      exact absurd hState.1 (by simp)
    refine (hKeeps.writeBack cache victim data
      hVictim).weaken (fun _ h => h ▸ hState.2)
      (fun _ _ hPost => ⟨?_, hPost⟩) (fun _ _ h => h)
    simp [hOther, hState.1]

/-
  Eviction does not see the frame that is about to be placed
  for a page that is not cached.
-/
theorem PoolEnv.Evictable.overlay
    (hKeeps : env.Evictable K)
    (pageId : PageId)
    (frame : Option (Frame ι)) :
    env.Evictable fun cache back =>
      cache pageId = none ∧
        K (Function.update cache pageId frame) back where
  drop := by
    intro cache back victim data hState hVictim
    have hOther : victim ≠ pageId := by
      intro hSame
      rw [hSame, hState.1] at hVictim
      cases hVictim
    refine ⟨by simp [hOther.symm, hState.1], ?_⟩
    rw [Function.update_comm hOther]
    apply hKeeps.drop _ _ _ data hState.2
    simpa [hOther] using hVictim
  writeBack := by
    intro cache victim data hVictim
    refine Triple.start fun back hState => ?_
    have hOther : victim ≠ pageId := by
      intro hSame
      rw [hSame, hState.1] at hVictim
      cases hVictim
    refine (hKeeps.writeBack
      (Function.update cache pageId frame) victim data
      (by simpa [hOther] using hVictim)).weaken
      (fun _ h => h ▸ hState.2)
      (fun _ _ hPost => ⟨?_, ?_⟩) (fun _ _ h => h)
    · simp [hOther.symm, hState.1]
    · rw [Function.update_comm hOther]
      exact hPost

/- The page being read stays readable while others leave. -/
theorem PoolEnv.Quiet.holding
    {Holds : PageId → ι → τ → Prop}
    (hQuiet : env.Quiet Holds K)
    (pageId : PageId)
    (data : ι) :
    env.Evictable fun cache back =>
      (cache pageId = none ∧ K cache back) ∧
        Holds pageId data back where
  drop := by
    intro cache back victim old hState hVictim
    exact ⟨(hQuiet.toEvictable.uncached pageId).drop cache
      back victim old hState.1 hVictim, hState.2⟩
  writeBack := by
    intro cache victim old hVictim
    refine Triple.start fun back hState => ?_
    have hOther : victim ≠ pageId := by
      intro hSame
      rw [hSame, hState.1.1] at hVictim
      cases hVictim
    refine (((hQuiet.toEvictable.uncached pageId).writeBack
      cache victim old hVictim).conj
        (hQuiet.keeps pageId data victim old hOther)).weaken
      (fun _ h => h ▸ hState) (fun _ _ hPost => hPost)
      (fun _ _ h => h.1)

namespace BufferPool

variable {τ ι : Type} {env : PoolEnv τ ι}
variable {K : (PageId → Option (Frame ι)) → τ → Prop}
variable {Holds : PageId → ι → τ → Prop} {size : Nat}

variable {pool : BufferPool ι}

/- A callback leaves the pool alone. -/
theorem behind_spec
    {α : Type}
    {program : EStateM EngineError τ α}
    {P : τ → Prop}
    {Q : α → τ → Prop}
    {E : EngineError → τ → Prop}
    (hProgram : Triple P program Q E) :
    Triple (fun state => state.1 = pool ∧ P state.2)
      (behind program)
      (fun value state => state.1 = pool ∧ Q value state.2)
      (fun raised state =>
        state.1 = pool ∧ E raised state.2) := by
  refine Triple.focus fun state hState => ?_
  exact hProgram.weaken (fun _ h => h ▸ hState.2)
    (fun _ _ h => ⟨hState.1, h⟩)
    (fun _ _ h => ⟨hState.1, h⟩)

variable {frame : Frame ι}

theorem cached_of_mem
    (hMem : frame ∈ pool.resident) :
    pool.cached frame.pageId = some frame := by
  have hNodup := pool.distinct
  unfold cached
  generalize pool.resident = frames at hMem hNodup ⊢
  induction frames with
  | nil => cases hMem
  | cons first rest ih =>
    rw [List.map_cons, List.nodup_cons] at hNodup
    rcases List.mem_cons.mp hMem with rfl | hLater
    · simp
    · have hOther : first.pageId ≠ frame.pageId := by
        intro hSame
        exact hNodup.1 (hSame ▸
          List.mem_map.mpr ⟨frame, hLater, rfl⟩)
      rw [List.find?_cons_of_neg (by simpa using hOther)]
      exact ih hLater hNodup.2

theorem cached_remove_eq
    (pool : BufferPool ι)
    (pageId : PageId) :
    (pool.remove pageId).cached =
      Function.update pool.cached pageId none := by
  funext other
  simp [Function.update_apply]

theorem cached_place_eq
    (pool : BufferPool ι)
    (frame : Frame ι) :
    (pool.place frame).cached =
      Function.update pool.cached frame.pageId
        (some frame) := by
  funext other
  simp [Function.update_apply]

@[simp] theorem cached_release
    (pool : BufferPool ι)
    (pageId : PageId) :
    (pool.release pageId).cached =
      Function.update pool.cached pageId none := by
  unfold release
  cases hCached : pool.cached pageId with
  | none =>
    simp only
    rw [← hCached, Function.update_eq_self]
  | some frame => exact cached_remove_eq pool pageId

theorem Sound.release
    (hSound : pool.Sound size 0)
    (pageId : PageId) :
    (pool.release pageId).Sound size 0 := by
  unfold BufferPool.release
  cases hCached : pool.cached pageId with
  | none => exact hSound
  | some frame =>
    have hFrames := (hSound.remove hCached).frames
    refine ⟨hSound.size, ?_, hSound.enough⟩
    change pool.free +
      (pool.remove pageId).resident.length + 1 =
        pool.capacity at hFrames
    change pool.free + 1 +
      (pool.remove pageId).resident.length + 0 = pool.capacity
    omega

theorem cached_markClean_eq
    (hHit : pool.cached frame.pageId = some frame) :
    (pool.markClean frame.pageId).cached =
      Function.update pool.cached frame.pageId
        (some { frame with dirty := false }) := by
  funext other
  by_cases hOther : other = frame.pageId
  · simp [hOther, hHit]
  · simp [hOther]

theorem evict_spec (hKeeps : env.Evictable K) :
    Triple
      (fun state => state.1.Sound size 0 ∧ state.1.free = 0 ∧
        K state.1.cached state.2)
      (evict env)
      (fun _ state => state.1.Sound size 1 ∧
        K state.1.cached state.2)
      (fun _ _ => False) := by
  unfold evict
  refine Triple.read fun state hState => ?_
  rcases hState with ⟨hSound, hFull, hK⟩
  cases hResident : state.1.resident with
  | nil =>
    -- no frame is free, so one is resident
    have hFrames := hSound.frames
    have hEnough := hSound.enough
    unfold minPoolFrames at hEnough
    simp only [hFull, hResident, List.length_nil]
      at hFrames
    omega
  | cons victim rest =>
    have hHit :
        state.1.cached victim.pageId = some victim := by
      apply cached_of_mem
      simp [hResident]
    simp only [hResident]
    have hRemoved := hSound.remove hHit
    refine Triple.bind
      (Q := fun _ after =>
        after.1 = state.1.remove victim.pageId ∧
          after.2 = state.2)
      (Triple.modify fun _ h => by simp [h]) fun _ => ?_
    refine Triple.ite (fun hDirty => ?_) fun hClean => ?_
    · have hWrite := hKeeps.writeBack state.1.cached
        victim.pageId victim.data (by
          rw [hHit]
          cases victim
          simp_all)
      refine (behind_spec hWrite).weaken
        (fun _ h => ⟨h.1, h.2 ▸ hK⟩) ?_
        (fun _ _ h => h.2)
      rintro _ after ⟨hPool, hAfter⟩
      refine ⟨hPool ▸ hRemoved, ?_⟩
      have hDropped := hKeeps.drop _ _ victim.pageId
        victim.data hAfter (by simp)
      rw [hPool, cached_remove_eq]
      simpa using hDropped
    · refine Triple.pure fun after hAfter => ?_
      rw [hAfter.1, hAfter.2]
      refine ⟨hRemoved, ?_⟩
      rw [cached_remove_eq]
      apply hKeeps.drop _ _ _ victim.data hK
      rw [hHit]
      cases victim
      simp_all

theorem takeFrame_spec (hKeeps : env.Evictable K) :
    Triple
      (fun state => state.1.Sound size 0 ∧
        K state.1.cached state.2)
      (takeFrame env)
      (fun _ state => state.1.Sound size 1 ∧
        K state.1.cached state.2)
      (fun _ _ => False) := by
  unfold takeFrame
  refine Triple.read fun state hState => ?_
  rcases hState with ⟨hSound, hK⟩
  refine Triple.ite (fun hFree => ?_) fun hFull => ?_
  · refine Triple.modify fun current hSame => ?_
    subst hSame
    refine ⟨⟨hSound.size, ?_, hSound.enough⟩, hK⟩
    have hFrames := hSound.frames
    simp only
    omega
  · refine (evict_spec hKeeps).pre (fun current hSame => ?_)
    subst hSame
    exact ⟨hSound, by omega, hK⟩

theorem admitFrame_spec
    (hKeeps : env.Evictable K)
    (size : Nat)
    (pageId : PageId)
    (raw : ι)
    (dirty : Bool) :
    Triple
      (fun state => state.1.Sound size 0 ∧
        state.1.cached pageId = none ∧
        K state.1.cached state.2)
      (admitFrame env pageId raw dirty)
      (fun _ state => state.1.Sound size 0 ∧
        ∃ cache, cache pageId = none ∧ K cache state.2 ∧
          state.1.cached = Function.update cache pageId
            (some ⟨pageId, raw, dirty⟩))
      (fun _ _ => False) := by
  unfold admitFrame
  refine Triple.bind
    ((takeFrame_spec (hKeeps.uncached pageId)).weaken
      (fun _ h => h) (fun _ _ h => h) (fun _ _ h => h))
    fun _ => ?_
  refine Triple.modify fun state hState => ?_
  rcases hState with ⟨hSound, hMiss, hK⟩
  refine ⟨Sound.place hSound hMiss,
    state.1.cached, hMiss, hK, ?_⟩
  exact cached_place_eq _ _

/-
  A fetched page is cached afterwards, and what comes back
  is what is cached.
-/
theorem fetch_spec
    (size : Nat)
    (hQuiet : env.Quiet Holds K)
    (pageId : PageId) :
    Triple
      (fun state => state.1.Sound size 0 ∧
        K state.1.cached state.2)
      (fetch env pageId)
      (fun found state => state.1.Sound size 0 ∧
        K state.1.cached state.2 ∧
        ∃ frame, state.1.cached pageId = some frame ∧
          frame.data = found.1)
      (fun _ state => state.1.Sound size 0 ∧
        K state.1.cached state.2) := by
  unfold fetch
  refine Triple.read fun state hState => ?_
  rcases hState with ⟨hSound, hK⟩
  cases hCached : state.1.cached pageId with
  | some frame =>
    have hId := state.1.pageId_of_cached hCached
    simp only [hCached]
    refine Triple.bind
      (Q := fun _ after =>
        after = (state.1.place frame, state.2))
      (Triple.modify fun _ h => by rw [h]) fun _ => ?_
    refine Triple.pure fun after hAfter => ?_
    subst hAfter
    have hSame :
        (state.1.place frame).cached = state.1.cached := by
      rw [cached_place_eq, hId, ← hCached,
        Function.update_eq_self]
    refine ⟨hSound.touch (hId ▸ hCached), ?_, frame, ?_, rfl⟩
    · rw [hSame]
      exact hK
    · rw [hSame]
      exact hCached
  | none =>
    simp only [hCached]
    refine Triple.bind
      ((behind_spec (hQuiet.read state.1.cached
        pageId)).weaken (fun _ h => ⟨by rw [h], h ▸ hK⟩)
        (fun _ _ h => h)
        (fun _ _ h => by
          rw [h.1]
          exact ⟨hSound, h.2⟩)) fun raw => ?_
    refine Triple.bind
      ((admitFrame_spec (hQuiet.holding pageId raw) size
        pageId raw false).weaken (fun after hAfter => ?_)
        (fun _ _ h => h) (fun _ _ h => h.elim))
      fun _ => ?_
    · rcases hAfter with ⟨hPool, hK', hHolds⟩
      rw [hPool]
      exact ⟨hSound, hCached, ⟨hCached, hK'⟩, hHolds⟩
    · refine Triple.pure fun after hAfter => ?_
      rcases hAfter with
        ⟨hSound', cache, hMiss, ⟨⟨_, hK'⟩, hHolds⟩, hPlaced⟩
      refine ⟨hSound', ?_, ⟨pageId, raw, false⟩, ?_, rfl⟩
      · rw [hPlaced]
        exact hQuiet.load _ _ _ _ hK' hHolds hMiss
      · rw [hPlaced]
        simp

/- Storing is seen as the frame it leaves in the pool. -/
theorem store_spec
    [Wal.ByteImage ι]
    (size : Nat)
    (hKeeps : env.Evictable K)
    (pageId : PageId)
    (raw : ι) :
    Triple
      (fun state => state.1.Sound size 0 ∧
        Wal.byteLength raw = size ∧
        K (Function.update state.1.cached pageId
          (some ⟨pageId, raw, true⟩)) state.2)
      (store env pageId raw)
      (fun _ state => state.1.Sound size 0 ∧
        K state.1.cached state.2)
      (fun _ _ => False) := by
  unfold store
  refine Triple.read fun state hState => ?_
  rcases hState with ⟨hSound, hLength, hK⟩
  have hFits :
      ¬ Wal.byteLength raw ≠ state.1.pageSize := by
    simp [hLength, hSound.size]
  simp only [if_neg hFits]
  cases hCached : state.1.cached pageId with
  | some frame =>
    refine Triple.modify fun current hSame => ?_
    subst hSame
    refine ⟨hSound.touch hCached, ?_⟩
    rw [cached_place_eq]
    exact hK
  | none =>
    refine (admitFrame_spec
      (hKeeps.overlay pageId (some ⟨pageId, raw, true⟩))
      size pageId raw true).weaken (fun current hSame => ?_)
      ?_ (fun _ _ h => h)
    · subst hSame
      exact ⟨hSound, hCached, hCached, hK⟩
    · rintro _ after ⟨hSound', cache, _, hK', hPlaced⟩
      refine ⟨hSound', ?_⟩
      rw [hPlaced]
      exact hK'.2

/- Frames not among those still to be written are clean. -/
theorem flushFrames_spec
    (hKeeps : env.Evictable K)
    (frames : List (Frame ι))
    (hDistinct : (frames.map Frame.pageId).Nodup) :
    Triple
      (fun state => state.1.Sound size 0 ∧
        K state.1.cached state.2 ∧
        (∀ frame ∈ frames,
          state.1.cached frame.pageId = some frame) ∧
        ∀ pageId frame,
          state.1.cached pageId = some frame →
          frame ∉ frames → frame.dirty = false)
      (flushFrames env frames)
      (fun _ state => state.1.Sound size 0 ∧
        K state.1.cached state.2 ∧
        ∀ pageId frame,
          state.1.cached pageId = some frame →
          frame.dirty = false)
      (fun _ _ => False) := by
  induction frames with
  | nil =>
    refine Triple.pure fun state hState => ?_
    rcases hState with ⟨hSound, hK, _, hClean⟩
    exact ⟨hSound, hK, fun pageId frame hFrame =>
      hClean pageId frame hFrame (by simp)⟩
  | cons frame rest ih =>
    rw [List.map_cons, List.nodup_cons] at hDistinct
    unfold flushFrames flushFrame
    refine Triple.bind ?_ fun _ => ih hDistinct.2
    refine Triple.ite (fun hDirty => ?_) fun hClean => ?_
    · refine Triple.start fun state hState => ?_
      rcases hState with ⟨hSound, hK, hHeld, hOthers⟩
      have hHit := hHeld frame (by simp)
      have hWrite := hKeeps.writeBack state.1.cached
        frame.pageId frame.data (by
          rw [hHit]
          cases frame
          simp_all)
      refine Triple.bind
        ((behind_spec hWrite).weaken
          (fun _ h => ⟨by rw [h], h ▸ hK⟩)
          (fun _ _ h => h) (fun _ _ h => h.2)) fun _ => ?_
      refine Triple.modify fun after hAfter => ?_
      rcases hAfter with ⟨hPool, hK'⟩
      have hMarked :
          (after.1.markClean frame.pageId).cached =
            Function.update after.1.cached frame.pageId
              (some { frame with dirty := false }) :=
        cached_markClean_eq (hPool ▸ hHit)
      refine ⟨Sound.markClean (hPool ▸ hSound), ?_, ?_, ?_⟩
      · rw [hMarked, hPool]
        exact hK'
      · intro later hLater
        have hOther : later.pageId ≠ frame.pageId := by
          intro hSame
          exact hDistinct.1 (List.mem_map.mpr
            ⟨later, hLater, hSame⟩)
        rw [hMarked, Function.update_of_ne hOther, hPool]
        exact hHeld later (.tail _ hLater)
      · intro pageId held hFound hNotLater
        rw [hMarked] at hFound
        by_cases hSame : pageId = frame.pageId
        · rw [hSame, Function.update_self,
            Option.some.injEq] at hFound
          rw [← hFound]
        · rw [Function.update_of_ne hSame, hPool] at hFound
          refine hOthers pageId held hFound ?_
          intro hMem
          rcases List.mem_cons.mp hMem with rfl | hMem
          · exact hSame
              (state.1.pageId_of_cached hFound).symm
          · exact hNotLater hMem
    · refine Triple.pure fun state hState => ?_
      rcases hState with ⟨hSound, hK, hHeld, hOthers⟩
      refine ⟨hSound, hK, fun later hLater =>
        hHeld later (.tail _ hLater), ?_⟩
      intro pageId held hFound hNotLater
      by_cases hSame : held = frame
      · simpa [hSame] using hClean
      · refine hOthers pageId held hFound ?_
        simp [hSame, hNotLater]

theorem flush_spec
    (size : Nat)
    (hKeeps : env.Evictable K) :
    Triple
      (fun state => state.1.Sound size 0 ∧
        K state.1.cached state.2)
      (flush env)
      (fun _ state => state.1.Sound size 0 ∧
        K state.1.cached state.2 ∧
        ∀ pageId frame,
          state.1.cached pageId = some frame →
          frame.dirty = false)
      (fun _ _ => False) := by
  unfold flush
  refine Triple.read fun state hState => ?_
  refine (flushFrames_spec hKeeps state.1.resident
    state.1.distinct).pre (fun current hSame => ?_)
  subst hSame
  refine ⟨hState.1, hState.2, fun frame hFrame =>
    cached_of_mem hFrame, ?_⟩
  intro pageId frame hFound hNotHeld
  exact absurd (List.mem_of_find?_eq_some hFound) hNotHeld

/- With nothing dirty a flush does nothing. -/
theorem flush_of_clean
    (hClean : ∀ pageId frame,
      pool.cached pageId = some frame → frame.dirty = false)
    (back : τ) :
    (flush env).run (pool, back) = .ok () (pool, back) := by
  have hFrames : ∀ frames : List (Frame ι),
      (∀ frame ∈ frames, frame.dirty = false) →
      (flushFrames env frames).run (pool, back) =
        .ok () (pool, back) := by
    intro frames hAll
    induction frames with
    | nil => rfl
    | cons frame rest ih =>
      have hFrame := hAll frame (by simp)
      unfold flushFrames flushFrame
      simp only [hFrame, Bool.false_eq_true, ↓reduceIte,
        pure_bind]
      exact ih fun later hLater =>
        hAll later (.tail _ hLater)
  unfold flush
  rw [EStateM.run_bind, EStateM.run_get]
  exact hFrames pool.resident fun frame hMem =>
    hClean frame.pageId frame (cached_of_mem hMem)

end BufferPool

end Storage

end ChenDB
