import ChenDB.Storage.Frames

/-
  An eviction whose write back fails. The victim has left
  the residency map by then and its frame is not on the free
  list, so the page's unsaved image is out of reach and the
  pool is a frame short from then on.
-/

--
-- Runs in Which Calls May Raise
--

namespace ChenDB

namespace Storage

open Library.StateExcept

namespace FramePool

variable {τ ι : Type} [Wal.ByteImage ι]

/- Make a call, without keeping a history. -/
def make
    (env : PoolEnv τ ι) : PoolCall ι → FramesM τ ι Unit
  | .fetch pageId => do
      let _ ← fetch env pageId
  | .store pageId raw => store env pageId raw
  | .flush => do
      let _ ← flush env
  | .invalidate pageId => invalidate pageId
  | .clear flushes => clear env flushes

/- What calls reach, whether they returned or raised. -/
inductive Lived
    (env : PoolEnv τ ι) : FramePool ι × τ → Prop where
  | created
      {pageSize capacity : Nat}
      {pool : FramePool ι}
      (back : τ) :
      create pageSize capacity = .ok pool →
      Lived env (pool, back)
  | returned
      (call : PoolCall ι)
      {state state' : FramePool ι × τ} :
      Lived env state →
      (make env call).run state = .ok () state' →
      Lived env state'
  | raised
      (call : PoolCall ι)
      {state state' : FramePool ι × τ}
      {error : EngineError} :
      Lived env state →
      (make env call).run state = .error error state' →
      Lived env state'

--
-- No More Frames Than There Are
--

/- `taken` frames are with a caller: no page is in the map
   twice, and there are no more frames than the capacity. -/
structure Within
    (taken : Nat)
    (pool : FramePool ι) : Prop where
  distinct : pool.pages.Nodup
  count : pool.free.length + pool.resident.length + taken ≤
    pool.capacity

section Within

variable {pool : FramePool ι} {taken : Nat}

omit [Wal.ByteImage ι] in
theorem Within.setFrame
    (hWithin : Within taken pool)
    (index : Nat)
    (frame : PoolFrame ι) :
    Within taken (pool.setFrame index frame) :=
  ⟨hWithin.distinct, hWithin.count⟩

omit [Wal.ByteImage ι] in
theorem Within.moveToEnd
    (hWithin : Within taken pool)
    (pageId : PageId) :
    Within taken (pool.moveToEnd pageId) := by
  have hMoved : (pool.moveToEnd pageId).resident.Perm
      pool.resident := by
    have hSplit := List.filter_append_perm
      (fun entry : PageId × Nat =>
        !decide (entry.1 = pageId)) pool.resident
    simp only [Bool.not_not] at hSplit
    unfold FramePool.moveToEnd
    simp only [ne_eq, decide_not]
    exact hSplit
  constructor
  · exact (hMoved.map Prod.fst).nodup_iff.mpr
      hWithin.distinct
  · rw [hMoved.length_eq]
    exact hWithin.count

omit [Wal.ByteImage ι] in
/- A page that is new to the map takes a frame's place. -/
theorem Within.assign
    (hWithin : Within (taken + 1) pool)
    (pageId : PageId)
    (index : Nat) :
    Within taken (pool.assign pageId index) := by
  have hCount := hWithin.count
  by_cases hHeld : pageId ∈ pool.pages
  · have hPages : (pool.assign pageId index).pages =
        pool.pages := by
      unfold FramePool.assign
      rw [if_pos hHeld]
      unfold pages
      rw [List.map_map]
      apply List.map_congr_left
      intro entry _
      simp only [Function.comp_apply]
      split
      · rename_i hSame
        exact hSame.symm
      · rfl
    constructor
    · rw [hPages]
      exact hWithin.distinct
    · have hLength := congrArg List.length hPages
      unfold pages at hLength
      rw [List.length_map, List.length_map] at hLength
      rw [hLength]
      exact Nat.le_trans (Nat.le_succ _) hCount
  · constructor
    · unfold pages
      rw [assign_resident hHeld, List.map_append]
      exact hWithin.distinct.append (List.nodup_singleton _)
        (List.disjoint_singleton.mpr hHeld)
    · rw [assign_resident hHeld, List.length_append,
        List.length_singleton]
      change pool.free.length + (pool.resident.length + 1) +
        taken ≤ pool.capacity
      omega

/- The pool within its capacity, whatever is behind it. -/
abbrev WithinM
    (taken : Nat)
    (state : FramePool ι × τ) : Prop :=
  Within taken state.1

omit [Wal.ByteImage ι] in
theorem callback_within
    {α : Type}
    (program : EStateM EngineError τ α) :
    Triple (WithinM taken) (callback (ι := ι) program)
      (fun _ => WithinM taken) (fun _ => WithinM taken) := by
  intro state hState
  unfold callback
  rw [run_focus]
  cases program.run state.2 with
  | ok value back => exact hState
  | error raised back => exact hState

omit [Wal.ByteImage ι] in
theorem frameAt_within (index : Nat) :
    Triple (WithinM (τ := τ) taken)
      (frameAt (ι := ι) index) (fun _ => WithinM taken)
      (fun _ => WithinM taken) := by
  refine Triple.read fun state hState => ?_
  rcases state with ⟨pool, back⟩
  dsimp only
  cases pool.frames[index]? with
  | none => exact Triple.throw fun _ h => h ▸ hState
  | some frame => exact Triple.pure fun _ h => h ▸ hState

end Within

variable {env : PoolEnv τ ι}

omit [Wal.ByteImage ι] in
/- An eviction leaves the caller a frame, or raises. -/
theorem evict_within :
    Triple (WithinM 0) (evict env)
      (fun _ => WithinM 1) (fun _ => WithinM 0) := by
  have hLess : ∀ pool : FramePool ι,
      Within 1 pool → Within 0 pool :=
    fun _ h => ⟨h.distinct, Nat.le_of_succ_le h.count⟩
  refine Triple.read fun state hState => ?_
  rcases state with ⟨pool, back⟩
  dsimp only
  cases hResident : pool.resident with
  | nil => exact Triple.throw fun _ h => h ▸ hState
  | cons entry rest =>
    rcases entry with ⟨victim, index⟩
    have hPopped : Within 1
        { pool with resident := rest } := by
      have hDistinct := hState.distinct
      have hCount : pool.free.length +
          pool.resident.length + 0 ≤ pool.capacity :=
        hState.count
      unfold pages at hDistinct
      rw [hResident] at hDistinct hCount
      rw [List.length_cons] at hCount
      exact ⟨(List.nodup_cons.mp hDistinct).2, by
        change pool.free.length + rest.length + 1 ≤
          pool.capacity
        omega⟩
    refine Triple.bind
      (Triple.modify (Q := fun _ => WithinM 1)
        fun current hCurrent => by
          rw [hCurrent]
          exact hPopped) fun _ => ?_
    refine Triple.bind ((frameAt_within index).raises
      (fun _ _ h => hLess _ h)) fun frame => ?_
    have hLast : Triple (WithinM (τ := τ) 1)
        (do
          change fun pool => pool.setFrame index
            { frame with pageId := none, dirty := false }
          return index)
        (fun _ => WithinM 1) (fun _ => WithinM 0) :=
      Triple.bind (Triple.modify fun _ h =>
        (h.setFrame index _ : WithinM 1 _)) fun _ =>
          Triple.pure fun _ h => h
    refine Triple.ite (fun _ => ?_) fun _ => ?_
    · exact Triple.bind ((callback_within _).raises
        (fun _ _ h => hLess _ h)) fun _ => hLast
    · exact hLast

omit [Wal.ByteImage ι] in
theorem takeFrame_within :
    Triple (WithinM 0) (takeFrame env)
      (fun _ => WithinM 1) (fun _ => WithinM 0) := by
  refine Triple.read fun state hState => ?_
  rcases state with ⟨pool, back⟩
  dsimp only
  cases hFree : pool.free.getLast? with
  | none =>
    exact evict_within.pre (fun _ h => h ▸ hState)
  | some index =>
    have hSplit : pool.free.dropLast ++ [index] =
        pool.free :=
      List.dropLast_append_getLast? index hFree
    have hLength := congrArg List.length hSplit
    rw [List.length_append, List.length_singleton]
      at hLength
    have hCount : pool.free.length +
        pool.resident.length + 0 ≤ pool.capacity :=
      hState.count
    have hTaken : Within 1
        { pool with free := pool.free.dropLast } :=
      ⟨hState.distinct, by
        change pool.free.dropLast.length +
          pool.resident.length + 1 ≤ pool.capacity
        omega⟩
    refine Triple.bind
      (Triple.modify (Q := fun _ => WithinM 1)
        fun current hCurrent => by
          rw [hCurrent]
          exact hTaken) fun _ => ?_
    exact Triple.pure fun _ h => h

omit [Wal.ByteImage ι] in
theorem admitPage_within
    (pageId : PageId)
    (raw : ι)
    (dirty : Bool) :
    Triple (WithinM 0) (admitPage env pageId raw dirty)
      (fun _ => WithinM 0) (fun _ => WithinM 0) := by
  have hLess : ∀ pool : FramePool ι,
      Within 1 pool → Within 0 pool :=
    fun _ h => ⟨h.distinct, Nat.le_of_succ_le h.count⟩
  refine Triple.bind takeFrame_within fun index => ?_
  refine Triple.bind ((frameAt_within index).raises
    (fun _ _ h => hLess _ h)) fun _ => ?_
  exact Triple.modify fun _ h =>
    (h.setFrame index _).assign pageId index

omit [Wal.ByteImage ι] in
theorem fetch_within (pageId : PageId) :
    Triple (WithinM 0) (fetch env pageId)
      (fun _ => WithinM 0) (fun _ => WithinM 0) := by
  refine Triple.read fun state hState => ?_
  rcases state with ⟨pool, back⟩
  dsimp only
  cases pool.indexOf pageId with
  | some index =>
    refine Triple.bind ((frameAt_within index).pre
      (fun _ h => h ▸ hState)) fun frame => ?_
    exact Triple.bind (Triple.modify fun _ h =>
      (h.moveToEnd pageId : WithinM 0 _)) fun _ =>
        Triple.pure fun _ h => h
  | none =>
    refine Triple.bind ((callback_within _).pre
      (fun _ h => h ▸ hState)) fun raw => ?_
    exact Triple.bind (admitPage_within pageId raw false)
      fun _ => Triple.pure fun _ h => h

theorem store_within
    (pageId : PageId)
    (raw : ι) :
    Triple (WithinM 0) (store env pageId raw)
      (fun _ => WithinM 0) (fun _ => WithinM 0) := by
  refine Triple.read fun state hState => ?_
  rcases state with ⟨pool, back⟩
  refine Triple.ite (fun _ => Triple.throw fun _ h =>
    h ▸ hState) fun _ => ?_
  cases pool.indexOf pageId with
  | some index =>
    refine Triple.bind ((frameAt_within index).pre
      (fun _ h => h ▸ hState)) fun frame => ?_
    exact Triple.modify fun _ h =>
      (h.setFrame index _).moveToEnd pageId
  | none =>
    exact (admitPage_within pageId raw true).pre
      (fun _ h => h ▸ hState)

omit [Wal.ByteImage ι] in
theorem flushEntries_within
    (entries : List (PageId × Nat)) :
    Triple (WithinM 0) (flushEntries env entries)
      (fun _ => WithinM 0) (fun _ => WithinM 0) := by
  induction entries with
  | nil => exact Triple.pure fun _ h => h
  | cons entry rest ih =>
    refine Triple.bind (frameAt_within entry.2)
      fun frame => ?_
    refine Triple.ite (fun _ => ?_) fun _ => ih
    refine Triple.bind (callback_within _) fun _ => ?_
    refine Triple.bind
      (Triple.modify (Q := fun _ => WithinM 0)
        fun _ h => h.setFrame entry.2 _) fun _ => ?_
    exact Triple.bind ih fun _ => Triple.pure fun _ h => h

omit [Wal.ByteImage ι] in
theorem flush_within :
    Triple (WithinM 0) (flush env) (fun _ => WithinM 0)
      (fun _ => WithinM 0) :=
  Triple.read fun state hState =>
    (flushEntries_within state.1.resident).pre
      (fun _ h => h ▸ hState)

omit [Wal.ByteImage ι] in
theorem invalidate_within (pageId : PageId) :
    Triple (WithinM (τ := τ) (ι := ι) 0)
      (invalidate pageId) (fun _ => WithinM 0)
      (fun _ => WithinM 0) := by
  refine Triple.read fun state hState => ?_
  rcases state with ⟨pool, back⟩
  dsimp only
  cases hIndex : pool.indexOf pageId with
  | none => exact Triple.pure fun _ h => h ▸ hState
  | some index =>
    have hMoved : pool.resident.length =
        ((pool.popPage pageId).resident ++
          [(pageId, index)]).length :=
      (resident_perm hState.distinct hIndex).length_eq
    rw [List.length_append, List.length_singleton]
      at hMoved
    have hCount : pool.free.length +
        pool.resident.length + 0 ≤ pool.capacity :=
      hState.count
    have hPopped : Within 1 (pool.popPage pageId) := by
      constructor
      · rw [popPage_pages]
        exact hState.distinct.filter _
      · change pool.free.length +
          (pool.popPage pageId).resident.length + 1 ≤
            pool.capacity
        omega
    refine Triple.bind
      (Triple.modify (Q := fun _ => WithinM 1)
        fun current hCurrent => by
          rw [hCurrent]
          exact hPopped) fun _ => ?_
    refine Triple.bind ((frameAt_within index).raises
      fun _ _ h =>
        ⟨h.distinct, Nat.le_of_succ_le h.count⟩)
      fun frame => ?_
    refine Triple.modify fun current h =>
      ⟨h.distinct, ?_⟩
    have hHeld := h.count
    simp only [FramePool.setFrame, List.length_append,
      List.length_singleton]
    omega

theorem make_within (call : PoolCall ι) :
    Triple (WithinM 0) (make env call) (fun _ => WithinM 0)
      (fun _ => WithinM 0) := by
  cases call with
  | fetch pageId =>
    exact Triple.bind (fetch_within pageId) fun _ =>
      Triple.pure fun _ h => h
  | store pageId raw => exact store_within pageId raw
  | flush =>
    exact Triple.bind flush_within fun _ =>
      Triple.pure fun _ h => h
  | invalidate pageId => exact invalidate_within pageId
  | clear flushes =>
    have hReset : Triple (WithinM (τ := τ) 0)
        (change (ι := ι) reset) (fun _ => WithinM 0)
        (fun _ => WithinM 0) :=
      Triple.modify fun _ _ =>
        ⟨List.nodup_nil, by simp [reset]⟩
    refine Triple.ite (fun _ => ?_) fun _ => ?_
    · exact Triple.bind flush_within fun _ => hReset
    · exact hReset

/- Through every run. -/
theorem lived_within
    {state : FramePool ι × τ}
    (hLived : Lived env state) :
    Within 0 state.1 := by
  induction hLived with
  | created back hCreate =>
    unfold create at hCreate
    split at hCreate
    · cases hCreate
    · cases hCreate
      exact ⟨List.nodup_nil, by simp⟩
  | returned call _ hOk ih =>
    exact (make_within call).of_ok ih hOk
  | raised call _ hError ih =>
    exact (make_within call).of_error ih hError

--
-- The Write Back That Fails
--

/- No frame is free, and writing the oldest page's unsaved
   image raises. -/
structure WriteBackFails
    (env : PoolEnv τ ι)
    (pool : FramePool ι)
    (back : τ)
    (victim : PageId)
    (frame : PoolFrame ι)
    (error : EngineError)
    (back' : τ) : Prop where
  full : pool.free = []
  oldest : ∃ index rest,
    pool.resident = (victim, index) :: rest ∧
      pool.frames[index]? = some frame
  dirty : frame.dirty = true
  raises : (env.writeThrough victim frame.data).run back =
    .error error back'

/- A fetch or a store of a page that is not resident runs
   into such an eviction. -/
inductive EvictionFails
    (env : PoolEnv τ ι)
    (pool : FramePool ι)
    (back : τ)
    (victim : PageId)
    (frame : PoolFrame ι)
    (error : EngineError)
    (back' : τ) : PoolCall ι → Prop where
  | fetch {pageId raw read} :
      pool.indexOf pageId = none →
      (env.readThrough pageId).run back = .ok raw read →
      WriteBackFails env pool read victim frame error
        back' →
      EvictionFails env pool back victim frame error back'
        (.fetch pageId)
  | store {pageId raw} :
      Wal.byteLength raw = pool.pageSize →
      pool.indexOf pageId = none →
      WriteBackFails env pool back victim frame error
        back' →
      EvictionFails env pool back victim frame error back'
        (.store pageId raw)

/-
  What a failed write back should leave: the page resident
  with its unsaved image, which a fetch returns and a flush
  writes, and every frame free or in use.
-/
structure NothingLost
    (left : FramePool ι)
    (victim : PageId)
    (unsaved : ι) : Prop where
  held : ∃ index frame,
    left.indexOf victim = some index ∧
      left.frames[index]? = some frame ∧
      frame.dirty = true ∧ frame.data = unsaved
  count : left.free.length + left.resident.length =
    left.capacity

variable {pool : FramePool ι} {back back' : τ} {victim : PageId}
variable {frame : PoolFrame ι} {error : EngineError}

/- The pool without the oldest page, its frame unaccounted
   for. -/
def stranded (pool : FramePool ι) : FramePool ι :=
  { pool with resident := pool.resident.tail }

omit [Wal.ByteImage ι] in
theorem evict_fails
    (hFails : WriteBackFails env pool back victim frame
      error back') :
    (evict env).run (pool, back) =
      .error error (pool.stranded, back') := by
  rcases hFails.oldest with ⟨index, rest, hResident, hFrame⟩
  have hRead : (frameAt index).run
      ({ pool with resident := rest }, back) =
      .ok frame ({ pool with resident := rest }, back) := by
    unfold frameAt
    rw [EStateM.run_bind, EStateM.run_get]
    simp only [hFrame]
    rfl
  have hWrite : (callback (ι := ι)
      (env.writeThrough victim frame.data)).run
      ({ pool with resident := rest }, back) =
      .error error ({ pool with resident := rest }, back') := by
    unfold callback
    rw [run_focus, hFails.raises]
  have hChange : (change (τ := τ) fun pool : FramePool ι =>
      { pool with resident := rest }).run (pool, back) =
      .ok () ({ pool with resident := rest }, back) := rfl
  unfold evict
  rw [EStateM.run_bind, EStateM.run_get]
  simp only [hResident]
  rw [EStateM.run_bind, hChange]
  simp only []
  rw [EStateM.run_bind, hRead]
  simp only [hFails.dirty, if_true]
  rw [EStateM.run_bind, hWrite]
  simp only [stranded, hResident, List.tail_cons]

omit [Wal.ByteImage ι] in
theorem admitPage_fails
    (hFails : WriteBackFails env pool back victim frame
      error back')
    (pageId : PageId)
    (raw : ι)
    (dirty : Bool) :
    (admitPage env pageId raw dirty).run (pool, back) =
      .error error (pool.stranded, back') := by
  have hTake : (takeFrame env).run (pool, back) =
      .error error (pool.stranded, back') := by
    unfold takeFrame
    rw [EStateM.run_bind, EStateM.run_get]
    simp only [hFails.full, List.getLast?_nil]
    exact evict_fails hFails
  unfold admitPage
  rw [EStateM.run_bind, hTake]

theorem make_fails
    {call : PoolCall ι}
    (hFails : EvictionFails env pool back victim frame error
      back' call) :
    (make env call).run (pool, back) =
      .error error (pool.stranded, back') := by
  cases hFails with
  | @fetch pageId raw read hAbsent hRead hWrite =>
    have hCallback : (callback (ι := ι)
        (env.readThrough pageId)).run (pool, back) =
        .ok raw (pool, read) := by
      unfold callback
      rw [run_focus, hRead]
    unfold make fetch
    simp only [EStateM.run_bind, EStateM.run_get]
    simp only [hAbsent]
    rw [EStateM.run_bind, hCallback]
    simp only []
    rw [EStateM.run_bind, admitPage_fails hWrite]
  | @store pageId raw hSize hAbsent hWrite =>
    unfold make store
    rw [EStateM.run_bind, EStateM.run_get]
    simp only [hSize, ne_eq, not_true_eq_false, if_false,
      hAbsent]
    exact admitPage_fails hWrite pageId raw true

omit [Wal.ByteImage ι] in
/- The victim is not in the pool, and a frame is missing. -/
theorem stranded_short
    (hWithin : Within 0 pool)
    (hFails : WriteBackFails env pool back victim frame
      error back') :
    pool.stranded.indexOf victim = none ∧
      pool.stranded.free.length +
          pool.stranded.resident.length <
        pool.stranded.capacity := by
  rcases hFails.oldest with ⟨index, rest, hResident, _⟩
  have hDistinct := hWithin.distinct
  have hCount := hWithin.count
  unfold pages at hDistinct
  rw [hResident] at hDistinct hCount
  rw [List.map_cons, List.nodup_cons] at hDistinct
  rw [List.length_cons] at hCount
  constructor
  · unfold indexOf stranded
    rw [hResident, List.tail_cons, Option.map_eq_none_iff,
      List.find?_eq_none]
    intro entry hEntry hSame
    exact hDistinct.1 (List.mem_map.mpr
      ⟨entry, hEntry, of_decide_eq_true hSame⟩)
  · change pool.free.length + pool.resident.tail.length <
      pool.capacity
    rw [hResident, List.tail_cons]
    omega

/-
  In whatever state the pool has come to be, an eviction that
  cannot write its page loses it, and a frame with it.
-/
theorem failed_write_back_loses
    {call : PoolCall ι}
    (hLived : Lived env (pool, back))
    (hFails : EvictionFails env pool back victim frame error
      back' call) :
    ∃ left,
      (make env call).run (pool, back) =
        .error error (left, back') ∧
      left.indexOf victim = none ∧
      left.free.length + left.resident.length < left.capacity ∧
      ¬ NothingLost left victim frame.data := by
  have hShort : pool.stranded.indexOf victim = none ∧
      pool.stranded.free.length +
          pool.stranded.resident.length <
        pool.stranded.capacity := by
    cases hFails with
    | fetch _ _ hWrite =>
      exact stranded_short (lived_within hLived) hWrite
    | store _ _ hWrite =>
      exact stranded_short (lived_within hLived) hWrite
  refine ⟨pool.stranded, make_fails hFails, hShort.1,
    hShort.2, fun hKept => ?_⟩
  have hCount := hKept.count
  omega

end FramePool

/- A dictionary that cannot be written to. -/
def fullDisk : PoolEnv (PageId → Option Bytes) Bytes where
  readThrough := dictionary.readThrough
  writeThrough _ _ :=
    throw (.valueError "no space left on device")

/- Two frames, with an unsaved image in each. -/
def fullPool : FramePool Bytes where
  pageSize := 1
  capacity := 2
  frames :=
    [⟨some 0, [7], true⟩, ⟨some 1, [8], true⟩]
  free := []
  resident := [(0, 0), (1, 1)]

theorem fullPool_lived :
    FramePool.Lived fullDisk (fullPool, fun _ => none) := by
  have hHalf : FramePool.Lived fullDisk
      ({ fullPool with
          frames := [⟨some 0, [7], true⟩, ⟨none, [], false⟩]
          free := [1]
          resident := [(0, 0)] }, fun _ => none) :=
    .returned (.store 0 [7])
      (@FramePool.Lived.created _ _ _ fullDisk 1 2 _
        (fun _ => none) rfl) rfl
  exact .returned (.store 1 [8]) hHalf rfl

theorem failed_write_back_loses_store :
    ∃ left,
      (FramePool.make fullDisk (.store 2 [9])).run
          (fullPool, fun _ => none) =
        .error (.valueError "no space left on device")
          (left, fun _ => none) ∧
      left.indexOf 0 = none ∧
      left.free.length + left.resident.length < left.capacity ∧
      ¬ FramePool.NothingLost left 0 [7] :=
  FramePool.failed_write_back_loses fullPool_lived
    (.store rfl rfl ⟨rfl, ⟨0, _, rfl, rfl⟩, rfl, rfl⟩)

/- The image stored for page 0 cannot be fetched again, and
   one frame of two is left. -/
theorem failed_write_back_drops :
    ∃ left : FramePool Bytes,
      FramePool.Lived fullDisk (fullPool, fun _ => none) ∧
      (FramePool.fetch fullDisk 0).run
          (fullPool, fun _ => none) =
        .ok [7] (fullPool.moveToEnd 0, fun _ => none) ∧
      (FramePool.make fullDisk (.store 2 [9])).run
          (fullPool, fun _ => none) =
        .error (.valueError "no space left on device")
          (left, fun _ => none) ∧
      (FramePool.fetch fullDisk 0).run
          (left, fun _ => none) =
        .error (.keyError "0") (left, fun _ => none) ∧
      left.free = [] ∧ left.resident = [(1, 1)] ∧
      ¬ FramePool.NothingLost left 0 [7] := by
  refine ⟨fullPool.stranded, fullPool_lived, rfl, rfl, rfl,
    rfl, rfl, fun hKept => ?_⟩
  have hCount := hKept.count
  simp [FramePool.stranded, fullPool] at hCount

end Storage

end ChenDB
