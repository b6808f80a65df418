import ChenDB.Storage.PageChanges

/-
  Compaction of a buffer: the live records are copied out,
  the region is cleared, and each goes back below the one
  before it, until the directory is cut at its last live
  slot.
-/

namespace ChenDB

namespace Storage

open Library.Buffer Library.Struct Library.StateExcept

--
-- Copying Out
--

/- The live slots among these, numbered from here on. -/
def liveSlots :
    List (Option Bytes) → Nat → List (Nat × Bytes)
  | [], _ => []
  | none :: rest, slotId => liveSlots rest (slotId + 1)
  | some payload :: rest, slotId =>
    (slotId, payload) :: liveSlots rest (slotId + 1)

section Compact

variable {raw : PageBuffer} {page : Page Bytes}
variable {offsets : Nat → Nat}

theorem liveFrom_run
    (hEncodes : Encodes raw page offsets)
    {left slotId : Nat}
    (hLeft : slotId + left = page.slotCount) :
    (PageBuffer.liveFrom left slotId).run raw =
      .ok (liveSlots (page.slots.drop slotId) slotId)
        raw := by
  induction left generalizing slotId with
  | zero =>
    have hNone : page.slots.drop slotId = [] :=
      List.drop_of_length_le (Nat.le_of_eq hLeft.symm)
    rw [hNone]
    rfl
  | succ left ih =>
    have hSlot : slotId < page.slots.length := by
      unfold Page.slotCount at hLeft
      omega
    have hHere := List.getElem?_eq_getElem hSlot
    rw [List.drop_eq_getElem_cons hSlot]
    unfold PageBuffer.liveFrom
    cases hFound : page.slots[slotId] with
    | none =>
      rw [hFound] at hHere
      refine run_bind_of_ok
        (hEncodes.readSlot_dead hHere) ?_
      refine run_bind_of_ok (EStateM.run_get raw) ?_
      refine run_bind_of_ok (ih (by omega)) ?_
      rfl
    | some payload =>
      rw [hFound] at hHere
      refine run_bind_of_ok
        (hEncodes.readSlot_live hHere) ?_
      refine run_bind_of_ok (EStateM.run_get raw) ?_
      refine run_bind_of_ok (ih (by omega)) ?_
      rw [if_neg (hEncodes.offset_pos hHere),
        hEncodes.record _ _ hHere]
      rfl

--
-- Sliding
--

/-
  Between two records: the slots done hold their payloads
  from the cursor up, and those to come leave room for
  theirs below it. Of the slots to come only the tombstones
  matter, the others are written again.
-/
structure Sliding
    (raw : PageBuffer)
    (page : Page Bytes)
    (done rest : List (Option Bytes))
    (offsets : Nat → Nat)
    (cursor : Nat) : Prop extends
    Holds raw.buf done offsets cursor page.pageSize where
  slots : page.slots = done ++ rest
  dead : ∀ slotId, page.slots[slotId]? = some none →
    slice raw.buf (PageBuffer.slotOffset slotId)
        (PageBuffer.slotOffset slotId + 4) =
      entryBytes none 0
  size : raw.pageSize = page.pageSize
  length : raw.buf.length = page.pageSize
  small : page.pageSize < 65536
  slotCount : slice raw.buf 14 16 = encode 2 page.slotCount
  freeStart : slice raw.buf 16 18 = encode 2 page.freeStart
  directory :
    page.freeStart = PageBuffer.slotOffset page.slotCount
  room : page.freeStart + slotBytes rest ≤ cursor
  full : cursor + slotBytes done = page.pageSize

variable {done rest : List (Option Bytes)} {cursor : Nat}

/- A tombstone is passed over. -/
theorem Sliding.skip
    (hSliding : Sliding raw page done (none :: rest) offsets
      cursor) :
    Sliding raw page (done ++ [none]) rest offsets cursor := by
  have hSlots := hSliding.slots
  have hLive : ∀ (slotId : Nat) (payload : Bytes),
      (done ++ [none])[slotId]? = some (some payload) →
        done[slotId]? = some (some payload) := by
    intro slotId payload hSlot
    by_cases hLast : slotId = done.length
    · rw [hLast, List.getElem?_concat_length] at hSlot
      cases hSlot
    · rw [getElem?_concat_of_ne done none hLast] at hSlot
      exact hSlot
  have hBytes : slotBytes (done ++ [none]) =
      slotBytes done := by
    rw [slotBytes_append]
    rfl
  have hRest : slotBytes (none :: rest) = slotBytes rest := by
    have hSum := slotBytes_append [none] rest
    rw [List.singleton_append] at hSum
    rw [hSum]
    exact Nat.zero_add _
  refine ⟨⟨?_, ?_, ?_, ?_⟩, ?_, hSliding.dead, hSliding.size,
    hSliding.length, hSliding.small, hSliding.slotCount,
    hSliding.freeStart, hSliding.directory, ?_, ?_⟩
  · intro slotId slot hSlot
    cases slot with
    | none =>
      refine hSliding.dead slotId ?_
      have hWithin : slotId < (done ++ [none]).length :=
        (List.getElem?_eq_some_iff.mp hSlot).1
      rw [hSlots, ← List.singleton_append, ← List.append_assoc,
        List.getElem?_append_left hWithin]
      exact hSlot
    | some payload =>
      exact hSliding.entry slotId _ (hLive _ _ hSlot)
  · intro slotId payload hSlot
    exact hSliding.region _ _ (hLive _ _ hSlot)
  · intro slotId payload hSlot
    exact hSliding.record _ _ (hLive _ _ hSlot)
  · intro first second payload other hDistinct hFirst hSecond
    exact hSliding.apart _ _ _ _ hDistinct
      (hLive _ _ hFirst) (hLive _ _ hSecond)
  · rw [hSlots, List.append_assoc, List.singleton_append]
  · rw [← hRest]
    exact hSliding.room
  · rw [hBytes]
    exact hSliding.full

/- A record goes right below the ones already there. -/
theorem Sliding.place
    {payload : Bytes}
    (hSliding : Sliding raw page done (some payload :: rest)
      offsets cursor) :
    ∃ stored listed,
      (assign (cursor - payload.length : Nat) cursor
          payload).run raw =
        .ok () { raw with buf := stored } ∧
      (PageBuffer.writeSlot done.length
          (cursor - payload.length : Nat)
          payload.length).run { raw with buf := stored } =
        .ok () { raw with buf := listed } ∧
      Sliding { raw with buf := listed } page
        (done ++ [some payload]) rest
        (Function.update offsets done.length
          (cursor - payload.length))
        (cursor - payload.length) := by
  have hSlots := hSliding.slots
  have hSmall := hSliding.small
  have hLength := hSliding.length
  have hFull := hSliding.full
  have hRoom := hSliding.room
  have hDirectory := hSliding.directory
  have hBytes : slotBytes (some payload :: rest) =
      payload.length + slotBytes rest := by
    have hSum := slotBytes_append [some payload] rest
    rw [List.singleton_append] at hSum
    exact hSum
  have hCount : done.length + 1 ≤ page.slotCount := by
    unfold Page.slotCount
    rw [hSlots, List.length_append, List.length_cons]
    omega
  have hHere : page.slots[done.length]? =
      some (some payload) := by
    rw [hSlots, List.getElem?_append_right (Nat.le_refl _),
      Nat.sub_self]
    rfl
  rw [hBytes] at hRoom
  rw [slotOffset_eq] at hDirectory
  have hOffset := slotOffset_eq done.length
  rcases @assign_run raw (cursor - payload.length) cursor
      payload (by omega) (by omega) with
    ⟨stored, hStoredRun, hStored⟩
  rcases @writeSlot_run { raw with buf := stored }
      (cursor - payload.length) done.length payload.length
      (by rw [hStored.length]; omega) (by omega) (by omega)
    with ⟨listed, hListedRun, hListed⟩
  have hKept : ∀ first last,
      last ≤ PageBuffer.slotOffset done.length ∨
        PageBuffer.slotOffset done.length + 4 ≤ first →
      last ≤ cursor - payload.length ∨ cursor ≤ first →
        slice listed first last =
          slice raw.buf first last := by
    intro first last hEntry hRecord
    rw [hListed.outside _ _ hEntry, hStored.outside _ _ hRecord]
  refine ⟨stored, listed, hStoredRun, hListedRun, ?_, ?_, ?_,
    hSliding.size, ?_, hSmall, ?_, ?_, hSliding.directory,
    ?_, ?_⟩
  · refine hSliding.toHolds.placed hListed.inside ?_
      (fun first last _ => hKept first last) ?_ (by omega)
      (by omega) List.getElem?_concat_length ?_
    · rw [Nat.sub_add_cancel (by omega),
        hListed.outside _ _ (by omega)]
      exact hStored.inside
    · rw [slotOffset_eq, List.length_append,
        List.length_singleton]
      omega
    · exact fun other hOther =>
        getElem?_concat_of_ne done _ hOther
  · rw [hSlots, List.append_assoc, List.singleton_append]
  · intro slotId hDead
    have hOther : slotId ≠ done.length := by
      rintro rfl
      rw [hHere] at hDead
      cases hDead
    have hWithin := (List.getElem?_eq_some_iff.mp hDead).1
    unfold Page.slotCount at hDirectory
    rw [hKept _ _ (by simp only [slotOffset_eq]; omega)
      (by simp only [slotOffset_eq]; omega)]
    exact hSliding.dead slotId hDead
  · rw [hListed.length, hStored.length]
    exact hLength
  · rw [hKept _ _ (by omega) (by omega)]
    exact hSliding.slotCount
  · rw [hKept _ _ (by omega) (by omega)]
    exact hSliding.freeStart
  · omega
  · rw [slotBytes_append]
    change _ + (slotBytes done + payload.length) = _
    omega

/- The loop ends with every live record slid. -/
theorem slide_run
    (hSliding : Sliding raw page done rest offsets cursor) :
    ∃ buf final slid,
      (PageBuffer.slide (liveSlots rest done.length)
          cursor).run raw =
        .ok (final : Nat) { raw with buf := buf } ∧
      Sliding { raw with buf := buf } page page.slots [] slid
        final := by
  induction rest generalizing raw done offsets cursor with
  | nil =>
    have hSlots := hSliding.slots
    rw [List.append_nil] at hSlots
    rw [hSlots]
    exact ⟨raw.buf, cursor, offsets, rfl, hSliding⟩
  | cons slot rest ih =>
    have hNext : done.length + 1 =
        (done ++ [slot]).length := by
      rw [List.length_append, List.length_singleton]
    cases slot with
    | none =>
      unfold liveSlots
      rw [hNext]
      exact ih hSliding.skip
    | some payload =>
      rcases hSliding.place with
        ⟨stored, listed, hStored, hListed, hPlaced⟩
      rcases ih hPlaced with ⟨buf, final, slid, hRun, hSlid⟩
      refine ⟨buf, final, slid, ?_, hSlid⟩
      have hRoom := hSliding.room
      have hBytes := slotBytes_append [some payload] rest
      rw [List.singleton_append] at hBytes
      have hOne : slotBytes [some payload] =
          payload.length := rfl
      have hBelow : (cursor : Int) - (payload.length : Int) =
          ((cursor - payload.length : Nat) : Int) := by
        omega
      have hStop : ((cursor - payload.length : Nat) : Int) +
          (payload.length : Int) = (cursor : Int) := by
        omega
      unfold liveSlots PageBuffer.slide
      simp only []
      rw [hBelow, hStop]
      refine run_bind_of_ok hStored ?_
      refine run_bind_of_ok hListed ?_
      rw [hNext]
      exact hRun

--
-- Trimming
--

variable {count : Nat}

theorem trimCount_run
    (hEncodes : Encodes raw page offsets)
    (hCount : count ≤ page.slotCount) :
    (PageBuffer.trimCount count).run raw =
      .ok (count - Page.trailingDead (page.slots.take count))
        raw := by
  induction count with
  | zero => rfl
  | succ count ih =>
    have hBelow : count < page.slots.length := hCount
    have hHere := List.getElem?_eq_getElem hBelow
    have hTake : page.slots.take (count + 1) =
        page.slots.take count ++ [page.slots[count]] :=
      List.take_succ_eq_append_getElem hBelow
    rw [hTake]
    unfold PageBuffer.trimCount
    cases hFound : page.slots[count] with
    | none =>
      rw [hFound] at hHere
      refine run_bind_of_ok
        (hEncodes.readSlot_dead hHere) ?_
      simp only [if_true]
      rw [ih (by omega), trailingDead_append_none,
        Nat.add_sub_add_right]
    | some payload =>
      rw [hFound] at hHere
      refine run_bind_of_ok
        (hEncodes.readSlot_live hHere) ?_
      simp only []
      rw [if_neg (hEncodes.offset_pos hHere),
        trailingDead_append_some]
      rfl

/- The page with its directory cut after its last live
   slot. -/
def trimmed (page : Page Bytes) : Page Bytes :=
  { page with
    slots := Page.trimTrailingDeadSlots page.slots
    freeStart :=
      if (Page.trimTrailingDeadSlots page.slots).length =
          page.slotCount then page.freeStart
      else pageHeaderSize +
        (Page.trimTrailingDeadSlots page.slots).length *
          slotSize }

theorem length_trimTrailingDeadSlots
    (slots : List (Option Bytes)) :
    (Page.trimTrailingDeadSlots slots).length =
      slots.length - Page.trailingDead slots := by
  unfold Page.trimTrailingDeadSlots
  rw [List.length_take]
  omega

variable {buf : Bytes} {bottom : Nat}

/- Slots cut off at the end leave the others as they were. -/
theorem Holds.take
    {before : Bytes}
    {slots : List (Option Bytes)}
    {top : Nat}
    (hHolds : Holds before slots offsets bottom top)
    (hKept : ∀ first last,
      24 ≤ first → last ≤ PageBuffer.slotOffset count ∨
        bottom ≤ first →
        slice buf first last = slice before first last)
    (hBelow : 24 ≤ bottom) :
    Holds buf (slots.take count) offsets bottom top := by
  have hSlots : ∀ (slotId : Nat) (slot : Option Bytes),
      (slots.take count)[slotId]? = some slot →
        slotId < count ∧ slots[slotId]? = some slot := by
    intro slotId slot hSlot
    rw [List.getElem?_take] at hSlot
    split at hSlot
    · rename_i hLess
      exact ⟨hLess, hSlot⟩
    · cases hSlot
  refine ⟨?_, ?_, ?_, ?_⟩
  · intro slotId slot hSlot
    rcases hSlots slotId slot hSlot with ⟨hLess, hOld⟩
    rw [hKept _ _ (by rw [slotOffset_eq]; omega)
      (.inl (by simp only [slotOffset_eq]; omega))]
    exact hHolds.entry slotId slot hOld
  · intro slotId payload hSlot
    exact hHolds.region _ _ (hSlots _ _ hSlot).2
  · intro slotId payload hSlot
    have hOld := (hSlots _ _ hSlot).2
    have hRegion := hHolds.region slotId payload hOld
    rw [hKept _ _ (by omega) (.inr hRegion.1)]
    exact hHolds.record slotId payload hOld
  · intro first second payload other hDistinct hFirst hSecond
    exact hHolds.apart _ _ _ _ hDistinct
      (hSlots _ _ hFirst).2 (hSlots _ _ hSecond).2

theorem trimTrailingDeadSlots_run
    (hEncodes : Encodes raw page offsets) :
    ∃ buf, PageBuffer.trimTrailingDeadSlots.run raw =
        .ok () { raw with buf := buf } ∧
      Encodes { raw with buf := buf } (trimmed page)
        offsets := by
  have hFits := hEncodes.fits
  have hInside := hEncodes.inside
  have hSmall := hEncodes.small
  have hLength := hEncodes.length
  have hStart := hEncodes.freeStart_eq
  have hAll : page.slots.take page.slotCount = page.slots :=
    List.take_length
  have hTrim := trimCount_run hEncodes (Nat.le_refl _)
  rw [hAll] at hTrim
  have hKeptCount :
      (Page.trimTrailingDeadSlots page.slots).length =
        page.slotCount - Page.trailingDead page.slots :=
    length_trimTrailingDeadSlots page.slots
  generalize hCount :
    page.slotCount - Page.trailingDead page.slots = count
      at hTrim hKeptCount
  have hTake : Page.trimTrailingDeadSlots page.slots =
      page.slots.take count := by
    rw [← hCount]
    rfl
  unfold trimmed
  rw [hKeptCount]
  have hFirst : ∀ result,
      ((if count = page.slotCount then pure ()
        else do
          let oldFreeStart ← PageBuffer.freeStart
          let zeros ← zeroBytes ((oldFreeStart : Int) -
            PageBuffer.slotOffset count)
          assign (PageBuffer.slotOffset count) oldFreeStart
            zeros
          PageBuffer.setSlotCount count
          PageBuffer.setFreeStart
            (PageBuffer.slotOffset count)) : PageM Unit).run
              raw = result →
        PageBuffer.trimTrailingDeadSlots.run raw =
          result := by
    intro result hRun
    unfold PageBuffer.trimTrailingDeadSlots
    refine run_bind_of_ok hEncodes.slotCount_run ?_
    refine run_bind_of_ok hTrim ?_
    exact hRun
  by_cases hSame : count = page.slotCount
  · refine ⟨raw.buf, hFirst _ ?_, ?_⟩
    · rw [if_pos hSame]
      rfl
    · rw [if_pos hSame, hTake, hSame, hAll]
      exact hEncodes
  · have hLess : count < page.slotCount := by omega
    have hOffset := slotOffset_eq count
    have hSpan : (page.freeStart : Int) -
        (PageBuffer.slotOffset count : Int) =
          ((page.freeStart -
            PageBuffer.slotOffset count : Nat) : Int) := by
      omega
    rcases @assign_run raw (PageBuffer.slotOffset count)
        page.freeStart
        (List.replicate
          (page.freeStart - PageBuffer.slotOffset count) 0)
        (by rw [List.length_replicate]; omega) (by omega) with
      ⟨cleared, hClearedRun, hCleared⟩
    rcases @setSlotCount_run { raw with buf := cleared }
        count (by rw [hCleared.length]; omega) (by omega) with
      ⟨counted, hCountedRun, hCounted⟩
    rcases @setFreeStart_run { raw with buf := counted }
        (PageBuffer.slotOffset count)
        (by rw [hCounted.length, hCleared.length]; omega)
        (by omega) with ⟨buf, hStartRun, hStarted⟩
    have hKept : ∀ first last, 18 ≤ first →
        last ≤ PageBuffer.slotOffset count ∨
          page.freeStart ≤ first →
          slice buf first last = slice raw.buf first last := by
      intro first last hHeader hEntry
      rw [hStarted.outside _ _ (by omega),
        hCounted.outside _ _ (by omega),
        hCleared.outside _ _ hEntry]
    have hLive : slotBytes (page.slots.take count) ≤
        slotBytes page.slots := by
      have hSum := slotBytes_append (page.slots.take count)
        (page.slots.drop count)
      rw [List.take_append_drop] at hSum
      omega
    have hNewCount : (page.slots.take count).length =
        count := by
      rw [List.length_take]
      exact Nat.min_eq_left (Nat.le_of_lt hLess)
    refine ⟨buf, hFirst _ ?_, ?_⟩
    · rw [if_neg hSame]
      refine run_bind_of_ok hEncodes.freeStart_run ?_
      rw [hSpan]
      refine run_bind_of_ok (zeroBytes_run _) ?_
      refine run_bind_of_ok hClearedRun ?_
      refine run_bind_of_ok hCountedRun ?_
      exact hStartRun
    · rw [if_neg hSame, hTake]
      refine ⟨?_, hEncodes.size, ?_, hEncodes.large, hSmall,
        ?_, hStarted.inside, ?_, ?_, ?_, hInside, ?_⟩
      · exact hEncodes.toHolds.take
          (fun first last hFirst hLast => hKept first last
            (by omega) (by omega))
          (by omega)
      · rw [hStarted.length, hCounted.length, hCleared.length]
        exact hLength
      · unfold Page.slotCount
        rw [hNewCount, hStarted.outside _ _ (by omega)]
        exact hCounted.inside
      · rw [hKept _ _ (by omega) (by omega)]
        exact hEncodes.freeEnd
      · unfold Page.slotCount
        rw [hNewCount]
        rfl
      · change PageBuffer.slotOffset count ≤ page.freeEnd
        omega
      · have hRoom := hEncodes.room
        change page.freeEnd + slotBytes (page.slots.take count)
          ≤ page.pageSize
        change page.freeEnd + slotBytes page.slots ≤
          page.pageSize at hRoom
        omega

--
-- Compaction
--

/- Before the first record, with the region cleared. -/
theorem Encodes.sliding
    (hEncodes : Encodes raw page offsets)
    {zeros : Bytes}
    (hCleared : Wrote raw.buf page.freeEnd page.pageSize zeros
      buf) :
    Sliding { raw with buf := buf } page [] page.slots offsets
      page.pageSize := by
  have hFits := hEncodes.fits
  have hRoom := hEncodes.room
  have hStart := hEncodes.freeStart_eq
  refine ⟨⟨?_, ?_, ?_, ?_⟩, rfl, ?_, hEncodes.size,
    hCleared.length.trans hEncodes.length, hEncodes.small,
    ?_, ?_, hEncodes.directory, ?_, rfl⟩
  · intro slotId slot hSlot
    cases hSlot
  · intro slotId payload hSlot
    cases hSlot
  · intro slotId payload hSlot
    cases hSlot
  · intro first second payload other _ hFirst
    cases hFirst
  · intro slotId hDead
    have hWithin := hEncodes.slot_within (slot_lt hDead)
    rw [hCleared.outside _ _ (by omega)]
    exact hEncodes.entry slotId none hDead
  · rw [hCleared.outside _ _ (by omega)]
    exact hEncodes.slotCount
  · rw [hCleared.outside _ _ (by omega)]
    exact hEncodes.freeStart
  · change page.freeStart + page.liveBytes ≤ page.pageSize
    omega

/- After the last record, with the new region's start set. -/
theorem Sliding.encodes
    (hSliding : Sliding raw page page.slots [] offsets bottom)
    (hLarge : pageHeaderSize + slotSize ≤ page.pageSize)
    (hSet : Wrote raw.buf 18 20 (encode 2 bottom) buf) :
    Encodes { raw with buf := buf }
      { page with
        freeEnd := page.pageSize - page.liveBytes }
      offsets := by
  have hRoom : page.freeStart + 0 ≤ bottom := hSliding.room
  have hFull : bottom + page.liveBytes = page.pageSize :=
    hSliding.full
  have hBottom : page.pageSize - page.liveBytes = bottom := by
    omega
  have hStart := hSliding.directory
  rw [slotOffset_eq] at hStart
  rw [hBottom]
  refine ⟨⟨?_, hSliding.region, ?_, hSliding.apart⟩,
    hSliding.size, hSet.length.trans hSliding.length, hLarge,
    hSliding.small, ?_, ?_, hSet.inside, hSliding.directory,
    hRoom, ?_, ?_⟩
  · intro slotId slot hSlot
    rw [hSet.outside _ _ (by simp only [slotOffset_eq]; omega)]
    exact hSliding.entry slotId slot hSlot
  · intro slotId payload hSlot
    have hRegion := hSliding.region slotId payload hSlot
    rw [hSet.outside _ _ (by omega)]
    exact hSliding.record slotId payload hSlot
  · rw [hSet.outside _ _ (by omega)]
    exact hSliding.slotCount
  · rw [hSet.outside _ _ (by omega)]
    exact hSliding.freeStart
  · change bottom ≤ page.pageSize
    omega
  · exact Nat.le_of_eq hFull

/- `compact` on the buffer is `compact` on its page. -/
theorem compact_run
    (hEncodes : Encodes raw page offsets) :
    ∃ buf slid, PageBuffer.compact.run raw =
        .ok ((page.compact.freeSpace : Int) - page.freeSpace)
          { raw with buf := buf } ∧
      Encodes { raw with buf := buf } page.compact slid := by
  have hInside := hEncodes.inside
  have hLength := hEncodes.length
  have hSmall := hEncodes.small
  have hBounds := hEncodes.bounds
  have hSize := hEncodes.size
  have hSpan : (raw.pageSize : Int) - (page.freeEnd : Int) =
      ((raw.pageSize - page.freeEnd : Nat) : Int) := by
    omega
  rcases @assign_run raw page.freeEnd page.pageSize
      (List.replicate (page.pageSize - page.freeEnd) 0)
      (by rw [List.length_replicate]; omega) (by omega) with
    ⟨cleared, hClearedRun, hCleared⟩
  rcases slide_run (hEncodes.sliding hCleared) with
    ⟨filled, bottom, slid, hSlideRun, hSliding⟩
  have hFull : bottom + page.liveBytes = page.pageSize :=
    hSliding.full
  have hFilled : filled.length = page.pageSize :=
    hSliding.length
  rcases @setFreeEnd_run { raw with buf := filled } bottom
      (by rw [hFilled]; omega) (by omega) with
    ⟨ended, hEndedRun, hEnded⟩
  have hSlid := hSliding.encodes hEncodes.large hEnded
  rcases trimTrailingDeadSlots_run hSlid with
    ⟨buf, hTrimRun, hTrimmed⟩
  refine ⟨buf, slid, ?_, hTrimmed⟩
  unfold PageBuffer.compact
  refine run_bind_of_ok hEncodes.freeSpace_run ?_
  refine run_bind_of_ok hEncodes.slotCount_run ?_
  refine run_bind_of_ok
    (liveFrom_run hEncodes (Nat.zero_add _)) ?_
  refine run_bind_of_ok (EStateM.run_get raw) ?_
  refine run_bind_of_ok hEncodes.freeEnd_run ?_
  rw [← hSize] at hClearedRun hSlideRun
  rw [hSpan]
  refine run_bind_of_ok (zeroBytes_run _) ?_
  refine run_bind_of_ok hClearedRun ?_
  refine run_bind_of_ok hSlideRun ?_
  refine run_bind_of_ok hEndedRun ?_
  refine run_bind_of_ok hTrimRun ?_
  refine run_bind_of_ok hTrimmed.freeSpace_run ?_
  rfl

end Compact

end Storage

end ChenDB
