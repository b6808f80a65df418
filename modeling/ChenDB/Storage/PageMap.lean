import ChenDB.Storage.PageRuns

/-
  A heap page as a map from slot ids to payloads, which no
  compaction disturbs.
-/

namespace ChenDB

namespace Storage

open Library.Buffer Library.Struct Library.StateExcept

--
-- Validation
--

section Validate

variable {raw : PageBuffer} {page : Page Bytes}
variable {offsets : Nat → Nat}

theorem validateHeader_run
    (hEncodes : Encodes raw page offsets) :
    PageBuffer.validateHeader.run raw = .ok () raw := by
  have hFits := hEncodes.fits
  have hInside := hEncodes.inside
  have hStart := hEncodes.directory
  unfold PageBuffer.validateHeader
  refine run_bind_of_ok (EStateM.run_get raw) ?_
  refine run_bind_of_ok hEncodes.slotCount_run ?_
  refine run_bind_of_ok hEncodes.freeStart_run ?_
  rw [if_neg (not_not.mpr hStart)]
  refine run_bind_of_ok hEncodes.freeEnd_run ?_
  rw [hEncodes.size, if_neg (by omega)]
  rfl

theorem validateFrom_run
    (hEncodes : Encodes raw page offsets)
    {left slotId : Nat}
    (hLeft : slotId + left = page.slotCount) :
    (PageBuffer.validateFrom left slotId).run raw =
      .ok () raw := by
  induction left generalizing slotId with
  | zero => rfl
  | succ left ih =>
    have hSlot : slotId < page.slots.length := by
      unfold Page.slotCount at hLeft
      omega
    have hHere := List.getElem?_eq_getElem hSlot
    unfold PageBuffer.validateFrom
    cases hFound : page.slots[slotId] with
    | none =>
      rw [hFound] at hHere
      refine run_bind_of_ok
        (hEncodes.readSlot_dead hHere) ?_
      exact ih (by omega)
    | some payload =>
      rw [hFound] at hHere
      have hRegion := hEncodes.region slotId payload hHere
      refine run_bind_of_ok
        (hEncodes.readSlot_live hHere) ?_
      simp only []
      rw [if_neg (hEncodes.offset_pos hHere)]
      refine run_bind_of_ok (EStateM.run_get raw) ?_
      refine run_bind_of_ok hEncodes.freeEnd_run ?_
      rw [hEncodes.size, if_neg (by omega)]
      exact ih (by omega)

theorem validate_run
    (hEncodes : Encodes raw page offsets) :
    PageBuffer.validate.run raw = .ok () raw := by
  unfold PageBuffer.validate
  refine run_bind_of_ok (validateHeader_run hEncodes) ?_
  refine run_bind_of_ok hEncodes.slotCount_run ?_
  exact validateFrom_run hEncodes (Nat.zero_add _)

end Validate

--
-- A Page as a Map
--

/- A slot of the directory that points at a record. -/
structure LiveSlot
    (raw : PageBuffer)
    (slotId offset length : Nat) : Prop where
  within : ∃ count,
    PageBuffer.slotCount.run raw = .ok count raw ∧
      slotId < count
  entry : (PageBuffer.readSlot slotId).run raw =
    .ok (offset, length) raw
  live : offset ≠ 0

/- The page is the map that `stored` says, and stays one. -/
structure StoresExactly
    (raw : PageBuffer)
    (stored : Int → Option Bytes) : Prop where
  read : ∀ slotId,
    (PageBuffer.read slotId).run raw = .ok (stored slotId) raw
  fresh : ∀ payload slotId after,
    (PageBuffer.insert payload).run raw =
        .ok (some slotId) after →
      stored slotId = none
  kept : ∀ payload slotId after,
    (PageBuffer.insert payload).run raw =
        .ok (some slotId) after →
      ∀ other offset length, LiveSlot raw other offset length →
        LiveSlot after other offset length ∧
          slice after.buf offset (offset + length) =
            slice raw.buf offset (offset + length)
  compact : ∃ gained after,
    PageBuffer.compact.run raw = .ok gained after ∧
      ∀ slotId, (PageBuffer.read slotId).run after =
        .ok (stored slotId) after
  validate : PageBuffer.validate.run raw = .ok () raw
  pointers : ∃ count start stop,
    PageBuffer.slotCount.run raw = .ok count raw ∧
      PageBuffer.freeStart.run raw = .ok start raw ∧
      PageBuffer.freeEnd.run raw = .ok stop raw ∧
      start = PageBuffer.slotOffset count ∧ start ≤ stop ∧
      ∀ slotId offset length,
        LiveSlot raw slotId offset length →
          stop ≤ offset ∧ offset + length ≤ raw.pageSize
  apart : ∀ first second firstOffset firstLength secondOffset
      secondLength,
    first ≠ second →
    LiveSlot raw first firstOffset firstLength →
    LiveSlot raw second secondOffset secondLength →
      firstOffset + firstLength ≤ secondOffset ∨
        secondOffset + secondLength ≤ firstOffset

section Map

variable {raw : PageBuffer} {page : Page Bytes}
variable {offsets : Nat → Nat}

variable {slotId : Nat}

/- The live slots of a buffer are those of its page. -/
theorem liveSlot_iff
    (hEncodes : Encodes raw page offsets)
    {offset length : Nat} :
    LiveSlot raw slotId offset length ↔
      ∃ payload, page.slots[slotId]? = some (some payload) ∧
        offset = offsets slotId ∧ length = payload.length := by
  constructor
  · rintro ⟨⟨count, hCount, hBelow⟩, hEntry, hLive⟩
    rw [hEncodes.slotCount_run] at hCount
    cases hCount
    have hHere := List.getElem?_eq_getElem hBelow
    rw [hEncodes.readSlot_run hHere] at hEntry
    cases hFound : page.slots[slotId] with
    | none =>
      rw [hFound] at hEntry
      cases hEntry
      exact absurd rfl hLive
    | some payload =>
      rw [hFound] at hEntry hHere
      cases hEntry
      exact ⟨payload, hHere, rfl, rfl⟩
  · rintro ⟨payload, hSlot, rfl, rfl⟩
    exact ⟨⟨_, hEncodes.slotCount_run, Encodes.slot_lt hSlot⟩,
      hEncodes.readSlot_live hSlot,
      hEncodes.offset_pos hSlot⟩

/- What an insert that returned a slot did. -/
theorem insert_returned
    (hEncodes : Encodes raw page offsets)
    {payload : Bytes}
    {after : PageBuffer}
    (hRun : (PageBuffer.insert payload).run raw =
      .ok (some slotId) after) :
    ∃ page', page.insert payload =
        .ok (some (slotId, page')) ∧
      Encodes after page'
        (Function.update offsets slotId page'.freeEnd) := by
  have hInsert := insert_run hEncodes payload
  cases hPage : page.insert payload with
  | error raised =>
    rw [hPage] at hInsert
    rw [hInsert] at hRun
    cases hRun
  | ok result =>
    rw [hPage] at hInsert
    cases result with
    | none =>
      rw [hInsert] at hRun
      cases hRun
    | some placed =>
      rcases placed with ⟨placedAt, page'⟩
      rcases hInsert with ⟨buf, hOk, hAfter⟩
      rw [hOk] at hRun
      cases hRun
      exact ⟨page', rfl, hAfter⟩

/- A buffer that holds a page stores what the page does. -/
theorem Encodes.storesExactly
    (hEncodes : Encodes raw page offsets) :
    StoresExactly raw (readAt page) where
  read slotId := read_run hEncodes slotId
  fresh payload slotId after hRun := by
    rcases insert_returned hEncodes hRun with
      ⟨page', hInsert, -⟩
    unfold readAt
    rw [if_neg (by omega), Int.toNat_natCast]
    exact (insert_stores hInsert).2.1
  kept payload slotId after hRun other offset length
      hLive := by
    rcases insert_returned hEncodes hRun with
      ⟨page', hInsert, hAfter⟩
    rcases insert_stores hInsert with ⟨-, hDead, -, hOther⟩
    rcases (liveSlot_iff hEncodes).mp hLive with
      ⟨held, hSlot, rfl, rfl⟩
    have hNe : other ≠ slotId := by
      rintro rfl
      unfold Page.read at hDead
      rw [hSlot] at hDead
      cases hDead
    have hSlotAfter := (hOther other hNe).trans hSlot
    have hOffset : offsets other = Function.update offsets
        slotId page'.freeEnd other :=
      (Function.update_of_ne hNe _ _).symm
    refine ⟨(liveSlot_iff hAfter).mpr
      ⟨held, hSlotAfter, hOffset, rfl⟩, ?_⟩
    rw [hEncodes.record other held hSlot, hOffset]
    exact hAfter.record other held hSlotAfter
  compact := by
    rcases compact_run hEncodes with ⟨buf, slid, hRun, hAfter⟩
    refine ⟨_, _, hRun, fun slotId => ?_⟩
    rw [← readAt_compact page]
    exact read_run hAfter slotId
  validate := validate_run hEncodes
  pointers := by
    refine ⟨_, _, _, hEncodes.slotCount_run,
      hEncodes.freeStart_run, hEncodes.freeEnd_run,
      hEncodes.directory, hEncodes.fits, ?_⟩
    intro slotId offset length hLive
    rcases (liveSlot_iff hEncodes).mp hLive with
      ⟨payload, hSlot, rfl, rfl⟩
    rw [hEncodes.size]
    exact hEncodes.region slotId payload hSlot
  apart first second firstOffset firstLength secondOffset
      secondLength hDistinct hFirst hSecond := by
    rcases (liveSlot_iff hEncodes).mp hFirst with
      ⟨payload, hFirstSlot, rfl, rfl⟩
    rcases (liveSlot_iff hEncodes).mp hSecond with
      ⟨other, hSecondSlot, rfl, rfl⟩
    exact hEncodes.apart first second payload other hDistinct
      hFirstSlot hSecondSlot

end Map

/-
  After any calls of a heap on a new page, the page is the
  map of what was stored and not deleted since.
-/
theorem heap_page_is_map
    (pageId : PageId)
    (pageType : PageType)
    {pageSize : Nat}
    (hValid : validatePageSize pageSize = .ok ())
    (hSmall : pageSize < 65536)
    {calls : List RecordCall}
    (hHeap : ∀ call ∈ calls, call.onHeap = true) :
    ∃ stored final,
      fromCreation pageId pageType pageSize calls =
        .ok (stored, final) ∧
      StoresExactly final stored := by
  rcases fromCreation_encodes pageId pageType hValid hSmall
      calls with
    ⟨stored, final, page, offsets, hRun, hFinal, hStored⟩
  refine ⟨stored, final, hRun, ?_⟩
  rw [hStored hHeap]
  exact hFinal.storesExactly

/- A page whose freed slot is taken again. -/
theorem heap_page_reuses :
    ∃ stored final,
      fromCreation 1 .heap 256
          [.insert [1, 2], .insert [3], .delete 0, .compact,
            .insert [4], .overwrite 1 [5]] =
        .ok (stored, final) ∧
      StoresExactly final stored :=
  heap_page_is_map 1 .heap (by decide) (by decide) (by decide)

end Storage

end ChenDB
