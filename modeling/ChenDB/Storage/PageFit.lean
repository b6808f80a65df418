import ChenDB.Storage.PageRuns

/-
  Foretelling whether a compaction makes room. A trailing
  tombstone is counted both as a slot to reuse and as bytes
  to gain, and a compaction leaves only the bytes.
-/

namespace ChenDB

namespace Storage

open Library.Buffer Library.Struct Library.StateExcept

--
-- The Directory of a Buffer
--

/- What a slot of the buffer holds. -/
def PageBuffer.slotAt
    (raw : PageBuffer)
    (slotId : Nat) : Option Bytes :=
  let start := PageBuffer.slotOffset slotId
  let offset := decode (slice raw.buf start (start + 2))
  let length := decode (slice raw.buf (start + 2) (start + 4))
  if offset = 0 then none
  else some (slice raw.buf offset (offset + length))

/- Every slot of the buffer, in slot order. -/
def PageBuffer.directory
    (raw : PageBuffer) : List (Option Bytes) :=
  (List.range (decode (slice raw.buf 14 16))).map
    raw.slotAt

section Fit

variable {raw : PageBuffer} {page : Page Bytes}
variable {offsets : Nat → Nat}

theorem Encodes.slotAt_eq
    (hEncodes : Encodes raw page offsets)
    {slotId : Nat}
    {slot : Option Bytes}
    (hSlot : page.slots[slotId]? = some slot) :
    raw.slotAt slotId = slot := by
  rcases hEncodes.fields_eq hSlot with ⟨hOffset, hSize⟩
  unfold PageBuffer.slotAt
  simp only []
  rw [hOffset, hSize]
  cases slot with
  | none => rfl
  | some payload =>
    change (if offsets slotId = 0 then none
      else some (slice raw.buf (offsets slotId)
        (offsets slotId + payload.length))) = _
    rw [if_neg (hEncodes.offset_pos hSlot),
      hEncodes.record slotId payload hSlot]

theorem Encodes.directory_eq
    (hEncodes : Encodes raw page offsets) :
    raw.directory = page.slots := by
  have hCount : decode (slice raw.buf 14 16) =
      page.slots.length := by
    rw [hEncodes.slotCount]
    exact decode_encode hEncodes.bounds.2.1
  unfold PageBuffer.directory
  rw [hCount]
  apply List.ext_getElem
  · rw [List.length_map, List.length_range]
  · intro slotId hLeft hRight
    rw [List.getElem_map, List.getElem_range]
    exact hEncodes.slotAt_eq (List.getElem?_eq_getElem hRight)

end Fit

--
-- Tombstones
--

/- A directory is its trimmed part and then tombstones. -/
theorem trimTrailingDeadSlots_append
    (slots : List (Option Bytes)) :
    Page.trimTrailingDeadSlots slots ++
        List.replicate (Page.trailingDead slots) none =
      slots := by
  induction slots using List.reverseRecOn with
  | nil => rfl
  | append_singleton slots slot ih =>
    cases slot with
    | none =>
      rw [trim_append_none, trailingDead_append_none,
        List.replicate_succ', ← List.append_assoc, ih]
    | some payload =>
      rw [trim_append_some, trailingDead_append_some]
      exact List.append_nil _

theorem findDeadSlot_isSome
    (page : Page Bytes) :
    page.findDeadSlot.isSome = true ↔ none ∈ page.slots := by
  unfold Page.findDeadSlot
  rw [List.findIdx?_isSome, List.any_eq_true]
  constructor
  · rintro ⟨slot, hMem, hNone⟩
    rw [Option.isNone_iff_eq_none.mp hNone] at hMem
    exact hMem
  · intro hMem
    exact ⟨none, hMem, rfl⟩

theorem none_mem_slots_iff
    (slots : List (Option Bytes)) :
    none ∈ slots ↔
      none ∈ Page.trimTrailingDeadSlots slots ∨
        0 < Page.trailingDead slots := by
  conv_lhs => rw [← trimTrailingDeadSlots_append slots]
  rw [List.mem_append, List.mem_replicate, Nat.pos_iff_ne_zero]
  simp

--
-- The Prediction
--

section Predict

variable {raw : PageBuffer} {page : Page Bytes}
variable {offsets : Nat → Nat}

/- Bytes that a payload needs beside these slots. -/
def bytesNeeded
    (slots : List (Option Bytes))
    (length : Nat) : Nat :=
  if none ∈ slots then length else length + slotSize

/- The prediction looks for a tombstone anywhere, and leaves
   the trailing ones out of the directory. -/
theorem predicts_iff
    (hEncodes : Encodes raw page offsets)
    (length : Nat) :
    page.wouldFitAfterCompaction length = true ↔
      PageBuffer.slotOffset
          (Page.trimTrailingDeadSlots page.slots).length +
        slotBytes page.slots +
          bytesNeeded page.slots length ≤ page.pageSize := by
  have hFits := hEncodes.fits
  have hStart := hEncodes.freeStart_eq
  have hRoom : page.freeEnd + slotBytes page.slots ≤
      page.pageSize := hEncodes.room
  have hLive : page.liveBytes = slotBytes page.slots := rfl
  have hTrim := length_trimTrailingDeadSlots page.slots
  have hAppend := congrArg List.length
    (trimTrailingDeadSlots_append page.slots)
  rw [List.length_append, List.length_replicate] at hAppend
  have hNeeded : page.spaceNeededFor length =
      bytesNeeded page.slots length := by
    unfold Page.spaceNeededFor bytesNeeded
    simp only [findDeadSlot_isSome]
  have hSlotSize : slotSize = 4 := rfl
  unfold Page.wouldFitAfterCompaction Page.freeSpace
    Page.reclaimableSpace
  rw [decide_eq_true_iff, hNeeded, slotOffset_eq, hLive,
    hSlotSize]
  unfold Page.slotCount at hStart
  omega

variable {payload : Bytes}

/- After the compaction only the inner tombstones are left
   to reuse. -/
theorem fits_iff
    (hEncodes : Encodes raw page offsets)
    (hLength : payload.length ≤ page.maxPayloadSize) :
    (∃ placed, page.compact.insert payload =
        .ok (some placed)) ↔
      PageBuffer.slotOffset
          (Page.trimTrailingDeadSlots page.slots).length +
        slotBytes page.slots +
          bytesNeeded
            (Page.trimTrailingDeadSlots page.slots)
            payload.length ≤ page.pageSize := by
  have hFits := hEncodes.fits
  have hStart := hEncodes.freeStart_eq
  have hRoom : page.freeEnd + slotBytes page.slots ≤
      page.pageSize := hEncodes.room
  have hSlotSize : slotSize = 4 := rfl
  have hHeader : pageHeaderSize = 24 := rfl
  have hSlots : page.compact.slots =
      Page.trimTrailingDeadSlots page.slots := rfl
  have hNeeded :
      page.compact.spaceNeededFor payload.length =
        bytesNeeded (Page.trimTrailingDeadSlots page.slots)
          payload.length := by
    unfold Page.spaceNeededFor bytesNeeded
    simp only [findDeadSlot_isSome, hSlots]
  have hCompactStart : page.compact.freeStart =
      PageBuffer.slotOffset
        (Page.trimTrailingDeadSlots page.slots).length := by
    change (if (Page.trimTrailingDeadSlots page.slots).length =
      page.slotCount then page.freeStart
      else PageBuffer.slotOffset _) = _
    split
    · rename_i hSame
      rw [hSame]
      exact hEncodes.directory
    · rfl
  have hSpace : page.compact.freeSpace =
      page.pageSize - slotBytes page.slots -
        PageBuffer.slotOffset
          (Page.trimTrailingDeadSlots page.slots).length := by
    unfold Page.freeSpace
    rw [hCompactStart]
    rfl
  have hShorter :
      (Page.trimTrailingDeadSlots page.slots).length ≤
        page.slotCount := by
    rw [length_trimTrailingDeadSlots]
    exact Nat.sub_le _ _
  have hOffset := slotOffset_eq
    (Page.trimTrailingDeadSlots page.slots).length
  rw [← hNeeded]
  unfold Page.insert
  simp only []
  rw [if_neg (by exact Nat.not_lt.mpr hLength)]
  change (∃ placed, (if page.compact.spaceNeededFor
    payload.length > page.compact.freeSpace then _ else _) =
      Except.ok (some placed)) ↔ _
  by_cases hFull :
      page.compact.spaceNeededFor payload.length >
        page.compact.freeSpace
  · rw [if_pos hFull]
    constructor
    · rintro ⟨placed, hPlaced⟩
      cases hPlaced
    · intro hEnough
      omega
  · rw [if_neg hFull]
    refine iff_of_true ?_ (by omega)
    cases page.compact.findDeadSlot with
    | some slotId => exact ⟨_, rfl⟩
    | none => exact ⟨_, rfl⟩

/-
  A prediction goes wrong where every tombstone is trailing
  and the payload fits without an entry of its own only.
-/
def Misjudged
    (slots : List (Option Bytes))
    (pageSize length : Nat) : Prop :=
  0 < Page.trailingDead slots ∧
    none ∉ Page.trimTrailingDeadSlots slots ∧
    PageBuffer.slotOffset
        (Page.trimTrailingDeadSlots slots).length +
      slotBytes slots + length ≤ pageSize ∧
    pageSize <
      PageBuffer.slotOffset
          ((Page.trimTrailingDeadSlots slots).length + 1) +
        slotBytes slots + length

instance
    (slots : List (Option Bytes))
    (pageSize length : Nat) :
    Decidable (Misjudged slots pageSize length) := by
  unfold Misjudged
  infer_instance

theorem prediction_iff
    (hEncodes : Encodes raw page offsets)
    (hLength : payload.length ≤ page.maxPayloadSize) :
    (page.wouldFitAfterCompaction payload.length = true ↔
        ∃ placed, page.compact.insert payload =
          .ok (some placed)) ↔
      ¬ Misjudged page.slots page.pageSize
        payload.length := by
  rw [predicts_iff hEncodes, fits_iff hEncodes hLength]
  unfold Misjudged bytesNeeded
  have hSlotSize : slotSize = 4 := rfl
  have hMem := none_mem_slots_iff page.slots
  simp only [slotOffset_eq]
  by_cases hInner :
      none ∈ Page.trimTrailingDeadSlots page.slots
  · have hAny : none ∈ page.slots := hMem.mpr (.inl hInner)
    rw [if_pos hAny, if_pos hInner]
    simp [hInner]
  · by_cases hTrailing : 0 < Page.trailingDead page.slots
    · have hAny : none ∈ page.slots :=
        hMem.mpr (.inr hTrailing)
      rw [if_pos hAny, if_neg hInner]
      simp only [hTrailing, hInner, not_false_iff, true_and]
      omega
    · have hNone : none ∉ page.slots := fun hAny =>
        (hMem.mp hAny).elim hInner hTrailing
      rw [if_neg hNone, if_neg hInner]
      simp [hTrailing]

/- What the buffer's own calls say of the prediction. -/
theorem prediction_run
    (hEncodes : Encodes raw page offsets)
    (hLength : payload.length ≤ page.maxPayloadSize) :
    ∃ predicted gained compacted slot after,
      (PageBuffer.wouldFitAfterCompaction
          payload.length).run raw = .ok predicted raw ∧
      PageBuffer.compact.run raw = .ok gained compacted ∧
      (PageBuffer.insert payload).run compacted =
        .ok slot after ∧
      predicted = page.wouldFitAfterCompaction payload.length ∧
      (slot.isSome = true ↔ ∃ placed,
        page.compact.insert payload = .ok (some placed)) := by
  rcases compact_run hEncodes with ⟨buf, slid, hCompact, hAfter⟩
  have hInsert := insert_run hAfter payload
  have hNotLarge : ∀ raised,
      page.compact.insert payload ≠ .error raised := by
    intro raised hRaised
    unfold Page.insert at hRaised
    simp only [] at hRaised
    rw [if_neg (by exact Nat.not_lt.mpr hLength)] at hRaised
    split at hRaised
    · cases hRaised
    · split at hRaised
      · cases hRaised
      · cases hRaised
  cases hPage : page.compact.insert payload with
  | error raised => exact absurd hPage (hNotLarge raised)
  | ok result =>
    rw [hPage] at hInsert
    cases result with
    | none =>
      refine ⟨_, _, _, none, _,
        wouldFitAfterCompaction_run hEncodes _, hCompact,
        hInsert, rfl, ?_⟩
      constructor
      · intro hSome
        cases hSome
      · rintro ⟨placed, hPlaced⟩
        cases hPlaced
    | some placed =>
      rcases placed with ⟨slotId, page'⟩
      rcases hInsert with ⟨final, hOk, -⟩
      exact ⟨_, _, _, some slotId, _,
        wouldFitAfterCompaction_run hEncodes _, hCompact,
        hOk, rfl, iff_of_true rfl ⟨_, rfl⟩⟩

end Predict

/- Only an accepted size below the largest is ever made. -/
theorem fromCreation_valid
    {pageId : PageId}
    {pageType : PageType}
    {pageSize : Nat}
    {calls : List RecordCall}
    {ending : (Int → Option Bytes) × PageBuffer}
    (hRun : fromCreation pageId pageType pageSize calls =
      .ok ending) :
    validatePageSize pageSize = .ok () ∧
      pageSize < 65536 := by
  cases hValid : validatePageSize pageSize with
  | error raised =>
    unfold fromCreation PageBuffer.create at hRun
    rw [hValid] at hRun
    cases hRun
  | ok accepted =>
    refine ⟨rfl, ?_⟩
    by_contra hLarge
    unfold fromCreation at hRun
    rw [create_overflows pageId pageType hValid
      (Nat.le_of_not_lt hLarge)] at hRun
    cases hRun

/-
  On a page that calls have led to, the prediction is what
  an insert after a compaction does, except where the only
  tombstones are trailing ones and the payload fits without
  an entry of its own.
-/
theorem fit_prediction_iff
    {pageId : PageId}
    {pageType : PageType}
    {pageSize : Nat}
    {calls : List RecordCall}
    {stored : Int → Option Bytes}
    {final : PageBuffer}
    (hRun : fromCreation pageId pageType pageSize calls =
      .ok (stored, final))
    {payload : Bytes}
    (hLength : (payload.length : Int) ≤ final.maxPayloadSize) :
    ∃ predicted gained compacted slot after,
      (PageBuffer.wouldFitAfterCompaction
          payload.length).run final = .ok predicted final ∧
      PageBuffer.compact.run final = .ok gained compacted ∧
      (PageBuffer.insert payload).run compacted =
        .ok slot after ∧
      ((predicted = true ↔ slot.isSome = true) ↔
        ¬ Misjudged final.directory final.pageSize
          payload.length) := by
  rcases fromCreation_valid hRun with ⟨hValid, hSmall⟩
  rcases fromCreation_encodes pageId pageType hValid hSmall
      calls with ⟨ending, last, page, offsets, hSame, hEncodes,
        -⟩
  rw [hRun] at hSame
  cases hSame
  rw [maxPayloadSize_eq hEncodes] at hLength
  have hFits : payload.length ≤ page.maxPayloadSize := by
    omega
  rcases prediction_run hEncodes hFits with
    ⟨predicted, gained, compacted, slot, after, hPredict,
      hCompact, hInsert, hPredicted, hSlot⟩
  refine ⟨predicted, gained, compacted, slot, after, hPredict,
    hCompact, hInsert, ?_⟩
  rw [hPredicted, hSlot, hEncodes.directory_eq, hEncodes.size]
  exact prediction_iff hEncodes hFits

/- One record, and a deleted one behind it. -/
def trailingCalls : List RecordCall :=
  [.insert (List.replicate 100 1), .insert [2], .delete 1]

theorem trailingCalls_run :
    ∃ stored final,
      fromCreation 1 .heap 256 trailingCalls =
        .ok (stored, final) ∧
      final.directory = [some (List.replicate 100 1), none] ∧
      final.pageSize = 256 := by
  rcases fromCreation_encodes 1 .heap
      (by decide : validatePageSize 256 = .ok ()) (by decide)
      trailingCalls with
    ⟨stored, final, page, offsets, hRun, -, -⟩
  have hFinal : (match
      fromCreation 1 .heap 256 trailingCalls with
      | .ok (_, final) => decide (final.directory =
          [some (List.replicate 100 1), none] ∧
            final.pageSize = 256)
      | .error _ => false) = true := by
    decide +kernel
  rw [hRun] at hFinal
  exact ⟨stored, final, hRun, of_decide_eq_true hFinal⟩

/- A small record is foretold to fit, and does. -/
theorem fit_foretold :
    ∃ stored final,
      fromCreation 1 .heap 256 trailingCalls =
        .ok (stored, final) ∧
      ∃ predicted gained compacted slot after,
        (PageBuffer.wouldFitAfterCompaction 1).run final =
          .ok predicted final ∧
        PageBuffer.compact.run final = .ok gained compacted ∧
        (PageBuffer.insert [3]).run compacted = .ok slot after ∧
        (predicted = true ↔ slot.isSome = true) := by
  rcases trailingCalls_run with
    ⟨stored, final, hRun, hDirectory, hSize⟩
  have hMax : (([3] : Bytes).length : Int) ≤
      final.maxPayloadSize := by
    unfold PageBuffer.maxPayloadSize
    rw [hSize]
    decide
  rcases fit_prediction_iff hRun hMax with
    ⟨predicted, gained, compacted, slot, after, hPredict,
      hCompact, hInsert, hIff⟩
  refine ⟨stored, final, hRun, predicted, gained, compacted,
    slot, after, hPredict, hCompact, hInsert, hIff.mpr ?_⟩
  rw [hDirectory, hSize]
  decide

/- One of 128 bytes is foretold to fit, and does not. -/
theorem fit_misjudged :
    ∃ stored final gained compacted after,
      fromCreation 1 .heap 256 trailingCalls =
        .ok (stored, final) ∧
      (128 : Int) ≤ final.maxPayloadSize ∧
      (PageBuffer.wouldFitAfterCompaction 128).run final =
        .ok true final ∧
      PageBuffer.compact.run final = .ok gained compacted ∧
      (PageBuffer.insert (List.replicate 128 3)).run
        compacted = .ok none after := by
  rcases fromCreation_encodes 1 .heap
      (by decide : validatePageSize 256 = .ok ()) (by decide)
      trailingCalls with
    ⟨stored, final, page, offsets, hRun, hEncodes, -⟩
  rcases trailingCalls_run with
    ⟨stored', final', hRun', hDirectory, hSize⟩
  rw [hRun] at hRun'
  cases hRun'
  have hSlots : page.slots =
      [some (List.replicate 100 1), none] :=
    hEncodes.directory_eq.symm.trans hDirectory
  have hPageSize : page.pageSize = 256 :=
    hEncodes.size.symm.trans hSize
  have hMax : page.maxPayloadSize = 228 := by
    unfold Page.maxPayloadSize
    rw [hPageSize]
    rfl
  have hLength : (List.replicate 128 (3 : UInt8)).length =
      128 := List.length_replicate
  rcases prediction_run hEncodes
      (by rw [hLength, hMax]; decide) with
    ⟨predicted, gained, compacted, slot, after, hPredict,
      hCompact, hInsert, hPredicted, hSlot⟩
  rw [hLength] at hPredict hPredicted
  have hFits : predicted = true := by
    rw [hPredicted, predicts_iff hEncodes, hSlots, hPageSize]
    decide +kernel
  have hFull : slot = none := by
    rw [← Option.not_isSome_iff_eq_none, hSlot,
      fits_iff hEncodes (by rw [hLength, hMax]; decide),
      hSlots, hPageSize]
    decide +kernel
  rw [hFits] at hPredict
  rw [hFull] at hInsert
  refine ⟨stored, final, gained, compacted, after, hRun, ?_,
    hPredict, hCompact, hInsert⟩
  rw [maxPayloadSize_eq hEncodes, hMax]
  decide

end Storage

end ChenDB
