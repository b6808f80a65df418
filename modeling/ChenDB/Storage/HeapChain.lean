import ChenDB.Storage.FreeList
import ChenDB.Storage.Heap

/-
  The chain of a heap in the pages of the file: each page
  links to the next, and the pages a heap has are handed out
  and not on the free list.
-/

--
-- Sound Pages
--

namespace ChenDB

namespace Storage

open Library.StateExcept

variable {π : Type}
variable {page page' : Page π} {pageSize slotId : Nat}
variable {payload : π}

/- The bytes that a slot takes of the record region. -/
def slotLength [Payload π] (slot : Option π) : Nat :=
  (slot.map Payload.size).getD 0

theorem sum_set
    {α : Type}
    (weigh : α → Nat)
    {items : List α}
    {index : Nat}
    (hIndex : index < items.length)
    (item : α) :
    ((items.set index item).map weigh).sum +
        weigh items[index] =
      (items.map weigh).sum + weigh item := by
  induction items generalizing index with
  | nil => cases hIndex
  | cons first rest ih =>
    cases index with
    | zero =>
      simp only [List.set_cons_zero, List.map_cons,
        List.sum_cons, List.getElem_cons_zero]
      omega
    | succ index =>
      have hRest := ih (Nat.lt_of_succ_lt_succ hIndex)
      simp only [List.set_cons_succ, List.map_cons,
        List.sum_cons, List.getElem_cons_succ]
      omega

namespace Page

/- The directory and the records share the page without
   meeting. -/
structure Sound [Payload π]
    (page : Page π)
    (pageSize : Nat) : Prop where
  size : page.pageSize = pageSize
  start : page.freeStart =
    pageHeaderSize + page.slotCount * slotSize
  below : page.freeStart ≤ page.freeEnd
  inside : page.freeEnd ≤ pageSize
  room : page.freeEnd + page.liveBytes ≤ pageSize

variable [Payload π]

theorem Sound.header
    (hSound : page.Sound pageSize)
    (pageId : PageId) :
    page.validateHeader pageId = .ok () :=
  validateHeader_of hSound.start hSound.below
    (hSound.size ▸ hSound.inside) pageId

/- Neither the LSN nor the link is part of it. -/
theorem Sound.linked
    (hSound : page.Sound pageSize)
    (lsn : Nat)
    (nextPageId : PageId) :
    ({ page with lsn := lsn, nextPageId := nextPageId } :
      Page π).Sound pageSize :=
  ⟨hSound.size, hSound.start, hSound.below, hSound.inside,
    hSound.room⟩

theorem sound_blank
    (hValid : validatePageSize pageSize = .ok ())
    (pageType : PageType) :
    (blank pageType pageSize : Page π).Sound pageSize := by
  have hSize := pageSize_bounds hValid
  refine ⟨rfl, rfl, ?_, le_refl _, ?_⟩
  · simp only [blank, pageHeaderSize]
    omega
  · simp [blank, liveBytes]

theorem liveBytes_set
    (hSlot : slotId < page.slots.length)
    (slot : Option π) :
    ((page.slots.set slotId slot).map slotLength).sum +
        slotLength page.slots[slotId] =
      page.liveBytes + slotLength slot :=
  sum_set slotLength hSlot slot

theorem Sound.insert
    (hSound : page.Sound pageSize)
    (hInsert :
      page.insert payload = .ok (some (slotId, page'))) :
    page'.Sound pageSize := by
  rcases hSound with ⟨hSize, hStart, hBelow, hInside, hRoom⟩
  unfold Page.insert at hInsert
  simp only at hInsert
  split at hInsert
  · cases hInsert
  · split at hInsert
    · cases hInsert
    · rename_i hFits
      unfold spaceNeededFor freeSpace at hFits
      split at hInsert
      · rename_i dead hDead
        cases hInsert
        rw [hDead] at hFits
        simp only [Option.isSome_some, ↓reduceIte] at hFits
        rcases findDeadSlot_spec hDead with ⟨hSlot, hNone⟩
        rw [read_of_lt page hSlot] at hNone
        have hLive := liveBytes_set hSlot (some payload)
        rw [hNone] at hLive
        simp only [slotLength, Option.map_none,
          Option.map_some, Option.getD_none,
          Option.getD_some] at hLive
        refine ⟨hSize, ?_, ?_, ?_, ?_⟩
        · simpa [slotCount] using hStart
        · show page.freeStart ≤ page.freeEnd - _
          omega
        · show page.freeEnd - _ ≤ pageSize
          omega
        · show page.freeEnd - Payload.size payload +
            ((page.slots.set slotId (some payload)).map
              slotLength).sum ≤ pageSize
          omega
      · rename_i hAlive
        cases hInsert
        rw [hAlive] at hFits
        simp only [Option.isSome_none, Bool.false_eq_true,
          ↓reduceIte] at hFits
        unfold slotSize at hFits hStart
        refine ⟨hSize, ?_, ?_, ?_, ?_⟩
        · simp only [slotCount, List.length_append,
            List.length_singleton, slotSize] at hStart ⊢
          omega
        · show page.freeStart + 4 ≤ page.freeEnd - _
          omega
        · show page.freeEnd - _ ≤ pageSize
          omega
        · have hLive :
              ((page.slots ++ [some payload]).map fun slot =>
                (slot.map Payload.size).getD 0).sum =
              page.liveBytes + Payload.size payload := by
            simp [liveBytes]
          show page.freeEnd - Payload.size payload +
            ((page.slots ++ [some payload]).map fun slot =>
              (slot.map Payload.size).getD 0).sum ≤ pageSize
          omega

/- A slot that takes no more than it did. -/
theorem Sound.set
    (hSound : page.Sound pageSize)
    (hSlot : slotId < page.slots.length)
    (slot : Option π)
    (hLength : slotLength slot ≤
      slotLength page.slots[slotId]) :
    ({ page with slots := page.slots.set slotId slot } :
      Page π).Sound pageSize := by
  have hLive := liveBytes_set hSlot slot
  refine ⟨hSound.size, ?_, hSound.below, hSound.inside, ?_⟩
  · simpa [slotCount] using hSound.start
  · have hRoom := hSound.room
    show page.freeEnd + ((page.slots.set slotId slot).map
      slotLength).sum ≤ pageSize
    omega

theorem Sound.delete
    (hSound : page.Sound pageSize)
    (hDelete : page.delete slotId = some page') :
    page'.Sound pageSize := by
  unfold Page.delete at hDelete
  rcases Option.map_eq_some_iff.mp hDelete with
    ⟨held, hHeld, rfl⟩
  exact hSound.set (lt_of_read hHeld) none (Nat.zero_le _)

theorem Sound.overwrite
    (hSound : page.Sound pageSize)
    (hWrite :
      page.overwrite slotId payload = .ok (some page')) :
    page'.Sound pageSize := by
  unfold Page.overwrite at hWrite
  split at hWrite
  · cases hWrite
  · rename_i held hHeld
    split at hWrite
    · cases hWrite
    · split at hWrite
      · cases hWrite
      · rename_i hSame
        cases hWrite
        have hSlot := lt_of_read hHeld
        rw [read_of_lt page hSlot] at hHeld
        refine hSound.set hSlot (some payload) ?_
        rw [hHeld]
        exact Nat.le_of_eq (not_not.mp hSame)

theorem sum_trimmed (slots : List (Option π)) :
    ((trimTrailingDeadSlots slots).map slotLength).sum =
      (slots.map slotLength).sum := by
  have hDead : ∀ slot ∈
      slots.drop (slots.length - trailingDead slots),
      slotLength slot = 0 := by
    intro slot hSlot
    rcases List.mem_drop_iff_getElem.mp hSlot with
      ⟨index, hIndex, rfl⟩
    rw [getElem_trailingDead (Nat.le_add_right _ _)]
    rfl
  have hNone : ((slots.drop (slots.length -
      trailingDead slots)).map slotLength).sum = 0 := by
    rw [List.map_eq_replicate_iff.mpr hDead]
    simp
  conv => rhs; rw [← List.take_append_drop
    (slots.length - trailingDead slots) slots]
  rw [List.map_append, List.sum_append, hNone, Nat.add_zero]
  rfl

theorem Sound.compact
    (hSound : page.Sound pageSize) :
    page.compact.Sound pageSize := by
  rcases hSound with ⟨hSize, hStart, hBelow, hInside, hRoom⟩
  have hLive : page.compact.liveBytes = page.liveBytes :=
    sum_trimmed page.slots
  have hCount : page.compact.slotCount ≤ page.slotCount := by
    simp [Page.compact, slotCount, trimTrailingDeadSlots]
  have hFreed : page.compact.freeStart = pageHeaderSize +
      page.compact.slotCount * slotSize := by
    unfold Page.compact
    simp only
    split
    · rename_i hSame
      rw [hStart]
      simp only [slotCount] at hSame ⊢
      rw [hSame]
    · rfl
  have hEnd : page.compact.freeEnd =
      pageSize - page.liveBytes := by
    rw [← hSize]
    rfl
  have hLess := Nat.mul_le_mul_right slotSize hCount
  refine ⟨hSize, hFreed, ?_, ?_, ?_⟩
  · rw [hFreed, hEnd]
    omega
  · rw [hEnd]
    omega
  · rw [hEnd, hLive]
    omega

end Page

variable {placed : Page π}

theorem Page.insert_next [Payload π]
    (hInsert :
      page.insert payload = .ok (some (slotId, page'))) :
    page'.nextPageId = page.nextPageId := by
  unfold Page.insert at hInsert
  simp only at hInsert
  split at hInsert
  · cases hInsert
  · split at hInsert
    · cases hInsert
    · split at hInsert
      all_goals
        cases hInsert
        rfl

theorem Page.overwrite_next [Payload π]
    (hWrite :
      page.overwrite slotId payload = .ok (some page')) :
    page'.nextPageId = page.nextPageId := by
  unfold Page.overwrite at hWrite
  split at hWrite
  · cases hWrite
  · split at hWrite
    · cases hWrite
    · split at hWrite
      · cases hWrite
      · cases hWrite
        rfl

variable {slot : Option Nat}
variable {pages : PageId → Option (PageImage π)}
variable {pageId : PageId} {heap : HeapFile π}
variable {history : List PageCall} {metaPage : MetaPage}

theorem HeapFile.place_next [Payload π]
    (hPlace : HeapFile.place page payload =
      .ok (placed, slot)) :
    placed.nextPageId = page.nextPageId := by
  unfold HeapFile.place at hPlace
  rcases ok_of_bind hPlace with ⟨first, hFirst, hRest⟩
  cases first with
  | some found =>
    cases hRest
    exact Page.insert_next hFirst
  | none =>
    simp only at hRest
    split at hRest
    · rcases ok_of_bind hRest with ⟨second, hSecond, hLast⟩
      cases second with
      | some found =>
        cases hLast
        have hNext := Page.insert_next hSecond
        exact hNext
      | none =>
        cases hLast
        rfl
    · cases hRest
      rfl

/- A page as it is placed on, compacted or not. -/
theorem HeapFile.place_sound [Payload π]
    {pageSize : Nat}
    (hSound : page.Sound pageSize)
    (hPlace : HeapFile.place page payload =
      .ok (placed, slot)) :
    placed.Sound pageSize := by
  unfold HeapFile.place at hPlace
  rcases ok_of_bind hPlace with ⟨first, hFirst, hRest⟩
  cases first with
  | some found =>
    cases hRest
    exact hSound.insert hFirst
  | none =>
    simp only at hRest
    split at hRest
    · rcases ok_of_bind hRest with ⟨second, hSecond, hLast⟩
      cases second with
      | some found =>
        cases hLast
        exact hSound.compact.insert hSecond
      | none =>
        cases hLast
        exact hSound.compact
    · cases hRest
      exact hSound

--
-- Chains in the File
--

/- The pages hold these, in this order, and each links to
   the one after it. -/
def Linked [Payload π]
    (pages : PageId → Option (PageImage π))
    (pageSize : Nat) : List (PageId × Page π) → Prop
  | [] => True
  | (pageId, page) :: rest =>
    pages pageId = some (.slotted page) ∧
      page.Sound pageSize ∧
      page.nextPageId =
        (rest.head?.map Prod.fst).getD invalidPageId ∧
      Linked pages pageSize rest

namespace Linked

variable [Payload π]
variable {others : PageId → Option (PageImage π)}
variable {entries : List (PageId × Page π)}

theorem mem
    (hLinked : Linked pages pageSize entries)
    (hMem : (pageId, page) ∈ entries) :
    pages pageId = some (.slotted page) ∧
      page.Sound pageSize := by
  induction entries with
  | nil => cases hMem
  | cons entry rest ih =>
    rcases hLinked with ⟨hPage, hSound, -, hRest⟩
    rcases List.mem_cons.mp hMem with rfl | hMem
    · exact ⟨hPage, hSound⟩
    · exact ih hRest hMem

/- Pages off the chain may change. -/
theorem congr
    (hLinked : Linked pages pageSize entries)
    (hSame : ∀ pageId ∈ entries.map Prod.fst,
      others pageId = pages pageId) :
    Linked others pageSize entries := by
  induction entries with
  | nil => trivial
  | cons entry rest ih =>
    rcases hLinked with ⟨hPage, hSound, hNext, hRest⟩
    refine ⟨?_, hSound, hNext, ih hRest ?_⟩
    · rw [hSame _ (by simp), hPage]
    · intro pageId hMem
      exact hSame pageId (.tail _ hMem)

theorem write
    (hLinked : Linked pages pageSize entries)
    (hDistinct : (entries.map Prod.fst).Nodup)
    {held : Page π}
    (hHeld : (pageId, held) ∈ entries)
    (hSound : page.Sound pageSize)
    (hNext : page.nextPageId = held.nextPageId) :
    Linked
      (Function.update pages pageId (some (.slotted page)))
      pageSize
      (entries.map fun entry =>
        if entry.1 = pageId then (pageId, page)
          else entry) := by
  induction entries with
  | nil => trivial
  | cons entry rest ih =>
    rcases entry with ⟨entryId, entryPage⟩
    rcases hLinked with ⟨hPage, hEntrySound, hEntryNext, hRest⟩
    rw [List.map_cons, List.nodup_cons] at hDistinct
    have hHead : ((rest.map fun entry =>
        if entry.1 = pageId then (pageId, page)
          else entry).head?.map Prod.fst) =
        rest.head?.map Prod.fst := by
      rw [← List.head?_map, HeapFile.map_fst_write,
        List.head?_map]
    rw [List.map_cons]
    by_cases hHere : entryId = pageId
    · subst hHere
      rw [if_pos rfl]
      have hSame : held = entryPage := by
        rcases List.mem_cons.mp hHeld with hHere | hLater
        · cases hHere
          rfl
        · exact absurd (List.mem_map.mpr ⟨_, hLater, rfl⟩)
            hDistinct.1
      have hLater : (rest.map fun entry =>
          if entry.1 = entryId then (entryId, page)
            else entry) = rest := by
        conv => rhs; rw [← List.map_id rest]
        refine List.map_congr_left fun entry hMem => ?_
        rw [if_neg]
        · rfl
        · intro hSameId
          exact hDistinct.1
            (List.mem_map.mpr ⟨entry, hMem, hSameId⟩)
      refine ⟨Function.update_self .., hSound, ?_, ?_⟩
      · rw [hNext, hSame, hEntryNext, hHead]
      · rw [hLater]
        refine hRest.congr fun other hOther => ?_
        rw [Function.update_of_ne]
        rintro rfl
        exact hDistinct.1 hOther
    · rw [if_neg hHere]
      have hLater : (pageId, held) ∈ rest := by
        rcases List.mem_cons.mp hHeld with hNow | hLater
        · cases hNow
          exact absurd rfl hHere
        · exact hLater
      refine ⟨?_, hEntrySound, ?_, ih hRest hDistinct.2 hLater⟩
      · rw [Function.update_of_ne hHere, hPage]
      · rw [hEntryNext, hHead]

/- A page after the last one, which links to it. -/
theorem append
    {front : List (PageId × Page π)}
    {tailId fresh : PageId}
    {tail : Page π}
    (hLinked : Linked pages pageSize
      (front ++ [(tailId, tail)]))
    (hPage : pages fresh = some (.slotted page))
    (hSound : page.Sound pageSize)
    (hLast : page.nextPageId = invalidPageId)
    (hFresh : fresh ∉ (front ++ [(tailId, tail)]).map Prod.fst)
    (hDistinct :
      ((front ++ [(tailId, tail)]).map Prod.fst).Nodup)
    {placed : Page π}
    (hPlaced : placed.Sound pageSize) :
    Linked
      (Function.update pages tailId (some (.slotted
        { placed with nextPageId := fresh })))
      pageSize
      (front ++ [(tailId, { placed with nextPageId := fresh }),
        (fresh, page)]) := by
  have hOther : fresh ≠ tailId := by
    rintro rfl
    exact hFresh (by simp)
  induction front with
  | nil =>
    exact ⟨Function.update_self ..,
      hPlaced.linked placed.lsn fresh, rfl,
      by rw [Function.update_of_ne hOther, hPage],
      hSound, hLast, trivial⟩
  | cons entry front ih =>
    rcases hLinked with ⟨hHere, hEntrySound, hNext, hRest⟩
    rw [List.cons_append, List.map_cons,
      List.nodup_cons] at hDistinct
    rw [List.cons_append, List.map_cons,
      List.mem_cons, not_or] at hFresh
    have hApart : entry.1 ≠ tailId := by
      intro hSame
      exact hDistinct.1 (by simp [hSame])
    refine ⟨?_, hEntrySound, ?_, ih hRest hFresh.2 hDistinct.2⟩
    · rw [Function.update_of_ne hApart, hHere]
    · rw [hNext]
      cases front <;> rfl

end Linked

/-
  The engine holds the chain. What the pages of others are
  is not said, only that the heap's own are handed out.
-/
structure Stands [Payload π]
    (heap : HeapFile π)
    (history : List PageCall)
    (pages : PageId → Option (PageImage π))
    (metaPage : MetaPage)
    (pageSize : Nat)
    (engine : Engine π) : Prop where
  ready : Ready (Core.Shows pages metaPage pageSize) engine
  ledger : Ledger history pages metaPage pageSize
  small : pageSize < 65536
  owned : ∀ pageId ∈ heap.pageIds, pageId ∈ live history
  linked : Linked pages pageSize heap.pages

def Standing [Payload π]
    (heap : HeapFile π)
    (engine : Engine π) : Prop :=
  ∃ history pages metaPage pageSize,
    Stands heap history pages metaPage pageSize engine

/- The page count still fits its field of the meta page. -/
def Packed (engine : Engine π) : Prop :=
  engine.metaPage.pageCount < 2 ^ 32

instance Packed.decidable (engine : Engine π) :
    Decidable (Packed engine) :=
  inferInstanceAs
    (Decidable (engine.metaPage.pageCount < 2 ^ 32))

namespace Pager

variable [Payload π]

/- What passes every check is read without them too. -/
omit [Payload π] in
theorem fromBytes_unchecked
    {image : PageImage π}
    {verifyChecksum : Bool}
    (hOk : Page.fromBytes pageId image verifyChecksum true =
      .ok page) :
    Page.fromBytes pageId image verifyChecksum false =
      .ok page := by
  cases image with
  | empty => cases hOk
  | metaPage other => cases hOk
  | zeros size =>
    cases verifyChecksum with
    | true => cases hOk
    | false =>
      have hBind : ((Page.ofZeros size :
          Page π).validateHeader pageId >>= fun _ =>
            pure (Page.ofZeros size)) = .ok page := hOk
      rcases ok_of_bind hBind with ⟨⟨⟩, -, hLast⟩
      exact hLast
  | slotted held =>
    have hBind : (held.validateHeader pageId >>= fun _ =>
        pure held) = .ok page := hOk
    rcases ok_of_bind hBind with ⟨⟨⟩, -, hLast⟩
    exact hLast

omit [Payload π] in
theorem checkPageId_shown
    (hInside : pageId < metaPage.pageCount) :
    Triple (Ready (Core.Shows pages metaPage pageSize))
      (checkPageId (π := π) pageId)
      (fun _ => Ready (Core.Shows pages metaPage pageSize))
      (fun _ _ => False) := by
  unfold checkPageId
  refine Triple.read fun engine hReady => ?_
  have hCount := field_of_ready hReady MetaPage.pageCount
    fun _ => rfl
  rw [hCount, if_neg (not_not_intro hInside)]
  exact Triple.pure fun _ h => h ▸ hReady

/- A page of the chain is read as it is, apart from its
   LSN. -/
theorem readPage_linked
    (hLedger : Ledger history pages metaPage pageSize)
    (hLive : pageId ∈ live history)
    (hPage : pages pageId = some (.slotted page))
    (hSound : page.Sound pageSize) :
    Triple (Ready (Core.Shows pages metaPage pageSize))
      (readPage pageId)
      (fun found engine =>
        Ready (Core.Shows pages metaPage pageSize) engine ∧
          ∃ lsn, found = { page with lsn := lsn })
      (fun _ _ => False) := by
  have hInside := hLedger.liveInside pageId hLive
  unfold readPage
  refine ensureOpen_shown.bind fun _ => ?_
  have hMeta : pageId ≠ metaPageId :=
    Nat.pos_iff_ne_zero.mp hInside.1
  rw [if_neg hMeta]
  refine (checkPageId_shown hInside.2).bind fun _ => ?_
  refine Triple.read fun engine hReady => ?_
  refine Triple.bind
    ((fetch_shown hPage).pre (fun _ h => h ▸ hReady))
      fun found => ?_
  refine Triple.start fun current hCurrent => ?_
  have hChecked := fromBytes_of_content hCurrent.2
    (hSound.header pageId)
    (engine.verifyChecksums && !found.2)
  have hOk : Page.fromBytes pageId found.1
      (engine.verifyChecksums && !found.2) (!found.2) =
        .ok { page with lsn := found.1.lsn } := by
    cases hCached : !found.2 with
    | true =>
      rw [hCached] at hChecked
      exact hChecked
    | false =>
      rw [hCached] at hChecked
      exact fromBytes_unchecked hChecked
  simp only [hOk]
  refine Triple.pure fun _ hSame => ?_
  rw [hSame]
  exact ⟨hCurrent.1, _, rfl⟩

end Pager

--
-- Changes of a Chain
--

section Changes

variable [Payload π]
variable {engine engine' : Engine π}
variable {held : Page π}

namespace Stands

theorem live_tail
    (hStands : Stands heap history pages metaPage pageSize
      engine) :
    heap.tail.1 ∈ live history :=
  hStands.owned _ (List.mem_map_of_mem
    (List.getLast_mem heap.nonempty))

/- A page of the chain written, its link as it was. -/
theorem written
    (hStands : Stands heap history pages metaPage pageSize
      engine)
    (hHeld : heap.pageAt pageId = some held)
    (hSound : page.Sound pageSize)
    (hNext : page.nextPageId = held.nextPageId)
    (hReady : Ready (Core.Shows
      (Function.update pages pageId (some (.slotted page)))
      metaPage pageSize) engine') :
    Stands (heap.writePage pageId page) history
      (Function.update pages pageId (some (.slotted page)))
      metaPage pageSize engine' := by
  have hMem := HeapFile.pageAt_eq_some.mp hHeld
  have hLive := hStands.owned pageId
    (List.mem_map.mpr ⟨_, hMem, rfl⟩)
  refine ⟨hReady, hStands.ledger.rewritten hLive _,
    hStands.small, ?_, hStands.linked.write heap.distinct
      hMem hSound hNext⟩
  rw [HeapFile.pageIds_writePage]
  exact hStands.owned

end Stands

/- Only the last page of a chain is written at its end. -/
omit [Payload π] in
theorem HeapFile.pages_writeTail
    (heap : HeapFile π)
    (page : Page π) :
    (heap.writePage heap.tail.1 page).pages =
      heap.pages.dropLast ++ [(heap.tail.1, page)] := by
  have hSplit : heap.pages.dropLast ++ [heap.tail] =
      heap.pages :=
    List.dropLast_append_getLast heap.nonempty
  have hDistinct := heap.distinct
  rw [← hSplit, List.map_append, List.map_singleton,
    List.nodup_append] at hDistinct
  unfold HeapFile.writePage
  simp only
  conv => lhs; rw [← hSplit]
  rw [List.map_append]
  congr 1
  · conv => rhs; rw [← List.map_id heap.pages.dropLast]
    refine List.map_congr_left fun entry hMem => ?_
    rw [if_neg]
    · rfl
    · exact hDistinct.2.2 _ (List.mem_map_of_mem hMem) _
        (by simp)
  · simp

omit [Payload π] in
theorem HeapFile.fresh_link
    (heap : HeapFile π)
    (placed : Page π)
    (fresh : PageId)
    (hFresh : fresh ∉ heap.pageIds) :
    fresh ∉ (heap.writePage heap.tail.1
      { placed with nextPageId := fresh }).pageIds := by
  rw [HeapFile.pageIds_writePage]
  exact hFresh

/- The chain with a new last page, and the old one linked to
   it. -/
def HeapFile.grown
    (heap : HeapFile π)
    (placed : Page π)
    (fresh : PageId)
    (page : Page π)
    (hFresh : fresh ∉ heap.pageIds) : HeapFile π :=
  (heap.writePage heap.tail.1
    { placed with nextPageId := fresh }).append fresh page
      (HeapFile.fresh_link heap placed fresh hFresh)

variable {fresh : PageId}
variable {hFresh : fresh ∉ heap.pageIds}

omit [Payload π] in
theorem HeapFile.mem_grown
    {other : PageId} :
    other ∈ (heap.grown placed fresh page hFresh).pageIds ↔
      other ∈ heap.pageIds ∨ other = fresh := by
  have hIds := HeapFile.pageIds_writePage heap heap.tail.1
    { placed with nextPageId := fresh }
  unfold HeapFile.grown HeapFile.append
  unfold HeapFile.pageIds at hIds ⊢
  simp only [List.map_append, hIds, List.mem_append,
    List.map_singleton, List.mem_singleton]

/- An empty page holds no record. -/
omit [Payload π] in
theorem HeapFile.get_grown
    (hPlaced : placed.read = heap.tail.2.read)
    (hEmpty : ∀ slotId, page.read slotId = none) :
    (heap.grown placed fresh page hFresh).get =
      heap.get := by
  have hLinked : ({ placed with nextPageId := fresh } :
      Page π).read = heap.tail.2.read := hPlaced
  rw [← HeapFile.get_writePage_same
    (HeapFile.pageAt_tail heap) hLinked]
  funext recordId
  unfold HeapFile.grown HeapFile.get
  rw [HeapFile.pageAt_append]
  split
  · rename_i hHere
    rw [hHere, HeapFile.pageAt_fresh (by simpa using hFresh)]
    exact hEmpty _
  · rfl

/- A page handed out is none of the chain's. -/
theorem Stands.allocated
    (hStands : Stands heap history pages metaPage pageSize
      engine)
    {fresh : PageId}
    {metaAfter : MetaPage}
    (hNew : fresh ∉ live history)
    (hLedger : Ledger (.allocated fresh :: history)
      (Pager.withPage pages fresh page metaAfter) metaAfter
      pageSize)
    (hReady : Ready (Core.Shows
      (Pager.withPage pages fresh page metaAfter) metaAfter
      pageSize) engine') :
    Stands heap (.allocated fresh :: history)
      (Pager.withPage pages fresh page metaAfter) metaAfter
      pageSize engine' := by
  refine ⟨hReady, hLedger, hStands.small, ?_, ?_⟩
  · intro other hOther
    exact .tail _ (hStands.owned other hOther)
  · refine hStands.linked.congr fun other hOther => ?_
    have hLive := hStands.owned other hOther
    refine Pager.withPage_of_ne
      (hStands.ledger.liveInside other hLive).1 ?_
    rintro rfl
    exact hNew hLive

/- The chain once the page was linked to its end as well. -/
theorem Stands.extended
    {metaAfter : MetaPage}
    (hAllocated : Stands heap (.allocated fresh :: history)
      (Pager.withPage pages fresh page metaAfter) metaAfter
      pageSize engine)
    (hFresh : fresh ∉ heap.pageIds)
    (hSound : page.Sound pageSize)
    (hLast : page.nextPageId = invalidPageId)
    (hPlaced : placed.Sound pageSize)
    (hReady : Ready (Core.Shows
      (Function.update
        (Pager.withPage pages fresh page metaAfter)
        heap.tail.1 (some (.slotted
          { placed with nextPageId := fresh })))
      metaAfter pageSize) engine') :
    Stands (heap.grown placed fresh page hFresh)
      (.allocated fresh :: history)
      (Function.update
        (Pager.withPage pages fresh page metaAfter)
        heap.tail.1 (some (.slotted
          { placed with nextPageId := fresh })))
      metaAfter pageSize engine' := by
  have hLedger := hAllocated.ledger
  have hTail := hAllocated.live_tail
  have hSplit : heap.pages.dropLast ++
      [(heap.tail.1, heap.tail.2)] = heap.pages :=
    List.dropLast_append_getLast heap.nonempty
  have hInside := hLedger.liveInside fresh
    (.head _)
  have hShown := hAllocated.linked
  refine ⟨hReady, hLedger.rewritten hTail _,
    hAllocated.small, ?_, ?_⟩
  · intro other hOther
    rcases HeapFile.mem_grown.mp hOther with hOld | rfl
    · exact hAllocated.owned other hOld
    · exact .head _
  · unfold HeapFile.grown HeapFile.append
    simp only
    rw [HeapFile.pages_writeTail, List.append_assoc]
    rw [← hSplit] at hShown
    refine hShown.append (Pager.withPage_self hInside.1)
      hSound hLast ?_ ?_ hPlaced
    · rw [hSplit]
      exact hFresh
    · rw [hSplit]
      exact heap.distinct

end Changes

end Storage

end ChenDB
