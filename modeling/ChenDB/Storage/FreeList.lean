import Mathlib.Data.List.Basic
import ChenDB.Storage.Shown

/-
  The allocator over any run of calls: the free list is
  threaded through the freed pages themselves, with its head
  in the meta page.
-/

--
-- Calls
--

namespace ChenDB

namespace Storage

open Library.StateExcept
open Transaction (TransactionManager)
open Wal (LogRecord WriteAheadLog)

variable {π : Type}
variable {pages : PageId → Option (PageImage π)}
variable {metaPage : MetaPage} {pageSize : Nat}
variable {pageId : PageId} {page : Page π}

/- A call of the allocator that returned. -/
inductive PageCall where
  | allocated (pageId : PageId)
  | freed (pageId : PageId)
deriving DecidableEq, Repr

/- The pages handed out and not freed since; the last call
   comes first. -/
def live : List PageCall → List PageId
  | [] => []
  | .allocated pageId :: earlier => pageId :: live earlier
  | .freed pageId :: earlier =>
    (live earlier).filter fun other => other ≠ pageId

/- The pages freed and not handed out since, the one freed
   last first. -/
def freed : List PageCall → List PageId
  | [] => []
  | .allocated pageId :: earlier =>
    (freed earlier).filter fun other => other ≠ pageId
  | .freed pageId :: earlier => pageId :: freed earlier

namespace Pager

/- The walk of `Pager.free_list` from a page on. -/
def freeListFrom :
    Nat → PageId → List PageId → EngineM π (List PageId)
  | 0, _, _ => return []
  | count + 1, pageId, seen => do
      if pageId = invalidPageId then
        return []
      else if pageId ∈ seen then
        throw (.corruptDatabase
          s!"cycle in free list at page {pageId}")
      else
        let page ← readFree pageId
        let rest ← freeListFrom count page.nextPageId
          (pageId :: seen)
        return pageId :: rest

/- The ids `Pager.free_list` yields, at most `count` of
   them. -/
def freeList (count : Nat) : EngineM π (List PageId) := do
  let engine ← get
  freeListFrom count engine.metaPage.freeListHead []

end Pager

/-
  Calls on a database from its creation on. Pages that are
  handed out may be written in between, hooks installed, and
  transactions and sessions change. `MetaPage.to_bytes` has
  32 bits for the page count, so a call that returned left a
  smaller one.
-/
inductive Allocates
    (options : Pager.Options) :
    List PageCall → Engine π → Prop where
  | created {records engine final} :
      Pager.opening options ⟨[], records⟩ = .ok engine →
      (Pager.start false).run engine = .ok () final →
      Allocates options [] final
  | joined
      (watching : Bool)
      (transactions : TransactionManager (PageImage π))
      (session : String)
      {history engine} :
      Allocates options history engine →
      Allocates options history { engine with
        watching := watching
        transactions := transactions
        session := session }
  | allocated
      {history engine pageType pageId page final} :
      Allocates options history engine →
      (Pager.allocatePage pageType).run engine =
        .ok (pageId, page) final →
      final.metaPage.pageCount < 2 ^ 32 →
      Allocates options (.allocated pageId :: history) final
  | refusedAllocate
      {history engine pageType raised final} :
      Allocates options history engine →
      (Pager.allocatePage pageType).run engine =
        .error raised final →
      Allocates options history final
  | freed {history engine pageId final} :
      Allocates options history engine →
      pageId ∈ live history →
      (Pager.freePage pageId).run engine = .ok () final →
      Allocates options (.freed pageId :: history) final
  | refusedFree {history engine pageId raised final} :
      Allocates options history engine →
      pageId ∈ live history →
      (Pager.freePage pageId).run engine = .error raised final →
      Allocates options history final
  | wrote {history engine pageId page final} :
      Allocates options history engine →
      pageId ∈ live history →
      (Pager.writePage pageId page).run engine = .ok () final →
      Allocates options history final
  | refusedWrite {history engine pageId page raised final} :
      Allocates options history engine →
      pageId ∈ live history →
      (Pager.writePage pageId page).run engine =
        .error raised final →
      Allocates options history final
  | synced {history engine final} :
      Allocates options history engine →
      Pager.sync.run engine = .ok () final →
      Allocates options history final

--
-- What a Call Does
--

namespace Pager

/- The meta page of the core, field by field. -/
theorem field_of_ready
    {α : Type}
    {engine : Engine π}
    (hReady : Ready (Core.Shows pages metaPage pageSize)
      engine)
    (field : MetaPage → α)
    (hField : ∀ page : MetaPage,
      field page.content = field page) :
    field engine.metaPage = field metaPage := by
  rw [← hField engine.metaPage, ← hField metaPage]
  exact congrArg field hReady.2.metaPage

theorem ensureOpen_shown :
    Triple (Ready (Core.Shows pages metaPage pageSize))
      (ensureOpen (π := π))
      (fun _ => Ready (Core.Shows pages metaPage pageSize))
      (fun _ _ => False) := by
  unfold ensureOpen
  refine Triple.read fun engine hReady => ?_
  refine Triple.ite (fun hClosed => ?_) fun _ =>
    Triple.pure fun _ h => h ▸ hReady
  rw [hReady.1.isOpen] at hClosed
  cases hClosed

/- With nothing free the file grows by a page. -/
theorem takePageId_fresh
    (hEmpty : metaPage.freeListHead = invalidPageId) :
    Triple (Ready (Core.Shows pages metaPage pageSize))
      (takePageId (π := π))
      (fun taken engine =>
        taken = (metaPage.pageCount, false) ∧
          Ready (Core.Shows pages
            { metaPage with
              pageCount := metaPage.pageCount + 1 }
            pageSize) engine)
      (fun _ _ => False) := by
  unfold takePageId
  refine Triple.read fun engine hReady => ?_
  have hHead : engine.metaPage.freeListHead =
      invalidPageId :=
    (field_of_ready hReady MetaPage.freeListHead
      fun _ => rfl).trans hEmpty
  have hCount : engine.metaPage.pageCount =
      metaPage.pageCount :=
    field_of_ready hReady MetaPage.pageCount fun _ => rfl
  rw [if_neg (not_not_intro hHead), hCount]
  refine Triple.bind
    ((editMeta_shown (f := fun page =>
      { page with pageCount := metaPage.pageCount + 1 })
      fun _ => rfl).pre (fun _ h => h ▸ hReady)) fun _ => ?_
  exact Triple.pure fun _ h => ⟨rfl, h⟩

/- Otherwise the head of the free list is taken off it. -/
theorem takePageId_recycled
    {page : Page π}
    (hHead : metaPage.freeListHead ≠ invalidPageId)
    (hPage : pages metaPage.freeListHead = some (.slotted page))
    (hValid : page.validateHeader metaPage.freeListHead =
      .ok ()) :
    Triple (Ready (Core.Shows pages metaPage pageSize))
      (takePageId (π := π))
      (fun taken engine =>
        taken = (metaPage.freeListHead, true) ∧
          Ready (Core.Shows pages
            { metaPage with
              freeListHead := page.nextPageId }
            pageSize) engine)
      (fun _ _ => False) := by
  unfold takePageId
  refine Triple.read fun engine hReady => ?_
  have hSame : engine.metaPage.freeListHead =
      metaPage.freeListHead :=
    field_of_ready hReady MetaPage.freeListHead fun _ => rfl
  simp only
  rw [hSame, if_pos hHead]
  refine Triple.bind
    ((readFree_shown hPage hValid).pre
      (fun _ h => h ▸ hReady)) fun found => ?_
  refine Triple.start fun current hCurrent => ?_
  rw [hCurrent.2]
  refine Triple.bind
    ((editMeta_shown (f := fun held =>
      { held with freeListHead := page.nextPageId })
      fun _ => rfl).pre (fun _ h => h ▸ hCurrent.1)) fun _ => ?_
  exact Triple.pure fun _ h => ⟨rfl, h⟩

/- The pages once a page and the meta page were written. -/
def withPage
    (pages : PageId → Option (PageImage π))
    (pageId : PageId)
    (page : Page π)
    (metaPage : MetaPage) :
    PageId → Option (PageImage π) :=
  Function.update
    (Function.update pages pageId (some (.slotted page)))
    metaPageId (some (.metaPage metaPage))

section WithPage

variable {other : PageId}

theorem withPage_self (hPage : 0 < pageId) :
    withPage pages pageId page metaPage pageId =
      some (.slotted page) := by
  have hMeta : pageId ≠ metaPageId :=
    Nat.pos_iff_ne_zero.mp hPage
  simp [withPage, hMeta]

theorem withPage_of_ne
    (hOther : 0 < other)
    (hSame : other ≠ pageId) :
    withPage pages pageId page metaPage other =
      pages other := by
  have hMeta : other ≠ metaPageId :=
    Nat.pos_iff_ne_zero.mp hOther
  simp [withPage, hMeta, hSame]

end WithPage

variable {image : PageImage π}

/- The meta page stays readable when a page is written. -/
theorem meta_known
    (hMeta : pages metaPageId = some image)
    (pageId : PageId)
    (raw : PageImage π) :
    ∃ held, Function.update pages pageId (some raw)
      metaPageId = some held := by
  by_cases hSame : metaPageId = pageId
  · exact ⟨raw, by rw [hSame, Function.update_self]⟩
  · exact ⟨image, by rw [Function.update_of_ne hSame, hMeta]⟩

/- Allocating, from what is taken. -/
theorem allocatePage_shown
    (taken : PageId × Bool)
    (metaAfter : MetaPage)
    (hMeta : pages metaPageId = some image)
    (hValid : validatePageSize pageSize = .ok ())
    (hFits : pageSize < 65536)
    (hSize : metaAfter.pageSize = pageSize)
    (hKnown : taken.2 = true →
      ∃ image, pages taken.1 = some image)
    (hTakes : Triple
      (Ready (Core.Shows pages metaPage pageSize))
      (takePageId (π := π))
      (fun found engine => found = taken ∧
        Ready (Core.Shows pages metaAfter pageSize) engine)
      (fun _ _ => False))
    (pageType : PageType) :
    Triple (Ready (Core.Shows pages metaPage pageSize))
      (allocatePage (π := π) pageType)
      (fun result engine =>
        result = (taken.1, Page.blank pageType pageSize) ∧
          Ready (Core.Shows
            (withPage pages taken.1
              (Page.blank pageType pageSize) metaAfter)
            metaAfter pageSize) engine)
      (fun _ _ => False) := by
  unfold allocatePage
  refine ensureOpen_shown.bind fun _ => ?_
  refine hTakes.bind fun found => ?_
  refine Triple.start fun engine hEngine => ?_
  rcases hEngine with ⟨rfl, hReady⟩
  have hEngineSize : engine.pageSize = pageSize :=
    hReady.2.pageSize
  refine Triple.read fun current hSame => ?_
  subst hSame
  rw [hEngineSize, Page.create_ok hValid hFits pageType]
  refine Triple.bind
    (Q := fun page current =>
      page = Page.blank pageType pageSize ∧
        Ready (Core.Shows pages metaAfter pageSize) current)
    (Triple.pure fun _ h => ⟨rfl, h ▸ hReady⟩) fun page => ?_
  refine Triple.start fun current hCurrent => ?_
  rcases hCurrent with ⟨rfl, hCurrent⟩
  refine Triple.weaken ?_ (fun _ h => h ▸ hCurrent)
    (fun _ _ h => h) (fun _ _ h => h)
  have hLength : Wal.byteLength (PageImage.slotted
      (Page.blank pageType pageSize) : PageImage π) =
        pageSize := rfl
  refine (captured_shown hKnown _).bind fun _ => ?_
  refine (overwriteAt_shown found.1 hLength _).bind
    fun _ => ?_
  rcases meta_known hMeta found.1
    (.slotted (Page.blank pageType pageSize)) with
    ⟨held, hHeld⟩
  refine (writeMeta_shown hHeld hSize).bind fun _ => ?_
  exact Triple.pure fun _ h => ⟨rfl, h⟩

/-
  A page put on the free list links to what was its head. A
  call that raises is one that could not read the page.
-/
theorem freePage_shown
    {pageId : PageId}
    {held : PageImage π}
    (hMeta : pages metaPageId = some image)
    (hPage : pages pageId = some held)
    (hValid : validatePageSize pageSize = .ok ())
    (hFits : pageSize < 65536)
    (hSize : metaPage.pageSize = pageSize) :
    Triple (Ready (Core.Shows pages metaPage pageSize))
      (freePage (π := π) pageId)
      (fun _ => Ready (Core.Shows
        (withPage pages pageId
          { Page.blank .free pageSize with
            nextPageId := metaPage.freeListHead }
          { metaPage with freeListHead := pageId })
        { metaPage with freeListHead := pageId } pageSize))
      (fun _ =>
        Ready (Core.Shows pages metaPage pageSize)) := by
  have hCalm :
      Calm (Core.Shows pages metaPage pageSize) :=
    Core.Shows.calm
  unfold freePage
  refine ensureOpen_keeps.bind fun _ => ?_
  refine Triple.ite (fun _ => Triple.throw fun _ h => h)
    fun _ => ?_
  refine (checkPageId_keeps pageId).bind fun _ => ?_
  refine Triple.bind
    (Q := fun _ =>
      Ready (Core.Shows pages metaPage pageSize)) ?_
    fun _ => ?_
  · unfold readFree
    refine Triple.read fun engine hReady => ?_
    refine Triple.bind ((fetch_spec hCalm pageId).weaken
      (fun _ h => h ▸ hReady) (fun _ _ h => h.1)
      (fun _ _ h => h)) fun found => ?_
    exact (fromExcept_keeps _).post (fun _ _ h => h.1)
  refine Triple.read fun engine hReady => ?_
  have hEngineSize : engine.pageSize = pageSize :=
    hReady.2.pageSize
  have hHead : engine.metaPage.freeListHead =
      metaPage.freeListHead :=
    field_of_ready hReady MetaPage.freeListHead fun _ => rfl
  rw [hEngineSize, Page.create_ok hValid hFits .free]
  refine Triple.bind
    (Q := fun blank current =>
      blank = Page.blank .free pageSize ∧
        Ready (Core.Shows pages metaPage pageSize) current)
    (Triple.pure fun _ h => ⟨rfl, h ▸ hReady⟩)
    fun blank => ?_
  refine Triple.start fun current hCurrent => ?_
  rcases hCurrent with ⟨rfl, hCurrent⟩
  simp only [hHead]
  refine Triple.weaken ?_ (fun _ h => h ▸ hCurrent)
    (fun _ _ h => h) (fun _ _ h => h)
  refine Triple.weaken (Q := fun _ => Ready (Core.Shows
      (withPage pages pageId
        { Page.blank .free pageSize with
          nextPageId := metaPage.freeListHead }
        { metaPage with freeListHead := pageId })
      { metaPage with freeListHead := pageId } pageSize))
    (E := fun _ _ => False) ?_ (fun _ h => h)
    (fun _ _ h => h) (fun _ _ h => h.elim)
  have hLength : Wal.byteLength (PageImage.slotted
      { Page.blank .free pageSize with
        nextPageId := metaPage.freeListHead } :
          PageImage π) = pageSize := rfl
  refine (captured_shown (fun _ => ⟨held, hPage⟩) _).bind
    fun _ => ?_
  refine (overwriteAt_shown pageId hLength _).bind
    fun _ => ?_
  refine (editMeta_shown (f := fun page =>
    { page with freeListHead := pageId })
    fun _ => rfl).bind fun _ => ?_
  rcases meta_known hMeta pageId
    (.slotted { Page.blank .free pageSize with
      nextPageId := metaPage.freeListHead }) with
    ⟨image', hImage⟩
  exact writeMeta_shown hImage hSize

/- A page is written whole, or nothing changes. -/
theorem writePage_shown
    (pageId : PageId)
    (page : Page π) :
    Triple (Ready (Core.Shows pages metaPage pageSize))
      (writePage pageId page)
      (fun _ => Ready (Core.Shows
        (Function.update pages pageId
          (some (.slotted page))) metaPage pageSize))
      (fun _ =>
        Ready (Core.Shows pages metaPage pageSize)) := by
  unfold writePage
  refine ensureOpen_keeps.bind fun _ => ?_
  refine Triple.ite (fun _ => Triple.throw fun _ h => h)
    fun _ => ?_
  refine (checkPageId_keeps pageId).bind fun _ => ?_
  refine writeAt_spec Core.Shows.calm Core.Shows.calm _ _ _
    _ ?_
  intro core core' transactionId before hShows hAnswers _
  exact (hShows.intended hAnswers).logged _ _ _ _

/- Page 0 of a new file, which nobody has read. -/
theorem writeMeta_new :
    Triple (Ready (Core.Shows pages metaPage pageSize))
      (writeMeta (π := π))
      (fun _ engine => ∃ image,
        Ready (Core.Shows
          (Function.update pages metaPageId (some image))
          metaPage pageSize) engine)
      (fun _ _ => True) := by
  unfold writeMeta
  refine Triple.read fun engine hReady => ?_
  have hWrite : Triple
      (Ready (Core.Shows pages metaPage pageSize))
      (writeAt metaPageId (.metaPage engine.metaPage)
        "meta page" true)
      (fun _ => Ready (Core.Shows
        (Function.update pages metaPageId
          (some (.metaPage engine.metaPage))) metaPage
        pageSize))
      (fun _ =>
        Ready (Core.Shows pages metaPage pageSize)) := by
    refine writeAt_spec Core.Shows.calm Core.Shows.calm _ _
      _ _ ?_
    intro core core' transactionId before hShows hAnswers _
    exact (hShows.intended hAnswers).logged _ _ _ _
  exact hWrite.weaken (fun _ h => h ▸ hReady)
    (fun _ _ h => ⟨_, h⟩) (fun _ _ _ => trivial)

theorem sync_shown :
    Triple (Ready (Core.Shows pages metaPage pageSize))
      (sync (π := π))
      (fun _ => Ready (Core.Shows pages metaPage pageSize))
      (fun _ =>
        Ready (Core.Shows pages metaPage pageSize)) := by
  have hCalm :
      Calm (Core.Shows pages metaPage pageSize) :=
    Core.Shows.calm
  unfold sync
  refine ensureOpen_keeps.bind fun _ => ?_
  refine Triple.bind
    ((changeLog_keeps .logFlushed WriteAheadLog.flushed
      (fun _ hOpen => ⟨(), WriteAheadLog.flush_run hOpen⟩)
      (fun _ h => h.flushed) WriteAheadLog.flushed_closed
      (K := Core.Shows pages metaPage pageSize)
      fun core hShows => ?_).raises (fun _ _ h => h.elim))
        fun _ => ?_
  · exact ⟨hShows.clean, hShows.shown, hShows.metaPage,
      hShows.pageSize⟩
  · exact (flushPool_spec hCalm).weaken (fun _ h => h)
      (fun _ _ h => h.1) (fun _ _ h => h.elim)

--
-- The Chain
--

/- The pages hold a chain from a page through these to
   `INVALID_PAGE_ID`. -/
def Threads
    (pages : PageId → Option (PageImage π)) :
    PageId → List PageId → Prop
  | head, [] => head = invalidPageId
  | head, pageId :: rest =>
    head = pageId ∧
      ∃ page, pages pageId = some (.slotted page) ∧
        page.validateHeader pageId = .ok () ∧
        Threads pages page.nextPageId rest

variable {head : PageId} {pageIds : List PageId}

/- Pages off the chain may change. -/
theorem Threads.congr
    {others : PageId → Option (PageImage π)}
    (hThreads : Threads pages head pageIds)
    (hSame : ∀ pageId ∈ pageIds, others pageId = pages pageId) :
    Threads others head pageIds := by
  induction pageIds generalizing head with
  | nil => exact hThreads
  | cons pageId rest ih =>
    rcases hThreads with ⟨hHead, page, hPage, hValid, hRest⟩
    refine ⟨hHead, page, ?_, hValid, ih hRest ?_⟩
    · rw [hSame pageId (by simp), hPage]
    · intro other hOther
      exact hSame other (.tail _ hOther)

/- The walk yields the chain and ends where it ends. -/
theorem freeListFrom_shown
    (seen : List PageId)
    {count : Nat}
    (hThreads : Threads pages head pageIds)
    (hValid : ∀ pageId ∈ pageIds, pageId ≠ invalidPageId)
    (hDistinct : pageIds.Nodup)
    (hUnseen : ∀ pageId ∈ pageIds, pageId ∉ seen)
    (hCount : pageIds.length < count) :
    Triple (Ready (Core.Shows pages metaPage pageSize))
      (freeListFrom (π := π) count head seen)
      (fun yielded engine => yielded = pageIds ∧
        Ready (Core.Shows pages metaPage pageSize) engine)
      (fun _ _ => False) := by
  induction pageIds generalizing head seen count with
  | nil =>
    obtain ⟨count, rfl⟩ : ∃ less, count = less + 1 :=
      ⟨count - 1, by simp at hCount; omega⟩
    have hEnd : head = invalidPageId := hThreads
    unfold freeListFrom
    rw [if_pos hEnd]
    exact Triple.pure fun _ h => ⟨rfl, h⟩
  | cons pageId rest ih =>
    obtain ⟨count, rfl⟩ : ∃ less, count = less + 1 :=
      ⟨count - 1, by simp at hCount; omega⟩
    rcases hThreads with ⟨rfl, page, hPage, hHeader, hRest⟩
    rw [List.nodup_cons] at hDistinct
    unfold freeListFrom
    rw [if_neg (hValid head (by simp)),
      if_neg (hUnseen head (by simp))]
    refine (readFree_shown hPage hHeader).bind
      fun found => ?_
    refine Triple.start fun engine hEngine => ?_
    rw [hEngine.2]
    have hLater := ih (head :: seen) hRest
      (fun other hOther =>
        hValid other (.tail _ hOther))
      hDistinct.2 ?_ (by simpa using hCount)
    · refine Triple.bind (hLater.pre
        (fun _ h => h ▸ hEngine.1)) fun yielded => ?_
      refine Triple.pure fun current hCurrent => ?_
      exact ⟨by rw [hCurrent.1], hCurrent.2⟩
    · intro other hOther hSeen
      rcases List.mem_cons.mp hSeen with rfl | hSeen
      · exact hDistinct.1 hOther
      · exact hUnseen other (.tail _ hOther)
          hSeen

end Pager

--
-- The Ledger
--

/- What a run of calls leaves in the pages and in the meta
   page. -/
structure Ledger
    (history : List PageCall)
    (pages : PageId → Option (PageImage π))
    (metaPage : MetaPage)
    (pageSize : Nat) : Prop where
  size : metaPage.pageSize = pageSize
  validSize : validatePageSize pageSize = .ok ()
  metaKnown : ∃ image, pages metaPageId = some image
  threads :
    Pager.Threads pages metaPage.freeListHead
      (freed history)
  distinct : (freed history).Nodup
  freedInside : ∀ pageId ∈ freed history,
    0 < pageId ∧ pageId < metaPage.pageCount
  liveInside : ∀ pageId ∈ live history,
    0 < pageId ∧ pageId < metaPage.pageCount
  liveKnown : ∀ pageId ∈ live history,
    ∃ image, pages pageId = some image
  apart : ∀ pageId ∈ live history, pageId ∉ freed history
  covered : ∀ pageId, pageId < metaPage.pageCount →
    pageId = metaPageId ∨ pageId ∈ live history ∨
      pageId ∈ freed history
  nonempty : 0 < metaPage.pageCount
  packed : metaPage.pageCount < 2 ^ 32

variable {history : List PageCall}

theorem validateHeader_of
    (hStart : page.freeStart =
      pageHeaderSize + page.slotCount * slotSize)
    (hEnd : page.freeStart ≤ page.freeEnd)
    (hInside : page.freeEnd ≤ page.pageSize)
    (pageId : PageId) :
    page.validateHeader pageId = .ok () := by
  unfold Page.validateHeader
  simp only [← hStart]
  rw [if_neg (by simp), if_neg (by omega)]

/- A new page has a sound header. -/
theorem validateHeader_create
    {pageSize : Nat}
    (hValid : validatePageSize pageSize = .ok ())
    (pageType : PageType)
    (nextPageId pageId : PageId) :
    ({ Page.blank pageType pageSize with
      nextPageId := nextPageId } : Page π).validateHeader
        pageId = .ok () := by
  have hSize := pageSize_bounds hValid
  refine validateHeader_of rfl ?_ (le_refl _) pageId
  simp only [Page.blank, pageHeaderSize]
  omega

namespace Ledger

theorem valid_of_freed
    (hLedger : Ledger history pages metaPage pageSize)
    (hFreed : pageId ∈ freed history) :
    pageId ≠ invalidPageId := by
  have hInside := hLedger.freedInside pageId hFreed
  have hPacked := hLedger.packed
  rintro rfl
  have hLess : 0xFFFFFFFF < metaPage.pageCount := hInside.2
  omega

/- The head says whether anything is free. -/
theorem head_eq
    (hLedger : Ledger history pages metaPage pageSize) :
    (metaPage.freeListHead = invalidPageId ∧
        freed history = []) ∨
      ∃ rest page,
        metaPage.freeListHead ≠ invalidPageId ∧
        freed history = metaPage.freeListHead :: rest ∧
        pages metaPage.freeListHead = some (.slotted page) ∧
        page.validateHeader metaPage.freeListHead = .ok () ∧
        Pager.Threads pages page.nextPageId rest := by
  have hThreads := hLedger.threads
  cases hFreed : freed history with
  | nil =>
    rw [hFreed] at hThreads
    exact .inl ⟨hThreads, rfl⟩
  | cons pageId rest =>
    rw [hFreed] at hThreads
    rcases hThreads with ⟨rfl, page, hPage, hHeader, hRest⟩
    refine .inr ⟨rest, page, ?_, rfl, hPage, hHeader, hRest⟩
    exact hLedger.valid_of_freed (by simp [hFreed])

section Ledgers

variable (hLedger : Ledger history pages metaPage pageSize)

include hLedger

/- A page nobody holds, at the end of the file. -/
theorem fresh
    (hEmpty : freed history = [])
    (hHead : metaPage.freeListHead = invalidPageId)
    (hPacked : metaPage.pageCount + 1 < 2 ^ 32)
    (page : Page π) :
    Ledger (.allocated metaPage.pageCount :: history)
      (Pager.withPage pages metaPage.pageCount page
        { metaPage with
          pageCount := metaPage.pageCount + 1 })
      { metaPage with pageCount := metaPage.pageCount + 1 }
      pageSize where
  size := hLedger.size
  validSize := hLedger.validSize
  metaKnown := ⟨_, Function.update_self ..⟩
  threads := by simp [freed, hEmpty, Pager.Threads, hHead]
  distinct := by simp [freed, hEmpty]
  freedInside := by simp [freed, hEmpty]
  liveInside := by
    intro pageId hLive
    rcases List.mem_cons.mp hLive with rfl | hLive
    · exact ⟨hLedger.nonempty, Nat.lt_succ_self _⟩
    · have hInside := hLedger.liveInside pageId hLive
      exact ⟨hInside.1, Nat.lt_succ_of_lt hInside.2⟩
  liveKnown := by
    intro pageId hLive
    rcases List.mem_cons.mp hLive with rfl | hLive
    · exact ⟨_, Pager.withPage_self hLedger.nonempty⟩
    · rcases hLedger.liveKnown pageId hLive with
        ⟨image, hImage⟩
      have hInside := hLedger.liveInside pageId hLive
      refine ⟨image, ?_⟩
      rw [Pager.withPage_of_ne hInside.1
        (Nat.ne_of_lt hInside.2), hImage]
  apart := by simp [freed, hEmpty]
  covered := by
    intro pageId hInside
    by_cases hLast : pageId = metaPage.pageCount
    · simp [live, hLast]
    · simp only at hInside
      rcases hLedger.covered pageId (by omega) with
        hMeta | hLive | hFreed
      · exact .inl hMeta
      · exact .inr (.inl (.tail _ hLive))
      · rw [hEmpty] at hFreed
        cases hFreed
  nonempty := Nat.succ_pos _
  packed := hPacked

/- The page freed last, handed out again. -/
theorem recycled
    {next : PageId}
    {rest : List PageId}
    (hFreed : freed history = pageId :: rest)
    (hRest : Pager.Threads pages next rest)
    (page : Page π) :
    Ledger (.allocated pageId :: history)
      (Pager.withPage pages pageId page
        { metaPage with freeListHead := next })
      { metaPage with freeListHead := next } pageSize := by
  have hDistinct := hLedger.distinct
  rw [hFreed, List.nodup_cons] at hDistinct
  have hLeft : freed (.allocated pageId :: history) =
      rest := by
    simp only [freed, hFreed]
    rw [List.filter_cons_of_neg (by simp), List.filter_eq_self]
    intro other hOther
    simpa using fun hSame : other = pageId =>
      hDistinct.1 (hSame ▸ hOther)
  have hInside := hLedger.freedInside pageId
    (by simp [hFreed])
  have hFree : ∀ other ∈ rest, other ∈ freed history := by
    intro other hOther
    simp [hFreed, hOther]
  exact
    { size := hLedger.size
      validSize := hLedger.validSize
      metaKnown := ⟨_, Function.update_self ..⟩
      threads := by
        rw [hLeft]
        refine Pager.Threads.congr hRest fun other hOther => ?_
        have hOtherInside :=
          hLedger.freedInside other (hFree other hOther)
        exact Pager.withPage_of_ne hOtherInside.1
          fun hSame => hDistinct.1 (hSame ▸ hOther)
      distinct := by
        rw [hLeft]
        exact hDistinct.2
      freedInside := by
        rw [hLeft]
        exact fun other hOther =>
          hLedger.freedInside other (hFree other hOther)
      liveInside := by
        intro other hLive
        rcases List.mem_cons.mp hLive with rfl | hLive
        · exact hInside
        · exact hLedger.liveInside other hLive
      liveKnown := by
        intro other hLive
        by_cases hSame : other = pageId
        · exact ⟨_, by
            rw [hSame, Pager.withPage_self hInside.1]⟩
        · rcases List.mem_cons.mp hLive with hNew | hLive
          · exact absurd hNew hSame
          · rcases hLedger.liveKnown other hLive with
              ⟨image, hImage⟩
            have hOther := hLedger.liveInside other hLive
            exact ⟨image, by
              rw [Pager.withPage_of_ne hOther.1 hSame, hImage]⟩
      apart := by
        rw [hLeft]
        intro other hLive hOther
        rcases List.mem_cons.mp hLive with rfl | hLive
        · exact hDistinct.1 hOther
        · exact hLedger.apart other hLive (hFree other hOther)
      covered := by
        rw [hLeft]
        intro other hOther
        rcases hLedger.covered other hOther with
          hMeta | hLive | hHeld
        · exact .inl hMeta
        · exact .inr (.inl
            (.tail _ hLive))
        · rw [hFreed] at hHeld
          rcases List.mem_cons.mp hHeld with rfl | hHeld
          · exact .inr (.inl (by simp [live]))
          · exact .inr (.inr hHeld)
      nonempty := hLedger.nonempty
      packed := hLedger.packed }

/- A page given back goes to the front. -/
theorem returned
    {pageId : PageId}
    (hLive : pageId ∈ live history) :
    Ledger (.freed pageId :: history)
      (Pager.withPage pages pageId
        { Page.blank .free pageSize with
          nextPageId := metaPage.freeListHead }
        { metaPage with freeListHead := pageId })
      { metaPage with freeListHead := pageId } pageSize := by
  have hInside := hLedger.liveInside pageId hLive
  have hNew := hLedger.apart pageId hLive
  have hStill : ∀ other,
      other ∈ live (.freed pageId :: history) ↔
        other ∈ live history ∧ other ≠ pageId := by
    intro other
    simp [live]
  exact
    { size := hLedger.size
      validSize := hLedger.validSize
      metaKnown := ⟨_, Function.update_self ..⟩
      threads := by
        refine ⟨rfl, _, ?_, validateHeader_create
          hLedger.validSize .free metaPage.freeListHead
            pageId, Pager.Threads.congr hLedger.threads ?_⟩
        · exact Pager.withPage_self hInside.1
        · intro other hOther
          have hOtherInside := hLedger.freedInside other hOther
          exact Pager.withPage_of_ne hOtherInside.1
            fun hSame => hNew (hSame ▸ hOther)
      distinct := List.nodup_cons.mpr
        ⟨hNew, hLedger.distinct⟩
      freedInside := by
        intro other hOther
        rcases List.mem_cons.mp hOther with rfl | hOther
        · exact hInside
        · exact hLedger.freedInside other hOther
      liveInside := by
        intro other hOther
        exact hLedger.liveInside other
          ((hStill other).mp hOther).1
      liveKnown := by
        intro other hOther
        rcases (hStill other).mp hOther with ⟨hOther, hSame⟩
        rcases hLedger.liveKnown other hOther with
          ⟨image, hImage⟩
        have hOtherInside := hLedger.liveInside other hOther
        exact ⟨image, by
          rw [Pager.withPage_of_ne hOtherInside.1 hSame,
            hImage]⟩
      apart := by
        intro other hOther hHeld
        rcases (hStill other).mp hOther with ⟨hOther, hSame⟩
        rcases List.mem_cons.mp hHeld with hNow | hHeld
        · exact hSame hNow
        · exact hLedger.apart other hOther hHeld
      covered := by
        intro other hOther
        by_cases hSame : other = pageId
        · exact .inr (.inr (by simp [freed, hSame]))
        · rcases hLedger.covered other hOther with
            hMeta | hHeld | hHeld
          · exact .inl hMeta
          · exact .inr (.inl
              ((hStill other).mpr ⟨hHeld, hSame⟩))
          · exact .inr (.inr
              (.tail _ hHeld))
      nonempty := hLedger.nonempty
      packed := hLedger.packed }

/- What a page in use holds is nobody's concern. -/
theorem rewritten
    (hLive : pageId ∈ live history)
    (image : PageImage π) :
    Ledger history
      (Function.update pages pageId (some image)) metaPage
      pageSize :=
  { hLedger with
    metaKnown := by
      rcases hLedger.metaKnown with ⟨held, hHeld⟩
      exact Pager.meta_known hHeld pageId image
    threads := by
      refine Pager.Threads.congr hLedger.threads
        fun other hOther => ?_
      rw [Function.update_of_ne]
      rintro rfl
      exact hLedger.apart other hLive hOther
    liveKnown := by
      intro other hOther
      by_cases hSame : other = pageId
      · exact ⟨image, by rw [hSame, Function.update_self]⟩
      · rw [Function.update_of_ne hSame]
        exact hLedger.liveKnown other hOther }

end Ledgers

end Ledger

--
-- Runs
--

/- The engine and the ledger of the run that led to it. -/
def Accounted
    (pageSize : Nat)
    (history : List PageCall)
    (engine : Engine π) : Prop :=
  ∃ pages metaPage,
    Ready (Core.Shows pages metaPage pageSize) engine ∧
      Ledger history pages metaPage pageSize

variable {engine final : Engine π}

theorem ledger_created
    {pageSize : Nat}
    {image : PageImage π}
    (hValid : validatePageSize pageSize = .ok ())
    (hMeta : pages metaPageId = some image) :
    Ledger [] pages (MetaPage.create pageSize) pageSize where
  size := rfl
  validSize := hValid
  metaKnown := ⟨image, hMeta⟩
  threads := rfl
  distinct := List.nodup_nil
  freedInside := by simp [freed]
  liveInside := by simp [live]
  liveKnown := by simp [live]
  apart := by simp [live]
  covered := by
    intro pageId hInside
    exact .inl (Nat.lt_one_iff.mp hInside)
  nonempty := Nat.one_pos
  packed := by simp [MetaPage.create]

variable {options : Pager.Options}

/- A new file holds page 0 and nothing else. -/
theorem accounted_created
    {records : List (LogRecord (PageImage π))}
    (hOpening : Pager.opening options ⟨[], records⟩ =
      .ok engine)
    (hStart : (Pager.start false).run engine = .ok () final) :
    Accounted options.pageSize [] final := by
  unfold Pager.opening at hOpening
  rcases ok_of_bind hOpening with ⟨⟨⟩, hValid, hRest⟩
  rcases ok_of_bind hRest with ⟨pool, hPool, hEngine⟩
  cases hEngine
  have hSound : pool.Sound options.pageSize 0 := by
    unfold BufferPool.create at hPool
    split at hPool
    · cases hPool
    · cases hPool
      exact BufferPool.sound_ofFrames (by omega)
  have hEmpty : pool.cached = fun _ => none := by
    unfold BufferPool.create at hPool
    split at hPool
    · cases hPool
    · cases hPool
      rfl
  let metaPage := MetaPage.create options.pageSize
  let nothing : PageId → Option (PageImage π) :=
    fun _ => none
  let J := Core.Shows nothing metaPage options.pageSize
  have hTriple : Triple
      (fun current => current = Pager.engineOver options
        ⟨[], records⟩ metaPage pool)
      (Pager.start false)
      (fun _ => Accounted options.pageSize [])
      (fun _ _ => True) := by
    unfold Pager.start
    refine Triple.bind (Q := fun _ => Ready J)
      (Triple.modify fun current hCurrent => ?_) fun _ => ?_
    · rw [hCurrent]
      refine ⟨⟨hSound, WriteAheadLog.openFile_staged _ _,
        rfl, rfl⟩, ?_⟩
      refine ⟨fun pageId frame hFrame _ => ?_,
        fun pageId image hPage => ?_, rfl, rfl⟩
      · change pool.cached pageId = some frame at hFrame
        rw [hEmpty] at hFrame
        cases hFrame
      · cases hPage
    · simp only [Bool.false_eq_true, ↓reduceIte]
      refine Triple.bind
        (Q := fun _ current => ∃ image,
          Ready (Core.Shows (Function.update nothing
            metaPageId (some image)) metaPage
            options.pageSize) current) ?_ fun _ => ?_
      · exact Pager.writeMeta_new
      · refine Triple.start fun current hCurrent => ?_
        rcases hCurrent with ⟨image, hReady⟩
        refine Pager.sync_shown.weaken
          (fun _ h => h ▸ hReady)
          (fun _ _ h => ⟨_, _, h, ledger_created hValid
            (Function.update_self ..)⟩)
          (fun _ _ _ => trivial)
  exact hTriple.of_ok rfl hStart

/- What an allocation will take, and what it leaves. -/
theorem Ledger.allocation
    {pageSize : Nat}
    (hLedger : Ledger history pages metaPage pageSize)
    (hFits : pageSize < 65536)
    (pageType : PageType) :
    ∃ (pageId : PageId) (metaAfter : MetaPage),
      pageId ∉ live history ∧
      Triple (Ready (Core.Shows pages metaPage pageSize))
        (Pager.allocatePage (π := π) pageType)
        (fun result engine =>
          result = (pageId, Page.blank pageType pageSize) ∧
            Ready (Core.Shows
              (Pager.withPage pages pageId
                (Page.blank pageType pageSize) metaAfter)
              metaAfter pageSize) engine)
        (fun _ _ => False) ∧
      (metaAfter.pageCount < 2 ^ 32 →
        Ledger (.allocated pageId :: history)
          (Pager.withPage pages pageId
            (Page.blank pageType pageSize) metaAfter)
          metaAfter pageSize) := by
  rcases hLedger.metaKnown with ⟨image, hMeta⟩
  rcases hLedger.head_eq with
    ⟨hHead, hEmpty⟩ |
    ⟨rest, freePage, hHead, hFreed, hPage, hHeader, hRest⟩
  · have hSpec := Pager.allocatePage_shown
      (metaPage.pageCount, false)
      { metaPage with pageCount := metaPage.pageCount + 1 }
      hMeta hLedger.validSize hFits hLedger.size
      (fun hNever => absurd hNever Bool.false_ne_true)
      (Pager.takePageId_fresh hHead) pageType
    refine ⟨metaPage.pageCount, _, ?_, hSpec,
      fun hPacked =>
        hLedger.fresh hEmpty hHead hPacked _⟩
    intro hLive
    exact Nat.lt_irrefl _ (hLedger.liveInside _ hLive).2
  · have hSpec := Pager.allocatePage_shown
      (metaPage.freeListHead, true)
      { metaPage with freeListHead := freePage.nextPageId }
      hMeta hLedger.validSize hFits hLedger.size
      (fun _ => ⟨_, hPage⟩)
      (Pager.takePageId_recycled hHead hPage hHeader)
      pageType
    refine ⟨metaPage.freeListHead, _, ?_, hSpec,
      fun _ => hLedger.recycled hFreed hRest _⟩
    intro hLive
    exact hLedger.apart _ hLive (by simp [hFreed])

/- One allocation more, from what it does to the pages. -/
theorem accounted_allocated
    {pageType : PageType}
    {pageId : PageId}
    (hAccounted : Accounted pageSize history engine)
    (hFits : pageSize < 65536)
    (hRun : (Pager.allocatePage pageType).run engine =
      .ok (pageId, page) final)
    (hPacked : final.metaPage.pageCount < 2 ^ 32) :
    Accounted pageSize (.allocated pageId :: history)
      final := by
  rcases hAccounted with ⟨pages, metaPage, hReady, hLedger⟩
  rcases hLedger.allocation hFits pageType with
    ⟨taken, metaAfter, _, hSpec, hAfter⟩
  rcases hSpec.of_ok hReady hRun with ⟨hResult, hFinal⟩
  cases hResult
  have hCount := Pager.field_of_ready hFinal
    MetaPage.pageCount fun _ => rfl
  rw [hCount] at hPacked
  exact ⟨_, _, hFinal, hAfter hPacked⟩

/- Allocation returns a page that is not in use. -/
theorem allocates_of_accounted
    (hAccounted : Accounted pageSize history engine)
    (hFits : pageSize < 65536)
    (pageType : PageType) :
    ∃ pageId page final,
      (Pager.allocatePage pageType).run engine =
        .ok (pageId, page) final ∧
      pageId ∉ live history := by
  rcases hAccounted with ⟨pages, metaPage, hReady, hLedger⟩
  rcases hLedger.allocation hFits pageType with
    ⟨taken, metaAfter, hNew, hSpec, _⟩
  have hRun := hSpec engine hReady
  cases hResult :
      (Pager.allocatePage pageType).run engine with
  | ok result final =>
    rw [hResult] at hRun
    rcases hRun with ⟨rfl, _⟩
    exact ⟨_, _, final, rfl, hNew⟩
  | error raised final =>
    rw [hResult] at hRun
    exact hRun.elim

/- Every run over pages whose end has 16 bits keeps its
   ledger: no allocation raises there. -/
theorem accounted_of_allocates
    (hFits : options.pageSize < 65536)
    (hRun : Allocates options history engine) :
    Accounted options.pageSize history engine := by
  induction hRun with
  | created hOpening hStart =>
    exact accounted_created hOpening hStart
  | joined watching transactions session _ ih =>
    rcases ih with ⟨pages, metaPage, ⟨hGood, hShows⟩, hLedger⟩
    exact ⟨pages, metaPage,
      ⟨⟨hGood.sound, hGood.staged, hGood.walOpen,
        hGood.isOpen⟩, hShows.clean, hShows.shown,
        hShows.metaPage, hShows.pageSize⟩, hLedger⟩
  | allocated _ hCall hPacked ih =>
    exact accounted_allocated ih hFits hCall hPacked
  | @refusedAllocate _ _ pageType _ _ _ hCall ih =>
    rcases allocates_of_accounted ih hFits pageType with
      ⟨_, _, _, hReturns, _⟩
    rw [hReturns] at hCall
    cases hCall
  | freed _ hLive hCall ih =>
    rcases ih with ⟨pages, metaPage, hReady, hLedger⟩
    rcases hLedger.metaKnown with ⟨image, hMeta⟩
    rcases hLedger.liveKnown _ hLive with ⟨held, hHeld⟩
    exact ⟨_, _, (Pager.freePage_shown hMeta hHeld
      hLedger.validSize hFits hLedger.size).of_ok hReady
        hCall, hLedger.returned hLive⟩
  | refusedFree _ hLive hCall ih =>
    rcases ih with ⟨pages, metaPage, hReady, hLedger⟩
    rcases hLedger.metaKnown with ⟨image, hMeta⟩
    rcases hLedger.liveKnown _ hLive with ⟨held, hHeld⟩
    exact ⟨_, _, (Pager.freePage_shown hMeta hHeld
      hLedger.validSize hFits hLedger.size).of_error
        hReady hCall, hLedger⟩
  | @wrote _ _ pageId page _ _ hLive hCall ih =>
    rcases ih with ⟨pages, metaPage, hReady, hLedger⟩
    exact ⟨_, _, (Pager.writePage_shown pageId
      page).of_ok hReady hCall,
      hLedger.rewritten hLive _⟩
  | @refusedWrite _ _ pageId page _ _ _ _ hCall ih =>
    rcases ih with ⟨pages, metaPage, hReady, hLedger⟩
    exact ⟨_, _, (Pager.writePage_shown pageId
      page).of_error hReady hCall, hLedger⟩
  | synced _ hCall ih =>
    rcases ih with ⟨pages, metaPage, hReady, hLedger⟩
    exact ⟨_, _, Pager.sync_shown.of_ok hReady hCall, hLedger⟩

/-
  What the allocator owes after a run: the free list yields
  the pages freed and not handed out since, each once and
  the one freed last first; a page that is handed out is not
  in use; and a page is the meta page, in use, or free.
-/
structure Accounts
    (history : List PageCall)
    (engine : Engine π) : Prop where
  yields : ∀ count, (freed history).length < count →
    ∃ final, (Pager.freeList count).run engine =
      .ok (freed history) final
  once : (freed history).Nodup
  new : ∀ pageType pageId page final,
    (Pager.allocatePage pageType).run engine =
      .ok (pageId, page) final →
    pageId ∉ live history
  covers : ∀ pageId, pageId < engine.metaPage.pageCount →
    pageId = metaPageId ∨ pageId ∈ live history ∨
      pageId ∈ freed history

theorem allocator_accounts_for_every_page
    {options : Pager.Options}
    (hFits : options.pageSize < 65536)
    (hRun : Allocates options history engine) :
    Accounts history engine := by
  have hAccounted := accounted_of_allocates hFits hRun
  have hAllocates := allocates_of_accounted hAccounted hFits
  rcases hAccounted with ⟨pages, metaPage, hReady, hLedger⟩
  refine ⟨fun count hCount => ?_, hLedger.distinct,
    fun pageType pageId page final hCall => ?_,
    fun pageId hInside => ?_⟩
  · have hHead := Pager.field_of_ready hReady
      MetaPage.freeListHead fun _ => rfl
    have hWalk := Pager.freeListFrom_shown []
      hLedger.threads
      (fun pageId hFreed => hLedger.valid_of_freed hFreed)
      hLedger.distinct (by simp) hCount engine hReady
    unfold Pager.freeList
    rw [EStateM.run_bind, EStateM.run_get]
    simp only [hHead]
    cases hResult : (Pager.freeListFrom count
        metaPage.freeListHead []).run engine with
    | ok yielded final =>
      rw [hResult] at hWalk
      exact ⟨final, by rw [hWalk.1]⟩
    | error raised final =>
      rw [hResult] at hWalk
      exact hWalk.elim
  · rcases hAllocates pageType with ⟨_, _, _, hReturns, hNew⟩
    rw [hCall] at hReturns
    cases hReturns
    exact hNew
  · have hCount := Pager.field_of_ready hReady
      MetaPage.pageCount fun _ => rfl
    rw [hCount] at hInside
    exact hLedger.covered pageId hInside

--
-- The Largest Size
--

/- The page count is raised before the page is made, so an
   allocation that raises there leaves it raised. -/
theorem Ledger.stranded
    (hLedger : Ledger [] pages metaPage pageSize)
    (hLarge : 65536 ≤ pageSize)
    (pageType : PageType) :
    Triple (Ready (Core.Shows pages metaPage pageSize))
      (Pager.allocatePage (π := π) pageType)
      (fun _ _ => False)
      (fun _ => Ready (Core.Shows pages
        { metaPage with
          pageCount := metaPage.pageCount + 1 }
        pageSize)) := by
  have hHead : metaPage.freeListHead = invalidPageId :=
    hLedger.threads
  unfold Pager.allocatePage
  refine (Pager.ensureOpen_shown.raises
    (fun _ _ h => h.elim)).bind
    fun _ => ?_
  refine ((Pager.takePageId_fresh hHead).raises
    (fun _ _ h => h.elim)).bind fun found => ?_
  refine Triple.start fun engine hEngine => ?_
  rcases hEngine with ⟨rfl, hReady⟩
  refine Triple.read fun current hSame => ?_
  subst hSame
  have hRaises :
      (Page.create pageType current.pageSize :
        Except EngineError (Page π)) =
        .error (.structError
          "'H' format requires 0 <= number <= 65535") := by
    have hSize : current.pageSize = pageSize :=
      hReady.2.pageSize
    rw [hSize]
    exact Page.create_large hLedger.validSize hLarge pageType
  rw [hRaises]
  exact Triple.bind (Q := fun _ _ => False)
    (Triple.throw fun _ h => h ▸ hReady)
    fun _ => Triple.start fun _ h => h.elim

/- A file with few frames. -/
def fewFrames (pageSize : Nat) : Pager.Options where
  path := "pages.db"
  databaseId := "pages"
  pageSize := pageSize
  verifyChecksums := true
  bufferPoolFrames := 2

def engineAfter
    {α : Type}
    (program : EngineM Bytes α)
    (engine : Engine Bytes) : Engine Bytes :=
  match program.run engine with
  | .ok _ final => final
  | .error _ final => final

def engineCreated (pageSize : Nat) : Engine Bytes :=
  engineAfter (Pager.start false)
    (Pager.engineOver (fewFrames pageSize) ⟨[], []⟩
      (MetaPage.create pageSize)
      (BufferPool.ofFrames pageSize 2))

def engineGrown : Engine Bytes :=
  engineAfter (Pager.allocatePage .heap)
    (engineAfter (Pager.allocatePage .heap)
      (engineCreated 256))

end Storage

end ChenDB
