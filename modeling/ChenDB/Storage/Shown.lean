import ChenDB.Storage.Steps

/-
  What the pages of an open engine hold, apart from the LSN
  each one carries: the pool may move frames about as it
  likes, and a write changes one page.
-/

--
-- Contents
--

namespace ChenDB

namespace Storage

open Library.StateExcept
open Wal (noTransaction)

variable {π : Type}

/- A page apart from its LSN. -/
def PageImage.content
    (image : PageImage π) : PageImage π :=
  image.stamp 0

@[simp] theorem PageImage.content_stamp
    (image : PageImage π)
    (lsn : Nat) :
    (image.stamp lsn).content = image.content :=
  image.stamp_stamp lsn 0

/- The meta page apart from its LSN. -/
def MetaPage.content (page : MetaPage) : MetaPage :=
  { page with lsn := 0 }

namespace Core

/- What is cached and clean is what the file has. -/
def Clean (core : Core π) : Prop :=
  ∀ pageId frame,
    core.cache pageId = some frame →
    frame.dirty = false →
    core.files.pages[pageId]? = some frame.data

section Quiet

variable {core core' : Core π}

theorem Quiet.clean
    (hClean : core.Clean)
    (hQuiet : core.Quiet core') : core'.Clean := by
  intro other frame hFrame hDirty
  cases hQuiet with
  | @load pageId image hMiss hPage =>
    simp only at hFrame
    by_cases hSame : other = pageId
    · subst hSame
      rw [Function.update_self, Option.some.injEq]
        at hFrame
      rw [← hFrame]
      exact hPage
    · rw [Function.update_of_ne hSame] at hFrame
      exact hClean other frame hFrame hDirty
  | @drop pageId image hHit =>
    simp only at hFrame
    by_cases hSame : other = pageId
    · simp [hSame] at hFrame
    · rw [Function.update_of_ne hSame] at hFrame
      exact hClean other frame hFrame hDirty
  | @writeBack pageId image hHit =>
    simp only at hFrame
    by_cases hSame : other = pageId
    · subst hSame
      rw [Function.update_self, Option.some.injEq]
        at hFrame
      rw [← hFrame]
      simp [Files.writtenBack, Files.note, getElem?_putPage]
    · rw [Function.update_of_ne hSame] at hFrame
      exact getElem?_putPage_of_some hSame
        (hClean other frame hFrame hDirty)
  | clear hAllClean => cases hFrame

/- Whatever is shown stays shown. -/
theorem Quiet.view_of
    (hClean : core.Clean)
    (hQuiet : core.Quiet core')
    (other : PageId)
    (held : PageImage π)
    (hView : core.view other = some held) :
    core'.view other = some held := by
  cases hQuiet with
  | @load pageId image hMiss hPage =>
    by_cases hSame : other = pageId
    · subst hSame
      simp only [view, hMiss, hPage, Option.some.injEq]
        at hView
      simp [view, hView]
    · simpa [view, hSame] using hView
  | @drop pageId image hHit =>
    have hPage := hClean pageId _ hHit rfl
    by_cases hSame : other = pageId
    · subst hSame
      simp only [view, hHit, Option.some.injEq] at hView
      simp [view, hPage, hView]
    · simpa [view, hSame] using hView
  | @writeBack pageId image hHit =>
    by_cases hSame : other = pageId
    · subst hSame
      simp only [view, hHit, Option.some.injEq] at hView
      simp [view, hView]
    · cases hCached : core.cache other with
      | some frame =>
        simp only [view, hCached] at hView
        simpa [view, hSame, hCached] using hView
      | none =>
        simp only [view, hCached] at hView
        have hHeld : (putPage core.pageSize
            core.files.pages pageId image)[other]? =
              some held :=
          getElem?_putPage_of_some hSame hView
        simpa [view, hSame, hCached,
          Files.writtenBack, Files.note] using hHeld
  | clear hAllClean =>
    cases hCached : core.cache other with
    | some frame =>
      have hPage := hClean other frame hCached
        (hAllClean other frame hCached)
      simp only [view, hCached, Option.some.injEq]
        at hView
      simpa [view, hView] using hPage
    | none => simpa [view, hCached] using hView

/- What comes to be shown is a gap the file grew over. -/
theorem Quiet.view_from
    (hClean : core.Clean)
    (hQuiet : core.Quiet core')
    {other : PageId}
    {image : PageImage π}
    (hView : core'.view other = some image) :
    core.view other = some image ∨
      ∃ size, image = .zeros size := by
  cases hBefore : core.view other with
  | some held =>
    have hStays := hQuiet.view_of hClean other held hBefore
    exact .inl (hStays.symm.trans hView)
  | none =>
    refine .inr ?_
    cases hQuiet with
    | @load pageId loaded hMiss hPage =>
      by_cases hSame : other = pageId
      · subst hSame
        simp [view, hMiss, hPage] at hBefore
      · simp [view, hSame] at hView hBefore
        rw [hBefore] at hView
        cases hView
    | @drop pageId dropped hHit =>
      by_cases hSame : other = pageId
      · subst hSame
        simp [view, hHit] at hBefore
      · simp [view, hSame] at hView hBefore
        rw [hBefore] at hView
        cases hView
    | @writeBack pageId written hHit =>
      by_cases hSame : other = pageId
      · subst hSame
        simp [view, hHit] at hBefore
      · cases hCached : core.cache other with
        | some frame => simp [view, hCached] at hBefore
        | none =>
          simp only [view, hCached] at hBefore
          simp only [view, Function.update_of_ne hSame,
            hCached, Files.writtenBack, Files.note,
            getElem?_putPage, if_neg hSame, hBefore]
            at hView
          split at hView
          · cases hView
          · split at hView
            · exact ⟨_, (Option.some.inj hView).symm⟩
            · cases hView
    | clear hAllClean =>
      cases hCached : core.cache other with
      | some frame => simp [view, hCached] at hBefore
      | none =>
        simp only [view, hCached] at hBefore
        simp only [view, hBefore] at hView
        cases hView

/- A change leaves its frame dirty. -/
theorem Clean.logged
    (hClean : core.Clean)
    (pageId : PageId)
    (transactionId : Nat)
    (before raw : PageImage π) :
    (core.logged pageId transactionId before raw).Clean := by
  intro other frame hFrame hDirty
  by_cases hSame : other = pageId
  · subst hSame
    simp only [Core.logged, Function.update_self,
      Option.some.injEq] at hFrame
    simp [← hFrame] at hDirty
  · simp only [Core.logged, Function.update_of_ne hSame]
      at hFrame
    exact hClean other frame hFrame hDirty

end Quiet

/-
  The core holds these pages and this meta page. A page that
  is not named may hold anything.
-/
structure Shows
    (pages : PageId → Option (PageImage π))
    (metaPage : MetaPage)
    (pageSize : Nat)
    (core : Core π) : Prop where
  clean : ∀ pageId frame,
    core.cache pageId = some frame →
    frame.dirty = false →
    core.files.pages[pageId]? = some frame.data
  shown : ∀ pageId image,
    pages pageId = some image →
    ∃ held, core.view pageId = some held ∧
      held.content = image.content
  metaPage : core.metaPage.content = metaPage.content
  pageSize : core.pageSize = pageSize

variable {pages : PageId → Option (PageImage π)}
variable {metaPage : MetaPage} {pageSize : Nat}
variable {core core' : Core π}

theorem Shows.of_view
    (hShows : core.Shows pages metaPage pageSize)
    (hClean : ∀ pageId frame,
      core'.cache pageId = some frame →
      frame.dirty = false →
      core'.files.pages[pageId]? = some frame.data)
    (hView : ∀ pageId image,
      core.view pageId = some image →
      core'.view pageId = some image)
    (hMeta : core'.metaPage = core.metaPage)
    (hSize : core'.pageSize = core.pageSize) :
    core'.Shows pages metaPage pageSize where
  clean := hClean
  shown := by
    intro pageId image hPage
    rcases hShows.shown pageId image hPage with
      ⟨held, hHeld, hContent⟩
    exact ⟨held, hView pageId held hHeld, hContent⟩
  metaPage := by
    rw [hMeta]
    exact hShows.metaPage
  pageSize := hSize.trans hShows.pageSize

/- The pool moves frames about without a page changing. -/
theorem Shows.calm :
    Calm (Shows pages metaPage pageSize (π := π)) := by
  intro core core' hShows hQuiet
  refine hShows.of_view (hQuiet.clean hShows.clean)
    (hQuiet.view_of hShows.clean) ?_ hQuiet.pageSize
  cases hQuiet <;> rfl

/- The transactions are no part of what is shown. -/
theorem Shows.intended
    {pageId : PageId}
    {reason : String}
    {capture : Bool}
    {transactionId : Nat}
    {before : PageImage π}
    (hShows : core.Shows pages metaPage pageSize)
    (hAnswers : core.Answers pageId reason capture core'
      transactionId before) :
    core'.Shows pages metaPage pageSize := by
  unfold Answers at hAnswers
  split at hAnswers
  · cases hAnswers with
    | outside _ => exact hShows
    | again _ _ _ => exact hShows
    | first _ _ _ _ =>
      exact ⟨hShows.clean, hShows.shown, hShows.metaPage,
        hShows.pageSize⟩
  · rw [hAnswers.1]
    exact hShows

/- A change is seen on the page it is made on. -/
theorem Shows.logged
    (hShows : core.Shows pages metaPage pageSize)
    (pageId : PageId)
    (transactionId : Nat)
    (before raw : PageImage π) :
    (core.logged pageId transactionId before raw).Shows
      (Function.update pages pageId (some raw)) metaPage
      pageSize where
  clean := Clean.logged hShows.clean _ _ _ _
  shown := by
    intro other image hPage
    by_cases hSame : other = pageId
    · subst hSame
      rw [Function.update_self, Option.some.injEq] at hPage
      refine ⟨_, by simp [Core.logged, view]; rfl, ?_⟩
      rw [← hPage]
      exact PageImage.content_stamp _ _
    · rw [Function.update_of_ne hSame] at hPage
      rcases hShows.shown other image hPage with
        ⟨held, hHeld, hContent⟩
      refine ⟨held, ?_, hContent⟩
      simpa [Core.logged, view, hSame] using hHeld
  metaPage := by
    rw [← hShows.metaPage]
    unfold Core.logged
    simp only
    split <;> rfl
  pageSize := hShows.pageSize

/- Less may be said, and what is said is up to the LSN. -/
theorem Shows.renamed
    {others : PageId → Option (PageImage π)}
    (hShows : core.Shows pages metaPage pageSize)
    (hPages : ∀ pageId image,
      others pageId = some image →
      ∃ held, pages pageId = some held ∧
        held.content = image.content) :
    core.Shows others metaPage pageSize where
  clean := hShows.clean
  shown := by
    intro pageId image hPage
    rcases hPages pageId image hPage with
      ⟨middle, hMiddle, hSame⟩
    rcases hShows.shown pageId middle hMiddle with
      ⟨held, hHeld, hContent⟩
    exact ⟨held, hHeld, hContent.trans hSame⟩
  metaPage := hShows.metaPage
  pageSize := hShows.pageSize

/- The live meta page may change before it is written. -/
theorem Shows.edited
    (hShows : core.Shows pages metaPage pageSize)
    {f : MetaPage → MetaPage}
    (hContent : ∀ page,
      (f page).content = (f page.content).content) :
    ({ core with metaPage := f core.metaPage } :
      Core π).Shows pages (f metaPage) pageSize where
  clean := hShows.clean
  shown := hShows.shown
  metaPage := by
    simp only
    rw [hContent, hShows.metaPage, ← hContent]
  pageSize := hShows.pageSize

end Core

--
-- Reading
--

namespace Pager

variable {pages : PageId → Option (PageImage π)}
variable {metaPage : MetaPage} {pageSize : Nat}

/- A page that is cached or in the file can be read. -/
theorem fetch_returns (pageId : PageId) :
    Triple
      (fun engine : Engine π => engine.Good ∧
        ∃ image, engine.core.view pageId = some image)
      (fetch pageId) (fun _ _ => True)
      (fun _ _ => False) := by
  unfold fetch
  refine Triple.read fun engine hEngine => ?_
  rcases hEngine with ⟨hGood, image, hView⟩
  refine Triple.focus fun state hState => ?_
  subst hState
  unfold BufferPool.fetch
  refine Triple.read fun part hPart => ?_
  subst hPart
  simp only
  cases hCached : state.pool.cached pageId with
  | some frame =>
    refine Triple.bind (Q := fun _ _ => True)
      (Triple.modify fun _ _ => trivial) fun _ => ?_
    exact Triple.pure fun _ _ => trivial
  | none =>
    have hPage : state.files.pages[pageId]? =
        some image := by
      simpa [Core.view, Engine.core, hCached] using hView
    refine Triple.bind
      (Q := fun _ after =>
        after = (state.pool, state.files)) ?_
      fun raw => ?_
    · rintro current rfl
      simp [BufferPool.behind, poolEnv, Files.readFromDisk,
        hPage]
    · have hKeeps := (quiet_withPool
        (J := fun _ => True) (fun _ _ _ _ => trivial)
        state.core).toEvictable
      refine Triple.bind
        ((BufferPool.admitFrame_spec hKeeps state.pageSize
          pageId raw false).weaken ?_
          (fun _ _ _ => trivial) (fun _ _ h => h))
        fun _ => Triple.pure fun _ _ => trivial
      rintro current rfl
      exact ⟨hGood.sound, hCached,
        ⟨hGood.staged, hGood.walOpen⟩, trivial⟩

variable {pageId : PageId} {image : PageImage π}

theorem fetch_shown
    (hPage : pages pageId = some image) :
    Triple (Ready (Core.Shows pages metaPage pageSize))
      (fetch pageId)
      (fun found engine =>
        Ready (Core.Shows pages metaPage pageSize) engine ∧
          found.1.content = image.content)
      (fun _ _ => False) := by
  have hCalm :
      Calm (Core.Shows pages metaPage pageSize) :=
    Core.Shows.calm
  refine ((fetch_spec hCalm pageId).conj
    (fetch_returns pageId)).weaken ?_ ?_
    (fun _ _ h => h.2)
  · intro engine hReady
    rcases hReady.2.shown pageId image hPage with
      ⟨held, hHeld, _⟩
    exact ⟨hReady, hReady.1, held, hHeld⟩
  · rintro found engine ⟨⟨hReady, hView⟩, _⟩
    refine ⟨hReady, ?_⟩
    rcases hReady.2.shown pageId image hPage with
      ⟨held, hHeld, hContent⟩
    rw [hView, Option.some.injEq] at hHeld
    rw [hHeld, hContent]

variable {raw : PageImage π} {page : Page π}

/- A page with a sound header decodes to itself, apart from
   its LSN. -/
theorem fromBytes_of_content
    (hContent : raw.content = (PageImage.slotted page).content)
    (hValid : page.validateHeader pageId = .ok ())
    (verifyChecksum : Bool) :
    Page.fromBytes pageId raw verifyChecksum true =
      .ok { page with lsn := raw.lsn } := by
  cases raw with
  | empty => cases hContent
  | metaPage other => cases hContent
  | zeros size =>
    -- zero bytes have no sound header
    have hSame : ({ Page.ofZeros size with lsn := 0 } :
        Page π) = { page with lsn := 0 } :=
      PageImage.slotted.inj hContent
    have hStart := congrArg Page.freeStart hSame
    simp only [Page.ofZeros] at hStart
    unfold Page.validateHeader at hValid
    rw [← hStart] at hValid
    rw [if_pos (by unfold pageHeaderSize; omega)] at hValid
    cases hValid
  | slotted held =>
    have hSame : ({ held with lsn := 0 } : Page π) =
        { page with lsn := 0 } :=
      PageImage.slotted.inj hContent
    have hHeld : held = { page with lsn := held.lsn } := by
      have hBack := congrArg
        (fun image : Page π =>
          { image with lsn := held.lsn }) hSame
      exact hBack
    have hHeader : held.validateHeader pageId = .ok () := by
      rw [hHeld]
      exact hValid
    unfold Page.fromBytes
    simp only [pure_bind, ↓reduceIte, hHeader]
    rw [PageImage.lsn, ← hHeld]
    rfl

/- The link of a page with a sound header can be followed. -/
theorem readFree_shown
    (hPage : pages pageId = some (.slotted page))
    (hValid : page.validateHeader pageId = .ok ()) :
    Triple (Ready (Core.Shows pages metaPage pageSize))
      (readFree pageId)
      (fun found engine =>
        Ready (Core.Shows pages metaPage pageSize) engine ∧
          found.nextPageId = page.nextPageId)
      (fun _ _ => False) := by
  unfold readFree
  refine Triple.read fun engine hReady => ?_
  refine Triple.bind
    ((fetch_shown hPage).pre (fun _ h => h ▸ hReady))
      fun found => ?_
  refine Triple.start fun current hCurrent => ?_
  simp only
  rw [fromBytes_of_content hCurrent.2 hValid]
  refine Triple.pure fun _ hSame => ?_
  rw [hSame]
  exact ⟨hCurrent.1, rfl⟩

--
-- Writing
--

/- The hook reads the page it is asked about at most. -/
theorem beforeWrite_shown
    (hPage : pages pageId = some image)
    (reason : String) :
    Triple (Ready (Core.Shows pages metaPage pageSize))
      (beforeWrite pageId reason)
      (fun _ => Ready (Core.Shows pages metaPage pageSize))
      (fun _ _ => False) := by
  unfold beforeWrite
  refine Triple.read fun engine hReady => ?_
  have hStay : ∀ intent : Option (WriteIntent π),
      Triple (fun current => current = engine) (pure intent)
        (fun _ => Ready
          (Core.Shows pages metaPage pageSize))
        (fun (_ : EngineError) _ => False) :=
    fun intent => Triple.pure fun _ h => h ▸ hReady
  refine Triple.ite (fun _ => hStay none) fun _ => ?_
  cases engine.transactions.activeIn engine.session with
  | none => exact hStay none
  | some transaction =>
    simp only
    refine Triple.ite (fun _ => hStay _) fun _ => ?_
    refine Triple.bind
      ((fetch_shown hPage).weaken (fun _ h => h ▸ hReady)
        (fun _ _ h => h.1) (fun _ _ h => h)) fun found => ?_
    refine Triple.bind
      (Q := fun _ =>
        Ready (Core.Shows pages metaPage pageSize))
      (Triple.modify fun current hCurrent => ?_)
      fun _ => Triple.pure fun _ h => h
    rcases hCurrent with ⟨hGood, hShows⟩
    exact ⟨⟨hGood.sound, hGood.staged, hGood.walOpen,
      hGood.isOpen⟩, hShows.clean, hShows.shown,
      hShows.metaPage, hShows.pageSize⟩

theorem captured_shown
    {needed : Bool}
    (hPage : needed = true → ∃ image, pages pageId = some image)
    (reason : String) :
    Triple (Ready (Core.Shows pages metaPage pageSize))
      (captureByHand pageId reason needed)
      (fun _ => Ready (Core.Shows pages metaPage pageSize))
      (fun _ _ => False) := by
  unfold captureByHand
  refine Triple.ite (fun hNeeded => ?_) fun _ =>
    Triple.pure fun _ h => h
  rcases hPage hNeeded with ⟨image, hImage⟩
  exact (beforeWrite_shown hImage reason).bind fun _ =>
    Triple.pure fun _ h => h

theorem overwriteAt_shown
    (pageId : PageId)
    (hLength : Wal.byteLength raw = pageSize)
    (reason : String) :
    Triple (Ready (Core.Shows pages metaPage pageSize))
      (overwriteAt pageId raw reason)
      (fun _ => Ready (Core.Shows
        (Function.update pages pageId (some raw)) metaPage
        pageSize))
      (fun _ _ => False) := by
  refine (overwriteAt_spec Core.Shows.calm pageId raw
    reason).pre ?_
  rintro engine ⟨hGood, hShows⟩
  exact ⟨hGood, hLength.trans hShows.pageSize.symm,
    hShows.logged pageId noTransaction .empty raw⟩

/- A write that is captured, of a page that can be read. -/
theorem writeAt_shown
    (hPage : pages pageId = some image)
    (hLength : Wal.byteLength raw = pageSize)
    (reason : String) :
    Triple (Ready (Core.Shows pages metaPage pageSize))
      (writeAt pageId raw reason true)
      (fun _ => Ready (Core.Shows
        (Function.update pages pageId (some raw)) metaPage
        pageSize))
      (fun _ _ => False) := by
  unfold writeAt
  refine Triple.read fun engine hReady => ?_
  have hSize : engine.pageSize = pageSize := hReady.2.pageSize
  have hFits : ¬ Wal.byteLength raw ≠ engine.pageSize := by
    simp [hLength, hSize]
  simp only [if_neg hFits]
  refine Triple.bind
    (Q := fun _ =>
      Ready (Core.Shows pages metaPage pageSize)) ?_
    fun intent => ?_
  · unfold intentFor
    exact (beforeWrite_shown hPage reason).pre
      (fun _ h => h ▸ hReady)
  · refine (logStore_spec Core.Shows.calm engine.pageSize
      pageId raw intent).pre ?_
    rintro current ⟨hGood, hShows⟩
    exact ⟨hGood, hShows.pageSize.trans hSize.symm,
      hLength.trans hSize.symm, hShows.logged _ _ _ _⟩

/- The meta page as it stands goes to page 0. -/
theorem writeMeta_shown
    (hPage : pages metaPageId = some image)
    (hSize : metaPage.pageSize = pageSize) :
    Triple (Ready (Core.Shows pages metaPage pageSize))
      (writeMeta (π := π))
      (fun _ => Ready (Core.Shows
        (Function.update pages metaPageId
          (some (.metaPage metaPage))) metaPage pageSize))
      (fun _ _ => False) := by
  unfold writeMeta
  refine Triple.read fun engine hReady => ?_
  have hLive := hReady.2.metaPage
  have hLength : Wal.byteLength
      (PageImage.metaPage engine.metaPage :
        PageImage π) = pageSize :=
    (congrArg MetaPage.pageSize hLive).trans hSize
  refine (writeAt_shown hPage hLength _).weaken
    (fun _ h => h ▸ hReady) ?_ (fun _ _ h => h)
  rintro _ current ⟨hGood, hShows⟩
  refine ⟨hGood, hShows.renamed ?_⟩
  intro other held hHeld
  by_cases hSame : other = metaPageId
  · subst hSame
    rw [Function.update_self, Option.some.injEq] at hHeld
    refine ⟨_, Function.update_self .., ?_⟩
    rw [← hHeld]
    exact congrArg PageImage.metaPage hLive
  · rw [Function.update_of_ne hSame] at hHeld
    exact ⟨held, by rw [Function.update_of_ne hSame, hHeld],
      rfl⟩

theorem editMeta_shown
    {f : MetaPage → MetaPage}
    (hContent : ∀ page,
      (f page).content = (f page.content).content) :
    Triple (Ready (Core.Shows pages metaPage pageSize))
      (editMeta (π := π) f)
      (fun _ => Ready (Core.Shows pages (f metaPage)
        pageSize))
      (fun _ _ => False) := by
  refine Triple.modify fun engine hReady => ?_
  rcases hReady with ⟨hGood, hShows⟩
  exact ⟨⟨hGood.sound, hGood.staged, hGood.walOpen,
    hGood.isOpen⟩, hShows.edited hContent⟩

end Pager

end Storage

end ChenDB
