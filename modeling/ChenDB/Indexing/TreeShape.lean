import Mathlib.Data.List.Basic
import Mathlib.Data.List.Perm.Subperm
import Mathlib.Logic.Function.Basic
import ChenDB.Indexing.BPlusTree
import ChenDB.Library.StateExcept

/-
  The shape of a B+ tree, level by level: a level is its nodes
  in order, each with the lowest sort key it is there for, and
  the level below is made of their children.
-/

--
-- Levels
--

namespace ChenDB

namespace Indexing

open Library.StateExcept (ok_of_bind)

variable {σ : Type}

/- The nodes of a level, each behind its lowest sort key. -/
abbrev Items (σ : Type) := List (σ × PageId)

/- What an internal node stores of its children: the first
   separator is always the least sort key. -/
def masked (least : σ) : Items σ → Items σ
  | [] => []
  | (_, child) :: rest => (least, child) :: rest

variable {least : σ} {first : Items σ}

theorem masked_append
    {rest : Items σ}
    (hFirst : first ≠ []) :
    masked least (first ++ rest) =
      masked least first ++ rest := by
  cases first with
  | nil => exact absurd rfl hFirst
  | cons item others => rfl

/- The level below, one node's children after another's. -/
inductive Children
    (nodes : PageId → Option (Node σ))
    (least : σ) : Items σ → Items σ → Prop where
  | nil : Children nodes least [] []
  | cons {lo pageId child rest parents items} :
      nodes pageId = some (.internal
        (masked least ((lo, child) :: rest))) →
      Children nodes least parents items →
      Children nodes least ((lo, pageId) :: parents)
        (((lo, child) :: rest) ++ items)

section Ordered

variable [LinearOrder σ]

/- A level in order, with every node at its height. -/
structure Level
    (tree : BPlusTree σ)
    (heights : PageId → Nat)
    (least : σ)
    (height : Nat)
    (items : Items σ) : Prop where
  distinct : (items.map Prod.snd).Nodup
  ordered : items.Pairwise fun first second =>
    first.1 < second.1
  above : ∀ item ∈ items, least ≤ item.1
  placed : ∀ item ∈ items,
    item.2 ∈ tree.pages ∧ heights item.2 = height

/- Levels from the root down. -/
inductive Rooted
    (tree : BPlusTree σ)
    (heights : PageId → Nat)
    (least : σ) : Nat → Items σ → Prop where
  | root {height} :
      Level tree heights least height [(least, tree.root)] →
      Rooted tree heights least height [(least, tree.root)]
  | down {height parents items} :
      Rooted tree heights least (height + 1) parents →
      Children tree.nodes least parents items →
      Level tree heights least height items →
      Rooted tree heights least height items

/- The leaves and their entries, with their chain. -/
inductive Leaves
    (nodes : PageId → Option (Node σ)) :
    Items σ → List σ → Prop where
  | nil : Leaves nodes [] []
  | cons {lo pageId entries items rest} :
      nodes pageId = some (.leaf entries
        (items.head?.map Prod.snd)) →
      entries.Pairwise (· < ·) →
      (∀ entry ∈ entries, lo ≤ entry) →
      (∀ entry ∈ entries, ∀ item ∈ items, entry < item.1) →
      Leaves nodes items rest →
      Leaves nodes ((lo, pageId) :: items) (entries ++ rest)

/- The node of a level that is there for a sort key. -/
def Located
    (items : Items σ)
    (target : σ)
    (before : Items σ)
    (item : σ × PageId)
    (after : Items σ) : Prop :=
  items = before ++ item :: after ∧ item.1 ≤ target ∧
    ∀ other ∈ after, target < other.1

/- Levels from the root down, with the path that leads
   through them to a sort key. -/
inductive Descended
    (tree : BPlusTree σ)
    (heights : PageId → Nat)
    (least target : σ) : Nat → Items σ → Path → Prop where
  | root {height} :
      Level tree heights least height [(least, tree.root)] →
      Descended tree heights least target height
        [(least, tree.root)] []
  | down {height parents items path before item after
      index} :
      Descended tree heights least target (height + 1)
        parents path →
      Children tree.nodes least parents items →
      Level tree heights least height items →
      Located parents target before item after →
      Descended tree heights least target height items
        ((item.2, index) :: path)

section Facts

variable {tree tree' : BPlusTree σ}
variable {heights heights' : PageId → Nat} {least target : σ}
variable {height : Nat} {items parents : Items σ} {path : Path}

theorem Descended.level
    (hDescended : Descended tree heights least target height
      items path) :
    Level tree heights least height items := by
  cases hDescended with
  | root hLevel => exact hLevel
  | down _ _ hLevel => exact hLevel

theorem Descended.rooted
    (hDescended : Descended tree heights least target height
      items path) :
    Rooted tree heights least height items := by
  induction hDescended with
  | root hLevel => exact .root hLevel
  | down _ hChildren hLevel _ ih =>
    exact .down ih hChildren hLevel

theorem Level.mono
    (hLevel : Level tree heights least height items)
    (hPages : ∀ pageId ∈ tree.pages, pageId ∈ tree'.pages)
    (hHeights : ∀ pageId ∈ tree.pages,
      heights' pageId = heights pageId) :
    Level tree' heights' least height items where
  distinct := hLevel.distinct
  ordered := hLevel.ordered
  above := hLevel.above
  placed := by
    intro item hMem
    rcases hLevel.placed item hMem with ⟨hPage, hHeight⟩
    exact ⟨hPages _ hPage, by rw [hHeights _ hPage, hHeight]⟩

omit [LinearOrder σ] in
theorem Children.congr
    {nodes nodes' : PageId → Option (Node σ)}
    (hChildren : Children nodes least parents items)
    (hSame : ∀ parent ∈ parents,
      nodes' parent.2 = nodes parent.2) :
    Children nodes' least parents items := by
  induction hChildren with
  | nil => exact .nil
  | cons hNode _ ih =>
    apply Children.cons
    · rw [hSame _ (.head _)]
      exact hNode
    · exact ih fun parent hMem =>
        hSame parent (.tail _ hMem)

/- What lies above a level does not see changes in it. -/
theorem Descended.frame
    (hDescended : Descended tree heights least target height
      items path)
    (hRoot : tree'.root = tree.root)
    (hPages : ∀ pageId ∈ tree.pages, pageId ∈ tree'.pages)
    (hHeights : ∀ pageId ∈ tree.pages,
      heights' pageId = heights pageId)
    (hNodes : ∀ pageId ∈ tree.pages,
      height < heights pageId →
        tree'.nodes pageId = tree.nodes pageId) :
    Descended tree' heights' least target height items
      path := by
  induction hDescended with
  | root hLevel =>
    rw [← hRoot] at hLevel ⊢
    exact .root (hLevel.mono hPages hHeights)
  | down hAbove hChildren hLevel hLocated ih =>
    apply Descended.down _ _
      (hLevel.mono hPages hHeights) hLocated
    · exact ih fun pageId hPage hHigher =>
        hNodes pageId hPage (by omega)
    · apply hChildren.congr
      intro parent hMem
      rcases hAbove.level.placed parent hMem with
        ⟨hPage, hHeight⟩
      exact hNodes _ hPage (by omega)

end Facts

--
-- Children of One Node
--

section Chunks

variable {nodes : PageId → Option (Node σ)} {least target : σ}

variable {first : Items σ}

omit [LinearOrder σ] in
theorem Children.append
    {second lower lower' : Items σ}
    (hFirst : Children nodes least first lower)
    (hSecond : Children nodes least second lower') :
    Children nodes least (first ++ second)
      (lower ++ lower') := by
  induction hFirst with
  | nil => exact hSecond
  | cons hNode _ ih =>
    rw [List.cons_append, List.append_assoc]
    exact .cons hNode ih

variable {before after items : Items σ} {lo : σ}
variable {pageId : PageId}

omit [LinearOrder σ] in
/- The children of one node among those of its level. -/
theorem Children.split
    (hChildren : Children nodes least
      (before ++ (lo, pageId) :: after) items) :
    ∃ earlier child rest later,
      items = earlier ++ (((lo, child) :: rest) ++ later) ∧
      Children nodes least before earlier ∧
      nodes pageId = some (.internal
        (masked least ((lo, child) :: rest))) ∧
      Children nodes least after later := by
  induction before generalizing items with
  | nil =>
    cases hChildren with
    | cons hNode hRest =>
      exact ⟨[], _, _, _, rfl, .nil, hNode, hRest⟩
  | cons parent others ih =>
    cases hChildren with
    | cons hNode hRest =>
      rcases ih hRest with ⟨earlier, child, rest, later,
        rfl, hBefore, hHere, hAfter⟩
      refine ⟨_, child, rest, later, ?_,
        .cons hNode hBefore, hHere, hAfter⟩
      simp

variable {parents : Items σ}

/- No child lies below all of its level's parents. -/
theorem Children.above
    (hChildren : Children nodes least parents items)
    (hOrdered : items.Pairwise fun first second =>
      first.1 < second.1) :
    ∀ item ∈ items, ∃ parent ∈ parents,
      parent.1 ≤ item.1 := by
  induction hChildren with
  | nil => simp
  | cons hNode _ ih =>
    rename_i lo pageId child rest parents items _
    intro item hMem
    rcases List.mem_append.mp hMem with hHere | hLater
    · refine ⟨(lo, pageId), .head _, ?_⟩
      rcases List.mem_cons.mp hHere with hFirst | hRest
      · rw [hFirst]
      · rw [List.cons_append, List.pairwise_cons]
          at hOrdered
        exact le_of_lt (hOrdered.1 item
          (List.mem_append_left _ hRest))
    · rcases ih (List.pairwise_append.mp hOrdered).2.1
        item hLater with ⟨parent, hParent, hLe⟩
      exact ⟨parent, .tail _ hParent, hLe⟩

omit [LinearOrder σ] in
/- Every parent's lowest sort key is that of a child. -/
theorem Children.heads
    (hChildren : Children nodes least parents items) :
    ∀ parent ∈ parents, ∃ item ∈ items,
      item.1 = parent.1 := by
  induction hChildren with
  | nil => simp
  | cons hNode _ ih =>
    rename_i lo pageId child rest parents items _
    intro parent hMem
    rcases List.mem_cons.mp hMem with hHere | hLater
    · rw [hHere]
      exact ⟨(lo, child), .head _, rfl⟩
    · rcases ih parent hLater with ⟨item, hItem, hSame⟩
      exact ⟨item, List.mem_append_right _ hItem, hSame⟩

variable {rest : Items σ}

/- Among nodes in order, one is there for a sort key that is
   not below the first. -/
theorem exists_located
    {first : σ × PageId}
    (hOrdered : (first :: rest).Pairwise fun one other =>
      one.1 < other.1)
    (hFirst : first.1 ≤ target) :
    ∃ before item after,
      Located (first :: rest) target before item after := by
  induction rest generalizing first with
  | nil => exact ⟨[], first, [], rfl, hFirst, by simp⟩
  | cons second others ih =>
    rw [List.pairwise_cons] at hOrdered
    by_cases hSecond : second.1 ≤ target
    · rcases ih hOrdered.2 hSecond with
        ⟨before, item, after, hItems, hItem, hAfter⟩
      exact ⟨first :: before, item, after,
        by rw [hItems]; rfl, hItem, hAfter⟩
    · refine ⟨[], first, second :: others, rfl, hFirst, ?_⟩
      rw [List.pairwise_cons] at hOrdered
      intro other hMem
      rcases List.mem_cons.mp hMem with hHere | hLater
      · rw [hHere]
        exact not_le.mp hSecond
      · exact lt_trans (not_le.mp hSecond)
          (hOrdered.2.1 other hLater)

/- The child that is there for a sort key is a child of the
   node that is. -/
theorem located_child
    {earlier later : Items σ}
    {child : PageId}
    (hOrdered : items.Pairwise fun first second =>
      first.1 < second.1)
    (hItems :
      items = earlier ++ (((lo, child) :: rest) ++ later))
    (hLater : Children nodes least after later)
    (hLocated : Located parents target before (lo, pageId)
      after) :
    ∃ first item last,
      (lo, child) :: rest = first ++ item :: last ∧
      Located items target (earlier ++ first) item
        (last ++ later) := by
  subst hItems
  have hParts := List.pairwise_append.mp hOrdered
  have hHere := List.pairwise_append.mp hParts.2.1
  rcases exists_located hHere.1 hLocated.2.1 with
    ⟨first, item, last, hChunk, hItem, hLast⟩
  refine ⟨first, item, last, hChunk, ?_, hItem, ?_⟩
  · rw [hChunk]
    simp
  · intro other hMem
    rcases List.mem_append.mp hMem with hIn | hOut
    · exact hLast other hIn
    · rcases hLater.above hHere.2.1 other hOut with
        ⟨parent, hParent, hLe⟩
      exact lt_of_lt_of_le (hLocated.2.2 parent hParent) hLe

/- The binary search takes the child that is there. -/
theorem childIndexFor_append
    {last : Items σ}
    {item : σ × PageId}
    (hFirst : ∀ other ∈ first, other.1 < item.1)
    (hItem : item.1 ≤ target)
    (hLast : ∀ other ∈ last, target < other.1) :
    childIndexFor (first ++ item :: last) target =
      .ok first.length := by
  unfold childIndexFor
  rw [if_neg (by simp)]
  simp only
  rcases lt_or_eq_of_le hItem with hLess | hSame
  · have hBound : lowerBound Prod.fst
        (first ++ item :: last) target =
          first.length + 1 := by
      have hBelow : ∀ entry ∈ first ++ [item],
          entry.1 < target := by
        intro entry hMem
        rcases List.mem_append.mp hMem with hIn | hHere
        · exact lt_trans (hFirst entry hIn) hLess
        · rw [List.mem_singleton.mp hHere]
          exact hLess
      have hCut := lowerBound_append hBelow
        fun entry hMem => le_of_lt (hLast entry hMem)
      simpa using hCut
    rw [hBound]
    have hNext : (first ++ item :: last)[first.length + 1]? =
        last[0]? := by
      rw [List.getElem?_append_right (by omega)]
      simp
    rw [hNext]
    cases last with
    | nil => rfl
    | cons other others =>
      have hOther := hLast other (.head _)
      simp [ne_of_gt hOther]
  · have hBound : lowerBound Prod.fst
        (first ++ item :: last) target = first.length := by
      apply lowerBound_append
      · intro entry hMem
        rw [← hSame]
        exact hFirst entry hMem
      · intro entry hMem
        rcases List.mem_cons.mp hMem with hHere | hIn
        · rw [hHere, hSame]
        · exact le_of_lt (hLast entry hIn)
    rw [hBound]
    simp [hSame]

end Chunks

end Ordered

--
-- Separators
--

variable {entry : σ × PageId}

theorem mem_masked
    {items : Items σ}
    (hMem : entry ∈ masked least items) :
    entry.1 = least ∨ entry ∈ items := by
  cases items with
  | nil => cases hMem
  | cons item rest =>
    rcases List.mem_cons.mp hMem with hFirst | hRest
    · rw [hFirst]
      exact .inl rfl
    · exact .inr (.tail _ hRest)

variable {last : Items σ} {item : σ × PageId}

/- The separator of one child among those of its node. -/
theorem masked_split [LinearOrder σ]
    (hOrdered : (first ++ item :: last).Pairwise
      fun one other => one.1 < other.1)
    (hAbove : ∀ other ∈ first ++ item :: last,
      least ≤ other.1) :
    ∃ earlier separator,
      masked least (first ++ item :: last) =
        earlier ++ (separator, item.2) :: last ∧
      earlier.length = first.length ∧
      (∀ other ∈ earlier, other.1 < separator) ∧
      separator ≤ item.1 := by
  cases first with
  | nil =>
    exact ⟨[], least, rfl, rfl, by simp,
      hAbove item (.head _)⟩
  | cons head others =>
    refine ⟨(least, head.2) :: others, item.1, rfl, rfl,
      ?_, le_refl _⟩
    have hBefore := (List.pairwise_append.mp hOrdered).2.2
    intro other hMem
    rcases List.mem_cons.mp hMem with hFirst | hRest
    · rw [hFirst]
      exact lt_of_le_of_lt
        (hAbove head (by simp))
        (hBefore head (.head _) item
          (.head _))
    · exact hBefore other (.tail _ hRest)
        item (.head _)

variable {α : Type}

theorem insertIdx_append
    (below above : List α)
    (entry : α) :
    (below ++ above).insertIdx below.length entry =
      below ++ entry :: above := by
  induction below with
  | nil => rfl
  | cons head rest ih => simp [List.insertIdx_succ_cons, ih]

theorem insertSorted_append [LinearOrder σ]
    {sortKey : α → σ}
    {below above : List α}
    {entry : α}
    (hBelow : ∀ other ∈ below, sortKey other < sortKey entry)
    (hAbove : ∀ other ∈ above, sortKey entry ≤ sortKey other) :
    BPlusTree.insertSorted sortKey (below ++ above) entry =
      below ++ entry :: above := by
  unfold BPlusTree.insertSorted
  rw [lowerBound_append hBelow hAbove, insertIdx_append]

/- A separator goes in behind the child it was split from. -/
theorem insertSorted_masked [LinearOrder σ]
    (hOrdered : (first ++ item :: entry :: last).Pairwise
      fun one other => one.1 < other.1)
    (hAbove : ∀ other ∈ first ++ item :: entry :: last,
      least ≤ other.1) :
    BPlusTree.insertSorted Prod.fst
        (masked least (first ++ item :: last)) entry =
      masked least (first ++ item :: entry :: last) := by
  have hPrefix : first ++ [item] ≠ [] := by simp
  have hOld : first ++ item :: last =
      (first ++ [item]) ++ last := by simp
  have hNew : first ++ item :: entry :: last =
      (first ++ [item]) ++ entry :: last := by simp
  rw [hNew] at hOrdered hAbove ⊢
  rw [hOld, masked_append hPrefix, masked_append hPrefix]
  have hParts := List.pairwise_append.mp hOrdered
  have hLess : ∀ other ∈ first ++ [item],
      other.1 < entry.1 := fun other hMem =>
    hParts.2.2 other hMem entry (.head _)
  apply insertSorted_append
  · intro other hMem
    rcases mem_masked hMem with hLeast | hIn
    · rw [hLeast]
      exact lt_of_le_of_lt (hAbove item (by simp))
        (hLess item (by simp))
    · exact hLess other hIn
  · intro other hMem
    exact le_of_lt
      ((List.pairwise_cons.mp hParts.2.1).1 other hMem)

--
-- Descending
--

section Descending

variable [LinearOrder σ]

/- Levels from one down to the leaves. -/
inductive Below
    (tree : BPlusTree σ)
    (heights : PageId → Nat)
    (least : σ)
    (leaves : Items σ) : Nat → Items σ → Prop where
  | leaves : Below tree heights least leaves 0 leaves
  | step {height items lower} :
      Children tree.nodes least items lower →
      Level tree heights least height lower →
      Below tree heights least leaves height lower →
      Below tree heights least leaves (height + 1) items

variable {tree : BPlusTree σ} {heights : PageId → Nat}
variable {least target : σ} {leaves : Items σ}

variable {height : Nat} {items : Items σ}

theorem Rooted.level
    (hRooted : Rooted tree heights least height items) :
    Level tree heights least height items := by
  cases hRooted with
  | root hLevel => exact hLevel
  | down _ _ hLevel => exact hLevel

theorem Rooted.reaches
    (hRooted : Rooted tree heights least height items)
    (hBelow : Below tree heights least leaves height items) :
    ∃ top,
      Level tree heights least top [(least, tree.root)] ∧
      Below tree heights least leaves top
        [(least, tree.root)] := by
  induction hRooted with
  | root hLevel => exact ⟨_, hLevel, hBelow⟩
  | down _ hChildren hLevel ih =>
    exact ih (.step hChildren hLevel hBelow)

/- A descent through the levels that are left. -/
theorem descend_spec
    (hBelow : Below tree heights least leaves height items)
    (hLeaves : ∀ item ∈ leaves, ∃ entries next,
      tree.nodes item.2 = some (.leaf entries next))
    {fuel : Nat}
    {path : Path}
    (hAbove : Descended tree heights least target height
      items path)
    {before after : Items σ}
    {item : σ × PageId}
    (hLocated : Located items target before item after) :
    (fuel < height →
      tree.descend target fuel item.2 path =
        .error BPlusTree.tooDeep) ∧
    (height ≤ fuel → ∃ landing earlier lo later,
      tree.descend target fuel item.2 path = .ok landing ∧
      Descended tree heights least target 0 leaves
        landing.path ∧
      Located leaves target earlier (lo, landing.pageId)
        later ∧
      tree.nodes landing.pageId =
        some (.leaf landing.entries landing.next)) := by
  induction hBelow generalizing fuel path before item after
    with
  | leaves =>
    have hMem : item ∈ leaves := by
      rw [hLocated.1]
      simp
    rcases hLeaves item hMem with ⟨entries, next, hNode⟩
    constructor
    · intro hLess
      omega
    · intro _
      refine ⟨⟨item.2, entries, next, path⟩, before, item.1,
        after, ?_, hAbove, hLocated, hNode⟩
      unfold BPlusTree.descend
      simp only [hNode]
  | step hChildren hLevel hRest ih =>
    rename_i height items lower
    rcases item with ⟨lo, pageId⟩
    have hSplit := hChildren
    rw [hLocated.1] at hSplit
    rcases hSplit.split with ⟨earlier, child, rest, later,
      hLower, hBefore, hNode, hAfter⟩
    rcases located_child hLevel.ordered hLower hAfter
      hLocated with
      ⟨first, next, last, hChunk, hNext⟩
    have hDown : Descended tree heights least target height
        lower ((pageId, first.length) :: path) :=
      .down hAbove hChildren hLevel hLocated
    rw [hChunk] at hNode hLower
    have hInner : (first ++ next :: last).Pairwise
        fun one other => one.1 < other.1 := by
      have hAll := hLevel.ordered
      rw [hLower] at hAll
      exact (List.pairwise_append.mp
        (List.pairwise_append.mp hAll).2.1).1
    have hLeast : ∀ other ∈ first ++ next :: last,
        least ≤ other.1 := by
      intro other hMem
      apply hLevel.above other
      rw [hLower]
      exact List.mem_append_right _
        (List.mem_append_left _ hMem)
    rcases masked_split hInner hLeast with
      ⟨front, separator, hMasked, hLength, hFront, hSeparator⟩
    have hIndex : childIndexFor
        (masked least (first ++ next :: last)) target =
          .ok first.length := by
      rw [hMasked, ← hLength]
      apply childIndexFor_append hFront
        (le_trans hSeparator hNext.2.1)
      intro other hMem
      exact hNext.2.2 other (List.mem_append_left _ hMem)
    have hEntry : (masked least
        (first ++ next :: last))[first.length]? =
          some (separator, next.2) := by
      rw [hMasked, ← hLength]
      simp
    have hStep : ∀ fuel,
        tree.descend target (fuel + 1) pageId path =
          tree.descend target fuel next.2
            ((pageId, first.length) :: path) := by
      intro fuel
      conv_lhs => unfold BPlusTree.descend
      simp only [hNode, hIndex, bind, Except.bind, hEntry]
    constructor
    · intro hLess
      cases fuel with
      | zero =>
        unfold BPlusTree.descend
        simp only [hNode]
      | succ fuel =>
        simp only [hStep]
        exact (ih hDown hNext).1 (by omega)
    · intro hLe
      cases fuel with
      | zero => omega
      | succ fuel =>
        simp only [hStep]
        exact (ih hDown hNext).2 (by omega)

end Descending

--
-- Splitting Upward
--

section Splitting

variable [LinearOrder σ] {layout : Layout σ} {target : σ}

variable {tree tree' : BPlusTree σ} {pageId : PageId}

omit [LinearOrder σ] in
theorem allocate_ok
    (hAllocate : tree.allocate = .ok (pageId, tree')) :
    pageId ∉ tree.pages ∧
      tree'.pages = pageId :: tree.pages ∧
      tree'.nodes = tree.nodes ∧ tree'.root = tree.root := by
  unfold BPlusTree.allocate at hAllocate
  split at hAllocate
  · cases hAllocate
  · split at hAllocate
    · cases hAllocate
    · rename_i hFresh
      cases hAllocate
      exact ⟨hFresh, rfl, rfl, rfl⟩

/- What a change at one height leaves alone. -/
structure Untouched
    (tree tree' : BPlusTree σ)
    (heights heights' : PageId → Nat)
    (height : Nat) : Prop where
  kept : ∀ pageId ∈ tree.pages, pageId ∈ tree'.pages
  placed : ∀ pageId ∈ tree.pages,
    heights' pageId = heights pageId
  stored : ∀ pageId ∈ tree.pages, heights pageId ≤ height →
    tree'.nodes pageId = tree.nodes pageId

/- A node cut in two: the left half where it was, the right
   half on a new page. -/
structure Halved
    (tree tree' : BPlusTree σ)
    (pageId sibling : PageId)
    (left right : Node σ) : Prop where
  fresh : sibling ∉ tree.pages
  root : tree'.root = tree.root
  pages : tree'.pages = sibling :: tree.pages
  stored : ∀ held ∈ tree.pages, held ≠ pageId →
    tree'.nodes held = tree.nodes held
  left : tree'.nodes pageId = some left
  right : tree'.nodes sibling = some right

section Halved

variable {grown : BPlusTree σ} {sibling : PageId}
variable {left right : Node σ}

omit [LinearOrder σ] in
theorem halved_of_allocate
    (hAllocate : tree.allocate = .ok (sibling, grown))
    (hPlaced : pageId ∈ tree.pages)
    (left right : Node σ) :
    Halved tree ((grown.write sibling right).write pageId left)
      pageId sibling left right := by
  rcases allocate_ok hAllocate with
    ⟨hFresh, hPages, hNodes, hRoot⟩
  have hOther : ∀ held ∈ tree.pages, held ≠ sibling :=
    fun held hHeld hSame => hFresh (hSame ▸ hHeld)
  refine ⟨hFresh, hRoot, hPages, ?_, Function.update_self ..,
    ?_⟩
  · intro held hHeld hNot
    unfold BPlusTree.write
    simp only
    rw [Function.update_of_ne hNot,
      Function.update_of_ne (hOther held hHeld), hNodes]
  · unfold BPlusTree.write
    simp only
    rw [Function.update_of_ne (hOther pageId hPlaced).symm,
      Function.update_self]

variable {heights : PageId → Nat} {height : Nat}

omit [LinearOrder σ] in
theorem Halved.kept
    (hHalved : Halved tree tree' pageId sibling left right)
    {held : PageId}
    (hHeld : held ∈ tree.pages) :
    held ∈ tree'.pages := by
  rw [hHalved.pages]
  exact .tail _ hHeld

omit [LinearOrder σ] in
theorem Halved.placed
    (hHalved : Halved tree tree' pageId sibling left right)
    {held : PageId}
    (hHeld : held ∈ tree.pages) :
    Function.update heights sibling height held =
      heights held :=
  Function.update_of_ne (fun hSame : held = sibling =>
    hHalved.fresh (hSame ▸ hHeld)) _ _

/- The way down to a level does not see it cut there. -/
theorem Halved.descended
    {path : Path}
    {items : Items σ}
    (hHalved : Halved tree tree' pageId sibling left right)
    (hDescended : Descended tree heights layout.least target
      height items path)
    (hHeight : heights pageId ≤ height) :
    Descended tree' (Function.update heights sibling height)
      layout.least target height items path := by
  refine hDescended.frame hHalved.root
    (fun _ => hHalved.kept) (fun _ => hHalved.placed)
    fun held hHeld hHigher =>
      hHalved.stored held hHeld fun hSame => ?_
  rw [hSame] at hHigher
  omega

omit [LinearOrder σ] in
/- A cut one height up leaves what a change of that height
   leaves, but for the node that was cut. -/
theorem Halved.untouched
    {final : BPlusTree σ}
    {heights' : PageId → Nat}
    (hHalved : Halved tree tree' pageId sibling left right)
    (hHeight : heights pageId = height + 1)
    (hUntouched : Untouched tree' final
      (Function.update heights sibling (height + 1)) heights'
      (height + 1)) :
    Untouched tree final heights heights' height := by
  refine ⟨fun held hHeld =>
    hUntouched.kept held (hHalved.kept hHeld),
    fun held hHeld => (hUntouched.placed held
      (hHalved.kept hHeld)).trans (hHalved.placed hHeld),
    fun held hHeld hLow => ?_⟩
  rw [hUntouched.stored held (hHalved.kept hHeld)
    (by rw [hHalved.placed hHeld]; omega)]
  apply hHalved.stored held hHeld
  intro hSame
  rw [hSame, hHeight] at hLow
  omega

omit [LinearOrder σ] in
/- A parent cut in two has its children still. -/
theorem Halved.children
    {parentsBefore parentsAfter earlier later : Items σ}
    {front back : Items σ}
    {lo : σ}
    {child : PageId}
    {promoted : σ × PageId}
    (hHalved : Halved tree tree' pageId sibling
      (.internal (masked least ((lo, child) :: front)))
      (.internal ((least, promoted.2) :: back)))
    (hPlaced : ∀ other ∈ parentsBefore ++ parentsAfter,
      other.2 ∈ tree.pages ∧ other.2 ≠ pageId)
    (hFront : Children tree.nodes least parentsBefore earlier)
    (hBack : Children tree.nodes least parentsAfter later) :
    Children tree'.nodes least
      (parentsBefore ++ (lo, pageId) ::
        (promoted.1, sibling) :: parentsAfter)
      (earlier ++ (((lo, child) :: front) ++
        ((promoted :: back) ++ later))) := by
  rcases promoted with ⟨key, moved⟩
  have hStored : ∀ other ∈ parentsBefore ++ parentsAfter,
      tree'.nodes other.2 = tree.nodes other.2 :=
    fun other hMem => hHalved.stored _ (hPlaced other hMem).1
      (hPlaced other hMem).2
  apply Children.append
  · exact hFront.congr fun other hMem =>
      hStored other (List.mem_append_left _ hMem)
  · apply Children.cons hHalved.left
    apply Children.cons hHalved.right
    exact hBack.congr fun other hMem =>
      hStored other (List.mem_append_right _ hMem)

end Halved

/- A level whose node was split, one height up. -/
theorem Level.insert
    {tree tree' : BPlusTree σ}
    {heights : PageId → Nat}
    {least : σ}
    {height : Nat}
    {before after : Items σ}
    {item : σ × PageId}
    (hLevel : Level tree heights least height
      (before ++ item :: after))
    {separator : σ}
    {fresh : PageId}
    (hFresh : fresh ∉ tree.pages)
    (hPages : tree'.pages = fresh :: tree.pages)
    (hLow : item.1 < separator)
    (hHigh : ∀ other ∈ after, separator < other.1) :
    Level tree' (Function.update heights fresh height) least
      height (before ++ item :: (separator, fresh) :: after)
    := by
  have hParts := List.pairwise_append.mp hLevel.ordered
  have hRest := List.pairwise_cons.mp hParts.2.1
  have hItem : item ∈ before ++ item :: after := by simp
  have hOther : ∀ other ∈ before ++ item :: after,
      other.2 ≠ fresh := by
    intro other hMem hSame
    apply hFresh
    rw [← hSame]
    exact (hLevel.placed other hMem).1
  have hMembers : ∀ other ∈
      before ++ item :: (separator, fresh) :: after,
      other = (separator, fresh) ∨
        other ∈ before ++ item :: after := by
    intro other hMem
    simp only [List.mem_append, List.mem_cons] at hMem ⊢
    tauto
  constructor
  · have hPerm : (before ++ item ::
        (separator, fresh) :: after).Perm
          ((separator, fresh) :: (before ++ item :: after)) := by
      have hMove : ((before ++ [item]) ++
          (separator, fresh) :: after).Perm
            ((separator, fresh) ::
              ((before ++ [item]) ++ after)) :=
        List.perm_middle
      simpa using hMove
    rw [(hPerm.map Prod.snd).nodup_iff, List.map_cons,
      List.nodup_cons]
    refine ⟨?_, hLevel.distinct⟩
    intro hMem
    rcases List.mem_map.mp hMem with ⟨other, hIn, hSame⟩
    exact hOther other hIn hSame
  · rw [List.pairwise_append, List.pairwise_cons,
      List.pairwise_cons]
    refine ⟨hParts.1, ⟨?_, hHigh, hRest.2⟩, ?_⟩
    · intro other hMem
      rcases List.mem_cons.mp hMem with hNew | hIn
      · rw [hNew]
        exact hLow
      · exact hRest.1 other hIn
    · intro one hOne other hMem
      rcases List.mem_cons.mp hMem with hHere | hIn
      · rw [hHere]
        exact hParts.2.2 one hOne item (.head _)
      · rcases List.mem_cons.mp hIn with hNew | hLater
        · rw [hNew]
          exact lt_trans (hParts.2.2 one hOne item
            (.head _)) hLow
        · exact hParts.2.2 one hOne other
            (.tail _ hLater)
  · intro other hMem
    rcases hMembers other hMem with hNew | hIn
    · rw [hNew]
      exact le_of_lt (lt_of_le_of_lt
        (hLevel.above item hItem) hLow)
    · exact hLevel.above other hIn
  · intro other hMem
    rw [hPages]
    rcases hMembers other hMem with hNew | hIn
    · rw [hNew]
      exact ⟨.head _, by simp⟩
    · have hPlaced := hLevel.placed other hIn
      rw [Function.update_of_ne (hOther other hIn)]
      exact ⟨.tail _ hPlaced.1, hPlaced.2⟩

variable {heights : PageId → Nat} {height : Nat}
variable {separator : σ × PageId}

theorem growRoot_rooted
    {leftId : PageId}
    (hLevel : Level tree heights layout.least height
      [(layout.least, leftId), separator])
    (hGrow : BPlusTree.growRoot layout tree leftId
      separator = .ok tree') :
    ∃ heights',
      Rooted tree' heights' layout.least height
        [(layout.least, leftId), separator] ∧
      Untouched tree tree' heights heights' height := by
  unfold BPlusTree.growRoot at hGrow
  rcases ok_of_bind hGrow with
    ⟨⟨pageId, grown⟩, hAllocate, hRest⟩
  rcases ok_of_bind hRest with ⟨_, _, hDone⟩
  rcases allocate_ok hAllocate with ⟨hFresh, hPages, hNodes, _⟩
  cases hDone
  have hSame : ∀ held ∈ tree.pages,
      Function.update heights pageId (height + 1) held =
        heights held := by
    intro held hHeld
    rw [Function.update_of_ne]
    intro hEqual
    exact hFresh (hEqual ▸ hHeld)
  refine ⟨Function.update heights pageId (height + 1), ?_, ?_⟩
  · have hTop : Rooted
        { grown.write pageId (.internal
            [(layout.least, leftId), separator]) with
          root := pageId }
        (Function.update heights pageId (height + 1))
        layout.least (height + 1)
        [(layout.least, pageId)] := by
      apply Rooted.root
      exact
        { distinct := by simp
          ordered := by simp
          above := by simp
          placed := by
            intro item hMem
            rw [List.mem_singleton] at hMem
            rw [hMem]
            exact ⟨by simp [BPlusTree.write, hPages], by simp⟩ }
    have hChild : Children
        (Function.update grown.nodes pageId (some (.internal
          [(layout.least, leftId), separator])))
        layout.least [(layout.least, pageId)]
        (((layout.least, leftId) :: [separator]) ++ []) :=
      .cons (by simp [masked]) .nil
    apply Rooted.down hTop hChild
    · exact hLevel.mono
        (fun held hHeld => by
          simp [BPlusTree.write, hPages, hHeld]) hSame
  · constructor
    · intro held hHeld
      simp [BPlusTree.write, hPages, hHeld]
    · exact hSame
    · intro held hHeld _
      simp only [BPlusTree.write]
      rw [Function.update_of_ne, hNodes]
      intro hEqual
      exact hFresh (hEqual ▸ hHeld)

variable {least : σ} {items : Items σ} {cut : Nat}

omit [LinearOrder σ] in
/- A cut of a node's children into two nodes' children. -/
theorem masked_cut
    {promoted : σ × PageId}
    (hCut : 0 < cut)
    (hPromoted : (masked least items)[cut]? = some promoted) :
    items = items.take cut ++
        promoted :: items.drop (cut + 1) ∧
      (masked least items).take cut =
        masked least (items.take cut) ∧
      (masked least items).drop (cut + 1) =
        items.drop (cut + 1) ∧
      items.take cut ≠ [] := by
  cases items with
  | nil => cases hPromoted
  | cons item rest =>
    rcases Nat.exists_eq_succ_of_ne_zero
      (Nat.pos_iff_ne_zero.mp hCut) with ⟨smaller, rfl⟩
    simp only [masked, List.getElem?_cons_succ]
      at hPromoted
    refine ⟨?_, rfl, rfl, by simp⟩
    rcases List.getElem?_eq_some_iff.mp hPromoted with
      ⟨hLess, hSame⟩
    rw [List.take_succ_cons, List.drop_succ_cons,
      List.cons_append, ← hSame,
      List.getElem_cons_drop, List.take_append_drop]

variable {before after : Items σ} {item : σ × PageId}

theorem located_unique
    {before' after' : Items σ}
    {item' : σ × PageId}
    (hSame : before ++ item :: after =
      before' ++ item' :: after')
    (hItem : item.1 ≤ target)
    (hAfter : ∀ other ∈ after, target < other.1)
    (hItem' : item'.1 ≤ target)
    (hAfter' : ∀ other ∈ after', target < other.1) :
    before = before' ∧ item = item' ∧ after = after' := by
  induction before generalizing before' with
  | nil =>
    cases before' with
    | nil =>
      rw [List.nil_append, List.nil_append,
        List.cons.injEq] at hSame
      exact ⟨rfl, hSame.1, hSame.2⟩
    | cons head rest =>
      rw [List.nil_append, List.cons_append,
        List.cons.injEq] at hSame
      have hLess := hAfter item' (by
        rw [hSame.2]
        simp)
      exact absurd (lt_of_lt_of_le hLess hItem')
        (lt_irrefl _)
  | cons head rest ih =>
    cases before' with
    | nil =>
      rw [List.nil_append, List.cons_append,
        List.cons.injEq] at hSame
      have hLess := hAfter' item (by
        rw [← hSame.2]
        simp)
      exact absurd (lt_of_lt_of_le hLess hItem)
        (lt_irrefl _)
    | cons head' rest' =>
      rw [List.cons_append, List.cons_append,
        List.cons.injEq] at hSame
      rcases ih hSame.2 with ⟨hRest, hSames, hTail⟩
      exact ⟨by rw [hSame.1, hRest], hSames, hTail⟩

omit [LinearOrder σ] in
theorem insertEntry_some
    {α : Type}
    {sortKey : α → σ}
    {width : α → Nat}
    {entries : List α}
    {entry : α}
    [LinearOrder σ]
    {result : Option (List α)}
    (hInsert : BPlusTree.insertEntry layout sortKey width
      entries entry = .ok result) :
    result = none ∨ result = some
      (BPlusTree.insertSorted sortKey entries entry) := by
  unfold BPlusTree.insertEntry at hInsert
  split at hInsert
  · cases hInsert
  · split at hInsert
    · cases hInsert
      exact .inl rfl
    · cases hInsert
      exact .inr rfl

omit [LinearOrder σ] in
/- Only the node written is changed. -/
theorem Children.write
    {parents : Items σ}
    (hChildren : Children tree.nodes least parents items)
    (node : Node σ)
    (hOther : ∀ parent ∈ parents, parent.2 ≠ pageId) :
    Children (tree.write pageId node).nodes least parents
      items :=
  hChildren.congr fun parent hMem =>
    Function.update_of_ne (hOther parent hMem) _ _

variable {head : σ × PageId}

omit [LinearOrder σ] in
theorem cons_insert
    {first last rest : Items σ}
    (hChunk : head :: rest = first ++ item :: last)
    (entry : σ × PageId) :
    ∃ others, first ++ item :: entry :: last =
      head :: others := by
  cases first with
  | nil =>
    rw [List.nil_append, List.cons.injEq] at hChunk
    exact ⟨entry :: last, by rw [hChunk.1]; rfl⟩
  | cons other front =>
    rw [List.cons_append, List.cons.injEq] at hChunk
    exact ⟨front ++ item :: entry :: last,
      by rw [hChunk.1]; rfl⟩

omit [LinearOrder σ] in
theorem cons_take
    {others : Items σ}
    (hItems : items = head :: others)
    (hCut : 0 < cut) :
    ∃ front, items.take cut = head :: front := by
  rcases Nat.exists_eq_succ_of_ne_zero
    (Nat.pos_iff_ne_zero.mp hCut) with ⟨smaller, rfl⟩
  exact ⟨others.take smaller, by rw [hItems]; rfl⟩

/- A node of a level has its page to itself. -/
theorem Level.apart
    {heights : PageId → Nat}
    {height : Nat}
    {lo : σ}
    (hLevel : Level tree heights least height
      (before ++ (lo, pageId) :: after)) :
    pageId ∈ tree.pages ∧ heights pageId = height ∧
      (∀ other ∈ before, other.2 ≠ pageId) ∧
      (∀ other ∈ after, other.2 ≠ pageId) := by
  have hPlaced := hLevel.placed (lo, pageId) (by simp)
  have hDistinct := hLevel.distinct
  rw [List.map_append, List.map_cons, List.nodup_append,
    List.nodup_cons] at hDistinct
  exact ⟨hPlaced.1, hPlaced.2, fun other hMem =>
    hDistinct.2.2 _ (List.mem_map_of_mem hMem) _ (.head _),
    fun other hMem hSame =>
      hDistinct.2.1.1 (List.mem_map.mpr ⟨other, hMem, hSame⟩)⟩

/- A parent with room takes the separator in. -/
theorem widened_rooted
    {path : Path}
    {heights : PageId → Nat}
    {height : Nat}
    {earlier later rest : Items σ}
    {lo : σ}
    {child : PageId}
    (hAbove : Descended tree heights layout.least target
      (height + 1) (before ++ (lo, pageId) :: after) path)
    (hFront : Children tree.nodes layout.least before earlier)
    (hBack : Children tree.nodes layout.least after later)
    (hLevel : Level tree heights layout.least height
      (earlier ++ (((lo, child) :: rest) ++ later))) :
    Rooted (tree.write pageId (.internal
        (masked layout.least ((lo, child) :: rest))))
      heights layout.least height
      (earlier ++ (((lo, child) :: rest) ++ later)) ∧
    Untouched tree (tree.write pageId (.internal
        (masked layout.least ((lo, child) :: rest))))
      heights heights height := by
  rcases hAbove.level.apart with
    ⟨_, hHeight, hOneSide, hOtherSide⟩
  have hUpper : Descended (tree.write pageId (.internal
      (masked layout.least ((lo, child) :: rest)))) heights
      layout.least target (height + 1)
      (before ++ (lo, pageId) :: after) path := by
    refine hAbove.frame rfl (fun _ hHeld => hHeld)
      (fun _ _ => rfl) fun held _ hHigher => ?_
    apply Function.update_of_ne
    intro hSame
    rw [hSame, hHeight] at hHigher
    omega
  refine ⟨.down hUpper.rooted ?_ (hLevel.mono
    (fun _ hHeld => hHeld) fun _ _ => rfl),
    fun _ hHeld => hHeld, fun _ _ => rfl,
    fun held _ hLow => ?_⟩
  · apply (hFront.write _ hOneSide).append
    apply Children.cons
    · exact Function.update_self ..
    · exact hBack.write _ hOtherSide
  · apply Function.update_of_ne
    intro hSame
    rw [hSame, hHeight] at hLow
    omega

/-
  A separator placed along the path it was reached by. The
  induction is on the path, innermost parent first.
-/
theorem insertIntoParent_rooted
    {path : Path}
    (hDescended : Descended tree heights layout.least target
      height (before ++ item :: after) path)
    (hItem : item.1 ≤ target)
    (hAfter : ∀ other ∈ after, target < other.1)
    (hLevel : Level tree heights layout.least height
      (before ++ item :: separator :: after))
    (hInsert : BPlusTree.insertIntoParent layout path tree
      item.2 separator = .ok tree') :
    ∃ heights',
      Rooted tree' heights' layout.least height
        (before ++ item :: separator :: after) ∧
      Untouched tree tree' heights heights' height := by
  induction path generalizing tree heights height before item
    after separator with
  | nil =>
    generalize hItems : before ++ item :: after = items
      at hDescended
    cases hDescended with
    | root hRoot =>
      cases before with
      | nil =>
        rw [List.nil_append, List.cons.injEq] at hItems
        rw [hItems.1, hItems.2] at hLevel ⊢
        rw [hItems.1] at hInsert
        exact growRoot_rooted hLevel hInsert
      | cons head rest =>
        have hLength := congrArg List.length hItems
        simp at hLength
  | cons step rest ih =>
    generalize hItems : before ++ item :: after = items
      at hDescended
    cases hDescended with
    | down hAbove hChildren hOld hLocated =>
      rename_i parents parentsBefore parent parentsAfter
        index
      rcases parent with ⟨lo, parentId⟩
      have hParents := hAbove.level
      have hSplit := hChildren
      rw [hLocated.1] at hSplit hParents hAbove
      rcases hSplit.split with ⟨earlier, child, others,
        later, hLower, hFront, hNode, hBack⟩
      rcases located_child hOld.ordered hLower hBack
        hLocated with
        ⟨first, found, last, hChunk, hFound⟩
      have hHere := hFound.1
      rw [← hItems] at hHere
      rcases located_unique hHere hItem hAfter hFound.2.1
        hFound.2.2 with ⟨rfl, rfl, rfl⟩
      rcases cons_insert hChunk separator with ⟨chunk, hGrown⟩
      have hAll : earlier ++ first ++ item :: separator ::
          (last ++ later) =
        earlier ++ ((first ++ item :: separator :: last)
          ++ later) := by simp
      rw [hAll] at hLevel ⊢
      have hParts := List.pairwise_append.mp
        (List.pairwise_append.mp hLevel.ordered).2.1
      have hSorted := insertSorted_masked hParts.1
        fun other hMem => hLevel.above other
          (List.mem_append_right _
            (List.mem_append_left _ hMem))
      rcases hParents.apart with
        ⟨hPlaced, hHeight, hOneSide, hOtherSide⟩
      unfold BPlusTree.insertIntoParent at hInsert
      rw [hChunk] at hNode
      simp only [hNode] at hInsert
      rcases ok_of_bind hInsert with ⟨result, hResult, hDone⟩
      rcases insertEntry_some hResult with rfl | rfl
      · simp only [hSorted] at hDone
        rcases ok_of_bind hDone with ⟨cut, hCut, hRest⟩
        have hBounds := planSplit_bounds hCut
        rw [List.length_map] at hBounds
        split at hRest
        · cases hRest
        rename_i promoted hPromoted
        rcases ok_of_bind hRest with
          ⟨⟨sibling, grown⟩, hAllocate, hWrites⟩
        rcases ok_of_bind hWrites with ⟨_, _, hLefts⟩
        rcases ok_of_bind hLefts with ⟨_, _, hUp⟩
        rcases masked_cut hBounds.1 hPromoted with
          ⟨hCutChunk, hTake, hDrop, hLeft⟩
        rcases cons_take hGrown hBounds.1 with ⟨front, hHead⟩
        rw [hHead] at hCutChunk
        rw [hTake, hDrop, hHead] at hUp
        have hPromotes : lo < promoted.1 := by
          have hInner := hParts.1
          rw [hCutChunk] at hInner
          exact (List.pairwise_append.mp hInner).2.2
            (lo, child) (.head _) promoted (.head _)
        have hBelow : ∀ other ∈ parentsAfter,
            promoted.1 < other.1 := by
          intro other hMem
          rcases hBack.heads other hMem with
            ⟨first', hFirst', hSame⟩
          rw [← hSame]
          apply hParts.2.2 promoted _ first' hFirst'
          rw [hCutChunk]
          simp
        have hHalved := halved_of_allocate hAllocate hPlaced
          (.internal (masked layout.least
            ((lo, child) :: front)))
          (.internal ((layout.least, promoted.2) ::
            (first ++ item :: separator :: last).drop
              (cut + 1)))
        have hInserted := hParents.insert hHalved.fresh
          hHalved.pages hPromotes hBelow
        rcases ih (hHalved.descended hAbove
            (le_of_eq hHeight)) hLocated.2.1
          hLocated.2.2 hInserted hUp with
          ⟨heights', hRooted, hUntouched⟩
        have hNew := hHalved.children (fun other hMem => by
          rcases List.mem_append.mp hMem with hMem | hMem
          · exact ⟨(hParents.placed other (by simp [hMem])).1,
              hOneSide other hMem⟩
          · exact ⟨(hParents.placed other (by simp [hMem])).1,
              hOtherSide other hMem⟩)
          hFront hBack
        rw [← List.append_assoc ((lo, child) :: front),
          ← hCutChunk] at hNew
        have hLow := hHalved.untouched hHeight hUntouched
        refine ⟨heights', .down hRooted ?_
          (hLevel.mono hLow.kept hLow.placed), hLow⟩
        apply hNew.congr
        intro other hMem
        have hPlaced := hInserted.placed other hMem
        exact hUntouched.stored other.2 hPlaced.1
          (le_of_eq hPlaced.2)
      · simp only [hSorted] at hDone
        cases hDone
        rw [hGrown] at hLevel ⊢
        exact ⟨heights, widened_rooted hAbove hFront hBack
          hLevel⟩

end Splitting

end Indexing

end ChenDB
