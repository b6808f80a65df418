import Mathlib.Order.Basic
import Mathlib.Order.MinMax
import ChenDB.Storage.Page

/-
  Nodes of a B+ tree over any ordered sort keys: the binary
  search within a node, room for an entry, and the cut of a
  node that overflows.
-/

--
-- Nodes
--

namespace ChenDB

namespace Indexing

variable {σ α : Type}

/- What a node asks of its entries' sort keys: the one of the
   first separator, and how long a leaf's payload is. -/
structure Layout (σ : Type) where
  least : σ
  payload : σ → Nat
  pageSize : Nat

def childSize : Nat := 4

namespace Layout

/- Bytes a full node can hold, counting slots. -/
def usableBytes (layout : Layout σ) : Nat :=
  layout.pageSize - Storage.pageHeaderSize

def maxPayloadSize (layout : Layout σ) : Nat :=
  layout.usableBytes - Storage.slotSize

/- Payload and slot of an entry of a leaf. -/
def leafWidth (layout : Layout σ) (entry : σ) : Nat :=
  layout.payload entry + Storage.slotSize

def childWidth
    (layout : Layout σ)
    (entry : σ × PageId) : Nat :=
  layout.payload entry.1 + childSize + Storage.slotSize

end Layout

/- `none` is `INVALID_PAGE_ID`, at the end of the chain. -/
inductive Node (σ : Type) where
  | leaf (entries : List σ) (next : Option PageId)
  | internal (entries : List (σ × PageId))
deriving DecidableEq, Repr

--
-- Searching
--

/- The loop of `lower_bound`, which halves what is left. -/
def bisect (before : Nat → Bool) : Nat → Nat → Nat → Nat
  | 0, low, _ => low
  | fuel + 1, low, high =>
    if low < high then
      let middle := (low + high) / 2
      if before middle then
        bisect before fuel (middle + 1) high
      else bisect before fuel low middle
    else low

variable {cut : Nat}

theorem bisect_eq
    {before : Nat → Bool}
    {fuel low high : Nat}
    (hFuel : high ≤ low + fuel)
    (hLow : low ≤ cut)
    (hHigh : cut ≤ high)
    (hBefore : ∀ index, index < high →
      (before index = true ↔ index < cut)) :
    bisect before fuel low high = cut := by
  induction fuel generalizing low high with
  | zero =>
    unfold bisect
    omega
  | succ fuel ih =>
    unfold bisect
    by_cases hLess : low < high
    · simp only [hLess, if_true]
      have hMiddle := hBefore ((low + high) / 2) (by omega)
      split
      · rename_i hTrue
        have hCut := hMiddle.mp hTrue
        exact ih (by omega) (by omega) hHigh hBefore
      · rename_i hFalse
        have hCut : ¬ (low + high) / 2 < cut :=
          fun hLt => hFalse (hMiddle.mpr hLt)
        exact ih (by omega) hLow (by omega)
          fun index hIndex => hBefore index (by omega)
    · simp only [hLess, if_false]
      omega

section Search

variable [LinearOrder σ]

/- Index of the first entry whose sort key is not below the
   target. -/
def lowerBound
    (sortKey : α → σ)
    (entries : List α)
    (target : σ) : Nat :=
  bisect
    (fun index =>
      match entries[index]? with
      | none => false
      | some entry => sortKey entry < target)
    entries.length 0 entries.length

/- In a node that is in order, the bound cuts it in two. -/
theorem lowerBound_append
    {sortKey : α → σ}
    {below above : List α}
    {target : σ}
    (hBelow : ∀ entry ∈ below, sortKey entry < target)
    (hAbove : ∀ entry ∈ above, target ≤ sortKey entry) :
    lowerBound sortKey (below ++ above) target =
      below.length := by
  unfold lowerBound
  apply bisect_eq
  · omega
  · omega
  · simp
  · intro index hIndex
    rw [List.getElem?_eq_getElem hIndex]
    simp only [decide_eq_true_eq]
    by_cases hCut : index < below.length
    · rw [List.getElem_append_left hCut]
      exact ⟨fun _ => hCut,
        fun _ => hBelow _ (List.getElem_mem hCut)⟩
    · rw [List.getElem_append_right (by omega)]
      constructor
      · intro hLess
        have hAt : index - below.length < above.length := by
          rw [List.length_append] at hIndex
          omega
        have hLe := hAbove _ (List.getElem_mem hAt)
        exact absurd (lt_of_lt_of_le hLess hLe)
          (lt_irrefl _)
      · exact fun hLess => absurd hLess hCut

/- Index of the separator whose subtree may contain the
   target. -/
def childIndexFor
    (entries : List (σ × PageId))
    (target : σ) : Except EngineError Nat :=
  if entries = [] then
    .error (.corruptPage "internal node has no children")
  else
    let bound := lowerBound Prod.fst entries target
    if (entries[bound]?).any fun entry =>
        entry.1 = target then
      .ok bound
    else .ok (bound - 1)

end Search

--
-- Splitting
--

/- How many entries fit, one after another. -/
def fitting (capacity : Nat) : Nat → List Nat → Nat
  | _, [] => 0
  | running, width :: rest =>
    if running + width > capacity then 0
    else fitting capacity (running + width) rest + 1

/- The first cut at which the left half is no lighter. -/
def balancePoint (total : Nat) :
    Nat → Nat → List Nat → Option Nat
  | _, _, [] => none
  | running, index, width :: rest =>
    if (running + width) * 2 ≥ total then some (index + 1)
    else balancePoint total (running + width) (index + 1)
      rest

/- Where to cut an overfull node so both halves fit. -/
def planSplit
    (widths : List Nat)
    (capacity : Nat) : Except EngineError Nat :=
  let count := widths.length
  if count < 2 then
    .error (.indexingError
      s!"cannot split a node holding {count} entries")
  else
    let maxLeft := fitting capacity 0 widths
    let minLeft := count - fitting capacity 0 widths.reverse
    let low := max minLeft 1
    let high := min maxLeft (count - 1)
    if low > high then
      .error (.indexingError
        (s!"cannot split {count} entries totalling " ++
          s!"{widths.sum} bytes into two {capacity}-byte " ++
          "pages"))
    else
      let balanced := (balancePoint widths.sum 0 0
        widths).getD (count / 2)
      .ok (min (max balanced low) high)

variable {widths : List Nat} {capacity : Nat}

/- Neither half is empty. -/
theorem planSplit_bounds
    (hPlan : planSplit widths capacity = .ok cut) :
    0 < cut ∧ cut < widths.length := by
  unfold planSplit at hPlan
  simp only at hPlan
  split at hPlan
  · cases hPlan
  · split at hPlan
    · cases hPlan
    · cases hPlan
      omega

/- Both halves have entries and fit on a page. -/
structure LegalCut
    (widths : List Nat)
    (capacity cut : Nat) : Prop where
  left : 0 < cut
  right : cut < widths.length
  leftFits : (widths.take cut).sum ≤ capacity
  rightFits : (widths.drop cut).sum ≤ capacity

theorem fitting_le_length
    (capacity running : Nat)
    (widths : List Nat) :
    fitting capacity running widths ≤ widths.length := by
  induction widths generalizing running with
  | nil => exact Nat.le_refl 0
  | cons width rest ih =>
    unfold fitting
    split
    · exact Nat.zero_le _
    · exact Nat.succ_le_succ (ih _)

/- The entries that fit are the ones the loop counts. -/
theorem le_fitting
    {running count : Nat}
    (hRunning : running ≤ capacity)
    (hCount : count ≤ widths.length) :
    count ≤ fitting capacity running widths ↔
      running + (widths.take count).sum ≤ capacity := by
  induction widths generalizing running count with
  | nil =>
    have hZero : count = 0 := Nat.le_zero.mp hCount
    simp [hZero, hRunning]
  | cons width rest ih =>
    cases count with
    | zero => simp [hRunning]
    | succ count =>
      have hRest : count ≤ rest.length :=
        Nat.le_of_succ_le_succ hCount
      rw [List.take_succ_cons, List.sum_cons, fitting]
      split
      · omega
      · rename_i hFits
        have hMore : count ≤
            fitting capacity (running + width) rest ↔
            running + width + (rest.take count).sum ≤
              capacity :=
          ih (by omega) hRest
        omega

theorem le_fitting_reverse
    (hCut : cut ≤ widths.length) :
    widths.length - fitting capacity 0 widths.reverse ≤
        cut ↔
      (widths.drop cut).sum ≤ capacity := by
  have hFits : widths.length - cut ≤
      fitting capacity 0 widths.reverse ↔
      0 + (widths.reverse.take (widths.length - cut)).sum ≤
        capacity :=
    le_fitting (Nat.zero_le _) (by simp)
  rw [List.take_reverse, List.sum_reverse, Nat.zero_add,
    Nat.sub_sub_self hCut] at hFits
  omega

/- What is returned is a cut, and one both halves fit at. -/
theorem planSplit_legal
    (hPlan : planSplit widths capacity = .ok cut) :
    LegalCut widths capacity cut := by
  have hBounds := planSplit_bounds hPlan
  have hLength := fitting_le_length capacity 0 widths
  have hLeft : cut ≤ fitting capacity 0 widths ↔
      0 + (widths.take cut).sum ≤ capacity :=
    le_fitting (Nat.zero_le _) (Nat.le_of_lt hBounds.2)
  have hRight : widths.length -
      fitting capacity 0 widths.reverse ≤ cut ↔
      (widths.drop cut).sum ≤ capacity :=
    le_fitting_reverse (Nat.le_of_lt hBounds.2)
  rw [Nat.zero_add] at hLeft
  refine ⟨hBounds.1, hBounds.2, hLeft.mp ?_, hRight.mp ?_⟩
  all_goals
    unfold planSplit at hPlan
    simp only at hPlan
    split at hPlan
    · cases hPlan
    · split at hPlan
      · cases hPlan
      · cases hPlan
        omega

/- Where there is a legal cut, one is found. -/
theorem planSplit_complete
    (hLegal : LegalCut widths capacity cut) :
    ∃ found, planSplit widths capacity = .ok found := by
  rcases hLegal with ⟨hPos, hLess, hLeft, hRight⟩
  have hMost : cut ≤ fitting capacity 0 widths :=
    (le_fitting (Nat.zero_le _) (Nat.le_of_lt hLess)).mpr
      (by rwa [Nat.zero_add])
  have hLeast : widths.length -
      fitting capacity 0 widths.reverse ≤ cut :=
    (le_fitting_reverse (Nat.le_of_lt hLess)).mpr hRight
  unfold planSplit
  simp only
  rw [if_neg (by omega), if_neg (by omega)]
  exact ⟨_, rfl⟩

/-
  Splitting a node that an entry did not fit in succeeds
  exactly when that entry fits on a page with everything
  before it or with everything after it.
-/
theorem planSplit_iff
    {before after : List Nat}
    {width capacity : Nat}
    (hHeld : (before ++ after).sum ≤ capacity)
    (hFull : capacity < (before ++ width :: after).sum) :
    (∃ cut,
      planSplit (before ++ width :: after) capacity = .ok cut ∧
      LegalCut (before ++ width :: after) capacity cut) ↔
      before.sum + width ≤ capacity ∨
        width + after.sum ≤ capacity := by
  rw [List.sum_append, List.sum_cons] at hFull
  rw [List.sum_append] at hHeld
  constructor
  · rintro ⟨cut, _, hLegal⟩
    -- the new entry goes left or right of the cut
    by_cases hSide : cut ≤ before.length
    · right
      have hDrop := hLegal.rightFits
      rw [List.drop_append_of_le_length hSide,
        List.sum_append, List.sum_cons] at hDrop
      omega
    · left
      have hTake := hLegal.leftFits
      rw [List.take_append, List.take_of_length_le
        (by omega), List.sum_append] at hTake
      obtain ⟨more, hMore⟩ : ∃ more,
          cut - before.length = more + 1 :=
        ⟨cut - before.length - 1, by omega⟩
      rw [hMore, List.take_succ_cons, List.sum_cons] at hTake
      omega
  · intro hFits
    have hLegal : ∃ cut, LegalCut
        (before ++ width :: after) capacity cut := by
      rcases hFits with hLeft | hRight
      · -- cut behind the new entry
        refine ⟨before.length + 1, by omega, ?_, ?_, ?_⟩
        · cases after with
          | nil =>
            rw [List.sum_nil] at hFull
            omega
          | cons next rest =>
            simp only [List.length_append, List.length_cons]
            omega
        · rw [List.take_append,
            List.take_of_length_le (Nat.le_succ _)]
          simpa using hLeft
        · rw [List.drop_append,
            List.drop_of_length_le (Nat.le_succ _)]
          simp
          omega
      · -- cut in front of the new entry
        refine ⟨before.length, ?_, ?_, ?_, ?_⟩
        · cases before with
          | nil =>
            rw [List.sum_nil] at hFull
            omega
          | cons first rest => exact Nat.succ_pos _
        · simp
        · rw [List.take_left]
          omega
        · rw [List.drop_left]
          simpa using hRight
    rcases hLegal with ⟨cut, hCut⟩
    rcases planSplit_complete hCut with ⟨found, hFound⟩
    exact ⟨found, hFound, planSplit_legal hFound⟩

theorem planSplit_uneven :
    (∃ cut, planSplit [3, 9, 2] 12 = .ok cut ∧
      LegalCut [3, 9, 2] 12 cut) ↔
      3 + 9 ≤ 12 ∨ 9 + 2 ≤ 12 :=
  @planSplit_iff [3] [2] 9 12 (by decide) (by decide)

/- A wide entry between two groups that fill the node. -/
theorem planSplit_stuck :
    [2000, 2000].sum ≤ 4072 ∧ 3000 ≤ 4072 ∧
      4072 < [2000, 3000, 2000].sum ∧
      (∀ cut, planSplit [2000, 3000, 2000] 4072 ≠ .ok cut) ∧
      planSplit [2000, 3000, 2000] 4072 =
        .error (.indexingError
          ("cannot split 3 entries totalling 7000 bytes " ++
            "into two 4072-byte pages")) := by
  have hPlan : planSplit [2000, 3000, 2000] 4072 =
      .error (.indexingError
        ("cannot split 3 entries totalling 7000 bytes " ++
          "into two 4072-byte pages")) := by
    decide +kernel
  refine ⟨by decide, by decide, by decide, ?_, hPlan⟩
  intro cut hCut
  rw [hPlan] at hCut
  cases hCut

end Indexing

end ChenDB
