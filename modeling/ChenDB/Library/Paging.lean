import Mathlib.Data.List.Pairwise
import Mathlib.Data.List.Induction
import Mathlib.Order.Basic

/-
  Reading a growing log in pages: a reader keeps the largest
  key it has seen and asks for what has a larger one. As long
  as the keys of the log grow, nothing is passed over.
-/

--
-- Pages
--

namespace Library

namespace Paging

variable {α : Type} (key : α → Nat)

/- Is a key larger than what was seen, if anything was? -/
def beyond : Option Nat → Nat → Bool
  | none, _ => true
  | some seen, number => decide (seen < number)

/- The first items that are beyond the cursor. -/
def page
    (cursor : Option Nat)
    (limit : Nat)
    (items : List α) : List α :=
  (items.filter fun item => beyond cursor (key item)).take limit

/- The cursor after some more items were seen. -/
def largest
    (cursor : Option Nat)
    (items : List α) : Option Nat :=
  items.foldl
    (fun cursor item =>
      match cursor with
      | none => some (key item)
      | some seen => some (max seen (key item)))
    cursor

theorem largest_snoc
    (cursor : Option Nat)
    (items : List α)
    (last : α)
    (hLast : beyond (largest key cursor items)
      (key last) = true) :
    largest key cursor (items ++ [last]) =
      some (key last) := by
  unfold largest at hLast ⊢
  rw [List.foldl_append, List.foldl_cons, List.foldl_nil]
  split
  · rfl
  · rename_i seen hSeen
    rw [hSeen] at hLast
    rw [Nat.max_eq_right (Nat.le_of_lt
      (of_decide_eq_true hLast))]

/- Of items whose keys grow beyond the cursor, the last has
   the largest. -/
theorem largest_of_grows
    (cursor : Option Nat)
    (items : List α)
    (hGrows : items.Pairwise (key · < key ·))
    (hBeyond : ∀ item ∈ items,
      beyond cursor (key item) = true) :
    largest key cursor items =
      match items.getLast? with
      | none => cursor
      | some last => some (key last) := by
  induction items using List.reverseRecOn with
  | nil => rfl
  | append_singleton items last ih =>
    rw [List.getLast?_concat]
    have hFront := ih
      (List.pairwise_append.mp hGrows).1
      fun item hMem => hBeyond item
        (List.mem_append_left _ hMem)
    refine largest_snoc key cursor items last ?_
    rw [hFront]
    cases hEnd : items.getLast? with
    | none => exact hBeyond last (by simp)
    | some before =>
      have hMem : before ∈ items := List.mem_of_getLast? hEnd
      exact decide_eq_true
        ((List.pairwise_append.mp hGrows).2.2 before hMem
          last (by simp))

--
-- What a Reader Knows
--

variable {key}

/- What has been returned, of a log whose keys grow: nothing
   beyond the cursor, nothing twice, and whatever is still in
   the log and not beyond the cursor. -/
structure Reads
    (key : α → Nat)
    (items : List α)
    (cursor : Option Nat)
    (returned : List α) : Prop where
  grows : items.Pairwise (key · < key ·)
  once : returned.Pairwise (key · < key ·)
  seen : ∀ item ∈ returned, beyond cursor (key item) = false
  covers : ∀ item ∈ items,
    beyond cursor (key item) = false → item ∈ returned

theorem Reads.start : Reads key [] none ([] : List α) where
  grows := List.Pairwise.nil
  once := List.Pairwise.nil
  seen := by simp
  covers := by simp

variable {items returned : List α} {cursor : Option Nat}

theorem Reads.sublist
    {fewer : List α}
    (hReads : Reads key items cursor returned)
    (hFewer : fewer.Sublist items) :
    Reads key fewer cursor returned where
  grows := hReads.grows.sublist hFewer
  once := hReads.once
  seen := hReads.seen
  covers item hMem := hReads.covers item (hFewer.subset hMem)

variable {item : α}

/- The log grows by an item with a key of its own, larger than
   those of the log and beyond the cursor. -/
theorem Reads.add
    (hReads : Reads key items cursor returned)
    (hLarger : ∀ other ∈ items, key other < key item)
    (hBeyond : beyond cursor (key item) = true) :
    Reads key (items ++ [item]) cursor returned where
  grows := by
    refine List.pairwise_append.mpr
      ⟨hReads.grows, List.pairwise_singleton _ _, ?_⟩
    intro other hOther last hLast
    rw [List.mem_singleton.mp hLast]
    exact hLarger other hOther
  once := hReads.once
  seen := hReads.seen
  covers := by
    intro other hMem hSeen
    rcases List.mem_append.mp hMem with hMem | hMem
    · exact hReads.covers other hMem hSeen
    · rw [List.mem_singleton.mp hMem, hBeyond] at hSeen
      cases hSeen

theorem beyond_trans
    {first second : Nat}
    (hFirst : beyond cursor first = false)
    (hSecond : beyond cursor second = true) :
    first < second := by
  cases cursor with
  | none => cases hFirst
  | some seen =>
    have hLe := Nat.le_of_not_lt (of_decide_eq_false hFirst)
    exact Nat.lt_of_le_of_lt hLe (of_decide_eq_true hSecond)

/- A page is read. -/
theorem Reads.poll
    (hReads : Reads key items cursor returned)
    (limit : Nat) :
    Reads key items
      (largest key cursor (page key cursor limit items))
      (returned ++ page key cursor limit items) := by
  let fresh := items.filter fun item =>
    beyond cursor (key item)
  have hFresh : fresh.Pairwise (key · < key ·) :=
    hReads.grows.sublist List.filter_sublist
  have hPage : (page key cursor limit items).Pairwise
      (key · < key ·) :=
    hFresh.sublist (List.take_sublist limit fresh)
  have hBeyond : ∀ item ∈ page key cursor limit items,
      beyond cursor (key item) = true := by
    intro item hMem
    exact (List.mem_filter.mp (List.mem_of_mem_take hMem)).2
  have hLargest := largest_of_grows key cursor _ hPage hBeyond
  have hOnce : (returned ++
      page key cursor limit items).Pairwise
        (key · < key ·) := by
    refine List.pairwise_append.mpr ⟨hReads.once, hPage, ?_⟩
    intro old hOld new hNew
    exact beyond_trans (hReads.seen old hOld)
      (hBeyond new hNew)
  cases hEnd : (page key cursor limit items).getLast? with
  | none =>
    rw [hEnd] at hLargest
    have hNone := List.getLast?_eq_none_iff.mp hEnd
    rw [hLargest, hNone, List.append_nil]
    exact hReads
  | some last =>
    rw [hEnd] at hLargest
    rw [hLargest]
    rcases List.getLast?_eq_some_iff.mp hEnd with
      ⟨front, hSplit⟩
    have hLast := List.mem_of_getLast? hEnd
    have hAtMost : ∀ item ∈ page key cursor limit items,
        key item ≤ key last := by
      intro item hMem
      rw [hSplit] at hMem hPage
      rcases List.mem_append.mp hMem with hMem | hMem
      · exact Nat.le_of_lt ((List.pairwise_append.mp
          hPage).2.2 item hMem last (by simp))
      · exact Nat.le_of_eq
          (congrArg key (List.mem_singleton.mp hMem))
    exact
      { grows := hReads.grows
        once := hOnce
        seen := by
          intro item hMem
          refine decide_eq_false (Nat.not_lt.mpr ?_)
          rcases List.mem_append.mp hMem with hOld | hNew
          · exact Nat.le_of_lt (beyond_trans
              (hReads.seen item hOld) (hBeyond last hLast))
          · exact hAtMost item hNew
        covers := by
          intro item hMem hSeen
          have hLe : key item ≤ key last :=
            Nat.le_of_not_lt (of_decide_eq_false hSeen)
          cases hCursor : beyond cursor (key item) with
          | false =>
            exact List.mem_append_left _
              (hReads.covers item hMem hCursor)
          | true =>
            refine List.mem_append_right _ ?_
            have hHere : item ∈ fresh :=
              List.mem_filter.mpr ⟨hMem, hCursor⟩
            rw [← List.take_append_drop limit fresh]
              at hHere hFresh
            rcases List.mem_append.mp hHere with
              hTaken | hLeft
            · exact hTaken
            · have hLess := (List.pairwise_append.mp
                hFresh).2.2 last hLast item hLeft
              omega }

/- Nothing is left beyond the cursor. -/
def CaughtUp
    (key : α → Nat)
    (items : List α)
    (cursor : Option Nat) : Prop :=
  ∀ item ∈ items, beyond cursor (key item) = false

instance decidableCaughtUp
    (key : α → Nat)
    (items : List α)
    (cursor : Option Nat) :
    Decidable (CaughtUp key items cursor) :=
  inferInstanceAs (Decidable
    (∀ item ∈ items, beyond cursor (key item) = false))

/- No other element of a growing list has the key. -/
theorem filter_key_of_mem
    (hGrows : returned.Pairwise (key · < key ·))
    (hMem : item ∈ returned) :
    (returned.filter fun other =>
      decide (key other = key item)) = [item] := by
  induction returned with
  | nil => cases hMem
  | cons first rest ih =>
    rcases List.pairwise_cons.mp hGrows with ⟨hFirst, hRest⟩
    rcases List.mem_cons.mp hMem with rfl | hMem
    · rw [List.filter_cons_of_pos (by simp)]
      have hNone : (rest.filter fun other =>
          decide (key other = key item)) = [] := by
        rw [List.filter_eq_nil_iff]
        intro other hOther hSame
        have hLess := hFirst other hOther
        have hEqual := of_decide_eq_true hSame
        omega
      rw [hNone]
    · have hLess := hFirst item hMem
      rw [List.filter_cons_of_neg (by
        simp only [decide_eq_true_eq]
        omega)]
      exact ih hRest hMem

/- Whatever is still in the log was returned, once. -/
theorem Reads.exactly_once
    (hReads : Reads key items cursor returned)
    (hCaughtUp : CaughtUp key items cursor)
    (hMem : item ∈ items) :
    (returned.filter fun other =>
      decide (key other = key item)) = [item] :=
  filter_key_of_mem hReads.once
    (hReads.covers item hMem (hCaughtUp item hMem))

end Paging

end Library
