import ChenDB.Optimizer.RangeRows

/-
  The share of a histogram that lies below a point: whole
  buckets, and a part of the one that the point is in.
-/

--
-- Shares
--

namespace ChenDB

namespace Optimizer

section Shares

variable {ρ : Type} [LinearOrder ρ]

/- The boundaries after the first that the point has
   reached. -/
def wholeBelow (bounds : List ρ) (point : ρ) : ℕ :=
  (bounds.tail.takeWhile fun bound =>
    decide (bound ≤ point)).length

/- How much of the bucket that the point is in lies below
   it. -/
def partBelow
    (part : ρ → ρ → ρ → ℚ)
    (bounds : List ρ)
    (point : ρ) : ℚ :=
  match bounds[wholeBelow bounds point]?,
      bounds[wholeBelow bounds point + 1]? with
  | some low, some high =>
    min (max (part point low high) 0) 1
  | _, _ => 0

def shareBelow
    (part : ρ → ρ → ρ → ℚ)
    (bounds : List ρ)
    (point : ρ) : ℚ :=
  match bounds.head?, bounds.getLast? with
  | some first, some last =>
    if bounds.length < 2 then 0
    else if point ≤ first then 0
    else if last ≤ point then 1
    else (wholeBelow bounds point +
      partBelow part bounds point) /
        (bounds.length - 1 : ℕ)
  | _, _ => 0

variable {part : ρ → ρ → ρ → ℚ}
variable {bounds : List ρ} {point low high first last : ρ}

theorem partBelow_nonneg (point : ρ) :
    0 ≤ partBelow part bounds point := by
  unfold partBelow
  split
  · exact le_min (le_max_right _ _) zero_le_one
  · exact le_rfl

theorem partBelow_le_one (point : ρ) :
    partBelow part bounds point ≤ 1 := by
  unfold partBelow
  split
  · exact min_le_right _ _
  · exact zero_le_one

theorem wholeBelow_mono (hLe : low ≤ high) :
    wholeBelow bounds low ≤ wholeBelow bounds high := by
  unfold wholeBelow
  induction bounds.tail with
  | nil => exact le_rfl
  | cons bound rest ih =>
    rw [List.takeWhile_cons, List.takeWhile_cons]
    by_cases hReached : bound ≤ low
    · rw [if_pos (decide_eq_true hReached),
        if_pos (decide_eq_true (hReached.trans hLe))]
      exact Nat.succ_le_succ ih
    · rw [if_neg (by simpa using hReached)]
      exact Nat.zero_le _

/- Below the last boundary there is a bucket left. -/
theorem wholeBelow_lt
    (hLast : bounds.getLast? = some last)
    (hLong : 2 ≤ bounds.length)
    (hPoint : point < last) :
    wholeBelow bounds point < bounds.length - 1 := by
  have hTail : bounds.tail.getLast? = some last := by
    cases bounds with
    | nil => cases hLast
    | cons bound rest =>
      cases rest with
      | nil => exact absurd hLong (by simp)
      | cons next more => exact hLast
  have hLength := List.length_tail (l := bounds)
  unfold wholeBelow
  rw [← hLength]
  refine lt_of_le_of_ne
    (List.takeWhile_sublist _).length_le fun hAll => ?_
  have hSame : bounds.tail.takeWhile
      (fun bound => decide (bound ≤ point)) = bounds.tail :=
    (List.takeWhile_sublist _).eq_of_length hAll
  have hReached := List.mem_takeWhile_imp
    (hSame.symm ▸ List.mem_of_getLast? hTail)
  exact not_le.mpr hPoint (of_decide_eq_true hReached)

/- The straddled bucket is there. -/
theorem partBelow_eq
    (part : ρ → ρ → ρ → ℚ)
    (hLast : bounds.getLast? = some last)
    (hLong : 2 ≤ bounds.length)
    (hPoint : point < last) :
    ∃ low ∈ bounds, ∃ high ∈ bounds,
      bounds[wholeBelow bounds point]? = some low ∧
      bounds[wholeBelow bounds point + 1]? = some high ∧
      partBelow part bounds point =
        min (max (part point low high) 0) 1 := by
  have hLess := wholeBelow_lt hLast hLong hPoint
  have hLow : wholeBelow bounds point < bounds.length := by
    omega
  have hHigh : wholeBelow bounds point + 1 <
      bounds.length := by
    omega
  refine ⟨_, List.getElem_mem hLow, _,
    List.getElem_mem hHigh, List.getElem?_eq_getElem hLow,
    List.getElem?_eq_getElem hHigh, ?_⟩
  unfold partBelow
  rw [List.getElem?_eq_getElem hLow,
    List.getElem?_eq_getElem hHigh]

theorem shareBelow_eq
    (part : ρ → ρ → ρ → ℚ)
    (hFirst : bounds.head? = some first)
    (hLast : bounds.getLast? = some last)
    (hLong : 2 ≤ bounds.length)
    (point : ρ) :
    shareBelow part bounds point =
      if point ≤ first then 0
      else if last ≤ point then 1
      else (wholeBelow bounds point +
        partBelow part bounds point) /
          (bounds.length - 1 : ℕ) := by
  unfold shareBelow
  rw [hFirst, hLast]
  simp only
  rw [if_neg (by omega)]

theorem shareBelow_few (hFew : bounds.length < 2) :
    shareBelow part bounds point = 0 := by
  unfold shareBelow
  split
  · rw [if_pos hFew]
  · rfl

/- Boundaries from the first to the last. -/
structure Spans
    (bounds : List ρ)
    (first last : ρ) : Prop where
  head : bounds.head? = some first
  last : bounds.getLast? = some last
  long : 2 ≤ bounds.length

omit [LinearOrder ρ] in
theorem Spans.buckets_pos
    (hSpans : Spans bounds first last) :
    (0 : ℚ) < (bounds.length - 1 : ℕ) :=
  Nat.cast_pos.mpr (by
    have hLong := hSpans.long
    omega)

theorem Spans.share_eq
    (hSpans : Spans bounds first last)
    (part : ρ → ρ → ρ → ℚ)
    (point : ρ) :
    shareBelow part bounds point =
      if point ≤ first then 0
      else if last ≤ point then 1
      else (wholeBelow bounds point +
        partBelow part bounds point) /
          (bounds.length - 1 : ℕ) :=
  shareBelow_eq part hSpans.head hSpans.last hSpans.long point

/- The buckets below a point and the part of its own. -/
theorem Spans.covered_le
    (hSpans : Spans bounds first last)
    (hPoint : point < last) :
    (wholeBelow bounds point : ℚ) +
      partBelow part bounds point ≤
        (bounds.length - 1 : ℕ) := by
  have hWhole := wholeBelow_lt hSpans.last hSpans.long hPoint
  have hWhole : (wholeBelow bounds point : ℚ) + 1 ≤
      (bounds.length - 1 : ℕ) := by
    exact_mod_cast hWhole
  have hPart : partBelow part bounds point ≤ 1 :=
    partBelow_le_one point
  linarith

omit [LinearOrder ρ] in
theorem spans_of_long
    (hLong : 2 ≤ bounds.length) :
    ∃ first last, Spans bounds first last := by
  have hSome : bounds ≠ [] := by
    rintro rfl
    exact absurd hLong (by simp)
  exact ⟨_, _, List.head?_eq_some_head hSome,
    List.getLast?_eq_some_getLast hSome, hLong⟩

theorem shareBelow_nonneg (point : ρ) :
    0 ≤ shareBelow part bounds point := by
  rcases Nat.lt_or_ge bounds.length 2 with hFew | hLong
  · rw [shareBelow_few hFew]
  rcases spans_of_long hLong with ⟨first, last, hSpans⟩
  rw [hSpans.share_eq]
  split
  · exact le_rfl
  split
  · exact zero_le_one
  · exact div_nonneg (add_nonneg (Nat.cast_nonneg _)
      (partBelow_nonneg point)) hSpans.buckets_pos.le

theorem shareBelow_le_one (point : ρ) :
    shareBelow part bounds point ≤ 1 := by
  rcases Nat.lt_or_ge bounds.length 2 with hFew | hLong
  · rw [shareBelow_few hFew]
    exact zero_le_one
  rcases spans_of_long hLong with ⟨first, last, hSpans⟩
  rw [hSpans.share_eq]
  split
  · exact zero_le_one
  split
  · exact le_rfl
  · rename_i hPoint
    rw [div_le_one hSpans.buckets_pos]
    exact hSpans.covered_le (not_le.mp hPoint)

/- Within a bucket the part grows with the point, and a point
   in a later bucket has the whole one below it. -/
theorem shareBelow_mono
    (hPart : ∀ first last, Spans bounds first last →
      ∀ start ∈ bounds, ∀ stop ∈ bounds, ∀ low high,
        first < low → low ≤ high → high < last →
          part low start stop ≤ part high start stop)
    (hLe : low ≤ high) :
    shareBelow part bounds low ≤
      shareBelow part bounds high := by
  rcases Nat.lt_or_ge bounds.length 2 with hFew | hLong
  · rw [shareBelow_few hFew, shareBelow_few hFew]
  rcases spans_of_long hLong with ⟨first, last, hSpans⟩
  by_cases hLow : low ≤ first
  · rw [hSpans.share_eq, if_pos hLow]
    exact shareBelow_nonneg high
  by_cases hHigh : last ≤ high
  · rw [hSpans.share_eq part high,
      if_neg fun hNot => hLow (hLe.trans hNot), if_pos hHigh]
    exact shareBelow_le_one low
  have hAfter := not_le.mp hLow
  have hBefore := not_le.mp hHigh
  have hLowBefore := lt_of_le_of_lt hLe hBefore
  rw [hSpans.share_eq, hSpans.share_eq, if_neg hLow,
    if_neg (not_le.mpr hLowBefore),
    if_neg (not_le.mpr (hAfter.trans_le hLe)), if_neg hHigh]
  refine div_le_div_of_nonneg_right ?_ hSpans.buckets_pos.le
  have hWhole : wholeBelow bounds low ≤
      wholeBelow bounds high := wholeBelow_mono hLe
  rcases eq_or_lt_of_le hWhole with hSame | hLess
  · rcases partBelow_eq part hSpans.last hLong
      hLowBefore with
      ⟨start, hStart, stop, hStop, hOne, hTwo, hLowPart⟩
    rcases partBelow_eq part hSpans.last hLong
      hBefore with ⟨_, _, _, _, hThree, hFour, hHighPart⟩
    rw [← hSame, hOne] at hThree
    rw [← hSame, hTwo] at hFour
    cases hThree
    cases hFour
    rw [hSame, hLowPart, hHighPart]
    have hGrows := hPart first last hSpans start hStart stop
      hStop low high hAfter hLe hBefore
    exact add_le_add le_rfl (min_le_min
      (max_le_max hGrows le_rfl) le_rfl)
  · have hStep : (wholeBelow bounds low : ℚ) + 1 ≤
        wholeBelow bounds high := by
      exact_mod_cast hLess
    have hOne : partBelow part bounds low ≤ 1 :=
      partBelow_le_one low
    have hZero : 0 ≤ partBelow part bounds high :=
      partBelow_nonneg high
    linarith

--
-- The Last Bucket
--

variable {front : List ρ} {before : ρ}

/- In the last bucket all the others lie below. -/
theorem wholeBelow_last
    (hSorted : (front ++ [before]).Pairwise (· < ·))
    (hPoint : before ≤ point)
    (hLast : point < last) :
    wholeBelow (front ++ [before] ++ [last]) point =
      front.length := by
  have hSome : front ++ [before] ≠ [] := by simp
  have hAll : ∀ bound ∈ (front ++ [before]).tail,
      decide (bound ≤ point) = true := by
    intro bound hMem
    refine decide_eq_true (le_trans ?_ hPoint)
    rcases List.mem_append.mp (List.mem_of_mem_tail hMem) with
      hFront | hHere
    · exact le_of_lt ((List.pairwise_append.mp hSorted).2.2
        bound hFront before (.head _))
    · rw [List.mem_singleton.mp hHere]
  unfold wholeBelow
  rw [List.tail_append_of_ne_nil hSome,
    List.takeWhile_append_of_pos hAll, List.takeWhile_cons,
    if_neg (by simpa using hLast), List.append_nil,
    List.length_tail, List.length_append,
    List.length_singleton, Nat.add_sub_cancel]

/- Before it one bucket at least is not whole. -/
theorem wholeBelow_earlier
    (hLong : 2 ≤ (front ++ [before]).length)
    (hPoint : point < before) :
    wholeBelow (front ++ [before] ++ [last]) point <
      front.length := by
  have hSome : front ++ [before] ≠ [] := by simp
  have hEnd : (front ++ [before]).getLast? = some before :=
    List.getLast?_concat
  have hLess := wholeBelow_lt hEnd hLong hPoint
  have hLength := List.length_tail (l := front ++ [before])
  have hShort : ((front ++ [before]).tail.takeWhile
      fun bound => decide (bound ≤ point)).length ≠
        (front ++ [before]).tail.length := by
    rw [hLength]
    exact ne_of_lt hLess
  unfold wholeBelow at hLess ⊢
  rw [List.tail_append_of_ne_nil hSome, List.takeWhile_append,
    if_neg hShort]
  simpa using hLess

variable {values : ℕ}

/- Up to the first boundary there is nothing, and half of the
   only bucket at most. -/
theorem room_first
    (hValues : front.length + 2 ≤ values)
    (hHalf : part point before last ≤ 1 / 2)
    (hFirst : (front ++ [before]).head? = some first)
    (hPoint : point ≤ first)
    (hSorted : (front ++ [before]).Pairwise (· < ·)) :
    point < before ∨
      (front.length : ℚ) + 1 ≤ values *
        (1 - min (max (part point before last) 0) 1) := by
  cases front with
  | cons head rest =>
    cases hFirst
    exact .inl (lt_of_le_of_lt hPoint
      ((List.pairwise_cons.mp hSorted).1 before
        (List.mem_append_right _ (.head _))))
  | nil =>
    have hMany : (2 : ℚ) ≤ values := by
      exact_mod_cast hValues
    have hPart : min (max (part point before last) 0) 1 ≤
        1 / 2 :=
      (min_le_left _ _).trans
        (max_le hHalf (by norm_num))
    refine .inr ?_
    have hScaled := mul_le_mul hMany
      (sub_le_sub_left hPart 1) (by norm_num)
      (Nat.cast_nonneg values)
    norm_num at hScaled ⊢
    exact hScaled

theorem room_scaled
    {covered wide values : ℚ}
    (hWide : 0 < wide)
    (hValues : 0 < values) :
    covered / wide + 1 / values ≤ 1 ↔
      wide ≤ values * (wide - covered) := by
  rw [div_add_div _ _ hWide.ne' hValues.ne',
    div_le_one (mul_pos hWide hValues), mul_one]
  constructor
  · intro hLe
    linarith
  · intro hLe
    linarith

/- There is room for one value more behind a point if it lies
   before the last bucket, or not too far in it. -/
theorem shareBelow_room_iff
    (hSorted : (front ++ [before] ++ [last]).Pairwise (· < ·))
    (hValues : front.length + 2 ≤ values)
    (hHalf : point ≤ before → part point before last ≤ 1 / 2) :
    shareBelow part (front ++ [before] ++ [last]) point +
        1 / values ≤ 1 ↔
      point < last ∧ (point < before ∨
        (front.length : ℚ) + 1 ≤ values *
          (1 - min (max (part point before last) 0) 1)) := by
  have hInit := (List.pairwise_append.mp hSorted).1
  have hLess : ∀ bound ∈ front ++ [before], bound < last :=
    fun bound hMem => (List.pairwise_append.mp hSorted).2.2
      bound hMem last (.head _)
  have hUpTo : ∀ bound ∈ front ++ [before],
      bound ≤ before := by
    intro bound hMem
    rcases List.mem_append.mp hMem with hFront | hHere
    · exact le_of_lt ((List.pairwise_append.mp hInit).2.2
        bound hFront before (.head _))
    · exact le_of_eq (List.mem_singleton.mp hHere)
  have hPos : (0 : ℚ) < values := Nat.cast_pos.mpr (by omega)
  have hBuckets : (front ++ [before] ++ [last]).length - 1 =
      front.length + 1 := by simp
  rcases hHead : (front ++ [before]).head? with _ | first
  · simp at hHead
  have hFirstMem := List.mem_of_mem_head? hHead
  have hSpans : Spans (front ++ [before] ++ [last]) first
      last :=
    { head := by rw [List.head?_append, hHead]; rfl
      last := List.getLast?_concat
      long := by simp }
  rw [hSpans.share_eq, hBuckets]
  split
  · rename_i hPoint
    have hPointBefore := hPoint.trans (hUpTo first hFirstMem)
    refine iff_of_true ?_ ⟨lt_of_le_of_lt hPoint
      (hLess first hFirstMem), room_first hValues
        (hHalf hPointBefore) hHead hPoint hInit⟩
    rw [zero_add, div_le_one hPos]
    exact_mod_cast (by omega : 1 ≤ values)
  split
  · rename_i hPoint
    refine iff_of_false ?_ fun hRoom =>
      not_lt.mpr hPoint hRoom.1
    have hOne : (0 : ℚ) < 1 / values := one_div_pos.mpr hPos
    linarith
  rename_i hAfter hPoint
  have hPoint := not_le.mp hPoint
  have hWide : (0 : ℚ) < (front.length + 1 : ℕ) :=
    Nat.cast_pos.mpr (Nat.succ_pos _)
  rw [and_iff_right hPoint]
  rcases lt_or_ge point before with hEarly | hLate
  · refine iff_of_true ?_ (.inl hEarly)
    have hLong : 2 ≤ (front ++ [before]).length := by
      cases front with
      | nil =>
        cases hHead
        exact absurd hEarly.le hAfter
      | cons bound rest => simp
    have hWhole : (wholeBelow (front ++ [before] ++ [last])
        point : ℚ) + 1 ≤ front.length := by
      exact_mod_cast wholeBelow_earlier hLong hEarly
    have hPart : partBelow part (front ++ [before] ++ [last])
        point ≤ 1 := partBelow_le_one point
    have hMany : (front.length : ℚ) + 2 ≤ values := by
      exact_mod_cast hValues
    rw [room_scaled hWide hPos]
    push_cast
    refine le_trans ?_ (mul_le_mul_of_nonneg_left
      (?_ : (1 : ℚ) ≤ _) hPos.le)
    · linarith
    · linarith
  · have hPart : partBelow part (front ++ [before] ++ [last])
        point = min (max (part point before last) 0) 1 := by
      unfold partBelow
      rw [wholeBelow_last hInit hLate hPoint]
      simp
    rw [or_iff_right (not_lt.mpr hLate), room_scaled hWide hPos,
      wholeBelow_last hInit hLate hPoint, hPart]
    push_cast
    rw [add_sub_add_left_eq_sub]

end Shares

end Optimizer

end ChenDB
