import ChenDB.Library.Struct

/-
  Bytes assigned in place, slice by slice. `Wrote` says what
  one assignment of a slice of its own length does: the
  slice reads back and every other one is as before.
-/

--
-- Assigning a Slice
--

namespace Library

namespace Buffer

open Struct

/- Where a bound falls: a negative one counts from the end,
   and none lies outside the bytes. -/
def sliceIndex
    (length : Nat)
    (bound : Int) : Nat :=
  if bound < 0 then (length + bound).toNat
  else min bound.toNat length

/- Replace a slice by bytes that may differ in number. -/
def assignSlice
    (bytes : Bytes)
    (start stop : Int)
    (written : Bytes) : Bytes :=
  let first := sliceIndex bytes.length start
  let last := max first (sliceIndex bytes.length stop)
  bytes.take first ++ written ++ bytes.drop last

theorem sliceIndex_of_le
    {length bound : Nat}
    (hBound : bound ≤ length) :
    sliceIndex length bound = bound := by
  unfold sliceIndex
  rw [if_neg (by omega), Int.toNat_natCast]
  exact Nat.min_eq_left hBound

variable {bytes written : Bytes} {start stop : Nat}

/- A slice of the same length is overwritten. -/
theorem assignSlice_eq_overwriteAt
    (hStop : stop = start + written.length)
    (hFits : stop ≤ bytes.length) :
    assignSlice bytes start stop written =
      overwriteAt bytes start written := by
  unfold assignSlice overwriteAt
  simp only []
  rw [sliceIndex_of_le (by omega), sliceIndex_of_le hFits,
    Nat.max_eq_right (by omega), hStop]

--
-- One Write
--

/- The bytes after a write, by the slices they hold. -/
structure Wrote
    (before : Bytes)
    (start stop : Nat)
    (written after : Bytes) : Prop where
  length : after.length = before.length
  inside : slice after start stop = written
  outside : ∀ first last, last ≤ start ∨ stop ≤ first →
    slice after first last = slice before first last

theorem wrote_overwriteAt
    (hStop : stop = start + written.length)
    (hFits : stop ≤ bytes.length) :
    Wrote bytes start stop written
      (overwriteAt bytes start written) where
  length := length_overwriteAt (hStop ▸ hFits)
  inside := by
    rw [hStop]
    exact slice_overwriteAt_self (hStop ▸ hFits)
  outside first last hApart :=
    slice_overwriteAt_of_apart (hStop ▸ hFits)
      (hStop ▸ hApart)

theorem wrote_assignSlice
    (hStop : stop = start + written.length)
    (hFits : stop ≤ bytes.length) :
    Wrote bytes start stop written
      (assignSlice bytes start stop written) := by
  rw [assignSlice_eq_overwriteAt hStop hFits]
  exact wrote_overwriteAt hStop hFits

/- A slice of a slice. -/
theorem slice_slice
    {bytes : Bytes}
    {start stop first last : Nat}
    (hLast : start + last ≤ stop) :
    slice (slice bytes start stop) first last =
      slice bytes (start + first) (start + last) := by
  apply List.ext_getElem?
  intro index
  rw [getElem?_slice, getElem?_slice, getElem?_slice]
  by_cases hIndex : index < last - first
  · rw [if_pos hIndex, if_pos (by omega), if_pos (by omega)]
    congr 1
    omega
  · rw [if_neg hIndex, if_neg (by omega)]

theorem length_slice
    (hStop : stop ≤ bytes.length) :
    (slice bytes start stop).length = stop - start := by
  unfold slice
  rw [List.length_take, List.length_drop]
  omega

/- A write inside a larger slice of the same bytes. -/
theorem Wrote.inside_slice
    {before after : Bytes}
    {first last : Nat}
    (hWrote : Wrote before start stop written after)
    (hFirst : start ≤ first)
    (hLast : last ≤ stop) :
    slice after first last =
      slice written (first - start) (last - start) := by
  by_cases hSome : first ≤ last
  · rw [← hWrote.inside, slice_slice (by omega)]
    congr 1
    · omega
    · omega
  · unfold slice
    rw [Nat.sub_eq_zero_of_le (by omega),
      Nat.sub_eq_zero_of_le (by omega), List.take_zero,
      List.take_zero]

end Buffer

end Library
