import Mathlib.Order.Lattice
import Mathlib.Order.OrderDual

/-
  Intervals with either end missing and either end left out,
  narrowed by one bound at a time.
-/

namespace Library

structure KeyRange (α : Type) where
  low : Option α
  high : Option α
  includeLow : Bool
  includeHigh : Bool
deriving DecidableEq, Repr

namespace KeyRange

variable {α : Type} [LinearOrder α]

/- Is the item on the right side of the lower end? -/
def FromLow (range : KeyRange α) (item : α) : Prop :=
  ∀ low, range.low = some low →
    if range.includeLow then low ≤ item else low < item

def ToHigh (range : KeyRange α) (item : α) : Prop :=
  ∀ high, range.high = some high →
    if range.includeHigh then item ≤ high else item < high

def Contains (range : KeyRange α) (item : α) : Prop :=
  range.FromLow item ∧ range.ToHigh item

/- The lower end moved up to a bound, where that leaves less. -/
def raise
    (range : KeyRange α)
    (bound : α)
    (inclusive : Bool) : KeyRange α :=
  if range.low.all fun low =>
      low < bound ∨ (bound = low ∧ inclusive = false) then
    { range with low := some bound, includeLow := inclusive }
  else range

def lower
    (range : KeyRange α)
    (bound : α)
    (inclusive : Bool) : KeyRange α :=
  if range.high.all fun high =>
      bound < high ∨ (bound = high ∧ inclusive = false) then
    { range with
      high := some bound
      includeHigh := inclusive }
  else range

/- No item is left out of a range without ends. -/
theorem contains_unbounded
    (includeLow includeHigh : Bool)
    (item : α) :
    Contains ⟨none, none, includeLow, includeHigh⟩ item :=
  ⟨nofun, nofun⟩

theorem fromLow_raise
    (range : KeyRange α)
    (bound : α)
    (inclusive : Bool)
    (item : α) :
    (range.raise bound inclusive).FromLow item ↔
      range.FromLow item ∧
        if inclusive then bound ≤ item else bound < item := by
  unfold raise FromLow
  cases hLow : range.low with
  | none => cases inclusive <;> simp
  | some low =>
    rw [Option.all_some]
    by_cases hNarrow : low < bound ∨
        (bound = low ∧ inclusive = false)
    · -- The new bound is the stronger of the two.
      rw [if_pos (decide_eq_true hNarrow)]
      have hOld : (if inclusive then bound ≤ item
            else bound < item) →
          if range.includeLow then low ≤ item
            else low < item := by
        intro hNew
        rcases hNarrow with hLess | ⟨rfl, rfl⟩
        · have hBelow : low < item := by
            cases inclusive with
            | true => exact hLess.trans_le hNew
            | false => exact hLess.trans hNew
          split
          · exact hBelow.le
          · exact hBelow
        · have hBelow : bound < item := hNew
          split
          · exact hBelow.le
          · exact hBelow
      simp only [Option.some.injEq, forall_eq']
      exact ⟨fun hNew => ⟨hOld hNew, hNew⟩, And.right⟩
    · rw [if_neg (by simpa using hNarrow), hLow]
      simp only [not_or, not_lt, not_and] at hNarrow
      have hNew : (if range.includeLow then low ≤ item
            else low < item) →
          if inclusive then bound ≤ item
            else bound < item := by
        intro hOld
        have hAbove : low ≤ item := by
          split at hOld
          · exact hOld
          · exact le_of_lt hOld
        cases inclusive with
        | true => exact hNarrow.1.trans hAbove
        | false =>
          have hLess : bound < low :=
            lt_of_le_of_ne hNarrow.1 fun hSame =>
              hNarrow.2 hSame rfl
          exact hLess.trans_le hAbove
      simp only [Option.some.injEq, forall_eq']
      exact ⟨fun hOld => ⟨hOld, hNew hOld⟩, And.left⟩

theorem toHigh_raise
    (range : KeyRange α)
    (bound : α)
    (inclusive : Bool)
    (item : α) :
    (range.raise bound inclusive).ToHigh item ↔
      range.ToHigh item := by
  unfold raise
  split <;> rfl

theorem contains_raise
    (range : KeyRange α)
    (bound : α)
    (inclusive : Bool)
    (item : α) :
    (range.raise bound inclusive).Contains item ↔
      range.Contains item ∧
        if inclusive then bound ≤ item else bound < item := by
  unfold Contains
  rw [fromLow_raise, toHigh_raise]
  exact and_right_comm

/- The range seen in the other direction. -/
def flip (range : KeyRange α) : KeyRange αᵒᵈ :=
  ⟨range.high, range.low, range.includeHigh, range.includeLow⟩

theorem contains_flip
    (range : KeyRange α)
    (item : α) :
    range.flip.Contains (OrderDual.toDual item) ↔
      range.Contains item :=
  and_comm

theorem flip_lower
    (range : KeyRange α)
    (bound : α)
    (inclusive : Bool) :
    (range.lower bound inclusive).flip =
      range.flip.raise (OrderDual.toDual bound) inclusive := by
  unfold lower raise
  split
  · rename_i hNarrow
    exact (if_pos hNarrow).symm
  · rename_i hNarrow
    exact (if_neg hNarrow).symm

theorem contains_lower
    (range : KeyRange α)
    (bound : α)
    (inclusive : Bool)
    (item : α) :
    (range.lower bound inclusive).Contains item ↔
      range.Contains item ∧
        if inclusive then item ≤ bound else item < bound := by
  rw [← contains_flip, flip_lower, contains_raise,
    contains_flip]
  exact Iff.rfl

/- The lower end is the old one or the bound. -/
theorem raise_low
    {range : KeyRange α}
    {bound low : α}
    {inclusive : Bool}
    (hLow : (range.raise bound inclusive).low = some low) :
    range.low = some low ∨ low = bound := by
  unfold raise at hLow
  split at hLow
  · exact .inr (Option.some.inj hLow).symm
  · exact .inl hLow

@[simp] theorem lower_low
    (range : KeyRange α)
    (bound : α)
    (inclusive : Bool) :
    (range.lower bound inclusive).low = range.low := by
  unfold lower
  split <;> rfl

end KeyRange

end Library
