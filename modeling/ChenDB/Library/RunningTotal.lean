import Mathlib.Algebra.Order.Group.Defs
import Mathlib.Algebra.BigOperators.Group.List.Basic

/-
  Running totals that are checked against two bounds at each
  step. Whether one leaves the bounds depends on the order of
  the summands; that none does in any order depends only on
  what the positive ones come to and what the negative ones
  come to.
-/

--
-- Running Totals
--

namespace Library

namespace RunningTotal

variable {α : Type} [AddCommGroup α] [LinearOrder α]
variable [IsOrderedAddMonoid α]

/- From `total` on, every running total is within bounds. -/
def Stays (low high : α) : α → List α → Prop
  | _, [] => True
  | total, value :: rest =>
    (low ≤ total + value ∧ total + value ≤ high) ∧
      Stays low high (total + value) rest

/- What the positive summands come to. -/
def gains (values : List α) : α :=
  (values.filter (0 < ·)).sum

/- What the others come to, the zeros among them. -/
def losses (values : List α) : α :=
  (values.filter (· ≤ 0)).sum

section Append

variable {low high total : α}

omit [IsOrderedAddMonoid α] in
theorem stays_append
    {done rest : List α} :
    Stays low high total (done ++ rest) ↔
      Stays low high total done ∧
        Stays low high (total + done.sum) rest := by
  induction done generalizing total with
  | nil => simp [Stays]
  | cons value done ih =>
    simp only [List.cons_append, Stays, ih, List.sum_cons,
      add_assoc, and_assoc]

omit [IsOrderedAddMonoid α] in
/- The last running total, where there is one. -/
theorem Stays.sum
    {values : List α}
    (hStays : Stays low high total values)
    (hSome : values ≠ []) :
    low ≤ total + values.sum ∧
      total + values.sum ≤ high := by
  rcases List.eq_nil_or_concat values with
    rfl | ⟨done, value, rfl⟩
  · exact absurd rfl hSome
  · rw [List.concat_eq_append] at hStays ⊢
    have hLast := (stays_append.mp hStays).2.1
    simpa [add_assoc] using hLast

end Append

--
-- Any Order
--

section Bounds

variable {low high : α}

omit [IsOrderedAddMonoid α] in
theorem gains_cons
    (value : α)
    (rest : List α) :
    gains (value :: rest) =
      if 0 < value then value + gains rest
      else gains rest := by
  by_cases hValue : 0 < value
  · simp [gains, hValue]
  · simp [gains, hValue]

omit [IsOrderedAddMonoid α] in
theorem losses_cons
    (value : α)
    (rest : List α) :
    losses (value :: rest) =
      if 0 < value then losses rest
      else value + losses rest := by
  by_cases hValue : 0 < value
  · simp [losses, hValue, not_le.mpr hValue]
  · simp [losses, hValue, not_lt.mp hValue]

theorem gains_nonneg
    (values : List α) : 0 ≤ gains values := by
  induction values with
  | nil => exact le_refl _
  | cons value rest ih =>
    rw [gains_cons]
    split
    · rename_i hValue
      exact add_nonneg hValue.le ih
    · exact ih

theorem losses_nonpos
    (values : List α) : losses values ≤ 0 := by
  induction values with
  | nil => exact le_refl _
  | cons value rest ih =>
    rw [losses_cons]
    split
    · exact ih
    · rename_i hValue
      exact add_nonpos (not_lt.mp hValue) ih

variable {values : List α}

/- Every running total lies between the losses and the
   gains. -/
theorem stays_of_bounds
    {total : α}
    (hLow : low ≤ total + losses values)
    (hHigh : total + gains values ≤ high) :
    Stays low high total values := by
  induction values generalizing total with
  | nil => trivial
  | cons value rest ih =>
    rw [losses_cons] at hLow
    rw [gains_cons] at hHigh
    have hGains := gains_nonneg rest
    have hLosses := losses_nonpos rest
    by_cases hValue : 0 < value
    · rw [if_pos hValue] at hLow hHigh
      rw [← add_assoc] at hHigh
      have hAfter : low ≤ total + value + losses rest :=
        hLow.trans (add_le_add_left
          (le_add_of_nonneg_right hValue.le) _)
      refine ⟨⟨?_, ?_⟩, ih hAfter hHigh⟩
      · exact hAfter.trans (add_le_of_nonpos_right hLosses)
      · exact (le_add_of_nonneg_right hGains).trans hHigh
    · rw [if_neg hValue] at hLow hHigh
      rw [← add_assoc] at hLow
      have hAfter : total + value + gains rest ≤ high :=
        (add_le_add_left (add_le_of_nonpos_right
          (not_lt.mp hValue)) _).trans hHigh
      refine ⟨⟨?_, ?_⟩, ih hLow hAfter⟩
      · exact hLow.trans (add_le_of_nonpos_right hLosses)
      · exact (le_add_of_nonneg_right hGains).trans hAfter

variable {reordered : List α}

omit [IsOrderedAddMonoid α] in
theorem gains_perm
    (hPerm : reordered.Perm values) :
    gains reordered = gains values :=
  (hPerm.filter _).sum_eq

omit [IsOrderedAddMonoid α] in
theorem losses_perm
    (hPerm : reordered.Perm values) :
    losses reordered = losses values :=
  (hPerm.filter _).sum_eq

omit [IsOrderedAddMonoid α] in
/- A part that comes first must come to something within
   bounds. -/
theorem bounds_of_stays_append
    (hZero : low ≤ 0 ∧ 0 ≤ high)
    {first rest : List α}
    (hStays : Stays low high 0 (first ++ rest)) :
    low ≤ first.sum ∧ first.sum ≤ high := by
  by_cases hEmpty : first = []
  · rw [hEmpty]
    exact hZero
  · simpa using (stays_append.mp hStays).1.sum hEmpty

/- No order leaves the bounds exactly when the gains and the
   losses, each by themselves, do not. -/
theorem stays_perm_iff
    (hZero : low ≤ 0 ∧ 0 ≤ high) :
    (∀ reordered : List α, reordered.Perm values →
      Stays low high 0 reordered) ↔
      low ≤ losses values ∧ gains values ≤ high := by
  constructor
  · intro hStays
    have hGainsFirst := List.filter_append_perm
      (fun value => decide (0 < value)) values
    have hNegation :
        (fun value : α => !decide (0 < value)) =
          fun value => decide (value ≤ 0) := by
      funext value
      rw [← decide_not]
      exact decide_eq_decide.mpr not_lt
    rw [hNegation] at hGainsFirst
    have hLossesFirst := List.perm_append_comm.trans hGainsFirst
    exact ⟨(bounds_of_stays_append hZero
        (hStays _ hLossesFirst)).1,
      (bounds_of_stays_append hZero
        (hStays _ hGainsFirst)).2⟩
  · rintro ⟨hLow, hHigh⟩ reordered hPerm
    refine stays_of_bounds ?_ ?_
    · rwa [losses_perm hPerm, zero_add]
    · rwa [gains_perm hPerm, zero_add]

end Bounds

end RunningTotal

end Library
