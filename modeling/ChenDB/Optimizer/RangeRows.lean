import ChenDB.Planner.EquiDepth

/-
  The rows up to a point that a summary of a column comes to:
  those of the listed values, a share of the others, and those
  taken to be equal to the point.
-/

--
-- Outlines
--

namespace ChenDB

namespace Optimizer

open Library.Tally
open Planner (Counter)

/- What is counted below two points and up to them grows from
   the one to the other, and stays within a bound. -/
@[mk_iff]
structure InOrder
    {α : Type}
    (below upTo : α → ℚ)
    (bound : ℚ)
    (low high : α) : Prop where
  strict : below low ≤ below high
  inclusive : upTo low ≤ upTo high
  apart : below low ≤ upTo low ∧ below high ≤ upTo high
  bounded : (below low ≤ bound ∧ upTo low ≤ bound) ∧
    below high ≤ bound ∧ upTo high ≤ bound

/- The values of a column in growing order: how often some of
   them are there, how often the others, and what share of the
   others is taken to lie below a point. -/
structure Outline (ρ : Type) [LinearOrder ρ] where
  common : Counter ρ
  rest : Counter ρ
  once : ((common ++ rest).map Prod.fst).Nodup
  seen : ∀ entry ∈ common ++ rest, 0 < entry.2
  ordered : ∀ entry ∈ common, ∀ other ∈ rest, other.2 ≤ entry.2
  nonempty : common ≠ []
  share : ρ → ℚ
  grows : Monotone share
  least : ∀ point, 0 ≤ share point
  most : ∀ point, share point ≤ 1
  few : rest.length < 2 → ∀ point, share point = 0
  after : 2 ≤ rest.length → ∀ point,
    (∀ entry ∈ rest, entry.1 < point) → share point = 1

namespace Outline

variable {ρ : Type} [LinearOrder ρ] (outline : Outline ρ)

def listed : ℕ := (outline.common.map Prod.snd).sum

def tail : ℕ := (outline.rest.map Prod.snd).sum

def total : ℕ := outline.listed + outline.tail

def Listed (point : ρ) : Prop :=
  point ∈ outline.common.map Prod.fst

/- No value is as low. -/
def Before (point : ρ) : Prop :=
  ∀ entry ∈ outline.common ++ outline.rest, point < entry.1

/- No value is as high. -/
def Above (point : ρ) : Prop :=
  ∀ entry ∈ outline.common ++ outline.rest, entry.1 < point

instance instDecidableListed (point : ρ) :
    Decidable (outline.Listed point) :=
  inferInstanceAs (Decidable (_ ∈ _))

instance instDecidableBefore (point : ρ) :
    Decidable (outline.Before point) :=
  inferInstanceAs (Decidable (∀ _ ∈ _, _))

instance instDecidableAbove (point : ρ) :
    Decidable (outline.Above point) :=
  inferInstanceAs (Decidable (∀ _ ∈ _, _))

def rowsBelow (point : ρ) : ℕ :=
  rows (fun key => decide (key < point)) outline.common

/- The rows taken to be equal to a point: one where it is
   known not to be there, and where that is not known as many
   as the values that are not listed have on the average. -/
def equalRows (point : ρ) : ℚ :=
  if outline.Listed point then
    rows (fun key => decide (key = point)) outline.common
  else if outline.rest = [] ∨ outline.Before point ∨
      outline.Above point then 1
  else (outline.tail : ℚ) / outline.rest.length

def below (point : ρ) : ℚ :=
  outline.rowsBelow point + outline.tail * outline.share point

def upTo (point : ρ) : ℚ :=
  outline.below point + outline.equalRows point

--
-- Counts of an Outline
--

variable {outline} {entry : ρ × ℕ} {point low high : ρ}

theorem nodup_common (outline : Outline ρ) :
    (outline.common.map Prod.fst).Nodup := by
  have hOnce := outline.once
  rw [List.map_append] at hOnce
  exact (List.nodup_append.mp hOnce).1

theorem total_cast (outline : Outline ρ) :
    (outline.total : ℚ) = outline.listed + outline.tail :=
  Nat.cast_add _ _

theorem length_le_tail (outline : Outline ρ) :
    outline.rest.length ≤ outline.tail := by
  have hSeen : ∀ count ∈ outline.rest.map Prod.snd,
      1 ≤ count := by
    intro count hMem
    rcases List.mem_map.mp hMem with ⟨entry, hEntry, rfl⟩
    exact outline.seen entry (List.mem_append_right _ hEntry)
  have hLength := List.length_le_sum_of_one_le _ hSeen
  rwa [List.length_map] at hLength

theorem tail_le (hMem : entry ∈ outline.common) :
    outline.tail ≤ outline.rest.length * entry.2 := by
  have hSum := List.sum_le_card_nsmul
    (outline.rest.map Prod.snd) entry.2 (by
      intro count hCount
      rcases List.mem_map.mp hCount with ⟨other, hOther, rfl⟩
      exact outline.ordered entry hMem other hOther)
  rwa [List.length_map, smul_eq_mul] at hSum

/- A value not listed has one row at least, and no more than a
   listed one. -/
theorem one_le_average
    (hSome : outline.rest ≠ []) :
    1 ≤ (outline.tail : ℚ) / outline.rest.length := by
  have hPos : (0 : ℚ) < outline.rest.length :=
    Nat.cast_pos.mpr (List.length_pos_of_ne_nil hSome)
  rw [le_div_iff₀ hPos, one_mul]
  exact_mod_cast outline.length_le_tail

theorem average_le
    (hSome : outline.rest ≠ [])
    (hMem : entry ∈ outline.common) :
    (outline.tail : ℚ) / outline.rest.length ≤ entry.2 := by
  have hPos : (0 : ℚ) < outline.rest.length :=
    Nat.cast_pos.mpr (List.length_pos_of_ne_nil hSome)
  rw [div_le_iff₀ hPos, mul_comm]
  exact_mod_cast tail_le hMem

/- A listed value that is not below the point adds its own
   rows. -/
theorem rowsBelow_add
    {p : ρ → Bool}
    (hMem : entry ∈ outline.common)
    (hPoint : point ≤ entry.1)
    (hBelow : ∀ key, key < point → p key = true)
    (hEntry : p entry.1 = true) :
    outline.rowsBelow point + entry.2 ≤
      rows p outline.common := by
  rw [← rows_eq_of_mem outline.nodup_common hMem, rowsBelow,
    ← rows_or]
  · refine rows_mono fun other _ hOther => ?_
    rw [Bool.or_eq_true, decide_eq_true_eq,
      decide_eq_true_eq] at hOther
    rcases hOther with hLess | hSame
    · exact hBelow _ hLess
    · rw [hSame]
      exact hEntry
  · intro other _ hLess
    have hLess := of_decide_eq_true hLess
    exact decide_eq_false
      (ne_of_lt (hLess.trans_le hPoint))

theorem rowsBelow_add_le_listed
    (hMem : entry ∈ outline.common)
    (hPoint : point ≤ entry.1) :
    outline.rowsBelow point + entry.2 ≤ outline.listed := by
  have hAdd := rowsBelow_add (p := fun _ => true) hMem hPoint
    (fun _ _ => rfl) rfl
  rwa [rows_all fun _ _ => rfl] at hAdd

theorem rowsBelow_mono (hLe : low ≤ high) :
    outline.rowsBelow low ≤ outline.rowsBelow high :=
  rows_mono fun _ _ hLess => decide_eq_true
    ((of_decide_eq_true hLess).trans_le hLe)

theorem rowsBelow_le_listed (point : ρ) :
    outline.rowsBelow point ≤ outline.listed :=
  rows_le _ _

/- All the listed rows, where no listed value is as high. -/
theorem rowsBelow_eq_listed
    (hUnlisted : ¬ outline.Listed point)
    (hNone : ¬ ∃ entry ∈ outline.common, point < entry.1) :
    outline.rowsBelow point = outline.listed := by
  refine rows_all fun entry hMem => decide_eq_true ?_
  refine lt_of_le_of_ne ?_ ?_
  · exact not_lt.mp fun hLess => hNone ⟨entry, hMem, hLess⟩
  · rintro rfl
    exact hUnlisted (List.mem_map_of_mem hMem)

theorem equalRows_listed (hMem : entry ∈ outline.common) :
    outline.equalRows entry.1 = entry.2 := by
  have hListed : outline.Listed entry.1 :=
    List.mem_map_of_mem hMem
  unfold equalRows
  rw [if_pos hListed, rows_eq_of_mem outline.nodup_common hMem]

theorem equalRows_absent
    (hUnlisted : ¬ outline.Listed point)
    (hAbsent : outline.rest = [] ∨ outline.Before point ∨
      outline.Above point) :
    outline.equalRows point = 1 := by
  unfold equalRows
  rw [if_neg hUnlisted, if_pos hAbsent]

theorem equalRows_within
    (hUnlisted : ¬ outline.Listed point)
    (hWithin : ¬ (outline.rest = [] ∨ outline.Before point ∨
      outline.Above point)) :
    outline.equalRows point =
      (outline.tail : ℚ) / outline.rest.length := by
  unfold equalRows
  rw [if_neg hUnlisted, if_neg hWithin]

theorem one_le_equalRows (point : ρ) :
    1 ≤ outline.equalRows point := by
  by_cases hListed : outline.Listed point
  · rcases List.mem_map.mp hListed with ⟨entry, hMem, rfl⟩
    rw [equalRows_listed hMem]
    exact_mod_cast outline.seen entry
      (List.mem_append_left _ hMem)
  by_cases hAbsent : outline.rest = [] ∨
      outline.Before point ∨ outline.Above point
  · rw [equalRows_absent hListed hAbsent]
  · rw [equalRows_within hListed hAbsent]
    exact one_le_average fun hNone => hAbsent (.inl hNone)

/- A point that is not listed is taken for no more rows than
   any listed value has. -/
theorem equalRows_le
    (hUnlisted : ¬ outline.Listed point)
    (hMem : entry ∈ outline.common) :
    outline.equalRows point ≤ entry.2 := by
  by_cases hAbsent : outline.rest = [] ∨
      outline.Before point ∨ outline.Above point
  · rw [equalRows_absent hUnlisted hAbsent]
    exact_mod_cast outline.seen entry
      (List.mem_append_left _ hMem)
  · rw [equalRows_within hUnlisted hAbsent]
    exact average_le (fun hNone => hAbsent (.inl hNone)) hMem

theorem not_listed_of_above (hAbove : outline.Above point) :
    ¬ outline.Listed point := by
  intro hListed
  rcases List.mem_map.mp hListed with ⟨entry, hMem, rfl⟩
  exact lt_irrefl _
    (hAbove entry (List.mem_append_left _ hMem))

/- There is a listed value above a point below all. -/
theorem listed_above_of_before
    (hBefore : outline.Before point) :
    ∃ entry ∈ outline.common, point < entry.1 := by
  rcases List.exists_mem_of_ne_nil _ outline.nonempty with
    ⟨entry, hMem⟩
  exact ⟨entry, hMem,
    hBefore entry (List.mem_append_left _ hMem)⟩

theorem shared_le (point : ρ) :
    outline.tail * outline.share point ≤ outline.tail :=
  mul_le_of_le_one_right (Nat.cast_nonneg _)
    (outline.most point)

theorem below_mono (hLe : low ≤ high) :
    outline.below low ≤ outline.below high := by
  have hRows : (outline.rowsBelow low : ℚ) ≤
      outline.rowsBelow high :=
    Nat.cast_le.mpr (rowsBelow_mono hLe)
  have hShare := mul_le_mul_of_nonneg_left
    (outline.grows hLe) (Nat.cast_nonneg (α := ℚ) outline.tail)
  unfold below
  linarith

theorem below_le_upTo (point : ρ) :
    outline.below point ≤ outline.upTo point := by
  have hOne := outline.one_le_equalRows point
  unfold upTo
  linarith

--
-- Where the Counts Are in Order
--

/- The average of the values not listed finds room between the
   point and the end. -/
def Room (outline : Outline ρ) (point : ρ) : Prop :=
  outline.rest.length < 2 ∨ outline.Listed point ∨
    (∃ entry ∈ outline.common, point < entry.1) ∨
    outline.share point + 1 / outline.rest.length ≤ 1

/- A point above all values is one row too many, unless a
   single value is left out of the list. -/
def Kept (outline : Outline ρ) (low high : ρ) : Prop :=
  if outline.Above high then
    outline.rest.length = 1 ∧
      (outline.Above low ∨ outline.Listed low ∨
        (∃ entry ∈ outline.common, low < entry.1) ∨
        outline.tail ≤ 1)
  else outline.Room high

/- As far as the greatest value each point has no more rows up
   to it than the next. -/
theorem upTo_mono
    (hLess : low < high)
    (hHigh : ¬ outline.Above high) :
    outline.upTo low ≤ outline.upTo high := by
  have hBelow : outline.below low ≤ outline.below high :=
    below_mono hLess.le
  by_cases hListed : outline.Listed low
  · rcases List.mem_map.mp hListed with ⟨entry, hMem, rfl⟩
    have hRows := rowsBelow_add
      (p := fun key => decide (key < high)) hMem le_rfl
      (fun key hKey => decide_eq_true (hKey.trans hLess))
      (decide_eq_true hLess)
    have hRows : (outline.rowsBelow entry.1 : ℚ) + entry.2 ≤
        outline.rowsBelow high := by
      exact_mod_cast hRows
    have hShare := mul_le_mul_of_nonneg_left
      (outline.grows hLess.le)
      (Nat.cast_nonneg (α := ℚ) outline.tail)
    have hOne := outline.one_le_equalRows high
    unfold upTo below
    rw [equalRows_listed hMem]
    linarith
  by_cases hAbsent : outline.rest = [] ∨
      outline.Before low ∨ outline.Above low
  · have hOne := outline.one_le_equalRows high
    unfold upTo
    rw [equalRows_absent hListed hAbsent]
    linarith
  -- both are taken for the average, or the higher is listed
  have hAverage : outline.equalRows low ≤
      outline.equalRows high := by
    by_cases hHighListed : outline.Listed high
    · rcases List.mem_map.mp hHighListed with
        ⟨entry, hMem, rfl⟩
      rw [equalRows_listed hMem]
      exact equalRows_le hListed hMem
    · rw [equalRows_within hListed hAbsent,
        equalRows_within hHighListed]
      rintro (hNone | hBefore | hAbove)
      · exact hAbsent (.inl hNone)
      · exact hAbsent (.inr (.inl fun entry hMem =>
          hLess.trans (hBefore entry hMem)))
      · exact hHigh hAbove
  unfold upTo
  linarith

theorem upTo_le_of_listed_above
    (hUnlisted : ¬ outline.Listed point)
    (hMem : entry ∈ outline.common)
    (hLess : point < entry.1) :
    outline.rowsBelow point + outline.equalRows point ≤
      outline.listed := by
  have hRows : (outline.rowsBelow point : ℚ) + entry.2 ≤
      outline.listed := by
    exact_mod_cast rowsBelow_add_le_listed hMem hLess.le
  have hEqual := equalRows_le hUnlisted hMem
  linarith

theorem upTo_le_of_listed
    (hListed : outline.Listed point) :
    outline.rowsBelow point + outline.equalRows point ≤
      outline.listed := by
  rcases List.mem_map.mp hListed with ⟨entry, hMem, rfl⟩
  rw [equalRows_listed hMem]
  exact_mod_cast rowsBelow_add_le_listed hMem le_rfl

/- Neither listed nor below a listed value, and within the
   range: it has the average behind all that is listed. -/
theorem within_of_last
    (hUnlisted : ¬ outline.Listed point)
    (hNone : ¬ ∃ entry ∈ outline.common, point < entry.1)
    (hAbove : ¬ outline.Above point) :
    outline.rest ≠ [] ∧
      outline.rowsBelow point = outline.listed ∧
      outline.equalRows point =
        (outline.tail : ℚ) / outline.rest.length := by
  have hSome : outline.rest ≠ [] := by
    intro hNil
    refine hAbove fun entry hMem => ?_
    rw [hNil, List.append_nil] at hMem
    refine lt_of_le_of_ne (not_lt.mp fun hLess =>
      hNone ⟨entry, hMem, hLess⟩) ?_
    rintro rfl
    exact hUnlisted (List.mem_map_of_mem hMem)
  refine ⟨hSome, rowsBelow_eq_listed hUnlisted hNone,
    equalRows_within hUnlisted ?_⟩
  rintro (hNil | hBefore | hTop)
  · exact hSome hNil
  · exact hNone (listed_above_of_before hBefore)
  · exact hAbove hTop

theorem upTo_le_total
    (hAbove : ¬ outline.Above point)
    (hRoom : outline.Room point) :
    outline.upTo point ≤ outline.total := by
  have hShared := outline.shared_le point
  have hTotal := outline.total_cast
  unfold upTo below
  by_cases hListed : outline.Listed point
  · have hRows := upTo_le_of_listed hListed
    linarith
  by_cases hSome : ∃ entry ∈ outline.common, point < entry.1
  · rcases hSome with ⟨entry, hMem, hLess⟩
    have hRows := upTo_le_of_listed_above hListed hMem hLess
    linarith
  rcases within_of_last hListed hSome hAbove with
    ⟨hRest, hRows, hEqual⟩
  rw [hRows, hEqual]
  rcases hRoom with hFew | hIn | hBelow | hFits
  · have hOne : outline.rest.length = 1 := by
      have hPos := List.length_pos_of_ne_nil hRest
      omega
    rw [outline.few hFew, hOne]
    norm_num
    linarith
  · exact absurd hIn hListed
  · exact absurd hBelow hSome
  · have hScaled := mul_le_mul_of_nonneg_left hFits
      (Nat.cast_nonneg (α := ℚ) outline.tail)
    rw [mul_add, mul_one_div, mul_one] at hScaled
    linarith

theorem room_of_le_total
    (hAbove : ¬ outline.Above point)
    (hLe : outline.upTo point ≤ outline.total) :
    outline.Room point := by
  by_contra hRoom
  unfold Room at hRoom
  push Not at hRoom
  rcases hRoom with ⟨hMany, hListed, hNone, hFull⟩
  rcases within_of_last hListed (by push Not; exact hNone)
    hAbove with ⟨hRest, hRows, hEqual⟩
  have hTail : (0 : ℚ) < outline.tail := by
    have hLength := outline.length_le_tail
    exact Nat.cast_pos.mpr (by omega)
  have hScaled := mul_lt_mul_of_pos_left hFull hTail
  rw [mul_add, mul_one_div, mul_one] at hScaled
  have hTotal := outline.total_cast
  unfold upTo below at hLe
  rw [hRows, hEqual] at hLe
  linarith

/- Above all values there is one row more than is listed, and
   more than that where there is a histogram. -/
theorem upTo_above (hAbove : outline.Above point) :
    outline.upTo point =
      outline.listed + outline.tail * outline.share point +
        1 := by
  have hUnlisted := not_listed_of_above hAbove
  have hNone : ¬ ∃ entry ∈ outline.common,
      point < entry.1 := by
    rintro ⟨entry, hMem, hLess⟩
    exact lt_asymm hLess
      (hAbove entry (List.mem_append_left _ hMem))
  unfold upTo below
  rw [rowsBelow_eq_listed hUnlisted hNone,
    equalRows_absent hUnlisted (.inr (.inr hAbove))]

theorem one_left_of_above
    (hAbove : outline.Above point)
    (hLe : outline.upTo point ≤ outline.total) :
    outline.rest.length = 1 := by
  rw [upTo_above hAbove] at hLe
  have hTotal := outline.total_cast
  rcases Nat.lt_or_ge outline.rest.length 2 with hFew | hMany
  · by_contra hOther
    have hNil : outline.rest = [] :=
      List.eq_nil_of_length_eq_zero (by omega)
    have hTail : outline.tail = 0 := by
      unfold tail
      rw [hNil]
      rfl
    rw [hTotal, hTail] at hLe
    norm_num at hLe
  · rw [outline.after hMany point fun entry hMem =>
      hAbove entry (List.mem_append_right _ hMem)] at hLe
    linarith

/- With one value left out and the higher point above all. -/
theorem upTo_mono_above_iff
    (hAbove : outline.Above high)
    (hOne : outline.rest.length = 1) :
    outline.upTo low ≤ outline.upTo high ↔
      outline.Above low ∨ outline.Listed low ∨
        (∃ entry ∈ outline.common, low < entry.1) ∨
        outline.tail ≤ 1 := by
  have hShare := outline.few (by omega)
  have hLow : outline.upTo low =
      outline.rowsBelow low + outline.equalRows low := by
    unfold upTo below
    rw [hShare, mul_zero, add_zero]
  rw [upTo_above hAbove, hShare, mul_zero, add_zero, hLow]
  have hRows : (outline.rowsBelow low : ℚ) ≤
      outline.listed :=
    Nat.cast_le.mpr (rowsBelow_le_listed low)
  constructor
  · intro hUpTo
    by_contra hNot
    push Not at hNot
    rcases hNot with ⟨hTop, hListed, hNone, hTail⟩
    rcases within_of_last hListed (by push Not; exact hNone)
      hTop with ⟨_, hAll, hEqual⟩
    rw [hAll, hEqual, hOne, Nat.cast_one, div_one] at hUpTo
    have hTail : (1 : ℚ) < outline.tail :=
      Nat.one_lt_cast.mpr hTail
    linarith
  · rintro (hTop | hListed | ⟨entry, hMem, hLess⟩ | hTail)
    · rw [equalRows_absent (not_listed_of_above hTop)
        (.inr (.inr hTop))]
      linarith
    · have hFits := upTo_le_of_listed hListed
      linarith
    · by_cases hListed : outline.Listed low
      · have hFits := upTo_le_of_listed hListed
        linarith
      · have hFits := upTo_le_of_listed_above hListed hMem
          hLess
        linarith
    · by_cases hListed : outline.Listed low
      · have hFits := upTo_le_of_listed hListed
        linarith
      · have hEqual : outline.equalRows low ≤ 1 := by
          unfold equalRows
          rw [if_neg hListed]
          split
          · exact le_rfl
          · rw [hOne, Nat.cast_one, div_one]
            exact_mod_cast hTail
        linarith

/- The counts are in order exactly where there is room. -/
theorem inOrder_iff_kept (hLe : low ≤ high) :
    InOrder outline.below outline.upTo outline.total low
        high ↔
      outline.Kept low high := by
  unfold Kept
  constructor
  · intro hOrder
    split
    · rename_i hAbove
      have hOne := one_left_of_above hAbove hOrder.bounded.2.2
      exact ⟨hOne, (upTo_mono_above_iff hAbove hOne).mp
        hOrder.inclusive⟩
    · rename_i hAbove
      exact room_of_le_total hAbove hOrder.bounded.2.2
  · intro hKept
    have hBoth : outline.upTo low ≤ outline.upTo high ∧
        outline.upTo high ≤ outline.total := by
      split at hKept
      · rename_i hAbove
        refine ⟨(upTo_mono_above_iff hAbove hKept.1).mpr
          hKept.2, ?_⟩
        rw [upTo_above hAbove, outline.few (by omega),
          mul_zero, add_zero]
        have hTail := outline.length_le_tail
        have hTotal : outline.listed + 1 ≤ outline.total := by
          unfold total
          omega
        exact_mod_cast hTotal
      · rename_i hAbove
        refine ⟨?_, upTo_le_total hAbove hKept⟩
        rcases eq_or_lt_of_le hLe with rfl | hLess
        · exact le_rfl
        · exact upTo_mono hLess hAbove
    exact
      { strict := below_mono hLe
        inclusive := hBoth.1
        apart := ⟨below_le_upTo low, below_le_upTo high⟩
        bounded :=
          ⟨⟨(below_le_upTo low).trans
              (hBoth.1.trans hBoth.2),
            hBoth.1.trans hBoth.2⟩,
            (below_le_upTo high).trans hBoth.2, hBoth.2⟩ }

end Outline

end Optimizer

end ChenDB
