import ChenDB.Optimizer.ComparisonEstimates
import ChenDB.Optimizer.Shares

/-
  The estimates of `<` and `<=` over any column that has been
  analyzed, as counts over the places of its values, and where
  they are in order.
-/

--
-- What a Summary Leaves Out
--

namespace ChenDB

namespace Optimizer

open Executor (Binary64 FloatArithmetic asNumber
  noArithmetic place placeNumber place_asNumber
  strictMono_inlₗ)
open Indexing (DataType)
open Library.Tally
open Planner (Buckets ColumnStatistics Comparable Counter
  equiDepth equiDepth_buckets mem_equiDepth restOf
  restOf_perm statisticsTarget summarise summarise_complete
  summarise_splits unknownDistinct)
open Serialization (Codable)

section Summary

variable {ρ : Type} [LinearOrder ρ]
variable {counts : Counter ρ}

/- The list of a summary, the other values in their order, and
   the boundaries of those. -/
structure Divides
    (counts common rest : Counter ρ)
    (bounds : List ρ) : Prop where
  perm : (common ++ rest).Perm counts
  listed : counts ≠ [] → common ≠ []
  ordered : ∀ entry ∈ common, ∀ other ∈ rest, other.2 ≤ entry.2
  sorted : rest.Pairwise
    fun first second => first.1 < second.1
  few : rest.length < 2 → bounds = []
  many : 2 ≤ rest.length → Buckets rest statisticsTarget bounds
  drawn : ∀ bound ∈ bounds, bound ∈ rest.map Prod.fst

omit [LinearOrder ρ] in
theorem sum_pos_of_seen
    (hSeen : ∀ entry ∈ counts, 0 < entry.2)
    (hSome : counts ≠ []) :
    (counts.map Prod.snd).sum ≠ 0 := by
  rcases List.exists_mem_of_ne_nil _ hSome with ⟨entry, hMem⟩
  have hPos := hSeen entry hMem
  have hLe : entry.2 ≤ (counts.map Prod.snd).sum :=
    List.le_sum_of_mem (List.mem_map_of_mem hMem)
  omega

theorem summarise_divides
    (hNodup : (counts.map Prod.fst).Nodup)
    (hSeen : ∀ entry ∈ counts, 0 < entry.2) :
    Divides counts (summarise counts).1
      (restOf (summarise counts).1 counts)
      (summarise counts).2 := by
  rcases Nat.lt_or_ge statisticsTarget counts.length with
    hMany | hFew
  · rcases summarise_splits hNodup hMany with
      ⟨hSplits, hBounds⟩
    have hRest : ∀ entry ∈
        restOf (summarise counts).1 counts, 0 < entry.2 :=
      fun entry hMem => hSeen entry
        (hSplits.perm.mem_iff.mp
          (List.mem_append_right _ hMem))
    exact
      { perm := hSplits.perm
        listed := by
          intro _ hNone
          have hLength := hSplits.length
          rw [hNone] at hLength
          cases hLength
        ordered := hSplits.common
        sorted := hSplits.sorted
        few := by
          intro hShort
          rw [hBounds]
          unfold equiDepth
          simp only
          rw [if_pos (.inr hShort)]
        many := by
          intro hLong
          rw [hBounds]
          refine equiDepth_buckets (by decide) hSplits.sorted
            (sum_pos_of_seen hRest ?_) hLong
          rintro hNil
          rw [hNil] at hLong
          exact absurd hLong (by simp)
        drawn := by
          intro bound hMem
          rw [hBounds] at hMem
          exact mem_equiDepth hMem }
  · rcases summarise_complete hFew with ⟨hPerm, hBounds⟩
    have hNil : restOf (summarise counts).1 counts = [] := by
      have hBack : ((summarise counts).1 ++ []).Perm
          counts := by
        rw [List.append_nil]
        exact hPerm
      exact (restOf_perm hNodup hBack).eq_nil
    rw [hNil, hBounds]
    exact
      { perm := by
          rw [List.append_nil]
          exact hPerm
        listed := by
          intro hSome hNone
          rw [hNone] at hPerm
          exact hSome hPerm.nil_eq.symm
        ordered := by
          intro _ _ other hOther
          cases hOther
        sorted := .nil
        few := fun _ => rfl
        many := fun hLong => absurd hLong (by simp)
        drawn := by
          intro bound hMem
          cases hMem }

omit [LinearOrder ρ] in
theorem seen_tallied [DecidableEq ρ]
    {values : List ρ}
    {entry : ρ × ℕ}
    (hMem : entry ∈ tallied values) :
    0 < entry.2 := by
  rcases mem_tallied hMem with ⟨hThere, hCount⟩
  rw [hCount]
  exact List.count_pos_iff.mpr hThere

namespace Divides

variable {common rest : Counter ρ} {bounds : List ρ}

theorem increasing
    (hDivides : Divides counts common rest bounds) :
    bounds.Pairwise (· < ·) := by
  rcases Nat.lt_or_ge rest.length 2 with hFew | hMany
  · rw [hDivides.few hFew]
    exact .nil
  · exact (hDivides.many hMany).increasing

/- Between two values or more there is a bucket, and no more
   boundaries than values. -/
theorem length_bounds
    (hDivides : Divides counts common rest bounds)
    (hMany : 2 ≤ rest.length) :
    2 ≤ bounds.length ∧ bounds.length ≤ rest.length := by
  have hBuckets := hDivides.many hMany
  have hIncreasing := hDivides.increasing
  constructor
  · rcases rest with _ | ⟨start, _ | ⟨next, more⟩⟩
    · exact absurd hMany (by simp)
    · exact absurd hMany (by simp)
    have hHead := hBuckets.head
    have hLast := hBuckets.last
    have hApart : ∀ entry ∈ next :: more,
        start.1 < entry.1 :=
      (List.pairwise_cons.mp hDivides.sorted).1
    match bounds with
    | [] => cases hHead
    | [only] =>
      have hStart : only = start.1 := Option.some.inj hHead
      rw [List.map_cons, List.map_cons,
        List.getLast?_cons_cons] at hLast
      have hStop : only ∈ (next :: more).map Prod.fst :=
        List.mem_of_getLast? hLast.symm
      rcases List.mem_map.mp hStop with ⟨entry, hEntry, hSame⟩
      have hLess := hApart entry hEntry
      rw [hSame, hStart] at hLess
      exact absurd hLess (lt_irrefl _)
    | _ :: _ :: _ => simp
  · have hNodup : bounds.Nodup := hIncreasing.imp ne_of_lt
    have hLength := (hNodup.subperm
      hDivides.drawn).length_le
    rwa [List.length_map] at hLength

end Divides

end Summary

--
-- Parts of a Bucket
--

/- The number at a place, where there is a finite one. -/
def finiteAt
    (point : WithBot (WithTop ℤ) ⊕ₗ String) : Option ℤ :=
  match ofLex point with
  | .inl (WithBot.some (WithTop.some number)) => some number
  | _ => none

/- How far from one place to the next another is. -/
def bucketPart
    (point low high : WithBot (WithTop ℤ) ⊕ₗ String) : ℚ :=
  match finiteAt point, finiteAt low, finiteAt high with
  | some point, some low, some high =>
    if low < high then
      ((point : ℚ) - low) / ((high : ℚ) - low)
    else 1 / 2
  | _, _, _ => 1 / 2

/- The place of a number that is finite. -/
def finitePlace
    (number : ℤ) : WithBot (WithTop ℤ) ⊕ₗ String :=
  Sum.inlₗ ((number : WithTop ℤ) : WithBot (WithTop ℤ))

theorem finiteAt_inr (text : String) :
    finiteAt (Sum.inrₗ text) = none := rfl

variable {point : WithBot (WithTop ℤ) ⊕ₗ String} {number : ℤ}
variable {value : Codable}

theorem eq_finitePlace
    (hPoint : finiteAt point = some number) :
    point = finitePlace number := by
  unfold finiteAt at hPoint
  split at hPoint
  · rename_i found hFound
    cases hPoint
    exact hFound
  · cases hPoint

theorem finitePlace_le {left right : ℤ} :
    finitePlace left ≤ finitePlace right ↔ left ≤ right :=
  Sum.Lex.inl_le_inl_iff.trans
    (WithBot.coe_le_coe.trans WithTop.coe_le_coe)

/- Finite numbers, or texts. -/
def Alike
    (places : List (WithBot (WithTop ℤ) ⊕ₗ String)) : Prop :=
  (∀ bound ∈ places, ∃ number, bound = finitePlace number) ∨
    ∀ bound ∈ places, ∃ text, bound = Sum.inrₗ text

/- What is between two finite numbers is one. -/
theorem finite_between
    {low high : ℤ}
    (hLow : finitePlace low ≤ point)
    (hHigh : point < finitePlace high) :
    ∃ number, point = finitePlace number := by
  rcases hPoint : ofLex point with found | text
  · have hPoint : point = Sum.inlₗ found := hPoint
    subst hPoint
    have hLow := Sum.Lex.inl_le_inl_iff.mp hLow
    have hHigh := Sum.Lex.inl_lt_inl_iff.mp hHigh
    induction found using WithBot.recBotCoe with
    | bot => exact absurd hLow (by simp)
    | coe found =>
      induction found using WithTop.recTopCoe with
      | top =>
        exact absurd (WithBot.coe_lt_coe.mp hHigh)
          not_top_lt
      | coe number => exact ⟨number, rfl⟩
  · have hPoint : point = Sum.inrₗ text := hPoint
    subst hPoint
    exact absurd hHigh Sum.Lex.not_inr_lt_inl

theorem bucketPart_text
    {low high : WithBot (WithTop ℤ) ⊕ₗ String}
    (hLow : finiteAt low = none) :
    bucketPart point low high = 1 / 2 := by
  unfold bucketPart
  rw [hLow]
  split
  · rename_i hNone _
    cases hNone
  · rfl

theorem bucketPart_finite {point low high : ℤ} :
    bucketPart (finitePlace point) (finitePlace low)
        (finitePlace high) =
      if low < high then
        ((point : ℚ) - low) / ((high : ℚ) - low)
      else 1 / 2 := rfl

theorem bucketPart_half
    {low high : WithBot (WithTop ℤ) ⊕ₗ String}
    (hPoint : point ≤ low) :
    bucketPart point low high ≤ 1 / 2 := by
  unfold bucketPart
  split
  · rename_i first second third hFirst hSecond hThird
    split
    · rename_i hLess
      rw [eq_finitePlace hFirst, eq_finitePlace hSecond]
        at hPoint
      have hLe : first ≤ second := finitePlace_le.mp hPoint
      have hBelow : (first : ℚ) - second ≤ 0 :=
        sub_nonpos.mpr (Int.cast_le.mpr hLe)
      have hWide : (0 : ℚ) < third - second :=
        sub_pos.mpr (Int.cast_lt.mpr hLess)
      exact (div_nonpos_of_nonpos_of_nonneg hBelow
        hWide.le).trans (by norm_num)
    · exact le_rfl
  · exact le_rfl

theorem bucketPart_mono
    {bounds : List (WithBot (WithTop ℤ) ⊕ₗ String)}
    {first last start stop low high :
      WithBot (WithTop ℤ) ⊕ₗ String}
    (hAlike : Alike bounds)
    (hSpans : Spans bounds first last)
    (hStart : start ∈ bounds)
    (hStop : stop ∈ bounds)
    (hFirst : first < low)
    (hLe : low ≤ high)
    (hLast : high < last) :
    bucketPart low start stop ≤
      bucketPart high start stop := by
  have hFirstMem := List.mem_of_head? hSpans.head
  have hLastMem := List.mem_of_getLast? hSpans.last
  rcases hAlike with hNumbers | hTexts
  · rcases hNumbers first hFirstMem with ⟨first, rfl⟩
    rcases hNumbers last hLastMem with ⟨last, rfl⟩
    rcases hNumbers start hStart with ⟨start, rfl⟩
    rcases hNumbers stop hStop with ⟨stop, rfl⟩
    rcases finite_between hFirst.le
      (lt_of_le_of_lt hLe hLast) with ⟨low, rfl⟩
    rcases finite_between (hFirst.le.trans hLe) hLast with
      ⟨high, rfl⟩
    have hLe : low ≤ high := finitePlace_le.mp hLe
    rw [bucketPart_finite, bucketPart_finite]
    split
    · rename_i hWide
      have hWide : (0 : ℚ) < stop - start :=
        sub_pos.mpr (Int.cast_lt.mpr hWide)
      refine div_le_div_of_nonneg_right ?_ hWide.le
      exact sub_le_sub_right (Int.cast_le.mpr hLe) _
    · exact le_rfl
  · rcases hTexts start hStart with ⟨text, rfl⟩
    rw [bucketPart_text (finiteAt_inr text),
      bucketPart_text (finiteAt_inr text)]

/- The number that is at a finite place. -/
theorem exactly_place
    (hPlace : place value = finitePlace number) :
    (asNumber value).isSome = true ∧
      exactly value = number / 2 ^ 1074 := by
  cases hNumber : asNumber value with
  | none =>
    cases value with
    | null =>
      have hNone := strictMono_inlₗ.injective hPlace
      exact absurd hNone WithBot.bot_ne_coe
    | text text =>
      have hText : (Sum.inr text :
          WithBot (WithTop ℤ) ⊕ String) = Sum.inl _ :=
        hPlace
      cases hText
    | _ => cases hNumber
  | some found =>
    rw [place_asNumber hNumber] at hPlace
    have hSame := strictMono_inlₗ.injective hPlace
    refine ⟨rfl, ?_⟩
    unfold exactly
    rw [hNumber]
    cases found with
    | inl double =>
      unfold placeNumber Binary64.place at hSame
      simp only at hSame ⊢
      split at hSame
      · have hUnits := WithTop.coe_injective
          (WithBot.coe_injective hSame)
        rw [hUnits]
      · split at hSame
        · exact absurd hSame WithBot.bot_ne_coe
        · exact absurd (WithBot.coe_injective hSame)
            WithTop.top_ne_coe
    | inr integer =>
      have hScaled := WithTop.coe_injective
        (WithBot.coe_injective hSame)
      simp only
      rw [← hScaled, Int.cast_mul, Int.cast_pow, Int.cast_ofNat,
        mul_div_cancel_right₀ _ (by positivity)]

variable {low high : Codable}

theorem withinBucket_finite
    {point start stop : ℤ}
    (hValue : place value = finitePlace point)
    (hLow : place low = finitePlace start)
    (hHigh : place high = finitePlace stop) :
    withinBucket value low high =
      bucketPart (place value) (place low) (place high) := by
  rcases exactly_place hValue with ⟨hNumber, hPoint⟩
  rcases exactly_place hLow with ⟨hLowNumber, hStart⟩
  have hStop := (exactly_place hHigh).2
  have hUnit : (0 : ℚ) < 2 ^ 1074 := by positivity
  rw [hValue, hLow, hHigh, bucketPart_finite]
  unfold withinBucket
  simp only [hNumber, hLowNumber, hPoint, hStart, hStop,
    Bool.and_self, if_true, ← sub_div]
  simp only [div_pos_iff_of_pos_right hUnit, sub_pos,
    Int.cast_lt, div_div_div_cancel_right₀ hUnit.ne']

theorem withinBucket_text
    {text : String}
    (hLow : place low = Sum.inrₗ text) :
    withinBucket value low high =
      bucketPart (place value) (place low) (place high) := by
  have hNone : asNumber low = none := by
    cases hNumber : asNumber low with
    | none => rfl
    | some number =>
      rw [place_asNumber hNumber] at hLow
      have hText : (Sum.inl _ :
          WithBot (WithTop ℤ) ⊕ String) = Sum.inr text :=
        hLow
      cases hText
  rw [hLow, bucketPart_text (finiteAt_inr text)]
  unfold withinBucket
  rw [hNone]
  simp

/- Between two boundaries the part of a bucket that is below a
   value is that of the places. -/
theorem withinBucket_place
    {bounds : List Codable}
    {first last : Codable}
    (hAlike : Alike (bounds.map place))
    (hFirst : first ∈ bounds)
    (hLast : last ∈ bounds)
    (hLow : low ∈ bounds)
    (hHigh : high ∈ bounds)
    (hFrom : place first ≤ place value)
    (hTo : place value < place last) :
    withinBucket value low high =
      bucketPart (place value) (place low) (place high) := by
  rcases hAlike with hNumbers | hTexts
  · rcases hNumbers _ (List.mem_map_of_mem hFirst) with
      ⟨_, hFirstPlace⟩
    rcases hNumbers _ (List.mem_map_of_mem hLast) with
      ⟨_, hLastPlace⟩
    rcases hNumbers _ (List.mem_map_of_mem hLow) with
      ⟨_, hLowPlace⟩
    rcases hNumbers _ (List.mem_map_of_mem hHigh) with
      ⟨_, hHighPlace⟩
    rw [hFirstPlace] at hFrom
    rw [hLastPlace] at hTo
    rcases finite_between hFrom hTo with ⟨_, hValue⟩
    exact withinBucket_finite hValue hLowPlace hHighPlace
  · rcases hTexts _ (List.mem_map_of_mem hLow) with
      ⟨_, hLowPlace⟩
    exact withinBucket_text hLowPlace

theorem place_text
    (hSuits : Suits .text value) :
    ∃ text, place value = Sum.inrₗ text := by
  have hComparable := hSuits.1
  cases value with
  | text value => exact ⟨value, rfl⟩
  | _ => cases hComparable

section Comparisons

variable [FloatArithmetic] {dataType : DataType}

theorem place_finite
    (hSuits : Suits dataType value)
    (hFinite : value.finite = true)
    (hType : dataType ≠ .text) :
    ∃ number, place value = finitePlace number := by
  have hComparable := hSuits.1
  cases value with
  | null => exact absurd rfl hSuits.ne_null
  | bool value => exact ⟨_, rfl⟩
  | int value => exact ⟨_, rfl⟩
  | float value =>
    have hFinite : value.isFinite = true := hFinite
    refine ⟨value.units, ?_⟩
    show Sum.inlₗ (Binary64.place value) = _
    unfold Binary64.place
    rw [if_pos hFinite]
    rfl
  | text value =>
    cases dataType with
    | text => exact absurd rfl hType
    | _ => cases hComparable

theorem atMost_place
    {left right : Codable}
    (hLeft : Suits dataType left)
    (hRight : Suits dataType right) :
    atMost left right = decide (place left ≤ place right) := by
  have hRanks := suits_ranks dataType
  unfold atMost
  rw [hRanks.less hLeft hRight, hRanks.same hLeft hRight,
    ← Bool.decide_or]
  exact decide_eq_decide.mpr le_iff_lt_or_eq.symm

theorem wholeBuckets_place
    {bounds : List Codable}
    (hBounds : ∀ bound ∈ bounds, Suits dataType bound)
    (hValue : Suits dataType value) :
    wholeBuckets value bounds =
      ((bounds.map place).takeWhile fun bound =>
        decide (bound ≤ place value)).length := by
  induction bounds with
  | nil => rfl
  | cons bound rest ih =>
    have ih := ih fun other hOther =>
      hBounds other (.tail _ hOther)
    rw [wholeBuckets, atMost_place
      (hBounds bound (.head _)) hValue,
      List.map_cons, List.takeWhile_cons]
    split
    · rw [List.length_cons, ih]
    · rfl

end Comparisons


--
-- The Outline of a Column
--

namespace AnalyzedColumn

variable [FloatArithmetic] (analyzed : AnalyzedColumn)

/- The counts of the values that are not listed, by their
   places. -/
def rest : Counter (WithBot (WithTop ℤ) ⊕ₗ String) :=
  restOf (ranked place analyzed.info.mostCommon)
    (tallied analyzed.places)

theorem divides :
    Divides (tallied analyzed.places)
      (ranked place analyzed.info.mostCommon) analyzed.rest
      (analyzed.info.histogram.map place) := by
  have hDivides := summarise_divides
    (nodup_tallied analyzed.places)
    fun _ hMem => seen_tallied hMem
  have hSummary := analyzed.info_gathered.summary
  unfold places at hDivides
  rw [hSummary] at hDivides
  exact hDivides

theorem bound_suits
    {bound : Codable}
    (hMem : bound ∈ analyzed.info.histogram) :
    Suits analyzed.column.dataType bound :=
  analyzed.info_gathered.suits bound
    (analyzed.info_gathered.bounded bound hMem)

theorem alike :
    Alike (analyzed.info.histogram.map place) := by
  have hInfo := analyzed.info_gathered
  by_cases hType : analyzed.column.dataType = .text
  · refine .inr fun point hPoint => ?_
    rcases List.mem_map.mp hPoint with ⟨bound, hMem, rfl⟩
    exact place_text (hType ▸ analyzed.bound_suits hMem)
  · refine .inl fun point hPoint => ?_
    rcases List.mem_map.mp hPoint with ⟨bound, hMem, rfl⟩
    exact place_finite (analyzed.bound_suits hMem)
      (hInfo.finite bound (hInfo.bounded bound hMem)) hType

/- The list of the statistics and what it leaves out, with the
   share of the histogram. -/
def outline (hKnown : known analyzed.values ≠ []) :
    Outline (WithBot (WithTop ℤ) ⊕ₗ String) where
  common := ranked place analyzed.info.mostCommon
  rest := analyzed.rest
  once := (analyzed.divides.perm.map Prod.fst).nodup_iff.mpr
    (nodup_tallied analyzed.places)
  seen := fun _ hMem =>
    seen_tallied (analyzed.divides.perm.mem_iff.mp hMem)
  ordered := analyzed.divides.ordered
  nonempty := by
    refine analyzed.divides.listed fun hNone => hKnown ?_
    have hLength := length_tallied analyzed.places
    rw [hNone] at hLength
    exact List.map_eq_nil_iff.mp ((List.dedup_eq_nil _).mp
      (List.length_eq_zero_iff.mp hLength.symm))
  share := shareBelow bucketPart
    (analyzed.info.histogram.map place)
  grows := fun _ _ hLe => shareBelow_mono
    (fun _ _ hSpans _ hStart _ hStop _ _ hFirst hLe hLast =>
      bucketPart_mono analyzed.alike hSpans hStart hStop
        hFirst hLe hLast) hLe
  least := fun point => shareBelow_nonneg point
  most := fun point => shareBelow_le_one point
  few := by
    intro hFew point
    rw [analyzed.divides.few hFew]
    rfl
  after := by
    intro hMany point hAbove
    have hLong := (analyzed.divides.length_bounds hMany).1
    rcases spans_of_long hLong with ⟨first, last, hSpans⟩
    have hBelow : ∀ bound ∈
        analyzed.info.histogram.map place, bound < point := by
      intro bound hMem
      rcases List.mem_map.mp
        (analyzed.divides.drawn bound hMem) with
        ⟨entry, hEntry, rfl⟩
      exact hAbove entry hEntry
    rw [hSpans.share_eq, if_neg (not_le.mpr (hBelow first
      (List.mem_of_head? hSpans.head))), if_pos (hBelow last
        (List.mem_of_getLast? hSpans.last)).le]

section Known

variable {analyzed} (hKnown : known analyzed.values ≠ [])

/- The values counted are those that are known. -/
theorem forall_entries
    (P : WithBot (WithTop ℤ) ⊕ₗ String → Prop) :
    (∀ entry ∈ (analyzed.outline hKnown).common ++
        (analyzed.outline hKnown).rest, P entry.1) ↔
      ∀ other ∈ known analyzed.values, P (place other) := by
  have hPerm := analyzed.divides.perm
  constructor
  · intro hAll other hOther
    have hThere : place other ∈ analyzed.places :=
      List.mem_map_of_mem hOther
    rcases List.mem_map.mp
      ((mem_keys_tallied _).mpr hThere) with
      ⟨entry, hEntry, hSame⟩
    rw [← hSame]
    exact hAll entry (hPerm.mem_iff.mpr hEntry)
  · intro hAll entry hEntry
    rcases List.mem_map.mp
      (mem_tallied (hPerm.mem_iff.mp hEntry)).1 with
      ⟨other, hOther, hSame⟩
    rw [← hSame]
    exact hAll other hOther

include hKnown in
theorem listed_ne_nil :
    analyzed.info.mostCommon ≠ [] := by
  intro hNone
  refine (analyzed.outline hKnown).nonempty ?_
  show ranked place analyzed.info.mostCommon = []
  rw [hNone]
  rfl

include hKnown in
theorem listed_isEmpty :
    analyzed.info.mostCommon.isEmpty = false := by
  rw [Bool.eq_false_iff, ne_eq, List.isEmpty_iff]
  exact listed_ne_nil hKnown

theorem outline_listed :
    (analyzed.outline hKnown).listed =
      analyzed.info.mostCommonRows :=
  sum_ranked _

theorem outline_total :
    (analyzed.outline hKnown).total =
      (known analyzed.values).length := by
  have hSum := (analyzed.divides.perm.map Prod.snd).sum_eq
  rw [List.map_append, List.sum_append, sum_tallied,
    analyzed.length_places] at hSum
  exact hSum

theorem outline_distinct :
    Optimizer.distinct analyzed.values =
      analyzed.info.mostCommon.length +
        (analyzed.outline hKnown).rest.length := by
  have hLength := analyzed.divides.perm.length_eq
  rw [List.length_append, length_tallied, ranked,
    List.length_map] at hLength
  exact hLength.symm

theorem tailRows_eq :
    tailRows analyzed.info analyzed.stats.rowCount =
      (analyzed.outline hKnown).tail := by
  have hNulls := analyzed.info_gathered.nulls
  have hTotal := outline_total hKnown
  have hListed := outline_listed hKnown
  rw [analyzed.length_values, ← analyzed.counted] at hNulls
  unfold Outline.total at hTotal
  unfold tailRows
  omega

variable (hValue : Suits analyzed.column.dataType value)

include hValue in
/- The rows of the histogram that are below a literal. -/
theorem histogramRowsBelow_eq :
    histogramRowsBelow analyzed.info value
        analyzed.stats.rowCount =
      (analyzed.outline hKnown).tail *
        (analyzed.outline hKnown).share (place value) := by
  have hDivides := analyzed.divides
  rcases Nat.lt_or_ge analyzed.rest.length 2 with
    hFew | hMany
  · have hNone : analyzed.info.histogram = [] :=
      List.map_eq_nil_iff.mp (hDivides.few hFew)
    rw [(analyzed.outline hKnown).few hFew, mul_zero]
    unfold histogramRowsBelow
    rw [hNone]
    rfl
  have hLong : 2 ≤ analyzed.info.histogram.length := by
    have hLength := (hDivides.length_bounds hMany).1
    rwa [List.length_map] at hLength
  rcases spans_of_long hLong with ⟨first, last, hSpans⟩
  have hFirstMem := List.mem_of_head? hSpans.head
  have hLastMem := List.mem_of_getLast? hSpans.last
  have hPlaces : Spans (analyzed.info.histogram.map place)
      (place first) (place last) :=
    { head := by
        rw [List.head?_map, hSpans.head]
        rfl
      last := by
        rw [List.getLast?_map, hSpans.last]
        rfl
      long := by
        rw [List.length_map]
        exact hLong }
  have hTail := tailRows_eq hKnown
  have hSome : 2 ≤ (analyzed.outline hKnown).tail :=
    hMany.trans (analyzed.outline hKnown).length_le_tail
  show _ = _ * shareBelow bucketPart _ (place value)
  rw [hPlaces.share_eq]
  unfold histogramRowsBelow
  simp only
  rw [hSpans.head, hSpans.last, hTail]
  simp only
  rw [atMost_place hValue (analyzed.bound_suits hFirstMem),
    atMost_place (analyzed.bound_suits hLastMem) hValue]
  simp only [decide_eq_true_eq]
  rw [if_neg (by omega), if_neg (by omega)]
  split
  · rw [mul_zero]
  split
  · rw [mul_one, Int.cast_natCast]
  rename_i hFirst hLast
  have hWhole : wholeBuckets value
      analyzed.info.histogram.tail =
      wholeBelow (analyzed.info.histogram.map place)
        (place value) := by
    rw [wholeBuckets_place (fun bound hMem =>
      analyzed.bound_suits (List.mem_of_mem_tail hMem)) hValue,
      List.map_tail]
    rfl
  rcases partBelow_eq bucketPart hPlaces.last hPlaces.long
    (not_le.mp hLast) with
    ⟨_, _, _, _, hLow, hHigh, hPart⟩
  rw [List.getElem?_map] at hLow hHigh
  rcases Option.map_eq_some_iff.mp hLow with ⟨low, hLowAt, rfl⟩
  rcases Option.map_eq_some_iff.mp hHigh with
    ⟨high, hHighAt, rfl⟩
  rw [hWhole, hLowAt, hHighAt, hPart, List.length_map]
  simp only
  rw [withinBucket_place analyzed.alike hFirstMem hLastMem
    (List.mem_of_getElem? hLowAt)
    (List.mem_of_getElem? hHighAt) (not_le.mp hFirst).le
    (not_le.mp hLast), Int.cast_natCast]
  ring

include hValue in
/- Not listed, and known not to be there. -/
theorem absent_iff :
    (analyzed.info.coversEveryValue ||
        outsideRange analyzed.info value) = true ↔
      (analyzed.outline hKnown).rest = [] ∨
        (analyzed.outline hKnown).Before (place value) ∨
        (analyzed.outline hKnown).Above (place value) := by
  have hInfo := analyzed.info_gathered
  have hListed := listed_ne_nil hKnown
  have hCovers : analyzed.info.coversEveryValue = true ↔
      (analyzed.outline hKnown).rest = [] := by
    have hLength := outline_distinct hKnown
    have hPos := List.length_pos_of_ne_nil hListed
    unfold ColumnStatistics.coversEveryValue
    rw [← List.length_eq_zero_iff, Bool.and_eq_true,
      Bool.not_eq_true', Bool.eq_false_iff, ne_eq,
      List.isEmpty_iff, decide_eq_true_eq, hInfo.distinct]
    unfold unknownDistinct
    rw [and_iff_right hListed]
    omega
  rw [Bool.or_eq_true, hCovers, hInfo.outsideRange_iff hValue,
    and_iff_right hKnown]
  refine or_congr Iff.rfl (or_congr ?_ ?_)
  · exact (forall_entries hKnown fun other =>
      place value < other).symm
  · exact (forall_entries hKnown fun other =>
      other < place value).symm

include hValue in
theorem equalityFraction_eq :
    equalityFraction analyzed.info value
        analyzed.stats.rowCount =
      (analyzed.outline hKnown).equalRows (place value) /
        analyzed.stats.rowCount := by
  have hInfo := analyzed.info_gathered
  have hAbsentIff := absent_iff hKnown hValue
  unfold equalityFraction
  rw [if_neg analyzed.rowCount_ne_zero]
  cases hFind : analyzed.info.mostCommon.find? fun entry =>
      Comparable.same entry.1 value with
  | some entry =>
    have hMem : (place value, entry.2) ∈
        (analyzed.outline hKnown).common :=
      hInfo.find_some hValue hFind
    rw [Outline.equalRows_listed hMem]
  | none =>
    have hUnlisted :
        ¬ (analyzed.outline hKnown).Listed (place value) :=
      hInfo.find_none hValue hFind
    simp only
    split
    · rename_i hAbsent
      rw [Outline.equalRows_absent hUnlisted
        (hAbsentIff.mp hAbsent)]
      exact if_pos (Nat.pos_iff_ne_zero.mpr
        analyzed.rowCount_ne_zero)
    · rename_i hThere
      have hWithin := mt hAbsentIff.mpr hThere
      have hSome : (analyzed.outline hKnown).rest ≠ [] :=
        fun hNone => hWithin (.inl hNone)
      have hLength := outline_distinct hKnown
      have hPos := List.length_pos_of_ne_nil hSome
      have hTailDistinct :
          max ((analyzed.info.distinctCount : ℤ) -
            analyzed.info.mostCommon.length) 1 =
          (analyzed.outline hKnown).rest.length := by
        rw [hInfo.distinct]
        unfold unknownDistinct
        omega
      rw [listed_isEmpty hKnown, if_neg Bool.false_ne_true,
        hTailDistinct, tailRows_eq hKnown,
        max_eq_left (Int.natCast_nonneg _),
        Outline.equalRows_within hUnlisted hWithin,
        Int.cast_natCast, Int.cast_natCast, div_right_comm]

include hValue in
/- The counts of the outline, over all the rows. -/
theorem belowFraction_eq (inclusive : Bool) :
    belowFraction analyzed.info value
        analyzed.stats.rowCount inclusive =
      (if inclusive then
        (analyzed.outline hKnown).upTo (place value)
      else (analyzed.outline hKnown).below (place value)) /
        analyzed.stats.rowCount := by
  have hInfo := analyzed.info_gathered
  have hComparable : comparable analyzed.info.dataType
      value = true := by
    rw [hInfo.typed]
    exact hValue.1
  have hBelow : Library.Tally.rows (fun candidate =>
      Comparable.less candidate value)
      analyzed.info.mostCommon =
      (analyzed.outline hKnown).rowsBelow (place value) :=
    hInfo.listed_below hValue
  unfold belowFraction
  rw [if_neg analyzed.rowCount_ne_zero,
    listed_isEmpty hKnown, hComparable,
    hBelow, histogramRowsBelow_eq hKnown hValue,
    equalityFraction_eq hKnown hValue]
  unfold Outline.upTo
  unfold Outline.below
  cases inclusive with
  | true => simp [add_div]
  | false => simp

end Known

--
-- Where Ranges Are in Order
--

/- Every value that is known is below the literal. -/
def Beyond (value : Codable) : Prop :=
  ∀ other ∈ known analyzed.values,
    Comparable.less other value = true

/- A listed value is as high as the literal. -/
def ListedFrom (value : Codable) : Prop :=
  ∃ entry ∈ analyzed.info.mostCommon,
    atMost value entry.1 = true

/- How many different values are not listed. -/
def leftOut : ℕ :=
  Optimizer.distinct analyzed.values -
    analyzed.info.mostCommon.length

theorem leftOut_complete
    (hFew : Optimizer.distinct analyzed.values ≤
      statisticsTarget) :
    analyzed.leftOut = 0 := by
  have hLength :=
    (analyzed.info_gathered.complete hFew).1.length_eq
  rw [length_tallied, ranked, List.length_map] at hLength
  unfold leftOut Optimizer.distinct
  rw [hLength, Nat.sub_self]

/- With a histogram, a literal above the list is below the
   last bucket, or as far from its end as the average of the
   values that are not listed. -/
def HasRoom (value : Codable) : Prop :=
  analyzed.leftOut < 2 ∨ analyzed.ListedFrom value ∨
    ∃ front before last,
      analyzed.info.histogram = front ++ [before] ++ [last] ∧
      Comparable.less value last = true ∧
      (Comparable.less value before = true ∨
        (front.length : ℚ) + 1 ≤ analyzed.leftOut *
          (1 - min (max (withinBucket value before last) 0)
            1))

def RangesInOrder (low high : Codable) : Prop :=
  known analyzed.values = [] ∨
    (analyzed.Beyond high ∧ analyzed.leftOut = 1 ∧
      (analyzed.Beyond low ∨ analyzed.ListedFrom low ∨
        tailRows analyzed.info analyzed.stats.rowCount ≤ 1)) ∨
    (¬ analyzed.Beyond high ∧ analyzed.HasRoom high)

section Known

variable {analyzed} (hKnown : known analyzed.values ≠ [])
variable (hValue : Suits analyzed.column.dataType value)

theorem leftOut_eq :
    analyzed.leftOut =
      (analyzed.outline hKnown).rest.length := by
  have hDistinct := outline_distinct hKnown
  unfold leftOut
  omega

include hValue in
theorem beyond_iff :
    analyzed.Beyond value ↔
      (analyzed.outline hKnown).Above (place value) := by
  have hInfo := analyzed.info_gathered
  refine Iff.trans ?_ (forall_entries hKnown fun other =>
    other < place value).symm
  refine forall₂_congr fun other hOther => ?_
  rw [(suits_ranks _).less (hInfo.suits other hOther) hValue,
    decide_eq_true_eq]

include hValue in
theorem listedFrom_iff :
    analyzed.ListedFrom value ↔
      (analyzed.outline hKnown).Listed (place value) ∨
        ∃ entry ∈ (analyzed.outline hKnown).common,
          place value < entry.1 := by
  have hInfo := analyzed.info_gathered
  have hAtMost : ∀ entry ∈ analyzed.info.mostCommon,
      atMost value entry.1 =
        decide (place value ≤ place entry.1) :=
    fun entry hMem => atMost_place hValue
      (hInfo.suits _ (hInfo.listed entry hMem))
  constructor
  · rintro ⟨entry, hMem, hLe⟩
    rw [hAtMost entry hMem, decide_eq_true_eq] at hLe
    have hRanked : (place entry.1, entry.2) ∈
        (analyzed.outline hKnown).common :=
      List.mem_map_of_mem hMem
    rcases eq_or_lt_of_le hLe with hSame | hLess
    · refine .inl (hSame ▸ ?_)
      exact List.mem_map_of_mem (f := Prod.fst) hRanked
    · exact .inr ⟨_, hRanked, hLess⟩
  · rintro (hListed | ⟨found, hFound, hLess⟩)
    · rcases List.mem_map.mp hListed with
        ⟨found, hFound, hSame⟩
      rcases List.mem_map.mp hFound with ⟨entry, hMem, rfl⟩
      refine ⟨entry, hMem, ?_⟩
      rw [hAtMost entry hMem]
      exact decide_eq_true (le_of_eq hSame.symm)
    · rcases List.mem_map.mp hFound with ⟨entry, hMem, rfl⟩
      refine ⟨entry, hMem, ?_⟩
      rw [hAtMost entry hMem]
      exact decide_eq_true hLess.le

include hValue in
theorem share_room_iff
    (hMany : 2 ≤ (analyzed.outline hKnown).rest.length)
    {front : List Codable}
    {before last : Codable}
    (hBounds : analyzed.info.histogram =
      front ++ [before] ++ [last]) :
    (analyzed.outline hKnown).share (place value) +
        1 / (analyzed.outline hKnown).rest.length ≤ 1 ↔
      Comparable.less value last = true ∧
        (Comparable.less value before = true ∨
          (front.length : ℚ) + 1 ≤
            (analyzed.outline hKnown).rest.length *
              (1 - min (max (withinBucket value before last)
                0) 1)) := by
  have hPlaces : analyzed.info.histogram.map place =
      front.map place ++ [place before] ++ [place last] := by
    rw [hBounds, List.map_append, List.map_append]
    rfl
  have hSorted := analyzed.divides.increasing
  have hLength := (analyzed.divides.length_bounds hMany).2
  rw [hPlaces] at hSorted hLength
  have hValues : (front.map place).length + 2 ≤
      analyzed.rest.length := by simpa using hLength
  have hValues : (front.map place).length + 2 ≤
      (analyzed.outline hKnown).rest.length := hValues
  have hBeforeMem : before ∈ analyzed.info.histogram := by
    rw [hBounds]
    simp
  have hLastMem : last ∈ analyzed.info.histogram := by
    rw [hBounds]
    simp
  have hRanks := suits_ranks analyzed.column.dataType
  show shareBelow bucketPart _ (place value) + _ ≤ 1 ↔ _
  rw [hPlaces, shareBelow_room_iff hSorted hValues
      bucketPart_half,
    hRanks.less hValue (analyzed.bound_suits hBeforeMem),
    hRanks.less hValue (analyzed.bound_suits hLastMem),
    decide_eq_true_eq, decide_eq_true_eq, List.length_map]
  refine and_congr_right fun hLast => ?_
  refine or_congr_right' fun hBefore => ?_
  rw [withinBucket_place analyzed.alike hBeforeMem hLastMem
    hBeforeMem hLastMem (not_lt.mp hBefore) hLast]

/- A histogram ends with a bucket. -/
theorem last_bucket
    (hMany : 2 ≤ (analyzed.outline hKnown).rest.length) :
    ∃ front before last, analyzed.info.histogram =
      front ++ [before] ++ [last] := by
  have hLength := (analyzed.divides.length_bounds hMany).1
  rw [List.length_map] at hLength
  rcases List.eq_nil_or_concat analyzed.info.histogram with
    hNone | ⟨init, last, hInit⟩
  · rw [hNone] at hLength
    exact absurd hLength (by simp)
  rcases List.eq_nil_or_concat init with
    rfl | ⟨front, before, rfl⟩
  · rw [hInit] at hLength
    exact absurd hLength (by simp)
  · rw [List.concat_eq_append, List.concat_eq_append]
      at hInit
    exact ⟨front, before, last, hInit⟩

include hValue in
theorem hasRoom_iff :
    analyzed.HasRoom value ↔
      (analyzed.outline hKnown).Room (place value) := by
  unfold HasRoom Outline.Room
  rw [leftOut_eq hKnown, listedFrom_iff hKnown hValue, or_assoc]
  refine or_congr_right' fun hFew => ?_
  have hMany : 2 ≤ (analyzed.outline hKnown).rest.length :=
    not_lt.mp hFew
  refine or_congr_right (or_congr_right ?_)
  constructor
  · rintro ⟨front, before, last, hBounds, hRoom⟩
    exact (share_room_iff hKnown hValue hMany hBounds).mpr
      hRoom
  · intro hRoom
    rcases last_bucket hKnown hMany with
      ⟨front, before, last, hBounds⟩
    exact ⟨front, before, last, hBounds,
      (share_room_iff hKnown hValue hMany hBounds).mp hRoom⟩

theorem rangesInOrder_iff
    {low high : Codable}
    (hLow : Suits analyzed.column.dataType low)
    (hHigh : Suits analyzed.column.dataType high) :
    analyzed.RangesInOrder low high ↔
      (analyzed.outline hKnown).Kept (place low)
        (place high) := by
  unfold RangesInOrder Outline.Kept
  rw [or_iff_right hKnown, beyond_iff hKnown hHigh,
    beyond_iff hKnown hLow, hasRoom_iff hKnown hHigh,
    listedFrom_iff hKnown hLow, leftOut_eq hKnown,
    tailRows_eq hKnown, or_assoc]
  have hOne : ((analyzed.outline hKnown).tail : ℤ) ≤ 1 ↔
      (analyzed.outline hKnown).tail ≤ 1 := by
    omega
  rw [hOne]
  split
  · rename_i hAbove
    rw [and_iff_right hAbove,
      or_iff_left fun hNot => hNot.1 hAbove]
  · rename_i hAbove
    rw [and_iff_right hAbove,
      or_iff_right fun hNot => hAbove hNot.1]

end Known

/- The larger of the part that is not NULL and one row. -/
def mostRows : ℚ :=
  max (1 - analyzed.info.nullFraction analyzed.stats.rowCount)
    (oneRow analyzed.stats.rowCount)

theorem mostRows_eq (hKnown : known analyzed.values ≠ []) :
    analyzed.mostRows =
      (analyzed.outline hKnown).total /
        analyzed.stats.rowCount := by
  have hPos : 0 < analyzed.stats.rowCount :=
    Nat.pos_iff_ne_zero.mpr analyzed.rowCount_ne_zero
  have hOne : (1 : ℚ) ≤ (known analyzed.values).length :=
    Nat.one_le_cast.mpr (List.length_pos_of_ne_nil hKnown)
  unfold mostRows oneRow
  rw [outline_total hKnown, analyzed.nonNull_eq, if_pos hPos]
  exact max_eq_left
    (div_le_div_of_nonneg_right hOne (Nat.cast_nonneg _))

/- Nothing is expected of a column without values. -/
theorem belowFraction_unknown
    (hNone : known analyzed.values = [])
    (value : Codable)
    (inclusive : Bool) :
    belowFraction analyzed.info value
      analyzed.stats.rowCount inclusive = 0 := by
  have hInfo := analyzed.info_gathered
  have hListed : analyzed.info.mostCommon = [] := by
    refine List.eq_nil_iff_forall_not_mem.mpr
      fun entry hMem => ?_
    have hThere := hInfo.listed entry hMem
    rw [hNone] at hThere
    cases hThere
  have hHistogram : analyzed.info.histogram = [] := by
    refine List.eq_nil_iff_forall_not_mem.mpr
      fun bound hMem => ?_
    have hThere := hInfo.bounded bound hMem
    rw [hNone] at hThere
    cases hThere
  have hNonNull := analyzed.nonNull_eq
  rw [hNone, List.length_nil, Nat.cast_zero, zero_div]
    at hNonNull
  unfold belowFraction
  rw [if_neg analyzed.rowCount_ne_zero, hListed, hHistogram,
    hNonNull, zero_mul]
  rfl

end AnalyzedColumn

/- Over any number of rows. -/
theorem inOrder_scaled
    {α β : Type}
    {below upTo : α → ℚ}
    {part whole : β → ℚ}
    {bound rows : ℚ}
    (hRows : 0 < rows)
    {low high : α}
    {first last : β}
    (hLow : part first = below low / rows)
    (hHigh : part last = below high / rows)
    (hLowUpTo : whole first = upTo low / rows)
    (hHighUpTo : whole last = upTo high / rows) :
    InOrder part whole (bound / rows) first last ↔
      InOrder below upTo bound low high := by
  have hDiv : ∀ left right : ℚ,
      left / rows ≤ right / rows ↔ left ≤ right :=
    fun _ _ => div_le_div_iff_of_pos_right hRows
  simp only [inOrder_iff, hLow, hHigh, hLowUpTo, hHighUpTo,
    hDiv]

section Ranges

variable [FloatArithmetic]

/- The estimates of `<` and `<=` grow with the literal, the
   one within the other and both within the rows that are
   known, exactly where the row or the average that `<=` adds
   finds room. -/
theorem ranges_in_order_iff
    (analyzed : AnalyzedColumn)
    {low high : Codable}
    (hLow : Suits analyzed.column.dataType low)
    (hHigh : Suits analyzed.column.dataType high)
    (hLe : atMost low high = true) :
    InOrder
        (fun value => belowFraction analyzed.info value
          analyzed.stats.rowCount false)
        (fun value => belowFraction analyzed.info value
          analyzed.stats.rowCount true)
        analyzed.mostRows low high ↔
      analyzed.RangesInOrder low high := by
  by_cases hKnown : known analyzed.values = []
  · refine iff_of_true ?_ (.inl hKnown)
    have hBound : 0 ≤ analyzed.mostRows := by
      refine le_max_of_le_left ?_
      rw [analyzed.nonNull_eq]
      positivity
    simp only [inOrder_iff,
      analyzed.belowFraction_unknown hKnown]
    exact ⟨le_rfl, le_rfl, ⟨le_rfl, le_rfl⟩,
      ⟨hBound, hBound⟩, hBound, hBound⟩
  · have hPos : (0 : ℚ) < analyzed.stats.rowCount :=
      Nat.cast_pos.mpr (Nat.pos_iff_ne_zero.mpr
        analyzed.rowCount_ne_zero)
    have hPlaces : place low ≤ place high := by
      rw [atMost_place hLow hHigh] at hLe
      exact of_decide_eq_true hLe
    have hFraction : ∀ value inclusive,
        Suits analyzed.column.dataType value →
          belowFraction analyzed.info value
              analyzed.stats.rowCount inclusive =
            (if inclusive then
              (analyzed.outline hKnown).upTo (place value)
            else
              (analyzed.outline hKnown).below
                (place value)) / analyzed.stats.rowCount :=
      fun _ inclusive hSuits =>
        AnalyzedColumn.belowFraction_eq hKnown hSuits
          inclusive
    rw [AnalyzedColumn.rangesInOrder_iff hKnown hLow hHigh,
      analyzed.mostRows_eq hKnown,
      ← Outline.inOrder_iff_kept hPlaces]
    exact inOrder_scaled hPos (hFraction _ false hLow)
      (hFraction _ false hHigh) (hFraction _ true hLow)
      (hFraction _ true hHigh)

end Ranges

section OneAndThree

attribute [local instance] noArithmetic

/- As far as a listed value the estimates are in order. -/
theorem ranges_in_order_three :
    InOrder
      (fun value => belowFraction oneAndThree.info value
        oneAndThree.stats.rowCount false)
      (fun value => belowFraction oneAndThree.info value
        oneAndThree.stats.rowCount true)
      oneAndThree.mostRows (.int 2) (.int 3) := by
  refine (ranges_in_order_iff oneAndThree (suits_number 2)
    (suits_number 3) (by decide)).mpr (.inr (.inr ⟨?_, ?_⟩))
  · intro hBeyond
    exact absurd (hBeyond (.int 3) (by decide)) (by decide)
  · refine .inl ?_
    rw [oneAndThree.leftOut_complete distinct_oneAndThree]
    exact Nat.zero_lt_two

/- No value, 1 and 3. -/
def nullOneThreeRows : List (List Codable) :=
  [[.null], [.int 1], [.int 3]]

theorem nullOneThreeRows_ne_nil : nullOneThreeRows ≠ [] :=
  List.cons_ne_nil _ _

theorem fits_nullOneThreeRows :
    ∀ row ∈ nullOneThreeRows, Fits integers row := by
  intro row hRow
  rcases List.mem_cons.mp hRow with rfl | hRow
  · exact List.forall₂_cons.mpr
      ⟨⟨.inl rfl, rfl⟩, List.forall₂_nil_left_iff.mpr rfl⟩
  rcases List.mem_cons.mp hRow with rfl | hRow
  · exact fits_integer 1
  · rw [List.mem_singleton.mp hRow]
    exact fits_integer 3

theorem integers_first :
    integers.columns[0]? =
      some
        { name := "n"
          dataType := .integer
          nullable := true } := rfl

def nullOneThree : AnalyzedColumn :=
  AnalyzedColumn.ofRows integers nullOneThreeRows
    nullOneThreeRows_ne_nil fits_nullOneThreeRows 0
    integers_first

theorem suits_four :
    Suits nullOneThree.column.dataType
      (.int 4 : Codable) := ⟨rfl, rfl⟩

theorem distinct_nullOneThree :
    distinct nullOneThree.values ≤ statisticsTarget :=
  ((List.dedup_sublist _).length_le.trans
    (by decide : 2 ≤ statisticsTarget))

theorem occurrences_four :
    (nullOneThree.occurrences suits_four).below = 2 ∧
      (nullOneThree.occurrences suits_four).assumed = 1 ∧
      (nullOneThree.occurrences suits_four).rows = 3 := by
  decide

theorem mostRows_nullOneThree :
    nullOneThree.mostRows = 2 / 3 := by
  have hKnown : (known nullOneThree.values).length = 2 := by
    decide
  have hRows : nullOneThree.stats.rowCount = 3 := rfl
  unfold AnalyzedColumn.mostRows oneRow
  rw [nullOneThree.nonNull_eq, hKnown, hRows]
  norm_num

/- Two rows are known, and three are taken to be `<= 4`. -/
theorem beyond_all_overestimated :
    ¬ InOrder
        (fun value => belowFraction nullOneThree.info value
          nullOneThree.stats.rowCount false)
        (fun value => belowFraction nullOneThree.info value
          nullOneThree.stats.rowCount true)
        nullOneThree.mostRows (.int 4) (.int 4) ∧
      nullOneThree.mostRows <
        estimateSelectivity (some (numberAtMost 4))
          nullOneThree.stats := by
  have hRows : nullOneThree.stats.rowCount = 3 := rfl
  rcases occurrences_four with ⟨hBelow, hAssumed, hAll⟩
  constructor
  · intro hOrder
    have hBound := hOrder.bounded.2.2
    rw [nullOneThree.belowFraction_complete suits_four
      distinct_nullOneThree, hBelow, hAssumed, hRows,
      mostRows_nullOneThree] at hBound
    norm_num at hBound
  · have hEstimate := estimate_complete nullOneThree
      distinct_nullOneThree suits_four rfl rfl
      (isComparison_numberAtMost 4)
    unfold Occurrences.estimated Occurrences.counted
      at hEstimate
    rw [hBelow, hAssumed, hAll, hRows] at hEstimate
    rw [mostRows_nullOneThree]
    norm_num at hEstimate
    linarith

end OneAndThree

end Optimizer

end ChenDB
