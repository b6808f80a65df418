import Mathlib

/-
  Counting values: each different one is kept once, with how
  often it came. Which values are the same is up to the
  caller; where they are those of one rank, what is counted
  are the ranks.
-/

--
-- Counts
--

namespace Library

namespace Tally

variable {κ ρ : Type}

/- `counts[value] += 1`. -/
def add
    (same : κ → κ → Bool)
    (value : κ) : List (κ × ℕ) → List (κ × ℕ)
  | [] => [(value, 1)]
  | entry :: rest =>
    if same entry.1 value then
      (entry.1, entry.2 + 1) :: rest
    else entry :: add same value rest

def tally
    (same : κ → κ → Bool)
    (values : List κ) : List (κ × ℕ) :=
  values.foldl (fun counts value => add same value counts) []

/- How many of the counted values `p` holds of. -/
def rows (p : κ → Bool) (counts : List (κ × ℕ)) : ℕ :=
  ((counts.filter fun entry => p entry.1).map Prod.snd).sum

/- The sum of what each of the counted values weighs. -/
def weigh (f : κ → ℕ) (counts : List (κ × ℕ)) : ℕ :=
  (counts.map fun entry => entry.2 * f entry.1).sum

/- The same counts, of ranks. -/
def ranked
    (rank : κ → ρ)
    (counts : List (κ × ℕ)) : List (ρ × ℕ) :=
  counts.map fun entry => (rank entry.1, entry.2)

theorem tally_snoc
    (same : κ → κ → Bool)
    (values : List κ)
    (value : κ) :
    tally same (values ++ [value]) =
      add same value (tally same values) := by
  rw [tally, List.foldl_append]
  rfl

variable {same : κ → κ → Bool} {value : κ}
variable {counts : List (κ × ℕ)} {entry : κ × ℕ}

theorem mem_add
    (hMem : entry ∈ add same value counts) :
    entry.1 = value ∨ ∃ old ∈ counts, old.1 = entry.1 := by
  induction counts with
  | nil =>
    rw [add, List.mem_singleton] at hMem
    exact .inl (by rw [hMem])
  | cons first rest ih =>
    rw [add] at hMem
    split at hMem
    · rcases List.mem_cons.mp hMem with rfl | hMem
      · exact .inr ⟨first, .head _, rfl⟩
      · exact .inr ⟨entry, .tail _ hMem, rfl⟩
    · rcases List.mem_cons.mp hMem with rfl | hMem
      · exact .inr ⟨entry, .head _, rfl⟩
      · rcases ih hMem with hNew | ⟨old, hOld, hKey⟩
        · exact .inl hNew
        · exact .inr ⟨old, .tail _ hOld, hKey⟩

/- What is counted came by. -/
theorem drawn_tally
    {values : List κ}
    (hMem : entry ∈ tally same values) :
    entry.1 ∈ values := by
  induction values using List.reverseRecOn
    generalizing entry with
  | nil => cases hMem
  | append_singleton values value ih =>
    rw [tally_snoc] at hMem
    rcases mem_add hMem with hNew | ⟨old, hOld, hKey⟩
    · rw [hNew]
      exact List.mem_append_right _ (.head _)
    · rw [← hKey]
      exact List.mem_append_left _ (ih hOld)

--
-- Rows
--

section Rows

variable {p q : κ → Bool} {counts more : List (κ × ℕ)}

theorem rows_cons
    (p : κ → Bool)
    (entry : κ × ℕ)
    (counts : List (κ × ℕ)) :
    rows p (entry :: counts) =
      (if p entry.1 then entry.2 else 0) + rows p counts := by
  unfold rows
  cases hHolds : p entry.1 <;> simp [hHolds]

theorem rows_append
    (p : κ → Bool)
    (counts more : List (κ × ℕ)) :
    rows p (counts ++ more) =
      rows p counts + rows p more := by
  simp [rows]

theorem rows_perm
    (p : κ → Bool)
    (hPerm : counts.Perm more) :
    rows p counts = rows p more :=
  ((hPerm.filter _).map _).sum_eq

theorem weigh_perm
    (f : κ → ℕ)
    (hPerm : counts.Perm more) :
    weigh f counts = weigh f more :=
  (hPerm.map _).sum_eq

theorem rows_congr
    (hSame : ∀ entry ∈ counts, p entry.1 = q entry.1) :
    rows p counts = rows q counts := by
  unfold rows
  rw [List.filter_congr hSame]

/- What more values hold, more rows do. -/
theorem rows_mono
    (hMore : ∀ entry ∈ counts,
      p entry.1 = true → q entry.1 = true) :
    rows p counts ≤ rows q counts := by
  induction counts with
  | nil => exact Nat.le_refl _
  | cons entry rest ih =>
    rw [rows_cons, rows_cons]
    have hRest := ih fun other hOther =>
      hMore other (.tail _ hOther)
    have hEntry := hMore entry (.head _)
    cases hHolds : p entry.1 with
    | true =>
      rw [hEntry hHolds]
      omega
    | false =>
      simp only [Bool.false_eq_true, if_false]
      omega

/- Rows of two kinds that exclude each other. -/
theorem rows_or
    (hApart : ∀ entry ∈ counts,
      p entry.1 = true → q entry.1 = false) :
    rows (fun value => p value || q value) counts =
      rows p counts + rows q counts := by
  induction counts with
  | nil => rfl
  | cons entry rest ih =>
    rw [rows_cons, rows_cons, rows_cons,
      ih fun other hOther =>
        hApart other (.tail _ hOther)]
    have hEntry := hApart entry (.head _)
    cases hHolds : p entry.1 with
    | true =>
      rw [hEntry hHolds]
      simp only [Bool.or_false, if_true,
        Bool.false_eq_true, if_false]
      omega
    | false =>
      simp only [Bool.false_or, Bool.false_eq_true,
        if_false]
      omega

theorem rows_none
    (hNone : ∀ entry ∈ counts, p entry.1 = false) :
    rows p counts = 0 := by
  unfold rows
  rw [List.filter_eq_nil_iff.mpr fun entry hMem => by
    rw [hNone entry hMem]
    exact Bool.false_ne_true]
  rfl

theorem rows_all
    (hAll : ∀ entry ∈ counts, p entry.1 = true) :
    rows p counts = (counts.map Prod.snd).sum := by
  unfold rows
  rw [List.filter_eq_self.mpr hAll]

theorem rows_le (p : κ → Bool) (counts : List (κ × ℕ)) :
    rows p counts ≤ (counts.map Prod.snd).sum := by
  rw [← rows_all (p := fun _ => true) fun _ _ => rfl]
  exact rows_mono fun _ _ _ => rfl

theorem rows_ranked
    (rank : κ → ρ)
    {q : ρ → Bool}
    (hSame : ∀ entry ∈ counts, p entry.1 = q (rank entry.1)) :
    rows p counts = rows q (ranked rank counts) := by
  induction counts with
  | nil => rfl
  | cons entry rest ih =>
    rw [ranked, List.map_cons, rows_cons, rows_cons,
      hSame entry (.head _),
      ih fun other hOther =>
        hSame other (.tail _ hOther)]
    rfl

theorem rows_eq_weigh
    (p : κ → Bool)
    (counts : List (κ × ℕ)) :
    rows p counts =
      weigh (fun value => if p value then 1 else 0)
        counts := by
  induction counts with
  | nil => rfl
  | cons entry rest ih =>
    rw [rows_cons, ih]
    unfold weigh
    rw [List.map_cons, List.sum_cons, mul_ite,
      Nat.mul_one, Nat.mul_zero]

end Rows

theorem weigh_add
    {f : κ → ℕ}
    (hRespects : ∀ entry ∈ counts,
      same entry.1 value = true → f entry.1 = f value) :
    weigh f (add same value counts) =
      weigh f counts + f value := by
  induction counts with
  | nil => simp [add, weigh]
  | cons entry rest ih =>
    have hRest := ih fun other hOther =>
      hRespects other (.tail _ hOther)
    rw [add]
    unfold weigh at hRest ⊢
    split
    · rename_i hSame
      rw [List.map_cons, List.sum_cons, List.map_cons,
        List.sum_cons, Nat.add_mul, Nat.one_mul,
        hRespects entry (.head _) hSame]
      omega
    · rw [List.map_cons, List.sum_cons, List.map_cons,
        List.sum_cons, hRest, Nat.add_assoc]

--
-- Ranks
--

theorem weigh_ranked
    (rank : κ → ρ)
    (f : ρ → ℕ)
    (counts : List (κ × ℕ)) :
    weigh f (ranked rank counts) =
      (counts.map fun entry =>
        entry.2 * f (rank entry.1)).sum := by
  unfold weigh ranked
  rw [List.map_map]
  rfl

section Ranked

variable [DecidableEq ρ] {rank : κ → ρ}

/- Counting what is equal. -/
abbrev tallied (values : List ρ) : List (ρ × ℕ) :=
  tally (fun first second => decide (first = second)) values

variable {same : κ → κ → Bool}

theorem ranked_add
    {value : κ}
    {counts : List (κ × ℕ)}
    (hSame : ∀ entry ∈ counts,
      same entry.1 value = decide (rank entry.1 = rank value)) :
    ranked rank (add same value counts) =
      add (fun first second => decide (first = second))
        (rank value) (ranked rank counts) := by
  induction counts with
  | nil => rfl
  | cons entry rest ih =>
    have hRest := ih fun other hOther =>
      hSame other (.tail _ hOther)
    have hEntry := hSame entry (.head _)
    unfold ranked at hRest ⊢
    rw [add, List.map_cons, add, hEntry]
    split
    · rfl
    · rw [List.map_cons, hRest]

/- Where the same are those of one rank, ranks are counted. -/
theorem ranked_tally
    {values : List κ}
    (hSame : ∀ first ∈ values, ∀ second ∈ values,
      same first second = decide (rank first = rank second)) :
    ranked rank (tally same values) =
      tallied (values.map rank) := by
  induction values using List.reverseRecOn with
  | nil => rfl
  | append_singleton values value ih =>
    have hBefore := ih fun first hFirst second hSecond =>
      hSame first (List.mem_append_left _ hFirst)
        second (List.mem_append_left _ hSecond)
    rw [List.map_append, List.map_singleton, tallied,
      tally_snoc, tally_snoc, ranked_add, hBefore]
    intro entry hMem
    exact hSame entry.1
      (List.mem_append_left _ (drawn_tally hMem)) value
      (List.mem_append_right _ (.head _))

end Ranked

--
-- Counting What Is Equal
--

section Tallied

variable [DecidableEq ρ] {values : List ρ}

theorem keys_add (value : ρ) (counts : List (ρ × ℕ)) :
    (add (fun first second => decide (first = second))
        value counts).map Prod.fst =
      if value ∈ counts.map Prod.fst then
        counts.map Prod.fst
      else counts.map Prod.fst ++ [value] := by
  induction counts with
  | nil => simp [add]
  | cons entry rest ih =>
    rw [add]
    by_cases hSame : entry.1 = value
    · simp [hSame]
    · have hOther : value ≠ entry.1 := Ne.symm hSame
      rw [if_neg (by simpa using hSame), List.map_cons, ih,
        List.map_cons]
      by_cases hMem : value ∈ rest.map Prod.fst
      · rw [if_pos hMem,
          if_pos (.tail _ hMem)]
      · rw [if_neg hMem, if_neg (by
          rw [List.mem_cons]
          exact not_or.mpr ⟨hOther, hMem⟩),
          List.cons_append]

theorem mem_keys_tallied (value : ρ) :
    value ∈ (tallied values).map Prod.fst ↔
      value ∈ values := by
  induction values using List.reverseRecOn with
  | nil => rfl
  | append_singleton values last ih =>
    rw [tallied, tally_snoc, keys_add]
    split
    · rename_i hMem
      rw [ih, List.mem_append, List.mem_singleton]
      refine ⟨.inl, ?_⟩
      rintro (hOld | rfl)
      · exact hOld
      · exact ih.mp hMem
    · rw [List.mem_append, ih, List.mem_append]

theorem nodup_tallied (values : List ρ) :
    ((tallied values).map Prod.fst).Nodup := by
  induction values using List.reverseRecOn with
  | nil => exact List.nodup_nil
  | append_singleton values value ih =>
    rw [tallied, tally_snoc, keys_add]
    split
    · exact ih
    · rename_i hNew
      exact List.nodup_append.mpr
        ⟨ih, List.nodup_singleton _, by
          intro old hOld other hOther hSame
          rw [List.mem_singleton] at hOther
          exact hNew (hOther ▸ hSame ▸ hOld)⟩

theorem weigh_tallied (f : ρ → ℕ) (values : List ρ) :
    weigh f (tallied values) = (values.map f).sum := by
  induction values using List.reverseRecOn with
  | nil => rfl
  | append_singleton values value ih =>
    rw [tallied, tally_snoc, weigh_add, ih, List.map_append,
      List.sum_append, List.map_singleton,
      List.sum_singleton]
    intro entry _ hSame
    rw [of_decide_eq_true hSame]

theorem rows_tallied (p : ρ → Bool) (values : List ρ) :
    rows p (tallied values) = values.countP p := by
  rw [rows_eq_weigh, weigh_tallied]
  induction values with
  | nil => rfl
  | cons value rest ih =>
    rw [List.map_cons, List.sum_cons, ih, List.countP_cons]
    omega

variable {entry : ρ × ℕ}

/- Of keys that differ, one alone has the count of its own. -/
theorem rows_eq_of_mem
    {counts : List (ρ × ℕ)}
    (hNodup : (counts.map Prod.fst).Nodup)
    (hMem : entry ∈ counts) :
    rows (fun value => decide (value = entry.1)) counts =
      entry.2 := by
  induction counts with
  | nil => cases hMem
  | cons first rest ih =>
    rw [List.map_cons, List.nodup_cons] at hNodup
    rw [rows_cons]
    rcases List.mem_cons.mp hMem with rfl | hMem
    · have hNone : ∀ other ∈ rest,
          decide (other.1 = entry.1) = false := by
        intro other hOther
        refine decide_eq_false fun hSame => hNodup.1 ?_
        rw [← hSame]
        exact List.mem_map_of_mem hOther
      rw [rows_none hNone]
      simp
    · rw [ih hNodup.2 hMem, if_neg]
      · exact Nat.zero_add _
      · intro hSame
        have hKey := of_decide_eq_true hSame
        exact hNodup.1
          (hKey ▸ List.mem_map_of_mem hMem)

theorem mem_tallied
    (hMem : entry ∈ tallied values) :
    entry.1 ∈ values ∧ entry.2 = values.count entry.1 := by
  refine ⟨drawn_tally hMem, ?_⟩
  rw [← rows_eq_of_mem (nodup_tallied values) hMem,
    rows_tallied]
  rfl

/- There are as many as there are different values. -/
theorem length_tallied (values : List ρ) :
    (tallied values).length = values.dedup.length := by
  have hPerm : ((tallied values).map Prod.fst).Perm
      values.dedup :=
    (List.perm_ext_iff_of_nodup (nodup_tallied values)
      (List.nodup_dedup values)).mpr fun value =>
        (mem_keys_tallied value).trans List.mem_dedup.symm
  rw [← List.length_map Prod.fst]
  exact hPerm.length_eq

end Tallied

end Tally

end Library
