import Mathlib.Data.List.Perm.Basic
import Mathlib.Data.List.Perm.Lattice

/-
  Outer joins of lists of rows, and chains of them. Rows that
  a later filter is bound to drop may come and go without any
  change to what is left after it.
-/

--
-- Outer Joins
--

namespace Library

namespace OuterJoin

variable {ρ : Type}

/- The partners of one row on the left, put together with
   it. -/
def partners
    (merge : ρ → ρ → ρ)
    (holds : ρ → Bool)
    (rights : List ρ)
    (left : ρ) : List ρ :=
  (rights.map (merge left)).filter holds

/- What one row on the left comes to. -/
def extend
    (merge : ρ → ρ → ρ)
    (holds : ρ → Bool)
    (keepLeft : Bool)
    (rights : List ρ)
    (left : ρ) : List ρ :=
  if keepLeft && (partners merge holds rights left).isEmpty
  then [left]
  else partners merge holds rights left

/- The rows on the right that nothing on the left matches. -/
def unmatched
    (merge : ρ → ρ → ρ)
    (holds : ρ → Bool)
    (lefts rights : List ρ) : List ρ :=
  rights.filter fun right =>
    lefts.all fun left => !holds (merge left right)

def outerJoin
    (merge : ρ → ρ → ρ)
    (holds : ρ → Bool)
    (keepLeft keepRight : Bool)
    (lefts rights : List ρ) : List ρ :=
  lefts.flatMap (extend merge holds keepLeft rights) ++
    if keepRight then unmatched merge holds lefts rights
    else []

/- The rows on the right no index was noted for. -/
theorem unmatched_eq
    {merge : ρ → ρ → ρ}
    {holds : ρ → Bool}
    {lefts rights : List ρ}
    {matched : List Nat}
    (hMatched : ∀ position, position ∈ matched ↔
      ∃ left ∈ lefts, ∃ right,
        (right, position) ∈ rights.zipIdx ∧
        holds (merge left right) = true) :
    (rights.zipIdx.filter fun entry =>
        entry.2 ∉ matched).map Prod.fst =
      unmatched merge holds lefts rights := by
  have hSame : (rights.zipIdx.filter fun entry =>
        decide (entry.2 ∉ matched)) =
      rights.zipIdx.filter ((fun right =>
        lefts.all fun left =>
          !holds (merge left right)) ∘
            Prod.fst) := by
    apply List.filter_congr
    intro entry hEntry
    rw [Bool.eq_iff_iff, decide_eq_true_eq,
      Function.comp_apply, List.all_eq_true, hMatched]
    simp only [Bool.not_eq_true', not_exists, not_and,
      Bool.not_eq_true]
    constructor
    · exact fun hNone left hLeft =>
        hNone left hLeft entry.1 hEntry
    · intro hAll left hLeft right hRight
      have hRow : right = entry.1 := by
        rcases List.mem_zipIdx_iff_getElem?.mp hRight with hR
        rcases List.mem_zipIdx_iff_getElem?.mp hEntry with hE
        simp only at hR
        rw [hR, Option.some.injEq] at hE
        exact hE
      rw [hRow]
      exact hAll left hLeft
  unfold unmatched
  rw [hSame, ← List.filter_map, List.zipIdx_map_fst]

/- One join of a chain. -/
structure Step (ρ : Type) where
  merge : ρ → ρ → ρ
  holds : ρ → Bool
  keepLeft : Bool
  keepRight : Bool
  rights : List ρ

namespace Step

def run (step : Step ρ) (lefts : List ρ) : List ρ :=
  outerJoin step.merge step.holds step.keepLeft
    step.keepRight lefts step.rights

def runChain (steps : List (Step ρ)) (rows : List ρ) :
    List ρ :=
  steps.foldl (fun rows step => step.run rows) rows

end Step

--
-- Doomed Rows
--

/- A join keeps doomed rows doomed, and has nothing but such
   rows on the right. -/
structure Dooms
    (step : Step ρ)
    (doomed : ρ → Prop) : Prop where
  merged : ∀ left right, doomed left →
    right ∈ step.rights → doomed (step.merge left right)
  right : ∀ right ∈ step.rights, doomed right

/- Two lists have the same rows but for doomed ones. -/
def AgreeUpTo
    (doomed : ρ → Prop)
    (first second : List ρ) : Prop :=
  ∃ common extra other,
    first.Perm (common ++ extra) ∧
      second.Perm (common ++ other) ∧
      (∀ row ∈ extra, doomed row) ∧
      ∀ row ∈ other, doomed row

section Rows

variable {doomed : ρ → Prop}

variable {step : Step ρ} {left : ρ}

theorem partners_eq_nil
    (hDooms : Dooms step doomed)
    (hRejects : ∀ row, doomed row → step.holds row = false)
    (hLeft : doomed left) :
    partners step.merge step.holds step.rights left = [] := by
  unfold partners
  rw [List.filter_eq_nil_iff]
  intro row hRow
  rcases List.mem_map.mp hRow with ⟨right, hRight, rfl⟩
  simp [hRejects _ (hDooms.merged left right hLeft hRight)]

variable {row : ρ}

theorem doomed_of_extend
    (hDooms : Dooms step doomed)
    (hLeft : doomed left)
    (hRow : row ∈ extend step.merge step.holds step.keepLeft
      step.rights left) :
    doomed row := by
  unfold extend at hRow
  split at hRow
  · rw [List.mem_singleton] at hRow
    rw [hRow]
    exact hLeft
  · unfold partners at hRow
    rcases List.mem_map.mp (List.mem_of_mem_filter hRow) with
      ⟨right, hRight, rfl⟩
    exact hDooms.merged left right hLeft hRight

variable {lefts : List ρ}

theorem doomed_of_unmatched
    (hDooms : Dooms step doomed)
    (hRow : row ∈ if step.keepRight then
      unmatched step.merge step.holds lefts step.rights
      else []) :
    doomed row := by
  split at hRow
  · exact hDooms.right row (List.mem_of_mem_filter hRow)
  · cases hRow

/- Doomed rows on the left leave nothing but doomed rows. -/
theorem doomed_of_run
    (hDooms : Dooms step doomed)
    (hLefts : ∀ left ∈ lefts, doomed left) :
    ∀ row ∈ step.run lefts, doomed row := by
  intro row hRow
  rcases List.mem_append.mp hRow with hLeft | hRight
  · rcases List.mem_flatMap.mp hLeft with
      ⟨left, hMem, hExtend⟩
    exact doomed_of_extend hDooms (hLefts left hMem) hExtend
  · exact doomed_of_unmatched hDooms hRight

variable {lefts' : List ρ}

theorem unmatched_perm
    (merge : ρ → ρ → ρ)
    (holds : ρ → Bool)
    (hPerm : lefts.Perm lefts')
    (rights : List ρ) :
    unmatched merge holds lefts rights =
      unmatched merge holds lefts' rights := by
  unfold unmatched
  apply List.filter_congr
  intro right _
  rw [Bool.eq_iff_iff, List.all_eq_true, List.all_eq_true]
  exact ⟨fun hAll left hMem => hAll left (hPerm.mem_iff.mpr
    hMem), fun hAll left hMem => hAll left
      (hPerm.mem_iff.mp hMem)⟩

theorem run_perm
    (step : Step ρ)
    (hPerm : lefts.Perm lefts') :
    (step.run lefts).Perm (step.run lefts') := by
  unfold Step.run outerJoin
  rw [unmatched_perm step.merge step.holds hPerm]
  exact (hPerm.flatMap_right _).append_right _

theorem runChain_perm
    (steps : List (Step ρ))
    (hPerm : lefts.Perm lefts') :
    (Step.runChain steps lefts).Perm
      (Step.runChain steps lefts') := by
  induction steps generalizing lefts lefts' with
  | nil => exact hPerm
  | cons step rest ih => exact ih (run_perm step hPerm)

variable {first second : List ρ}

theorem AgreeUpTo.run
    (hDooms : Dooms step doomed)
    (hAgree : AgreeUpTo doomed first second) :
    AgreeUpTo doomed (step.run first) (step.run second) := by
  rcases hAgree with
    ⟨common, extra, other, hFirst, hSecond, hExtra, hOther⟩
  have hOne : ∀ {rows more : List ρ},
      rows.Perm (common ++ more) →
        (∀ row ∈ more, doomed row) →
        ∃ rest, (step.run rows).Perm
            (common.flatMap (extend step.merge step.holds
              step.keepLeft step.rights) ++ rest) ∧
          ∀ row ∈ rest, doomed row := by
    intro rows more hRows hMore
    refine ⟨more.flatMap (extend step.merge step.holds
      step.keepLeft step.rights) ++
        (if step.keepRight then unmatched step.merge
          step.holds (common ++ more) step.rights else []),
      ?_, ?_⟩
    · apply (run_perm step hRows).trans
      unfold Step.run outerJoin
      rw [List.flatMap_append, List.append_assoc]
    · intro row hRow
      rcases List.mem_append.mp hRow with hLeft | hRight
      · rcases List.mem_flatMap.mp hLeft with
          ⟨left, hMem, hExtend⟩
        exact doomed_of_extend hDooms (hMore left hMem)
          hExtend
      · exact doomed_of_unmatched hDooms hRight
  rcases hOne hFirst hExtra with ⟨rest, hRest, hDoomed⟩
  rcases hOne hSecond hOther with ⟨rest', hRest', hDoomed'⟩
  exact ⟨_, rest, rest', hRest, hRest', hDoomed, hDoomed'⟩

/- A join that drops what it does not match, on a condition
   no doomed row meets, does away with the difference. -/
theorem AgreeUpTo.rejected
    (hDooms : Dooms step doomed)
    (hDrops : step.keepLeft = false)
    (hRejects : ∀ row, doomed row → step.holds row = false)
    (hAgree : AgreeUpTo doomed first second) :
    (step.run first).Perm (step.run second) := by
  rcases hAgree with
    ⟨common, extra, other, hFirst, hSecond, hExtra, hOther⟩
  have hOne : ∀ {rows more : List ρ},
      rows.Perm (common ++ more) →
        (∀ row ∈ more, doomed row) →
        (step.run rows).Perm (step.run common) := by
    intro rows more hRows hMore
    apply (run_perm step hRows).trans
    have hNone : more.flatMap (extend step.merge step.holds
        step.keepLeft step.rights) = [] := by
      rw [List.flatMap_eq_nil_iff]
      intro left hMem
      unfold extend
      rw [hDrops, partners_eq_nil hDooms hRejects
        (hMore left hMem)]
      rfl
    have hSame : unmatched step.merge step.holds
        (common ++ more) step.rights =
          unmatched step.merge step.holds common
            step.rights := by
      unfold unmatched
      apply List.filter_congr
      intro right hRight
      rw [List.all_append, Bool.and_eq_left_iff_imp]
      intro _
      rw [List.all_eq_true]
      intro left hMem
      rw [hRejects _ (hDooms.merged left right
        (hMore left hMem) hRight)]
      rfl
    unfold Step.run outerJoin
    rw [List.flatMap_append, hNone, hSame, List.append_nil]
  exact (hOne hFirst hExtra).trans (hOne hSecond hOther).symm

variable {keep : ρ → Bool}

theorem AgreeUpTo.filter
    (hRejects : ∀ row, doomed row → keep row = false)
    (hAgree : AgreeUpTo doomed first second) :
    (first.filter keep).Perm (second.filter keep) := by
  rcases hAgree with
    ⟨common, extra, other, hFirst, hSecond, hExtra, hOther⟩
  have hOne : ∀ {rows more : List ρ},
      rows.Perm (common ++ more) →
        (∀ row ∈ more, doomed row) →
        (rows.filter keep).Perm (common.filter keep) := by
    intro rows more hRows hMore
    have hNone : more.filter keep = [] := by
      rw [List.filter_eq_nil_iff]
      intro row hMem
      simp [hRejects row (hMore row hMem)]
    have hFilter := hRows.filter keep
    rw [List.filter_append, hNone, List.append_nil] at hFilter
    exact hFilter
  exact (hOne hFirst hExtra).trans (hOne hSecond hOther).symm

/-
  Lists that agree up to doomed rows come to the same after a
  chain of joins and a filter, once a join of the chain or the
  filter rejects what is doomed.
-/
theorem runChain_agree
    {steps : List (Step ρ)}
    (hDooms : ∀ step ∈ steps, Dooms step doomed)
    (hRejects :
      (∃ step ∈ steps, step.keepLeft = false ∧
        ∀ row, doomed row → step.holds row = false) ∨
      ∀ row, doomed row → keep row = false)
    (hAgree : AgreeUpTo doomed first second) :
    ((Step.runChain steps first).filter keep).Perm
      ((Step.runChain steps second).filter keep) := by
  induction steps generalizing first second with
  | nil =>
    rcases hRejects with ⟨step, hMem, _⟩ | hKeep
    · cases hMem
    · exact hAgree.filter hKeep
  | cons step rest ih =>
    have hStep := hDooms step (.head _)
    have hRest : ∀ later ∈ rest, Dooms later doomed :=
      fun later hLater =>
        hDooms later (.tail _ hLater)
    rcases hRejects with ⟨other, hMem, hDrops, hHolds⟩ | hKeep
    · rcases List.mem_cons.mp hMem with hHere | hLater
      · rw [hHere] at hDrops hHolds
        have hSame := hAgree.rejected hStep hDrops hHolds
        exact (runChain_perm rest hSame).filter keep
      · exact ih hRest
          (.inl ⟨other, hLater, hDrops, hHolds⟩)
          (hAgree.run hStep)
    · exact ih hRest (.inr hKeep) (hAgree.run hStep)

/- Rows on the left that found no partner, put last. -/
theorem flatMap_extend_perm
    (merge : ρ → ρ → ρ)
    (holds : ρ → Bool)
    (lefts rights : List ρ) :
    (lefts.flatMap (extend merge holds true rights)).Perm
      (lefts.flatMap (extend merge holds false rights) ++
        lefts.filter fun left =>
          (partners merge holds rights left).isEmpty) := by
  induction lefts with
  | nil => exact List.Perm.refl _
  | cons left rest ih =>
    rw [List.flatMap_cons, List.flatMap_cons, List.filter_cons]
    cases hNone :
        (partners merge holds rights left).isEmpty with
    | true =>
      have hNil : partners merge holds rights left = [] :=
        List.isEmpty_iff.mp hNone
      have hTrue : extend merge holds true rights left =
          [left] := by
        simp [extend, hNone]
      have hFalse : extend merge holds false rights left =
          [] := by
        simp [extend, hNil]
      rw [hTrue, hFalse, List.nil_append, if_pos rfl]
      exact (ih.cons left).trans
        List.perm_middle.symm
    | false =>
      have hSame : extend merge holds true rights left =
          extend merge holds false rights left := by
        simp [extend, hNone]
      rw [hSame, if_neg Bool.false_ne_true, List.append_assoc]
      exact ih.append_left _

theorem agree_dropLeft
    (merge : ρ → ρ → ρ)
    (holds : ρ → Bool)
    (keepRight : Bool)
    (rights : List ρ)
    (hLefts : ∀ left ∈ lefts, doomed left) :
    AgreeUpTo doomed
      (outerJoin merge holds true keepRight lefts rights)
      (outerJoin merge holds false keepRight lefts
        rights) := by
  refine ⟨_, lefts.filter fun left =>
    (partners merge holds rights left).isEmpty, [], ?_,
      List.Perm.of_eq (List.append_nil _).symm,
      fun row hRow => hLefts row (List.mem_of_mem_filter hRow),
      by simp⟩
  unfold outerJoin
  apply ((flatMap_extend_perm merge holds lefts
    rights).append_right _).trans
  rw [List.append_assoc, List.append_assoc]
  exact List.perm_append_comm.append_left _

theorem agree_dropRight
    (merge : ρ → ρ → ρ)
    (holds : ρ → Bool)
    (keepLeft : Bool)
    {rights : List ρ}
    (hRights : ∀ right ∈ rights, doomed right)
    (lefts : List ρ) :
    AgreeUpTo doomed
      (outerJoin merge holds keepLeft true lefts rights)
      (outerJoin merge holds keepLeft false lefts rights) := by
  refine ⟨_, unmatched merge holds lefts rights, [],
    List.Perm.refl _, ?_, fun row hRow => hRights row
      (List.mem_of_mem_filter hRow), by simp⟩
  apply List.Perm.of_eq
  simp [outerJoin]

theorem AgreeUpTo.refl (rows : List ρ) :
    AgreeUpTo doomed rows rows :=
  ⟨rows, [], [], List.Perm.of_eq (List.append_nil _).symm,
    List.Perm.of_eq (List.append_nil _).symm, by simp,
    by simp⟩

end Rows

--
-- The Sides Exchanged
--

/- The pairs that match. -/
def pairs
    (merge : ρ → ρ → ρ)
    (holds : ρ → Bool)
    (lefts rights : List ρ) : List ρ :=
  lefts.flatMap (partners merge holds rights)

section Swap

variable (merge : ρ → ρ → ρ) (holds : ρ → Bool)

theorem partners_isEmpty
    (rights : List ρ)
    (left : ρ) :
    (partners merge holds rights left).isEmpty =
      rights.all fun right => !holds (merge left right) := by
  rw [Bool.eq_iff_iff, List.isEmpty_iff, List.all_eq_true]
  unfold partners
  simp [List.filter_eq_nil_iff]

theorem partners_eq_flatMap
    (rights : List ρ)
    (left : ρ) :
    partners merge holds rights left =
      rights.flatMap fun right =>
        if holds (merge left right) then [merge left right]
        else [] := by
  unfold partners
  induction rights with
  | nil => rfl
  | cons right rest ih =>
    rw [List.map_cons, List.filter_cons, List.flatMap_cons, ih]
    cases holds (merge left right) <;> simp

/- Either side may go first. -/
theorem pairs_swap
    (lefts rights : List ρ) :
    (pairs (fun right left => merge left right) holds
      rights lefts).Perm (pairs merge holds lefts rights) := by
  unfold pairs
  induction lefts with
  | nil => simp [partners]
  | cons left rest ih =>
    have hSplit : (partners (fun right left =>
          merge left right) holds (left :: rest)) =
        fun right =>
          (if holds (merge left right) then
            [merge left right] else []) ++
          partners (fun right left => merge left right)
            holds rest right := by
      funext right
      unfold partners
      rw [List.map_cons, List.filter_cons]
      cases holds (merge left right) <;> simp
    rw [hSplit, List.flatMap_cons,
      partners_eq_flatMap merge holds rights left]
    exact (List.flatMap_append_perm rights _ _).symm.trans
      (ih.append_left _)

/- The parts of an outer join: the pairs, and the rows of the
   preserved sides that have no partner. -/
theorem outerJoin_parts
    (keepLeft keepRight : Bool)
    (lefts rights : List ρ) :
    (outerJoin merge holds keepLeft keepRight lefts
      rights).Perm
      (pairs merge holds lefts rights ++
        ((if keepLeft then
            unmatched (fun right left => merge left right)
              holds rights lefts
          else []) ++
        if keepRight then unmatched merge holds lefts rights
        else [])) := by
  have hExtend : extend merge holds false rights =
      partners merge holds rights := by
    funext left
    simp [extend]
  have hNone : (lefts.filter fun left =>
      (partners merge holds rights left).isEmpty) =
        unmatched (fun right left => merge left right) holds
          rights lefts := by
    unfold unmatched
    simp only [partners_isEmpty]
  unfold outerJoin pairs
  rw [← List.append_assoc]
  refine List.Perm.append_right _ ?_
  cases keepLeft with
  | true =>
    have hParts := flatMap_extend_perm merge holds lefts
      rights
    rw [hNone, hExtend] at hParts
    simpa using hParts
  | false => simp [hExtend]

/- The join with its sides exchanged has the same rows. -/
theorem outerJoin_swap
    (keepLeft keepRight : Bool)
    (lefts rights : List ρ) :
    (outerJoin (fun right left => merge left right) holds
      keepRight keepLeft rights lefts).Perm
      (outerJoin merge holds keepLeft keepRight lefts
        rights) := by
  refine (outerJoin_parts _ holds keepRight keepLeft rights
    lefts).trans ?_
  refine List.Perm.trans ?_
    (outerJoin_parts merge holds keepLeft keepRight lefts
      rights).symm
  exact (pairs_swap merge holds lefts rights).append
    List.perm_append_comm

end Swap

end OuterJoin

end Library

