import Mathlib.Data.Finset.Union
import Mathlib.Data.List.Sublists
import Mathlib.Order.Bounds.Defs
import ChenDB.Executor.Joins

/-
  The order to join tables in: which sets of tables a plan may
  have joined, by what the outer joins need on their left, and
  the search over them. How two subplans are joined, and what
  a plan costs, are parameters.
-/

--
-- Constraints
--

namespace ChenDB

namespace Planner

open Executor (JoinKind)

variable {ε ρ κ : Type}

/- `_Step`: one `JOIN b ON` in the order it was written. -/
structure Step (ε : Type) where
  kind : JoinKind
  on : ε
  position : ℕ

/- `_OuterJoin`, with what it needs on its left. -/
structure OuterJoin (ε : Type) where
  position : ℕ
  kind : JoinKind
  on : ε
  rank : ℕ
  minLeft : Finset ℕ
  syntacticLeft : Finset ℕ

/- One round of the loop of `_close_over`. -/
def closeRound
    (constraints : List (OuterJoin ε))
    (out : Finset ℕ) : Finset ℕ :=
  constraints.foldl (fun out info =>
    if info.position ∈ out ∧ ¬ info.minLeft ⊆ out then
      out ∪ info.minLeft
    else out) out

/- Until a round changes nothing. -/
def closeRounds
    (constraints : List (OuterJoin ε)) :
    ℕ → Finset ℕ → Finset ℕ
  | 0, out => out
  | rounds + 1, out =>
    let next := closeRound constraints out
    if next = out then out
    else closeRounds constraints rounds next

/- A round that changes something meets a constraint for
   good. -/
def closeOver
    (wanted : Finset ℕ)
    (constraints : List (OuterJoin ε)) : Finset ℕ :=
  closeRounds constraints (constraints.length + 1) wanted

section Constraints

variable (tablesOf : ε → Finset ℕ)

def minimumLeft
    (step : Step ε)
    (seen : Finset ℕ)
    (constraints : List (OuterJoin ε)) : Finset ℕ :=
  if step.kind = .left then
    let read := tablesOf step.on ∩ seen
    closeOver (if read = ∅ then seen else read) constraints
  else seen

/- The loop of `_outer_constraints`. -/
def constraintsFrom :
    List (Step ε) → Finset ℕ → ℕ → List (OuterJoin ε) →
      List (OuterJoin ε)
  | [], _, _, constraints => constraints
  | step :: rest, seen, rank, constraints =>
    let seen' := insert step.position seen
    if step.kind.isOuter then
      constraintsFrom rest seen' (rank + 1) (constraints ++
        [{ position := step.position
           kind := step.kind
           on := step.on
           rank := rank
           minLeft := minimumLeft tablesOf step seen
             constraints
           syntacticLeft := seen }])
    else constraintsFrom rest seen' rank constraints

def outerConstraints
    (steps : List (Step ε))
    (first : ℕ) : List (OuterJoin ε) :=
  constraintsFrom tablesOf steps {first} 0 []

end Constraints

/- Is the set one that a plan could have produced? -/
def isValid
    (subset : Finset ℕ)
    (constraints : List (OuterJoin ε)) : Prop :=
  ∀ info ∈ constraints, info.position ∈ subset →
    info.minLeft ⊆ subset

instance
    (subset : Finset ℕ)
    (constraints : List (OuterJoin ε)) :
    Decidable (isValid subset constraints) :=
  List.decidableBAll _ _

/- May the join run against everything joined so far? -/
def outerMayRun
    (rest : Finset ℕ)
    (outer : OuterJoin ε)
    (constraints : List (OuterJoin ε)) : Prop :=
  (if outer.kind = .left then outer.minLeft ⊆ rest
    else rest = outer.syntacticLeft) ∧
  ∀ info ∈ constraints, info.rank < outer.rank →
    info.position ∈ rest

instance
    (rest : Finset ℕ)
    (outer : OuterJoin ε)
    (constraints : List (OuterJoin ε)) :
    Decidable (outerMayRun rest outer constraints) :=
  inferInstanceAs (Decidable (_ ∧ _))

--
-- The Search
--

def maxTablesToEnumerate : ℕ := 8

section Search

variable (join : ρ → ρ → Option (OuterJoin ε) → ρ)
variable (cost : ρ → κ) [LT κ] [DecidableLT κ] (leaves : ℕ → ρ)
variable (constraints : List (OuterJoin ε))

/- `constraints.get(position)`. -/
def outerAt (position : ℕ) : Option (OuterJoin ε) :=
  constraints.find? fun info => info.position = position

/- The candidate takes the place of a dearer incumbent. -/
def offer
    (best : Finset ℕ → Option ρ)
    (subset : Finset ℕ)
    (candidate : ρ) : Finset ℕ → Option ρ :=
  match best subset with
  | none => Function.update best subset (some candidate)
  | some incumbent =>
    if cost candidate < cost incumbent then
      Function.update best subset (some candidate)
    else best

/- One round of the innermost loop. -/
def tryLast
    (best : Finset ℕ → Option ρ)
    (subset : Finset ℕ)
    (position : ℕ) : Finset ℕ → Option ρ :=
  match best (subset.erase position) with
  | none => best
  | some left =>
    if ∀ outer ∈ outerAt constraints position,
        outerMayRun (subset.erase position) outer
          constraints then
      offer cost best subset (join left (leaves position)
        (outerAt constraints position))
    else best

def trySubset
    (best : Finset ℕ → Option ρ)
    (subset : List ℕ) : Finset ℕ → Option ρ :=
  if isValid subset.toFinset constraints then
    subset.foldl (fun best position =>
      tryLast join cost leaves constraints best
        subset.toFinset position) best
  else best

/- The plans of one table. -/
def singles
    (positions : List ℕ) : Finset ℕ → Option ρ :=
  positions.foldl (fun best position =>
    if isValid {position} constraints then
      Function.update best {position} (some (leaves position))
    else best) fun _ => none

/- The loop over the sizes. -/
def searchSizes
    (positions sizes : List ℕ)
    (best : Finset ℕ → Option ρ) : Finset ℕ → Option ρ :=
  sizes.foldl (fun best size =>
    (positions.sublistsLen size).foldl
      (trySubset join cost leaves constraints) best) best

/- `_search_constrained` up to its limit, and
   `_search_join_order`, where there are no constraints. -/
def searchOrders (positions : List ℕ) : Option ρ :=
  searchSizes join cost leaves constraints positions
    (List.range' 2 (positions.length - 1))
    (singles leaves constraints positions) positions.toFinset

/- Left to right, as written. -/
def writtenOrder : List ℕ → Option ρ
  | [] => none
  | first :: rest =>
    some (rest.foldl (fun result position =>
      join result (leaves position)
        (outerAt constraints position)) (leaves first))

def searchConstrained (positions : List ℕ) : Option ρ :=
  if positions.length > maxTablesToEnumerate then
    writtenOrder join leaves constraints positions
  else searchOrders join cost leaves constraints positions

end Search

--
-- Legal Orders
--

/- One table at a time, as the outer joins allow. -/
inductive Legal
    (join : ρ → ρ → Option (OuterJoin ε) → ρ)
    (leaves : ℕ → ρ)
    (constraints : List (OuterJoin ε)) :
    Finset ℕ → ρ → Prop where
  | leaf
      (valid : isValid {position} constraints) :
      Legal join leaves constraints {position}
        (leaves position)
  | inner
      (before : Legal join leaves constraints tables left)
      (new : position ∉ tables)
      (free : ∀ info ∈ constraints, info.position ≠ position) :
      Legal join leaves constraints (insert position tables)
        (join left (leaves position) none)
  | outer
      {outer : OuterJoin ε}
      (before : Legal join leaves constraints tables left)
      (new : outer.position ∉ tables)
      (isOuter : outer ∈ constraints)
      (runs : outerMayRun tables outer constraints) :
      Legal join leaves constraints
        (insert outer.position tables)
        (join left (leaves outer.position) (some outer))

section Legal

variable {join : ρ → ρ → Option (OuterJoin ε) → ρ}
variable {cost : ρ → κ} [LT κ] [DecidableLT κ] {leaves : ℕ → ρ}
variable {constraints : List (OuterJoin ε)}
variable {best : Finset ℕ → Option ρ} {subset tables : Finset ℕ}
variable {candidate left : ρ} {position : ℕ}

theorem outerAt_some
    {outer : OuterJoin ε}
    (hOuter : outerAt constraints position = some outer) :
    outer ∈ constraints ∧ outer.position = position := by
  have hFound := List.find?_some hOuter
  exact ⟨List.mem_of_find?_eq_some hOuter,
    of_decide_eq_true hFound⟩

/- A legal plan, with one table more as the loops join it. -/
theorem Legal.step
    (hLeft : Legal join leaves constraints tables left)
    (hNew : position ∉ tables)
    (hRuns : ∀ outer ∈ outerAt constraints position,
      outerMayRun tables outer constraints) :
    Legal join leaves constraints (insert position tables)
      (join left (leaves position)
        (outerAt constraints position)) := by
  cases hOuter : outerAt constraints position with
  | none =>
    refine .inner hLeft hNew fun info hMem hIs => ?_
    exact List.find?_eq_none.mp hOuter info hMem
      (decide_eq_true hIs)
  | some outer =>
    rcases outerAt_some hOuter with ⟨hMem, rfl⟩
    exact .outer hLeft hNew hMem (hRuns outer hOuter)

variable (join leaves constraints best) in
/- Every plan found is legal. -/
def AllLegal : Prop :=
  ∀ tables plan, best tables = some plan →
    Legal join leaves constraints tables plan

theorem AllLegal.update
    (hBest : AllLegal join leaves constraints best)
    (hPlan : Legal join leaves constraints subset candidate) :
    AllLegal join leaves constraints
      (Function.update best subset (some candidate)) := by
  intro tables plan hFound
  by_cases hIs : tables = subset
  · subst hIs
    rw [Function.update_self] at hFound
    cases hFound
    exact hPlan
  · rw [Function.update_of_ne hIs] at hFound
    exact hBest tables plan hFound

variable (cost best subset candidate) in
/- What an offer leaves. -/
theorem offer_cases :
    offer cost best subset candidate =
        Function.update best subset (some candidate) ∨
      offer cost best subset candidate = best ∧
        (best subset).isSome := by
  unfold offer
  cases hIncumbent : best subset with
  | none => exact .inl rfl
  | some incumbent =>
    by_cases hLess : cost candidate < cost incumbent
    · exact .inl (if_pos hLess)
    · exact .inr ⟨if_neg hLess, rfl⟩

variable (join cost leaves constraints best subset) in
variable (position) in
/- What a round of the innermost loop leaves. -/
theorem tryLast_cases :
    let runs := ∀ outer ∈ outerAt constraints position,
      outerMayRun (subset.erase position) outer constraints
    (∃ left, best (subset.erase position) = some left ∧
      runs ∧
      tryLast join cost leaves constraints best subset
          position =
        offer cost best subset (join left (leaves position)
          (outerAt constraints position))) ∨
      tryLast join cost leaves constraints best subset
          position = best ∧
        ¬ ((best (subset.erase position)).isSome ∧ runs) := by
  intro runs
  unfold tryLast
  cases hRest : best (subset.erase position) with
  | none => exact .inr ⟨rfl, fun h => nomatch h.1⟩
  | some left =>
    by_cases hRuns : runs
    · exact .inl ⟨left, rfl, hRuns, if_pos hRuns⟩
    · exact .inr ⟨if_neg hRuns, fun h => hRuns h.2⟩

theorem AllLegal.tryLast
    (hBest : AllLegal join leaves constraints best)
    (hMem : position ∈ subset) :
    AllLegal join leaves constraints
      (tryLast join cost leaves constraints best subset
        position) := by
  rcases tryLast_cases join cost leaves constraints best
    subset position with ⟨left, hLeft, hRuns, hIs⟩ | ⟨hIs, -⟩
  · have hPlan := (hBest _ _ hLeft).step
      (Finset.notMem_erase position subset) hRuns
    rw [Finset.insert_erase hMem] at hPlan
    rw [hIs]
    rcases offer_cases cost best subset _ with hOffer | hOffer
    · rw [hOffer]
      exact hBest.update hPlan
    · rw [hOffer.1]
      exact hBest
  · rw [hIs]
    exact hBest

variable {positions : List ℕ}

theorem AllLegal.trySubset
    (hBest : AllLegal join leaves constraints best) :
    AllLegal join leaves constraints
      (trySubset join cost leaves constraints best
        positions) := by
  unfold Planner.trySubset
  split
  · exact List.foldlRecOn positions _ hBest
      fun best hBest position hMem =>
        hBest.tryLast (List.mem_toFinset.mpr hMem)
  · exact hBest

theorem allLegal_search (positions sizes : List ℕ) :
    AllLegal join leaves constraints
      (searchSizes join cost leaves constraints positions
        sizes (singles leaves constraints positions)) := by
  have hSingles : AllLegal join leaves constraints
      (singles leaves constraints positions) := by
    refine List.foldlRecOn positions _ (fun _ _ h => nomatch h)
      fun best hBest position _ => ?_
    split
    · rename_i hValid
      exact hBest.update (.leaf hValid)
    · exact hBest
  exact List.foldlRecOn sizes _ hSingles
    fun best hBest size _ =>
      List.foldlRecOn _ _ hBest fun best hBest subset _ =>
        hBest.trySubset

--
-- What Is Found
--

/- A plan that was found is kept, or makes way for another. -/
theorem isSome_offer
    (hFound : (best tables).isSome ∨ tables = subset) :
    (offer cost best subset candidate tables).isSome := by
  by_cases hIs : tables = subset
  · subst hIs
    rcases offer_cases cost best tables candidate with h | h
    · rw [h, Function.update_self]
      rfl
    · rw [h.1]
      exact h.2
  · have hBest := hFound.resolve_right hIs
    rcases offer_cases cost best subset candidate with h | h
    · rwa [h, Function.update_of_ne hIs]
    · rwa [h.1]

theorem isSome_tryLast
    (hFound : (best tables).isSome ∨
      tables = subset ∧
        (best (subset.erase position)).isSome ∧
        ∀ outer ∈ outerAt constraints position,
          outerMayRun (subset.erase position) outer
            constraints) :
    (tryLast join cost leaves constraints best subset position
      tables).isSome := by
  rcases tryLast_cases join cost leaves constraints best
    subset position with ⟨left, -, -, hIs⟩ | ⟨hIs, hNot⟩
  · rw [hIs]
    exact isSome_offer (hFound.imp_right And.left)
  · rw [hIs]
    exact hFound.resolve_right fun h => hNot h.2

/- What one element achieves, and the others keep, is there
   at the end. -/
theorem foldl_hits
    {α β : Type}
    {step : β → α → β}
    {hit : α}
    {elements : List α}
    {start : β}
    (Before After : β → Prop)
    (hMem : hit ∈ elements)
    (hKeep : ∀ state element, Before state →
      Before (step state element))
    (hStays : ∀ state element, After state →
      After (step state element))
    (hHit : ∀ state, Before state → After (step state hit))
    (hStart : Before start) :
    After (elements.foldl step start) := by
  rcases List.append_of_mem hMem with ⟨first, last, rfl⟩
  rw [List.foldl_append, List.foldl_cons]
  exact List.foldlRecOn last _
    (hHit _ (List.foldlRecOn first _ hStart
      fun state hState element _ => hKeep state element hState))
    fun state hState element _ => hStays state element hState

theorem isSome_trySubset
    (hFound : (best tables).isSome) :
    (trySubset join cost leaves constraints best positions
      tables).isSome := by
  unfold trySubset
  by_cases hValid :
      isValid positions.toFinset constraints
  · rw [if_pos hValid]
    exact List.foldlRecOn
      (motive := fun best : Finset ℕ → Option ρ =>
        (best tables).isSome) positions _ hFound
      fun best hBest position _ => isSome_tryLast (.inl hBest)
  · rwa [if_neg hValid]

end Legal

--
-- The Written Order
--

/- What the tables written before one are: those with smaller
   positions. -/
def before (positions : List ℕ) (position : ℕ) : Finset ℕ :=
  positions.toFinset.filter (· < position)

/- What the search needs of its constraints. -/
structure Orderly
    (positions : List ℕ)
    (constraints : List (OuterJoin ε)) : Prop where
  syntactic : ∀ info ∈ constraints,
    info.syntacticLeft = before positions info.position
  minimum : ∀ info ∈ constraints,
    info.minLeft ⊆ before positions info.position
  known : ∀ info ∈ constraints, info.position ∈ positions
  ranked : ∀ info ∈ constraints, ∀ other ∈ constraints,
    info.rank < other.rank → info.position < other.position

section Orderly

variable {constraints : List (OuterJoin ε)}
variable {wanted seen out : Finset ℕ}

theorem subset_closeRound :
    out ⊆ closeRound constraints out := by
  refine List.foldlRecOn (motive := (out ⊆ ·)) constraints _
    (Finset.Subset.refl out) fun state hState info _ => ?_
  split
  · exact hState.trans Finset.subset_union_left
  · exact hState

variable {info : OuterJoin ε}

/- A round meets what it finds needed. -/
theorem minLeft_subset_closeRound
    (hMem : info ∈ constraints)
    (hIn : info.position ∈ out) :
    info.minLeft ⊆ closeRound constraints out := by
  have hGrows (state : Finset ℕ) (other : OuterJoin ε) :
      state ⊆ if other.position ∈ state ∧
        ¬ other.minLeft ⊆ state then state ∪ other.minLeft
          else state := by
    split
    · exact Finset.subset_union_left
    · exact Finset.Subset.refl state
  refine foldl_hits (info.position ∈ ·) (info.minLeft ⊆ ·)
    hMem (fun state other h => hGrows state other h)
    (fun state other h => h.trans (hGrows state other))
    (fun state hState => ?_) hIn
  split
  · exact Finset.subset_union_right
  · rename_i hNot
    exact not_not.mp fun h => hNot ⟨hState, h⟩

/- A round that changes something meets one more. -/
theorem countP_closeRound_lt
    (hChanged : closeRound constraints out ≠ out) :
    constraints.countP (fun info =>
        ¬ info.minLeft ⊆ closeRound constraints out) <
      constraints.countP fun info =>
        ¬ info.minLeft ⊆ out := by
  have hMet : ∃ info ∈ constraints, ¬ info.minLeft ⊆ out ∧
      info.minLeft ⊆ closeRound constraints out := by
    by_contra hNone
    refine hChanged (List.foldlRecOn (motive := (· = out))
      constraints _ rfl fun state hState info hMem => ?_)
    subst hState
    rw [if_neg]
    rintro ⟨hIn, hNot⟩
    exact hNone ⟨info, hMem, hNot,
      minLeft_subset_closeRound hMem hIn⟩
  rcases hMet with ⟨info, hMem, hNot, hNext⟩
  rcases List.append_of_mem hMem with ⟨first, last, rfl⟩
  have hFewer (others : List (OuterJoin ε)) :
      others.countP (fun other => ¬ other.minLeft ⊆
          closeRound (first ++ info :: last) out) ≤
        others.countP fun other => ¬ other.minLeft ⊆ out := by
    refine List.countP_mono_left fun other _ hOther => ?_
    rw [decide_eq_true_eq] at hOther ⊢
    exact fun h => hOther (h.trans subset_closeRound)
  rw [List.countP_append, List.countP_append,
    List.countP_cons, List.countP_cons,
    if_neg (by rw [decide_eq_true_eq]; exact not_not.mpr hNext),
    if_pos (by rw [decide_eq_true_eq]; exact hNot)]
  have hFirst := hFewer first
  have hLast := hFewer last
  omega

/- The induction is on the rounds, of which there are more
   than constraints that are not met. -/
theorem closeRounds_spec
    {rounds : ℕ}
    (hRounds : constraints.countP (fun info =>
      ¬ info.minLeft ⊆ out) < rounds) :
    out ⊆ closeRounds constraints rounds out ∧
      isValid (closeRounds constraints rounds out)
        constraints := by
  induction rounds generalizing out with
  | zero => exact absurd hRounds (Nat.not_lt_zero _)
  | succ rounds ih =>
    rw [closeRounds]
    by_cases hSame : closeRound constraints out = out
    · rw [if_pos hSame]
      refine ⟨Finset.Subset.refl out, fun info hMem hIn => ?_⟩
      have hMet := minLeft_subset_closeRound hMem hIn
      rwa [hSame] at hMet
    · have hLess := countP_closeRound_lt hSame
      have hNext := ih (by omega : constraints.countP
        (fun info => ¬ info.minLeft ⊆
          closeRound constraints out) < rounds)
      rw [if_neg hSame]
      exact ⟨subset_closeRound.trans hNext.1, hNext.2⟩

theorem closeRounds_subset
    (hWanted : wanted ⊆ seen)
    (hSeen : isValid seen constraints)
    (rounds : ℕ) :
    closeRounds constraints rounds wanted ⊆ seen := by
  induction rounds generalizing wanted with
  | zero => exact hWanted
  | succ rounds ih =>
    rw [closeRounds]
    split
    · exact hWanted
    · refine ih (List.foldlRecOn (motive := (· ⊆ seen))
        constraints _ hWanted fun out hOut info hMem => ?_)
      split
      · rename_i hNeeds
        exact Finset.union_subset hOut
          (hSeen info hMem (hOut hNeeds.1))
      · exact hOut

/- The loop ends, with the least set that reaches into no outer
   join without what that join needs. -/
theorem closeOver_isLeast
    (wanted : Finset ℕ)
    (constraints : List (OuterJoin ε)) :
    IsLeast {tables | wanted ⊆ tables ∧
      isValid tables constraints}
      (closeOver wanted constraints) :=
  ⟨closeRounds_spec (Nat.lt_succ_of_le List.countP_le_length),
    fun _ hTables =>
      closeRounds_subset hTables.1 hTables.2 _⟩

variable {tablesOf : ε → Finset ℕ}

theorem minimumLeft_subset
    {step : Step ε}
    (hSeen : ∀ info ∈ constraints, info.minLeft ⊆ seen) :
    minimumLeft tablesOf step seen constraints ⊆ seen := by
  unfold minimumLeft
  split
  · refine closeRounds_subset ?_
      (fun info hMem _ => hSeen info hMem) _
    split
    · exact Finset.Subset.refl seen
    · exact Finset.inter_subset_right
  · exact Finset.Subset.refl seen

variable {done : List ℕ} {position rank : ℕ}

theorem toFinset_snoc :
    (done ++ [position]).toFinset =
      insert position done.toFinset := by
  ext table
  simp

/- One table more changes nothing before a known one. -/
theorem before_snoc
    {last : ℕ}
    (hLast : position ≤ last) :
    before (done ++ [last]) position =
      before done position := by
  ext table
  simp only [before, Finset.mem_filter, List.mem_toFinset,
    List.mem_append, List.mem_singleton]
  constructor
  · rintro ⟨hMem | rfl, hTable⟩
    · exact ⟨hMem, hTable⟩
    · omega
  · exact fun h => ⟨.inl h.1, h.2⟩

theorem before_last
    (hLess : ∀ table ∈ done, table < position) :
    before (done ++ [position]) position =
      done.toFinset := by
  rw [before_snoc le_rfl, before, Finset.filter_true_of_mem]
  exact fun table hMem =>
    hLess table (List.mem_toFinset.mp hMem)

theorem Orderly.snoc
    (hDone : Orderly done constraints)
    (hLess : ∀ table ∈ done, table < position) :
    Orderly (done ++ [position]) constraints where
  syntactic := fun info hMem => by
    rw [before_snoc (hLess _ (hDone.known info hMem)).le]
    exact hDone.syntactic info hMem
  minimum := fun info hMem => by
    rw [before_snoc (hLess _ (hDone.known info hMem)).le]
    exact hDone.minimum info hMem
  known := fun info hMem =>
    List.mem_append_left _ (hDone.known info hMem)
  ranked := hDone.ranked

/- With the constraint of one outer join more. -/
theorem Orderly.outer
    (hDone : Orderly done constraints)
    (hPosition : info.position = position)
    (hLess : ∀ table ∈ done, table < position)
    (hRank : ∀ other ∈ constraints, other.rank < info.rank)
    (hLeft : info.syntacticLeft = done.toFinset)
    (hMinimum : info.minLeft ⊆ done.toFinset) :
    Orderly (done ++ [position]) (constraints ++ [info]) where
  syntactic := List.forall_mem_append.mpr
    ⟨(hDone.snoc hLess).syntactic,
      List.forall_mem_singleton.mpr (by
        rw [hPosition, before_last hLess, hLeft])⟩
  minimum := List.forall_mem_append.mpr
    ⟨(hDone.snoc hLess).minimum,
      List.forall_mem_singleton.mpr (by
        rwa [hPosition, before_last hLess])⟩
  known := List.forall_mem_append.mpr
    ⟨(hDone.snoc hLess).known, List.forall_mem_singleton.mpr
      (by rw [hPosition]; exact List.mem_concat_self)⟩
  ranked := by
    intro first hFirst second hSecond hLower
    rw [List.mem_append, List.mem_singleton] at hFirst hSecond
    rcases hFirst with hFirst | rfl
    · rcases hSecond with hSecond | rfl
      · exact hDone.ranked first hFirst second hSecond hLower
      · rw [hPosition]
        exact hLess _ (hDone.known first hFirst)
    · rcases hSecond with hSecond | rfl
      · exact absurd (hRank second hSecond) hLower.asymm
      · exact absurd hLower (Nat.lt_irrefl _)

/- The induction is on the steps that are left; `done` holds
   the positions of the others. -/
theorem orderly_constraintsFrom
    {steps : List (Step ε)}
    (hOrdered : (done ++ steps.map Step.position).Pairwise
      (· < ·))
    (hDone : Orderly done constraints)
    (hRank : ∀ info ∈ constraints, info.rank < rank) :
    Orderly (done ++ steps.map Step.position)
      (constraintsFrom tablesOf steps done.toFinset rank
        constraints) := by
  induction steps generalizing done rank constraints with
  | nil =>
    rw [List.map_nil, List.append_nil]
    exact hDone
  | cons step rest ih =>
    have hLess : ∀ table ∈ done, table < step.position :=
      fun table hMem => (List.pairwise_append.mp hOrdered
        ).2.2 table hMem _ (.head _)
    rw [List.map_cons, List.append_cons] at hOrdered ⊢
    rw [constraintsFrom, ← toFinset_snoc]
    split
    · have hMinimum : minimumLeft tablesOf step
          done.toFinset constraints ⊆ done.toFinset :=
        minimumLeft_subset fun info hMem =>
          (hDone.minimum info hMem).trans
            (Finset.filter_subset _ _)
      refine ih hOrdered
        (hDone.outer rfl hLess hRank rfl hMinimum)
        (List.forall_mem_append.mpr ⟨fun info hMem =>
            Nat.lt_succ_of_lt (hRank info hMem),
          List.forall_mem_singleton.mpr
            (Nat.lt_succ_self rank)⟩)
    · exact ih hOrdered (hDone.snoc hLess) hRank

theorem orderly_outerConstraints
    {steps : List (Step ε)}
    {first : ℕ}
    (hOrdered : (first :: steps.map Step.position).Pairwise
      (· < ·)) :
    Orderly (first :: steps.map Step.position)
      (outerConstraints tablesOf steps first) := by
  have hNone : Orderly [first] ([] : List (OuterJoin ε)) :=
    { syntactic := fun _ h => absurd h List.not_mem_nil
      minimum := fun _ h => absurd h List.not_mem_nil
      known := fun _ h => absurd h List.not_mem_nil
      ranked := fun _ h => absurd h List.not_mem_nil }
  exact @orderly_constraintsFrom _ _ tablesOf [first] 0 steps
    hOrdered hNone fun _ h => absurd h List.not_mem_nil

end Orderly

section Orders

variable {join : ρ → ρ → Option (OuterJoin ε) → ρ}
variable {cost : ρ → κ} [LT κ] [DecidableLT κ] {leaves : ℕ → ρ}
variable {constraints : List (OuterJoin ε)} {done rest : List ℕ}
variable {position : ℕ}

/- The tables of a beginning, and those written before what
   comes next. -/
theorem before_next
    (hOrdered : (done ++ position :: rest).Pairwise
      (· < ·)) :
    before (done ++ position :: rest) position =
      done.toFinset := by
  have hSplit := List.pairwise_append.mp hOrdered
  have hRest := List.pairwise_cons.mp hSplit.2.1
  ext table
  simp only [before, Finset.mem_filter, List.mem_toFinset,
    List.mem_append, List.mem_cons]
  constructor
  · rintro ⟨hMem | rfl | hMem, hLess⟩
    · exact hMem
    · exact absurd hLess (Nat.lt_irrefl _)
    · exact absurd hLess (Nat.not_lt_of_gt
        (hRest.1 table hMem))
  · exact fun hMem =>
      ⟨.inl hMem, hSplit.2.2 table hMem _ (.head _)⟩

theorem notMem_done
    (hOrdered : (done ++ position :: rest).Pairwise
      (· < ·)) :
    position ∉ done.toFinset := fun hMem =>
  absurd ((List.pairwise_append.mp hOrdered).2.2 _
    (List.mem_toFinset.mp hMem) _ (.head _))
    (Nat.lt_irrefl _)

/- What is written next may always be joined next. -/
theorem Orderly.runs
    (hOrderly : Orderly (done ++ position :: rest) constraints)
    (hOrdered : (done ++ position :: rest).Pairwise (· < ·)) :
    ∀ outer ∈ outerAt constraints position,
      outerMayRun done.toFinset outer constraints := by
  intro outer hOuter
  rcases outerAt_some hOuter with ⟨hMem, rfl⟩
  have hDone := before_next hOrdered
  refine ⟨?_, fun info hInfo hRank => ?_⟩
  · split
    · rw [← hDone]
      exact hOrderly.minimum outer hMem
    · rw [hOrderly.syntactic outer hMem, hDone]
  · rw [← hDone, before, Finset.mem_filter,
      List.mem_toFinset]
    exact ⟨hOrderly.known info hInfo,
      hOrderly.ranked info hInfo outer hMem hRank⟩

/- Every beginning of what was written is valid. -/
theorem Orderly.valid
    (hOrderly : Orderly (done ++ rest) constraints)
    (hOrdered : (done ++ rest).Pairwise (· < ·)) :
    isValid done.toFinset constraints := by
  intro info hMem hIn table hTable
  have hBefore := hOrderly.minimum info hMem hTable
  rw [before, Finset.mem_filter, List.mem_toFinset,
    List.mem_append] at hBefore
  rw [List.mem_toFinset] at hIn ⊢
  refine hBefore.1.resolve_right fun hRest => ?_
  exact absurd hBefore.2 (Nat.not_lt_of_gt
    ((List.pairwise_append.mp hOrdered).2.2 _ hIn _ hRest))

/- Joining on as written is legal. -/
theorem legal_foldl
    {plan : ρ}
    (hOrderly : Orderly (done ++ rest) constraints)
    (hOrdered : (done ++ rest).Pairwise (· < ·))
    (hPlan :
      Legal join leaves constraints done.toFinset plan) :
    Legal join leaves constraints (done ++ rest).toFinset
      (rest.foldl (fun result position =>
        join result (leaves position)
          (outerAt constraints position)) plan) := by
  induction rest generalizing done plan with
  | nil =>
    rw [List.append_nil]
    exact hPlan
  | cons position rest ih =>
    have hNew := notMem_done hOrdered
    have hStep := hPlan.step hNew (hOrderly.runs hOrdered)
    rw [← toFinset_snoc] at hStep
    rw [List.append_cons] at hOrderly hOrdered ⊢
    exact ih hOrderly hOrdered hStep

variable {best : Finset ℕ → Option ρ}

/- The table that is written next is added to the ones before
   it. -/
theorem isSome_next
    (hOrderly :
      Orderly (done ++ [position] ++ rest) constraints)
    (hOrdered :
      (done ++ [position] ++ rest).Pairwise (· < ·))
    (hFound : (best done.toFinset).isSome) :
    (trySubset join cost leaves constraints best
      (done ++ [position])
      (done ++ [position]).toFinset).isSome := by
  have hValid := hOrderly.valid hOrdered
  rw [← List.append_cons] at hOrderly hOrdered
  have hErase : (done ++ [position]).toFinset.erase
      position = done.toFinset := by
    rw [toFinset_snoc,
      Finset.erase_insert (notMem_done hOrdered)]
  unfold trySubset
  rw [if_pos hValid]
  refine foldl_hits
    (fun best : Finset ℕ → Option ρ =>
      (best done.toFinset).isSome)
    (fun best : Finset ℕ → Option ρ =>
      (best (done ++ [position]).toFinset).isSome)
    (List.mem_append_right done
      (List.mem_singleton_self position))
    (fun best element hFound =>
      isSome_tryLast (.inl hFound))
    (fun best element hFound =>
      isSome_tryLast (.inl hFound))
    (fun best hFound => ?_) hFound
  refine isSome_tryLast (.inr ⟨rfl, ?_⟩)
  rw [hErase]
  exact ⟨hFound, hOrderly.runs hOrdered⟩

/- The induction is on what is still to be joined: each size
   adds the next table. -/
theorem isSome_searchSizes
    (hOrderly : Orderly (done ++ rest) constraints)
    (hOrdered : (done ++ rest).Pairwise (· < ·))
    (hBest : (best done.toFinset).isSome) :
    (searchSizes join cost leaves constraints (done ++ rest)
      (List.range' (done.length + 1) rest.length) best
      (done ++ rest).toFinset).isSome := by
  induction rest generalizing done best with
  | nil =>
    rw [List.append_nil]
    exact hBest
  | cons position rest ih =>
    have hLength : (done ++ [position]).length =
        done.length + 1 := List.length_append
    rw [List.append_cons] at hOrderly hOrdered ⊢
    have hHit : done ++ [position] ∈
        List.sublistsLen (done.length + 1)
          (done ++ [position] ++ rest) :=
      List.mem_sublistsLen.mpr
        ⟨List.sublist_append_left _ _, hLength⟩
    rw [List.length_cons, List.range'_succ, searchSizes,
      List.foldl_cons, ← hLength]
    refine ih hOrderly hOrdered ?_
    rw [hLength]
    exact foldl_hits
      (fun best : Finset ℕ → Option ρ =>
        (best done.toFinset).isSome)
      (fun best : Finset ℕ → Option ρ =>
        (best (done ++ [position]).toFinset).isSome) hHit
      (fun best subset hFound => isSome_trySubset hFound)
      (fun best subset hFound => isSome_trySubset hFound)
      (fun best hFound =>
        isSome_next hOrderly hOrdered hFound) hBest

theorem isSome_singles
    {first : ℕ}
    (hOrderly : Orderly (first :: rest) constraints)
    (hOrdered : (first :: rest).Pairwise (· < ·)) :
    (singles leaves constraints (first :: rest)
      {first}).isSome := by
  have hValid : isValid {first} constraints := by
    have hFirst : Orderly ([first] ++ rest) constraints :=
      hOrderly
    exact hFirst.valid hOrdered
  unfold singles
  rw [List.foldl_cons, if_pos hValid]
  refine List.foldlRecOn
    (motive := fun best : Finset ℕ → Option ρ =>
      (best {first}).isSome) rest _ ?_
    fun best hBest other _ => ?_
  · rw [Function.update_self]
    rfl
  · split
    · by_cases hIs : ({first} : Finset ℕ) = {other}
      · rw [hIs, Function.update_self]
        rfl
      · rwa [Function.update_of_ne hIs]
    · exact hBest

/-
  The search over the joins of a query ends with a plan, of
  however many tables, whatever the outer joins read, however
  subplans are joined and whatever they cost; and the plan
  joins every table, one at a time, as the outer joins allow.
-/
theorem searchConstrained_legal
    {steps : List (Step ε)}
    {first : ℕ}
    (hOrdered : (first :: steps.map Step.position).Pairwise
      (· < ·))
    (tablesOf : ε → Finset ℕ) :
    ∃ plan,
      searchConstrained join cost leaves
        (outerConstraints tablesOf steps first)
        (first :: steps.map Step.position) = some plan ∧
      Legal join leaves
        (outerConstraints tablesOf steps first)
        (first :: steps.map Step.position).toFinset plan := by
  have hOrderly : Orderly
      ([first] ++ steps.map Step.position)
      (outerConstraints tablesOf steps first) :=
    orderly_outerConstraints hOrdered
  have hLeaf : Legal join leaves
      (outerConstraints tablesOf steps first)
      [first].toFinset (leaves first) :=
    .leaf (hOrderly.valid hOrdered)
  unfold searchConstrained
  split
  · exact ⟨_, rfl, legal_foldl hOrderly hOrdered hLeaf⟩
  · have hFirst : (singles leaves
        (outerConstraints tablesOf steps first)
        (first :: steps.map Step.position)
        [first].toFinset).isSome :=
      isSome_singles hOrderly hOrdered
    have hFound := @isSome_searchSizes _ _ _ join cost _ _
      leaves _ _ _ _ hOrderly hOrdered hFirst
    rcases Option.isSome_iff_exists.mp hFound with ⟨plan, hPlan⟩
    refine ⟨plan, ?_, ?_⟩
    · unfold searchOrders
      rw [List.length_cons]
      exact hPlan
    · exact allLegal_search _ _ _ _ hPlan

end Orders

/- Three tables, the second brought in by a `LEFT JOIN` that
   reads the first. -/
def leftThenInner : List (Step (Finset ℕ)) :=
  [{ kind := .left, on := {0, 1}, position := 1 },
   { kind := .inner, on := {0, 2}, position := 2 }]

theorem searchConstrained_legal_left :
    ∃ plan : List ℕ,
      searchConstrained (fun left right _ => left ++ right)
        List.length (fun position => [position])
        (outerConstraints id leftThenInner 0) [0, 1, 2] =
          some plan ∧
      Legal (fun left right _ => left ++ right)
        (fun position => [position])
        (outerConstraints id leftThenInner 0)
        [0, 1, 2].toFinset plan :=
  searchConstrained_legal (by decide) id

end Planner

end ChenDB
