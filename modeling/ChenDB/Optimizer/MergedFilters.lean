import ChenDB.Executor.Joins
import ChenDB.Executor.Rational

/-
  Merging stacked filters into one, and when that keeps what
  the stack does to a row. A stack asks its innermost filter
  first and stops at the first that does not let the row
  through; `AND` asks the outermost first and stops at the
  first that is FALSE.
-/

--
-- The Rewrite
--

namespace ChenDB

namespace Optimizer

open Executor (Double Expression Row evaluate matchesRow)

variable {φ ν : Type}

/- A plan as the rule sees it. It looks below filters and
   projections, and returns any other node as it is. -/
inductive FilterPlan (φ ν : Type) where
  | filter
      (predicate : Expression φ)
      (child : FilterPlan φ ν)
  | project
      (projections : List (Expression φ))
      (child : FilterPlan φ ν)
  | other (node : ν)

namespace FilterPlan

def depth : FilterPlan φ ν → Nat
  | .filter _ child => child.depth + 1
  | .project _ child => child.depth + 1
  | .other _ => 0

end FilterPlan

/- `Filter(a)` over `Filter(b)` becomes `Filter(a AND b)`. -/
def mergeAdjacentFilters : FilterPlan φ ν → FilterPlan φ ν
  | .filter outer (.filter inner grandchild) =>
    mergeAdjacentFilters
      (.filter (.binaryOp .and outer inner) grandchild)
  | .filter predicate child =>
    .filter predicate (mergeAdjacentFilters child)
  | .project projections child =>
    .project projections (mergeAdjacentFilters child)
  | .other node => .other node
termination_by plan => plan.depth
decreasing_by all_goals simp [FilterPlan.depth]

/- The filters on top of a plan, the outermost first. -/
def filtersOf : FilterPlan φ ν → List (Expression φ)
  | .filter predicate child => predicate :: filtersOf child
  | _ => []

/- What the filters on top of a plan make of a row of the node
   below them: `Filter._produce` of each, the innermost first,
   on what the one below it lets through. -/
def keepsRow [Double φ] {width : Nat}
    (row : Row φ width) :
    FilterPlan φ ν → Except EngineError Bool
  | .filter predicate child => do
      let below ← keepsRow row child
      if below then matchesRow predicate "WHERE" row
      else pure false
  | _ => pure true

/- One filter is left, with the conjunction of them all. -/
theorem filtersOf_merge (plan : FilterPlan φ ν) :
    filtersOf (mergeAdjacentFilters plan) =
      match filtersOf plan with
      | [] => []
      | outermost :: rest =>
        [rest.foldl (.binaryOp .and) outermost] := by
  induction plan using mergeAdjacentFilters.induct with
  | case1 outer inner grandchild ih =>
    rw [mergeAdjacentFilters, ih]
    rfl
  | case2 predicate child hNot ih =>
    rw [mergeAdjacentFilters, filtersOf, ih]
    · cases child with
      | filter inner grandchild =>
        exact absurd rfl (hNot inner grandchild)
      | project projections child => rfl
      | other node => rfl
    · exact hNot
  | case3 projections child ih =>
    rw [mergeAdjacentFilters]
    rfl
  | case4 node =>
    rw [mergeAdjacentFilters]
    rfl

--
-- Outcomes
--

/- What a predicate makes of a row; a value that is no
   condition raises too. -/
inductive Outcome where
  | true
  | false
  | unknown
  | raises
deriving DecidableEq, Repr

namespace Outcome

/- What a filter does: `none` where it raises. -/
def kept : Outcome → Option Bool
  | .true => some Bool.true
  | .false => some Bool.false
  | .unknown => some Bool.false
  | .raises => none

/- Neither operand of `AND` is looked at after one that is
   FALSE or raises. -/
def stops : Outcome → Bool
  | .false => Bool.true
  | .raises => Bool.true
  | _ => Bool.false

def and (first second : Outcome) : Outcome :=
  match first, second with
  | .false, _ => .false
  | .raises, _ => .raises | _, .raises => .raises
  | _, .false => .false
  | .true, .true => .true
  | _, _ => .unknown

end Outcome

section Outcomes

variable [Double φ] {width : Nat}

def outcomeOf
    (row : Row φ width)
    (predicate : Expression φ) : Outcome :=
  match evaluate row predicate with
  | .ok (.bool true) => .true
  | .ok (.bool false) => .false
  | .ok .null => .unknown
  | _ => .raises 
variable {row : Row φ width}

theorem matchesRow_outcome
    (predicate : Expression φ)
    (clause : String) :
    (matchesRow predicate clause row).toOption =
      (outcomeOf row predicate).kept := by
  unfold matchesRow outcomeOf
  cases evaluate row predicate with
  | error raised => rfl
  | ok value =>
    cases value with
    | bool known => cases known <;> rfl
    | null => rfl
    | int number => rfl
    | float number => rfl
    | text known => rfl

theorem outcomeOf_and (left right : Expression φ) :
    outcomeOf row (.binaryOp .and left right) =
      (outcomeOf row left).and (outcomeOf row right) := by
  unfold outcomeOf
  simp only [evaluate]
  cases evaluate row left with
  | error raised => rfl
  | ok first =>
    cases first with
    | int number => rfl
    | float number => rfl
    | text known => rfl
    | bool known =>
      cases known with
      | false => rfl
      | true =>
        cases evaluate row right with
        | error raised => rfl
        | ok second =>
          cases second with
          | bool known => cases known <;> rfl
          | null => rfl
          | int number => rfl
          | float number => rfl
          | text known => rfl
    | null =>
      cases evaluate row right with
      | error raised => rfl
      | ok second =>
        cases second with
        | bool known => cases known <;> rfl
        | null => rfl
        | int number => rfl
        | float number => rfl
        | text known => rfl

theorem outcomeOf_foldl
    (outermost : Expression φ)
    (rest : List (Expression φ)) :
    outcomeOf row (rest.foldl (.binaryOp .and) outermost) =
      (rest.map (outcomeOf row)).foldl Outcome.and
        (outcomeOf row outermost) := by
  induction rest generalizing outermost with
  | nil => rfl
  | cons next rest ih =>
    rw [List.foldl_cons, ih, outcomeOf_and]
    rfl

/- What a stack makes of a row, from what each filter makes of
   it, the outermost first. -/
def keptByStack : List Outcome → Option Bool
  | [] => some true
  | outcome :: rest =>
    match keptByStack rest with
    | some true => outcome.kept
    | other => other

theorem keepsRow_outcomes (plan : FilterPlan φ ν) :
    (keepsRow row plan).toOption =
      keptByStack ((filtersOf plan).map (outcomeOf row)) := by
  induction plan with
  | project projections child _ => rfl
  | other node => rfl
  | filter predicate child ih =>
    simp only [keepsRow, filtersOf, List.map_cons,
      keptByStack, ← ih]
    cases keepsRow row child with
    | error raised => rfl
    | ok below =>
      cases below with
      | false => rfl
      | true => exact matchesRow_outcome predicate "WHERE"

end Outcomes

--
-- Where Each Order Stops
--

/- The innermost filter that does not let the row through. -/
def innermostStop (outcomes : List Outcome) : Option Outcome :=
  outcomes.reverse.find? (· ≠ .true)

/- The outermost that is FALSE or raises. -/
def outermostStop (outcomes : List Outcome) : Option Outcome :=
  outcomes.find? Outcome.stops

/- One raises exactly when the other does. -/
def AgreedStop (outcomes : List Outcome) : Prop :=
  outermostStop outcomes = some .raises ↔
    innermostStop outcomes = some .raises 
theorem innermostStop_cons
    (outcome : Outcome)
    (rest : List Outcome) :
    innermostStop (outcome :: rest) =
      (innermostStop rest).or
        (if outcome = .true then none else some outcome) := by
  unfold innermostStop
  rw [List.reverse_cons, List.find?_append]
  by_cases hTrue : outcome = .true
  · simp [hTrue]
  · simp [hTrue]

theorem ne_true_of_innermostStop
    {outcomes : List Outcome}
    {outcome : Outcome}
    (hStop : innermostStop outcomes = some outcome) :
    outcome ≠ .true := by
  unfold innermostStop at hStop
  simpa using List.find?_some hStop

/- A stack stops at the innermost filter that does not let the
   row through, and does what that one does. -/
theorem keptByStack_eq (outcomes : List Outcome) :
    keptByStack outcomes =
      match innermostStop outcomes with
      | none => some true
      | some outcome => outcome.kept := by
  induction outcomes with
  | nil => rfl
  | cons outcome rest ih =>
    rw [keptByStack, ih, innermostStop_cons]
    cases hStop : innermostStop rest with
    | none => cases outcome <;> rfl
    | some inner =>
      have hInner := ne_true_of_innermostStop hStop
      cases inner with
      | true => exact absurd rfl hInner
      | false => rfl
      | unknown => rfl
      | raises => rfl

/- A chain of `AND`s raises at the outermost operand that is
   FALSE or raises, if that one raises. -/
theorem foldl_and_raises
    (outcome : Outcome)
    (rest : List Outcome) :
    rest.foldl Outcome.and outcome = .raises ↔
      outermostStop (outcome :: rest) = some .raises := by
  induction rest generalizing outcome with
  | nil =>
    unfold outermostStop
    cases outcome <;> decide
  | cons next rest ih =>
    rw [List.foldl_cons, ih]
    unfold outermostStop
    cases outcome <;> cases next <;>
      simp [Outcome.and, Outcome.stops]

theorem foldl_and_true
    (outcome : Outcome)
    (rest : List Outcome) :
    rest.foldl Outcome.and outcome = .true ↔
      ∀ each ∈ outcome :: rest, each = .true := by
  induction rest generalizing outcome with
  | nil => simp
  | cons next rest ih =>
    rw [List.foldl_cons, ih]
    cases outcome <;> cases next <;> simp [Outcome.and]

--
-- One Filter for a Stack
--

section Merged

variable [Double φ] {width : Nat}

/- The merged filter lets the row through exactly when each of
   the stack does, and raises exactly when the stack does. -/
structure SameFilter
    (row : Row φ width)
    (plan : FilterPlan φ ν) : Prop where
  keeps :
    keepsRow row (mergeAdjacentFilters plan) = .ok true ↔
      ∀ predicate ∈ filtersOf plan,
        matchesRow predicate "WHERE" row = .ok true
  raises :
    (∃ raised, keepsRow row (mergeAdjacentFilters plan) =
        .error raised) ↔
      ∃ raised, keepsRow row plan = .error raised

variable {α : Type} {outcome : Except EngineError α}

omit [Double φ] in
theorem toOption_eq_none :
    outcome.toOption = none ↔
      ∃ raised, outcome = .error raised := by
  cases outcome with
  | ok value => simp [Except.toOption]
  | error raised => simp [Except.toOption]

omit [Double φ] in
theorem toOption_eq_some
    {value : α} :
    outcome.toOption = some value ↔ outcome = .ok value := by
  cases outcome with
  | ok found => simp [Except.toOption]
  | error raised => simp [Except.toOption]

/- What the merged filter makes of the row. -/
theorem keepsRow_merge
    (row : Row φ width)
    {plan : FilterPlan φ ν}
    {outermost : Expression φ}
    {rest : List (Expression φ)}
    (hFilters : filtersOf plan = outermost :: rest) :
    (keepsRow row (mergeAdjacentFilters plan)).toOption =
      ((rest.map (outcomeOf row)).foldl Outcome.and
        (outcomeOf row outermost)).kept := by
  rw [keepsRow_outcomes, filtersOf_merge, hFilters]
  simp only [List.map_cons, List.map_nil, keptByStack,
    outcomeOf_foldl]

theorem kept_eq_none {outcome : Outcome} :
    outcome.kept = none ↔ outcome = .raises := by
  cases outcome <;> decide

theorem kept_eq_true {outcome : Outcome} :
    outcome.kept = some true ↔ outcome = .true := by
  cases outcome <;> decide

theorem stack_raises (outcomes : List Outcome) :
    keptByStack outcomes = none ↔
      innermostStop outcomes = some .raises := by
  rw [keptByStack_eq]
  cases innermostStop outcomes with
  | none => simp
  | some outcome => simp [kept_eq_none]

theorem matchesRow_true
    {row : Row φ width}
    {predicate : Expression φ} :
    matchesRow predicate "WHERE" row = .ok true ↔
      outcomeOf row predicate = .true := by
  rw [← toOption_eq_some, matchesRow_outcome, kept_eq_true]

/- On which rows are kept, the two always agree. -/
theorem merged_keeps
    (row : Row φ width)
    (plan : FilterPlan φ ν) :
    keepsRow row (mergeAdjacentFilters plan) = .ok true ↔
      ∀ predicate ∈ filtersOf plan,
        matchesRow predicate "WHERE" row = .ok true := by
  rw [← toOption_eq_some]
  cases hFilters : filtersOf plan with
  | nil =>
    rw [keepsRow_outcomes, filtersOf_merge, hFilters]
    simp [keptByStack]
  | cons outermost rest =>
    rw [keepsRow_merge row hFilters, kept_eq_true,
      foldl_and_true]
    simp [matchesRow_true]

theorem merged_raises_iff
    (row : Row φ width)
    (plan : FilterPlan φ ν) :
    (∃ raised, keepsRow row (mergeAdjacentFilters plan) =
      .error raised) ↔
      outermostStop ((filtersOf plan).map (outcomeOf row)) =
        some .raises := by
  rw [← toOption_eq_none]
  cases hFilters : filtersOf plan with
  | nil =>
    rw [keepsRow_outcomes, filtersOf_merge, hFilters]
    simp [keptByStack, outermostStop]
  | cons outermost rest =>
    rw [keepsRow_merge row hFilters, kept_eq_none,
      foldl_and_raises, List.map_cons]

/- Merging keeps what a stack does to a row exactly when the
   two orders of asking agree on whether to raise. -/
theorem sameFilter_iff
    (row : Row φ width)
    (plan : FilterPlan φ ν) :
    SameFilter row plan ↔
      AgreedStop ((filtersOf plan).map (outcomeOf row)) := by
  have hStack : (∃ raised, keepsRow row plan =
      .error raised) ↔
        innermostStop ((filtersOf plan).map
          (outcomeOf row)) = some .raises := by
    rw [← toOption_eq_none, keepsRow_outcomes, stack_raises]
  have hMerged := merged_raises_iff row plan
  constructor
  · intro hSame
    exact hMerged.symm.trans (hSame.raises.trans hStack)
  · intro hAgreed
    exact
      { keeps := merged_keeps row plan
        raises := hMerged.trans (hAgreed.trans hStack.symm) }

end Merged

/- `n`, which is zero on the row below. -/
def columnN : Expression Rat :=
  .column
    { name := "n"
      columnIndex := 0
      scanPosition := some 0 }

/- `10 / n > 1` over `n <> 0`. -/
def guardedDivision : FilterPlan Rat Unit :=
  .filter
    (.binaryOp .gt
      (.binaryOp .divide (.literal (.int 10)) columnN)
      (.literal (.int 1)))
    (.filter
      (.binaryOp .neq columnN (.literal (.int 0)))
      (.other ()))

/- The inner filter drops the row before the outer one divides
   by zero; merged, the division comes first. -/
theorem merged_divides :
    ¬ ∀ row : Row Rat 1, SameFilter row guardedDivision := by
  intro hAll
  let row : Row Rat 1 := fun _ => .int 0
  have hStack : keepsRow row guardedDivision = .ok false := rfl
  have hMerged : keepsRow row
      (mergeAdjacentFilters guardedDivision) =
        .error (.evaluationError "division by zero") := by
    simp only [guardedDivision, mergeAdjacentFilters]
    rfl
  rcases (hAll row).raises.mp ⟨_, hMerged⟩ with
    ⟨raised, hRaised⟩
  rw [hStack] at hRaised
  cases hRaised

end Optimizer

end ChenDB
