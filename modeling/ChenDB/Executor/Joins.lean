import ChenDB.Executor.Expression
import ChenDB.Library.OuterJoin
import ChenDB.Library.StateExcept

/-
  Plans of scans, filters and joins, and the rows they come
  to. Every row is as wide as the whole `FROM`, with NULL in
  the slots of tables not joined yet.
-/

--
-- Plans
--

namespace ChenDB

namespace Executor

open Library.StateExcept (ok_of_bind)

variable {φ : Type} {width : Nat}

inductive JoinKind where
  | inner
  | left
  | right
  | full
deriving DecidableEq, Repr

namespace JoinKind

def isOuter (kind : JoinKind) : Bool :=
  kind ≠ .inner

def preservesLeft : JoinKind → Bool
  | .left | .full => true
  | _ => false

def preservesRight : JoinKind → Bool
  | .right | .full => true
  | _ => false

/- The kind with exactly these two behaviours. -/
def of (preserveLeft preserveRight : Bool) : JoinKind :=
  match preserveLeft, preserveRight with
  | true, true => .full
  | true, false => .left
  | false, true => .right
  | false, false => .inner

@[simp] theorem preservesLeft_of (l r : Bool) :
    (of l r).preservesLeft = l := by
  cases l <;> cases r <;> rfl

@[simp] theorem preservesRight_of (l r : Bool) :
    (of l r).preservesRight = r := by
  cases l <;> cases r <;> rfl

@[simp] theorem of_preserves (kind : JoinKind) :
    of kind.preservesLeft kind.preservesRight = kind := by
  cases kind <;> rfl

end JoinKind

/- Every row of one table, and where its columns go in the
   joined row. -/
structure LogicalScan (φ : Type) (width : Nat) where
  /- Which table of the `FROM`, counting from zero. -/
  position : Nat
  offset : Nat
  columns : Nat
  contents : List (Fin columns → Value φ)

namespace LogicalScan

/- Does the table fill this slot of the joined row? -/
def owns
    (scan : LogicalScan φ width)
    (index : Nat) : Prop :=
  scan.offset ≤ index ∧ index < scan.offset + scan.columns

instance (scan : LogicalScan φ width) (index : Nat) :
    Decidable (scan.owns index) :=
  inferInstanceAs (Decidable (_ ∧ _))

/- `ScanOperator._place`. -/
def place
    (scan : LogicalScan φ width)
    (row : Fin scan.columns → Value φ) : Row φ width :=
  fun index =>
    if hOwns : scan.owns index then
      row ⟨index - scan.offset, by
        rcases hOwns with ⟨hFrom, hTo⟩
        omega⟩
    else .null

def rows (scan : LogicalScan φ width) : List (Row φ width) :=
  scan.contents.map scan.place

theorem place_blank
    {scan : LogicalScan φ width}
    {row : Row φ width}
    (hRow : row ∈ scan.rows)
    {index : Fin width}
    (hOwns : ¬ scan.owns index) :
    row index = .null := by
  rcases List.mem_map.mp hRow with ⟨stored, _, rfl⟩
  unfold place
  rw [dif_neg hOwns]

end LogicalScan

inductive LogicalNode (φ : Type) (width : Nat) where
  | scan (scan : LogicalScan φ width)
  | filter
      (predicate : Expression φ)
      (child : LogicalNode φ width)
  | join
      (predicate : Expression φ)
      (left right : LogicalNode φ width)
      (kind : JoinKind)

--
-- Running a Plan
--

/- `JoinOperator._merge`: the slots of the right side, by
   slice. -/
def merge
    (slices : List (Nat × Nat))
    (left right : Row φ width) : Row φ width :=
  fun index =>
    if slices.any fun slice =>
        slice.1 ≤ index ∧ index < slice.1 + slice.2 then
      right index
    else left index

section Running

variable [Double φ]

def matchesRow
    (predicate : Expression φ)
    (clause : String)
    (row : Row φ width) : Except EngineError Bool := do
  let value ← evaluate row predicate
  isTrue value clause

/- One row on the left against the rows on the right from an
   index on: the merged rows that match, and the indices they
   were found at. -/
def probe
    (predicate : Expression φ)
    (slices : List (Nat × Nat))
    (left : Row φ width)
    (index : Nat) :
    List (Row φ width) →
      Except EngineError (List (Row φ width) × List Nat)
  | [] => .ok ([], [])
  | right :: rest => do
      let merged := merge slices left right
      let matched ←
        matchesRow predicate "a join condition" merged
      let (rows, found) ←
        probe predicate slices left (index + 1) rest
      pure (if matched then (merged :: rows, index :: found)
        else (rows, found))

/- Every row on the left in turn: what it comes to, and which
   rows on the right have matched anything. -/
def probeAll
    (predicate : Expression φ)
    (slices : List (Nat × Nat))
    (preserveLeft : Bool)
    (rights : List (Row φ width)) :
    List (Row φ width) →
      Except EngineError (List (Row φ width) × List Nat)
  | [] => .ok ([], [])
  | left :: rest => do
      let (rows, found) ←
        probe predicate slices left 0 rights
      let (later, seen) ←
        probeAll predicate slices preserveLeft rights rest
      pure
        ((if preserveLeft && found.isEmpty then [left]
            else rows) ++ later,
          found ++ seen)

/- `NestedLoopJoin`: the matches, and last the rows on the
   right that never matched. -/
def nestedLoopJoin
    (predicate : Expression φ)
    (slices : List (Nat × Nat))
    (preserveLeft preserveRight : Bool)
    (lefts rights : List (Row φ width)) :
    Except EngineError (List (Row φ width)) := do
  let (rows, matched) ←
    probeAll predicate slices preserveLeft rights lefts
  pure (rows ++
    if preserveRight then
      (rights.zipIdx.filter fun entry =>
        entry.2 ∉ matched).map Prod.fst
    else [])

/- `Filter`: the rows whose predicate is exactly TRUE. -/
def filterRows
    (predicate : Expression φ) :
    List (Row φ width) → Except EngineError (List (Row φ width))
  | [] => .ok []
  | row :: rest => do
      let kept ← matchesRow predicate "WHERE" row
      let rows ← filterRows predicate rest
      pure (if kept then row :: rows else rows)

/- The slots the tables of a plan fill. -/
def LogicalNode.slices :
    LogicalNode φ width → List (Nat × Nat)
  | .scan table => [(table.offset, table.columns)]
  | .filter _ child => child.slices
  | .join _ left right _ => left.slices ++ right.slices

/- The rows of a plan, each join taken as it is written. -/
def LogicalNode.rows :
    LogicalNode φ width →
      Except EngineError (List (Row φ width))
  | .scan table => .ok table.rows
  | .filter predicate child => do
      let rows ← child.rows
      filterRows predicate rows
  | .join predicate left right kind => do
      let lefts ← left.rows
      let rights ← right.rows
      nestedLoopJoin predicate right.slices
        kind.preservesLeft kind.preservesRight lefts rights

--
-- What a Join Comes To
--

/- Is the predicate TRUE of the row? -/
def holds
    (predicate : Expression φ)
    (row : Row φ width) : Bool :=
  match evaluate row predicate with
  | .ok (.bool true) => true
  | _ => false

variable {predicate : Expression φ}

theorem matchesRow_ok
    {clause : String}
    {row : Row φ width}
    {matched : Bool}
    (hOk : matchesRow predicate clause row = .ok matched) :
    matched = holds predicate row := by
  rcases ok_of_bind hOk with ⟨value, hValue, hTrue⟩
  unfold holds
  rw [hValue]
  cases value with
  | null =>
    cases hTrue
    rfl
  | bool value =>
    cases hTrue
    cases matched <;> rfl
  | int value => cases hTrue
  | float value => cases hTrue
  | text value => cases hTrue

variable {slices : List (Nat × Nat)}
variable {rights rows : List (Row φ width)}

theorem probe_ok
    {left : Row φ width}
    {index : Nat}
    {found : List Nat}
    (hOk : probe predicate slices left index rights =
      .ok (rows, found)) :
    rows = Library.OuterJoin.partners (merge slices)
        (holds predicate) rights left ∧
      found.isEmpty = rows.isEmpty ∧
      ∀ position, position ∈ found ↔
        ∃ right, (right, position) ∈ rights.zipIdx index ∧
          holds predicate (merge slices left right) =
            true := by
  induction rights generalizing index rows found with
  | nil =>
    cases hOk
    simp [Library.OuterJoin.partners]
  | cons right rest ih =>
    rcases ok_of_bind hOk with ⟨matched, hMatched, hRest⟩
    rcases ok_of_bind hRest with
      ⟨⟨later, seen⟩, hLater, hLast⟩
    rcases ih hLater with ⟨hRows, hEmpty, hFound⟩
    have hHolds := matchesRow_ok hMatched
    unfold Library.OuterJoin.partners at hRows ⊢
    rw [List.map_cons, List.filter_cons, ← hHolds, ← hRows]
    cases matched with
    | true =>
      simp only [if_true] at hLast
      cases hLast
      refine ⟨by simp, by simp, fun position => ?_⟩
      simp only [List.mem_cons, hFound,
        List.zipIdx_cons, Prod.mk.injEq]
      constructor
      · intro hEither
        rcases hEither with hHere | ⟨other, hMem, hTrue⟩
        · exact ⟨right, .inl ⟨rfl, hHere⟩, hHolds.symm⟩
        · exact ⟨other, .inr hMem, hTrue⟩
      · intro hSome
        rcases hSome with ⟨other, ⟨_, hHere⟩ | hMem, hTrue⟩
        · exact .inl hHere
        · exact .inr ⟨other, hMem, hTrue⟩
    | false =>
      simp only [Bool.false_eq_true, if_false] at hLast
      cases hLast
      refine ⟨by simp, by simpa using hEmpty,
        fun position => ?_⟩
      simp only [hFound, List.zipIdx_cons,
        List.mem_cons, Prod.mk.injEq]
      constructor
      · intro hSome
        rcases hSome with ⟨other, hMem, hTrue⟩
        exact ⟨other, .inr hMem, hTrue⟩
      · intro hSome
        rcases hSome with ⟨other, ⟨hSame, _⟩ | hMem, hTrue⟩
        · rw [hSame, ← hHolds] at hTrue
          cases hTrue
        · exact ⟨other, hMem, hTrue⟩

variable {preserveLeft : Bool} {lefts : List (Row φ width)}

theorem probeAll_ok
    {matched : List Nat}
    (hOk : probeAll predicate slices preserveLeft rights
      lefts = .ok (rows, matched)) :
    rows = lefts.flatMap (Library.OuterJoin.extend
        (merge slices) (holds predicate) preserveLeft
          rights) ∧
      ∀ position, position ∈ matched ↔
        ∃ left ∈ lefts, ∃ right,
          (right, position) ∈ rights.zipIdx ∧
          holds predicate (merge slices left right) =
            true := by
  induction lefts generalizing rows matched with
  | nil =>
    cases hOk
    simp
  | cons left rest ih =>
    rcases ok_of_bind hOk with
      ⟨⟨here, found⟩, hHere, hRest⟩
    rcases ok_of_bind hRest with
      ⟨⟨later, seen⟩, hLater, hLast⟩
    rcases probe_ok hHere with ⟨hRows, hEmpty, hFound⟩
    rcases ih hLater with ⟨hTail, hSeen⟩
    cases hLast
    constructor
    · rw [List.flatMap_cons, hEmpty, hRows, hTail]
      rfl
    · intro position
      simp only [List.mem_append, hFound, hSeen,
        List.mem_cons, exists_eq_or_imp]

/- A nested-loop join that does not raise is an outer join. -/
theorem nestedLoopJoin_ok
    {preserveRight : Bool}
    (hOk : nestedLoopJoin predicate slices preserveLeft
      preserveRight lefts rights = .ok rows) :
    rows = Library.OuterJoin.outerJoin (merge slices)
      (holds predicate) preserveLeft preserveRight lefts
        rights := by
  rcases ok_of_bind hOk with
    ⟨⟨found, matched⟩, hFound, hLast⟩
  rcases probeAll_ok hFound with ⟨hRows, hMatched⟩
  cases hLast
  unfold Library.OuterJoin.outerJoin
  rw [hRows, Library.OuterJoin.unmatched_eq hMatched]

theorem filterRows_ok
    {kept : List (Row φ width)}
    (hOk : filterRows predicate rows = .ok kept) :
    kept = rows.filter (holds predicate) := by
  induction rows generalizing kept with
  | nil =>
    cases hOk
    rfl
  | cons row rest ih =>
    rcases ok_of_bind hOk with ⟨matched, hMatched, hRest⟩
    rcases ok_of_bind hRest with ⟨later, hLater, hLast⟩
    cases hLast
    rw [List.filter_cons, ← matchesRow_ok hMatched, ih hLater]

end Running

end Executor

end ChenDB
