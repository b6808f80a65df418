import ChenDB.Executor.Ordering
import ChenDB.Optimizer.Nullability

/-
  `HashJoin`: the rows on the left in a table by their key, the
  rows on the right looked up in it, and last the rows on the
  left that never matched.
-/

--
-- Equijoins
--

namespace ChenDB

namespace Executor

open Library.StateExcept (ok_of_bind)
open Optimizer (itemReferences references)

variable {φ : Type} {width : Nat}
variable {preserveLeft preserveRight : Bool} {left : Value φ}
variable {predicate : Expression φ}

/- `a AND b AND c` as its terms. -/
def splitConjunction : Expression φ → List (Expression φ)
  | .binaryOp .and left right =>
    splitConjunction left ++ splitConjunction right
  | expression => [expression]

def rebuildConjunction :
    List (Expression φ) → Option (Expression φ)
  | [] => none
  | first :: rest =>
    some (rest.foldl (.binaryOp .and) first)

/- Is the slot one of the right side's? -/
def inSlices (slices : List (Nat × Nat)) (index : Nat) : Bool :=
  slices.any fun slice =>
    slice.1 ≤ index ∧ index < slice.1 + slice.2

/- A join condition one of whose terms equates something read
   on the left with something read on the right. -/
structure Equijoin (φ : Type) where
  predicate : Expression φ
  /- The slots of the right side. -/
  slices : List (Nat × Nat)
  buildKey : Expression φ
  probeKey : Expression φ
  /- Which term is hashed. -/
  used : Nat
  hashed :
    (splitConjunction predicate)[used]? =
        some (.binaryOp .eq buildKey probeKey) ∨
      (splitConjunction predicate)[used]? =
        some (.binaryOp .eq probeKey buildKey)
  left : ∀ column ∈ references buildKey,
    inSlices slices column.columnIndex = false
  right : ∀ column ∈ references probeKey,
    inSlices slices column.columnIndex = true

namespace Equijoin

/- The rest of the condition. -/
def residual (join : Equijoin φ) : Option (Expression φ) :=
  rebuildConjunction
    ((splitConjunction join.predicate).eraseIdx join.used)

end Equijoin

/- The tables an expression reads. -/
def tablesOf (expression : Expression φ) : List Nat :=
  (references expression).filterMap (·.scanPosition)

/- Are these the tables of a left side? -/
def onLeft (leftTables tables : List Nat) : Bool :=
  tables.all fun table => table ∈ leftTables

def offLeft (leftTables tables : List Nat) : Bool :=
  tables.all fun table => table ∉ leftTables

/- The first `left.x = right.y` among the applicable
   conjuncts. -/
def equijoinKeys
    (conjuncts : List (Expression φ))
    (leftTables : List Nat) :
    List Nat → Option (Expression φ × Expression φ × Nat)
  | [] => none
  | index :: rest =>
    match conjuncts[index]? with
    | some (.binaryOp .eq left right) =>
      if (tablesOf left).isEmpty ∨
          (tablesOf right).isEmpty then
        equijoinKeys conjuncts leftTables rest
      else if onLeft leftTables (tablesOf left) ∧
          offLeft leftTables (tablesOf right) then
        some (left, right, index)
      else if onLeft leftTables (tablesOf right) ∧
          offLeft leftTables (tablesOf left) then
        some (right, left, index)
      else equijoinKeys conjuncts leftTables rest
    | _ => equijoinKeys conjuncts leftTables rest

/- What it finds is one of the conjuncts, with its build side on
   the left and its probe side off it. -/
theorem equijoinKeys_some
    {conjuncts : List (Expression φ)}
    {leftTables applicable : List Nat}
    {buildKey probeKey : Expression φ}
    {used : Nat}
    (hKeys : equijoinKeys conjuncts leftTables applicable =
      some (buildKey, probeKey, used)) :
    used ∈ applicable ∧
    (conjuncts[used]? =
        some (.binaryOp .eq buildKey probeKey) ∨
      conjuncts[used]? =
        some (.binaryOp .eq probeKey buildKey)) ∧
    onLeft leftTables (tablesOf buildKey) = true ∧
    offLeft leftTables (tablesOf probeKey) = true := by
  induction applicable with
  | nil => cases hKeys
  | cons index rest ih =>
    have hLater : equijoinKeys conjuncts leftTables rest =
          some (buildKey, probeKey, used) →
        used ∈ index :: rest ∧ _ :=
      fun hRest =>
        ⟨.tail _ (ih hRest).1, (ih hRest).2⟩
    unfold equijoinKeys at hKeys
    split at hKeys
    · rename_i left right hTerm
      split at hKeys
      · exact hLater hKeys
      · split at hKeys
        · rename_i hSides
          cases hKeys
          exact ⟨.head _, .inl hTerm, hSides⟩
        · split at hKeys
          · rename_i hSides
            cases hKeys
            exact ⟨.head _, .inr hTerm, hSides⟩
          · exact hLater hKeys
    · exact hLater hKeys

/- `_outer_equijoin_keys`. -/
def outerEquijoinKeys
    (predicate : Expression φ)
    (leftTables : List Nat) :
    Option (Expression φ × Expression φ × Nat) :=
  equijoinKeys (splitConjunction predicate) leftTables
    (List.range (splitConjunction predicate).length)

/-
  Where the slots of the right side are those of the tables off
  the left, the keys that are found make an equijoin.
-/
def Equijoin.ofKeys
    {predicate : Expression φ}
    {leftTables : List Nat}
    {buildKey probeKey : Expression φ}
    {used : Nat}
    (slices : List (Nat × Nat))
    (hKeys : outerEquijoinKeys predicate leftTables =
      some (buildKey, probeKey, used))
    (hSlots : ∀ column ∈
        references buildKey ++ references probeKey,
      ∃ table, column.scanPosition = some table ∧
        inSlices slices column.columnIndex =
          decide (table ∉ leftTables)) : Equijoin φ where
  predicate := predicate
  slices := slices
  buildKey := buildKey
  probeKey := probeKey
  used := used
  hashed := (equijoinKeys_some hKeys).2.1
  left column hColumn := by
    rcases hSlots column (List.mem_append_left _ hColumn) with
      ⟨table, hTable, hSlot⟩
    have hLeft := List.all_eq_true.mp
      (equijoinKeys_some hKeys).2.2.1 table
      (List.mem_filterMap.mpr ⟨column, hColumn, hTable⟩)
    rw [hSlot, decide_eq_false_iff_not, not_not]
    exact of_decide_eq_true hLeft
  right column hColumn := by
    rcases hSlots column (List.mem_append_right _ hColumn) with
      ⟨table, hTable, hSlot⟩
    rw [hSlot]
    exact List.all_eq_true.mp
      (equijoinKeys_some hKeys).2.2.2 table
      (List.mem_filterMap.mpr ⟨column, hColumn, hTable⟩)

--
-- The Table
--

section Tables

variable [Double φ]

/- Python's `==`, by which a dictionary tells its keys apart. -/
def sameKey (left right : Value φ) : Bool :=
  match asNumber left, asNumber right with
  | some left, some right => compareNumbers left right = .eq
  | _, _ =>
    match left, right with
    | .text left, .text right => left = right
    | .null, .null => true
    | _, _ => false

/- The indices of the rows of each key. -/
abbrev HashTable (φ : Type) := List (Value φ × List Nat)

/- `table.setdefault(key, []).append(index)`. -/
def HashTable.add
    (key : Value φ)
    (index : Nat) : HashTable φ → HashTable φ
  | [] => [(key, [index])]
  | entry :: rest =>
    if sameKey entry.1 key then
      (entry.1, entry.2 ++ [index]) :: rest
    else entry :: HashTable.add key index rest

/- `table.get(key, ())`. -/
def HashTable.get
    (table : HashTable φ)
    (key : Value φ) : List Nat :=
  match table.find? fun entry => sameKey entry.1 key with
  | some entry => entry.2
  | none => []

end Tables

--
-- The Operator
--

/- The fields of a `HashJoin` that is open, with what is left of
   its right input. -/
structure HashJoin (φ : Type) (width : Nat) where
  build : List (Row φ width)
  table : HashTable φ
  buildMatched : List Nat
  bucket : List Nat
  position : Nat
  probeRow : Row φ width
  probeMatched : Bool
  drain : Nat
  draining : Bool
  right : List (Row φ width)

/- What one turn of the loop in `_produce` comes to. -/
inductive Turn (φ : Type) (width : Nat) where
  | emit (row : Row φ width) (after : HashJoin φ width)
  | again (after : HashJoin φ width)
  | done

section Running

variable [Double φ]

/- The rows on the left, from an index on, into the table. A
   NULL key is kept out of it. -/
def buildTable
    (buildKey : Expression φ)
    (index : Nat)
    (table : HashTable φ) :
    List (Row φ width) → Except EngineError (HashTable φ)
  | [] => .ok table
  | row :: rest => do
      let key ← evaluate row buildKey
      buildTable buildKey (index + 1)
        (if key.isNull then table else table.add key index)
        rest

/- The operator before its first `next`. -/
def HashJoin.opened
    (table : HashTable φ)
    (lefts rights : List (Row φ width)) : HashJoin φ width where
  build := lefts
  table := table
  buildMatched := []
  bucket := []
  position := 0
  probeRow := fun _ => .null
  probeMatched := false
  drain := 0
  draining := false
  right := rights

def onOpenHash
    (join : Equijoin φ)
    (lefts rights : List (Row φ width)) :
    Except EngineError (HashJoin φ width) := do
  let table ← buildTable join.buildKey 0 [] lefts
  pure (HashJoin.opened table lefts rights)

/- One turn of the loop of `_unmatched_build`. -/
def unmatchedBuild
    (preserveLeft : Bool)
    (state : HashJoin φ width) : Turn φ width :=
  if preserveLeft then
    match state.build[state.drain]? with
    | none => .done
    | some row =>
      let after := { state with drain := state.drain + 1 }
      if state.drain ∈ state.buildMatched then .again after
      else .emit row after
  else .done

/- One turn of the loop of `_produce`. -/
def turn
    (join : Equijoin φ)
    (preserveLeft preserveRight : Bool)
    (state : HashJoin φ width) :
    Except EngineError (Turn φ width) :=
  match state.bucket[state.position]? with
  | some index => do
      let after := { state with position := state.position + 1 }
      match state.build[index]? with
      | none => .error (.indexError "list index out of range")
      | some row => do
          let merged := merge join.slices row state.probeRow
          let matched ←
            (if join.residual.isNone then pure true
              else matchesRow join.predicate
                "a join condition" merged)
          pure (if matched then
            .emit merged
              { after with
                probeMatched := true
                buildMatched :=
                  if preserveLeft then
                    index :: state.buildMatched
                  else state.buildMatched }
          else .again after)
  | none =>
    -- The bucket is exhausted.
    if preserveRight && !state.bucket.isEmpty &&
        !state.probeMatched then
      pure (.emit state.probeRow { state with bucket := [] })
    else if state.draining then
      pure (unmatchedBuild preserveLeft state)
    else
      match state.right with
      | [] => pure (.again { state with draining := true })
      | probe :: rest => do
          let after := { state with right := rest }
          let key ← evaluate probe join.probeKey
          let bucket :=
            if key.isNull then [] else state.table.get key
          pure (if bucket.isEmpty then
            if preserveRight then .emit probe after
            else .again after
          else .again
            { after with
              probeRow := probe
              bucket := bucket
              position := 0
              probeMatched := false })

/- What is left to do: input, then the bucket, then the rows on
   the left that never matched. -/
def HashJoin.remaining
    (state : HashJoin φ width) : Nat × Nat × Nat :=
  (state.right.length + if state.draining then 0 else 1,
    2 * (state.bucket.length - state.position) +
      (if state.bucket.isEmpty then 0 else 1),
    state.build.length - state.drain)

def Turn.after : Turn φ width → Option (HashJoin φ width)
  | .emit _ after => some after
  | .again after => some after
  | .done => none

/- Is a pair of the bucket let through? The condition is looked
   at again when there is more of it than the hashed term. -/
def accepts
    (join : Equijoin φ)
    (merged : Row φ width) : Bool :=
  join.residual.isNone || holds join.predicate merged

/- The bucket of a row on the right, where its key evaluates. -/
def bucketOf
    (table : HashTable φ)
    (key : Value φ) : List Nat :=
  if key.isNull then [] else table.get key

/- A row on the right that has found nothing in its bucket. -/
def leftOver
    (preserveRight : Bool)
    (state : HashJoin φ width) : Bool :=
  preserveRight && !state.bucket.isEmpty && !state.probeMatched

/- Everything a turn that does not raise can do. -/
inductive TurnCase
    (join : Equijoin φ)
    (preserveLeft preserveRight : Bool)
    (state : HashJoin φ width) : Turn φ width → Prop where
  | candidate
      {index : Nat}
      {row : Row φ width}
      (hBucket : state.bucket[state.position]? = some index)
      (hRow : state.build[index]? = some row) :
      TurnCase join preserveLeft preserveRight state
        (if accepts join
            (merge join.slices row state.probeRow) then
          .emit (merge join.slices row state.probeRow)
            { state with
              position := state.position + 1
              probeMatched := true
              buildMatched :=
                if preserveLeft then
                  index :: state.buildMatched
                else state.buildMatched }
        else .again
          { state with position := state.position + 1 })
  | leftOver
      (hEnd : state.bucket[state.position]? = none)
      (hLeft : leftOver preserveRight state = true) :
      TurnCase join preserveLeft preserveRight state
        (.emit state.probeRow { state with bucket := [] })
  | drain
      (hEnd : state.bucket[state.position]? = none)
      (hLeft : leftOver preserveRight state = false)
      (hDraining : state.draining = true) :
      TurnCase join preserveLeft preserveRight state
        (unmatchedBuild preserveLeft state)
  | exhausted
      (hEnd : state.bucket[state.position]? = none)
      (hLeft : leftOver preserveRight state = false)
      (hDraining : state.draining = false)
      (hRight : state.right = []) :
      TurnCase join preserveLeft preserveRight state
        (.again { state with draining := true })
  | probe
      {row : Row φ width}
      {rest : List (Row φ width)}
      {key : Value φ}
      (hEnd : state.bucket[state.position]? = none)
      (hLeft : leftOver preserveRight state = false)
      (hDraining : state.draining = false)
      (hRight : state.right = row :: rest)
      (hKey : evaluate row join.probeKey = .ok key) :
      TurnCase join preserveLeft preserveRight state
        (if (bucketOf state.table key).isEmpty then
          if preserveRight then
            .emit row { state with right := rest }
          else .again { state with right := rest }
        else .again
          { state with
            right := rest
            probeRow := row
            bucket := bucketOf state.table key
            position := 0
            probeMatched := false })

variable {join : Equijoin φ}
variable {state : HashJoin φ width} {outcome : Turn φ width}

theorem turnCase_of_ok
    (hTurn : turn join preserveLeft preserveRight state =
      .ok outcome) :
    TurnCase join preserveLeft preserveRight state outcome := by
  unfold turn at hTurn
  split at hTurn
  · rename_i index hBucket
    simp only at hTurn
    split at hTurn
    · cases hTurn
    · rename_i row hRow
      rcases ok_of_bind hTurn with ⟨matched, hMatched, hLast⟩
      have hAccepts : matched = accepts join
          (merge join.slices row state.probeRow) := by
        unfold accepts
        cases hResidual : join.residual.isNone with
        | true =>
          rw [hResidual] at hMatched
          cases hMatched
          rfl
        | false =>
          rw [hResidual] at hMatched
          exact (matchesRow_ok hMatched).trans
            (Bool.false_or _).symm
      have hCase := @TurnCase.candidate _ _ _ join
        preserveLeft preserveRight state _ _ hBucket hRow
      rw [← hAccepts] at hCase
      cases hLast
      exact hCase
  · rename_i hEnd
    split at hTurn
    · rename_i hLeft
      cases hTurn
      exact .leftOver hEnd hLeft
    · rename_i hLeft
      have hLeft := Bool.eq_false_of_not_eq_true hLeft
      split at hTurn
      · rename_i hDraining
        cases hTurn
        exact .drain hEnd hLeft hDraining
      · rename_i hDraining
        have hDraining := Bool.eq_false_of_not_eq_true hDraining
        split at hTurn
        · rename_i hRight
          cases hTurn
          exact .exhausted hEnd hLeft hDraining hRight
        · rename_i row rest hRight
          rcases ok_of_bind hTurn with ⟨key, hKey, hLast⟩
          cases hLast
          exact .probe hEnd hLeft hDraining hRight hKey

variable {after : HashJoin φ width}

theorem turn_decreases
    (hTurn : turn join preserveLeft preserveRight state =
      .ok outcome)
    (hAfter : outcome.after = some after) :
    Prod.Lex (· < ·) (Prod.Lex (· < ·) (· < ·))
      after.remaining state.remaining := by
  have hIndex : ∀ {index : Nat},
      state.bucket[state.position]? = some index →
        state.position < state.bucket.length := by
    intro index hBucket
    exact (List.getElem?_eq_some_iff.mp hBucket).1
  cases turnCase_of_ok hTurn with
  | candidate hBucket hRow =>
    have hIndex := hIndex hBucket
    have hLess : ∀ later : HashJoin φ width,
        later.right = state.right →
        later.draining = state.draining →
        later.bucket = state.bucket →
        later.position = state.position + 1 →
        Prod.Lex (· < ·) (Prod.Lex (· < ·) (· < ·))
          later.remaining state.remaining := by
      intro later hRight hDraining hSame hPosition
      unfold HashJoin.remaining
      rw [hRight, hDraining, hSame, hPosition]
      exact Prod.Lex.right _ (Prod.Lex.left _ _ (by omega))
    split at hAfter
    · cases hAfter
      exact hLess _ rfl rfl rfl rfl
    · cases hAfter
      exact hLess _ rfl rfl rfl rfl
  | leftOver hEnd hLeft =>
    cases hAfter
    have hLength := List.getElem?_eq_none_iff.mp hEnd
    have hSome : state.bucket.isEmpty = false := by
      unfold leftOver at hLeft
      simp_all
    refine Prod.Lex.right _ (Prod.Lex.left _ _ ?_)
    simp [hSome]
  | drain hEnd hLeft hDraining =>
    unfold unmatchedBuild at hAfter
    split at hAfter
    · split at hAfter
      · cases hAfter
      · rename_i row hRow
        have hLength := (List.getElem?_eq_some_iff.mp hRow).1
        split at hAfter
        · cases hAfter
          exact Prod.Lex.right _ (Prod.Lex.right _
            (show state.build.length - (state.drain + 1) <
              state.build.length - state.drain by omega))
        · cases hAfter
          exact Prod.Lex.right _ (Prod.Lex.right _
            (show state.build.length - (state.drain + 1) <
              state.build.length - state.drain by omega))
    · cases hAfter
  | exhausted hEnd hLeft hDraining hRight =>
    cases hAfter
    exact Prod.Lex.left _ _ (by simp [hDraining])
  | probe hEnd hLeft hDraining hRight hKey =>
    have hLess : ∀ later : HashJoin φ width,
        later.right.length + 1 = state.right.length →
        later.draining = state.draining →
        Prod.Lex (· < ·) (Prod.Lex (· < ·) (· < ·))
          later.remaining state.remaining := by
      intro later hLength hSame
      unfold HashJoin.remaining
      rw [hSame]
      exact Prod.Lex.left _ _ (by omega)
    split at hAfter
    · split at hAfter
      · cases hAfter
        exact hLess _ (by simp [hRight]) rfl
      · cases hAfter
        exact hLess _ (by simp [hRight]) rfl
    · cases hAfter
      exact hLess _ (by simp [hRight]) rfl

/- The rows that `next` hands out, one call after another, until
   there is none. -/
def run
    (join : Equijoin φ)
    (preserveLeft preserveRight : Bool)
    (state : HashJoin φ width) :
    Except EngineError (List (Row φ width)) :=
  match _hTurn : turn join preserveLeft preserveRight state with
  | .error raised => .error raised
  | .ok .done => .ok []
  | .ok (.again after) =>
    run join preserveLeft preserveRight after
  | .ok (.emit row after) => do
      let rows ← run join preserveLeft preserveRight after
      pure (row :: rows)
termination_by state.remaining
decreasing_by
  · exact turn_decreases _hTurn rfl
  · exact turn_decreases _hTurn rfl

theorem run_again
    (hTurn : turn join preserveLeft preserveRight state =
      .ok (.again after)) :
    run join preserveLeft preserveRight state =
      run join preserveLeft preserveRight after := by
  conv => lhs; rw [run]
  split <;> simp_all

theorem run_emit
    {row : Row φ width}
    {rows : List (Row φ width)}
    (hTurn : turn join preserveLeft preserveRight state =
      .ok (.emit row after))
    (hAfter : run join preserveLeft preserveRight after =
      .ok rows) :
    run join preserveLeft preserveRight state =
      .ok (row :: rows) := by
  rw [run]
  split <;> simp_all [bind, Except.bind, pure, Except.pure]

theorem run_done
    (hTurn : turn join preserveLeft preserveRight state =
      .ok .done) :
    run join preserveLeft preserveRight state = .ok [] := by
  rw [run]
  split <;> simp_all

def hashJoin
    (join : Equijoin φ)
    (preserveLeft preserveRight : Bool)
    (lefts rights : List (Row φ width)) :
    Except EngineError (List (Row φ width)) := do
  let state ← onOpenHash join lefts rights
  run join preserveLeft preserveRight state

end Running

--
-- What the Loop Hands Out
--

section Expected

variable [Double φ]

/- The candidates of a row on the right that are let through. -/
def hits
    (join : Equijoin φ)
    (build : List (Row φ width))
    (probe : Row φ width)
    (bucket : List Nat) : List Nat :=
  bucket.filter fun index =>
    build[index]?.any fun row =>
      accepts join (merge join.slices row probe)

def rowsAt
    (join : Equijoin φ)
    (build : List (Row φ width))
    (probe : Row φ width)
    (found : List Nat) : List (Row φ width) :=
  found.filterMap fun index =>
    build[index]?.map fun row => merge join.slices row probe

/- The candidates of a row on the right, if its key
   evaluates. -/
def candidates
    (join : Equijoin φ)
    (table : HashTable φ)
    (probe : Row φ width) : List Nat :=
  match evaluate probe join.probeKey with
  | .ok key => bucketOf table key
  | .error _ => []

def foundFor
    (join : Equijoin φ)
    (state : HashJoin φ width)
    (probe : Row φ width) : List Nat :=
  hits join state.build probe
    (candidates join state.table probe)

/- What a row on the right comes to. -/
def probed
    (join : Equijoin φ)
    (preserveRight : Bool)
    (state : HashJoin φ width)
    (probe : Row φ width) : List (Row φ width) :=
  if preserveRight && (foundFor join state probe).isEmpty
  then [probe]
  else rowsAt join state.build probe
    (foundFor join state probe)

/- The rows on the left, from an index on, that are not among
   the matched ones. -/
def drained
    (build : List (Row φ width))
    (drain : Nat)
    (matched : List Nat) : List (Row φ width) :=
  ((build.zipIdx.drop drain).filter fun entry =>
    entry.2 ∉ matched).map Prod.fst

/- What is still found in the bucket in hand. -/
def foundHere
    (join : Equijoin φ)
    (state : HashJoin φ width) : List Nat :=
  hits join state.build state.probeRow
    (state.bucket.drop state.position)

/- What is still to come from a state. -/
def expected
    (join : Equijoin φ)
    (preserveLeft preserveRight : Bool)
    (state : HashJoin φ width) : List (Row φ width) :=
  rowsAt join state.build state.probeRow
      (foundHere join state) ++
    ((if leftOver preserveRight state &&
          (foundHere join state).isEmpty then
        [state.probeRow]
      else []) ++
    (state.right.flatMap (probed join preserveRight state) ++
    if preserveLeft then
      drained state.build state.drain
        (state.buildMatched ++ (foundHere join state ++
          state.right.flatMap (foundFor join state)))
    else []))

variable {build : List (Row φ width)} {drain : Nat}

omit [Double φ] in
theorem drained_congr
    {matched matched' : List Nat}
    (hSame : ∀ index, index ∈ matched ↔ index ∈ matched') :
    drained build drain matched =
      drained build drain matched' := by
  unfold drained
  simp only [hSame]

omit [Double φ] in
/- The next row on the left, if it has not matched. -/
theorem drained_head
    {row : Row φ width}
    (hRow : build[drain]? = some row)
    (matched : List Nat) :
    drained build drain matched =
      if drain ∈ matched then
        drained build (drain + 1) matched
      else row :: drained build (drain + 1) matched := by
  rcases List.getElem?_eq_some_iff.mp hRow with ⟨hLength, hSame⟩
  have hZip : drain < build.zipIdx.length := by
    simpa using hLength
  have hPair : build.zipIdx[drain] = (row, drain) := by
    simp [hSame]
  unfold drained
  rw [List.drop_eq_getElem_cons hZip, hPair, List.filter_cons]
  by_cases hMatched : drain ∈ matched
  · simp [hMatched]
  · simp [hMatched]

/- A row and what is to come after it, or only the latter. -/
def Continues
    (join : Equijoin φ)
    (preserveLeft preserveRight : Bool)
    (rows : List (Row φ width)) : Turn φ width → Prop
  | .emit row after =>
    rows = row ::
      expected join preserveLeft preserveRight after ∧
    (after.draining = true → after.right = [])
  | .again after =>
    rows = expected join preserveLeft preserveRight after ∧
    (after.draining = true → after.right = [])
  | .done => rows = []

/- With the bucket at its end there is nothing in hand. -/
theorem expected_atEnd
    {join : Equijoin φ}
    (preserveLeft : Bool)
    {preserveRight : Bool}
    {state : HashJoin φ width}
    (hEnd : state.bucket[state.position]? = none)
    (hLeft : leftOver preserveRight state = false) :
    expected join preserveLeft preserveRight state =
      state.right.flatMap (probed join preserveRight state) ++
        if preserveLeft then
          drained state.build state.drain
            (state.buildMatched ++
              state.right.flatMap (foundFor join state))
        else [] := by
  have hFound : foundHere join state = [] := by
    unfold foundHere
    rw [List.drop_eq_nil_of_le
      (List.getElem?_eq_none_iff.mp hEnd)]
    rfl
  unfold expected
  rw [hFound, hLeft]
  rfl

theorem foundHere_candidate
    {join : Equijoin φ}
    {state : HashJoin φ width}
    {index : Nat}
    {row : Row φ width}
    (hBucket : state.bucket[state.position]? = some index)
    (hRow : state.build[index]? = some row) :
    foundHere join state =
      if accepts join
          (merge join.slices row state.probeRow) then
        index :: foundHere join
          { state with position := state.position + 1 }
      else foundHere join
        { state with position := state.position + 1 } := by
  rcases List.getElem?_eq_some_iff.mp hBucket with
    ⟨hLength, hIndex⟩
  unfold foundHere hits
  rw [List.drop_eq_getElem_cons hLength, hIndex,
    List.filter_cons, hRow]
  rfl

variable {join : Equijoin φ}
variable {state : HashJoin φ width}

theorem expected_step
    {outcome : Turn φ width}
    (hDrained : state.draining = true → state.right = [])
    (hCase : TurnCase join preserveLeft preserveRight state
      outcome) :
    Continues join preserveLeft preserveRight
      (expected join preserveLeft preserveRight state)
      outcome := by
  cases hCase with
  | candidate hBucket hRow =>
    rename_i index row
    have hFound := @foundHere_candidate _ _ _ join state _ _
      hBucket hRow
    split
    · rename_i hAccepts
      rw [if_pos hAccepts] at hFound
      refine ⟨?_, hDrained⟩
      unfold expected
      rw [hFound]
      have hRows : ∀ found, rowsAt join state.build
          state.probeRow (index :: found) =
            merge join.slices row state.probeRow ::
              rowsAt join state.build state.probeRow
                found := by
        intro found
        simp [rowsAt, hRow]
      have hNone : ∀ matched, leftOver preserveRight
          { state with
            position := state.position + 1
            probeMatched := true
            buildMatched := matched } = false := by
        intro matched
        simp [leftOver]
      rw [hRows, hNone]
      cases preserveLeft with
      | false =>
        simp
        rfl
      | true =>
        simp only [List.isEmpty_cons, Bool.and_false,
          Bool.false_and, List.cons_append,
          List.cons.injEq, true_and]
        refine congrArg _ (congrArg _ (congrArg _ ?_))
        refine drained_congr fun position => ?_
        simp only [if_true, List.mem_append, List.mem_cons]
        constructor
        · rintro (hOld | rfl | hLater)
          · exact .inl (.inr hOld)
          · exact .inl (.inl rfl)
          · exact .inr hLater
        · rintro ((rfl | hOld) | hLater)
          · exact .inr (.inl rfl)
          · exact .inl hOld
          · exact .inr (.inr hLater)
    · rename_i hAccepts
      rw [if_neg hAccepts] at hFound
      refine ⟨?_, hDrained⟩
      unfold expected
      rw [hFound]
      rfl
  | leftOver hEnd hLeft =>
    refine ⟨?_, hDrained⟩
    have hFound : foundHere join state = [] := by
      unfold foundHere
      rw [List.drop_eq_nil_of_le
        (List.getElem?_eq_none_iff.mp hEnd)]
      rfl
    have hAfter : foundHere join
        { state with bucket := [] } = [] := by
      simp [foundHere, hits]
    have hNone : leftOver preserveRight
        { state with bucket := [] } = false := by
      simp [leftOver]
    unfold expected
    rw [hFound, hAfter, hLeft, hNone]
    rfl
  | drain hEnd hLeft hDraining =>
    rw [expected_atEnd preserveLeft hEnd hLeft,
      hDrained hDraining]
    unfold unmatchedBuild
    cases preserveLeft with
    | false => rfl
    | true =>
      simp only [List.flatMap_nil, List.nil_append,
        List.append_nil, if_true]
      split
      · rename_i hRow
        have hLength := List.getElem?_eq_none_iff.mp hRow
        have hNil : state.build.zipIdx.drop state.drain =
            [] :=
          List.drop_eq_nil_of_le (by simpa using hLength)
        show drained _ _ _ = []
        rw [drained, hNil]
        rfl
      · rename_i row hRow
        have hHead := drained_head hRow state.buildMatched
        have hAfter : expected join true preserveRight
            { state with drain := state.drain + 1 } =
              drained state.build (state.drain + 1)
                state.buildMatched := by
          refine (@expected_atEnd _ _ _ join true
            preserveRight
            { state with drain := state.drain + 1 }
            hEnd hLeft).trans ?_
          show state.right.flatMap _ ++
            drained _ _ (_ ++ state.right.flatMap _) = _
          rw [hDrained hDraining, List.flatMap_nil,
            List.flatMap_nil, List.append_nil,
            List.nil_append]
        split
        · rename_i hMatched
          rw [if_pos hMatched] at hHead
          exact ⟨hHead.trans hAfter.symm, hDrained⟩
        · rename_i hMatched
          rw [if_neg hMatched] at hHead
          exact ⟨hHead.trans (congrArg _ hAfter.symm), hDrained⟩
  | exhausted hEnd hLeft hDraining hRight =>
    exact ⟨rfl, fun _ => hRight⟩
  | probe hEnd hLeft hDraining hRight hKey =>
    rename_i row rest key
    rw [expected_atEnd preserveLeft hEnd hLeft, hRight]
    have hOpen : ∀ {P : Prop}, state.draining = true → P :=
      fun hTrue => absurd (hTrue.symm.trans hDraining)
        (by decide)
    have hFound : foundFor join state row =
        hits join state.build row
          (bucketOf state.table key) := by
      simp [foundFor, candidates, hKey]
    rw [List.flatMap_cons, List.flatMap_cons]
    have hProbed : probed join preserveRight state row =
        if preserveRight &&
            (hits join state.build row
              (bucketOf state.table key)).isEmpty then [row]
        else rowsAt join state.build row
          (hits join state.build row
            (bucketOf state.table key)) := by
      unfold probed
      rw [hFound]
    rw [hProbed, hFound]
    cases hBucket : (bucketOf state.table key).isEmpty with
    | true =>
      have hNil := List.isEmpty_iff.mp hBucket
      have hAfter := @expected_atEnd _ _ _ join
        preserveLeft preserveRight
        { state with right := rest } hEnd hLeft
      rw [hNil]
      cases preserveRight with
      | true =>
        refine ⟨?_, hOpen⟩
        rw [hAfter]
        rfl
      | false =>
        refine ⟨?_, hOpen⟩
        rw [hAfter]
        rfl
    | false =>
      refine ⟨?_, hOpen⟩
      have hLater : leftOver preserveRight
          { state with
            right := rest
            probeRow := row
            bucket := bucketOf state.table key
            position := 0
            probeMatched := false } = preserveRight := by
        simp [leftOver, hBucket]
      have hHere : foundHere join
          { state with
            right := rest
            probeRow := row
            bucket := bucketOf state.table key
            position := 0
            probeMatched := false } =
          hits join state.build row
            (bucketOf state.table key) := rfl
      unfold expected
      rw [hLater, hHere, List.append_assoc]
      cases hNone : preserveRight &&
          (hits join state.build row
            (bucketOf state.table key)).isEmpty with
      | true =>
        have hNil := List.isEmpty_iff.mp
          (Bool.and_eq_true_iff.mp hNone).2
        rw [hNil]
        rfl
      | false => rfl

/- The run of the loop to its end. -/
theorem run_ok
    {state : HashJoin φ width}
    {rows : List (Row φ width)}
    (hDrained : state.draining = true → state.right = [])
    (hOk : run join preserveLeft preserveRight state =
      .ok rows) :
    rows = expected join preserveLeft preserveRight state := by
  rw [run] at hOk
  split at hOk
  · cases hOk
  · rename_i hTurn
    cases hOk
    exact (expected_step hDrained (turnCase_of_ok hTurn)).symm
  · rename_i after hTurn
    rcases expected_step hDrained (turnCase_of_ok hTurn) with
      ⟨hSame, hAfter⟩
    exact (run_ok hAfter hOk).trans hSame.symm
  · rename_i row after hTurn
    rcases expected_step hDrained (turnCase_of_ok hTurn) with
      ⟨hSame, hAfter⟩
    rcases ok_of_bind hOk with ⟨later, hLater, hLast⟩
    cases hLast
    rw [run_ok hAfter hLater, hSame]
termination_by state.remaining
decreasing_by
  · exact turn_decreases (by assumption) rfl
  · exact turn_decreases (by assumption) rfl

end Expected

--
-- The Table's Buckets
--

/- Equality of Python's numbers, whichever of the two types each
   is of. -/
class LawfulEquality (φ : Type) [Double φ] : Prop where
  symm : ∀ {left right : φ ⊕ Int},
    compareNumbers left right = .eq →
      compareNumbers right left = .eq
  trans : ∀ {first second third : φ ⊕ Int},
    compareNumbers first second = .eq →
    compareNumbers second third = .eq →
      compareNumbers first third = .eq

section Buckets

variable [Double φ] [LawfulEquality φ]

variable {right : Value φ}

omit [LawfulEquality φ] in
/- Equal keys are two equal numbers, or one text, or NULL. -/
theorem sameKey_iff :
    sameKey left right = true ↔
      (∃ first second, asNumber left = some first ∧
        asNumber right = some second ∧
        compareNumbers first second = .eq) ∨
      (∃ text, left = .text text ∧ right = .text text) ∨
      (left = .null ∧ right = .null) := by
  cases left with
  | null => cases right <;> simp [sameKey, asNumber]
  | text left =>
    cases right <;> simp [sameKey, asNumber, eq_comm]
  | _ => cases right <;> simp [sameKey, asNumber]

theorem sameKey_symm
    (hSame : sameKey left right = true) :
    sameKey right left = true := by
  rw [sameKey_iff] at hSame ⊢
  rcases hSame with
    ⟨first, second, hFirst, hSecond, hEqual⟩ |
      ⟨text, hLeft, hRight⟩ | ⟨hLeft, hRight⟩
  · exact .inl ⟨second, first, hSecond, hFirst,
      LawfulEquality.symm hEqual⟩
  · exact .inr (.inl ⟨text, hRight, hLeft⟩)
  · exact .inr (.inr ⟨hRight, hLeft⟩)

theorem sameKey_trans
    {first second third : Value φ}
    (hFirst : sameKey first second = true)
    (hSecond : sameKey second third = true) :
    sameKey first third = true := by
  rw [sameKey_iff] at hFirst hSecond ⊢
  rcases hFirst with
    ⟨number, middle, hNumber, hMiddle, hEqual⟩ |
      ⟨text, rfl, rfl⟩ | ⟨rfl, rfl⟩
  · rcases hSecond with
      ⟨middle', last, hMiddle', hLast, hEqual'⟩ |
        ⟨text, rfl, _⟩ | ⟨rfl, _⟩
    · rw [hMiddle] at hMiddle'
      cases hMiddle'
      exact .inl ⟨number, last, hNumber, hLast,
        LawfulEquality.trans hEqual hEqual'⟩
    · cases hMiddle
    · cases hMiddle
  · exact hSecond
  · exact hSecond

/- One more row in the bucket of its key, and in no other. -/
theorem get_add
    (table : HashTable φ)
    (key : Value φ)
    (index : Nat)
    (wanted : Value φ) :
    (table.add key index).get wanted =
      if sameKey key wanted then table.get wanted ++ [index]
      else table.get wanted := by
  induction table with
  | nil =>
    unfold HashTable.add HashTable.get
    cases hWanted : sameKey key wanted <;>
      simp [hWanted]
  | cons entry rest ih =>
    unfold HashTable.add
    cases hEntry : sameKey entry.1 key with
    | true =>
      -- The entry has the key of the row.
      have hBoth : sameKey entry.1 wanted =
          sameKey key wanted := by
        rw [Bool.eq_iff_iff]
        exact ⟨sameKey_trans (sameKey_symm hEntry),
          sameKey_trans hEntry⟩
      cases hWanted : sameKey key wanted <;>
        simp [HashTable.get, hBoth, hWanted]
    | false =>
      rw [if_neg Bool.false_ne_true]
      cases hWanted : sameKey entry.1 wanted with
      | true =>
        have hOther : sameKey key wanted = false := by
          by_contra hSame
          have hKeys := sameKey_trans hWanted
            (sameKey_symm
              (Bool.eq_true_of_not_eq_false hSame))
          rw [hEntry] at hKeys
          cases hKeys
        simp [HashTable.get, hWanted, hOther]
      | false =>
        unfold HashTable.get at ih ⊢
        rw [List.find?_cons, hWanted, ih,
          List.find?_cons, hWanted]

/- Does the row go into the bucket? -/
def goesInto
    (buildKey : Expression φ)
    (wanted : Value φ)
    (row : Row φ width) : Bool :=
  match evaluate row buildKey with
  | .ok key => !key.isNull && sameKey key wanted
  | .error _ => false

theorem get_buildTable
    {buildKey : Expression φ}
    {index : Nat}
    {table final : HashTable φ}
    {rows : List (Row φ width)}
    (hOk : buildTable buildKey index table rows = .ok final)
    (wanted : Value φ) :
    final.get wanted = table.get wanted ++
      ((rows.zipIdx index).filter fun entry =>
        goesInto buildKey wanted entry.1).map Prod.snd := by
  induction rows generalizing index table with
  | nil =>
    cases hOk
    simp
  | cons row rest ih =>
    rcases ok_of_bind hOk with ⟨key, hKey, hRest⟩
    rw [ih hRest, List.zipIdx_cons, List.filter_cons]
    have hGoes : goesInto buildKey wanted row =
        (!key.isNull && sameKey key wanted) := by
      simp [goesInto, hKey]
    rw [hGoes]
    cases hNull : key.isNull with
    | true => simp
    | false =>
      simp only [Bool.false_eq_true, if_false, get_add]
      cases hSame : sameKey key wanted with
      | true => simp
      | false => simp

end Buckets

--
-- The Condition and the Keys
--

section Conditions

variable [Double φ]
variable {row : Row φ width}

mutual

variable {row' : Row φ width}

/- An expression comes to the same on rows that agree where it
   reads them. -/
theorem evaluate_reads :
    (expression : Expression φ) →
    (∀ column ∈ references expression,
      ∀ hIndex : column.columnIndex < width,
        row ⟨column.columnIndex, hIndex⟩ =
          row' ⟨column.columnIndex, hIndex⟩) →
      evaluate row expression = evaluate row' expression
  | .literal _, _ => rfl
  | .refused _, _ => rfl
  | .column column, hReads => by
      simp only [evaluate]
      split
      · rename_i hIndex
        rw [hReads column (by simp [references]) hIndex]
      · rfl
  | .unaryOp op operand, hReads =>
    evaluate_unaryOp op (evaluate_reads operand hReads)
  | .isNullTest operand negated, hReads =>
    evaluate_isNullTest negated
      (evaluate_reads operand hReads)
  | .binaryOp op left right, hReads =>
    evaluate_binaryOp op
      (evaluate_reads left fun column hColumn =>
        hReads column (List.mem_append_left _ hColumn))
      (evaluate_reads right fun column hColumn =>
        hReads column (List.mem_append_right _ hColumn))
  | .inList operand items negated, hReads =>
    evaluate_inList negated
      (evaluate_reads operand fun column hColumn =>
        hReads column (List.mem_append_left _ hColumn))
      (fun value unknown =>
        evaluateItems_reads value unknown negated items
          fun column hColumn => hReads column
            (List.mem_append_right _ hColumn))

theorem evaluateItems_reads
    (value : Value φ)
    (unknown negated : Bool) :
    (items : Items φ) →
    (∀ column ∈ itemReferences items,
      ∀ hIndex : column.columnIndex < width,
        row ⟨column.columnIndex, hIndex⟩ =
          row' ⟨column.columnIndex, hIndex⟩) →
      evaluateItems row value unknown negated items =
        evaluateItems row' value unknown negated items
  | .one item, hReads =>
    evaluateItems_one value unknown negated
      (evaluate_reads item hReads)
  | .more item rest, hReads =>
    evaluateItems_more value unknown negated
      (evaluate_reads item fun column hColumn =>
        hReads column (List.mem_append_left _ hColumn))
      (fun unknown =>
        evaluateItems_reads value unknown negated rest
          fun column hColumn => hReads column
            (List.mem_append_right _ hColumn))

end

theorem buildKey_merge
    (join : Equijoin φ)
    (left right : Row φ width) :
    evaluate (merge join.slices left right) join.buildKey =
      evaluate left join.buildKey := by
  refine evaluate_reads _ fun column hColumn hIndex => ?_
  have hLeft := join.left column hColumn
  unfold inSlices at hLeft
  exact if_neg (Bool.not_eq_true _ ▸ hLeft)

theorem probeKey_merge
    (join : Equijoin φ)
    (left right : Row φ width) :
    evaluate (merge join.slices left right) join.probeKey =
      evaluate right join.probeKey := by
  refine evaluate_reads _ fun column hColumn hIndex => ?_
  exact if_pos (join.right column hColumn)

theorem holds_iff :
    holds predicate row = true ↔
      evaluate row predicate = .ok (.bool true) := by
  unfold holds
  split
  · rename_i hTrue
    exact ⟨fun _ => hTrue, fun _ => rfl⟩
  · rename_i hNot
    exact ⟨fun hFalse => absurd hFalse Bool.false_ne_true,
      fun hTrue => absurd hTrue hNot⟩

theorem holds_and
    {left right : Expression φ}
    (hHolds : holds (.binaryOp .and left right) row = true) :
    holds left row = true ∧ holds right row = true := by
  rcases Optimizer.and_combined (holds_iff.mp hHolds) with
    ⟨first, result, hLeft, hResult, hSettled⟩
  rw [holds_iff, holds_iff]
  rcases result with _ | _ | _
  · cases hResult
  · cases hResult
  rcases hSettled with hFirst | ⟨second, hRight, hTable⟩
  · have hFalse := hFirst .false
    rcases first with _ | _ | _ <;> cases hFalse
  · rcases first with _ | _ | _ <;>
      rcases second with _ | _ | _
    all_goals first
      | exact ⟨hLeft, hRight⟩
      | cases hTable

/- A conjunction that is TRUE has nothing but TRUE terms. -/
theorem holds_term :
    (predicate : Expression φ) →
    holds predicate row = true →
    ∀ term ∈ splitConjunction predicate,
      holds term row = true := by
  intro predicate
  induction predicate using splitConjunction.induct with
  | case1 left right ihLeft ihRight =>
    intro hHolds term hTerm
    rcases holds_and hHolds with ⟨hLeft, hRight⟩
    rw [splitConjunction] at hTerm
    rcases List.mem_append.mp hTerm with hFirst | hSecond
    · exact ihLeft hLeft term hFirst
    · exact ihRight hRight term hSecond
  | case2 expression hNot =>
    intro hHolds term hTerm
    rw [splitConjunction] at hTerm
    · rcases List.mem_singleton.mp hTerm with rfl
      exact hHolds
    · exact hNot

variable {right : Value φ} {op : BinaryOperator}

/- Two keys that the engine calls equal are one key, and the
   other way round where it compares them at all. -/
theorem sameKey_of_compare
    (hEqual : compareValues left right op = .ok .eq) :
    sameKey left right = true := by
  cases left with
  | bool left =>
    cases right with
    | bool right =>
      cases left <;> cases right <;>
        first | rfl | cases hEqual
    | _ => cases hEqual
  | _ =>
    cases right <;>
      simp_all [compareValues, sameKey, asNumber]

theorem compare_of_sameKey
    {order : Ordering}
    (hSame : sameKey left right = true)
    (hOk : compareValues left right op = .ok order) :
    order = .eq := by
  cases left with
  | bool left =>
    cases right with
    | bool right =>
      cases left <;> cases right <;> cases hOk <;>
        first | rfl | cases hSame
    | _ => cases hOk
  | _ =>
    cases right <;>
      simp_all [compareValues, sameKey, asNumber]

omit [Double φ] in
theorem splitConjunction_ne_nil (predicate : Expression φ) :
    splitConjunction predicate ≠ [] := by
  induction predicate using splitConjunction.induct with
  | case1 left right ihLeft _ =>
    rw [splitConjunction]
    exact List.append_ne_nil_of_left_ne_nil ihLeft _
  | case2 expression hNot =>
    rw [splitConjunction]
    · exact List.cons_ne_nil _ _
    · exact hNot

variable {term : Expression φ}

omit [Double φ] in
/- A condition of one term is that term. -/
theorem eq_of_splitConjunction
    (hSplit : splitConjunction predicate = [term]) :
    predicate = term := by
  induction predicate using splitConjunction.induct with
  | case1 left right _ _ =>
    rw [splitConjunction] at hSplit
    have hLeft := List.length_pos_of_ne_nil
      (splitConjunction_ne_nil left)
    have hRight := List.length_pos_of_ne_nil
      (splitConjunction_ne_nil right)
    have hLength := congrArg List.length hSplit
    simp only [List.length_append, List.length_singleton]
      at hLength
    omega
  | case2 expression hNot =>
    rw [splitConjunction] at hSplit
    · exact List.singleton_inj.mp hSplit
    · exact hNot

variable {join : Equijoin φ}

omit [Double φ] in
/- With nothing left over, the condition is the hashed term. -/
theorem predicate_of_residual
    (hTerm : (splitConjunction join.predicate)[join.used]? =
      some term)
    (hResidual : join.residual.isNone = true) :
    join.predicate = term := by
  unfold Equijoin.residual at hResidual
  have hNil : (splitConjunction join.predicate).eraseIdx
      join.used = [] := by
    cases hRest : (splitConjunction join.predicate).eraseIdx
        join.used with
    | nil => rfl
    | cons first rest =>
      rw [hRest] at hResidual
      cases hResidual
  rcases List.getElem?_eq_some_iff.mp hTerm with ⟨hIndex, hSame⟩
  have hLength := congrArg List.length hNil
  rw [List.length_eraseIdx_of_lt hIndex, List.length_nil]
    at hLength
  rcases List.length_eq_one_iff.mp (by omega :
    (splitConjunction join.predicate).length = 1) with
    ⟨only, hOnly⟩
  have hZero : join.used = 0 := by omega
  rw [hOnly, hZero] at hTerm
  cases hTerm
  exact eq_of_splitConjunction hOnly

variable {first second : Expression φ}

theorem holds_eq
    (hLeft : evaluate row first = .ok left)
    (hRight : evaluate row second = .ok right) :
    holds (.binaryOp .eq first second) row = true ↔
      left.isNull = false ∧ right.isNull = false ∧
        compareValues left right .eq = .ok .eq := by
  rw [holds_iff, evaluate_strict rfl, hLeft, hRight]
  show (if left.isNull ∨ right.isNull then pure .null
    else binaryValue .eq left right) = .ok (.bool true) ↔ _
  cases hFirst : left.isNull with
  | true => simp [pure, Except.pure]
  | false =>
    cases hSecond : right.isNull with
    | true => simp [pure, Except.pure]
    | false =>
      simp only [Bool.false_eq_true, or_self, if_false,
        true_and]
      have hValue : binaryValue .eq left right =
          compareValues left right .eq >>= fun order =>
            pure (.bool (comparison .eq order)) := rfl
      rw [hValue]
      cases compareValues left right .eq with
      | error raised => exact ⟨nofun, nofun⟩
      | ok order =>
        cases order <;>
          simp [bind, Except.bind, pure, Except.pure,
            comparison]

/- An equality that is TRUE found two keys that are one. -/
theorem keys_of_holds
    (hHolds : holds (.binaryOp .eq first second) row = true) :
    ∃ left right,
      evaluate row first = .ok left ∧
      evaluate row second = .ok right ∧
      left.isNull = false ∧ right.isNull = false ∧
      sameKey left right = true := by
  have hOk := holds_iff.mp hHolds
  rw [evaluate_strict rfl] at hOk
  rcases ok_of_bind hOk with ⟨left, hLeft, hRest⟩
  rcases ok_of_bind hRest with ⟨right, hRight, _⟩
  rcases (holds_eq hLeft hRight).mp hHolds with
    ⟨hFirst, hSecond, hEqual⟩
  exact ⟨left, right, hLeft, hRight, hFirst, hSecond,
    sameKey_of_compare hEqual⟩

variable {clause : String}

/- An equality of keys that are one, and that does not raise, is
   TRUE. -/
theorem holds_of_keys
    (hLeft : evaluate row first = .ok left)
    (hRight : evaluate row second = .ok right)
    (hFirst : left.isNull = false)
    (hSecond : right.isNull = false)
    (hSame : sameKey left right = true)
    (hMatch : ∃ matched,
      matchesRow (.binaryOp .eq first second) clause row =
        .ok matched) :
    holds (.binaryOp .eq first second) row = true := by
  rcases hMatch with ⟨matched, hMatched⟩
  rcases ok_of_bind hMatched with ⟨value, hValue, _⟩
  rw [evaluate_strict rfl, hLeft, hRight] at hValue
  have hKnown :
      ¬ (left.isNull = true ∨ right.isNull = true) := by
    simp [hFirst, hSecond]
  have hCompare : (if left.isNull ∨ right.isNull then pure .null
      else binaryValue .eq left right) = .ok value := hValue
  rw [if_neg hKnown] at hCompare
  rcases ok_of_bind hCompare with ⟨order, hOrder, _⟩
  rw [compare_of_sameKey hSame hOrder] at hOrder
  exact (holds_eq hLeft hRight).mpr ⟨hFirst, hSecond, hOrder⟩

/- The keys of the two rows evaluate, are known and are one. -/
def keysMeet
    (join : Equijoin φ)
    (left right : Row φ width) : Bool :=
  match evaluate right join.probeKey with
  | .ok key =>
    !key.isNull && goesInto join.buildKey key left
  | .error _ => false

theorem keysMeet_iff
    {left right : Row φ width} :
    keysMeet join left right = true ↔
      ∃ first second,
        evaluate left join.buildKey = .ok first ∧
        evaluate right join.probeKey = .ok second ∧
        first.isNull = false ∧ second.isNull = false ∧
        sameKey first second = true := by
  unfold keysMeet goesInto
  cases evaluate right join.probeKey with
  | error raised => simp
  | ok second =>
    cases evaluate left join.buildKey with
    | error raised => simp
    | ok first =>
      simp only [Bool.and_eq_true, Bool.not_eq_true',
        Except.ok.injEq, exists_and_left,
        exists_eq_left']
      constructor
      · rintro ⟨hSecond, hFirst, hSame⟩
        exact ⟨hFirst, hSecond, hSame⟩
      · rintro ⟨hFirst, hSecond, hSame⟩
        exact ⟨hSecond, hFirst, hSame⟩

variable [LawfulEquality φ]

/- The pairs that the table and the second look let through are
   those the condition is TRUE of, where it raises on none. -/
theorem keysMeet_accepts
    {left right : Row φ width}
    (hMatch : ∃ matched, matchesRow join.predicate clause
      (merge join.slices left right) = .ok matched) :
    (keysMeet join left right &&
        accepts join (merge join.slices left right)) =
      holds join.predicate
        (merge join.slices left right) := by
  rw [Bool.eq_iff_iff, Bool.and_eq_true]
  constructor
  · rintro ⟨hMeet, hAccepts⟩
    cases hResidual : join.residual.isNone with
    | false =>
      unfold accepts at hAccepts
      rwa [hResidual, Bool.false_or] at hAccepts
    | true =>
      rcases keysMeet_iff.mp hMeet with ⟨first, second,
        hLeft, hRight, hFirst, hSecond, hSame⟩
      rw [← buildKey_merge join left right] at hLeft
      rw [← probeKey_merge join left right] at hRight
      rcases join.hashed with hTerm | hTerm
      · have hPredicate := predicate_of_residual hTerm
          hResidual
        rw [hPredicate] at hMatch ⊢
        exact holds_of_keys hLeft hRight hFirst hSecond
          hSame hMatch
      · have hPredicate := predicate_of_residual hTerm
          hResidual
        rw [hPredicate] at hMatch ⊢
        exact holds_of_keys hRight hLeft hSecond hFirst
          (sameKey_symm hSame) hMatch
  · intro hHolds
    have hAccepts : accepts join
        (merge join.slices left right) = true := by
      unfold accepts
      rw [hHolds, Bool.or_true]
    refine ⟨?_, hAccepts⟩
    rw [keysMeet_iff, ← buildKey_merge join left right,
      ← probeKey_merge join left right]
    rcases join.hashed with hTerm | hTerm
    · exact keys_of_holds (holds_term _ hHolds _
        (List.mem_of_getElem? hTerm))
    · rcases keys_of_holds (holds_term _ hHolds _
        (List.mem_of_getElem? hTerm)) with ⟨second, first,
          hRight, hLeft, hSecond, hFirst, hSame⟩
      exact ⟨first, second, hLeft, hRight, hFirst, hSecond,
        sameKey_symm hSame⟩

end Conditions

--
-- Both Joins
--

section Both

variable [Double φ]

variable {slices : List (Nat × Nat)}
variable {rights : List (Row φ width)}

theorem probe_matches
    {left : Row φ width}
    {index : Nat}
    {outcome : List (Row φ width) × List Nat}
    (hOk : probe predicate slices left index rights =
      .ok outcome) :
    ∀ right ∈ rights, ∃ matched,
      matchesRow predicate "a join condition"
        (merge slices left right) = .ok matched := by
  induction rights generalizing index outcome with
  | nil => exact nofun
  | cons first rest ih =>
    rcases ok_of_bind hOk with ⟨matched, hMatched, hRest⟩
    rcases ok_of_bind hRest with ⟨later, hLater, _⟩
    intro right hRight
    rcases List.mem_cons.mp hRight with rfl | hMem
    · exact ⟨matched, hMatched⟩
    · exact ih hLater right hMem

variable {lefts rows : List (Row φ width)}

/- A nested-loop join that does not raise has looked at every
   pair. -/
theorem nestedLoopJoin_matches
    (hOk : nestedLoopJoin predicate slices preserveLeft
      preserveRight lefts rights = .ok rows) :
    ∀ left ∈ lefts, ∀ right ∈ rights, ∃ matched,
      matchesRow predicate "a join condition"
        (merge slices left right) = .ok matched := by
  rcases ok_of_bind hOk with ⟨outcome, hAll, hLast⟩
  clear hOk hLast
  induction lefts generalizing outcome with
  | nil => exact nofun
  | cons first rest ih =>
    rcases ok_of_bind hAll with ⟨here, hHere, hRest⟩
    rcases ok_of_bind hRest with ⟨later, hLater, _⟩
    intro left hLeft
    rcases List.mem_cons.mp hLeft with rfl | hMem
    · exact probe_matches hHere
    · exact ih later hLater left hMem

/- The indices of the rows on the left that a row on the right
   matches. -/
def matchedBy
    (join : Equijoin φ)
    (lefts : List (Row φ width))
    (right : Row φ width) : List Nat :=
  (lefts.zipIdx.filter fun entry =>
    holds join.predicate
      (merge join.slices entry.1 right)).map Prod.snd

variable {join : Equijoin φ} {right : Row φ width}

theorem mem_matchedBy
    {position : Nat} :
    position ∈ matchedBy join lefts right ↔
      ∃ left, (left, position) ∈ lefts.zipIdx ∧
        holds join.predicate
          (merge join.slices left right) = true := by
  simp [matchedBy]

omit [Double φ] in
theorem rowsAt_entries
    (join : Equijoin φ)
    (right : Row φ width)
    {entries : List (Row φ width × Nat)}
    (hEntries : ∀ entry ∈ entries, entry ∈ lefts.zipIdx) :
    rowsAt join lefts right (entries.map Prod.snd) =
      entries.map fun entry =>
        merge join.slices entry.1 right := by
  unfold rowsAt
  rw [List.filterMap_map, ← List.filterMap_eq_map]
  refine List.filterMap_congr fun entry hEntry => ?_
  have hRow : lefts[entry.2]? = some entry.1 :=
    List.mem_zipIdx_iff_getElem?.mp (hEntries entry hEntry)
  simp [hRow]

/- The rows at these indices are the row's partners. -/
theorem rowsAt_matchedBy
    (join : Equijoin φ)
    (lefts : List (Row φ width))
    (right : Row φ width) :
    rowsAt join lefts right (matchedBy join lefts right) =
      Library.OuterJoin.partners
        (fun right left => merge join.slices left right)
        (holds join.predicate) lefts right := by
  unfold matchedBy
  rw [rowsAt_entries join right fun entry hEntry =>
    List.mem_of_mem_filter hEntry]
  unfold Library.OuterJoin.partners
  rw [← List.zipIdx_map_fst 0 lefts, List.map_map,
    List.filter_map, List.zipIdx_map_fst]
  rfl

theorem matchedBy_isEmpty
    (join : Equijoin φ)
    (lefts : List (Row φ width))
    (right : Row φ width) :
    (matchedBy join lefts right).isEmpty =
      (Library.OuterJoin.partners
        (fun right left => merge join.slices left right)
        (holds join.predicate) lefts right).isEmpty := by
  rw [← rowsAt_matchedBy]
  unfold matchedBy
  rw [rowsAt_entries join right fun entry hEntry =>
    List.mem_of_mem_filter hEntry, List.isEmpty_map,
    List.isEmpty_map]

variable [LawfulEquality φ]

/- What a table of the rows on the left finds for a row on the
   right, where the condition raises on none of the pairs. -/
theorem foundFor_buildTable
    {state : HashJoin φ width}
    (hBuild : state.build = lefts)
    (hTable : buildTable join.buildKey 0 [] lefts =
      .ok state.table)
    (hMatch : ∀ left ∈ lefts, ∃ matched,
      matchesRow join.predicate "a join condition"
        (merge join.slices left right) = .ok matched) :
    foundFor join state right =
      matchedBy join lefts right := by
  have hCandidates : candidates join state.table right =
      (lefts.zipIdx.filter fun entry =>
        keysMeet join entry.1 right).map Prod.snd := by
    unfold candidates keysMeet
    cases evaluate right join.probeKey with
    | error raised => simp
    | ok key =>
      simp only [bucketOf]
      cases key.isNull with
      | true => simp
      | false =>
        simp only [Bool.false_eq_true, if_false,
          Bool.not_false, Bool.true_and]
        rw [get_buildTable hTable]
        rfl
  unfold foundFor hits matchedBy
  rw [hCandidates, hBuild, List.filter_map, List.filter_filter]
  refine congrArg _ (List.filter_congr fun entry hEntry => ?_)
  have hRow : lefts[entry.2]? = some entry.1 :=
    List.mem_zipIdx_iff_getElem?.mp hEntry
  rw [Function.comp_apply, hRow, Option.any_some, Bool.and_comm]
  exact keysMeet_accepts
    (hMatch entry.1 (List.mem_of_getElem? hRow))

/- A hash join that does not raise is the outer join that starts
   from the right, where the condition raises on no pair. -/
theorem hashJoin_ok
    (hMatch : ∀ left ∈ lefts, ∀ right ∈ rights, ∃ matched,
      matchesRow join.predicate "a join condition"
        (merge join.slices left right) = .ok matched)
    (hOk : hashJoin join preserveLeft preserveRight lefts
      rights = .ok rows) :
    rows = Library.OuterJoin.outerJoin
      (fun right left => merge join.slices left right)
      (holds join.predicate) preserveRight preserveLeft
        rights lefts := by
  rcases ok_of_bind hOk with ⟨state, hOpen, hRun⟩
  rcases ok_of_bind hOpen with ⟨table, hTable, hLast⟩
  cases hLast
  have hFound : ∀ right ∈ rights, foundFor join
      (HashJoin.opened table lefts rights) right =
        matchedBy join lefts right := by
    intro right hRight
    exact foundFor_buildTable rfl hTable fun left hLeft =>
      hMatch left hLeft right hRight
  have hProbed : rights.flatMap (probed join preserveRight
      (HashJoin.opened table lefts rights)) =
      rights.flatMap (Library.OuterJoin.extend
        (fun right left => merge join.slices left right)
        (holds join.predicate) preserveRight lefts) := by
    refine List.flatMap_congr fun right hRight => ?_
    unfold probed Library.OuterJoin.extend
    rw [hFound right hRight, matchedBy_isEmpty,
      ← rowsAt_matchedBy]
    rfl
  have hDrained : ∀ position, position ∈ rights.flatMap
      (foundFor join (HashJoin.opened table lefts rights)) ↔
        ∃ right ∈ rights, ∃ left,
          (left, position) ∈ lefts.zipIdx ∧
          holds join.predicate
            (merge join.slices left right) = true := by
    intro position
    rw [List.mem_flatMap]
    refine exists_congr fun right =>
      and_congr_right fun hRight => ?_
    rw [hFound right hRight, mem_matchedBy]
  have hRows := run_ok
    (fun hTrue => absurd hTrue Bool.false_ne_true) hRun
  rw [expected_atEnd preserveLeft rfl (by
    simp [leftOver, HashJoin.opened])] at hRows
  rw [hRows]
  unfold Library.OuterJoin.outerJoin
  refine congr (congrArg _ hProbed) ?_
  rw [← @Library.OuterJoin.unmatched_eq _ _ _ _ lefts _
    hDrained]
  rfl

/-
  The two joins have the same rows, each as often. These are
  the pairs the condition is TRUE of, and once each the rows of
  a preserved side that have no partner.
-/
theorem hashJoin_nestedLoop
    (join : Equijoin φ)
    (preserveLeft preserveRight : Bool)
    (lefts rights hashed looped : List (Row φ width))
    (hHash : hashJoin join preserveLeft preserveRight lefts
      rights = .ok hashed)
    (hLoop : nestedLoopJoin join.predicate join.slices
      preserveLeft preserveRight lefts rights = .ok looped) :
    hashed.Perm looped ∧
      hashed.Perm
        (Library.OuterJoin.pairs (merge join.slices)
            (holds join.predicate) lefts rights ++
          ((if preserveLeft then
              lefts.filter fun left => rights.all fun right =>
                !holds join.predicate
                  (merge join.slices left right)
            else []) ++
          if preserveRight then
            rights.filter fun right => lefts.all fun left =>
              !holds join.predicate
                (merge join.slices left right)
          else [])) := by
  have hSwap := Library.OuterJoin.outerJoin_swap
    (merge join.slices) (holds join.predicate) preserveLeft
      preserveRight lefts rights
  rw [← hashJoin_ok (nestedLoopJoin_matches hLoop) hHash]
    at hSwap
  constructor
  · rw [nestedLoopJoin_ok hLoop]
    exact hSwap
  · exact hSwap.trans (Library.OuterJoin.outerJoin_parts
      (merge join.slices) (holds join.predicate) preserveLeft
        preserveRight lefts rights)

theorem finiteNumber_rat (number : Rat ⊕ Int) :
    finiteNumber number = true := by
  cases number <;> rfl

instance : LawfulEquality Rat where
  symm hEqual := by
    rw [compareNumbers_exact (finiteNumber_rat _)
      (finiteNumber_rat _), compare_eq_iff_eq] at hEqual ⊢
    exact hEqual.symm
  trans hFirst hSecond := by
    rw [compareNumbers_exact (finiteNumber_rat _)
      (finiteNumber_rat _), compare_eq_iff_eq]
      at hFirst hSecond ⊢
    exact hFirst.trans hSecond

/- `a.x = b.y`, with one slot on either side. -/
def sameColumns : Equijoin Rat :=
  @Equijoin.ofKeys Rat
    (.binaryOp .eq
      (.column ⟨"x", 0, some 0⟩) (.column ⟨"y", 1, some 1⟩))
    [0] _ _ _ [(1, 1)] rfl
    (by simp [references, inSlices])

def twoSlots (first second : Value Rat) : Row Rat 2 :=
  fun index => if index.val = 0 then first else second

theorem hashJoin_nestedLoop_pair :
    ∃ hashed looped,
      hashJoin sameColumns true false
          [twoSlots (.int 1) .null, twoSlots .null .null]
          [twoSlots .null (.float 1)] = .ok hashed ∧
      nestedLoopJoin sameColumns.predicate sameColumns.slices
          true false
          [twoSlots (.int 1) .null, twoSlots .null .null]
          [twoSlots .null (.float 1)] = .ok looped ∧
      hashed.Perm looped := by
  have hHash : hashJoin sameColumns true false
      [twoSlots (.int 1) .null, twoSlots .null .null]
      [twoSlots .null (.float 1)] = .ok _ :=
    (run_again rfl).trans (run_emit rfl
      ((run_again rfl).trans ((run_again rfl).trans
        (run_emit rfl (run_done rfl)))))
  exact ⟨_, _, hHash, rfl,
    (hashJoin_nestedLoop sameColumns true false _ _ _ _
      hHash rfl).1⟩

end Both

end Executor

end ChenDB
