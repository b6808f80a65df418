import ChenDB.Executor.Dml

/-
  The row ceiling: what `max_rows` makes of a SELECT, of a
  subquery used as a value, and of an UPDATE or a DELETE.
-/

--
-- Row Streams
--

namespace ChenDB

namespace Executor

open Indexing (KeyTexts)
open Library.StateExcept (ok_of_bind)
open Planner (Found Raised locateRows passes planRowSource
  scanRows)
open Serialization (PythonText)

/- What an open plan answers to one `next()` after another. -/
inductive RowStream (ρ : Type) where
  | done
  | raised (error : Raised)
  | next (row : ρ) (rest : RowStream ρ)

namespace RowStream

variable {ρ α : Type}

/- The rows there are before the end. -/
def rows : RowStream ρ → List ρ
  | .done => []
  | .raised _ => []
  | .next row rest => row :: rest.rows

/- What is raised at the end, if anything is. -/
def ending : RowStream ρ → Option Raised
  | .done => none
  | .raised error => some error
  | .next _ rest => rest.ending

/- What a run to the end comes to. -/
def finish
    (stream : RowStream ρ)
    (result : α) : Except Raised α :=
  match stream.ending with
  | none => .ok result
  | some error => .error error

/- The full result. -/
def drain (stream : RowStream ρ) : Except Raised (List ρ) :=
  stream.finish stream.rows

/- The loop of `_execute_select`, with how many rows it has:
   the rows, and whether they are reported as truncated. -/
def fetch
    (limit : Nat)
    (count : Nat) :
    RowStream ρ → Except Raised (List ρ × Bool)
  | .done => .ok ([], false)
  | .raised error => .error error
  | .next row rest =>
    if count + 1 ≥ limit then .ok ([row], true)
    else do
      let (later, truncated) ← rest.fetch limit (count + 1)
      pure (row :: later, truncated)

def tooManyMatches (limit : Nat) : Raised :=
  .execution
    (s!"more than {limit} rows match; ChenDB will " ++
      "not change part of a statement's rows and " ++
      "call it done")

/- The loop of `_locate_rows`. -/
def locate
    (limit : Nat)
    (count : Nat) : RowStream ρ → Except Raised (List ρ)
  | .done => .ok []
  | .raised error => .error error
  | .next row rest =>
    if count + 1 ≥ limit then
      .error (tooManyMatches limit)
    else do
      let later ← rest.locate limit (count + 1)
      pure (row :: later)

@[simp] theorem finish_next
    (row : ρ)
    (rest : RowStream ρ)
    (result : α) :
    (RowStream.next row rest).finish result =
      rest.finish result :=
  rfl

theorem finish_map {β : Type}
    (stream : RowStream ρ)
    (result : α)
    (f : α → β) :
    (do let value ← stream.finish result; pure (f value)) =
      stream.finish (f result) := by
  unfold finish
  cases stream.ending <;> rfl

theorem drain_ok
    {stream : RowStream ρ}
    {result : List ρ}
    (hOk : stream.drain = .ok result) :
    stream.ending = none ∧ stream.rows = result := by
  unfold drain finish at hOk
  cases hEnding : stream.ending with
  | none =>
    rw [hEnding] at hOk
    cases hOk
    exact ⟨rfl, rfl⟩
  | some error =>
    rw [hEnding] at hOk
    cases hOk

variable {limit count : Nat}

/- The loop comes to the end only where there are fewer rows
   than the ceiling. -/
theorem fetch_eq
    (stream : RowStream ρ)
    (hBelow : count < limit) :
    stream.fetch limit count =
      if count + stream.rows.length < limit then
        stream.finish (stream.rows, false)
      else .ok (stream.rows.take (limit - count), true) := by
  induction stream generalizing count with
  | done => exact (if_pos hBelow).symm
  | raised error => exact (if_pos hBelow).symm
  | next row rest ih =>
    have hLength : (RowStream.next row rest).rows.length =
        rest.rows.length + 1 := rfl
    rw [fetch, finish_next]
    by_cases hLast : count + 1 ≥ limit
    · have hOne : limit - count = 1 := by omega
      rw [if_pos hLast, if_neg (by rw [hLength]; omega), hOne]
      rfl
    · have hStep : limit - count =
          limit - (count + 1) + 1 := by omega
      rw [if_neg hLast, ih (by omega), hStep, rows,
        List.take_succ_cons]
      by_cases hFew : count + 1 + rest.rows.length < limit
      · rw [if_pos hFew,
          if_pos (by rw [← rows, hLength]; omega)]
        exact finish_map rest (rest.rows, false)
          fun result => (row :: result.1, result.2)
      · rw [if_neg hFew,
          if_neg (by rw [← rows, hLength]; omega)]
        rfl

theorem locate_eq
    (stream : RowStream ρ)
    (hBelow : count < limit) :
    stream.locate limit count =
      if count + stream.rows.length < limit then
        stream.drain
      else .error (tooManyMatches limit) := by
  induction stream generalizing count with
  | done => exact (if_pos hBelow).symm
  | raised error => exact (if_pos hBelow).symm
  | next row rest ih =>
    have hLength : (RowStream.next row rest).rows.length =
        rest.rows.length + 1 := rfl
    rw [locate]
    by_cases hLast : count + 1 ≥ limit
    · rw [if_pos hLast, if_neg (by rw [hLength]; omega)]
    · rw [if_neg hLast, ih (by omega)]
      by_cases hFew : count + 1 + rest.rows.length < limit
      · rw [if_pos hFew, if_pos (by rw [hLength]; omega)]
        exact finish_map rest rest.rows (row :: ·)
      · rw [if_neg hFew, if_neg (by rw [hLength]; omega)]
        rfl

end RowStream

--
-- Queries
--

variable {φ : Type}

/- A row of a select list, which has a first column. -/
structure OutputRow (φ : Type) where
  first : Value φ
  others : List (Value φ)

/- What a SELECT raises: something of its own, or that one of
   its subqueries returned more than one row. -/
inductive QueryError where
  | raised (error : Raised)
  | manyRows (message : String)

def manyRows (count : Nat) : QueryError :=
  .manyRows
    (s!"a subquery used as a value returned {count} rows; " ++
      "add a LIMIT, an aggregate, or a condition that " ++
      "makes it one")

/- The message tells how many rows there were. -/
theorem manyRows_injective {count other : Nat}
    (hSame : manyRows count = manyRows other) :
    count = other := by
  simp only [manyRows, QueryError.manyRows.injEq,
    String.append_left_inj, String.append_right_inj] at hSame
  have hCount : Nat.ofDigitChars 10
      (toString count).toList 0 = count := by simp
  have hOther : Nat.ofDigitChars 10
      (toString other).toList 0 = other := by simp
  rw [hSame, hOther] at hCount
  exact hCount.symm

mutual

/-
  A SELECT as it is executed: its subqueries in the order they
  are folded in, and the rows of the plan that it gets once
  their values are in their places. What is refused of it as a
  subquery is seen before it is run: a reference to a query
  around it, or more columns than one.
-/
inductive Query (φ : Type) where
  | select
      (refusal : Except Raised Unit)
      (inner : Subqueries φ)
      (plan : List (Value φ) →
        Except Raised (RowStream (OutputRow φ)))

inductive Subqueries (φ : Type) where
  | none
  | more (query : Query φ) (rest : Subqueries φ)

end

def Query.refusal : Query φ → Except Raised Unit
  | .select refusal _ _ => refusal

/- How the rows of a plan are collected. -/
abbrev Collector (φ : Type) :=
  RowStream (OutputRow φ) →
    Except Raised (List (OutputRow φ) × Bool)

/- No row is NULL; one is its value. -/
def scalarOf :
    List (OutputRow φ) → Except QueryError (Value φ)
  | [] => .ok .null
  | [row] => .ok row.first
  | rows => .error (manyRows rows.length)

theorem scalarOf_cases (rows : List (OutputRow φ)) :
    (∃ value, scalarOf rows = .ok value) ∨
      (2 ≤ rows.length ∧
        scalarOf rows = .error (manyRows rows.length)) := by
  match rows with
  | [] => exact .inl ⟨_, rfl⟩
  | [row] => exact .inl ⟨_, rfl⟩
  | _ :: _ :: rest => exact .inr ⟨by simp, rfl⟩

theorem length_of_scalarOf
    {rows : List (OutputRow φ)}
    {value : Value φ}
    (hOk : scalarOf rows = .ok value) :
    rows.length ≤ 1 := by
  match rows with
  | [] => exact Nat.zero_le _
  | [row] => exact Nat.le_refl _
  | _ :: _ :: rest => cases hOk

mutual

/- `_execute_select`. -/
def executeQuery
    (collect : Collector φ) :
    Query φ → Except QueryError (List (OutputRow φ) × Bool)
  | .select _ inner plan => do
      let values ← foldSubqueries collect inner
      let stream ← (plan values).mapError QueryError.raised
      (collect stream).mapError QueryError.raised
termination_by structural query => query

/- `fold_subqueries`: the value of each. -/
def foldSubqueries
    (collect : Collector φ) :
    Subqueries φ → Except QueryError (List (Value φ))
  | .none => .ok []
  | .more query rest => do
      query.refusal.mapError QueryError.raised
      let result ← executeQuery collect query
      let value ← scalarOf result.1
      let values ← foldSubqueries collect rest
      pure (value :: values)
termination_by structural inner => inner

end

/- `_run_scalar`. -/
def runScalar
    (collect : Collector φ)
    (query : Query φ) : Except QueryError (Value φ) := do
  query.refusal.mapError QueryError.raised
  let result ← executeQuery collect query
  scalarOf result.1

/- With a ceiling on the rows, and with none. -/
def upTo (limit : Nat) : Collector φ :=
  RowStream.fetch limit 0

def unlimited : Collector φ := fun stream => do
  let rows ← stream.drain
  pure (rows, false)

theorem foldSubqueries_more
    (collect : Collector φ)
    (query : Query φ)
    (rest : Subqueries φ) :
    foldSubqueries collect (.more query rest) = (do
      let value ← runScalar collect query
      let values ← foldSubqueries collect rest
      pure (value :: values)) := by
  simp only [foldSubqueries, runScalar, bind_assoc]

--
-- Queries under a Ceiling
--

section Ceiling

variable {limit : Nat}

/- A run under the ceiling is the run to the end, or is cut
   off at the ceiling. -/
theorem upTo_eq
    (hLimit : 1 ≤ limit)
    (stream : RowStream (OutputRow φ)) :
    upTo limit stream =
      if stream.rows.length < limit then unlimited stream
      else .ok (stream.rows.take limit, true) := by
  unfold upTo
  rw [stream.fetch_eq (by omega : 0 < limit), Nat.zero_add,
    Nat.sub_zero]
  by_cases hFew : stream.rows.length < limit
  · rw [if_pos hFew, if_pos hFew]
    exact (stream.finish_map stream.rows
      fun rows => (rows, false)).symm
  · rw [if_neg hFew, if_neg hFew]

/- A stream whose rows stay within the ceiling, or reach it
   and are all there are. -/
def RowStream.Within {ρ : Type}
    (limit : Nat)
    (stream : RowStream ρ) : Prop :=
  stream.rows.length < limit ∨
    stream.rows.length = limit ∧ stream.ending = none

/- What a subquery's rows come to, cut off or not. -/
theorem scalar_upTo_iff
    (hLimit : 1 ≤ limit)
    (stream : RowStream (OutputRow φ)) :
    (do
      let result ← (upTo limit stream).mapError
        QueryError.raised
      scalarOf result.1) = (do
      let result ← (unlimited stream).mapError
        QueryError.raised
      scalarOf result.1) ↔
        stream.Within limit := by
  rw [upTo_eq hLimit]
  by_cases hFew : stream.rows.length < limit
  · rw [if_pos hFew]
    exact iff_of_true rfl (.inl hFew)
  · rw [if_neg hFew]
    have hCut : (stream.rows.take limit).length = limit := by
      rw [List.length_take]
      omega
    unfold unlimited RowStream.drain RowStream.finish
      RowStream.Within
    cases hEnding : stream.ending with
    | some error =>
      refine iff_of_false ?_ (by simp [hFew])
      intro hSame
      rcases scalarOf_cases (stream.rows.take limit) with
        ⟨value, hValue⟩ | ⟨_, hValue⟩
      · exact nomatch hValue.symm.trans hSame
      · exact nomatch hValue.symm.trans hSame
    | none =>
      show scalarOf (stream.rows.take limit) =
        scalarOf stream.rows ↔ _
      by_cases hAll : stream.rows.length = limit
      · rw [List.take_of_length_le hAll.le]
        exact iff_of_true rfl (.inr ⟨hAll, rfl⟩)
      · refine iff_of_false ?_ (by simp [hFew, hAll])
        intro hSame
        rcases scalarOf_cases stream.rows with
          ⟨value, hValue⟩ | ⟨_, hMany⟩
        · have hShort := length_of_scalarOf hValue
          omega
        · rw [hMany] at hSame
          rcases scalarOf_cases (stream.rows.take limit)
            with ⟨value, hValue⟩ | ⟨_, hValue⟩
          · exact nomatch hValue.symm.trans hSame
          · have hCount := manyRows_injective
              (Except.error.inj (hValue.symm.trans hSame))
            omega

mutual

/- The rows of every subquery of a query, at any depth, stay
   within the ceiling. -/
def Query.Within (limit : Nat) : Query φ → Prop
  | .select _ inner plan =>
    inner.Within limit ∧ ∀ values stream,
      foldSubqueries unlimited inner = .ok values →
      plan values = .ok stream → stream.Within limit
termination_by structural query => query

def Subqueries.Within (limit : Nat) : Subqueries φ → Prop
  | .none => True
  | .more query rest =>
    query.Within limit ∧ rest.Within limit
termination_by structural inner => inner

end

/- A subquery whose own subqueries have the values they would
   have without the ceiling. -/
theorem runScalar_iff
    (hLimit : 1 ≤ limit)
    {refusal : Except Raised Unit}
    {inner : Subqueries φ}
    {plan : List (Value φ) →
      Except Raised (RowStream (OutputRow φ))}
    {values : List (Value φ)}
    {stream : RowStream (OutputRow φ)}
    (hAllowed : refusal = .ok ())
    (hSame : foldSubqueries (upTo limit) inner =
      foldSubqueries unlimited inner)
    (hValues : foldSubqueries unlimited inner = .ok values)
    (hPlan : plan values = .ok stream) :
    runScalar (upTo limit) (.select refusal inner plan) =
        runScalar unlimited (.select refusal inner plan) ↔
      stream.Within limit := by
  have hRun : ∀ collect : Collector φ,
      foldSubqueries collect inner = .ok values →
      runScalar collect (.select refusal inner plan) = (do
        let result ← (collect stream).mapError
          QueryError.raised
        scalarOf result.1) := by
    intro collect hFold
    simp only [runScalar, Query.refusal, hAllowed,
      executeQuery, hFold, hPlan, Except.mapError, bind,
      Except.bind]
  rw [hRun _ hValues, hRun _ (hSame.trans hValues)]
  exact scalar_upTo_iff hLimit stream

mutual

theorem runScalar_within
    (hLimit : 1 ≤ limit) :
    ∀ query : Query φ, query.Within limit →
      runScalar (upTo limit) query = runScalar unlimited query
  | .select refusal inner plan, hWithin => by
      have hSame := foldSubqueries_within hLimit inner
        hWithin.1
      cases hAllowed : refusal with
      | error error => rfl
      | ok =>
        cases hValues : foldSubqueries unlimited inner with
        | error error =>
          simp only [runScalar, executeQuery, hSame, hValues]
          rfl
        | ok values =>
          cases hPlan : plan values with
          | error error =>
            simp only [runScalar, executeQuery, hSame,
              hValues, hPlan, bind, Except.bind,
              Except.mapError]
          | ok stream =>
            exact (runScalar_iff hLimit rfl hSame
              hValues hPlan).mpr
                (hWithin.2 values stream hValues hPlan)

theorem foldSubqueries_within
    (hLimit : 1 ≤ limit) :
    ∀ inner : Subqueries φ, inner.Within limit →
      foldSubqueries (upTo limit) inner =
        foldSubqueries unlimited inner
  | .none, _ => rfl
  | .more query rest, hWithin => by
      rw [foldSubqueries_more, foldSubqueries_more,
        runScalar_within hLimit query hWithin.1,
        foldSubqueries_within hLimit rest hWithin.2]

end

mutual

/- A value that is had without the ceiling is had with it. -/
theorem runScalar_value
    (hLimit : 1 ≤ limit) :
    ∀ (query : Query φ) {value},
      runScalar unlimited query = .ok value →
      runScalar (upTo limit) query = .ok value
  | .select refusal inner plan, value, hOk => by
      rcases ok_of_bind hOk with ⟨_, hAllowed, hRest⟩
      rcases ok_of_bind hRest with ⟨result, hRows, hScalar⟩
      rcases ok_of_bind hRows with ⟨values, hValues, hRest⟩
      rcases ok_of_bind hRest with ⟨stream, hPlan, hStream⟩
      have hFold := foldSubqueries_values hLimit inner hValues
      rcases ok_of_bind (Planner.ok_of_mapError hStream) with
        ⟨rows, hDrain, hResult⟩
      cases hResult
      rcases RowStream.drain_ok hDrain with ⟨hEnding, hAll⟩
      have hShort : rows.length ≤ 1 :=
        length_of_scalarOf hScalar
      have hWithin : stream.Within limit := by
        unfold RowStream.Within
        rw [hAll]
        by_cases hFew : rows.length < limit
        · exact .inl hFew
        · exact .inr ⟨by omega, hEnding⟩
      rw [← hOk]
      refine (runScalar_iff hLimit ?_
        (hFold.trans hValues.symm) hValues
        (Planner.ok_of_mapError hPlan)).mpr hWithin
      exact Planner.ok_of_mapError hAllowed

theorem foldSubqueries_values
    (hLimit : 1 ≤ limit) :
    ∀ (inner : Subqueries φ) {values},
      foldSubqueries unlimited inner = .ok values →
      foldSubqueries (upTo limit) inner = .ok values
  | .none, _, hOk => hOk
  | .more query rest, values, hOk => by
      rw [foldSubqueries_more] at hOk ⊢
      rcases ok_of_bind hOk with ⟨value, hValue, hRest⟩
      rcases ok_of_bind hRest with ⟨later, hLater, hEnd⟩
      rw [runScalar_value hLimit query hValue,
        foldSubqueries_values hLimit rest hLater]
      exact hEnd

end

/- A SELECT with a full result: its first rows, cut off as
   soon as there are as many as the ceiling. -/
theorem executeQuery_full
    (hLimit : 1 ≤ limit)
    {query : Query φ}
    {rows : List (OutputRow φ)}
    (hFull : executeQuery unlimited query = .ok (rows, false)) :
    executeQuery (upTo limit) query =
      .ok (rows.take limit, decide (limit ≤ rows.length)) := by
  cases query with
  | select refusal inner plan =>
    rcases ok_of_bind hFull with ⟨values, hValues, hRest⟩
    rcases ok_of_bind hRest with ⟨stream, hPlan, hStream⟩
    rcases ok_of_bind (Planner.ok_of_mapError hStream) with
      ⟨found, hDrain, hResult⟩
    cases hResult
    have hAll := (RowStream.drain_ok hDrain).2
    simp only [executeQuery,
      foldSubqueries_values hLimit inner hValues, bind,
      Except.bind, hPlan, upTo_eq hLimit, hAll]
    by_cases hFew : rows.length < limit
    · rw [if_pos hFew, List.take_of_length_le hFew.le,
        decide_eq_false (by omega)]
      exact hStream
    · rw [if_neg hFew, decide_eq_true (by omega)]
      rfl

/- The ceiling costs no subquery its value: nested to any
   depth, what it comes to with none it comes to under one. -/
theorem scalar_kept
    (hLimit : 1 ≤ limit)
    (query : Query φ)
    (value : Value φ)
    (hOk : runScalar unlimited query = .ok value) :
    runScalar (upTo limit) query = .ok value :=
  runScalar_value hLimit query hOk

end Ceiling

--
-- Changes under a Ceiling
--

section Changing

variable {schema : Serialization.Schema} [FloatArithmetic]

/- The records that pass the filters of a plan. -/
def filtered
    (filters : List (Expression Binary64)) :
    List (Found schema) → RowStream (Found schema)
  | [] => .done
  | record :: rest =>
    match passes record.2.values filters with
    | .error error => .raised (.engine error)
    | .ok true => .next record (filtered filters rest)
    | .ok false => filtered filters rest

theorem drain_eq_locate
    (filters : List (Expression Binary64))
    (limit : Nat)
    (count : Nat)
    (records : List (Found schema)) :
    Planner.drain filters limit count records =
      (filtered filters records).locate limit count := by
  induction records generalizing count with
  | nil => rfl
  | cons record rest ih =>
    rw [Planner.drain, filtered]
    cases hPasses : passes record.2.values filters with
    | error error => rfl
    | ok passed =>
      cases passed with
      | false => exact ih count
      | true =>
        simp only [Except.mapError, bind, Except.bind,
          if_true, RowStream.locate, ← ih]
        rfl

variable [KeyTexts]

/- The rows that the WHERE of a statement lets through, as its
   plan comes on them. -/
def TableSession.matched
    (session : TableSession schema)
    (predicate : Option (Expression Binary64))
    (cheapest : Nat) :
    Except Raised (RowStream (Found schema)) := do
  if session.manager.isFailedIn Indexing.defaultSession then
    throw (.binding
      ("current transaction is aborted, commands ignored " ++
        "until end of transaction block"))
  else
    let source ← (planRowSource session.table predicate
      cheapest).mapError Raised.engine
    pure (filtered source.filters (scanRows session.table
      (session.manager.snapshotIn
        Indexing.defaultSession).2 source.path))

variable {session : TableSession schema}
variable {predicate : Option (Expression Binary64)}
variable {cheapest limit : Nat}
variable {stream : RowStream (Found schema)}

variable {error : Raised}

omit [KeyTexts] in
theorem filtered_ending
    {filters : List (Expression Binary64)} :
    ∀ {records : List (Found schema)},
      (filtered filters records).ending = some error →
      ∃ raised, error = .engine raised
  | record :: rest, hEnding => by
      rw [filtered] at hEnding
      cases hPasses : passes record.2.values filters with
      | error raised =>
        rw [hPasses] at hEnding
        exact ⟨raised, (Option.some.inj hEnding).symm⟩
      | ok passed =>
        rw [hPasses] at hEnding
        cases passed with
        | false => exact filtered_ending hEnding
        | true => exact filtered_ending hEnding

/- What ends the rows of a statement is not the ceiling. -/
theorem matched_ending
    (hMatched : session.matched predicate cheapest = .ok stream)
    (hEnding : stream.ending = some error) :
    ∃ raised, error = .engine raised := by
  unfold TableSession.matched at hMatched
  split at hMatched
  · cases hMatched
  · rcases ok_of_bind hMatched with ⟨source, _, hEnd⟩
    cases hEnd
    exact filtered_ending hEnding

theorem locate_matched
    (hMatched : session.matched predicate cheapest =
      .ok stream) :
    session.locate predicate cheapest limit = (do
      let located ← stream.locate limit 0
      pure ({ session with
        manager := (session.manager.snapshotIn
          Indexing.defaultSession).1 }, located)) := by
  unfold TableSession.matched at hMatched
  unfold TableSession.locate
  split at hMatched
  · cases hMatched
  · rename_i hUsable
    rcases ok_of_bind hMatched with ⟨source, hPlan, hEnd⟩
    cases hEnd
    simp only [if_neg hUsable]
    rw [hPlan]
    simp only [locateRows, drain_eq_locate, bind, Except.bind]

/- The ceiling is the limit error of a statement, and it is
   raised while rows are being located. -/
theorem locate_tooMany_iff
    (hLimit : 1 ≤ limit)
    (hMatched : session.matched predicate cheapest =
      .ok stream) :
    session.locate predicate cheapest limit =
        .error (RowStream.tooManyMatches limit) ↔
      limit ≤ stream.rows.length := by
  rw [locate_matched hMatched,
    stream.locate_eq (by omega : 0 < limit), Nat.zero_add]
  by_cases hFew : stream.rows.length < limit
  · rw [if_pos hFew]
    refine iff_of_false ?_ (by omega)
    unfold RowStream.drain RowStream.finish
    cases hEnding : stream.ending with
    | none => exact nofun
    | some error =>
      rcases matched_ending hMatched hEnding with ⟨raised, rfl⟩
      exact nofun
  · rw [if_neg hFew]
    exact iff_of_true rfl (by omega)

/- A step that does not raise an execution error. -/
def NotExecution {α : Type} (step : Except Raised α) : Prop :=
  ∀ message, step ≠ .error (.execution message)

omit [FloatArithmetic] [KeyTexts] in
theorem NotExecution.bind {α β : Type}
    {step : Except Raised α}
    {next : α → Except Raised β}
    (hStep : NotExecution step)
    (hNext : ∀ value, NotExecution (next value)) :
    NotExecution (step >>= next) := by
  cases step with
  | error error =>
    intro message hSame
    cases hSame
    exact hStep message rfl
  | ok value => exact hNext value

omit [FloatArithmetic] [KeyTexts] in
theorem notExecution_ok {α : Type} (value : α) :
    NotExecution (.ok value) :=
  nofun

omit [FloatArithmetic] [KeyTexts] in
theorem notExecution_mapError {ε α : Type}
    {raise : ε → Raised}
    (hRaise : ∀ error message, raise error ≠ .execution message)
    (step : Except ε α) :
    NotExecution (step.mapError raise) := by
  cases step with
  | error error =>
    intro message hSame
    exact hRaise error message (Except.error.inj hSame)
  | ok value => exact notExecution_ok value

omit [FloatArithmetic] [KeyTexts] in
theorem notExecution_engine {α : Type}
    (step : Except EngineError α) :
    NotExecution (step.mapError Raised.engine) :=
  notExecution_mapError (by rintro _ _ ⟨⟩) step

omit [FloatArithmetic] [KeyTexts] in
theorem transaction_notExecution {α : Type}
    {work : List Nat → Nat → Writing schema →
      Except Raised (Writing schema × α)}
    (hWork : ∀ running xid writing,
      NotExecution (work running xid writing)) :
    NotExecution (session.transaction work) := by
  unfold TableSession.transaction
  cases session.manager.activeIn Indexing.defaultSession with
  | some outer =>
    exact (hWork _ _ _).bind fun _ => notExecution_ok _
  | none =>
    refine (notExecution_engine _).bind fun begun => ?_
    refine (notExecution_engine _).bind fun own => ?_
    refine (hWork _ _ _).bind fun _ => ?_
    exact (notExecution_engine _).bind
      fun _ => notExecution_ok _

variable [PythonText]

omit [FloatArithmetic] in
theorem updateOne_notExecution
    (pages : FreshPages)
    (running : List Nat)
    (xid : Nat)
    (recordId : Storage.RecordId)
    (values : Given schema)
    (writing : Writing schema) :
    NotExecution (writing.updateOne pages running xid
      recordId values) := by
  unfold Writing.updateOne
  refine (notExecution_engine _).bind fun claimed => ?_
  rcases claimed with ⟨claimed, none | version⟩
  · exact notExecution_ok _
  · refine (notExecution_mapError
      (by rintro _ _ ⟨⟩) _).bind fun row => ?_
    refine (notExecution_engine _).bind fun stamped => ?_
    refine (notExecution_engine _).bind fun inserted => ?_
    refine (notExecution_engine _).bind fun locked => ?_
    exact (notExecution_engine _).bind
      fun _ => notExecution_ok _

omit [FloatArithmetic] in
theorem updateMany_notExecution
    (pages : FreshPages)
    (running : List Nat)
    (xid : Nat) :
    ∀ (updates : List (Storage.RecordId × Given schema))
      (writing : Writing schema),
      NotExecution (writing.updateMany pages running xid
        updates)
  | [], _ => notExecution_ok _
  | (recordId, values) :: rest, writing => by
      refine (updateOne_notExecution pages running xid
        recordId values writing).bind fun next => ?_
      exact (updateMany_notExecution pages running xid rest
        next.1).bind fun _ => notExecution_ok _

/- The error of the ceiling comes from where the rows are
   located, before there is a transaction to change any. -/
theorem executeDelete_tooMany :
    session.executeDelete predicate cheapest limit =
        .error (RowStream.tooManyMatches limit) ↔
      session.locate predicate cheapest limit =
        .error (RowStream.tooManyMatches limit) := by
  unfold TableSession.executeDelete
  cases hLocate : session.locate predicate cheapest limit with
  | error error => exact iff_of_eq (by simp [bind, Except.bind])
  | ok reading =>
    refine iff_of_false ?_ nofun
    have hRest : NotExecution (reading.1.transaction
        fun running xid writing =>
          (writing.deleteMany running xid
            (reading.2.map Prod.fst)).mapError
              Raised.engine) :=
      transaction_notExecution
        fun _ _ _ => notExecution_engine _
    exact hRest.bind (fun _ => notExecution_ok _) _

theorem executeUpdate_tooMany
    (pages : FreshPages)
    (assignments : Assignments schema) :
    session.executeUpdate pages assignments predicate cheapest
          limit =
        .error (RowStream.tooManyMatches limit) ↔
      session.locate predicate cheapest limit =
        .error (RowStream.tooManyMatches limit) := by
  unfold TableSession.executeUpdate
  cases hLocate : session.locate predicate cheapest limit with
  | error error => exact iff_of_eq (by simp [bind, Except.bind])
  | ok reading =>
    refine iff_of_false ?_ nofun
    refine NotExecution.bind (notExecution_engine _)
      (fun updates => ?_) _
    exact transaction_notExecution fun _ _ _ =>
      updateMany_notExecution pages _ _ _ _

/- An UPDATE or a DELETE is refused if more rows match than
   the ceiling, and then before anything is changed; and is
   not refused for its ceiling otherwise. -/
structure RefusesBeyond
    (limit : Nat)
    (session : TableSession schema)
    (predicate : Option (Expression Binary64))
    (cheapest : Nat)
    (stream : RowStream (Found schema)) : Prop where
  deletes :
    session.executeDelete predicate cheapest limit =
        .error (RowStream.tooManyMatches limit) ↔
      limit < stream.rows.length
  updates : ∀ pages assignments,
    session.executeUpdate pages assignments predicate cheapest
          limit =
        .error (RowStream.tooManyMatches limit) ↔
      limit < stream.rows.length
  unchanged : limit < stream.rows.length →
    session.locate predicate cheapest limit =
      .error (RowStream.tooManyMatches limit)

theorem refusesBeyond_iff
    (hLimit : 1 ≤ limit)
    (hMatched : session.matched predicate cheapest =
      .ok stream) :
    RefusesBeyond limit session predicate cheapest stream ↔
      stream.rows.length ≠ limit := by
  have hLocate := locate_tooMany_iff hLimit hMatched
  constructor
  · intro hRefuses hSame
    have hBeyond := hRefuses.deletes.mp
      (executeDelete_tooMany.mpr (hLocate.mpr hSame.ge))
    omega
  · intro hOther
    have hBeyond : limit ≤ stream.rows.length ↔
        limit < stream.rows.length := by omega
    rw [hBeyond] at hLocate
    exact {
      deletes := executeDelete_tooMany.trans hLocate
      updates := fun pages assignments =>
        (executeUpdate_tooMany pages assignments).trans hLocate
      unchanged := hLocate.mpr }

/-
  Under a ceiling, a SELECT gives its first rows and tells
  whether it was cut off, unless its rows are as many as the
  ceiling; an UPDATE and a DELETE are refused when they match
  more, unless they match as many; and a subquery used as a
  value comes to the same only as long as its rows stay within
  the ceiling.
-/
theorem row_ceiling_iff
    {limit : Nat}
    (hLimit : 1 ≤ limit) :
    (∀ (query : Query φ) rows,
      executeQuery unlimited query = .ok (rows, false) →
      (executeQuery (upTo limit) query =
          .ok (rows.take limit, decide (limit < rows.length)) ↔
        rows.length ≠ limit)) ∧
    (∀ (session : TableSession schema) predicate cheapest
        stream,
      session.matched predicate cheapest = .ok stream →
      (RefusesBeyond limit session predicate cheapest stream ↔
        stream.rows.length ≠ limit)) ∧
    (∀ refusal (inner : Subqueries φ) plan values stream,
      refusal = .ok () → inner.Within limit →
      foldSubqueries unlimited inner = .ok values →
      plan values = .ok stream →
      (runScalar (upTo limit) (.select refusal inner plan) =
          runScalar unlimited (.select refusal inner plan) ↔
        stream.Within limit)) ∧
    (∀ query : Query φ, query.Within limit →
      runScalar (upTo limit) query =
        runScalar unlimited query) := by
  refine ⟨?_, ?_, ?_, runScalar_within hLimit⟩
  · intro query rows hFull
    rw [executeQuery_full hLimit hFull]
    by_cases hSame : rows.length = limit
    · refine iff_of_false ?_ fun hNot => hNot hSame
      simp [hSame]
    · refine iff_of_true ?_ hSame
      have hBeyond : limit ≤ rows.length ↔
          limit < rows.length := by omega
      rw [decide_eq_decide.mpr hBeyond]
  · intro session predicate cheapest stream hMatched
    exact refusesBeyond_iff hLimit hMatched
  · intro refusal inner plan values stream hAllowed hWithin
      hValues hPlan
    exact runScalar_iff hLimit hAllowed
      (foldSubqueries_within hLimit inner hWithin) hValues
      hPlan

end Changing

--
-- As Many Rows as the Ceiling
--

section Boundary

attribute [local instance] integersOnly
attribute [local instance] bareTexts
attribute [local instance] Serialization.asWritten

def integerOutput (number : Int) : OutputRow Rat :=
  ⟨.int number, []⟩

/- A SELECT with no subquery, and the rows that it has. -/
def plainQuery (rows : List (OutputRow Rat)) : Query Rat :=
  .select (.ok ()) .none fun _ =>
    .ok (rows.foldr RowStream.next .done)

/- With a ceiling of 1, one row is said to be cut off, the one
   row there is cannot be deleted, and a subquery of two rows
   has a value. -/
theorem ceiling_missed :
    executeQuery unlimited (plainQuery [integerOutput 1]) =
      .ok ([integerOutput 1], false) ∧
    executeQuery (upTo 1) (plainQuery [integerOutput 1]) =
      .ok ([integerOutput 1], true) ∧
    (sessionWith []).matched none 0 =
      .ok (.next (nineAt, nine) .done) ∧
    (sessionWith []).executeDelete none 0 1 =
      .error (RowStream.tooManyMatches 1) ∧
    runScalar unlimited
        (plainQuery [integerOutput 1, integerOutput 2]) =
      .error (manyRows 2) ∧
    runScalar (upTo 1)
        (plainQuery [integerOutput 1, integerOutput 2]) =
      .ok (.int 1) :=
  ⟨rfl, rfl, rfl, rfl, rfl, rfl⟩

theorem row_ceiling_iff_two :
    executeQuery (upTo 2) (plainQuery [integerOutput 1]) =
      .ok ([integerOutput 1], false) ∧
    RefusesBeyond 2 (sessionWith []) none 0
      (.next (nineAt, nine) .done) ∧
    runScalar (upTo 2)
        (plainQuery [integerOutput 1, integerOutput 2]) =
      .error (manyRows 2) :=
  have hTwo := @row_ceiling_iff Rat oneColumn _ _ _ 2
    (by decide)
  ⟨(hTwo.1 (plainQuery [integerOutput 1])
      [integerOutput 1] rfl).mpr (by decide),
    (hTwo.2.1 (sessionWith []) none 0 _ rfl).mpr (by decide),
    (hTwo.2.2.1 (.ok ()) .none _ [] _ rfl trivial rfl
      rfl).mpr (.inr ⟨rfl, rfl⟩)⟩

/- A SELECT of one row, the value of the subquery in it. -/
def echoQuery (inner : Query Rat) : Query Rat :=
  .select (.ok ()) (.more inner .none) fun values =>
    .ok ((values.map fun value => ⟨value, []⟩).foldr
      RowStream.next .done)

theorem scalar_kept_nested :
    runScalar (upTo 1)
        (echoQuery (echoQuery (plainQuery [integerOutput 7]))) =
      .ok (.int 7) :=
  scalar_kept (by decide) _ _ rfl

end Boundary

end Executor

end ChenDB
