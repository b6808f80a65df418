import ChenDB.Wal.Stream

/-
  A flush whose file write fails. The staged records have
  been forgotten by then, and the LSNs they were given, which
  pages already carry, are given out again.
-/

--
-- A File Write That Fails
--

namespace ChenDB

namespace Wal

namespace WriteAheadLog

variable {ι : Type} [ByteImage ι]

/-
  `WriteAheadLog.flush` where the file raises. The staged
  records are forgotten before they are written; some of
  those ahead of the last may have reached the file.
-/
def flushRefused
    (raised : EngineError)
    (reached : Nat) : LogM ι Unit := do
  ensureOpen
  let log ← get
  set { log with
    file := log.file ++ log.buffer.dropLast.take reached
    buffer := []
    bufferBytes := 0
    bufferTail := none }
  throw raised

variable {log : WriteAheadLog ι}

/- The log without its staged records. -/
def forgotten (log : WriteAheadLog ι) : WriteAheadLog ι :=
  { log with
    buffer := []
    bufferBytes := 0
    bufferTail := none }

omit [ByteImage ι] in
theorem flushRefused_run
    (hOpen : log.closed = false)
    (raised : EngineError) :
    (flushRefused raised 0).run log =
      .error raised log.forgotten := by
  unfold flushRefused
  rw [EStateM.run_bind, ensureOpen_run hOpen]
  simp [forgotten]

--
-- What Is Lost
--

/-
  A flush that failed before it wrote anything lost nothing:
  the staged records are staged, the next LSN is the same, a
  later flush writes them and then what was appended since,
  and a record some page refers to is still somewhere.
-/
structure NothingLost
    (log left : WriteAheadLog ι) : Prop where
  staged : left.buffer = log.buffer
  nextLsn : left.nextLsn = log.nextLsn
  written : ∀ later : List (LogRecord ι),
    (later.foldl stage left).flushed.file =
      log.file ++ log.buffer ++ later
  stamped : ∀ record ∈ log.file ++ log.buffer,
    record ∈ left.file ++ left.buffer

/- With anything staged there is something lost. -/
theorem flushRefused_loses
    (hOpen : log.closed = false)
    (hStaged : log.buffer ≠ [])
    (raised : EngineError) :
    ∃ left, (flushRefused raised 0).run log =
        .error raised left ∧
      ¬ NothingLost log left := by
  refine ⟨log.forgotten, flushRefused_run hOpen raised, ?_⟩
  intro hKept
  exact hStaged hKept.staged.symm

/- One page change is staged, and the file is full. -/
def stagedLog : WriteAheadLog Bytes :=
  (openFile [] 0).updated 1 2 [5] fun _ => [6]

theorem flushRefused_loses_staged :
    ∃ left : WriteAheadLog Bytes,
      (flushRefused (.valueError "file too large") 0).run
          stagedLog =
        .error (.valueError "file too large") left ∧
      ¬ NothingLost stagedLog left :=
  flushRefused_loses rfl (by decide) _

/- The LSN of the lost record is given to the next one. -/
theorem flushRefused_forgets :
    ∃ left : WriteAheadLog Bytes,
      (flushRefused (.valueError "file too large") 0).run
          stagedLog =
        .error (.valueError "file too large") left ∧
      stagedLog.buffer.map LogRecord.lsn = [0] ∧
      stagedLog.nextLsn = 46 ∧
      left.file = [] ∧ left.buffer = [] ∧
      left.nextLsn = 0 ∧ ¬ NothingLost stagedLog left := by
  have hNext : stagedLog.nextLsn = 46 := by decide
  refine ⟨stagedLog.forgotten, flushRefused_run rfl _,
    by decide, hNext, rfl, rfl, rfl, fun hKept => ?_⟩
  have hSame := hKept.nextLsn
  rw [hNext] at hSame
  cases hSame

end WriteAheadLog

end Wal

end ChenDB
