import Mathlib.Data.List.Induction
import Mathlib.Order.Basic

/-
  Replaying versioned writes over a partial store.

  A write carries a stamp; a stored value carries a version.
  Replay applies a write only where the stored version is
  behind its stamp, so a replay may be cut anywhere and
  started again. Saved values are restored newest first, so
  the oldest save of a key is the one that stays.
-/

--
-- Stores and Writes
--

namespace Library

namespace Versioned

variable {κ ν : Type} [DecidableEq κ]
variable {key : κ}

/- A store holds at most one value under each key. -/
abbrev Store (κ ν : Type) :=
  κ → Option ν

/- One stamped write of a whole value. -/
structure Write (κ ν : Type) where
  stamp : Nat
  key : κ
  value : ν

/- A stored value is behind a stamp, or there is none. -/
def Behind
    (version : ν → Nat)
    (stored : Option ν)
    (stamp : Nat) : Prop :=
  ∀ v ∈ stored, version v < stamp

instance
    (version : ν → Nat)
    (stored : Option ν)
    (stamp : Nat) :
    Decidable (Behind version stored stamp) :=
  inferInstanceAs
    (Decidable (∀ v ∈ stored, version v < stamp))

/- Apply one write where the store is behind it. -/
def replayOne
    (version : ν → Nat)
    (store : Store κ ν)
    (write : Write κ ν) : Store κ ν :=
  if Behind version (store write.key) write.stamp then
    Function.update store write.key (some write.value)
  else
    store

/- Apply a list of writes, oldest first. -/
def replay
    (version : ν → Nat)
    (writes : List (Write κ ν))
    (store : Store κ ν) : Store κ ν :=
  writes.foldl (replayOne version) store

/- Apply every write, whatever the versions say. -/
def overwrite
    (writes : List (Write κ ν))
    (store : Store κ ν) : Store κ ν :=
  writes.foldl
    (fun store write =>
      Function.update store write.key (some write.value))
    store

/- The last write to one key. -/
def lastTo
    (key : κ)
    (writes : List (Write κ ν)) :
    Option (Write κ ν) :=
  writes.reverse.find? (fun write => write.key = key)

/-
  Stamps increase along the list, and no value claims a
  version above the stamp of the write that carries it.
-/
structure Ordered
    (version : ν → Nat)
    (writes : List (Write κ ν)) : Prop where
  increasing :
    writes.Pairwise (fun a b => a.stamp < b.stamp)
  version_le :
    ∀ write ∈ writes, version write.value ≤ write.stamp

--
-- The Last Write to a Key
--

theorem lastTo_append_singleton
    (key : κ)
    (writes : List (Write κ ν))
    (write : Write κ ν) :
    lastTo key (writes ++ [write]) =
      if write.key = key then some write
      else lastTo key writes := by
  by_cases hKey : write.key = key
  · simp [lastTo, hKey]
  · simp [lastTo, hKey]

variable {writes : List (Write κ ν)}
variable {version : ν → Nat}

theorem mem_of_lastTo
    {write : Write κ ν}
    (hLast : lastTo key writes = some write) :
    write ∈ writes ∧ write.key = key := by
  constructor
  · exact List.mem_reverse.mp
      (List.mem_of_find?_eq_some hLast)
  · simpa using List.find?_some hLast

theorem lastTo_eq_none_iff :
    lastTo key writes = none ↔
      ∀ write ∈ writes, write.key ≠ key := by
  simp [lastTo, List.find?_eq_none]

theorem lastTo_append
    (key : κ)
    (older newer : List (Write κ ν)) :
    lastTo key (older ++ newer) =
      (lastTo key newer).or (lastTo key older) := by
  simp [lastTo, List.find?_append]

--
-- Ordered Lists
--

namespace Ordered

variable {older newer : List (Write κ ν)}

omit [DecidableEq κ] in
theorem of_append_left
    (hOrdered : Ordered version (older ++ newer)) :
    Ordered version older where
  increasing :=
    (List.pairwise_append.mp hOrdered.increasing).1
  version_le write hMem :=
    hOrdered.version_le write
      (List.mem_append_left newer hMem)

omit [DecidableEq κ] in
theorem stamp_lt_of_append
    (hOrdered : Ordered version (older ++ newer))
    {a b : Write κ ν}
    (hOld : a ∈ older)
    (hNew : b ∈ newer) :
    a.stamp < b.stamp :=
  (List.pairwise_append.mp hOrdered.increasing).2.2
    a hOld b hNew

end Ordered

--
-- What a Replay Leaves
--

section Replay

@[simp] theorem replay_nil (store : Store κ ν) :
    replay version [] store = store := rfl

theorem replay_cons
    (write : Write κ ν)
    (writes : List (Write κ ν))
    (store : Store κ ν) :
    replay version (write :: writes) store =
      replay version writes
        (replayOne version store write) := rfl

theorem replay_append
    (older newer : List (Write κ ν))
    (store : Store κ ν) :
    replay version (older ++ newer) store =
      replay version newer (replay version older store) :=
  List.foldl_append

variable {writes : List (Write κ ν)}

/-
  After an ordered replay a key holds its last write, unless
  the store was already at or past that write's stamp. The
  induction is on the end of the list: the last write wins
  because whatever precedes it is behind its stamp.
-/
theorem replay_apply
    (hOrdered : Ordered version writes)
    (store : Store κ ν)
    (key : κ) :
    replay version writes store key =
      match lastTo key writes with
      | none => store key
      | some write =>
        if Behind version (store key) write.stamp then
          some write.value
        else store key := by
  induction writes using List.reverseRecOn with
  | nil => rfl
  | append_singleton writes write ih =>
    have hBefore := ih hOrdered.of_append_left
    rw [replay_append, lastTo_append_singleton]
    change replayOne version
      (replay version writes store) write key = _
    by_cases hKey : write.key = key
    · subst hKey
      have hOnePast :
          Behind version (replay version writes store
              write.key) write.stamp ↔
            Behind version (store write.key)
              write.stamp := by
        rw [hBefore]
        cases hLast : lastTo write.key writes with
        | none => rfl
        | some earlier =>
          have hMem := (mem_of_lastTo hLast).1
          have hLt : earlier.stamp < write.stamp :=
            hOrdered.stamp_lt_of_append hMem
              (List.mem_singleton_self write)
          have hVersion :
              version earlier.value ≤ earlier.stamp :=
            hOrdered.version_le earlier
              (List.mem_append_left _ hMem)
          by_cases hBehind :
              Behind version (store write.key)
                earlier.stamp
          · simp only [hBehind, if_true]
            constructor
            · intro _ v hv
              exact Nat.lt_trans (hBehind v hv) hLt
            · intro _ v hv
              cases hv
              omega
          · simp only [hBehind, if_false]
      simp only [replayOne, hOnePast, if_true]
      by_cases hBehind :
          Behind version (store write.key) write.stamp
      · simp [hBehind]
      · simp only [hBehind, if_false]
        rw [hBefore]
        cases hLast : lastTo write.key writes with
        | none => rfl
        | some earlier =>
          have hLt : earlier.stamp < write.stamp :=
            hOrdered.stamp_lt_of_append
              (mem_of_lastTo hLast).1
              (List.mem_singleton_self write)
          have hNotEarlier :
              ¬ Behind version (store write.key)
                earlier.stamp := by
            intro hEarlier
            exact hBehind fun v hv =>
              Nat.lt_trans (hEarlier v hv) hLt
          simp only [hNotEarlier, if_false]
    · rw [if_neg hKey, ← hBefore]
      unfold replayOne
      split
      · exact Function.update_of_ne (Ne.symm hKey) _ _
      · rfl

/- A key no write names keeps its value. -/
theorem replay_of_lastTo_none
    (hOrdered : Ordered version writes)
    (hNone : lastTo key writes = none)
    (store : Store κ ν) :
    replay version writes store key = store key := by
  rw [replay_apply hOrdered, hNone]

variable {write : Write κ ν} {store : Store κ ν}

/- Where the store is behind, the last write stays. -/
theorem replay_of_lastTo_some
    (hOrdered : Ordered version writes)
    (hLast : lastTo key writes = some write)
    (hBehind :
      Behind version (store key) write.stamp) :
    replay version writes store key =
      some write.value := by
  rw [replay_apply hOrdered, hLast]
  exact if_pos hBehind

/-
  A replay that starts from the last value it would write
  leaves that value, whatever its version says.
-/
theorem replay_of_holds_last
    (hOrdered : Ordered version writes)
    (hLast : lastTo key writes = some write)
    (hHolds : store key = some write.value) :
    replay version writes store key =
      some write.value := by
  rw [replay_apply hOrdered, hLast]
  by_cases hBehind :
      Behind version (store key) write.stamp
  · exact if_pos hBehind
  · exact (if_neg hBehind).trans hHolds

/- Every write to a key is at or before its last write. -/
theorem stamp_le_lastTo
    (hOrdered : Ordered version writes)
    {last : Write κ ν}
    (hMem : write ∈ writes)
    (hKey : write.key = key)
    (hLast : lastTo key writes = some last) :
    write.stamp < last.stamp ∨ write = last := by
  induction writes using List.reverseRecOn with
  | nil => cases hMem
  | append_singleton writes newest ih =>
    rw [lastTo_append_singleton] at hLast
    rcases List.mem_append.mp hMem with hOld | hNew
    · by_cases hNewest : newest.key = key
      · rw [if_pos hNewest] at hLast
        cases hLast
        exact .inl (hOrdered.stamp_lt_of_append hOld
          (List.mem_singleton_self _))
      · rw [if_neg hNewest] at hLast
        exact ih hOrdered.of_append_left hOld hLast
    · have hSame : write = newest := by
        simpa using hNew
      subst hSame
      rw [if_pos hKey] at hLast
      exact .inr (Option.some.inj hLast)

/-
  A store that differs from another only by writes the
  replay would have applied ends the replay the same.
-/
theorem replay_of_partial
    (hOrdered : Ordered version writes)
    {reached : Store κ ν}
    (hReached :
      reached key = store key ∨
        ∃ write ∈ writes, write.key = key ∧
          Behind version (store key) write.stamp ∧
          reached key = some write.value) :
    replay version writes reached key =
      replay version writes store key := by
  rcases hReached with hSame | ⟨write, hMem, hKey,
    hBehind, hHolds⟩
  · rw [replay_apply hOrdered, replay_apply hOrdered, hSame]
  · cases hLast : lastTo key writes with
    | none =>
      rw [lastTo_eq_none_iff] at hLast
      exact absurd hKey (hLast write hMem)
    | some last =>
      rcases stamp_le_lastTo hOrdered hMem hKey hLast
        with hLt | rfl
      · have hReachedBehind :
            Behind version (reached key) last.stamp := by
          intro v hv
          rw [hHolds] at hv
          cases hv
          exact Nat.lt_of_le_of_lt
            (hOrdered.version_le write hMem) hLt
        have hStoreBehind :
            Behind version (store key) last.stamp :=
          fun v hv => Nat.lt_trans (hBehind v hv) hLt
        rw [replay_of_lastTo_some hOrdered hLast
            hReachedBehind,
          replay_of_lastTo_some hOrdered hLast
            hStoreBehind]
      · rw [replay_of_holds_last hOrdered hLast hHolds,
          replay_of_lastTo_some hOrdered hLast hBehind]

/-
  What a replay leaves at a key is what was there or a
  write that was ahead of it.
-/
theorem replay_cases
    (hOrdered : Ordered version writes)
    (store : Store κ ν)
    (key : κ) :
    replay version writes store key = store key ∨
      ∃ write ∈ writes, write.key = key ∧
        Behind version (store key) write.stamp ∧
        replay version writes store key =
          some write.value := by
  cases hLast : lastTo key writes with
  | none =>
    exact .inl
      (replay_of_lastTo_none hOrdered hLast store)
  | some write =>
    rcases mem_of_lastTo hLast with ⟨hMem, hKey⟩
    by_cases hBehind :
        Behind version (store key) write.stamp
    · exact .inr ⟨write, hMem, hKey, hBehind,
        replay_of_lastTo_some hOrdered hLast hBehind⟩
    · left
      rw [replay_apply hOrdered, hLast]
      exact if_neg hBehind

/- Writes to other keys leave a key alone. -/
theorem replay_of_not_mem
    (hOther : ∀ write ∈ writes, write.key ≠ key)
    (store : Store κ ν) :
    replay version writes store key = store key := by
  induction writes generalizing store with
  | nil => rfl
  | cons write writes ih =>
    have hNe : key ≠ write.key :=
      (hOther write (.head _)).symm
    have hRest := fun later hLater =>
      hOther later (.tail _ hLater)
    rw [replay_cons, ih hRest]
    unfold replayOne
    split
    · exact Function.update_of_ne hNe _ _
    · rfl

end Replay

--
-- Overwriting
--

section Overwrite

theorem overwrite_append_singleton
    (writes : List (Write κ ν))
    (write : Write κ ν)
    (store : Store κ ν) :
    overwrite (writes ++ [write]) store =
      Function.update (overwrite writes store) write.key
        (some write.value) := by
  unfold overwrite
  rw [List.foldl_append]
  rfl

/- The last write to a key is what an overwrite leaves. -/
theorem overwrite_apply
    (writes : List (Write κ ν))
    (store : Store κ ν)
    (key : κ) :
    overwrite writes store key =
      match lastTo key writes with
      | none => store key
      | some write => some write.value := by
  induction writes using List.reverseRecOn with
  | nil => rfl
  | append_singleton writes write ih =>
    rw [overwrite_append_singleton, lastTo_append_singleton]
    by_cases hKey : write.key = key
    · subst hKey
      simp
    · rw [Function.update_of_ne (Ne.symm hKey), ih,
        if_neg hKey]

/-
  Every key was behind the writes to it, and now holds that
  value or one of those writes: the replay ends where a
  plain overwrite would.
-/
theorem replay_eq_overwrite
    {writes : List (Write κ ν)}
    (hOrdered : Ordered version writes)
    {store reached : Store κ ν}
    (hBehind : ∀ write ∈ writes,
      Behind version (store write.key) write.stamp)
    (hReached : ∀ key, reached key = store key ∨
      ∃ write ∈ writes, write.key = key ∧
        reached key = some write.value) :
    replay version writes reached =
      overwrite writes store := by
  funext key
  have hSame :
      replay version writes reached key =
        replay version writes store key := by
    apply replay_of_partial hOrdered
    rcases hReached key with hOld | ⟨write, hMem, hKey, hHolds⟩
    · exact .inl hOld
    · refine .inr ⟨write, hMem, hKey, ?_, hHolds⟩
      rw [← hKey]
      exact hBehind write hMem
  rw [hSame, overwrite_apply]
  cases hLast : lastTo key writes with
  | none => exact replay_of_lastTo_none hOrdered hLast store
  | some write =>
    rcases mem_of_lastTo hLast with ⟨hMem, hKey⟩
    apply replay_of_lastTo_some hOrdered hLast
    rw [← hKey]
    exact hBehind write hMem

end Overwrite

--
-- Restoring Saved Values
--

/- Put saved values back, newest first. -/
def restore
    (saves : List (κ × ν))
    (store : Store κ ν) : Store κ ν :=
  saves.foldr
    (fun save rest =>
      Function.update rest save.1 (some save.2))
    store

@[simp] theorem restore_nil (store : Store κ ν) :
    restore [] store = store := rfl

@[simp] theorem restore_cons
    (save : κ × ν)
    (saves : List (κ × ν))
    (store : Store κ ν) :
    restore (save :: saves) store =
      Function.update (restore saves store) save.1
        (some save.2) := rfl

theorem restore_append
    (older newer : List (κ × ν))
    (store : Store κ ν) :
    restore (older ++ newer) store =
      restore older (restore newer store) :=
  List.foldr_append

/- The oldest save of a key is the one that stays. -/
theorem restore_apply
    (saves : List (κ × ν))
    (store : Store κ ν)
    (key : κ) :
    restore saves store key =
      (saves.lookup key).or (store key) := by
  induction saves with
  | nil => rfl
  | cons save saves ih =>
    rcases save with ⟨saved, value⟩
    by_cases hKey : key = saved
    · subst hKey
      simp
    · have hBeq : (key == saved) = false := by
        simpa using hKey
      rw [restore_cons, Function.update_of_ne hKey, ih]
      simp [List.lookup_cons, hBeq]

/- Logging the restores makes the oldest save last. -/
theorem lastTo_value
    (writes : List (Write κ ν))
    (saves : List (κ × ν))
    (hLogged : writes.map (fun write =>
      (write.key, write.value)) = saves.reverse)
    (key : κ) :
    (lastTo key writes).map Write.value =
      saves.lookup key := by
  have hSaves : saves =
      writes.reverse.map (fun write =>
        (write.key, write.value)) := by
    rw [← List.reverse_reverse saves, ← hLogged,
      List.map_reverse]
  rw [hSaves]
  unfold lastTo
  induction writes.reverse with
  | nil => rfl
  | cons write rest ih =>
    by_cases hKey : write.key = key
    · subst hKey
      simp
    · have hBeq : (key == write.key) = false := by
        simpa using Ne.symm hKey
      simpa [hKey, hBeq, List.lookup_cons] using ih

end Versioned

end Library
