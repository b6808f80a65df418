import ChenDB.Indexing.OneSession

/-
  Where index entries lead. Deletes and updates take entries
  out as they go, so an entry leads to a version with its key
  for as long as the version is there; only a vacuum can take
  it away, and it asks no index.
-/

--
-- Where Entries Lead
--

namespace ChenDB

namespace Indexing

open Executor (Value)
open Library.StateExcept (ok_of_bind)
open Mvcc (Change Index LockManager Phase Progress Statement
  Table Touches Version advanceRow chosen isDead)
open Storage (HeapFile Payload RecordId)
open Transaction (TransactionManager)

variable {ρ φ : Type}
variable {tree : Tree ρ φ} {casefold : String → String}

section Trees

variable [SortableDouble φ]

/- The entry leads to a version whose indexed column has the
   entry's key. -/
def Leads
    (tree : Tree ρ φ)
    (heap : HeapFile (Version ρ))
    (entry : Entry) : Prop :=
  ∃ version, heap.get entry.2 = some version ∧
    tree.encode version.row = .ok entry.1

/- Every entry of every index leads somewhere. -/
structure Points
    (heap : HeapFile (Version ρ))
    (indexes : List (Index ρ (Tree ρ φ))) : Prop where
  standard : ∀ index ∈ indexes,
    index = indexOver index.name index.tree
  leads : ∀ index ∈ indexes, ∀ entry ∈ index.tree.entries,
    Leads index.tree heap entry

/- What is done to a tree: it gains nothing but one entry. -/
structure Gains
    (new : Mvcc.Located ρ)
    (tree tree' : Tree ρ φ) : Prop where
  dataType : tree'.dataType = tree.dataType
  column : tree'.column = tree.column
  entries : ∀ entry ∈ tree'.entries,
    entry ∈ tree.entries ∨
      ∃ row, new = some (entry.2, row) ∧
        tree.encode row = .ok entry.1

variable {new : Mvcc.Located ρ} {tree' : Tree ρ φ}

theorem Gains.encode
    (hGains : Gains new tree tree')
    (row : ρ) :
    tree'.encode row = tree.encode row := by
  unfold Tree.encode
  rw [hGains.dataType, hGains.column]

theorem Gains.refl
    (new : Mvcc.Located ρ)
    (tree : Tree ρ φ) : Gains new tree tree where
  dataType := rfl
  column := rfl
  entries := fun _ hMem => .inl hMem

theorem Gains.trans
    {first second third : Tree ρ φ}
    (hFirst : Gains new first second)
    (hSecond : Gains new second third) :
    Gains new first third where
  dataType := hSecond.dataType.trans hFirst.dataType
  column := hSecond.column.trans hFirst.column
  entries := by
    intro entry hMem
    rcases hSecond.entries entry hMem with
      hOld | ⟨row, hNew, hKey⟩
    · exact hFirst.entries entry hOld
    · rw [hFirst.encode] at hKey
      exact .inr ⟨row, hNew, hKey⟩

variable {row : ρ} {recordId : RecordId}

theorem insertRow_gains
    {name : String}
    (hInsert : tree.insertRow name row recordId = .ok tree') :
    Gains (some (recordId, row)) tree tree' := by
  unfold Tree.insertRow at hInsert
  rcases ok_of_bind hInsert with ⟨key, hKey, hEntry⟩
  unfold Tree.insert at hEntry
  split at hEntry
  · cases hEntry
  · cases hEntry
    refine ⟨rfl, rfl, ?_⟩
    intro entry hMem
    rcases List.mem_append.mp hMem with hBefore | hRest
    · exact .inl (List.takeWhile_subset _ hBefore)
    · rcases List.mem_cons.mp hRest with hNew | hAfter
      · rw [hNew]
        exact .inr ⟨row, rfl, hKey⟩
      · exact .inl (List.dropWhile_subset _ hAfter)

theorem deleteRow_gains
    (new : Mvcc.Located ρ)
    (hDelete : tree.deleteRow row recordId = .ok tree') :
    Gains new tree tree' := by
  unfold Tree.deleteRow at hDelete
  rcases ok_of_bind hDelete with ⟨key, _, hEntry⟩
  cases hEntry
  exact ⟨rfl, rfl,
    fun entry hMem => .inl (List.mem_of_mem_erase hMem)⟩

/- `Index.rewrite` on the indexes there are. -/
theorem rewrite_gains
    {index : Index ρ (Tree ρ φ)}
    (hStandard : index = indexOver index.name index.tree)
    (old new : Mvcc.Located ρ) :
    (index.rewrite old new).1 = indexOver index.name
        (index.rewrite old new).1.tree ∧
      Gains new index.tree
        (index.rewrite old new).1.tree := by
  have hKept : ∀ tree : Tree ρ φ,
      { index with tree := tree } =
        indexOver index.name tree := by
    intro tree
    rw [hStandard]
    rfl
  have hRemoved : ∀ recordId row tree,
      index.deleteEntry row recordId index.tree = .ok tree →
        Gains new index.tree tree := by
    intro recordId row tree hTree
    rw [hStandard] at hTree
    exact deleteRow_gains new hTree
  have hInserted : ∀ recordId row tree tree',
      new = some (recordId, row) →
      index.insertEntry row recordId tree = .ok tree' →
        Gains new tree tree' := by
    intro recordId row tree tree' hNew hTree
    rw [hStandard] at hTree
    rw [hNew]
    exact insertRow_gains hTree
  unfold Index.rewrite
  cases old with
  | none =>
    cases new with
    | none => exact ⟨hKept index.tree, Gains.refl _ _⟩
    | some located =>
      simp only
      split
      · exact ⟨hKept index.tree, Gains.refl _ _⟩
      · rename_i tree hTree
        exact ⟨hKept tree, hInserted _ _ _ _ rfl hTree⟩
  | some located =>
    simp only
    split
    · exact ⟨hStandard, Gains.refl new _⟩
    · rename_i tree hTree
      have hFirst := hRemoved _ _ _ hTree
      cases new with
      | none => exact ⟨hKept tree, hFirst⟩
      | some added =>
        simp only
        split
        · exact ⟨hKept tree, hFirst⟩
        · rename_i tree' hTree'
          exact ⟨hKept tree',
            hFirst.trans (hInserted _ _ _ _ rfl hTree')⟩

variable {indexes : List (Index ρ (Tree ρ φ))}

theorem rewriteAll_gains
    (hStandard : ∀ index ∈ indexes,
      index = indexOver index.name index.tree)
    (old new : Mvcc.Located ρ) :
    ∀ index' ∈ (Index.rewriteAll old new indexes).1,
      index' = indexOver index'.name index'.tree ∧
        ∃ index ∈ indexes,
          Gains new index.tree index'.tree := by
  induction indexes with
  | nil => simp [Index.rewriteAll]
  | cons index rest ih =>
    have hIndex := hStandard index (.head _)
    have hRest := ih fun other hMem =>
      hStandard other (.tail _ hMem)
    have hHead := rewrite_gains hIndex old new
    have hName : (index.rewrite old new).1 = indexOver
        (index.rewrite old new).1.name
        (index.rewrite old new).1.tree := by
      conv_rhs => rw [hHead.1]
      exact hHead.1
    unfold Index.rewriteAll
    cases hRewrite : index.rewrite old new with
    | mk changed raised =>
      rw [hRewrite] at hHead hName
      intro index' hMem
      cases raised with
      | some raised =>
        rcases List.mem_cons.mp hMem with hNew | hOld
        · rw [hNew]
          exact ⟨hName, index, .head _, hHead.2⟩
        · exact ⟨hStandard index'
            (.tail _ hOld), index',
            .tail _ hOld,
            Gains.refl new _⟩
      | none =>
        rcases List.mem_cons.mp hMem with hNew | hLater
        · rw [hNew]
          exact ⟨hName, index, .head _, hHead.2⟩
        · rcases hRest index' hLater with
            ⟨hOver, other, hOther, hGains⟩
          exact ⟨hOver, other,
            .tail _ hOther, hGains⟩

/- Rows keep what they say wherever they stay. -/
def KeepsRows
    (before after : HeapFile (Version ρ)) : Prop :=
  ∀ recordId version, before.get recordId = some version →
    ∃ version', after.get recordId = some version' ∧
      version'.row = version.row

variable {before after : HeapFile (Version ρ)}

theorem Leads.keep
    {entry : Entry}
    (hLeads : Leads tree before entry)
    (hKeeps : KeepsRows before after) :
    Leads tree after entry := by
  rcases hLeads with ⟨version, hGet, hKey⟩
  rcases hKeeps _ _ hGet with ⟨version', hGet', hRow⟩
  exact ⟨version', hGet', by rw [hRow]; exact hKey⟩

theorem Points.keep
    (hPoints : Points before indexes)
    (hKeeps : KeepsRows before after) :
    Points after indexes where
  standard := hPoints.standard
  leads := fun index hIndex entry hEntry =>
    (hPoints.leads index hIndex entry hEntry).keep hKeeps

/- The indexes stay right when the entry they gain is that of
   a row of the heap. -/
theorem Points.rewriteAll
    {heap : HeapFile (Version ρ)}
    (hPoints : Points heap indexes)
    (old : Mvcc.Located ρ)
    (hNew : ∀ recordId row, new = some (recordId, row) →
      ∃ version, heap.get recordId = some version ∧
        version.row = row) :
    Points heap (Index.rewriteAll old new indexes).1 := by
  have hGains := rewriteAll_gains hPoints.standard old new
  constructor
  · exact fun index' hIndex' => (hGains index' hIndex').1
  · intro index' hIndex' entry hEntry
    rcases hGains index' hIndex' with ⟨_, index, hIndex, hTree⟩
    unfold Leads
    simp only [hTree.encode]
    rcases hTree.entries entry hEntry with
      hOld | ⟨row, hRow, hKey⟩
    · exact hPoints.leads index hIndex entry hOld
    · rcases hNew entry.2 row hRow with
        ⟨version, hGet, hSame⟩
      exact ⟨version, hGet, by rw [hSame]; exact hKey⟩

end Trees

--
-- One Step of a Statement
--

/- The row a change puts into the heap. -/
def newRow : Change ρ → Option ρ
  | .insert values => some values
  | .delete _ => none
  | .update _ values => some values

/- What a statement knows of the heap: the version it has
   claimed is there, and so is the row it has put in. -/
structure Knows
    (heap : HeapFile (Version ρ))
    (statement : Statement ρ) : Prop where
  claimed : ∀ recordId version,
    statement.HasClaimed recordId version →
      heap.get recordId = some version
  placed : ∀ recordId old change rest,
    statement.phase = .placed recordId old →
      statement.todo = change :: rest →
        ∃ version, heap.get recordId = some version ∧
          newRow change = some version.row

section Steps

variable [Payload ρ] {table : Table ρ (Tree ρ φ)}
variable {locks : LockManager} {statement : Statement ρ}
variable {xid : Nat} {fresh : PageId}

omit [Payload ρ] in
theorem Knows.start
    (heap : HeapFile (Version ρ))
    {statement : Statement ρ}
    (hPhase : statement.phase = .arriving) :
    Knows heap statement where
  claimed := by
    intro recordId version hClaimed
    have hWhere := hClaimed.1
    rw [hPhase] at hWhere
    cases hWhere
  placed := by
    intro recordId old change rest hPlaced
    rw [hPhase] at hPlaced
    cases hPlaced

omit [Payload ρ] in
theorem Touches.keepsRows
    {before after : HeapFile (Version ρ)}
    {claimed : RecordId → Version ρ → Prop}
    {effects : List (Mvcc.Effect ρ)}
    (hTouches : Touches xid claimed before.get after.get
      effects)
    (hClaimed : ∀ recordId version,
      claimed recordId version →
        before.get recordId = some version) :
    KeepsRows before after := by
  intro recordId version hGet
  have hStamped : ∀ target held,
      claimed target held →
        ∃ version', Function.update before.get target
          (some (Mvcc.setXmax held xid)) recordId =
            some version' ∧ version'.row = version.row := by
    intro target held hHeld
    by_cases hSame : recordId = target
    · subst hSame
      have hThere := hClaimed _ _ hHeld
      rw [hGet, Option.some.injEq] at hThere
      exact ⟨Mvcc.setXmax held xid, by simp,
        by rw [hThere]; rfl⟩
    · exact ⟨version,
        by rw [Function.update_of_ne hSame]; exact hGet, rfl⟩
  generalize after.get = rows at hTouches ⊢
  cases hTouches with
  | none => exact ⟨version, hGet, rfl⟩
  | added hFree =>
    rename_i other values
    have hOther : recordId ≠ other := by
      intro hSame
      rw [← hSame, hGet] at hFree
      cases hFree
    exact ⟨version, by
      rw [Function.update_of_ne hOther]
      exact hGet, rfl⟩
  | removed hHeld => exact hStamped _ _ hHeld
  | replaced hHeld hFree =>
    rename_i target held other values
    rcases hStamped _ _ hHeld with ⟨version', hThere, hRow⟩
    have hOther : recordId ≠ other := by
      intro hSame
      rw [← hSame, hThere] at hFree
      cases hFree
    exact ⟨version', by
      rw [Function.update_of_ne hOther]
      exact hThere, hRow⟩

variable {hFresh : fresh ∉ table.heap.pageIds}
variable {old : Mvcc.Located ρ} {change : Change ρ}
variable {rest : List (Change ρ)} {after : Statement ρ}

/- A row that was just put in is known. -/
theorem place_placed
    {values : ρ}
    (hTodo : statement.todo = change :: rest)
    (hRow : newRow change = some values)
    (hAfter : (Mvcc.place table locks statement xid fresh
      hFresh values old).statement = some after) :
    ∀ recordId located change rest,
      after.phase = .placed recordId located →
        after.todo = change :: rest →
          ∃ version,
            (Mvcc.place table locks statement xid fresh
              hFresh values old).table.heap.get recordId =
                some version ∧
              newRow change = some version.row := by
  intro recordId located first others hPhase hFirst
  unfold Mvcc.place at hAfter ⊢
  split at hAfter
  · cases hAfter
  · rename_i heap placed hInsert
    cases hAfter
    simp only [Statement.into, Phase.placed.injEq] at hPhase
    simp only [Statement.into, hTodo, List.cons.injEq]
      at hFirst
    rcases HeapFile.get_insert hInsert with ⟨_, hGet⟩
    simp only [hGet, ← hPhase.1, Function.update_self,
      ← hFirst.1]
    exact ⟨_, rfl, hRow⟩

omit [Payload ρ] in
theorem settleIn_placed
    {recordId : RecordId}
    {row : ρ}
    (hAfter : (Mvcc.settleIn table locks statement xid
      recordId row old).statement = some after) :
    after = statement ∨ after = statement.next := by
  unfold Mvcc.settleIn at hAfter
  split at hAfter
  · cases hAfter
  · cases hAfter
    exact .inl rfl
  · simp only [Mvcc.stay] at hAfter
    split at hAfter
    · cases hAfter
    · cases hAfter
      exact .inr rfl

variable {running : List Nat}

/- What no step but the last one of a change does to the
   indexes, and what that one does. -/
theorem advanceRow_indexes
    {indexes : List (Index ρ (Tree ρ φ))}
    (hIndexes : (advanceRow table locks statement running xid
      fresh hFresh change).table.indexes = indexes) :
    indexes = table.indexes ∨
      ∃ old new,
        indexes = (Index.rewriteAll old new table.indexes).1 ∧
        ∀ recordId row, new = some (recordId, row) →
          (∃ located,
            statement.phase = .placed recordId located) ∧
          newRow change = some row := by
  have hPlace : ∀ {other : Table ρ (Tree ρ φ)}
      {hOther : fresh ∉ other.heap.pageIds}
      {values : ρ} {old : Mvcc.Located ρ},
      (Mvcc.place other locks statement xid fresh hOther
        values old).table.indexes = other.indexes := by
    intro other hOther values old
    unfold Mvcc.place
    split <;> rfl
  have hSettle : ∀ {recordId : RecordId} {row : ρ}
      {old : Mvcc.Located ρ},
      statement.phase = .placed recordId old →
      newRow change = some row →
      (Mvcc.settleIn table locks statement xid recordId row
        old).table.indexes = indexes →
      indexes = table.indexes ∨
        ∃ old new,
          indexes = (Index.rewriteAll old new table.indexes).1 ∧
          ∀ recordId row, new = some (recordId, row) →
            (∃ located,
              statement.phase = .placed recordId located) ∧
            newRow change = some row := by
    intro recordId row old hPhase hRow hSame
    unfold Mvcc.settleIn at hSame
    split at hSame
    · exact .inl hSame.symm
    · exact .inl hSame.symm
    · right
      refine ⟨old, some (recordId, row), hSame.symm, ?_⟩
      intro other otherRow hNew
      cases hNew
      exact ⟨⟨old, hPhase⟩, hRow⟩
  unfold advanceRow at hIndexes
  split at hIndexes
  · split at hIndexes
    · exact .inl hIndexes.symm
    · rw [hPlace] at hIndexes
      exact .inl hIndexes.symm
  · rw [(Mvcc.arrive_same running _).1] at hIndexes
    exact .inl hIndexes.symm
  · rw [(Mvcc.arrive_same running _).1] at hIndexes
    exact .inl hIndexes.symm
  · rw [(Mvcc.claim_same _).1] at hIndexes
    exact .inl hIndexes.symm
  · rw [(Mvcc.claim_same _).1] at hIndexes
    exact .inl hIndexes.symm
  · rename_i version recordId hPhase
    right
    refine ⟨some (recordId, version.row), none, ?_,
      fun _ _ hNew => by cases hNew⟩
    unfold Mvcc.deleteClaimed at hIndexes
    split at hIndexes
    · rename_i hRewrite
      rw [hRewrite]
      exact hIndexes.symm
    · rename_i hRewrite
      rw [hRewrite]
      split at hIndexes <;> exact hIndexes.symm
  · left
    unfold Mvcc.updateClaimed at hIndexes
    split at hIndexes
    · exact hIndexes.symm
    · split at hIndexes
      · exact hIndexes.symm
      · simp only [hPlace] at hIndexes
        exact hIndexes.symm
  · rename_i hPhase
    exact hSettle hPhase rfl hIndexes
  · rename_i hPhase
    exact hSettle hPhase rfl hIndexes
  · exact .inl hIndexes.symm
  · exact .inl hIndexes.symm
  · exact .inl hIndexes.symm

/- A row that has been put in stays known. -/
theorem advanceRow_placed
    (hTodo : statement.todo = change :: rest)
    (hKnows : Knows table.heap statement)
    (hAfter : (advanceRow table locks statement running xid
      fresh hFresh change).statement = some after) :
    ∀ recordId located change' rest',
      after.phase = .placed recordId located →
        after.todo = change' :: rest' →
          ∃ version,
            (advanceRow table locks statement running xid
              fresh hFresh change).table.heap.get recordId =
                some version ∧
              newRow change' = some version.row := by
  intro recordId located first others hPhase hFirst
  have hNext : after = statement.next →
      ∀ {P : Prop}, P := by
    intro hSame P
    rw [hSame] at hPhase
    cases hPhase
  have hSettle : ∀ {target : RecordId} {row : ρ}
      {old : Mvcc.Located ρ},
      (Mvcc.settleIn table locks statement xid target row
        old).statement = some after →
      ∃ version,
        (Mvcc.settleIn table locks statement xid target row
          old).table.heap.get recordId = some version ∧
        newRow first = some version.row := by
    intro target row old hSettled
    rw [(Mvcc.settleIn_same target row old).1]
    rcases settleIn_placed hSettled with hSame | hOn
    · rw [hSame] at hPhase hFirst
      exact hKnows.placed _ _ _ _ hPhase hFirst
    · exact hNext hOn
  have hStays : after = statement →
      ∃ version, table.heap.get recordId = some version ∧
        newRow first = some version.row := by
    intro hSame
    rw [hSame] at hPhase hFirst
    exact hKnows.placed _ _ _ _ hPhase hFirst
  have hArrive : ∀ {target : RecordId} {P : Prop},
      (Mvcc.arrive table locks statement running
        target).statement = some after → P := by
    intro target P hArrived
    unfold Mvcc.arrive at hArrived
    split at hArrived
    · cases hArrived
      cases hPhase
    · split at hArrived
      · cases hArrived
        cases hPhase
      · cases hArrived
        cases hPhase
  have hClaim : ∀ {target : RecordId},
      statement.phase = .waiting →
      ∀ {P : Prop},
        (Mvcc.claim table locks statement xid
          target).statement = some after → P := by
    intro target hWaiting P hClaimed
    unfold Mvcc.claim at hClaimed
    split at hClaimed
    · cases hClaimed
    · cases hClaimed
      rw [hWaiting] at hPhase
      cases hPhase
    · split at hClaimed
      · cases hClaimed
        cases hPhase
      · split at hClaimed
        · cases hClaimed
          cases hPhase
        · cases hClaimed
          cases hPhase
  unfold advanceRow at hAfter ⊢
  cases hWhere : statement.phase with
  | arriving =>
    cases change with
    | insert values =>
      simp only [hWhere] at hAfter ⊢
      split at hAfter
      · cases hAfter
      · exact place_placed hTodo rfl hAfter _ _ _ _
          hPhase hFirst
    | delete target =>
      simp only [hWhere] at hAfter
      exact hArrive hAfter
    | update target values =>
      simp only [hWhere] at hAfter
      exact hArrive hAfter
  | waiting =>
    cases change with
    | insert values =>
      simp only [hWhere] at hAfter ⊢
      cases hAfter
      exact hStays rfl
    | delete target =>
      simp only [hWhere] at hAfter
      exact hClaim hWhere hAfter
    | update target values =>
      simp only [hWhere] at hAfter
      exact hClaim hWhere hAfter
  | claimed version =>
    cases change with
    | insert values =>
      simp only [hWhere] at hAfter ⊢
      cases hAfter
      exact hStays rfl
    | delete target =>
      simp only [hWhere] at hAfter
      unfold Mvcc.deleteClaimed at hAfter
      split at hAfter
      · cases hAfter
      · split at hAfter
        · cases hAfter
        · cases hAfter
          cases hPhase
    | update target values =>
      simp only [hWhere] at hAfter ⊢
      unfold Mvcc.updateClaimed at hAfter ⊢
      split at hAfter
      · cases hAfter
      · split at hAfter
        · cases hAfter
        · exact place_placed hTodo rfl hAfter _ _ _ _
            hPhase hFirst
  | placed target old =>
    cases change with
    | insert values =>
      simp only [hWhere] at hAfter ⊢
      exact hSettle hAfter
    | delete recordId =>
      simp only [hWhere] at hAfter ⊢
      cases hAfter
      exact hStays rfl
    | update recordId values =>
      simp only [hWhere] at hAfter ⊢
      exact hSettle hAfter

section Points

variable [SortableDouble φ]

/- One step keeps the indexes right, and the statement's
   knowledge of the heap. -/
theorem advanceRow_points
    {hFresh : fresh ∉ table.heap.pageIds}
    {running : List Nat}
    {change : Change ρ}
    {rest : List (Change ρ)}
    (hTodo : statement.todo = change :: rest)
    (hKnows : Knows table.heap statement)
    (hPoints : Points table.heap table.indexes)
    {progress : Progress ρ (Tree ρ φ)}
    (hProgress : advanceRow table locks statement running xid
      fresh hFresh change = progress) :
    Points progress.table.heap progress.table.indexes ∧
      ∀ after, progress.statement = some after →
        Knows progress.table.heap after := by
  subst hProgress
  have hTouches : Touches xid statement.HasClaimed
      table.heap.get
      (advanceRow table locks statement running xid fresh
        hFresh change).table.heap.get _ :=
    Mvcc.advanceRow_touches hTodo hKnows.claimed
  have hKeeps := Touches.keepsRows hTouches hKnows.claimed
  constructor
  · have hKept := hPoints.keep hKeeps
    generalize hChanged : (advanceRow table locks statement
      running xid fresh hFresh change).table.indexes = changed
    rcases advanceRow_indexes hChanged with
        hSame | ⟨old, new, hIndexes, hNew⟩
    · rw [hSame]
      exact hKept
    · rw [hIndexes]
      apply hKept.rewriteAll old
      intro recordId row hRow
      rcases hNew recordId row hRow with
        ⟨⟨located, hPhase⟩, hValues⟩
      rcases hKnows.placed _ _ _ _ hPhase hTodo with
        ⟨version, hGet, hHeld⟩
      rcases hKeeps _ _ hGet with ⟨version', hGet', hSame⟩
      rw [hValues, Option.some.injEq] at hHeld
      exact ⟨version', hGet', hSame.trans hHeld.symm⟩
  · intro after hAfter
    exact
      { claimed := fun recordId version hClaimed =>
          (Mvcc.advanceRow_stands hTodo hAfter
            hClaimed).live
        placed := advanceRow_placed hTodo hKnows hAfter }

end Points

end Steps

--
-- Tables
--

section Tables

variable [SortableDouble φ]

/- Every index of every table is right. -/
def AllPoint (tables : Tables ρ φ) : Prop :=
  ∀ entry ∈ tables,
    Points entry.2.table.heap entry.2.table.indexes

variable {tables : Tables ρ φ} {found : IndexedTable ρ φ}

theorem AllPoint.setTable
    (hTables : AllPoint tables)
    (name : String)
    (hFound : Points found.table.heap found.table.indexes) :
    AllPoint (setTable tables name found) := by
  intro entry hMem
  rcases List.mem_map.mp hMem with ⟨old, hOld, rfl⟩
  split
  · exact hFound
  · exact hTables old hOld

variable {name : String}

omit [SortableDouble φ] in
theorem find_setTable
    {table : IndexedTable ρ φ}
    {found : String × IndexedTable ρ φ}
    (hFound : (setTable tables name table).find?
      (fun entry => entry.1 = name) = some found) :
    found.2 = table := by
  have hMem := List.mem_of_find?_eq_some hFound
  have hName := List.find?_some hFound
  simp only [decide_eq_true_eq] at hName
  rcases List.mem_map.mp hMem with ⟨old, _, rfl⟩
  split at hName
  · rename_i hSame
    rw [if_pos hSame]
  · rename_i hOther
    exact absurd hName hOther

theorem populate_leads
    {heap : HeapFile (Version ρ)}
    {records : List (RecordId × Version ρ)}
    (hRecords : ∀ record ∈ records,
      heap.get record.1 = some record.2)
    {tree' : Tree ρ φ}
    (hTree : ∀ entry ∈ tree.entries, Leads tree heap entry)
    (hPopulate : tree.populate name records = .ok tree') :
    ∀ entry ∈ tree'.entries, Leads tree' heap entry := by
  induction records generalizing tree with
  | nil =>
    cases hPopulate
    exact hTree
  | cons record rest ih =>
    unfold Tree.populate at hPopulate
    rcases ok_of_bind hPopulate with ⟨grown, hGrown, hRest⟩
    have hGains := insertRow_gains hGrown
    apply ih
      (fun other hOther =>
        hRecords other (.tail _ hOther))
      ?_ hRest
    intro entry hEntry
    unfold Leads
    simp only [hGains.encode]
    rcases hGains.entries entry hEntry with
      hOld | ⟨row, hRow, hKey⟩
    · exact hTree entry hOld
    · rw [Option.some.injEq, Prod.mk.injEq] at hRow
      refine ⟨record.2, ?_, ?_⟩
      · rw [← hRow.1]
        exact hRecords record (.head _)
      · rw [hRow.2]
        exact hKey

theorem Points.addIndex
    (hPoints : Points found.table.heap found.table.indexes)
    (hTree : ∀ entry ∈ tree.entries,
      Leads tree found.table.heap entry) :
    Points
      (Indexing.addIndex casefold (indexOver name tree)
        found).table.heap
      (Indexing.addIndex casefold (indexOver name tree)
        found).table.indexes := by
  have hMem : ∀ index ∈ (Indexing.addIndex casefold
      (indexOver name tree) found).table.indexes,
      index = indexOver name tree ∨
        index ∈ found.table.indexes := by
    intro index hIndex
    rcases List.mem_append.mp hIndex with hBefore | hRest
    · exact .inr (List.takeWhile_subset _ hBefore)
    · rcases List.mem_cons.mp hRest with hNew | hAfter
      · exact .inl hNew
      · exact .inr (List.dropWhile_subset _ hAfter)
  constructor
  · intro index hIndex
    rcases hMem index hIndex with hNew | hOld
    · rw [hNew]
      rfl
    · exact hPoints.standard index hOld
  · intro index hIndex entry hEntry
    rcases hMem index hIndex with hNew | hOld
    · rw [hNew] at hEntry ⊢
      exact hTree entry hEntry
    · exact hPoints.leads index hOld entry hEntry

omit [SortableDouble φ] in
theorem findTable_mem
    {found : String × IndexedTable ρ φ}
    (hFound : requireTable casefold tables name = .ok found) :
    found ∈ tables := by
  unfold requireTable at hFound
  split at hFound
  · rename_i hFind
    cases hFound
    exact List.mem_of_find?_eq_some hFind
  · cases hFound

omit [SortableDouble φ] in
theorem indexedColumn_mem
    {table column owner : String}
    {found : IndexedTable ρ φ}
    {known : Column ρ φ}
    (hFound : indexedColumn casefold tables name table column =
      .ok (owner, found, known)) :
    (owner, found) ∈ tables := by
  unfold indexedColumn at hFound
  split at hFound
  · cases hFound
  split at hFound
  · cases hFound
  split at hFound
  · cases hFound
  split at hFound
  · cases hFound
  rcases ok_of_bind hFound with ⟨⟨_, _⟩, hTable, hRest⟩
  simp only at hRest
  split at hRest
  · cases hRest
  · cases hRest
    exact findTable_mem hTable

/- A new index is right, whatever versions the heap holds. -/
theorem createIndex_points
    {tables' : Tables ρ φ}
    {table column : String}
    {unique : Bool}
    (hTables : AllPoint tables)
    (hCreate : createIndex casefold tables name table column
      unique = .ok tables') :
    AllPoint tables' := by
  rcases ok_of_bind hCreate with
    ⟨⟨owner, found, known⟩, hFound, hRest⟩
  rcases ok_of_bind hRest with ⟨tree, hTree, hDone⟩
  cases hDone
  have hPoints := hTables _ (indexedColumn_mem hFound)
  apply hTables.setTable
  apply hPoints.addIndex
  apply populate_leads _ (by simp) hTree
  intro record hRecord
  exact HeapFile.mem_records.mp hRecord

end Tables

--
-- Calls
--

namespace OneSession

section Calls

variable [SortableDouble φ]

/- A vacuum that reclaims no version an index entry still
   leads to. -/
def Spares
    (casefold : String → String)
    (state : OneSession ρ φ)
    (call : Call ρ) : Prop :=
  ∀ table, call = .vacuum table →
    ∀ found ∈ state.tables,
      chosen casefold table found.1 = true →
      ∀ index ∈ found.2.table.indexes,
      ∀ entry ∈ index.tree.entries,
      ∀ version,
        found.2.table.heap.get entry.2 = some version →
          isDead version.header
            state.manager.oldestSnapshotXmin = false

structure Sound (state : OneSession ρ φ) : Prop where
  tables : AllPoint state.tables
  saved : AllPoint state.saved
  pending : ∀ statement, state.pending = some statement →
    ∀ found,
      state.tables.find?
        (fun entry => entry.1 = statement.table) = some found →
        Knows found.2.table.heap statement

variable {state : OneSession ρ φ}

theorem Sound.attempt
    (hSound : state.Sound)
    {result : Except EngineError (OneSession ρ φ)}
    (hAfter : ∀ after, result = .ok after → after.Sound) :
    (state.attempt result).Sound := by
  unfold OneSession.attempt
  split
  · exact hSound
  · exact hAfter _ rfl

variable {after : OneSession ρ φ}

theorem Sound.begin
    (hSound : state.Sound)
    {implicit : Bool}
    {isolation : Transaction.IsolationLevel}
    (hBegin : state.begin implicit isolation = .ok after) :
    after.Sound := by
  unfold OneSession.begin at hBegin
  rcases ok_of_bind hBegin with ⟨manager, _, hDone⟩
  cases hDone
  constructor
  · exact hSound.tables
  · simp only
    split
    · exact hSound.tables
    · exact hSound.saved
  · exact hSound.pending

theorem rollback_sound
    (hSaved : AllPoint state.saved)
    (hRollback : state.rollback = .ok after) :
    after.Sound := by
  unfold OneSession.rollback at hRollback
  rcases ok_of_bind hRollback with ⟨transaction, _, hDone⟩
  cases hDone
  exact ⟨hSaved, hSaved, by simp⟩

theorem Sound.commit
    (hSound : state.Sound)
    (hCommit : state.commit = .ok after) :
    after.Sound := by
  unfold OneSession.commit at hCommit
  split at hCommit
  · exact rollback_sound hSound.saved hCommit
  · rcases ok_of_bind hCommit with
      ⟨⟨manager, transaction⟩, _, hDone⟩
    cases hDone
    exact ⟨hSound.tables, hSound.saved, hSound.pending⟩

theorem Sound.idle
    (hSound : state.Sound) :
    ({ state with pending := none } :
      OneSession ρ φ).Sound :=
  ⟨hSound.tables, hSound.saved, by simp⟩

theorem Sound.finish
    (hSound : state.Sound)
    (statement : Statement ρ) :
    (state.finish statement).Sound := by
  unfold OneSession.finish
  simp only
  split
  · exact hSound.idle.attempt fun after hAfter =>
      hSound.idle.commit hAfter
  · exact hSound.idle

theorem Sound.issue
    (hSound : state.Sound)
    {table : String}
    {changes : List (Change ρ)}
    (hIssue : state.issue casefold table changes = .ok after) :
    after.Sound := by
  unfold OneSession.issue at hIssue
  rcases ok_of_bind hIssue with ⟨found, _, hRest⟩
  rcases ok_of_bind hRest with ⟨begun, hBegin, hDone⟩
  cases hDone
  have hBegun := hSound.begin hBegin
  constructor
  · exact hBegun.tables
  · exact hBegun.saved
  · intro statement hPending found _
    rw [Option.some.injEq] at hPending
    rw [← hPending]
    exact Knows.start _ rfl

theorem Sound.advance [Payload ρ]
    (hSound : state.Sound)
    (fresh : PageId) :
    (state.advance fresh).Sound := by
  unfold OneSession.advance
  split
  · rename_i statement transaction hPending _
    split
    · exact hSound.finish statement
    · rename_i change rest hTodo
      split
      · exact hSound
      · rename_i name found hFind
        split
        · exact hSound
        · rename_i hFresh
          generalize hProgress : advanceRow found.table
            state.locks statement state.manager.runningIds
            transaction.transactionId fresh hFresh change =
              progress
          have hKnows := hSound.pending statement hPending _
            hFind
          have hPoints := hSound.tables _
            (List.mem_of_find?_eq_some hFind)
          have hStep := advanceRow_points hTodo hKnows hPoints
            hProgress
          have hTables : AllPoint (setTable state.tables
              statement.table
              { found with table := progress.table }) :=
            hSound.tables.setTable statement.table hStep.1
          unfold OneSession.keep
          simp only
          have hMoved : ({ state with
              locks := progress.locks
              tables := setTable state.tables statement.table
                { found with table := progress.table }
              pending := progress.statement } :
                OneSession ρ φ).Sound := by
            refine ⟨hTables, hSound.saved, ?_⟩
            intro after hAfter other hOther
            have hSame : after.table = statement.table := by
              rw [← hProgress] at hAfter
              exact Mvcc.advanceRow_table hAfter
            simp only [hSame] at hOther
            rw [find_setTable hOther]
            exact hStep.2 after hAfter
          split
          · exact hMoved.attempt fun after hAfter =>
              rollback_sound hMoved.saved hAfter
          · exact hMoved
  · exact hSound

/- A vacuum keeps the indexes right if it spares what their
   entries lead to. -/
theorem Sound.vacuum
    (hSound : state.Sound)
    (hIdle : state.pending = none)
    {table : Option String}
    (hSpares : state.Spares casefold (.vacuum table))
    (hVacuum : state.vacuum casefold table = .ok after) :
    after.Sound := by
  unfold OneSession.vacuum at hVacuum
  rcases ok_of_bind hVacuum with ⟨_, _, hDone⟩
  cases hDone
  refine ⟨?_, hSound.saved, by simp [hIdle]⟩
  intro entry hMem
  rcases List.mem_map.mp hMem with ⟨old, hOld, rfl⟩
  have hPoints := hSound.tables old hOld
  split
  · rename_i hChosen
    constructor
    · exact hPoints.standard
    · intro index hIndex entry hEntry
      rcases hPoints.leads index hIndex entry hEntry with
        ⟨version, hGet, hKey⟩
      have hAlive := hSpares table rfl old hOld hChosen index
        hIndex entry hEntry version hGet
      refine ⟨version, ?_, hKey⟩
      rw [Mvcc.get_vacuumHeap hGet, hAlive]
      rfl
  · exact hPoints

/- What one call preserves. -/
theorem step_sound [Payload ρ]
    (hSound : state.Sound)
    {call : Call ρ}
    (hSpares : state.Spares casefold call) :
    (state.step casefold call).Sound := by
  unfold OneSession.step
  split
  · exact hSound.advance _
  · exact hSound
  · exact hSound.attempt fun _ hAfter => hSound.begin hAfter
  · exact hSound.attempt fun _ hAfter => hSound.issue hAfter
  · exact hSound.attempt fun _ hAfter => hSound.commit hAfter
  · exact hSound.attempt fun _ hAfter =>
      rollback_sound hSound.saved hAfter
  · rename_i hPending
    split
    · exact hSound
    · rename_i hCreate
      exact ⟨createIndex_points hSound.tables hCreate,
        hSound.saved, by simp [hPending]⟩
  · rename_i hPending
    exact hSound.attempt fun _ hAfter =>
      hSound.vacuum hPending hSpares hAfter
  · exact ⟨hSound.tables, hSound.saved, hSound.pending⟩

/- Every vacuum of a run spares what index entries lead to. -/
def SparesAll [Payload ρ]
    (casefold : String → String)
    (state : OneSession ρ φ) : List (Call ρ) → Prop
  | [] => True
  | call :: rest =>
    state.Spares casefold call ∧
      SparesAll casefold (state.step casefold call) rest

theorem run_sound [Payload ρ]
    {calls : List (Call ρ)}
    (hSound : state.Sound)
    (hSpares : state.SparesAll casefold calls) :
    (state.run casefold calls).Sound := by
  induction calls generalizing state with
  | nil => exact hSound
  | cons call rest ih =>
    exact ih (step_sound hSound hSpares.1) hSpares.2

end Calls

end OneSession

--
-- Lookups
--

section Lookups

variable [SortableDouble φ]

theorem encodeKey_found
    (value : Value φ)
    (dataType : DataType)
    (message : String) :
    encodeKey value dataType ≠
      .error (.recordNotFound message) := by
  have hDouble : ∀ number : φ ⊕ Int,
      encodeDouble number ≠
        .error (.recordNotFound message) := by
    intro number hError
    unfold encodeDouble at hError
    split at hError <;> cases hError
  intro hError
  cases value with
  | null => cases hError
  | int number =>
    cases dataType with
    | integer =>
      simp only [encodeKey] at hError
      split at hError <;> cases hError
    | float => exact hDouble _ hError
    | _ => cases hError
  | float number =>
    cases dataType with
    | float => exact hDouble _ hError
    | _ => cases hError
  | _ => cases dataType <;> cases hError

variable {key : Key}

omit [SortableDouble φ] in
theorem mem_search
    {recordId : RecordId} :
    recordId ∈ tree.search key ↔
      (key, recordId) ∈ tree.entries := by
  unfold Tree.search
  simp only [List.mem_map, List.mem_filter, decide_eq_true_eq]
  constructor
  · rintro ⟨entry, ⟨hMem, rfl⟩, rfl⟩
    exact hMem
  · intro hMem
    exact ⟨(key, recordId), ⟨hMem, rfl⟩, rfl⟩

theorem fetchAll_ok
    {heap : HeapFile (Version ρ)}
    {recordIds : List RecordId}
    (hLeads : ∀ recordId ∈ recordIds,
      Leads tree heap (key, recordId)) :
    ∃ rows, OneSession.fetchAll heap recordIds = .ok rows ∧
      ∀ row ∈ rows, tree.encode row = .ok key := by
  induction recordIds with
  | nil => exact ⟨[], rfl, by simp⟩
  | cons recordId rest ih =>
    rcases hLeads recordId (.head _) with
      ⟨version, hGet, hKey⟩
    rcases ih fun other hOther =>
        hLeads other (.tail _ hOther) with
      ⟨rows, hRows, hEncode⟩
    refine ⟨version.row :: rows, ?_, ?_⟩
    · unfold OneSession.fetchAll
      simp only at hGet
      rw [hGet, hRows]
      rfl
    · intro row hRow
      rcases List.mem_cons.mp hRow with hHere | hLater
      · rw [hHere]
        exact hKey
      · exact hEncode row hLater

theorem AllPoint.found
    {tables : Tables ρ φ}
    (hTables : AllPoint tables)
    {name : String}
    {found : HeapFile (Version ρ) × Index ρ (Tree ρ φ)}
    (hFound : requireIndex casefold tables name = .ok found) :
    ∀ entry ∈ found.2.tree.entries,
      Leads found.2.tree found.1 entry := by
  unfold requireIndex at hFound
  split at hFound
  · rename_i hFind
    cases hFound
    have hMem := List.mem_of_find?_eq_some hFind
    unfold allIndexes at hMem
    rcases List.mem_flatMap.mp hMem with ⟨owner, hOwner, hIndex⟩
    rcases List.mem_map.mp hIndex with ⟨index, hIn, rfl⟩
    exact (hTables owner hOwner).leads index hIn
  · cases hFound

/- A lookup never finds a record gone, and every row it
   returns has the value in the index's column. -/
def Answers
    (casefold : String → String)
    (state : OneSession ρ φ) : Prop :=
  ∀ name value,
    (∀ message, state.lookup casefold name value ≠
      .error (.recordNotFound message)) ∧
    ∀ rows, state.lookup casefold name value = .ok rows →
      ∃ found,
        findIndex casefold state.tables name = some found ∧
        ∀ row ∈ rows, SameKey found.2.tree.dataType
          (found.2.tree.column row) value

variable {state : OneSession ρ φ}

theorem AllPoint.answers
    (hTables : AllPoint state.tables) :
    Answers casefold state := by
  intro name value
  unfold OneSession.lookup
  cases hIndex : requireIndex casefold state.tables name with
  | error raised =>
    constructor
    · intro message hError
      unfold requireIndex at hIndex
      split at hIndex
      · cases hIndex
      · cases hIndex
        cases hError
    · intro rows hRows
      cases hRows
  | ok found =>
    have hFind : findIndex casefold state.tables name =
        some found := by
      unfold requireIndex at hIndex
      split at hIndex
      · rename_i hSome
        cases hIndex
        exact hSome
      · cases hIndex
    have hLeads := hTables.found hIndex
    cases hKey : encodeKey value found.2.tree.dataType with
    | error raised =>
      constructor
      · intro message hError
        simp only [bind, Except.bind, hKey] at hError
        cases hError
        exact encodeKey_found _ _ _ hKey
      · intro rows hRows
        simp only [bind, Except.bind, hKey] at hRows
        cases hRows
    | ok key =>
      have hIds : ∀ recordId ∈ found.2.tree.search key,
          Leads found.2.tree found.1 (key, recordId) :=
        fun recordId hMem =>
          hLeads _ (mem_search.mp hMem)
      rcases fetchAll_ok hIds with ⟨rows, hRows, hEncode⟩
      simp only [bind, Except.bind, hKey, hRows]
      constructor
      · intro message hError
        cases hError
      · intro rows' hSame
        cases hSame
        refine ⟨found, hFind, ?_⟩
        intro row hRow
        exact encodeKey_sameKey (hEncode row hRow) hKey

/- A database that carries no index yet. -/
structure Unindexed (state : OneSession ρ φ) : Prop where
  tables : ∀ entry ∈ state.tables, entry.2.table.indexes = []
  saved : ∀ entry ∈ state.saved, entry.2.table.indexes = []
  idle : state.pending = none

theorem Unindexed.sound
    (hStart : Unindexed state) : state.Sound := by
  have hNone : ∀ {tables : Tables ρ φ},
      (∀ entry ∈ tables, entry.2.table.indexes = []) →
        AllPoint tables := by
    intro tables hEmpty entry hMem
    constructor <;> simp [hEmpty entry hMem]
  exact ⟨hNone hStart.tables, hNone hStart.saved,
    by simp [hStart.idle]⟩

/- Index entries lead to versions with their keys, in every
   state of a run whose vacuums spare what entries lead to. -/
theorem entries_point [Payload ρ]
    {casefold : String → String}
    {state : OneSession ρ φ}
    (hStart : Unindexed state)
    {calls : List (Call ρ)}
    (hSpares : state.SparesAll casefold calls) :
    (∀ owner ∈ (state.run casefold calls).tables,
      ∀ index ∈ owner.2.table.indexes,
      ∀ entry ∈ index.tree.entries,
        Leads index.tree owner.2.table.heap entry) ∧
    Answers casefold (state.run casefold calls) := by
  have hSound := OneSession.run_sound hStart.sound hSpares
  exact ⟨fun owner hOwner => (hSound.tables owner
    hOwner).leads, hSound.tables.answers⟩

end Lookups

--
-- A Dangling Entry
--

/- One table of rows of bytes, with the first as its one
   column. -/
def byteTable :
    IndexedTable Library.Struct.Bytes Empty where
  columns :=
    [⟨"id", .integer, fun row =>
      .int (Int.ofNat (row.headD 0).toNat)⟩]
  table :=
    { heap :=
        { pages := [(1, Storage.Page.blank .heap 4096)]
          nonempty := by simp
          distinct := by simp }
      indexes := []
      check := fun _ => .ok () }

def newSession :
    OneSession Library.Struct.Bytes Empty where
  manager := TransactionManager.create 1
  locks := LockManager.create
  tables := [("t", byteTable)]
  pending := none
  saved := [("t", byteTable)]

/- Insert a row, delete it, index the table, vacuum. -/
def indexTheDead : List (Call Library.Struct.Bytes) :=
  [ .issue "t" [.insert [7]], .advance 2, .advance 2,
    .advance 2,
    .issue "t" [.delete ⟨1, 0⟩], .advance 2, .advance 2,
    .advance 2, .advance 2,
    .createIndex "i" "t" "id" false, .vacuum none ]

theorem newSession_unindexed : Unindexed newSession where
  tables := by simp [newSession, byteTable]
  saved := by simp [newSession, byteTable]
  idle := rfl

/- The entry of the deleted version stays when the version
   goes: first it leads nowhere, then to another row. -/
theorem entries_dangle :
    (newSession.run id indexTheDead).lookup id "i" (.int 7) =
        .error (.recordNotFound "no live record at (1,0)") ∧
      (newSession.run id (indexTheDead ++
          [ .issue "t" [.insert [9]], .advance 2, .advance 2,
            .advance 2 ])).lookup id "i" (.int 7) =
        .ok [[9]] := by
  decide +kernel

/- Index the table, insert a row, delete it, vacuum. -/
def deleteTheIndexed : List (Call Library.Struct.Bytes) :=
  [ .createIndex "i" "t" "id" false,
    .issue "t" [.insert [7]], .advance 2, .advance 2,
    .advance 2,
    .issue "t" [.delete ⟨1, 0⟩], .advance 2, .advance 2,
    .advance 2, .advance 2 ]

variable {state : OneSession Library.Struct.Bytes Empty}

theorem spares_of_empty
    (hEmpty : (state.tables.all fun found =>
      found.2.table.indexes.all fun index =>
        index.tree.entries.isEmpty) = true)
    (call : Call Library.Struct.Bytes) :
    state.Spares id call := by
  intro table _ found hFound _ index hIndex entry hEntry
  have hNone := List.all_eq_true.mp
    (List.all_eq_true.mp hEmpty found hFound) index hIndex
  rw [List.isEmpty_iff] at hNone
  rw [hNone] at hEntry
  cases hEntry

theorem sparesAll_append
    {calls : List (Call Library.Struct.Bytes)}
    (hNone : ∀ call ∈ calls, ∀ table, call ≠ .vacuum table)
    {last : Call Library.Struct.Bytes}
    (hLast : (state.run id calls).Spares id last) :
    state.SparesAll id (calls ++ [last]) := by
  induction calls generalizing state with
  | nil => exact ⟨hLast, trivial⟩
  | cons call rest ih =>
    constructor
    · intro table hCall
      exact absurd hCall
        (hNone call (.head _) table)
    · exact ih
        (fun other hOther =>
          hNone other (.tail _ hOther))
        hLast

theorem entries_point_deleted :
    Answers id (newSession.run id
      (deleteTheIndexed ++ [.vacuum none])) := by
  apply (entries_point newSession_unindexed
    (sparesAll_append ?_ ?_)).2
  · intro call hCall table hVacuum
    rw [hVacuum] at hCall
    simp [deleteTheIndexed] at hCall
  · apply spares_of_empty
    decide +kernel

end Indexing

end ChenDB
