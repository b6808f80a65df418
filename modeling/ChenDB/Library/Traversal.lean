import Mathlib.Data.List.Forall2
import ChenDB.Library.StateExcept

/-
  Computations that may raise: lists gone through by one, what
  is known of a traversal that came to its end, and one run
  where there is a state.
-/

--
-- Maps
--

namespace Library

namespace Traversal

variable {ε σ α β γ : Type}

variable {f : α → Except ε β} {xs : List α} {ys : List β}

/- What a map that succeeded made of each element. -/
theorem forall₂_of_mapM
    (hMap : xs.mapM f = .ok ys) :
    List.Forall₂ (fun x y => f x = .ok y) xs ys := by
  induction xs generalizing ys with
  | nil =>
    cases hMap
    exact .nil
  | cons x xs ih =>
    rw [List.mapM_cons] at hMap
    rcases StateExcept.ok_of_bind hMap with ⟨y, hy, hRest⟩
    rcases StateExcept.ok_of_bind hRest with ⟨rest, hTail, hEnd⟩
    cases hEnd
    exact .cons hy (ih hTail)

theorem mapM_of_forall₂
    (hEach : List.Forall₂ (fun x y => f x = .ok y) xs ys) :
    xs.mapM f = .ok ys := by
  induction hEach with
  | nil => rfl
  | cons hHead _ ih =>
    rw [List.mapM_cons, hHead, ih]
    rfl

variable {R : α → β → Prop}

/- Pairs weakened with what is known of their elements. -/
theorem forall₂_of_mem
    {S : α → β → Prop}
    (hEach : List.Forall₂ R xs ys)
    (hImp : ∀ x ∈ xs, ∀ y ∈ ys, R x y → S x y) :
    List.Forall₂ S xs ys := by
  induction hEach with
  | nil => exact .nil
  | @cons x y xs ys hHead _ ih =>
    refine .cons
      (hImp x (.head _) y (.head _) hHead)
      (ih fun x' hx' y' hy' => ?_)
    exact hImp x' (.tail _ hx') y'
      (.tail _ hy')

theorem exists_of_forall₂
    (hEach : List.Forall₂ R xs ys)
    {y : β}
    (hy : y ∈ ys) :
    ∃ x ∈ xs, R x y := by
  induction hEach with
  | nil => cases hy
  | @cons x y' xs ys hHead _ ih =>
    rcases List.mem_cons.mp hy with rfl | hy
    · exact ⟨x, .head _, hHead⟩
    · rcases ih hy with ⟨x', hx', hR⟩
      exact ⟨x', .tail _ hx', hR⟩

/- Two relations between lists, one after the other. -/
theorem forall₂_comp
    {S : β → γ → Prop}
    {T : α → γ → Prop}
    {zs : List γ}
    (hFirst : List.Forall₂ R xs ys)
    (hSecond : List.Forall₂ S ys zs)
    (hBoth : ∀ x y z, R x y → S y z → T x z) :
    List.Forall₂ T xs zs := by
  induction hFirst generalizing zs with
  | nil =>
    cases hSecond
    exact .nil
  | cons hHead _ ih =>
    cases hSecond with
    | cons hNext hRest =>
      exact .cons (hBoth _ _ _ hHead hNext) (ih hRest)

theorem mem_of_lookup [BEq α] [LawfulBEq α]
    {entries : List (α × β)}
    {key : α}
    {value : β}
    (hLookup : entries.lookup key = some value) :
    (key, value) ∈ entries := by
  rcases List.lookup_eq_some_iff.mp hLookup with
    ⟨before, after, rfl, _⟩
  exact List.mem_append_right _ (.head _)

--
-- Folds
--

/- What each step preserves of the elements gone through
   holds of all of them at the end. -/
theorem foldlM_induction
    {step : σ → α → Except ε σ}
    {motive : List α → σ → Prop}
    (hStep : ∀ done state x next,
      motive done state → step state x = .ok next →
        motive (done ++ [x]) next)
    {xs : List α}
    {done : List α}
    {state final : σ}
    (hStart : motive done state)
    (hFold : xs.foldlM step state = .ok final) :
    motive (done ++ xs) final := by
  induction xs generalizing done state with
  | nil =>
    cases hFold
    rwa [List.append_nil]
  | cons x xs ih =>
    rw [List.foldlM_cons] at hFold
    rcases StateExcept.ok_of_bind hFold with
      ⟨next, hNext, hRest⟩
    have h := ih (hStep done state x next hStart hNext)
      hRest
    rwa [List.append_assoc] at h

/- One more element at the end is one more step. -/
theorem foldlM_snoc
    (step : σ → α → Except ε σ)
    (xs : List α)
    (x : α)
    (state : σ) :
    (xs ++ [x]).foldlM step state =
      (do
        let next ← xs.foldlM step state
        step next x) := by
  rw [List.foldlM_append]
  simp only [List.foldlM_cons, List.foldlM_nil, bind_pure]

--
-- Lifting
--

variable {program : Except ε α}

/- A computation without a state leaves the state alone. -/
theorem triple_liftExcept
    {P : σ → Prop}
    {Q : α → σ → Prop}
    {E : ε → σ → Prop}
    (hOk : ∀ value, program = .ok value →
      ∀ state, P state → Q value state)
    (hRaise : ∀ raised state, P state → E raised state) :
    StateExcept.Triple P
      (liftExcept program : EStateM ε σ α) Q E := by
  cases program with
  | error raised =>
    exact StateExcept.Triple.throw (hRaise raised)
  | ok value => exact StateExcept.Triple.pure (hOk value rfl)

variable {state final : σ} {value : α}

/- A program that returned from a `try` did so by itself, or
   its handler did. -/
theorem ok_of_run_tryCatch
    {program : EStateM ε σ α}
    {handler : ε → EStateM ε σ α}
    (hRun : (tryCatch program handler).run state =
      .ok value final) :
    program.run state = .ok value final ∨
      ∃ raised middle,
        program.run state = .error raised middle ∧
          (handler raised).run middle = .ok value final := by
  have hUnfold : (tryCatch program handler).run state =
      EStateM.tryCatch program handler state := rfl
  rw [hUnfold] at hRun
  unfold EStateM.tryCatch at hRun
  cases hProgram : program.run state with
  | ok result middle =>
    have hHere : program state = .ok result middle := hProgram
    rw [hHere] at hRun
    exact .inl hRun
  | error raised middle =>
    have hHere : program state = .error raised middle :=
      hProgram
    rw [hHere] at hRun
    exact .inr ⟨raised, middle, rfl, hRun⟩

theorem ok_of_run_liftExcept
    (hRun : (liftExcept program : EStateM ε σ α).run state =
      .ok value final) :
    program = .ok value ∧ final = state := by
  cases program with
  | error raised => cases hRun
  | ok result =>
    cases hRun
    exact ⟨rfl, rfl⟩

end Traversal

end Library
