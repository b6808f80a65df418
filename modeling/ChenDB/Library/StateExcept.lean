import Mathlib.Logic.Basic
import Mathlib.Logic.Relation

/-
  Reasoning about programs that keep a state and may raise,
  where a raise keeps the state reached so far.

  `focus` runs a program on one part of a larger state.
  `Triple` is the partial-correctness triple with one
  postcondition for a return and one for a raise.
-/

--
-- Running
--

namespace Library

namespace StateExcept

variable {ε σ τ α β : Type}

@[simp] theorem run_map
    (f : α → β)
    (program : EStateM ε σ α)
    (state : σ) :
    (f <$> program).run state =
      match program.run state with
      | .ok value final => .ok (f value) final
      | .error raised final => .error raised final := by
  change (program >>= fun value => pure (f value)).run
    state = _
  rw [EStateM.run_bind]
  rfl

/- Run a program on one part of a larger state. -/
def focus
    (get : σ → τ)
    (put : σ → τ → σ)
    (program : EStateM ε τ α) : EStateM ε σ α :=
  fun state =>
    match program.run (get state) with
    | .ok value part => .ok value (put state part)
    | .error raised part => .error raised (put state part)

@[simp] theorem run_focus
    (get : σ → τ)
    (put : σ → τ → σ)
    (program : EStateM ε τ α)
    (state : σ) :
    (focus get put program).run state =
      match program.run (get state) with
      | .ok value part => .ok value (put state part)
      | .error raised part =>
        .error raised (put state part) := rfl

--
-- Triples
--

/-
  Started where `P` holds, the program returns into `Q` or
  raises into `E`.
-/
def Triple
    (P : σ → Prop)
    (program : EStateM ε σ α)
    (Q : α → σ → Prop)
    (E : ε → σ → Prop) : Prop :=
  ∀ state, P state →
    match program.run state with
    | .ok value final => Q value final
    | .error raised final => E raised final

namespace Triple

variable {P P' : σ → Prop} {Q Q' : α → σ → Prop}
variable {E E' : ε → σ → Prop}

variable {program : EStateM ε σ α} {state final : σ} {value : α}

theorem of_ok
    (hTriple : Triple P program Q E)
    (hPre : P state)
    (hRun : program.run state = .ok value final) :
    Q value final := by
  have h := hTriple state hPre
  rwa [hRun] at h

variable {raised : ε}

theorem of_error
    (hTriple : Triple P program Q E)
    (hPre : P state)
    (hRun : program.run state = .error raised final) :
    E raised final := by
  have h := hTriple state hPre
  rwa [hRun] at h

theorem weaken
    (hTriple : Triple P program Q E)
    (hPre : ∀ state, P' state → P state)
    (hPost : ∀ value state, Q value state → Q' value state)
    (hRaise : ∀ raised state, E raised state →
      E' raised state) :
    Triple P' program Q' E' := by
  intro state hState
  have h := hTriple state (hPre state hState)
  cases hRun : program.run state with
  | ok value final =>
    rw [hRun] at h
    exact hPost value final h
  | error raised final =>
    rw [hRun] at h
    exact hRaise raised final h

/- One of the three conditions at a time. -/
theorem pre
    (hTriple : Triple P program Q E)
    (hPre : ∀ state, P' state → P state) :
    Triple P' program Q E :=
  hTriple.weaken hPre (fun _ _ h => h) (fun _ _ h => h)

theorem post
    (hTriple : Triple P program Q E)
    (hPost : ∀ value state, Q value state → Q' value state) :
    Triple P program Q' E :=
  hTriple.weaken (fun _ h => h) hPost (fun _ _ h => h)

theorem raises
    (hTriple : Triple P program Q E)
    (hRaise : ∀ raised state, E raised state →
      E' raised state) :
    Triple P program Q E' :=
  hTriple.weaken (fun _ h => h) (fun _ _ h => h) hRaise

theorem pure
    (hPost : ∀ state, P state → Q value state) :
    Triple P (Pure.pure value : EStateM ε σ α) Q E :=
  fun state hState => hPost state hState

theorem throw
    (hRaise : ∀ state, P state → E raised state) :
    Triple P (throw raised : EStateM ε σ α) Q E :=
  fun state hState => hRaise state hState

variable {R : β → σ → Prop}

theorem bind
    {next : α → EStateM ε σ β}
    (hFirst : Triple P program Q E)
    (hNext : ∀ value, Triple (Q value) (next value) R E) :
    Triple P (program >>= next) R E := by
  intro state hState
  have h := hFirst state hState
  rw [EStateM.run_bind]
  cases hRun : program.run state with
  | ok value final =>
    rw [hRun] at h
    exact hNext value final h
  | error raised final =>
    rw [hRun] at h
    exact h

/- A fact that is not about the state. -/
theorem assume
    {fact : Prop}
    (hFact : fact → Triple P program Q E) :
    Triple (fun state => P state ∧ fact) program Q E :=
  fun state hState => hFact hState.2 state hState.1

theorem get
    {Q : σ → σ → Prop}
    (hPost : ∀ state, P state → Q state state) :
    Triple P (get : EStateM ε σ σ) Q E :=
  fun state hState => hPost state hState

/- Read the state, then go on knowing what it is. -/
theorem read
    {next : σ → EStateM ε σ β}
    (hNext : ∀ state, P state →
      Triple (fun current => current = state) (next state)
        R E) :
    Triple P (MonadState.get >>= next) R E :=
  fun state hState => hNext state hState state rfl

theorem set
    {Q : PUnit → σ → Prop}
    (hPost : ∀ state, P state → Q ⟨⟩ final) :
    Triple P (set final : EStateM ε σ PUnit) Q E :=
  fun state hState => hPost state hState

theorem modify
    {f : σ → σ}
    {Q : PUnit → σ → Prop}
    (hPost : ∀ state, P state → Q ⟨⟩ (f state)) :
    Triple P (modify f : EStateM ε σ PUnit) Q E :=
  fun state hState => hPost state hState

theorem ite
    {c : Prop} [Decidable c]
    {yes no : EStateM ε σ α}
    (hYes : c → Triple P yes Q E)
    (hNo : ¬ c → Triple P no Q E) :
    Triple P (if c then yes else no) Q E := by
  by_cases hc : c
  · rw [if_pos hc]
    exact hYes hc
  · rw [if_neg hc]
    exact hNo hc

/- A program on one part of the state, from what it does to
   that part of each state. -/
theorem focus
    {get : σ → τ}
    {put : σ → τ → σ}
    {program : EStateM ε τ α}
    (hPart : ∀ state, P state →
      Triple (fun part => part = get state) program
        (fun value part => Q value (put state part))
        (fun raised part => E raised (put state part))) :
    Triple P (focus get put program) Q E := by
  intro state hState
  have h := hPart state hState (get state) rfl
  rw [run_focus]
  cases hRun : program.run (get state) with
  | ok value part =>
    rw [hRun] at h
    exact h
  | error raised part =>
    rw [hRun] at h
    exact h

theorem conj
    (hLeft : Triple P program Q E)
    (hRight : Triple P' program Q' E') :
    Triple (fun state => P state ∧ P' state) program
      (fun value state => Q value state ∧ Q' value state)
      (fun raised state =>
        E raised state ∧ E' raised state) := by
  intro state hState
  have hL := hLeft state hState.1
  have hR := hRight state hState.2
  cases hRun : program.run state with
  | ok value final =>
    rw [hRun] at hL hR
    exact ⟨hL, hR⟩
  | error raised final =>
    rw [hRun] at hL hR
    exact ⟨hL, hR⟩

/- The starting state, kept at hand. -/
theorem start
    (hStart : ∀ state, P state →
      Triple (fun current => current = state) program
        Q E) :
    Triple P program Q E :=
  fun state hState => hStart state hState state rfl

end Triple

/- A first part that returns hands over to the next. -/
theorem run_bind_of_ok
    {program : EStateM ε σ α}
    {next : α → EStateM ε σ β}
    {state middle : σ}
    {value : α}
    {result : EStateM.Result ε σ β}
    (hFirst : program.run state = .ok value middle)
    (hNext : (next value).run middle = result) :
    (program >>= next).run state = result := by
  rw [EStateM.run_bind, hFirst]
  exact hNext

variable {result : β}

/- What a program that returned went through. -/
theorem ok_of_run_bind
    {program : EStateM ε σ α}
    {next : α → EStateM ε σ β}
    {state final : σ}
    (hOk : (program >>= next).run state = .ok result final) :
    ∃ value middle,
      program.run state = .ok value middle ∧
        (next value).run middle = .ok result final := by
  rw [EStateM.run_bind] at hOk
  cases hFirst : program.run state with
  | ok value middle =>
    rw [hFirst] at hOk
    exact ⟨value, middle, rfl, hOk⟩
  | error raised middle =>
    rw [hFirst] at hOk
    cases hOk

/- What a computation that succeeded went through. -/
theorem ok_of_bind
    {first : Except ε α}
    {next : α → Except ε β}
    (hOk : (first >>= next) = .ok result) :
    ∃ value, first = .ok value ∧
      next value = .ok result := by
  cases first with
  | error raised => cases hOk
  | ok value => exact ⟨value, rfl, hOk⟩

end StateExcept

end Library
