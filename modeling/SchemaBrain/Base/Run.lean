import Mathlib.Logic.Function.Basic

/-!
# Runs of a transition system

States reached by steps that a guard admits, the invariant rule over such runs, and
concrete traces.
-/

namespace SchemaBrain.Base

universe u v

variable {σ : Type u} {α : Type v} (step : σ → α → Option σ)

/-- The states reached from `start` by steps that `allowed` admits. -/
inductive Reaches (allowed : σ → α → Prop) (start : σ) : σ → Prop
  | refl : Reaches allowed start start
  | tail {s s' : σ} {a : α} (hrun : Reaches allowed start s) (hallowed : allowed s a)
      (hstep : step s a = some s') : Reaches allowed start s'

/-- What holds at the start and survives every admitted step holds in every state reached. -/
theorem Reaches.invariant {allowed : σ → α → Prop} {start : σ} {I : σ → Prop} (hstart : I start)
    (hpreserved : ∀ {s s' a}, I s → allowed s a → step s a = some s' → I s') {s : σ}
    (h : Reaches step allowed start s) : I s := by
  induction h with
  | refl => exact hstart
  | tail _ hallowed hstep ih => exact hpreserved ih hallowed hstep

/-- A run under a guard is a run under every weaker guard. -/
theorem Reaches.mono {allowed weaker : σ → α → Prop} (hweaker : ∀ s a, allowed s a → weaker s a)
    {start s : σ} (h : Reaches step allowed start s) : Reaches step weaker start s := by
  induction h with
  | refl => exact .refl
  | tail _ hallowed hstep ih => exact .tail ih (hweaker _ _ hallowed) hstep

/-- The state after a list of actions, when each of them can be taken. -/
def runTrace (s : σ) : List α → Option σ
  | [] => some s
  | a :: rest => (step s a).bind fun s' => runTrace s' rest

/-- The step, taken only where the guard admits it. -/
def guarded (allowed : σ → α → Prop) [∀ s a, Decidable (allowed s a)] (s : σ) (a : α) : Option σ :=
  if allowed s a then step s a else none

/-- The end of a trace of guarded steps is reached. -/
theorem Reaches.of_trace {allowed : σ → α → Prop} [∀ s a, Decidable (allowed s a)]
    {start s s' : σ} {trace : List α} (h : Reaches step allowed start s)
    (htrace : runTrace (guarded step allowed) s trace = some s') :
    Reaches step allowed start s' := by
  induction trace generalizing s with
  | nil =>
    rw [runTrace, Option.some.injEq] at htrace
    exact htrace ▸ h
  | cons a rest ih =>
    rw [runTrace, Option.bind_eq_some_iff] at htrace
    obtain ⟨next, hstep, htrace⟩ := htrace
    unfold guarded at hstep
    split at hstep
    · next hallowed => exact ih (.tail h hallowed hstep) htrace
    · simp at hstep

/-- A trace whose end satisfies a test reaches a state that does. -/
theorem Reaches.exists_of_trace (allowed : σ → α → Prop) [∀ s a, Decidable (allowed s a)]
    (start : σ) (trace : List α) {P : σ → Prop} [DecidablePred P]
    (htrace : (runTrace (guarded step allowed) start trace).map (fun s => decide (P s)) =
      some true) : ∃ s, Reaches step allowed start s ∧ P s := by
  rw [Option.map_eq_some_iff] at htrace
  obtain ⟨s, hs, hP⟩ := htrace
  exact ⟨s, Reaches.of_trace step .refl hs, of_decide_eq_true hP⟩

end SchemaBrain.Base
