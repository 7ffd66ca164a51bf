import Mathlib.Data.List.Basic

/-!
# Scripts of statements

A script runs its statements in order and fails as a whole when one of them fails, by itself or
because a failure is injected there. When each statement leaves alone what a later one must find,
a script runs to its end exactly when the state it starts from allows every statement.
-/

namespace SchemaBrain.Base

variable {σ α ν : Type}

/-- Statements run in order; the one at position `n` fails when `failure = some n`. -/
def runScript (exec : α → σ → Option σ) : Option Nat → List α → σ → Option σ
  | _, [], s => some s
  | none, a :: rest, s => (exec a s).bind (runScript exec none rest)
  | some 0, _ :: _, _ => none
  | some (n + 1), a :: rest, s => (exec a s).bind (runScript exec (some n) rest)

section RunScript

variable {exec : α → σ → Option σ}

/-- The failure as the second part of a script sees it. -/
theorem runScript_append (failure : Option Nat) (first second : List α) (s : σ) :
    runScript exec failure (first ++ second) s =
      if failure.any (· < first.length) then none
      else (runScript exec none first s).bind
        (runScript exec (failure.map (· - first.length)) second) := by
  induction first generalizing failure s with
  | nil =>
    cases failure <;> simp [runScript]
  | cons a rest ih =>
    match failure with
    | none =>
      simp only [List.cons_append, runScript, Option.any_none, Bool.false_eq_true, if_false,
        Option.map_none, Option.bind_assoc]
      congr 1
      funext next
      simpa using ih none next
    | some 0 => simp [runScript]
    | some (n + 1) =>
      simp only [List.cons_append, runScript, Option.any_some, List.length_cons,
        Nat.add_lt_add_iff_right, Option.map_some, Nat.add_sub_add_right, Option.bind_assoc]
      by_cases hn : n < rest.length
      · rw [if_pos (by simpa using hn), Option.bind_eq_none_iff]
        intro next _
        rw [ih, if_pos (by simpa using hn)]
      · rw [if_neg (by simpa using hn)]
        congr 1
        funext next
        rw [ih, if_neg (by simpa using hn), Option.map_some]

/-- A script with a failure injected is the script without it, unless the failure is met. -/
theorem runScript_eq (failure : Option Nat) (script : List α) (s : σ) :
    runScript exec failure script s =
      if failure.any (· < script.length) then none else runScript exec none script s := by
  have h : runScript exec failure (script ++ []) s = _ := runScript_append failure script [] s
  rw [List.append_nil] at h
  rw [h]
  congr 1
  cases runScript exec none script s <;> simp [runScript]

end RunScript

/-- Statements that can be judged ahead of their turn. A statement runs when what it `needs`
holds and the state allows it; `independent a b` says that `a` does not change whether `b` is
allowed. -/
structure ScriptRules (σ α ν : Type) where
  exec : α → σ → Option σ
  allowed : α → σ → Prop
  effect : α → σ → σ
  needs : α → List ν
  provides : α → List ν
  holds : ν → σ → Prop
  independent : α → α → Bool
  exec_eq_some_iff : ∀ {a s s'}, exec a s = some s' ↔
    (∀ n ∈ needs a, holds n s) ∧ allowed a s ∧ s' = effect a s
  holds_effect : ∀ {n a s}, holds n s → holds n (effect a s)
  holds_provides : ∀ {n a s}, (∀ m ∈ needs a, holds m s) → allowed a s → n ∈ provides a →
    holds n (effect a s)
  allowed_effect_iff : ∀ {a b s}, independent a b = true → (∀ n ∈ needs a, holds n s) →
    allowed a s → (allowed b (effect a s) ↔ allowed b s)

namespace ScriptRules

variable (R : ScriptRules σ α ν)

/-- The state after the effects of a script. -/
def effects (script : List α) (s : σ) : σ := script.foldl (fun s a => R.effect a s) s

/-- Every statement finds what it needs among what is known and what the ones before provide. -/
def supplied [DecidableEq ν] (known : List ν) : List α → Bool
  | [] => true
  | a :: rest => (R.needs a).all (· ∈ known) && supplied (known ++ R.provides a) rest

/-- A script of supplied, independent statements runs to its end exactly when the state it starts
from allows each of them. -/
theorem runScript_eq_some_iff [DecidableEq ν] {known : List ν} {script : List α} {s s' : σ}
    (hknown : ∀ n ∈ known, R.holds n s) (hsupplied : R.supplied known script = true)
    (hindependent : script.Pairwise fun a b => R.independent a b = true) :
    runScript R.exec none script s = some s' ↔
      (∀ a ∈ script, R.allowed a s) ∧ s' = R.effects script s := by
  induction script generalizing known s with
  | nil => simp [runScript, effects, eq_comm]
  | cons a rest ih =>
    rw [supplied, Bool.and_eq_true, List.all_eq_true] at hsupplied
    obtain ⟨hneeds, hrest⟩ := hsupplied
    obtain ⟨hfirst, hindependent⟩ := List.pairwise_cons.mp hindependent
    have hholds : ∀ n ∈ R.needs a, R.holds n s := fun n hn =>
      hknown n (of_decide_eq_true (hneeds n hn))
    rw [runScript, Option.bind_eq_some_iff]
    -- Past `a`, the facts known include what `a` provides and the rest is allowed as before.
    have later : R.allowed a s → (runScript R.exec none rest (R.effect a s) = some s' ↔
        (∀ b ∈ rest, R.allowed b s) ∧ s' = R.effects (a :: rest) s) := by
      intro hallowed
      have hmore : ∀ n ∈ known ++ R.provides a, R.holds n (R.effect a s) := by
        intro n hn
        rcases List.mem_append.mp hn with hn | hn
        · exact R.holds_effect (hknown n hn)
        · exact R.holds_provides hholds hallowed hn
      have hsame : (∀ b ∈ rest, R.allowed b (R.effect a s)) ↔ ∀ b ∈ rest, R.allowed b s :=
        forall₂_congr fun b hb => R.allowed_effect_iff (hfirst b hb) hholds hallowed
      rw [ih hmore hrest hindependent, hsame]
      rfl
    constructor
    · rintro ⟨next, hexec, hrun⟩
      obtain ⟨-, hallowed, rfl⟩ := R.exec_eq_some_iff.mp hexec
      obtain ⟨hall, heq⟩ := (later hallowed).mp hrun
      exact ⟨List.forall_mem_cons.mpr ⟨hallowed, hall⟩, heq⟩
    · rintro ⟨hall, heq⟩
      obtain ⟨hallowed, hall⟩ := List.forall_mem_cons.mp hall
      exact ⟨R.effect a s, R.exec_eq_some_iff.mpr ⟨hholds, hallowed, rfl⟩,
        (later hallowed).mpr ⟨hall, heq⟩⟩

end ScriptRules

end SchemaBrain.Base
