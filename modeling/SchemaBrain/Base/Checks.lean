import SchemaBrain.Base.Python

/-!
# Sequences of checks

A validator runs checks in order and raises at the first that fails. The error that it raises
may be its own or a foreign one. What a validator raises is read off its list of checks.
-/

namespace SchemaBrain.Base

/-- A check of some input: whether the input passes, and whether failing raises a foreign
error. -/
structure Check where
  passes : Bool
  foreign : Bool
  deriving DecidableEq

/-- Every check passes. -/
def allPass (checks : List Check) : Bool := checks.all (·.passes)

/-- The first check that fails, if one does, raises no foreign error. -/
def ownFailure : List Check → Bool
  | [] => true
  | c :: rest => if c.passes then ownFailure rest else !c.foreign

@[simp] theorem allPass_nil : allPass [] = true := rfl

@[simp] theorem allPass_append (checks checks' : List Check) :
    allPass (checks ++ checks') = (allPass checks && allPass checks') := List.all_append

/-- Later checks matter when the earlier ones pass. -/
theorem ownFailure_append (checks checks' : List Check) :
    ownFailure (checks ++ checks') =
      if allPass checks then ownFailure checks' else ownFailure checks := by
  induction checks with
  | nil => rfl
  | cons c checks ih =>
    simp only [List.cons_append, ownFailure, ih, allPass, List.all_cons]
    by_cases hc : c.passes = true
    · simp [hc]
    · simp [hc]

theorem ownFailure_of_allPass {checks : List Check} (h : allPass checks = true) :
    ownFailure checks = true := by
  have happend := ownFailure_append checks []
  rw [List.append_nil, if_pos h] at happend
  exact happend

section Follows

variable {ε α β : Type} {Foreign : ε → Prop}

/-- The computation raised a foreign error. -/
def RaisesForeign (Foreign : ε → Prop) (x : Except ε α) : Prop :=
  ∃ e, x = .error e ∧ Foreign e

@[simp] theorem not_raisesForeign_ok (a : α) :
    ¬ RaisesForeign Foreign (.ok a : Except ε α) := by
  simp [RaisesForeign]

@[simp] theorem raisesForeign_error {e : ε} :
    RaisesForeign Foreign (.error e : Except ε α) ↔ Foreign e := by
  simp [RaisesForeign]

/-- The computation raises a foreign error exactly when the first failing check does. -/
def Guards (Foreign : ε → Prop) (x : Except ε α) (checks : List Check) : Prop :=
  RaisesForeign Foreign x ↔ ownFailure checks = false

/-- The computation runs the checks, and returns when all of them pass. -/
structure Follows (Foreign : ε → Prop) (x : Except ε α) (checks : List Check) : Prop where
  returns : (∃ a, x = .ok a) ↔ allPass checks = true
  guards : Guards Foreign x checks

theorem Follows.ok (a : α) : Follows Foreign (.ok a : Except ε α) [] :=
  ⟨by simp, by simp [Guards, ownFailure]⟩

/-- A computation that raises no foreign error guards nothing. -/
theorem Guards.of_own {x : Except ε α} (h : ¬ RaisesForeign Foreign x) : Guards Foreign x [] := by
  simp [Guards, ownFailure, h]

/-- One check that returns. -/
theorem Follows.of_ok {x : Except ε α} {a : α} {c : Check} (h : x = .ok a)
    (hpasses : c.passes = true) : Follows Foreign x [c] := by
  subst h
  exact ⟨by simp [allPass, hpasses], by simp [Guards, ownFailure, hpasses]⟩

/-- One check that raises. -/
theorem Follows.of_error {x : Except ε α} {e : ε} {c : Check} (h : x = .error e)
    (hpasses : c.passes = false) (hforeign : Foreign e ↔ c.foreign = true) :
    Follows Foreign x [c] := by
  subst h
  exact ⟨by simp [allPass, hpasses], by simp [Guards, ownFailure, hpasses, hforeign]⟩

/-- A check that passes leaves the others. -/
theorem Follows.cons {x : Except ε α} {c : Check} {checks : List Check}
    (h : Follows Foreign x checks) (hpasses : c.passes = true) :
    Follows Foreign x (c :: checks) := by
  refine ⟨?_, ?_⟩
  · rw [h.returns, allPass, allPass, List.all_cons, hpasses, Bool.true_and]
  · have hguards : RaisesForeign Foreign x ↔ ownFailure checks = false := h.guards
    rw [Guards, hguards, ownFailure, if_pos hpasses]

/-- Behind a check that fails no check is run. -/
theorem Follows.stop {x : Except ε α} {c : Check} (h : Follows Foreign x [c])
    (hpasses : c.passes = false) (checks : List Check) : Follows Foreign x (c :: checks) := by
  have hguards : RaisesForeign Foreign x ↔ ownFailure [c] = false := h.guards
  have hfails : ¬ c.passes = true := by simp [hpasses]
  refine ⟨?_, ?_⟩
  · rw [h.returns, allPass, allPass, List.all_cons, List.all_cons, hpasses, Bool.false_and,
      Bool.false_and]
  · rw [Guards, hguards]
    simp only [ownFailure, if_neg hfails]

private theorem raisesForeign_bind {x : Except ε α} {f : α → Except ε β} :
    RaisesForeign Foreign (x >>= f) ↔
      RaisesForeign Foreign x ∨ ∃ a, x = .ok a ∧ RaisesForeign Foreign (f a) := by
  cases x with
  | error e => simp [RaisesForeign, bind, Except.bind]
  | ok a => simp [bind, Except.bind]

/-- One sequence after another: what raises. -/
theorem Follows.bind_guards {x : Except ε α} {f : α → Except ε β} {checks checks' : List Check}
    (h : Follows Foreign x checks) (h' : ∀ a, x = .ok a → Guards Foreign (f a) checks') :
    Guards Foreign (x >>= f) (checks ++ checks') := by
  have hguards : RaisesForeign Foreign x ↔ ownFailure checks = false := h.guards
  rw [Guards, raisesForeign_bind, ownFailure_append]
  cases hx : x with
  | error e =>
    have hfails : ¬ allPass checks = true := by
      rw [← h.returns, hx]
      simp
    rw [if_neg hfails, ← hguards, hx]
    simp
  | ok a =>
    have hrest : RaisesForeign Foreign (f a) ↔ ownFailure checks' = false := h' a hx
    rw [if_pos (h.returns.1 ⟨a, hx⟩), ← hrest]
    simp

/-- One sequence after another. -/
theorem Follows.bind {x : Except ε α} {f : α → Except ε β} {checks checks' : List Check}
    (h : Follows Foreign x checks) (h' : ∀ a, x = .ok a → Follows Foreign (f a) checks') :
    Follows Foreign (x >>= f) (checks ++ checks') := by
  refine ⟨?_, h.bind_guards fun a ha => (h' a ha).guards⟩
  rw [allPass_append, Bool.and_eq_true, ← h.returns]
  cases hx : x with
  | error e => simp [Bind.bind, Except.bind]
  | ok a =>
    rw [← (h' a hx).returns]
    simp [Bind.bind, Except.bind]

/-- A mapped result runs the checks of its source. -/
theorem Follows.map {x : Except ε α} {checks : List Check} (h : Follows Foreign x checks)
    (f : α → β) : Follows Foreign (x.map f) checks := by
  rw [← List.append_nil checks]
  exact h.bind fun a _ => .ok (f a)

/-- The checks of a list are those of its members in order. -/
theorem Follows.mapM {f : α → Except ε β} {checks : α → List Check} {xs : List α}
    (h : ∀ x ∈ xs, Follows Foreign (f x) (checks x)) :
    Follows Foreign (xs.mapM f) (xs.flatMap checks) := by
  induction xs with
  | nil => exact .ok []
  | cons x xs ih =>
    rw [List.mapM_cons, List.flatMap_cons]
    refine (h x List.mem_cons_self).bind fun y _ => ?_
    have htail := ih fun x' hx' => h x' (List.mem_cons_of_mem _ hx')
    rw [← List.append_nil (xs.flatMap checks)]
    exact htail.bind fun ys _ => .ok (y :: ys)

end Follows

end SchemaBrain.Base
