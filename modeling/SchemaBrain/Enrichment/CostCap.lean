import Mathlib.Algebra.BigOperators.Group.List.Basic
import Mathlib.Algebra.Order.Round
import Mathlib.Data.Rat.Floor
import Mathlib.Tactic.Linarith
import Mathlib.Tactic.Ring
import SchemaBrain.Base.Run

/-!
# The cost cap of the enrichment pipeline

`EnrichmentPipeline.enrich_columns_async`, one task a column. A task takes a slot of its tier,
checks the recorded spend, calls the LLM in a thread, gives the slot back and records the cost.
The cap holds of the recorded spend; calls that are not recorded yet, calls that a cancellation
dropped and the rounding of the ledger are what the total cost can exceed it by.
-/

namespace SchemaBrain.Enrichment

open SchemaBrain.Base

/-! ## The ledger -/

/-- `_MICROS_PER_USD`. -/
def microsPerUsd : ℚ := 1000000

/-- Python's `round` of a rational: to the nearest integer, ties to the even one. -/
def pyRound (q : ℚ) : ℤ :=
  let below := ⌊q⌋
  let rest := q - below
  if rest < 1 / 2 then below
  else if 1 / 2 < rest then below + 1
  else if below % 2 = 0 then below else below + 1

/-- The integer that `add_spend_usd` adds to the ledger. -/
def amountMicros (amountUsd : ℚ) : ℤ := pyRound (amountUsd * microsPerUsd)

/-! ## The pipeline -/

/-- The model a column is sent to. -/
inductive Tier
  | standard
  | cryptic
  deriving DecidableEq

/-- What a pipeline is constructed with; `tierOf` is the routing by column name. -/
structure Config where
  maxCostUsd : ℚ
  defaultConcurrency : Nat
  crypticConcurrency : Nat
  tierOf : String → Tier
  maxCost_nonneg : 0 ≤ maxCostUsd
  defaultConcurrency_pos : 1 ≤ defaultConcurrency
  crypticConcurrency_pos : 1 ≤ crypticConcurrency

def Config.limit (c : Config) : Tier → Nat
  | .standard => c.defaultConcurrency
  | .cryptic => c.crypticConcurrency

/-- The calls that can run at once. -/
def Config.concurrency (c : Config) : Nat := c.defaultConcurrency + c.crypticConcurrency

/-- Where the task of a column stands. `spend_lock` is not a place to stand: it is taken and given
back without a suspension in between, so no task finds it held. -/
inductive Phase
  /-- Not started, or at the semaphore. -/
  | waiting
  /-- The LLM call runs in its thread. -/
  | calling
  /-- The call has returned in its thread; the task has not resumed. -/
  | returned (costUsd : ℚ)
  /-- The call has raised in its thread; the task has not resumed. -/
  | raised
  | done
  /-- Ended with `CostCapExceeded`. -/
  | capReached
  /-- Ended with another exception. -/
  | failed
  | cancelled
  deriving DecidableEq

structure ColumnTask where
  tier : Tier
  phase : Phase
  deriving DecidableEq

/-- One running call of `enrich_columns_async`, with the free slots of its semaphores. -/
structure Batch where
  tasks : List ColumnTask
  freeSlots : Tier → Nat

/-- A pipeline, with or without a ledger. `detached` counts the threads whose task was cancelled
and whose call still runs. -/
structure Pipeline where
  spentUsd : ℚ
  ledgerMicros : Option ℤ
  batch : Option Batch
  detached : Nat
  /-- History: calls started. -/
  startedCalls : Nat
  /-- History: the costs of the calls that have returned. -/
  completed : List ℚ
  /-- History: the costs that were recorded. -/
  recorded : List ℚ
  /-- History: calls that returned and were not recorded, or may still return. -/
  droppedCalls : Nat
  /-- History: their costs, of those that have returned. -/
  dropped : List ℚ
  /-- History: calls that raised, or whose cost could not be recorded. -/
  failedCalls : Nat

/-- What can happen next. -/
inductive Action
  /-- `enrich_columns_async` is called. -/
  | enrichColumns (columns : List String)
  /-- A task enters its semaphore and checks the cap. -/
  | enter (i : Nat)
  /-- The call of a task returns in its thread. -/
  | callReturns (i : Nat) (costUsd : ℚ)
  /-- The call of a task raises in its thread. -/
  | callRaises (i : Nat)
  /-- A task resumes after its call; `ledgerOk` says whether the ledger can be written. -/
  | resume (i : Nat) (ledgerOk : Bool)
  /-- The task group cancels the tasks that have not ended, after one of them failed. -/
  | abort
  /-- The call of a cancelled task returns in its thread. -/
  | detachedReturns (costUsd : ℚ)
  /-- The call of a cancelled task raises in its thread. -/
  | detachedRaises
  /-- Every task has ended: `enrich_columns_async` returns or raises. -/
  | finish

namespace Batch

/-- The tasks of a call, with fresh semaphores. -/
def start (c : Config) (columns : List String) : Batch where
  tasks := columns.map fun column => ⟨c.tierOf column, .waiting⟩
  freeSlots := c.limit

def setPhase (b : Batch) (i : Nat) (t : ColumnTask) (phase : Phase) : Batch :=
  { b with tasks := b.tasks.set i { t with phase := phase } }

def acquire (b : Batch) (tier : Tier) : Batch :=
  { b with freeSlots := Function.update b.freeSlots tier (b.freeSlots tier - 1) }

def release (b : Batch) (tier : Tier) : Batch :=
  { b with freeSlots := Function.update b.freeSlots tier (b.freeSlots tier + 1) }

end Batch

/-- A task that ended with an exception. -/
def Phase.isFailure : Phase → Bool
  | capReached | failed => true
  | _ => false

/-- A task that has ended. -/
def Phase.isFinal : Phase → Bool
  | done | capReached | failed | cancelled => true
  | _ => false

/-- The phase after the task group's cancellation. -/
def Phase.cancel (phase : Phase) : Phase := if phase.isFinal then phase else .cancelled

/-- The task group's `_abort`. -/
def Batch.cancel (b : Batch) : Batch :=
  { b with tasks := b.tasks.map fun t => { t with phase := t.phase.cancel } }

/-- The cost of a call that has returned and is not recorded. -/
def Phase.unrecorded : Phase → Option ℚ
  | returned costUsd => some costUsd
  | _ => none

/-- A call that is not recorded and may have a cost. -/
def Phase.isOpen : Phase → Bool
  | calling | returned _ => true
  | _ => false

namespace Pipeline

def setBatch (s : Pipeline) (b : Batch) : Pipeline := { s with batch := some b }

/-- `_record_spend`; `none` is an exception, and no change. -/
def recordSpend (s : Pipeline) (costUsd : ℚ) (ledgerOk : Bool) : Option Pipeline :=
  match s.ledgerMicros with
  | none => some { s with
      spentUsd := s.spentUsd + costUsd
      recorded := s.recorded ++ [costUsd] }
  | some currentMicros =>
    if ledgerOk then
      let newMicros := currentMicros + amountMicros costUsd
      some { s with
        ledgerMicros := some newMicros
        spentUsd := newMicros / microsPerUsd
        recorded := s.recorded ++ [costUsd] }
    else none

/-- `_validated_cost`, then `_record_spend`. -/
def validateAndRecord (s : Pipeline) (costUsd : ℚ) (ledgerOk : Bool) : Option Pipeline :=
  if costUsd < 0 then none else s.recordSpend costUsd ledgerOk

end Pipeline

/-- One step of the pipeline. -/
def step (c : Config) (s : Pipeline) : Action → Option Pipeline
  | .enrichColumns columns =>
    match s.batch with
    | some _ => none
    | none =>
      -- An empty list returns at once; a reached cap raises before any task.
      if columns = [] ∨ c.maxCostUsd ≤ s.spentUsd then some s
      else some (s.setBatch (.start c columns))
  | .enter i => do
    let b ← s.batch
    let t ← b.tasks[i]?
    if t.phase = .waiting ∧ 0 < b.freeSlots t.tier then
      if c.maxCostUsd ≤ s.spentUsd then some (s.setBatch (b.setPhase i t .capReached))
      else some { s.setBatch ((b.setPhase i t .calling).acquire t.tier) with
        startedCalls := s.startedCalls + 1 }
    else none
  | .callReturns i costUsd => do
    let b ← s.batch
    let t ← b.tasks[i]?
    if t.phase = .calling then
      some { s.setBatch (b.setPhase i t (.returned costUsd)) with
        completed := s.completed ++ [costUsd] }
    else none
  | .callRaises i => do
    let b ← s.batch
    let t ← b.tasks[i]?
    if t.phase = .calling then
      some { s.setBatch (b.setPhase i t .raised) with failedCalls := s.failedCalls + 1 }
    else none
  | .resume i ledgerOk => do
    let b ← s.batch
    let t ← b.tasks[i]?
    match t.phase with
    | .returned costUsd =>
      match s.validateAndRecord costUsd ledgerOk with
      | some s' => some (s'.setBatch ((b.setPhase i t .done).release t.tier))
      | none => some { s.setBatch ((b.setPhase i t .failed).release t.tier) with
          droppedCalls := s.droppedCalls + 1
          dropped := s.dropped ++ [costUsd]
          failedCalls := s.failedCalls + 1 }
    | .raised => some (s.setBatch ((b.setPhase i t .failed).release t.tier))
    | _ => none
  | .abort => do
    let b ← s.batch
    if b.tasks.any (·.phase.isFailure) then
      some { s with
        batch := some b.cancel
        detached := s.detached + b.tasks.countP (·.phase = .calling)
        droppedCalls := s.droppedCalls + b.tasks.countP (·.phase.isOpen)
        dropped := s.dropped ++ b.tasks.filterMap (·.phase.unrecorded) }
    else none
  | .detachedReturns costUsd =>
    if 0 < s.detached then some { s with
      detached := s.detached - 1
      completed := s.completed ++ [costUsd]
      dropped := s.dropped ++ [costUsd] }
    else none
  | .detachedRaises =>
    if 0 < s.detached then some { s with detached := s.detached - 1 } else none
  | .finish => do
    let b ← s.batch
    if b.tasks.all (·.phase.isFinal) then some { s with batch := none } else none

/-- A pipeline just constructed, over a ledger with some balance or without one. -/
def constructed (balanceMicros : Option Nat) : Pipeline where
  spentUsd := (balanceMicros.getD 0 : Nat) / microsPerUsd
  ledgerMicros := balanceMicros.map fun micros => (micros : ℤ)
  batch := none
  detached := 0
  startedCalls := 0
  completed := []
  recorded := []
  droppedCalls := 0
  dropped := []
  failedCalls := 0

/-- Every call costs between nothing and `m` dollars. -/
def CostsAtMost (m : ℚ) (_ : Pipeline) : Action → Prop
  | .callReturns _ costUsd | .detachedReturns costUsd => 0 ≤ costUsd ∧ costUsd ≤ m
  | _ => True

/-- Every state that any schedule of any calls reaches. -/
def Reachable (c : Config) (m : ℚ) (balanceMicros : Option Nat) : Pipeline → Prop :=
  Reaches (step c) (CostsAtMost m) (constructed balanceMicros)

/-! ## Rounding -/

/-- Rounding moves a number by at most a half. -/
theorem abs_pyRound_sub_le (q : ℚ) : |(pyRound q : ℚ) - q| ≤ 1 / 2 := by
  have hbelow : (⌊q⌋ : ℚ) ≤ q := Int.floor_le q
  have habove : q < ⌊q⌋ + 1 := Int.lt_floor_add_one q
  unfold pyRound
  simp only
  split
  · rw [abs_le]
    constructor <;> linarith
  · split
    · push_cast
      rw [abs_le]
      constructor <;> linarith
    · split
      · rw [abs_le]
        constructor <;> linarith
      · push_cast
        rw [abs_le]
        constructor <;> linarith

theorem amountMicros_nonneg {costUsd : ℚ} (h : 0 ≤ costUsd) : 0 ≤ amountMicros costUsd := by
  have hq : 0 ≤ costUsd * microsPerUsd := mul_nonneg h (by norm_num [microsPerUsd])
  have hclose := abs_le.mp (abs_pyRound_sub_le (costUsd * microsPerUsd))
  have : (-1 : ℚ) < pyRound (costUsd * microsPerUsd) := by linarith [hclose.1]
  have : (-1 : ℤ) < pyRound (costUsd * microsPerUsd) := by exact_mod_cast this
  unfold amountMicros
  omega

/-- The ledger misses at most half a micro-dollar of a cost. -/
theorem le_amountMicros_div (costUsd : ℚ) :
    costUsd ≤ amountMicros costUsd / microsPerUsd + 1 / (2 * microsPerUsd) := by
  have hclose := (abs_le.mp (abs_pyRound_sub_le (costUsd * microsPerUsd))).1
  unfold amountMicros
  norm_num [microsPerUsd] at hclose ⊢
  linarith

/-! ## Counting tasks -/

theorem countP_set {tasks : List ColumnTask} {i : Nat} {t : ColumnTask} (h : tasks[i]? = some t)
    (t' : ColumnTask) (p : ColumnTask → Bool) :
    (tasks.set i t').countP p + (p t).toNat = tasks.countP p + (p t').toNat := by
  induction tasks generalizing i with
  | nil => cases h
  | cons head rest ih =>
    cases i with
    | zero =>
      obtain rfl : head = t := Option.some.inj h
      simp only [List.set_cons_zero, List.countP_cons]
      cases p head <;> cases p t' <;> simp
    | succ i =>
      have := ih (i := i) h
      simp only [List.set_cons_succ, List.countP_cons]
      omega

/-! ## The invariant -/

/-- A task with a slot of its semaphore. -/
def Phase.holdsSlot : Phase → Bool
  | calling | returned _ | raised => true
  | _ => false

/-- A task whose call failed. -/
def Phase.callFailed : Phase → Bool
  | raised | failed => true
  | _ => false

/-- The tasks of the running call, if there is one. -/
def Pipeline.tasks (s : Pipeline) : List ColumnTask := (s.batch.map Batch.tasks).getD []

/-- The costs of calls that have returned and are not recorded. -/
def unrecordedUsd (tasks : List ColumnTask) : ℚ := (tasks.filterMap (·.phase.unrecorded)).sum

/-- The calls that the task group may still drop because of a failed one. -/
def droppable (c : Config) (tasks : List ColumnTask) : Nat :=
  if tasks.any (·.phase.callFailed) ∧ tasks.any (!·.phase.isFinal) then c.concurrency else 0

/-- What a recorded cost adds to the spend. -/
def recordedAmount (balanceMicros : Option Nat) (costUsd : ℚ) : ℚ :=
  if balanceMicros.isSome then amountMicros costUsd / microsPerUsd else costUsd

/-- What the rounding of the ledger can hide of one cost. -/
def hiddenUsd (balanceMicros : Option Nat) : ℚ :=
  if balanceMicros.isSome then 1 / (2 * microsPerUsd) else 0

/-- What the total cost cannot exceed. -/
def Pipeline.bound (c : Config) (m : ℚ) (balanceMicros : Option Nat) (s : Pipeline) : ℚ :=
  c.maxCostUsd + c.concurrency * m + (c.concurrency + 1) * s.failedCalls * m +
    s.recorded.length * hiddenUsd balanceMicros

/-- The invariant of a pipeline. -/
structure Inv (c : Config) (m : ℚ) (balanceMicros : Option Nat) (s : Pipeline) : Prop where
  slots : ∀ b, s.batch = some b → ∀ tier, b.freeSlots tier +
    b.tasks.countP (fun t => t.tier = tier && t.phase.holdsSlot) ≤ c.limit tier
  costs : ∀ t ∈ s.tasks, ∀ costUsd ∈ t.phase.unrecorded, 0 ≤ costUsd ∧ costUsd ≤ m
  capReached : ∀ t ∈ s.tasks, t.phase = .capReached → c.maxCostUsd ≤ s.spentUsd
  balance : s.completed.sum = s.recorded.sum + unrecordedUsd s.tasks + s.dropped.sum
  dropped : s.dropped.sum + m * s.detached ≤ m * s.droppedCalls
  ledger : s.ledgerMicros = balanceMicros.map fun (micros : Nat) =>
    (micros : ℤ) + (s.recorded.map amountMicros).sum
  spent : s.spentUsd = (balanceMicros.getD 0 : Nat) / microsPerUsd +
    (s.recorded.map (recordedAmount balanceMicros)).sum
  droppedCalls : s.spentUsd < c.maxCostUsd →
    s.droppedCalls + droppable c s.tasks ≤ (c.concurrency + 1) * s.failedCalls
  total : s.completed.sum + m * (s.tasks.countP (·.phase = .calling) + s.detached) ≤
    s.bound c m balanceMicros

variable {c : Config} {m : ℚ} {balanceMicros : Option Nat} {s s' : Pipeline}

theorem inv_constructed (hm : 0 ≤ m) : Inv c m balanceMicros (constructed balanceMicros) where
  slots := nofun
  costs := nofun
  capReached := nofun
  balance := by simp [constructed, Pipeline.tasks, unrecordedUsd]
  dropped := by simp [constructed]
  ledger := by cases balanceMicros <;> simp [constructed]
  spent := by simp [constructed]
  droppedCalls _ := by simp [constructed, Pipeline.tasks, droppable]
  total := by
    have := c.maxCost_nonneg
    have : 0 ≤ c.concurrency * m := by positivity
    simp only [constructed, Pipeline.tasks, Pipeline.bound, List.sum_nil, List.length_nil]
    simp
    linarith

/-- What the ledger does not show of the recorded costs. -/
theorem Inv.recorded_le (h : Inv c m balanceMicros s) :
    s.recorded.sum ≤ s.spentUsd + s.recorded.length * hiddenUsd balanceMicros := by
  have hsum : ∀ costs : List ℚ, costs.sum ≤
      (costs.map (recordedAmount balanceMicros)).sum + costs.length * hiddenUsd balanceMicros := by
    intro costs
    induction costs with
    | nil => simp
    | cons cost rest ih =>
      have hone : cost ≤ recordedAmount balanceMicros cost + hiddenUsd balanceMicros := by
        unfold recordedAmount hiddenUsd
        split
        · exact le_amountMicros_div cost
        · simp
      simp only [List.sum_cons, List.map_cons, List.length_cons, Nat.cast_add, Nat.cast_one]
      linarith
  have hbalance : (0 : ℚ) ≤ (balanceMicros.getD 0 : Nat) / microsPerUsd := by
    unfold microsPerUsd
    positivity
  have := hsum s.recorded
  rw [h.spent]
  linarith

/-! ## One task moves -/

theorem tasks_eq {b : Batch} (hb : s.batch = some b) : s.tasks = b.tasks := by
  simp [Pipeline.tasks, hb]

theorem droppable_le (c : Config) (tasks : List ColumnTask) :
    droppable c tasks ≤ c.concurrency := by
  unfold droppable
  split <;> omega

/-- A move that neither fails a call nor reopens a task makes no more calls droppable. -/
theorem droppable_set_le (c : Config) {tasks : List ColumnTask} {i : Nat} {t t' : ColumnTask}
    (ht : tasks[i]? = some t) (hfailed : t'.phase.callFailed = true → t.phase.callFailed = true)
    (hfinal : t.phase.isFinal = true → t'.phase.isFinal = true) :
    droppable c (tasks.set i t') ≤ droppable c tasks := by
  have hmem : t ∈ tasks := List.mem_of_getElem? ht
  unfold droppable
  split
  · next h =>
    rw [if_pos]
    · simp only [List.any_eq_true] at h ⊢
      obtain ⟨⟨x, hx, hxfailed⟩, y, hy, hylive⟩ := h
      constructor
      · rcases List.mem_or_eq_of_mem_set hx with hx | rfl
        · exact ⟨x, hx, hxfailed⟩
        · exact ⟨t, hmem, hfailed hxfailed⟩
      · rcases List.mem_or_eq_of_mem_set hy with hy | rfl
        · exact ⟨y, hy, hylive⟩
        · refine ⟨t, hmem, ?_⟩
          cases hcase : t.phase.isFinal
          · rfl
          · rw [hfinal hcase] at hylive
            exact hylive
  · omega

/-- Every slot that is taken belongs to a task, so an open call has a slot. -/
theorem open_le_holders (tasks : List ColumnTask) :
    tasks.countP (·.phase.isOpen) ≤
      tasks.countP (fun t => t.tier = .standard && t.phase.holdsSlot) +
        tasks.countP (fun t => t.tier = .cryptic && t.phase.holdsSlot) := by
  induction tasks with
  | nil => simp
  | cons t rest ih =>
    have hone : (if t.phase.isOpen = true then 1 else 0) ≤
        (if (t.tier = .standard && t.phase.holdsSlot) = true then 1 else 0) +
          (if (t.tier = .cryptic && t.phase.holdsSlot) = true then 1 else 0) := by
      obtain ⟨tier, phase⟩ := t
      cases tier <;> cases phase <;> simp [Phase.isOpen, Phase.holdsSlot]
    simp only [List.countP_cons]
    omega

theorem Inv.open_le (h : Inv c m balanceMicros s) {b : Batch} (hb : s.batch = some b) :
    b.freeSlots .standard + b.freeSlots .cryptic + b.tasks.countP (·.phase.isOpen) ≤
      c.concurrency := by
  have hstandard := h.slots b hb .standard
  have hcryptic := h.slots b hb .cryptic
  have := open_le_holders b.tasks
  simp only [Config.limit] at hstandard hcryptic
  unfold Config.concurrency
  omega

/-- The unrecorded costs are at most `m` for each call that has returned. -/
theorem unrecorded_add_le {tasks : List ColumnTask}
    (h : ∀ t ∈ tasks, ∀ costUsd ∈ t.phase.unrecorded, 0 ≤ costUsd ∧ costUsd ≤ m) :
    unrecordedUsd tasks + m * tasks.countP (·.phase = .calling) ≤
      m * tasks.countP (·.phase.isOpen) := by
  induction tasks with
  | nil => simp [unrecordedUsd]
  | cons t rest ih =>
    obtain ⟨hhead, hrest⟩ := List.forall_mem_cons.mp h
    have ih := ih hrest
    have hone : t.phase.unrecorded.getD 0 + m * (if t.phase = .calling then 1 else 0) ≤
        m * (if t.phase.isOpen = true then 1 else 0) := by
      obtain ⟨tier, phase⟩ := t
      cases phase with
      | returned costUsd =>
        simpa [Phase.unrecorded, Phase.isOpen] using (hhead costUsd rfl).2
      | _ => simp [Phase.unrecorded, Phase.isOpen]
    have hsum : unrecordedUsd (t :: rest) = t.phase.unrecorded.getD 0 + unrecordedUsd rest := by
      unfold unrecordedUsd
      rw [List.filterMap_cons]
      cases t.phase.unrecorded <;> simp
    rw [hsum, List.countP_cons, List.countP_cons]
    push_cast
    simp only [decide_eq_true_eq]
    linarith

/-- What the completed calls cost, with all that still run, before another one starts. -/
theorem Inv.total_of_below (h : Inv c m balanceMicros s) (hm : 0 ≤ m) {b : Batch}
    (hb : s.batch = some b) (hbelow : s.spentUsd < c.maxCostUsd) :
    s.completed.sum + m * (b.tasks.countP (·.phase = .calling) + s.detached) <
      c.maxCostUsd + m * b.tasks.countP (·.phase.isOpen) +
        (c.concurrency + 1) * s.failedCalls * m + s.recorded.length * hiddenUsd balanceMicros := by
  have hunrecorded := unrecorded_add_le h.costs
  rw [tasks_eq hb] at hunrecorded
  have hbalance := h.balance
  rw [tasks_eq hb] at hbalance
  have hdropped : m * s.droppedCalls ≤ m * ((c.concurrency + 1) * s.failedCalls) := by
    refine mul_le_mul_of_nonneg_left ?_ hm
    exact_mod_cast (Nat.le_add_right ..).trans (h.droppedCalls hbelow)
  have := h.dropped
  have := h.recorded_le
  linarith

section Move

variable {b : Batch} {i : Nat} {t : ColumnTask} {phase : Phase}

theorem calling_set (ht : b.tasks[i]? = some t) {before after : Nat}
    (hbefore : (decide (t.phase = .calling)).toNat = before)
    (hafter : (decide (phase = .calling)).toNat = after) :
    (b.tasks.set i ⟨t.tier, phase⟩).countP (·.phase = .calling) + before =
      b.tasks.countP (·.phase = .calling) + after := by
  rw [← hbefore, ← hafter]
  exact countP_set ht ⟨t.tier, phase⟩ (·.phase = .calling)

theorem unrecordedUsd_set (ht : b.tasks[i]? = some t) {before after : ℚ}
    (hbefore : t.phase.unrecorded.getD 0 = before) (hafter : phase.unrecorded.getD 0 = after) :
    unrecordedUsd (b.tasks.set i ⟨t.tier, phase⟩) + before = unrecordedUsd b.tasks + after := by
  rw [← hbefore, ← hafter]
  generalize b.tasks = tasks at ht ⊢
  unfold unrecordedUsd
  induction tasks generalizing i with
  | nil => cases ht
  | cons head rest ih =>
    cases i with
    | zero =>
      obtain rfl : head = t := Option.some.inj ht
      simp only [List.set_cons_zero, List.filterMap_cons]
      cases head.phase.unrecorded <;> cases phase.unrecorded <;> simp <;> ring
    | succ i =>
      have := ih (i := i) ht
      simp only [List.set_cons_succ, List.filterMap_cons]
      cases head.phase.unrecorded with
      | none => exact this
      | some cost => simp only [List.sum_cons]; linarith

/-- The semaphores after a move that gives back what it takes. -/
theorem slots_set (ht : b.tasks[i]? = some t)
    (hslots : ∀ tier, b.freeSlots tier +
      b.tasks.countP (fun t => t.tier = tier && t.phase.holdsSlot) ≤ c.limit tier)
    {free : Tier → Nat} (hother : ∀ tier, tier ≠ t.tier → free tier = b.freeSlots tier)
    (hown : free t.tier + phase.holdsSlot.toNat ≤ b.freeSlots t.tier + t.phase.holdsSlot.toNat)
    (tier : Tier) :
    free tier + (b.tasks.set i ⟨t.tier, phase⟩).countP
      (fun t => t.tier = tier && t.phase.holdsSlot) ≤ c.limit tier := by
  have hset := countP_set ht ⟨t.tier, phase⟩ (fun t => t.tier = tier && t.phase.holdsSlot)
  have hbound := hslots tier
  by_cases htier : tier = t.tier
  · subst htier
    simp only [decide_true, Bool.true_and] at hset
    omega
  · have hne : t.tier ≠ tier := Ne.symm htier
    simp only [hne, decide_false, Bool.false_and, Bool.toNat_false, Nat.add_zero] at hset
    rw [hset, hother tier htier]
    exact hbound

theorem costs_set (hcosts : ∀ t ∈ b.tasks, ∀ costUsd ∈ t.phase.unrecorded,
      0 ≤ costUsd ∧ costUsd ≤ m)
    (hnew : ∀ costUsd ∈ phase.unrecorded, 0 ≤ costUsd ∧ costUsd ≤ m) :
    ∀ x ∈ b.tasks.set i ⟨t.tier, phase⟩, ∀ costUsd ∈ x.phase.unrecorded,
      0 ≤ costUsd ∧ costUsd ≤ m := by
  intro x hx
  rcases List.mem_or_eq_of_mem_set hx with hx | rfl
  · exact hcosts x hx
  · exact hnew

theorem capReached_set {spent spent' : ℚ} (hspent : spent ≤ spent')
    (hcap : ∀ t ∈ b.tasks, t.phase = .capReached → c.maxCostUsd ≤ spent)
    (hnew : phase = .capReached → c.maxCostUsd ≤ spent') :
    ∀ x ∈ b.tasks.set i ⟨t.tier, phase⟩, x.phase = .capReached → c.maxCostUsd ≤ spent' := by
  intro x hx hphase
  rcases List.mem_or_eq_of_mem_set hx with hx | rfl
  · exact (hcap x hx hphase).trans hspent
  · exact hnew hphase

/-- A task that finds the cap reached ends. -/
theorem Inv.enter_capReached (h : Inv c m balanceMicros s) (hb : s.batch = some b)
    (ht : b.tasks[i]? = some t) (hphase : t.phase = .waiting)
    (hcap : c.maxCostUsd ≤ s.spentUsd) :
    Inv c m balanceMicros (s.setBatch (b.setPhase i t .capReached)) where
  slots := by
    rintro b' ⟨rfl⟩
    exact slots_set ht (h.slots b hb) (fun _ _ => rfl) (by rw [hphase]; rfl)
  costs := costs_set (tasks_eq hb ▸ h.costs) nofun
  capReached := capReached_set le_rfl (tasks_eq hb ▸ h.capReached) fun _ => hcap
  balance := by
    have hsum : unrecordedUsd (b.tasks.set i ⟨t.tier, .capReached⟩) + 0 =
        unrecordedUsd b.tasks + 0 := unrecordedUsd_set ht (by rw [hphase]; rfl) rfl
    have hbalance := h.balance
    rw [tasks_eq hb] at hbalance
    change s.completed.sum = s.recorded.sum + unrecordedUsd (b.tasks.set i _) + s.dropped.sum
    linarith
  dropped := h.dropped
  ledger := h.ledger
  spent := h.spent
  droppedCalls hbelow := absurd hcap (not_le.mpr hbelow)
  total := by
    have hcalling : (b.tasks.set i ⟨t.tier, .capReached⟩).countP (·.phase = .calling) + 0 =
        b.tasks.countP (·.phase = .calling) + 0 := calling_set ht (by rw [hphase]; rfl) rfl
    have htotal := h.total
    rw [tasks_eq hb, ← Nat.add_zero (b.tasks.countP _), ← hcalling] at htotal
    exact htotal

/-- A task that finds the cap not reached calls the LLM. -/
theorem Inv.enter_call (h : Inv c m balanceMicros s) (hm : 0 ≤ m) (hb : s.batch = some b)
    (ht : b.tasks[i]? = some t) (hphase : t.phase = .waiting) (hfree : 0 < b.freeSlots t.tier)
    (hbelow : s.spentUsd < c.maxCostUsd) :
    Inv c m balanceMicros { s.setBatch ((b.setPhase i t .calling).acquire t.tier) with
      startedCalls := s.startedCalls + 1 } where
  slots := by
    rintro b' ⟨rfl⟩
    refine slots_set ht (h.slots b hb) (fun tier hne => Function.update_of_ne hne _ _) ?_
    simp only [Batch.acquire, Batch.setPhase, Function.update_self, Phase.holdsSlot,
      Bool.toNat_true]
    omega
  costs := costs_set (tasks_eq hb ▸ h.costs) nofun
  capReached := capReached_set le_rfl (tasks_eq hb ▸ h.capReached) nofun
  balance := by
    have hsum : unrecordedUsd (b.tasks.set i ⟨t.tier, .calling⟩) + 0 =
        unrecordedUsd b.tasks + 0 := unrecordedUsd_set ht (by rw [hphase]; rfl) rfl
    have hbalance := h.balance
    rw [tasks_eq hb] at hbalance
    change s.completed.sum = s.recorded.sum + unrecordedUsd (b.tasks.set i _) + s.dropped.sum
    linarith
  dropped := h.dropped
  ledger := h.ledger
  spent := h.spent
  droppedCalls _ := by
    have hdropped := h.droppedCalls hbelow
    rw [tasks_eq hb] at hdropped
    have : droppable c (b.tasks.set i ⟨t.tier, .calling⟩) ≤ droppable c b.tasks :=
      droppable_set_le c ht nofun (by rw [hphase]; exact nofun)
    exact (Nat.add_le_add_left this _).trans hdropped
  total := by
    -- A slot is free, so with the new call at most `concurrency` calls are open.
    have hcalling : (b.tasks.set i ⟨t.tier, .calling⟩).countP (·.phase = .calling) + 0 =
        b.tasks.countP (·.phase = .calling) + 1 := calling_set ht (by rw [hphase]; rfl) rfl
    have hopen : b.tasks.countP (·.phase.isOpen) + 1 ≤ c.concurrency := by
      have := h.open_le hb
      cases htier : t.tier <;> rw [htier] at hfree <;> omega
    have hopen : m * (b.tasks.countP (·.phase.isOpen) + 1) ≤ m * c.concurrency :=
      mul_le_mul_of_nonneg_left (by exact_mod_cast hopen) hm
    have hbefore := h.total_of_below hm hb hbelow
    change s.completed.sum + m * (((b.tasks.set i ⟨t.tier, .calling⟩).countP
      (·.phase = .calling) : ℕ) + s.detached) ≤ s.bound c m balanceMicros
    rw [Nat.add_zero] at hcalling
    rw [hcalling, Pipeline.bound]
    push_cast
    linarith

/-- The call of a task returns. -/
theorem Inv.callReturns (h : Inv c m balanceMicros s) (hb : s.batch = some b)
    (ht : b.tasks[i]? = some t) (hphase : t.phase = .calling) {costUsd : ℚ}
    (hcost : 0 ≤ costUsd ∧ costUsd ≤ m) :
    Inv c m balanceMicros { s.setBatch (b.setPhase i t (.returned costUsd)) with
      completed := s.completed ++ [costUsd] } where
  slots := by
    rintro b' ⟨rfl⟩
    exact slots_set ht (h.slots b hb) (fun _ _ => rfl) (by rw [hphase]; rfl)
  costs := costs_set (tasks_eq hb ▸ h.costs) (by rintro _ ⟨rfl⟩; exact hcost)
  capReached := capReached_set le_rfl (tasks_eq hb ▸ h.capReached) nofun
  balance := by
    have hsum : unrecordedUsd (b.tasks.set i ⟨t.tier, .returned costUsd⟩) + 0 =
        unrecordedUsd b.tasks + costUsd := unrecordedUsd_set ht (by rw [hphase]; rfl) rfl
    have hbalance := h.balance
    rw [tasks_eq hb] at hbalance
    change (s.completed ++ [costUsd]).sum =
      s.recorded.sum + unrecordedUsd (b.tasks.set i _) + s.dropped.sum
    rw [List.sum_append, List.sum_singleton]
    linarith
  dropped := h.dropped
  ledger := h.ledger
  spent := h.spent
  droppedCalls hbelow := by
    have hdropped := h.droppedCalls hbelow
    rw [tasks_eq hb] at hdropped
    have : droppable c (b.tasks.set i ⟨t.tier, .returned costUsd⟩) ≤ droppable c b.tasks :=
      droppable_set_le c ht nofun (by rw [hphase]; exact nofun)
    exact (Nat.add_le_add_left this _).trans hdropped
  total := by
    have hcalling : (b.tasks.set i ⟨t.tier, .returned costUsd⟩).countP (·.phase = .calling) + 1 =
        b.tasks.countP (·.phase = .calling) + 0 := calling_set ht (by rw [hphase]; rfl) rfl
    have htotal := h.total
    rw [tasks_eq hb, ← Nat.add_zero (b.tasks.countP _), ← hcalling] at htotal
    change (s.completed ++ [costUsd]).sum + m * (((b.tasks.set i ⟨t.tier, .returned costUsd⟩).countP
      (·.phase = .calling) : ℕ) + s.detached) ≤ s.bound c m balanceMicros
    rw [List.sum_append, List.sum_singleton]
    push_cast at htotal
    linarith [hcost.2]

/-- A failed call makes the open ones droppable. -/
theorem Inv.bound_failedCalls (hm : 0 ≤ m) {s' : Pipeline}
    (hfailed : s'.failedCalls = s.failedCalls + 1)
    (hrecorded : s'.recorded = s.recorded) :
    s.bound c m balanceMicros ≤ s'.bound c m balanceMicros := by
  unfold Pipeline.bound
  rw [hfailed, hrecorded]
  push_cast
  have : 0 ≤ ((c.concurrency : ℚ) + 1) * m := by positivity
  linarith

/-- The call of a task raises. -/
theorem Inv.callRaises (h : Inv c m balanceMicros s) (hm : 0 ≤ m) (hb : s.batch = some b)
    (ht : b.tasks[i]? = some t) (hphase : t.phase = .calling) :
    Inv c m balanceMicros { s.setBatch (b.setPhase i t .raised) with
      failedCalls := s.failedCalls + 1 } where
  slots := by
    rintro b' ⟨rfl⟩
    exact slots_set ht (h.slots b hb) (fun _ _ => rfl) (by rw [hphase]; rfl)
  costs := costs_set (tasks_eq hb ▸ h.costs) nofun
  capReached := capReached_set le_rfl (tasks_eq hb ▸ h.capReached) nofun
  balance := by
    have hsum : unrecordedUsd (b.tasks.set i ⟨t.tier, .raised⟩) + 0 =
        unrecordedUsd b.tasks + 0 := unrecordedUsd_set ht (by rw [hphase]; rfl) rfl
    have hbalance := h.balance
    rw [tasks_eq hb] at hbalance
    change s.completed.sum = s.recorded.sum + unrecordedUsd (b.tasks.set i _) + s.dropped.sum
    linarith
  dropped := h.dropped
  ledger := h.ledger
  spent := h.spent
  droppedCalls hbelow := by
    have hdropped := h.droppedCalls hbelow
    have hmost := droppable_le c (b.tasks.set i ⟨t.tier, .raised⟩)
    change s.droppedCalls + droppable c (b.tasks.set i ⟨t.tier, .raised⟩) ≤
      (c.concurrency + 1) * (s.failedCalls + 1)
    rw [Nat.mul_add_one]
    omega
  total := by
    have hcalling : (b.tasks.set i ⟨t.tier, .raised⟩).countP (·.phase = .calling) + 1 =
        b.tasks.countP (·.phase = .calling) + 0 := calling_set ht (by rw [hphase]; rfl) rfl
    have htotal := h.total
    rw [tasks_eq hb, ← Nat.add_zero (b.tasks.countP _), ← hcalling] at htotal
    refine le_trans ?_ (htotal.trans (Inv.bound_failedCalls hm rfl rfl))
    change s.completed.sum + m * (((b.tasks.set i ⟨t.tier, .raised⟩).countP
      (·.phase = .calling) : ℕ) + s.detached) ≤ _
    push_cast
    linarith

/-- What `_record_spend` changes. -/
theorem Inv.recordSpend (h : Inv c m balanceMicros s) {costUsd : ℚ} {ledgerOk : Bool}
    (hrecord : s.recordSpend costUsd ledgerOk = some s') :
    ∃ ledgerMicros, s' = { s with
        spentUsd := s.spentUsd + recordedAmount balanceMicros costUsd
        ledgerMicros := ledgerMicros
        recorded := s.recorded ++ [costUsd] } ∧
      ledgerMicros = balanceMicros.map fun (micros : Nat) =>
        (micros : ℤ) + ((s.recorded ++ [costUsd]).map amountMicros).sum := by
  have hledger := h.ledger
  have hspent := h.spent
  unfold Pipeline.recordSpend at hrecord
  cases balanceMicros with
  | none =>
    rw [hledger] at hrecord
    exact ⟨none, by simpa [recordedAmount, hledger] using hrecord.symm, rfl⟩
  | some micros =>
    rw [Option.map_some] at hledger
    rw [hledger] at hrecord
    simp only at hrecord
    split at hrecord
    · refine ⟨_, (Option.some.inj hrecord).symm.trans ?_, rfl⟩
      have hamounts : (s.recorded.map (recordedAmount (some micros))).sum =
          ((s.recorded.map amountMicros).sum : ℤ) / microsPerUsd := by
        induction s.recorded with
        | nil => simp
        | cons cost rest ih =>
          simp only [List.map_cons, List.sum_cons, ih, recordedAmount, Option.isSome_some, if_true]
          push_cast
          ring
      congr 1
      · rw [hspent, hamounts]
        simp only [recordedAmount, Option.getD_some, Option.isSome_some, if_true]
        push_cast
        ring
      · simp [add_assoc]
    · cases hrecord

/-- A recorded cost adds to the spend. -/
theorem recordedAmount_nonneg {costUsd : ℚ} (h : 0 ≤ costUsd) :
    0 ≤ recordedAmount balanceMicros costUsd := by
  unfold recordedAmount
  split
  · have : (0 : ℚ) ≤ amountMicros costUsd := by exact_mod_cast amountMicros_nonneg h
    unfold microsPerUsd
    positivity
  · exact h

theorem hiddenUsd_nonneg (balanceMicros : Option Nat) : 0 ≤ hiddenUsd balanceMicros := by
  unfold hiddenUsd microsPerUsd
  split <;> norm_num

/-- A task records the cost of its call. -/
theorem Inv.resume_recorded (h : Inv c m balanceMicros s) (hb : s.batch = some b)
    (ht : b.tasks[i]? = some t) {costUsd : ℚ} (hphase : t.phase = .returned costUsd)
    {ledgerOk : Bool} {recorded : Pipeline}
    (hrecord : s.recordSpend costUsd ledgerOk = some recorded) :
    Inv c m balanceMicros (recorded.setBatch ((b.setPhase i t .done).release t.tier)) := by
  obtain ⟨ledgerMicros, rfl, hledger⟩ := h.recordSpend hrecord
  have hcost : 0 ≤ costUsd :=
    (h.costs t (tasks_eq hb ▸ List.mem_of_getElem? ht) costUsd (by rw [hphase]; rfl)).1
  have hamount : 0 ≤ recordedAmount balanceMicros costUsd := recordedAmount_nonneg hcost
  exact {
    slots := by
      rintro b' ⟨rfl⟩
      refine slots_set ht (h.slots b hb) (fun tier hne => Function.update_of_ne hne _ _) ?_
      simp [Batch.release, Batch.setPhase, Phase.holdsSlot, hphase]
    costs := costs_set (tasks_eq hb ▸ h.costs) nofun
    capReached := capReached_set (le_add_of_nonneg_right hamount) (tasks_eq hb ▸ h.capReached) nofun
    balance := by
      have hsum : unrecordedUsd (b.tasks.set i ⟨t.tier, .done⟩) + costUsd =
          unrecordedUsd b.tasks + 0 := unrecordedUsd_set ht (by rw [hphase]; rfl) rfl
      have hbalance := h.balance
      rw [tasks_eq hb] at hbalance
      change s.completed.sum =
        (s.recorded ++ [costUsd]).sum + unrecordedUsd (b.tasks.set i _) + s.dropped.sum
      rw [List.sum_append, List.sum_singleton]
      linarith
    dropped := h.dropped
    ledger := hledger
    spent := by
      simp only [Pipeline.setBatch, List.map_append, List.sum_append, List.map_cons, List.map_nil,
        List.sum_singleton, h.spent]
      ring
    droppedCalls := fun hbelow => by
      have hdropped := h.droppedCalls ((le_add_of_nonneg_right hamount).trans_lt hbelow)
      rw [tasks_eq hb] at hdropped
      have : droppable c (b.tasks.set i ⟨t.tier, .done⟩) ≤ droppable c b.tasks :=
        droppable_set_le c ht nofun fun _ => rfl
      exact (Nat.add_le_add_left this _).trans hdropped
    total := by
      have hcalling : (b.tasks.set i ⟨t.tier, .done⟩).countP (·.phase = .calling) + 0 =
          b.tasks.countP (·.phase = .calling) + 0 := calling_set ht (by rw [hphase]; rfl) rfl
      have htotal := h.total
      rw [tasks_eq hb, ← Nat.add_zero (b.tasks.countP _), ← hcalling] at htotal
      refine htotal.trans ?_
      have hhidden := hiddenUsd_nonneg balanceMicros
      simp only [Pipeline.bound, Pipeline.setBatch, List.length_append, List.length_singleton]
      push_cast
      linarith }

/-- A task cannot record the cost of its call. -/
theorem Inv.resume_dropped (h : Inv c m balanceMicros s) (hm : 0 ≤ m) (hb : s.batch = some b)
    (ht : b.tasks[i]? = some t) {costUsd : ℚ} (hphase : t.phase = .returned costUsd) :
    Inv c m balanceMicros { s.setBatch ((b.setPhase i t .failed).release t.tier) with
      droppedCalls := s.droppedCalls + 1
      dropped := s.dropped ++ [costUsd]
      failedCalls := s.failedCalls + 1 } where
  slots := by
    rintro b' ⟨rfl⟩
    refine slots_set ht (h.slots b hb) (fun tier hne => Function.update_of_ne hne _ _) ?_
    simp [Batch.release, Batch.setPhase, Phase.holdsSlot, hphase]
  costs := costs_set (tasks_eq hb ▸ h.costs) nofun
  capReached := capReached_set le_rfl (tasks_eq hb ▸ h.capReached) nofun
  balance := by
    have hsum : unrecordedUsd (b.tasks.set i ⟨t.tier, .failed⟩) + costUsd =
        unrecordedUsd b.tasks + 0 := unrecordedUsd_set ht (by rw [hphase]; rfl) rfl
    have hbalance := h.balance
    rw [tasks_eq hb] at hbalance
    change s.completed.sum =
      s.recorded.sum + unrecordedUsd (b.tasks.set i _) + (s.dropped ++ [costUsd]).sum
    rw [List.sum_append, List.sum_singleton]
    linarith
  dropped := by
    have hcost := (h.costs t (tasks_eq hb ▸ List.mem_of_getElem? ht) costUsd
      (by rw [hphase]; rfl)).2
    have hdropped := h.dropped
    simp only [Pipeline.setBatch, List.sum_append, List.sum_singleton]
    push_cast
    linarith
  ledger := h.ledger
  spent := h.spent
  droppedCalls hbelow := by
    have hdropped := h.droppedCalls hbelow
    have hmost := droppable_le c (b.tasks.set i ⟨t.tier, .failed⟩)
    change s.droppedCalls + 1 + droppable c (b.tasks.set i ⟨t.tier, .failed⟩) ≤
      (c.concurrency + 1) * (s.failedCalls + 1)
    rw [Nat.mul_add_one]
    omega
  total := by
    have hcalling : (b.tasks.set i ⟨t.tier, .failed⟩).countP (·.phase = .calling) + 0 =
        b.tasks.countP (·.phase = .calling) + 0 := calling_set ht (by rw [hphase]; rfl) rfl
    have htotal := h.total
    rw [tasks_eq hb, ← Nat.add_zero (b.tasks.countP _), ← hcalling] at htotal
    exact htotal.trans (Inv.bound_failedCalls hm rfl rfl)

/-- A task ends with the exception of its call. -/
theorem Inv.resume_raised (h : Inv c m balanceMicros s) (hb : s.batch = some b)
    (ht : b.tasks[i]? = some t) (hphase : t.phase = .raised) :
    Inv c m balanceMicros (s.setBatch ((b.setPhase i t .failed).release t.tier)) where
  slots := by
    rintro b' ⟨rfl⟩
    refine slots_set ht (h.slots b hb) (fun tier hne => Function.update_of_ne hne _ _) ?_
    simp [Batch.release, Batch.setPhase, Phase.holdsSlot, hphase]
  costs := costs_set (tasks_eq hb ▸ h.costs) nofun
  capReached := capReached_set le_rfl (tasks_eq hb ▸ h.capReached) nofun
  balance := by
    have hsum : unrecordedUsd (b.tasks.set i ⟨t.tier, .failed⟩) + 0 =
        unrecordedUsd b.tasks + 0 := unrecordedUsd_set ht (by rw [hphase]; rfl) rfl
    have hbalance := h.balance
    rw [tasks_eq hb] at hbalance
    change s.completed.sum = s.recorded.sum + unrecordedUsd (b.tasks.set i _) + s.dropped.sum
    linarith
  dropped := h.dropped
  ledger := h.ledger
  spent := h.spent
  droppedCalls hbelow := by
    have hdropped := h.droppedCalls hbelow
    rw [tasks_eq hb] at hdropped
    have : droppable c (b.tasks.set i ⟨t.tier, .failed⟩) ≤ droppable c b.tasks :=
      droppable_set_le c ht (fun _ => by rw [hphase]; rfl) fun _ => rfl
    exact (Nat.add_le_add_left this _).trans hdropped
  total := by
    have hcalling : (b.tasks.set i ⟨t.tier, .failed⟩).countP (·.phase = .calling) + 0 =
        b.tasks.countP (·.phase = .calling) + 0 := calling_set ht (by rw [hphase]; rfl) rfl
    have htotal := h.total
    rw [tasks_eq hb, ← Nat.add_zero (b.tasks.countP _), ← hcalling] at htotal
    exact htotal

/-! ## The task group, and the threads it leaves -/

/-- The task group cancels what has not ended. -/
theorem Inv.abort (h : Inv c m balanceMicros s) (hb : s.batch = some b)
    (hfailure : b.tasks.any (·.phase.isFailure) = true) :
    Inv c m balanceMicros { s with
      batch := some b.cancel
      detached := s.detached + b.tasks.countP (·.phase = .calling)
      droppedCalls := s.droppedCalls + b.tasks.countP (·.phase.isOpen)
      dropped := s.dropped ++ b.tasks.filterMap (·.phase.unrecorded) } := by
  have hcancel (phase : Phase) : phase.cancel.isFinal = true ∧ phase.cancel.unrecorded = none ∧
      phase.cancel ≠ .calling ∧ phase.cancel.holdsSlot = false := by
    cases phase <;> simp [Phase.cancel, Phase.isFinal, Phase.unrecorded, Phase.holdsSlot]
  have hcap (phase : Phase) (hphase : phase.cancel = .capReached) : phase = .capReached := by
    cases phase <;> simp_all [Phase.cancel, Phase.isFinal]
  have hcalling : b.cancel.tasks.countP (·.phase = .calling) = 0 := by
    rw [List.countP_eq_zero]
    intro t ht
    obtain ⟨u, -, rfl⟩ := List.mem_map.mp ht
    simpa using (hcancel u.phase).2.2.1
  have hunrecorded : unrecordedUsd b.cancel.tasks = 0 := by
    rw [unrecordedUsd, Batch.cancel, List.filterMap_map,
      List.filterMap_eq_nil_iff.mpr fun t _ => (hcancel t.phase).2.1, List.sum_nil]
  have hcosts := h.costs
  have hbalance := h.balance
  have htotal := h.total
  rw [tasks_eq hb] at hcosts hbalance htotal
  exact {
    slots := by
      rintro b' ⟨rfl⟩ tier
      have hslots := h.slots b hb tier
      rw [List.countP_eq_zero.mpr]
      · exact (Nat.le_add_right ..).trans hslots
      · intro t ht
        obtain ⟨u, -, rfl⟩ := List.mem_map.mp ht
        simp [(hcancel u.phase).2.2.2]
    costs := by
      intro t ht costUsd hcost
      obtain ⟨u, -, rfl⟩ := List.mem_map.mp ht
      rw [(hcancel u.phase).2.1] at hcost
      cases hcost
    capReached := by
      intro t ht hphase
      obtain ⟨u, hu, rfl⟩ := List.mem_map.mp ht
      exact h.capReached u (tasks_eq hb ▸ hu) (hcap _ hphase)
    balance := by
      change s.completed.sum = s.recorded.sum + unrecordedUsd b.cancel.tasks +
        (s.dropped ++ b.tasks.filterMap _).sum
      rw [hunrecorded, List.sum_append, hbalance, unrecordedUsd]
      ring
    dropped := by
      have hopen := unrecorded_add_le hcosts
      have hdropped := h.dropped
      unfold unrecordedUsd at hopen
      simp only [List.sum_append]
      push_cast
      linarith
    ledger := h.ledger
    spent := h.spent
    droppedCalls := fun hbelow => by
      -- Below the cap, the task that failed is not one that found the cap reached.
      have hdropped := h.droppedCalls hbelow
      rw [tasks_eq hb] at hdropped
      have hopen : b.tasks.countP (·.phase.isOpen) ≤ droppable c b.tasks := by
        unfold droppable
        split
        · have := h.open_le hb
          omega
        · next hno =>
          rw [Nat.le_zero, List.countP_eq_zero]
          intro t ht hopen
          refine hno ⟨?_, List.any_eq_true.mpr ⟨t, ht, ?_⟩⟩
          · obtain ⟨u, hu, hufailure⟩ := List.any_eq_true.mp hfailure
            refine List.any_eq_true.mpr ⟨u, hu, ?_⟩
            cases hphase : u.phase <;> rw [hphase] at hufailure <;> first | rfl | cases hufailure
            exact absurd (h.capReached u (tasks_eq hb ▸ hu) hphase) (not_le.mpr hbelow)
          · cases hphase : t.phase <;> rw [hphase] at hopen <;> first | rfl | cases hopen
      have hnone : droppable c b.cancel.tasks = 0 := by
        refine if_neg fun hlive => ?_
        obtain ⟨t, ht, hlive⟩ := List.any_eq_true.mp hlive.2
        obtain ⟨u, -, rfl⟩ := List.mem_map.mp ht
        rw [(hcancel u.phase).1] at hlive
        cases hlive
      change s.droppedCalls + _ + droppable c b.cancel.tasks ≤ _
      rw [hnone]
      exact (Nat.add_le_add_left hopen _).trans hdropped
    total := by
      change s.completed.sum + m * ((b.cancel.tasks.countP (·.phase = .calling) : ℕ) +
        ((s.detached + b.tasks.countP (·.phase = .calling) : ℕ) : ℚ)) ≤ s.bound c m balanceMicros
      rw [hcalling]
      push_cast
      linarith }

end Move

/-- The call of a cancelled task returns. -/
theorem Inv.detachedReturns (h : Inv c m balanceMicros s) (hdetached : 0 < s.detached)
    {costUsd : ℚ} (hcost : costUsd ≤ m) :
    Inv c m balanceMicros { s with
      detached := s.detached - 1
      completed := s.completed ++ [costUsd]
      dropped := s.dropped ++ [costUsd] } := by
  have hone : ((s.detached - 1 : ℕ) : ℚ) = s.detached - 1 := by
    rw [Nat.cast_sub hdetached, Nat.cast_one]
  exact {
    slots := h.slots
    costs := h.costs
    capReached := h.capReached
    balance := by
      have hbalance := h.balance
      change (s.completed ++ [costUsd]).sum =
        s.recorded.sum + unrecordedUsd s.tasks + (s.dropped ++ [costUsd]).sum
      rw [List.sum_append, List.sum_append, List.sum_singleton]
      linarith
    dropped := by
      have hdropped := h.dropped
      simp only [List.sum_append, List.sum_singleton, hone]
      linarith
    ledger := h.ledger
    spent := h.spent
    droppedCalls := h.droppedCalls
    total := by
      have htotal := h.total
      change (s.completed ++ [costUsd]).sum +
        m * (s.tasks.countP (·.phase = .calling) + ((s.detached - 1 : ℕ) : ℚ)) ≤
        s.bound c m balanceMicros
      rw [List.sum_append, List.sum_singleton, hone]
      linarith }

/-- The call of a cancelled task raises. -/
theorem Inv.detachedRaises (h : Inv c m balanceMicros s) (hm : 0 ≤ m)
    (hdetached : 0 < s.detached) :
    Inv c m balanceMicros { s with detached := s.detached - 1 } := by
  have hone : ((s.detached - 1 : ℕ) : ℚ) = s.detached - 1 := by
    rw [Nat.cast_sub hdetached, Nat.cast_one]
  exact { h with
    dropped := by
      have hdropped := h.dropped
      simp only [hone]
      linarith
    total := by
      have htotal := h.total
      change s.completed.sum +
        m * (s.tasks.countP (·.phase = .calling) + ((s.detached - 1 : ℕ) : ℚ)) ≤
        s.bound c m balanceMicros
      rw [hone]
      linarith }

/-- Between two calls of `enrich_columns_async` there are no tasks. -/
theorem Inv.finish (h : Inv c m balanceMicros s) (hm : 0 ≤ m) {b : Batch}
    (hb : s.batch = some b) (hfinal : b.tasks.all (·.phase.isFinal) = true) :
    Inv c m balanceMicros { s with batch := none } where
  slots := nofun
  costs := nofun
  capReached := nofun
  balance := by
    have hbalance := h.balance
    have hnone : unrecordedUsd b.tasks = 0 := by
      rw [unrecordedUsd, List.filterMap_eq_nil_iff.mpr, List.sum_nil]
      intro t ht
      have := List.all_eq_true.mp hfinal t ht
      cases hphase : t.phase <;> rw [hphase] at this <;> first | rfl | cases this
    rw [tasks_eq hb, hnone] at hbalance
    exact hbalance
  dropped := h.dropped
  ledger := h.ledger
  spent := h.spent
  droppedCalls hbelow := (Nat.add_le_add_left (Nat.zero_le _) _).trans (h.droppedCalls hbelow)
  total := by
    refine le_trans ?_ h.total
    have : (0 : ℚ) ≤ m * s.tasks.countP (·.phase = .calling) := by positivity
    simp only [Pipeline.tasks, Option.map_none, Option.getD_none, List.countP_nil, Nat.cast_zero]
    change s.completed.sum + m * (0 + s.detached) ≤ s.completed.sum +
      m * (s.tasks.countP (·.phase = .calling) + s.detached)
    linarith

/-- The tasks of a call all start by waiting. -/
theorem Inv.start (h : Inv c m balanceMicros s) (hnone : s.batch = none) (columns : List String) :
    Inv c m balanceMicros (s.setBatch (.start c columns)) := by
  have hwaiting : ∀ t ∈ (Batch.start c columns).tasks, t.phase = .waiting := by
    intro t ht
    obtain ⟨column, -, rfl⟩ := List.mem_map.mp ht
    rfl
  have hcount (p : Phase → Bool) (hp : p .waiting = false) :
      (Batch.start c columns).tasks.countP (fun t => p t.phase) = 0 := by
    rw [List.countP_eq_zero]
    intro t ht
    rw [hwaiting t ht, hp]
    exact Bool.false_ne_true
  have htasks : s.tasks = [] := by simp [Pipeline.tasks, hnone]
  have hbalance := h.balance
  have htotal := h.total
  rw [htasks] at hbalance htotal
  exact {
    slots := by
      rintro b ⟨rfl⟩ tier
      rw [List.countP_eq_zero.mpr]
      · exact le_rfl
      · intro t ht
        simp [hwaiting t ht, Phase.holdsSlot]
    costs := fun t ht costUsd hcost => by
      rw [hwaiting t ht] at hcost
      cases hcost
    capReached := fun t ht hphase => by
      rw [hwaiting t ht] at hphase
      cases hphase
    balance := by
      have hzero : unrecordedUsd (Batch.start c columns).tasks = 0 := by
        rw [unrecordedUsd, List.filterMap_eq_nil_iff.mpr, List.sum_nil]
        intro t ht
        rw [hwaiting t ht]
        rfl
      change s.completed.sum = s.recorded.sum + unrecordedUsd (Batch.start c columns).tasks +
        s.dropped.sum
      rw [hzero]
      exact hbalance
    dropped := h.dropped
    ledger := h.ledger
    spent := h.spent
    droppedCalls := fun hbelow => by
      have hzero : droppable c (Batch.start c columns).tasks = 0 := by
        refine if_neg fun hfailed => ?_
        obtain ⟨t, ht, hfailed⟩ := List.any_eq_true.mp hfailed.1
        rw [hwaiting t ht] at hfailed
        cases hfailed
      change s.droppedCalls + droppable c (Batch.start c columns).tasks ≤ _
      rw [hzero]
      exact (Nat.le_add_right ..).trans (h.droppedCalls hbelow)
    total := by
      change s.completed.sum +
        m * (((Batch.start c columns).tasks.countP (·.phase = .calling) : ℕ) + s.detached) ≤
          s.bound c m balanceMicros
      rw [hcount (· = .calling) rfl]
      exact htotal }

/-- Every step keeps the invariant. -/
theorem Inv.step (h : Inv c m balanceMicros s) (hm : 0 ≤ m) {a : Action}
    (hcost : CostsAtMost m s a) (hstep : step c s a = some s') : Inv c m balanceMicros s' := by
  cases a with
  | enrichColumns columns =>
    cases hb : s.batch with
    | some b => simp [Enrichment.step, hb] at hstep
    | none =>
      simp only [Enrichment.step, hb] at hstep
      split at hstep <;> obtain rfl := Option.some.inj hstep
      · exact h
      · exact h.start hb columns
  | enter i =>
    simp only [Enrichment.step, Option.bind_eq_bind, Option.bind_eq_some_iff] at hstep
    obtain ⟨b, hb, t, ht, hstep⟩ := hstep
    split at hstep
    · next hready =>
      split at hstep <;> obtain rfl := Option.some.inj hstep
      · next hcap => exact h.enter_capReached hb ht hready.1 hcap
      · next hcap => exact h.enter_call hm hb ht hready.1 hready.2 (not_le.mp hcap)
    · cases hstep
  | callReturns i costUsd =>
    simp only [Enrichment.step, Option.bind_eq_bind, Option.bind_eq_some_iff] at hstep
    obtain ⟨b, hb, t, ht, hstep⟩ := hstep
    split at hstep
    · next hphase =>
      obtain rfl := Option.some.inj hstep
      exact h.callReturns hb ht hphase hcost
    · cases hstep
  | callRaises i =>
    simp only [Enrichment.step, Option.bind_eq_bind, Option.bind_eq_some_iff] at hstep
    obtain ⟨b, hb, t, ht, hstep⟩ := hstep
    split at hstep
    · next hphase =>
      obtain rfl := Option.some.inj hstep
      exact h.callRaises hm hb ht hphase
    · cases hstep
  | resume i ledgerOk =>
    simp only [Enrichment.step, Option.bind_eq_bind, Option.bind_eq_some_iff] at hstep
    obtain ⟨b, hb, t, ht, hstep⟩ := hstep
    split at hstep
    · next costUsd hphase =>
      split at hstep <;> obtain rfl := Option.some.inj hstep
      · next recorded hrecord =>
        unfold Pipeline.validateAndRecord at hrecord
        split at hrecord
        · cases hrecord
        · exact h.resume_recorded hb ht hphase hrecord
      · exact h.resume_dropped hm hb ht hphase
    · next hphase =>
      obtain rfl := Option.some.inj hstep
      exact h.resume_raised hb ht hphase
    · cases hstep
  | abort =>
    simp only [Enrichment.step, Option.bind_eq_bind, Option.bind_eq_some_iff] at hstep
    obtain ⟨b, hb, hstep⟩ := hstep
    split at hstep
    · next hfailure =>
      obtain rfl := Option.some.inj hstep
      exact h.abort hb hfailure
    · cases hstep
  | detachedReturns costUsd =>
    simp only [Enrichment.step] at hstep
    split at hstep
    · next hdetached =>
      obtain rfl := Option.some.inj hstep
      exact h.detachedReturns hdetached hcost.2
    · cases hstep
  | detachedRaises =>
    simp only [Enrichment.step] at hstep
    split at hstep
    · next hdetached =>
      obtain rfl := Option.some.inj hstep
      exact h.detachedRaises hm hdetached
    · cases hstep
  | finish =>
    simp only [Enrichment.step, Option.bind_eq_bind, Option.bind_eq_some_iff] at hstep
    obtain ⟨b, hb, hstep⟩ := hstep
    split at hstep
    · next hfinal =>
      obtain rfl := Option.some.inj hstep
      exact h.finish hm hb hfinal
    · cases hstep

theorem inv_of_reachable (hm : 0 ≤ m) (h : Reachable c m balanceMicros s) :
    Inv c m balanceMicros s :=
  h.invariant (step c) (inv_constructed hm) fun hinv hcost hstep => hinv.step hm hcost hstep

/-! ## The results -/

/-- What the pipeline promises of its cap: a call starts only below it, by what is recorded; the
calls that have returned cost no more than the cap, one call for each slot, what failed calls
dropped, and what the ledger rounds away; and the ledger is the sum of the rounded costs. -/
structure CapKept (c : Config) (m : ℚ) (balanceMicros : Option Nat) (s : Pipeline) : Prop where
  starts : ∀ a s', step c s a = some s' → s.startedCalls < s'.startedCalls →
    s.spentUsd < c.maxCostUsd
  spent : s.spentUsd = (balanceMicros.getD 0 : Nat) / microsPerUsd +
    (s.recorded.map (recordedAmount balanceMicros)).sum
  total : s.completed.sum ≤ c.maxCostUsd + c.concurrency * m +
    (c.concurrency + 1) * s.failedCalls * m + s.recorded.length * hiddenUsd balanceMicros
  ledger : s.ledgerMicros = balanceMicros.map fun (micros : Nat) =>
    (micros : ℤ) + (s.recorded.map amountMicros).sum

/-- Only a task that enters its semaphore below the cap starts a call. -/
theorem startedCalls_lt {a : Action} (hstep : step c s a = some s')
    (hstarted : s.startedCalls < s'.startedCalls) : s.spentUsd < c.maxCostUsd := by
  by_contra hreached
  have hcap := not_lt.mp hreached
  have hsame : s'.startedCalls = s.startedCalls := by
    cases a with
    | enter i =>
      simp only [step, Option.bind_eq_bind, Option.bind_eq_some_iff, hcap, if_true] at hstep
      obtain ⟨b, -, t, -, hstep⟩ := hstep
      split at hstep
      · obtain rfl := Option.some.inj hstep
        rfl
      · cases hstep
    | resume i ledgerOk =>
      simp only [step, Option.bind_eq_bind, Option.bind_eq_some_iff] at hstep
      obtain ⟨b, -, t, -, hstep⟩ := hstep
      split at hstep
      · split at hstep <;> obtain rfl := Option.some.inj hstep
        · next recorded hrecord =>
          unfold Pipeline.validateAndRecord Pipeline.recordSpend at hrecord
          split at hrecord
          · cases hrecord
          · split at hrecord
            · obtain rfl := Option.some.inj hrecord
              rfl
            · split at hrecord
              · obtain rfl := Option.some.inj hrecord
                rfl
              · cases hrecord
        · rfl
      · obtain rfl := Option.some.inj hstep
        rfl
      · cases hstep
    | enrichColumns columns =>
      simp only [step] at hstep
      split at hstep
      · cases hstep
      · split at hstep <;> obtain rfl := Option.some.inj hstep <;> rfl
    | callReturns i costUsd | callRaises i =>
      simp only [step, Option.bind_eq_bind, Option.bind_eq_some_iff] at hstep
      obtain ⟨b, -, t, -, hstep⟩ := hstep
      split at hstep
      · obtain rfl := Option.some.inj hstep
        rfl
      · cases hstep
    | abort | finish =>
      simp only [step, Option.bind_eq_bind, Option.bind_eq_some_iff] at hstep
      obtain ⟨b, -, hstep⟩ := hstep
      split at hstep
      · obtain rfl := Option.some.inj hstep
        rfl
      · cases hstep
    | detachedReturns costUsd | detachedRaises =>
      simp only [step] at hstep
      split at hstep
      · obtain rfl := Option.some.inj hstep
        rfl
      · cases hstep
  omega

/-- The cap under every schedule of every sequence of calls. -/
theorem costCap_kept (hm : 0 ≤ m) (h : Reachable c m balanceMicros s) :
    CapKept c m balanceMicros s := by
  have hinv := inv_of_reachable hm h
  refine ⟨fun _ _ hstep hstarted => startedCalls_lt hstep hstarted, hinv.spent, ?_, hinv.ledger⟩
  have htotal := hinv.total
  have : 0 ≤ m * (s.tasks.countP (·.phase = .calling) + s.detached) := by positivity
  unfold Pipeline.bound at htotal
  linarith

instance (m : ℚ) (s : Pipeline) : (a : Action) → Decidable (CostsAtMost m s a)
  | .callReturns _ costUsd | .detachedReturns costUsd =>
    inferInstanceAs (Decidable (0 ≤ costUsd ∧ costUsd ≤ m))
  | .enrichColumns _ | .enter _ | .callRaises _ | .resume _ _ | .abort | .detachedRaises
  | .finish => .isTrue trivial

/-- A cap of one micro-dollar, and one call at a time. -/
def tinyCap : Config where
  maxCostUsd := 1 / 1000000
  defaultConcurrency := 1
  crypticConcurrency := 1
  tierOf _ := .standard
  maxCost_nonneg := by norm_num
  defaultConcurrency_pos := le_rfl
  crypticConcurrency_pos := le_rfl

/-- Four tenths of a micro-dollar. -/
def tinyCost : ℚ := 4 / 10000000

/-- Five columns, one after the other, that cost four tenths of a micro-dollar each. -/
def tinyRun : List Action :=
  .enrichColumns ["a", "b", "c", "d", "e"] ::
    (List.range 5).flatMap fun i => [.enter i, .callReturns i tinyCost, .resume i true]

private theorem tinyRun_reaches : ∃ s, Reachable tinyCap tinyCost (some 0) s ∧
    s.completed = List.replicate 5 tinyCost ∧ s.failedCalls = 0 := by
  have hrun : (runTrace (guarded (step tinyCap) (CostsAtMost tinyCost)) (constructed (some 0))
      tinyRun).map (fun s => (s.completed, s.failedCalls)) =
      some (List.replicate 5 tinyCost, 0) := by decide +kernel
  obtain ⟨s, hs, heq⟩ := Option.map_eq_some_iff.mp hrun
  have := Prod.mk.inj heq
  exact ⟨s, .of_trace (step tinyCap) .refl hs, this.1, this.2⟩

theorem costCap_kept_tiny : ∃ s, s.completed = List.replicate 5 tinyCost ∧
    CapKept tinyCap tinyCost (some 0) s := by
  obtain ⟨s, hreachable, hcompleted, -⟩ := tinyRun_reaches
  exact ⟨s, hcompleted, costCap_kept (by norm_num [tinyCost]) hreachable⟩

/-- The same promise, of what calls cost instead of what is recorded of them. -/
structure CapKeptExactly (c : Config) (m : ℚ) (balanceMicros : Option Nat) (s : Pipeline) :
    Prop where
  starts : ∀ a s', step c s a = some s' → s.startedCalls < s'.startedCalls →
    s.completed.sum < c.maxCostUsd
  total : s.completed.sum ≤ c.maxCostUsd + c.concurrency * m
  ledger : s.failedCalls = 0 → s.ledgerMicros.map (fun micros => (micros : ℚ) / microsPerUsd) =
    balanceMicros.map fun (micros : Nat) => (micros : ℚ) / microsPerUsd + s.recorded.sum

/-- The ledger rounds costs below half a micro-dollar to nothing: the calls never stop. -/
theorem not_costCap_exact : ¬∀ c m balanceMicros s, 0 ≤ m → Reachable c m balanceMicros s →
    CapKeptExactly c m balanceMicros s := by
  intro h
  obtain ⟨s, hreachable, hcompleted, -⟩ := tinyRun_reaches
  have htotal := (h tinyCap tinyCost (some 0) s (by norm_num [tinyCost]) hreachable).total
  rw [hcompleted] at htotal
  norm_num [tinyCap, tinyCost, Config.concurrency] at htotal

end SchemaBrain.Enrichment
