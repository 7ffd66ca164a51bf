import Mathlib.Logic.Function.Basic
import SchemaBrain.Base.Run
import SchemaBrain.Core.SemanticWrites

/-!
# The ownership guard between connections

`write_entity` and `write_metric` on several connections to one file. The SELECT of the guard
runs in autocommit, and the transaction opens at the UPSERT, which takes the write lock: another
connection may commit in between.
-/

namespace SchemaBrain.Core

open Base

variable {P : MeasureExpressions} {C : Type} [DecidableEq C]

/-! ## Guarded calls -/

/-- A call of an operation that has the guard. -/
inductive GuardedCall (P : MeasureExpressions)
  | writeEntity (sourceConnectionId : String) (entity : EntityRecord)
  | writeMetric (sourceConnectionId : String) (metric : MetricRecord P)

/-- A row that dbt may own. -/
inductive OwnedRow
  | entity (key : String × String)
  | metric (key : String × String)
  deriving DecidableEq

/-- `SELECT origin FROM ... WHERE source_connection_id = ? AND name = ?`. -/
def SemanticStore.originOf (s : SemanticStore) : OwnedRow → Option String
  | .entity key => (rowOf EntityRow.key s.entities key).map (·.origin)
  | .metric key => (rowOf MetricRow.key s.metrics key).map (·.origin)

namespace GuardedCall

/-- The row under the name of the call. -/
def target : GuardedCall P → OwnedRow
  | .writeEntity sid entity => .entity (sid, entity.name)
  | .writeMetric sid metric => .metric (sid, metric.name)

/-- The origin that the call carries. -/
def origin : GuardedCall P → Origin
  | .writeEntity _ entity => entity.origin
  | .writeMetric _ metric => metric.origin

/-- The UPSERT of the call. -/
def upsert (s : SemanticStore) : GuardedCall P → Except StoreError SemanticStore
  | .writeEntity sid entity => s.upsertEntity (entity.row sid)
  | .writeMetric sid metric => s.upsertMetric (metric.row sid)

/-- The call on one connection alone. -/
def run (s : SemanticStore) : GuardedCall P → SemanticStore × Except StoreError Unit
  | .writeEntity sid entity => s.writeEntity sid entity
  | .writeMetric sid metric => s.writeMetric sid metric

/-- A returned UPSERT gives its row the origin of the call, and keeps every other. -/
theorem originOf_upsert {s s' : SemanticStore} {call : GuardedCall P}
    (h : call.upsert s = .ok s') (row : OwnedRow) :
    s'.originOf row = if call.target = row then some (word call.origin) else s.originOf row := by
  cases call with
  | writeEntity sid entity =>
    obtain ⟨hentities, -, hmetrics⟩ := SemanticStore.upsertEntity_ok h
    cases row with
    | entity key =>
      rw [SemanticStore.originOf, hentities,
        rowOf_upsertRow_of_carried EntityRow.update_key fun _ => EntityRow.update_eq,
        EntityRecord.key_row]
      simp only [target, origin, OwnedRow.entity.injEq]
      split <;> rfl
    | metric key => simp [SemanticStore.originOf, hmetrics, target]
  | writeMetric sid metric =>
    obtain ⟨hmetrics, hentities, -⟩ := SemanticStore.upsertMetric_ok h
    cases row with
    | entity key => simp [SemanticStore.originOf, hentities, target]
    | metric key =>
      rw [SemanticStore.originOf, hmetrics, rowOf_upsertRow MetricRow.update_key,
        MetricRecord.key_row]
      simp only [target, origin, OwnedRow.metric.injEq]
      split
      · cases rowOf MetricRow.key s.metrics key <;> rfl
      · rfl

/-- A call that returns passed the guard and ran its UPSERT. -/
theorem run_ok {s s' : SemanticStore} {call : GuardedCall P} (h : call.run s = (s', .ok ())) :
    SemanticStore.dbtOwned (s.originOf call.target) call.origin = false ∧
      call.upsert s = .ok s' := by
  cases call with
  | writeEntity sid entity => exact SemanticStore.writeEntity_ok h
  | writeMetric sid metric => exact SemanticStore.writeMetric_ok h

end GuardedCall

/-! ## Connections -/

/-- Where a connection is in a call: between calls, after the SELECT with what it read, or after
the UPSERT in an open transaction. -/
inductive Phase (P : MeasureExpressions)
  | idle
  | selected (call : GuardedCall P) (existing : Option String)
  | written (call : GuardedCall P)

/-- The committed rows, every connection, and what the holder of the write lock wrote. -/
structure Connections (C : Type) (P : MeasureExpressions) where
  committed : SemanticStore
  phase : C → Phase P
  pending : Option (C × SemanticStore)

/-- A statement of one connection. -/
inductive Statement (C : Type) (P : MeasureExpressions)
  | select (conn : C) (call : GuardedCall P)
  | upsert (conn : C)
  | busy (conn : C)
  | commit (conn : C)
  | rollback (conn : C)

namespace Connections

/-- A connection that is between calls. -/
def done (s : Connections C P) (conn : C) : C → Phase P := Function.update s.phase conn .idle

/-- The next statement of a connection. -/
def step (s : Connections C P) : Statement C P → Option (Connections C P)
  | .select conn call =>
    match s.phase conn with
    | .idle =>
      let existing := s.committed.originOf call.target
      if SemanticStore.dbtOwned existing call.origin then some { s with phase := s.done conn }
      else some { s with phase := Function.update s.phase conn (.selected call existing) }
    | _ => none
  | .upsert conn =>
    match s.phase conn, s.pending with
    | .selected call _, none =>
      match call.upsert s.committed with
      | .ok store => some { s with
          phase := Function.update s.phase conn (.written call)
          pending := some (conn, store) }
      | .error _ => some { s with phase := s.done conn }
    | _, _ => none
  -- Another connection holds the write lock until the timeout.
  | .busy conn =>
    match s.phase conn, s.pending with
    | .selected _ _, some _ => some { s with phase := s.done conn }
    | _, _ => none
  | .commit conn =>
    match s.pending with
    | some (holder, store) =>
      if holder = conn then some { committed := store, phase := s.done conn, pending := none }
      else none
    | none => none
  | .rollback conn =>
    match s.pending with
    | some (holder, _) =>
      if holder = conn then some { s with phase := s.done conn, pending := none } else none
    | none => none

/-- Connections to one file, between calls. -/
def opened (store : SemanticStore) : Connections C P := ⟨store, fun _ => .idle, none⟩

/-- What one connection does without the others is its call. -/
theorem runTrace_alone {s : Connections C P} {conn : C} {call : GuardedCall P}
    {store : SemanticStore} (hidle : s.phase conn = .idle) (hlock : s.pending = none)
    (hrun : call.run s.committed = (store, .ok ())) :
    runTrace step s [.select conn call, .upsert conn, .commit conn] =
      some { s with committed := store } := by
  obtain ⟨hguard, hupsert⟩ := GuardedCall.run_ok hrun
  have hphase : Function.update s.phase conn .idle = s.phase := by
    rw [← hidle, Function.update_eq_self]
  simp [runTrace, step, done, hidle, hlock, hguard, hupsert, hphase]

end Connections

/-! ## Rows that stay dbt's -/

/-- No row of the first store that is dbt's is under another origin in the second. -/
def KeepsDbtOrigins (s s' : SemanticStore) : Prop :=
  ∀ row, s.originOf row = some "dbt_import" → s'.originOf row = some "dbt_import"

namespace Connections

/-- When a call that is not dbt's runs its UPSERT, no import of the name has been committed
since its SELECT. -/
def guardCurrent (s : Connections C P) : Statement C P → Bool
  | .upsert conn =>
    match s.phase conn with
    | .selected call existing =>
      call.origin = .dbtImport || s.committed.originOf call.target ≠ some "dbt_import" ||
        existing = some "dbt_import"
    | _ => true
  | _ => true

/-- The interleavings under the condition. -/
def GuardCurrent (s : Connections C P) (a : Statement C P) : Prop := guardCurrent s a = true

instance (s : Connections C P) : DecidablePred (GuardCurrent s) :=
  fun _ => inferInstanceAs (Decidable (_ = true))

/-- A connection after its SELECT passed the guard, and what waits for its COMMIT keeps dbt's
rows. -/
structure Guarded (s : Connections C P) : Prop where
  selected : ∀ conn call existing, s.phase conn = .selected call existing →
    SemanticStore.dbtOwned existing call.origin = false
  pending : ∀ conn store, s.pending = some (conn, store) → KeepsDbtOrigins s.committed store

variable {s s' : Connections C P}

private theorem selected_of_update {conn conn' : C} {p : Phase P} {call : GuardedCall P}
    {existing : Option String} (h : Guarded s)
    (hp : p = .selected call existing → SemanticStore.dbtOwned existing call.origin = false)
    (hphase : Function.update s.phase conn p conn' = .selected call existing) :
    SemanticStore.dbtOwned existing call.origin = false := by
  rw [Function.update_apply] at hphase
  split at hphase
  · exact hp hphase
  · exact h.selected conn' call existing hphase

/-- A stored row that the call may write is not lost by its UPSERT. -/
private theorem keepsDbtOrigins_upsert {store store' : SemanticStore} {call : GuardedCall P}
    (h : call.upsert store = .ok store')
    (hguard : call.origin ≠ .dbtImport → store.originOf call.target ≠ some "dbt_import") :
    KeepsDbtOrigins store store' := by
  intro row hrow
  rw [GuardedCall.originOf_upsert h]
  split
  · next htarget =>
    have horigin : call.origin = .dbtImport := by
      by_contra hne
      exact hguard hne (htarget ▸ hrow)
    rw [horigin]
    rfl
  · exact hrow

omit [DecidableEq C] in
theorem guarded_opened (store : SemanticStore) : Guarded (opened (C := C) (P := P) store) where
  selected := by simp [opened]
  pending := by simp [opened]

/-- A statement under the condition keeps the invariant, and dbt's committed rows. -/
theorem guarded_step {a : Statement C P} (h : Guarded s) (hcurrent : GuardCurrent s a)
    (hstep : step s a = some s') : Guarded s' ∧ KeepsDbtOrigins s.committed s'.committed := by
  cases a with
  | select conn call =>
    simp only [step] at hstep
    split at hstep
    · split at hstep
      · obtain rfl := Option.some.inj hstep
        exact ⟨⟨fun _ _ _ => selected_of_update h (by simp), h.pending⟩, fun _ => id⟩
      · next hguard =>
        obtain rfl := Option.some.inj hstep
        refine ⟨⟨fun _ _ _ => selected_of_update h fun heq => ?_, h.pending⟩, fun _ => id⟩
        obtain ⟨rfl, rfl⟩ := Phase.selected.inj heq
        exact Bool.eq_false_iff.2 hguard
    · cases hstep
  | upsert conn =>
    simp only [step] at hstep
    split at hstep
    · next call existing hphase hlock =>
      split at hstep
      · next store hupsert =>
        obtain rfl := Option.some.inj hstep
        refine ⟨⟨fun _ _ _ => selected_of_update h (by simp), ?_⟩, fun _ => id⟩
        intro conn' store' hpending
        obtain ⟨-, rfl⟩ := Prod.mk.inj (Option.some.inj hpending)
        refine keepsDbtOrigins_upsert hupsert fun horigin hdbt => ?_
        have hexisting : existing = some "dbt_import" := by
          simpa [GuardCurrent, guardCurrent, hphase, horigin, hdbt] using hcurrent
        have hguard := h.selected conn call existing hphase
        simp [SemanticStore.dbtOwned, hexisting, horigin] at hguard
      · obtain rfl := Option.some.inj hstep
        exact ⟨⟨fun _ _ _ => selected_of_update h (by simp), h.pending⟩, fun _ => id⟩
    · cases hstep
  | busy conn =>
    simp only [step] at hstep
    split at hstep
    · obtain rfl := Option.some.inj hstep
      exact ⟨⟨fun _ _ _ => selected_of_update h (by simp), h.pending⟩, fun _ => id⟩
    · cases hstep
  | commit conn =>
    simp only [step] at hstep
    split at hstep
    · next holder store hpending =>
      split at hstep
      · obtain rfl := Option.some.inj hstep
        exact ⟨⟨fun _ _ _ => selected_of_update h (by simp), by simp⟩,
          h.pending holder store hpending⟩
      · cases hstep
    · cases hstep
  | rollback conn =>
    simp only [step] at hstep
    split at hstep
    · split at hstep
      · obtain rfl := Option.some.inj hstep
        exact ⟨⟨fun _ _ _ => selected_of_update h (by simp), by simp⟩, fun _ => id⟩
      · cases hstep
    · cases hstep

/-- In every interleaving in which no call runs its UPSERT on a stale guard, a committed row that
is dbt's stays dbt's. -/
theorem dbtRows_kept {store : SemanticStore}
    (hrun : Reaches step GuardCurrent (opened store) s) (hlater : Reaches step GuardCurrent s s') :
    KeepsDbtOrigins s.committed s'.committed := by
  have hguarded : Guarded s :=
    hrun.invariant step (guarded_opened store) fun h hcurrent hstep =>
      (guarded_step h hcurrent hstep).1
  have hkept : Guarded s' ∧ KeepsDbtOrigins s.committed s'.committed := by
    refine hlater.invariant step (I := fun s' => Guarded s' ∧
      KeepsDbtOrigins s.committed s'.committed) ⟨hguarded, fun _ => id⟩ ?_
    rintro s₁ s₂ a ⟨h, hkeeps⟩ hcurrent hstep
    obtain ⟨h', hkeeps'⟩ := guarded_step h hcurrent hstep
    exact ⟨h', fun row hrow => hkeeps' row (hkeeps row hrow)⟩
  exact hkept.2

/-- Outside the condition, what an UPSERT leaves to its COMMIT overwrites a row that is dbt's. -/
theorem not_keeps_of_stale {conn : C} {call : GuardedCall P} {existing : Option String}
    (hphase : s.phase conn = .selected call existing) (horigin : call.origin ≠ .dbtImport)
    (hdbt : s.committed.originOf call.target = some "dbt_import")
    (hstep : step s (.upsert conn) = some s') {store : SemanticStore}
    (hpending : s'.pending = some (conn, store)) : ¬ KeepsDbtOrigins s.committed store := by
  intro hkeeps
  simp only [step, hphase] at hstep
  split at hstep
  · next call' existing' hcall hlock =>
    obtain ⟨rfl, rfl⟩ := Phase.selected.inj hcall
    split at hstep
    · next store' hupsert =>
      obtain rfl := Option.some.inj hstep
      obtain ⟨-, rfl⟩ := Prod.mk.inj (Option.some.inj hpending)
      have hrow := hkeeps call.target hdbt
      rw [GuardedCall.originOf_upsert hupsert, if_pos rfl] at hrow
      exact horigin (Literal.word_injective (Option.some.inj hrow))
    · obtain rfl := Option.some.inj hstep
      simp [hlock] at hpending
  · cases hstep

end Connections

/-! ## An import between SELECT and UPSERT -/

/-- An entity `order` of some origin. -/
def orderFrom (origin : Origin) : GuardedCall columnsOnly :=
  .writeEntity "pg" { onOrders "order" (Eq.refl true) with origin := origin }

/-- A store with the table `public.orders`. -/
def ordersOnly : SemanticStore := .emptyOn [("pg", ⟨"public", "orders"⟩)]

/-- The row of that entity. -/
def orderRow : OwnedRow := .entity ("pg", "order")

private def importTrace : List (Statement Bool columnsOnly) :=
  [.select true (orderFrom .dbtImport), .upsert true, .commit true]

open Connections in
/-- A manual write after an import is refused. -/
theorem dbtRows_kept_order : ∃ s s' : Connections Bool columnsOnly,
    s.committed.originOf orderRow = some "dbt_import" ∧
      runTrace step s [.select false (orderFrom .manual)] = some s' ∧
      s'.committed.originOf orderRow = some "dbt_import" := by
  have htrace : ((runTrace (guarded step GuardCurrent) (opened ordersOnly) importTrace).bind
      fun s => if s.committed.originOf orderRow = some "dbt_import" then
        runTrace (guarded step GuardCurrent) s [.select false (orderFrom .manual)]
      else none).isSome = true := by
    decide
  obtain ⟨s', hs'⟩ := Option.isSome_iff_exists.1 htrace
  obtain ⟨s, himport, hlater⟩ := Option.bind_eq_some_iff.1 hs'
  split at hlater
  · next hdbt =>
    refine ⟨s, s', hdbt, hlater, ?_⟩
    exact dbtRows_kept (Reaches.of_trace step .refl himport) (Reaches.of_trace step .refl hlater)
      orderRow hdbt
  · cases hlater

open Connections in
/-- A manual write reads no row, an import commits one, and the manual write replaces it. -/
theorem not_dbtRows_kept : ¬ ∀ (store : SemanticStore) (s s' : Connections Bool columnsOnly),
    Reaches step (fun _ _ => True) (opened store) s → Reaches step (fun _ _ => True) s s' →
      KeepsDbtOrigins s.committed s'.committed := by
  intro hall
  have htrace : ((runTrace (guarded step fun _ _ => True) (opened ordersOnly)
      (.select false (orderFrom .manual) :: importTrace)).bind
      fun s => if s.committed.originOf orderRow = some "dbt_import" then
        (runTrace (guarded step fun _ _ => True) s [.upsert false, .commit false]).filter
          fun s' => s'.committed.originOf orderRow = some "manual"
      else none).isSome = true := by
    decide
  obtain ⟨s', hs'⟩ := Option.isSome_iff_exists.1 htrace
  obtain ⟨s, himport, hlater⟩ := Option.bind_eq_some_iff.1 hs'
  split at hlater
  · next hdbt =>
    obtain ⟨hlater, hmanual⟩ := Option.filter_eq_some_iff.1 hlater
    have hkept := hall ordersOnly s s' (Reaches.of_trace step .refl himport)
      (Reaches.of_trace step .refl hlater) orderRow hdbt
    rw [of_decide_eq_true hmanual] at hkept
    exact absurd hkept (by decide)
  · cases hlater

end SchemaBrain.Core
