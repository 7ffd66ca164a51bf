import SchemaBrain.Base.KeyedRows
import SchemaBrain.Core.SemanticRecords

/-!
# Writes of the semantic layer

`write_entity`, `write_canonical_join`, `write_metric` and `delete_metric` on the rows of one
store, statement by statement, and what a name reads as after any run of them.
-/

namespace SchemaBrain.Core

open Base

/-! ## The rows of a store -/

/-- The primary key of a row. -/
def EntityRow.key (r : EntityRow) : String × String := (r.sourceConnectionId, r.name)

/-- The key of the table that an entity is bound to. -/
def EntityRow.bound (r : EntityRow) : String × QualifiedTable :=
  (r.sourceConnectionId, ⟨r.bindingSchema, r.bindingTable⟩)

/-- The primary key of a row. -/
def JoinRow.key (r : JoinRow) : String × String := (r.sourceConnectionId, r.name)

/-- The key of the source entity. -/
def JoinRow.source (r : JoinRow) : String × String := (r.sourceConnectionId, r.sourceEntity)

/-- The key of the target entity. -/
def JoinRow.target (r : JoinRow) : String × String := (r.sourceConnectionId, r.targetEntity)

/-- The primary key of a row. -/
def MetricRow.key (r : MetricRow) : String × String := (r.sourceConnectionId, r.name)

/-- The key of the anchor entity. -/
def MetricRow.anchor (r : MetricRow) : String × String := (r.sourceConnectionId, r.entity)

@[simp] theorem EntityRecord.key_row (sid : String) (e : EntityRecord) :
    (e.row sid).key = (sid, e.name) := rfl

@[simp] theorem JoinRecord.key_row (sid : String) (j : JoinRecord) :
    (j.row sid).key = (sid, j.name) := rfl

@[simp] theorem MetricRecord.key_row {P : MeasureExpressions} (sid : String) (m : MetricRecord P) :
    (m.row sid).key = (sid, m.name) := rfl

/-- The tables and the semantic rows of every source, under the primary and foreign keys. -/
structure SemanticStore where
  tables : List (String × QualifiedTable)
  entities : List EntityRow
  canonicalJoins : List JoinRow
  metrics : List MetricRow
  entities_key : (entities.map EntityRow.key).Nodup := by decide
  joins_key : (canonicalJoins.map JoinRow.key).Nodup := by decide
  metrics_key : (metrics.map MetricRow.key).Nodup := by decide
  entities_bound : ∀ e ∈ entities, e.bound ∈ tables := by decide
  joins_source : ∀ j ∈ canonicalJoins, j.source ∈ entities.map EntityRow.key := by decide
  joins_target : ∀ j ∈ canonicalJoins, j.target ∈ entities.map EntityRow.key := by decide
  metrics_anchored : ∀ m ∈ metrics, m.anchor ∈ entities.map EntityRow.key := by decide

/-- What a call raises. -/
inductive StoreError
  | dbtOwnedEntity (message : String)
  | dbtOwnedMetric (message : String)
  | integrity
  deriving DecidableEq, Repr

/-! ## CHECK constraints -/

/-- `CHECK (origin IN (...))` of the three tables. -/
def originWords : List String := ["manual", "suggested", "dbt_import"]

/-- `CHECK (inference_method IN (...))` of the three tables. -/
def inferenceMethodWords : List String :=
  ["manually_authored", "llm_suggested", "fk_constraint", "dbt_import", "observed_in_query_log"]

/-- `CHECK (validation_state IN (...))` of the three tables. -/
def validationStateWords : List String := ["draft", "applied", "confirmed"]

/-- `CHECK (... IS NULL OR ... IN (...))`. -/
def nullOrIn (words : List String) (value : Option String) : Bool := value.all (· ∈ words)

/-- The constraints of `entities`. -/
def EntityRow.checks (r : EntityRow) : Bool :=
  r.origin ∈ originWords && r.inferenceMethod ∈ inferenceMethodWords &&
    r.validationState ∈ validationStateWords &&
    nullOrIn ["high", "medium", "low"] r.bindConfidence

/-- The constraints of `canonical_joins`. -/
def JoinRow.checks (r : JoinRow) : Bool :=
  r.origin ∈ originWords && r.inferenceMethod ∈ inferenceMethodWords &&
    r.validationState ∈ validationStateWords &&
    nullOrIn ["one_to_one", "one_to_many", "many_to_one", "many_to_many"] r.cardinality

/-- The constraints of `metrics`: one of column and expression, not both. -/
def MetricRow.checks (r : MetricRow) : Bool :=
  r.measureAgg ∈ ["sum", "count", "count_distinct", "avg", "min", "max"] &&
    r.origin ∈ originWords && r.inferenceMethod ∈ inferenceMethodWords &&
    r.validationState ∈ validationStateWords &&
    (r.measureColumn.isSome && r.measureExpression.isNone ||
      r.measureColumn.isNone && r.measureExpression.isSome)

private theorem word_mem_origins (o : Origin) : word o ∈ originWords := by cases o <;> decide

private theorem word_mem_inferenceMethods (m : InferenceMethod) :
    word m ∈ inferenceMethodWords := by
  cases m <;> decide

private theorem word_mem_validationStates (v : ValidationState) :
    word v ∈ validationStateWords := by
  cases v <;> decide

/-- Every entity passes the constraints of its table. -/
theorem EntityRecord.checks_row (sourceConnectionId : String) (e : EntityRecord) :
    (e.row sourceConnectionId).checks = true := by
  have hconfidence : nullOrIn ["high", "medium", "low"] (e.bindConfidence.map word) = true := by
    cases e.bindConfidence with
    | none => rfl
    | some c => cases c <;> decide
  simp [EntityRow.checks, EntityRecord.row, word_mem_origins, word_mem_inferenceMethods,
    word_mem_validationStates, hconfidence]

/-- Every join passes the constraints of its table. -/
theorem JoinRecord.checks_row (sourceConnectionId : String) (j : JoinRecord) :
    (j.row sourceConnectionId).checks = true := by
  have hcardinality : nullOrIn ["one_to_one", "one_to_many", "many_to_one", "many_to_many"]
      (j.cardinality.map word) = true := by
    cases j.cardinality with
    | none => rfl
    | some c => cases c <;> decide
  simp [JoinRow.checks, JoinRecord.row, word_mem_origins, word_mem_inferenceMethods,
    word_mem_validationStates, hcardinality]

/-- Every metric passes the constraints of its table. -/
theorem MetricRecord.checks_row {P : MeasureExpressions} (sourceConnectionId : String)
    (m : MetricRecord P) : (m.row sourceConnectionId).checks = true := by
  have hagg : word m.measure.agg ∈ ["sum", "count", "count_distinct", "avg", "min", "max"] := by
    cases m.measure.agg <;> decide
  have hmeasure : (m.measureRecord.column.isSome && m.expression.isNone ||
      m.measureRecord.column.isNone && m.expression.isSome) = true := by
    have hdenotes := m.expression_denotes
    unfold MeasureExpressions.Denotes at hdenotes
    split at hdenotes
    · next name href => simp [MeasureRecord.column, MetricRecord.measureRecord, href, hdenotes]
    · next ast href =>
      obtain ⟨text, htext, -⟩ := hdenotes
      simp [MeasureRecord.column, MetricRecord.measureRecord, href, htext]
  simp only [MetricRow.checks, MetricRecord.row, hagg, hmeasure, word_mem_origins,
    word_mem_inferenceMethods, word_mem_validationStates, decide_true, Bool.and_self]

/-! ## Statements -/

/-- `ON CONFLICT (source_connection_id, name) DO UPDATE SET` of `entities`. -/
def EntityRow.update (old excluded : EntityRow) : EntityRow :=
  { old with
    description := excluded.description
    bindingSchema := excluded.bindingSchema
    bindingTable := excluded.bindingTable
    identity := excluded.identity
    origin := excluded.origin
    inferenceMethod := excluded.inferenceMethod
    validationState := excluded.validationState
    group := excluded.group
    bindConfidence := excluded.bindConfidence
    rationale := excluded.rationale }

/-- `ON CONFLICT (source_connection_id, name) DO UPDATE SET` of `canonical_joins`. -/
def JoinRow.update (old excluded : JoinRow) : JoinRow :=
  { old with
    description := excluded.description
    sourceEntity := excluded.sourceEntity
    targetEntity := excluded.targetEntity
    onColumnsJson := excluded.onColumnsJson
    origin := excluded.origin
    inferenceMethod := excluded.inferenceMethod
    validationState := excluded.validationState
    cardinality := excluded.cardinality }

/-- `ON CONFLICT (source_connection_id, name) DO UPDATE SET` of `metrics`, where `entity` is
left out. -/
def MetricRow.update (old excluded : MetricRow) : MetricRow :=
  { old with
    description := excluded.description
    measureAgg := excluded.measureAgg
    measureColumn := excluded.measureColumn
    measureExpression := excluded.measureExpression
    timeDimension := excluded.timeDimension
    timeGrains := excluded.timeGrains
    origin := excluded.origin
    inferenceMethod := excluded.inferenceMethod
    validationState := excluded.validationState }

theorem EntityRow.update_key (old excluded : EntityRow) : (old.update excluded).key = old.key := rfl

theorem JoinRow.update_key (old excluded : JoinRow) : (old.update excluded).key = old.key := rfl

theorem MetricRow.update_key (old excluded : MetricRow) : (old.update excluded).key = old.key := rfl

namespace SemanticStore

variable (s : SemanticStore)

/-- `INSERT INTO entities ... ON CONFLICT DO UPDATE`. -/
def upsertEntity (row : EntityRow) : Except StoreError SemanticStore :=
  if h : row.checks = true ∧ row.bound ∈ s.tables then
    have hkeys : ∀ {k}, k ∈ s.entities.map EntityRow.key →
        k ∈ (upsertRow EntityRow.key EntityRow.update s.entities row).map EntityRow.key :=
      fun hk => (mem_keys_upsertRow EntityRow.update_key).2 (.inl hk)
    .ok { s with
      entities := upsertRow EntityRow.key EntityRow.update s.entities row
      entities_key := nodup_upsertRow EntityRow.update_key s.entities_key
      entities_bound := fun e he => by
        rcases mem_upsertRow he with he | ⟨-, rfl⟩ | ⟨old, -, hkey, rfl⟩
        · exact s.entities_bound e he
        · exact h.2
        · have hbound : (EntityRow.update old row).bound = row.bound := by
            simp [EntityRow.bound, EntityRow.update, (Prod.mk.inj hkey).1]
          exact hbound ▸ h.2
      joins_source := fun j hj => hkeys (s.joins_source j hj)
      joins_target := fun j hj => hkeys (s.joins_target j hj)
      metrics_anchored := fun m hm => hkeys (s.metrics_anchored m hm) }
  else .error .integrity

/-- `INSERT INTO canonical_joins ... ON CONFLICT DO UPDATE`. -/
def upsertCanonicalJoin (row : JoinRow) : Except StoreError SemanticStore :=
  if h : row.checks = true ∧ row.source ∈ s.entities.map EntityRow.key ∧
      row.target ∈ s.entities.map EntityRow.key then
    .ok { s with
      canonicalJoins := upsertRow JoinRow.key JoinRow.update s.canonicalJoins row
      joins_key := nodup_upsertRow JoinRow.update_key s.joins_key
      joins_source := fun j hj => by
        rcases mem_upsertRow hj with hj | ⟨-, rfl⟩ | ⟨old, -, hkey, rfl⟩
        · exact s.joins_source j hj
        · exact h.2.1
        · have hsource : (JoinRow.update old row).source = row.source := by
            simp [JoinRow.source, JoinRow.update, (Prod.mk.inj hkey).1]
          exact hsource ▸ h.2.1
      joins_target := fun j hj => by
        rcases mem_upsertRow hj with hj | ⟨-, rfl⟩ | ⟨old, -, hkey, rfl⟩
        · exact s.joins_target j hj
        · exact h.2.2
        · have htarget : (JoinRow.update old row).target = row.target := by
            simp [JoinRow.target, JoinRow.update, (Prod.mk.inj hkey).1]
          exact htarget ▸ h.2.2 }
  else .error .integrity

/-- `INSERT INTO metrics ... ON CONFLICT DO UPDATE`. The update leaves the foreign key alone, so
that only an insertion checks it. -/
def upsertMetric (row : MetricRow) : Except StoreError SemanticStore :=
  if h : row.checks = true ∧ (row.key ∉ s.metrics.map MetricRow.key →
      row.anchor ∈ s.entities.map EntityRow.key) then
    .ok { s with
      metrics := upsertRow MetricRow.key MetricRow.update s.metrics row
      metrics_key := nodup_upsertRow MetricRow.update_key s.metrics_key
      metrics_anchored := fun m hm => by
        rcases mem_upsertRow hm with hm | ⟨hnew, rfl⟩ | ⟨old, hold, -, rfl⟩
        · exact s.metrics_anchored m hm
        · exact h.2 hnew
        · exact s.metrics_anchored old hold }
  else .error .integrity

/-- `DELETE FROM metrics WHERE source_connection_id = ? AND name = ?`. -/
def deleteMetricRow (key : String × String) : SemanticStore :=
  { s with
    metrics := deleteRow MetricRow.key s.metrics key
    metrics_key := s.metrics_key.sublist (List.filter_sublist.map _)
    metrics_anchored := fun m hm => s.metrics_anchored m (List.mem_filter.1 hm).1 }

/-! ## Calls -/

/-- `with conn:`. What the body wrote is committed, or rolled back when it raises. -/
def withConn {α : Type} (body : SemanticStore → SemanticStore × Except StoreError α) :
    SemanticStore × Except StoreError α :=
  match body s with
  | (s', .ok a) => (s', .ok a)
  | (_, .error e) => (s, .error e)

/-- The guard: the row belongs to dbt, and the write does not come from there. -/
def dbtOwned (existing : Option String) (origin : Origin) : Bool :=
  existing = some "dbt_import" && origin ≠ .dbtImport

/-- The message of `DbtOwnedEntityError`. -/
def dbtOwnedEntityMessage (name : String) : String :=
  "entity " ++ pyRepr name ++ " is owned by dbt import (origin='dbt_import'); manual / " ++
    "suggested writes refused. Edit the upstream dbt model and re-run `schemabrain import dbt`."

/-- The message of `DbtOwnedMetricError`, for a refused write or deletion. -/
def dbtOwnedMetricMessage (name refused advice : String) : String :=
  "metric " ++ pyRepr name ++ " is owned by dbt import (origin='dbt_import'); " ++ refused ++
    " refused. " ++ advice ++ " and re-run `schemabrain import dbt --include-metrics`."

/-- `write_entity`. -/
def writeEntity (sourceConnectionId : String) (entity : EntityRecord) :
    SemanticStore × Except StoreError Unit :=
  s.withConn fun s =>
    let row := entity.row sourceConnectionId
    let existing := (rowOf EntityRow.key s.entities row.key).map (·.origin)
    if dbtOwned existing entity.origin then
      (s, .error (.dbtOwnedEntity (dbtOwnedEntityMessage entity.name)))
    else
      match s.upsertEntity row with
      | .ok s' => (s', .ok ())
      | .error e => (s, .error e)

/-- `write_canonical_join`, which has no guard. -/
def writeCanonicalJoin (sourceConnectionId : String) (join : JoinRecord) :
    SemanticStore × Except StoreError Unit :=
  s.withConn fun s =>
    match s.upsertCanonicalJoin (join.row sourceConnectionId) with
    | .ok s' => (s', .ok ())
    | .error e => (s, .error e)

/-- `write_metric`. -/
def writeMetric {P : MeasureExpressions} (sourceConnectionId : String) (metric : MetricRecord P) :
    SemanticStore × Except StoreError Unit :=
  s.withConn fun s =>
    let row := metric.row sourceConnectionId
    let existing := (rowOf MetricRow.key s.metrics row.key).map (·.origin)
    if dbtOwned existing metric.origin then
      (s, .error (.dbtOwnedMetric (dbtOwnedMetricMessage metric.name "manual / suggested writes"
        "Edit the upstream dbt model")))
    else
      match s.upsertMetric row with
      | .ok s' => (s', .ok ())
      | .error e => (s, .error e)

/-- `delete_metric`. -/
def deleteMetric (sourceConnectionId name : String) : SemanticStore × Except StoreError Bool :=
  s.withConn fun s =>
    match rowOf MetricRow.key s.metrics (sourceConnectionId, name) with
    | none => (s, .ok false)
    | some row =>
      if row.origin = "dbt_import" then
        (s, .error (.dbtOwnedMetric (dbtOwnedMetricMessage name "manual deletion"
          "Drop the metric in the upstream dbt repo")))
      else (s.deleteMetricRow (sourceConnectionId, name), .ok true)

/-! ## Reads -/

/-- `get_entity`. -/
def getEntity (sourceConnectionId name : String) : Except PyError (Option EntityRecord) :=
  match rowOf EntityRow.key s.entities (sourceConnectionId, name) with
  | none => .ok none
  | some row => (rowToEntity row).map some

/-- `get_canonical_join`. -/
def getCanonicalJoin (sourceConnectionId name : String) : Except RowError (Option JoinRecord) :=
  match rowOf JoinRow.key s.canonicalJoins (sourceConnectionId, name) with
  | none => .ok none
  | some row => (rowToCanonicalJoin row).map some

/-- `get_metric`. -/
def getMetric (P : MeasureExpressions) (sourceConnectionId name : String) :
    Except RowError (Option (MetricRecord P)) :=
  match rowOf MetricRow.key s.metrics (sourceConnectionId, name) with
  | none => .ok none
  | some row => (rowToMetric P row).map some

end SemanticStore

/-! ## Runs -/

/-- A call of one of the four operations. -/
inductive SemanticCall (P : MeasureExpressions)
  | writeEntity (sourceConnectionId : String) (entity : EntityRecord)
  | writeCanonicalJoin (sourceConnectionId : String) (join : JoinRecord)
  | writeMetric (sourceConnectionId : String) (metric : MetricRecord P)
  | deleteMetric (sourceConnectionId name : String)

variable {P : MeasureExpressions}

/-- The origin that a call carries. -/
def SemanticCall.origin : SemanticCall P → Option Origin
  | .writeEntity _ entity => some entity.origin
  | .writeCanonicalJoin _ join => some join.origin
  | .writeMetric _ metric => some metric.origin
  | .deleteMetric _ _ => none

namespace SemanticStore

/-- One call: the store after it, and whether it returned. -/
def call (s : SemanticStore) : SemanticCall P → SemanticStore × Except StoreError Unit
  | .writeEntity sid entity => s.writeEntity sid entity
  | .writeCanonicalJoin sid join => s.writeCanonicalJoin sid join
  | .writeMetric sid metric => s.writeMetric sid metric
  | .deleteMetric sid name => (s.deleteMetric sid name).map id fun result => result.map fun _ => ()

/-- The store after a list of calls, of which any may be refused. -/
def runCalls (s : SemanticStore) : List (SemanticCall P) → SemanticStore
  | [] => s
  | c :: rest => runCalls (s.call c).1 rest

/-- The calls of a list that return. -/
def returnedCalls (s : SemanticStore) : List (SemanticCall P) → List (SemanticCall P)
  | [] => []
  | c :: rest => (if (s.call c).2.isOk then [c] else []) ++ returnedCalls (s.call c).1 rest

end SemanticStore

/-! ## The map that a run writes -/

/-- The entities written under a name. -/
def entityWrites (sid name : String) (calls : List (SemanticCall P)) : List EntityRecord :=
  calls.filterMap fun
    | .writeEntity sid' entity => if (sid', entity.name) = (sid, name) then some entity else none
    | _ => none

/-- The joins written under a name. -/
def joinWrites (sid name : String) (calls : List (SemanticCall P)) : List JoinRecord :=
  calls.filterMap fun
    | .writeCanonicalJoin sid' join => if (sid', join.name) = (sid, name) then some join else none
    | _ => none

/-- The metrics written under a name since it was last deleted. -/
def metricWrites (sid name : String) (calls : List (SemanticCall P)) : List (MetricRecord P) :=
  calls.foldl (fun writes c =>
    match c with
    | .writeMetric sid' metric =>
      if (sid', metric.name) = (sid, name) then writes ++ [metric] else writes
    | .deleteMetric sid' name' => if (sid', name') = (sid, name) then [] else writes
    | _ => writes) []

/-- A metric on the anchor entity of another. -/
def MetricRecord.anchoredOn (m first : MetricRecord P) : MetricRecord P :=
  { m with entity := first.entity, entity_ident := first.entity_ident }

/-- The last metric written, on the anchor entity of the first one. -/
def lastMetric (writes : List (MetricRecord P)) : Option (MetricRecord P) :=
  match writes.head?, writes.getLast? with
  | some first, some last => some (last.anchoredOn first)
  | _, _ => none

/-! ## What one call does -/

/-- An update carries every column but the key. -/
theorem EntityRow.update_eq {old excluded : EntityRow} (h : old.key = excluded.key) :
    old.update excluded = excluded := by
  obtain ⟨hsource, hname⟩ := Prod.mk.inj h
  simp [EntityRow.update, hsource, hname]

/-- An update carries every column but the key. -/
theorem JoinRow.update_eq {old excluded : JoinRow} (h : old.key = excluded.key) :
    old.update excluded = excluded := by
  obtain ⟨hsource, hname⟩ := Prod.mk.inj h
  simp [JoinRow.update, hsource, hname]

/-- An update carries every column but the key and the anchor entity. -/
theorem MetricRow.update_eq {old excluded : MetricRow} (h : old.key = excluded.key) :
    old.update excluded = { excluded with entity := old.entity } := by
  obtain ⟨hsource, hname⟩ := Prod.mk.inj h
  simp [MetricRow.update, hsource, hname]

namespace SemanticStore

variable {s s' : SemanticStore} {sid name : String}

theorem withConn_ok {α : Type} {body : SemanticStore → SemanticStore × Except StoreError α} {a : α}
    (h : s.withConn body = (s', .ok a)) : body s = (s', .ok a) := by
  unfold withConn at h
  split at h
  · next s₁ a₁ hbody => rw [hbody, ← h]
  · cases (Prod.mk.inj h).2

/-- A body that raises is rolled back. -/
theorem withConn_error {α : Type} {body : SemanticStore → SemanticStore × Except StoreError α}
    {e : StoreError} (h : (s.withConn body).2 = .error e) : (s.withConn body).1 = s := by
  unfold withConn at h ⊢
  split at h
  · cases h
  · rfl

/-- What a returned UPSERT of `entities` did. -/
theorem upsertEntity_ok {row : EntityRow} (h : s.upsertEntity row = .ok s') :
    s'.entities = upsertRow EntityRow.key EntityRow.update s.entities row ∧
      s'.canonicalJoins = s.canonicalJoins ∧ s'.metrics = s.metrics := by
  unfold upsertEntity at h
  split at h
  · obtain rfl := Except.ok.inj h
    exact ⟨rfl, rfl, rfl⟩
  · cases h

/-- What a returned UPSERT of `metrics` did. -/
theorem upsertMetric_ok {row : MetricRow} (h : s.upsertMetric row = .ok s') :
    s'.metrics = upsertRow MetricRow.key MetricRow.update s.metrics row ∧
      s'.entities = s.entities ∧ s'.canonicalJoins = s.canonicalJoins := by
  unfold upsertMetric at h
  split at h
  · obtain rfl := Except.ok.inj h
    exact ⟨rfl, rfl, rfl⟩
  · cases h

/-- A `write_entity` that returns passed the guard and ran its UPSERT. -/
theorem writeEntity_ok {entity : EntityRecord} (h : s.writeEntity sid entity = (s', .ok ())) :
    dbtOwned ((rowOf EntityRow.key s.entities (entity.row sid).key).map (·.origin))
        entity.origin = false ∧ s.upsertEntity (entity.row sid) = .ok s' := by
  have hbody := withConn_ok h
  dsimp only at hbody
  split at hbody
  · cases (Prod.mk.inj hbody).2
  · next hguard =>
    refine ⟨Bool.eq_false_iff.2 hguard, ?_⟩
    split at hbody
    · next s₁ hupsert => rw [hupsert, (Prod.mk.inj hbody).1]
    · cases (Prod.mk.inj hbody).2

/-- What a returned `write_canonical_join` did. -/
theorem writeCanonicalJoin_ok {join : JoinRecord}
    (h : s.writeCanonicalJoin sid join = (s', .ok ())) :
    s'.canonicalJoins = upsertRow JoinRow.key JoinRow.update s.canonicalJoins (join.row sid) ∧
      s'.entities = s.entities ∧ s'.metrics = s.metrics := by
  have hbody := withConn_ok h
  split at hbody
  · next s₁ hupsert =>
    obtain rfl := (Prod.mk.inj hbody).1
    unfold upsertCanonicalJoin at hupsert
    split at hupsert
    · obtain rfl := Except.ok.inj hupsert
      exact ⟨rfl, rfl, rfl⟩
    · cases hupsert
  · cases (Prod.mk.inj hbody).2

/-- A `write_metric` that returns passed the guard and ran its UPSERT. -/
theorem writeMetric_ok {metric : MetricRecord P} (h : s.writeMetric sid metric = (s', .ok ())) :
    dbtOwned ((rowOf MetricRow.key s.metrics (metric.row sid).key).map (·.origin))
        metric.origin = false ∧ s.upsertMetric (metric.row sid) = .ok s' := by
  have hbody := withConn_ok h
  dsimp only at hbody
  split at hbody
  · cases (Prod.mk.inj hbody).2
  · next hguard =>
    refine ⟨Bool.eq_false_iff.2 hguard, ?_⟩
    split at hbody
    · next s₁ hupsert => rw [hupsert, (Prod.mk.inj hbody).1]
    · cases (Prod.mk.inj hbody).2

/-- What a returned `delete_metric` did: there was no row, or one that is not dbt's is gone. -/
theorem deleteMetric_ok {deleted : Bool} (h : s.deleteMetric sid name = (s', .ok deleted)) :
    (∀ row, rowOf MetricRow.key s.metrics (sid, name) = some row → row.origin ≠ "dbt_import") ∧
      s'.metrics = deleteRow MetricRow.key s.metrics (sid, name) ∧
      s'.entities = s.entities ∧ s'.canonicalJoins = s.canonicalJoins := by
  have hbody := withConn_ok h
  split at hbody
  · next hnone =>
    obtain rfl := (Prod.mk.inj hbody).1
    refine ⟨by simp [hnone], ?_, rfl, rfl⟩
    rw [deleteRow, eq_comm, List.filter_eq_self]
    intro row hrow
    exact decide_eq_true fun hkey => rowOf_eq_none.1 hnone (hkey ▸ List.mem_map_of_mem hrow)
  · next row hrow =>
    split at hbody
    · cases (Prod.mk.inj hbody).2
    · next horigin =>
      obtain rfl := (Prod.mk.inj hbody).1
      refine ⟨fun row' hrow' => ?_, rfl, rfl, rfl⟩
      obtain rfl := Option.some.inj (hrow.symm.trans hrow')
      exact horigin

/-- A call that raises leaves the store as it was. -/
theorem call_error {c : SemanticCall P} {e : StoreError} (h : (s.call c).2 = .error e) :
    (s.call c).1 = s := by
  cases c with
  | writeEntity => exact withConn_error h
  | writeCanonicalJoin => exact withConn_error h
  | writeMetric => exact withConn_error h
  | deleteMetric sid name =>
    have hraised : (s.deleteMetric sid name).2 = .error e := map_eq_error h
    exact withConn_error hraised

private theorem deleteMetric_of_call
    (h : s.call (SemanticCall.deleteMetric (P := P) sid name) = (s', .ok ())) :
    ∃ deleted, s.deleteMetric sid name = (s', .ok deleted) := by
  obtain ⟨hstore, hresult⟩ := Prod.mk.inj h
  obtain ⟨deleted, hdeleted, -⟩ := map_eq_ok hresult
  exact ⟨deleted, Prod.ext hstore hdeleted⟩

/-! ## Rows that dbt owns -/

/-- The rows that dbt wrote are rows of another store. -/
structure KeepsDbtRows (s s' : SemanticStore) : Prop where
  entities : ∀ row ∈ s.entities, row.origin = "dbt_import" → row ∈ s'.entities
  metrics : ∀ row ∈ s.metrics, row.origin = "dbt_import" → row ∈ s'.metrics

private theorem not_dbtOwned {existing : Option String} {origin : Origin}
    (h : dbtOwned existing origin = false) (horigin : origin ≠ .dbtImport) :
    existing ≠ some "dbt_import" := by
  rintro rfl
  simp [dbtOwned, horigin] at h

/-- A call that does not come from dbt keeps the entities and metrics that dbt wrote. -/
theorem keepsDbtRows_call {c : SemanticCall P} (horigin : c.origin ≠ some .dbtImport) :
    KeepsDbtRows s (s.call c).1 := by
  obtain ⟨⟨s', result⟩, hcall⟩ : ∃ after, s.call c = after := ⟨_, rfl⟩
  rw [hcall]
  cases result with
  | error e =>
    obtain rfl : s' = s := by simpa [hcall] using call_error (s := s) (c := c) (by rw [hcall])
    exact ⟨fun _ hrow _ => hrow, fun _ hrow _ => hrow⟩
  | ok =>
    cases c with
    | writeEntity sid entity =>
      obtain ⟨hguard, hupsert⟩ := writeEntity_ok hcall
      obtain ⟨hentities, -, hmetrics⟩ := upsertEntity_ok hupsert
      refine ⟨fun row hrow hdbt => ?_, fun _ hrow _ => hmetrics ▸ hrow⟩
      rw [hentities]
      refine mem_upsertRow_of_ne hrow fun hkey => ?_
      refine not_dbtOwned hguard (fun h => horigin (congrArg some h)) ?_
      rw [← hkey, rowOf_of_mem s.entities_key hrow, Option.map_some, hdbt]
    | writeCanonicalJoin sid join =>
      obtain ⟨-, hentities, hmetrics⟩ := writeCanonicalJoin_ok hcall
      exact ⟨fun _ hrow _ => hentities ▸ hrow, fun _ hrow _ => hmetrics ▸ hrow⟩
    | writeMetric sid metric =>
      obtain ⟨hguard, hupsert⟩ := writeMetric_ok hcall
      obtain ⟨hmetrics, hentities, -⟩ := upsertMetric_ok hupsert
      refine ⟨fun _ hrow _ => hentities ▸ hrow, fun row hrow hdbt => ?_⟩
      rw [hmetrics]
      refine mem_upsertRow_of_ne hrow fun hkey => ?_
      refine not_dbtOwned hguard (fun h => horigin (congrArg some h)) ?_
      rw [← hkey, rowOf_of_mem s.metrics_key hrow, Option.map_some, hdbt]
    | deleteMetric sid name =>
      obtain ⟨deleted, hdelete⟩ : ∃ deleted, s.deleteMetric sid name = (s', .ok deleted) := by
        exact deleteMetric_of_call hcall
      obtain ⟨hguard, hmetrics, hentities, -⟩ := deleteMetric_ok hdelete
      refine ⟨fun _ hrow _ => hentities ▸ hrow, fun row hrow hdbt => ?_⟩
      rw [hmetrics]
      refine List.mem_filter.2 ⟨hrow, decide_eq_true fun hkey => ?_⟩
      exact hguard row (hkey ▸ rowOf_of_mem s.metrics_key hrow) hdbt

/-! ## What a name reads as -/

/-- The rows of a store are those of the last values written. -/
structure Represents (P : MeasureExpressions) (s : SemanticStore) (done : List (SemanticCall P)) :
    Prop where
  entities : ∀ sid name, rowOf EntityRow.key s.entities (sid, name) =
    (entityWrites sid name done).getLast?.map (·.row sid)
  joins : ∀ sid name, rowOf JoinRow.key s.canonicalJoins (sid, name) =
    (joinWrites sid name done).getLast?.map (·.row sid)
  metrics : ∀ sid name, rowOf MetricRow.key s.metrics (sid, name) =
    (lastMetric (metricWrites sid name done)).map (·.row sid)

private theorem lastMetric_concat (writes : List (MetricRecord P)) (m : MetricRecord P) :
    lastMetric (writes ++ [m]) = some (((lastMetric writes).map m.anchoredOn).getD m) := by
  cases writes with
  | nil => rfl
  | cons first rest => simp [lastMetric, List.getLast?_cons, MetricRecord.anchoredOn]

private theorem metricWrites_concat (done : List (SemanticCall P)) (c : SemanticCall P) :
    metricWrites sid name (done ++ [c]) =
      match c with
      | .writeMetric sid' metric =>
        if (sid', metric.name) = (sid, name) then metricWrites sid name done ++ [metric]
        else metricWrites sid name done
      | .deleteMetric sid' name' =>
        if (sid', name') = (sid, name) then [] else metricWrites sid name done
      | _ => metricWrites sid name done := by
  rw [metricWrites, List.foldl_append]
  rfl

private theorem entityWrites_append (done rest : List (SemanticCall P)) :
    entityWrites sid name (done ++ rest) =
      entityWrites sid name done ++ entityWrites sid name rest :=
  List.filterMap_append

private theorem joinWrites_append (done rest : List (SemanticCall P)) :
    joinWrites sid name (done ++ rest) = joinWrites sid name done ++ joinWrites sid name rest :=
  List.filterMap_append

variable {done : List (SemanticCall P)}

private theorem represents_writeEntity {entity : EntityRecord} {sid : String}
    (h : Represents P s done) (hcall : s.writeEntity sid entity = (s', .ok ())) :
    Represents P s' (done ++ [.writeEntity sid entity]) where
  entities sid' name := by
    obtain ⟨hentities, -, -⟩ := upsertEntity_ok (writeEntity_ok hcall).2
    rw [hentities, rowOf_upsertRow_of_carried EntityRow.update_key fun _ => EntityRow.update_eq,
      h.entities, entityWrites_append]
    by_cases hkey : (sid, entity.name) = (sid', name)
    · obtain ⟨rfl, rfl⟩ := Prod.mk.inj hkey
      simp [entityWrites]
    · have hnone : entityWrites sid' name [.writeEntity (P := P) sid entity] = [] := by
        simp only [entityWrites, List.filterMap_cons, if_neg hkey, List.filterMap_nil]
      rw [EntityRecord.key_row, if_neg hkey, hnone, List.append_nil]
  joins sid' name := by
    obtain ⟨-, hjoins, -⟩ := upsertEntity_ok (writeEntity_ok hcall).2
    rw [hjoins, h.joins, joinWrites_append]
    simp [joinWrites]
  metrics sid' name := by
    obtain ⟨-, -, hmetrics⟩ := upsertEntity_ok (writeEntity_ok hcall).2
    rw [hmetrics, h.metrics, metricWrites_concat]

private theorem represents_writeCanonicalJoin {join : JoinRecord} {sid : String}
    (h : Represents P s done) (hcall : s.writeCanonicalJoin sid join = (s', .ok ())) :
    Represents P s' (done ++ [.writeCanonicalJoin sid join]) where
  entities sid' name := by
    obtain ⟨-, hentities, -⟩ := writeCanonicalJoin_ok hcall
    rw [hentities, h.entities, entityWrites_append]
    simp [entityWrites]
  joins sid' name := by
    obtain ⟨hjoins, -, -⟩ := writeCanonicalJoin_ok hcall
    rw [hjoins, rowOf_upsertRow_of_carried JoinRow.update_key fun _ => JoinRow.update_eq,
      h.joins, joinWrites_append]
    by_cases hkey : (sid, join.name) = (sid', name)
    · obtain ⟨rfl, rfl⟩ := Prod.mk.inj hkey
      simp [joinWrites]
    · have hnone : joinWrites sid' name [.writeCanonicalJoin (P := P) sid join] = [] := by
        simp only [joinWrites, List.filterMap_cons, if_neg hkey, List.filterMap_nil]
      rw [JoinRecord.key_row, if_neg hkey, hnone, List.append_nil]
  metrics sid' name := by
    obtain ⟨-, -, hmetrics⟩ := writeCanonicalJoin_ok hcall
    rw [hmetrics, h.metrics, metricWrites_concat]

private theorem represents_writeMetric {metric : MetricRecord P} {sid : String}
    (h : Represents P s done) (hcall : s.writeMetric sid metric = (s', .ok ())) :
    Represents P s' (done ++ [.writeMetric sid metric]) where
  entities sid' name := by
    obtain ⟨-, hentities, -⟩ := upsertMetric_ok (writeMetric_ok hcall).2
    rw [hentities, h.entities, entityWrites_append]
    simp [entityWrites]
  joins sid' name := by
    obtain ⟨-, -, hjoins⟩ := upsertMetric_ok (writeMetric_ok hcall).2
    rw [hjoins, h.joins, joinWrites_append]
    simp [joinWrites]
  metrics sid' name := by
    obtain ⟨hmetrics, -, -⟩ := upsertMetric_ok (writeMetric_ok hcall).2
    rw [hmetrics, rowOf_upsertRow MetricRow.update_key, metricWrites_concat]
    have hrow := h.metrics sid' name
    rw [MetricRecord.key_row]
    dsimp only
    by_cases hkey : (sid, metric.name) = (sid', name)
    · obtain ⟨rfl, rfl⟩ := Prod.mk.inj hkey
      rw [if_pos rfl, if_pos rfl, lastMetric_concat, hrow]
      -- The update of the stored row is the row of the new metric on the stored anchor.
      cases hlast : lastMetric (metricWrites sid metric.name done) with
      | none => rfl
      | some old =>
        rw [hlast] at hrow
        have hold : old.name = metric.name := (Prod.mk.inj (rowOf_spec hrow).2).2
        have hupdate : (old.row sid).update (metric.row sid) =
            (metric.anchoredOn old).row sid :=
          MetricRow.update_eq (Prod.ext rfl hold)
        simp [hupdate]
    · rw [if_neg hkey, if_neg hkey, hrow]

private theorem represents_deleteMetric {sid name : String} {deleted : Bool}
    (h : Represents P s done) (hcall : s.deleteMetric sid name = (s', .ok deleted)) :
    Represents P s' (done ++ [.deleteMetric sid name]) where
  entities sid' name' := by
    obtain ⟨-, -, hentities, -⟩ := deleteMetric_ok hcall
    rw [hentities, h.entities, entityWrites_append]
    simp [entityWrites]
  joins sid' name' := by
    obtain ⟨-, -, -, hjoins⟩ := deleteMetric_ok hcall
    rw [hjoins, h.joins, joinWrites_append]
    simp [joinWrites]
  metrics sid' name' := by
    obtain ⟨-, hmetrics, -, -⟩ := deleteMetric_ok hcall
    rw [hmetrics, rowOf_deleteRow, h.metrics, metricWrites_concat]
    dsimp only
    split <;> rfl

/-- A call that returns adds its value to the map, and one that raises adds nothing. -/
theorem represents_call (h : Represents P s done) (c : SemanticCall P) :
    Represents P (s.call c).1 (done ++ if (s.call c).2.isOk then [c] else []) := by
  obtain ⟨⟨s', result⟩, hcall⟩ : ∃ after, s.call c = after := ⟨_, rfl⟩
  rw [hcall]
  cases result with
  | error e =>
    obtain rfl : s' = s := by simpa [hcall] using call_error (s := s) (c := c) (by rw [hcall])
    simpa [Except.isOk, Except.toBool] using h
  | ok =>
    simp only [Except.isOk, Except.toBool, if_true]
    cases c with
    | writeEntity sid entity => exact represents_writeEntity h hcall
    | writeCanonicalJoin sid join => exact represents_writeCanonicalJoin h hcall
    | writeMetric sid metric => exact represents_writeMetric h hcall
    | deleteMetric sid name =>
      obtain ⟨deleted, hdelete⟩ := deleteMetric_of_call hcall
      exact represents_deleteMetric h hdelete

/-- A run writes the map of its calls that return. -/
theorem represents_runCalls (h : Represents P s done) (calls : List (SemanticCall P)) :
    Represents P (s.runCalls calls) (done ++ s.returnedCalls calls) := by
  induction calls generalizing s done with
  | nil => simpa [runCalls, returnedCalls] using h
  | cons c rest ih =>
    rw [runCalls, returnedCalls, ← List.append_assoc]
    exact ih (represents_call h c)

/-- A store with tables and nothing in the semantic layer. -/
def emptyOn (tables : List (String × QualifiedTable)) : SemanticStore where
  tables := tables
  entities := []
  canonicalJoins := []
  metrics := []
  entities_bound := by simp

theorem represents_emptyOn (tables : List (String × QualifiedTable)) :
    Represents P (emptyOn tables) [] := by
  constructor <;> intro sid name <;> rfl

/-- The reads of a store are the last values written, a metric's on its first anchor. -/
structure ReadsLastWrites (P : MeasureExpressions) (s : SemanticStore)
    (done : List (SemanticCall P)) : Prop where
  entities : ∀ sid name, s.getEntity sid name = .ok (entityWrites sid name done).getLast?
  joins : ∀ sid name, s.getCanonicalJoin sid name = .ok (joinWrites sid name done).getLast?
  metrics : ∀ sid name, s.getMetric P sid name = .ok (lastMetric (metricWrites sid name done))

theorem Represents.reads (h : Represents P s done) : ReadsLastWrites P s done where
  entities sid name := by
    rw [getEntity, h.entities]
    cases (entityWrites sid name done).getLast? with
    | none => rfl
    | some e => simp only [Option.map_some, rowToEntity_row]; rfl
  joins sid name := by
    rw [getCanonicalJoin, h.joins]
    cases (joinWrites sid name done).getLast? with
    | none => rfl
    | some j => simp only [Option.map_some, rowToCanonicalJoin_row]; rfl
  metrics sid name := by
    rw [getMetric, h.metrics]
    cases lastMetric (metricWrites sid name done) with
    | none => rfl
    | some m => simp only [Option.map_some, rowToMetric_row]; rfl

/-- After any run, every name reads as the last value that was written under it, a refused call
has changed nothing, and a call from elsewhere keeps dbt's entities and metrics. -/
theorem semanticLayer_lastWrites (tables : List (String × QualifiedTable))
    (calls : List (SemanticCall P)) :
    let s := (emptyOn tables).runCalls calls
    ReadsLastWrites P s ((emptyOn tables).returnedCalls calls) ∧
      ∀ c : SemanticCall P, (∀ e, (s.call c).2 = .error e → (s.call c).1 = s) ∧
        (c.origin ≠ some .dbtImport → KeepsDbtRows s (s.call c).1) := by
  refine ⟨?_, fun c => ⟨fun _ => call_error, keepsDbtRows_call⟩⟩
  have hrun := represents_runCalls (represents_emptyOn (P := P) tables) calls
  rw [List.nil_append] at hrun
  exact hrun.reads

end SemanticStore

/-! ## A metric written again on another entity, and a join that dbt wrote -/

/-- A grammar without expressions. -/
def columnsOnly : MeasureExpressions where
  parse _ := .error "no expressions"
  columns_ident := by simp
  columns_ne_nil := by simp

/-- An entity on `public.orders`. -/
def onOrders (name : String) (h : isIdent name = true) : EntityRecord where
  name := name
  binding := ⟨"public", "orders"⟩
  identity := "id"
  name_ident := h
  description := ""

/-- Two entities, each a call. -/
def orderCalls : List (SemanticCall columnsOnly) :=
  [.writeEntity "pg" (onOrders "order" (Eq.refl true)),
    .writeEntity "pg" (onOrders "customer" (Eq.refl true))]

/-- A metric on an entity. -/
def revenueOn (entity : String) (h : isIdent entity = true) : MetricRecord columnsOnly where
  name := "revenue"
  entity := entity
  measure := { agg := .sum, ref := .column "amount" }
  entity_ident := h
  expression_denotes := columnsOnly.denotes_column "amount"
  description := ""

private theorem order_ne_customer : "order" ≠ "customer" := by decide

def customerKey : JoinColumnPair := { sourceColumn := "customer_id", targetColumn := "id" }

/-- The join between them. -/
def placedBy (origin : Origin) : JoinRecord where
  name := "placed_by"
  sourceEntity := "order"
  targetEntity := "customer"
  on := [customerKey]
  no_self := order_ne_customer
  description := ""
  origin := origin

/-- A metric keeps its first anchor when it is written on another entity, and a join that dbt
wrote is replaced by a manual one. -/
theorem not_lastWrites :
    (¬ ∀ (tables : List (String × QualifiedTable)) (calls : List (SemanticCall columnsOnly))
      (sid name : String), ((SemanticStore.emptyOn tables).runCalls calls).getMetric
        columnsOnly sid name =
        .ok (metricWrites sid name
          ((SemanticStore.emptyOn tables).returnedCalls calls)).getLast?) ∧
    ¬ ∀ (tables : List (String × QualifiedTable)) (calls : List (SemanticCall columnsOnly))
      (c : SemanticCall columnsOnly), c.origin ≠ some .dbtImport →
        ∀ row ∈ ((SemanticStore.emptyOn tables).runCalls calls).canonicalJoins,
          row.origin = "dbt_import" →
          row ∈ (((SemanticStore.emptyOn tables).runCalls calls).call c).1.canonicalJoins := by
  constructor
  · intro hall
    have hread := hall [("pg", ⟨"public", "orders"⟩)]
      (orderCalls ++ [.writeMetric "pg" (revenueOn "order" (by decide)),
        .writeMetric "pg" (revenueOn "customer" (by decide))]) "pg" "revenue"
    have hentity := congrArg (fun r => r.toOption.map fun m => m.map (·.entity)) hread
    revert hentity
    decide
  · intro hall
    have hkept := hall [("pg", ⟨"public", "orders"⟩)]
      (orderCalls ++ [.writeCanonicalJoin "pg" (placedBy .dbtImport)])
      (.writeCanonicalJoin "pg" (placedBy .manual)) (by decide)
      ((placedBy .dbtImport).row "pg") (by decide) rfl
    revert hkept
    decide

end SchemaBrain.Core
