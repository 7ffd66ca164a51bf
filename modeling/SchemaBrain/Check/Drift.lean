import SchemaBrain.Base.Collections
import SchemaBrain.Base.Lookups
import SchemaBrain.Base.Yaml
import SchemaBrain.Core.Store

/-!
# The drift check

`check/engine.py`: the persisted entities, metrics and joins against the tables of the live
source. The tables are asked for by name, the live ones and the indexed ones, and each answer is
cached for the run.
-/

namespace SchemaBrain.Check

open Base Core

/-- `DefKind`. -/
inductive DefKind
  | entity
  | metric
  | canonicalJoin
  deriving DecidableEq, Repr

/-- `DriftKind`. -/
inductive DriftKind
  | tableMissing
  | identityColumnMissing
  | measureColumnMissing
  | timeDimensionColumnMissing
  | joinColumnMissing
  | typeMismatch
  | nullabilityChange
  deriving DecidableEq, Repr

/-- One drift between a persisted definition and the live source. -/
structure Drift where
  defKind : DefKind
  defName : String
  driftKind : DriftKind
  detail : String
  fixHint : String
  deriving DecidableEq, Repr

/-- The outcome of a check. No kind has more healthy definitions than it has definitions. -/
structure CheckReport where
  drifts : List Drift
  entitiesHealthy : Nat
  metricsHealthy : Nat
  joinsHealthy : Nat
  totalEntities : Nat
  totalMetrics : Nat
  totalJoins : Nat
  entities_le : entitiesHealthy ≤ totalEntities
  metrics_le : metricsHealthy ≤ totalMetrics
  joins_le : joinsHealthy ≤ totalJoins

/-- `exit_code`. -/
def CheckReport.exitCode (report : CheckReport) : Nat := if report.drifts = [] then 0 else 1

/-- What ends a check without a report. -/
inductive CheckError
  /-- An exception of the introspection other than `TableNotFoundError`. -/
  | introspection (schema table : String)
  /-- `AssertionError`, with its message. -/
  | assertion (message : String)
  deriving DecidableEq, Repr

/-! ## The tables -/

/-- What `DataSource.get_table` does with a name. -/
inductive Introspection
  | found (table : Table)
  | notFound
  | failed

/-- A table of the live source, or the one that was indexed. -/
inductive TableKey
  | live (table : QualifiedTable)
  | stored (table : QualifiedTable)
  deriving DecidableEq, Repr

/-- A check in progress. -/
abbrev DriftCheck := Lookups TableKey (Option Table) CheckError

/-- `_live_table` and `_stored_table`, where neither cache has the answer. -/
def readTable (store : Store) (source : QualifiedTable → Introspection) :
    TableKey → Except CheckError (Option Table)
  | .live q =>
    match source q with
    | .found table => .ok (some table)
    | .notFound => .ok none
    | .failed => .error (.introspection q.schema q.table)
  | .stored q => .ok (store.getTable q)

/-- `Table.get_column`. -/
def getColumn (table : Table) (name : String) : Option Column :=
  table.columns.find? (·.name = name)

/-! ## Shapes of columns -/

section Shape

variable (lower : String → String)

/-- `data_type.strip().lower()`. -/
def normalType (dataType : String) : String :=
  lower (String.ofList ((dataType.toList.dropWhile isPySpace).reverse.dropWhile isPySpace).reverse)

/-- The words for a column's nullability. -/
def nullWord (nullable : Bool) : String := if nullable then "nullable" else "NOT NULL"

/-- The drift of a column whose type changed. -/
def typeMismatch (defKind : DefKind) (defName qualifiedTable columnName : String)
    (storedCol liveCol : Column) : Drift where
  defKind := defKind
  defName := defName
  driftKind := .typeMismatch
  detail := qualifiedTable ++ "." ++ columnName ++ ": indexed " ++ pyRepr storedCol.dataType ++
    ", live " ++ pyRepr liveCol.dataType
  fixHint := "re-run `schemabrain index` to refresh the baseline, then confirm " ++
    "the definition still holds (numeric aggregations need a numeric column)"

/-- The drift of a column whose `NOT NULL` constraint changed. -/
def nullabilityChange (defKind : DefKind) (defName qualifiedTable columnName : String)
    (storedCol liveCol : Column) : Drift where
  defKind := defKind
  defName := defName
  driftKind := .nullabilityChange
  detail := qualifiedTable ++ "." ++ columnName ++ ": indexed " ++ nullWord storedCol.nullable ++
    ", live " ++ nullWord liveCol.nullable
  fixHint := "re-run `schemabrain index` to refresh the baseline; a " ++
    "NOT NULL→nullable change can shift aggregate semantics (NULLs are skipped)"

/-- `_column_shape_drifts`. -/
def columnShapeDrifts (defKind : DefKind) (defName qualifiedTable columnName : String)
    (storedTable : Option Table) (liveCol : Column) : List Drift :=
  match storedTable.bind (getColumn · columnName) with
  | none => []
  | some storedCol =>
    (if normalType lower storedCol.dataType ≠ normalType lower liveCol.dataType then
      [typeMismatch defKind defName qualifiedTable columnName storedCol liveCol] else []) ++
    (if storedCol.nullable ≠ liveCol.nullable then
      [nullabilityChange defKind defName qualifiedTable columnName storedCol liveCol] else [])

/-- The shape drifts of a column that the check found on the live table. -/
def shapeDriftsAt (defKind : DefKind) (defName qualifiedTable columnName : String)
    (storedTable : Option Table) (live : Table) : List Drift :=
  match getColumn live columnName with
  | none => []
  | some liveCol =>
    columnShapeDrifts lower defKind defName qualifiedTable columnName storedTable liveCol

/-! ## Entities -/

/-- The drift of an entity whose table is gone. -/
def tableMissing (entity : Entity) : Drift where
  defKind := .entity
  defName := entity.name
  driftKind := .tableMissing
  detail := entity.binding.text
  fixHint := "restore the table, drop entity " ++ pyRepr entity.name ++
    ", or re-bind the entity to an existing table via `schemabrain entities apply`"

/-- The drift of an entity whose identity column is gone. -/
def identityColumnMissing (entity : Entity) : Drift where
  defKind := .entity
  defName := entity.name
  driftKind := .identityColumnMissing
  detail := entity.binding.text ++ "." ++ entity.identity
  fixHint := "update entity `" ++ entity.name ++
    "`'s `identity:` field and re-run `schemabrain entities apply`"

/-- The check of one entity: its drifts, and whether what rests on it is suppressed. -/
def checkEntity (entity : Entity) : DriftCheck (List Drift × Bool) := do
  match ← Lookups.fetch (.live entity.binding) with
  | none => pure ([tableMissing entity], true)
  | some live =>
    if (getColumn live entity.identity).isNone then pure ([identityColumnMissing entity], true)
    else
      let stored ← Lookups.fetch (.stored entity.binding)
      pure (shapeDriftsAt lower .entity entity.name entity.binding.text entity.identity stored live,
        false)

/-! ## Metrics -/

/-- The field of a measure that the fix names. -/
def measureField : MeasureRef → String
  | .column _ => "column"
  | .expression _ => "expression"

/-- The drift of a metric whose measure reads a column that is gone. -/
def measureColumnMissing (metric : Metric) (anchor : Entity) (column : String) : Drift where
  defKind := .metric
  defName := metric.name
  driftKind := .measureColumnMissing
  detail := anchor.binding.text ++ "." ++ column
  fixHint := "update metric `" ++ metric.name ++ "`'s `measure." ++
    measureField metric.measure.ref ++ "` and re-run `schemabrain metrics apply`"

/-- The drift of a metric whose time column is gone. -/
def timeDimensionColumnMissing (metric : Metric) (anchor : Entity) (column : String) : Drift where
  defKind := .metric
  defName := metric.name
  driftKind := .timeDimensionColumnMissing
  detail := anchor.binding.text ++ "." ++ column
  fixHint := "update metric `" ++ metric.name ++
    "`'s `time_dimension` and re-run `schemabrain metrics apply`"

/-- The assertion that an anchor of a checked metric has a live table. -/
def missingAnchor (metric : Metric) : CheckError :=
  .assertion ("engine invariant violated: healthy anchor entity " ++ pyRepr metric.entity ++
    " resolved to a missing live table")

/-- The assertion that a time dimension is a column of the anchor. -/
def foreignTimeDimension (metric : Metric) (timeEntity : String) : CheckError :=
  .assertion ("metric " ++ pyRepr metric.name ++ " time_dimension entity prefix " ++
    pyRepr timeEntity ++ " does not match anchor entity " ++ pyRepr metric.entity ++
    "; cross-entity time dimensions are not supported at v1")

/-- The columns of the measure, sorted. -/
def sortedMeasureColumns (metric : Metric) : List String :=
  pySorted metric.measure.measureColumns

/-- The drifts of the time column: it is gone, or its shape changed. -/
def timeDrifts (metric : Metric) (anchor : Entity) (stored : Option Table) (live : Table)
    (column : String) : List Drift :=
  if (getColumn live column).isNone then [timeDimensionColumnMissing metric anchor column]
  else shapeDriftsAt lower .metric metric.name anchor.binding.text column stored live

/-- The check of a metric on the live table of its anchor. -/
def checkMetricOn (metric : Metric) (anchor : Entity) (live : Table) : DriftCheck (List Drift) :=
  match (sortedMeasureColumns metric).find? fun column => (getColumn live column).isNone with
  | some column => pure [measureColumnMissing metric anchor column]
  | none => do
    let stored ← Lookups.fetch (.stored anchor.binding)
    let measureDrifts := (sortedMeasureColumns metric).flatMap fun column =>
      shapeDriftsAt lower .metric metric.name anchor.binding.text column stored live
    match metric.timeDimension with
    | none => pure measureDrifts
    | some timeDimension =>
      if (splitDot timeDimension).1 ≠ metric.entity then
        .raise (foreignTimeDimension metric (splitDot timeDimension).1)
      else
        pure (measureDrifts ++
          timeDrifts lower metric anchor stored live (splitDot timeDimension).2)

/-- The check of one metric; a metric is passed over where its anchor is broken. -/
def checkMetric (entities : List Entity) (broken : List String) (metric : Metric) :
    DriftCheck (Option (List Drift)) :=
  match entities.find? (·.name = metric.entity) with
  | none => pure none
  | some anchor =>
    if metric.entity ∈ broken then pure none
    else do
      match ← Lookups.fetch (.live anchor.binding) with
      | none => .raise (missingAnchor metric)
      | some live => some <$> checkMetricOn lower metric anchor live

/-! ## Canonical joins -/

/-- The drift of a join that reads a column that is gone from one of its sides. -/
def joinColumnMissing (join : CanonicalJoin) (entity : Entity) (column side : String) : Drift where
  defKind := .canonicalJoin
  defName := join.name
  driftKind := .joinColumnMissing
  detail := entity.binding.text ++ "." ++ column
  fixHint := "update join `" ++ join.name ++ "`'s `on:` columns or restore the " ++ side ++
    " column"

/-- The assertion that both ends of a checked join have live tables. -/
def missingEndpoint (join : CanonicalJoin) : CheckError :=
  .assertion ("engine invariant violated: healthy join " ++ pyRepr join.name ++
    " resolved to a missing live table on one endpoint")

/-- The first column of the pairs that is gone, each source before its target. -/
def firstMissingJoinColumn (join : CanonicalJoin) (srcEnt tgtEnt : Entity)
    (srcLive tgtLive : Table) : List JoinColumnPair → Option Drift
  | [] => none
  | pair :: rest =>
    if (getColumn srcLive pair.sourceColumn).isNone then
      some (joinColumnMissing join srcEnt pair.sourceColumn "source")
    else if (getColumn tgtLive pair.targetColumn).isNone then
      some (joinColumnMissing join tgtEnt pair.targetColumn "target")
    else firstMissingJoinColumn join srcEnt tgtEnt srcLive tgtLive rest

/-- The check of a join on the live tables of its ends. -/
def checkJoinOn (join : CanonicalJoin) (srcEnt tgtEnt : Entity) (srcLive tgtLive : Table) :
    DriftCheck (List Drift) :=
  match firstMissingJoinColumn join srcEnt tgtEnt srcLive tgtLive join.on with
  | some drift => pure [drift]
  | none => do
    let srcStored ← Lookups.fetch (.stored srcEnt.binding)
    let tgtStored ← Lookups.fetch (.stored tgtEnt.binding)
    pure (join.on.flatMap fun pair =>
      shapeDriftsAt lower .canonicalJoin join.name srcEnt.binding.text pair.sourceColumn srcStored
          srcLive ++
        shapeDriftsAt lower .canonicalJoin join.name tgtEnt.binding.text pair.targetColumn tgtStored
          tgtLive)

/-- The check of one join; a join is passed over where one of its ends is broken. -/
def checkJoin (entities : List Entity) (broken : List String) (join : CanonicalJoin) :
    DriftCheck (Option (List Drift)) :=
  match entities.find? (·.name = join.sourceEntity),
    entities.find? (·.name = join.targetEntity) with
  | some srcEnt, some tgtEnt =>
    if join.sourceEntity ∈ broken ∨ join.targetEntity ∈ broken then pure none
    else do
      let srcLive ← Lookups.fetch (.live srcEnt.binding)
      let tgtLive ← Lookups.fetch (.live tgtEnt.binding)
      match srcLive, tgtLive with
      | some srcLive, some tgtLive => some <$> checkJoinOn lower join srcEnt tgtEnt srcLive tgtLive
      | _, _ => .raise (missingEndpoint join)
  | _, _ => pure none

/-! ## The whole check -/

/-- `list_entities`, `ORDER BY name`. -/
def listEntities (store : Store) : List Entity := sortedBy (·.name) store.entities

/-- `list_metrics`, `ORDER BY name`. -/
def listMetrics (store : Store) : List Metric := sortedBy (·.name) store.metrics

/-- The entities whose table or identity column is gone. -/
def brokenNames (entities : List Entity) (checks : List (List Drift × Bool)) : List String :=
  ((entities.zip checks).filter (·.2.2)).map (·.1.name)

/-- The report from the outcome of each definition, in the order of the definitions. A passed
over definition is neither healthy nor drifted. -/
def makeReport (entityChecks : List (List Drift × Bool))
    (metricChecks joinChecks : List (Option (List Drift))) : CheckReport where
  drifts := entityChecks.flatMap (·.1) ++ metricChecks.flatMap (·.getD []) ++
    joinChecks.flatMap (·.getD [])
  entitiesHealthy := entityChecks.countP (·.1 = [])
  metricsHealthy := metricChecks.count (some [])
  joinsHealthy := joinChecks.count (some [])
  totalEntities := entityChecks.length
  totalMetrics := metricChecks.length
  totalJoins := joinChecks.length
  entities_le := List.countP_le_length
  metrics_le := List.count_le_length
  joins_le := List.count_le_length

/-- The checks of every entity, then every metric, then every join. -/
def checkDefinitions (store : Store) : DriftCheck CheckReport := do
  let entityChecks ← (listEntities store).mapM (checkEntity lower)
  let broken := brokenNames (listEntities store) entityChecks
  let metricChecks ← (listMetrics store).mapM (checkMetric lower (listEntities store) broken)
  let joinChecks ← store.listCanonicalJoins.mapM (checkJoin lower (listEntities store) broken)
  pure (makeReport entityChecks metricChecks joinChecks)

/-- `check_drift`: the report or what is raised, with the tables asked for and both caches. -/
def checkDrift (store : Store) (source : QualifiedTable → Introspection) :
    Lookups.Session TableKey (Option Table) × Except CheckError CheckReport :=
  (checkDefinitions lower store).runCached (readTable store source) {}

end Shape

end SchemaBrain.Check
