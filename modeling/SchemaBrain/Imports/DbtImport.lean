import SchemaBrain.Check.Drift
import SchemaBrain.Core.JoinYaml
import SchemaBrain.Core.SemanticLists

/-!
# The import of a dbt manifest

`imports/dbt.py` from the parsed manifest on: the identity column of a model, its entity, the
check against the live source, the joins of its `relationships` tests, the plan and the writes.
-/

namespace SchemaBrain.Imports

open Base Core Check

/-! ## The manifest -/

/-- `DbtColumn`, with the types of its constraints and its tests. -/
structure DbtColumn where
  name : String
  constraints : List String := []
  isUnique : Bool := false
  isNotNull : Bool := false

/-- `DbtModelNode`. -/
structure DbtModelNode where
  uniqueId : String
  name : String
  schemaName : String
  identifier : String
  description : String := ""
  columns : List DbtColumn
  dependsOnSources : List String := []

/-- `DbtSourceNode`. -/
structure DbtSourceNode where
  schemaName : String
  identifier : String

/-- `DbtRelationship`. -/
structure DbtRelationship where
  fromModelUniqueId : String
  fromColumn : String
  toModelName : String
  toColumn : String

/-- `DbtManifest`. -/
structure DbtManifest where
  models : List DbtModelNode
  sourcesById : List (String × DbtSourceNode) := []
  relationships : List DbtRelationship := []

/-! ## The identity column -/

/-- `IdentityResolutionMethod`. -/
inductive IdentityResolutionMethod
  | primaryKeyConstraint
  | uniqueNotNullConstraints
  | uniqueNotNullTests
  deriving DecidableEq, Repr

/-- The columns of a tier. -/
def IdentityResolutionMethod.marks : IdentityResolutionMethod → DbtColumn → Bool
  | .primaryKeyConstraint, c => "primary_key" ∈ c.constraints
  | .uniqueNotNullConstraints, c => "unique" ∈ c.constraints && "not_null" ∈ c.constraints
  | .uniqueNotNullTests, c => c.isUnique && c.isNotNull

/-- `tier_label`. -/
def IdentityResolutionMethod.label : IdentityResolutionMethod → String
  | .primaryKeyConstraint => "primary_key constraint"
  | .uniqueNotNullConstraints => "unique+not_null constraints"
  | .uniqueNotNullTests => "unique+not_null tests"

/-- The tiers, the highest first. -/
def identityTiers : List IdentityResolutionMethod :=
  [.primaryKeyConstraint, .uniqueNotNullConstraints, .uniqueNotNullTests]

/-- `DbtIdentityResolution`. -/
structure DbtIdentityResolution where
  columnName : String
  method : IdentityResolutionMethod
  deriving DecidableEq

/-- `", ".join(repr(c.name) for c in columns)`. -/
def columnNames (columns : List DbtColumn) : String :=
  ", ".intercalate (columns.map fun c => pyRepr c.name)

/-- `_format_ambiguity_error`. -/
def formatAmbiguityError (model : DbtModelNode) (candidates : List DbtColumn)
    (tierLabel : String) : String :=
  "dbt model " ++ pyRepr model.name ++ " has multiple identity candidates at the " ++ tierLabel ++
    " tier (" ++ columnNames candidates ++ "); SchemaBrain v1 supports single-column " ++
    "identity only. Drop the duplicate declaration in your dbt YAML, or wait for v2 " ++
    "multi-table bindings."

/-- `_format_no_match_error`. -/
def formatNoMatchError (model : DbtModelNode) : String :=
  "dbt model " ++ pyRepr model.name ++ " has no resolvable identity column (candidates: " ++
    (if model.columns = [] then "(none)" else columnNames model.columns) ++
    "). Add either a primary_key constraint, a unique+not_null constraint pair, or " ++
    "unique+not_null tests to one column in your dbt YAML."

/-- The first tier that marks a column. -/
def resolveTiers (model : DbtModelNode) :
    List IdentityResolutionMethod → Except String DbtIdentityResolution
  | [] => .error (formatNoMatchError model)
  | method :: lower =>
    match model.columns.filter method.marks with
    | [] => resolveTiers model lower
    | [column] => .ok ⟨column.name, method⟩
    | candidates => .error (formatAmbiguityError model candidates method.label)

/-- `resolve_dbt_identity`. -/
def resolveDbtIdentity (model : DbtModelNode) : Except String DbtIdentityResolution :=
  resolveTiers model identityTiers

/-! ## Models as entities -/

/-- `DbtImportedEntity`. -/
structure DbtImportedEntity where
  entity : EntityRecord
  dbtUniqueId : String
  identityResolutionMethod : IdentityResolutionMethod
  upstreamSources : List String

/-- `SkipReason`. -/
inductive SkipReason
  | identityResolution
  | mapping
  | schemaDrift
  deriving DecidableEq, Repr

/-- `DbtImportSkip`. -/
structure DbtImportSkip where
  dbtUniqueId : String
  reason : SkipReason
  message : String
  deriving DecidableEq

/-- `str(exc)`. -/
def errorText : PyError → String
  | .valueError message => message
  | .typeError message => message
  | .keyError message => message

/-- `_resolve_upstream_sources`. A source that the manifest does not declare is dropped. -/
def resolveUpstreamSources (model : DbtModelNode) (manifest : DbtManifest) : List String :=
  model.dependsOnSources.filterMap fun srcId =>
    (dictGet manifest.sourcesById srcId).map fun src => src.schemaName ++ "." ++ src.identifier

/-- The schema and table that a model compiles to. -/
def DbtModelNode.relation (model : DbtModelNode) : QualifiedTable :=
  ⟨model.schemaName, model.identifier⟩

/-- `dbt_model_to_entity`. -/
def dbtModelToEntity (model : DbtModelNode) (manifest : DbtManifest) :
    Except DbtImportSkip DbtImportedEntity :=
  match resolveDbtIdentity model with
  | .error message => .error ⟨model.uniqueId, .identityResolution, message⟩
  | .ok resolution =>
    match EntityRecord.make model.name model.description model.relation.text
        resolution.columnName "dbt_import" "manually_authored" "applied" "other" none "" with
    | .error exc => .error ⟨model.uniqueId, .mapping, "dbt model " ++ pyRepr model.uniqueId ++
        " does not map to a valid SchemaBrain entity: " ++ errorText exc⟩
    | .ok entity => .ok {
        entity := entity
        dbtUniqueId := model.uniqueId
        identityResolutionMethod := resolution.method
        upstreamSources := resolveUpstreamSources model manifest }

/-! ## The live source -/

/-- The column of a name in `{c.name: c for c in live.columns}`. -/
def liveColumnByName (live : Table) (name : String) : Option Column :=
  live.columns.reverse.find? (·.name = name)

/-- The declared columns that a live table lacks. -/
def missingColumns (model : DbtModelNode) (live : Table) : List DbtColumn :=
  model.columns.filter fun c => (liveColumnByName live c.name).isNone

/-- `drift_messages`. -/
def driftMessages (identity : String) (model : DbtModelNode) (live : Table) : List String :=
  (if missingColumns model live = [] then [] else
    ["column(s) " ++ columnNames (missingColumns model live) ++
      " declared in the dbt manifest are missing in the live table " ++
      pyRepr model.relation.text ++ "; run `dbt run` to refresh the materialization."]) ++
  match liveColumnByName live identity with
  | none => ["identity column " ++ pyRepr identity ++ " on " ++ pyRepr model.relation.text ++
      " does not exist in the live schema; a metric anchored on this entity would fail at " ++
      "query time. Add the column upstream or pick a different identity."]
  | some column =>
    if column.nullable then
      ["identity column " ++ pyRepr identity ++ " on " ++ pyRepr model.relation.text ++
        " is nullable in the live schema; a nullable identity can't reliably anchor metrics. " ++
        "Add a NOT NULL constraint upstream or pick a different identity column."]
    else []

/-- What ends a plan. -/
inductive PlanError
  /-- A stored entity does not pass the checks of its constructor. -/
  | storedEntity (error : PyError)
  /-- An exception of the introspection other than `TableNotFoundError`. -/
  | introspection (table : QualifiedTable)

/-- `verify_against_live_schema`: the message of the drift, if there is one. -/
def verifyAgainstLiveSchema (imported : DbtImportedEntity) (model : DbtModelNode)
    (source : QualifiedTable → Introspection) : Except PlanError (Option String) :=
  match source model.relation with
  | .failed => .error (.introspection model.relation)
  | .notFound => .ok (some ("dbt model " ++ pyRepr model.uniqueId ++
      " compiles to physical table " ++ pyRepr model.relation.text ++
      " which does not exist in the live source database; run `dbt run` to materialize the " ++
      "model before importing."))
  | .found live =>
    match driftMessages imported.entity.identity model live with
    | [] => .ok none
    | messages => .ok (some ("dbt model " ++ pyRepr model.uniqueId ++
        " drifted from the live source: " ++ " ".intercalate messages))

/-- One model of the loop of `plan_dbt_import`. -/
def importModel (manifest : DbtManifest) (source : QualifiedTable → Introspection)
    (model : DbtModelNode) : Except PlanError (DbtImportSkip ⊕ DbtImportedEntity) :=
  match dbtModelToEntity model manifest with
  | .error skip => .ok (.inl skip)
  | .ok imported =>
    (verifyAgainstLiveSchema imported model source).map fun
      | none => .inr imported
      | some message => .inl ⟨model.uniqueId, .schemaDrift, message⟩

/-! ## Relationships as joins -/

/-- `JoinSkipReason`. -/
inductive JoinSkipReason
  | endpointNotImported
  | selfJoin
  | invalidShape
  deriving DecidableEq, Repr

/-- `DbtJoinSkip`. -/
structure DbtJoinSkip where
  detail : String
  reason : JoinSkipReason
  deriving DecidableEq

/-- The `CanonicalJoin` of a relationship between two models. -/
def relationshipJoin (fromEntity : String) (rel : DbtRelationship) : Except PyError JoinRecord := do
  let pair ← JoinColumnPair.make rel.fromColumn rel.toColumn
  JoinRecord.make (fromEntity ++ "_" ++ rel.fromColumn)
    ("Imported from a dbt relationships test on " ++ fromEntity ++ "." ++ rel.fromColumn ++ ".")
    fromEntity rel.toModelName [pair] "dbt_import" none "manually_authored" "applied"

/-- The columns of a relationship, on the entities of its models. -/
def relationshipEdge (fromEntity : String) (rel : DbtRelationship) : String :=
  fromEntity ++ "." ++ rel.fromColumn ++ " → " ++ rel.toModelName ++ "." ++ rel.toColumn

/-- One relationship of the loop of `dbt_relationships_to_joins`. -/
def relationshipOutcome (manifest : DbtManifest) (rel : DbtRelationship) :
    DbtJoinSkip ⊕ JoinRecord :=
  -- Of the models under one `unique_id` the last one counts.
  match manifest.models.reverse.find? (·.uniqueId = rel.fromModelUniqueId) with
  | none => .inl ⟨rel.fromModelUniqueId ++ "." ++ rel.fromColumn ++ " (FK model not imported)",
      .endpointNotImported⟩
  | some fromModel =>
    if rel.toModelName ∉ manifest.models.map (·.name) then
      .inl ⟨fromModel.name ++ "." ++ rel.fromColumn ++ " → " ++ rel.toModelName ++
        " (referenced model not imported)", .endpointNotImported⟩
    else if fromModel.name = rel.toModelName then
      .inl ⟨relationshipEdge fromModel.name rel ++ " (self-join)", .selfJoin⟩
    else
      match relationshipJoin fromModel.name rel with
      | .error exc => .inl ⟨relationshipEdge fromModel.name rel ++ " (" ++ errorText exc ++ ")",
          .invalidShape⟩
      | .ok join => .inr join

/-- `dbt_relationships_to_joins`. -/
def dbtRelationshipsToJoins (manifest : DbtManifest) : List JoinRecord × List DbtJoinSkip :=
  let outcomes := manifest.relationships.map (relationshipOutcome manifest)
  (sortedBy (·.name) (outcomes.filterMap Sum.getRight?), outcomes.filterMap Sum.getLeft?)

/-! ## The plan -/

/-- `DbtImportPlan`, less the counts and the project's name. -/
structure DbtImportPlan where
  toAdd : List DbtImportedEntity
  toUpdate : List DbtImportedEntity
  toTakeOwnership : List (DbtImportedEntity × Origin)
  orphans : List String
  skipped : List DbtImportSkip
  joinsToWrite : List JoinRecord
  joinsSkipped : List DbtJoinSkip

/-- The entities of a plan, in the order of the writes. -/
def DbtImportPlan.planned (plan : DbtImportPlan) : List DbtImportedEntity :=
  plan.toAdd ++ plan.toUpdate ++ plan.toTakeOwnership.map (·.1)

/-- The entities that were verified, in the order of the models. -/
def importedEntities (outcomes : List (DbtImportSkip ⊕ DbtImportedEntity)) :
    List DbtImportedEntity := outcomes.filterMap Sum.getRight?

/-- The origin of the stored entity of a name. -/
def existingOrigin (existing : List EntityRecord) (name : String) : Option Origin :=
  (existing.find? (·.name = name)).map (·.origin)

/-- `will_exist`. -/
def willExist (existing : List EntityRecord) (imported : List DbtImportedEntity)
    (name : String) : Bool :=
  name ∈ existing.map (·.name) || name ∈ imported.map (·.entity.name)

/-- Both ends of a join will exist. -/
def joinWritable (existing : List EntityRecord) (imported : List DbtImportedEntity)
    (join : JoinRecord) : Bool :=
  willExist existing imported join.sourceEntity && willExist existing imported join.targetEntity

/-- The skip of a join whose end will not exist. -/
def missingEndpointSkip (join : JoinRecord) : DbtJoinSkip where
  detail := join.sourceEntity ++ "." ++ ((join.on.head?.map (·.sourceColumn)).getD "") ++ " → " ++
    join.targetEntity ++ "." ++ ((join.on.head?.map (·.targetColumn)).getD "") ++
    " (endpoint entity not imported — likely failed identity resolution)"
  reason := .endpointNotImported

/-- The plan from what the store has and what became of each model. -/
def makePlan (manifest : DbtManifest) (existing : List EntityRecord)
    (outcomes : List (DbtImportSkip ⊕ DbtImportedEntity)) : DbtImportPlan :=
  let imported := importedEntities outcomes
  let origin (e : DbtImportedEntity) := existingOrigin existing e.entity.name
  let (candidates, joinSkips) := dbtRelationshipsToJoins manifest
  { toAdd := sortedBy (·.entity.name) (imported.filter (origin · = none))
    toUpdate := sortedBy (·.entity.name) (imported.filter (origin · = some .dbtImport))
    toTakeOwnership := sortedBy (·.1.entity.name) (imported.filterMap fun e =>
      ((origin e).filter (· ≠ .dbtImport)).map fun o => (e, o))
    orphans := pySorted ((existing.filter fun e =>
      e.origin = .dbtImport && e.name ∉ manifest.models.map (·.name)).map (·.name))
    skipped := sortedBy (·.dbtUniqueId) (outcomes.filterMap Sum.getLeft?)
    joinsToWrite := sortedBy (·.name) (candidates.filter (joinWritable existing imported))
    joinsSkipped := joinSkips ++
      (candidates.filter fun j => !joinWritable existing imported j).map missingEndpointSkip }

/-- `plan_dbt_import`. -/
def planDbtImport (manifest : DbtManifest) (source : QualifiedTable → Introspection)
    (store : SemanticStore) (sid : String) : Except PlanError DbtImportPlan := do
  let existing ← (store.listEntities sid).mapError .storedEntity
  let outcomes ← manifest.models.mapM (importModel manifest source)
  return makePlan manifest existing outcomes

/-! ## The writes -/

/-- `DbtWriteFailure`. -/
structure DbtWriteFailure where
  entityName : String
  message : String
  deriving DecidableEq

/-- The message for an entity whose table is not indexed. -/
def unindexedMessage (sid : String) (e : EntityRecord) : String :=
  "entity " ++ pyRepr e.name ++ " binds to table " ++ pyRepr e.binding.text ++
    " which is not in the tables index for source " ++ pyRepr sid ++ ". Run " ++
    "`schemabrain index <source-url>` with the SAME source URL before importing."

/-- The message for a refused write of an entity. -/
def entityFailure (sid : String) (e : EntityRecord) : StoreError → DbtWriteFailure
  | .integrity => ⟨e.name, unindexedMessage sid e⟩
  | .dbtOwnedEntity message => ⟨e.name, message⟩
  | .dbtOwnedMetric message => ⟨e.name, message⟩

/-- The message for a refused write of a join, with that of SQLite. -/
def joinFailure (join : JoinRecord) : DbtWriteFailure :=
  ⟨join.name, "canonical join " ++ pyRepr join.name ++
    " failed to write: FOREIGN KEY constraint failed"⟩

/-- `_write_one` over the entities of a plan. -/
def writeEntities (sid : String) :
    SemanticStore → List EntityRecord → SemanticStore × List DbtWriteFailure
  | s, [] => (s, [])
  | s, e :: rest =>
    match s.writeEntity sid e with
    | (s', .ok ()) => writeEntities sid s' rest
    | (s', .error error) =>
      ((writeEntities sid s' rest).1, entityFailure sid e error :: (writeEntities sid s' rest).2)

/-- The loop over the joins of a plan. -/
def writeJoins (sid : String) :
    SemanticStore → List JoinRecord → SemanticStore × List DbtWriteFailure
  | s, [] => (s, [])
  | s, join :: rest =>
    match s.writeCanonicalJoin sid join with
    | (s', .ok ()) => writeJoins sid s' rest
    | (s', .error _) =>
      ((writeJoins sid s' rest).1, joinFailure join :: (writeJoins sid s' rest).2)

/-- `apply_dbt_import_plan`: the store after it, and `write_failures`. -/
def applyDbtImportPlan (plan : DbtImportPlan) (store : SemanticStore) (sid : String) :
    SemanticStore × List DbtWriteFailure :=
  let (store, entityFailures) := writeEntities sid store (plan.planned.map (·.entity))
  let (store, joinFailures) := writeJoins sid store plan.joinsToWrite
  (store, entityFailures ++ joinFailures)

end SchemaBrain.Imports
