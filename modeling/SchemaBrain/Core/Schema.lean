import SchemaBrain.Audit.Verify
import SchemaBrain.Base.Script

/-!
# The schema of the store

The statements of `core/store.py` and `audit/ddl.py` that make a store file and bring an older one
up to date, over the tables of a SQLite file: a table has declared columns and rows that give each
of them a value.
-/

namespace SchemaBrain.Core.Schema

open SchemaBrain.Audit (SqlValue)

/-! ## The file -/

/-- A column as its `CREATE TABLE` or `ALTER TABLE` declares it; `default` is what the rows of the
table get when the column is added. -/
structure ColumnDecl where
  name : String
  decl : String
  default : SqlValue
  deriving DecidableEq

/-- The values of a row by column name. -/
abbrev TableRow := String → SqlValue

/-- A table, its rows in the order of their row ids. -/
structure TableState where
  columns : List ColumnDecl
  rows : List TableRow

/-- `CREATE [UNIQUE] INDEX IF NOT EXISTS name ON table (columns)`. -/
structure IndexDecl where
  name : String
  table : String
  columns : List String
  unique : Bool

/-- A store file. `schemabrain_meta` is kept apart from the other tables: its primary key makes it
a partial map. `objects` are the names of the indexes and triggers. -/
structure Database where
  metaRows : Option (String → Option String)
  tables : String → Option TableState
  objects : List String

namespace TableState

def names (T : TableState) : List String := T.columns.map ColumnDecl.name

/-- `ALTER TABLE … ADD COLUMN`: the rows get the column's default. -/
def addColumn (T : TableState) (c : ColumnDecl) : TableState where
  columns := T.columns ++ [c]
  rows := T.rows.map fun row => Function.update row c.name c.default

/-- Two rows with the same values under a unique index; NULLs are distinct. -/
def Clash (columns : List String) (row row' : TableRow) : Prop :=
  ∀ c ∈ columns, row c = row' c ∧ row c ≠ .null

instance (columns : List String) (row row' : TableRow) : Decidable (Clash columns row row') :=
  inferInstanceAs (Decidable (∀ c ∈ columns, _))

/-- An index can be built: its columns are there, and a unique one meets no clash. -/
def Admits (T : TableState) (ix : IndexDecl) : Prop :=
  (∀ c ∈ ix.columns, c ∈ T.names) ∧
    (ix.unique = true → T.rows.Pairwise fun row row' => ¬Clash ix.columns row row')

instance (T : TableState) (ix : IndexDecl) : Decidable (T.Admits ix) :=
  inferInstanceAs (Decidable (_ ∧ _))

end TableState

/-! ## Provenance from origin -/

/-- `CASE origin … END` of `inference_method` in `_migrate_v13_to_v14`; no branch gives NULL. -/
def inferenceMethodOf : SqlValue → SqlValue
  | .text "manual" => .text "manually_authored"
  | .text "suggested" => .text "llm_suggested"
  | .text "dbt_import" => .text "dbt_import"
  | _ => .null

/-- `CASE origin … END` of `validation_state` in `_migrate_v13_to_v14`. -/
def validationStateOf : SqlValue → SqlValue
  | .text "manual" => .text "confirmed"
  | .text "suggested" => .text "applied"
  | .text "dbt_import" => .text "applied"
  | _ => .null

/-- A row after the `UPDATE` of `_migrate_v13_to_v14`. -/
def backfilledRow (row : TableRow) : TableRow :=
  Function.update (Function.update row "inference_method" (inferenceMethodOf (row "origin")))
    "validation_state" (validationStateOf (row "origin"))

/-- Both columns are NOT NULL. -/
def Backfillable (row : TableRow) : Prop :=
  inferenceMethodOf (row "origin") ≠ .null ∧ validationStateOf (row "origin") ≠ .null

instance (row : TableRow) : Decidable (Backfillable row) := inferInstanceAs (Decidable (_ ∧ _))

/-! ## Statements -/

/-- The statements that `_init_schema` executes. A guarded `ALTER TABLE` is one statement with the
query that guards it. -/
inductive Statement
  | begin
  | commit
  | selectVersion
  | createMeta
  | setVersion (value : String)
  | insertVersion (value : String)
  | createTable (name : String) (columns : List ColumnDecl)
  | createIndex (ix : IndexDecl)
  | createTrigger (name table : String)
  | addColumn (table : String) (column : ColumnDecl)
  | addColumnIfTable (table : String) (column : ColumnDecl)
  | addColumnIfMissing (table : String) (column : ColumnDecl)
  | backfillOrigin (table : String)

/-- The key of the version row. -/
def versionKey : String := "schema_version"

/-- `SCHEMA_VERSION`. -/
def schemaVersion : String := "17"

namespace Database

def setTable (db : Database) (name : String) (T : TableState) : Database :=
  { db with tables := Function.update db.tables name (some T) }

def addObject (db : Database) (name : String) : Database :=
  { db with objects := name :: db.objects }

/-- `SELECT value FROM schemabrain_meta WHERE key = ?`. -/
def metaValue (db : Database) (key : String) : Option String := db.metaRows.bind (· key)

/-- The version a store is stamped with. -/
def version (db : Database) : Option String := db.metaValue versionKey

/-- `ALTER TABLE … ADD COLUMN`: an error on a missing table or a duplicate column. -/
def addColumn (db : Database) (table : String) (c : ColumnDecl) : Option Database :=
  match db.tables table with
  | none => none
  | some T => if c.name ∈ T.names then none else some (db.setTable table (T.addColumn c))

end Database

/-- Executes one statement; `none` is an error, and no change. -/
def exec : Statement → Database → Option Database
  | .begin, db | .commit, db | .selectVersion, db => some db
  | .createMeta, db => some { db with metaRows := some (db.metaRows.getD fun _ => none) }
  | .setVersion value, db =>
    db.metaRows.map fun m =>
      { db with
        metaRows := some (Function.update m versionKey ((m versionKey).map fun _ => value)) }
  | .insertVersion value, db =>
    db.metaRows.map fun m =>
      { db with metaRows := some (Function.update m versionKey (some ((m versionKey).getD value))) }
  | .createTable name columns, db =>
    match db.tables name with
    | some _ => some db
    | none => some (db.setTable name ⟨columns, []⟩)
  | .createIndex ix, db =>
    match db.tables ix.table with
    | none => none
    | some T =>
      if ix.name ∈ db.objects then some db
      else if T.Admits ix then some (db.addObject ix.name) else none
  | .createTrigger name table, db =>
    match db.tables table with
    | none => none
    | some _ => if name ∈ db.objects then some db else some (db.addObject name)
  | .addColumn table c, db => db.addColumn table c
  | .addColumnIfTable table c, db =>
    match db.tables table with
    | none => some db
    | some _ => db.addColumn table c
  | .addColumnIfMissing table c, db =>
    match db.tables table with
    | none => none
    | some T => if c.name ∈ T.names then some db else db.addColumn table c
  | .backfillOrigin table, db =>
    match db.tables table with
    | none => none
    | some T =>
      if (∀ c ∈ ["origin", "inference_method", "validation_state"], c ∈ T.names) ∧
          ∀ row ∈ T.rows, Backfillable row then
        some (db.setTable table { T with rows := T.rows.map backfilledRow })
      else none

/-! ## The columns that migrations add -/

def estimatedRowCount : ColumnDecl := ⟨"estimated_row_count", "INTEGER", .null⟩

def semanticType : ColumnDecl := ⟨"semantic_type", "TEXT", .null⟩

def meaning : ColumnDecl := ⟨"meaning", "TEXT", .null⟩

def colConfidence : ColumnDecl :=
  ⟨"col_confidence",
    "TEXT CHECK (col_confidence IS NULL OR col_confidence IN ('high', 'medium', 'low'))", .null⟩

def inferenceMethod : ColumnDecl :=
  ⟨"inference_method", "TEXT NOT NULL DEFAULT 'manually_authored' CHECK (inference_method IN " ++
    "('manually_authored', 'llm_suggested', 'fk_constraint', 'dbt_import', " ++
    "'observed_in_query_log'))", .text "manually_authored"⟩

def validationState : ColumnDecl :=
  ⟨"validation_state", "TEXT NOT NULL DEFAULT 'applied' CHECK (validation_state IN ('draft', " ++
    "'applied', 'confirmed'))", .text "applied"⟩

def bindConfidence : ColumnDecl :=
  ⟨"bind_confidence",
    "TEXT CHECK (bind_confidence IS NULL OR bind_confidence IN ('high', 'medium', 'low'))", .null⟩

def rationale : ColumnDecl := ⟨"rationale", "TEXT NOT NULL DEFAULT ''", .text ""⟩

def entityGroup : ColumnDecl := ⟨"group", "TEXT NOT NULL DEFAULT 'other'", .text "other"⟩

def piiConfidence : ColumnDecl :=
  ⟨"pii_confidence", "TEXT CHECK (pii_confidence IS NULL OR pii_confidence IN ('floor_locked', " ++
    "'high', 'medium', 'low'))", .null⟩

def piiConfidenceScore : ColumnDecl := ⟨"pii_confidence_score", "REAL", .null⟩

def edgeCardinality : ColumnDecl :=
  ⟨"cardinality", "TEXT CHECK (cardinality IS NULL OR cardinality IN ('one_to_one', " ++
    "'one_to_many', 'many_to_one', 'many_to_many'))", .null⟩

def anchorEntity : ColumnDecl := ⟨"anchor_entity", "TEXT", .null⟩

/-! ## Migrations -/

/-- The tables that `_migrate_v13_to_v14` goes through. -/
def originTables : List String := ["entities", "metrics", "canonical_joins"]

/-- `_migrate_v13_to_v14`. -/
def migrateV13ToV14 : List Statement :=
  originTables.flatMap (fun table =>
    [.addColumn table inferenceMethod, .addColumn table validationState, .backfillOrigin table]) ++
  [.setVersion "14"]

/-- `_migrate_v14_to_v15`. -/
def migrateV14ToV15 : List Statement := [
  .addColumn "entities" bindConfidence,
  .addColumn "entities" rationale,
  .addColumn "entities" entityGroup,
  .addColumn "tables" estimatedRowCount,
  .addColumn "column_pii_tags" piiConfidence,
  .addColumn "column_pii_tags" piiConfidenceScore,
  .addColumn "column_descriptions" semanticType,
  .addColumn "column_descriptions" meaning,
  .addColumn "column_descriptions" colConfidence,
  .setVersion "15"]

/-- `_migrate_v15_to_v16`. -/
def migrateV15ToV16 : List Statement :=
  [.addColumnIfTable "graph_edges" edgeCardinality, .setVersion "16"]

/-- `_migrate_v16_to_v17`. -/
def migrateV16ToV17 : List Statement :=
  [.addColumnIfTable "mcp_audit" anchorEntity, .setVersion "17"]

/-- The chain of guards on `existing_version`. -/
def migrations (existingVersion : Option String) : List Statement := Id.run do
  let mut existingVersion := existingVersion
  let mut statements : List Statement := []
  if existingVersion = some "13" then
    statements := statements ++ migrateV13ToV14
    existingVersion := some "14"
  if existingVersion = some "14" then
    statements := statements ++ migrateV14ToV15
    existingVersion := some "15"
  if existingVersion = some "15" then
    statements := statements ++ migrateV15ToV16
    existingVersion := some "16"
  if existingVersion = some "16" then
    statements := statements ++ migrateV16ToV17
  return statements

/-! ## Create-if-missing statements -/

/-- `_DDL_STATEMENTS`. -/
def ddlStatements : List Statement := [
  .createMeta,
  .createTable "tables" [
    ⟨"schema_name", "TEXT NOT NULL", .null⟩,
    ⟨"name", "TEXT NOT NULL", .null⟩,
    ⟨"source_connection_id", "TEXT NOT NULL", .null⟩,
    ⟨"indexed_at", "INTEGER NOT NULL", .null⟩,
    estimatedRowCount],
  .createTable "columns" [
    ⟨"schema_name", "TEXT NOT NULL", .null⟩,
    ⟨"table_name", "TEXT NOT NULL", .null⟩,
    ⟨"name", "TEXT NOT NULL", .null⟩,
    ⟨"source_connection_id", "TEXT NOT NULL", .null⟩,
    ⟨"data_type", "TEXT NOT NULL", .null⟩,
    ⟨"nullable", "INTEGER NOT NULL", .null⟩,
    ⟨"ordinal_position", "INTEGER NOT NULL", .null⟩,
    ⟨"default_expr", "TEXT", .null⟩,
    ⟨"is_primary_key", "INTEGER NOT NULL", .null⟩],
  .createTable "foreign_keys" [
    ⟨"source_schema", "TEXT NOT NULL", .null⟩,
    ⟨"source_table", "TEXT NOT NULL", .null⟩,
    ⟨"name", "TEXT NOT NULL", .null⟩,
    ⟨"source_connection_id", "TEXT NOT NULL", .null⟩,
    ⟨"source_columns", "TEXT NOT NULL", .null⟩,
    ⟨"target_schema", "TEXT NOT NULL", .null⟩,
    ⟨"target_table", "TEXT NOT NULL", .null⟩,
    ⟨"target_columns", "TEXT NOT NULL", .null⟩],
  .createTable "column_fingerprints" [
    ⟨"schema_name", "TEXT NOT NULL", .null⟩,
    ⟨"table_name", "TEXT NOT NULL", .null⟩,
    ⟨"column_name", "TEXT NOT NULL", .null⟩,
    ⟨"source_connection_id", "TEXT NOT NULL", .null⟩,
    ⟨"structural_hash", "TEXT NOT NULL", .null⟩,
    ⟨"semantic_hash", "TEXT NOT NULL", .null⟩,
    ⟨"fingerprinted_at", "INTEGER NOT NULL", .null⟩],
  .createTable "column_descriptions" [
    ⟨"schema_name", "TEXT NOT NULL", .null⟩,
    ⟨"table_name", "TEXT NOT NULL", .null⟩,
    ⟨"column_name", "TEXT NOT NULL", .null⟩,
    ⟨"source_connection_id", "TEXT NOT NULL", .null⟩,
    ⟨"description", "TEXT NOT NULL", .null⟩,
    ⟨"model", "TEXT NOT NULL", .null⟩,
    ⟨"prompt_version", "TEXT NOT NULL", .null⟩,
    ⟨"input_tokens", "INTEGER NOT NULL", .null⟩,
    ⟨"cached_input_tokens", "INTEGER NOT NULL", .null⟩,
    ⟨"output_tokens", "INTEGER NOT NULL", .null⟩,
    ⟨"cost_usd", "REAL NOT NULL", .null⟩,
    ⟨"generated_at", "INTEGER NOT NULL", .null⟩,
    semanticType,
    meaning,
    colConfidence],
  .createTable "column_embeddings" [
    ⟨"schema_name", "TEXT NOT NULL", .null⟩,
    ⟨"table_name", "TEXT NOT NULL", .null⟩,
    ⟨"column_name", "TEXT NOT NULL", .null⟩,
    ⟨"source_connection_id", "TEXT NOT NULL", .null⟩,
    ⟨"model", "TEXT NOT NULL", .null⟩,
    ⟨"dimension", "INTEGER NOT NULL", .null⟩,
    ⟨"vector", "BLOB NOT NULL", .null⟩,
    ⟨"embedded_at", "INTEGER NOT NULL", .null⟩],
  .createTable "cost_ledger" [
    ⟨"source_connection_id", "TEXT PRIMARY KEY", .null⟩,
    ⟨"spent_usd_micros", "INTEGER NOT NULL DEFAULT 0", .integer 0⟩,
    ⟨"last_updated", "INTEGER NOT NULL", .null⟩],
  .createIndex ⟨"idx_col_emb_src", "column_embeddings",
    ["source_connection_id", "schema_name", "table_name", "column_name"], false⟩,
  .createIndex ⟨"idx_col_desc_src", "column_descriptions",
    ["source_connection_id", "schema_name", "table_name", "column_name"], false⟩,
  .createTable "example_queries" [
    ⟨"id", "INTEGER PRIMARY KEY", .null⟩,
    ⟨"source_connection_id", "TEXT NOT NULL", .null⟩,
    ⟨"schema_name", "TEXT NOT NULL", .null⟩,
    ⟨"table_name", "TEXT NOT NULL", .null⟩,
    ⟨"sql_text", "TEXT NOT NULL", .null⟩,
    ⟨"observation_count", "INTEGER NOT NULL DEFAULT 1", .integer 1⟩,
    ⟨"first_seen_at", "INTEGER NOT NULL", .null⟩,
    ⟨"last_seen_at", "INTEGER NOT NULL", .null⟩,
    ⟨"source", "TEXT NOT NULL CHECK (source IN ('pg_stat_statements', 'curated'))", .null⟩,
    ⟨"sensitivity", "TEXT NOT NULL DEFAULT 'public' CHECK (sensitivity IN ('public', " ++
    "'internal', 'confidential', 'pii'))", .text "public"⟩,
    ⟨"pii_categories", "TEXT NOT NULL DEFAULT ''", .text ""⟩],
  .createIndex ⟨"idx_example_queries_table_src", "example_queries",
    ["source_connection_id", "schema_name", "table_name", "observation_count", "last_seen_at",
      "id"], false⟩,
  .createIndex ⟨"idx_example_queries_unique", "example_queries",
    ["source_connection_id", "schema_name", "table_name", "sql_text"], true⟩,
  .createTable "entities" [
    ⟨"source_connection_id", "TEXT NOT NULL", .null⟩,
    ⟨"name", "TEXT NOT NULL", .null⟩,
    ⟨"description", "TEXT NOT NULL DEFAULT ''", .text ""⟩,
    ⟨"binding_schema", "TEXT NOT NULL", .null⟩,
    ⟨"binding_table", "TEXT NOT NULL", .null⟩,
    ⟨"identity", "TEXT NOT NULL", .null⟩,
    ⟨"origin", "TEXT NOT NULL CHECK (origin IN ('manual', 'suggested', 'dbt_import'))", .null⟩,
    inferenceMethod,
    validationState,
    bindConfidence,
    rationale,
    entityGroup,
    ⟨"created_at", "INTEGER NOT NULL", .null⟩,
    ⟨"updated_at", "INTEGER NOT NULL", .null⟩],
  .createTable "canonical_joins" [
    ⟨"source_connection_id", "TEXT NOT NULL", .null⟩,
    ⟨"name", "TEXT NOT NULL", .null⟩,
    ⟨"description", "TEXT NOT NULL DEFAULT ''", .text ""⟩,
    ⟨"source_entity", "TEXT NOT NULL", .null⟩,
    ⟨"target_entity", "TEXT NOT NULL", .null⟩,
    ⟨"on_columns_json", "TEXT NOT NULL", .null⟩,
    ⟨"origin", "TEXT NOT NULL CHECK (origin IN ('manual', 'suggested', 'dbt_import'))", .null⟩,
    inferenceMethod,
    validationState,
    ⟨"cardinality", "TEXT CHECK (cardinality IS NULL OR cardinality IN ('one_to_one', " ++
    "'one_to_many', 'many_to_one', 'many_to_many'))", .null⟩,
    ⟨"created_at", "INTEGER NOT NULL", .null⟩,
    ⟨"updated_at", "INTEGER NOT NULL", .null⟩],
  .createIndex ⟨"idx_canonical_joins_by_pair", "canonical_joins",
    ["source_connection_id", "target_entity", "source_entity", "name"], false⟩,
  .createTable "metrics" [
    ⟨"source_connection_id", "TEXT NOT NULL", .null⟩,
    ⟨"name", "TEXT NOT NULL", .null⟩,
    ⟨"description", "TEXT NOT NULL DEFAULT ''", .text ""⟩,
    ⟨"entity", "TEXT NOT NULL", .null⟩,
    ⟨"measure_agg", "TEXT NOT NULL CHECK (measure_agg IN ('sum', 'count', 'count_distinct', " ++
    "'avg', 'min', 'max'))", .null⟩,
    ⟨"measure_column", "TEXT", .null⟩,
    ⟨"measure_expression", "TEXT", .null⟩,
    ⟨"time_dimension", "TEXT", .null⟩,
    ⟨"time_grains", "TEXT NOT NULL DEFAULT ''", .text ""⟩,
    ⟨"origin", "TEXT NOT NULL CHECK (origin IN ('manual', 'suggested', 'dbt_import'))", .null⟩,
    inferenceMethod,
    validationState,
    ⟨"created_at", "INTEGER NOT NULL", .null⟩,
    ⟨"updated_at", "INTEGER NOT NULL", .null⟩],
  .createIndex ⟨"idx_metrics_by_entity", "metrics",
    ["source_connection_id", "entity", "name"], false⟩,
  .createTable "column_pii_tags" [
    ⟨"source_connection_id", "TEXT NOT NULL", .null⟩,
    ⟨"qualified_table", "TEXT NOT NULL", .null⟩,
    ⟨"column_name", "TEXT NOT NULL", .null⟩,
    ⟨"sensitivity", "TEXT NOT NULL CHECK (sensitivity IN ('public', 'internal', " ++
    "'confidential', 'pii'))", .null⟩,
    ⟨"categories", "TEXT NOT NULL DEFAULT ''", .text ""⟩,
    ⟨"origin", "TEXT NOT NULL CHECK (origin IN ('heuristic', 'operator'))", .null⟩,
    ⟨"classified_at", "INTEGER NOT NULL", .null⟩,
    piiConfidence,
    piiConfidenceScore],
  .createTable "graph_nodes" [
    ⟨"source_connection_id", "TEXT NOT NULL", .null⟩,
    ⟨"entity_name", "TEXT NOT NULL", .null⟩,
    ⟨"group", "TEXT NOT NULL DEFAULT 'other'", .text "other"⟩,
    ⟨"is_catastrophic", "INTEGER NOT NULL DEFAULT 0", .integer 0⟩,
    ⟨"row_count", "INTEGER", .null⟩,
    ⟨"created_at", "INTEGER NOT NULL", .null⟩],
  .createTable "graph_edges" [
    ⟨"source_connection_id", "TEXT NOT NULL", .null⟩,
    ⟨"join_name", "TEXT NOT NULL", .null⟩,
    ⟨"source_entity", "TEXT NOT NULL", .null⟩,
    ⟨"target_entity", "TEXT NOT NULL", .null⟩,
    ⟨"edge_origin", "TEXT NOT NULL DEFAULT 'declared' CHECK (edge_origin IN ('declared', " ++
    "'log_mined', 'inferred'))", .text "declared"⟩,
    ⟨"canonical_path_rank", "INTEGER NOT NULL DEFAULT 0 CHECK (canonical_path_rank IN (0, 1, " ++
    "2))", .integer 0⟩,
    edgeCardinality,
    ⟨"created_at", "INTEGER NOT NULL", .null⟩],
  .createIndex ⟨"idx_graph_edges_by_pair", "graph_edges",
    ["source_connection_id", "target_entity", "source_entity", "join_name"], false⟩]

/-- `_DDL_STATEMENTS` of `audit/ddl.py`. -/
def auditDdlStatements : List Statement := [
  .createTable "mcp_audit" [
    ⟨"id", "INTEGER PRIMARY KEY", .null⟩,
    ⟨"occurred_at", "TEXT NOT NULL", .null⟩,
    ⟨"source_connection_id", "TEXT NOT NULL", .null⟩,
    ⟨"caller_id", "TEXT", .null⟩,
    ⟨"tool_name", "TEXT NOT NULL", .null⟩,
    ⟨"status", "TEXT NOT NULL CHECK (status IN ('success', 'empty', 'partial', 'degraded', " ++
    "'error', 'refused'))", .null⟩,
    ⟨"refusal_reason", "TEXT CHECK (refusal_reason IS NULL OR refusal_reason IN " ++
    "('pii_blocked', 'allowlist_violation', 'fragment_unsafe', 'cost_cap_exceeded', " ++
    "'ambiguous_resolution', 'schema_drift'))", .null⟩,
    ⟨"cost_class", "TEXT NOT NULL CHECK (cost_class IN ('small', 'medium', 'large', " ++
    "'refused'))", .null⟩,
    ⟨"pii_categories", "TEXT NOT NULL DEFAULT ''", .text ""⟩,
    ⟨"ast_shape_hash", "BLOB", .null⟩,
    ⟨"rule_id", "TEXT", .null⟩,
    ⟨"fingerprint", "BLOB NOT NULL", .null⟩,
    ⟨"fingerprint_version", "TEXT NOT NULL", .null⟩,
    ⟨"chain_hash", "BLOB NOT NULL", .null⟩,
    anchorEntity],
  .createTrigger "mcp_audit_no_update" "mcp_audit",
  .createTrigger "mcp_audit_no_delete" "mcp_audit",
  .createIndex ⟨"idx_mcp_audit_occurred_at", "mcp_audit",
    ["occurred_at"], false⟩,
  .createIndex ⟨"idx_mcp_audit_fingerprint", "mcp_audit",
    ["fingerprint"], false⟩]

/-- `ensure_audit_schema`. -/
def ensureAuditSchema : List Statement :=
  auditDdlStatements ++ [.addColumnIfMissing "mcp_audit" anchorEntity]

/-- What `_init_schema` executes after the migrations, up to the commit. -/
def createStatements : List Statement :=
  ddlStatements ++ .insertVersion schemaVersion :: ensureAuditSchema

end SchemaBrain.Core.Schema
