import SchemaBrain.Core.SchemaScript

/-!
# Opening a store

`SQLiteStore._init_schema`: one transaction brings a file to the current schema, and the version
is checked after its commit. Opening is all or nothing unless the version check finds a version
that no migration starts from, after the tables such a file lacks are committed, or the file's
tables are not of the version it is stamped with.
-/

namespace SchemaBrain.Core.Schema

open SchemaBrain.Base SchemaBrain.Audit

/-! ## `_init_schema` -/

/-- Why the constructor raised. -/
inductive InitError
  | statement
  | schemaVersionMismatch (message : String)

/-- `SchemaVersionMismatchError` of `_init_schema`. -/
def mismatchMessage (stored : String) : String :=
  s!"Store schema version {pyRepr stored} does not match expected {pyRepr schemaVersion}. " ++
  "Pre-v13 stores are pre-alpha and do not have a migration path — delete or move the " ++
  "store file (path passed to SQLiteStore) and re-run `schemabrain index` to rebuild from " ++
  "scratch. v13 stores chain to v17 (13→14→15→16→17) and v14/v15/v16 stores migrate " ++
  "in-place; if you're seeing this message with a v13-v16 store the migration itself failed " ++
  "and the rollback left the version unchanged."

/-- What `_init_schema` executes before it knows the version. -/
def prologue : List Statement := [.begin, .createMeta, .selectVersion]

/-- What `_init_schema` executes once it knows the version. -/
def upgradeStatements (existingVersion : Option String) : List Statement :=
  migrations existingVersion ++ createStatements ++ [.commit]

/-- The explicit transaction of `_init_schema`, with a failure injected at a statement; `none` is
a rollback. -/
def transaction (failure : Option Nat) (db : Database) : Option Database :=
  (runScript exec failure prologue db).bind fun begun =>
    runScript exec (failure.map (· - prologue.length)) (upgradeStatements begun.version) begun

/-- Everything `_init_schema` executes up to the commit, on a file of some version. -/
def script (existingVersion : Option String) : List Statement :=
  prologue ++ upgradeStatements existingVersion

/-- `_init_schema`: the file it leaves and how it ended. The statement after the commit is the
SELECT of the version check. -/
def initSchema (failure : Option Nat) (db : Database) : Database × Except InitError Unit :=
  match transaction failure db with
  | none => (db, .error .statement)
  | some committed =>
    if failure = some (script db.version).length then (committed, .error .statement)
    else match committed.version with
      | none => (committed, .ok ())
      | some stored =>
        if stored ≠ schemaVersion then
          (committed, .error (.schemaVersionMismatch (mismatchMessage stored)))
        else (committed, .ok ())

/-- A file with nothing in it. -/
def emptyFile : Database := ⟨none, fun _ => none, []⟩

/-- What opening an empty file makes. -/
def freshStore : Database := (initSchema none emptyFile).1

/-! ## The audit chain of a file -/

/-- A value of a TEXT column; its affinity leaves no numbers. -/
def textCell : SqlValue → Option TextCell
  | .null => some .null
  | .text s => some (.text s)
  | .blob b => some (.blob b)
  | .integer _ | .real _ => none

/-- `_ROW_COLUMNS` of `audit/verify.py`, and the chain hash. -/
def auditColumns : List String :=
  ["id", "occurred_at", "source_connection_id", "caller_id", "tool_name", "status",
    "refusal_reason", "cost_class", "pii_categories", "ast_shape_hash", "rule_id", "fingerprint",
    "fingerprint_version", "chain_hash"]

/-- A row as `walk_chain` selects it; it does not select `anchor_entity`. -/
def auditRow (row : TableRow) : Option StoredRow := do
  let .integer id := row "id" | none
  return {
    id
    occurredAt := ← textCell (row "occurred_at")
    sourceConnectionId := ← textCell (row "source_connection_id")
    callerId := ← textCell (row "caller_id")
    toolName := ← textCell (row "tool_name")
    status := ← textCell (row "status")
    refusalReason := ← textCell (row "refusal_reason")
    costClass := ← textCell (row "cost_class")
    piiCategories := ← textCell (row "pii_categories")
    astShapeHash := row "ast_shape_hash"
    ruleId := ← textCell (row "rule_id")
    fingerprint := row "fingerprint"
    fingerprintVersion := ← textCell (row "fingerprint_version")
    chainHash := row "chain_hash"
    anchorEntity := .null }

/-- The rows of `mcp_audit` that `walk_chain` goes through. -/
def TableState.auditRows (T : TableState) : Option (List StoredRow) :=
  if ∀ c ∈ auditColumns, c ∈ T.names then T.rows.mapM auditRow else none

/-- `walk_chain` on a file; `none` is an error of its SELECT. -/
def Database.walkChain (H : HashFn) (db : Database) (full : Bool) (startAfterRowId : Option Int) :
    Option WalkResult := do
  let T ← db.tables "mcp_audit"
  let rows ← T.auditRows
  return Audit.walkChain H rows full startAfterRowId

/-! ## All or nothing -/

/-- The map in the docstring of `_migrate_v13_to_v14`: origin, inference method, validation
state. -/
def documentedProvenance : List (String × String × String) :=
  [("manual", "manually_authored", "confirmed"), ("suggested", "llm_suggested", "applied"),
    ("dbt_import", "dbt_import", "applied")]

/-- A row whose provenance is the one its origin documents. -/
def ProvenanceOfOrigin (row : TableRow) : Prop :=
  ∃ origin method state, (origin, method, state) ∈ documentedProvenance ∧
    row "origin" = .text origin ∧ row "inference_method" = .text method ∧
    row "validation_state" = .text state

/-- Every value of a table is in place in another. -/
def TableState.KeptIn (T T' : TableState) : Prop :=
  (∀ c ∈ T.names, c ∈ T'.names) ∧
    List.Forall₂ (fun row row' => ∀ c ∈ T.names, row' c = row c) T.rows T'.rows

/-- What the constructor promises when it returns; a file without `mcp_audit` has no chain to
report on. -/
structure Opened (db db' : Database) : Prop where
  version : db'.version = some schemaVersion
  shape : ∀ t, Option.Rel (fun T T' => T.columns.Perm T'.columns) (db'.tables t)
    (freshStore.tables t)
  metaKept : ∀ key, key ≠ versionKey → db'.metaValue key = db.metaValue key
  tablesKept : ∀ t T, db.tables t = some T → ∃ T', db'.tables t = some T' ∧ T.KeptIn T'
  provenance : db.version = some "13" → ∀ t ∈ originTables, ∀ T', db'.tables t = some T' →
    ∀ row ∈ T'.rows, ProvenanceOfOrigin row
  walk : ∀ H full startAfterRowId, db'.walkChain H full startAfterRowId =
    if (db.tables "mcp_audit").isSome then db.walkChain H full startAfterRowId
    else some ([], none)

/-- The same tables, columns and rows. -/
def Unchanged (db db' : Database) : Prop := db'.metaRows = db.metaRows ∧ db'.tables = db.tables

/-- A call returned with a store of the current version that holds what the file held, or raised
and left the file's tables, columns and rows as they were. -/
def AllOrNothing (db : Database) : Database × Except InitError Unit → Prop
  | (db', .ok ()) => Opened db db'
  | (db', .error _) => Unchanged db db'

/-! ## When it is -/

/-- The versions with which the constructor returns. -/
def openableVersions : List (Option String) :=
  [none, some "13", some "14", some "15", some "16", some "17"]

/-- The file allows every statement: the columns that its version's migrations add are not there,
and their tables are unless the migration looks for the table first; a version 13 file has one of
the three origins in every row; an index that is not there finds its columns, a unique one no
clash. -/
def Runnable (db : Database) : Prop := ∀ a ∈ script db.version, a.allowed db

/-- The column that a migration statement adds to a table. -/
def Statement.adds (t : String) : Statement → Option ColumnDecl
  | addColumn table c | addColumnIfTable table c => if t = table then some c else none
  | _ => none

/-- The columns that the migrations from a version add to a table. -/
def migratedColumns (existingVersion : Option String) (t : String) : List ColumnDecl :=
  (migrations existingVersion).filterMap (Statement.adds t)

/-- The columns of a table with those its version lacks. -/
def upgradedColumns (db : Database) (t : String) (T : TableState) : List ColumnDecl :=
  let columns := T.columns ++ migratedColumns db.version t
  if t = "mcp_audit" ∧ anchorEntity.name ∉ columns.map ColumnDecl.name then
    columns ++ [anchorEntity]
  else columns

/-- Every table of the file is a current one, without the columns its version lacks. -/
def Upgradable (db : Database) : Prop :=
  ∀ t T, db.tables t = some T →
    ∃ T', freshStore.tables t = some T' ∧ (upgradedColumns db t T).Perm T'.columns

/-- A stamped file in which nothing is to be made: no migration starts from its version, it has
every table, and its audit table has the last column. -/
def Settled (db : Database) : Prop :=
  (∃ v, db.version = some v ∧ v ∉ ["13", "14", "15", "16"]) ∧
    (∀ t, db.tables t = none → freshStore.tables t = none) ∧
    ∀ T, db.tables "mcp_audit" = some T → anchorEntity.name ∈ T.names

/-! ## The scripts -/

theorem migrations_eq_nil {v : Option String}
    (h : v ∉ [some "13", some "14", some "15", some "16"]) : migrations v = [] := by
  simp only [List.mem_cons, List.not_mem_nil, or_false, not_or] at h
  simp [migrations, h]

/-- A migration chain starts at one of four versions, or there is none. -/
theorem version_cases (v : Option String) :
    (v = some "13" ∨ v = some "14" ∨ v = some "15" ∨ v = some "16") ∨
      (v ∉ [some "13", some "14", some "15", some "16"] ∧ migrations v = []) := by
  by_cases h : v ∈ [some "13", some "14", some "15", some "16"]
  · exact .inl (by simpa using h)
  · exact .inr ⟨h, migrations_eq_nil h⟩

/-- What holds of the four chains and of none holds of all. -/
private theorem forall_migrations {P : List Statement → Prop} (h13 : P (migrations (some "13")))
    (h14 : P (migrations (some "14"))) (h15 : P (migrations (some "15")))
    (h16 : P (migrations (some "16"))) (hnil : P []) (v : Option String) : P (migrations v) := by
  rcases version_cases v with (rfl | rfl | rfl | rfl) | ⟨-, h⟩
  · exact h13
  · exact h14
  · exact h15
  · exact h16
  · exact h ▸ hnil

theorem script_supplied (v : Option String) : schemaRules.supplied [] (script v) = true :=
  forall_migrations
    (P := fun statements =>
      schemaRules.supplied [] (prologue ++ (statements ++ createStatements ++ [.commit])) = true)
    (by decide +kernel) (by decide +kernel) (by decide +kernel) (by decide +kernel)
    (by decide +kernel) v

theorem script_independent (v : Option String) :
    (script v).Pairwise fun a b => a.independent b = true := by
  -- The chain from version 13 has every statement of the others.
  have hlongest : (script (some "13")).Pairwise
      fun (a b : Statement) => a.independent b = true := by decide +kernel
  have hsub : (migrations v).Sublist (migrations (some "13")) := by
    have hparts : migrations (some "13") = migrateV13ToV14 ++ migrations (some "14") ∧
        migrations (some "14") = migrateV14ToV15 ++ migrations (some "15") ∧
        migrations (some "15") = migrateV15ToV16 ++ migrations (some "16") := by
      simp [migrations]
    obtain ⟨h13, h14, h15⟩ := hparts
    have sub14 : (migrations (some "14")).Sublist (migrations (some "13")) :=
      h13 ▸ List.sublist_append_right ..
    have sub15 : (migrations (some "15")).Sublist (migrations (some "13")) :=
      (h14 ▸ List.sublist_append_right ..).trans sub14
    have sub16 : (migrations (some "16")).Sublist (migrations (some "13")) :=
      (h15 ▸ List.sublist_append_right ..).trans sub15
    exact forall_migrations (P := fun statements => statements.Sublist (migrations (some "13")))
      (List.Sublist.refl _) sub14 sub15 sub16 (List.nil_sublist _) v
  exact hlongest.sublist (((hsub.append_right _).append_right _).append_left _)

theorem transaction_eq (failure : Option Nat) (db : Database) :
    transaction failure db = runScript exec failure (script db.version) db := by
  have hprologue : runScript exec none prologue db =
      some { db with metaRows := some (db.metaRows.getD fun _ => none) } := rfl
  have hversion : ({ db with metaRows := some (db.metaRows.getD fun _ => none) } :
      Database).version = db.version := by
    unfold Database.version Database.metaValue
    cases db.metaRows <;> rfl
  unfold transaction script
  rw [runScript_append, runScript_eq failure prologue, hprologue]
  by_cases h : failure.any (· < prologue.length) = true
  · rw [if_pos h, if_pos h, Option.bind_none]
  · rw [if_neg h, if_neg h, Option.bind_some, Option.bind_some, hversion]

/-- The file after every statement of its script. -/
def initialized (db : Database) : Database := schemaRules.effects (script db.version) db

/-- The transaction commits when no failure is injected in it and the file allows it. -/
theorem transaction_eq_some_iff {failure : Option Nat} {db db' : Database} :
    transaction failure db = some db' ↔
      failure.any (· < (script db.version).length) = false ∧ Runnable db ∧
        db' = initialized db := by
  rw [transaction_eq, runScript_eq]
  have hrun : runScript exec none (script db.version) db = some db' ↔
      Runnable db ∧ db' = initialized db :=
    schemaRules.runScript_eq_some_iff (by simp) (script_supplied db.version)
      (script_independent db.version)
  cases failure.any (· < (script db.version).length) with
  | true => simp
  | false => simpa using hrun

/-! ## The metadata after a script -/

/-- The version row after a statement that ran. -/
def Statement.onVersion : Statement → Option String → Option String
  | setVersion value, v => v.map fun _ => value
  | insertVersion value, v => some (v.getD value)
  | _, v => v

theorem onMeta_some (a : Statement) (m : String → Option String) :
    ∃ m', a.onMeta (some m) = some m' ∧ (∀ key, key ≠ versionKey → m' key = m key) ∧
      m' versionKey = a.onVersion (m versionKey) := by
  cases a with
  | setVersion value | insertVersion value =>
    exact ⟨_, rfl, fun key hkey => Function.update_of_ne hkey _ _, Function.update_self ..⟩
  | _ => exact ⟨m, rfl, fun _ _ => rfl, rfl⟩

theorem onMeta_foldl (statements : List Statement) (m : String → Option String) :
    ∃ m', statements.foldl (fun m a => a.onMeta m) (some m) = some m' ∧
      (∀ key, key ≠ versionKey → m' key = m key) ∧
      m' versionKey = statements.foldl (fun v a => a.onVersion v) (m versionKey) := by
  induction statements generalizing m with
  | nil => exact ⟨m, rfl, fun _ _ => rfl, rfl⟩
  | cons a rest ih =>
    obtain ⟨m₁, h₁, hother₁, hversion₁⟩ := onMeta_some a m
    obtain ⟨m₂, h₂, hother₂, hversion₂⟩ := ih m₁
    refine ⟨m₂, ?_, fun key hkey => (hother₂ key hkey).trans (hother₁ key hkey), ?_⟩
    · rw [List.foldl_cons, h₁, h₂]
    · rw [hversion₂, hversion₁, List.foldl_cons]

/-- The version a file of some version is left with. -/
def finalVersion (v : Option String) : String :=
  if v ∈ openableVersions then schemaVersion else v.getD schemaVersion

theorem upgradeStatements_version (v : Option String) :
    (upgradeStatements v).foldl (fun v a => a.onVersion v) v = some (finalVersion v) := by
  rcases version_cases v with (rfl | rfl | rfl | rfl) | ⟨hv, hnil⟩
  · rfl
  · rfl
  · rfl
  · rfl
  · have hfold : (upgradeStatements v).foldl (fun v a => a.onVersion v) v =
        some (v.getD schemaVersion) := by
      rw [upgradeStatements, hnil]
      rfl
    rw [hfold, finalVersion]
    split
    · next hmem =>
      -- Of the versions that open, none and 17 have no migration.
      have : v = none ∨ v = some "17" := by
        simp only [openableVersions, List.mem_cons, List.not_mem_nil, or_false] at hmem hv
        tauto
      rcases this with rfl | rfl <;> rfl
    · rfl

theorem initialized_metaRows (db : Database) :
    ∃ m, (initialized db).metaRows = some m ∧
      (∀ key, key ≠ versionKey → m key = db.metaValue key) ∧
      m versionKey = some (finalVersion db.version) := by
  have hvalue : ∀ key, (db.metaRows.getD fun _ => none) key = db.metaValue key := fun key => by
    unfold Database.metaValue
    cases db.metaRows <;> rfl
  obtain ⟨m, hm, hother, hversion⟩ :=
    onMeta_foldl (upgradeStatements db.version) (db.metaRows.getD fun _ => none)
  refine ⟨m, ?_, fun key hkey => (hother key hkey).trans (hvalue key), ?_⟩
  · rw [initialized, effects_metaRows, script, List.foldl_append, ← hm]
    rfl
  · rw [hversion, hvalue]
    exact upgradeStatements_version db.version

theorem initialized_metaValue (db : Database) {key : String} (h : key ≠ versionKey) :
    (initialized db).metaValue key = db.metaValue key := by
  obtain ⟨m, hm, hother, -⟩ := initialized_metaRows db
  rw [← hother key h, Database.metaValue, hm, Option.bind_some]

theorem initialized_version (db : Database) :
    (initialized db).version = some (finalVersion db.version) := by
  obtain ⟨m, hm, -, hversion⟩ := initialized_metaRows db
  rw [Database.version, Database.metaValue, hm, Option.bind_some, hversion]

theorem finalVersion_eq_iff {v : Option String} :
    v = some (finalVersion v) ↔ ∃ w, v = some w ∧ w ∉ ["13", "14", "15", "16"] := by
  unfold finalVersion
  cases v with
  | none => simp
  | some w =>
    split
    · next hmem =>
      have hcases : w = "13" ∨ w = "14" ∨ w = "15" ∨ w = "16" ∨ w = "17" := by
        simpa [openableVersions] using hmem
      rcases hcases with rfl | rfl | rfl | rfl | rfl <;> simp [schemaVersion]
    · next hmem =>
      simp only [openableVersions, List.mem_cons, reduceCtorEq, Option.some.injEq,
        List.not_mem_nil, or_false, false_or, not_or] at hmem
      simp [hmem]

/-- The metadata stays as it was when a version is stamped that no migration starts from. -/
theorem initialized_metaRows_eq_iff (db : Database) :
    (initialized db).metaRows = db.metaRows ↔
      ∃ v, db.version = some v ∧ v ∉ ["13", "14", "15", "16"] := by
  rw [← finalVersion_eq_iff, ← initialized_version]
  constructor
  · intro h
    rw [Database.version, Database.version, Database.metaValue, Database.metaValue, h]
  · intro h
    obtain ⟨m, hm, hother, hversion⟩ := initialized_metaRows db
    have hvalue : ∀ key, db.metaValue key = m key := fun key => by
      by_cases hkey : key = versionKey
      · rw [hkey, hversion, ← initialized_version]
        exact h
      · exact (hother key hkey).symm
    cases hrows : db.metaRows with
    | none =>
      have := hvalue versionKey
      rw [hversion, Database.metaValue, hrows] at this
      cases this
    | some m₀ =>
      rw [hm]
      refine congrArg some (funext fun key => ?_)
      rw [← hvalue key, Database.metaValue, hrows, Option.bind_some]

/-! ## A table after a script -/

/-- A statement that leaves every table that is there as it is. -/
def Statement.inert : Statement → Bool
  | addColumn _ _ | addColumnIfTable _ _ | addColumnIfMissing _ _ | backfillOrigin _ => false
  | _ => true

/-- The statements of migrations. -/
def Statement.migrates : Statement → Bool
  | setVersion _ | addColumn _ _ | addColumnIfTable _ _ | backfillOrigin _ => true
  | _ => false

theorem Statement.onTable_inert {a : Statement} (h : a.inert = true) (t : String)
    (T : TableState) : a.onTable t (some T) = some T := by
  cases a <;> simp [inert, onTable] at h ⊢

theorem Statement.onTable_none {a : Statement} (h : a.migrates = true) (t : String) :
    a.onTable t none = none := by
  cases a <;> simp [migrates, onTable] at h ⊢

theorem onTableAll_inert {statements : List Statement}
    (h : statements.all Statement.inert = true) (t : String) (T : TableState) :
    onTableAll t statements (some T) = some T := by
  induction statements with
  | nil => rfl
  | cons a rest ih =>
    rw [List.all_cons, Bool.and_eq_true] at h
    rw [onTableAll, List.foldl_cons, a.onTable_inert h.1]
    exact ih h.2

theorem onTableAll_append (t : String) (first second : List Statement) (T : Option TableState) :
    onTableAll t (first ++ second) T = onTableAll t second (onTableAll t first T) :=
  List.foldl_append

/-- The last statements of a script leave a table alone, but for the last column of the audit
table. -/
theorem onTableAll_createStatements (t : String) (T : TableState) :
    onTableAll t createStatements (some T) =
      some (if t = "mcp_audit" then T.ensureColumn anchorEntity else T) := by
  have hsplit : createStatements =
      (ddlStatements ++ .insertVersion schemaVersion :: auditDdlStatements) ++
        [.addColumnIfMissing "mcp_audit" anchorEntity] := by
    simp [createStatements, ensureAuditSchema]
  rw [hsplit, onTableAll_append, onTableAll_inert (by decide)]
  simp only [onTableAll, List.foldl_cons, List.foldl_nil, Statement.onTable, Option.map_some]
  split <;> rfl

theorem migrations_migrate (v : Option String) : (migrations v).all Statement.migrates = true :=
  forall_migrations (P := fun statements => statements.all Statement.migrates = true)
    rfl rfl rfl rfl rfl v

/-- Migrations make no table. -/
theorem onTableAll_none {statements : List Statement}
    (h : statements.all Statement.migrates = true) (t : String) :
    onTableAll t statements none = none := by
  induction statements with
  | nil => rfl
  | cons a rest ih =>
    rw [List.all_cons, Bool.and_eq_true] at h
    rw [onTableAll, List.foldl_cons, a.onTable_none h.1]
    exact ih h.2

/-- Migrations add their columns at the end of a table. -/
theorem onTableAll_columns {statements : List Statement}
    (h : statements.all Statement.migrates = true) (t : String) (T : TableState) :
    ∃ T', onTableAll t statements (some T) = some T' ∧
      T'.columns = T.columns ++ statements.filterMap (Statement.adds t) := by
  induction statements generalizing T with
  | nil => exact ⟨T, rfl, by simp⟩
  | cons a rest ih =>
    rw [List.all_cons, Bool.and_eq_true] at h
    have ha : ∃ T₁, a.onTable t (some T) = some T₁ ∧
        T₁.columns = T.columns ++ (a.adds t).toList := by
      cases a <;> simp only [Statement.migrates, Bool.false_eq_true, false_and] at h
      case setVersion value => exact ⟨T, rfl, by simp [Statement.adds]⟩
      case backfillOrigin table =>
        by_cases heq : t = table <;>
          simp [Statement.onTable, Statement.adds, heq, TableState.backfilled]
      all_goals
        next table c =>
          by_cases heq : t = table <;>
            simp [Statement.onTable, Statement.adds, heq, TableState.addColumn]
    obtain ⟨T₁, h₁, hcolumns₁⟩ := ha
    obtain ⟨T', h', hcolumns'⟩ := ih h.2 T₁
    refine ⟨T', ?_, ?_⟩
    · rw [onTableAll, List.foldl_cons, h₁]
      exact h'
    · rw [hcolumns', hcolumns₁, List.append_assoc]
      cases hadds : a.adds t <;> simp [hadds]

theorem SameOn.trans {columns : List String} {T₁ T₂ T₃ : TableState} (h : SameOn columns T₁ T₂)
    (h' : SameOn columns T₂ T₃) : SameOn columns T₁ T₃ := by
  obtain ⟨hnames, f, hrows, hf⟩ := h
  obtain ⟨hnames', f', hrows', hf'⟩ := h'
  refine ⟨fun c hc => (hnames c hc).trans (hnames' c hc), f' ∘ f, ?_, fun row c hc => ?_⟩
  · rw [hrows', hrows, List.map_map]
  · rw [Function.comp_apply, hf' _ c hc, hf row c hc]

/-- A script whose statements spare some columns of a table leaves them as they are. -/
theorem onTableAll_sameOn {statements : List Statement} {t : String} {columns : List String}
    (h : ∀ a ∈ statements, a.spares t columns = true) (T : TableState) :
    ∃ T', onTableAll t statements (some T) = some T' ∧ SameOn columns T T' := by
  induction statements generalizing T with
  | nil => exact ⟨T, rfl, .refl⟩
  | cons a rest ih =>
    obtain ⟨ha, hrest⟩ := List.forall_mem_cons.mp h
    have hrel := Statement.onTable_sameOn ha (some T)
    generalize hstep : a.onTable t (some T) = after at hrel
    cases hrel with
    | some hsame =>
      next T₁ =>
      obtain ⟨T', h', hsame'⟩ := ih hrest T₁
      refine ⟨T', ?_, hsame.trans hsame'⟩
      rw [onTableAll, List.foldl_cons, hstep]
      exact h'

/-- A table is backfilled after it gets the columns to fill. -/
theorem addColumn_mem_of_backfillOrigin (v : Option String) :
    ∀ t, .backfillOrigin t ∈ migrations v →
      .addColumn t inferenceMethod ∈ migrations v ∧ .addColumn t validationState ∈ migrations v :=
  forall_migrations
    (P := fun statements => ∀ t, .backfillOrigin t ∈ statements →
      .addColumn t inferenceMethod ∈ statements ∧ .addColumn t validationState ∈ statements)
    (by
      simp [migrations, migrateV13ToV14, migrateV14ToV15, migrateV15ToV16, migrateV16ToV17,
        originTables])
    (by simp [migrations, migrateV14ToV15, migrateV15ToV16, migrateV16ToV17])
    (by simp [migrations, migrateV15ToV16, migrateV16ToV17])
    (by simp [migrations, migrateV16ToV17])
    (by simp) v

theorem initialized_tables (db : Database) (t : String) :
    (initialized db).tables t =
      onTableAll t createStatements (onTableAll t (migrations db.version) (db.tables t)) := by
  rw [initialized, effects_tables, script, upgradeStatements, onTableAll_append,
    onTableAll_append, onTableAll_append]
  rfl

theorem mem_script_of_migrations {a : Statement} {v : Option String} (h : a ∈ migrations v) :
    a ∈ script v := by
  simp [script, upgradeStatements, h]

/-- Migrations that a file allows leave the columns of its tables alone. -/
theorem migrations_spare {db : Database} (hrun : Runnable db) {t : String} {T : TableState}
    (hT : db.tables t = some T) : ∀ a ∈ migrations db.version, a.spares t T.names = true := by
  intro a ha
  have hadd : ∀ {table : String} {c : ColumnDecl}, .addColumn table c ∈ migrations db.version →
      table = t → c.name ∉ T.names := by
    rintro table c hmem rfl
    obtain ⟨T', hT', hc⟩ := hrun _ (mem_script_of_migrations hmem)
    exact Option.some.inj (hT'.symm.trans hT) ▸ hc
  have hallowed := hrun a (mem_script_of_migrations ha)
  have hmigrates := List.all_eq_true.mp (migrations_migrate db.version) a ha
  cases a <;> simp only [Statement.migrates, Bool.false_eq_true] at hmigrates
  case setVersion value => rfl
  case addColumn table c =>
    simp only [Statement.spares, Bool.or_eq_true, decide_eq_true_eq]
    exact or_iff_not_imp_left.mpr fun heq => hadd ha (not_not.mp heq)
  case addColumnIfTable table c =>
    simp only [Statement.spares, Bool.or_eq_true, decide_eq_true_eq]
    refine or_iff_not_imp_left.mpr fun heq => ?_
    rw [not_not] at heq
    exact hallowed T (heq ▸ hT)
  case backfillOrigin table =>
    simp only [Statement.spares, Bool.or_eq_true, Bool.and_eq_true, decide_eq_true_eq]
    refine or_iff_not_imp_left.mpr fun heq => ?_
    obtain ⟨him, hvs⟩ := addColumn_mem_of_backfillOrigin db.version table ha
    exact ⟨hadd him (not_not.mp heq), hadd hvs (not_not.mp heq)⟩

/-- A table that was missing is made as in a fresh store. -/
theorem initialized_absent {db : Database} {t : String} (hT : db.tables t = none) :
    (initialized db).tables t = onTableAll t createStatements none := by
  rw [initialized_tables, hT, onTableAll_none (migrations_migrate _)]

/-- A table that was there has the columns it lacked, at the end, and what it had. -/
theorem initialized_present {db : Database} (hrun : Runnable db) {t : String} {T : TableState}
    (hT : db.tables t = some T) :
    ∃ T', (initialized db).tables t = some T' ∧ T'.columns = upgradedColumns db t T ∧
      SameOn T.names T T' := by
  obtain ⟨T₁, h₁, hcolumns⟩ := onTableAll_columns (migrations_migrate db.version) t T
  obtain ⟨T₁', h₁', hsame⟩ := onTableAll_sameOn (migrations_spare hrun hT) T
  obtain rfl : T₁ = T₁' := Option.some.inj (h₁.symm.trans h₁')
  refine ⟨_, by rw [initialized_tables, hT, h₁, onTableAll_createStatements], ?_, ?_⟩
  · change _ = T.columns ++ migratedColumns db.version t at hcolumns
    simp only [upgradedColumns, ← hcolumns]
    by_cases ht : t = "mcp_audit"
    · rw [if_pos ht]
      by_cases hc : anchorEntity.name ∈ T₁.names
      · rw [TableState.ensureColumn, if_pos hc, if_neg fun h => h.2 hc]
      · rw [TableState.ensureColumn, if_neg hc, if_pos ⟨ht, hc⟩, TableState.addColumn]
    · rw [if_neg ht, if_neg fun h => ht h.1]
  · split
    · refine hsame.trans ?_
      unfold TableState.ensureColumn
      split
      · exact .refl
      · next hc => exact .addColumn fun hmem => hc ((hsame.1 _ hmem).mp hmem)
    · exact hsame

/-- What `SameOn` says of all columns of a table. -/
theorem SameOn.keptIn {T T' : TableState} (h : SameOn T.names T T') : T.KeptIn T' := by
  obtain ⟨hnames, f, hrows, hf⟩ := h
  refine ⟨fun c hc => (hnames c hc).mp hc, ?_⟩
  rw [hrows, List.forall₂_map_right_iff]
  exact List.forall₂_same.mpr fun row _ c hc => hf row c hc

/-! ## Fresh stores -/

theorem runnable_emptyFile : Runnable emptyFile := by
  have hno : ((script none).all fun a => !(a matches .addColumn _ _)) = true := by decide
  intro a ha
  have h := List.all_eq_true.mp hno a ha
  cases a <;> simp [Statement.allowed, emptyFile] at h ⊢

/-- A version that does not open is stored as it was, and is not the current one. -/
theorem finalVersion_ne {v : Option String} (h : v ∉ openableVersions) :
    finalVersion v ≠ schemaVersion := by
  rw [finalVersion, if_neg h]
  rintro heq
  cases v with
  | none => simp [openableVersions] at h
  | some w =>
    rw [Option.getD_some] at heq
    simp [openableVersions, heq, schemaVersion] at h

theorem initSchema_of_rollback {failure : Option Nat} {db : Database}
    (h : failure.any (· < (script db.version).length) = true ∨ ¬Runnable db) :
    initSchema failure db = (db, .error .statement) := by
  have hnone : transaction failure db = none := by
    refine Option.eq_none_iff_forall_ne_some.mpr fun db' htransaction => ?_
    obtain ⟨hfailure, hrun, -⟩ := transaction_eq_some_iff.mp htransaction
    rcases h with h | h
    · rw [h] at hfailure
      cases hfailure
    · exact h hrun
  rw [initSchema, hnone]

/-- The constructor raises after the commit. -/
def RaisesAfterCommit (failure : Option Nat) (db : Database) : Prop :=
  failure = some (script db.version).length ∨ db.version ∉ openableVersions

theorem initSchema_of_commit {failure : Option Nat} {db : Database}
    (hfailure : failure.any (· < (script db.version).length) = false) (hrun : Runnable db) :
    (RaisesAfterCommit failure db → ∃ e, initSchema failure db = (initialized db, .error e)) ∧
      (¬RaisesAfterCommit failure db → initSchema failure db = (initialized db, .ok ())) := by
  have hcommit : transaction failure db = some (initialized db) :=
    transaction_eq_some_iff.mpr ⟨hfailure, hrun, rfl⟩
  unfold initSchema RaisesAfterCommit
  simp only [hcommit, initialized_version]
  by_cases hlast : failure = some (script db.version).length
  · rw [if_pos hlast]
    exact ⟨fun _ => ⟨_, rfl⟩, fun h => absurd (.inl hlast) h⟩
  · rw [if_neg hlast]
    by_cases hopen : db.version ∈ openableVersions
    · have hfinal : finalVersion db.version = schemaVersion := if_pos hopen
      rw [hfinal, if_neg (by simp)]
      exact ⟨fun h => absurd h (by simp [hlast, hopen]), fun _ => rfl⟩
    · rw [if_pos (finalVersion_ne hopen)]
      exact ⟨fun _ => ⟨_, rfl⟩, fun h => absurd (.inr hopen) h⟩

theorem freshStore_tables (t : String) :
    freshStore.tables t = onTableAll t createStatements none := by
  have hfresh := (@initSchema_of_commit none _ rfl runnable_emptyFile).2 (by
    rintro (h | h)
    · cases h
    · exact h (by simp [Database.version, Database.metaValue, emptyFile, openableVersions]))
  rw [freshStore, hfresh]
  exact initialized_absent rfl

/-! ## What the constructor promises -/

/-- The tables have the current shape exactly when the file's could be brought to it. -/
theorem initialized_shape_iff {db : Database} (hrun : Runnable db) :
    (∀ t, Option.Rel (fun T T' => T.columns.Perm T'.columns) ((initialized db).tables t)
      (freshStore.tables t)) ↔ Upgradable db := by
  refine forall_congr' fun t => ?_
  cases hT : db.tables t with
  | none =>
    rw [initialized_absent hT, ← freshStore_tables]
    refine iff_of_true ?_ nofun
    cases freshStore.tables t with
    | none => exact .none
    | some F => exact .some (.refl _)
  | some T =>
    obtain ⟨T', hT', hcolumns, -⟩ := initialized_present hrun hT
    rw [hT']
    constructor
    · intro hrel T₀ hT₀
      obtain rfl : T = T₀ := Option.some.inj hT₀
      generalize freshStore.tables t = fresh at hrel ⊢
      cases hrel with
      | some hperm => exact ⟨_, rfl, hcolumns ▸ hperm⟩
    · intro h
      obtain ⟨F, hF, hperm⟩ := h T rfl
      rw [hF]
      exact .some (hcolumns.symm ▸ hperm)

/-- Around a backfill in the chain from version 13, nothing writes what it reads, and nothing
after it what it writes. -/
private theorem backfill_split {t : String} (ht : t ∈ originTables) :
    ∃ first rest, migrations (some "13") = first ++ .backfillOrigin t :: rest ∧
      (∀ a ∈ first, a.spares t ["origin"] = true) ∧
      ∀ a ∈ rest, a.spares t ["origin", "inference_method", "validation_state"] = true := by
  simp only [originTables, List.mem_cons, List.not_mem_nil, or_false] at ht
  rcases ht with rfl | rfl | rfl
  · exact ⟨(migrations (some "13")).take 2, (migrations (some "13")).drop 3, rfl,
      List.all_eq_true.mp (by decide), List.all_eq_true.mp (by decide)⟩
  · exact ⟨(migrations (some "13")).take 5, (migrations (some "13")).drop 6, rfl,
      List.all_eq_true.mp (by decide), List.all_eq_true.mp (by decide)⟩
  · exact ⟨(migrations (some "13")).take 8, (migrations (some "13")).drop 9, rfl,
      List.all_eq_true.mp (by decide), List.all_eq_true.mp (by decide)⟩

/-- The backfill gives a row the provenance that its origin documents. -/
theorem provenanceOfOrigin_backfilledRow {row : TableRow} (h : Backfillable row) :
    ProvenanceOfOrigin (backfilledRow row) := by
  have horigin : backfilledRow row "origin" = row "origin" := by
    simp [backfilledRow]
  have hmethod : backfilledRow row "inference_method" = inferenceMethodOf (row "origin") := by
    simp [backfilledRow]
  have hstate : backfilledRow row "validation_state" = validationStateOf (row "origin") := by
    simp [backfilledRow]
  unfold ProvenanceOfOrigin documentedProvenance
  rw [horigin, hmethod, hstate]
  have hcases : row "origin" = .text "manual" ∨ row "origin" = .text "suggested" ∨
      row "origin" = .text "dbt_import" := by
    have hne := h.1
    unfold inferenceMethodOf at hne
    split at hne
    · next heq => exact .inl heq
    · next heq => exact .inr (.inl heq)
    · next heq => exact .inr (.inr heq)
    · exact absurd rfl hne
  rcases hcases with heq | heq | heq
  · exact ⟨"manual", "manually_authored", "confirmed", by simp, heq, by rw [heq]; rfl,
      by rw [heq]; rfl⟩
  · exact ⟨"suggested", "llm_suggested", "applied", by simp, heq, by rw [heq]; rfl,
      by rw [heq]; rfl⟩
  · exact ⟨"dbt_import", "dbt_import", "applied", by simp, heq, by rw [heq]; rfl,
      by rw [heq]; rfl⟩

/-- The rows of a version 13 file get the provenance that their origin documents. -/
theorem initialized_provenance {db : Database} (hrun : Runnable db)
    (h13 : db.version = some "13") {t : String} (ht : t ∈ originTables) {T' : TableState}
    (hT' : (initialized db).tables t = some T') : ∀ row ∈ T'.rows, ProvenanceOfOrigin row := by
  obtain ⟨first, rest, hsplit, hfirst, hrest⟩ := backfill_split ht
  have haudit : t ≠ "mcp_audit" := by
    rintro rfl
    simp [originTables] at ht
  have hmem : .backfillOrigin t ∈ migrations db.version := by
    rw [h13, hsplit]
    simp
  -- The table is there: the statement before the backfill adds a column to it.
  obtain ⟨T, hT, -⟩ := hrun _ (mem_script_of_migrations
    (addColumn_mem_of_backfillOrigin _ t hmem).1)
  obtain ⟨-, hbackfillable⟩ := hrun _ (mem_script_of_migrations hmem) T hT
  obtain ⟨T₁, h₁, -, f, hrows₁, hf⟩ := onTableAll_sameOn hfirst T
  obtain ⟨T₂, h₂, -, g, hrows₂, hg⟩ := onTableAll_sameOn hrest T₁.backfilled
  have hbackfill : onTableAll t (.backfillOrigin t :: rest) (some T₁) =
      onTableAll t rest (some T₁.backfilled) := by
    rw [onTableAll, List.foldl_cons, Statement.onTable, if_pos rfl, Option.map_some]
    rfl
  have hfinal : (initialized db).tables t = some T₂ := by
    rw [initialized_tables, hT, h13, hsplit, onTableAll_append, h₁, hbackfill, h₂,
      onTableAll_createStatements, if_neg haudit]
  obtain rfl : T₂ = T' := Option.some.inj (hfinal.symm.trans hT')
  rw [hrows₂, TableState.backfilled, hrows₁, List.map_map, List.map_map]
  intro row' hrow'
  obtain ⟨row, hrow, rfl⟩ := List.mem_map.mp hrow'
  have horigin : (f row) "origin" = row "origin" := hf row "origin" (by simp)
  have hfilled : Backfillable (f row) := by
    unfold Backfillable
    rw [horigin]
    exact hbackfillable row hrow
  obtain ⟨origin, method, state, hdoc, ho, hm, hs⟩ := provenanceOfOrigin_backfilledRow hfilled
  refine ⟨origin, method, state, hdoc, ?_, ?_, ?_⟩
  · rw [← ho]; exact hg _ "origin" (by simp)
  · rw [← hm]; exact hg _ "inference_method" (by simp)
  · rw [← hs]; exact hg _ "validation_state" (by simp)

/-! ## The audit chain -/

theorem auditRow_congr {row row' : TableRow} (h : ∀ c ∈ auditColumns, row' c = row c) :
    auditRow row' = auditRow row := by
  simp only [auditColumns, List.forall_mem_cons, List.not_mem_nil, false_imp_iff,
    implies_true, and_true] at h
  obtain ⟨h₁, h₂, h₃, h₄, h₅, h₆, h₇, h₈, h₉, h₁₀, h₁₁, h₁₂, h₁₃, h₁₄⟩ := h
  simp only [auditRow, h₁, h₂, h₃, h₄, h₅, h₆, h₇, h₈, h₉, h₁₀, h₁₁, h₁₂, h₁₃, h₁₄]

/-- No column is added to the audit table that `walk_chain` selects. -/
theorem upgradedColumns_audit (db : Database) (T : TableState) :
    ∀ c ∈ upgradedColumns db "mcp_audit" T, c ∈ T.columns ∨ c = anchorEntity := by
  have hmigrated : ∀ c ∈ migratedColumns db.version "mcp_audit", c = anchorEntity :=
    forall_migrations
      (P := fun statements => ∀ c ∈ statements.filterMap (Statement.adds "mcp_audit"),
        c = anchorEntity)
      (by decide) (by decide) (by decide) (by decide) (by simp) db.version
  intro c hc
  simp only [upgradedColumns] at hc
  split at hc
  · simp only [List.mem_append, List.mem_singleton] at hc
    rcases hc with (hc | hc) | hc
    · exact .inl hc
    · exact .inr (hmigrated c hc)
    · exact .inr hc
  · rcases List.mem_append.mp hc with hc | hc
    · exact .inl hc
    · exact .inr (hmigrated c hc)

/-- `walk_chain` reports what it did before, and nothing on a chain that was not there. -/
theorem initialized_walkChain {db : Database} (hrun : Runnable db) (H : HashFn) (full : Bool)
    (startAfterRowId : Option Int) :
    (initialized db).walkChain H full startAfterRowId =
      if (db.tables "mcp_audit").isSome then db.walkChain H full startAfterRowId
      else some ([], none) := by
  cases hT : db.tables "mcp_audit" with
  | none =>
    have hmade : ∃ T', (initialized db).tables "mcp_audit" = some T' ∧ T'.auditRows = some [] := by
      rw [initialized_absent hT]
      exact ⟨_, rfl, by decide⟩
    obtain ⟨T', hT', hrows⟩ := hmade
    rw [Database.walkChain, hT']
    simp only [Option.bind_eq_bind, Option.bind_some, hrows]
    cases startAfterRowId <;> rfl
  | some T =>
    obtain ⟨T', hT', hcolumns, hsame⟩ := initialized_present hrun hT
    have hnames : (∀ c ∈ auditColumns, c ∈ T'.names) ↔ ∀ c ∈ auditColumns, c ∈ T.names := by
      refine ⟨fun h c hc => ?_, fun h c hc => (hsame.1 c (h c hc)).mp (h c hc)⟩
      obtain ⟨decl, hdecl, rfl⟩ := List.mem_map.mp (h c hc)
      rw [hcolumns] at hdecl
      rcases upgradedColumns_audit db T decl hdecl with hmem | rfl
      · exact List.mem_map.mpr ⟨decl, hmem, rfl⟩
      · exact absurd hc (by decide)
    have hrows : T'.auditRows = T.auditRows := by
      unfold TableState.auditRows
      rw [if_congr hnames rfl rfl]
      split
      · next hall =>
        obtain ⟨-, f, hmap, hf⟩ := hsame
        rw [hmap, List.mapM_map]
        congr 1
        funext row
        exact auditRow_congr fun c hc => hf row c (hall c hc)
      · rfl
    rw [Option.isSome_some, if_pos rfl, Database.walkChain, Database.walkChain, hT', hT]
    simp only [Option.bind_eq_bind, Option.bind_some, hrows]

/-- Opening brings a file to the current version exactly when its tables can be brought to it. -/
theorem opened_iff {db : Database} (hrun : Runnable db) (hopen : db.version ∈ openableVersions) :
    Opened db (initialized db) ↔ Upgradable db := by
  rw [← initialized_shape_iff hrun]
  refine ⟨Opened.shape, fun hshape => ?_⟩
  exact {
    version := by rw [initialized_version, finalVersion, if_pos hopen]
    shape := hshape
    metaKept := fun _ hkey => initialized_metaValue db hkey
    tablesKept := fun t T hT =>
      have ⟨T', hT', _, hsame⟩ := initialized_present hrun hT
      ⟨T', hT', hsame.keptIn⟩
    provenance := fun h13 t ht T' hT' => initialized_provenance hrun h13 ht hT'
    walk := initialized_walkChain hrun }

/-- A file is as it was exactly when there was nothing to make. -/
theorem unchanged_iff {db : Database} :
    Unchanged db (initialized db) ↔ Settled db := by
  unfold Unchanged Settled
  rw [initialized_metaRows_eq_iff]
  refine and_congr_right fun hstamped => ?_
  obtain ⟨v, hv, hno⟩ := hstamped
  have hmigrations : migrations db.version = [] := migrations_eq_nil (by simpa [hv] using hno)
  have htable : ∀ t, (initialized db).tables t = (db.tables t).elim (freshStore.tables t)
      fun T => some (if t = "mcp_audit" then T.ensureColumn anchorEntity else T) := by
    intro t
    cases hT : db.tables t with
    | none => rw [initialized_absent hT, freshStore_tables, Option.elim_none]
    | some T =>
      rw [initialized_tables, hT, hmigrations]
      exact onTableAll_createStatements t T
  constructor
  · intro heq
    refine ⟨fun t hT => ?_, fun T hT => ?_⟩
    · have := htable t
      rw [heq, hT] at this
      exact this.symm
    · have := htable "mcp_audit"
      rw [heq, hT] at this
      simp only [Option.elim_some, if_pos, Option.some.injEq] at this
      by_contra hc
      rw [TableState.ensureColumn, if_neg hc] at this
      have hlength := congrArg (fun T => T.columns.length) this
      simp [TableState.addColumn] at hlength
  · rintro ⟨habsent, hanchor⟩
    funext t
    rw [htable]
    cases hT : db.tables t with
    | none => exact habsent t hT
    | some T =>
      refine congrArg some ?_
      split
      · next heq =>
        rw [TableState.ensureColumn, if_pos (hanchor T (heq ▸ hT))]
      · rfl

/-! ## The results -/

/-- A store stamped with a version that no migration starts from, before any table is made. -/
def stamped (v : String) : Database :=
  ⟨some fun key => if key = versionKey then some v else none, fun _ => none, []⟩

/-- Opening a store of version 12 raises and leaves it with tables that it did not have. -/
theorem not_allOrNothing : ¬∀ failure db, AllOrNothing db (initSchema failure db) := by
  intro h
  have hrun : Runnable (stamped "12") := by
    intro a ha
    have hno : ((script (stamped "12").version).all fun a => !(a matches .addColumn _ _)) = true :=
      by decide
    have h := List.all_eq_true.mp hno a ha
    cases a <;> simp [Statement.allowed, stamped] at h ⊢
  obtain ⟨e, hraised⟩ := (@initSchema_of_commit none _ rfl hrun).1 (.inr (by decide))
  have hunchanged := h none (stamped "12")
  rw [hraised] at hunchanged
  have hmade : ((initialized (stamped "12")).tables "entities").isSome = true := by
    rw [initialized_absent rfl]
    rfl
  rw [hunchanged.2] at hmade
  cases hmade

/-- Opening a store is all or nothing exactly when it stops before its commit, by an injected
failure or by a statement the file does not allow; or it returns, and every table is a current one
without the columns its version lacks; or it raises past the commit, and nothing was missing. -/
theorem allOrNothing_iff (failure : Option Nat) (db : Database) :
    AllOrNothing db (initSchema failure db) ↔
      failure.any (· < (script db.version).length) = true ∨ ¬Runnable db ∨
        (RaisesAfterCommit failure db ∧ Settled db) ∨
        (¬RaisesAfterCommit failure db ∧ Upgradable db) := by
  by_cases hstops : failure.any (· < (script db.version).length) = true ∨ ¬Runnable db
  · rw [initSchema_of_rollback hstops, ← or_assoc]
    exact iff_of_true ⟨rfl, rfl⟩ (.inl hstops)
  · rw [not_or, not_not, Bool.not_eq_true] at hstops
    obtain ⟨hfailure, hrun⟩ := hstops
    obtain ⟨hraises, hreturns⟩ := initSchema_of_commit hfailure hrun
    simp only [hfailure, Bool.false_eq_true, not_true, hrun, false_or]
    by_cases hraise : RaisesAfterCommit failure db
    · obtain ⟨e, hresult⟩ := hraises hraise
      rw [hresult]
      simpa [AllOrNothing, hraise] using unchanged_iff
    · have hopen : db.version ∈ openableVersions := not_not.mp fun h => hraise (.inr h)
      rw [hreturns hraise]
      simpa [AllOrNothing, hraise] using opened_iff hrun hopen

end SchemaBrain.Core.Schema
