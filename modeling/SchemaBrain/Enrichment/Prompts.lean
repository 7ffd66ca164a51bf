import SchemaBrain.Base.Python
import SchemaBrain.Core.Fingerprint
import SchemaBrain.Pii.Classifier

/-!
# The prompt that describes a column

`column_description_user_prompt`. Lines made from profiled values stand only in the prompts of
columns that the classifier, on the name and type alone, calls public.
-/

namespace SchemaBrain.Core

/-- `primary_key_columns`. -/
def Table.primaryKeyColumns (table : Table) : List String :=
  (table.columns.filter (·.isPrimaryKey)).map (·.name)

/-- The foreign keys that start in a column of the primary key. -/
def Table.keyForeignKeys (table : Table) : List ForeignKey :=
  table.foreignKeys.filter fun fk => fk.sourceColumns.any (· ∈ table.primaryKeyColumns)

/-- `f"{fk.target_schema}.{fk.target_table}"` of these keys, without repetitions. -/
def Table.keyTargets (table : Table) : List String :=
  (table.keyForeignKeys.map fun fk => fk.targetSchema ++ "." ++ fk.targetTable).eraseDups

/-- `is_junction_table`. -/
def Table.isJunctionTable (table : Table) : Bool :=
  let pkCols := table.primaryKeyColumns.eraseDups
  let fkSourceColumns := table.keyForeignKeys.flatMap (·.sourceColumns)
  2 ≤ pkCols.length && pkCols.all (· ∈ fkSourceColumns) && 2 ≤ table.keyTargets.length

/-- `junction_target_tables`. -/
def Table.junctionTargetTables (table : Table) : List String :=
  if table.isJunctionTable then Base.pySorted table.keyTargets else []

end SchemaBrain.Core

namespace SchemaBrain.Enrichment

open Base Core

/-- What a profiler finds of one column. -/
structure ColumnProfile extends ColumnStats where
  totalRows : Nat
  nullCount : Nat
  distinctCount : Nat
  nullCount_le : nullCount ≤ totalRows := by decide
  distinctCount_le : distinctCount ≤ totalRows - nullCount := by decide
  deriving DecidableEq

/-- A profile without what is made from single values. -/
def ColumnProfile.counts (stats : ColumnProfile) : ColumnProfile :=
  { stats with sampleValues := [], shapePatterns := [] }

/-- `_SIBLING_LIMIT`. -/
def siblingLimit : Nat := 8

/-- `str` of a truth value. -/
def pyBool (b : Bool) : String := if b then "True" else "False"

/-- The sensitivity that the gate in the prompt asks for. -/
def promptSensitivity (table : Table) (column : Column) : Sensitivity :=
  (Pii.classifyColumn column.name (some column.dataType) column.isPrimaryKey
    (some table.qualified.table)).sensitivity

section Prompt

-- `f"{null_pct:.1%}"` of the null count and the row count, a floating-point text.
variable (nullPct : Nat → Nat → String)

/-- The lines made from the profile; the sensitivity gates those made from its values. -/
def statsLines (sensitivity : Sensitivity) (stats : ColumnProfile) : List String :=
  ["Total rows: " ++ toString stats.totalRows,
    "Null %: " ++ nullPct stats.nullCount stats.totalRows,
    "Distinct values: " ++ toString stats.distinctCount] ++
  (if stats.sampleValues ≠ [] ∧ sensitivity = .isPublic then
    ["Sample values: " ++ " | ".intercalate stats.sampleValues] else []) ++
  (if stats.shapePatterns ≠ [] ∧ sensitivity = .isPublic then
    ["Shape patterns: " ++ ", ".intercalate stats.shapePatterns] else [])

/-- The lines made from the schema. -/
def schemaLines (table : Table) (column : Column) (fkTargets : List String) : List String :=
  let siblings := (table.columns.filter (·.name ≠ column.name)).take siblingLimit
  ["Table: " ++ table.qualified.text,
    "Column: " ++ column.name,
    "Type: " ++ column.dataType,
    "Nullable: " ++ pyBool column.nullable,
    "Primary key: " ++ pyBool column.isPrimaryKey] ++
  (match column.default with
    | none => []
    | some default => ["Default: " ++ default]) ++
  (if fkTargets ≠ [] then ["Foreign key references: " ++ ", ".intercalate fkTargets] else []) ++
  (if table.junctionTargetTables ≠ [] then
    ["Junction table associating: " ++ ", ".intercalate table.junctionTargetTables] else []) ++
  (if siblings ≠ [] then
    ["Sibling columns: " ++
      ", ".intercalate (siblings.map fun c => c.name ++ " (" ++ c.dataType ++ ")")] else [])

/-- `column_description_user_prompt`. -/
def columnDescriptionUserPrompt (table : Table) (column : Column) (stats : Option ColumnProfile)
    (fkTargets : List String) : String :=
  "\n".intercalate (schemaLines table column fkTargets ++
    match stats with
    | none => []
    | some stats => statsLines nullPct (promptSensitivity table column) stats)

/-- Of a column that is not public the prompt shows the counts only. -/
theorem statsLines_counts {sensitivity : Sensitivity} (h : sensitivity ≠ .isPublic)
    (stats : ColumnProfile) :
    statsLines nullPct sensitivity stats = statsLines nullPct sensitivity stats.counts := by
  simp [statsLines, ColumnProfile.counts, h]

/-- Two profiles give one prompt when they have the same counts and, where the gate finds the
column public, are the same. -/
theorem columnDescriptionUserPrompt_congr {table : Table} {column : Column}
    {stats stats' : Option ColumnProfile} (fkTargets : List String)
    (hcounts : stats.map (·.counts) = stats'.map (·.counts))
    (hpublic : promptSensitivity table column = .isPublic → stats = stats') :
    columnDescriptionUserPrompt nullPct table column stats fkTargets =
      columnDescriptionUserPrompt nullPct table column stats' fkTargets := by
  by_cases h : promptSensitivity table column = .isPublic
  · rw [hpublic h]
  · cases stats with
    | none =>
      rw [Option.map_none, eq_comm, Option.map_eq_none_iff] at hcounts
      rw [hcounts]
    | some stats =>
      rw [Option.map_some, eq_comm, Option.map_eq_some_iff] at hcounts
      obtain ⟨stats', rfl, hcounts⟩ := hcounts
      simp only [columnDescriptionUserPrompt]
      rw [statsLines_counts nullPct h stats, statsLines_counts nullPct h stats', hcounts]

end Prompt

end SchemaBrain.Enrichment
