import Mathlib.Logic.Equiv.Defs
import SchemaBrain.Base.TwoRuns
import SchemaBrain.Mcp.DescribeTable

/-!
# Stores that differ in blocked names

Two catalogs with the same rows but for the names, defaults and descriptions of blocked
columns, each renamed wherever the rows hold it. What reads tags sees no difference.
-/

namespace SchemaBrain.Mcp

open Base Core Semantic

/-- The new names of the columns, by the text of their table. -/
abbrev Renaming := String → Equiv.Perm String

/-- The columns of an expression under new names. -/
def renameExpr (rename : String → String) : MeasureExpr → MeasureExpr
  | .name id => .name (rename id)
  | .int value => .int value
  | .float repr => .float repr
  | .binOp left op right => .binOp (renameExpr rename left) op (renameExpr rename right)
  | .neg operand => .neg (renameExpr rename operand)

/-- What a measure reads under new names. -/
def renameRef (rename : String → String) : MeasureRef → MeasureRef
  | .column name => .column (rename name)
  | .expression ast => .expression (renameExpr rename ast)

section Relation

variable (catalog : Catalog) (piiBlock : List PiiCategory) (ρ : Renaming)

/-- The name of one column in both stores: only a blocked column changes its name. -/
def Renamed (table name name' : String) : Prop :=
  name' = ρ table name ∧ (name' = name ∨ Blocked catalog.toStore piiBlock table name)

/-- One column in both stores. -/
structure RenamedColumn (catalog' : Catalog) (table : QualifiedTable) (c c' : Column) : Prop where
  name : Renamed catalog piiBlock ρ table.text c.name c'.name
  dataType : c'.dataType = c.dataType
  nullable : c'.nullable = c.nullable
  ordinalPosition : c'.ordinalPosition = c.ordinalPosition
  isPrimaryKey : c'.isPrimaryKey = c.isPrimaryKey
  default : ¬ Blocked catalog.toStore piiBlock table.text c.name → c'.default = c.default
  description : ¬ Blocked catalog.toStore piiBlock table.text c.name →
    catalog'.columnDescription table c'.name = catalog.columnDescription table c.name

/-- One foreign key of a table in both stores. -/
structure RenamedForeignKey (table : QualifiedTable) (fk fk' : ForeignKey) : Prop where
  name : fk'.name = fk.name
  target : (fk'.targetSchema, fk'.targetTable) = (fk.targetSchema, fk.targetTable)
  sourceColumns : List.Forall₂ (Renamed catalog piiBlock ρ table.text)
    fk.sourceColumns fk'.sourceColumns
  targetColumns : List.Forall₂ (Renamed catalog piiBlock ρ (targetText fk))
    fk.targetColumns fk'.targetColumns

/-- One table in both stores. -/
structure RenamedTable (catalog' : Catalog) (t t' : Table) : Prop where
  qualified : t'.qualified = t.qualified
  columns : List.Forall₂ (RenamedColumn catalog piiBlock ρ catalog' t.qualified)
    t.columns t'.columns
  foreignKeys : List.Forall₂ (RenamedForeignKey catalog piiBlock ρ t.qualified)
    t.foreignKeys t'.foreignKeys

/-- One tag row in both stores. -/
structure RenamedTag (r r' : ColumnPiiTagRow) : Prop where
  qualifiedTable : r'.qualifiedTable = r.qualifiedTable
  columnName : Renamed catalog piiBlock ρ r.qualifiedTable r.columnName r'.columnName
  tag : r'.tag = r.tag
  origin : r'.origin = r.origin

/-- One entity in both stores. -/
structure RenamedEntity (e e' : Entity) : Prop where
  name : e'.name = e.name
  binding : e'.binding = e.binding
  identity : Renamed catalog piiBlock ρ e.binding.text e.identity e'.identity

/-- A name of a column of an entity's table in both stores. -/
def RenamedOn (entity name name' : String) : Prop :=
  match catalog.getEntity entity with
  | some e => Renamed catalog piiBlock ρ e.binding.text name name'
  | none => name' = name

/-- One join in both stores. -/
structure RenamedJoin (j j' : CanonicalJoin) : Prop where
  name : j'.name = j.name
  sourceEntity : j'.sourceEntity = j.sourceEntity
  targetEntity : j'.targetEntity = j.targetEntity
  cardinality : j'.cardinality = j.cardinality
  on : List.Forall₂ (fun p p' =>
    RenamedOn catalog piiBlock ρ j.sourceEntity p.sourceColumn p'.sourceColumn ∧
    RenamedOn catalog piiBlock ρ j.targetEntity p.targetColumn p'.targetColumn) j.on j'.on

/-- The `entity.column` text of a time dimension in both stores. -/
def RenamedDimension (dimension dimension' : String) : Prop :=
  ∃ column', RenamedOn catalog piiBlock ρ (splitDot dimension).1 (splitDot dimension).2 column' ∧
    dimension' = (splitDot dimension).1 ++ "." ++ column'

/-- One metric in both stores. -/
structure RenamedMetric (m m' : Metric) : Prop where
  name : m'.name = m.name
  entity : m'.entity = m.entity
  agg : m'.measure.agg = m.measure.agg
  measure : ∃ rename : String → String, m'.measure.ref = renameRef rename m.measure.ref ∧
    ∀ c ∈ m.measure.ref.columns, RenamedOn catalog piiBlock ρ m.entity c (rename c)
  timeDimension : Option.Rel (RenamedDimension catalog piiBlock ρ) m.timeDimension m'.timeDimension
  timeGrains : m'.timeGrains = m.timeGrains

/-- Two stores that differ in the names, defaults and descriptions of blocked columns only. -/
structure Renames (catalog' : Catalog) : Prop where
  tables : List.Forall₂ (RenamedTable catalog piiBlock ρ catalog') catalog.tables catalog'.tables
  tags : List.Forall₂ (RenamedTag catalog piiBlock ρ) catalog.columnPiiTags catalog'.columnPiiTags
  entities : List.Forall₂ (RenamedEntity catalog piiBlock ρ) catalog.entities catalog'.entities
  joins : List.Forall₂ (RenamedJoin catalog piiBlock ρ)
    catalog.canonicalJoins catalog'.canonicalJoins
  metrics : List.Forall₂ (RenamedMetric catalog piiBlock ρ) catalog.metrics catalog'.metrics
  entityNotes : catalog'.entityNotes = catalog.entityNotes
  sourceConnectionId : catalog'.sourceConnectionId = catalog.sourceConnectionId

end Relation

section Reads

variable {catalog catalog' : Catalog} {piiBlock : List PiiCategory} {ρ : Renaming}
variable {table name name' : String}

/-! ## Tags -/

/-- An unblocked column keeps its name. -/
theorem Renamed.eq_of_unblocked (h : Renamed catalog piiBlock ρ table name name')
    (hblocked : ¬ Blocked catalog.toStore piiBlock table name) : name' = name :=
  h.2.resolve_right hblocked

/-- A column's tag row is found under its new name. -/
theorem Renames.getColumnPiiTag (h : Renames catalog piiBlock ρ catalog')
    (hname : Renamed catalog piiBlock ρ table name name') :
    catalog'.getColumnPiiTag table name' = catalog.getColumnPiiTag table name := by
  have hrow : Option.Rel (RenamedTag catalog piiBlock ρ)
      (catalog.columnPiiTags.find? fun r => r.qualifiedTable = table ∧ r.columnName = name)
      (catalog'.columnPiiTags.find? fun r => r.qualifiedTable = table ∧ r.columnName = name') := by
    refine rel_find? h.tags fun r r' hr => ?_
    rw [decide_eq_decide, hr.qualifiedTable, hr.columnName.1, hname.1]
    refine and_congr_right fun htable => ?_
    rw [htable, (ρ table).apply_eq_iff_eq]
  rw [Store.getColumnPiiTag, Store.getColumnPiiTag]
  generalize catalog.columnPiiTags.find? _ = found at hrow ⊢
  generalize catalog'.columnPiiTags.find? _ = found' at hrow ⊢
  cases hrow with
  | none => rfl
  | some hr => exact congrArg some hr.tag

/-- A column keeps its tag under its new name. -/
theorem Renames.columnPiiTag (h : Renames catalog piiBlock ρ catalog')
    (hname : Renamed catalog piiBlock ρ table name name') :
    catalog'.columnPiiTag table name' = catalog.columnPiiTag table name := by
  rw [Store.columnPiiTag, Store.columnPiiTag, h.getColumnPiiTag hname]

theorem Renames.blockedCategories (h : Renames catalog piiBlock ρ catalog')
    (hname : Renamed catalog piiBlock ρ table name name') :
    blockedCategories catalog'.toStore piiBlock table name' =
      blockedCategories catalog.toStore piiBlock table name := by
  rw [Mcp.blockedCategories, Mcp.blockedCategories, h.columnPiiTag hname]

theorem Renames.blocked (h : Renames catalog piiBlock ρ catalog')
    (hname : Renamed catalog piiBlock ρ table name name') :
    Blocked catalog'.toStore piiBlock table name' ↔
      Blocked catalog.toStore piiBlock table name := by
  rw [Blocked, Blocked, h.blockedCategories hname]

theorem Renames.maskCategory (h : Renames catalog piiBlock ρ catalog')
    (hname : Renamed catalog piiBlock ρ table name name') :
    maskCategory catalog'.toStore piiBlock table name' =
      maskCategory catalog.toStore piiBlock table name := by
  rw [Mcp.maskCategory, Mcp.maskCategory, h.blockedCategories hname]

/-- Masked names do not differ. -/
theorem Renames.redactBlockedFkColumns (h : Renames catalog piiBlock ρ catalog')
    {names names' : List String} (hnames : List.Forall₂ (Renamed catalog piiBlock ρ table)
      names names') :
    redactBlockedFkColumns catalog'.toStore piiBlock table names' =
      redactBlockedFkColumns catalog.toStore piiBlock table names := by
  refine (map_eq_map_of_forall₂ hnames fun name name' hname => ?_).symm
  by_cases hblocked : Blocked catalog.toStore piiBlock table name
  · rw [if_pos hblocked, if_pos ((h.blocked hname).2 hblocked)]
  · rw [if_neg hblocked, if_neg (mt (h.blocked hname).1 hblocked),
      hname.eq_of_unblocked hblocked]

/-! ## Rows -/

theorem Renames.getTable (h : Renames catalog piiBlock ρ catalog') (q : QualifiedTable) :
    Option.Rel (RenamedTable catalog piiBlock ρ catalog') (catalog.getTable q)
      (catalog'.getTable q) :=
  rel_find? h.tables fun _ _ ht => by rw [ht.qualified]

theorem Renames.getEntity (h : Renames catalog piiBlock ρ catalog') (entity : String) :
    Option.Rel (RenamedEntity catalog piiBlock ρ) (catalog.getEntity entity)
      (catalog'.getEntity entity) :=
  rel_find? h.entities fun _ _ he => by rw [he.name]

end Reads

end SchemaBrain.Mcp
