import Mathlib.Data.List.Nodup
import Mathlib.Data.List.Sort
import SchemaBrain.Core.Model

/-!
# The store's semantic rows

What one source's rows hold, with the keys and foreign keys that SQLite enforces, and
the reads that the metric compiler and the gate make.
-/

namespace SchemaBrain.Core

/-- Who wrote a tag. -/
inductive TagOrigin
  | heuristic
  | operator
  deriving DecidableEq, Repr

/-- One row of `column_pii_tags`, keyed by the `schema.table` text and the column. -/
structure ColumnPiiTagRow where
  qualifiedTable : String
  columnName : String
  tag : ColumnPiiTag
  origin : TagOrigin := .heuristic
  deriving DecidableEq, Repr

section NoRows

theorem noTags_key :
    (([] : List ColumnPiiTagRow).map fun r => (r.qualifiedTable, r.columnName)).Nodup :=
  List.nodup_nil

theorem noEntities_bound :
    ∀ e ∈ ([] : List Entity), ∃ t ∈ ([] : List Table), t.qualified = e.binding := nofun

theorem noJoins_source :
    ∀ j ∈ ([] : List CanonicalJoin), ∃ e ∈ ([] : List Entity), e.name = j.sourceEntity := nofun

theorem noJoins_target :
    ∀ j ∈ ([] : List CanonicalJoin), ∃ e ∈ ([] : List Entity), e.name = j.targetEntity := nofun

theorem noMetrics_anchored :
    ∀ m ∈ ([] : List Metric), ∃ e ∈ ([] : List Entity), e.name = m.entity := nofun

end NoRows

/-- The rows of one source, under the primary keys and foreign keys of the schema. -/
structure Store where
  tables : List Table
  entities : List Entity
  canonicalJoins : List CanonicalJoin
  metrics : List Metric
  columnPiiTags : List ColumnPiiTagRow
  tables_key : (tables.map (·.qualified)).Nodup := by
    first | exact List.nodup_nil | decide
  entities_key : (entities.map (·.name)).Nodup := by
    first | exact List.nodup_nil | decide
  joins_key : (canonicalJoins.map (·.name)).Nodup := by
    first | exact List.nodup_nil | decide
  metrics_key : (metrics.map (·.name)).Nodup := by
    first | exact List.nodup_nil | decide
  tags_key : (columnPiiTags.map fun r => (r.qualifiedTable, r.columnName)).Nodup := by
    first | exact noTags_key | decide
  entities_bound : ∀ e ∈ entities, ∃ t ∈ tables, t.qualified = e.binding := by
    first | exact noEntities_bound | decide
  joins_source : ∀ j ∈ canonicalJoins, ∃ e ∈ entities, e.name = j.sourceEntity := by
    first | exact noJoins_source | decide
  joins_target : ∀ j ∈ canonicalJoins, ∃ e ∈ entities, e.name = j.targetEntity := by
    first | exact noJoins_target | decide
  metrics_anchored : ∀ m ∈ metrics, ∃ e ∈ entities, e.name = m.entity := by
    first | exact noMetrics_anchored | decide

namespace Store

variable (store : Store)

/-- `get_entity`. -/
def getEntity (name : String) : Option Entity := store.entities.find? (·.name = name)

/-- `get_table`. -/
def getTable (q : QualifiedTable) : Option Table := store.tables.find? (·.qualified = q)

/-- `get_metric`. -/
def getMetric (name : String) : Option Metric := store.metrics.find? (·.name = name)

/-- `list_canonical_joins`, `ORDER BY name`. -/
def listCanonicalJoins : List CanonicalJoin :=
  store.canonicalJoins.insertionSort (·.name ≤ ·.name)

/-- `get_column_pii_tags` at one column: its row, if there is one. -/
def getColumnPiiTag (qualifiedTable column : String) : Option ColumnPiiTag :=
  (store.columnPiiTags.find? fun r =>
    r.qualifiedTable = qualifiedTable ∧ r.columnName = column).map (·.tag)

/-- The tag that a reader of the bulk lookup uses: public without a row. -/
def columnPiiTag (qualifiedTable column : String) : ColumnPiiTag :=
  (store.getColumnPiiTag qualifiedTable column).getD .untagged

variable {store}

/-- The entity read under a name carries it. -/
theorem name_of_getEntity {name : String} {e : Entity} (h : store.getEntity name = some e) :
    e.name = name := by
  simpa using List.find?_some h

/-- An entity row is read under its name. -/
theorem exists_getEntity {e : Entity} (h : e ∈ store.entities) :
    ∃ e', store.getEntity e.name = some e' := by
  cases hfound : store.getEntity e.name with
  | some e' => exact ⟨e', rfl⟩
  | none => exact absurd (List.find?_eq_none.1 hfound e h) (by simp)

/-- The table bound to an entity is indexed. -/
theorem exists_getTable {name : String} {e : Entity} (h : store.getEntity name = some e) :
    ∃ t, store.getTable e.binding = some t := by
  obtain ⟨t, ht, hkey⟩ := store.entities_bound e (List.mem_of_find?_eq_some h)
  cases hfound : store.getTable e.binding with
  | some t' => exact ⟨t', rfl⟩
  | none => exact absurd (List.find?_eq_none.1 hfound t ht) (by simp [hkey])

/-- The anchor of a stored metric is an entity. -/
theorem exists_anchor {name : String} {m : Metric} (h : store.getMetric name = some m) :
    ∃ e, store.getEntity m.entity = some e := by
  obtain ⟨e, he, hname⟩ := store.metrics_anchored m (List.mem_of_find?_eq_some h)
  exact hname ▸ exists_getEntity he

/-- Listing the joins only orders them. -/
theorem mem_listCanonicalJoins {j : CanonicalJoin} :
    j ∈ store.listCanonicalJoins ↔ j ∈ store.canonicalJoins :=
  (List.perm_insertionSort _ _).mem_iff

/-- The source of a listed join is an entity. -/
theorem exists_joinSource {j : CanonicalJoin} (h : j ∈ store.listCanonicalJoins) :
    ∃ e, store.getEntity j.sourceEntity = some e := by
  obtain ⟨e, he, hname⟩ := store.joins_source j (mem_listCanonicalJoins.1 h)
  exact hname ▸ exists_getEntity he

/-- The target of a listed join is an entity. -/
theorem exists_joinTarget {j : CanonicalJoin} (h : j ∈ store.listCanonicalJoins) :
    ∃ e, store.getEntity j.targetEntity = some e := by
  obtain ⟨e, he, hname⟩ := store.joins_target j (mem_listCanonicalJoins.1 h)
  exact hname ▸ exists_getEntity he

/-- Listed joins of one name are one join. -/
theorem join_eq_of_name {j j' : CanonicalJoin} (h : j ∈ store.listCanonicalJoins)
    (h' : j' ∈ store.listCanonicalJoins) (hname : j.name = j'.name) : j = j' :=
  List.inj_on_of_nodup_map store.joins_key (mem_listCanonicalJoins.1 h)
    (mem_listCanonicalJoins.1 h') hname

end Store

end SchemaBrain.Core
