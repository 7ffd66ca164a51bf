import SchemaBrain.Base.Bytes
import SchemaBrain.Core.Store

/-!
# Store writes

The transactions that an index run makes, each all or nothing. Deleting a table sweeps the
entities bound to it, and with them their metrics and canonical joins; writing a table
deletes it first.
-/

namespace SchemaBrain.Core

open Base

/-! ## Tables -/

namespace Store

variable (store : Store)

/-- The names of the entities bound to a table. -/
def boundNames (q : QualifiedTable) : List String :=
  (store.entities.filter (·.binding = q)).map (·.name)

variable {store} in
theorem not_mem_boundNames {q : QualifiedTable} {e : Entity} (h : e ∈ store.entities) :
    e.name ∉ store.boundNames q ↔ e.binding ≠ q := by
  constructor
  · rintro hnot rfl
    exact hnot (List.mem_map_of_mem (List.mem_filter.2 ⟨h, decide_eq_true rfl⟩))
  · intro hne hmem
    obtain ⟨e', he', hname⟩ := List.mem_map.1 hmem
    obtain ⟨he', hbound⟩ := List.mem_filter.1 he'
    obtain rfl := List.inj_on_of_nodup_map store.entities_key he' h hname
    exact hne (of_decide_eq_true hbound)

/-- `DELETE FROM tables` at one table, with its cascades. -/
def deleteTable (q : QualifiedTable) : Store where
  tables := store.tables.filter (·.qualified ≠ q)
  entities := store.entities.filter (·.binding ≠ q)
  canonicalJoins := store.canonicalJoins.filter fun j =>
    j.sourceEntity ∉ store.boundNames q ∧ j.targetEntity ∉ store.boundNames q
  metrics := store.metrics.filter (·.entity ∉ store.boundNames q)
  columnPiiTags := store.columnPiiTags
  tables_key := store.tables_key.sublist (List.filter_sublist.map _)
  entities_key := store.entities_key.sublist (List.filter_sublist.map _)
  joins_key := store.joins_key.sublist (List.filter_sublist.map _)
  metrics_key := store.metrics_key.sublist (List.filter_sublist.map _)
  tags_key := store.tags_key
  entities_bound := by
    intro e he
    obtain ⟨he, hne⟩ := List.mem_filter.1 he
    obtain ⟨t, ht, hkey⟩ := store.entities_bound e he
    exact ⟨t, List.mem_filter.2 ⟨ht, hkey ▸ hne⟩, hkey⟩
  joins_source := by
    intro j hj
    obtain ⟨hj, hkept⟩ := List.mem_filter.1 hj
    obtain ⟨e, he, hname⟩ := store.joins_source j hj
    have hne := (not_mem_boundNames he).1 (hname ▸ (of_decide_eq_true hkept).1)
    exact ⟨e, List.mem_filter.2 ⟨he, decide_eq_true hne⟩, hname⟩
  joins_target := by
    intro j hj
    obtain ⟨hj, hkept⟩ := List.mem_filter.1 hj
    obtain ⟨e, he, hname⟩ := store.joins_target j hj
    have hne := (not_mem_boundNames he).1 (hname ▸ (of_decide_eq_true hkept).2)
    exact ⟨e, List.mem_filter.2 ⟨he, decide_eq_true hne⟩, hname⟩
  metrics_anchored := by
    intro m hm
    obtain ⟨hm, hkept⟩ := List.mem_filter.1 hm
    obtain ⟨e, he, hname⟩ := store.metrics_anchored m hm
    have hne := (not_mem_boundNames he).1 (hname ▸ of_decide_eq_true hkept)
    exact ⟨e, List.mem_filter.2 ⟨he, decide_eq_true hne⟩, hname⟩

/-- `INSERT INTO tables` and its columns and foreign keys. -/
def insertTable (t : Table) (h : t.qualified ∉ store.tables.map (·.qualified)) : Store where
  tables := store.tables ++ [t]
  entities := store.entities
  canonicalJoins := store.canonicalJoins
  metrics := store.metrics
  columnPiiTags := store.columnPiiTags
  tables_key := by
    rw [List.map_append, List.map_singleton, List.nodup_append_comm]
    exact List.nodup_cons.2 ⟨h, store.tables_key⟩
  entities_key := store.entities_key
  joins_key := store.joins_key
  metrics_key := store.metrics_key
  tags_key := store.tags_key
  entities_bound := by
    intro e he
    obtain ⟨t', ht', hkey⟩ := store.entities_bound e he
    exact ⟨t', List.mem_append_left _ ht', hkey⟩
  joins_source := store.joins_source
  joins_target := store.joins_target
  metrics_anchored := store.metrics_anchored

variable {store}

theorem not_mem_deleteTable (q : QualifiedTable) :
    q ∉ (store.deleteTable q).tables.map (·.qualified) := by
  simp [deleteTable]

end Store

/-! ## Rows by column -/

/-- A row keyed by a physical column. -/
structure ColumnRow (α : Type) where
  table : QualifiedTable
  column : String
  value : α
  deriving DecidableEq

/-- Rows under their primary key and the foreign key to `tables`. -/
structure RowsOk {α : Type} (tables : List Table) (rows : List (ColumnRow α)) : Prop where
  key : (rows.map fun r => (r.table, r.column)).Nodup
  bound : ∀ r ∈ rows, r.table ∈ tables.map (·.qualified)

/-- The rows of one table replaced. -/
def replaceRows {α : Type} (rows : List (ColumnRow α)) (q : QualifiedTable)
    (new : List (String × α)) : List (ColumnRow α) :=
  rows.filter (·.table ≠ q) ++ new.map fun p => ⟨q, p.1, p.2⟩

section Rows

variable {α : Type} {tables : List Table} {rows : List (ColumnRow α)} {q : QualifiedTable}
  {new : List (String × α)}

theorem RowsOk.nil : RowsOk tables ([] : List (ColumnRow α)) := ⟨by simp, by simp⟩

theorem mem_replaceRows {r : ColumnRow α} :
    r ∈ replaceRows rows q new ↔
      (r ∈ rows ∧ r.table ≠ q) ∨ ∃ p ∈ new, ⟨q, p.1, p.2⟩ = r := by
  simp only [replaceRows, List.mem_append, List.mem_filter, List.mem_map, decide_eq_true_eq]

theorem RowsOk.deleteTable (h : RowsOk tables rows) :
    RowsOk (tables.filter (·.qualified ≠ q)) (rows.filter (·.table ≠ q)) where
  key := h.key.sublist (List.filter_sublist.map _)
  bound := by
    intro r hr
    obtain ⟨hr, hne⟩ := List.mem_filter.1 hr
    obtain ⟨t, ht, hkey⟩ := List.mem_map.1 (h.bound r hr)
    exact List.mem_map.2 ⟨t, List.mem_filter.2 ⟨ht, hkey ▸ hne⟩, hkey⟩

theorem RowsOk.insertTable (h : RowsOk tables rows) (t : Table) :
    RowsOk (tables ++ [t]) rows where
  key := h.key
  bound r hr := by
    rw [List.map_append]
    exact List.mem_append_left _ (h.bound r hr)

theorem RowsOk.replaceRows (h : RowsOk tables rows)
    (hbound : new = [] ∨ q ∈ tables.map (·.qualified)) (hnew : (new.map (·.1)).Nodup) :
    RowsOk tables (replaceRows rows q new) where
  key := by
    rw [Core.replaceRows, List.map_append, List.map_map]
    refine List.Nodup.append (h.key.sublist (List.filter_sublist.map _)) ?_ ?_
    · refine List.Nodup.of_map Prod.snd ?_
      rw [List.map_map]
      exact hnew
    · intro p hp hp'
      obtain ⟨r, hr, rfl⟩ := List.mem_map.1 hp
      obtain ⟨n, -, heq⟩ := List.mem_map.1 hp'
      have hne := of_decide_eq_true (List.mem_filter.1 hr).2
      exact hne (Prod.mk.inj heq).1.symm
  bound := by
    intro r hr
    rcases mem_replaceRows.1 hr with ⟨hr, -⟩ | ⟨p, hp, rfl⟩
    · exact h.bound r hr
    · exact hbound.resolve_left (List.ne_nil_of_mem hp)

end Rows

/-- The structural and the semantic hash of one column. -/
structure Fingerprints where
  structural : String
  semantic : String
  deriving DecidableEq, Repr

/-- The store with the rows that an index run keeps for each column. -/
structure IndexedStore extends Store where
  fingerprints : List (ColumnRow Fingerprints) := []
  descriptions : List (ColumnRow String) := []
  embeddings : List (ColumnRow Bytes) := []
  fingerprints_ok : RowsOk tables fingerprints := by exact .nil
  descriptions_ok : RowsOk tables descriptions := by exact .nil
  embeddings_ok : RowsOk tables embeddings := by exact .nil

/-! ## Tags -/

/-- The columns of a table with an operator's tag. -/
def Store.overridden (store : Store) (qualifiedTable : String) : List String :=
  (store.columnPiiTags.filter fun r =>
    r.qualifiedTable = qualifiedTable ∧ r.origin = .operator).map (·.columnName)

/-- The tag rows after the heuristic ones of a table are replaced. -/
def Store.replacedTags (store : Store) (qualifiedTable : String)
    (tags : List (String × ColumnPiiTag)) : List ColumnPiiTagRow :=
  (store.columnPiiTags.filter fun r =>
    ¬ (r.qualifiedTable = qualifiedTable ∧ r.origin = .heuristic)) ++
  (tags.filter fun p => p.1 ∉ store.overridden qualifiedTable).map fun p =>
    ⟨qualifiedTable, p.1, p.2, .heuristic⟩

section Tags

variable {store : Store} {qualifiedTable : String} {tags : List (String × ColumnPiiTag)}

theorem Store.mem_overridden {column : String} :
    column ∈ store.overridden qualifiedTable ↔ ∃ r ∈ store.columnPiiTags,
      r.qualifiedTable = qualifiedTable ∧ r.origin = .operator ∧ r.columnName = column := by
  simp [Store.overridden, and_assoc]

theorem Store.mem_replacedTags {r : ColumnPiiTagRow} :
    r ∈ store.replacedTags qualifiedTable tags ↔
      (r ∈ store.columnPiiTags ∧ ¬ (r.qualifiedTable = qualifiedTable ∧ r.origin = .heuristic)) ∨
      ∃ p ∈ tags, p.1 ∉ store.overridden qualifiedTable ∧
        ⟨qualifiedTable, p.1, p.2, .heuristic⟩ = r := by
  simp only [Store.replacedTags, List.mem_append, List.mem_filter, List.mem_map,
    decide_eq_true_eq, and_assoc]

theorem Store.nodup_replacedTags (h : (tags.map (·.1)).Nodup) :
    ((store.replacedTags qualifiedTable tags).map
      fun r => (r.qualifiedTable, r.columnName)).Nodup := by
  rw [Store.replacedTags, List.map_append, List.map_map]
  refine List.Nodup.append (store.tags_key.sublist (List.filter_sublist.map _)) ?_ ?_
  · refine List.Nodup.of_map Prod.snd ?_
    rw [List.map_map]
    exact h.sublist (List.filter_sublist.map _)
  · intro p hp hp'
    obtain ⟨r, hr, rfl⟩ := List.mem_map.1 hp
    obtain ⟨new, hnew, heq⟩ := List.mem_map.1 hp'
    obtain ⟨hr, hkept⟩ := List.mem_filter.1 hr
    obtain ⟨htable, hcolumn⟩ := Prod.mk.inj heq
    have hfree := of_decide_eq_true (List.mem_filter.1 hnew).2
    have hkept := of_decide_eq_true hkept
    refine hfree (Store.mem_overridden.2 ⟨r, hr, htable.symm, ?_, hcolumn.symm⟩)
    cases horigin : r.origin with
    | heuristic => exact absurd ⟨htable.symm, horigin⟩ hkept
    | operator => rfl

end Tags

/-! ## Writes -/

/-- One transaction of an index run. -/
inductive StoreWrite
  | deleteTable (q : QualifiedTable)
  | writeTable (t : Table)
  | writeTableFingerprints (q : QualifiedTable) (fingerprints : List (String × Fingerprints))
  | writeTableDescriptions (q : QualifiedTable) (descriptions : List (String × String))
  | writeTableEmbeddings (q : QualifiedTable) (embeddings : List (String × Bytes))
  | writeColumnPiiTags (qualifiedTable : String) (tags : List (String × ColumnPiiTag))

namespace IndexedStore

variable (s : IndexedStore)

/-- `delete_table`. -/
def deleteTable (q : QualifiedTable) : IndexedStore where
  toStore := s.toStore.deleteTable q
  fingerprints := s.fingerprints.filter (·.table ≠ q)
  descriptions := s.descriptions.filter (·.table ≠ q)
  embeddings := s.embeddings.filter (·.table ≠ q)
  fingerprints_ok := s.fingerprints_ok.deleteTable
  descriptions_ok := s.descriptions_ok.deleteTable
  embeddings_ok := s.embeddings_ok.deleteTable

/-- `write_table`: a delete and an insert. Columns or foreign keys of one name are refused. -/
def writeTable (t : Table) : Option IndexedStore :=
  if (t.columns.map (·.name)).Nodup ∧ (t.foreignKeys.map (·.name)).Nodup then
    let cleared := s.deleteTable t.qualified
    some {
      toStore := cleared.toStore.insertTable t (Store.not_mem_deleteTable t.qualified)
      fingerprints := cleared.fingerprints
      descriptions := cleared.descriptions
      embeddings := cleared.embeddings
      fingerprints_ok := cleared.fingerprints_ok.insertTable t
      descriptions_ok := cleared.descriptions_ok.insertTable t
      embeddings_ok := cleared.embeddings_ok.insertTable t }
  else none

/-- `write_table_fingerprints`. -/
def writeTableFingerprints (q : QualifiedTable) (new : List (String × Fingerprints)) :
    Option IndexedStore :=
  if h : (new = [] ∨ q ∈ s.tables.map (·.qualified)) ∧ (new.map (·.1)).Nodup then
    some { s with
      fingerprints := replaceRows s.fingerprints q new
      fingerprints_ok := s.fingerprints_ok.replaceRows h.1 h.2 }
  else none

/-- `write_table_descriptions`. -/
def writeTableDescriptions (q : QualifiedTable) (new : List (String × String)) :
    Option IndexedStore :=
  if h : (new = [] ∨ q ∈ s.tables.map (·.qualified)) ∧ (new.map (·.1)).Nodup then
    some { s with
      descriptions := replaceRows s.descriptions q new
      descriptions_ok := s.descriptions_ok.replaceRows h.1 h.2 }
  else none

/-- `write_table_embeddings`. -/
def writeTableEmbeddings (q : QualifiedTable) (new : List (String × Bytes)) :
    Option IndexedStore :=
  if h : (new = [] ∨ q ∈ s.tables.map (·.qualified)) ∧ (new.map (·.1)).Nodup then
    some { s with
      embeddings := replaceRows s.embeddings q new
      embeddings_ok := s.embeddings_ok.replaceRows h.1 h.2 }
  else none

/-- `write_column_pii_tags`. -/
def writeColumnPiiTags (qualifiedTable : String) (tags : List (String × ColumnPiiTag)) :
    Option IndexedStore :=
  let store := s.toStore
  if h : (tags.map (·.1)).Nodup then
    some { s with
      toStore := { store with
        columnPiiTags := store.replacedTags qualifiedTable tags
        tags_key := Store.nodup_replacedTags h } }
  else none

/-- One transaction, or nothing when SQLite refuses it. -/
def write : StoreWrite → Option IndexedStore
  | .deleteTable q => some (s.deleteTable q)
  | .writeTable t => s.writeTable t
  | .writeTableFingerprints q new => s.writeTableFingerprints q new
  | .writeTableDescriptions q new => s.writeTableDescriptions q new
  | .writeTableEmbeddings q new => s.writeTableEmbeddings q new
  | .writeColumnPiiTags qualifiedTable tags => s.writeColumnPiiTags qualifiedTable tags

/-- Transactions one after another up to the first refused one, and whether all were made. -/
def writeAll (s : IndexedStore) : List StoreWrite → IndexedStore × Bool
  | [] => (s, true)
  | w :: rest =>
    match s.write w with
    | some s' => writeAll s' rest
    | none => (s, false)

/-- The transactions that are made: those before the first refused one. -/
def made (s : IndexedStore) : List StoreWrite → List StoreWrite
  | [] => []
  | w :: rest =>
    match s.write w with
    | some s' => w :: made s' rest
    | none => []

variable {s}

theorem writeAll_cons {s' : IndexedStore} {w : StoreWrite} (h : s.write w = some s')
    (rest : List StoreWrite) : s.writeAll (w :: rest) = s'.writeAll rest := by
  rw [writeAll, h]

theorem made_cons {s' : IndexedStore} {w : StoreWrite} (h : s.write w = some s')
    (rest : List StoreWrite) : s.made (w :: rest) = w :: s'.made rest := by
  rw [made, h]

theorem writeAll_refused {w : StoreWrite} (h : s.write w = none) (rest : List StoreWrite) :
    s.writeAll (w :: rest) = (s, false) ∧ s.made (w :: rest) = [] := by
  rw [writeAll, made, h]
  exact ⟨rfl, rfl⟩

/-- The writes of two lists, the second only after all of the first. -/
theorem writeAll_append (s : IndexedStore) (first rest : List StoreWrite) :
    s.writeAll (first ++ rest) =
      if (s.writeAll first).2 then (s.writeAll first).1.writeAll rest else s.writeAll first := by
  induction first generalizing s with
  | nil => simp [writeAll]
  | cons w first ih =>
    cases hw : s.write w with
    | none => simp [writeAll_refused hw]
    | some s' => rw [List.cons_append, writeAll_cons hw, writeAll_cons hw, ih]

/-- The first of a list of writes that were all made. -/
theorem exists_write_of_completed {w : StoreWrite} {rest : List StoreWrite}
    (h : (s.writeAll (w :: rest)).2 = true) :
    ∃ s', s.write w = some s' ∧ s.writeAll (w :: rest) = s'.writeAll rest := by
  cases hw : s.write w with
  | none => simp [writeAll_refused hw] at h
  | some s' => exact ⟨s', rfl, writeAll_cons hw rest⟩

/-- The second part of a list of writes that were all made. -/
theorem writeAll_append_of_completed {first rest : List StoreWrite}
    (h : (s.writeAll (first ++ rest)).2 = true) :
    (s.writeAll first).2 = true ∧
      s.writeAll (first ++ rest) = (s.writeAll first).1.writeAll rest := by
  rw [writeAll_append] at h ⊢
  split
  · next hfirst => exact ⟨hfirst, rfl⟩
  · next hfirst =>
    rw [if_neg hfirst] at h
    exact absurd h hfirst

/-- Making only the writes that are made changes nothing. -/
theorem writeAll_made (s : IndexedStore) (writes : List StoreWrite) :
    s.writeAll (s.made writes) = ((s.writeAll writes).1, true) := by
  induction writes generalizing s with
  | nil => rfl
  | cons w rest ih =>
    cases hw : s.write w with
    | none => rw [(writeAll_refused hw rest).1, (writeAll_refused hw rest).2, writeAll]
    | some s' => rw [made_cons hw, writeAll_cons hw, writeAll_cons hw, ih]

theorem made_initial (s : IndexedStore) (writes : List StoreWrite) : s.made writes <+: writes := by
  induction writes generalizing s with
  | nil => exact List.nil_prefix
  | cons w rest ih =>
    cases hw : s.write w with
    | none => simp [writeAll_refused hw]
    | some s' =>
      rw [made_cons hw]
      exact (List.cons_prefix_cons).2 ⟨rfl, ih s'⟩

theorem made_eq_of_completed {writes : List StoreWrite} (h : (s.writeAll writes).2 = true) :
    s.made writes = writes := by
  induction writes generalizing s with
  | nil => rfl
  | cons w rest ih =>
    cases hw : s.write w with
    | none => simp [writeAll_refused hw] at h
    | some s' =>
      rw [writeAll_cons hw] at h
      rw [made_cons hw, ih h]

/-- What every admitted write preserves, a list of them preserves. -/
theorem writeAll_induction {P : IndexedStore → Prop} {writes : List StoreWrite}
    (hpreserved : ∀ s s' w, w ∈ writes → P s → s.write w = some s' → P s') (h : P s) :
    P (s.writeAll writes).1 := by
  induction writes generalizing s with
  | nil => exact h
  | cons w rest ih =>
    cases hw : s.write w with
    | none => rwa [(writeAll_refused hw rest).1]
    | some s' =>
      rw [writeAll_cons hw]
      apply ih
      · intro s s' w hmem
        exact hpreserved s s' w (List.mem_cons_of_mem _ hmem)
      · exact hpreserved s s' w List.mem_cons_self h hw

end IndexedStore

/-! ## Rows that a write leaves alone -/

/-- The table whose own row a write deletes. -/
def StoreWrite.cleared : StoreWrite → Option QualifiedTable
  | .deleteTable q => some q
  | .writeTable t => some t.qualified
  | _ => none

/-- The table whose fingerprints a write replaces or drops. -/
def StoreWrite.refingerprinted : StoreWrite → Option QualifiedTable
  | .writeTableFingerprints q _ => some q
  | w => w.cleared

namespace IndexedStore

variable {s s' : IndexedStore} {w : StoreWrite}

/-- A write that deletes no table leaves the semantic layer and the tables alone. -/
theorem write_of_not_cleared (h : s.write w = some s') (hw : w.cleared = none) :
    s'.tables = s.tables ∧ s'.entities = s.entities ∧ s'.canonicalJoins = s.canonicalJoins ∧
      s'.metrics = s.metrics := by
  cases w with
  | deleteTable q => simp [StoreWrite.cleared] at hw
  | writeTable t => simp [StoreWrite.cleared] at hw
  | writeTableFingerprints q new
  | writeTableDescriptions q new
  | writeTableEmbeddings q new
  | writeColumnPiiTags text tags =>
    simp only [write, writeTableFingerprints, writeTableDescriptions, writeTableEmbeddings,
      writeColumnPiiTags] at h
    split at h
    · obtain rfl := Option.some.inj h
      exact ⟨rfl, rfl, rfl, rfl⟩
    · simp at h

/-- A write that deletes a table sweeps what hangs on it. -/
theorem write_of_cleared {q : QualifiedTable} (h : s.write w = some s') (hw : w.cleared = some q) :
    s'.entities = (s.deleteTable q).entities ∧
      s'.canonicalJoins = (s.deleteTable q).canonicalJoins ∧
      s'.metrics = (s.deleteTable q).metrics ∧
      s'.fingerprints = s.fingerprints.filter (·.table ≠ q) ∧
      s'.columnPiiTags = s.columnPiiTags := by
  cases w with
  | deleteTable q' =>
    obtain rfl := Option.some.inj hw
    obtain rfl := Option.some.inj h
    exact ⟨rfl, rfl, rfl, rfl, rfl⟩
  | writeTable t =>
    obtain rfl := Option.some.inj hw
    simp only [write, writeTable] at h
    split at h
    · obtain rfl := Option.some.inj h
      exact ⟨rfl, rfl, rfl, rfl, rfl⟩
    · simp at h
  | _ => simp [StoreWrite.cleared] at hw

/-- The tables after a write: a deleted one is gone, a written one is there. -/
theorem mem_tables_write {t : Table} (h : s.write w = some s') :
    t ∈ s'.tables ↔ t ∈ s.tables ∧ w.cleared ≠ some t.qualified ∨ w = .writeTable t := by
  cases hcleared : w.cleared with
  | none =>
    rw [(write_of_not_cleared h hcleared).1]
    have hw : w ≠ .writeTable t := by
      rintro rfl
      simp [StoreWrite.cleared] at hcleared
    simp [hw]
  | some q =>
    cases w with
    | deleteTable q' =>
      obtain rfl := Option.some.inj hcleared
      obtain rfl := Option.some.inj h
      simp only [deleteTable, Store.deleteTable, List.mem_filter, decide_eq_true_eq, ne_eq,
        Option.some.injEq, reduceCtorEq, or_false]
      exact and_congr_right fun _ => ne_comm
    | writeTable t' =>
      obtain rfl := Option.some.inj hcleared
      simp only [write, writeTable] at h
      split at h
      · obtain rfl := Option.some.inj h
        simp only [deleteTable, Store.deleteTable, Store.insertTable, List.mem_append,
          List.mem_filter, List.mem_singleton, decide_eq_true_eq, ne_eq, Option.some.injEq,
          StoreWrite.writeTable.injEq]
        exact or_congr (and_congr_right fun _ => ne_comm) eq_comm
      · simp at h
    | _ => simp [StoreWrite.cleared] at hcleared

/-- The fingerprints of a table change only by a write to them or to the table. -/
theorem write_fingerprints {q : QualifiedTable} (h : s.write w = some s')
    (hw : w.refingerprinted ≠ some q) :
    s'.fingerprints.filter (·.table = q) = s.fingerprints.filter (·.table = q) := by
  cases hcleared : w.cleared with
  | some q' =>
    have hne : q' ≠ q := by
      rintro rfl
      cases w <;> simp_all [StoreWrite.cleared, StoreWrite.refingerprinted]
    rw [(write_of_cleared h hcleared).2.2.2.1, List.filter_filter]
    refine List.filter_congr fun r _ => ?_
    by_cases hr : r.table = q <;> simp [hr, hne.symm]
  | none =>
    cases w with
    | deleteTable | writeTable => simp [StoreWrite.cleared] at hcleared
    | writeTableFingerprints q' new =>
      have hne : q' ≠ q := fun heq => hw (congrArg some heq)
      simp only [write, writeTableFingerprints] at h
      split at h
      · obtain rfl := Option.some.inj h
        have hnew : (new.map fun p => (⟨q', p.1, p.2⟩ : ColumnRow Fingerprints)).filter
            (·.table = q) = [] := by
          apply List.filter_eq_nil_iff.2
          intro r hr
          obtain ⟨p, -, rfl⟩ := List.mem_map.1 hr
          simpa using hne
        simp only [replaceRows, List.filter_append, List.filter_filter, hnew, List.append_nil]
        refine List.filter_congr fun r _ => ?_
        by_cases hr : r.table = q <;> simp [hr, hne.symm]
      · simp at h
    | writeTableDescriptions q new | writeTableEmbeddings q new | writeColumnPiiTags text tags =>
      simp only [write, writeTableDescriptions, writeTableEmbeddings, writeColumnPiiTags] at h
      split at h
      · obtain rfl := Option.some.inj h
        rfl
      · simp at h

end IndexedStore

end SchemaBrain.Core
