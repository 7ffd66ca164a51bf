import SchemaBrain.Indexer.PiiTags

/-!
# Dry runs

The counts of `index` and those of `dry_run_index`, whose loop is a copy without the writes. The
writes for one table touch no cached hash of another, so both see the same differences.
-/

namespace SchemaBrain.Indexer

open Base Core

/-! ## Counts -/

/-- `IndexResult`, less the cost. -/
structure IndexResult where
  tablesSeen : Nat
  tablesChanged : Nat
  tablesUnchanged : Nat
  tablesRemoved : Nat
  columnsAdded : Nat
  columnsChanged : Nat
  columnsRemoved : Nat
  descriptionsGenerated : Nat
  embeddingsGenerated : Nat
  deriving DecidableEq, Repr

/-- The counters of the loop. -/
structure Counts where
  tablesChanged : Nat := 0
  tablesUnchanged : Nat := 0
  columnsAdded : Nat := 0
  columnsChanged : Nat := 0
  columnsRemoved : Nat := 0
  descriptions : Nat := 0
  embeddings : Nat := 0
  deriving DecidableEq, Repr

/-- The result with its counters. -/
def Counts.result (c : Counts) (tablesSeen tablesRemoved : Nat) : IndexResult where
  tablesSeen := tablesSeen
  tablesChanged := c.tablesChanged
  tablesUnchanged := c.tablesUnchanged
  tablesRemoved := tablesRemoved
  columnsAdded := c.columnsAdded
  columnsChanged := c.columnsChanged
  columnsRemoved := c.columnsRemoved
  descriptionsGenerated := c.descriptions
  embeddingsGenerated := c.embeddings

/-- The counters after a table: untouched but for one, or with its diff and what was generated. -/
def Counts.add (c : Counts) (diff : ColumnDiff) (descriptions embeddings : Nat) : Counts :=
  if diff.isChange then {
    tablesChanged := c.tablesChanged + 1
    tablesUnchanged := c.tablesUnchanged
    columnsAdded := c.columnsAdded + diff.added.length
    columnsChanged := c.columnsChanged + diff.changed.length
    columnsRemoved := c.columnsRemoved + diff.removed.length
    descriptions := c.descriptions + descriptions
    embeddings := c.embeddings + embeddings }
  else { c with tablesUnchanged := c.tablesUnchanged + 1 }

/-- The diff of one table against the cache. -/
def tableDiff (H : HashFn) (s : IndexedStore) (table : Table) : ColumnDiff :=
  columnDiff (cachedStructural s table.qualified) (newStructural H table)

/-! ## The real run -/

/-- The loop of `index`: the store and the counters, or nothing when a write is refused. -/
def indexTables (H : HashFn) (run : IndexRun) :
    IndexedStore → Counts → List QualifiedTable → Option (IndexedStore × Counts)
  | s, c, [] => some (s, c)
  | s, c, q :: rest =>
    let table := run.source.getTable q
    match s.writeAll (indexStep H run s q) with
    | (_, false) => none
    | (s', true) =>
      indexTables H run s' (c.add (tableDiff H s table) (newDescriptions run table).length
        (newEmbeddings run table).length) rest

/-- `index` when nothing aborts it: the store and the result. -/
def indexResult (H : HashFn) (run : IndexRun) (s : IndexedStore) :
    Option (IndexedStore × IndexResult) :=
  match s.writeAll (removals run.source s) with
  | (_, false) => none
  | (s', true) =>
    (indexTables H run s' {} run.source.listTables).map fun (s'', c) =>
      (s'', c.result run.source.listTables.length (removedTables run.source s).length)

private theorem indexTables_store {H : HashFn} {run : IndexRun} {s : IndexedStore} {c : Counts}
    {listed : List QualifiedTable} :
    (indexTables H run s c listed).map (·.1) =
      if (s.writeAll (indexLoop H run s listed)).2 then
        some (s.writeAll (indexLoop H run s listed)).1
      else none := by
  induction listed generalizing s c with
  | nil => simp [indexTables, indexLoop, IndexedStore.writeAll]
  | cons q rest ih =>
    rw [indexTables, indexLoop, IndexedStore.writeAll_append]
    split
    · next s₁ hrefused => simp [hrefused]
    · next s₁ hwrites => simp [hwrites, ih]

/-- The counted run is the run of the plan: it returns when `index` completes, with its store. -/
theorem indexResult_store {H : HashFn} {run : IndexRun} {s : IndexedStore}
    (hcut : run.cut = none) :
    (indexResult H run s).map (·.1) =
      if (index H run s).2 then some (index H run s).1 else none := by
  have hindex : index H run s = s.writeAll (indexPlan H run s) := by
    simp [index, attempted, hcut]
  rw [hindex, indexPlan, IndexedStore.writeAll_append, indexResult]
  split
  · next s₁ hrefused => simp [hrefused]
  · next s₁ hremoved =>
    have hstore := @indexTables_store H run s₁ {} run.source.listTables
    simp [hremoved, Function.comp_def, hstore]

/-! ## The dry run -/

/-- The loop of `dry_run_index`, which reads the store and counts. -/
def dryRunTables (H : HashFn) (source : Source) (s : IndexedStore) (willEnrich willEmbed : Bool) :
    Counts → List QualifiedTable → Counts
  | c, [] => c
  | c, q :: rest =>
    let table := source.getTable q
    let descriptions := if willEnrich then table.columns.length else 0
    let embeddings := if willEnrich && willEmbed then table.columns.length else 0
    dryRunTables H source s willEnrich willEmbed
      (c.add (tableDiff H s table) descriptions embeddings) rest

/-- `dry_run_index`: the store and the result. -/
def dryRunIndex (H : HashFn) (source : Source) (s : IndexedStore) (willEnrich willEmbed : Bool) :
    IndexedStore × IndexResult :=
  (s, (dryRunTables H source s willEnrich willEmbed {} source.listTables).result
    source.listTables.length (removedTables source s).length)

/-! ## Both loops count the same -/

variable {H : HashFn} {run : IndexRun} {s s' : IndexedStore}

/-- The pipeline, if there is one, describes every column of a listed table once. -/
def DescribesColumns (run : IndexRun) : Prop :=
  ∀ enrichColumns, run.describe = some enrichColumns → ∀ q ∈ run.source.listTables,
    ((enrichColumns (run.source.getTable q)).map (·.1)).Perm
      ((run.source.getTable q).columns.map (·.name))

theorem length_newDescriptions (h : DescribesColumns run) {q : QualifiedTable}
    (hq : q ∈ run.source.listTables) :
    (newDescriptions run (run.source.getTable q)).length =
      if run.describe.isSome then (run.source.getTable q).columns.length else 0 := by
  cases hdescribe : run.describe with
  | none => simp [newDescriptions, hdescribe]
  | some enrichColumns =>
    have hlength := (h enrichColumns hdescribe q hq).length_eq
    rw [List.length_map, List.length_map] at hlength
    simpa [newDescriptions, hdescribe] using hlength

theorem length_newEmbeddings (h : DescribesColumns run) {q : QualifiedTable}
    (hq : q ∈ run.source.listTables) :
    (newEmbeddings run (run.source.getTable q)).length =
      if run.describe.isSome && run.embed.isSome then
        (run.source.getTable q).columns.length
      else 0 := by
  cases hembed : run.embed with
  | none => simp [newEmbeddings, hembed]
  | some embeddingFor =>
    have hlength := length_newDescriptions h hq
    simpa [newEmbeddings, hembed] using hlength

/-- The diff of a table reads only its own cached hashes. -/
theorem tableDiff_congr {table : Table}
    (h : s'.fingerprints.filter (·.table = table.qualified) =
      s.fingerprints.filter (·.table = table.qualified)) :
    tableDiff H s' table = tableDiff H s table := by
  rw [tableDiff, tableDiff, cachedStructural, cachedStructural, getTableFingerprints,
    getTableFingerprints, h]

/-- Over a store with the same cached hashes, the dry loop counts what the real one does. -/
theorem indexTables_eq (hdescribes : DescribesColumns run) {listed : List QualifiedTable}
    (hlisted : listed ⊆ run.source.listTables) (hnodup : listed.Nodup)
    (hcached : ∀ q ∈ listed, s'.fingerprints.filter (·.table = q) =
      s.fingerprints.filter (·.table = q)) {c c' : Counts} {s'' : IndexedStore}
    (hloop : indexTables H run s' c listed = some (s'', c')) :
    dryRunTables H run.source s run.describe.isSome run.embed.isSome c listed = c' := by
  induction listed generalizing s' c with
  | nil =>
    obtain ⟨-, rfl⟩ := Prod.mk.inj (Option.some.inj hloop)
    rfl
  | cons q rest ih =>
    rw [List.nodup_cons] at hnodup
    have hq := hlisted List.mem_cons_self
    rw [indexTables] at hloop
    split at hloop
    · simp at hloop
    · next s₁ hwrites =>
      have hdiff : tableDiff H s' (run.source.getTable q) =
          tableDiff H s (run.source.getTable q) := by
        apply tableDiff_congr
        rw [run.source.getTable_qualified]
        exact hcached q List.mem_cons_self
      rw [hdiff, length_newDescriptions hdescribes hq, length_newEmbeddings hdescribes hq] at hloop
      refine ih (List.subset_of_cons_subset hlisted) hnodup.2 (fun q' hq' => ?_) hloop
      -- The writes for this table leave the cached hashes of the later ones.
      have hne : q ≠ q' := fun heq => hnodup.1 (heq ▸ hq')
      have hframe := @indexStep_fingerprints H run s' q q' hne
      rw [hwrites] at hframe
      exact hframe.trans (hcached q' (List.mem_cons_of_mem _ hq'))

/-- A dry run leaves the store alone and predicts the result of the real run. -/
theorem dryRunIndex_eq {result : IndexResult} (hlisted : run.source.listTables.Nodup)
    (hdescribes : DescribesColumns run) (hindex : indexResult H run s = some (s', result)) :
    dryRunIndex H run.source s run.describe.isSome run.embed.isSome = (s, result) := by
  rw [indexResult] at hindex
  split at hindex
  · simp at hindex
  · next s₁ hremoved =>
    obtain ⟨⟨s₂, c⟩, hloop, hresult⟩ := Option.map_eq_some_iff.1 hindex
    obtain ⟨-, rfl⟩ := Prod.mk.inj hresult
    have hcached : ∀ q ∈ run.source.listTables, s₁.fingerprints.filter (·.table = q) =
        s.fingerprints.filter (·.table = q) := fun q hq => by
      have hframe := removals_fingerprints (s := s) hq
      rwa [hremoved] at hframe
    rw [dryRunIndex, indexTables_eq hdescribes (List.Subset.refl _) hlisted hcached hloop]

/-- Two tables, described and embedded. -/
def salesRun : IndexRun where
  source := {
    listTables := [⟨"public", "orders"⟩, ⟨"public", "refunds"⟩]
    getTable := fun q => {
      qualified := q
      columns := [{ name := "id", dataType := "integer" }, { name := "note", dataType := "text" }] }
    getTable_qualified := fun _ => rfl
    columns_key := fun _ => by simp }
  profile := fun _ _ => none
  describe := some fun table => table.columns.map fun col => (col.name, "about " ++ col.name)
  embed := some fun text => text.toUTF8.toList
  noPiiClassify := true

/-- The store after a first run that saw one table more. -/
def salesStore : IndexedStore :=
  let earlier := { salesRun with
    source := { salesRun.source with listTables := [⟨"public", "orders"⟩, ⟨"public", "carts"⟩] } }
  (index Sha256.digest earlier emptyStore).1

theorem dryRunIndex_sales :
    dryRunIndex Sha256.digest salesRun.source salesStore true true =
      (salesStore, ⟨2, 1, 1, 1, 2, 0, 0, 2, 2⟩) := by
  have hindex : (indexResult Sha256.digest salesRun salesStore).map (·.2) =
      some ⟨2, 1, 1, 1, 2, 0, 0, 2, 2⟩ := by
    decide +kernel
  obtain ⟨⟨s', result⟩, hindex, rfl⟩ := Option.map_eq_some_iff.1 hindex
  have hdescribes : DescribesColumns salesRun := by
    intro enrichColumns hdescribe q _
    obtain rfl := Option.some.inj hdescribe
    rw [List.map_map]
    exact List.Perm.refl _
  have hlisted : salesRun.source.listTables.Nodup := by decide
  exact dryRunIndex_eq hlisted hdescribes hindex

end SchemaBrain.Indexer
