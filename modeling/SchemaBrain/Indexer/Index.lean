import SchemaBrain.Core.Fingerprint
import SchemaBrain.Core.StoreWrites
import SchemaBrain.Pii.Classifier

/-!
# Index runs

One cache-aware pass over a source. A table is written again when its structural
fingerprints differ from the cached ones, and a run is the list of store writes that it
makes, of which an aborted run makes a first part.
-/

namespace SchemaBrain.Indexer

open Base Core

/-! ## Sources -/

/-- What a database answers during one run. Columns of one table have different names. -/
structure Source where
  listTables : List QualifiedTable
  getTable : QualifiedTable → Table
  getTable_qualified : ∀ q, (getTable q).qualified = q
  columns_key : ∀ q, ((getTable q).columns.map (·.name)).Nodup

/-- The arguments of `index`, and the writes after which the run is aborted, if it is. -/
structure IndexRun where
  source : Source
  profile : Table → String → Option ColumnStats
  describe : Option (Table → List (String × String)) := none
  embed : Option (String → Bytes) := none
  noPiiClassify : Bool := false
  cut : Option Nat := none

/-! ## The diff of one table -/

/-- The sets `col_added`, `col_removed` and `col_changed`. -/
structure ColumnDiff where
  added : List String
  removed : List String
  changed : List String
  deriving DecidableEq

/-- The diff of two maps from column names to structural hashes. -/
def columnDiff (cached new : List (String × String)) : ColumnDiff where
  added := (new.map (·.1)).filter (· ∉ cached.map (·.1))
  removed := (cached.map (·.1)).filter (· ∉ new.map (·.1))
  changed := (new.filter fun p => (cached.lookup p.1).any (· ≠ p.2)).map (·.1)

/-- Whether the loop takes the table up again. -/
def ColumnDiff.isChange (diff : ColumnDiff) : Bool :=
  !(diff.added.isEmpty && diff.removed.isEmpty && diff.changed.isEmpty)

/-- `get_table_fingerprints`. -/
def getTableFingerprints (s : IndexedStore) (q : QualifiedTable) : List (String × Fingerprints) :=
  (s.fingerprints.filter (·.table = q)).map fun r => (r.column, r.value)

/-- `cached_structural`. -/
def cachedStructural (s : IndexedStore) (q : QualifiedTable) : List (String × String) :=
  (getTableFingerprints s q).map fun p => (p.1, p.2.structural)

/-- `new_structural`. -/
def newStructural (H : HashFn) (table : Table) : List (String × String) :=
  table.columns.map fun col =>
    (col.name, columnStructuralFingerprint H col (fkTargetsForColumn table col.name))

/-- Whether a table of the source differs from the cache. -/
def isChanged (H : HashFn) (s : IndexedStore) (table : Table) : Bool :=
  (columnDiff (cachedStructural s table.qualified) (newStructural H table)).isChange

/-! ## The writes of a run -/

/-- `new_fingerprints`. -/
def newFingerprints (H : HashFn) (run : IndexRun) (table : Table) : List (String × Fingerprints) :=
  table.columns.map fun col =>
    let fkTargets := fkTargetsForColumn table col.name
    (col.name, ⟨columnStructuralFingerprint H col fkTargets,
      columnSemanticFingerprint H col fkTargets (run.profile table col.name)⟩)

/-- `descriptions`. -/
def newDescriptions (run : IndexRun) (table : Table) : List (String × String) :=
  match run.describe with
  | none => []
  | some enrichColumns => enrichColumns table

/-- `embeddings`. -/
def newEmbeddings (run : IndexRun) (table : Table) : List (String × Bytes) :=
  match run.embed with
  | none => []
  | some embeddingFor => (newDescriptions run table).map fun p => (p.1, embeddingFor p.2)

/-- The classification of one column. -/
def classified (run : IndexRun) (table : Table) (col : Column) : ColumnPiiTag :=
  Pii.classifyColumn col.name (some col.dataType) col.isPrimaryKey (some table.qualified.table)
    ((run.profile table col.name).map (·.shapePatterns) |>.getD [])

/-- The tags that the run writes for a table. -/
def newTags (run : IndexRun) (table : Table) : List (String × ColumnPiiTag) :=
  if run.noPiiClassify then []
  else table.columns.map fun col => (col.name, classified run table col)

/-- The writes of descriptions and embeddings, where there are any. -/
def enrichmentWrites (run : IndexRun) (table : Table) : List StoreWrite :=
  let q := table.qualified
  let descriptions := newDescriptions run table
  let embeddings := newEmbeddings run table
  (if descriptions = [] then [] else [.writeTableDescriptions q descriptions]) ++
  (if embeddings = [] then [] else [.writeTableEmbeddings q embeddings])

/-- The writes for one changed table, in the order of the loop body. -/
def tableWrites (H : HashFn) (run : IndexRun) (table : Table) : List StoreWrite :=
  let q := table.qualified
  .writeTable table :: .writeTableFingerprints q (newFingerprints H run table) ::
    (enrichmentWrites run table ++ [.writeColumnPiiTags q.text (newTags run table)])

/-- One iteration of the loop. -/
def indexStep (H : HashFn) (run : IndexRun) (s : IndexedStore) (q : QualifiedTable) :
    List StoreWrite :=
  let table := run.source.getTable q
  if isChanged H s table then tableWrites H run table else []

/-- The loop. Each table is compared with the cache that the earlier ones left. -/
def indexLoop (H : HashFn) (run : IndexRun) : IndexedStore → List QualifiedTable → List StoreWrite
  | _, [] => []
  | s, q :: rest =>
    let writes := indexStep H run s q
    writes ++ indexLoop H run (s.writeAll writes).1 rest

/-- `removed_tables`, in the order of the store. -/
def removedTables (source : Source) (s : IndexedStore) : List QualifiedTable :=
  (s.tables.map (·.qualified)).filter (· ∉ source.listTables)

/-- The writes for the tables that the source no longer has. -/
def removals (source : Source) (s : IndexedStore) : List StoreWrite :=
  (removedTables source s).flatMap fun q => [.deleteTable q, .writeColumnPiiTags q.text []]

/-- Every write that a run would make on this store. -/
def indexPlan (H : HashFn) (run : IndexRun) (s : IndexedStore) : List StoreWrite :=
  let removed := removals run.source s
  removed ++ indexLoop H run (s.writeAll removed).1 run.source.listTables

/-- The part of the plan that comes before an abort. -/
def attempted (H : HashFn) (run : IndexRun) (s : IndexedStore) : List StoreWrite :=
  match run.cut with
  | none => indexPlan H run s
  | some made => (indexPlan H run s).take made

/-- `index`: the store after the run, and whether it completed. -/
def index (H : HashFn) (run : IndexRun) (s : IndexedStore) : IndexedStore × Bool :=
  let (s', done) := s.writeAll (attempted H run s)
  (s', done && run.cut.isNone)

/-! ## Unchanged tables -/

/-- Nothing changed exactly when both maps have the same entries. -/
theorem columnDiff_isChange_eq_false {cached new : List (String × String)}
    (hcached : (cached.map (·.1)).Nodup) :
    (columnDiff cached new).isChange = false ↔ ∀ p, p ∈ cached ↔ p ∈ new := by
  simp only [ColumnDiff.isChange, columnDiff, Bool.not_eq_false', Bool.and_eq_true,
    List.isEmpty_iff, List.filter_eq_nil_iff, List.map_eq_nil_iff, decide_not,
    Bool.not_eq_true', decide_eq_false_iff_not, not_not]
  constructor
  · rintro ⟨⟨hadded, hremoved⟩, hchanged⟩
    -- A name in both maps carries one value, since it is not among the changed ones.
    have hsame : ∀ k v v', (k, v) ∈ cached → (k, v') ∈ new → v = v' := by
      intro k v v' hv hv'
      have hlookup := (lookup_eq_some_iff_mem hcached).2 hv
      simpa [hlookup] using hchanged _ hv'
    intro p
    constructor
    · intro hp
      obtain ⟨p', hp', hname⟩ := List.mem_map.1 (hremoved _ (List.mem_map_of_mem hp))
      have hmem : (p.1, p'.2) ∈ new := hname ▸ hp'
      rwa [← hsame _ _ _ hp hmem] at hmem
    · intro hp
      obtain ⟨p', hp', hname⟩ := List.mem_map.1 (hadded _ (List.mem_map_of_mem hp))
      have hmem : (p.1, p'.2) ∈ cached := hname ▸ hp'
      rwa [hsame _ _ _ hmem hp] at hmem
  · intro hsame
    refine ⟨⟨?_, ?_⟩, ?_⟩
    · intro k hk
      obtain ⟨p, hp, rfl⟩ := List.mem_map.1 hk
      exact List.mem_map_of_mem ((hsame p).2 hp)
    · intro k hk
      obtain ⟨p, hp, rfl⟩ := List.mem_map.1 hk
      exact List.mem_map_of_mem ((hsame p).1 hp)
    · intro p hp
      simp [(lookup_eq_some_iff_mem hcached).2 ((hsame p).2 hp)]

private theorem cachedStructural_key (s : IndexedStore) (q : QualifiedTable) :
    ((cachedStructural s q).map (·.1)).Nodup := by
  have hrows := s.fingerprints_ok.key.sublist
    ((List.filter_sublist (l := s.fingerprints) (p := (·.table = q))).map
      fun r => (r.table, r.column))
  simp only [cachedStructural, getTableFingerprints, List.map_map]
  refine List.Nodup.map_on ?_ (hrows.of_map _)
  intro r hr r' hr' hcolumn
  have htable := of_decide_eq_true (List.mem_filter.1 hr).2
  have htable' := of_decide_eq_true (List.mem_filter.1 hr').2
  exact List.inj_on_of_nodup_map hrows hr hr' (Prod.ext (htable.trans htable'.symm) hcolumn)

/-- A table is left alone exactly when the cache holds its structural fingerprints. -/
theorem isChanged_eq_false {H : HashFn} {s : IndexedStore} {table : Table} :
    isChanged H s table = false ↔
      ∀ p, p ∈ cachedStructural s table.qualified ↔ p ∈ newStructural H table :=
  columnDiff_isChange_eq_false (cachedStructural_key s _)

/-- The comparison reads only the fingerprint rows of the table. -/
theorem isChanged_congr {H : HashFn} {s s' : IndexedStore} {table : Table}
    (h : s'.fingerprints.filter (·.table = table.qualified) =
      s.fingerprints.filter (·.table = table.qualified)) :
    isChanged H s' table = isChanged H s table := by
  rw [isChanged, isChanged, cachedStructural, cachedStructural, getTableFingerprints,
    getTableFingerprints, h]

/-! ## The tables that a run takes up -/

variable {H : HashFn} {run : IndexRun} {s : IndexedStore}

theorem mem_enrichmentWrites {table : Table} {w : StoreWrite} (h : w ∈ enrichmentWrites run table) :
    w = .writeTableDescriptions table.qualified (newDescriptions run table) ∨
      w = .writeTableEmbeddings table.qualified (newEmbeddings run table) := by
  rcases List.mem_append.1 h with h | h <;> split at h <;> simp_all

theorem mem_tableWrites {table : Table} {w : StoreWrite} (h : w ∈ tableWrites H run table) :
    w = .writeTable table ∨
      w = .writeTableFingerprints table.qualified (newFingerprints H run table) ∨
      w ∈ enrichmentWrites run table ∨
      w = .writeColumnPiiTags table.qualified.text (newTags run table) := by
  simpa only [tableWrites, List.mem_append, List.mem_cons, List.not_mem_nil, or_false] using h

/-- The writes after the fingerprints delete nothing and leave the fingerprints. -/
theorem enrichmentWrites_refingerprinted {table : Table} {w : StoreWrite}
    (h : w ∈ enrichmentWrites run table) : w.refingerprinted = none := by
  rcases mem_enrichmentWrites h with rfl | rfl <;> rfl

theorem tableWrites_refingerprinted {table : Table} {w : StoreWrite}
    (h : w ∈ tableWrites H run table) :
    w.refingerprinted = none ∨ w.refingerprinted = some table.qualified := by
  rcases mem_tableWrites h with rfl | rfl | h | rfl
  · exact .inr rfl
  · exact .inr rfl
  · exact .inl (enrichmentWrites_refingerprinted h)
  · exact .inl rfl

/-- The writes for one table delete that table only. -/
theorem exists_cleared_tableWrites {table : Table} {q : QualifiedTable} :
    (∃ w ∈ tableWrites H run table, w.cleared = some q) ↔ q = table.qualified := by
  constructor
  · rintro ⟨w, hw, hcleared⟩
    rcases mem_tableWrites hw with rfl | rfl | hw | rfl
    · exact (Option.some.inj hcleared).symm
    · simp [StoreWrite.cleared] at hcleared
    · rcases mem_enrichmentWrites hw with rfl | rfl <;> simp [StoreWrite.cleared] at hcleared
    · simp [StoreWrite.cleared] at hcleared
  · rintro rfl
    exact ⟨.writeTable table, by simp [tableWrites], rfl⟩

/-- Taking one table up leaves the fingerprints of the others. -/
theorem indexStep_fingerprints {q q' : QualifiedTable} (hne : q ≠ q') :
    (s.writeAll (indexStep H run s q)).1.fingerprints.filter (·.table = q') =
      s.fingerprints.filter (·.table = q') := by
  refine IndexedStore.writeAll_induction (P := fun s' =>
    s'.fingerprints.filter (·.table = q') = s.fingerprints.filter (·.table = q')) ?_ rfl
  intro s₁ s₂ w hw hsame hwrite
  rw [IndexedStore.write_fingerprints hwrite, hsame]
  simp only [indexStep] at hw
  split at hw
  · rcases tableWrites_refingerprinted hw with hnone | hsome
    · simp [hnone]
    · simpa [hsome, run.source.getTable_qualified] using hne
  · simp at hw

/-- The loop deletes exactly the rows of the listed tables that differ from the cache. -/
theorem exists_cleared_indexLoop {listed : List QualifiedTable} {q : QualifiedTable} :
    (∃ w ∈ indexLoop H run s listed, w.cleared = some q) ↔
      q ∈ listed ∧ isChanged H s (run.source.getTable q) = true := by
  induction listed generalizing s with
  | nil => simp [indexLoop]
  | cons q' rest ih =>
    simp only [indexLoop, List.mem_append, or_and_right, exists_or, ih, List.mem_cons]
    have hstep : (∃ w ∈ indexStep H run s q', w.cleared = some q) ↔
        q = q' ∧ isChanged H s (run.source.getTable q') = true := by
      unfold indexStep
      by_cases hchanged : isChanged H s (run.source.getTable q') = true
      · simp [hchanged, exists_cleared_tableWrites, run.source.getTable_qualified]
      · simp [hchanged]
    rw [hstep]
    by_cases hq : q = q'
    · subst hq
      by_cases hchanged : isChanged H s (run.source.getTable q) = true
      · simp [hchanged]
      · simp [indexStep, hchanged, IndexedStore.writeAll]
    · have hframe : isChanged H (s.writeAll (indexStep H run s q')).1 (run.source.getTable q) =
          isChanged H s (run.source.getTable q) := by
        apply isChanged_congr
        rw [run.source.getTable_qualified]
        exact indexStep_fingerprints (Ne.symm hq)
      rw [hframe]
      simp [hq]

theorem mem_removedTables {source : Source} {q : QualifiedTable} :
    q ∈ removedTables source s ↔
      q ∈ s.tables.map (·.qualified) ∧ q ∉ source.listTables := by
  rw [removedTables, List.mem_filter, decide_eq_true_eq]

theorem removals_refingerprinted {source : Source} {w : StoreWrite}
    (h : w ∈ removals source s) :
    w.refingerprinted = w.cleared ∧ ∀ q, w.cleared = some q → q ∈ removedTables source s := by
  obtain ⟨q, hq, hw⟩ := List.mem_flatMap.1 h
  rcases List.mem_cons.1 hw with rfl | hw
  · exact ⟨rfl, fun q' h => Option.some.inj h ▸ hq⟩
  · obtain rfl := List.mem_singleton.1 hw
    exact ⟨rfl, fun q' h => by simp [StoreWrite.cleared] at h⟩

/-- The removals leave the fingerprints of the listed tables. -/
theorem removals_fingerprints {source : Source} {q : QualifiedTable}
    (hq : q ∈ source.listTables) :
    (s.writeAll (removals source s)).1.fingerprints.filter (·.table = q) =
      s.fingerprints.filter (·.table = q) := by
  refine IndexedStore.writeAll_induction (P := fun s' =>
    s'.fingerprints.filter (·.table = q) = s.fingerprints.filter (·.table = q)) ?_ rfl
  intro s₁ s₂ w hw hsame hwrite
  rw [IndexedStore.write_fingerprints hwrite, hsame]
  obtain ⟨hrefingerprinted, hremoved⟩ := removals_refingerprinted hw
  intro heq
  exact (mem_removedTables.1 (hremoved q (hrefingerprinted ▸ heq))).2 hq

/-- A run deletes the rows of the changed tables and of those that the source lacks. -/
theorem exists_cleared_indexPlan {q : QualifiedTable} :
    (∃ w ∈ indexPlan H run s, w.cleared = some q) ↔
      (q ∈ s.tables.map (·.qualified) ∧ q ∉ run.source.listTables) ∨
      (q ∈ run.source.listTables ∧ isChanged H s (run.source.getTable q) = true) := by
  simp only [indexPlan, List.mem_append, or_and_right, exists_or, exists_cleared_indexLoop]
  apply or_congr
  · rw [← mem_removedTables]
    constructor
    · rintro ⟨w, hw, hcleared⟩
      exact (removals_refingerprinted hw).2 q hcleared
    · intro hq
      exact ⟨.deleteTable q, List.mem_flatMap.2 ⟨q, hq, List.mem_cons_self⟩, rfl⟩
  · refine and_congr_right fun hq => ?_
    have hframe : isChanged H (s.writeAll (removals run.source s)).1 (run.source.getTable q) =
        isChanged H s (run.source.getTable q) := by
      apply isChanged_congr
      rw [run.source.getTable_qualified]
      exact removals_fingerprints hq
    rw [hframe]

/-! ## Aborted and completed runs -/

/-- The writes that a run makes. -/
def writesMade (H : HashFn) (run : IndexRun) (s : IndexedStore) : List StoreWrite :=
  s.made (attempted H run s)

theorem index_eq_writesMade (H : HashFn) (run : IndexRun) (s : IndexedStore) :
    s.writeAll (writesMade H run s) = ((index H run s).1, true) :=
  s.writeAll_made _

/-- A run makes a first part of its plan. -/
theorem writesMade_initial (H : HashFn) (run : IndexRun) (s : IndexedStore) :
    writesMade H run s <+: indexPlan H run s := by
  refine (s.made_initial _).trans ?_
  unfold attempted
  split
  · exact List.prefix_refl _
  · exact List.take_prefix _ _

/-- A completed run makes its whole plan. -/
theorem writesMade_of_completed (h : (index H run s).2 = true) :
    writesMade H run s = indexPlan H run s := by
  simp only [index, Bool.and_eq_true, Option.isNone_iff_eq_none] at h
  rw [writesMade, IndexedStore.made_eq_of_completed h.1, attempted, h.2]

/-- A first part of two lists stops in the first or goes on in the second. -/
theorem prefix_append_cases {α : Type} {made first rest : List α} (h : made <+: first ++ rest) :
    made <+: first ∨ ∃ made', made = first ++ made' ∧ made' <+: rest := by
  rcases List.prefix_or_prefix_of_prefix h (List.prefix_append first rest) with h' | ⟨made', rfl⟩
  · exact .inl h'
  · exact .inr ⟨made', rfl, (List.prefix_append_right_inj first).1 h⟩

section Induction

variable {P : IndexedStore → Prop}
  (htables : ∀ {s q made}, q ∈ run.source.listTables → P s →
    made <+: tableWrites H run (run.source.getTable q) → (s.writeAll made).2 = true →
    P (s.writeAll made).1)

include htables

private theorem indexLoop_induction {listed : List QualifiedTable}
    (hlisted : listed ⊆ run.source.listTables) (h : P s) {made : List StoreWrite}
    (hmade : made <+: indexLoop H run s listed) (hall : (s.writeAll made).2 = true) :
    P (s.writeAll made).1 := by
  induction listed generalizing s made with
  | nil =>
    obtain rfl := List.prefix_nil.1 hmade
    exact h
  | cons q rest ih =>
    have hstep : ∀ {made : List StoreWrite}, made <+: indexStep H run s q →
        (s.writeAll made).2 = true → P (s.writeAll made).1 := by
      intro made hmade hall
      rw [indexStep] at hmade
      split at hmade
      · exact htables (hlisted List.mem_cons_self) h hmade hall
      · obtain rfl := List.prefix_nil.1 hmade
        exact h
    rcases prefix_append_cases hmade with hfirst | ⟨made', rfl, hrest⟩
    · exact hstep hfirst hall
    · obtain ⟨hfirst, heq⟩ := IndexedStore.writeAll_append_of_completed hall
      rw [heq] at hall ⊢
      exact ih (List.subset_of_cons_subset hlisted) (hstep (List.prefix_refl _) hfirst) hrest hall

/-- What the removals preserve, and any first part of the writes for one table, a run
preserves, completed or aborted. -/
theorem index_induction
    (hremovals : ∀ {s₁ s₂ w}, w ∈ removals run.source s → P s₁ → s₁.write w = some s₂ → P s₂)
    (h : P s) : P (index H run s).1 := by
  have hmade := index_eq_writesMade H run s
  have hall : (s.writeAll (writesMade H run s)).2 = true := by rw [hmade]
  rw [← show (s.writeAll (writesMade H run s)).1 = (index H run s).1 by rw [hmade]]
  have hremoved : ∀ {made : List StoreWrite}, made ⊆ removals run.source s →
      P (s.writeAll made).1 := fun hsubset =>
    IndexedStore.writeAll_induction (fun _ _ _ hw => hremovals (hsubset hw)) h
  rcases prefix_append_cases (writesMade_initial H run s) with hfirst | ⟨made', heq, hrest⟩
  · exact hremoved hfirst.subset
  · rw [heq] at hall ⊢
    obtain ⟨-, happend⟩ := IndexedStore.writeAll_append_of_completed hall
    rw [happend] at hall ⊢
    exact indexLoop_induction htables (List.Subset.refl _) (hremoved (List.Subset.refl _)) hrest
      hall

end Induction

/-- A table that was taken up differs no longer from the cache. -/
private theorem isChanged_tableWrites {table : Table}
    (h : (s.writeAll (tableWrites H run table)).2 = true) :
    isChanged H (s.writeAll (tableWrites H run table)).1 table = false := by
  rw [tableWrites] at h ⊢
  obtain ⟨s₁, -, htable⟩ := IndexedStore.exists_write_of_completed h
  rw [htable] at h ⊢
  obtain ⟨s₂, hwrite, hfingerprints⟩ := IndexedStore.exists_write_of_completed h
  rw [hfingerprints] at h ⊢
  have hrows : s₂.fingerprints.filter (·.table = table.qualified) =
      (newFingerprints H run table).map fun p => ⟨table.qualified, p.1, p.2⟩ := by
    simp only [IndexedStore.write, IndexedStore.writeTableFingerprints] at hwrite
    split at hwrite
    · obtain rfl := Option.some.inj hwrite
      simp [replaceRows, List.filter_append, List.filter_filter, List.filter_map,
        Function.comp_def]
    · simp at hwrite
  have hunchanged : isChanged H s₂ table = false := by
    rw [isChanged_eq_false]
    simp [cachedStructural, getTableFingerprints, hrows, newFingerprints, newStructural,
      Function.comp_def]
  -- What follows the fingerprints leaves them.
  refine IndexedStore.writeAll_induction (P := fun s => isChanged H s table = false) ?_ hunchanged
  intro s₃ s₄ w hw hsame hwrite
  rw [isChanged_congr (IndexedStore.write_fingerprints hwrite ?_), hsame]
  rcases List.mem_append.1 hw with hw | hw
  · simp [enrichmentWrites_refingerprinted hw]
  · obtain rfl := List.mem_singleton.1 hw
    simp [StoreWrite.refingerprinted, StoreWrite.cleared]

/-- A table that agrees with the cache still does after a step of the loop. -/
theorem isChanged_indexStep_of_unchanged {q q' : QualifiedTable}
    (h : isChanged H s (run.source.getTable q) = false) :
    isChanged H (s.writeAll (indexStep H run s q')).1 (run.source.getTable q) = false := by
  by_cases hq : q' = q
  · subst hq
    rw [indexStep, h]
    exact h
  · rw [isChanged_congr, h]
    rw [run.source.getTable_qualified]
    exact indexStep_fingerprints hq

private theorem isChanged_indexLoop_of_unchanged {listed : List QualifiedTable}
    {q : QualifiedTable} (h : isChanged H s (run.source.getTable q) = false) :
    isChanged H (s.writeAll (indexLoop H run s listed)).1 (run.source.getTable q) = false := by
  induction listed generalizing s with
  | nil => exact h
  | cons q' rest ih =>
    simp only [indexLoop, IndexedStore.writeAll_append]
    split
    · exact ih (isChanged_indexStep_of_unchanged h)
    · exact isChanged_indexStep_of_unchanged h

/-- After the loop every listed table agrees with the cache. -/
private theorem isChanged_indexLoop {listed : List QualifiedTable}
    (h : (s.writeAll (indexLoop H run s listed)).2 = true) {q : QualifiedTable}
    (hq : q ∈ listed) :
    isChanged H (s.writeAll (indexLoop H run s listed)).1 (run.source.getTable q) = false := by
  induction listed generalizing s with
  | nil => simp at hq
  | cons q' rest ih =>
    simp only [indexLoop] at h ⊢
    obtain ⟨hstep, heq⟩ := IndexedStore.writeAll_append_of_completed h
    rw [heq] at h ⊢
    rcases List.mem_cons.1 hq with rfl | hq
    · apply isChanged_indexLoop_of_unchanged
      simp only [indexStep] at hstep ⊢
      split
      · next hchanged =>
        rw [if_pos hchanged] at hstep
        exact isChanged_tableWrites hstep
      · next hchanged => exact Bool.not_eq_true _ ▸ hchanged
    · exact ih h hq

/-- After a completed run every table of the source agrees with the cache. -/
theorem isChanged_of_completed (h : (index H run s).2 = true) {q : QualifiedTable}
    (hq : q ∈ run.source.listTables) :
    isChanged H (index H run s).1 (run.source.getTable q) = false := by
  have hall := index_eq_writesMade H run s
  rw [writesMade_of_completed h, indexPlan] at hall
  have hcompleted := congrArg Prod.snd hall
  rw [← congrArg Prod.fst hall]
  obtain ⟨-, heq⟩ := IndexedStore.writeAll_append_of_completed hcompleted
  rw [heq] at hcompleted ⊢
  exact isChanged_indexLoop hcompleted hq

/-- A store before its first run. -/
def emptyStore : IndexedStore where
  tables := []
  entities := []
  canonicalJoins := []
  metrics := []
  columnPiiTags := []
  fingerprints := []
  descriptions := []
  embeddings := []

end SchemaBrain.Indexer
