import SchemaBrain.Base.Sha256
import SchemaBrain.Indexer.Index

/-!
# The semantic layer across a run

Writing a changed table deletes its row first, and the cascades take the entities bound to
it, their metrics and their canonical joins, which nothing writes again.
-/

namespace SchemaBrain.Indexer

open Base Core

/-! ## Sweeps -/

/-- What cascades from the tables that are gone leave of a store. -/
structure Sweeps (gone : QualifiedTable → Prop) (s s' : Store) : Prop where
  entities : ∀ e, e ∈ s'.entities ↔ e ∈ s.entities ∧ ¬ gone e.binding
  metrics : ∀ m, m ∈ s'.metrics ↔
    m ∈ s.metrics ∧ ∀ e ∈ s.entities, e.name = m.entity → ¬ gone e.binding
  joins : ∀ j, j ∈ s'.canonicalJoins ↔ j ∈ s.canonicalJoins ∧
    ∀ e ∈ s.entities, e.name = j.sourceEntity ∨ e.name = j.targetEntity → ¬ gone e.binding

namespace Sweeps

variable {gone gone' : QualifiedTable → Prop} {s s' s'' : Store}

/-- Where nothing is gone, nothing is swept. -/
theorem of_eq (hnone : ∀ q, ¬ gone q) (hentities : s'.entities = s.entities)
    (hjoins : s'.canonicalJoins = s.canonicalJoins) (hmetrics : s'.metrics = s.metrics) :
    Sweeps gone s s' where
  entities e := by simp [hentities, hnone]
  metrics m := by simp [hmetrics, hnone]
  joins j := by simp [hjoins, hnone]

/-- Two sweeps are one. -/
theorem trans (h : Sweeps gone s s') (h' : Sweeps gone' s' s'') :
    Sweeps (fun q => gone q ∨ gone' q) s s'' where
  entities e := by
    rw [h'.entities, h.entities, not_or, and_assoc]
  metrics m := by
    simp only [h'.metrics, h.metrics, h.entities, not_or]
    constructor
    · rintro ⟨⟨hm, hkept⟩, hkept'⟩
      exact ⟨hm, fun e he hname => ⟨hkept e he hname, hkept' e ⟨he, hkept e he hname⟩ hname⟩⟩
    · rintro ⟨hm, hkept⟩
      exact ⟨⟨hm, fun e he hname => (hkept e he hname).1⟩,
        fun e he hname => (hkept e he.1 hname).2⟩
  joins j := by
    simp only [h'.joins, h.joins, h.entities, not_or]
    constructor
    · rintro ⟨⟨hj, hkept⟩, hkept'⟩
      exact ⟨hj, fun e he hname => ⟨hkept e he hname, hkept' e ⟨he, hkept e he hname⟩ hname⟩⟩
    · rintro ⟨hj, hkept⟩
      exact ⟨⟨hj, fun e he hname => (hkept e he hname).1⟩,
        fun e he hname => (hkept e he.1 hname).2⟩

/-- The tables that are gone may be named differently. -/
theorem congr (h : Sweeps gone s s') (hgone : ∀ q, gone q ↔ gone' q) : Sweeps gone' s s' := by
  obtain rfl : gone = gone' := funext fun q => propext (hgone q)
  exact h

end Sweeps

private theorem not_mem_boundNames_iff {s : Store} {q : QualifiedTable} {name : String} :
    name ∉ s.boundNames q ↔ ∀ e ∈ s.entities, e.name = name → e.binding ≠ q := by
  constructor
  · rintro hnot e he rfl
    exact (Store.not_mem_boundNames he).1 hnot
  · intro hall hmem
    obtain ⟨e, he, hname⟩ := List.mem_map.1 hmem
    obtain ⟨he, hbound⟩ := List.mem_filter.1 he
    exact hall e he hname (of_decide_eq_true hbound)

/-- Deleting one table sweeps what is bound to it. -/
theorem sweeps_deleteTable (s : Store) (q : QualifiedTable) :
    Sweeps (fun q' => q = q') s (s.deleteTable q) where
  entities e := by
    simp only [Store.deleteTable, List.mem_filter, decide_eq_true_eq]
    exact and_congr_right fun _ => ne_comm
  metrics m := by
    simp only [Store.deleteTable, List.mem_filter, decide_eq_true_eq, not_mem_boundNames_iff]
    exact and_congr_right fun _ => forall₃_congr fun e _ _ => ne_comm
  joins j := by
    simp only [Store.deleteTable, List.mem_filter, decide_eq_true_eq, not_mem_boundNames_iff]
    refine and_congr_right fun _ => ⟨?_, ?_⟩
    · rintro ⟨hsource, htarget⟩ e he (hname | hname)
      · exact Ne.symm (hsource e he hname)
      · exact Ne.symm (htarget e he hname)
    · intro hkept
      exact ⟨fun e he hname => Ne.symm (hkept e he (.inl hname)),
        fun e he hname => Ne.symm (hkept e he (.inr hname))⟩

/-- One write sweeps the table that it deletes. -/
theorem sweeps_write {s s' : IndexedStore} {w : StoreWrite} (h : s.write w = some s') :
    Sweeps (fun q => w.cleared = some q) s.toStore s'.toStore := by
  cases hw : w.cleared with
  | none =>
    obtain ⟨-, hentities, hjoins, hmetrics⟩ := IndexedStore.write_of_not_cleared h hw
    exact .of_eq (by simp) hentities hjoins hmetrics
  | some q =>
    obtain ⟨hentities, hjoins, hmetrics, -, -⟩ := IndexedStore.write_of_cleared h hw
    have hdeleted := sweeps_deleteTable s.toStore q
    constructor
    · intro e
      rw [hentities, Option.some.injEq]
      exact hdeleted.entities e
    · intro m
      simp only [hmetrics, Option.some.injEq]
      exact hdeleted.metrics m
    · intro j
      simp only [hjoins, Option.some.injEq]
      exact hdeleted.joins j

/-- A list of writes sweeps the tables that the ones made delete. -/
theorem sweeps_writeAll (s : IndexedStore) (writes : List StoreWrite) :
    Sweeps (fun q => ∃ w ∈ s.made writes, w.cleared = some q) s.toStore
      (s.writeAll writes).1.toStore := by
  induction writes generalizing s with
  | nil => exact .of_eq (by simp [IndexedStore.made]) rfl rfl rfl
  | cons w rest ih =>
    cases hw : s.write w with
    | none =>
      obtain ⟨hall, hmade⟩ := IndexedStore.writeAll_refused hw rest
      rw [hall, hmade]
      exact .of_eq (by simp) rfl rfl rfl
    | some s' =>
      rw [IndexedStore.writeAll_cons hw, IndexedStore.made_cons hw]
      exact ((sweeps_write hw).trans (ih s')).congr fun q => by simp

/-! ## What a run preserves -/

/-- The entities on a table, their metrics and their joins are the same rows. -/
structure LayerPreserved (q : QualifiedTable) (s s' : Store) : Prop where
  entities : ∀ e, e.binding = q → (e ∈ s'.entities ↔ e ∈ s.entities)
  metrics : ∀ m, m.entity ∈ s.boundNames q → (m ∈ s'.metrics ↔ m ∈ s.metrics)
  joins : ∀ j, j.sourceEntity ∈ s.boundNames q ∨ j.targetEntity ∈ s.boundNames q →
    (j ∈ s'.canonicalJoins ↔ j ∈ s.canonicalJoins)

/-- The layer on every surviving table is preserved, and only other entities are swept. -/
structure ReindexPreserves (source : Source) (s s' : Store) : Prop where
  layer : ∀ q ∈ s.tables.map (·.qualified), q ∈ source.listTables → LayerPreserved q s s'
  swept : ∀ e ∈ s.entities, e ∉ s'.entities → e.binding ∉ source.listTables

/-- No surviving table with an entity has changed, and no join leads from one to a table
that is gone. -/
structure SurvivesReindex (H : HashFn) (source : Source) (s : IndexedStore) : Prop where
  unchanged : ∀ e ∈ s.entities, e.binding ∈ source.listTables →
    isChanged H s (source.getTable e.binding) = false
  joined : ∀ j ∈ s.canonicalJoins, ∀ e ∈ s.entities, ∀ e' ∈ s.entities,
    e.name = j.sourceEntity → e'.name = j.targetEntity →
      (e.binding ∈ source.listTables ↔ e'.binding ∈ source.listTables)

section Preserved

variable {H : HashFn} {run : IndexRun} {s : IndexedStore}

/-- A run sweeps some of the tables that it would delete, and all of them if it completes. -/
theorem sweeps_index (H : HashFn) (run : IndexRun) (s : IndexedStore) :
    ∃ gone, Sweeps gone s.toStore (index H run s).1.toStore ∧
      (∀ q, gone q → ∃ w ∈ indexPlan H run s, w.cleared = some q) ∧
      ((index H run s).2 = true →
        ∀ q, (∃ w ∈ indexPlan H run s, w.cleared = some q) → gone q) := by
  have hsweeps := sweeps_writeAll s (writesMade H run s)
  rw [index_eq_writesMade] at hsweeps
  have hmade : s.made (writesMade H run s) = writesMade H run s := by
    apply IndexedStore.made_eq_of_completed
    rw [index_eq_writesMade]
  rw [hmade] at hsweeps
  refine ⟨_, hsweeps, ?_, ?_⟩
  · rintro q ⟨w, hw, hcleared⟩
    exact ⟨w, (writesMade_initial H run s).subset hw, hcleared⟩
  · intro h q hq
    rwa [writesMade_of_completed h]

private theorem binding_mem {e : Entity} (he : e ∈ s.entities) :
    e.binding ∈ s.tables.map (·.qualified) := by
  obtain ⟨t, ht, hkey⟩ := s.entities_bound e he
  exact hkey ▸ List.mem_map_of_mem ht

private theorem mem_boundNames {q : QualifiedTable} {name : String}
    (h : name ∈ s.toStore.boundNames q) : ∃ e ∈ s.entities, e.name = name ∧ e.binding = q := by
  obtain ⟨e, he, hname⟩ := List.mem_map.1 h
  obtain ⟨he, hbound⟩ := List.mem_filter.1 he
  exact ⟨e, he, hname, of_decide_eq_true hbound⟩

/-- Under the condition every run preserves the layer, an aborted one too. -/
theorem SurvivesReindex.reindexPreserves (h : SurvivesReindex H run.source s) :
    ReindexPreserves run.source s.toStore (index H run s).1.toStore := by
  obtain ⟨gone, hsweeps, hplan, -⟩ := sweeps_index H run s
  have hkept : ∀ e ∈ s.entities, e.binding ∈ run.source.listTables → ¬ gone e.binding := by
    intro e he hlisted hgone
    rcases exists_cleared_indexPlan.1 (hplan _ hgone) with ⟨-, hnot⟩ | ⟨-, hchanged⟩
    · exact hnot hlisted
    · simp [h.unchanged e he hlisted] at hchanged
  constructor
  · intro q hq hlisted
    constructor
    · rintro e rfl
      rw [hsweeps.entities]
      exact and_iff_left_of_imp fun he => hkept e he hlisted
    · intro m hm
      rw [hsweeps.metrics]
      refine and_iff_left fun e he hname => ?_
      obtain ⟨e', he', hname', rfl⟩ := mem_boundNames hm
      obtain rfl := List.inj_on_of_nodup_map s.entities_key he he' (hname.trans hname'.symm)
      exact hkept e he hlisted
    · intro j hends
      rw [hsweeps.joins]
      refine and_iff_left_of_imp fun hj e he hname => hkept e he ?_
      obtain ⟨source, hsource, hsource_name⟩ := s.joins_source j hj
      obtain ⟨target, htarget, htarget_name⟩ := s.joins_target j hj
      have hjoined := h.joined j hj source hsource target htarget hsource_name htarget_name
      -- One end is on the surviving table, so the tables of both ends survive.
      have hboth : source.binding ∈ run.source.listTables ∧
          target.binding ∈ run.source.listTables := by
        rcases hends with hend | hend
        · obtain ⟨e', he', hname', rfl⟩ := mem_boundNames hend
          obtain rfl := List.inj_on_of_nodup_map s.entities_key hsource he'
            (hsource_name.trans hname'.symm)
          exact ⟨hlisted, hjoined.1 hlisted⟩
        · obtain ⟨e', he', hname', rfl⟩ := mem_boundNames hend
          obtain rfl := List.inj_on_of_nodup_map s.entities_key htarget he'
            (htarget_name.trans hname'.symm)
          exact ⟨hjoined.2 hlisted, hlisted⟩
      rcases hname with hname | hname
      · obtain rfl := List.inj_on_of_nodup_map s.entities_key he hsource
          (hname.trans hsource_name.symm)
        exact hboth.1
      · obtain rfl := List.inj_on_of_nodup_map s.entities_key he htarget
          (hname.trans htarget_name.symm)
        exact hboth.2
  · intro e he hswept hlisted
    exact hswept ((hsweeps.entities e).2 ⟨he, hkept e he hlisted⟩)

/-- A completed run preserves the layer exactly under the condition. -/
theorem reindexPreserves_iff (h : (index H run s).2 = true) :
    ReindexPreserves run.source s.toStore (index H run s).1.toStore ↔
      SurvivesReindex H run.source s := by
  refine ⟨fun hpreserves => ?_, SurvivesReindex.reindexPreserves⟩
  obtain ⟨gone, hsweeps, -, hplan⟩ := sweeps_index H run s
  have hgone := fun q hq => hplan h q (exists_cleared_indexPlan.2 hq)
  constructor
  · intro e he hlisted
    by_contra hchanged
    rw [Bool.not_eq_false] at hchanged
    have hkept := ((hpreserves.layer _ (binding_mem he) hlisted).entities e rfl).2 he
    exact ((hsweeps.entities e).1 hkept).2 (hgone _ (.inr ⟨hlisted, hchanged⟩))
  · intro j hj e he e' he' hname hname'
    constructor
    · intro hlisted
      by_contra hnot
      have hend : j.sourceEntity ∈ s.toStore.boundNames e.binding := hname ▸
        List.mem_map_of_mem (List.mem_filter.2 ⟨he, decide_eq_true rfl⟩)
      have hkept := ((hpreserves.layer _ (binding_mem he) hlisted).joins j (.inl hend)).2 hj
      exact ((hsweeps.joins j).1 hkept).2 e' he' (.inr hname')
        (hgone _ (.inl ⟨binding_mem he', hnot⟩))
    · intro hlisted
      by_contra hnot
      have hend : j.targetEntity ∈ s.toStore.boundNames e'.binding := hname' ▸
        List.mem_map_of_mem (List.mem_filter.2 ⟨he', decide_eq_true rfl⟩)
      have hkept := ((hpreserves.layer _ (binding_mem he') hlisted).joins j (.inr hend)).2 hj
      exact ((hsweeps.joins j).1 hkept).2 e he (.inl hname)
        (hgone _ (.inl ⟨binding_mem he, hnot⟩))

end Preserved

/-! ## A column that is added -/

def usersTable : QualifiedTable := ⟨"public", "users"⟩

def idColumn : Column where
  name := "id"
  dataType := "bigint"
  isPrimaryKey := true

def emailColumn : Column where
  name := "email"
  dataType := "text"
  ordinalPosition := 2

/-- A run over the source `public.users` with the columns given. -/
def usersRun (columns : List Column) (h : (columns.map (·.name)).Nodup) : IndexRun where
  source := {
    listTables := [usersTable]
    getTable := fun q => ⟨q, columns, []⟩
    getTable_qualified := fun _ => rfl
    columns_key := fun _ => h }
  profile _ _ := none

def sameColumns : IndexRun := usersRun [idColumn] (by decide)

def addedColumn : IndexRun := usersRun [idColumn, emailColumn] (by decide)

/-- The entity `user` with one metric on the table `public.users`, indexed with one column. -/
def usersStore : IndexedStore where
  tables := [⟨usersTable, [idColumn], []⟩]
  entities := [{ name := "user", binding := usersTable, identity := "id" }]
  canonicalJoins := []
  metrics := [
    { name := "user_count", entity := "user", measure := { agg := .count, ref := .column "id" } }]
  columnPiiTags := []
  fingerprints := [⟨usersTable, "id", {
    structural := columnStructuralFingerprint Sha256.digest idColumn []
    semantic := columnSemanticFingerprint Sha256.digest idColumn [] none }⟩]
  fingerprints_ok := ⟨by decide, by decide⟩

theorem reindexPreserves_sameColumns :
    ReindexPreserves sameColumns.source usersStore.toStore
      (index Sha256.digest sameColumns usersStore).1.toStore ↔
    SurvivesReindex Sha256.digest sameColumns.source usersStore :=
  reindexPreserves_iff (by decide +kernel)

/-- A new column in the source sweeps the entity and its metric. -/
theorem not_reindexPreserves_addedColumn :
    (index Sha256.digest addedColumn usersStore).2 = true ∧
    (index Sha256.digest addedColumn usersStore).1.metrics = [] ∧
    ¬ ReindexPreserves addedColumn.source usersStore.toStore
      (index Sha256.digest addedColumn usersStore).1.toStore := by
  refine ⟨by decide +kernel, by decide +kernel, fun h => ?_⟩
  have hswept : { name := "user", binding := usersTable, identity := "id" } ∉
      (index Sha256.digest addedColumn usersStore).1.entities := by decide +kernel
  exact h.swept _ List.mem_cons_self hswept List.mem_cons_self

end SchemaBrain.Indexer
