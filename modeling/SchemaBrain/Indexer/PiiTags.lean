import SchemaBrain.Base.Run
import SchemaBrain.Base.Sha256
import SchemaBrain.Indexer.Index

/-!
# Tags after a run

Tags are written last. A table whose fingerprints were written without them looks unchanged
to the next run, which then leaves it untagged. Histories in which that never happens keep
every cached column tagged.
-/

namespace SchemaBrain.Indexer

open Base Core

/-! ## Complete tags -/

/-- `classify_column` of what the catalogue says of a column. -/
def classification (q : QualifiedTable) (col : Column) : ColumnPiiTag :=
  Pii.classifyColumn col.name (some col.dataType) col.isPrimaryKey (some q.table)

/-- A column with an operator's tag, or with its classification. -/
def Tagged (s : Store) (q : QualifiedTable) (col : Column) : Prop :=
  col.name ∉ s.overridden q.text →
    ⟨q.text, col.name, classification q col, .heuristic⟩ ∈ s.columnPiiTags

/-- Every column of every listed table is tagged. -/
def TagsComplete (source : Source) (s : Store) : Prop :=
  ∀ q ∈ source.listTables, ∀ col ∈ (source.getTable q).columns, Tagged s q col

instance (source : Source) (s : Store) : Decidable (TagsComplete source s) :=
  inferInstanceAs (Decidable (∀ q ∈ source.listTables, ∀ col ∈ (source.getTable q).columns,
    col.name ∉ s.overridden q.text →
      ⟨q.text, col.name, classification q col, .heuristic⟩ ∈ s.columnPiiTags))

/-! ## What a write does to the tags -/

section Writes

variable {s s' : IndexedStore} {w : StoreWrite} {q : QualifiedTable} {col : Column}

/-- Only a write of tags changes them. -/
theorem write_columnPiiTags (h : s.write w = some s')
    (hw : ∀ text tags, w ≠ .writeColumnPiiTags text tags) : s'.columnPiiTags = s.columnPiiTags := by
  cases w with
  | writeColumnPiiTags text tags => exact absurd rfl (hw text tags)
  | deleteTable q => exact (IndexedStore.write_of_cleared h rfl).2.2.2.2
  | writeTable t => exact (IndexedStore.write_of_cleared h rfl).2.2.2.2
  | writeTableFingerprints q new
  | writeTableDescriptions q new
  | writeTableEmbeddings q new =>
    simp only [IndexedStore.write, IndexedStore.writeTableFingerprints,
      IndexedStore.writeTableDescriptions, IndexedStore.writeTableEmbeddings] at h
    split at h
    · obtain rfl := Option.some.inj h
      rfl
    · simp at h

/-- The store after a write of tags. -/
theorem write_tags {text : String} {tags : List (String × ColumnPiiTag)}
    (h : s.write (.writeColumnPiiTags text tags) = some s') :
    s'.columnPiiTags = s.replacedTags text tags ∧ s'.tables = s.tables ∧
      s'.fingerprints = s.fingerprints := by
  simp only [IndexedStore.write, IndexedStore.writeColumnPiiTags] at h
  split at h
  · obtain rfl := Option.some.inj h
    exact ⟨rfl, rfl, rfl⟩
  · simp at h

/-- No write of a run touches an operator's tag. -/
theorem overridden_write (h : s.write w = some s') (text column : String) :
    column ∈ s'.overridden text ↔ column ∈ s.overridden text := by
  cases w with
  | writeColumnPiiTags text' tags =>
    simp only [Store.mem_overridden, (write_tags h).1, Store.mem_replacedTags]
    constructor
    · rintro ⟨r, ⟨hr, -⟩ | ⟨p, -, -, rfl⟩, htable, horigin, hcolumn⟩
      · exact ⟨r, hr, htable, horigin, hcolumn⟩
      · simp at horigin
    · rintro ⟨r, hr, htable, horigin, hcolumn⟩
      exact ⟨r, .inl ⟨hr, by simp [horigin]⟩, htable, horigin, hcolumn⟩
  | _ =>
    have htags := write_columnPiiTags h (by simp)
    simp only [Store.mem_overridden, htags]

theorem overridden_writeAll (s : IndexedStore) (writes : List StoreWrite) (text column : String) :
    column ∈ (s.writeAll writes).1.overridden text ↔ column ∈ s.overridden text := by
  refine IndexedStore.writeAll_induction
    (P := fun s' => column ∈ s'.overridden text ↔ column ∈ s.overridden text) ?_ Iff.rfl
  intro s₁ s₂ w _ hsame hwrite
  rw [overridden_write hwrite, hsame]

/-- Tags of another table leave a column tagged. -/
theorem Tagged.write (htagged : Tagged s.toStore q col) (h : s.write w = some s')
    (hw : ∀ text tags, w = .writeColumnPiiTags text tags → text ≠ q.text) :
    Tagged s'.toStore q col := by
  intro hfree
  have hrow := htagged (mt (overridden_write h _ _).2 hfree)
  cases w with
  | writeColumnPiiTags text tags =>
    rw [(write_tags h).1, Store.mem_replacedTags]
    exact .inl ⟨hrow, fun hheuristic => hw text tags rfl hheuristic.1.symm⟩
  | _ => rwa [write_columnPiiTags h (by simp)]

/-- The tags of a classified column are written unless an operator's stand. -/
theorem tagged_of_mem {tags : List (String × ColumnPiiTag)}
    (h : s.write (.writeColumnPiiTags q.text tags) = some s')
    (hmem : (col.name, classification q col) ∈ tags) : Tagged s'.toStore q col := by
  intro hfree
  rw [(write_tags h).1, Store.mem_replacedTags]
  exact .inr ⟨_, hmem, mt (overridden_write h _ _).2 hfree, rfl⟩

end Writes

/-! ## The cache and the tags -/

/-- The table whose tags are still to come after a write. -/
def pendingAfter (pending : Option QualifiedTable) : StoreWrite → Option QualifiedTable
  | .writeTableFingerprints q _ => some q
  | .writeColumnPiiTags _ _ => none
  | _ => pending

/-- The table that a list of writes leaves fingerprinted without its tags. -/
def pendingTags (writes : List StoreWrite) : Option QualifiedTable :=
  writes.foldl pendingAfter none

/-- The tables that the store holds and those that the source lists. -/
def knownTables (source : Source) (s : IndexedStore) : List Table :=
  s.tables ++ source.listTables.map source.getTable

/-- Every cached fingerprint is that of a stored column, which is tagged, except on the
table whose tags are still to come. -/
structure CacheTagged (H : HashFn) (source : Source) (known : List Table)
    (pending : Option QualifiedTable) (s : IndexedStore) : Prop where
  tables : ∀ t ∈ s.tables, t ∈ known
  rows : ∀ r ∈ s.fingerprints, ∃ t ∈ s.tables, t.qualified = r.table ∧ ∃ col ∈ t.columns,
    col.name = r.column ∧
    r.value.structural = columnStructuralFingerprint H col (fkTargetsForColumn t col.name) ∧
    (pending = some r.table ∧ t = source.getTable r.table ∨ Tagged s.toStore r.table col)

/-- The conditions under which a run keeps the cached columns tagged. -/
structure KeepsTags (H : HashFn) (s : IndexedStore) (run : IndexRun) : Prop where
  /-- Different tables have different `schema.table` texts. -/
  texts : ∀ t ∈ knownTables run.source s, ∀ t' ∈ knownTables run.source s,
    t.qualified.text = t'.qualified.text → t.qualified = t'.qualified
  /-- No two columns share a fingerprint by a hash collision. -/
  collision_free : CollisionFreeOn H ((knownTables run.source s).flatMap Table.structuralTexts)
  /-- A run without classification takes up no column without an operator's tag. -/
  classified : run.noPiiClassify = true → ∀ q ∈ run.source.listTables,
    isChanged H s (run.source.getTable q) = true →
    ∀ col ∈ (run.source.getTable q).columns, col.name ∈ s.overridden q.text
  /-- Nor does a run stop between the fingerprints of such a column and its tag. -/
  settled : ∀ q, pendingTags (writesMade H run s) = some q →
    ∀ col ∈ (run.source.getTable q).columns, col.name ∈ s.overridden q.text

section Invariant

variable {H : HashFn} {run : IndexRun} {known : List Table} {s s' : IndexedStore}
  {w : StoreWrite} {t : Table} {q : QualifiedTable}

private theorem CacheTagged.write_cleared (h : CacheTagged H run.source known none s)
    (hwrite : s.write w = some s') (hcleared : w.cleared = some q)
    (hknown : ∀ t, w = .writeTable t → t ∈ known) : CacheTagged H run.source known none s' := by
  obtain ⟨-, -, -, hrows, htags⟩ := IndexedStore.write_of_cleared hwrite hcleared
  constructor
  · intro t ht
    rcases (IndexedStore.mem_tables_write hwrite).1 ht with ⟨ht, -⟩ | rfl
    · exact h.tables t ht
    · exact hknown t rfl
  · intro r hr
    rw [hrows, List.mem_filter, decide_eq_true_eq] at hr
    obtain ⟨t, ht, hkey, col, hcol, hname, hhash, htagged⟩ := h.rows r hr.1
    have ht' : t ∈ s'.tables := by
      refine (IndexedStore.mem_tables_write hwrite).2 (.inl ⟨ht, ?_⟩)
      rw [hcleared, hkey]
      exact fun heq => hr.2 (Option.some.inj heq).symm
    refine ⟨t, ht', hkey, col, hcol, hname, hhash, .inr ?_⟩
    refine (htagged.resolve_left (by simp)).write hwrite ?_
    rintro text tags rfl
    simp [StoreWrite.cleared] at hcleared

private theorem CacheTagged.write_fingerprints (h : CacheTagged H run.source known none s)
    (hwrite : s.write (.writeTableFingerprints q
      (newFingerprints H run (run.source.getTable q))) = some s')
    (ht : run.source.getTable q ∈ s.tables) : CacheTagged H run.source known (some q) s' := by
  have htagged : ∀ {q' col}, Tagged s.toStore q' col → Tagged s'.toStore q' col :=
    fun htagged => htagged.write hwrite (by simp)
  simp only [IndexedStore.write, IndexedStore.writeTableFingerprints] at hwrite
  split at hwrite
  · obtain rfl := Option.some.inj hwrite
    refine ⟨h.tables, fun r hr => ?_⟩
    rcases mem_replaceRows.1 hr with ⟨hr, -⟩ | ⟨p, hp, rfl⟩
    · obtain ⟨t, ht, hkey, col, hcol, hname, hhash, hold⟩ := h.rows r hr
      exact ⟨t, ht, hkey, col, hcol, hname, hhash,
        .inr (htagged (hold.resolve_left (by simp)))⟩
    · obtain ⟨col, hcol, rfl⟩ := List.mem_map.1 hp
      exact ⟨_, ht, run.source.getTable_qualified q, col, hcol, rfl, rfl, .inl ⟨rfl, rfl⟩⟩
  · simp at hwrite

private theorem CacheTagged.write_enrichment {pending : Option QualifiedTable}
    (h : CacheTagged H run.source known pending s) (hw : w ∈ enrichmentWrites run t)
    (hwrite : s.write w = some s') : CacheTagged H run.source known pending s' := by
  have htagged : ∀ {q' col}, Tagged s.toStore q' col → Tagged s'.toStore q' col := by
    refine fun htagged => htagged.write hwrite ?_
    rintro text tags rfl
    rcases mem_enrichmentWrites hw with heq | heq <;> simp at heq
  have hrows : s'.tables = s.tables ∧ s'.fingerprints = s.fingerprints := by
    rcases mem_enrichmentWrites hw with rfl | rfl
    all_goals
      simp only [IndexedStore.write, IndexedStore.writeTableDescriptions,
        IndexedStore.writeTableEmbeddings] at hwrite
      split at hwrite
      · obtain rfl := Option.some.inj hwrite
        exact ⟨rfl, rfl⟩
      · simp at hwrite
  constructor
  · rw [hrows.1]
    exact h.tables
  · intro r hr
    rw [hrows.2] at hr
    obtain ⟨t, ht, hkey, col, hcol, hname, hhash, hold⟩ := h.rows r hr
    exact ⟨t, hrows.1 ▸ ht, hkey, col, hcol, hname, hhash, hold.imp_right htagged⟩

/-- Writing the tags of one table, when no other known table has its text. -/
private theorem CacheTagged.write_tags {pending : Option QualifiedTable}
    {tags : List (String × ColumnPiiTag)} (h : CacheTagged H run.source known pending s)
    (htexts : ∀ t ∈ known, t.qualified.text = q.text → t.qualified = q)
    (hwrite : s.write (.writeColumnPiiTags q.text tags) = some s')
    (hpending : ∀ q', pending = some q' → q' = q)
    (hnew : ∀ t ∈ s.tables, t.qualified = q → ∀ col ∈ t.columns, Tagged s'.toStore q col) :
    CacheTagged H run.source known none s' := by
  obtain ⟨-, htables, hrows⟩ := Indexer.write_tags hwrite
  constructor
  · rw [htables]
    exact h.tables
  · intro r hr
    rw [hrows] at hr
    obtain ⟨t, ht, hkey, col, hcol, hname, hhash, hold⟩ := h.rows r hr
    refine ⟨t, htables ▸ ht, hkey, col, hcol, hname, hhash, .inr ?_⟩
    by_cases hq : r.table = q
    · rw [hq]
      exact hnew t ht (hkey.trans hq) col hcol
    · have htext : r.table.text ≠ q.text := by
        rw [← hkey]
        exact fun heq => hq (hkey ▸ htexts t (h.tables t ht) heq)
      have htagged := hold.resolve_left fun hpend => hq (hpending _ hpend.1)
      refine htagged.write hwrite ?_
      rintro text tags' heq
      obtain ⟨rfl, -⟩ := StoreWrite.writeColumnPiiTags.inj heq
      exact htext.symm

private theorem foldl_pendingAfter_enrichment {pending : Option QualifiedTable}
    {writes : List StoreWrite} (h : writes ⊆ enrichmentWrites run t) :
    writes.foldl pendingAfter pending = pending := by
  induction writes with
  | nil => rfl
  | cons w rest ih =>
    have hw : pendingAfter pending w = pending := by
      rcases mem_enrichmentWrites (h List.mem_cons_self) with rfl | rfl <;> rfl
    rw [List.foldl_cons, hw]
    exact ih (List.subset_of_cons_subset h)

/-- What holds between the writes for one table, once its row is written. -/
private structure TakenUp (H : HashFn) (run : IndexRun) (known : List Table) (q : QualifiedTable)
    (pending : Option QualifiedTable) (s : IndexedStore) : Prop where
  cache : CacheTagged H run.source known pending s
  stored : run.source.getTable q ∈ s.tables
  classified : run.noPiiClassify = true →
    ∀ col ∈ (run.source.getTable q).columns, col.name ∈ s.overridden q.text

private theorem TakenUp.write {pending pending' : Option QualifiedTable}
    (h : TakenUp H run known q pending s) (hwrite : s.write w = some s')
    (hcleared : w.cleared = none) (hcache : CacheTagged H run.source known pending' s') :
    TakenUp H run known q pending' s' where
  cache := hcache
  stored := (IndexedStore.mem_tables_write hwrite).2 (.inl ⟨h.stored, by simp [hcleared]⟩)
  classified hno col hcol := (overridden_write hwrite _ _).2 (h.classified hno col hcol)

private theorem TakenUp.write_tags (h : TakenUp H run known q (some q) s)
    (htexts : ∀ t ∈ known, t.qualified.text = q.text → t.qualified = q)
    (hwrite : s.write (.writeColumnPiiTags q.text (newTags run (run.source.getTable q))) =
      some s') :
    CacheTagged H run.source known none s' := by
  refine h.cache.write_tags htexts hwrite (fun q' heq => (Option.some.inj heq).symm) ?_
  intro t ht hkey col hcol
  obtain rfl : t = run.source.getTable q := List.inj_on_of_nodup_map s.tables_key ht h.stored
    (hkey.trans (run.source.getTable_qualified q).symm)
  cases hno : run.noPiiClassify with
  | true =>
    intro hfree
    exact absurd ((overridden_write hwrite _ _).2 (h.classified hno col hcol)) hfree
  | false =>
    apply tagged_of_mem hwrite
    rw [newTags, hno, if_neg Bool.false_ne_true]
    refine List.mem_map.2 ⟨col, hcol, ?_⟩
    rw [Indexer.classified, run.source.getTable_qualified]
    rfl

/-- A first part of the writes for one table leaves at most that table pending. -/
private theorem CacheTagged.tableWrites (h : CacheTagged H run.source known none s)
    (hknown : run.source.getTable q ∈ known)
    (htexts : ∀ t ∈ known, t.qualified.text = q.text → t.qualified = q)
    (hclassified : run.noPiiClassify = true →
      ∀ col ∈ (run.source.getTable q).columns, col.name ∈ s.overridden q.text)
    {made : List StoreWrite} (hmade : made <+: tableWrites H run (run.source.getTable q))
    (hall : (s.writeAll made).2 = true) :
    CacheTagged H run.source known (pendingTags made) (s.writeAll made).1 := by
  rw [Indexer.tableWrites, run.source.getTable_qualified] at hmade
  rcases List.prefix_cons_iff.1 hmade with rfl | ⟨made₁, rfl, hmade₁⟩
  · exact h
  obtain ⟨s₁, hwrite₁, heq₁⟩ := IndexedStore.exists_write_of_completed hall
  rw [heq₁] at hall ⊢
  have h₁ : TakenUp H run known q none s₁ := by
    refine ⟨h.write_cleared hwrite₁ rfl ?_,
      (IndexedStore.mem_tables_write hwrite₁).2 (.inr rfl), ?_⟩
    · intro t ht
      exact StoreWrite.writeTable.inj ht ▸ hknown
    · exact fun hno col hcol => (overridden_write hwrite₁ _ _).2 (hclassified hno col hcol)
  rcases List.prefix_cons_iff.1 hmade₁ with rfl | ⟨made₂, rfl, hmade₂⟩
  · exact h₁.cache
  obtain ⟨s₂, hwrite₂, heq₂⟩ := IndexedStore.exists_write_of_completed hall
  rw [heq₂] at hall ⊢
  have h₂ : TakenUp H run known q (some q) s₂ :=
    h₁.write hwrite₂ rfl (h₁.cache.write_fingerprints hwrite₂ h₁.stored)
  have henriched : ∀ {writes : List StoreWrite},
      writes ⊆ enrichmentWrites run (run.source.getTable q) →
      TakenUp H run known q (some q) (s₂.writeAll writes).1 := by
    intro writes hsubset
    refine IndexedStore.writeAll_induction (P := TakenUp H run known q (some q)) ?_ h₂
    intro s₃ s₄ w hw h₃ hwrite
    refine h₃.write hwrite ?_ (h₃.cache.write_enrichment (hsubset hw) hwrite)
    rcases mem_enrichmentWrites (hsubset hw) with rfl | rfl <;> rfl
  rcases List.prefix_concat_iff.1 hmade₂ with rfl | hmade₃
  · obtain ⟨-, heq₃⟩ := IndexedStore.writeAll_append_of_completed hall
    rw [heq₃] at hall ⊢
    obtain ⟨s₄, hwrite₄, heq₄⟩ := IndexedStore.exists_write_of_completed hall
    rw [heq₄]
    simp only [pendingTags, List.foldl_cons, List.foldl_append, List.foldl_nil, pendingAfter]
    exact (henriched (List.Subset.refl _)).write_tags htexts hwrite₄
  · have hpending : pendingTags (.writeTable (run.source.getTable q) ::
        .writeTableFingerprints q (newFingerprints H run (run.source.getTable q)) :: made₂) =
        some q :=
      foldl_pendingAfter_enrichment hmade₃.subset
    rw [hpending]
    exact (henriched hmade₃.subset).cache

private theorem pendingTags_indexStep : pendingTags (indexStep H run s q) = none := by
  rw [indexStep]
  split
  · simp [pendingTags, Indexer.tableWrites, pendingAfter]
  · rfl

private theorem pendingTags_append {writes writes' : List StoreWrite}
    (h : pendingTags writes = none) : pendingTags (writes ++ writes') = pendingTags writes' := by
  rw [pendingTags, List.foldl_append, ← pendingTags, h, pendingTags]

private theorem pendingTags_indexLoop {listed : List QualifiedTable} :
    pendingTags (Indexer.indexLoop H run s listed) = none := by
  induction listed generalizing s with
  | nil => rfl
  | cons q rest ih => rw [Indexer.indexLoop, pendingTags_append pendingTags_indexStep, ih]

private theorem pendingTags_removals {removed : List QualifiedTable} :
    pendingTags (removed.flatMap fun q => [.deleteTable q, .writeColumnPiiTags q.text []]) =
      none := by
  induction removed with
  | nil => rfl
  | cons q rest ih => rw [List.flatMap_cons, pendingTags_append rfl, ih]

/-- A completed run leaves no table pending. -/
theorem pendingTags_of_completed (h : (index H run s).2 = true) :
    pendingTags (writesMade H run s) = none := by
  rw [writesMade_of_completed h, Indexer.indexPlan, Indexer.removals,
    pendingTags_append pendingTags_removals, pendingTags_indexLoop]

/-- A first part of the loop leaves at most the table pending at which it stops. -/
private theorem CacheTagged.indexLoop {listed : List QualifiedTable}
    (h : CacheTagged H run.source known none s)
    (hknown : ∀ q ∈ listed, run.source.getTable q ∈ known)
    (htexts : ∀ t ∈ known, ∀ t' ∈ known, t.qualified.text = t'.qualified.text →
      t.qualified = t'.qualified)
    (hclassified : run.noPiiClassify = true → ∀ q ∈ listed,
      isChanged H s (run.source.getTable q) = true →
      ∀ col ∈ (run.source.getTable q).columns, col.name ∈ s.overridden q.text)
    {made : List StoreWrite} (hmade : made <+: indexLoop H run s listed)
    (hall : (s.writeAll made).2 = true) :
    CacheTagged H run.source known (pendingTags made) (s.writeAll made).1 := by
  induction listed generalizing s made with
  | nil =>
    obtain rfl := List.prefix_nil.1 hmade
    exact h
  | cons q rest ih =>
    have hstep : ∀ {made : List StoreWrite}, made <+: indexStep H run s q →
        (s.writeAll made).2 = true →
        CacheTagged H run.source known (pendingTags made) (s.writeAll made).1 := by
      intro made hmade hall
      have hq := hknown q List.mem_cons_self
      rw [indexStep] at hmade
      split at hmade
      · next hchanged =>
        refine h.tableWrites hq (fun t ht htext => ?_)
          (fun hno => hclassified hno q List.mem_cons_self hchanged) hmade hall
        rw [← run.source.getTable_qualified q] at htext ⊢
        exact htexts t ht _ hq htext
      · obtain rfl := List.prefix_nil.1 hmade
        exact h
    rcases prefix_append_cases hmade with hfirst | ⟨made', rfl, hrest⟩
    · exact hstep hfirst hall
    · obtain ⟨hfirst, heq⟩ := IndexedStore.writeAll_append_of_completed hall
      have hnext := hstep (List.prefix_refl _) hfirst
      rw [pendingTags_indexStep] at hnext
      rw [heq] at hall ⊢
      rw [pendingTags_append pendingTags_indexStep]
      refine ih hnext (fun q hq => hknown q (List.mem_cons_of_mem _ hq)) ?_ hrest hall
      -- What differs from the cache after the step differed before it.
      intro hno q' hq' hchanged col hcol
      rw [overridden_writeAll]
      refine hclassified hno q' (List.mem_cons_of_mem _ hq') ?_ col hcol
      by_contra hsame
      rw [Bool.not_eq_true] at hsame
      simp [isChanged_indexStep_of_unchanged hsame] at hchanged

/-- A first part of the removals leaves nothing pending. -/
private theorem CacheTagged.removals {removed : List QualifiedTable}
    (h : CacheTagged H run.source known none s)
    (hknown : ∀ q ∈ removed, ∃ t ∈ known, t.qualified = q)
    (htexts : ∀ t ∈ known, ∀ t' ∈ known, t.qualified.text = t'.qualified.text →
      t.qualified = t'.qualified)
    {made : List StoreWrite}
    (hmade : made <+: removed.flatMap fun q => [.deleteTable q, .writeColumnPiiTags q.text []])
    (hall : (s.writeAll made).2 = true) :
    pendingTags made = none ∧ CacheTagged H run.source known none (s.writeAll made).1 := by
  induction removed generalizing s made with
  | nil =>
    obtain rfl := List.prefix_nil.1 hmade
    exact ⟨rfl, h⟩
  | cons q rest ih =>
    rw [List.flatMap_cons, List.cons_append, List.cons_append, List.nil_append] at hmade
    rcases List.prefix_cons_iff.1 hmade with rfl | ⟨made₁, rfl, hmade₁⟩
    · exact ⟨rfl, h⟩
    obtain ⟨s₁, hwrite₁, heq₁⟩ := IndexedStore.exists_write_of_completed hall
    rw [heq₁] at hall ⊢
    have h₁ := h.write_cleared hwrite₁ rfl (by simp)
    rcases List.prefix_cons_iff.1 hmade₁ with rfl | ⟨made₂, rfl, hmade₂⟩
    · exact ⟨rfl, h₁⟩
    obtain ⟨s₂, hwrite₂, heq₂⟩ := IndexedStore.exists_write_of_completed hall
    rw [heq₂] at hall ⊢
    refine ih (h₁.write_tags ?_ hwrite₂ (by simp) ?_)
      (fun q' hq' => hknown q' (List.mem_cons_of_mem _ hq')) hmade₂ hall
    · intro t ht htext
      obtain ⟨t', ht', rfl⟩ := hknown q List.mem_cons_self
      exact htexts t ht t' ht' htext
    · intro t ht hkey
      have hgone := (IndexedStore.mem_tables_write hwrite₁).1 ht
      simp [StoreWrite.cleared, hkey] at hgone

/-- A first part of the plan leaves at most the table pending at which it stops. -/
private theorem CacheTagged.indexPlan
    (h : CacheTagged H run.source (knownTables run.source s) none s)
    (hrun : KeepsTags H s run) {made : List StoreWrite} (hmade : made <+: indexPlan H run s)
    (hall : (s.writeAll made).2 = true) :
    CacheTagged H run.source (knownTables run.source s) (pendingTags made) (s.writeAll made).1 := by
  have hremoved : ∀ q ∈ removedTables run.source s,
      ∃ t ∈ knownTables run.source s, t.qualified = q := by
    intro q hq
    obtain ⟨t, ht, hkey⟩ := List.mem_map.1 (mem_removedTables.1 hq).1
    exact ⟨t, List.mem_append_left _ ht, hkey⟩
  rcases prefix_append_cases hmade with hfirst | ⟨made', rfl, hrest⟩
  · obtain ⟨hpending, hcache⟩ := h.removals hremoved hrun.texts hfirst hall
    rwa [hpending]
  · obtain ⟨hfirst, heq⟩ := IndexedStore.writeAll_append_of_completed hall
    obtain ⟨hpending, hcache⟩ := h.removals hremoved hrun.texts (List.prefix_refl _) hfirst
    change pendingTags (Indexer.removals run.source s) = none at hpending
    rw [heq] at hall ⊢
    rw [pendingTags_append hpending]
    refine hcache.indexLoop ?_ hrun.texts ?_ hrest hall
    · intro q hq
      exact List.mem_append_right _ (List.mem_map_of_mem hq)
    · intro hno q hq hchanged col hcol
      rw [overridden_writeAll]
      refine hrun.classified hno q hq ?_ col hcol
      rwa [isChanged_congr] at hchanged
      rw [run.source.getTable_qualified]
      exact removals_fingerprints hq

end Invariant

/-! ## Histories -/

/-- Every cached fingerprint is that of a stored and tagged column. -/
def CachedColumnsTagged (H : HashFn) (s : IndexedStore) : Prop :=
  ∀ r ∈ s.fingerprints, ∃ t ∈ s.tables, t.qualified = r.table ∧ ∃ col ∈ t.columns,
    col.name = r.column ∧
    r.value.structural = columnStructuralFingerprint H col (fkTargetsForColumn t col.name) ∧
    Tagged s.toStore r.table col

section Histories

variable {H : HashFn} {run : IndexRun} {s : IndexedStore}

/-- The cache after a run, against the tables known before it. -/
private theorem cacheTagged_index (h : CachedColumnsTagged H s) (hrun : KeepsTags H s run) :
    CacheTagged H run.source (knownTables run.source s) none (index H run s).1 := by
  have hstart : CacheTagged H run.source (knownTables run.source s) none s := by
    refine ⟨fun t ht => List.mem_append_left _ ht, fun r hr => ?_⟩
    obtain ⟨t, ht, hkey, col, hcol, hname, hhash, htagged⟩ := h r hr
    exact ⟨t, ht, hkey, col, hcol, hname, hhash, .inr htagged⟩
  have hmade := index_eq_writesMade H run s
  have hcache := hstart.indexPlan hrun (writesMade_initial H run s) (by rw [hmade])
  rw [hmade] at hcache
  refine ⟨hcache.tables, fun r hr => ?_⟩
  obtain ⟨t, ht, hkey, col, hcol, hname, hhash, hpending | htagged⟩ := hcache.rows r hr
  · -- The pending table has no column that an operator has not tagged.
    obtain ⟨hpending, rfl⟩ := hpending
    refine ⟨_, ht, hkey, col, hcol, hname, hhash, .inr fun hfree => absurd ?_ hfree⟩
    have hsame := overridden_writeAll s (writesMade H run s) r.table.text col.name
    rw [hmade] at hsame
    exact hsame.2 (hrun.settled _ hpending col hcol)
  · exact ⟨t, ht, hkey, col, hcol, hname, hhash, .inr htagged⟩

/-- A run that keeps the tags keeps every cached column tagged. -/
theorem cachedColumnsTagged_index (h : CachedColumnsTagged H s) (hrun : KeepsTags H s run) :
    CachedColumnsTagged H (index H run s).1 := by
  intro r hr
  obtain ⟨t, ht, hkey, col, hcol, hname, hhash, htagged⟩ := (cacheTagged_index h hrun).rows r hr
  exact ⟨t, ht, hkey, col, hcol, hname, hhash, htagged.resolve_left (by simp)⟩

/-- A completed run that keeps the tags leaves every column of the source tagged. -/
theorem tagsComplete_index (h : CachedColumnsTagged H s) (hrun : KeepsTags H s run)
    (hcompleted : (index H run s).2 = true) :
    TagsComplete run.source (index H run s).1.toStore := by
  intro q hq col hcol
  have hcache := cacheTagged_index h hrun
  have hsame := isChanged_eq_false.1 (isChanged_of_completed hcompleted hq)
  have hnew : (col.name, columnStructuralFingerprint H col
      (fkTargetsForColumn (run.source.getTable q) col.name)) ∈
      newStructural H (run.source.getTable q) :=
    List.mem_map_of_mem (f := fun col => (col.name, columnStructuralFingerprint H col
      (fkTargetsForColumn (run.source.getTable q) col.name))) hcol
  have hcached := (hsame _).2 hnew
  rw [run.source.getTable_qualified] at hcached
  simp only [cachedStructural, getTableFingerprints, List.map_map, List.mem_map, List.mem_filter,
    Function.comp_apply, decide_eq_true_eq, Prod.mk.injEq] at hcached
  obtain ⟨r, ⟨hr, rfl⟩, hcolumn, hhash⟩ := hcached
  obtain ⟨t, ht, hkey, col', hcol', hname, hhash', htagged⟩ := hcache.rows r hr
  -- The row's column is the source's, since their fingerprints are equal.
  have htext : ∀ {t : Table} {col : Column}, t ∈ knownTables run.source s → col ∈ t.columns →
      hashedText (structuralPayload col (fkTargetsForColumn t col.name)) ∈
        (knownTables run.source s).flatMap Table.structuralTexts := by
    intro t col ht hcol
    exact List.mem_flatMap.2 ⟨t, ht, List.mem_map.2 ⟨col, hcol, rfl⟩⟩
  obtain rfl : col' = col := by
    refine column_eq_of_fingerprint hrun.collision_free (htext (hcache.tables t ht) hcol')
      (htext (List.mem_append_right _ (List.mem_map_of_mem hq)) hcol) ?_
    exact hhash'.symm.trans hhash
  exact htagged.resolve_left (by simp)

/-- One run of a history, completed or aborted. -/
def historyStep (H : HashFn) (s : IndexedStore) (run : IndexRun) : Option IndexedStore :=
  some (index H run s).1

/-- In a history of runs that keep the tags, a completed run leaves them complete. -/
theorem tagsComplete_of_reaches {start : IndexedStore} (hstart : start.fingerprints = [])
    (hhistory : Reaches (historyStep H) (KeepsTags H) start s) (hrun : KeepsTags H s run)
    (hcompleted : (index H run s).2 = true) :
    TagsComplete run.source (index H run s).1.toStore := by
  refine tagsComplete_index ?_ hrun hcompleted
  refine hhistory.invariant (historyStep H) (I := CachedColumnsTagged H) ?_ ?_
  · intro r hr
    simp [hstart] at hr
  · intro s s' run hcached hrun hstep
    obtain rfl := Option.some.inj hstep
    exact cachedColumnsTagged_index hcached hrun

end Histories

/-! ## A table without its tags -/

/-- A run over the source `public.contacts` with the column `email`. -/
def contactsRun (noPiiClassify : Bool) (cut : Option Nat) : IndexRun where
  source := {
    listTables := [⟨"public", "contacts"⟩]
    getTable := fun q => ⟨q, [{ name := "email", dataType := "text" }], []⟩
    getTable_qualified := fun _ => rfl
    columns_key := fun _ => by simp }
  profile _ _ := none
  noPiiClassify := noPiiClassify
  cut := cut

private theorem keepsTags_contactsRun {s : IndexedStore}
    (h : s.tables = [] ∨
      s.tables = [(contactsRun false none).source.getTable ⟨"public", "contacts"⟩])
    (hsettled : pendingTags (writesMade Sha256.digest (contactsRun false none) s) = none) :
    KeepsTags Sha256.digest s (contactsRun false none) where
  texts := by
    rcases h with h | h <;> simp [knownTables, h, contactsRun]
  collision_free := by
    rcases h with h | h <;>
      simp [CollisionFreeOn, knownTables, h, contactsRun, Table.structuralTexts]
  classified := by simp [contactsRun]
  settled := by simp [hsettled]

/-- Two completed runs over `public.contacts`. -/
theorem tagsComplete_contactsRun :
    let s := (index Sha256.digest (contactsRun false none) emptyStore).1
    TagsComplete (contactsRun false none).source
      (index Sha256.digest (contactsRun false none) s).1.toStore :=
  tagsComplete_of_reaches rfl
    (.tail .refl (keepsTags_contactsRun (.inl rfl) (by decide)) rfl)
    (keepsTags_contactsRun (.inr (by decide +kernel)) (by decide +kernel)) (by decide +kernel)

/-- A run that stops after the fingerprints, or one without classification, leaves the
column untagged through the next completed run. -/
theorem not_tagsComplete_contactsRun :
    let aborted := (index Sha256.digest (contactsRun false (some 2)) emptyStore).1
    let optedOut := (index Sha256.digest (contactsRun true none) emptyStore).1
    let afterAbort := index Sha256.digest (contactsRun false none) aborted
    let afterOptOut := index Sha256.digest (contactsRun false none) optedOut
    (afterAbort.2 = true ∧ ¬ TagsComplete (contactsRun false none).source afterAbort.1.toStore) ∧
      afterOptOut.2 = true ∧
      ¬ TagsComplete (contactsRun false none).source afterOptOut.1.toStore := by
  decide +kernel

end SchemaBrain.Indexer
