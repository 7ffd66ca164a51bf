import SchemaBrain.Indexer.PiiTags

/-!
# What the store holds after a run

`list_tables` and `get_table` against the source. A table is written again when the hashes of its
columns differ from the cached ones; the hashes see of a foreign key only the targets of each
column, and nothing of a table without columns.
-/

namespace SchemaBrain.Indexer

open Base Core

/-! ## Reading the store -/

/-- `list_tables`. -/
def listTables (store : Store) : List QualifiedTable :=
  (store.tables.map (·.qualified)).insertionSort fun q q' =>
    q.schema < q'.schema ∨ q.schema = q'.schema ∧ q.table ≤ q'.table

/-- The columns by position, the foreign keys by name. -/
def orderedTable (t : Table) : Table where
  qualified := t.qualified
  columns := t.columns.insertionSort (·.ordinalPosition ≤ ·.ordinalPosition)
  foreignKeys := t.foreignKeys.insertionSort (·.name ≤ ·.name)

/-- `get_table`. -/
def getTable (store : Store) (q : QualifiedTable) : Option Table :=
  (store.getTable q).map orderedTable

/-- The same columns and the same foreign keys, each with all its fields. -/
structure SameRows (t t' : Table) : Prop where
  columns : ∀ col, col ∈ t.columns ↔ col ∈ t'.columns
  foreignKeys : ∀ fk, fk ∈ t.foreignKeys ↔ fk ∈ t'.foreignKeys

/-- The store holds the tables of the source. -/
structure Coherent (source : Source) (store : Store) : Prop where
  listed : ∀ q, q ∈ listTables store ↔ q ∈ source.listTables
  tables : ∀ q ∈ source.listTables, ∃ t, getTable store q = some t ∧
    t.qualified = q ∧ SameRows t (source.getTable q)

theorem sameRows_orderedTable (t : Table) : SameRows (orderedTable t) t where
  columns _ := (List.perm_insertionSort _ _).mem_iff
  foreignKeys _ := (List.perm_insertionSort _ _).mem_iff

theorem mem_listTables {store : Store} {q : QualifiedTable} :
    q ∈ listTables store ↔ ∃ t ∈ store.tables, t.qualified = q := by
  rw [listTables, (List.perm_insertionSort _ _).mem_iff, List.mem_map]

/-- A stored table is read with its own rows. -/
theorem getTable_eq_some {store : Store} {t : Table} (h : t ∈ store.tables) :
    ∃ t', getTable store t.qualified = some t' ∧ t'.qualified = t.qualified ∧ SameRows t' t := by
  have hfound : store.getTable t.qualified = some t := by
    cases hfind : store.getTable t.qualified with
    | none => exact absurd (List.find?_eq_none.1 hfind t h) (by simp)
    | some t' =>
      have hkey := of_decide_eq_true (List.find?_some hfind :)
      rw [List.inj_on_of_nodup_map store.tables_key (List.mem_of_find?_eq_some hfind) h hkey]
  refine ⟨orderedTable t, ?_, rfl, sameRows_orderedTable t⟩
  rw [getTable, hfound, Option.map_some]

/-- What is read is a stored table. -/
theorem exists_of_getTable {store : Store} {q : QualifiedTable} {t' : Table}
    (h : getTable store q = some t') : ∃ t ∈ store.tables, t.qualified = q ∧ SameRows t' t := by
  obtain ⟨t, hfound, rfl⟩ := Option.map_eq_some_iff.1 h
  exact ⟨t, List.mem_of_find?_eq_some hfound, of_decide_eq_true (List.find?_some hfound :),
    sameRows_orderedTable t⟩

/-! ## The cache -/

variable {H : HashFn} {run : IndexRun} {s s' : IndexedStore} {w : StoreWrite} {q : QualifiedTable}

/-- The cached hashes of a table are all those of the stored table, or there are none. -/
def CacheOfTables (H : HashFn) (s : IndexedStore) : Prop :=
  ∀ q, cachedStructural s q = [] ∨
    ∃ t ∈ s.tables, t.qualified = q ∧ cachedStructural s q = newStructural H t

theorem cachedStructural_congr
    (h : s'.fingerprints.filter (·.table = q) = s.fingerprints.filter (·.table = q)) :
    cachedStructural s' q = cachedStructural s q := by
  rw [cachedStructural, cachedStructural, getTableFingerprints, getTableFingerprints, h]

/-- Every write but one of fingerprints keeps the cache to the stored tables. -/
theorem CacheOfTables.write (h : CacheOfTables H s) (hwrite : s.write w = some s')
    (hw : ∀ q new, w ≠ .writeTableFingerprints q new) : CacheOfTables H s' := by
  intro q
  have hrefingerprinted : w.refingerprinted = w.cleared := by
    cases w with
    | writeTableFingerprints q new => exact absurd rfl (hw q new)
    | _ => rfl
  by_cases hcleared : w.cleared = some q
  · left
    obtain ⟨-, -, -, hrows, -⟩ := IndexedStore.write_of_cleared hwrite hcleared
    simp [cachedStructural, getTableFingerprints, hrows, List.filter_filter]
  · rw [cachedStructural_congr
      (IndexedStore.write_fingerprints hwrite (hrefingerprinted ▸ hcleared))]
    rcases h q with hnone | ⟨t, ht, hkey, hcached⟩
    · exact .inl hnone
    · have ht' := (IndexedStore.mem_tables_write hwrite).2 (.inl ⟨ht, hkey.symm ▸ hcleared⟩)
      exact .inr ⟨t, ht', hkey, hcached⟩

/-- The fingerprints of a stored table are written. -/
theorem CacheOfTables.write_fingerprints {t : Table} (h : CacheOfTables H s) (ht : t ∈ s.tables)
    (hwrite : s.write (.writeTableFingerprints t.qualified (newFingerprints H run t)) = some s') :
    CacheOfTables H s' := by
  intro q
  have htables := (IndexedStore.write_of_not_cleared hwrite rfl).1
  by_cases hq : t.qualified = q
  · subst hq
    refine .inr ⟨t, htables ▸ ht, rfl, ?_⟩
    simp only [IndexedStore.write, IndexedStore.writeTableFingerprints] at hwrite
    split at hwrite
    · obtain rfl := Option.some.inj hwrite
      simp [cachedStructural, getTableFingerprints, replaceRows, List.filter_append,
        List.filter_filter, List.filter_map, Function.comp_def, newFingerprints, newStructural]
    · simp at hwrite
  · rw [cachedStructural_congr (IndexedStore.write_fingerprints hwrite (by
      simpa [StoreWrite.refingerprinted] using hq)), htables]
    exact h q

/-- A first part of the writes for one table keeps the cache to the stored tables. -/
theorem CacheOfTables.tableWrites {t : Table} (h : CacheOfTables H s) {made : List StoreWrite}
    (hmade : made <+: tableWrites H run t) (hall : (s.writeAll made).2 = true) :
    CacheOfTables H (s.writeAll made).1 := by
  rcases List.prefix_cons_iff.1 hmade with rfl | ⟨made₁, rfl, hmade₁⟩
  · exact h
  obtain ⟨s₁, hwrite₁, heq₁⟩ := IndexedStore.exists_write_of_completed hall
  rw [heq₁] at hall ⊢
  have h₁ := h.write hwrite₁ (by simp)
  rcases List.prefix_cons_iff.1 hmade₁ with rfl | ⟨made₂, rfl, hmade₂⟩
  · exact h₁
  obtain ⟨s₂, hwrite₂, heq₂⟩ := IndexedStore.exists_write_of_completed hall
  rw [heq₂] at hall ⊢
  have h₂ := h₁.write_fingerprints ((IndexedStore.mem_tables_write hwrite₁).2 (.inr rfl)) hwrite₂
  refine IndexedStore.writeAll_induction (fun s₃ s₄ w hw h₃ hwrite => h₃.write hwrite ?_) h₂
  rintro q new rfl
  rcases List.mem_append.1 (hmade₂.subset hw) with hw | hw
  · rcases mem_enrichmentWrites hw with heq | heq <;> simp at heq
  · simp at hw

theorem cacheOfTables_index (h : CacheOfTables H s) : CacheOfTables H (index H run s).1 := by
  refine index_induction (P := CacheOfTables H) (fun _ h hmade hall => h.tableWrites hmade hall)
    (fun hw h hwrite => h.write hwrite ?_) h
  rintro q new rfl
  obtain ⟨q', -, hw⟩ := List.mem_flatMap.1 hw
  simp at hw

/-! ## The tables after a completed run -/

/-- A table whose row no write deletes stays as it was. -/
theorem mem_tables_writeAll {writes : List StoreWrite} (h : ∀ w ∈ writes, w.cleared ≠ some q)
    {t : Table} (ht : t.qualified = q) : t ∈ (s.writeAll writes).1.tables ↔ t ∈ s.tables := by
  refine IndexedStore.writeAll_induction
    (P := fun s' => t ∈ s'.tables ↔ t ∈ s.tables) (fun s₁ s₂ w hw hsame hwrite => ?_) Iff.rfl
  rw [IndexedStore.mem_tables_write hwrite, hsame, ht]
  have hne : w ≠ .writeTable t := by
    rintro rfl
    exact h _ hw (congrArg some ht)
  simp [h w hw, hne]

/-- A table that is deleted and not written is gone. -/
theorem not_mem_tables_writeAll {writes : List StoreWrite} (hall : (s.writeAll writes).2 = true)
    (hdeleted : .deleteTable q ∈ writes) {t : Table} (ht : t.qualified = q)
    (hunwritten : .writeTable t ∉ writes) : t ∉ (s.writeAll writes).1.tables := by
  induction writes generalizing s with
  | nil => simp at hdeleted
  | cons w rest ih =>
    obtain ⟨s₁, hwrite, heq⟩ := IndexedStore.exists_write_of_completed hall
    rw [heq] at hall ⊢
    rw [List.mem_cons, not_or] at hunwritten
    by_cases hlater : .deleteTable q ∈ rest
    · exact ih hall hlater hunwritten.2
    · obtain rfl : .deleteTable q = w := (List.mem_cons.1 hdeleted).resolve_right hlater
      refine IndexedStore.writeAll_induction (P := fun s' => t ∉ s'.tables)
        (fun s₂ s₃ w hw hgone hwrite => ?_) ?_
      · rw [IndexedStore.mem_tables_write hwrite, not_or]
        exact ⟨fun hmem => hgone hmem.1, fun heq => hunwritten.2 (heq ▸ hw)⟩
      · simp [IndexedStore.mem_tables_write hwrite, StoreWrite.cleared, ht]

/-- Of the tables that the source lacks none is left. -/
theorem not_mem_tables_index (hdone : (index H run s).2 = true)
    (hq : q ∉ run.source.listTables) {t : Table} (ht : t.qualified = q) :
    t ∉ (index H run s).1.tables := by
  have hmade := index_eq_writesMade H run s
  rw [writesMade_of_completed hdone] at hmade
  have hall : (s.writeAll (indexPlan H run s)).2 = true := by rw [hmade]
  rw [← show (s.writeAll (indexPlan H run s)).1 = (index H run s).1 by rw [hmade]]
  have hunwritten : .writeTable t ∉ indexLoop H run (s.writeAll (removals run.source s)).1
      run.source.listTables := fun hw =>
    hq (exists_cleared_indexLoop.1 ⟨_, hw, congrArg some ht⟩).1
  have hkept : .writeTable t ∉ indexPlan H run s := by
    rw [indexPlan, List.mem_append, not_or]
    refine ⟨fun hw => ?_, hunwritten⟩
    obtain ⟨q', -, hw⟩ := List.mem_flatMap.1 hw
    simp at hw
  by_cases hstored : ∃ t ∈ s.tables, t.qualified = q
  · have hremoved := mem_removedTables.2 ⟨List.mem_map.2 hstored, hq⟩
    refine not_mem_tables_writeAll hall (List.mem_append_left _ ?_) ht hkept
    exact List.mem_flatMap.2 ⟨q, hremoved, List.mem_cons_self⟩
  · refine IndexedStore.writeAll_induction (P := fun s' => t ∉ s'.tables)
      (fun s₁ s₂ w hw hgone hwrite => ?_) fun hmem => hstored ⟨t, hmem, ht⟩
    rw [IndexedStore.mem_tables_write hwrite, not_or]
    exact ⟨fun hmem => hgone hmem.1, fun heq => hkept (heq ▸ hw)⟩

/-- A listed table that agrees with the cache is left as it was stored. -/
theorem mem_tables_index_of_unchanged (hq : q ∈ run.source.listTables)
    (hunchanged : isChanged H s (run.source.getTable q) = false) {t : Table}
    (ht : t.qualified = q) : t ∈ (index H run s).1.tables ↔ t ∈ s.tables := by
  rw [← congrArg Prod.fst (index_eq_writesMade H run s)]
  refine mem_tables_writeAll (fun w hw hcleared => ?_) ht
  have hplan := (writesMade_initial H run s).subset hw
  rcases exists_cleared_indexPlan.1 ⟨w, hplan, hcleared⟩ with ⟨-, hgone⟩ | ⟨-, hchanged⟩
  · exact hgone hq
  · simp [hunchanged] at hchanged

/-- A listed table that differs from the cache is written as the source has it. -/
theorem mem_tables_index (hdone : (index H run s).2 = true) (hq : q ∈ run.source.listTables)
    (hchanged : isChanged H s (run.source.getTable q) = true) :
    run.source.getTable q ∈ (index H run s).1.tables := by
  have hkey := run.source.getTable_qualified q
  -- Until it is written it differs from the cache, and at the end no listed table does.
  refine (index_induction (P := fun s' => run.source.getTable q ∈ s'.tables ∨
    isChanged H s' (run.source.getTable q) = true) ?_ ?_ (.inr hchanged)).resolve_right
      (by simp [isChanged_of_completed hdone hq])
  · intro s₁ q' made _ hstate hmade hall
    by_cases hq' : q' = q
    · subst hq'
      rcases List.prefix_cons_iff.1 hmade with rfl | ⟨made₁, rfl, hmade₁⟩
      · exact hstate
      · obtain ⟨s₂, hwrite, heq⟩ := IndexedStore.exists_write_of_completed hall
        rw [heq]
        refine .inl ((mem_tables_writeAll (fun w hw hcleared => ?_) hkey).2
          ((IndexedStore.mem_tables_write hwrite).2 (.inr rfl)))
        rcases List.mem_cons.1 (hmade₁.subset hw) with rfl | hw
        · simp [StoreWrite.cleared] at hcleared
        · rcases List.mem_append.1 hw with hw | hw
          · rcases mem_enrichmentWrites hw with rfl | rfl <;> simp [StoreWrite.cleared] at hcleared
          · simp [List.mem_singleton.1 hw, StoreWrite.cleared] at hcleared
    · have hmem : ∀ w ∈ made, w.cleared ≠ some q := fun w hw hcleared => by
        have hown := exists_cleared_tableWrites.1 ⟨w, hmade.subset hw, hcleared⟩
        exact hq' (hown.trans (run.source.getTable_qualified q')).symm
      have hrows : (s₁.writeAll made).1.fingerprints.filter (·.table = q) =
          s₁.fingerprints.filter (·.table = q) := by
        refine IndexedStore.writeAll_induction (P := fun s' =>
          s'.fingerprints.filter (·.table = q) = s₁.fingerprints.filter (·.table = q))
          (fun s₂ s₃ w hw hsame hwrite => ?_) rfl
        rw [IndexedStore.write_fingerprints hwrite ?_, hsame]
        rcases tableWrites_refingerprinted (hmade.subset hw) with hnone | hsome
        · simp [hnone]
        · simpa [hsome, run.source.getTable_qualified] using hq'
      rw [mem_tables_writeAll hmem hkey, isChanged_congr (hkey.symm ▸ hrows)]
      exact hstate
  · intro s₁ s₂ w hw hstate hwrite
    obtain ⟨hrefingerprinted, hremoved⟩ := removals_refingerprinted hw
    have hother : w.cleared ≠ some q := fun hcleared =>
      (mem_removedTables.1 (hremoved q hcleared)).2 hq
    rw [isChanged_congr (hkey.symm ▸ IndexedStore.write_fingerprints hwrite
      (hrefingerprinted ▸ hother))]
    exact hstate.imp_left fun hmem =>
      (IndexedStore.mem_tables_write hwrite).2 (.inl ⟨hmem, hkey.symm ▸ hother⟩)

/-! ## Coherence -/

/-- A listed table whose hashes are the cached ones is stored, with the source's foreign keys, and
without columns where the source's has none. -/
def LeftAloneAsStored (H : HashFn) (source : Source) (s : IndexedStore) : Prop :=
  ∀ q ∈ source.listTables, isChanged H s (source.getTable q) = false →
    ∃ t ∈ s.tables, t.qualified = q ∧
      (∀ fk, fk ∈ t.foreignKeys ↔ fk ∈ (source.getTable q).foreignKeys) ∧
      ((source.getTable q).columns = [] → t.columns = [])

/-- Tables of one name and the same hashes have the same columns. -/
theorem columns_of_newStructural {texts : List Bytes} (hH : CollisionFreeOn H texts)
    {t t' : Table} (ht : t.structuralTexts ⊆ texts) (ht' : t'.structuralTexts ⊆ texts)
    (h : newStructural H t ⊆ newStructural H t') {col : Column} (hcol : col ∈ t.columns) :
    col ∈ t'.columns := by
  have hnew : (col.name, columnStructuralFingerprint H col (fkTargetsForColumn t col.name)) ∈
      newStructural H t' :=
    h (List.mem_map.2 ⟨col, hcol, rfl⟩)
  obtain ⟨col', hcol', heq⟩ := List.mem_map.1 hnew
  have hhash := (Prod.mk.inj heq).2
  rw [← column_eq_of_fingerprint hH (ht' (List.mem_map.2 ⟨col', hcol', rfl⟩))
    (ht (List.mem_map.2 ⟨col, hcol, rfl⟩)) hhash]
  exact hcol'

/-- A listed table that agrees with the cache is stored with the source's columns. -/
theorem columns_of_unchanged (hcache : CacheOfTables H s)
    (hcollision : CollisionFreeOn H ((knownTables run.source s).flatMap Table.structuralTexts))
    (hq : q ∈ run.source.listTables) (hunchanged : isChanged H s (run.source.getTable q) = false)
    {t : Table} (ht : t ∈ s.tables) (hkey : t.qualified = q)
    (hempty : (run.source.getTable q).columns = [] → t.columns = []) (col : Column) :
    col ∈ t.columns ↔ col ∈ (run.source.getTable q).columns := by
  have hsame := isChanged_eq_false.1 hunchanged
  rw [run.source.getTable_qualified] at hsame
  rcases hcache q with hnone | ⟨t', ht', hkey', hcached⟩
  · -- Nothing is cached, so the source's table has no columns.
    have hcolumns : (run.source.getTable q).columns = [] := by
      rw [List.eq_nil_iff_forall_not_mem]
      intro col hcol
      have hmem := (hsame _).2 (List.mem_map.2 ⟨col, hcol, rfl⟩)
      simp [hnone] at hmem
    rw [hempty hcolumns, hcolumns]
  · obtain rfl := List.inj_on_of_nodup_map s.tables_key ht' ht (hkey'.trans hkey.symm)
    have htexts : ∀ {t}, t ∈ knownTables run.source s → t.structuralTexts ⊆
        (knownTables run.source s).flatMap Table.structuralTexts := fun ht _ htext =>
      List.mem_flatMap.2 ⟨_, ht, htext⟩
    have hstored := htexts (List.mem_append_left _ ht)
    have hsource := htexts (List.mem_append_right _ (List.mem_map_of_mem hq))
    rw [hcached] at hsame
    exact ⟨columns_of_newStructural hcollision hstored hsource fun p hp => (hsame p).1 hp,
      columns_of_newStructural hcollision hsource hstored fun p hp => (hsame p).2 hp⟩

/-- After any runs, completed or aborted, a completed run leaves the store coherent with its
source exactly when every table that it leaves alone is stored as the source has it, its columns
apart. -/
theorem coherent_iff {start : IndexedStore} (hstart : start.fingerprints = [])
    (hruns : Reaches (historyStep H) (fun _ _ => True) start s)
    (hcollision : CollisionFreeOn H ((knownTables run.source s).flatMap Table.structuralTexts))
    (hdone : (index H run s).2 = true) :
    Coherent run.source (index H run s).1.toStore ↔ LeftAloneAsStored H run.source s := by
  have hcache : CacheOfTables H s := by
    refine hruns.invariant (historyStep H) (I := CacheOfTables H) (fun q => .inl ?_) ?_
    · simp [cachedStructural, getTableFingerprints, hstart]
    · intro s s' run hcache _ hstep
      obtain rfl := Option.some.inj hstep
      exact cacheOfTables_index hcache
  constructor
  · intro hcoherent q hq hunchanged
    obtain ⟨t', ht', -, hrows⟩ := hcoherent.tables q hq
    obtain ⟨t, ht, hkey, hread⟩ := exists_of_getTable ht'
    refine ⟨t, (mem_tables_index_of_unchanged hq hunchanged hkey).1 ht, hkey,
      fun fk => (hread.foreignKeys fk).symm.trans (hrows.foreignKeys fk), fun hcolumns => ?_⟩
    rw [List.eq_nil_iff_forall_not_mem]
    intro col hcol
    have hmem := (hrows.columns col).1 ((hread.columns col).2 hcol)
    simp [hcolumns] at hmem
  · intro hcondition
    have hstored : ∀ q ∈ run.source.listTables, ∃ t ∈ (index H run s).1.tables, t.qualified = q ∧
        SameRows t (run.source.getTable q) := by
      intro q hq
      cases hchanged : isChanged H s (run.source.getTable q) with
      | true =>
        exact ⟨_, mem_tables_index hdone hq hchanged, run.source.getTable_qualified q,
          fun _ => Iff.rfl, fun _ => Iff.rfl⟩
      | false =>
        obtain ⟨t, ht, hkey, hforeign, hempty⟩ := hcondition q hq hchanged
        exact ⟨t, (mem_tables_index_of_unchanged hq hchanged hkey).2 ht, hkey,
          columns_of_unchanged hcache hcollision hq hchanged ht hkey hempty, hforeign⟩
    constructor
    · intro q
      rw [mem_listTables]
      constructor
      · rintro ⟨t, ht, hkey⟩
        by_contra hq
        exact not_mem_tables_index hdone hq hkey ht
      · intro hq
        obtain ⟨t, ht, hkey, -⟩ := hstored q hq
        exact ⟨t, ht, hkey⟩
    · intro q hq
      obtain ⟨t, ht, hkey, hsame⟩ := hstored q hq
      obtain ⟨t', ht', hkey', hread⟩ := getTable_eq_some ht
      rw [hkey] at ht' hkey'
      exact ⟨t', ht', hkey', fun col => (hread.columns col).trans (hsame.columns col),
        fun fk => (hread.foreignKeys fk).trans (hsame.foreignKeys fk)⟩

/-! ## A renamed foreign key -/

/-- `public.orders` with one foreign key of some name. -/
def ordersRun (foreignKey : String) : IndexRun where
  source := {
    listTables := [⟨"public", "orders"⟩]
    getTable := fun q => {
      qualified := q
      columns := [{ name := "customer_id", dataType := "integer" }]
      foreignKeys := [⟨foreignKey, ["customer_id"], "public", "customers", ["id"]⟩] }
    getTable_qualified := fun _ => rfl
    columns_key := fun _ => by simp }
  profile _ _ := none
  noPiiClassify := true

/-- The store after a first run. -/
def ordersStore (foreignKey : String) : IndexedStore :=
  (index Sha256.digest (ordersRun foreignKey) emptyStore).1

private theorem reaches_ordersStore (foreignKey : String) :
    Reaches (historyStep Sha256.digest) (fun _ _ => True) emptyStore (ordersStore foreignKey) :=
  .tail (a := ordersRun foreignKey) .refl trivial rfl

private theorem ordersStore_tables : (ordersStore "orders_customer_fk").tables =
    [(ordersRun "orders_customer_fk").source.getTable ⟨"public", "orders"⟩] := by
  decide +kernel

private theorem collisionFree_orders (foreignKey : String) :
    CollisionFreeOn Sha256.digest ((knownTables (ordersRun foreignKey).source
      (ordersStore "orders_customer_fk")).flatMap Table.structuralTexts) := by
  rw [knownTables, ordersStore_tables]
  simp [CollisionFreeOn, ordersRun, Table.structuralTexts, fkTargetsForColumn]

/-- Two runs over one source. -/
theorem coherent_orders : Coherent (ordersRun "orders_customer_fk").source
    (index Sha256.digest (ordersRun "orders_customer_fk")
      (ordersStore "orders_customer_fk")).1.toStore := by
  have hdone : (index Sha256.digest (ordersRun "orders_customer_fk")
      (ordersStore "orders_customer_fk")).2 = true := by
    decide +kernel
  refine (coherent_iff rfl (reaches_ordersStore _) (collisionFree_orders _) hdone).2
    fun q hq _ => ?_
  obtain rfl := List.mem_singleton.1 hq
  exact ⟨_, ordersStore_tables ▸ List.mem_singleton_self _, rfl, fun _ => Iff.rfl, fun h => h⟩

/-- A constraint is renamed between two runs, and the store keeps its old name. -/
theorem not_coherent_orders : ¬ ∀ (s : IndexedStore) (run : IndexRun),
    Reaches (historyStep Sha256.digest) (fun _ _ => True) emptyStore s →
    CollisionFreeOn Sha256.digest ((knownTables run.source s).flatMap Table.structuralTexts) →
    (index Sha256.digest run s).2 = true →
    Coherent run.source (index Sha256.digest run s).1.toStore := by
  intro hall
  have hcoherent := hall (ordersStore "orders_customer_fk") (ordersRun "orders_customer_id_fkey")
    (reaches_ordersStore _) (collisionFree_orders _) (by decide +kernel)
  obtain ⟨t', ht', -, hrows⟩ := hcoherent.tables ⟨"public", "orders"⟩ (List.mem_singleton_self _)
  obtain ⟨t, ht, -, hread⟩ := exists_of_getTable ht'
  have htables : (index Sha256.digest (ordersRun "orders_customer_id_fkey")
      (ordersStore "orders_customer_fk")).1.tables =
        [(ordersRun "orders_customer_fk").source.getTable ⟨"public", "orders"⟩] := by
    decide +kernel
  rw [htables, List.mem_singleton] at ht
  subst ht
  have hkey := (hread.foreignKeys _).1 ((hrows.foreignKeys _).2 (List.mem_singleton_self _))
  simp [ordersRun] at hkey

end SchemaBrain.Indexer
