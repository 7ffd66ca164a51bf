import SchemaBrain.Imports.DbtPlan

/-!
# What a dbt import writes

The writes of a plan, on whatever store they meet: the last verified entity of a name whose table
is indexed is stored under the name, and the others are named as failures. A second import of the
same manifest changes nothing.
-/

namespace SchemaBrain.Imports

open Base Core Check

/-! ## One batch -/

section Batches

variable {s : SemanticStore} {sid : String}

/-- The table of an entity is in the index. -/
def indexed (s : SemanticStore) (sid : String) (e : EntityRecord) : Bool :=
  s.tables.any (· = (e.row sid).bound)

/-- Both ends of a join are stored. -/
def linked (s : SemanticStore) (sid : String) (join : JoinRecord) : Bool :=
  s.entities.any (·.key = (join.row sid).source) && s.entities.any (·.key = (join.row sid).target)

theorem indexed_iff {e : EntityRecord} :
    indexed s sid e = true ↔ (e.row sid).bound ∈ s.tables := by
  simp [indexed]

theorem linked_iff {join : JoinRecord} :
    linked s sid join = true ↔ (join.row sid).source ∈ s.entities.map EntityRow.key ∧
      (join.row sid).target ∈ s.entities.map EntityRow.key := by
  simp [linked]

/-- A write from dbt passes the guard: it is an UPSERT, or fails on its table. -/
theorem writeEntity_dbt (s : SemanticStore) (sid : String) {e : EntityRecord}
    (horigin : e.origin = .dbtImport) :
    (indexed s sid e = false ∧ s.writeEntity sid e = (s, .error .integrity)) ∨
      indexed s sid e = true ∧ ∃ s', s.writeEntity sid e = (s', .ok ()) ∧ s'.tables = s.tables ∧
        s'.entities = upsertRow EntityRow.key EntityRow.update s.entities (e.row sid) ∧
        s'.canonicalJoins = s.canonicalJoins ∧ s'.metrics = s.metrics := by
  have hguard : ∀ existing, SemanticStore.dbtOwned existing e.origin = false := by
    simp [SemanticStore.dbtOwned, horigin]
  by_cases h : (e.row sid).bound ∈ s.tables
  · refine .inr ⟨indexed_iff.2 h, ?_⟩
    simp only [SemanticStore.writeEntity, SemanticStore.withConn, hguard,
      SemanticStore.upsertEntity, dif_pos (And.intro (e.checks_row sid) h)]
    exact ⟨_, rfl, rfl, rfl, rfl, rfl⟩
  · refine .inl ⟨Bool.eq_false_iff.2 (mt indexed_iff.1 h), ?_⟩
    have hrefused : ¬((e.row sid).checks = true ∧ (e.row sid).bound ∈ s.tables) := fun hrow =>
      h hrow.2
    simp only [SemanticStore.writeEntity, SemanticStore.withConn, hguard,
      SemanticStore.upsertEntity, dif_neg hrefused]
    rfl

/-- A join is an UPSERT, or fails on one of its ends. -/
theorem writeCanonicalJoin_cases (s : SemanticStore) (sid : String) (join : JoinRecord) :
    (linked s sid join = false ∧ s.writeCanonicalJoin sid join = (s, .error .integrity)) ∨
      linked s sid join = true ∧ ∃ s', s.writeCanonicalJoin sid join = (s', .ok ()) ∧
        s'.tables = s.tables ∧ s'.entities = s.entities ∧
        s'.canonicalJoins = upsertRow JoinRow.key JoinRow.update s.canonicalJoins (join.row sid) ∧
        s'.metrics = s.metrics := by
  by_cases h : (join.row sid).source ∈ s.entities.map EntityRow.key ∧
      (join.row sid).target ∈ s.entities.map EntityRow.key
  · refine .inr ⟨linked_iff.2 h, ?_⟩
    simp only [SemanticStore.writeCanonicalJoin, SemanticStore.withConn,
      SemanticStore.upsertCanonicalJoin, dif_pos (And.intro (join.checks_row sid) h)]
    exact ⟨_, rfl, rfl, rfl, rfl, rfl⟩
  · have hlinked : linked s sid join = false := Bool.eq_false_iff.2 (mt linked_iff.1 h)
    have hrefused : ¬((join.row sid).checks = true ∧
        (join.row sid).source ∈ s.entities.map EntityRow.key ∧
        (join.row sid).target ∈ s.entities.map EntityRow.key) := fun hrow => h hrow.2
    refine .inl ⟨hlinked, ?_⟩
    simp only [SemanticStore.writeCanonicalJoin, SemanticStore.withConn,
      SemanticStore.upsertCanonicalJoin, dif_neg hrefused]

/-- The rows of the indexed entities of a batch. -/
def entityRows (s : SemanticStore) (sid : String) (entities : List EntityRecord) :
    List EntityRow :=
  (entities.filter (indexed s sid)).map (·.row sid)

/-- The rows of the linked joins of a batch. -/
def joinRows (s : SemanticStore) (sid : String) (joins : List JoinRecord) : List JoinRow :=
  (joins.filter (linked s sid)).map (·.row sid)

/-- What a batch of entities leaves. -/
structure EntitiesWritten (s : SemanticStore) (sid : String) (batch : List EntityRecord)
    (result : SemanticStore × List DbtWriteFailure) : Prop where
  tables : result.1.tables = s.tables
  entities : result.1.entities =
    (entityRows s sid batch).foldl (upsertRow EntityRow.key EntityRow.update) s.entities
  joins : result.1.canonicalJoins = s.canonicalJoins
  metrics : result.1.metrics = s.metrics
  failures : result.2 = (batch.filter (!indexed s sid ·)).map fun e =>
    ⟨e.name, unindexedMessage sid e⟩

theorem writeEntities_spec (s : SemanticStore) (sid : String) {entities : List EntityRecord}
    (horigin : ∀ e ∈ entities, e.origin = .dbtImport) :
    EntitiesWritten s sid entities (writeEntities sid s entities) := by
  induction entities generalizing s with
  | nil => exact ⟨rfl, rfl, rfl, rfl, rfl⟩
  | cons e rest ih =>
    obtain ⟨he, hrest⟩ := List.forall_mem_cons.1 horigin
    rcases writeEntity_dbt s sid he with ⟨hindexed, hwrite⟩ | ⟨hindexed, hwrite⟩
    · have hspec := ih (s := s) hrest
      simp only [writeEntities, hwrite]
      refine ⟨hspec.tables, ?_, hspec.joins, hspec.metrics, ?_⟩
      · rw [hspec.entities, entityRows, entityRows, List.filter_cons_of_neg (by simp [hindexed])]
      · rw [hspec.failures, List.filter_cons_of_pos (by simp [hindexed])]
        rfl
    · obtain ⟨s', hwrite, htables, hentities, hjoins, hmetrics⟩ := hwrite
      have hspec := ih (s := s') hrest
      have hsame : indexed s' sid = indexed s sid := by
        funext e
        rw [indexed, indexed, htables]
      simp only [writeEntities, hwrite]
      refine ⟨hspec.tables.trans htables, ?_, hspec.joins.trans hjoins,
        hspec.metrics.trans hmetrics, ?_⟩
      · rw [hspec.entities, entityRows, entityRows, hsame, hentities,
          List.filter_cons_of_pos hindexed]
        rfl
      · rw [hspec.failures, hsame, List.filter_cons_of_neg (by simp [hindexed])]

/-- What a batch of joins leaves. -/
structure JoinsWritten (s : SemanticStore) (sid : String) (batch : List JoinRecord)
    (result : SemanticStore × List DbtWriteFailure) : Prop where
  tables : result.1.tables = s.tables
  entities : result.1.entities = s.entities
  joins : result.1.canonicalJoins =
    (joinRows s sid batch).foldl (upsertRow JoinRow.key JoinRow.update) s.canonicalJoins
  metrics : result.1.metrics = s.metrics
  failures : result.2 = (batch.filter (!linked s sid ·)).map joinFailure

theorem writeJoins_spec (s : SemanticStore) (sid : String) (joins : List JoinRecord) :
    JoinsWritten s sid joins (writeJoins sid s joins) := by
  induction joins generalizing s with
  | nil => exact ⟨rfl, rfl, rfl, rfl, rfl⟩
  | cons join rest ih =>
    rcases writeCanonicalJoin_cases s sid join with
      ⟨hlinked, hwrite⟩ | ⟨hlinked, hwrite⟩
    · have hspec := ih (s := s)
      simp only [writeJoins, hwrite]
      refine ⟨hspec.tables, hspec.entities, ?_, hspec.metrics, ?_⟩
      · rw [hspec.joins, joinRows, joinRows, List.filter_cons_of_neg (by simp [hlinked])]
      · rw [hspec.failures, List.filter_cons_of_pos (by simp [hlinked])]
        rfl
    · obtain ⟨s', hwrite, htables, hentities, hjoins, hmetrics⟩ := hwrite
      have hspec := ih (s := s')
      have hsame : linked s' sid = linked s sid := by
        funext join
        rw [linked, linked, hentities]
      simp only [writeJoins, hwrite]
      refine ⟨hspec.tables.trans htables, hspec.entities.trans hentities, ?_,
        hspec.metrics.trans hmetrics, ?_⟩
      · rw [hspec.joins, joinRows, joinRows, hsame, hjoins, List.filter_cons_of_pos hlinked]
        rfl
      · rw [hspec.failures, hsame, List.filter_cons_of_neg (by simp [hlinked])]

/-- The last entity of a batch under a name whose table is indexed. -/
def lastIndexed (s : SemanticStore) (sid : String) (batch : List EntityRecord) (name : String) :
    Option EntityRecord :=
  ((batch.filter (indexed s sid)).filter (·.name = name)).getLast?

/-- The last join of a batch under a name whose ends are stored. -/
def lastLinked (s : SemanticStore) (sid : String) (batch : List JoinRecord) (name : String) :
    Option JoinRecord :=
  ((batch.filter (linked s sid)).filter (·.name = name)).getLast?

theorem filter_entityRows (batch : List EntityRecord) (key : String × String) :
    (entityRows s sid batch).filter (·.key = key) =
      if key.1 = sid then
        ((batch.filter (indexed s sid)).filter (·.name = key.2)).map (·.row sid)
      else [] := by
  rw [entityRows, List.filter_map]
  split
  · next hsource =>
    congr 1
    apply List.filter_congr
    intro e _
    refine decide_eq_decide.2 ?_
    rw [EntityRecord.key_row, Prod.ext_iff]
    exact and_iff_right hsource.symm
  · next hsource =>
    rw [List.map_eq_nil_iff, List.filter_eq_nil_iff]
    intro e _ hkey
    exact hsource (congrArg Prod.fst (of_decide_eq_true hkey)).symm

theorem filter_joinRows (batch : List JoinRecord) (key : String × String) :
    (joinRows s sid batch).filter (·.key = key) =
      if key.1 = sid then
        ((batch.filter (linked s sid)).filter (·.name = key.2)).map (·.row sid)
      else [] := by
  rw [joinRows, List.filter_map]
  split
  · next hsource =>
    congr 1
    apply List.filter_congr
    intro join _
    refine decide_eq_decide.2 ?_
    rw [JoinRecord.key_row, Prod.ext_iff]
    exact and_iff_right hsource.symm
  · next hsource =>
    rw [List.map_eq_nil_iff, List.filter_eq_nil_iff]
    intro join _ hkey
    exact hsource (congrArg Prod.fst (of_decide_eq_true hkey)).symm

/-- The row of a key after a batch of entities. -/
theorem rowOf_entityRows (batch : List EntityRecord) (key : String × String) :
    rowOf EntityRow.key
        ((entityRows s sid batch).foldl (upsertRow EntityRow.key EntityRow.update) s.entities) key =
      if key.1 = sid then
        ((lastIndexed s sid batch key.2).map (·.row sid)).or (rowOf EntityRow.key s.entities key)
      else rowOf EntityRow.key s.entities key := by
  rw [rowOf_foldl_upsertRow_of_carried EntityRow.update_key fun _ _ => EntityRow.update_eq,
    filter_entityRows]
  split
  · rw [List.getLast?_map]
    rfl
  · rfl

end Batches

/-! ## The writes of a plan -/

section Apply

variable {manifest : DbtManifest} {source : QualifiedTable → Introspection}
  {store : SemanticStore} {sid : String} {plan : DbtImportPlan}

/-- The entities of a plan. -/
def DbtImportPlan.batch (plan : DbtImportPlan) : List EntityRecord :=
  plan.planned.map (·.entity)

/-- What a plan leaves of a store, and the failures that it reports. -/
structure Applied (plan : DbtImportPlan) (store : SemanticStore) (sid : String)
    (result : SemanticStore × List DbtWriteFailure) : Prop where
  entities : ∀ name, result.1.getEntity sid name =
    (lastIndexed store sid plan.batch name).elim (store.getEntity sid name) (.ok ∘ some)
  joins : ∀ name, result.1.getCanonicalJoin sid name =
    (lastLinked result.1 sid plan.joinsToWrite name).elim (store.getCanonicalJoin sid name)
      (.ok ∘ some)
  otherSources : ∀ sid', sid' ≠ sid → ∀ name,
    result.1.getEntity sid' name = store.getEntity sid' name ∧
      result.1.getCanonicalJoin sid' name = store.getCanonicalJoin sid' name
  metrics : result.1.metrics = store.metrics
  failures : result.2 =
    ((plan.batch.filter (!indexed store sid ·)).map fun e => ⟨e.name, unindexedMessage sid e⟩) ++
      (plan.joinsToWrite.filter (!linked result.1 sid ·)).map joinFailure

/-- The rows that a plan leaves. -/
structure AppliedRows (plan : DbtImportPlan) (store : SemanticStore) (sid : String)
    (result : SemanticStore × List DbtWriteFailure) : Prop where
  tables : result.1.tables = store.tables
  entities : result.1.entities =
    (entityRows store sid plan.batch).foldl (upsertRow EntityRow.key EntityRow.update)
      store.entities
  joins : result.1.canonicalJoins =
    (joinRows result.1 sid plan.joinsToWrite).foldl (upsertRow JoinRow.key JoinRow.update)
      store.canonicalJoins
  metrics : result.1.metrics = store.metrics
  failures : result.2 =
    ((plan.batch.filter (!indexed store sid ·)).map fun e => ⟨e.name, unindexedMessage sid e⟩) ++
      (plan.joinsToWrite.filter (!linked result.1 sid ·)).map joinFailure

theorem linked_congr (sid : String) {s s' : SemanticStore} (h : s'.entities = s.entities) :
    linked s' sid = linked s sid := by
  funext join
  rw [linked, linked, h]

theorem indexed_congr (sid : String) {s s' : SemanticStore} (h : s'.tables = s.tables) :
    indexed s' sid = indexed s sid := by
  funext e
  rw [indexed, indexed, h]

/-- The row of a key after the joins of a plan. -/
theorem AppliedRows.rowOf_join {result : SemanticStore × List DbtWriteFailure}
    (h : AppliedRows plan store sid result) (key : String × String) :
    rowOf JoinRow.key result.1.canonicalJoins key =
      if key.1 = sid then
        ((lastLinked result.1 sid plan.joinsToWrite key.2).map (·.row sid)).or
          (rowOf JoinRow.key store.canonicalJoins key)
      else rowOf JoinRow.key store.canonicalJoins key := by
  rw [h.joins, rowOf_foldl_upsertRow_of_carried JoinRow.update_key fun _ _ => JoinRow.update_eq,
    filter_joinRows]
  split
  · rw [List.getLast?_map]
    rfl
  · rfl

/-- Whatever store the writes of dbt's entities meet. -/
theorem applyDbtImportPlan_rows (store : SemanticStore) (sid : String)
    (horigin : ∀ e ∈ plan.batch, e.origin = .dbtImport) :
    AppliedRows plan store sid (applyDbtImportPlan plan store sid) := by
  have hentities := writeEntities_spec store sid horigin
  have hjoins := writeJoins_spec (writeEntities sid store plan.batch).1 sid plan.joinsToWrite
  have hlinked := linked_congr sid hjoins.entities
  refine ⟨hjoins.tables.trans hentities.tables, hjoins.entities.trans hentities.entities, ?_,
    hjoins.metrics.trans hentities.metrics, ?_⟩
  · refine hjoins.joins.trans ?_
    rw [hentities.joins, joinRows, ← hlinked]
    rfl
  · refine congrArg₂ (· ++ ·) hentities.failures (hjoins.failures.trans ?_)
    rw [← hlinked]
    rfl

theorem AppliedRows.applied {result : SemanticStore × List DbtWriteFailure}
    (h : AppliedRows plan store sid result) : Applied plan store sid result := by
  have hjoinRow := h.rowOf_join
  refine ⟨fun name => ?_, fun name => ?_, fun sid' hsid name => ⟨?_, ?_⟩, h.metrics, h.failures⟩
  · rw [SemanticStore.getEntity, h.entities, rowOf_entityRows, if_pos rfl]
    cases lastIndexed store sid plan.batch name with
    | none => rfl
    | some e =>
      rw [Option.map_some, Option.some_or]
      dsimp only
      rw [rowToEntity_row]
      rfl
  · rw [SemanticStore.getCanonicalJoin, hjoinRow, if_pos rfl]
    cases lastLinked result.1 sid plan.joinsToWrite name with
    | none => rfl
    | some join =>
      rw [Option.map_some, Option.some_or]
      dsimp only
      rw [rowToCanonicalJoin_row]
      rfl
  · rw [SemanticStore.getEntity, h.entities, rowOf_entityRows, if_neg hsid]
    rfl
  · rw [SemanticStore.getCanonicalJoin, hjoinRow, if_neg hsid]
    rfl

/-- The origin of what a plan writes. -/
theorem batch_origin (h : planDbtImport manifest source store sid = .ok plan) :
    ∀ e ∈ plan.batch, e.origin = .dbtImport := by
  intro e he
  obtain ⟨imported, himported, rfl⟩ := List.mem_map.1 he
  obtain ⟨existing, outcomes, -, houtcomes, rfl⟩ := planDbtImport_ok h
  obtain ⟨model, -, hverified⟩ := planned_verified houtcomes himported
  exact hverified.origin

/-- A plan leaves the last indexed entity of every name and the last join of every name whose ends
are stored, and reports the others. Other sources and the metrics keep what they have. -/
theorem applyDbtImportPlan_writes (manifest : DbtManifest)
    (source : QualifiedTable → Introspection) (planned store : SemanticStore) (sid : String)
    (plan : DbtImportPlan) (h : planDbtImport manifest source planned sid = .ok plan) :
    Applied plan store sid (applyDbtImportPlan plan store sid) :=
  (applyDbtImportPlan_rows store sid (batch_origin h)).applied

theorem applyDbtImportPlan_writes_shop : ∃ plan,
    planDbtImport shopManifest shopSource shopStore "pg" = .ok plan ∧ plan.toAdd.length = 1 ∧
      Applied plan shopStore "pg" (applyDbtImportPlan plan shopStore "pg") := by
  obtain ⟨plan, hplan, hadded, -⟩ := exists_shopPlan
  exact ⟨plan, hplan, hadded,
    applyDbtImportPlan_writes shopManifest shopSource shopStore shopStore "pg" plan hplan⟩

end Apply

/-! ## A second import -/

section Again

variable {manifest : DbtManifest} {source : QualifiedTable → Introspection}
  {store : SemanticStore} {sid : String} {plan : DbtImportPlan}
  {existing existing' : List EntityRecord} {outcomes : List (DbtImportSkip ⊕ DbtImportedEntity)}

private theorem filter_taken {α : Type} (origin : α → Option Origin) (p : α → Bool)
    (items : List α) :
    (((items.filterMap fun e => ((origin e).filter (· ≠ .dbtImport)).map fun o => (e, o)).filter
      (p ·.1)).map (·.1)) =
      items.filter fun e => p e && ((origin e).filter (· ≠ .dbtImport)).isSome := by
  induction items with
  | nil => rfl
  | cons e items ih =>
    rw [List.filterMap_cons, List.filter_cons]
    cases (origin e).filter (· ≠ .dbtImport) with
    | none => simpa using ih
    | some o => cases hp : p e <;> simpa [hp] using ih

/-- Under one name, a plan writes the verified entities in the order of the models. -/
theorem filter_batch (name : String) :
    (makePlan manifest existing outcomes).batch.filter (·.name = name) =
      ((importedEntities outcomes).map (·.entity)).filter (·.name = name) := by
  have hbucket : ∀ origin : Option Origin → Bool,
      (importedEntities outcomes).filter (fun e => e.entity.name = name &&
        origin (existingOrigin existing e.entity.name)) =
      if origin (existingOrigin existing name) then
        (importedEntities outcomes).filter (·.entity.name = name) else [] := by
    intro origin
    split
    · next horigin =>
      apply List.filter_congr
      intro e _
      by_cases hname : e.entity.name = name
      · simp [hname, horigin]
      · simp [hname]
    · next horigin =>
      rw [List.filter_eq_nil_iff]
      intro e _ he
      obtain ⟨hname, hkept⟩ := Bool.and_eq_true_iff.1 he
      rw [of_decide_eq_true hname] at hkept
      exact horigin hkept
  have hadd : (makePlan manifest existing outcomes).toAdd.filter (·.entity.name = name) =
      if existingOrigin existing name = none then
        (importedEntities outcomes).filter (·.entity.name = name) else [] := by
    refine (filter_sortedBy name _).trans ?_
    rw [List.filter_filter]
    simpa using hbucket (· = none)
  have hupdate : (makePlan manifest existing outcomes).toUpdate.filter (·.entity.name = name) =
      if existingOrigin existing name = some .dbtImport then
        (importedEntities outcomes).filter (·.entity.name = name) else [] := by
    refine (filter_sortedBy name _).trans ?_
    rw [List.filter_filter]
    simpa using hbucket (· = some .dbtImport)
  have htake : ((makePlan manifest existing outcomes).toTakeOwnership.filter
      (·.1.entity.name = name)).map (·.1) =
      if ((existingOrigin existing name).filter (· ≠ .dbtImport)).isSome then
        (importedEntities outcomes).filter (·.entity.name = name) else [] := by
    refine (congrArg _ (filter_sortedBy name _)).trans ?_
    refine (filter_taken (fun e : DbtImportedEntity => existingOrigin existing e.entity.name)
      (fun e : DbtImportedEntity => e.entity.name = name) _).trans ?_
    exact hbucket fun o => (o.filter (· ≠ .dbtImport)).isSome
  have hplanned : (makePlan manifest existing outcomes).planned.filter (·.entity.name = name) =
      (importedEntities outcomes).filter (·.entity.name = name) := by
    rw [DbtImportPlan.planned, List.filter_append, List.filter_append, hadd, hupdate,
      List.filter_map]
    refine (congrArg _ htake).trans ?_
    cases existingOrigin existing name with
    | none => simp
    | some o => cases o <;> simp
  rw [DbtImportPlan.batch, List.filter_map, List.filter_map]
  exact congrArg _ hplanned

/-- A stored row of the source decodes after the writes of a plan, where it did before them. -/
theorem exists_listed {result : SemanticStore × List DbtWriteFailure}
    (h : AppliedRows plan store sid result) (hexisting : store.listEntities sid = .ok existing) :
    ∃ existing', result.1.listEntities sid = .ok existing' := by
  refine exists_listing fun row hmem hsource => ?_
  have hkey := rowOf_of_mem result.1.entities_key hmem
  rw [h.entities, rowOf_entityRows, if_pos (show row.key.1 = sid from hsource)] at hkey
  cases hlast : lastIndexed store sid plan.batch row.key.2 with
  | some e =>
    rw [hlast, Option.map_some, Option.some_or] at hkey
    exact ⟨e, by rw [← Option.some.inj hkey, rowToEntity_row]⟩
  | none =>
    rw [hlast, Option.map_none, Option.none_or] at hkey
    obtain ⟨e, -, he⟩ := (mem_mapM hexisting).2 row (mem_sortedBy.2
      (List.mem_filter.2 ⟨(rowOf_spec hkey).1, decide_eq_true hsource⟩))
    exact ⟨e, he⟩

/-- A listed entity after a plan: the last that was written, or the one before. -/
theorem find?_listed {result : SemanticStore × List DbtWriteFailure}
    (h : AppliedRows plan store sid result) (hexisting : store.listEntities sid = .ok existing)
    (hexisting' : result.1.listEntities sid = .ok existing') (name : String) :
    existing'.find? (·.name = name) =
      (lastIndexed store sid plan.batch name).or (existing.find? (·.name = name)) := by
  have hget := h.applied.entities name
  rw [SemanticStore.getEntity_of_listed hexisting,
    SemanticStore.getEntity_of_listed hexisting'] at hget
  cases hlast : lastIndexed store sid plan.batch name with
  | none =>
    rw [hlast] at hget
    exact Except.ok.inj hget
  | some e =>
    rw [hlast] at hget
    exact Except.ok.inj hget

/-- Of a name under which no table is indexed nothing is written. -/
theorem not_indexed_of_last {batch : List EntityRecord} {e : EntityRecord} (he : e ∈ batch)
    (h : lastIndexed store sid batch e.name = none) : indexed store sid e = false := by
  rw [lastIndexed, List.getLast?_eq_none_iff, List.filter_eq_nil_iff] at h
  by_contra hindexed
  rw [Bool.not_eq_false] at hindexed
  exact h e (List.mem_filter.2 ⟨he, hindexed⟩) (decide_eq_true rfl)

/-- What is written under a name comes from the batch. -/
theorem lastIndexed_spec {batch : List EntityRecord} {name : String} {e : EntityRecord}
    (h : lastIndexed store sid batch name = some e) : e ∈ batch ∧ e.name = name := by
  obtain ⟨hmem, hname⟩ := List.mem_filter.1 (List.mem_of_getLast? h)
  exact ⟨(List.mem_filter.1 hmem).1, of_decide_eq_true hname⟩

/-- Stores with the same rows are the same. -/
theorem store_ext {s s' : SemanticStore} (htables : s.tables = s'.tables)
    (hentities : s.entities = s'.entities) (hjoins : s.canonicalJoins = s'.canonicalJoins)
    (hmetrics : s.metrics = s'.metrics) : s = s' := by
  cases s
  cases s'
  subst htables hentities hjoins hmetrics
  rfl

/-- What a plan leaves for the next plan of the same manifest. -/
structure Reimported (plan : DbtImportPlan) (store : SemanticStore) (sid : String)
    (again : DbtImportPlan) : Prop where
  added : ∀ e ∈ again.toAdd, indexed store sid e.entity = false
  taken : ∀ p ∈ again.toTakeOwnership, indexed store sid p.1.entity = false
  orphans : again.orphans = plan.orphans
  skipped : again.skipped = plan.skipped
  joinsToWrite : again.joinsToWrite = plan.joinsToWrite
  joinsSkipped : again.joinsSkipped = plan.joinsSkipped
  result : (applyDbtImportPlan again (applyDbtImportPlan plan store sid).1 sid).1 =
    (applyDbtImportPlan plan store sid).1
  failures : (applyDbtImportPlan again (applyDbtImportPlan plan store sid).1 sid).2.Perm
    (applyDbtImportPlan plan store sid).2

/-- The writes of a plan are not changed by those of one with the same rows under every name. -/
theorem applyDbtImportPlan_again (store : SemanticStore) (sid : String) {again : DbtImportPlan}
    (horigin : ∀ e ∈ plan.batch, e.origin = .dbtImport)
    (hagain : ∀ e ∈ again.batch, e.origin = .dbtImport)
    (hbatch : ∀ name, again.batch.filter (·.name = name) = plan.batch.filter (·.name = name))
    (hperm : again.batch.Perm plan.batch) (hjoins : again.joinsToWrite = plan.joinsToWrite) :
    (applyDbtImportPlan again (applyDbtImportPlan plan store sid).1 sid).1 =
        (applyDbtImportPlan plan store sid).1 ∧
      (applyDbtImportPlan again (applyDbtImportPlan plan store sid).1 sid).2.Perm
        (applyDbtImportPlan plan store sid).2 := by
  have hfirst := applyDbtImportPlan_rows store sid horigin
  generalize applyDbtImportPlan plan store sid = first at hfirst ⊢
  have hsecond := applyDbtImportPlan_rows first.1 sid hagain
  generalize applyDbtImportPlan again first.1 sid = second at hsecond ⊢
  have hindexed := indexed_congr sid hfirst.tables
  have hentities : second.1.entities = first.1.entities := by
    rw [hsecond.entities, hfirst.entities]
    refine foldl_upsertRow_again EntityRow.update_key (fun _ _ => EntityRow.update_eq)
      store.entities_key fun key => ?_
    have hnames : (again.batch.filter (indexed store sid)).filter (·.name = key.2) =
        (plan.batch.filter (indexed store sid)).filter (·.name = key.2) := by
      rw [List.filter_comm, hbatch, List.filter_comm]
    rw [entityRows, hindexed, ← entityRows, filter_entityRows, filter_entityRows, hnames]
  have hlinked := linked_congr sid hentities
  refine ⟨store_ext hsecond.tables hentities ?_ hsecond.metrics, ?_⟩
  · have hrows : joinRows second.1 sid again.joinsToWrite =
        joinRows first.1 sid plan.joinsToWrite := by
      rw [joinRows, hlinked, hjoins, joinRows]
    rw [hsecond.joins, hfirst.joins, hrows]
    exact foldl_upsertRow_again JoinRow.update_key (fun _ _ => JoinRow.update_eq) store.joins_key
      fun _ => rfl
  · rw [hsecond.failures, hfirst.failures, hindexed, hlinked, hjoins]
    exact ((hperm.filter _).map _).append_right _

end Again

end SchemaBrain.Imports
