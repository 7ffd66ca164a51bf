import Mathlib.Data.List.Basic
import SchemaBrain.Imports.DbtImport

/-!
# What a dbt import plans

Every model of the manifest is planned for one write or skipped, by the identity column that it
declares, the shape of its names and the live source; the origin of the stored entity of its name
decides the kind of the write. Every relationship becomes a join or a skip.
-/

namespace SchemaBrain.Imports

open Base Core Check

/-! ## Models that can be imported -/

/-- A column is the only one of its tier, and no higher tier marks any. -/
structure IdentityOf (model : DbtModelNode) (column : String)
    (method : IdentityResolutionMethod) : Prop where
  alone : ∃ c, model.columns.filter method.marks = [c] ∧ c.name = column
  highest : ∀ higher ∈ identityTiers.takeWhile (· ≠ method),
    model.columns.filter higher.marks = []

/-- A live table has the declared columns of a model, and its identity column is `NOT NULL`. -/
structure LiveAs (source : QualifiedTable → Introspection) (model : DbtModelNode)
    (identity : String) (live : Table) : Prop where
  found : source model.relation = .found live
  columns : ∀ c ∈ model.columns, (liveColumnByName live c.name).isSome = true
  notNull : ∃ column, liveColumnByName live identity = some column ∧ column.nullable = false

/-- The names of a model are identifiers. -/
structure Named (model : DbtModelNode) (identity : String) : Prop where
  name : isIdent model.name = true
  schemaName : isIdent model.schemaName = true
  identifier : isIdent model.identifier = true
  identity : isIdent identity = true

/-- What stands behind an entity that is planned for a write. -/
structure Verified (source : QualifiedTable → Introspection) (model : DbtModelNode)
    (e : DbtImportedEntity) : Prop where
  uniqueId : e.dbtUniqueId = model.uniqueId
  name : e.entity.name = model.name
  binding : e.entity.binding = model.relation
  origin : e.entity.origin = .dbtImport
  identity : IdentityOf model e.entity.identity e.identityResolutionMethod
  live : ∃ live, LiveAs source model e.entity.identity live

/-- A model with an identity column, names that are identifiers, and its live table. -/
def Importable (source : QualifiedTable → Introspection) (model : DbtModelNode) : Prop :=
  ∃ identity method live, IdentityOf model identity method ∧ Named model identity ∧
    LiveAs source model identity live

section Models

variable {model : DbtModelNode} {manifest : DbtManifest} {source : QualifiedTable → Introspection}

private theorem resolveTiers_cons {method : IdentityResolutionMethod}
    {lower : List IdentityResolutionMethod} {resolution : DbtIdentityResolution} :
    resolveTiers model (method :: lower) = .ok resolution ↔
      (∃ c, model.columns.filter method.marks = [c] ∧ ⟨c.name, method⟩ = resolution) ∨
      model.columns.filter method.marks = [] ∧ resolveTiers model lower = .ok resolution := by
  rw [resolveTiers]
  split
  · next h => simp [h]
  · next column h => simp [h]
  · next candidates hnil hone =>
    constructor
    · rintro ⟨⟩
    · rintro (⟨c, hc, -⟩ | ⟨hnone, -⟩)
      · exact absurd hc (hone c)
      · exact absurd hnone hnil

/-- The identity column is alone in the highest tier that marks any column. -/
theorem resolveDbtIdentity_ok {column : String} {method : IdentityResolutionMethod} :
    resolveDbtIdentity model = .ok ⟨column, method⟩ ↔ IdentityOf model column method := by
  have hspec : IdentityOf model column method ↔
      (∃ c, model.columns.filter method.marks = [c] ∧ c.name = column) ∧
        ∀ higher ∈ identityTiers.takeWhile (· ≠ method),
          model.columns.filter higher.marks = [] :=
    ⟨fun h => ⟨h.alone, h.highest⟩, fun h => ⟨h.1, h.2⟩⟩
  rw [hspec, resolveDbtIdentity, identityTiers]
  simp only [resolveTiers_cons, DbtIdentityResolution.mk.injEq]
  cases method <;> simp [resolveTiers] <;> tauto

private theorem relation_of_text {q : QualifiedTable}
    (hq : (isIdent q.schema && isIdent q.table) = true) (h : q.text = model.relation.text) :
    q = model.relation := by
  rw [Bool.and_eq_true] at hq
  have hdot : ∀ {s : String}, isIdent s = true → '.' ∉ s.toList :=
    fun hs hmem => absurd (isIdentChar_of_mem hs hmem) (by decide)
  have hchars := congrArg String.toList h
  simp only [QualifiedTable.text, String.toList_append, List.append_assoc] at hchars
  have hparts := (List.append_cons_inj_of_notMem (hdot hq.1) (hdot hq.2)).1 hchars
  obtain ⟨schema, table⟩ := q
  rw [DbtModelNode.relation, QualifiedTable.mk.injEq]
  exact ⟨String.toList_injective hparts.1, String.toList_injective hparts.2.2⟩

/-- What the constructor of `Entity` makes for a model. -/
private theorem make_ok {name description text identity : String} {e : EntityRecord}
    (h : EntityRecord.make name description text identity "dbt_import" "manually_authored"
      "applied" "other" none "" = .ok e) :
    e.name = name ∧ e.binding.text = text ∧ e.identity = identity ∧ e.origin = .dbtImport := by
  unfold EntityRecord.make at h
  split at h
  · cases h
  · next binding hbinding =>
    unfold requireIdent at h
    split at h
    · split at h
      · obtain rfl := Except.ok.inj h
        exact ⟨rfl, (parseQualifiedColumn_spec hbinding).2, rfl, rfl⟩
      · cases h
    · cases h

/-- The constructor of `Entity` accepts identifiers. -/
private theorem exists_make {identity : String} (h : Named model identity) :
    ∃ e, EntityRecord.make model.name model.description model.relation.text identity "dbt_import"
      "manually_authored" "applied" "other" none "" = .ok e := by
  have htext : parseQualifiedColumn model.relation.text =
      some (model.schemaName, model.identifier) :=
    parseQualifiedColumn_text h.schemaName h.identifier
  unfold EntityRecord.make
  split
  · next hnone => rw [htext] at hnone; cases hnone
  · simp only [requireIdent_of_isIdent h.name, requireIdent_of_isIdent h.identity]
    exact ⟨_, rfl⟩

/-- No message is left where a live table is as the model says. -/
theorem driftMessages_eq_nil {identity : String} {live : Table} :
    driftMessages identity model live = [] ↔
      (∀ c ∈ model.columns, (liveColumnByName live c.name).isSome = true) ∧
        ∃ column, liveColumnByName live identity = some column ∧ column.nullable = false := by
  have hmissing : missingColumns model live = [] ↔
      ∀ c ∈ model.columns, (liveColumnByName live c.name).isSome = true := by
    simp [missingColumns, List.filter_eq_nil_iff, Option.isSome_iff_ne_none]
  rw [driftMessages, List.append_eq_nil_iff, ← hmissing]
  refine and_congr ?_ ?_
  · split
    · next h => simp [h]
    · next h => simp [h]
  · cases hlive : liveColumnByName live identity with
    | none => simp
    | some column => cases hnull : column.nullable <;> simp [hnull]

/-- The live check passes on a live table that is as the model says. -/
theorem verify_ok {imported : DbtImportedEntity} :
    verifyAgainstLiveSchema imported model source = .ok none ↔
      ∃ live, LiveAs source model imported.entity.identity live := by
  unfold verifyAgainstLiveSchema
  cases hsource : source model.relation with
  | notFound => exact ⟨nofun, fun ⟨live, h⟩ => nomatch hsource.symm.trans h.found⟩
  | failed => exact ⟨nofun, fun ⟨live, h⟩ => nomatch hsource.symm.trans h.found⟩
  | found live =>
    dsimp only
    split
    · next hnil =>
      obtain ⟨hcolumns, hnull⟩ := driftMessages_eq_nil.1 hnil
      exact ⟨fun _ => ⟨live, hsource, hcolumns, hnull⟩, fun _ => rfl⟩
    · next hmessages =>
      refine ⟨nofun, fun ⟨live', h⟩ => ?_⟩
      obtain rfl : live = live' := Introspection.found.inj (hsource.symm.trans h.found)
      exact absurd (driftMessages_eq_nil.2 ⟨h.columns, h.notNull⟩) hmessages

/-- What a model becomes that resolves and maps. -/
theorem dbtModelToEntity_ok {e : DbtImportedEntity} (h : dbtModelToEntity model manifest = .ok e) :
    e.dbtUniqueId = model.uniqueId ∧ e.entity.name = model.name ∧
      e.entity.binding = model.relation ∧ e.entity.origin = .dbtImport ∧
      IdentityOf model e.entity.identity e.identityResolutionMethod := by
  unfold dbtModelToEntity at h
  split at h
  · cases h
  · next resolution hresolution =>
    split at h
    · cases h
    · next entity hentity =>
      obtain rfl := Except.ok.inj h
      obtain ⟨hname, htext, hidentity, horigin⟩ := make_ok hentity
      refine ⟨rfl, hname, relation_of_text entity.binding_ident htext, horigin, ?_⟩
      dsimp only
      rw [hidentity]
      exact resolveDbtIdentity_ok.1 hresolution

/-- A model that resolves, under names that are identifiers, maps. -/
theorem exists_dbtModelToEntity (manifest : DbtManifest) {identity : String}
    {method : IdentityResolutionMethod}
    (hidentity : IdentityOf model identity method) (hnamed : Named model identity) :
    ∃ e, dbtModelToEntity model manifest = .ok e ∧ e.entity.identity = identity := by
  obtain ⟨entity, hentity⟩ := exists_make hnamed
  simp only [dbtModelToEntity, resolveDbtIdentity_ok.2 hidentity, hentity]
  exact ⟨_, rfl, (make_ok hentity).2.2.1⟩

/-- A model is imported as a verified entity. -/
theorem importModel_right {e : DbtImportedEntity}
    (h : importModel manifest source model = .ok (.inr e)) : Verified source model e := by
  unfold importModel at h
  split at h
  · cases h
  · next imported himported =>
    obtain ⟨message, hmessage, hright⟩ := map_eq_ok h
    cases message with
    | some message => cases hright
    | none =>
      obtain rfl : imported = e := Sum.inr.inj hright
      obtain ⟨hid, hname, hbinding, horigin, hidentity⟩ := dbtModelToEntity_ok himported
      exact ⟨hid, hname, hbinding, horigin, hidentity, verify_ok.1 hmessage⟩

/-- A skip names its model. -/
theorem importModel_left {skip : DbtImportSkip}
    (h : importModel manifest source model = .ok (.inl skip)) :
    skip.dbtUniqueId = model.uniqueId := by
  unfold importModel at h
  split at h
  · next skip' hskip =>
    obtain rfl : skip' = skip := Sum.inl.inj (Except.ok.inj h)
    unfold dbtModelToEntity at hskip
    split at hskip
    · rw [← Except.error.inj hskip]
    · split at hskip
      · rw [← Except.error.inj hskip]
      · cases hskip
  · obtain ⟨message, -, hleft⟩ := map_eq_ok h
    cases message with
    | none => cases hleft
    | some message => rw [← Sum.inl.inj hleft]

/-- A verified entity stands for a model that can be imported. -/
theorem Verified.importable {e : DbtImportedEntity} (h : Verified source model e) :
    Importable source model := by
  obtain ⟨live, hlive⟩ := h.live
  have hbinding := e.entity.binding_ident
  rw [h.binding, Bool.and_eq_true] at hbinding
  exact ⟨_, _, live, h.identity,
    ⟨h.name ▸ e.entity.name_ident, hbinding.1, hbinding.2, e.entity.identity_ident⟩, hlive⟩

/-- A model that can be imported is. -/
theorem exists_importModel (manifest : DbtManifest) (h : Importable source model) :
    ∃ e, importModel manifest source model = .ok (.inr e) := by
  obtain ⟨identity, method, live, hidentity, hnamed, hlive⟩ := h
  obtain ⟨e, he, rfl⟩ := exists_dbtModelToEntity manifest hidentity hnamed
  have hverified := verify_ok.2 ⟨live, hlive⟩
  exact ⟨e, by simp only [importModel, he, hverified]; rfl⟩

end Models

/-! ## Relationships -/

section Relationships

variable {manifest : DbtManifest} {rel : DbtRelationship}

private theorem makeJoin_ok {name description sourceEntity targetEntity : String}
    {on : List JoinColumnPair} {join : JoinRecord}
    (h : JoinRecord.make name description sourceEntity targetEntity on "dbt_import" none
      "manually_authored" "applied" = .ok join) :
    join.name = name ∧ join.sourceEntity = sourceEntity ∧ join.targetEntity = targetEntity ∧
      join.on = on ∧ join.origin = .dbtImport := by
  unfold JoinRecord.make at h
  obtain ⟨name, hname, h⟩ := bind_eq_ok h
  obtain ⟨source, hsource, h⟩ := bind_eq_ok h
  obtain ⟨target, htarget, h⟩ := bind_eq_ok h
  have hident : ∀ {field value : String} {checked : {s : String // isIdent s = true}},
      requireIdent field value = .ok checked → checked.1 = value := by
    intro field value checked hchecked
    unfold requireIdent at hchecked
    split at hchecked
    · rw [← Except.ok.inj hchecked]
    · cases hchecked
  split at h
  · cases h
  · split at h
    · cases h
    · obtain rfl := Except.ok.inj h
      exact ⟨hident hname, hident hsource, hident htarget, rfl, rfl⟩

/-- What the join of a relationship says. -/
structure JoinOf (manifest : DbtManifest) (rel : DbtRelationship) (join : JoinRecord) : Prop where
  source : ∃ model ∈ manifest.models, model.uniqueId = rel.fromModelUniqueId ∧
    join.sourceEntity = model.name
  target : join.targetEntity = rel.toModelName ∧ rel.toModelName ∈ manifest.models.map (·.name)
  name : join.name = join.sourceEntity ++ "_" ++ rel.fromColumn
  on : join.on.map (fun p => (p.sourceColumn, p.targetColumn)) = [(rel.fromColumn, rel.toColumn)]
  origin : join.origin = .dbtImport

private theorem relationshipJoin_ok {fromEntity : String} {join : JoinRecord}
    (h : relationshipJoin fromEntity rel = .ok join) :
    join.name = fromEntity ++ "_" ++ rel.fromColumn ∧ join.sourceEntity = fromEntity ∧
      join.targetEntity = rel.toModelName ∧
      join.on.map (fun p => (p.sourceColumn, p.targetColumn)) = [(rel.fromColumn, rel.toColumn)] ∧
      join.origin = .dbtImport := by
  obtain ⟨pair, hpair, hmake⟩ := bind_eq_ok h
  obtain ⟨hname, hsource, htarget, hon, horigin⟩ := makeJoin_ok hmake
  refine ⟨hname, hsource, htarget, ?_, horigin⟩
  unfold JoinColumnPair.make requireIdent at hpair
  split at hpair
  · split at hpair
    · rw [hon, ← Except.ok.inj hpair]
      rfl
    · cases hpair
  · cases hpair

/-- A relationship that becomes a join. -/
theorem relationshipOutcome_right {join : JoinRecord}
    (h : relationshipOutcome manifest rel = .inr join) : JoinOf manifest rel join := by
  unfold relationshipOutcome at h
  split at h
  · cases h
  · next model hmodel =>
    have hmem := List.mem_of_find?_eq_some hmodel
    have hid : model.uniqueId = rel.fromModelUniqueId := by simpa using List.find?_some hmodel
    split at h
    · cases h
    · next htarget =>
      split at h
      · cases h
      · split at h
        · cases h
        · next join' hjoin =>
          obtain rfl := Sum.inr.inj h
          obtain ⟨hname, hsource, htargetEntity, hon, horigin⟩ := relationshipJoin_ok hjoin
          refine ⟨⟨model, List.mem_reverse.1 hmem, hid, hsource⟩,
            ⟨htargetEntity, not_not.1 htarget⟩, ?_, hon, horigin⟩
          rw [hsource]
          exact hname

end Relationships

/-! ## What the store has -/

section Existing

variable {store : SemanticStore} {sid : String} {existing : List EntityRecord}

theorem mem_names_iff {name : String} :
    name ∈ existing.map (·.name) ↔ ∃ old, existing.find? (·.name = name) = some old := by
  rw [← Option.isSome_iff_exists, List.find?_isSome, List.mem_map]
  simp

end Existing

/-! ## The plan -/

section Plan

variable {manifest : DbtManifest} {source : QualifiedTable → Introspection}
  {store : SemanticStore} {sid : String} {plan : DbtImportPlan}

/-- What a plan says of the models, the stored entities and the relationships. -/
structure Classifies (manifest : DbtManifest) (source : QualifiedTable → Introspection)
    (store : SemanticStore) (sid : String) (plan : DbtImportPlan) : Prop where
  models : (plan.planned.map (·.dbtUniqueId) ++ plan.skipped.map (·.dbtUniqueId)).Perm
    (manifest.models.map (·.uniqueId))
  verified : ∀ e ∈ plan.planned, ∃ model ∈ manifest.models, Verified source model e
  importable : ∀ model ∈ manifest.models, Importable source model →
    ∃ e ∈ plan.planned, Verified source model e
  added : ∀ e ∈ plan.toAdd, store.getEntity sid e.entity.name = .ok none
  updated : ∀ e ∈ plan.toUpdate, ∃ old, store.getEntity sid e.entity.name = .ok (some old) ∧
    old.origin = .dbtImport
  taken : ∀ p ∈ plan.toTakeOwnership, ∃ old,
    store.getEntity sid p.1.entity.name = .ok (some old) ∧ old.origin = p.2 ∧ p.2 ≠ .dbtImport
  orphans : ∀ name, name ∈ plan.orphans ↔ name ∉ manifest.models.map (·.name) ∧
    ∃ old, store.getEntity sid name = .ok (some old) ∧ old.origin = .dbtImport
  relationships : plan.joinsToWrite.length + plan.joinsSkipped.length =
    manifest.relationships.length
  joins : ∀ join ∈ plan.joinsToWrite, (∃ rel ∈ manifest.relationships, JoinOf manifest rel join) ∧
    ∀ name ∈ [join.sourceEntity, join.targetEntity],
      (∃ old, store.getEntity sid name = .ok (some old)) ∨
        name ∈ plan.planned.map (·.entity.name)

/-- The parts of a plan that returned. -/
theorem planDbtImport_ok (h : planDbtImport manifest source store sid = .ok plan) :
    ∃ existing outcomes, store.listEntities sid = .ok existing ∧
      manifest.models.mapM (importModel manifest source) = .ok outcomes ∧
      plan = makePlan manifest existing outcomes := by
  obtain ⟨existing, hexisting, h⟩ := bind_eq_ok h
  obtain ⟨outcomes, houtcomes, h⟩ := bind_eq_ok h
  refine ⟨existing, outcomes, ?_, houtcomes, (Except.ok.inj h).symm⟩
  cases hlist : store.listEntities sid with
  | ok listed => rw [hlist] at hexisting; exact congrArg _ (Except.ok.inj hexisting)
  | error e => rw [hlist] at hexisting; cases hexisting

private theorem three_perm {α : Type} (origin : α → Option Origin) (items : List α) :
    (items.filter (origin · = none) ++ items.filter (origin · = some .dbtImport) ++
      (items.filterMap fun e => ((origin e).filter (· ≠ .dbtImport)).map fun o => (e, o)).map
        (·.1)).Perm items := by
  induction items with
  | nil => exact .nil
  | cons e items ih =>
    cases ho : origin e with
    | none => simpa [ho] using ih
    | some o =>
      by_cases hdbt : o = .dbtImport
      · have hdrop : (some o).filter (· ≠ .dbtImport) = none := by simp [hdbt]
        rw [List.append_assoc] at ih
        simp only [List.filter_cons, List.filterMap_cons, ho, hdrop]
        simpa [hdbt] using List.perm_middle.trans (ih.cons e)
      · have hkeep : (some o).filter (· ≠ .dbtImport) = some o := by simp [hdbt]
        simp only [List.filter_cons, List.filterMap_cons, ho, hkeep]
        simpa [hdbt] using List.perm_middle.trans (ih.cons e)

/-- A plan writes the verified entities. -/
theorem planned_perm (manifest : DbtManifest) (existing : List EntityRecord)
    (outcomes : List (DbtImportSkip ⊕ DbtImportedEntity)) :
    (makePlan manifest existing outcomes).planned.Perm (importedEntities outcomes) := by
  refine List.Perm.trans ?_ (three_perm (fun e => existingOrigin existing e.entity.name)
    (importedEntities outcomes))
  exact (sortedBy_perm.append sortedBy_perm).append (sortedBy_perm.map _)

private theorem sides_perm {α β γ : Type} (f : α → γ) (g : β → γ) (items : List (α ⊕ β)) :
    ((items.filterMap Sum.getRight?).map g ++ (items.filterMap Sum.getLeft?).map f).Perm
      (items.map (Sum.elim f g)) := by
  induction items with
  | nil => exact .nil
  | cons item items ih =>
    cases item with
    | inl a => exact List.perm_middle.trans (ih.cons (f a))
    | inr b => exact ih.cons (g b)

variable {existing : List EntityRecord} {outcomes : List (DbtImportSkip ⊕ DbtImportedEntity)}

private theorem outcomes_ids
    (h : manifest.models.mapM (importModel manifest source) = .ok outcomes) :
    outcomes.map (Sum.elim (·.dbtUniqueId) (·.dbtUniqueId)) = manifest.models.map (·.uniqueId) := by
  have hall := mapM_eq_ok h
  clear h
  generalize manifest.models = models at hall
  induction hall with
  | nil => rfl
  | @cons model outcome _ _ houtcome _ ih =>
    rw [List.map_cons, List.map_cons, ih]
    cases outcome with
    | inl skip => rw [Sum.elim_inl, importModel_left houtcome]
    | inr e => rw [Sum.elim_inr, (importModel_right houtcome).uniqueId]

private theorem mem_importedEntities {e : DbtImportedEntity} :
    e ∈ importedEntities outcomes ↔ Sum.inr e ∈ outcomes := by
  rw [importedEntities, List.mem_filterMap]
  constructor
  · rintro ⟨outcome, houtcome, he⟩
    rwa [← Sum.getRight?_eq_some_iff.1 he]
  · exact fun h => ⟨_, h, rfl⟩

/-- A planned entity was verified for a model. -/
theorem planned_verified (h : manifest.models.mapM (importModel manifest source) = .ok outcomes)
    {e : DbtImportedEntity} (he : e ∈ (makePlan manifest existing outcomes).planned) :
    ∃ model ∈ manifest.models, Verified source model e := by
  have himported := (planned_perm _ existing outcomes).mem_iff.1 he
  obtain ⟨model, hmodel, hmade⟩ := (mem_mapM h).1 _ (mem_importedEntities.1 himported)
  exact ⟨model, hmodel, importModel_right hmade⟩

private theorem makePlan_lengths : (makePlan manifest existing outcomes).joinsToWrite.length +
    (makePlan manifest existing outcomes).joinsSkipped.length =
      manifest.relationships.length := by
  have hsides := (sides_perm (fun _ => ()) (fun _ => ())
    (manifest.relationships.map (relationshipOutcome manifest))).length_eq
  have hsplit := List.length_eq_length_filter_add (l := (dbtRelationshipsToJoins manifest).1)
    (joinWritable existing (importedEntities outcomes))
  have hcandidates : (dbtRelationshipsToJoins manifest).1.length =
      ((manifest.relationships.map (relationshipOutcome manifest)).filterMap
        Sum.getRight?).length :=
    sortedBy_perm.length_eq
  simp only [List.length_append, List.length_map] at hsides
  simp only [makePlan, List.length_append, List.length_map, sortedBy_perm.length_eq]
  have hskips : (dbtRelationshipsToJoins manifest).2.length =
      ((manifest.relationships.map (relationshipOutcome manifest)).filterMap
        Sum.getLeft?).length := rfl
  omega

/-- The orphans are dbt's entities under names that no model has. -/
theorem mem_orphans (h : store.listEntities sid = .ok existing) (name : String) :
    name ∈ (makePlan manifest existing outcomes).orphans ↔
      name ∉ manifest.models.map (·.name) ∧
        ∃ old, store.getEntity sid name = .ok (some old) ∧ old.origin = .dbtImport := by
  simp only [makePlan, mem_pySorted, List.mem_map, List.mem_filter, Bool.and_eq_true,
    decide_eq_true_eq, SemanticStore.getEntity_of_listed h, Except.ok.injEq]
  constructor
  · rintro ⟨old, ⟨hold, hdbt, hmodel⟩, rfl⟩
    exact ⟨hmodel, old, rowOf_of_mem (SemanticStore.nodup_listed h) hold, hdbt⟩
  · rintro ⟨hmodel, old, hold, hdbt⟩
    have hname : old.name = name := by simpa using List.find?_some hold
    exact ⟨old, ⟨List.mem_of_find?_eq_some hold, hdbt, hname.symm ▸ hmodel⟩, hname⟩

theorem nodup_orphans (h : store.listEntities sid = .ok existing) :
    (makePlan manifest existing outcomes).orphans.Nodup :=
  (pySorted_perm _).nodup_iff.2 ((SemanticStore.nodup_listed h).sublist (List.filter_sublist.map _))

/-- Customers by their tests, orders by their key, and events without an identity column. -/
def shopManifest : DbtManifest where
  models := [
    { uniqueId := "model.shop.customers", name := "customer", schemaName := "public",
      identifier := "customers",
      columns := [{ name := "id", isUnique := true, isNotNull := true }] },
    { uniqueId := "model.shop.events", name := "event", schemaName := "public",
      identifier := "events", columns := [{ name := "at" }] },
    { uniqueId := "model.shop.orders", name := "order", schemaName := "public",
      identifier := "orders",
      columns := [{ name := "id", constraints := ["primary_key"] }, { name := "customer_id" }] }]
  relationships := [⟨"model.shop.orders", "customer_id", "customer", "id"⟩]

/-- The live tables of the models. -/
def shopSource (q : QualifiedTable) : Introspection :=
  if q.table ∈ ["customers", "orders"] then
    .found ⟨q, [⟨"id", "int", false, 1, none, true⟩, ⟨"customer_id", "int", true, 2, none, false⟩],
      []⟩
  else .notFound

/-- Only the orders are indexed, under an entity of an operator. -/
def shopStore : SemanticStore :=
  ((SemanticStore.emptyOn [("pg", ⟨"public", "orders"⟩)]).writeEntity "pg"
    (onOrders "order" (Eq.refl true))).1

theorem exists_shopPlan : ∃ plan, planDbtImport shopManifest shopSource shopStore "pg" = .ok plan ∧
    plan.toAdd.length = 1 ∧ plan.toTakeOwnership.length = 1 ∧ plan.skipped.length = 1 ∧
    plan.joinsToWrite.length = 1 := by
  have hrun : (planDbtImport shopManifest shopSource shopStore "pg").toOption.any (fun plan =>
      plan.toAdd.length = 1 ∧ plan.toTakeOwnership.length = 1 ∧ plan.skipped.length = 1 ∧
        plan.joinsToWrite.length = 1) = true := by decide
  cases h : planDbtImport shopManifest shopSource shopStore "pg" with
  | error e => simp [h, Except.toOption] at hrun
  | ok plan => exact ⟨plan, rfl, by simpa [h, Except.toOption] using hrun⟩

end Plan

end SchemaBrain.Imports
