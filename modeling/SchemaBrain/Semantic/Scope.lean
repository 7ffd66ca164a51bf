import SchemaBrain.Semantic.SqlText
import SchemaBrain.Semantic.TimeBucket

/-!
# Scopes of emitted statements

The aliases of a resolved plan's FROM and JOIN clauses and the tables they stand for. A
statement is well scoped when every column it names is one that the table of its alias
lists; the resolver checks this for some kinds of columns only.
-/

namespace SchemaBrain.Semantic

open Base Core

section Aliases

variable {r : Resolver} {req : MetricRequest} {plan : MetricPlan} {q : Query}

/-- The group-by columns lie on the tables of their aliases. -/
theorem table_of_groupColumn (h : r.PlanOf req plan) :
    ∀ col ∈ plan.groupByColumns, col.qualifiedTable = r.tableOf col.aliasName := by
  intro col hcol
  rw [h.groupBy_eq] at hcol
  obtain ⟨ref, -, rfl⟩ := (Resolver.mem_groupColumns hcol).resolve_left (by simp)
  rfl

/-- A join of a plan goes to the table of its alias. -/
theorem table_of_join (h : r.PlanOf req plan) :
    ∀ join ∈ plan.joins, join.targetTable = r.tableOf join.targetAlias := by
  intro join hjoin
  obtain ⟨link, -, rfl⟩ := (h.joins_of.mem_iff join).1 hjoin
  rfl

/-- An alias in scope stands for the table of its entity. -/
theorem table_of_scope (h : r.PlanOf req plan) (hq : Emitted plan q) {aliasName : String}
    {table : QualifiedTable} (hscope : (aliasName, table) ∈ q.scope) :
    table = r.tableOf aliasName := by
  rw [Query.scope, List.mem_cons, Prod.mk.injEq, hq.anchorAlias_eq, hq.anchorTable_eq,
    hq.joins_eq] at hscope
  rcases hscope with ⟨rfl, rfl⟩ | hjoined
  · rw [h.anchorAlias_eq, h.anchorTable_eq, aliasFor, h.anchored.tableOf]
  · obtain ⟨clause, hclause, heq⟩ := List.mem_map.1 hjoined
    obtain ⟨join, hjoin, rfl⟩ := List.mem_map.1 hclause
    obtain ⟨rfl, rfl⟩ := Prod.mk.inj heq
    exact table_of_join h join hjoin

/-- The entities that a plan reaches are in scope. -/
theorem mem_scope_of_reached (h : r.PlanOf req plan) (hq : Emitted plan q) {entity : String}
    (hreached : r.Reached (planEntities req plan) entity) :
    (entity, r.tableOf entity) ∈ q.scope := by
  rw [Query.scope, List.mem_cons, hq.anchorAlias_eq, hq.anchorTable_eq, hq.joins_eq]
  rcases hreached with rfl | ⟨link, hlink, rfl⟩
  · rw [h.anchored.tableOf, h.anchorAlias_eq, h.anchorTable_eq, aliasFor]
    exact .inl rfl
  · refine .inr (List.mem_map.2 ⟨(r.linkJoin link).clause, List.mem_map_of_mem ?_, rfl⟩)
    exact (h.joins_of.mem_iff _).2 ⟨link, hlink, rfl⟩

/-- An alias in scope is a stored entity. -/
theorem exists_entity_of_scope (h : r.PlanOf req plan) (hq : Emitted plan q) {aliasName : String}
    {table : QualifiedTable} (hscope : (aliasName, table) ∈ q.scope) :
    ∃ e, r.store.getEntity aliasName = some e := by
  rw [Query.scope, List.mem_cons, Prod.mk.injEq, hq.anchorAlias_eq, hq.joins_eq] at hscope
  rcases hscope with ⟨rfl, -⟩ | hjoined
  · obtain ⟨e, he, -⟩ := lookupAnchorTable_eq_ok.1 h.anchored
    rw [h.anchorAlias_eq]
    exact ⟨e, he⟩
  · obtain ⟨clause, hclause, heq⟩ := List.mem_map.1 hjoined
    obtain ⟨join, hjoin, rfl⟩ := List.mem_map.1 hclause
    obtain ⟨rfl, -⟩ := Prod.mk.inj heq
    obtain ⟨link, hlink, rfl⟩ := (h.joins_of.mem_iff join).1 hjoin
    obtain ⟨f, chain, hchain, hmem⟩ := h.joins_of.on_chain link hlink
    exact hchain.exists_entity hmem

/-- The aliases of a plan are distinct. -/
theorem Resolver.Scoped.nodup {anchor : String} {joins : List ResolvedJoin}
    (h : Resolver.Scoped anchor joins) : (anchor :: joins.map (·.targetAlias)).Nodup := by
  induction h with
  | nil => simp
  | snoc _ _ hanchor hnew ih =>
    rw [List.nodup_cons] at ih ⊢
    rw [List.map_append, List.map_singleton]
    refine ⟨?_, List.nodup_append_comm.1 (List.nodup_cons.2 ⟨hnew, ih.2⟩)⟩
    rw [List.mem_append, List.mem_singleton, not_or]
    exact ⟨ih.1, Ne.symm hanchor⟩

/-- A join's source alias is introduced before it. -/
theorem Resolver.Scoped.source_earlier {anchor : String} {joins : List ResolvedJoin}
    (h : Resolver.Scoped anchor joins) {earlier later : List ResolvedJoin} {join : ResolvedJoin}
    (hsplit : joins = earlier ++ join :: later) :
    join.sourceAlias = anchor ∨ join.sourceAlias ∈ earlier.map (·.targetAlias) := by
  induction h generalizing later with
  | nil => simp at hsplit
  | snoc _ hsource _ _ ih =>
    rcases List.eq_nil_or_concat' later with rfl | ⟨later, last, rfl⟩
    · obtain ⟨rfl, hlast⟩ := List.append_inj' hsplit rfl
      obtain rfl := List.singleton_inj.1 hlast
      exact hsource
    · rw [← List.cons_append, ← List.append_assoc] at hsplit
      exact ih (List.append_inj' hsplit rfl).1

end Aliases

/-! ## Well-scoped statements -/

/-- The alias of a reference stands for the table of the entity, and the table lists the
column. -/
def Query.Declares (q : Query) (store : Store) (entity : String) (ref : ColumnRef) : Prop :=
  ∃ e t, store.getEntity entity = some e ∧ (ref.aliasName, e.binding) ∈ q.scope ∧
    store.getTable e.binding = some t ∧ ref.column ∈ t.columns.map (·.name)

/-- Every column of a statement is declared on the entity that its origin names: the
dimension's, the reference's, the metric's, or an end of a canonical join. -/
structure WellScoped (store : Store) (req : MetricRequest) (plan : MetricPlan) (q : Query) :
    Prop where
  aliases : (q.scope.map (·.1)).Nodup
  on_earlier : ∀ earlier clause later, q.joins = earlier ++ clause :: later →
    ∀ ref ∈ clause.columns, ref.aliasName = clause.aliasName ∨
      ref.aliasName ∈ q.anchorAlias :: earlier.map (·.aliasName)
  bucket : ∀ grain ref, .timeBucket grain ref ∈ q.select → ∃ dimension,
    (plan.inheritedTimeDimension <|> plan.metric.timeDimension) = some dimension ∧
      ref.column = (splitDot dimension).2 ∧ q.Declares store (refEntity dimension) ref
  groupBy : ∀ ref index, .groupColumn ref index ∈ q.select → ∃ text ∈ req.groupBy,
    ref.column = (splitDot text).2 ∧ q.Declares store (refEntity text) ref
  measure : ∀ m anchorAlias name, .measure m anchorAlias name ∈ q.select →
    ∀ column ∈ m.ref.columns, q.Declares store plan.metric.entity ⟨anchorAlias, column⟩
  filters : List.Forall₂ (fun clause f => clause.column.column = (splitDot f.column).2 ∧
    q.Declares store (refEntity f.column) clause.column) q.filters req.filters
  joins : ∀ clause ∈ q.joins, ∃ j ∈ store.listCanonicalJoins, ∃ source target,
    (clause.on = j.on.map (fun p => (⟨source, p.sourceColumn⟩, ⟨target, p.targetColumn⟩)) ∨
      clause.on = j.on.map fun p => (⟨target, p.targetColumn⟩, ⟨source, p.sourceColumn⟩)) ∧
    ∀ p ∈ j.on, q.Declares store j.sourceEntity ⟨source, p.sourceColumn⟩ ∧
      q.Declares store j.targetEntity ⟨target, p.targetColumn⟩

/-- The entity of the time dimension that a request inherits. -/
def Resolver.inheritedEntity (r : Resolver) (req : MetricRequest) : List String :=
  if needsInheritance r.metric req then
    match inheritedCandidate r.store r.metric req.timeDimension with
    | .ok (some candidate) => [refEntity candidate.1]
    | _ => []
  else []

/-- A requested bucket over the metric's own time dimension: its entity is bound to the
anchor's table, which lists the column. -/
def DimensionListed (store : Store) (req : MetricRequest) : Prop :=
  ∀ metric dimension, store.getMetric req.metricName = some metric → req.timeGrain ≠ none →
    metric.timeDimension = some dimension →
    ∃ anchor e t, store.getEntity metric.entity = some anchor ∧
      store.getEntity (refEntity dimension) = some e ∧ e.binding = anchor.binding ∧
      store.getTable e.binding = some t ∧ (splitDot dimension).2 ∈ t.columns.map (·.name)

/-- The joins that a request walks have listed ON columns. -/
def JoinsListed (store : Store) (req : MetricRequest) : Prop :=
  ∀ r : Resolver, r.store = store → r.via = req.via →
    store.getMetric req.metricName = some r.metric → r.Anchored →
    ∀ entity ∈ requestEntities req ++ r.inheritedEntity req, ∀ chain, r.HasChain entity chain →
    ∀ link ∈ chain, ∀ p ∈ link.2.join.on,
      r.ColumnExists link.2.join.sourceEntity p.sourceColumn ∧
        r.ColumnExists link.2.join.targetEntity p.targetColumn

section Declared

variable {r : Resolver} {req : MetricRequest} {plan : MetricPlan} {q : Query}

theorem mem_scope_of_alias (h : r.PlanOf req plan) (hq : Emitted plan q) {aliasName : String}
    (halias : aliasName = plan.anchorAlias ∨ aliasName ∈ plan.joins.map (·.targetAlias)) :
    (aliasName, r.tableOf aliasName) ∈ q.scope := by
  rw [Query.scope, List.mem_cons, hq.anchorAlias_eq, hq.anchorTable_eq, hq.joins_eq]
  rcases halias with rfl | halias
  · rw [h.anchorAlias_eq, aliasFor, h.anchored.tableOf, h.anchorTable_eq]
    exact .inl rfl
  · obtain ⟨join, hjoin, rfl⟩ := List.mem_map.1 halias
    refine .inr (List.mem_map.2 ⟨join.clause, List.mem_map_of_mem hjoin, ?_⟩)
    rw [← table_of_join h join hjoin]
    rfl

/-- A declared column is one of the entity that its alias names. -/
theorem columnExists_of_declares (h : r.PlanOf req plan) (hq : Emitted plan q) {entity : String}
    {ref : ColumnRef} (hdeclares : q.Declares r.store entity ref) :
    r.ColumnExists ref.aliasName ref.column := by
  obtain ⟨e, t, -, hscope, htable, hcolumn⟩ := hdeclares
  obtain ⟨e', he'⟩ := exists_entity_of_scope h hq hscope
  have hbinding := table_of_scope h hq hscope
  rw [Resolver.tableOf_eq he'] at hbinding
  exact ⟨e', t, he', hbinding ▸ htable, hcolumn⟩

/-- A column of an entity in scope is declared under the entity's alias. -/
theorem declares_of_columnExists {entity column : String}
    (hscope : (entity, r.tableOf entity) ∈ q.scope) (hcolumn : r.ColumnExists entity column) :
    q.Declares r.store entity ⟨entity, column⟩ := by
  obtain ⟨e, t, he, htable, hmem⟩ := hcolumn
  rw [Resolver.tableOf_eq he] at hscope
  exact ⟨e, t, he, hscope, htable, hmem⟩

/-- A link's clause has the pairs of its join, read from the entity it leaves. -/
theorem link_clause {f : String} {chain : List (String × ChainEdge)} (hchain : r.HasChain f chain)
    {link : String × ChainEdge} (hmem : link ∈ chain) :
    link.2.join ∈ r.store.listCanonicalJoins ∧
      ((link.1 = link.2.join.sourceEntity ∧
          link.2.targetEntityInChain = link.2.join.targetEntity ∧
          (r.linkJoin link).clause.on = link.2.join.on.map fun p =>
            (⟨link.2.join.sourceEntity, p.sourceColumn⟩,
              ⟨link.2.join.targetEntity, p.targetColumn⟩)) ∨
        (link.1 = link.2.join.targetEntity ∧
          link.2.targetEntityInChain = link.2.join.sourceEntity ∧
          (r.linkJoin link).clause.on = link.2.join.on.map fun p =>
            (⟨link.2.join.targetEntity, p.targetColumn⟩,
              ⟨link.2.join.sourceEntity, p.sourceColumn⟩))) := by
  obtain ⟨entry, hentry, hedge⟩ := hchain.2.exists_entry hchain.1 hmem
  obtain ⟨hjoin, hends⟩ := entry_spec hentry
  rw [ResolvedJoin.clause, Resolver.linkJoin, hedge, GraphEntry.toChainEdge]
  refine ⟨hjoin, hends.imp ?_ ?_⟩
  · rintro ⟨-, hfrom, hto, hpairs⟩
    exact ⟨hfrom, hto, by simp only [hfrom, hto, hpairs, aliasFor]⟩
  · rintro ⟨-, hfrom, hto, hpairs⟩
    refine ⟨hfrom, hto, ?_⟩
    simp only [hfrom, hto, hpairs, aliasFor, List.map_map]
    rfl

/-- The entities that a plan joins are those that its request walks to. -/
theorem planEntities_eq (h : r.PlanOf req plan) :
    planEntities req plan = requestEntities req ++ r.inheritedEntity req := by
  unfold planEntities Resolver.inheritedEntity
  rcases h.time with ⟨hneeds, -, hdimension, -⟩ | ⟨hneeds, hchoice, -, hdimension, -⟩ |
    ⟨candidate, hneeds, hchoice, -, hdimension, -⟩
  · simp [hneeds, hdimension]
  · simp [hneeds, hchoice, hdimension]
  · simp [hneeds, hchoice, hdimension]

/-- The clauses of the walked joins are declared exactly when their columns are listed. -/
private theorem joins_declared_iff (h : r.PlanOf req plan) (hq : Emitted plan q) :
    (∀ clause ∈ q.joins, ∃ j ∈ r.store.listCanonicalJoins, ∃ source target,
      (clause.on = j.on.map (fun p => (⟨source, p.sourceColumn⟩, ⟨target, p.targetColumn⟩)) ∨
        clause.on = j.on.map fun p => (⟨target, p.targetColumn⟩, ⟨source, p.sourceColumn⟩)) ∧
      ∀ p ∈ j.on, q.Declares r.store j.sourceEntity ⟨source, p.sourceColumn⟩ ∧
        q.Declares r.store j.targetEntity ⟨target, p.targetColumn⟩) ↔
    ∀ link, r.ChainLinks (planEntities req plan) link → ∀ p ∈ link.2.join.on,
      r.ColumnExists link.2.join.sourceEntity p.sourceColumn ∧
        r.ColumnExists link.2.join.targetEntity p.targetColumn := by
  rw [hq.joins_eq]
  constructor
  · intro hdeclared link hlink p hp
    obtain ⟨f, hf, chain, hchain, hmem⟩ := id hlink
    have hjoin : r.linkJoin link ∈ plan.joins := (h.joins_of.mem_iff _).2 ⟨link, hlink, rfl⟩
    obtain ⟨j, -, source, target, hon, hall⟩ := hdeclared _ (List.mem_map_of_mem hjoin)
    -- whichever join the pairs are declared by, both sides exist under their aliases
    have hsides : ∀ sides ∈ (r.linkJoin link).clause.on,
        r.ColumnExists sides.1.aliasName sides.1.column ∧
          r.ColumnExists sides.2.aliasName sides.2.column := by
      intro sides hsides
      rcases hon with hon | hon
      · rw [hon] at hsides
        obtain ⟨pair, hpair, rfl⟩ := List.mem_map.1 hsides
        exact (hall pair hpair).imp (columnExists_of_declares h hq) (columnExists_of_declares h hq)
      · rw [hon] at hsides
        obtain ⟨pair, hpair, rfl⟩ := List.mem_map.1 hsides
        exact (hall pair hpair).symm.imp (columnExists_of_declares h hq)
          (columnExists_of_declares h hq)
    rcases (link_clause hchain hmem).2 with ⟨-, -, hclause⟩ | ⟨-, -, hclause⟩
    · rw [hclause] at hsides
      exact hsides _ (List.mem_map_of_mem hp)
    · rw [hclause] at hsides
      exact (hsides _ (List.mem_map_of_mem hp)).symm
  · intro hlisted clause hclause
    obtain ⟨join, hjoin, rfl⟩ := List.mem_map.1 hclause
    have hsource := h.joins_of.well_scoped.source hjoin
    obtain ⟨link, hlink, rfl⟩ := (h.joins_of.mem_iff join).1 hjoin
    obtain ⟨f, hf, chain, hchain, hmem⟩ := id hlink
    obtain ⟨hj, hends⟩ := link_clause hchain hmem
    have hfrom : (link.1, r.tableOf link.1) ∈ q.scope := by
      refine mem_scope_of_alias h hq ?_
      rw [h.anchorAlias_eq]
      exact hsource
    have hto : (link.2.targetEntityInChain, r.tableOf link.2.targetEntityInChain) ∈ q.scope :=
      mem_scope_of_alias h hq (.inr (List.mem_map_of_mem (f := (·.targetAlias)) hjoin))
    refine ⟨link.2.join, hj, link.2.join.sourceEntity, link.2.join.targetEntity,
      hends.imp (·.2.2) (·.2.2), fun p hp => ?_⟩
    obtain ⟨hsourceColumn, htargetColumn⟩ := hlisted link hlink p hp
    rcases hends with ⟨heq, heq', -⟩ | ⟨heq, heq', -⟩
    · rw [heq] at hfrom
      rw [heq'] at hto
      exact ⟨declares_of_columnExists hfrom hsourceColumn,
        declares_of_columnExists hto htargetColumn⟩
    · rw [heq] at hfrom
      rw [heq'] at hto
      exact ⟨declares_of_columnExists hto hsourceColumn,
        declares_of_columnExists hfrom htargetColumn⟩

/-- A reference that resolved is declared on the entity it names. -/
theorem declares_columnAt {columnRef : String} (href : r.RefOk columnRef)
    (hscope : (refEntity columnRef, r.tableOf (refEntity columnRef)) ∈ q.scope) :
    q.Declares r.store (refEntity columnRef) (r.columnAt columnRef).columnRef := by
  obtain ⟨p, hparse, hexists⟩ := href
  obtain rfl := (parseQualifiedColumn_spec hparse).1
  exact declares_of_columnExists hscope hexists

/-- The columns of the measure are declared on the anchor. -/
private theorem measure_declared (h : r.PlanOf req plan) (hreq : r.Requestable req)
    (hq : Emitted plan q) {column : String} (hcolumn : column ∈ r.metric.measure.ref.columns) :
    q.Declares r.store r.metric.entity ⟨plan.anchorAlias, column⟩ := by
  obtain ⟨e, he, hbinding⟩ := lookupAnchorTable_eq_ok.1 h.anchored
  have hmem : column ∈ pySorted r.metric.measure.measureColumns :=
    (List.perm_insertionSort _ _).mem_iff.2 (List.mem_eraseDups.2 hcolumn)
  obtain ⟨t, htable, hlisted⟩ := validateColumnOnTable_eq_ok.1 (forM_eq_ok hreq.measure column hmem)
  have hscope := mem_scope_of_alias h hq (.inl rfl)
  rw [h.anchorAlias_eq] at hscope ⊢
  exact declares_of_columnExists hscope ⟨e, t, he, hbinding ▸ htable, hlisted⟩

/-- The group columns are declared on the entities of their references. -/
private theorem groupBy_declared (h : r.PlanOf req plan) (hreq : r.Requestable req)
    (horder : r.InOrder [] (requestEntities req)) (hq : Emitted plan q) {ref : ColumnRef}
    {index : Nat} (hitem : .groupColumn ref index ∈ q.select) :
    ∃ text ∈ req.groupBy, ref.column = (splitDot text).2 ∧
      q.Declares r.store (refEntity text) ref := by
  obtain ⟨bucket, hbucket, hitems⟩ := hq.select_eq
  rw [hitems, List.mem_append, List.mem_append, List.mem_singleton] at hitem
  rcases hitem with (hitem | hitem) | hitem
  · rcases emitTimeBucket_ok hbucket with ⟨rfl, -⟩ | ⟨_, _, rfl, -⟩
    · simp at hitem
    · exact absurd (List.mem_singleton.1 hitem) (by simp)
  · obtain ⟨i, hi, heq⟩ := List.mem_mapIdx.1 hitem
    have hmem : plan.groupByColumns[i] ∈ r.groupColumns req.groupBy [] :=
      h.groupBy_eq ▸ List.getElem_mem hi
    obtain ⟨text, htext, hcol⟩ := (Resolver.mem_groupColumns hmem).resolve_left (by simp)
    obtain ⟨rfl, -⟩ : plan.groupByColumns[i].columnRef = ref ∧ i = index := by simpa using heq
    rw [hcol]
    refine ⟨text, htext, rfl, declares_columnAt (hreq.group_refs text htext) ?_⟩
    refine mem_scope_of_reached h hq ((horder.reached _ ?_).mono fun e he => ?_)
    · exact List.mem_append_left _ (List.mem_map_of_mem htext)
    · rw [planEntities_eq h]
      exact List.mem_append_left _ (by simpa using he)
  · exact absurd hitem (by simp)

/-- The filters' columns are declared on the entities of their references. -/
private theorem filters_declared (h : r.PlanOf req plan) (hreq : r.Requestable req)
    (horder : r.InOrder [] (requestEntities req)) (hq : Emitted plan q) :
    List.Forall₂ (fun clause f => clause.column.column = (splitDot f.column).2 ∧
      q.Declares r.store (refEntity f.column) clause.column) q.filters req.filters := by
  rw [hq.filters_eq, h.predicates_eq, List.forall₂_iff_get]
  refine ⟨by simp, fun i hi hi' => ?_⟩
  have hmem : req.filters[i] ∈ req.filters := List.getElem_mem hi'
  simp only [List.get_eq_getElem, List.getElem_map, List.getElem_mapIdx]
  refine ⟨rfl, declares_columnAt (hreq.filter_refs _ hmem).1 ?_⟩
  refine mem_scope_of_reached h hq ((horder.reached _ ?_).mono fun e he => ?_)
  · exact List.mem_append_right _ (List.mem_map_of_mem hmem)
  · rw [planEntities_eq h]
    exact List.mem_append_left _ (by simpa using he)

/-- An ON clause names its own alias and one before it. -/
private theorem on_earlier (h : r.PlanOf req plan) (hq : Emitted plan q)
    {earlier later : List JoinClause} {clause : JoinClause}
    (hsplit : q.joins = earlier ++ clause :: later) {ref : ColumnRef}
    (href : ref ∈ clause.columns) :
    ref.aliasName = clause.aliasName ∨
      ref.aliasName ∈ q.anchorAlias :: earlier.map (·.aliasName) := by
  rw [hq.joins_eq] at hsplit
  obtain ⟨joins, rest, hjoins, rfl, hrest⟩ := List.map_eq_append_iff.1 hsplit
  obtain ⟨join, joins', rfl, rfl, -⟩ := List.map_eq_cons_iff.1 hrest
  obtain ⟨sides, hsides, href⟩ := List.mem_flatMap.1 href
  obtain ⟨p, -, rfl⟩ := List.mem_map.1 hsides
  rw [hq.anchorAlias_eq, h.anchorAlias_eq, List.mem_cons, List.map_map]
  rcases List.mem_cons.1 href with rfl | href
  · exact .inr (h.joins_of.well_scoped.source_earlier hjoins)
  · rw [List.mem_singleton.1 href]
    exact .inl rfl

/-- The time bucket is declared exactly when the metric's own dimension, if it is used, is
listed on the anchor's table. -/
private theorem bucket_declared_iff (h : r.PlanOf req plan)
    (hmetric : r.store.getMetric req.metricName = some r.metric) (hq : Emitted plan q) :
    (∀ grain ref, .timeBucket grain ref ∈ q.select → ∃ dimension,
      (plan.inheritedTimeDimension <|> plan.metric.timeDimension) = some dimension ∧
        ref.column = (splitDot dimension).2 ∧ q.Declares r.store (refEntity dimension) ref) ↔
    DimensionListed r.store req := by
  obtain ⟨anchor, hanchor, hanchorTable⟩ := lookupAnchorTable_eq_ok.1 h.anchored
  have hscope := mem_scope_of_alias h hq (.inl rfl)
  have hanchorScope : (plan.anchorAlias, anchor.binding) ∈ q.scope := by
    rw [h.anchorAlias_eq, aliasFor] at hscope ⊢
    rwa [Resolver.tableOf_eq hanchor] at hscope
  obtain ⟨bucket, hbucket, hitems⟩ := hq.select_eq
  have hmemBucket : ∀ grain ref, .timeBucket grain ref ∈ q.select ↔
      plan.timeBucket = some grain ∧ bucketColumn plan = some ref := by
    intro grain ref
    rw [hitems, List.mem_append, List.mem_append, List.mem_mapIdx]
    rcases emitTimeBucket_ok hbucket with ⟨rfl, hnone⟩ | ⟨grain', ref', rfl, hgrain, hcolumn⟩
    · simp [hnone]
    · simp [hgrain, hcolumn, eq_comm]
  simp only [hmemBucket]
  constructor
  · intro hdeclared metric dimension hmetric' hrequested htime
    obtain rfl := Option.some.inj (hmetric.symm.trans hmetric')
    obtain ⟨grain, hgrain⟩ := Option.ne_none_iff_exists'.1 hrequested
    rcases h.time with ⟨-, -, hinherited, hb⟩ | ⟨hneeds, -⟩ | ⟨_, hneeds, -⟩
    · have hcolumn : bucketColumn plan = some ⟨plan.anchorAlias, (splitDot dimension).2⟩ := by
        rw [bucketColumn, hinherited, h.metric_eq, htime]
      obtain ⟨dimension', hdimension', -, e, t, he, hbound, htable, hlisted⟩ :=
        hdeclared grain _ ⟨hb.trans hgrain, hcolumn⟩
      obtain rfl : dimension = dimension' := by
        simpa [hinherited, h.metric_eq, htime] using hdimension'
      have heq : e.binding = anchor.binding :=
        (table_of_scope h hq hbound).trans (table_of_scope h hq hanchorScope).symm
      exact ⟨anchor, e, t, hanchor, he, heq, htable, hlisted⟩
    · simp [needsInheritance, htime] at hneeds
    · simp [needsInheritance, htime] at hneeds
  · rintro hlisted grain ref ⟨hgrain, hcolumn⟩
    rcases h.time with ⟨-, -, hinherited, hb⟩ | ⟨-, -, -, -, hb⟩ |
      ⟨candidate, -, -, -, hinherited, -, -, href, hreached⟩
    · rw [bucketColumn, hinherited, h.metric_eq] at hcolumn
      cases htime : r.metric.timeDimension with
      | none => simp [htime] at hcolumn
      | some dimension =>
        rw [htime] at hcolumn
        obtain rfl := Option.some.inj hcolumn
        obtain ⟨anchor', e, t, hanchor', he, heq, htable, hmem⟩ :=
          hlisted r.metric dimension hmetric (by simp [← hb, hgrain]) htime
        obtain rfl : anchor = anchor' := Option.some.inj (hanchor.symm.trans hanchor')
        refine ⟨dimension, by simp [hinherited, h.metric_eq, htime], rfl, e, t, he, ?_, htable,
          hmem⟩
        rw [heq]
        exact hanchorScope
    · simp [hb] at hgrain
    · rw [bucketColumn, hinherited] at hcolumn
      obtain rfl := Option.some.inj hcolumn
      refine ⟨candidate.1, by simp [hinherited], rfl, declares_columnAt href ?_⟩
      refine mem_scope_of_reached h hq (hreached.mono fun e he => ?_)
      simpa [planEntities, hinherited, or_comm] using he

end Declared

/-- Revenue of orders, by the time that an account was opened. -/
def accountDatedRevenue : Metric :=
  { name := "revenue", entity := "order", measure := { agg := .sum, ref := .column "amount" },
    timeDimension := some "account.opened_at", timeGrains := [.month],
    dimension_form := by decide }

/-- A metric whose time dimension is a column of another entity. -/
def misdatedStore : Store :=
  { chainedStore with
    metrics := [accountDatedRevenue]
    metrics_key := List.nodup_singleton _
    metrics_anchored := by decide }

end SchemaBrain.Semantic
