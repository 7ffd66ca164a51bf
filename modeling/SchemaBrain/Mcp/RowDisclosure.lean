import SchemaBrain.Mcp.GateCoverage

/-!
# Raw values in the rows

Some items of the SELECT list put a row's own value into the result: the group keys, the
time bucket, and the operand of `min` and `max`. The gate refuses two of the three kinds
whatever the policy is.
-/

namespace SchemaBrain.Semantic

/-- The columns whose own values an item puts into the result. -/
def SelectItem.rawColumns : SelectItem → List ColumnRef
  | .timeBucket _ column => [column]
  | .groupColumn column _ => [column]
  | .measure m anchorAlias _ =>
    if m.agg = .min ∨ m.agg = .max then m.ref.columns.map fun column => ⟨anchorAlias, column⟩
    else []

/-- The SELECT list projects the column of the table, under some alias of it. -/
def Query.Projects (q : Query) (table : Core.QualifiedTable) (column : String) : Prop :=
  ∃ item ∈ q.select, ∃ ref ∈ item.rawColumns, ref.column = column ∧
    (ref.aliasName, table) ∈ q.scope

end SchemaBrain.Semantic

namespace SchemaBrain.Mcp

open Base Core Semantic

/-- The stored tag of a column has no category. -/
def Untagged (store : Store) (table : QualifiedTable) (column : String) : Prop :=
  (store.columnPiiTag table.text column).categories = []

/-! ## Refused projections -/

theorem refuseTagged_ok {store : Store} {anchorEntity : String} {table : QualifiedTable}
    {text : String → String} {columns : List String}
    (h : refuseTagged store anchorEntity table text columns = .ok ()) :
    ∀ column ∈ columns, Untagged store table column := by
  intro column hcolumn
  have hsorted : column ∈ pySorted columns := (List.perm_insertionSort _ _).mem_iff.2 hcolumn
  have hstep := forM_eq_ok h column hsorted
  simp only at hstep
  split at hstep
  · next hnone =>
    rw [Untagged, List.eq_nil_iff_forall_not_mem]
    intro category hmem
    have hsortedCategory : category ∈ sortedCategories
        (store.columnPiiTag table.text column).categories :=
      (List.perm_insertionSort _ _).mem_iff.2 (List.mem_eraseDups.2 hmem)
    rw [hnone] at hsortedCategory
    simp at hsortedCategory
  · simp at hstep

theorem refuseSampled_ok {store : Store} {plan : MetricPlan}
    (h : refuseSampled store plan = .ok ())
    (hagg : plan.metric.measure.agg = .min ∨ plan.metric.measure.agg = .max) :
    ∀ column ∈ plan.metric.measure.ref.columns, Untagged store plan.anchorTable column := by
  rw [refuseSampled, if_pos hagg] at h
  intro column hcolumn
  exact refuseTagged_ok h column (List.mem_eraseDups.2 hcolumn)

theorem refuseGrouped_ok {store : Store} {plan : MetricPlan}
    (h : refuseGrouped store plan = .ok ()) :
    ∀ col ∈ plan.groupByColumns, Untagged store col.qualifiedTable col.column := by
  intro col hcol
  have hpair : (col.qualifiedTable, col.column) ∈ (ByTable.collect (plan.groupByColumns.map
      fun col => (col.qualifiedTable, col.column))).pairs :=
    ByTable.mem_pairs_collect.2 (List.mem_map_of_mem hcol)
  obtain ⟨entry, hentry, hcolumn⟩ := List.mem_flatMap.1 hpair
  obtain ⟨column, hmem, heq⟩ := List.mem_map.1 hcolumn
  obtain ⟨htable, rfl⟩ := Prod.mk.inj heq
  rw [← htable]
  exact refuseTagged_ok (forM_eq_ok h entry hentry) _ hmem

/-! ## The time bucket -/

/-- The entity and the column that a metric is bucketed by, when a grain is requested. -/
def bucketSource (store : Store) (metric : Metric) (timeDimension : Option String) :
    Option (String × String) :=
  match metric.timeDimension with
  | some dimension => some (metric.entity, (splitDot dimension).2)
  | none =>
    match inheritedCandidate store metric timeDimension with
    | .ok (some candidate) => some (splitDot candidate.1)
    | _ => none

/-- The column of the request's time bucket, if it asks for one, is untagged. -/
def BucketUntagged (store : Store) (args : GetMetricArgs) : Prop :=
  ∀ metric, store.getMetric args.name = some metric → args.timeGrain ≠ none →
    ∀ entity column, bucketSource store metric args.timeDimension = some (entity, column) →
    ∀ e, store.getEntity entity = some e → Untagged store e.binding column

section Bucket

variable {r : Resolver} {req : MetricRequest} {plan : MetricPlan}

/-- A plan buckets by the column of its source, under the alias of its entity. -/
theorem bucketColumn_eq (h : r.PlanOf req plan) {grain : TimeGrain}
    (hgrain : plan.timeBucket = some grain) :
    ∃ entity column, bucketSource r.store r.metric req.timeDimension = some (entity, column) ∧
      bucketColumn plan = some ⟨entity, column⟩ ∧
      r.Reached (planEntities req plan) entity := by
  unfold bucketColumn bucketSource
  rw [h.metric_eq]
  rcases h.time with ⟨hneeds, -, hdimension, hbucket⟩ | ⟨-, -, -, -, hbucket⟩ |
    ⟨candidate, hneeds, hchoice, -, hdimension, -, -, -, hreached⟩
  · rw [hdimension]
    cases htime : r.metric.timeDimension with
    | none => simp [needsInheritance, htime, ← hbucket, hgrain] at hneeds
    | some dimension =>
      refine ⟨r.metric.entity, (splitDot dimension).2, rfl, ?_, .inl rfl⟩
      rw [h.anchorAlias_eq]
      rfl
  · simp [hbucket] at hgrain
  · simp only [needsInheritance, Bool.and_eq_true, Option.isNone_iff_eq_none] at hneeds
    rw [hdimension, hneeds.1, hchoice]
    refine ⟨_, _, rfl, rfl, hreached.mono fun e he => ?_⟩
    simpa [planEntities, hdimension, or_comm] using he

end Bucket

/-- The bucket of an emitted plan with a grain is in its SELECT list. -/
private theorem bucket_mem_select {plan : MetricPlan} {q : Query} (hq : Emitted plan q)
    {grain : TimeGrain} {ref : ColumnRef} (hgrain : plan.timeBucket = some grain)
    (hcolumn : bucketColumn plan = some ref) : .timeBucket grain ref ∈ q.select := by
  obtain ⟨bucket, hbucket, hitems⟩ := hq.select_eq
  rw [emitTimeBucket, hgrain, hcolumn] at hbucket
  obtain rfl := Except.ok.inj hbucket
  rw [hitems]
  simp

/-- Only the time bucket's column escapes the refusals. -/
private theorem untagged_of_projects {r : Resolver} {req : MetricRequest} {plan : MetricPlan}
    {q : Query} {piiBlock categories : List PiiCategory} (h : r.PlanOf req plan)
    (hq : Emitted plan q) (hgate : resolvePiiCategories r.store plan piiBlock = .ok categories)
    (hbucket : ∀ grain ref table, plan.timeBucket = some grain → bucketColumn plan = some ref →
      (ref.aliasName, table) ∈ q.scope → Untagged r.store table ref.column)
    {table : QualifiedTable} {column : String} (hprojects : q.Projects table column) :
    Untagged r.store table column := by
  obtain ⟨item, hitem, ref, href, rfl, hscope⟩ := hprojects
  obtain ⟨⟨⟩, hsampled, hgate⟩ := bind_eq_ok hgate
  obtain ⟨⟨⟩, hgrouped, -⟩ := bind_eq_ok hgate
  obtain ⟨bucket, hemit, hitems⟩ := hq.select_eq
  rw [hitems, List.mem_append, List.mem_append, List.mem_singleton] at hitem
  rcases hitem with (hitem | hitem) | rfl
  · rcases emitTimeBucket_ok hemit with ⟨rfl, -⟩ | ⟨grain, col, rfl, hgrain, hcolumn⟩
    · simp at hitem
    · obtain rfl := List.mem_singleton.1 hitem
      obtain rfl := List.mem_singleton.1 href
      exact hbucket grain ref table hgrain hcolumn hscope
  · obtain ⟨i, hi, rfl⟩ := List.mem_mapIdx.1 hitem
    obtain rfl := List.mem_singleton.1 href
    have hmem : plan.groupByColumns[i] ∈ plan.groupByColumns := List.getElem_mem hi
    have hgroup := table_of_groupColumn h
    obtain rfl := table_of_scope h hq hscope
    have huntagged := refuseGrouped_ok hgrouped _ hmem
    rwa [hgroup _ hmem] at huntagged
  · simp only [SelectItem.rawColumns] at href
    split at href
    · next hagg =>
      obtain ⟨name, hname, rfl⟩ := List.mem_map.1 href
      obtain rfl := table_of_scope h hq hscope
      have huntagged := refuseSampled_ok hsampled hagg name hname
      have hanchor : r.tableOf plan.anchorAlias = plan.anchorTable := by
        rw [h.anchorAlias_eq, aliasFor, h.anchored.tableOf, h.anchorTable_eq]
      rwa [← hanchor] at huntagged
    · simp at href

/-- A call that reaches the database projects no tagged column exactly when the column of
its time bucket is untagged. -/
theorem projects_untagged_iff {store : Store} {args : GetMetricArgs} {call : MetricCall}
    (h : prepareMetric store args = .ok call) :
    (∀ table column, call.query.Projects table column → Untagged store table column) ↔
      BucketUntagged store args := by
  obtain ⟨timeGrain, hgrain, hplan, hgate, hq⟩ := prepareMetric_ok h
  obtain ⟨r, rfl, -, hmetric, -, -, hof⟩ := resolveMetricPlan_ok hplan
  constructor
  · intro huntagged metric hmetric' hrequested entity column hsource e he
    obtain rfl := Option.some.inj (hmetric.symm.trans hmetric')
    have hnone : timeGrain ≠ none := mt (narrowGrain_eq_none hgrain).1 hrequested
    obtain ⟨grain, rfl⟩ := Option.ne_none_iff_exists'.1 hnone
    -- the plan drops a requested grain only where nothing can be bucketed by
    have hbucket : call.plan.timeBucket = some grain := by
      rcases hof.time with ⟨-, -, -, hbucket⟩ | ⟨hneeds, hchoice, -, -, -⟩ |
        ⟨candidate, -, -, -, -, -, hbucket, -, -⟩
      · exact hbucket
      · simp only [needsInheritance, Bool.and_eq_true, Option.isNone_iff_eq_none] at hneeds
        simp only [GetMetricArgs.request] at hchoice
        simp [bucketSource, hneeds.1, hchoice] at hsource
      · exact hbucket
    obtain ⟨entity', column', hsource', hcolumn, hreached⟩ := bucketColumn_eq hof hbucket
    obtain ⟨rfl, rfl⟩ : entity' = entity ∧ column' = column := by
      simpa using hsource'.symm.trans hsource
    rw [← Resolver.tableOf_eq he]
    exact huntagged _ _ ⟨_, bucket_mem_select hq hbucket hcolumn, _, List.mem_singleton_self _,
      rfl, mem_scope_of_reached hof hq hreached⟩
  · intro hbucket table column hprojects
    refine untagged_of_projects hof hq hgate ?_ hprojects
    intro grain ref table hgrain' hcolumn hscope
    obtain ⟨entity, column, hsource, hcolumn', -⟩ := bucketColumn_eq hof hgrain'
    obtain rfl := Option.some.inj (hcolumn.symm.trans hcolumn')
    have hrequested : args.timeGrain ≠ none := by
      refine mt (narrowGrain_eq_none hgrain).2 fun hnone => ?_
      subst hnone
      rcases hof.time with ⟨-, -, -, hb⟩ | ⟨-, -, -, -, hb⟩ | ⟨_, -, -, -, -, -, hb, -, -⟩
      all_goals exact absurd (hb.symm.trans hgrain') (by simp [GetMetricArgs.request])
    obtain ⟨e, he⟩ := exists_entity_of_scope hof hq hscope
    rw [table_of_scope hof hq hscope, Resolver.tableOf_eq he]
    exact hbucket r.metric hmetric hrequested entity column hsource e he

theorem projects_untagged_monthly :
    ∃ call, prepareMetric (taggedStore .untagged) monthlyRevenueArgs = .ok call ∧
      ((∀ table column, call.query.Projects table column →
        Untagged (taggedStore .untagged) table column) ↔
        BucketUntagged (taggedStore .untagged) monthlyRevenueArgs) := by
  obtain ⟨call, hcall⟩ := exists_untaggedCall
  exact ⟨call, hcall, projects_untagged_iff hcall⟩

/-- Without a policy the times of tagged accounts are the keys of the rows. -/
theorem not_projects_untagged_tagged :
    ¬ ∀ store args call, prepareMetric store args = .ok call →
      ∀ table column, call.query.Projects table column → Untagged store table column := by
  intro hall
  have hrun : (uncheckedCall (taggedStore ⟨.pii, [.behavioral]⟩)
      { monthlyRevenueArgs with piiBlock := [] }).toOption.map
      (fun call => decide ((∀ line ∈ call.query.lines, ';' ∉ line.toList) ∧
        ⟨"account", "opened_at"⟩ ∈ call.query.select.flatMap (·.rawColumns) ∧
        ("account", ⟨"public", "accounts"⟩) ∈ call.query.scope)) = some true := by decide +kernel
  cases h : uncheckedCall (taggedStore ⟨.pii, [.behavioral]⟩)
      { monthlyRevenueArgs with piiBlock := [] } with
  | error e => simp [h, Except.toOption] at hrun
  | ok call =>
    rw [h] at hrun
    obtain ⟨hlines, hcolumn, hscope⟩ := of_decide_eq_true (Option.some.inj hrun)
    have hcall := prepareMetric_of_unchecked h (by decide) hlines
    obtain ⟨item, hitem, href⟩ := List.mem_flatMap.1 hcolumn
    have huntagged := hall _ _ call hcall ⟨"public", "accounts"⟩ "opened_at"
      ⟨item, hitem, _, href, rfl, hscope⟩
    revert huntagged
    unfold Untagged
    decide +kernel

end SchemaBrain.Mcp
