import SchemaBrain.Mcp.GetMetric
import SchemaBrain.Semantic.Scope
import SchemaBrain.Semantic.TimeBucket

/-!
# Coverage of the PII gate

Every column that the statement names is one that the gate looks up, but for an inherited
time dimension. The gate covers the statement exactly when that column is not blocked.
-/

namespace SchemaBrain.Mcp

open Base Core Semantic

section Columns

variable {r : Resolver} {req : MetricRequest} {plan : MetricPlan} {q : Query}

/-- Both sides of every ON pair are looked up on the tables of their aliases. -/
theorem mem_joinColumns {anchorTable : QualifiedTable} {joins : List ResolvedJoin}
    {knownAliases : List String} {aliasToTable : List (String × QualifiedTable)}
    {clauses : List JoinClause} (hemit : emitJoins knownAliases joins = .ok clauses)
    (hknown : ∀ a ∈ knownAliases, tableOfAlias anchorTable aliasToTable a = r.tableOf a)
    (htarget : ∀ join ∈ joins, join.targetTable = r.tableOf join.targetAlias) :
    ∀ join ∈ joins, ∀ p ∈ join.onPairs,
      (r.tableOf join.sourceAlias, p.sourceColumn) ∈
          joinColumns anchorTable aliasToTable joins ∧
        (r.tableOf join.targetAlias, p.targetColumn) ∈
          joinColumns anchorTable aliasToTable joins := by
  induction joins generalizing knownAliases aliasToTable clauses with
  | nil => simp
  | cons first joins ih =>
    unfold emitJoins at hemit
    split at hemit
    · next hsource =>
      obtain ⟨rest, hrest, -⟩ := bind_eq_ok hemit
      have hfirst := htarget first List.mem_cons_self
      have hnext : ∀ a ∈ knownAliases ++ [first.targetAlias], tableOfAlias anchorTable
          ((first.targetAlias, first.targetTable) :: aliasToTable) a = r.tableOf a := by
        intro a ha
        unfold tableOfAlias
        by_cases heq : first.targetAlias = a
        · simp [heq, hfirst]
        · rw [List.find?_cons_of_neg (by simpa using heq)]
          refine hknown a ((List.mem_append.1 ha).resolve_right fun hlast => heq ?_)
          exact (List.mem_singleton.1 hlast).symm
      intro join hjoin p hp
      simp only [joinColumns, List.mem_append]
      rcases List.mem_cons.1 hjoin with rfl | hjoin
      · rw [hknown _ hsource, hfirst]
        constructor
        · exact .inl (List.mem_flatMap.2 ⟨p, hp, by simp⟩)
        · exact .inl (List.mem_flatMap.2 ⟨p, hp, by simp⟩)
      · have hin :=
          ih hrest hnext (fun j hj => htarget j (List.mem_cons_of_mem _ hj)) join hjoin p hp
        exact ⟨.inr hin.1, .inr hin.2⟩
    · simp at hemit

/-- A predicate's column lies on the table of its alias. -/
theorem table_of_predicate (h : r.PlanOf req plan) :
    ∀ p ∈ plan.filterPredicates, p.column.qualifiedTable = r.tableOf p.column.aliasName := by
  intro p hp
  have hcol := List.mem_map_of_mem (f := (·.column)) hp
  rw [h.filters_eq] at hcol
  obtain ⟨f, -, hcol⟩ := List.mem_map.1 hcol
  rw [← hcol]
  rfl

/-- A time bucket reads the inherited dimension, or a column that is looked up. -/
theorem touched_of_bucket {ref : ColumnRef} (hbucket : bucketColumn plan = some ref)
    {localTime : List (QualifiedTable × String)} (hlocal : localTimeColumn plan = .ok localTime) :
    (ref.aliasName = plan.anchorAlias ∧ (plan.anchorTable, ref.column) ∈ localTime) ∨
      ∃ dimension, plan.inheritedTimeDimension = some dimension ∧
        ref = ⟨refEntity dimension, (splitDot dimension).2⟩ := by
  unfold bucketColumn at hbucket
  unfold localTimeColumn at hlocal
  split at hbucket
  · next dimension hdimension =>
    exact .inr ⟨dimension, hdimension, (Option.some.inj hbucket).symm⟩
  · next dimension _ htime =>
    rw [htime] at hlocal
    obtain rfl := Option.some.inj hbucket
    simp only at hlocal
    split at hlocal
    · obtain rfl := Except.ok.inj hlocal
      exact .inl ⟨rfl, List.mem_singleton_self _⟩
    · simp at hlocal
  · simp at hbucket

/-- A column that the text names is looked up, or belongs to the inherited dimension. -/
theorem touched_or_inherited (h : r.PlanOf req plan) (hq : Emitted plan q)
    {localTime : List (QualifiedTable × String)} (hlocal : localTimeColumn plan = .ok localTime)
    {table : QualifiedTable} {column : String} (hmentions : q.Mentions table column) :
    (table, column) ∈ touchedColumns plan localTime ∨
      ∃ dimension, plan.inheritedTimeDimension = some dimension ∧ column = (splitDot dimension).2 ∧
        table = r.tableOf (refEntity dimension) := by
  obtain ⟨ref, href, rfl, hscope⟩ := hmentions
  obtain rfl := table_of_scope h hq hscope
  have hanchor : r.tableOf plan.anchorAlias = plan.anchorTable := by
    rw [h.anchorAlias_eq, aliasFor, h.anchored.tableOf, h.anchorTable_eq]
  have hgroup := table_of_groupColumn h
  unfold touchedColumns
  simp only [List.mem_append]
  rw [Query.columns, List.mem_append, List.mem_append] at href
  rcases href with (hselect | hjoins) | hfilters
  · obtain ⟨bucket, hbucket, hitems⟩ := hq.select_eq
    obtain ⟨item, hitem, href⟩ := List.mem_flatMap.1 hselect
    rw [hitems, List.mem_append, List.mem_append, List.mem_singleton] at hitem
    rcases hitem with (hitem | hitem) | rfl
    · have hcolumn : bucketColumn plan = some ref := by
        rcases emitTimeBucket_ok hbucket with ⟨rfl, -⟩ | ⟨grain, column, rfl, -, hcolumn⟩
        · simp at hitem
        · obtain rfl := List.mem_singleton.1 hitem
          rw [hcolumn, List.mem_singleton.1 href]
      rcases touched_of_bucket hcolumn hlocal with
        ⟨halias, htouched⟩ | ⟨dimension, hdimension, rfl⟩
      · rw [halias, hanchor]
        exact .inl (.inl (.inl (.inl (.inr htouched))))
      · exact .inr ⟨dimension, hdimension, rfl, rfl⟩
    · obtain ⟨i, hi, rfl⟩ := List.mem_mapIdx.1 hitem
      obtain rfl := List.mem_singleton.1 href
      have hmem : plan.groupByColumns[i] ∈ plan.groupByColumns := List.getElem_mem hi
      refine .inl (.inl (.inl (.inr (List.mem_map.2 ⟨_, hmem, ?_⟩))))
      rw [hgroup _ hmem]
      rfl
    · obtain ⟨name, hname, rfl⟩ := List.mem_map.1 href
      refine .inl (.inl (.inl (.inl (.inl (List.mem_map.2 ⟨name, ?_, ?_⟩)))))
      · exact List.mem_eraseDups.2 hname
      · rw [hanchor]
  · rw [hq.joins_eq] at hjoins
    obtain ⟨clause, hclause, href⟩ := List.mem_flatMap.1 hjoins
    obtain ⟨join, hjoin, rfl⟩ := List.mem_map.1 hclause
    obtain ⟨sides, hsides, href⟩ := List.mem_flatMap.1 href
    obtain ⟨p, hp, rfl⟩ := List.mem_map.1 hsides
    have hemit := h.joins_of.well_scoped.emitJoins
    rw [← h.anchorAlias_eq] at hemit
    have hknown : ∀ a ∈ [plan.anchorAlias], tableOfAlias plan.anchorTable
        [(plan.anchorAlias, plan.anchorTable)] a = r.tableOf a := by
      intro a ha
      rw [List.mem_singleton.1 ha, hanchor]
      simp [tableOfAlias]
    obtain ⟨hsource, htarget⟩ := mem_joinColumns hemit hknown (table_of_join h) join hjoin p hp
    rcases List.mem_cons.1 href with rfl | href
    · exact .inl (.inr hsource)
    · obtain rfl := List.mem_singleton.1 href
      exact .inl (.inr htarget)
  · rw [hq.filters_eq, List.map_map] at hfilters
    obtain ⟨p, hp, rfl⟩ := List.mem_map.1 hfilters
    refine .inl (.inl (.inr (List.mem_map.2 ⟨p, hp, ?_⟩)))
    rw [table_of_predicate h p hp]
    rfl

end Columns

/-- The time dimension that a request without one inherits is not blocked. -/
def InheritedUnblocked (store : Store) (args : GetMetricArgs) : Prop :=
  ∀ metric, store.getMetric args.name = some metric → metric.timeDimension = none →
    args.timeGrain ≠ none →
    ∀ candidate, inheritedCandidate store metric args.timeDimension = .ok (some candidate) →
    ∀ entity, store.getEntity (refEntity candidate.1) = some entity →
    Unblocked store args.piiBlock entity.binding (splitDot candidate.1).2

/-- What a call that reaches the database has resolved, checked and emitted. -/
theorem prepareMetric_ok {store : Store} {args : GetMetricArgs} {call : MetricCall}
    (h : prepareMetric store args = .ok call) :
    ∃ timeGrain, narrowGrain args.timeGrain = .ok timeGrain ∧
      resolveMetricPlan store (args.request timeGrain) = .ok call.plan ∧
      resolvePiiCategories store call.plan args.piiBlock = .ok call.piiCategories ∧
      Emitted call.plan call.query := by
  unfold prepareMetric at h
  split at h
  · obtain ⟨timeGrain, hgrain, h⟩ := bind_eq_ok h
    obtain ⟨plan, hplan, h⟩ := bind_eq_ok h
    obtain ⟨categories, hgate, h⟩ := bind_eq_ok h
    obtain ⟨⟨query, params⟩, hemit, h⟩ := bind_eq_ok h
    obtain rfl := Except.ok.inj h
    obtain ⟨⟨query', params'⟩, hquery, hemit⟩ := bind_eq_ok hemit
    simp only at hemit
    split at hemit
    · simp at hemit
    · obtain ⟨rfl, rfl⟩ := Prod.mk.inj (Except.ok.inj hemit)
      exact ⟨timeGrain, hgrain, hplan, hgate, emitQuery_ok hquery⟩
  · simp at h

theorem narrowGrain_eq_none {word : Option String} {timeGrain : Option TimeGrain}
    (h : narrowGrain word = .ok timeGrain) : timeGrain = none ↔ word = none := by
  unfold narrowGrain at h
  split at h
  · simp [← Except.ok.inj h]
  · split at h
    · simp [← Except.ok.inj h]
    · simp at h

/-- A call that reaches the database sends no blocked column exactly when the time dimension
it inherits, if it does, is not blocked. -/
theorem gate_covers_iff {store : Store} {args : GetMetricArgs} {call : MetricCall}
    (h : prepareMetric store args = .ok call) :
    (∀ table column, call.query.Mentions table column →
      Unblocked store args.piiBlock table column) ↔ InheritedUnblocked store args := by
  obtain ⟨timeGrain, hgrain, hplan, hgate, hq⟩ := prepareMetric_ok h
  obtain ⟨r, rfl, -, hmetric, -, horder, hof⟩ := resolveMetricPlan_ok hplan
  constructor
  · intro hcovers metric hmetric' htime hrequested candidate hchoice entity hentity
    obtain rfl := Option.some.inj (hmetric.symm.trans hmetric')
    -- the request inherits the candidate, and its column is in the SELECT list
    have hneeds : needsInheritance r.metric (args.request timeGrain) = true := by
      have := mt (narrowGrain_eq_none hgrain).1 hrequested
      simp [needsInheritance, htime, GetMetricArgs.request, Option.isSome_iff_ne_none, this]
    rcases hof.time with ⟨hno, -⟩ | ⟨-, hnone, -⟩ |
      ⟨chosen, -, hchosen, -, hdimension, -, hbucket, -, hreached⟩
    · simp [hneeds] at hno
    · exact absurd (hchoice.symm.trans hnone) (by simp)
    · obtain rfl : candidate = chosen :=
        Option.some.inj (Except.ok.inj (hchoice.symm.trans hchosen))
      rw [← Resolver.tableOf_eq hentity]
      refine hcovers _ _ ⟨⟨refEntity candidate.1, (splitDot candidate.1).2⟩, ?_, rfl, ?_⟩
      · obtain ⟨bucket, hemit, hitems⟩ := hq.select_eq
        have hcolumn : bucketColumn call.plan =
            some ⟨refEntity candidate.1, (splitDot candidate.1).2⟩ := by
          rw [bucketColumn, hdimension]
          rfl
        rw [emitTimeBucket, hcolumn, hbucket] at hemit
        cases hg : (args.request timeGrain).timeGrain with
        | none => simp [needsInheritance, hg] at hneeds
        | some grain =>
          rw [hg] at hemit
          obtain rfl := Except.ok.inj hemit
          rw [Query.columns, hitems]
          simp [SelectItem.columns]
      · refine mem_scope_of_reached hof hq (hreached.mono fun e he => ?_)
        simpa [planEntities, hdimension, or_comm] using he
  · intro hinherited table column hmentions
    obtain ⟨localTime, hlocal, htouched⟩ := resolvePiiCategories_ok hgate
    rcases touched_or_inherited hof hq hlocal hmentions with hin | ⟨dimension, hdim, rfl, rfl⟩
    · exact htouched (table, column) hin
    · rcases hof.time with ⟨-, -, hno, -⟩ | ⟨-, -, -, hno, -⟩ |
        ⟨chosen, hneeds, hchosen, -, hdimension, -, -, href, -⟩
      · exact absurd (hno.symm.trans hdim) (by simp)
      · exact absurd (hno.symm.trans hdim) (by simp)
      · obtain rfl := Option.some.inj (hdimension.symm.trans hdim)
        obtain ⟨p, hparse, entity, t, hentity, -⟩ := href
        have hname : refEntity chosen.1 = p.1 := by
          rw [refEntity, (parseQualifiedColumn_spec hparse).1]
        rw [← hname] at hentity
        rw [Resolver.tableOf_eq hentity]
        simp only [needsInheritance, Bool.and_eq_true, Option.isNone_iff_eq_none,
          Option.isSome_iff_ne_none] at hneeds
        exact hinherited r.metric hmetric hneeds.1
          (mt (narrowGrain_eq_none hgrain).2 hneeds.2) chosen hchosen entity hentity

/-- Revenue by month, with behavioral columns blocked. -/
def monthlyRevenueArgs : GetMetricArgs :=
  { name := "revenue", timeGrain := some "month", piiBlock := [.behavioral] }

/-- `chainedStore` with classified columns, and the time an account was opened under a tag. -/
def taggedStore (openedAt : ColumnPiiTag) : Store :=
  { chainedStore with
    columnPiiTags := [⟨"public.orders", "amount", .untagged, .heuristic⟩,
      ⟨"public.accounts", "opened_at", openedAt, .heuristic⟩]
    tags_key := by simp }

/-- A call without the last check of its text. -/
def uncheckedCall (store : Store) (args : GetMetricArgs) : Except CompilerError MetricCall := do
  let timeGrain ← narrowGrain args.timeGrain
  let plan ← resolveMetricPlan store (args.request timeGrain)
  let piiCategories ← resolvePiiCategories store plan args.piiBlock
  let (query, params) ← emitQuery plan
  return ⟨plan, piiCategories, query, params⟩

/-- The check passes when no line of the text has a semicolon. -/
theorem prepareMetric_of_unchecked {store : Store} {args : GetMetricArgs} {call : MetricCall}
    (h : uncheckedCall store args = .ok call)
    (hlimit : minLimit ≤ args.limit ∧ args.limit ≤ maxLimit)
    (hlines : ∀ line ∈ call.query.lines, ';' ∉ line.toList) :
    prepareMetric store args = .ok call := by
  obtain ⟨timeGrain, hgrain, h⟩ := bind_eq_ok h
  obtain ⟨plan, hplan, h⟩ := bind_eq_ok h
  obtain ⟨piiCategories, hgate, h⟩ := bind_eq_ok h
  obtain ⟨⟨query, params⟩, hemit, h⟩ := bind_eq_ok h
  obtain rfl := Except.ok.inj h
  rw [prepareMetric, if_pos hlimit]
  simp only [bind, Except.bind, hgrain, hplan, hgate, emitSql_of_lines hemit hlines]
  rfl

/-- The call with an untagged time dimension reaches the database. -/
theorem exists_untaggedCall :
    ∃ call, prepareMetric (taggedStore .untagged) monthlyRevenueArgs = .ok call := by
  have hrun : (uncheckedCall (taggedStore .untagged) monthlyRevenueArgs).toOption.map
      (fun call => decide (∀ line ∈ call.query.lines, ';' ∉ line.toList)) = some true := by
    decide +kernel
  cases h : uncheckedCall (taggedStore .untagged) monthlyRevenueArgs with
  | error e => simp [h, Except.toOption] at hrun
  | ok call =>
    rw [h] at hrun
    exact ⟨call, prepareMetric_of_unchecked h (by decide)
      (of_decide_eq_true (Option.some.inj hrun))⟩

theorem gate_covers_untagged :
    ∃ call, prepareMetric (taggedStore .untagged) monthlyRevenueArgs = .ok call ∧
      ((∀ table column, call.query.Mentions table column →
        Unblocked (taggedStore .untagged) monthlyRevenueArgs.piiBlock table column) ↔
        InheritedUnblocked (taggedStore .untagged) monthlyRevenueArgs) := by
  obtain ⟨call, hcall⟩ := exists_untaggedCall
  exact ⟨call, hcall, gate_covers_iff hcall⟩

/-- A blocked column reaches the database as an inherited time dimension. -/
theorem not_gate_covers_tagged :
    ¬ ∀ store args call, prepareMetric store args = .ok call →
      ∀ table column, call.query.Mentions table column →
        Unblocked store args.piiBlock table column := by
  intro hall
  have hrun : (uncheckedCall (taggedStore ⟨.pii, [.behavioral]⟩) monthlyRevenueArgs).toOption.map
      (fun call => decide ((∀ line ∈ call.query.lines, ';' ∉ line.toList) ∧
        ⟨"account", "opened_at"⟩ ∈ call.query.columns ∧
        ("account", ⟨"public", "accounts"⟩) ∈ call.query.scope)) = some true := by decide +kernel
  cases h : uncheckedCall (taggedStore ⟨.pii, [.behavioral]⟩) monthlyRevenueArgs with
  | error e => simp [h, Except.toOption] at hrun
  | ok call =>
    rw [h] at hrun
    obtain ⟨hlines, hcolumn, hscope⟩ := of_decide_eq_true (Option.some.inj hrun)
    have hcall := prepareMetric_of_unchecked h (by decide) hlines
    have hunblocked := hall _ _ call hcall ⟨"public", "accounts"⟩ "opened_at"
      ⟨_, hcolumn, rfl, hscope⟩
    exact hunblocked .behavioral (by decide +kernel) (by decide)

end SchemaBrain.Mcp
