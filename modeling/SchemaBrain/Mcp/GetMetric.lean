import SchemaBrain.Semantic.Emit

/-!
# `get_metric` and its PII gate

The tool up to the statement that it sends to the database: the request is resolved, the
tags of the touched columns are looked up and checked, the statement is emitted. The gate
collects the touched columns on its own; the text mentions one more kind of column.
-/

namespace SchemaBrain.Mcp

open Base Core Semantic

/-- The arguments of one call. -/
structure GetMetricArgs where
  name : String
  groupBy : List String := []
  filters : List RequestedFilter := []
  timeGrain : Option String := none
  timeDimension : Option String := none
  limit : Int := 1000
  via : List String := []
  orderBy : List RequestedOrderBy := []
  piiBlock : List PiiCategory := []

/-- `_MIN_LIMIT`. -/
def minLimit : Int := 1

/-- `_MAX_LIMIT`. -/
def maxLimit : Int := 10000

/-! ## Tags -/

/-- `tuple(sorted(categories))` of a set of categories. -/
def sortedCategories (categories : List PiiCategory) : List PiiCategory :=
  categories.eraseDups.insertionSort (·.word ≤ ·.word)

/-- `propagate`: the highest sensitivity and the union of the categories. -/
def propagate (perColumn : List ColumnPiiTag) : ColumnPiiTag :=
  perColumn.foldl (fun acc tag =>
    ⟨if tag.sensitivity.rank > acc.sensitivity.rank then tag.sensitivity else acc.sensitivity,
      acc.categories ∪ tag.categories⟩) .untagged

/-- Column names by table, in the order the tables come up. -/
abbrev ByTable := List (QualifiedTable × List String)

namespace ByTable

/-- `by_table.setdefault(table, set()).add(column)`. -/
def add : ByTable → QualifiedTable → String → ByTable
  | [], table, column => [(table, [column])]
  | (key, columns) :: rest, table, column =>
    if key = table then (key, columns.insert column) :: rest
    else (key, columns) :: add rest table column

/-- The tables of some columns. -/
def collect (touched : List (QualifiedTable × String)) : ByTable :=
  touched.foldl (fun byTable p => byTable.add p.1 p.2) []

/-- The columns again, table after table. -/
def pairs (byTable : ByTable) : List (QualifiedTable × String) :=
  byTable.flatMap fun entry => entry.2.map fun column => (entry.1, column)

end ByTable

/-- The gate for columns whose values would appear in the rows: none of them has a category. -/
def refuseTagged (store : Store) (anchorEntity : String) (table : QualifiedTable)
    (text : String → String) (columns : List String) : Except CompilerError Unit :=
  (pySorted columns).forM fun column =>
    let categories := sortedCategories (store.columnPiiTag table.text column).categories
    if categories = [] then .ok ()
    else .error (.piiBlocked (text column) categories categories anchorEntity)

/-- `min` and `max` return a row's value. -/
def refuseSampled (store : Store) (plan : MetricPlan) : Except CompilerError Unit :=
  if plan.metric.measure.agg = .min ∨ plan.metric.measure.agg = .max then
    refuseTagged store plan.metric.entity plan.anchorTable
      (fun column => "get_metric refused: agg=" ++ pyRepr plan.metric.measure.agg.word ++
        " on column " ++ pyRepr column ++ " samples row data — MIN/MAX over a PII-tagged " ++
        "column is row-level disclosure, not aggregation.")
      plan.metric.measure.measureColumns
  else .ok ()

/-- A group-by column's values are the group keys. -/
def refuseGrouped (store : Store) (plan : MetricPlan) : Except CompilerError Unit :=
  (ByTable.collect (plan.groupByColumns.map fun col => (col.qualifiedTable, col.column))).forM
    fun entry => refuseTagged store plan.metric.entity entry.1
      (fun column => "get_metric refused: group_by column " ++ pyRepr column ++ " projects " ++
        "its raw values into result rows — grouping by a PII-tagged column is row-level " ++
        "disclosure, not aggregation. Group by a non-PII column instead.")
      entry.2

/-! ## Touched columns -/

/-- The metric's own time dimension, read on the anchor's table. -/
def localTimeColumn (plan : MetricPlan) :
    Except CompilerError (List (QualifiedTable × String)) :=
  match plan.metric.timeDimension with
  | none => .ok []
  | some dimension =>
    if '.' ∈ dimension.toList then .ok [(plan.anchorTable, (splitDot dimension).2)]
    else .error (.malformedColumn ("metric.time_dimension must be '<entity>.<column>' form, " ++
      "got " ++ pyRepr dimension))

/-- `alias_to_table.get(alias, anchor_table)`, the latest entry first. -/
def tableOfAlias (anchorTable : QualifiedTable) (aliasToTable : List (String × QualifiedTable))
    (aliasName : String) : QualifiedTable :=
  ((aliasToTable.find? (·.1 = aliasName)).map (·.2)).getD anchorTable

/-- Both sides of the ON pairs, join after join. -/
def joinColumns (anchorTable : QualifiedTable) :
    List (String × QualifiedTable) → List ResolvedJoin → List (QualifiedTable × String)
  | _, [] => []
  | aliasToTable, join :: rest =>
    let sourceTable := tableOfAlias anchorTable aliasToTable join.sourceAlias
    (join.onPairs.flatMap fun p =>
      [(sourceTable, p.sourceColumn), (join.targetTable, p.targetColumn)]) ++
      joinColumns anchorTable ((join.targetAlias, join.targetTable) :: aliasToTable) rest

/-- The columns that the gate looks up, in the order it collects them. -/
def touchedColumns (plan : MetricPlan) (localTime : List (QualifiedTable × String)) :
    List (QualifiedTable × String) :=
  plan.metric.measure.measureColumns.map (plan.anchorTable, ·) ++ localTime ++
    plan.groupByColumns.map (fun col => (col.qualifiedTable, col.column)) ++
    plan.filterPredicates.map (fun p => (p.column.qualifiedTable, p.column.column)) ++
    joinColumns plan.anchorTable [(plan.anchorAlias, plan.anchorTable)] plan.joins

/-- `repr(list(categories))`. -/
def reprCategories (categories : List PiiCategory) : String :=
  pyReprList (categories.map (·.word))

/-- `effective_block`: the policy and the floor. -/
def effectiveBlock (piiBlock : List PiiCategory) : List PiiCategory :=
  piiBlock ∪ catastrophicLeakCategories

/-- The policy check on the tags of some columns. -/
def checkPolicy (store : Store) (anchorEntity : String) (piiBlock : List PiiCategory)
    (touched : List (QualifiedTable × String)) : Except CompilerError (List PiiCategory) :=
  let pairs := (ByTable.collect touched).pairs
  let totalHits := pairs.countP fun p => (store.getColumnPiiTag p.1.text p.2).isSome
  let propagated := (propagate (pairs.map fun p => store.columnPiiTag p.1.text p.2)).categories
  let blocked := propagated.filter (· ∈ effectiveBlock piiBlock)
  if totalHits = 0 ∧ piiBlock ≠ [] then
    .error (.piiBlocked ("get_metric refused: no PII tags available for any column touched and " ++
      "--pii-block enforcement is active (" ++ reprCategories (sortedCategories piiBlock) ++
      "). Run `schemabrain index` to classify columns, or set --pii-block='' to opt out of " ++
      "enforcement.") [] (sortedCategories piiBlock) anchorEntity)
  else if blocked ≠ [] then
    .error (.piiBlocked ("get_metric refused: metric touches PII categories " ++
      reprCategories (sortedCategories blocked) ++ " that this server policy blocks")
      (sortedCategories propagated) (sortedCategories blocked) anchorEntity)
  else .ok (sortedCategories propagated)

/-- `_resolve_pii_categories`. -/
def resolvePiiCategories (store : Store) (plan : MetricPlan) (piiBlock : List PiiCategory) :
    Except CompilerError (List PiiCategory) := do
  refuseSampled store plan
  refuseGrouped store plan
  let localTime ← localTimeColumn plan
  checkPolicy store plan.metric.entity piiBlock (touchedColumns plan localTime)

/-! ## The tool -/

/-- The `TimeGrain` of a boundary string. -/
def narrowGrain : Option String → Except CompilerError (Option TimeGrain)
  | none => .ok none
  | some word =>
    match TimeGrain.ofWord word with
    | some grain => .ok (some grain)
    | none => .error (.invalidTimeGrain word [])

/-- What a call has computed when it reaches `executor.execute`. -/
structure MetricCall where
  plan : MetricPlan
  piiCategories : List PiiCategory
  query : Query
  params : List (String × PyValue)

/-- The request that the resolver is given. -/
def GetMetricArgs.request (args : GetMetricArgs) (timeGrain : Option TimeGrain) :
    MetricRequest where
  metricName := args.name
  groupBy := args.groupBy
  filters := args.filters
  timeGrain := timeGrain
  timeDimension := args.timeDimension
  limit := args.limit
  via := args.via
  orderBy := args.orderBy

/-- `get_metric_impl` before `executor.execute`. -/
def prepareMetric (store : Store) (args : GetMetricArgs) : Except CompilerError MetricCall :=
  if minLimit ≤ args.limit ∧ args.limit ≤ maxLimit then do
    let timeGrain ← narrowGrain args.timeGrain
    let plan ← resolveMetricPlan store (args.request timeGrain)
    let piiCategories ← resolvePiiCategories store plan args.piiBlock
    let (query, params) ← emitSql plan
    return ⟨plan, piiCategories, query, params⟩
  else .error (.malformedColumn ("limit must be between " ++ toString minLimit ++ " and " ++
    toString maxLimit ++ ", got " ++ toString args.limit))

/-- The database behind the tool. -/
structure MetricExecutor (Rows : Type) where
  execute : String → List (String × PyValue) → Except CompilerError (List Rows)
  maxRows : Option Nat := none

/-- What the tool returns of a call. -/
structure MetricResult (Rows : Type) where
  rows : List Rows
  truncated : Bool
  sqlSkeleton : String
  requiredJoins : List String
  fanOutJoinNames : List String
  piiCategories : List PiiCategory
  timeDimensionResolution : TimeDimensionResolution
  inheritedTimeDimension : Option String
  timeDimensionInheritedVia : List String

/-- `get_metric_impl`. -/
def getMetricImpl {Rows : Type} (store : Store) (executor : MetricExecutor Rows)
    (args : GetMetricArgs) : Except CompilerError (MetricResult Rows) := do
  let call ← prepareMetric store args
  let rows ← executor.execute call.query.sql call.params
  let rowCap : Int := match executor.maxRows with
    | none => args.limit
    | some cap => min args.limit (cap : Int)
  return {
    rows := rows
    truncated := rowCap ≤ (rows.length : Int)
    sqlSkeleton := call.query.sql
    requiredJoins := call.plan.requiredJoinNames
    fanOutJoinNames := call.plan.fanOutJoinNames
    piiCategories := call.piiCategories
    timeDimensionResolution := call.plan.timeDimensionResolution
    inheritedTimeDimension := call.plan.inheritedTimeDimension
    timeDimensionInheritedVia := call.plan.timeDimensionInheritedVia }

/-! ## What the gate covers -/

/-- The stored tag of a column has no category that the policy or the floor blocks. -/
def Unblocked (store : Store) (piiBlock : List PiiCategory) (table : QualifiedTable)
    (column : String) : Prop :=
  ∀ category ∈ (store.columnPiiTag table.text column).categories,
    category ∉ effectiveBlock piiBlock

namespace ByTable

theorem mem_pairs_add {byTable : ByTable} {table : QualifiedTable} {column : String}
    {p : QualifiedTable × String} :
    p ∈ (byTable.add table column).pairs ↔ p = (table, column) ∨ p ∈ byTable.pairs := by
  induction byTable with
  | nil => simp [add, pairs]
  | cons entry byTable ih =>
    obtain ⟨key, columns⟩ := entry
    obtain ⟨table', column'⟩ := p
    rw [add]
    split
    · next hkey =>
      subst hkey
      simp only [pairs, List.flatMap_cons, List.mem_append, List.mem_map, List.mem_insert_iff,
        Prod.mk.injEq]
      constructor
      · rintro (⟨c, rfl | hc, rfl, rfl⟩ | hrest)
        · exact .inl ⟨rfl, rfl⟩
        · exact .inr (.inl ⟨_, hc, rfl, rfl⟩)
        · exact .inr (.inr hrest)
      · rintro (⟨rfl, rfl⟩ | ⟨c, hc, rfl, rfl⟩ | hrest)
        · exact .inl ⟨_, .inl rfl, rfl, rfl⟩
        · exact .inl ⟨_, .inr hc, rfl, rfl⟩
        · exact .inr hrest
    · have hstep : ∀ rest : ByTable, (table', column') ∈ pairs ((key, columns) :: rest) ↔
          (table', column') ∈ columns.map (fun c => (key, c)) ∨
            (table', column') ∈ rest.pairs := by
        intro rest
        rw [pairs, List.flatMap_cons, List.mem_append, pairs]
      rw [hstep, hstep, ih, or_left_comm]

/-- Collecting by table loses no column and adds none. -/
theorem mem_pairs_collect {touched : List (QualifiedTable × String)}
    {p : QualifiedTable × String} : p ∈ (collect touched).pairs ↔ p ∈ touched := by
  have hfold : ∀ byTable : ByTable,
      p ∈ (touched.foldl (fun byTable p => byTable.add p.1 p.2) byTable).pairs ↔
        p ∈ byTable.pairs ∨ p ∈ touched := by
    induction touched with
    | nil => simp
    | cons q touched ih =>
      intro byTable
      rw [List.foldl_cons, ih, mem_pairs_add, List.mem_cons, or_comm (a := p = (q.1, q.2)),
        or_assoc]
  rw [collect, hfold]
  simp [pairs]

end ByTable

theorem mem_propagate {tags : List ColumnPiiTag} {category : PiiCategory} :
    category ∈ (propagate tags).categories ↔ ∃ tag ∈ tags, category ∈ tag.categories := by
  have hfold : ∀ acc : ColumnPiiTag, category ∈ (tags.foldl (fun acc tag =>
      (⟨if tag.sensitivity.rank > acc.sensitivity.rank then tag.sensitivity else acc.sensitivity,
        acc.categories ∪ tag.categories⟩ : ColumnPiiTag)) acc).categories ↔
      category ∈ acc.categories ∨ ∃ tag ∈ tags, category ∈ tag.categories := by
    induction tags with
    | nil => simp
    | cons tag tags ih =>
      intro acc
      rw [List.foldl_cons, ih]
      simp only [List.mem_union_iff, List.mem_cons, exists_eq_or_imp, or_assoc]
  rw [propagate, hfold]
  simp [ColumnPiiTag.untagged]

/-- A policy check that passed leaves no touched column blocked. -/
theorem checkPolicy_ok {store : Store} {anchorEntity : String} {piiBlock : List PiiCategory}
    {touched : List (QualifiedTable × String)} {categories : List PiiCategory}
    (h : checkPolicy store anchorEntity piiBlock touched = .ok categories) :
    ∀ p ∈ touched, Unblocked store piiBlock p.1 p.2 := by
  unfold checkPolicy at h
  simp only at h
  split at h
  · simp at h
  · split at h
    · simp at h
    · next hblocked =>
      intro p hp category hcategory hblock
      rw [not_not, List.filter_eq_nil_iff] at hblocked
      refine hblocked category (mem_propagate.2 ?_) (decide_eq_true hblock)
      exact ⟨_, List.mem_map_of_mem (ByTable.mem_pairs_collect.2 hp), hcategory⟩

/-- A gate that passed leaves no touched column blocked. -/
theorem resolvePiiCategories_ok {store : Store} {plan : MetricPlan} {piiBlock : List PiiCategory}
    {categories : List PiiCategory}
    (h : resolvePiiCategories store plan piiBlock = .ok categories) :
    ∃ localTime, localTimeColumn plan = .ok localTime ∧
      ∀ p ∈ touchedColumns plan localTime, Unblocked store piiBlock p.1 p.2 := by
  obtain ⟨-, -, h⟩ := bind_eq_ok h
  obtain ⟨-, -, h⟩ := bind_eq_ok h
  obtain ⟨localTime, hlocal, h⟩ := bind_eq_ok h
  exact ⟨localTime, hlocal, checkPolicy_ok h⟩

end SchemaBrain.Mcp
