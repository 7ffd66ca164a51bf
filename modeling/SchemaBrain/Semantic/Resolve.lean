import SchemaBrain.Semantic.Inherit

/-!
# The metric resolver

`resolve_metric_plan`: columns resolved one after another against a growing list of
joins. The joins after a list of references are those of the chains to their entities,
whatever the order.
-/

namespace SchemaBrain.Semantic

open Base Core

/-- `_MAX_METRIC_NAME_ECHO`. -/
def maxMetricNameEcho : Nat := 200

/-- The arguments of one request. -/
structure MetricRequest where
  metricName : String
  groupBy : List String := []
  filters : List RequestedFilter := []
  timeGrain : Option TimeGrain := none
  timeDimension : Option String := none
  limit : Int := 1000
  via : List String := []
  orderBy : List RequestedOrderBy := []

/-- `_alias_for`. -/
def aliasFor (entityName : String) : String := entityName

/-- `_lookup_anchor_table`. -/
def lookupAnchorTable (store : Store) (entityName : String) :
    Except CompilerError QualifiedTable :=
  match store.getEntity entityName with
  | some entity => .ok entity.binding
  | none => .error (.internal ("store corruption: metric anchor or join target " ++
      pyRepr entityName ++ " is referenced but the `entities` row is missing"))

/-- `_lookup_optional_table`. -/
def lookupOptionalTable (store : Store) (entityName : String) : Option QualifiedTable :=
  (store.getEntity entityName).map (·.binding)

/-- `_columns_on`. -/
def columnsOn (store : Store) (q : QualifiedTable) : Except CompilerError (List String) :=
  match store.getTable q with
  | some table => .ok (table.columns.map (·.name))
  | none => .error (.internal ("store corruption: entity references table " ++ pyRepr q.text ++
      " but the `tables` row is missing"))

/-- `_validate_column_on_table`. -/
def validateColumnOnTable (store : Store) (entity column : String) (q : QualifiedTable)
    (kind : ColumnValidationKind) : Except CompilerError Unit := do
  let allowed ← columnsOn store q
  if column ∈ allowed then .ok ()
  else
    let sortedAllowed := pySorted allowed.eraseDups
    .error (match kind with
      | .groupBy => .unknownGroupByColumn entity column sortedAllowed
      | .filter => .unknownFilterColumn entity column sortedAllowed
      | .measure => .unknownMeasureColumn entity column sortedAllowed)

/-- `_check_time_grain`. -/
def checkTimeGrain (metric : Metric) (timeGrain : Option TimeGrain) : Except CompilerError Unit :=
  match timeGrain with
  | none => .ok ()
  | some grain =>
    if metric.timeGrains = [] then .error (.invalidTimeGrain grain.word [])
    else if grain ∈ metric.timeGrains then .ok ()
    else .error (.invalidTimeGrain grain.word metric.timeGrains)

/-- The start of a `_check_operator_value` message. -/
private def filterText (op : Operator) (index : Nat) : String :=
  "filter[" ++ toString index ++ "] operator " ++ pyRepr op.word

/-- `_check_operator_value`. -/
def checkOperatorValue (op : Operator) (value : PyValue) (index : Nat) :
    Except CompilerError Unit :=
  if op.isUnary then
    match value with
    | .none => .ok ()
    | value => .error (.malformedColumn (filterText op index ++
        " is unary; value must be omitted (got " ++ value.repr ++ ")"))
  else if op.isList then
    match value with
    | .list [] => .error (.malformedColumn (filterText op index ++
        " requires a non-empty list value"))
    | .list _ => .ok ()
    | value => .error (.malformedColumn (filterText op index ++ " expects a list value (got " ++
        value.typeName ++ ": " ++ value.repr ++ ")"))
  else
    match value with
    | .none => .error (.malformedColumn (filterText op index ++
        " requires a non-null value; use 'is_null' for null checks"))
    | .list items => .error (.malformedColumn (filterText op index ++
        " requires a scalar value (got list: " ++ (PyValue.list items).repr ++
        "); use 'in' / 'not_in' for list values"))
    | _ => .ok ()

/-- `_param_names_for`. -/
def paramNamesFor (op : Operator) (index : Nat) (value : PyValue) : List String :=
  if op.isUnary then []
  else if op.isList then
    match value with
    | .list items => (List.range items.length).map fun j =>
        "p_filter_" ++ toString index ++ "_" ++ toString j
    | _ => []
  else ["p_filter_" ++ toString index]

/-! ## Columns -/

/-- What the closures of one request capture. The join graph is read from the store on
first use; nothing changes it in between. -/
structure Resolver where
  store : Store
  metric : Metric
  anchorTable : QualifiedTable
  via : List String

namespace Resolver

variable (r : Resolver)

/-- `_ensure_graph`. -/
def graph : JoinGraph := buildJoinGraph r.store.listCanonicalJoins

/-- `resolved_joins.get(entity)`. -/
def lookupJoin (joins : List ResolvedJoin) (entity : String) : Option ResolvedJoin :=
  joins.find? (·.targetEntity = entity)

/-- The alias on the left side of a new join. -/
def sourceAliasOf (joins : List ResolvedJoin) (predecessor : String) :
    Except CompilerError String :=
  if predecessor = r.metric.entity then .ok (aliasFor r.metric.entity)
  else match lookupJoin joins predecessor with
    | some join => .ok join.targetAlias
    | none => .error (.internal (pyRepr predecessor))

/-- One hop of a chain: an entity joined before is reused. -/
def addLink (joins : List ResolvedJoin) (link : String × ChainEdge) :
    Except CompilerError (List ResolvedJoin) :=
  match lookupJoin joins link.2.targetEntityInChain with
  | some _ => .ok joins
  | none => do
    let targetTable ← lookupAnchorTable r.store link.2.targetEntityInChain
    let sourceAlias ← r.sourceAliasOf joins link.1
    return joins ++ [{
      canonicalName := link.2.join.name
      sourceAlias := sourceAlias
      targetEntity := link.2.targetEntityInChain
      targetTable := targetTable
      targetAlias := aliasFor link.2.targetEntityInChain
      onPairs := link.2.onPairsInChainDirection
      cardinality := if link.2.isReverseTraversal then flipCardinality link.2.join.cardinality
        else link.2.join.cardinality }]

/-- `_resolve`: the column and the joins after it. -/
def resolveColumn (joins : List ResolvedJoin) (columnRef : String)
    (kind : ColumnValidationKind) : Except CompilerError (ResolvedColumn × List ResolvedJoin) :=
  match parseQualifiedColumn columnRef with
  | none => .error (.malformedColumn (kind.word ++ " column " ++ pyRepr columnRef ++
      " must be in 'entity.column' form (e.g. 'order.created_at')"))
  | some (entity, column) =>
    if entity = r.metric.entity then do
      validateColumnOnTable r.store entity column r.anchorTable kind
      return (⟨entity, column, r.anchorTable, aliasFor r.metric.entity⟩, joins)
    else match lookupJoin joins entity with
      | some join => do
        validateColumnOnTable r.store entity column join.targetTable kind
        return (⟨entity, column, join.targetTable, join.targetAlias⟩, joins)
      | none => match lookupOptionalTable r.store entity with
        | none => .error (.unknownColumn (kind.word ++ " column " ++ pyRepr columnRef ++
            " references entity " ++ pyRepr entity ++ " which is not defined for this source"))
        | some _ => do
          let (chain, _) ← findCanonicalChain r.graph r.metric.entity entity r.via
          let joins ← chain.foldlM r.addLink joins
          match lookupJoin joins entity with
          | none => .error (.internal (pyRepr entity))
          | some join => do
            validateColumnOnTable r.store entity column join.targetTable kind
            return (⟨entity, column, join.targetTable, join.targetAlias⟩, joins)

/-- `group_by_resolved.setdefault((entity, column), col)`. -/
def setDefault (cols : List ResolvedColumn) (col : ResolvedColumn) : List ResolvedColumn :=
  if cols.any fun c => c.entity = col.entity && c.column = col.column then cols
  else cols ++ [col]

/-- The group-by columns in order, each once, and the joins after them. -/
def resolveGroupBy : List String → List ResolvedColumn → List ResolvedJoin →
    Except CompilerError (List ResolvedColumn × List ResolvedJoin)
  | [], cols, joins => .ok (cols, joins)
  | ref :: rest, cols, joins => do
    let (col, joins) ← r.resolveColumn joins ref .groupBy
    resolveGroupBy rest (setDefault cols col) joins

/-- The filter predicates from an index on, and the joins after them. -/
def resolveFilters : Nat → List RequestedFilter → List ResolvedJoin →
    Except CompilerError (List ResolvedPredicate × List ResolvedJoin)
  | _, [], joins => .ok ([], joins)
  | index, requested :: rest, joins => do
    let (col, joins) ← r.resolveColumn joins requested.column .filter
    checkOperatorValue requested.op requested.value index
    let (predicates, joins) ← resolveFilters (index + 1) rest joins
    return (⟨col, requested.op, paramNamesFor requested.op index requested.value,
      requested.value⟩ :: predicates, joins)

/-- The measure's columns, checked in ascending order. -/
def validateMeasure : Except CompilerError Unit :=
  (pySorted r.metric.measure.measureColumns).forM fun column =>
    validateColumnOnTable r.store r.metric.entity column r.anchorTable .measure

end Resolver

/-! ## Order and time -/

/-- `group_col_N`. -/
def groupColAlias (index : Nat) : String := "group_col_" ++ toString index

/-- The `entity.column` text of a resolved column. -/
def ResolvedColumn.ref (col : ResolvedColumn) : String := col.entity ++ "." ++ col.column

/-- `alias_by_request`, in insertion order. -/
def aliasByRequest (metricName : String) (groupBy : List ResolvedColumn) :
    List (String × String) :=
  (metricName, metricName) :: groupBy.mapIdx fun index col => (col.ref, groupColAlias index)

/-- The requested clauses whose alias is new, in order. -/
def resolveClauses (aliases : List (String × String)) :
    List RequestedOrderBy → List String → Except CompilerError (List ResolvedOrderBy)
  | [], _ => .ok []
  | requested :: rest, seen =>
    match aliases.find? (·.1 = requested.column) with
    | none => .error (.unknownOrderByColumn requested.column (aliases.map (·.1)))
    | some (_, name) =>
      if name ∈ seen then resolveClauses aliases rest seen
      else do
        let clauses ← resolveClauses aliases rest (name :: seen)
        return ⟨name, requested.direction, false⟩ :: clauses

/-- The first group column that no clause orders by. -/
def tieBreak (groupBy : List ResolvedColumn) (clauses : List ResolvedOrderBy) :
    List ResolvedOrderBy :=
  if clauses ≠ [] ∧ groupBy ≠ [] then
    match ((List.range groupBy.length).map groupColAlias).find?
        (· ∉ clauses.map (·.expression)) with
    | some name => [⟨name, .asc, true⟩]
    | none => []
  else []

/-- The ORDER BY clauses: the requested ones or every group column, then the tie break. -/
def resolveOrderBy (metricName : String) (groupBy : List ResolvedColumn)
    (orderBy : List RequestedOrderBy) : Except CompilerError (List ResolvedOrderBy) := do
  let requested :=
    if orderBy = [] ∧ groupBy ≠ [] then groupBy.map fun col => ⟨col.ref, .asc⟩ else orderBy
  let clauses ← resolveClauses (aliasByRequest metricName groupBy) requested []
  return clauses ++ tieBreak groupBy clauses

/-- The candidates left after the caller's `time_dimension`, which must leave exactly one
to count. -/
def narrowCandidates (timeDimension : Option String) (candidates : List (String × List String)) :
    List (String × List String) :=
  match timeDimension with
  | none => candidates
  | some dimension =>
    match candidates.filter (·.1 = dimension) with
    | [candidate] => [candidate]
    | _ => candidates

/-- The time dimension that a metric without one inherits, if there is a candidate. -/
def inheritedCandidate (store : Store) (metric : Metric) (timeDimension : Option String) :
    Except CompilerError (Option (String × List String)) :=
  match narrowCandidates timeDimension (findInheritedTimeDimension store
      (buildJoinGraph store.listCanonicalJoins) metric.entity) with
  | [] => .ok none
  | [candidate] => .ok (some candidate)
  | candidates => .error (.ambiguousTimeDimension metric.entity candidates)

/-- A request for a grain on a metric that declares no time dimension. -/
def needsInheritance (metric : Metric) (req : MetricRequest) : Bool :=
  metric.timeDimension.isNone && req.timeGrain.isSome

/-- How a plan buckets by time. -/
structure TimeBucket where
  joins : List ResolvedJoin
  resolution : TimeDimensionResolution
  dimension : Option String
  via : List String
  bucket : Option TimeGrain

/-- The time-dimension step: an inherited dimension is resolved like a group-by column, for
its joins alone. -/
def Resolver.resolveTimeBucket (r : Resolver) (req : MetricRequest) (joins : List ResolvedJoin) :
    Except CompilerError TimeBucket :=
  if needsInheritance r.metric req then do
    match ← inheritedCandidate r.store r.metric req.timeDimension with
    | some (dimension, via) => do
      let (_, joins) ← r.resolveColumn joins dimension .groupBy
      return ⟨joins, .inherited, some dimension, via, req.timeGrain⟩
    | none => return ⟨joins, .unavailable, none, [], none⟩
  else .ok ⟨joins, .local_, none, [], req.timeGrain⟩

/-- The grain of a metric that declares its time dimension. -/
def checkDeclaredGrain (metric : Metric) (timeGrain : Option TimeGrain) :
    Except CompilerError Unit :=
  if metric.timeDimension.isSome then checkTimeGrain metric timeGrain else .ok ()

/-- `resolve_metric_plan`. -/
def resolveMetricPlan (store : Store) (req : MetricRequest) : Except CompilerError MetricPlan :=
  match store.getMetric req.metricName with
  | none =>
    let echoed :=
      if req.metricName.length ≤ maxMetricNameEcho then req.metricName
      else String.ofList (req.metricName.toList.take maxMetricNameEcho) ++ "..."
    .error (.unknownMetric ("metric " ++ pyRepr echoed ++ " is not defined for this source; " ++
      "run `schemabrain metrics list` to see available metrics."))
  | some metric => do
    checkDeclaredGrain metric req.timeGrain
    let anchorTable ← lookupAnchorTable store metric.entity
    let r : Resolver := ⟨store, metric, anchorTable, req.via⟩
    r.validateMeasure
    let (groupBy, joins) ← r.resolveGroupBy req.groupBy [] []
    let (predicates, joins) ← r.resolveFilters 0 req.filters joins
    let clauses ← resolveOrderBy metric.name groupBy req.orderBy
    let time ← r.resolveTimeBucket req joins
    return {
      metric := metric
      anchorTable := anchorTable
      anchorAlias := aliasFor metric.entity
      groupByColumns := groupBy
      timeBucket := time.bucket
      filterPredicates := predicates
      limit := req.limit
      joins := time.joins
      orderByClauses := clauses
      timeDimensionResolution := time.resolution
      inheritedTimeDimension := time.dimension
      timeDimensionInheritedVia := time.via }

end SchemaBrain.Semantic
