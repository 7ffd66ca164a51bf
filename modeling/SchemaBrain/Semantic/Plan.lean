import SchemaBrain.Base.Python
import SchemaBrain.Core.Model

/-!
# Compiler plans and errors

What the resolver produces and the emitter consumes, and the errors that a request can
end in, with their fields and texts.
-/

namespace SchemaBrain.Semantic

open Base Core

/-- `Operator`. -/
inductive Operator
  | eq
  | ne
  | lt
  | lte
  | gt
  | gte
  | in_
  | notIn
  | isNull
  | notNull
  deriving DecidableEq, Repr

namespace Operator

/-- The wire word of an operator. -/
def word : Operator → String
  | eq => "eq"
  | ne => "ne"
  | lt => "lt"
  | lte => "lte"
  | gt => "gt"
  | gte => "gte"
  | in_ => "in"
  | notIn => "not_in"
  | isNull => "is_null"
  | notNull => "not_null"

/-- `_UNARY_OPS`. -/
def isUnary : Operator → Bool
  | isNull | notNull => true
  | _ => false

/-- `_LIST_OPS`. -/
def isList : Operator → Bool
  | in_ | notIn => true
  | _ => false

end Operator

/-- `OrderDirection`. -/
inductive OrderDirection
  | asc
  | desc
  deriving DecidableEq, Repr

/-- The surface a column reference came from. -/
inductive ColumnValidationKind
  | groupBy
  | filter
  | measure
  deriving DecidableEq, Repr

/-- The word of a surface in messages. -/
def ColumnValidationKind.word : ColumnValidationKind → String
  | .groupBy => "group_by"
  | .filter => "filter"
  | .measure => "measure"

/-- One predicate the caller wants applied. -/
structure RequestedFilter where
  column : String
  op : Operator
  value : PyValue := .none

/-- One ORDER BY clause the caller wants. -/
structure RequestedOrderBy where
  column : String
  direction : OrderDirection := .asc
  deriving DecidableEq, Repr

/-- An ORDER BY clause over a SELECT alias. -/
structure ResolvedOrderBy where
  expression : String
  direction : OrderDirection
  autoAppendedTieBreak : Bool := false
  deriving DecidableEq, Repr

/-- A column reference resolved against the store. -/
structure ResolvedColumn where
  entity : String
  column : String
  qualifiedTable : QualifiedTable
  aliasName : String
  deriving DecidableEq, Repr

/-- A filter with the names of its placeholders. -/
structure ResolvedPredicate where
  column : ResolvedColumn
  op : Operator
  paramNames : List String
  value : PyValue

/-- One canonical join as the request walks it: the pairs read from the source alias to
the target alias, the cardinality in that direction. -/
structure ResolvedJoin where
  canonicalName : String
  sourceAlias : String
  targetEntity : String
  targetTable : QualifiedTable
  targetAlias : String
  onPairs : List JoinColumnPair
  cardinality : Option Cardinality
  deriving DecidableEq

/-- `ResolvedJoin.cardinality` multiplies the rows already joined. -/
def ResolvedJoin.fansOut (j : ResolvedJoin) : Bool :=
  j.cardinality = some .oneToMany || j.cardinality = some .manyToMany || j.cardinality = none

/-- Where the time bucket of a plan comes from. -/
inductive TimeDimensionResolution
  | local_
  | inherited
  | unavailable
  deriving DecidableEq, Repr

/-- The resolved plan of one metric request. -/
structure MetricPlan where
  metric : Metric
  anchorTable : QualifiedTable
  anchorAlias : String
  groupByColumns : List ResolvedColumn
  timeBucket : Option TimeGrain
  filterPredicates : List ResolvedPredicate
  limit : Int
  joins : List ResolvedJoin := []
  orderByClauses : List ResolvedOrderBy := []
  timeDimensionResolution : TimeDimensionResolution := .local_
  inheritedTimeDimension : Option String := none
  timeDimensionInheritedVia : List String := []

namespace MetricPlan

/-- `required_join_names`. -/
def requiredJoinNames (plan : MetricPlan) : List String := plan.joins.map (·.canonicalName)

/-- `fan_out_join_names`. -/
def fanOutJoinNames (plan : MetricPlan) : List String :=
  (plan.joins.filter (·.fansOut)).map (·.canonicalName)

end MetricPlan

/-! ## Errors -/

/-- The errors of the compiler and the gate. The last one stands for the `RuntimeError` and
`KeyError` of a broken store or plan. -/
inductive CompilerError
  | unknownMetric (text : String)
  | malformedColumn (text : String)
  | unknownColumn (text : String)
  | unknownGroupByColumn (entity column : String) (allowedColumns : List String)
  | unknownFilterColumn (entity column : String) (allowedColumns : List String)
  | unknownMeasureColumn (entity column : String) (allowedColumns : List String)
  | unreachableEntity (anchorEntity targetEntity : String)
  | ambiguousJoin (anchorEntity targetEntity : String) (candidateJoinNames : List String)
  | ambiguousPath (anchorEntity targetEntity : String) (candidatePaths : List (List String))
  | unknownViaJoin (anchorEntity targetEntity : String)
      (requestedVia availableJoinNames : List String)
  | invalidTimeGrain (requestedGrain : String) (allowedGrains : List TimeGrain)
  | ambiguousTimeDimension (anchorEntity : String) (candidates : List (String × List String))
  | unknownOrderByColumn (requestedColumn : String) (allowedColumns : List String)
  | piiBlocked (text : String) (attemptedCategories blockedCategories : List PiiCategory)
      (anchorEntity : String)
  | internal (text : String)
  deriving DecidableEq, Repr

namespace CompilerError

/-- ` (+n more)` past the first four. -/
private def more (n : Nat) : String :=
  if n > 4 then " (+" ++ toString (n - 4) ++ " more)" else ""

private def unknownOn (surface entity column : String) (allowed : List String) : String :=
  surface ++ " column " ++ pyRepr entity ++ "." ++ pyRepr column ++ " does not exist on entity " ++
    pyRepr entity ++ ". Allowed columns: " ++ pyReprList allowed

/-- `str(error)`. -/
def message : CompilerError → String
  | unknownMetric text | malformedColumn text | unknownColumn text | piiBlocked text _ _ _
  | internal text => text
  | unknownGroupByColumn entity column allowed => unknownOn "group_by" entity column allowed
  | unknownFilterColumn entity column allowed => unknownOn "filter" entity column allowed
  | unknownMeasureColumn entity column allowed => unknownOn "measure" entity column allowed
  | unreachableEntity anchor target =>
    "entity " ++ pyRepr target ++ " is not reachable from metric anchor " ++ pyRepr anchor ++
      "; no canonical join exists. Run `schemabrain joins suggest` to surface candidate joins."
  | ambiguousJoin anchor target names =>
    "multiple canonical joins exist between " ++ pyRepr anchor ++ " and " ++ pyRepr target ++
      ": " ++ pyReprList names ++ ". Pass `via=(" ++ pyRepr (names.headD "") ++
      ",)` (or another name from this list) to disambiguate."
  | ambiguousPath anchor target paths =>
    "multiple canonical-join paths exist from " ++ pyRepr anchor ++ " to " ++ pyRepr target ++
      ": [" ++ ", ".intercalate ((paths.take 4).map pyReprTuple) ++ "]" ++ more paths.length ++
      ". Pass `via=" ++ pyReprTuple (paths.headD []) ++
      "` (or another path's names) on `get_metric` to disambiguate."
  | unknownViaJoin anchor target via available =>
    "`via=" ++ pyReprList via ++ "` does not match any canonical-join path from " ++
      pyRepr anchor ++ " to " ++ pyRepr target ++ ". Available joins on candidate paths: " ++
      pyReprList available
  | invalidTimeGrain grain [] =>
    "time_grain " ++ pyRepr grain ++
      " was requested but this metric is non-temporal (no time_dimension declared)"
  | invalidTimeGrain grain allowed =>
    "time_grain " ++ pyRepr grain ++ " is not declared on this metric; allowed grains: " ++
      pyReprList (allowed.map (·.word))
  | ambiguousTimeDimension anchor candidates =>
    "metric anchored on " ++ pyRepr anchor ++ " has no `time_dimension` declared and multiple " ++
      "timestamp columns are reachable via canonical joins: " ++
      ", ".intercalate ((candidates.take 4).map fun c =>
        c.1 ++ " (via " ++ pyReprList c.2 ++ ")") ++
      more candidates.length ++ ". Pass `time_dimension=" ++
      pyRepr ((candidates.map (·.1)).headD "") ++
      "` (or another candidate) on `get_metric` to disambiguate."
  | unknownOrderByColumn requested allowed =>
    "order_by column " ++ pyRepr requested ++ " is not a selected column; ORDER BY may only " ++
      "reference the metric's name or one of the group_by columns. Allowed: " ++ pyReprList allowed

end CompilerError

end SchemaBrain.Semantic
