import SchemaBrain.Base.Relation
import SchemaBrain.Semantic.ResolvePlan

/-!
# The SQL emitter

`emit_sql`: the clauses of a plan's statement, its text and its parameters. The clauses
say which columns the text names and which rows its FROM and JOIN clauses range over.
-/

namespace SchemaBrain.Semantic

open Base Core

/-- A quoted identifier. -/
def quoted (name : String) : String := "\"" ++ name ++ "\""

/-- `_quote_qualified_table`. -/
def quoteQualifiedTable (q : QualifiedTable) : String := quoted q.schema ++ "." ++ quoted q.table

/-- A column under an alias, as the text names it. -/
structure ColumnRef where
  aliasName : String
  column : String
  deriving DecidableEq, Repr

/-- `"alias"."column"`. -/
def ColumnRef.sql (ref : ColumnRef) : String := quoted ref.aliasName ++ "." ++ quoted ref.column

/-- `column_ref` of a resolved column. -/
def ResolvedColumn.columnRef (col : ResolvedColumn) : ColumnRef := ⟨col.aliasName, col.column⟩

/-- `render_measure_expression`. -/
def renderMeasureExpression (anchorAlias : String) : MeasureExpr → String
  | .name id => ColumnRef.sql ⟨anchorAlias, id⟩
  | .int value => toString value
  | .float repr => repr.text
  | .binOp left op right =>
    "(" ++ renderMeasureExpression anchorAlias left ++ " " ++ op.sql ++ " " ++
      renderMeasureExpression anchorAlias right ++ ")"
  | .neg operand => "(-" ++ renderMeasureExpression anchorAlias operand ++ ")"

/-! ## Clauses -/

/-- One item of the SELECT list. -/
inductive SelectItem
  | timeBucket (grain : TimeGrain) (column : ColumnRef)
  | groupColumn (column : ColumnRef) (index : Nat)
  | measure (measure : MetricMeasure) (anchorAlias metricName : String)

namespace SelectItem

/-- The text of an item. -/
def sql : SelectItem → String
  | timeBucket grain column =>
    "date_trunc('" ++ grain.word ++ "', " ++ column.sql ++ ") AS time_bucket"
  | groupColumn column index => column.sql ++ " AS " ++ groupColAlias index
  | measure m anchorAlias metricName =>
    let ref := match m.ref with
      | .column name => ColumnRef.sql ⟨anchorAlias, name⟩
      | .expression ast => renderMeasureExpression anchorAlias ast
    (if m.agg = .countDistinct then "count(DISTINCT " ++ ref ++ ")"
      else m.agg.word ++ "(" ++ ref ++ ")") ++ " AS " ++ quoted metricName

/-- The columns that an item names. -/
def columns : SelectItem → List ColumnRef
  | timeBucket _ column => [column]
  | groupColumn column _ => [column]
  | measure m anchorAlias _ => m.ref.columns.map fun column => ⟨anchorAlias, column⟩

end SelectItem

/-- One JOIN clause with the two sides of its ON pairs. -/
structure JoinClause where
  table : QualifiedTable
  aliasName : String
  on : List (ColumnRef × ColumnRef)

namespace JoinClause

/-- The text of a clause. -/
def sql (clause : JoinClause) : String :=
  "JOIN " ++ quoteQualifiedTable clause.table ++ " AS " ++ quoted clause.aliasName ++ " ON " ++
    " AND ".intercalate (clause.on.map fun p => p.1.sql ++ " = " ++ p.2.sql)

/-- The columns that a clause names. -/
def columns (clause : JoinClause) : List ColumnRef := clause.on.flatMap fun p => [p.1, p.2]

/-- Whether the ON pairs hold of a tuple. -/
def holds {V : Type} [DecidableEq V] (clause : JoinClause) (t : Tuple V) : Bool :=
  clause.on.all fun p => sqlEq (t.value p.1.aliasName p.1.column) (t.value p.2.aliasName p.2.column)

end JoinClause

/-- The clause of a resolved join. -/
def ResolvedJoin.clause (join : ResolvedJoin) : JoinClause where
  table := join.targetTable
  aliasName := join.targetAlias
  on := join.onPairs.map fun p =>
    (⟨join.sourceAlias, p.sourceColumn⟩, ⟨join.targetAlias, p.targetColumn⟩)

/-- One predicate of the WHERE clause. -/
structure WhereClause where
  column : ColumnRef
  op : Operator
  paramNames : List String

/-- `_OP_TO_SQL`, and the words of the operators beside it. -/
def Operator.sql : Operator → String
  | .eq => "="
  | .ne => "<>"
  | .lt => "<"
  | .lte => "<="
  | .gt => ">"
  | .gte => ">="
  | .in_ => "IN"
  | .notIn => "NOT IN"
  | .isNull => "IS NULL"
  | .notNull => "IS NOT NULL"

/-- The text of a predicate. -/
def WhereClause.sql (clause : WhereClause) : String :=
  clause.column.sql ++ " " ++ clause.op.sql ++
    if clause.op.isUnary then ""
    else if clause.op.isList then
      " (" ++ ", ".intercalate (clause.paramNames.map (":" ++ ·)) ++ ")"
    else " :" ++ clause.paramNames.headD ""

/-- The parts of one SELECT statement. -/
structure Query where
  select : List SelectItem
  anchorTable : QualifiedTable
  anchorAlias : String
  joins : List JoinClause
  filters : List WhereClause
  groupBy : List String
  orderBy : List ResolvedOrderBy

/-- `direction.upper()`. -/
def OrderDirection.upper : OrderDirection → String
  | .asc => "ASC"
  | .desc => "DESC"

/-- A clause's keyword and its parts, or nothing when there are none. -/
def clauseText (keyword separator : String) (parts : List String) : List String :=
  if parts = [] then [] else [keyword ++ separator.intercalate parts]

namespace Query

/-- The lines of the text. A JOIN clause is one line, a SELECT item after the first starts
a new one. -/
def lines (q : Query) : List String :=
  ["SELECT " ++ ",\n       ".intercalate (q.select.map (·.sql)),
    "FROM " ++ quoteQualifiedTable q.anchorTable ++ " AS " ++ quoted q.anchorAlias] ++
  q.joins.map (·.sql) ++ clauseText "WHERE " " AND " (q.filters.map (·.sql)) ++
  clauseText "GROUP BY " ", " q.groupBy ++
  clauseText "ORDER BY " ", "
    (q.orderBy.map fun o => quoted o.expression ++ " " ++ o.direction.upper) ++
  ["LIMIT :p_limit"]

/-- `sql_text`. -/
def sql (q : Query) : String := "\n".intercalate q.lines

/-- The table columns that the text names, clause after clause. -/
def columns (q : Query) : List ColumnRef :=
  q.select.flatMap (·.columns) ++ q.joins.flatMap (·.columns) ++ q.filters.map (·.column)

/-- The aliases of the FROM and JOIN clauses with their tables. -/
def scope (q : Query) : List (String × QualifiedTable) :=
  (q.anchorAlias, q.anchorTable) :: q.joins.map fun clause => (clause.aliasName, clause.table)

/-- The text names the column of the table, under some alias of it. -/
def Mentions (q : Query) (table : QualifiedTable) (column : String) : Prop :=
  ∃ ref ∈ q.columns, ref.column = column ∧ (ref.aliasName, table) ∈ q.scope

section Relation

variable {V : Type} [DecidableEq V]

/-- The tuples of the FROM clause and some JOIN clauses after it. -/
def joinRows (rows : QualifiedTable → List (Row V)) (tuples : List (Tuple V))
    (joins : List JoinClause) : List (Tuple V) :=
  joins.foldl (fun tuples clause =>
    innerJoin tuples (scan clause.aliasName (rows clause.table)) clause.holds) tuples

/-- The relation that the FROM and JOIN clauses denote over an instance. -/
def relation (q : Query) (rows : QualifiedTable → List (Row V)) : List (Tuple V) :=
  joinRows rows ((scan q.anchorAlias (rows q.anchorTable)).map fun b => ⟨b, []⟩) q.joins

end Relation

end Query

/-! ## Emission -/

/-- The JOIN clauses, each over an alias introduced before it. -/
def emitJoins : List String → List ResolvedJoin → Except CompilerError (List JoinClause)
  | _, [] => .ok []
  | knownAliases, join :: rest =>
    if join.sourceAlias ∈ knownAliases then do
      let clauses ← emitJoins (knownAliases ++ [join.targetAlias]) rest
      return join.clause :: clauses
    else .error (.internal ("MetricPlan.joins is not topologically ordered: join " ++
      pyRepr join.canonicalName ++ " references source alias " ++ pyRepr join.sourceAlias ++
      " which has not yet been introduced. Known aliases at this point: " ++
      pyReprList (pySorted knownAliases.eraseDups) ++ ". This is a compiler-invariant " ++
      "violation, not an agent-input error."))

/-- `_emit_predicate`: the clause and the values of its placeholders. -/
def emitPredicate (predicate : ResolvedPredicate) :
    Except CompilerError (WhereClause × List (String × PyValue)) :=
  let clause : WhereClause := ⟨predicate.column.columnRef, predicate.op, predicate.paramNames⟩
  if predicate.op.isUnary then .ok (clause, [])
  else if predicate.op.isList then
    match predicate.paramNames, predicate.value with
    | [], _ => .ok (clause, [])
    | names, .list items =>
      if names.length ≤ items.length then .ok (clause, names.zip items)
      else .error (.internal "list index out of range")
    | _, value =>
      .error (.internal ("'" ++ value.typeName ++ "' object is not subscriptable"))
  else
    match predicate.paramNames with
    | name :: _ => .ok (clause, [(name, predicate.value)])
    | [] => .error (.internal "tuple index out of range")

/-- The time-bucket column: the inherited dimension's own alias, or the anchor's. -/
def bucketColumn (plan : MetricPlan) : Option ColumnRef :=
  match plan.inheritedTimeDimension, plan.metric.timeDimension with
  | some dimension, _ => some ⟨(splitDot dimension).1, (splitDot dimension).2⟩
  | none, some dimension => some ⟨plan.anchorAlias, (splitDot dimension).2⟩
  | none, none => none

/-- The time bucket of the SELECT list, if the plan has one. -/
def emitTimeBucket (plan : MetricPlan) : Except CompilerError (List SelectItem) :=
  match plan.timeBucket, bucketColumn plan with
  | none, _ => .ok []
  | some grain, some column => .ok [.timeBucket grain column]
  | some _, none => .error (.internal ("compiler invariant: time_bucket requires either " ++
      "metric.time_dimension or plan.inherited_time_dimension"))

/-- The clauses of a plan's statement, and the values of its placeholders. -/
def emitQuery (plan : MetricPlan) : Except CompilerError (Query × List (String × PyValue)) := do
  let bucket ← emitTimeBucket plan
  let joins ← emitJoins [plan.anchorAlias] plan.joins
  let filters ← plan.filterPredicates.mapM emitPredicate
  return ({
    select := bucket ++
      plan.groupByColumns.mapIdx (fun index col => .groupColumn col.columnRef index) ++
      [.measure plan.metric.measure plan.anchorAlias plan.metric.name]
    anchorTable := plan.anchorTable
    anchorAlias := plan.anchorAlias
    joins := joins
    filters := filters.map (·.1)
    groupBy := bucket.map (fun _ => "time_bucket") ++
      (List.range plan.groupByColumns.length).map groupColAlias
    orderBy := plan.orderByClauses }, filters.flatMap (·.2) ++ [("p_limit", .int plan.limit)])

/-- `emit_sql`: the statement, whose text is `sql`, and its parameters. -/
def emitSql (plan : MetricPlan) : Except CompilerError (Query × List (String × PyValue)) := do
  let (query, params) ← emitQuery plan
  if ';' ∈ query.sql.toList then
    .error (.internal ("compiler emitted SQL contains ';'; this violates the single-statement " ++
      "invariant. This is a compiler bug."))
  else return (query, params)

/-! ## Emitted plans -/

theorem emitJoins_ok {knownAliases : List String} {joins : List ResolvedJoin}
    {clauses : List JoinClause} (h : emitJoins knownAliases joins = .ok clauses) :
    clauses = joins.map (·.clause) := by
  induction joins generalizing knownAliases clauses with
  | nil => exact (Except.ok.inj h).symm
  | cons join joins ih =>
    unfold emitJoins at h
    split at h
    · obtain ⟨rest, hrest, h⟩ := bind_eq_ok h
      obtain rfl := Except.ok.inj h
      rw [ih hrest, List.map_cons]
    · simp at h

private theorem emitJoins_snoc {joins : List ResolvedJoin} {join : ResolvedJoin}
    {knownAliases : List String} (hearlier : ∃ clauses, emitJoins knownAliases joins = .ok clauses)
    (hsource : join.sourceAlias ∈ knownAliases ++ joins.map (·.targetAlias)) :
    ∃ clauses, emitJoins knownAliases (joins ++ [join]) = .ok clauses := by
  induction joins generalizing knownAliases with
  | nil =>
    rw [List.map_nil, List.append_nil] at hsource
    exact ⟨[join.clause], by simp [emitJoins, hsource, bind, Except.bind, pure, Except.pure]⟩
  | cons first joins ih =>
    obtain ⟨clauses, hearlier⟩ := hearlier
    unfold emitJoins at hearlier
    split at hearlier
    · next hknown =>
      obtain ⟨rest, hrest, -⟩ := bind_eq_ok hearlier
      obtain ⟨clauses', h⟩ : ∃ clauses', emitJoins (knownAliases ++ [first.targetAlias])
          (joins ++ [join]) = .ok clauses' := ih ⟨rest, hrest⟩ (by simpa using hsource)
      exact ⟨first.clause :: clauses', by
        simp [emitJoins, hknown, h, bind, Except.bind, pure, Except.pure]⟩
    · simp at hearlier

/-- Joins that introduce an alias before they use it are all emitted. -/
theorem Resolver.Scoped.emitJoins {anchor : String} {joins : List ResolvedJoin}
    (h : Resolver.Scoped anchor joins) :
    Semantic.emitJoins [anchor] joins = .ok (joins.map (·.clause)) := by
  have hok : ∃ clauses, Semantic.emitJoins [anchor] joins = .ok clauses := by
    induction h with
    | nil => exact ⟨[], rfl⟩
    | snoc _ hsource _ _ ih => exact emitJoins_snoc ih (by simpa using hsource)
  obtain ⟨clauses, hclauses⟩ := hok
  rw [hclauses, emitJoins_ok hclauses]

/-- The values that a filter binds, one for each of its placeholders. -/
def Operator.boundValues (op : Operator) (value : PyValue) : List PyValue :=
  if op.isUnary then []
  else if op.isList then
    match value with
    | .list items => items
    | _ => []
  else [value]

/-- The clause of a predicate. -/
def ResolvedPredicate.clause (p : ResolvedPredicate) : WhereClause :=
  ⟨p.column.columnRef, p.op, p.paramNames⟩

/-- The placeholders of a predicate with their values. -/
def ResolvedPredicate.params (p : ResolvedPredicate) : List (String × PyValue) :=
  p.paramNames.zip (p.op.boundValues p.value)

/-- A checked predicate is emitted over its own column. -/
theorem emitPredicate_of_ok {p : ResolvedPredicate} (h : PredicateOk p) :
    emitPredicate p = .ok (p.clause, p.params) := by
  obtain ⟨index, hcheck, hnames⟩ := h
  unfold emitPredicate ResolvedPredicate.params Operator.boundValues
  unfold checkOperatorValue at hcheck
  unfold paramNamesFor at hnames
  by_cases hunary : p.op.isUnary = true
  · simp [hunary, ResolvedPredicate.clause]
  · by_cases hlist : p.op.isList = true
    · simp only [hunary, hlist, if_true] at hcheck hnames ⊢
      cases hvalue : p.value with
      | list items =>
        rw [hvalue] at hnames
        have hlength : p.paramNames.length = items.length := by simp [hnames]
        cases hp : p.paramNames with
        | nil => simp [ResolvedPredicate.clause, hp]
        | cons name names => simp [ResolvedPredicate.clause, ← hp, hlength]
      | _ => simp [hvalue] at hcheck
    · simp only [hunary, hlist] at hnames ⊢
      simp [ResolvedPredicate.clause, hnames]

/-- The clauses of an emitted plan. -/
structure Emitted (plan : MetricPlan) (q : Query) : Prop where
  select_eq : ∃ bucket, emitTimeBucket plan = .ok bucket ∧ q.select = bucket ++
    plan.groupByColumns.mapIdx (fun index col => .groupColumn col.columnRef index) ++
    [.measure plan.metric.measure plan.anchorAlias plan.metric.name]
  anchorTable_eq : q.anchorTable = plan.anchorTable
  anchorAlias_eq : q.anchorAlias = plan.anchorAlias
  joins_eq : q.joins = plan.joins.map (·.clause)
  filters_eq : q.filters = plan.filterPredicates.map (·.clause)
  groupBy_eq : ∃ bucket, emitTimeBucket plan = .ok bucket ∧ q.groupBy =
    bucket.map (fun _ => "time_bucket") ++
      (List.range plan.groupByColumns.length).map groupColAlias
  orderBy_eq : q.orderBy = plan.orderByClauses

private theorem emitPredicate_clause {p : ResolvedPredicate}
    {clause : WhereClause × List (String × PyValue)} (h : emitPredicate p = .ok clause) :
    clause.1 = p.clause := by
  unfold emitPredicate at h
  split at h
  · exact Except.ok.inj h ▸ rfl
  · split at h
    · split at h
      · exact Except.ok.inj h ▸ rfl
      · split at h
        · exact Except.ok.inj h ▸ rfl
        · simp at h
      · simp at h
    · split at h
      · exact Except.ok.inj h ▸ rfl
      · simp at h

/-- An emitted statement has the plan's clauses. -/
theorem emitQuery_ok {plan : MetricPlan} {q : Query} {params : List (String × PyValue)}
    (h : emitQuery plan = .ok (q, params)) : Emitted plan q := by
  obtain ⟨bucket, hbucket, h⟩ := bind_eq_ok h
  obtain ⟨clauses, hclauses, h⟩ := bind_eq_ok h
  obtain ⟨filters, hfilters, h⟩ := bind_eq_ok h
  obtain ⟨rfl, -⟩ := Prod.mk.inj (Except.ok.inj h)
  refine ⟨⟨bucket, hbucket, rfl⟩, rfl, rfl, emitJoins_ok hclauses, ?_, ⟨bucket, hbucket, rfl⟩, rfl⟩
  have hpairs : List.Forall₂ (fun (p : ResolvedPredicate) (c : WhereClause × _) => p.clause = c.1)
      plan.filterPredicates filters :=
    (mapM_eq_ok hfilters).imp fun _ _ h => (emitPredicate_clause h).symm
  symm
  exact List.forall₂_eq_eq_eq ▸ List.forall₂_map_left_iff.2 (List.forall₂_map_right_iff.2 hpairs)

/-- The bucket of the SELECT list is empty, or the plan's grain over its column. -/
theorem emitTimeBucket_ok {plan : MetricPlan} {bucket : List SelectItem}
    (h : emitTimeBucket plan = .ok bucket) :
    (bucket = [] ∧ plan.timeBucket = none) ∨
      ∃ grain ref, bucket = [.timeBucket grain ref] ∧ plan.timeBucket = some grain ∧
        bucketColumn plan = some ref := by
  unfold emitTimeBucket at h
  split at h
  · next hgrain => exact .inl ⟨(Except.ok.inj h).symm, hgrain⟩
  · next grain column hgrain hcolumn =>
    exact .inr ⟨grain, column, (Except.ok.inj h).symm, hgrain, hcolumn⟩
  · simp at h

/-- The time bucket of a resolved plan has a column. -/
theorem exists_emitTimeBucket {r : Resolver} {req : MetricRequest} {plan : MetricPlan}
    (h : r.PlanOf req plan) : ∃ bucket, emitTimeBucket plan = .ok bucket := by
  unfold emitTimeBucket bucketColumn
  rw [h.metric_eq]
  cases h.time with
  | local_ hneeds _ hdimension hbucket =>
    rw [hdimension, hbucket]
    cases hgrain : req.timeGrain with
    | none => exact ⟨[], rfl⟩
    | some grain =>
      cases htime : r.metric.timeDimension with
      | none => simp [needsInheritance, hgrain, htime] at hneeds
      | some dimension => exact ⟨_, rfl⟩
  | unavailable _ _ _ _ hbucket => exact ⟨[], by rw [hbucket]⟩
  | inherited candidate _ _ _ hdimension _ hbucket =>
    rw [hdimension, hbucket]
    cases hgrain : req.timeGrain with
    | none => exact ⟨[], rfl⟩
    | some grain => exact ⟨_, rfl⟩

/-- A statement whose lines have no semicolon passes the last check. -/
theorem emitSql_of_lines {plan : MetricPlan} {q : Query} {params : List (String × PyValue)}
    (h : emitQuery plan = .ok (q, params)) (hlines : ∀ line ∈ q.lines, ';' ∉ line.toList) :
    emitSql plan = .ok (q, params) := by
  have hsql : ';' ∉ q.sql.toList := by
    intro hmem
    rcases mem_toList_intercalate hmem with hsep | ⟨line, hline, hmem⟩
    · exact absurd hsep (by decide)
    · exact hlines line hline hmem
  rw [emitSql, h]
  simp [bind, Except.bind, hsql, pure, Except.pure]

/-- The last check changes nothing. -/
theorem emitQuery_of_emitSql {plan : MetricPlan} {q : Query} {params : List (String × PyValue)}
    (h : emitSql plan = .ok (q, params)) : emitQuery plan = .ok (q, params) := by
  obtain ⟨⟨query, params'⟩, hemit, h⟩ := bind_eq_ok h
  simp only at h
  by_cases hsemicolon : ';' ∈ query.sql.toList
  · rw [if_pos hsemicolon] at h
    simp only [reduceCtorEq] at h
  · rw [if_neg hsemicolon] at h
    exact hemit.trans h

/-- The parameters of a plan: those of its predicates, then the limit. -/
def MetricPlan.params (plan : MetricPlan) : List (String × PyValue) :=
  plan.filterPredicates.flatMap (·.params) ++ [("p_limit", .int plan.limit)]

/-- Every plan of a request has a statement, with the plan's parameters. -/
theorem Resolver.PlanOf.emitQuery {r : Resolver} {req : MetricRequest} {plan : MetricPlan}
    (h : r.PlanOf req plan) : ∃ q, Semantic.emitQuery plan = .ok (q, plan.params) := by
  obtain ⟨bucket, hbucket⟩ := exists_emitTimeBucket h
  have hjoins := h.joins_of.well_scoped.emitJoins
  rw [← h.anchorAlias_eq] at hjoins
  have hfilters : plan.filterPredicates.mapM emitPredicate =
      .ok (plan.filterPredicates.map fun p => (p.clause, p.params)) :=
    mapM_of_ok fun p hp => emitPredicate_of_ok (h.predicates_ok p hp)
  have hparams : (plan.filterPredicates.map fun p => (p.clause, p.params)).flatMap (·.2) ++
      [("p_limit", PyValue.int plan.limit)] = plan.params := by
    rw [List.flatMap_map, MetricPlan.params]
  unfold Semantic.emitQuery
  rw [hbucket, hjoins, hfilters]
  exact ⟨_, congrArg (fun params => Except.ok (_, params)) hparams⟩

/-- Every plan that resolved has a statement. -/
theorem exists_emitQuery {store : Store} {req : MetricRequest} {plan : MetricPlan}
    (h : resolveMetricPlan store req = .ok plan) :
    ∃ q params, emitQuery plan = .ok (q, params) := by
  obtain ⟨r, -, -, -, -, -, hplan⟩ := resolveMetricPlan_ok h
  obtain ⟨q, hq⟩ := hplan.emitQuery
  exact ⟨q, _, hq⟩

end SchemaBrain.Semantic
