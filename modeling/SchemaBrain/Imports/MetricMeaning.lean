import SchemaBrain.Imports.DbtMetrics

/-!
# What an imported metric computes

The aggregate that dbt computes for a simple metric, the aggregate of the `Metric` that the import
makes of it, and when the two are the same: the import reads neither the filters of a metric, nor
the time dimension of its measure, nor the column of a dimension.
-/

namespace SchemaBrain.Imports

open Base Core

/-- An aggregate over the rows of a table that satisfy a condition. -/
structure Aggregate (Row : Type) where
  table : QualifiedTable
  rows : Row → Prop
  agg : AggFunction
  column : String
  timeColumn : Option String

/-! ## The aggregate of a dbt metric -/

/-- The table of a semantic model's own model. -/
def relationTable (model : List (String × PyValue)) : Option QualifiedTable :=
  let relation := (fieldOf model "node_relation").mapping
  match (fieldOf relation "schema_name").text?, (fieldOf relation "alias").text? with
  | some schema, some table => some ⟨schema, table⟩
  | _, _ => none

/-- The aggregations of dbt that have a counterpart. -/
def dbtAgg : String → Option AggFunction
  | "sum" => some .sum
  | "count" => some .count
  | "count_distinct" => some .countDistinct
  | "average" => some .avg
  | "min" => some .min
  | "max" => some .max
  | _ => none

/-- The column of a measure or of a dimension: its `expr` if given, its name otherwise. -/
def columnOf (fields : List (String × PyValue)) : Option String :=
  ((fieldOf fields "expr").orElse (fieldOf fields "name")).text?

/-- The filters of a metric: its own, and the one on its measure. -/
def metricFilters (fields : List (String × PyValue)) : List PyValue :=
  [fieldOf fields "filter", fieldOf ((measureRef fields).getD []) "filter"].filter PyValue.truthy

/-- The name of the time dimension of a measure: its own, or the default of the model. -/
def aggTimeDimension (model measure : List (String × PyValue)) : PyValue :=
  (fieldOf measure "agg_time_dimension").orElse
    (fieldOf (fieldOf model "defaults").mapping "agg_time_dimension")

/-- The dimension of a name. -/
def dimensionNamed (model : List (String × PyValue)) (dimName : String) :
    Option (List (String × PyValue)) :=
  (fieldOf model "dimensions").listed.findSome? fun dim =>
    dim.members?.filter fun fields => (fieldOf fields "name").text? = some dimName

/-- The column on which a measure is bucketed. -/
def measureTime (model measure : List (String × PyValue)) : Option String :=
  (aggTimeDimension model measure).text?.bind fun dimName =>
    (dimensionNamed model dimName).bind columnOf

/-- The measure of a semantic model has the name that the node refers to. -/
def Declares (semanticModels fields model measure : List (String × PyValue)) : Prop :=
  ∃ ref measureName, measureRef fields = some ref ∧
    (measureNameOf ref).text? = some measureName ∧
    ∃ item ∈ semanticModels, item.2.members? = some model ∧
      ∃ value ∈ (fieldOf model "measures").listed, value.members? = some measure ∧
        (fieldOf measure "name").text? = some measureName

section Meaning

variable {Row : Type} (holds : PyValue → Row → Prop) (tableOf : String → Option QualifiedTable)

/-- What dbt computes for a metric of a measure. -/
def dbtAggregate (fields model measure : List (String × PyValue)) : Option (Aggregate Row) := do
  let table ← relationTable model
  let agg ← (fieldOf measure "agg").text?.bind dbtAgg
  let column ← columnOf measure
  return {
    table := table
    rows := fun row => ∀ filter ∈ metricFilters fields, holds filter row
    agg := agg
    column := column
    timeColumn := measureTime model measure }

/-- The column part of a time dimension on the anchor of the metric. -/
def timeColumn (m : Metric) : Option String :=
  ((m.timeDimension.bind parseQualifiedColumn).filter (·.1 = m.entity)).map (·.2)

/-- What a metric computes: every row of the table of its anchor counts. -/
def metricAggregate (m : Metric) : Option (Aggregate Row) :=
  match m.measure.ref with
  | .column column => (tableOf m.entity).map fun table => {
      table := table
      rows := fun _ => True
      agg := m.measure.agg
      column := column
      timeColumn := timeColumn m }
  | .expression _ => none

/-- The metric computes what dbt computes for every measure of the name in the node. -/
def Computes (semanticModels fields : List (String × PyValue)) (m : Metric) : Prop :=
  ∃ aggregate, metricAggregate tableOf m = some aggregate ∧
    ∀ model measure, Declares semanticModels fields model measure →
      dbtAggregate holds fields model measure = some aggregate

variable (P : MeasureExpressions) (raw : PyValue) (path : String)
  (importedEntityNames : List String)

/-- The import returns, and its loop makes this metric of the node. -/
def ImportsAs (metricNode : PyValue) (m : ImportedMetric) : Prop :=
  Returns (parseDbtMetrics P raw path importedEntityNames) ∧
    ∃ index, buildMeasureIndex (sectionOf raw "semantic_models").mapping = .ok index ∧
      mapOneMetric P metricNode index importedEntityNames = .ok (.inl m)

/-- Every imported metric computes what dbt computes for its node. -/
def ImportsFaithfully : Prop :=
  ∀ item ∈ (sectionOf raw "metrics").mapping, ∀ fields m, item.2.members? = some fields →
    ImportsAs P raw path importedEntityNames item.2 m →
    Computes holds tableOf (sectionOf raw "semantic_models").mapping fields m.metric

/-- A measure of the name in the node is the one that the import takes, on the table of the anchor
and its first time dimension, and no filter leaves out a row. -/
structure Agrees (fields model measure : List (String × PyValue)) (binding : MeasureBinding)
    (anchor : String) : Prop where
  table : ∃ table, tableOf anchor = some table ∧ relationTable model = some table
  rows : ∀ filter ∈ metricFilters fields, ∀ row, holds filter row
  agg : (fieldOf measure "agg").text? = some binding.agg
  column : columnOf measure = some binding.expr
  time : measureTime model measure = (usedTime binding.semanticModel).map (·.1)

/-- The manifest is accepted, and the import gets through it. -/
structure ManifestReads : Prop where
  version : checkSchemaVersion raw path = .ok ()
  metrics : (sectionOf raw "metrics").isMapping = true
  semanticModels : (sectionOf raw "semantic_models").isMapping = true
  measures : MeasuresRead (sectionOf raw "semantic_models").mapping
  nodes : ∀ item ∈ (sectionOf raw "metrics").mapping,
    NodeReads (sectionOf raw "semantic_models").mapping importedEntityNames item.2

/-- Every measure of a name in a node that is imported agrees with the metric. -/
def NodesAgree : Prop :=
  ∀ item ∈ (sectionOf raw "metrics").mapping, ∀ fields binding anchor,
    item.2.members? = some fields →
    Anchored (sectionOf raw "semantic_models").mapping fields importedEntityNames binding anchor →
    ∀ model measure, Declares (sectionOf raw "semantic_models").mapping fields model measure →
      Agrees holds tableOf fields model measure binding anchor

end Meaning

/-! ## One metric -/

section One

variable {Row : Type} {holds : PyValue → Row → Prop} {tableOf : String → Option QualifiedTable}
  {fields model measure : List (String × PyValue)} {name : PyValue} {binding : MeasureBinding}
  {importedEntityNames : List String} {m : Metric} {semanticModels : List (String × PyValue)}

private theorem lookup_aggMap (s : String) : aggMap.lookup s = dbtAgg s := by
  unfold dbtAgg
  split
  iterate 6 · rfl
  next hsum hcount hdistinct havg hmin hmax =>
    simp [aggMap, List.lookup_cons, beq_eq_false_iff_ne.2 hsum, beq_eq_false_iff_ne.2 hcount,
      beq_eq_false_iff_ne.2 hdistinct, beq_eq_false_iff_ne.2 havg, beq_eq_false_iff_ne.2 hmin,
      beq_eq_false_iff_ne.2 hmax]

/-- An aggregation of dbt has one name. -/
private theorem dbtAgg_inj {s s' : String} {agg : AggFunction} (h : dbtAgg s = some agg)
    (h' : dbtAgg s' = some agg) : s = s' := by
  have hname : ∀ {s}, dbtAgg s = some agg → s = (match agg with
      | .sum => "sum"
      | .count => "count"
      | .countDistinct => "count_distinct"
      | .avg => "average"
      | .min => "min"
      | .max => "max") := by
    intro s hs
    unfold dbtAgg at hs
    split at hs <;> cases hs <;> rfl
  exact (hname h).trans (hname h').symm

private theorem ImportedFrom.timeColumn_eq
    (h : ImportedFrom name binding importedEntityNames m) :
    timeColumn m = (usedTime binding.semanticModel).map (·.1) := by
  unfold timeColumn
  rw [h.time_eq]
  cases htime : usedTime binding.semanticModel with
  | none => rfl
  | some time =>
    have hparse := parseQualifiedColumn_text m.entity_ident (usedTime_spec htime).1
    simp [hparse, Option.filter_some]

private theorem ImportedFrom.metricAggregate_eq
    (h : ImportedFrom name binding importedEntityNames m) :
    (metricAggregate tableOf m : Option (Aggregate Row)) = (tableOf m.entity).map fun table => {
      table := table
      rows := fun _ => True
      agg := m.measure.agg
      column := binding.expr
      timeColumn := (usedTime binding.semanticModel).map (·.1) } := by
  rw [metricAggregate, h.ref_eq, ← h.timeColumn_eq]

/-- The measure that a binding is taken from is declared. -/
private theorem RefersTo.exists_declares (h : RefersTo semanticModels fields binding) :
    ∃ measure, Declares semanticModels fields binding.semanticModel measure := by
  obtain ⟨-, ref, href, hbinding⟩ := h
  obtain ⟨measureName, hname, hlast⟩ := Option.bind_eq_some_iff.1 hbinding
  obtain ⟨found, hfound, rfl⟩ := Option.map_eq_some_iff.1 hlast
  have hfoundName : found.1 = measureName := by simpa using List.find?_some hfound
  have hmem := List.mem_reverse.1 (List.mem_of_find?_eq_some hfound)
  obtain ⟨item, hitem, hmeasures⟩ := List.mem_flatMap.1 hmem
  cases hmodel : item.2.members? with
  | none => simp [hmodel] at hmeasures
  | some model =>
    rw [hmodel] at hmeasures
    obtain ⟨value, hvalue, hmade⟩ := List.mem_filterMap.1 hmeasures
    obtain ⟨measure, hmeasure, hfields⟩ := Option.bind_eq_some_iff.1 hmade
    split at hfields
    · next name agg expr hmeasureName hagg hexpr =>
      obtain rfl := Option.some.inj hfields
      refine ⟨measure, ref, measureName, href, hname, item, hitem, hmodel, value, hvalue,
        hmeasure, ?_⟩
      rw [hmeasureName, ← hfoundName]
    · cases hfields

private theorem rows_eq_true_iff :
    (fun row : Row => ∀ filter ∈ metricFilters fields, holds filter row) = (fun _ => True) ↔
      ∀ filter ∈ metricFilters fields, ∀ row, holds filter row := by
  constructor
  · intro h filter hfilter row
    exact of_eq_true (congrFun h row) filter hfilter
  · intro h
    funext row
    exact eq_true fun filter hfilter => h filter hfilter row

/-- On the table of its anchor, a metric is the aggregate of a measure if and only if they agree. -/
private theorem dbtAggregate_eq_iff {table : QualifiedTable}
    (hfrom : ImportedFrom name binding importedEntityNames m)
    (htable : tableOf m.entity = some table) :
    dbtAggregate holds fields model measure = some {
        table := table
        rows := fun _ => True
        agg := m.measure.agg
        column := binding.expr
        timeColumn := (usedTime binding.semanticModel).map (·.1) } ↔
      Agrees holds tableOf fields model measure binding m.entity := by
  have hagg : dbtAgg binding.agg = some m.measure.agg := lookup_aggMap _ ▸ hfrom.agg_eq
  unfold dbtAggregate
  constructor
  · intro h
    obtain ⟨table', htable', h⟩ := Option.bind_eq_some_iff.1 h
    obtain ⟨agg, hmeasureAgg, h⟩ := Option.bind_eq_some_iff.1 h
    obtain ⟨column, hcolumn, h⟩ := Option.bind_eq_some_iff.1 h
    obtain ⟨rfl, hrows, rfl, rfl, htime⟩ := Aggregate.mk.inj (Option.some.inj h)
    obtain ⟨text, htext, hdbt⟩ := Option.bind_eq_some_iff.1 hmeasureAgg
    exact {
      table := ⟨_, htable, htable'⟩
      rows := rows_eq_true_iff.1 hrows
      agg := by rw [htext, dbtAgg_inj hdbt hagg]
      column := hcolumn
      time := htime }
  · intro h
    obtain ⟨table', htable', hrelation⟩ := h.table
    obtain rfl := Option.some.inj (htable.symm.trans htable')
    have hrows := rows_eq_true_iff.2 h.rows
    simp only [hrelation, h.agg, hagg, h.column, h.time, hrows, bind, Option.bind_some, pure]

theorem computes_iff (hrefers : RefersTo semanticModels fields binding)
    (hfrom : ImportedFrom name binding importedEntityNames m) :
    Computes holds tableOf semanticModels fields m ↔
      ∀ model measure, Declares semanticModels fields model measure →
        Agrees holds tableOf fields model measure binding m.entity := by
  unfold Computes
  rw [hfrom.metricAggregate_eq]
  constructor
  · rintro ⟨aggregate, hmetric, hall⟩ model measure hdeclares
    obtain ⟨table, htable, rfl⟩ := Option.map_eq_some_iff.1 hmetric
    exact (dbtAggregate_eq_iff hfrom htable).1 (hall model measure hdeclares)
  · intro hall
    obtain ⟨measure, hdeclares⟩ := hrefers.exists_declares
    obtain ⟨table, htable, -⟩ := (hall _ measure hdeclares).table
    refine ⟨_, congrArg _ htable, fun model' measure' hdeclares' => ?_⟩
    exact (dbtAggregate_eq_iff hfrom htable).2 (hall model' measure' hdeclares')

end One

/-! ## The whole manifest -/

section Manifest

variable {Row : Type} {holds : PyValue → Row → Prop} {tableOf : String → Option QualifiedTable}
  {P : MeasureExpressions} {raw : PyValue} {path : String} {importedEntityNames : List String}

theorem returns_parseDbtMetrics : Returns (parseDbtMetrics P raw path importedEntityNames) ↔
    ManifestReads raw path importedEntityNames := by
  constructor
  · rintro ⟨result, hresult⟩
    obtain ⟨hversion, hmetrics, hmodels, index, outcomes, hindex, hmapped, -⟩ :=
      parseDbtMetrics_eq_ok.1 hresult
    refine ⟨hversion, hmetrics, hmodels, returns_buildMeasureIndex.1 ⟨_, hindex⟩,
      fun item hitem => ?_⟩
    obtain ⟨outcome, -, houtcome⟩ := (mem_mapM hmapped).2 item hitem
    exact (returns_mapOneMetric (dictGet_buildMeasureIndex hindex)).1 ⟨_, houtcome⟩
  · intro h
    obtain ⟨index, hindex⟩ := returns_buildMeasureIndex.2 h.measures
    obtain ⟨outcomes, hmapped, -⟩ := @mapM_forall₂ _ _ _
      (fun item => mapOneMetric P item.2 index importedEntityNames) (fun _ _ => True)
      (sectionOf raw "metrics").mapping fun item hitem => by
        obtain ⟨outcome, houtcome⟩ := (returns_mapOneMetric (P := P)
          (dictGet_buildMeasureIndex hindex)).2 (h.nodes item hitem)
        exact ⟨outcome, houtcome, trivial⟩
    exact ⟨_, parseDbtMetrics_eq_ok.2
      ⟨h.version, h.metrics, h.semanticModels, index, outcomes, hindex, hmapped, rfl⟩⟩

/-- The metrics that the import returns are those that it makes of the nodes. -/
theorem mem_imported {imported : List ImportedMetric} {skipped : List DbtMetricSkip}
    (h : parseDbtMetrics P raw path importedEntityNames = .ok (imported, skipped))
    (m : ImportedMetric) : m ∈ imported ↔ ∃ item ∈ (sectionOf raw "metrics").mapping,
      ImportsAs P raw path importedEntityNames item.2 m := by
  obtain ⟨-, -, -, index, outcomes, hindex, hmapped, hresult⟩ := parseDbtMetrics_eq_ok.1 h
  obtain ⟨rfl, -⟩ := Prod.mk.inj hresult
  rw [List.mem_filterMap]
  constructor
  · rintro ⟨outcome, houtcome, hleft⟩
    obtain ⟨item, hitem, hmap⟩ := (mem_mapM hmapped).1 outcome houtcome
    cases outcome with
    | inl m' =>
      obtain rfl := Option.some.inj hleft
      exact ⟨item, hitem, ⟨_, h⟩, index, hindex, hmap⟩
    | inr _ => cases hleft
  · rintro ⟨item, hitem, -, index', hindex', hmap⟩
    obtain rfl := Except.ok.inj (hindex.symm.trans hindex')
    obtain ⟨outcome, houtcome, hmap'⟩ := (mem_mapM hmapped).2 item hitem
    obtain rfl := Except.ok.inj (hmap.symm.trans hmap')
    exact ⟨_, houtcome, rfl⟩

/-- Every imported metric computes what dbt computes if and only if, where the import gets through
the manifest, every measure of a name in a node that it imports agrees with the metric. -/
theorem importsFaithfully_iff : ImportsFaithfully holds tableOf P raw path importedEntityNames ↔
    (ManifestReads raw path importedEntityNames →
      NodesAgree holds tableOf raw importedEntityNames) := by
  constructor
  · intro hfaithful hreads item hitem fields binding anchor hfields hanchored
    obtain ⟨index, hindex⟩ := returns_buildMeasureIndex.2 hreads.measures
    obtain ⟨m, hmap, hfrom⟩ := mapOneMetric_of_anchored (P := P)
      (dictGet_buildMeasureIndex hindex) hfields (hreads.nodes item hitem) hanchored
    have hcomputes := hfaithful item hitem fields m hfields
      ⟨returns_parseDbtMetrics.2 hreads, index, hindex, hmap⟩
    obtain rfl : anchor = m.metric.entity :=
      Option.some.inj (hanchored.anchor_eq.symm.trans hfrom.anchor_eq)
    exact (computes_iff hanchored.refers hfrom).1 hcomputes
  · rintro hagree item hitem fields m hfields ⟨hreturns, index, hindex, hmap⟩
    obtain ⟨fields', hfields', ⟨m', binding, hm, hrefers, hfrom⟩ | ⟨skipped, hskipped, -⟩⟩ :=
      mapOneMetric_ok (dictGet_buildMeasureIndex hindex) hmap
    · obtain rfl := Option.some.inj (hfields.symm.trans hfields')
      obtain rfl := Sum.inl.inj hm
      exact (computes_iff hrefers hfrom).2 (hagree (returns_parseDbtMetrics.1 hreturns) item hitem
        fields binding _ hfields (hfrom.anchored hrefers))
    · cases hskipped

/-- The filter that leaves in the orders that are paid. -/
def paidFilter : PyValue :=
  .dict [("where_filters", .list [.dict [("where_sql_template", .str "status = 'paid'")]])]

/-- The table of the only entity. -/
def ordersTable (_ : String) : Option QualifiedTable := some ⟨"public", "orders"⟩

/-- The orders by their status, of which a filter leaves in the paid ones. -/
def paidOnly (_ : PyValue) (status : String) : Prop := status = "paid"

/-- A metric with a filter is imported without it: the orders that are not paid count. -/
theorem not_importsFaithfully : ¬ ImportsFaithfully paidOnly ordersTable noExpressions
    (revenueManifest "paid_revenue" paidFilter) "manifest.json" ["order"] := by
  intro hfaithful
  have hreads : ManifestReads (revenueManifest "paid_revenue" paidFilter) "manifest.json"
      ["order"] := {
    version := by rfl
    metrics := rfl
    semanticModels := rfl
    measures := measuresRead_revenueModels
    nodes := by
      intro item hitem
      obtain rfl := List.mem_singleton.1 hitem
      exact nodeReads_revenueNode (by decide) paidFilter }
  obtain ⟨index, hindex⟩ := returns_buildMeasureIndex.2 hreads.measures
  have hanchored : Anchored revenueModels [("name", .str "paid_revenue"), ("type", .str "simple"),
      ("type_params", .dict [("measure", .dict [("name", .str "revenue_measure"),
        ("filter", .none)])]), ("filter", paidFilter)] ["order"]
      ⟨"sum", "total_amount", (ordersModel.members?).getD []⟩ "order" := {
    refers := ⟨rfl, _, rfl, rfl⟩
    agg_supported := rfl
    expr_ident := by decide
    anchor_eq := rfl
    anchor_mem := List.mem_singleton.2 rfl }
  obtain ⟨m, hmap, hfrom⟩ := mapOneMetric_of_anchored (P := noExpressions)
    (dictGet_buildMeasureIndex hindex) rfl (nodeReads_revenueNode (by decide) paidFilter) hanchored
  have hcomputes := hfaithful _ (List.mem_singleton.2 rfl) _ m rfl
    ⟨returns_parseDbtMetrics.2 hreads, index, hindex, hmap⟩
  obtain ⟨measure, hdeclares⟩ := hanchored.refers.exists_declares
  have hagrees := (computes_iff hanchored.refers hfrom).1 hcomputes _ measure hdeclares
  have hfilter : paidFilter ∈ [paidFilter] := List.mem_singleton.2 rfl
  have hopen : "open" = "paid" := hagrees.rows paidFilter hfilter "open"
  simp at hopen

end Manifest

end SchemaBrain.Imports
