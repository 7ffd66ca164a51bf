import SchemaBrain.Base.Collections
import SchemaBrain.Base.PyAccess
import SchemaBrain.Base.Regex
import SchemaBrain.Core.SemanticRecords

/-!
# Metrics of a dbt manifest

`parse_dbt_metrics` on the decoded manifest: every entry of `metrics` becomes a `Metric` or a
skip with its reason. The nodes are read through `.get`, with a check of the type at some of
the positions only, and the constructor of `Metric` raises on names that are no identifiers.
-/

namespace SchemaBrain.Imports

open Base Core

/-! ## Results -/

/-- `DbtMetricSkipReason`. -/
inductive DbtMetricSkipReason
  | nonSimpleType
  | nonColumnExpr
  | unsupportedAgg
  | noPrimaryEntity
  | anchorEntityNotImported
  | measureNotFound
  deriving DecidableEq, Repr

/-- `DbtMetricSkip`. The name is whatever the node has. -/
structure DbtMetricSkip where
  metricName : PyValue
  reason : DbtMetricSkipReason
  message : String

/-- The `Metric` of a node. The constructor does not look at the description. -/
structure ImportedMetric where
  metric : Metric
  description : PyValue

/-- What a metric node becomes. -/
abbrev Outcome := ImportedMetric ⊕ DbtMetricSkip

/-- A skipped node. -/
def skip (name : PyValue) (reason : DbtMetricSkipReason) (message : String) :
    Except Raised Outcome := .ok (.inr ⟨name, reason, message⟩)

/-- `_AGG_MAP`. -/
def aggMap : List (String × AggFunction) :=
  [("sum", .sum), ("count", .count), ("count_distinct", .countDistinct), ("average", .avg),
    ("min", .min), ("max", .max)]

/-! ## The measure index -/

/-- `_MeasureBinding`. -/
structure MeasureBinding where
  agg : String
  expr : String
  semanticModel : List (String × PyValue)

/-- The binding of a measure of a semantic model, where its fields are texts. -/
def measureBinding (semanticModel : List (String × PyValue)) (measure : PyValue) :
    Option (String × MeasureBinding) :=
  measure.members?.bind fun fields =>
    match (fieldOf fields "name").text?, (fieldOf fields "agg").text?,
      (fieldOf fields "expr").text? with
    | some name, some agg, some expr => some (name, ⟨agg, expr, semanticModel⟩)
    | _, _, _ => none

/-- The loop over the measures of one semantic model. -/
def indexModel (index : List (String × MeasureBinding)) (smNode : PyValue) :
    Except Raised (List (String × MeasureBinding)) :=
  match smNode.members? with
  | none => .ok index
  | some fields => do
    let measures ← ((fieldOf fields "measures").orElse (.list [])).iter
    return (measures.filterMap (measureBinding fields)).foldl
      (fun index item => dictSet index item.1 item.2) index

/-- `_build_measure_index`. -/
def buildMeasureIndex (semanticModels : List (String × PyValue)) :
    Except Raised (List (String × MeasureBinding)) :=
  semanticModels.foldlM (fun index item => indexModel index item.2) []

/-- `measure_index.get(measure_name)`. -/
def lookupMeasure (index : List (String × MeasureBinding)) (measureName : PyValue) :
    Except Raised (Option MeasureBinding) :=
  if measureName.hashable then .ok (measureName.text?.bind (dictGet index))
  else .error (.error (.typeError ("unhashable type: " ++ pyRepr measureName.typeName)))

/-! ## Time dimensions -/

/-- The grains of a time dimension that are in the closed set, each once. -/
def grainCandidates (primaryGrain granularityOptions : PyValue) : List TimeGrain :=
  let primary := (primaryGrain.text?.bind TimeGrain.ofWord).toList
  match granularityOptions with
  | .list options => options.foldl (fun candidates option =>
      match option.text?.bind TimeGrain.ofWord with
      | some grain => if grain ∈ candidates then candidates else candidates ++ [grain]
      | none => candidates) primary
  | _ => primary

/-- The body of the loop over the dimensions: the name and the grains, or `continue`. -/
def timeDimension (dim : PyValue) : Except Raised (Option (String × List TimeGrain)) :=
  match dim.members? with
  | none => .ok none
  | some fields =>
    if (fieldOf fields "type").text? ≠ some "time" then .ok none
    else
      match (fieldOf fields "name").text? with
      | none => .ok none
      | some dimName =>
        if isIdent dimName then do
          let typeParams := (fieldOf fields "type_params").orElse (.dict [])
          let primaryGrain ← typeParams.get "time_granularity"
          let granularityOptions ← typeParams.get "granularity_options"
          let candidates := grainCandidates (primaryGrain.getD .none)
            ((granularityOptions.getD .none).orElse (.list []))
          if candidates = [] then return none
          else return some (dimName, sortedBy TimeGrain.rank candidates)
        else .ok none

/-- The loop over the dimensions, up to the first one that can be used. -/
def firstTimeDimension : List PyValue → Except Raised (Option (String × List TimeGrain))
  | [] => .ok none
  | dim :: rest => do
    match ← timeDimension dim with
    | some found => return some found
    | none => firstTimeDimension rest

/-- `_extract_time`. -/
def extractTime (semanticModel : List (String × PyValue)) (anchorEntity : String) :
    Except Raised (Option String × List TimeGrain) := do
  let dimensions ← ((fieldOf semanticModel "dimensions").orElse (.list [])).iter
  match ← firstTimeDimension dimensions with
  | some (dimName, grains) => return (some (anchorEntity ++ "." ++ dimName), grains)
  | none => return (none, [])

/-! ## One metric -/

/-- The fields of a primary entity. -/
def primaryFields (entity : PyValue) : Option (List (String × PyValue)) :=
  entity.members?.filter fun fields => (fieldOf fields "type").text? = some "primary"

section Metrics

variable (P : MeasureExpressions)

/-- The construction of the `Metric`. -/
def makeMetric (name description : PyValue) (entity : String) (agg : AggFunction) (expr : String)
    (timeDimension : Option String) (timeGrains : List TimeGrain) : Except Raised Outcome :=
  match name.text? with
  | none => .error (.error (.typeError
      ("expected string or bytes-like object, got " ++ pyRepr name.typeName)))
  | some name =>
    let made := do
      let measure ← MeasureRecord.make P (word agg) (some expr) none
      MetricRecord.make name "" entity measure timeDimension (timeGrains.map word) "dbt_import"
        "manually_authored" "applied"
    match made with
    | .ok record => .ok (.inl ⟨record.toMetric, description⟩)
    | .error error => .error (.error error)

/-- `_map_one_metric` from the binding of the measure on. -/
def mapBinding (name description measureName : PyValue) (binding : MeasureBinding)
    (importedEntityNames : List String) : Except Raised Outcome :=
  match aggMap.lookup binding.agg with
  | none => skip name .unsupportedAgg ("dbt agg " ++ pyRepr binding.agg ++
      " is not supported at v1; supported aggs: " ++ pyReprList (pySorted (aggMap.map (·.1))))
  | some agg =>
    if isIdent binding.expr then do
      let entities ← ((fieldOf binding.semanticModel "entities").orElse (.list [])).iter
      match entities.findSome? primaryFields with
      | none => skip name .noPrimaryEntity ("semantic_model owning measure " ++
          measureName.repr ++ " has no primary entity; the metric can't be anchored.")
      | some primary =>
        match (fieldOf primary "name").text?.filter (· ≠ "") with
        | none => skip name .noPrimaryEntity ("semantic_model owning measure " ++
            measureName.repr ++ " has a primary entity entry with no usable 'name' field; " ++
            "the manifest is malformed.")
        | some anchorEntity =>
          if anchorEntity ∉ importedEntityNames then
            skip name .anchorEntityNotImported ("metric anchors on entity " ++
              pyRepr anchorEntity ++ " but this entity was not imported. Run the entity " ++
              "import first or add the anchor model to your dbt project.")
          else do
            let time ← extractTime binding.semanticModel anchorEntity
            makeMetric P name description anchorEntity agg binding.expr time.1 time.2
    else skip name .nonColumnExpr ("measure " ++ measureName.repr ++ " has expression " ++
      pyRepr binding.expr ++ "; v1 only supports bare-column measures (expressions defer to v2).")

/-- `_map_one_metric`. -/
def mapOneMetric (metricNode : PyValue) (measureIndex : List (String × MeasureBinding))
    (importedEntityNames : List String) : Except Raised Outcome := do
  let name := (← metricNode.get "name").getD (.str "<unknown>")
  let metricType := (← metricNode.get "type").getD (.str "")
  if metricType.text? ≠ some "simple" then
    skip name .nonSimpleType ("dbt metric type " ++ metricType.repr ++ " is not supported at " ++
      "v1 (only `simple` metrics import; ratio/derived/cumulative defer to v2's expression layer).")
  else
    let typeParams := ((← metricNode.get "type_params").getD .none).orElse (.dict [])
    let measureRef := ((← typeParams.get "measure").getD .none).orElse (.dict [])
    match measureRef.members? with
    | none => skip name .measureNotFound ("metric.type_params.measure is not a mapping (got " ++
        measureRef.typeName ++ "); manifest is malformed.")
    | some ref =>
      let measureName := (lookupField ref "name").getD (.str "")
      match ← lookupMeasure measureIndex measureName with
      | none => skip name .measureNotFound ("metric references measure " ++ measureName.repr ++
          " but no semantic_model declares it.")
      | some binding =>
        let description := ((← metricNode.get "description").getD .none).orElse (.str "")
        mapBinding P name description measureName binding importedEntityNames

/-! ## The manifest -/

/-- What `parse_dbt_metrics` raises. -/
inductive DbtMetricFailure
  | importError (message : String)
  | raised (raised : Raised)

/-- A match of `manifest/v(\d+)\.json` at the start of the text: its digits. -/
def versionDigits (chars : List Char) : Option (List Nat) :=
  if "manifest/v".toList.isPrefixOf chars then
    let tail := chars.drop "manifest/v".length
    let digits := (tail.takeWhile fun c => (decimalDigit c).isSome).filterMap decimalDigit
    let rest := tail.dropWhile fun c => (decimalDigit c).isSome
    if digits ≠ [] ∧ ".json".toList.isPrefixOf rest then some digits else none
  else none

/-- `re.search`. -/
def searchVersion : List Char → Option (List Nat)
  | [] => none
  | c :: rest => (versionDigits (c :: rest)).or (searchVersion rest)

/-- `_check_schema_version`. `int` refuses texts of more than 4300 digits. -/
def checkSchemaVersion (raw : PyValue) (path : String) : Except DbtMetricFailure Unit := do
  let metadata ← (raw.get "metadata").mapError .raised
  let schemaUrl ← (((metadata.getD .none).orElse (.dict [])).get "dbt_schema_version").mapError
    .raised
  match (schemaUrl.getD (.str "")).text? with
  | none => .error (.raised (.error (.typeError ("expected string or bytes-like object, got " ++
      pyRepr (schemaUrl.getD (.str "")).typeName))))
  | some url =>
    match searchVersion url.toList with
    | none => .error (.importError ("could not parse dbt_schema_version in " ++ path ++
        "; expected URL ending in `/manifest/vN.json`"))
    | some digits =>
      if 4300 < digits.length then
        .error (.raised (.error (.valueError ("Exceeds the limit (4300 digits) for integer " ++
          "string conversion: value has " ++ toString digits.length ++ " digits; use " ++
          "sys.set_int_max_str_digits() to increase the limit"))))
      else
        let version := digits.foldl (fun number digit => 10 * number + digit) 0
        if version < 11 then
          .error (.importError ("dbt metric import requires manifest schema version >= 11 " ++
            "(dbt-core 1.6+); got v" ++ toString version ++ ". Upgrade dbt-core to enable " ++
            "metric import, or omit `--include-metrics` to skip metric extraction."))
        else .ok ()

/-- The rest of `parse_dbt_metrics`: the metrics and the skips. -/
def extractMetrics (raw : PyValue) (importedEntityNames : List String) :
    Except Raised (List ImportedMetric × List DbtMetricSkip) := do
  let metricsRaw := ((← raw.get "metrics").getD .none).orElse (.dict [])
  let semanticModelsRaw := ((← raw.get "semantic_models").getD .none).orElse (.dict [])
  let measureIndex ← buildMeasureIndex (← semanticModelsRaw.items)
  let outcomes ← (← metricsRaw.items).mapM fun item =>
    mapOneMetric P item.2 measureIndex importedEntityNames
  return (outcomes.filterMap Sum.getLeft?, outcomes.filterMap Sum.getRight?)

/-- `parse_dbt_metrics` on the decoded manifest. -/
def parseDbtMetrics (raw : PyValue) (path : String) (importedEntityNames : List String) :
    Except DbtMetricFailure (List ImportedMetric × List DbtMetricSkip) := do
  checkSchemaVersion raw path
  (extractMetrics P raw importedEntityNames).mapError .raised

end Metrics

/-! ## When a dimension is read -/

section Time

variable {dim : PyValue} {dims : List PyValue} {found : Option (String × List TimeGrain)}

/-- The name of a time dimension that is an identifier. -/
def timeName (fields : List (String × PyValue)) : Option String :=
  if (fieldOf fields "type").text? = some "time" then
    (fieldOf fields "name").text?.filter isIdent
  else none

/-- The grains in the type parameters of a dimension. -/
def declaredGrains (fields : List (String × PyValue)) : List TimeGrain :=
  let typeParams := (fieldOf fields "type_params").mapping
  grainCandidates (fieldOf typeParams "time_granularity")
    ((fieldOf typeParams "granularity_options").orElse (.list []))

/-- A dimension that can be used: its name and its grains in canonical order. -/
def usableTime (dim : PyValue) : Option (String × List TimeGrain) :=
  dim.members?.bind fun fields => (timeName fields).bind fun dimName =>
    if declaredGrains fields = [] then none
    else some (dimName, sortedBy TimeGrain.rank (declaredGrains fields))

/-- The type parameters of a time dimension are a mapping, or nothing. -/
def dimensionReads (dim : PyValue) : Prop :=
  ∀ fields, dim.members? = some fields → timeName fields ≠ none →
    (fieldOf fields "type_params").isMapping = true

/-- The dimensions up to the first one that can be used are read. -/
def dimensionsRead : List PyValue → Prop
  | [] => True
  | dim :: rest => dimensionReads dim ∧ (usableTime dim = none → dimensionsRead rest)

/-- The end of the loop's body, after the name was read. -/
private def readGrains (fields : List (String × PyValue)) (dimName : String) :
    Except Raised (Option (String × List TimeGrain)) := do
  let typeParams := (fieldOf fields "type_params").orElse (.dict [])
  let primaryGrain ← typeParams.get "time_granularity"
  let granularityOptions ← typeParams.get "granularity_options"
  let candidates := grainCandidates (primaryGrain.getD .none)
    ((granularityOptions.getD .none).orElse (.list []))
  if candidates = [] then return none
  else return some (dimName, sortedBy TimeGrain.rank candidates)

private theorem timeDimension_eq {fields : List (String × PyValue)}
    (hfields : dim.members? = some fields) : timeDimension dim =
      match timeName fields with
      | none => .ok none
      | some dimName => readGrains fields dimName := by
  unfold timeDimension timeName
  rw [hfields]
  dsimp only
  by_cases htype : (fieldOf fields "type").text? = some "time"
  · rw [if_neg (not_not_intro htype), if_pos htype]
    cases hname : (fieldOf fields "name").text? with
    | none => rfl
    | some dimName =>
      by_cases hident : isIdent dimName = true
      · simp only [hident, ↓reduceIte, Option.filter_some]
        rfl
      · simp [hident, Option.filter_some]
  · rw [if_pos htype, if_neg htype]

private theorem readGrains_eq {fields : List (String × PyValue)} {dimName : String}
    (h : (fieldOf fields "type_params").isMapping = true) : readGrains fields dimName =
      .ok (if declaredGrains fields = [] then none
        else some (dimName, sortedBy TimeGrain.rank (declaredGrains fields))) := by
  unfold readGrains
  simp only [PyValue.get_orElse, h, ↓reduceIte, bind, Except.bind]
  change (if declaredGrains fields = [] then pure none
    else pure (some (dimName, sortedBy TimeGrain.rank (declaredGrains fields)))) = _
  by_cases hnone : declaredGrains fields = []
  · rw [if_pos hnone, if_pos hnone]
    rfl
  · rw [if_neg hnone, if_neg hnone]
    rfl

theorem returns_timeDimension : Returns (timeDimension dim) ↔ dimensionReads dim := by
  unfold dimensionReads
  cases hfields : dim.members? with
  | none => simp [timeDimension, hfields]
  | some fields =>
    rw [timeDimension_eq hfields]
    cases hname : timeName fields with
    | none => simp [hname]
    | some dimName =>
      simp only [Option.some.injEq, forall_eq', hname, ne_eq, reduceCtorEq, not_false_eq_true,
        forall_const]
      constructor
      · intro h
        obtain ⟨_, hget, -⟩ := returns_bind.1 h
        exact PyValue.returns_get_orElse.1 ⟨_, hget⟩
      · intro h
        exact ⟨_, readGrains_eq h⟩

theorem timeDimension_ok (h : timeDimension dim = .ok found) : found = usableTime dim := by
  have hreads := returns_timeDimension.1 ⟨_, h⟩
  unfold usableTime
  cases hfields : dim.members? with
  | none =>
    rw [timeDimension, hfields] at h
    exact (Except.ok.inj h).symm
  | some fields =>
    rw [timeDimension_eq hfields] at h
    cases hname : timeName fields with
    | none =>
      rw [hname] at h
      simpa [hname] using (Except.ok.inj h).symm
    | some dimName =>
      rw [hname] at h
      dsimp only at h
      rw [readGrains_eq (hreads fields hfields (by simp [hname]))] at h
      simpa [hname] using (Except.ok.inj h).symm

theorem returns_firstTimeDimension : Returns (firstTimeDimension dims) ↔ dimensionsRead dims := by
  induction dims with
  | nil => simp [firstTimeDimension, dimensionsRead]
  | cons dim rest ih =>
    rw [firstTimeDimension, returns_bind, dimensionsRead, ← returns_timeDimension, ← ih]
    constructor
    · rintro ⟨found, hfound, hrest⟩
      refine ⟨⟨_, hfound⟩, fun hunusable => ?_⟩
      rw [timeDimension_ok hfound, hunusable] at hrest
      exact hrest
    · rintro ⟨⟨found, hfound⟩, hrest⟩
      refine ⟨found, hfound, ?_⟩
      rw [timeDimension_ok hfound]
      cases hunusable : usableTime dim with
      | none => exact hrest hunusable
      | some _ => exact ⟨_, rfl⟩

theorem firstTimeDimension_ok (h : firstTimeDimension dims = .ok found) :
    found = dims.findSome? usableTime := by
  induction dims with
  | nil => exact (Except.ok.inj h).symm
  | cons dim rest ih =>
    rw [firstTimeDimension] at h
    obtain ⟨first, hfirst, hrest⟩ := bind_eq_ok h
    rw [List.findSome?_cons, ← timeDimension_ok hfirst]
    cases first with
    | none => exact ih hrest
    | some _ => exact (Except.ok.inj hrest).symm

end Time

/-! ## What a semantic model gives -/

section Model

variable {model : List (String × PyValue)} {anchor dimName : String} {grains : List TimeGrain}

/-- The dimensions of a semantic model can be gone through as far as the loop goes. -/
def TimesRead (model : List (String × PyValue)) : Prop :=
  (fieldOf model "dimensions").iterates = true ∧
    dimensionsRead (fieldOf model "dimensions").listed

/-- The first dimension of a semantic model that can be used. -/
def usedTime (model : List (String × PyValue)) : Option (String × List TimeGrain) :=
  (fieldOf model "dimensions").listed.findSome? usableTime

/-- The time fields of a metric on the anchor. -/
def timeFields (model : List (String × PyValue)) (anchor : String) :
    Option String × List TimeGrain :=
  ((usedTime model).map fun time => anchor ++ "." ++ time.1, ((usedTime model).map (·.2)).getD [])

theorem returns_extractTime : Returns (extractTime model anchor) ↔ TimesRead model := by
  rw [extractTime, returns_bind, TimesRead]
  constructor
  · rintro ⟨dimensions, hdimensions, hrest⟩
    obtain ⟨found, hfound, -⟩ := returns_bind.1 hrest
    refine ⟨PyValue.returns_iter_orElse.1 ⟨_, hdimensions⟩, ?_⟩
    rw [← PyValue.iter_orElse_ok hdimensions]
    exact returns_firstTimeDimension.1 ⟨_, hfound⟩
  · rintro ⟨hiterates, hread⟩
    refine ⟨_, by rw [PyValue.iter_orElse, if_pos hiterates], ?_⟩
    obtain ⟨found, hfound⟩ := returns_firstTimeDimension.2 hread
    refine returns_bind.2 ⟨found, hfound, ?_⟩
    cases found <;> exact ⟨_, rfl⟩

theorem extractTime_ok {time : Option String × List TimeGrain}
    (h : extractTime model anchor = .ok time) : time = timeFields model anchor := by
  rw [extractTime] at h
  obtain ⟨dimensions, hdimensions, hrest⟩ := bind_eq_ok h
  obtain ⟨found, hfound, hend⟩ := bind_eq_ok hrest
  have hused : found = usedTime model := by
    rw [firstTimeDimension_ok hfound, PyValue.iter_orElse_ok hdimensions, usedTime]
  rw [timeFields, ← hused]
  cases found <;> exact (Except.ok.inj hend).symm

private theorem nodup_grainCandidates (primaryGrain granularityOptions : PyValue) :
    (grainCandidates primaryGrain granularityOptions).Nodup := by
  have hprimary : (primaryGrain.text?.bind TimeGrain.ofWord).toList.Nodup := by
    cases primaryGrain.text?.bind TimeGrain.ofWord <;> simp
  unfold grainCandidates
  cases granularityOptions with
  | list options =>
    refine List.foldlRecOn (motive := List.Nodup) options _ hprimary ?_
    intro candidates hnodup option _
    split
    · next grain _ =>
      split
      · exact hnodup
      · next hnew =>
        rw [List.nodup_append_comm]
        exact List.nodup_cons.2 ⟨hnew, hnodup⟩
    · exact hnodup
  | _ => exact hprimary

private theorem timeName_ident {fields : List (String × PyValue)}
    (h : timeName fields = some dimName) :
    isIdent dimName = true := by
  unfold timeName at h
  split at h
  · exact (Option.filter_eq_some_iff.1 h).2
  · cases h

/-- A time dimension that is used has a name and grains that the constructor accepts. -/
theorem usedTime_spec (h : usedTime model = some (dimName, grains)) :
    isIdent dimName = true ∧ grains ≠ [] ∧ grains.Pairwise fun g g' => g.rank < g'.rank := by
  obtain ⟨dim, -, hdim⟩ := List.exists_of_findSome?_eq_some h
  obtain ⟨fields, -, hfields⟩ := Option.bind_eq_some_iff.1 hdim
  obtain ⟨name, hname, hgrains⟩ := Option.bind_eq_some_iff.1 hfields
  split at hgrains
  · cases hgrains
  · next hne =>
    obtain ⟨rfl, rfl⟩ := Prod.mk.inj (Option.some.inj hgrains)
    have hperm : (sortedBy TimeGrain.rank (declaredGrains fields)).Perm (declaredGrains fields) :=
      sortedBy_perm
    refine ⟨timeName_ident hname, fun hnil => hne ?_, ranks_lt ?_ pairwise_sortedBy⟩
    · rwa [hnil, List.nil_perm] at hperm
    · exact hperm.nodup_iff.2 (nodup_grainCandidates _ _)

end Model

/-! ## When a metric is made -/

section Make

variable {P : MeasureExpressions} {name description : PyValue} {anchor expr s : String}
  {agg : AggFunction} {model : List (String × PyValue)}

/-- The metric of a node. -/
def metricOf (s anchor expr : String) (agg : AggFunction) (model : List (String × PyValue))
    (hs : isIdent s = true) (hanchor : isIdent anchor = true) (hexpr : isIdent expr = true) :
    MetricRecord P where
  name := s
  entity := anchor
  measure := {
    agg := agg
    ref := .column expr
    columns_ident := by simpa [MeasureRef.columns] using hexpr
    columns_ne_nil := List.cons_ne_nil _ _ }
  timeDimension := (timeFields model anchor).1
  timeGrains := (timeFields model anchor).2
  name_ident := hs
  entity_ident := hanchor
  grains_paired := by
    unfold timeFields
    cases h : usedTime model with
    | none => simp
    | some time => simpa using (usedTime_spec h).2.1
  dimension_form := by
    unfold timeFields
    cases h : usedTime model with
    | none => rfl
    | some time =>
      rw [Option.map_some, Option.all_some, parseQualifiedColumn_text hanchor (usedTime_spec h).1]
      rfl
  grains_sorted := by
    unfold timeFields
    cases h : usedTime model with
    | none => exact .nil
    | some time => exact (usedTime_spec h).2.2
  expression := none
  expression_denotes := P.denotes_column expr
  description := ""
  origin := .dbtImport

theorem makeMetric_of_ident (hname : name.text? = some s) (hs : isIdent s = true)
    (hanchor : isIdent anchor = true) (hexpr : isIdent expr = true) :
    makeMetric P name description anchor agg expr (timeFields model anchor).1
        (timeFields model anchor).2 =
      .ok (.inl ⟨(@metricOf P s anchor expr agg model hs hanchor hexpr).toMetric,
        description⟩) := by
  let record := @metricOf P s anchor expr agg model hs hanchor hexpr
  have hmeasure : MeasureRecord.make P (word agg) (some expr) none = .ok record.measureRecord :=
    measureRecord_make record
  have hmetric : MetricRecord.make s "" anchor record.measureRecord (timeFields model anchor).1
      ((timeFields model anchor).2.map word) "dbt_import" "manually_authored" "applied" =
      .ok record := metricRecord_make record
  simp only [makeMetric, hname, hmeasure, bind, Except.bind, hmetric]
  rfl

private theorem isIdent_of_requireIdent {field value : String} {checked : {s // isIdent s = true}}
    (h : requireIdent field value = .ok checked) : isIdent value = true := by
  unfold requireIdent at h
  split at h
  · next hident => exact hident
  · cases h

/-- The constructor raises unless the name and the anchor are identifiers. -/
theorem returns_makeMetric (hexpr : isIdent expr = true) :
    Returns (makeMetric P name description anchor agg expr (timeFields model anchor).1
        (timeFields model anchor).2) ↔
      (∃ s, name.text? = some s ∧ isIdent s = true) ∧ isIdent anchor = true := by
  constructor
  · rintro ⟨outcome, houtcome⟩
    unfold makeMetric at houtcome
    cases hname : name.text? with
    | none =>
      rw [hname] at houtcome
      cases houtcome
    | some s =>
      rw [hname] at houtcome
      dsimp only at houtcome
      split at houtcome
      · next record hmade =>
        obtain ⟨measure, -, hmetric⟩ := bind_eq_ok hmade
        obtain ⟨name', hname', hrest⟩ := bind_eq_ok hmetric
        obtain ⟨anchor', hanchor', -⟩ := bind_eq_ok hrest
        exact ⟨⟨s, rfl, isIdent_of_requireIdent hname'⟩, isIdent_of_requireIdent hanchor'⟩
      · cases houtcome
  · rintro ⟨⟨s, hname, hs⟩, hanchor⟩
    exact ⟨_, makeMetric_of_ident hname hs hanchor hexpr⟩

end Make

/-! ## When a node is read -/

section Node

variable {P : MeasureExpressions} {name description measureName : PyValue} {outcome : Outcome}
  {binding : MeasureBinding} {importedEntityNames : List String}
  {semanticModels : List (String × PyValue)}

/-- The name of the first primary entity of a semantic model. -/
def anchorOf (model : List (String × PyValue)) : Option String :=
  ((fieldOf model "entities").listed.findSome? primaryFields).bind fun primary =>
    (fieldOf primary "name").text?.filter (· ≠ "")

/-- The values that the mapping of a known measure goes through have the types it relies on. -/
def BindingReads (name : PyValue) (binding : MeasureBinding) (importedEntityNames : List String) :
    Prop :=
  aggMap.lookup binding.agg ≠ none → isIdent binding.expr = true →
    (fieldOf binding.semanticModel "entities").iterates = true ∧
      ∀ anchor ∈ importedEntityNames, anchorOf binding.semanticModel = some anchor →
        TimesRead binding.semanticModel ∧
          (∃ s, name.text? = some s ∧ isIdent s = true) ∧ isIdent anchor = true

@[simp] theorem returns_skip {reason : DbtMetricSkipReason} {message : String} :
    Returns (skip name reason message) := ⟨_, rfl⟩

/-- The import of a metric on its anchor. -/
private def importOn (P : MeasureExpressions) (name description : PyValue)
    (binding : MeasureBinding) (agg : AggFunction) (anchor : String) : Except Raised Outcome := do
  let time ← extractTime binding.semanticModel anchor
  makeMetric P name description anchor agg binding.expr time.1 time.2

private theorem returns_importOn {agg : AggFunction} {anchor : String}
    (hexpr : isIdent binding.expr = true) :
    Returns (importOn P name description binding agg anchor) ↔ TimesRead binding.semanticModel ∧
      (∃ s, name.text? = some s ∧ isIdent s = true) ∧ isIdent anchor = true := by
  rw [importOn, returns_bind]
  constructor
  · rintro ⟨time, htime, hmade⟩
    rw [extractTime_ok htime] at hmade
    exact ⟨returns_extractTime.1 ⟨_, htime⟩, (returns_makeMetric hexpr).1 hmade⟩
  · rintro ⟨htimes, hidents⟩
    obtain ⟨time, htime⟩ := returns_extractTime.2 htimes
    refine ⟨time, htime, ?_⟩
    rw [extractTime_ok htime]
    exact (returns_makeMetric hexpr).2 hidents

/-- The mapping of a known measure skips, or imports on the anchor. -/
private theorem mapBinding_cases {agg : AggFunction} (hagg : aggMap.lookup binding.agg = some agg)
    (hexpr : isIdent binding.expr = true)
    (hentities : (fieldOf binding.semanticModel "entities").iterates = true) :
    (∃ anchor ∈ importedEntityNames, anchorOf binding.semanticModel = some anchor ∧
      mapBinding P name description measureName binding importedEntityNames =
        importOn P name description binding agg anchor) ∨
    ((∀ anchor ∈ importedEntityNames, anchorOf binding.semanticModel ≠ some anchor) ∧
      ∃ reason message, mapBinding P name description measureName binding importedEntityNames =
        skip name reason message) := by
  unfold mapBinding anchorOf
  rw [hagg]
  simp only [hexpr, ↓reduceIte, PyValue.iter_orElse, hentities, bind, Except.bind]
  cases (fieldOf binding.semanticModel "entities").listed.findSome? primaryFields with
  | none => exact .inr ⟨by simp, _, _, rfl⟩
  | some primary =>
    dsimp only [Option.bind_some]
    cases (fieldOf primary "name").text?.filter (· ≠ "") with
    | none => exact .inr ⟨by simp, _, _, rfl⟩
    | some anchor =>
      dsimp only
      by_cases hanchor : anchor ∈ importedEntityNames
      · rw [if_neg (not_not_intro hanchor)]
        exact .inl ⟨anchor, hanchor, rfl, rfl⟩
      · rw [if_pos hanchor]
        refine .inr ⟨fun anchor' hmem hsame => hanchor ?_, _, _, rfl⟩
        exact Option.some.inj hsame ▸ hmem

theorem returns_mapBinding : Returns (mapBinding P name description measureName binding
    importedEntityNames) ↔ BindingReads name binding importedEntityNames := by
  unfold BindingReads
  cases hagg : aggMap.lookup binding.agg with
  | none => simp [mapBinding, hagg]
  | some agg =>
    by_cases hexpr : isIdent binding.expr = true
    · by_cases hentities : (fieldOf binding.semanticModel "entities").iterates = true
      · simp only [ne_eq, reduceCtorEq, not_false_eq_true, hexpr, hentities, forall_const, true_and]
        rcases @mapBinding_cases P name description measureName binding importedEntityNames agg hagg
          hexpr hentities with ⟨anchor, hmem, hanchor, hmap⟩ | ⟨hnone, _, _, hmap⟩
        · rw [hmap, returns_importOn hexpr]
          constructor
          · rintro hreads anchor' - hanchor'
            obtain rfl := Option.some.inj (hanchor.symm.trans hanchor')
            exact hreads
          · exact fun hall => hall anchor hmem hanchor
        · rw [hmap]
          exact iff_of_true returns_skip fun anchor hmem hanchor =>
            absurd hanchor (hnone anchor hmem)
      · refine iff_of_false (fun h => ?_) fun h => hentities (h (by simp) hexpr).1
        unfold mapBinding at h
        rw [hagg] at h
        simp only [hexpr, ↓reduceIte] at h
        obtain ⟨_, hiter, -⟩ := returns_bind.1 h
        exact hentities (PyValue.returns_iter_orElse.1 ⟨_, hiter⟩)
    · simp [mapBinding, hagg, hexpr]

/-- What an imported metric has of the measure and its semantic model. -/
structure ImportedFrom (name : PyValue) (binding : MeasureBinding)
    (importedEntityNames : List String) (m : Metric) : Prop where
  name_eq : name = .str m.name
  agg_eq : aggMap.lookup binding.agg = some m.measure.agg
  ref_eq : m.measure.ref = .column binding.expr
  anchor_eq : anchorOf binding.semanticModel = some m.entity
  anchor_mem : m.entity ∈ importedEntityNames
  time_eq : m.timeDimension =
    (usedTime binding.semanticModel).map fun time => m.entity ++ "." ++ time.1

private theorem text?_eq_some {value : PyValue} {s : String} (h : value.text? = some s) :
    value = .str s := by
  cases value <;> first | cases h; rfl | cases h

private theorem importOn_ok {agg : AggFunction} {anchor : String}
    (hexpr : isIdent binding.expr = true)
    (h : importOn P name description binding agg anchor = .ok outcome) :
    ∃ m : ImportedMetric, outcome = .inl m ∧ name = .str m.metric.name ∧
      m.metric.measure.agg = agg ∧ m.metric.measure.ref = .column binding.expr ∧
      m.metric.entity = anchor ∧
      m.metric.timeDimension =
        (usedTime binding.semanticModel).map fun time => anchor ++ "." ++ time.1 := by
  obtain ⟨-, ⟨s, hname, hs⟩, hanchor⟩ := (returns_importOn hexpr).1 ⟨_, h⟩
  obtain ⟨time, htime, hmade⟩ := bind_eq_ok h
  rw [extractTime_ok htime, makeMetric_of_ident hname hs hanchor hexpr] at hmade
  exact ⟨_, (Except.ok.inj hmade).symm, text?_eq_some hname, rfl, rfl, rfl, rfl⟩

/-- A node of a known measure is imported on its anchor, or skipped under its name. -/
theorem mapBinding_ok (h : mapBinding P name description measureName binding importedEntityNames =
    .ok outcome) : (∃ m : ImportedMetric, outcome = .inl m ∧
        ImportedFrom name binding importedEntityNames m.metric) ∨
      ∃ skipped, outcome = .inr skipped ∧ skipped.metricName = name := by
  have hskip : ∀ {reason message}, skip name reason message = .ok outcome →
      ∃ skipped, outcome = .inr skipped ∧ skipped.metricName = name :=
    fun h => ⟨_, (Except.ok.inj h).symm, rfl⟩
  have hreads := returns_mapBinding.1 ⟨_, h⟩
  cases hagg : aggMap.lookup binding.agg with
  | none =>
    rw [mapBinding, hagg] at h
    exact .inr (hskip h)
  | some agg =>
    by_cases hexpr : isIdent binding.expr = true
    · have hentities := (hreads (by simp [hagg]) hexpr).1
      rcases @mapBinding_cases P name description measureName binding importedEntityNames agg hagg
        hexpr hentities with ⟨anchor, hmem, hanchor, hmap⟩ | ⟨-, _, _, hmap⟩
      · rw [hmap] at h
        obtain ⟨m, rfl, hname, rfl, href, rfl, htime⟩ := importOn_ok hexpr h
        exact .inl ⟨m, rfl, hname, hagg, href, hanchor, hmem, htime⟩
      · rw [hmap] at h
        exact .inr (hskip h)
    · rw [mapBinding, hagg] at h
      simp only [hexpr] at h
      exact .inr (hskip h)

/-! ### The index -/

/-- The measures of the semantic models whose fields are texts, in their order. -/
def declaredMeasures (semanticModels : List (String × PyValue)) : List (String × MeasureBinding) :=
  semanticModels.flatMap fun item => (item.2.members?.map fun fields =>
    (fieldOf fields "measures").listed.filterMap (measureBinding fields)).getD []

/-- The last measure of a name. -/
def lastBinding (semanticModels : List (String × PyValue)) (measureName : String) :
    Option MeasureBinding :=
  ((declaredMeasures semanticModels).reverse.find? (·.1 = measureName)).map (·.2)

/-- The measures of every semantic model can be gone through. -/
def MeasuresRead (semanticModels : List (String × PyValue)) : Prop :=
  ∀ item ∈ semanticModels, ∀ fields, item.2.members? = some fields →
    (fieldOf fields "measures").iterates = true

private theorem returns_indexModel {index : List (String × MeasureBinding)} {smNode : PyValue} :
    Returns (indexModel index smNode) ↔ ∀ fields, smNode.members? = some fields →
      (fieldOf fields "measures").iterates = true := by
  unfold indexModel
  cases hfields : smNode.members? with
  | none => simp
  | some fields =>
    simp only [Option.some.injEq, forall_eq', returns_bind]
    constructor
    · rintro ⟨measures, hmeasures, -⟩
      exact PyValue.returns_iter_orElse.1 ⟨_, hmeasures⟩
    · intro hiterates
      exact ⟨_, by rw [PyValue.iter_orElse, if_pos hiterates], _, rfl⟩

private theorem indexModel_ok {index index' : List (String × MeasureBinding)} {smNode : PyValue}
    (h : indexModel index smNode = .ok index') : index' =
      ((smNode.members?.map fun fields =>
        (fieldOf fields "measures").listed.filterMap (measureBinding fields)).getD []).foldl
          (fun index item => dictSet index item.1 item.2) index := by
  unfold indexModel at h
  cases hfields : smNode.members? with
  | none =>
    rw [hfields] at h
    exact (Except.ok.inj h).symm
  | some fields =>
    rw [hfields] at h
    obtain ⟨measures, hmeasures, hend⟩ := bind_eq_ok h
    rw [PyValue.iter_orElse_ok hmeasures] at hend
    exact (Except.ok.inj hend).symm

private theorem index_loop (semanticModels : List (String × PyValue))
    (index : List (String × MeasureBinding)) :
    (Returns (semanticModels.foldlM (fun index item => indexModel index item.2) index) ↔
      MeasuresRead semanticModels) ∧
    ∀ index', semanticModels.foldlM (fun index item => indexModel index item.2) index = .ok index' →
      index' = (declaredMeasures semanticModels).foldl
        (fun index item => dictSet index item.1 item.2) index := by
  induction semanticModels generalizing index with
  | nil =>
    refine ⟨iff_of_true ⟨_, rfl⟩ (by simp [MeasuresRead]), fun index' h => ?_⟩
    exact (Except.ok.inj h).symm
  | cons item rest ih =>
    rw [List.foldlM_cons]
    refine ⟨?_, fun index' h => ?_⟩
    · rw [returns_bind, MeasuresRead, List.forall_mem_cons, ← @returns_indexModel index]
      constructor
      · rintro ⟨next, hnext, hrest⟩
        exact ⟨⟨_, hnext⟩, (ih next).1.1 hrest⟩
      · rintro ⟨⟨next, hnext⟩, hrest⟩
        exact ⟨next, hnext, (ih next).1.2 hrest⟩
    · obtain ⟨next, hnext, hrest⟩ := bind_eq_ok h
      have hcons : declaredMeasures (item :: rest) = ((item.2.members?.map fun fields =>
          (fieldOf fields "measures").listed.filterMap (measureBinding fields)).getD []) ++
            declaredMeasures rest := List.flatMap_cons
      rw [(ih next).2 index' hrest, indexModel_ok hnext, hcons, List.foldl_append]

theorem returns_buildMeasureIndex :
    Returns (buildMeasureIndex semanticModels) ↔ MeasuresRead semanticModels :=
  (index_loop semanticModels []).1

/-- The index has the last measure of each name. -/
theorem dictGet_buildMeasureIndex {index : List (String × MeasureBinding)}
    (h : buildMeasureIndex semanticModels = .ok index) :
    dictGet index = lastBinding semanticModels := by
  funext measureName
  rw [(index_loop semanticModels []).2 index h, dictGet_foldl_dictSet, dictGet_nil, Option.or_none]
  rfl

/-! ### The nodes -/

/-- `metric_node.get("name", "<unknown>")`. -/
def nodeName (fields : List (String × PyValue)) : PyValue :=
  (lookupField fields "name").getD (.str "<unknown>")

/-- The node has the type `simple`. -/
def IsSimple (fields : List (String × PyValue)) : Prop :=
  ((lookupField fields "type").getD (.str "")).text? = some "simple"

/-- The measure reference of a node, if it is a mapping or nothing. -/
def measureRef (fields : List (String × PyValue)) : Option (List (String × PyValue)) :=
  let measure := fieldOf (fieldOf fields "type_params").mapping "measure"
  if measure.isMapping then some measure.mapping else none

/-- The measure name of a reference. -/
def measureNameOf (ref : List (String × PyValue)) : PyValue :=
  (lookupField ref "name").getD (.str "")

/-- The reference of a simple node can be followed to the name of its measure. -/
def ReferenceReads (fields : List (String × PyValue)) : Prop :=
  IsSimple fields → (fieldOf fields "type_params").isMapping = true ∧
    ∀ ref, measureRef fields = some ref → (measureNameOf ref).hashable = true

/-- The node is simple and names a measure, which has this binding. -/
def RefersTo (semanticModels fields : List (String × PyValue)) (binding : MeasureBinding) : Prop :=
  IsSimple fields ∧ ∃ ref, measureRef fields = some ref ∧
    (measureNameOf ref).text?.bind (lastBinding semanticModels) = some binding

/-- The values that the mapping of a node goes through have the types it relies on. -/
def NodeReads (semanticModels : List (String × PyValue)) (importedEntityNames : List String)
    (metricNode : PyValue) : Prop :=
  ∃ fields, metricNode.members? = some fields ∧ ReferenceReads fields ∧
    ∀ binding, RefersTo semanticModels fields binding →
      BindingReads (nodeName fields) binding importedEntityNames

variable {metricNode : PyValue} {fields : List (String × PyValue)}
  {index : List (String × MeasureBinding)}

/-- A node is mapped from its binding on, or skipped, or it raises before. -/
private theorem mapOneMetric_cases (hindex : dictGet index = lastBinding semanticModels)
    (hfields : metricNode.members? = some fields) :
    (∃ binding description measureName, ReferenceReads fields ∧
      RefersTo semanticModels fields binding ∧
      mapOneMetric P metricNode index importedEntityNames =
        mapBinding P (nodeName fields) description measureName binding importedEntityNames) ∨
    (ReferenceReads fields ∧ (∀ binding, ¬ RefersTo semanticModels fields binding) ∧
      ∃ reason message, mapOneMetric P metricNode index importedEntityNames =
        skip (nodeName fields) reason message) ∨
    (¬ ReferenceReads fields ∧
      ¬ Returns (mapOneMetric P metricNode index importedEntityNames)) := by
  have hget : ∀ key, metricNode.get key = .ok (lookupField fields key) := by
    intro key
    rw [PyValue.get, hfields]
  generalize hmap : mapOneMetric P metricNode index importedEntityNames = mapped
  unfold mapOneMetric at hmap
  simp only [hget, bind, Except.bind] at hmap
  by_cases hsimple : IsSimple fields
  · have hreference : ReferenceReads fields ↔ (fieldOf fields "type_params").isMapping = true ∧
        ∀ ref, measureRef fields = some ref → (measureNameOf ref).hashable = true :=
      forall_prop_of_true hsimple
    have htype : ((lookupField fields "type").getD (.str "")).text? = some "simple" := hsimple
    rw [if_neg (not_not_intro htype)] at hmap
    by_cases hmapping : (fieldOf fields "type_params").isMapping = true
    · have hmeasure : (((lookupField fields "type_params").getD .none).orElse (.dict [])).get
          "measure" = .ok (lookupField (fieldOf fields "type_params").mapping "measure") :=
        PyValue.get_orElse _ ▸ if_pos hmapping
      have hmembers : (((lookupField (fieldOf fields "type_params").mapping "measure").getD
          .none).orElse (.dict [])).members? = measureRef fields := PyValue.members?_orElse
      simp only [hmeasure, hmembers] at hmap
      cases href : measureRef fields with
      | none =>
        rw [href] at hmap
        refine .inr (.inl ⟨hreference.2 ⟨hmapping, by simp [href]⟩, ?_, _, _, hmap.symm⟩)
        rintro binding ⟨-, ref, hsome, -⟩
        cases href.symm.trans hsome
      | some ref =>
        rw [href] at hmap
        dsimp only at hmap
        by_cases hhashable : (measureNameOf ref).hashable = true
        · have hreads : ReferenceReads fields :=
            hreference.2 ⟨hmapping, fun ref' h => Option.some.inj (href.symm.trans h) ▸ hhashable⟩
          have hlookup : lookupMeasure index ((lookupField ref "name").getD (.str "")) =
              .ok ((measureNameOf ref).text?.bind (lastBinding semanticModels)) :=
            hindex ▸ if_pos hhashable
          rw [hlookup] at hmap
          dsimp only at hmap
          cases hbinding : (measureNameOf ref).text?.bind (lastBinding semanticModels) with
          | none =>
            rw [hbinding] at hmap
            refine .inr (.inl ⟨hreads, ?_, _, _, hmap.symm⟩)
            rintro binding ⟨-, ref', href', hsome⟩
            obtain rfl := Option.some.inj (href.symm.trans href')
            cases hbinding.symm.trans hsome
          | some binding =>
            rw [hbinding] at hmap
            exact .inl ⟨binding, _, _, hreads, ⟨hsimple, ref, href, hbinding⟩, hmap.symm⟩
        · obtain ⟨raised, hraised⟩ : ∃ raised,
              lookupMeasure index ((lookupField ref "name").getD (.str "")) = .error raised :=
            ⟨_, if_neg hhashable⟩
          rw [hraised] at hmap
          refine .inr (.inr ⟨fun h => hhashable ((hreference.1 h).2 ref href), ?_⟩)
          rw [← hmap]
          exact not_returns_error _
    · refine .inr (.inr ⟨fun h => hmapping (hreference.1 h).1, ?_⟩)
      cases hmeasure : (((lookupField fields "type_params").getD .none).orElse (.dict [])).get
          "measure" with
      | ok measure => exact absurd (PyValue.returns_get_orElse.1 ⟨_, hmeasure⟩) hmapping
      | error raised =>
        rw [hmeasure] at hmap
        rw [← hmap]
        exact not_returns_error _
  · have htype : ((lookupField fields "type").getD (.str "")).text? ≠ some "simple" := hsimple
    rw [if_pos htype] at hmap
    exact .inr (.inl ⟨fun h => absurd h hsimple, fun binding h => hsimple h.1, _, _, hmap.symm⟩)

theorem RefersTo.unique {binding' : MeasureBinding} (h : RefersTo semanticModels fields binding)
    (h' : RefersTo semanticModels fields binding') : binding = binding' := by
  obtain ⟨-, ref, href, hbinding⟩ := h
  obtain ⟨-, ref', href', hbinding'⟩ := h'
  obtain rfl := Option.some.inj (href.symm.trans href')
  exact Option.some.inj (hbinding.symm.trans hbinding')

theorem returns_mapOneMetric (hindex : dictGet index = lastBinding semanticModels) :
    Returns (mapOneMetric P metricNode index importedEntityNames) ↔
      NodeReads semanticModels importedEntityNames metricNode := by
  cases hfields : metricNode.members? with
  | none =>
    refine iff_of_false ?_ fun ⟨fields, hsome, _⟩ => by cases hfields.symm.trans hsome
    simp [mapOneMetric, PyValue.get, hfields, bind, Except.bind]
  | some fields =>
    have hnode : NodeReads semanticModels importedEntityNames metricNode ↔ ReferenceReads fields ∧
        ∀ binding, RefersTo semanticModels fields binding →
          BindingReads (nodeName fields) binding importedEntityNames := by
      simp [NodeReads, hfields]
    rw [hnode]
    rcases @mapOneMetric_cases P importedEntityNames _ _ _ _ hindex hfields with
      ⟨binding, _, _, hreads, hrefers, hmap⟩ | ⟨hreads, hnone, _, _, hmap⟩ | ⟨hreads, hraises⟩
    · rw [hmap, returns_mapBinding]
      exact ⟨fun h => ⟨hreads, fun binding' h' => hrefers.unique h' ▸ h⟩,
        fun h => h.2 binding hrefers⟩
    · rw [hmap]
      exact iff_of_true returns_skip ⟨hreads, fun binding h => absurd h (hnone binding)⟩
    · exact iff_of_false hraises fun h => hreads h.1

/-- A node that returns is imported from its binding, or skipped under its name. -/
theorem mapOneMetric_ok (hindex : dictGet index = lastBinding semanticModels)
    (h : mapOneMetric P metricNode index importedEntityNames = .ok outcome) :
    ∃ fields, metricNode.members? = some fields ∧
      ((∃ (m : ImportedMetric) (binding : MeasureBinding), outcome = .inl m ∧
          RefersTo semanticModels fields binding ∧
          ImportedFrom (nodeName fields) binding importedEntityNames m.metric) ∨
        ∃ skipped, outcome = .inr skipped ∧ skipped.metricName = nodeName fields) := by
  obtain ⟨fields, hfields, hnodeReads, -⟩ := (returns_mapOneMetric hindex).1 ⟨_, h⟩
  refine ⟨fields, hfields, ?_⟩
  rcases @mapOneMetric_cases P importedEntityNames _ _ _ _ hindex hfields with
    ⟨binding, _, _, -, hrefers, hmap⟩ | ⟨-, -, _, _, hmap⟩ | ⟨hreads, -⟩
  · rw [hmap] at h
    exact (mapBinding_ok h).imp_left fun ⟨m, hm, hfrom⟩ => ⟨m, binding, hm, hrefers, hfrom⟩
  · rw [hmap] at h
    exact .inr ⟨_, (Except.ok.inj h).symm, rfl⟩
  · exact absurd hnodeReads hreads

/-- The measure of a node can be taken over, on this anchor. -/
structure Anchored (semanticModels fields : List (String × PyValue))
    (importedEntityNames : List String) (binding : MeasureBinding) (anchor : String) : Prop where
  refers : RefersTo semanticModels fields binding
  agg_supported : (aggMap.lookup binding.agg).isSome = true
  expr_ident : isIdent binding.expr = true
  anchor_eq : anchorOf binding.semanticModel = some anchor
  anchor_mem : anchor ∈ importedEntityNames

theorem ImportedFrom.anchored {m : Metric} (hrefers : RefersTo semanticModels fields binding)
    (h : ImportedFrom name binding importedEntityNames m) :
    Anchored semanticModels fields importedEntityNames binding m.entity where
  refers := hrefers
  agg_supported := by rw [h.agg_eq, Option.isSome_some]
  expr_ident := by simpa [h.ref_eq, MeasureRef.columns] using m.measure.columns_ident
  anchor_eq := h.anchor_eq
  anchor_mem := h.anchor_mem

/-- A node that is read is imported where its measure can be taken over. -/
theorem mapOneMetric_of_anchored {anchor : String}
    (hindex : dictGet index = lastBinding semanticModels)
    (hfields : metricNode.members? = some fields)
    (hreads : NodeReads semanticModels importedEntityNames metricNode)
    (h : Anchored semanticModels fields importedEntityNames binding anchor) :
    ∃ m : ImportedMetric, mapOneMetric P metricNode index importedEntityNames = .ok (.inl m) ∧
      ImportedFrom (nodeName fields) binding importedEntityNames m.metric := by
  obtain ⟨outcome, houtcome⟩ := (returns_mapOneMetric (P := P) hindex).2 hreads
  obtain ⟨fields', hfields', _, hbindings⟩ := hreads
  obtain rfl := Option.some.inj (hfields.symm.trans hfields')
  obtain ⟨agg, hagg⟩ := Option.isSome_iff_exists.1 h.agg_supported
  have hentities := (hbindings binding h.refers (by simp [hagg]) h.expr_ident).1
  rcases @mapOneMetric_cases P importedEntityNames _ _ _ _ hindex hfields with
    ⟨binding', description, measureName, -, hrefers, hmap⟩ | ⟨-, hnone, -⟩ | ⟨-, hraises⟩
  · obtain rfl := h.refers.unique hrefers
    rcases @mapBinding_cases P (nodeName fields) description measureName binding
      importedEntityNames agg hagg h.expr_ident hentities with
      ⟨anchor', -, -, himport⟩ | ⟨hnone, -⟩
    · rw [hmap] at houtcome
      rcases mapBinding_ok houtcome with ⟨m, rfl, hfrom⟩ | ⟨skipped, rfl, -⟩
      · exact ⟨m, hmap.trans houtcome, hfrom⟩
      · rw [himport] at houtcome
        obtain ⟨m, hm, -⟩ := importOn_ok h.expr_ident houtcome
        cases hm
    · exact absurd h.anchor_eq (hnone anchor h.anchor_mem)
  · exact absurd h.refers (hnone binding)
  · exact absurd ⟨outcome, houtcome⟩ hraises

end Node

/-! ## The whole manifest -/

section Manifest

variable {P : MeasureExpressions} {raw : PyValue} {path : String}
  {importedEntityNames : List String} {metrics semanticModels : List (String × PyValue)}

/-- The `metrics` and the `semantic_models` of the manifest are these objects. -/
def HasSections (raw : PyValue) (metrics semanticModels : List (String × PyValue)) : Prop :=
  ∃ members, raw.members? = some members ∧ lookupField members "metrics" = some (.dict metrics) ∧
    lookupField members "semantic_models" = some (.dict semanticModels)

/-- The name that an outcome carries. -/
def outcomeName : Outcome → PyValue
  | .inl m => .str m.metric.name
  | .inr skipped => skipped.metricName

/-- The outcome is that of the node: it carries its name. -/
def OutcomeOf (metricNode : PyValue) (outcome : Outcome) : Prop :=
  ∃ fields, metricNode.members? = some fields ∧ outcomeName outcome = nodeName fields

theorem outcomeOf_mapOneMetric {metricNode : PyValue} {index : List (String × MeasureBinding)}
    {outcome : Outcome} (hindex : dictGet index = lastBinding semanticModels)
    (h : mapOneMetric P metricNode index importedEntityNames = .ok outcome) :
    OutcomeOf metricNode outcome := by
  obtain ⟨fields, hfields, ⟨m, binding, rfl, -, hfrom⟩ | ⟨skipped, rfl, hname⟩⟩ :=
    mapOneMetric_ok hindex h
  · exact ⟨fields, hfields, hfrom.name_eq.symm⟩
  · exact ⟨fields, hfields, hname⟩

/-- The import returns, and every entry of `metrics` gives one element of one of its lists. -/
def ImportsEach (P : MeasureExpressions) (raw : PyValue) (path : String)
    (importedEntityNames : List String) (metrics : List (String × PyValue)) : Prop :=
  ∃ outcomes : List Outcome, List.Forall₂ (fun item => OutcomeOf item.2) metrics outcomes ∧
    parseDbtMetrics P raw path importedEntityNames =
      .ok (outcomes.filterMap Sum.getLeft?, outcomes.filterMap Sum.getRight?)

private theorem mapError_eq_ok {ε ε' α : Type} {f : ε → ε'} {x : Except ε α} {a : α}
    (h : x.mapError f = .ok a) : x = .ok a := by
  cases x with
  | ok b => exact congrArg Except.ok (Except.ok.inj h)
  | error e => cases h

/-- `raw.get(key)`, if the manifest is an object. -/
def sectionOf (raw : PyValue) (key : String) : PyValue := fieldOf (raw.members?.getD []) key

private theorem members_of_checkSchemaVersion (h : checkSchemaVersion raw path = .ok ()) :
    ∃ members, raw.members? = some members := by
  obtain ⟨_, hget, -⟩ := bind_eq_ok h
  cases hmembers : raw.members? with
  | none =>
    rw [PyValue.get, hmembers] at hget
    cases hget
  | some members => exact ⟨members, rfl⟩

/-- Where the version is accepted and the sections are objects or falsy, the import is the loop over
the nodes. -/
theorem parseDbtMetrics_eq_ok {result : List ImportedMetric × List DbtMetricSkip} :
    parseDbtMetrics P raw path importedEntityNames = .ok result ↔
      checkSchemaVersion raw path = .ok () ∧ (sectionOf raw "metrics").isMapping = true ∧
        (sectionOf raw "semantic_models").isMapping = true ∧ ∃ index outcomes,
          buildMeasureIndex (sectionOf raw "semantic_models").mapping = .ok index ∧
          ((sectionOf raw "metrics").mapping.mapM fun item =>
            mapOneMetric P item.2 index importedEntityNames) = .ok outcomes ∧
          result = (outcomes.filterMap Sum.getLeft?, outcomes.filterMap Sum.getRight?) := by
  have hget : ∀ {members}, raw.members? = some members → ∀ key,
      raw.get key = .ok (lookupField members key) := by
    intro members hmembers key
    rw [PyValue.get, hmembers]
  constructor
  · intro h
    obtain ⟨⟨⟩, hversion, hextract⟩ := bind_eq_ok h
    obtain ⟨members, hmembers⟩ := members_of_checkSchemaVersion hversion
    have hloop := mapError_eq_ok hextract
    unfold extractMetrics at hloop
    obtain ⟨_, hmetricsGet, hloop⟩ := bind_eq_ok hloop
    obtain ⟨_, hmodelsGet, hloop⟩ := bind_eq_ok hloop
    obtain rfl := Except.ok.inj ((hget hmembers _).symm.trans hmetricsGet)
    obtain rfl := Except.ok.inj ((hget hmembers _).symm.trans hmodelsGet)
    obtain ⟨models, hmodels, hloop⟩ := bind_eq_ok hloop
    obtain ⟨index, hindex, hloop⟩ := bind_eq_ok hloop
    obtain ⟨metrics, hmetrics, hloop⟩ := bind_eq_ok hloop
    obtain ⟨outcomes, houtcomes, hresult⟩ := bind_eq_ok hloop
    obtain ⟨hmodelsMapping, rfl⟩ := PyValue.items_orElse_eq_ok.1 hmodels
    obtain ⟨hmetricsMapping, rfl⟩ := PyValue.items_orElse_eq_ok.1 hmetrics
    unfold sectionOf
    rw [hmembers]
    exact ⟨hversion, hmetricsMapping, hmodelsMapping, index, outcomes, hindex, houtcomes,
      (Except.ok.inj hresult).symm⟩
  · rintro ⟨hversion, hmetrics, hmodels, index, outcomes, hindex, houtcomes, rfl⟩
    obtain ⟨members, hmembers⟩ := members_of_checkSchemaVersion hversion
    unfold sectionOf at hmetrics hmodels hindex houtcomes
    rw [hmembers] at hmetrics hmodels hindex houtcomes
    have hmodelsItems := PyValue.items_orElse_eq_ok.2 ⟨hmodels, rfl⟩
    have hmetricsItems := PyValue.items_orElse_eq_ok.2 ⟨hmetrics, rfl⟩
    unfold fieldOf at hmodelsItems hmetricsItems hindex houtcomes
    simp only [Option.getD_some] at hmodelsItems hmetricsItems hindex houtcomes
    simp only [parseDbtMetrics, hversion, extractMetrics, hget hmembers, hmodelsItems,
      hmetricsItems, hindex, houtcomes, bind, Except.bind]
    rfl

private theorem HasSections.section_eq (h : HasSections raw metrics semanticModels) :
    sectionOf raw "metrics" = .dict metrics ∧
      sectionOf raw "semantic_models" = .dict semanticModels := by
  obtain ⟨members, hmembers, hmetrics, hmodels⟩ := h
  simp [sectionOf, hmembers, fieldOf, hmetrics, hmodels]

/-- One entry for each node comes out if and only if the measures of every semantic model can be
gone through, and every node is read. -/
theorem importsEach_iff (hversion : checkSchemaVersion raw path = .ok ())
    (hsections : HasSections raw metrics semanticModels) :
    ImportsEach P raw path importedEntityNames metrics ↔ MeasuresRead semanticModels ∧
      ∀ item ∈ metrics, NodeReads semanticModels importedEntityNames item.2 := by
  obtain ⟨hmetrics, hmodels⟩ := hsections.section_eq
  unfold ImportsEach
  simp only [parseDbtMetrics_eq_ok, hversion, hmetrics, hmodels, PyValue.mapping_dict,
    PyValue.isMapping_dict, true_and]
  constructor
  · rintro ⟨_, -, index, outcomes, hindex, hmapped, -⟩
    refine ⟨returns_buildMeasureIndex.1 ⟨_, hindex⟩, fun item hitem => ?_⟩
    obtain ⟨outcome, -, houtcome⟩ := (mem_mapM hmapped).2 item hitem
    exact (returns_mapOneMetric (dictGet_buildMeasureIndex hindex)).1 ⟨_, houtcome⟩
  · rintro ⟨hread, hnodes⟩
    obtain ⟨index, hindex⟩ := returns_buildMeasureIndex.2 hread
    have hlast := dictGet_buildMeasureIndex hindex
    obtain ⟨outcomes, hmapped, hall⟩ := @mapM_forall₂ _ _ _
      (fun item => mapOneMetric P item.2 index importedEntityNames)
      (fun item => OutcomeOf item.2) metrics fun item hitem => by
        obtain ⟨outcome, houtcome⟩ := (returns_mapOneMetric (P := P) hlast).2 (hnodes item hitem)
        exact ⟨outcome, houtcome, outcomeOf_mapOneMetric hlast houtcome⟩
    exact ⟨outcomes, hall, index, outcomes, hindex, hmapped, rfl⟩

/-! ## Two manifests -/

/-- A measure expression is never parsed here. -/
def noExpressions : MeasureExpressions where
  parse _ := .error "no expression"
  columns_ident := by rintro _ _ ⟨⟩
  columns_ne_nil := by rintro _ _ ⟨⟩

/-- A simple metric of the measure `revenue_measure`. -/
def revenueNode (name : String) (filter : PyValue) : PyValue :=
  .dict [("name", .str name), ("type", .str "simple"),
    ("type_params", .dict [("measure", .dict [("name", .str "revenue_measure"),
      ("filter", .none)])]), ("filter", filter)]

/-- The semantic model `orders`. -/
def ordersModel : PyValue :=
  .dict [("name", .str "orders"),
    ("node_relation", .dict [("schema_name", .str "public"), ("alias", .str "orders")]),
    ("measures", .list [.dict [("name", .str "revenue_measure"), ("agg", .str "sum"),
      ("expr", .str "total_amount")]]),
    ("entities", .list [.dict [("name", .str "order"), ("type", .str "primary"),
      ("expr", .str "id")]])]

/-- The sections of a manifest with one metric. -/
def revenueMetrics (name : String) (filter : PyValue) : List (String × PyValue) :=
  [("metric.demo." ++ name, revenueNode name filter)]

/-- The semantic models of a manifest with one metric. -/
def revenueModels : List (String × PyValue) := [("semantic_model.demo.orders", ordersModel)]

/-- A manifest with one metric. -/
def revenueManifest (name : String) (filter : PyValue) : PyValue :=
  .dict [("metadata", .dict [("dbt_schema_version",
      .str "https://schemas.getdbt.com/dbt/manifest/v12.json")]),
    ("metrics", .dict (revenueMetrics name filter)),
    ("semantic_models", .dict revenueModels)]

theorem measuresRead_revenueModels : MeasuresRead revenueModels := by
  intro item hitem fields hfields
  obtain rfl := List.mem_singleton.1 hitem
  obtain rfl := Option.some.inj hfields
  rfl

theorem nodeReads_revenueNode {name : String} (hname : isIdent name = true) (filter : PyValue) :
    NodeReads revenueModels ["order"] (revenueNode name filter) := by
  refine ⟨_, rfl, fun _ => ⟨rfl, fun ref href => ?_⟩, ?_⟩
  · obtain rfl := Option.some.inj href
    rfl
  · rintro binding ⟨-, ref, href, hbinding⟩
    obtain rfl := Option.some.inj href
    obtain rfl := Option.some.inj hbinding
    refine fun _ _ => ⟨rfl, fun anchor _ hanchor => ?_⟩
    obtain rfl := Option.some.inj hanchor
    exact ⟨⟨rfl, trivial⟩, ⟨_, rfl, hname⟩, by decide⟩

theorem importsEach_iff_revenue : ImportsEach noExpressions
    (revenueManifest "total_revenue" .none) "manifest.json" ["order"]
    (revenueMetrics "total_revenue" .none) := by
  have hversion : checkSchemaVersion (revenueManifest "total_revenue" .none) "manifest.json" =
      .ok () := by rfl
  have hsections : HasSections (revenueManifest "total_revenue" .none)
      (revenueMetrics "total_revenue" .none) revenueModels := ⟨_, rfl, rfl, rfl⟩
  refine (importsEach_iff hversion hsections).2 ⟨measuresRead_revenueModels, ?_⟩
  intro item hitem
  obtain rfl := List.mem_singleton.1 hitem
  exact nodeReads_revenueNode (by decide) .none

/-- A name with a hyphen stops the import of every metric. -/
theorem not_importsEach : ¬ ImportsEach noExpressions (revenueManifest "total-revenue" .none)
    "manifest.json" ["order"] (revenueMetrics "total-revenue" .none) := by
  rintro ⟨outcomes, -, hparse⟩
  have hraised : (parseDbtMetrics noExpressions (revenueManifest "total-revenue" .none)
      "manifest.json" ["order"]).isOk = false := by decide
  rw [hparse] at hraised
  cases hraised

end Manifest

end SchemaBrain.Imports
