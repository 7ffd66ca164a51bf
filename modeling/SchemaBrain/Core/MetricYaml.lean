import SchemaBrain.Core.JoinYaml
import SchemaBrain.Core.MeasureExpression

/-!
# Metric files

`metrics/yaml_grammar.py` over the constructors of `MetricMeasure` and `Metric`, and the checks
that its parser runs.
-/

namespace SchemaBrain.Core

open Base

section Parser

variable (limit : Nat) (python : PythonAst)

/-- A field that must be a string, printed when it is none. -/
def strField (field : String) : YamlValue → Except YamlFailure String
  | .str s => .ok s
  | raw => refuse limit [raw] (field ++ " must be a string " ++ raw.got)

/-- `MetricMeasure(...)` between `try` and `except ValueError`. -/
def metricMeasure (agg : String) (column expression : Option String) :
    Except YamlFailure (MeasureRecord python.expressions) :=
  match expression.map (parseMeasureExpression python) with
  | some (.error .recursionError) => .error .recursionError
  | some (.error .memoryError) => .error .memoryError
  | some (.error (.valueError message)) => .error (.yaml ("measure: " ++ message))
  | _ => rewrap "measure: " (MeasureRecord.make python.expressions agg column expression)

/-- The measure of an aggregate with its column or its expression. -/
def parseMeasureRef (agg : String) :
    Option YamlValue → Option YamlValue → Except YamlFailure (MeasureRecord python.expressions)
  | some _, some _ => .error (.yaml
      "measure must set exactly one of `column` or `expression`, not both")
  | none, none => .error (.yaml ("measure must set one of `column` (bare-column measure) or " ++
      "`expression` (composite arithmetic over multiple columns)"))
  | some column, none => do
    let column ← strField limit "measure.column" column
    metricMeasure python agg (some column) none
  | none, some expression => do
    let expression ← strField limit "measure.expression" expression
    metricMeasure python agg none (some expression)

/-- `_parse_measure`. -/
def parseMeasure : YamlValue → Except YamlFailure (MeasureRecord python.expressions)
  | .map members => do
    checkKeys limit "missing required measure field(s)" "unknown measure keys"
      ["agg", "column", "expression"] ["agg"] members
    let agg ← parseWord limit "measure.agg" (validWords AggFunction)
      ((yamlField members "agg").getD .null)
    parseMeasureRef limit python agg (yamlField members "column") (yamlField members "expression")
  | raw => refuse limit [raw] ("measure must be a mapping " ++ raw.got)

/-- One item of `time_grains`. -/
def parseGrain : YamlValue → Except YamlFailure String
  | .str grain =>
    if grain ∈ validWords TimeGrain then .ok grain
    else .error (.yaml ("time_grains items must be one of " ++
      pyReprList (pySorted (validWords TimeGrain)) ++ " (got " ++ pyRepr grain ++ ")"))
  | item => refuse limit [item] ("time_grains items must be strings " ++ item.got)

/-- The value of `time_grains`. -/
def parseGrains : YamlValue → Except YamlFailure (List String)
  | .seq [] => .error (.yaml
      "time_grains must be a non-empty list when time_dimension is set")
  | .seq items => items.mapM (parseGrain limit)
  | raw => refuse limit [raw] ("time_grains must be a list " ++ raw.got)

/-- `_parse_time`. -/
def parseTime : Option YamlValue → Option YamlValue →
    Except YamlFailure (Option String × List String)
  | some _, none => .error (.yaml ("time_dimension is set but time_grains is missing; " ++
      "either set both or neither"))
  | none, some _ => .error (.yaml ("time_grains is set but time_dimension is missing; " ++
      "either set both or neither"))
  | none, none => .ok (none, [])
  | some dimension, some grains => do
    let dimension ← strField limit "time_dimension" dimension
    let grains ← parseGrains limit grains
    return (some dimension, grains)

/-- `_parse_origin`. -/
def parseMetricOrigin (raw : YamlValue) : Except YamlFailure String := do
  let origin ← parseWord limit "origin" (validWords Origin) raw
  refuseDbtImport ("origin: dbt_import is reserved for the dbt-metrics importer; hand-authored " ++
    "metric files use 'manual' or 'suggested'. Run `schemabrain import dbt <manifest> " ++
    "--include-metrics` to import dbt-owned metrics instead.") origin
  return origin

/-- `parse_metric_yaml` of the top-level mapping. -/
def parseMetricFields (data : List (YamlScalar × YamlValue)) :
    Except YamlFailure (MetricRecord python.expressions) := do
  checkKeys limit "missing required top-level field(s)" "unknown top-level keys"
    ["version", "name", "description", "entity", "measure", "time_dimension", "time_grains",
      "origin"]
    ["version", "name", "entity", "measure"] data
  checkVersion limit "metric" ((yamlField data "version").getD .null)
  let name ← requireStr limit data "name"
  let description ← optionalStr limit data "description" ""
  let entity ← requireStr limit data "entity"
  let measure ← parseMeasure limit python ((yamlField data "measure").getD .null)
  let time ← parseTime limit (yamlField data "time_dimension") (yamlField data "time_grains")
  let origin ← parseMetricOrigin limit ((yamlField data "origin").getD (.str "manual"))
  rewrap "metric validation failed: " (MetricRecord.make name description entity measure time.1
    time.2 origin "manually_authored" "applied")

end Parser

/-- `parse_metric_yaml`. -/
def parseMetricYaml (yaml : YamlLibrary) (python : PythonAst) (text : String) :
    Except YamlFailure (MetricRecord python.expressions) :=
  parseFile yaml "failed to parse metric YAML"
    (parseTopLevel "metric" (parseMetricFields yaml.maxStrDigits python)) text

/-! ## The checks of the constructors -/

theorem measureRecord_raises (P : MeasureExpressions) (agg : String)
    (column expression : Option String) :
    RaisesValueError (MeasureRecord.make P agg column expression) := by
  refine (requireWord_raises _ _).bind fun agg => ?_
  split
  · exact (requireIdent_raises _ _).bind fun column => .ok _
  · split
    · exact .error _
    · exact .ok _
  · exact .error _

theorem requireGrains_raises (words : List String) : RaisesValueError (requireGrains words) := by
  have hwords : RaisesValueError (words.mapM
      (requireWord (α := TimeGrain) "time_grains must be a subset of")) :=
    .mapM fun w => requireWord_raises _ w
  unfold requireGrains
  split
  · next e he =>
    obtain ⟨message, rfl⟩ := hwords e he
    exact .error message
  · split
    · split
      · exact .ok _
      · exact .error _
    · exact .error _

/-- The constructor of `Metric` raises `ValueError` only. -/
theorem metricRecord_raises {P : MeasureExpressions} (name description entity : String)
    (measure : MeasureRecord P) (timeDimension : Option String) (timeGrains : List String)
    (origin inferenceMethod validationState : String) :
    RaisesValueError (MetricRecord.make name description entity measure timeDimension timeGrains
      origin inferenceMethod validationState) := by
  refine (requireIdent_raises _ _).bind fun name => ?_
  refine (requireIdent_raises _ _).bind fun entity => ?_
  split
  · exact .error _
  · split
    · exact .error _
    · split
      · refine (requireGrains_raises _).bind fun grains => ?_
        refine (requireWord_raises _ _).bind fun origin => ?_
        refine (requireWord_raises _ _).bind fun inferenceMethod => ?_
        exact (requireWord_raises _ _).bind fun validationState => .ok _
      · exact .error _

/-! ## The checks of the parser -/

section Checks

variable (limit : Nat) (python : PythonAst)

/-- The expression is parsed; a parser that runs out of stack or memory raises that. -/
def expressionCheck : YamlValue → Check
  | .str text =>
    match parseMeasureExpression python text with
    | .ok _ => ⟨true, false⟩
    | .error .recursionError | .error .memoryError => ⟨false, true⟩
    | .error _ => ⟨false, false⟩
  | _ => ⟨false, false⟩

/-- The checks of a column or an expression, of which there must be one. -/
def measureRefChecks : Option YamlValue → Option YamlValue → List Check
  | some column, none => [printedCheck limit isStr column, ⟨isIdentValue column, false⟩]
  | none, some expression =>
    [printedCheck limit isStr expression, expressionCheck python expression]
  | _, _ => [⟨false, false⟩]

/-- The checks of a measure. -/
def measureChecks : YamlValue → List Check
  | .map members => [keysCheck limit ["agg", "column", "expression"] ["agg"] members,
      printedCheck limit (isWordOf (validWords AggFunction))
        ((yamlField members "agg").getD .null)] ++
      measureRefChecks limit python (yamlField members "column") (yamlField members "expression")
  | raw => [printedCheck limit (fun _ => false) raw]

/-- The checks of `time_grains`. -/
def grainsChecks : YamlValue → List Check
  | .seq [] => [⟨false, false⟩]
  | .seq items => items.flatMap fun item =>
      [printedCheck limit (isWordOf (validWords TimeGrain)) item]
  | raw => [printedCheck limit (fun _ => false) raw]

/-- The checks of the time dimension and its grains. -/
def timeChecks : Option YamlValue → Option YamlValue → List Check
  | none, none => []
  | some dimension, some grains =>
    [printedCheck limit isStr dimension] ++ grainsChecks limit grains
  | _, _ => [⟨false, false⟩]

/-- The checks of `parse_metric_yaml` before it constructs the metric. -/
def metricChecks (data : List (YamlScalar × YamlValue)) : List Check :=
  [keysCheck limit ["version", "name", "description", "entity", "measure", "time_dimension",
      "time_grains", "origin"] ["version", "name", "entity", "measure"] data,
    printedCheck limit isOne ((yamlField data "version").getD .null),
    printedCheck limit isText ((yamlField data "name").getD .null),
    printedCheck limit isStr (optionalField data "description"),
    printedCheck limit isText ((yamlField data "entity").getD .null)] ++
    (measureChecks limit python ((yamlField data "measure").getD .null) ++
      (timeChecks limit (yamlField data "time_dimension") (yamlField data "time_grains") ++
        fileOriginChecks limit ((yamlField data "origin").getD (.str "manual"))))

variable {limit python}

theorem runs_strField (field : String) (raw : YamlValue) :
    Runs (strField limit field raw) [printedCheck limit isStr raw] := by
  unfold strField
  split
  · exact .of_ok rfl rfl
  · next hother =>
    refine .refuse ?_ (by simp [printedCheck])
    unfold printedCheck isStr
    split
    · next s => exact absurd rfl (hother s)
    · rfl

/-- A field that was read is the string of its value. -/
theorem strField_ok {field s : String} {raw : YamlValue} (h : strField limit field raw = .ok s) :
    raw = .str s := by
  unfold strField at h
  split at h
  · rw [Except.ok.inj h]
  · unfold refuse at h
    split at h <;> simp at h

private theorem make_column_isOk {P : MeasureExpressions} {agg column : String}
    (hagg : agg ∈ validWords AggFunction) :
    (MeasureRecord.make P agg (some column) none).isOk = isIdent column := by
  obtain ⟨a, -, rfl⟩ := List.mem_map.1 hagg
  unfold MeasureRecord.make requireIdent
  simp only [requireWord_word, bind, Except.bind]
  by_cases hcolumn : isIdent column = true
  · simp [hcolumn, pure, Except.pure, Except.isOk, Except.toBool]
  · simp [hcolumn, Except.isOk, Except.toBool]

private theorem make_expression_isOk {P : MeasureExpressions} {agg text : String}
    (hagg : agg ∈ validWords AggFunction) :
    (MeasureRecord.make P agg none (some text)).isOk = (P.parse text).isOk := by
  obtain ⟨a, -, rfl⟩ := List.mem_map.1 hagg
  unfold MeasureRecord.make
  simp only [requireWord_word, bind, Except.bind]
  split
  · next reason hparse => simp [hparse, Except.isOk, Except.toBool]
  · next ast hparse => simp [hparse, pure, Except.pure, Except.isOk, Except.toBool]

theorem runs_metricMeasure_column {agg column : String} (hagg : agg ∈ validWords AggFunction) :
    Runs (metricMeasure python agg (some column) none)
      [⟨isIdentValue (.str column), false⟩] :=
  runs_rewrap (measureRecord_raises _ _ _ _) (make_column_isOk hagg).symm rfl

theorem runs_metricMeasure_expression {agg text : String} (hagg : agg ∈ validWords AggFunction) :
    Runs (metricMeasure python agg none (some text)) [expressionCheck python (.str text)] := by
  have hmake : ∀ {c : Check}, c.passes = (python.expressions.parse text).isOk →
      c.foreign = false →
      Runs (rewrap "measure: " (MeasureRecord.make python.expressions agg none (some text))) [c] :=
    fun hpasses hforeign => runs_rewrap (measureRecord_raises _ _ _ _)
      (hpasses.trans (make_expression_isOk hagg).symm) hforeign
  unfold metricMeasure expressionCheck
  simp only [Option.map_some]
  cases hparse : parseMeasureExpression python text with
  | ok ast => exact hmake (by simp [PythonAst.expressions, hparse, Except.isOk, Except.toBool]) rfl
  | error e =>
    cases e with
    | malformed reason =>
      exact hmake (by simp [PythonAst.expressions, hparse, Except.isOk, Except.toBool]) rfl
    | valueError message => exact .own rfl rfl
    | recursionError => exact .of_error rfl rfl (by simp [YamlFailure.Foreign])
    | memoryError => exact .of_error rfl rfl (by simp [YamlFailure.Foreign])

theorem runs_parseMeasureRef {agg : String} (hagg : agg ∈ validWords AggFunction)
    (column expression : Option YamlValue) :
    Runs (parseMeasureRef limit python agg column expression)
      (measureRefChecks limit python column expression) := by
  unfold parseMeasureRef
  split
  · exact .own rfl rfl
  · exact .own rfl rfl
  · next column =>
    refine (runs_strField _ _).bind fun column hcolumn => ?_
    rw [strField_ok hcolumn]
    exact runs_metricMeasure_column hagg
  · next expression =>
    refine (runs_strField _ _).bind fun text htext => ?_
    rw [strField_ok htext]
    exact runs_metricMeasure_expression hagg

theorem runs_parseMeasure (raw : YamlValue) :
    Runs (parseMeasure limit python raw) (measureChecks limit python raw) := by
  unfold parseMeasure measureChecks
  split
  · next members =>
    refine (runs_checkKeys _ _ _ _ members).bind fun _ _ => ?_
    refine (runs_parseWord _ _ _).bind fun agg hagg => ?_
    exact runs_parseMeasureRef (parseWord_ok hagg).2 _ _
  · exact .refuse rfl (by simp [printedCheck])

theorem runs_parseGrain (item : YamlValue) :
    Runs (parseGrain limit item)
      [printedCheck limit (isWordOf (validWords TimeGrain)) item] := by
  unfold parseGrain
  split
  · next grain =>
    split
    · next hmem => exact .of_ok rfl (by simp [printedCheck, isWordOf, hmem])
    · next hnot =>
      exact .own (by simp [printedCheck, isWordOf, hnot])
        (by simp [printedCheck, YamlValue.prints, YamlScalar.prints])
  · next hother =>
    refine .refuse ?_ (by simp [printedCheck])
    unfold printedCheck isWordOf
    split
    · next grain => exact absurd rfl (hother grain)
    · rfl

theorem runs_parseGrains (raw : YamlValue) :
    Runs (parseGrains limit raw) (grainsChecks limit raw) := by
  unfold parseGrains grainsChecks
  split
  · exact .own rfl rfl
  · exact .mapM fun item _ => runs_parseGrain item
  · exact .refuse rfl (by simp [printedCheck])

theorem runs_parseTime (dimension grains : Option YamlValue) :
    Runs (parseTime limit dimension grains) (timeChecks limit dimension grains) := by
  unfold parseTime
  split
  · exact .own rfl rfl
  · exact .own rfl rfl
  · exact .ok _
  · next dimension grains =>
    refine (runs_strField _ _).bind fun dimension _ => ?_
    rw [← List.append_nil (grainsChecks limit grains)]
    exact (runs_parseGrains _).bind fun grains _ => .ok _

theorem runs_parseMetricOrigin (raw : YamlValue) :
    Runs (parseMetricOrigin limit raw) (fileOriginChecks limit raw) := by
  refine (runs_parseWord _ _ _).bind fun origin horigin => ?_
  rw [(parseWord_ok horigin).1, ← List.append_nil [_]]
  exact (runs_refuseDbtImport _ _).bind fun _ _ => .ok origin

/-- What `parse_metric_yaml` raises is read off its checks. -/
theorem guards_parseMetricFields (data : List (YamlScalar × YamlValue)) :
    Guards YamlFailure.Foreign (parseMetricFields limit python data)
      (metricChecks limit python data) := by
  unfold parseMetricFields metricChecks
  refine (runs_checkKeys _ _ _ _ data).bind_guards fun _ _ => ?_
  refine (runs_checkVersion _ _).bind_guards fun _ _ => ?_
  refine (runs_requireStr data "name").bind_guards fun name _ => ?_
  refine (runs_optionalStr data "description" "").bind_guards fun description _ => ?_
  refine (runs_requireStr data "entity").bind_guards fun entity _ => ?_
  refine (runs_parseMeasure _).bind_guards fun measure _ => ?_
  refine (runs_parseTime _ _).bind_guards fun time _ => ?_
  rw [← List.append_nil (fileOriginChecks _ _)]
  refine (runs_parseMetricOrigin _).bind_guards fun origin _ => ?_
  exact guards_rewrap (metricRecord_raises _ _ _ _ _ _ _ _ _)

end Checks

end SchemaBrain.Core
