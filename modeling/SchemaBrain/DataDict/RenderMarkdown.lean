import SchemaBrain.Base.Markdown
import SchemaBrain.Core.SemanticRecords

/-!
# The Markdown dictionary

`render_markdown` over the model that the dictionary is rendered from. Names and types of
columns, measures and descriptions are arbitrary texts; the other texts of the model come from
checked values.
-/

namespace SchemaBrain.DataDict

open Base Core

/-! ## The model -/

/-- `DictColumn`. -/
structure DictColumn where
  name : String
  dataType : String
  nullable : Bool
  isPrimaryKey : Bool
  isIdentity : Bool
  description : Option String
  piiSensitivity : Sensitivity
  piiCategories : List PiiCategory

/-- `_dq`. -/
def dq (identifier : String) : String := "\"" ++ identifier ++ "\""

/-- `render_on_clause`. -/
def renderOnClause (onPairs : List (String × String)) (sourceAlias targetAlias : String) :
    String :=
  " AND ".intercalate (onPairs.map fun pair =>
    dq sourceAlias ++ "." ++ dq pair.1 ++ " = " ++ dq targetAlias ++ "." ++ dq pair.2)

/-- A column of an ON clause, or the text that masks it. -/
def isOnColumn (column : String) : Bool := isIdent column || column = "<redacted_column>"

/-- `_provenance`. -/
def provenance : InferenceMethod → String
  | .fkConstraint => "FK-derived"
  | .manuallyAuthored => "Operator-authored"
  | .llmSuggested => "Inferred"
  | .observedInQueryLog => "Log-mined"
  | .dbtImport => "Imported"

/-- `DictJoin`. -/
structure DictJoin where
  name : String
  description : String
  sourceEntity : String
  targetEntity : String
  onClause : String
  cardinality : Option Cardinality
  provenance : String
  name_ident : isIdent name = true := by exact Eq.refl true
  entities_ident : (isIdent sourceEntity && isIdent targetEntity) = true := by exact Eq.refl true
  on_rendered : ∃ pairs : List (String × String),
    (∀ pair ∈ pairs, isOnColumn pair.1 = true ∧ isOnColumn pair.2 = true) ∧
      onClause = renderOnClause pairs sourceEntity targetEntity
  provenance_label : ∃ method, provenance = DataDict.provenance method

/-- `DictMetric`. The measure is the name of a column, or the text of an expression. -/
structure DictMetric where
  name : String
  description : String
  agg : AggFunction
  measure : String
  timeDimension : Option String
  timeGrains : List TimeGrain
  name_ident : isIdent name = true := by exact Eq.refl true
  dimension_form : timeDimension.all (fun t => (parseQualifiedColumn t).isSome) = true := by
    exact Eq.refl true

/-- `DictEntity`. -/
structure DictEntity where
  name : String
  description : String
  qualifiedTable : QualifiedTable
  identity : String
  group : Group
  columns : List DictColumn
  joins : List DictJoin
  metrics : List DictMetric
  name_ident : isIdent name = true := by exact Eq.refl true
  table_ident : (isIdent qualifiedTable.schema && isIdent qualifiedTable.table) = true := by
    exact Eq.refl true
  identity_ident : isIdent identity = true := by exact Eq.refl true

/-- `DictSource`: a source id is a part of a digest. -/
structure DictSource where
  sourceConnectionId : String
  entities : List DictEntity
  id_plain : sourceConnectionId.toList.all Char.isAlphanum = true := by exact Eq.refl true

/-- `DictionaryModel`: the schema version is a number. -/
structure DictionaryModel where
  schemaVersion : String
  sources : List DictSource
  version_digits : schemaVersion.toList.all Char.isDigit = true := by exact Eq.refl true

/-- The entities of all sources. -/
def DictionaryModel.entities (model : DictionaryModel) : List DictEntity :=
  model.sources.flatMap (·.entities)

/-! ## Labels -/

/-- `CATEGORY_LABELS`. -/
def categoryLabel : PiiCategory → String
  | .contact => "Contact"
  | .financial => "Financial"
  | .paymentCard => "Payment Card"
  | .health => "Health"
  | .genetic => "Genetic"
  | .biometric => "Biometric"
  | .behavioral => "Behavioral"
  | .onlineIdentifier => "Online Identifier"
  | .credential => "Credential"
  | .governmentId => "Government ID"
  | .location => "Location"
  | .demographicProtected => "Protected Demographic"

/-- `SENSITIVITY_LABELS`. -/
def sensitivityLabel : Sensitivity → String
  | .isPublic => "Public"
  | .internal => "Internal"
  | .confidential => "Confidential"
  | .pii => "PII"

/-! ## Cells -/

/-- `text.replace(c, by)` of one character. -/
def replaceChar (c : Char) (replacement text : String) : String :=
  String.ofList (text.toList.flatMap fun c' => if c' = c then replacement.toList else [c'])

def emDash : String := "—"

def columnHeader : String :=
  "| Column | Type | Null | PK | Identity | Sensitivity | PII categories | Description |"

def columnDivider : String := "| --- | --- | --- | --- | --- | --- | --- | --- |"

def joinHeader : String := "| Join | On | Cardinality | Provenance | Description |"

def joinDivider : String := "| --- | --- | --- | --- | --- |"

def metricHeader : String :=
  "| Metric | Aggregation | Measure | Time dimension | Grains | Description |"

def metricDivider : String := "| --- | --- | --- | --- | --- | --- |"

/-- `_yes_no`. -/
def yesNo (value : Bool) : String := if value then "yes" else "no"

/-- `_escape_prose`. -/
def escapeProse (text : String) : String := replaceChar '$' "\\$" text

/-- `_cell`. -/
def cell (text : String) : String :=
  replaceChar '$' "\\$" (replaceChar '|' "\\|" (replaceChar '\n' " " text))

/-- `_desc_cell`. -/
def descCell : Option String → String
  | none => emDash
  | some text => if text = "" then emDash else cell text

/-- `_code`. -/
def code (value : String) : String := "`" ++ value ++ "`"

/-- `_pii_cell`. -/
def piiCell (categories : List PiiCategory) : String :=
  if categories = [] then emDash
  else " / ".intercalate (categories.map fun category =>
    code (categoryLabel category) ++
      if category ∈ catastrophicLeakCategories then " (catastrophic)" else "")

/-! ## Tables -/

/-- `| cell | cell | … |`. -/
def tableLine (cells : List String) : String :=
  "|" ++ String.join (cells.map fun cell => " " ++ cell ++ " |")

/-- The row of a column. -/
def columnRow (col : DictColumn) : String :=
  tableLine [code col.name, code col.dataType, yesNo col.nullable, yesNo col.isPrimaryKey,
    yesNo col.isIdentity, sensitivityLabel col.piiSensitivity, piiCell col.piiCategories,
    descCell col.description]

/-- `_columns_table`. -/
def columnsTable (columns : List DictColumn) (heading : String) : List String :=
  ["", heading ++ " Columns", "", columnHeader, columnDivider] ++ columns.map columnRow

/-- The row of a join. -/
def joinRow (join : DictJoin) : String :=
  tableLine [code join.name, code join.onClause, (join.cardinality.map word).getD emDash,
    join.provenance, descCell (some join.description)]

/-- `_joins_table`. -/
def joinsTable (joins : List DictJoin) (heading : String) : List String :=
  ["", heading ++ " Joins", "", joinHeader, joinDivider] ++ joins.map joinRow

/-- The row of a metric. -/
def metricRow (metric : DictMetric) : String :=
  tableLine [code metric.name, word metric.agg, code metric.measure,
    (metric.timeDimension.map code).getD emDash,
    if metric.timeGrains = [] then emDash else ", ".intercalate (metric.timeGrains.map word),
    descCell (some metric.description)]

/-- `_metrics_table`. -/
def metricsTable (metrics : List DictMetric) (heading : String) : List String :=
  ["", heading ++ " Metrics", "", metricHeader, metricDivider] ++ metrics.map metricRow

/-! ## The page -/

/-- The marks of a heading. -/
def headingMarks (level : Nat) : String := String.ofList (List.replicate level '#')

/-- `_entity_block`. -/
def entityBlock (entity : DictEntity) (level : Nat) : List String :=
  ["", headingMarks level ++ " " ++ entity.name, "",
    if entity.description = "" then emDash else escapeProse entity.description, "",
    "- **Table:** " ++ code entity.qualifiedTable.text,
    "- **Identity:** " ++ code entity.identity,
    "- **Group:** " ++ word entity.group] ++
  columnsTable entity.columns (headingMarks (level + 1)) ++
  (if entity.joins = [] then [] else joinsTable entity.joins (headingMarks (level + 1))) ++
  (if entity.metrics = [] then [] else metricsTable entity.metrics (headingMarks (level + 1)))

/-- The block of a source. -/
def sourceBlock (multiSource : Bool) (source : DictSource) : List String :=
  (if multiSource then ["", "## Source: " ++ code source.sourceConnectionId] else []) ++
    source.entities.flatMap fun entity => entityBlock entity (if multiSource then 3 else 2)

/-- The line below the title. -/
def generatedLine (schemaVersion : String) : String :=
  "Generated from the local SchemaBrain store (schema version " ++ schemaVersion ++
    "). Every indexed table, column, type, PII " ++
    "classification, semantic join, and metric."

/-- The lines of the page. -/
def pageLines (model : DictionaryModel) : List String :=
  ["# Data dictionary", "", generatedLine model.schemaVersion] ++
    model.sources.flatMap (sourceBlock (1 < model.sources.length))

/-- `render_markdown`. -/
def renderMarkdown (model : DictionaryModel) : String :=
  "\n".intercalate (pageLines model) ++ "\n"

end SchemaBrain.DataDict
