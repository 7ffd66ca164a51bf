import SchemaBrain.Base.JsonReader
import SchemaBrain.Base.Yaml
import SchemaBrain.Core.Model

/-!
# Entities, joins and metrics as rows

The whole dataclasses of the semantic layer with the checks of their constructors, the rows
that `SQLiteStore` keeps them in, and the decoders, which run the checks again. A row decodes
to the value that it was written from.
-/

namespace SchemaBrain.Core

open Base

/-! ## Closed sets of words -/

/-- A `Literal` type: its values in order, each with a word of its own. -/
class Literal (α : Type) where
  values : List α
  word : α → String
  mem_values : ∀ a, a ∈ values
  word_injective : Function.Injective word

export Literal (word)

/-- `Group`. -/
inductive Group
  | identity
  | billing
  | activity
  | other
  deriving DecidableEq, Repr

/-- `BindConfidence`. -/
inductive BindConfidence
  | high
  | medium
  | low
  deriving DecidableEq, Repr

instance : Literal Origin where
  values := [.manual, .suggested, .dbtImport]
  word
    | .manual => "manual"
    | .suggested => "suggested"
    | .dbtImport => "dbt_import"
  mem_values a := by cases a <;> decide
  word_injective a b := by cases a <;> cases b <;> decide

instance : Literal InferenceMethod where
  values := [.manuallyAuthored, .llmSuggested, .fkConstraint, .dbtImport, .observedInQueryLog]
  word
    | .manuallyAuthored => "manually_authored"
    | .llmSuggested => "llm_suggested"
    | .fkConstraint => "fk_constraint"
    | .dbtImport => "dbt_import"
    | .observedInQueryLog => "observed_in_query_log"
  mem_values a := by cases a <;> decide
  word_injective a b := by cases a <;> cases b <;> decide

instance : Literal ValidationState where
  values := [.draft, .applied, .confirmed]
  word
    | .draft => "draft"
    | .applied => "applied"
    | .confirmed => "confirmed"
  mem_values a := by cases a <;> decide
  word_injective a b := by cases a <;> cases b <;> decide

instance : Literal Group where
  values := [.identity, .billing, .activity, .other]
  word
    | .identity => "identity"
    | .billing => "billing"
    | .activity => "activity"
    | .other => "other"
  mem_values a := by cases a <;> decide
  word_injective a b := by cases a <;> cases b <;> decide

instance : Literal BindConfidence where
  values := [.high, .medium, .low]
  word
    | .high => "high"
    | .medium => "medium"
    | .low => "low"
  mem_values a := by cases a <;> decide
  word_injective a b := by cases a <;> cases b <;> decide

instance : Literal Cardinality where
  values := [.oneToOne, .oneToMany, .manyToOne, .manyToMany]
  word
    | .oneToOne => "one_to_one"
    | .oneToMany => "one_to_many"
    | .manyToOne => "many_to_one"
    | .manyToMany => "many_to_many"
  mem_values a := by cases a <;> decide
  word_injective a b := by cases a <;> cases b <;> decide

instance : Literal AggFunction where
  values := [.sum, .count, .countDistinct, .avg, .min, .max]
  word := AggFunction.word
  mem_values a := by cases a <;> decide
  word_injective a b := by cases a <;> cases b <;> decide

instance : Literal TimeGrain where
  values := [.day, .week, .month, .quarter, .year]
  word := TimeGrain.word
  mem_values a := by cases a <;> decide
  word_injective a b := by cases a <;> cases b <;> decide

/-! ## The checks of the constructors -/

/-- `repr` of an optional text. -/
def pyReprOption : Option String → String
  | none => "None"
  | some text => pyRepr text

/-- A field that must match `_IDENT_RE`. -/
def requireIdent (field value : String) : Except PyError {s : String // isIdent s = true} :=
  if h : isIdent value = true then .ok ⟨value, h⟩
  else .error (.valueError (field ++ " must be an identifier (got " ++ pyRepr value ++ ")"))

/-- A field that must be a word of a closed set, under the rule that the message states. -/
def requireWord {α : Type} [Literal α] (rule value : String) : Except PyError α :=
  match (Literal.values (α := α)).find? (word · = value) with
  | some a => .ok a
  | none => .error (.valueError (rule ++ " " ++ pyReprList (pySorted (Literal.values.map
      (word (α := α)))) ++ " (got " ++ pyRepr value ++ ")"))

/-- A nullable field of a closed set. -/
def requireOptionalWord {α : Type} [Literal α] (rule : String) :
    Option String → Except PyError (Option α)
  | none => .ok none
  | some value => (requireWord rule value).map some

theorem isIdent_checked (checked : {s : String // isIdent s = true}) : isIdent checked.1 = true :=
  checked.2

theorem requireIdent_of_isIdent {field value : String} (h : isIdent value = true) :
    requireIdent field value = .ok ⟨value, h⟩ := dif_pos h

@[simp] theorem requireWord_word {α : Type} [Literal α] (rule : String) (a : α) :
    requireWord rule (word a) = .ok a := by
  unfold requireWord
  split
  · next b hb =>
    have hword := List.find?_some hb
    rw [Literal.word_injective (of_decide_eq_true hword)]
  · next hnone =>
    rw [List.find?_eq_none] at hnone
    exact absurd (decide_eq_true rfl) (hnone a (Literal.mem_values a))

@[simp] theorem requireOptionalWord_word {α : Type} [Literal α] (rule : String) (a : Option α) :
    requireOptionalWord rule (a.map word) = .ok a := by
  cases a with
  | none => rfl
  | some a => simp [requireOptionalWord, Except.map]

/-! ## Entities -/

/-- `Entity`, with the fields that no compiler reads. -/
structure EntityRecord extends Entity where
  description : String
  origin : Origin := .manual
  inferenceMethod : InferenceMethod := .manuallyAuthored
  validationState : ValidationState := .applied
  group : Group := .other
  bindConfidence : Option BindConfidence := none
  rationale : String := ""
  deriving DecidableEq

/-- The constructor of `Entity`, on a `SingleTableBinding` of the qualified table. -/
def EntityRecord.make (name description qualifiedTable identity origin inferenceMethod
    validationState group : String) (bindConfidence : Option String) (rationale : String) :
    Except PyError EntityRecord :=
  match hbinding : parseQualifiedColumn qualifiedTable with
  | none => .error (.valueError ("qualified_table must be 'schema.table' form (got " ++
      pyRepr qualifiedTable ++ ")"))
  | some binding => do
    let name ← requireIdent "name" name
    let identity ← requireIdent "identity" identity
    let origin ← requireWord "origin must be one of" origin
    let inferenceMethod ← requireWord "inference_method must be one of" inferenceMethod
    let validationState ← requireWord "validation_state must be one of" validationState
    let group ← requireWord "group must be one of" group
    let bindConfidence ←
      requireOptionalWord "bind_confidence must be None or one of" bindConfidence
    return {
      name := name.1
      binding := ⟨binding.1, binding.2⟩
      identity := identity.1
      name_ident := name.2
      binding_ident := by
        obtain ⟨hschema, htable⟩ := parseQualifiedColumn_ident hbinding
        simp [hschema, htable]
      identity_ident := identity.2
      description := description
      origin := origin
      inferenceMethod := inferenceMethod
      validationState := validationState
      group := group
      bindConfidence := bindConfidence
      rationale := rationale }

/-- A row of `entities`, less the timestamps. -/
structure EntityRow where
  sourceConnectionId : String
  name : String
  description : String
  bindingSchema : String
  bindingTable : String
  identity : String
  origin : String
  inferenceMethod : String
  validationState : String
  group : String
  bindConfidence : Option String
  rationale : String
  deriving DecidableEq

/-- The values that `write_entity` inserts. -/
def EntityRecord.row (sourceConnectionId : String) (e : EntityRecord) : EntityRow where
  sourceConnectionId := sourceConnectionId
  name := e.name
  description := e.description
  bindingSchema := (splitDot e.binding.text).1
  bindingTable := (splitDot e.binding.text).2
  identity := e.identity
  origin := word e.origin
  inferenceMethod := word e.inferenceMethod
  validationState := word e.validationState
  group := word e.group
  bindConfidence := e.bindConfidence.map word
  rationale := e.rationale

/-- `_row_to_entity`. -/
def rowToEntity (row : EntityRow) : Except PyError EntityRecord :=
  EntityRecord.make row.name row.description (row.bindingSchema ++ "." ++ row.bindingTable)
    row.identity row.origin row.inferenceMethod row.validationState row.group row.bindConfidence
    row.rationale

theorem parseQualifiedColumn_text {schema table : String} (hschema : isIdent schema = true)
    (htable : isIdent table = true) :
    parseQualifiedColumn (schema ++ "." ++ table) = some (schema, table) := by
  rw [parseQualifiedColumn, splitDot_append hschema]
  simp [hschema, htable]

/-- A row of `entities` reads back as the entity that was written. -/
theorem rowToEntity_row (sourceConnectionId : String) (e : EntityRecord) :
    rowToEntity (e.row sourceConnectionId) = .ok e := by
  have hident := e.binding_ident
  rw [Bool.and_eq_true] at hident
  have hsplit : splitDot e.binding.text = (e.binding.schema, e.binding.table) :=
    splitDot_append hident.1 _
  have hbinding : parseQualifiedColumn
      ((splitDot e.binding.text).1 ++ "." ++ (splitDot e.binding.text).2) =
        some (e.binding.schema, e.binding.table) := by
    rw [hsplit]
    exact parseQualifiedColumn_text hident.1 hident.2
  simp only [rowToEntity, EntityRecord.row, EntityRecord.make]
  split
  · next hnone => rw [hbinding] at hnone; cases hnone
  · next binding hsome =>
    obtain rfl := Option.some.inj (hbinding.symm.trans hsome)
    simp only [requireIdent_of_isIdent e.name_ident, requireIdent_of_isIdent e.identity_ident,
      requireWord_word, requireOptionalWord_word, bind, Except.bind]
    rfl

/-! ## Canonical joins -/

/-- `CanonicalJoin`, with the fields that no compiler reads. -/
structure JoinRecord extends CanonicalJoin where
  description : String
  origin : Origin := .manual
  inferenceMethod : InferenceMethod := .manuallyAuthored
  validationState : ValidationState := .applied
  deriving DecidableEq

/-- The constructor of `CanonicalJoin`. -/
def JoinRecord.make (name description sourceEntity targetEntity : String)
    (on : List JoinColumnPair) (origin : String) (cardinality : Option String)
    (inferenceMethod validationState : String) : Except PyError JoinRecord := do
  let name ← requireIdent "name" name
  let source ← requireIdent "source_entity" sourceEntity
  let target ← requireIdent "target_entity" targetEntity
  if hself : source.1 = target.1 then
    .error (.valueError ("self-joins are not supported (got source_entity == target_entity == " ++
      pyRepr source.1 ++ "). Workaround: model each side as a separate entity (e.g. `manager` " ++
      "and `direct_report` for an employee reports-to graph), then define the canonical join " ++
      "on the FK column from one side."))
  else if hon : on = [] then
    .error (.valueError ("canonical join " ++ pyRepr name.1 ++
      " requires at least one `on` column pair (cross joins are not canonical)"))
  else
    let origin ← requireWord "origin must be one of" origin
    let cardinality ← requireOptionalWord "cardinality must be None or one of" cardinality
    let inferenceMethod ← requireWord "inference_method must be one of" inferenceMethod
    let validationState ← requireWord "validation_state must be one of" validationState
    return {
      name := name.1
      sourceEntity := source.1
      targetEntity := target.1
      on := on
      cardinality := cardinality
      name_ident := name.2
      source_ident := source.2
      target_ident := target.2
      no_self := hself
      on_ne_nil := hon
      description := description
      origin := origin
      inferenceMethod := inferenceMethod
      validationState := validationState }

/-- A row of `canonical_joins`, less the timestamps. -/
structure JoinRow where
  sourceConnectionId : String
  name : String
  description : String
  sourceEntity : String
  targetEntity : String
  onColumnsJson : String
  origin : String
  inferenceMethod : String
  validationState : String
  cardinality : Option String
  deriving DecidableEq

/-- `json.dumps([[pair.source_column, pair.target_column] for pair in join.on])`. -/
def onColumnsJson (on : List JoinColumnPair) : String :=
  String.ofList (dumpList (on.map fun p =>
    dumpList [Json.dumpStr Json.escapeAscii p.sourceColumn,
      Json.dumpStr Json.escapeAscii p.targetColumn]))

example : onColumnsJson [⟨"a", "b", by decide, by decide⟩, ⟨"c", "d", by decide, by decide⟩] =
    "[[\"a\", \"b\"], [\"c\", \"d\"]]" := by decide

/-- The values that `write_canonical_join` inserts. -/
def JoinRecord.row (sourceConnectionId : String) (j : JoinRecord) : JoinRow where
  sourceConnectionId := sourceConnectionId
  name := j.name
  description := j.description
  sourceEntity := j.sourceEntity
  targetEntity := j.targetEntity
  onColumnsJson := onColumnsJson j.on
  origin := word j.origin
  inferenceMethod := word j.inferenceMethod
  validationState := word j.validationState
  cardinality := j.cardinality.map word

/-- What a `for` over a document binds: items, characters or keys. -/
def iterate : JsonDoc → Option (List JsonDoc)
  | .arr items => some items
  | .str s => some (s.toList.map fun c => .str (String.singleton c))
  | .obj members => some (members.map fun m => .str m.1)
  | _ => none

/-- `JoinColumnPair(source_column=src, target_column=tgt)` of an unpacked item. -/
def joinColumnPair (item : JsonDoc) : Option JoinColumnPair :=
  match iterate item with
  | some [.str source, .str target] =>
    if h : isIdent source = true ∧ isIdent target = true then some ⟨source, target, h.1, h.2⟩
    else none
  | _ => none

/-- The pairs of an `on_columns_json` text. -/
def onPairs (text : String) : Option (List JoinColumnPair) :=
  (loads text).bind fun doc => (iterate doc).bind fun items => items.mapM joinColumnPair

/-- What a decoder raises. -/
inductive RowError
  | invalid (error : PyError)
  | corruptJoin (name : String)
  | malformedMetric (name : String) (error : PyError)
  deriving DecidableEq, Repr

/-- `_row_to_canonical_join`. -/
def rowToCanonicalJoin (row : JoinRow) : Except RowError JoinRecord :=
  match onPairs row.onColumnsJson with
  | none => .error (.corruptJoin row.name)
  | some on => (JoinRecord.make row.name row.description row.sourceEntity row.targetEntity on
      row.origin row.cardinality row.inferenceMethod row.validationState).mapError .invalid

private theorem plain_of_isIdentChar {c : Char} (h : isIdentChar c = true) :
    c ≠ '"' ∧ c ≠ '\\' ∧ 32 ≤ c.toNat ∧ c.toNat < 127 := by
  have hbounds : 32 ≤ c.toNat ∧ c.toNat < 127 := by
    simp only [isIdentChar, Bool.or_eq_true, decide_eq_true_eq] at h
    rcases h with (h | rfl) | rfl
    · have hrange := toNat_of_isAlphanum h
      omega
    · decide
    · decide
  refine ⟨?_, ?_, hbounds⟩ <;> rintro rfl <;> exact absurd h (by decide)

private theorem escapeAscii_of_isIdentChar {c : Char} (h : isIdentChar c = true) :
    Json.escapeAscii c = [c] := by
  obtain ⟨hquote, hback, hlow, hhigh⟩ := plain_of_isIdentChar h
  have hshort : Json.shortEscape c = none := by
    unfold Json.shortEscape
    rw [if_neg hquote, if_neg hback, if_neg, if_neg, if_neg, if_neg (by omega), if_neg (by omega)]
    all_goals rintro rfl; exact absurd hlow (by decide)
  simp [Json.escapeAscii, hshort, hlow, hhigh]

private theorem reads_ident {s : String} (h : isIdent s = true) :
    JsonReader.Reads (Json.dumpStr Json.escapeAscii s) (.str s) := by
  have hchars : s.toList.flatMap Json.escapeAscii = s.toList := by
    rw [List.flatMap_congr fun c hc => escapeAscii_of_isIdentChar (isIdentChar_of_mem h hc)]
    simp
  rw [Json.dumpStr, hchars]
  apply JsonReader.reads_str
  intro c hc
  obtain ⟨hquote, hback, hlow, -⟩ := plain_of_isIdentChar (isIdentChar_of_mem h hc)
  exact ⟨hquote, hback, hlow⟩

/-- The pairs of a join read back from their text. -/
theorem onPairs_onColumnsJson (on : List JoinColumnPair) :
    onPairs (onColumnsJson on) = some on := by
  have hloads : loads (onColumnsJson on) = some (.arr (on.map fun p =>
      .arr [.str p.sourceColumn, .str p.targetColumn])) := by
    apply JsonReader.loads_of_reads
    apply JsonReader.reads_dumpList
    rw [List.forall₂_map_left_iff, List.forall₂_map_right_iff, List.forall₂_same]
    intro p _
    exact JsonReader.reads_dumpList
      (.cons (reads_ident p.source_ident) (.cons (reads_ident p.target_ident) .nil))
  rw [onPairs, hloads, Option.bind_some, iterate, Option.bind_some, List.mapM_map]
  have hpair : (joinColumnPair ∘ fun p : JoinColumnPair =>
      .arr [.str p.sourceColumn, .str p.targetColumn]) = pure := by
    funext p
    simp [joinColumnPair, iterate, p.source_ident, p.target_ident]
  rw [hpair, List.mapM_pure]
  simp

/-- A row of `canonical_joins` reads back as the join that was written. -/
theorem rowToCanonicalJoin_row (sourceConnectionId : String) (j : JoinRecord) :
    rowToCanonicalJoin (j.row sourceConnectionId) = .ok j := by
  simp only [rowToCanonicalJoin, JoinRecord.row, onPairs_onColumnsJson, JoinRecord.make,
    requireIdent_of_isIdent j.name_ident, requireIdent_of_isIdent j.source_ident,
    requireIdent_of_isIdent j.target_ident, dif_neg j.no_self, dif_neg j.on_ne_nil,
    requireWord_word, requireOptionalWord_word, bind, Except.bind]
  rfl

/-! ## Metrics -/

/-- `parse_measure_expression`, with the reason where it raises: a parsed expression reads
identifiers only, and one at least. -/
structure MeasureExpressions where
  parse : String → Except String MeasureExpr
  columns_ident : ∀ {text ast}, parse text = .ok ast → ast.columns.all isIdent = true
  columns_ne_nil : ∀ {text ast}, parse text = .ok ast → ast.columns ≠ []

/-- The `expression` text of a measure, where it has one, is the text of its syntax tree. -/
def MeasureExpressions.Denotes (P : MeasureExpressions) (expression : Option String) :
    MeasureRef → Prop
  | .column _ => expression = none
  | .expression ast => ∃ text, expression = some text ∧ P.parse text = .ok ast

theorem MeasureExpressions.denotes_column (P : MeasureExpressions) (name : String) :
    P.Denotes none (.column name) := rfl

/-- `MetricMeasure`, with the text of its expression. -/
structure MeasureRecord (P : MeasureExpressions) extends MetricMeasure where
  expression : Option String := none
  expression_denotes : P.Denotes expression ref := by decide
  deriving DecidableEq

variable {P : MeasureExpressions}

/-- The `column` of a measure. -/
def MeasureRecord.column (m : MeasureRecord P) : Option String :=
  match m.ref with
  | .column name => some name
  | .expression _ => none

/-- The constructor of `MetricMeasure`. -/
def MeasureRecord.make (P : MeasureExpressions) (agg : String) (column expression : Option String) :
    Except PyError (MeasureRecord P) := do
  let agg ← requireWord "agg must be one of" agg
  match column, expression with
  | some column, none =>
    let column ← requireIdent "column" column
    return {
      agg := agg
      ref := .column column.1
      columns_ident := by simp [MeasureRef.columns, column.2]
      columns_ne_nil := by simp [MeasureRef.columns]
      expression := none
      expression_denotes := rfl }
  | none, some text =>
    match hparse : P.parse text with
    | .error reason => .error (.valueError
        ("malformed measure expression " ++ pyRepr text ++ ": " ++ reason))
    | .ok ast => return {
        agg := agg
        ref := .expression ast
        columns_ident := P.columns_ident hparse
        columns_ne_nil := P.columns_ne_nil hparse
        expression := some text
        expression_denotes := ⟨text, rfl, hparse⟩ }
  | _, _ => .error (.valueError
      ("measure must set exactly one of `column` or `expression` (got column=" ++
        pyReprOption column ++ ", expression=" ++ pyReprOption expression ++ ")"))

/-- `Metric`, with the fields that no compiler reads and the text of its expression. -/
structure MetricRecord (P : MeasureExpressions) extends Metric where
  expression : Option String := none
  expression_denotes : P.Denotes expression measure.ref := by decide
  description : String
  origin : Origin := .manual
  inferenceMethod : InferenceMethod := .manuallyAuthored
  validationState : ValidationState := .applied
  deriving DecidableEq

/-- The measure of a metric. -/
def MetricRecord.measureRecord (m : MetricRecord P) : MeasureRecord P :=
  { m.measure with expression := m.expression, expression_denotes := m.expression_denotes }

theorem grains_eq_nil {rule : String} {words : List String} {grains : List TimeGrain}
    (h : List.Forall₂ (fun w g => requireWord rule w = .ok g) words grains) :
    grains = [] ↔ words = [] := by
  rw [← List.length_eq_zero_iff, ← List.length_eq_zero_iff, h.length_eq]

theorem ranks_lt {grains : List TimeGrain} (hunique : grains.Nodup)
    (hsorted : grains.Pairwise fun g g' => g.rank ≤ g'.rank) :
    grains.Pairwise fun g g' => g.rank < g'.rank := by
  refine (hunique.and hsorted).imp fun {g g'} ⟨hne, hle⟩ => lt_of_le_of_ne hle ?_
  intro hrank
  cases g <;> cases g' <;> simp_all [TimeGrain.rank]

/-- The words of the grains, in canonical order. -/
def requireGrains (words : List String) :
    Except PyError {grains : List TimeGrain //
      (grains = [] ↔ words = []) ∧ grains.Pairwise fun g g' => g.rank < g'.rank} :=
  match hgrains : words.mapM (requireWord "time_grains must be a subset of") with
  | .error error => .error error
  | .ok grains =>
    if hunique : grains.Nodup then
      if hsorted : grains.Pairwise fun g g' => g.rank ≤ g'.rank then
        .ok ⟨grains, grains_eq_nil (mapM_eq_ok hgrains), ranks_lt hunique hsorted⟩
      else
        .error (.valueError ("time_grains must be in canonical order (" ++
          pyReprList ((Literal.values (α := TimeGrain)).map word) ++ "); got " ++
          pyReprList words))
    else
      .error (.valueError ("time_grains must be unique (got " ++ pyReprTuple words ++ ")"))

/-- The constructor of `Metric`. -/
def MetricRecord.make (name description entity : String) (measure : MeasureRecord P)
    (timeDimension : Option String) (timeGrains : List String)
    (origin inferenceMethod validationState : String) : Except PyError (MetricRecord P) := do
  let name ← requireIdent "name" name
  let entity ← requireIdent "entity" entity
  if hgrains : timeDimension = none ∧ timeGrains ≠ [] then
    .error (.valueError ("time_grains must be empty when time_dimension is None " ++
      "(got time_grains=" ++ pyReprTuple timeGrains ++ ")"))
  else if hdimension : timeDimension ≠ none ∧ timeGrains = [] then
    .error (.valueError ("time_dimension is set but time_grains is empty; either set both or " ++
      "neither (got time_dimension=" ++ pyReprOption timeDimension ++ ")"))
  else if hform : timeDimension.all (fun t => (parseQualifiedColumn t).isSome) = true then
    let grains ← requireGrains timeGrains
    let origin ← requireWord "origin must be one of" origin
    let inferenceMethod ← requireWord "inference_method must be one of" inferenceMethod
    let validationState ← requireWord "validation_state must be one of" validationState
    return {
      name := name.1
      entity := entity.1
      measure := measure.toMetricMeasure
      timeDimension := timeDimension
      timeGrains := grains.1
      name_ident := name.2
      entity_ident := entity.2
      grains_paired := by
        rw [grains.2.1]
        tauto
      dimension_form := hform
      grains_sorted := grains.2.2
      expression := measure.expression
      expression_denotes := measure.expression_denotes
      description := description
      origin := origin
      inferenceMethod := inferenceMethod
      validationState := validationState }
  else
    .error (.valueError ("time_dimension must be 'entity.column' form (got " ++
      pyReprOption timeDimension ++ ")"))

/-- A row of `metrics`, less the timestamps. -/
structure MetricRow where
  sourceConnectionId : String
  name : String
  description : String
  entity : String
  measureAgg : String
  measureColumn : Option String
  measureExpression : Option String
  timeDimension : Option String
  timeGrains : String
  origin : String
  inferenceMethod : String
  validationState : String
  deriving DecidableEq

/-- `stored_grains`. -/
def storedGrains (grains : List TimeGrain) : String :=
  if grains = [] then "" else ",".intercalate (grains.map word)

/-- `time_grains` of a stored text. -/
def grainWords (stored : String) : List String :=
  if stored = "" then [] else pySplit ',' stored

/-- The values that `write_metric` inserts. -/
def MetricRecord.row (sourceConnectionId : String) (m : MetricRecord P) : MetricRow where
  sourceConnectionId := sourceConnectionId
  name := m.name
  description := m.description
  entity := m.entity
  measureAgg := word m.measure.agg
  measureColumn := m.measureRecord.column
  measureExpression := m.expression
  timeDimension := m.timeDimension
  timeGrains := storedGrains m.timeGrains
  origin := word m.origin
  inferenceMethod := word m.inferenceMethod
  validationState := word m.validationState

/-- `_row_to_metric`. -/
def rowToMetric (P : MeasureExpressions) (row : MetricRow) : Except RowError (MetricRecord P) :=
  Except.mapError (.malformedMetric row.name) do
    let measure ←
      MeasureRecord.make P row.measureAgg row.measureColumn row.measureExpression
    MetricRecord.make row.name row.description row.entity measure row.timeDimension
      (grainWords row.timeGrains) row.origin row.inferenceMethod row.validationState

theorem measureRecord_make (m : MetricRecord P) :
    MeasureRecord.make P (word m.measure.agg) m.measureRecord.column m.expression =
      .ok m.measureRecord := by
  obtain ⟨measure, hmeasure⟩ : ∃ measure, m.measureRecord = measure := ⟨_, rfl⟩
  have hagg : m.measure.agg = measure.agg := by rw [← hmeasure]; rfl
  have hexpression : m.expression = measure.expression := by rw [← hmeasure]; rfl
  rw [hmeasure, hagg, hexpression]
  obtain ⟨⟨agg, ref, hident, hne⟩, expression, hdenotes⟩ := measure
  cases ref with
  | column name =>
    obtain rfl : expression = none := hdenotes
    have hname : isIdent name = true := by simpa [MeasureRef.columns] using hident
    simp only [MeasureRecord.make, MeasureRecord.column, requireWord_word,
      requireIdent_of_isIdent hname, bind, Except.bind]
    rfl
  | expression ast =>
    obtain ⟨text, rfl, hparse⟩ := hdenotes
    simp only [MeasureRecord.make, MeasureRecord.column, requireWord_word, bind, Except.bind]
    split
    · next reason hraised => rw [hraised] at hparse; cases hparse
    · next ast' hparsed =>
      obtain rfl := Except.ok.inj (hparsed.symm.trans hparse)
      rfl

private theorem requireGrains_words {grains : List TimeGrain}
    (h : grains.Pairwise fun g g' => g.rank < g'.rank) :
    requireGrains (grains.map word) = .ok ⟨grains, List.map_eq_nil_iff.symm, h⟩ := by
  have hread : (grains.map word).mapM (requireWord "time_grains must be a subset of") =
      .ok grains := by
    rw [List.mapM_map]
    have hwords : grains.mapM (requireWord "time_grains must be a subset of" ∘ word) =
        .ok (grains.map id) :=
      mapM_of_ok fun g _ => requireWord_word _ g
    rwa [List.map_id] at hwords
  have hunique : grains.Nodup := h.imp fun hlt heq => by simp [heq] at hlt
  have hsorted : grains.Pairwise fun g g' => g.rank ≤ g'.rank := h.imp le_of_lt
  unfold requireGrains
  split
  · next hraised => rw [hread] at hraised; cases hraised
  · next grains' hparsed =>
    obtain rfl := Except.ok.inj (hparsed.symm.trans hread)
    rw [dif_pos hunique, dif_pos hsorted]

private theorem comma_not_mem_word (g : TimeGrain) : ',' ∉ (word g).toList := by
  cases g <;> decide

private theorem grainWords_storedGrains (grains : List TimeGrain) :
    grainWords (storedGrains grains) = grains.map word := by
  unfold storedGrains
  split
  · next hnil => rw [hnil]; rfl
  · next hne =>
    have hwords : grains.map (word (α := TimeGrain)) ≠ [] := mt List.map_eq_nil_iff.1 hne
    have hsplit : pySplit ',' (",".intercalate (grains.map word)) = grains.map word := by
      refine pySplit_intercalate hwords fun text htext => ?_
      obtain ⟨g, -, rfl⟩ := List.mem_map.1 htext
      exact comma_not_mem_word g
    -- An empty text would be split into one empty word.
    have htext : ",".intercalate (grains.map word) ≠ "" := by
      intro hempty
      rw [hempty] at hsplit
      obtain ⟨g, rest, rfl⟩ := List.exists_cons_of_ne_nil hne
      have hword := (List.cons.inj hsplit).1
      cases g <;> exact absurd hword (by decide)
    rw [grainWords, if_neg htext, hsplit]

/-- The constructor takes the fields of a metric. -/
theorem metricRecord_make (m : MetricRecord P) :
    MetricRecord.make m.name m.description m.entity m.measureRecord m.timeDimension
      (m.timeGrains.map word) (word m.origin) (word m.inferenceMethod) (word m.validationState) =
      .ok m := by
  have hnone : ¬ (m.timeDimension = none ∧ m.timeGrains.map word ≠ []) := by
    rintro ⟨hdimension, hgrains⟩
    exact hgrains (by rw [m.grains_paired.1 hdimension]; rfl)
  have hsome : ¬ (m.timeDimension ≠ none ∧ m.timeGrains.map word = []) := by
    rintro ⟨hdimension, hgrains⟩
    exact hdimension (m.grains_paired.2 (List.map_eq_nil_iff.1 hgrains))
  simp only [MetricRecord.make, requireIdent_of_isIdent m.name_ident,
    requireIdent_of_isIdent m.entity_ident, dif_neg hnone, dif_neg hsome,
    dif_pos m.dimension_form, requireGrains_words m.grains_sorted, requireWord_word, bind,
    Except.bind]
  rfl

/-- A row of `metrics` reads back as the metric that was written. -/
theorem rowToMetric_row (sourceConnectionId : String) (m : MetricRecord P) :
    rowToMetric P (m.row sourceConnectionId) = .ok m := by
  simp only [rowToMetric, MetricRecord.row, measureRecord_make, grainWords_storedGrains, bind,
    Except.bind, metricRecord_make]
  rfl

end SchemaBrain.Core
