import SchemaBrain.Core.MetricYaml
import SchemaBrain.Core.SemanticWrites

/-!
# Definitions as YAML text

`entity_to_yaml`, `canonical_join_to_yaml` and `metric_to_yaml`, and what the parsers make of
their texts. The trust signals are not emitted; the `on` block of a join is written without
quotes.
-/

namespace SchemaBrain.Core

open Base

/-! ## The emitters -/

/-- A member with a default is left out. -/
def omitted (present : Bool) (key : String) (value : YamlValue) :
    List (YamlScalar × YamlValue) :=
  if present then [(.str key, value)] else []

/-- The body that `entity_to_yaml` dumps. -/
def entityBody (e : EntityRecord) : List (YamlScalar × YamlValue) :=
  [(.str "version", .int 1), (.str "name", .str e.name)] ++
    omitted (e.description ≠ "") "description" (.str e.description) ++
    [(.str "binding", .map [(.str "single_table", .str e.binding.text)]),
      (.str "identity", .str e.identity), (.str "origin", .str (word e.origin))] ++
    omitted (e.group ≠ .other) "group" (.str (word e.group))

/-- `entity_to_yaml`. -/
def entityToYaml (yaml : YamlLibrary) (e : EntityRecord) : String :=
  pyRstrip (yaml.safeDump (.map (entityBody e)))

/-- The `head` of `canonical_join_to_yaml`. -/
def joinHead (j : JoinRecord) : List (YamlScalar × YamlValue) :=
  [(.str "version", .int 1), (.str "name", .str j.name)] ++
    omitted (j.description ≠ "") "description" (.str j.description) ++
    [(.str "source_entity", .str j.sourceEntity), (.str "target_entity", .str j.targetEntity)]

/-- The `tail` of `canonical_join_to_yaml`. -/
def joinTail (j : JoinRecord) : List (YamlScalar × YamlValue) :=
  (.str "origin", .str (word j.origin)) ::
    (j.cardinality.map fun c => (YamlScalar.str "cardinality", YamlValue.str (word c))).toList

/-- The lines of one column pair. -/
def onLines (p : JoinColumnPair) : List String :=
  ["  - source: " ++ p.sourceColumn, "    target: " ++ p.targetColumn]

/-- `canonical_join_to_yaml`. -/
def canonicalJoinToYaml (yaml : YamlLibrary) (j : JoinRecord) : String :=
  "\n".intercalate (pyRstrip (yaml.safeDump (.map (joinHead j))) ::
    "\"on\":" :: (j.on.flatMap onLines ++ [pyRstrip (yaml.safeDump (.map (joinTail j)))]))

variable {P : MeasureExpressions}

/-- The measure of a metric: its aggregate with the column, or else the expression. -/
def measureBody (m : MetricRecord P) : List (YamlScalar × YamlValue) :=
  [(.str "agg", .str (word m.measure.agg)),
    match m.measureRecord.column with
    | some column => (.str "column", .str column)
    | none => (.str "expression", (m.expression.map .str).getD .null)]

/-- The body that `metric_to_yaml` dumps. -/
def metricBody (m : MetricRecord P) : List (YamlScalar × YamlValue) :=
  [(.str "version", .int 1), (.str "name", .str m.name)] ++
    omitted (m.description ≠ "") "description" (.str m.description) ++
    [(.str "entity", .str m.entity), (.str "measure", .map (measureBody m))] ++
    (match m.timeDimension with
      | some dimension => [(.str "time_dimension", .str dimension),
          (.str "time_grains", .seq (m.timeGrains.map fun g => .str (word g)))]
      | none => []) ++
    [(.str "origin", .str (word m.origin))]

/-- `metric_to_yaml`. -/
def metricToYaml (yaml : YamlLibrary) (m : MetricRecord P) : String :=
  pyRstrip (yaml.safeDump (.map (metricBody m)))

/-! ## What the emitted texts say -/

/-- A plain scalar of identifier characters, as the resolvers of `_Yaml12SafeLoader` read it. -/
def plainScalar (text : String) : YamlValue :=
  if text ∈ ["true", "True", "TRUE"] then .scalar (.bool true)
  else if text ∈ ["false", "False", "FALSE"] then .scalar (.bool false)
  else if text ∈ ["null", "Null", "NULL"] then .null
  else .str text

/-- One item of the `on` block. -/
def onItem (p : JoinColumnPair) : YamlValue :=
  .map [(.str "source", plainScalar p.sourceColumn), (.str "target", plainScalar p.targetColumn)]

/-- The mapping that the text of a join spells. -/
def joinBody (j : JoinRecord) : List (YamlScalar × YamlValue) :=
  joinHead j ++ [(.str "on", .seq (j.on.map onItem))] ++ joinTail j

/-- A plain scalar is read as text. -/
def isPlainText (text : String) : Bool :=
  text ∉ ["true", "True", "TRUE", "false", "False", "FALSE", "null", "Null", "NULL"]

/-- An entity with the fields that are not emitted at their defaults. -/
def EntityRecord.reapplied (e : EntityRecord) : EntityRecord :=
  { e with
    inferenceMethod := .manuallyAuthored
    validationState := .applied
    bindConfidence := none
    rationale := "" }

/-- A join with the trust signals of a hand-authored one. -/
def JoinRecord.reapplied (j : JoinRecord) : JoinRecord :=
  { j with inferenceMethod := .manuallyAuthored, validationState := .applied }

/-- A metric with the trust signals of a hand-authored one. -/
def MetricRecord.reapplied (m : MetricRecord P) : MetricRecord P :=
  { m with inferenceMethod := .manuallyAuthored, validationState := .applied }

/-- The texts of a join are read back: it is not dbt's, and its columns are plain texts. -/
def JoinRecord.reads (j : JoinRecord) : Bool :=
  j.origin ≠ .dbtImport &&
    j.on.all fun p => isPlainText p.sourceColumn && isPlainText p.targetColumn

section Reading

variable {limit : Nat}

private theorem isIdent_ne_empty {s : String} (h : isIdent s = true) : s ≠ "" := by
  rintro rfl
  exact absurd h (by decide)

private theorem word_mem_validWords {α : Type} [Literal α] (a : α) : word a ∈ validWords α :=
  List.mem_map_of_mem (Literal.mem_values a)

@[simp] theorem parseWord_word {α : Type} [Literal α] (field : String) (a : α) :
    parseWord limit field (validWords α) (.str (word a)) = .ok (word a) := by
  rw [parseWord, if_pos (word_mem_validWords a)]

@[simp] theorem yamlField_omitted_append {present : Bool} {key field : String} {value : YamlValue}
    {rest : List (YamlScalar × YamlValue)} :
    yamlField (omitted present key value ++ rest) field =
      if present = true ∧ key = field then some value else yamlField rest field := by
  cases present
  · simp [omitted]
  · by_cases hkey : key = field <;> simp [omitted, yamlField, YamlScalar.isKey, hkey]

@[simp] theorem yamlField_omitted {present : Bool} {key field : String} {value : YamlValue} :
    yamlField (omitted present key value) field =
      if present = true ∧ key = field then some value else none := by
  have happend := @yamlField_omitted_append present key field value []
  simpa [yamlField] using happend

@[simp] theorem yamlField_cons {key field : String} {value : YamlValue}
    {rest : List (YamlScalar × YamlValue)} :
    yamlField ((.str key, value) :: rest) field =
      if key = field then some value else yamlField rest field := by
  by_cases hkey : key = field <;> simp [yamlField, YamlScalar.isKey, hkey]

@[simp] theorem yamlField_nil {field : String} : yamlField [] field = none := rfl

@[simp] theorem unknownKeys_nil {allowed : List String} : unknownKeys allowed [] = [] := rfl

@[simp] theorem unknownKeys_append {allowed : List String}
    {members rest : List (YamlScalar × YamlValue)} :
    unknownKeys allowed (members ++ rest) =
      unknownKeys allowed members ++ unknownKeys allowed rest := by
  simp [unknownKeys]

@[simp] theorem unknownKeys_cons {allowed : List String} {key : String} {value : YamlValue}
    {rest : List (YamlScalar × YamlValue)} :
    unknownKeys allowed ((.str key, value) :: rest) =
      (if key ∈ allowed then [] else [.str key]) ++ unknownKeys allowed rest := by
  by_cases hkey : key ∈ allowed <;>
    simp [unknownKeys, List.filter_cons, YamlScalar.isKey, hkey]

@[simp] theorem unknownKeys_omitted {allowed : List String} {present : Bool} {key : String}
    {value : YamlValue} : unknownKeys allowed (omitted present key value) =
      if present = true ∧ key ∉ allowed then [.str key] else [] := by
  cases present
  · simp [omitted]
  · by_cases hkey : key ∈ allowed <;> simp [omitted, hkey]

/-- Keys that are all there and all known. -/
theorem checkKeys_ok {missingText unknownText : String} {allowed required : List String}
    {data : List (YamlScalar × YamlValue)} (hmissing : missingKeys required data = [])
    (hunknown : unknownKeys allowed data = []) :
    checkKeys limit missingText unknownText allowed required data = .ok () := by
  rw [checkKeys, if_neg (not_not.2 hmissing), if_neg (not_not.2 hunknown)]

/-- A description that is left out where it is empty is read back. -/
theorem optionalStr_description {data : List (YamlScalar × YamlValue)} {description : String}
    (h : yamlField data "description" =
      if description ≠ "" then some (.str description) else none) :
    optionalStr limit data "description" "" = .ok description := by
  unfold optionalStr
  rw [h]
  by_cases hempty : description = ""
  · rw [if_neg (not_not.2 hempty), hempty]
  · rw [if_pos hempty]

/-- A text that is not empty is read back. -/
theorem requireStr_text {data : List (YamlScalar × YamlValue)} {field text : String}
    (h : yamlField data field = some (.str text)) (hne : text ≠ "") :
    requireStr limit data field = .ok text := by
  unfold requireStr
  rw [h, Option.getD_some]
  exact if_neg hne

/-- The binding of an entity is read back. -/
theorem parseBinding_single (e : EntityRecord) :
    parseBinding limit (.map [(.str "single_table", .str e.binding.text)]) =
      .ok e.binding.text := by
  have hident := e.binding_ident
  rw [Bool.and_eq_true] at hident
  have hparse : (parseQualifiedColumn e.binding.text).isSome = true := by
    rw [QualifiedTable.text, parseQualifiedColumn_text hident.1 hident.2]
    rfl
  have hshapes : checkBindingShapes limit [(.str "single_table", .str e.binding.text)] =
      .ok () := by
    simp [checkBindingShapes, unknownKeys, YamlScalar.isKey]
  simp [parseBinding, hshapes, singleTableBinding, hparse, bind, Except.bind]

/-- The constructor takes the fields that were emitted for an entity. -/
theorem entityRecord_make (e : EntityRecord) :
    EntityRecord.make e.name e.description e.binding.text e.identity (word e.origin)
      "manually_authored" "applied" (word e.group) none "" = .ok e.reapplied := by
  have hrow := rowToEntity_row "" e.reapplied
  have hident := e.binding_ident
  rw [Bool.and_eq_true] at hident
  have hsplit : splitDot e.binding.text = (e.binding.schema, e.binding.table) :=
    splitDot_append hident.1 _
  change EntityRecord.make e.name e.description ((splitDot e.binding.text).1 ++ "." ++
    (splitDot e.binding.text).2) e.identity (word e.origin) "manually_authored" "applied"
    (word e.group) none "" = _ at hrow
  rw [hsplit] at hrow
  exact hrow

/-- What was emitted for an entity is parsed back. -/
theorem parseEntityFields_body (e : EntityRecord) :
    parseEntityFields limit (entityBody e) = .ok e.reapplied := by
  have hkeys : checkKeys limit "missing required field(s)" "unknown top-level keys"
      ["version", "name", "description", "binding", "identity", "origin", "group"]
      ["version", "name", "binding", "identity"] (entityBody e) = .ok () := by
    apply checkKeys_ok
    · simp [missingKeys, entityBody]
    · simp [entityBody]
  have hversion : yamlField (entityBody e) "version" = some (.int 1) := rfl
  have hname : requireStr limit (entityBody e) "name" = .ok e.name :=
    requireStr_text rfl (isIdent_ne_empty e.name_ident)
  have hdescription : optionalStr limit (entityBody e) "description" "" = .ok e.description :=
    optionalStr_description (by simp [entityBody])
  have hbinding : yamlField (entityBody e) "binding" =
      some (.map [(.str "single_table", .str e.binding.text)]) := by
    simp [entityBody]
  have hidentity : requireStr limit (entityBody e) "identity" = .ok e.identity :=
    requireStr_text (by simp [entityBody]) (isIdent_ne_empty e.identity_ident)
  have horigin : yamlField (entityBody e) "origin" = some (.str (word e.origin)) := by
    simp [entityBody]
  have hgroup : parseWord limit "group" (validWords Group)
      ((yamlField (entityBody e) "group").getD (.str "other")) = .ok (word e.group) := by
    by_cases hother : e.group = .other
    · have hnone : yamlField (entityBody e) "group" = none := by simp [entityBody, hother]
      rw [hnone, Option.getD_none, hother]
      exact parseWord_word "group" Group.other
    · have hsome : yamlField (entityBody e) "group" = some (.str (word e.group)) := by
        simp [entityBody, hother]
      rw [hsome]
      exact parseWord_word "group" e.group
  simp only [parseEntityFields, hkeys, hversion, hname, hdescription, hbinding, hidentity, horigin,
    hgroup, Option.getD_some, checkVersion, parseBinding_single, parseWord_word,
    entityRecord_make, rewrap, bind, Except.bind, if_true]

/-! ## Joins -/

theorem plainScalar_of_plain {text : String} (h : isPlainText text = true) :
    plainScalar text = .str text := by
  simp only [isPlainText, List.mem_cons, List.not_mem_nil, or_false, decide_eq_true_eq,
    not_or] at h
  simp [plainScalar, h]

theorem plain_of_plainScalar {text s : String} (h : plainScalar text = .str s) :
    isPlainText text = true := by
  unfold plainScalar at h
  split at h
  · cases h
  · next htrue =>
    split at h
    · cases h
    · next hfalse =>
      split at h
      · cases h
      · next hnull =>
        simp only [List.mem_cons, List.not_mem_nil, or_false, not_or] at htrue hfalse hnull
        simp [isPlainText, htrue, hfalse, hnull]

theorem joinColumnPair_make (p : JoinColumnPair) :
    JoinColumnPair.make p.sourceColumn p.targetColumn = .ok p := by
  simp only [JoinColumnPair.make, requireIdent_of_isIdent p.source_ident,
    requireIdent_of_isIdent p.target_ident, bind, Except.bind]
  rfl

/-- An item with plain columns is read back. -/
theorem parseOnItem_plain {index : Nat} {p : JoinColumnPair}
    (hsource : isPlainText p.sourceColumn = true) (htarget : isPlainText p.targetColumn = true) :
    parseOnItem limit index (onItem p) = .ok p := by
  have hcolumn : ∀ {field column : String}, isIdent column = true →
      onColumn limit field (.str column) = .ok column :=
    fun h => if_neg (isIdent_ne_empty h)
  rw [onItem, plainScalar_of_plain hsource, plainScalar_of_plain htarget, parseOnItem,
    checkKeys_ok (by simp [missingKeys]) (by simp)]
  simp [hcolumn p.source_ident, hcolumn p.target_ident, joinColumnPair_make, rewrap, bind,
    Except.bind]

/-- An item that is read has plain columns. -/
theorem plain_of_parseOnItem {index : Nat} {p q : JoinColumnPair}
    (h : parseOnItem limit index (onItem p) = .ok q) :
    isPlainText p.sourceColumn = true ∧ isPlainText p.targetColumn = true := by
  obtain ⟨-, -, h⟩ := bind_eq_ok h
  obtain ⟨source, hsource, h⟩ := bind_eq_ok h
  obtain ⟨target, htarget, -⟩ := bind_eq_ok h
  have hplain := onColumn_ok hsource
  have hplain' := onColumn_ok htarget
  simp only [yamlField_cons, if_true, Option.getD_some] at hplain hplain'
  exact ⟨plain_of_plainScalar hplain, plain_of_plainScalar (by simpa using hplain')⟩

theorem parseOnList_items {on : List JoinColumnPair} (hne : on ≠ []) :
    parseOnList limit (.seq (on.map onItem)) =
      on.zipIdx.mapM fun p => parseOnItem limit p.2 (onItem p.1) := by
  obtain ⟨p, rest, rfl⟩ := List.exists_cons_of_ne_nil hne
  rw [List.map_cons, parseOnList]
  · rw [← List.map_cons, List.zipIdx_map, List.mapM_map]
    rfl
  · simp

/-- A block with plain columns is read back. -/
theorem parseOnList_plain {on : List JoinColumnPair} (hne : on ≠ [])
    (h : ∀ p ∈ on, isPlainText p.sourceColumn = true ∧ isPlainText p.targetColumn = true) :
    parseOnList limit (.seq (on.map onItem)) = .ok on := by
  rw [parseOnList_items hne]
  have hitems : on.zipIdx.mapM (fun p => parseOnItem limit p.2 (onItem p.1)) =
      .ok (on.zipIdx.map Prod.fst) := by
    refine mapM_of_ok fun p hp => ?_
    have hmem : p.1 ∈ on := List.fst_mem_of_mem_zipIdx hp
    exact parseOnItem_plain (h p.1 hmem).1 (h p.1 hmem).2
  rw [hitems, List.zipIdx_map_fst]

/-- A block that is read has plain columns. -/
theorem plain_of_parseOnList {on on' : List JoinColumnPair} (hne : on ≠ [])
    (h : parseOnList limit (.seq (on.map onItem)) = .ok on') :
    ∀ p ∈ on, isPlainText p.sourceColumn = true ∧ isPlainText p.targetColumn = true := by
  rw [parseOnList_items hne] at h
  intro p hp
  rw [← List.zipIdx_map_fst 0 on, List.mem_map] at hp
  obtain ⟨item, hitem, rfl⟩ := hp
  obtain ⟨q, -, hq⟩ := (mem_mapM h).2 item hitem
  exact plain_of_parseOnItem hq

theorem parseJoinOrigin_word (o : Origin) :
    (o ≠ .dbtImport → parseJoinOrigin limit (.str (word o)) = .ok (word o)) ∧
      ∀ origin, parseJoinOrigin limit (.str (word o)) = .ok origin → o ≠ .dbtImport := by
  unfold parseJoinOrigin refuseDbtImport
  rw [parseWord_word]
  cases o with
  | manual => exact ⟨fun _ => rfl, fun _ _ => nofun⟩
  | suggested => exact ⟨fun _ => rfl, fun _ _ => nofun⟩
  | dbtImport => exact ⟨fun h => absurd rfl h, fun _ h => nomatch h⟩

/-- The constructor takes the fields that were emitted for a join. -/
theorem joinRecord_make (j : JoinRecord) :
    JoinRecord.make j.name j.description j.sourceEntity j.targetEntity j.on (word j.origin)
      (j.cardinality.map word) "manually_authored" "applied" = .ok j.reapplied := by
  simp only [JoinRecord.make, requireIdent_of_isIdent j.name_ident,
    requireIdent_of_isIdent j.source_ident, requireIdent_of_isIdent j.target_ident,
    dif_neg j.no_self, dif_neg j.on_ne_nil, requireWord_word, requireOptionalWord_word, bind,
    Except.bind]
  rfl

private theorem joinBody_on (j : JoinRecord) :
    yamlField (joinBody j) "on" = some (.seq (j.on.map onItem)) := by
  simp [joinBody, joinHead]

private theorem joinBody_origin (j : JoinRecord) :
    yamlField (joinBody j) "origin" = some (.str (word j.origin)) := by
  simp [joinBody, joinHead, joinTail]

/-- The text of a join is parsed back exactly where it is read, as the join. -/
theorem parseJoinFields_body {j r : JoinRecord} :
    parseJoinFields limit (joinBody j) = .ok r ↔ j.reads = true ∧ r = j.reapplied := by
  have hreads : j.reads = true ↔ j.origin ≠ .dbtImport ∧
      ∀ p ∈ j.on, isPlainText p.sourceColumn = true ∧ isPlainText p.targetColumn = true := by
    simp [JoinRecord.reads]
  have hparse : j.reads = true → parseJoinFields limit (joinBody j) = .ok j.reapplied := by
    intro h
    obtain ⟨horigin, hplain⟩ := hreads.1 h
    have hkeys : checkKeys limit "missing required field(s) in top-level"
        "unknown top-level keys" ["version", "name", "description", "source_entity",
          "target_entity", "on", "origin", "cardinality"]
        ["version", "name", "source_entity", "target_entity", "on"] (joinBody j) = .ok () := by
      apply checkKeys_ok
      · simp [missingKeys, joinBody, joinHead]
      · cases hcardinality : j.cardinality <;> simp [joinBody, joinHead, joinTail, hcardinality]
    have hversion : yamlField (joinBody j) "version" = some (.int 1) := rfl
    have hname : requireStr limit (joinBody j) "name" = .ok j.name :=
      requireStr_text rfl (isIdent_ne_empty j.name_ident)
    have hdescription : optionalStr limit (joinBody j) "description" "" = .ok j.description :=
      optionalStr_description (by
        cases hcardinality : j.cardinality <;> simp [joinBody, joinHead, joinTail, hcardinality])
    have hsource : requireStr limit (joinBody j) "source_entity" = .ok j.sourceEntity :=
      requireStr_text (by simp [joinBody, joinHead]) (isIdent_ne_empty j.source_ident)
    have htarget : requireStr limit (joinBody j) "target_entity" = .ok j.targetEntity :=
      requireStr_text (by simp [joinBody, joinHead]) (isIdent_ne_empty j.target_ident)
    have hcardinality : parseCardinality limit
        ((yamlField (joinBody j) "cardinality").getD .null) = .ok (j.cardinality.map word) := by
      cases hcardinality : j.cardinality with
      | none => simp [joinBody, joinHead, joinTail, hcardinality, parseCardinality]
      | some c =>
        have hfield : yamlField (joinBody j) "cardinality" = some (.str (word c)) := by
          simp [joinBody, joinHead, joinTail, hcardinality]
        rw [hfield, Option.getD_some, parseCardinality, parseWord_word]
        · rfl
        · simp
    simp only [parseJoinFields, hkeys, hversion, hname, hdescription, hsource, htarget,
      joinBody_on, joinBody_origin, parseOnList_plain j.on_ne_nil hplain,
      (parseJoinOrigin_word j.origin).1 horigin, hcardinality, joinRecord_make, Option.getD_some,
      checkVersion, rewrap, bind, Except.bind, if_true]
  constructor
  · intro h
    have hok : j.reads = true := by
      unfold parseJoinFields at h
      obtain ⟨_, _, h⟩ := bind_eq_ok h
      obtain ⟨_, _, h⟩ := bind_eq_ok h
      obtain ⟨_, _, h⟩ := bind_eq_ok h
      obtain ⟨_, _, h⟩ := bind_eq_ok h
      obtain ⟨_, _, h⟩ := bind_eq_ok h
      obtain ⟨_, _, h⟩ := bind_eq_ok h
      obtain ⟨on, hon, h⟩ := bind_eq_ok h
      obtain ⟨origin, horigin, -⟩ := bind_eq_ok h
      rw [joinBody_on] at hon
      rw [joinBody_origin] at horigin
      exact hreads.2 ⟨(parseJoinOrigin_word j.origin).2 origin horigin,
        plain_of_parseOnList j.on_ne_nil hon⟩
    exact ⟨hok, Except.ok.inj (h.symm.trans (hparse hok))⟩
  · rintro ⟨hok, rfl⟩
    exact hparse hok

/-! ## Metrics -/

variable {python : PythonAst}

theorem parseMetricOrigin_word (o : Origin) :
    (o ≠ .dbtImport → parseMetricOrigin limit (.str (word o)) = .ok (word o)) ∧
      ∀ origin, parseMetricOrigin limit (.str (word o)) = .ok origin → o ≠ .dbtImport := by
  unfold parseMetricOrigin refuseDbtImport
  rw [parseWord_word]
  cases o with
  | manual => exact ⟨fun _ => rfl, fun _ _ => nofun⟩
  | suggested => exact ⟨fun _ => rfl, fun _ _ => nofun⟩
  | dbtImport => exact ⟨fun h => absurd rfl h, fun _ h => nomatch h⟩

/-- An expression that the constructor accepts is one that the parser of measures accepts. -/
private theorem metricMeasure_expression {agg text : String} {ast : MeasureExpr}
    (h : python.expressions.parse text = .ok ast) :
    metricMeasure python agg none (some text) =
      rewrap "measure: " (MeasureRecord.make python.expressions agg none (some text)) := by
  simp only [PythonAst.expressions] at h
  split at h
  · next hparse => simp only [metricMeasure, Option.map_some, hparse]
  · cases h
  · cases h

/-- The measure of a metric is read back. -/
theorem parseMeasure_body (m : MetricRecord python.expressions) :
    parseMeasure limit python (.map (measureBody m)) = .ok m.measureRecord := by
  have hmake := measureRecord_make m
  have hdenotes := m.expression_denotes
  have hkeys : checkKeys limit "missing required measure field(s)" "unknown measure keys"
      ["agg", "column", "expression"] ["agg"] (measureBody m) = .ok () := by
    cases hcolumn : m.measureRecord.column with
    | some column =>
      exact checkKeys_ok (by simp [measureBody, hcolumn, missingKeys])
        (by simp [measureBody, hcolumn])
    | none =>
      exact checkKeys_ok (by simp [measureBody, hcolumn, missingKeys])
        (by simp [measureBody, hcolumn])
  cases href : m.measure.ref with
  | column name =>
    rw [href] at hdenotes
    have hcolumn : m.measureRecord.column = some name := by
      simp only [MeasureRecord.column, MetricRecord.measureRecord, href]
    have hbody : measureBody m = [(.str "agg", .str (word m.measure.agg)),
        (.str "column", .str name)] := by
      simp only [measureBody, hcolumn]
    rw [hcolumn, show m.expression = none from hdenotes] at hmake
    rw [parseMeasure, hkeys, hbody]
    simp [parseMeasureRef, strField, metricMeasure, hmake, rewrap, bind, Except.bind]
  | expression ast =>
    rw [href] at hdenotes
    obtain ⟨text, htext, hparse⟩ := hdenotes
    have hcolumn : m.measureRecord.column = none := by
      simp only [MeasureRecord.column, MetricRecord.measureRecord, href]
    have hbody : measureBody m = [(.str "agg", .str (word m.measure.agg)),
        (.str "expression", .str text)] := by
      simp only [measureBody, hcolumn, htext, Option.map_some, Option.getD_some]
    rw [hcolumn, htext] at hmake
    rw [parseMeasure, hkeys, hbody]
    simp [parseMeasureRef, strField, metricMeasure_expression hparse, hmake, rewrap, bind,
      Except.bind]

private theorem metricBody_time (m : MetricRecord python.expressions) :
    yamlField (metricBody m) "time_dimension" = m.timeDimension.map .str ∧
      yamlField (metricBody m) "time_grains" =
        m.timeDimension.map fun _ => .seq (m.timeGrains.map fun g => .str (word g)) := by
  cases hdimension : m.timeDimension with
  | none => simp [metricBody, hdimension]
  | some dimension => simp [metricBody, hdimension]

/-- The time of a metric is read back. -/
theorem parseTime_body (m : MetricRecord python.expressions) :
    parseTime limit (yamlField (metricBody m) "time_dimension")
      (yamlField (metricBody m) "time_grains") =
        .ok (m.timeDimension, m.timeGrains.map word) := by
  rw [(metricBody_time m).1, (metricBody_time m).2]
  cases hdimension : m.timeDimension with
  | none =>
    rw [m.grains_paired.1 hdimension]
    rfl
  | some dimension =>
    have hne : m.timeGrains ≠ [] := by
      intro hnil
      rw [m.grains_paired.2 hnil] at hdimension
      cases hdimension
    obtain ⟨g, rest, hgrains⟩ := List.exists_cons_of_ne_nil hne
    have hread : (m.timeGrains.map fun g => YamlValue.str (word g)).mapM (parseGrain limit) =
        .ok (m.timeGrains.map word) := by
      rw [List.mapM_map]
      refine mapM_of_ok fun g _ => ?_
      exact if_pos (word_mem_validWords g)
    rw [hgrains] at hread ⊢
    simp only [Option.map_some, parseTime, strField, List.map_cons, parseGrains]
    rw [List.map_cons] at hread
    rw [hread]
    rfl

private theorem metricBody_origin (m : MetricRecord python.expressions) :
    yamlField (metricBody m) "origin" = some (.str (word m.origin)) := by
  cases hdimension : m.timeDimension <;> simp [metricBody, hdimension]

private theorem metricBody_measure (m : MetricRecord python.expressions) :
    yamlField (metricBody m) "measure" = some (.map (measureBody m)) := by
  cases hdimension : m.timeDimension <;> simp [metricBody, hdimension]

/-- The text of a metric is parsed back exactly where it is not dbt's, as the metric. -/
theorem parseMetricFields_body {m r : MetricRecord python.expressions} :
    parseMetricFields limit python (metricBody m) = .ok r ↔
      m.origin ≠ .dbtImport ∧ r = m.reapplied := by
  have hkeys : checkKeys limit "missing required top-level field(s)"
      "unknown top-level keys" ["version", "name", "description", "entity", "measure",
        "time_dimension", "time_grains", "origin"]
      ["version", "name", "entity", "measure"] (metricBody m) = .ok () := by
    cases hdimension : m.timeDimension with
    | none =>
      exact checkKeys_ok (by simp [missingKeys, metricBody, hdimension])
        (by simp [metricBody, hdimension])
    | some dimension =>
      exact checkKeys_ok (by simp [missingKeys, metricBody, hdimension])
        (by simp [metricBody, hdimension])
  have hversion : yamlField (metricBody m) "version" = some (.int 1) := rfl
  have hname : requireStr limit (metricBody m) "name" = .ok m.name :=
    requireStr_text rfl (isIdent_ne_empty m.name_ident)
  have hdescription : optionalStr limit (metricBody m) "description" "" = .ok m.description :=
    optionalStr_description (by
      cases hdimension : m.timeDimension <;> simp [metricBody, hdimension])
  have hentity : requireStr limit (metricBody m) "entity" = .ok m.entity :=
    requireStr_text (by cases hdimension : m.timeDimension <;> simp [metricBody, hdimension])
      (isIdent_ne_empty m.entity_ident)
  have hmake := metricRecord_make m.reapplied
  have hsteps : parseMetricFields limit python (metricBody m) =
      (parseMetricOrigin limit (.str (word m.origin))).bind fun origin =>
        rewrap "metric validation failed: " (MetricRecord.make m.name m.description m.entity
          m.measureRecord m.timeDimension (m.timeGrains.map word) origin "manually_authored"
          "applied") := by
    simp only [parseMetricFields, hkeys, hversion, hname, hdescription, hentity,
      metricBody_measure, metricBody_origin, parseMeasure_body, parseTime_body, Option.getD_some,
      checkVersion, bind, Except.bind, if_true]
  rw [hsteps]
  constructor
  · intro h
    obtain ⟨origin, horigin, h⟩ := bind_eq_ok h
    have hne := (parseMetricOrigin_word m.origin).2 origin horigin
    obtain rfl := Except.ok.inj (((parseMetricOrigin_word m.origin).1 hne).symm.trans horigin)
    refine ⟨hne, ?_⟩
    rw [show MetricRecord.make m.name m.description m.entity m.measureRecord m.timeDimension
      (m.timeGrains.map word) (word m.origin) "manually_authored" "applied" =
        .ok m.reapplied from hmake] at h
    exact (Except.ok.inj h).symm
  · rintro ⟨hne, rfl⟩
    rw [(parseMetricOrigin_word m.origin).1 hne]
    change rewrap _ (MetricRecord.make m.name m.description m.entity m.measureRecord
      m.timeDimension (m.timeGrains.map word) (word m.origin) "manually_authored" "applied") = _
    rw [show MetricRecord.make m.name m.description m.entity m.measureRecord m.timeDimension
      (m.timeGrains.map word) (word m.origin) "manually_authored" "applied" =
        .ok m.reapplied from hmake]
    rfl

end Reading

/-! ## Emitted files -/

section Files

variable {yaml yaml12 : YamlLibrary} {python : PythonAst} {text : String}

theorem parseEntityYaml_body {e : EntityRecord}
    (h : yaml.safeLoad text = .ok (.map (entityBody e))) :
    parseEntityYaml yaml text = .ok e.reapplied := by
  rw [parseEntityYaml, parseFile, h]
  exact parseEntityFields_body e

theorem parseCanonicalJoinYaml_body {j r : JoinRecord}
    (h : yaml12.safeLoad text = .ok (.map (joinBody j))) :
    parseCanonicalJoinYaml yaml12 text = .ok r ↔ j.reads = true ∧ r = j.reapplied := by
  rw [parseCanonicalJoinYaml, parseFile, h]
  exact parseJoinFields_body

theorem parseMetricYaml_body {m r : MetricRecord python.expressions}
    (h : yaml.safeLoad text = .ok (.map (metricBody m))) :
    parseMetricYaml yaml python text = .ok r ↔ m.origin ≠ .dbtImport ∧ r = m.reapplied := by
  rw [parseMetricYaml, parseFile, h]
  exact parseMetricFields_body

/-- What was emitted is read back with the trust signals of a hand-authored file: every entity,
every metric that is not dbt's, and every join that is not dbt's and whose columns are plain
texts. -/
theorem definitions_readBack {e : EntityRecord} {m : MetricRecord python.expressions}
    {j : JoinRecord} (hentity : yaml.safeLoad (entityToYaml yaml e) = .ok (.map (entityBody e)))
    (hmetric : yaml.safeLoad (metricToYaml yaml m) = .ok (.map (metricBody m)))
    (hjoin : yaml12.safeLoad (canonicalJoinToYaml yaml j) = .ok (.map (joinBody j))) :
    parseEntityYaml yaml (entityToYaml yaml e) = .ok e.reapplied ∧
      (∀ r, parseMetricYaml yaml python (metricToYaml yaml m) = .ok r ↔
        m.origin ≠ .dbtImport ∧ r = m.reapplied) ∧
      ∀ r, parseCanonicalJoinYaml yaml12 (canonicalJoinToYaml yaml j) = .ok r ↔
        j.reads = true ∧ r = j.reapplied :=
  ⟨parseEntityYaml_body hentity, fun _ => parseMetricYaml_body hmetric,
    fun _ => parseCanonicalJoinYaml_body hjoin⟩

end Files

/-! ## The files of a shop -/

/-- A scalar of identifier characters in block style. -/
def scalarText : YamlValue → String
  | .scalar (.str text) => text
  | .scalar (.int i) => toString i
  | _ => ""

/-- A member in block style, one level deep. -/
def memberText : YamlScalar × YamlValue → String
  | (.str key, .map members) => key ++ ":\n" ++ String.join (members.map fun m =>
      match m with
      | (.str inner, value) => "  " ++ inner ++ ": " ++ scalarText value ++ "\n"
      | _ => "")
  | (.str key, value) => key ++ ": " ++ scalarText value ++ "\n"
  | _ => ""

/-- A parser for files that have no expressions. -/
def noPython : PythonAst where
  parse _ := .error (.syntaxError "invalid syntax")
  stack := 1000

/-- A metric without a dimension. -/
def orderRevenue : MetricRecord noPython.expressions where
  name := "revenue"
  entity := "order"
  measure := { agg := .sum, ref := .column "amount" }
  expression_denotes := noPython.expressions.denotes_column "amount"
  description := ""

/-- The entities of a shop. -/
def shopEntity (name : String) : YamlValue :=
  .map [(.str "version", .int 1), (.str "name", .str name),
    (.str "binding", .map [(.str "single_table", .str "public.orders")]),
    (.str "identity", .str "id"), (.str "origin", .str "manual")]

/-- The definitions of a shop, each with its file. -/
def shopFiles : List (String × YamlValue) :=
  [("version: 1\nname: order\nbinding:\n  single_table: public.orders\nidentity: id\n" ++
      "origin: manual", shopEntity "order"),
    ("version: 1\nname: customer\nbinding:\n  single_table: public.orders\nidentity: id\n" ++
      "origin: manual", shopEntity "customer"),
    ("version: 1\nname: revenue\nentity: order\nmeasure:\n  agg: sum\n  column: amount\n" ++
      "origin: manual",
      .map [(.str "version", .int 1), (.str "name", .str "revenue"), (.str "entity", .str "order"),
        (.str "measure", .map [(.str "agg", .str "sum"), (.str "column", .str "amount")]),
        (.str "origin", .str "manual")]),
    ("version: 1\nname: placed_by\nsource_entity: order\ntarget_entity: customer\n\"on\":\n" ++
      "  - source: customer_id\n    target: id\norigin: manual",
      .map [(.str "version", .int 1), (.str "name", .str "placed_by"),
        (.str "source_entity", .str "order"), (.str "target_entity", .str "customer"),
        (.str "on", .seq [.map [(.str "source", .str "customer_id"), (.str "target", .str "id")]]),
        (.str "origin", .str "manual")])]

/-- The library on those files. -/
def shopYaml : YamlLibrary where
  safeLoad text :=
    match shopFiles.find? (·.1 = pyRstrip text) with
    | some file => .ok file.2
    | none => .error ""
  safeDump
    | .map members => String.join (members.map memberText)
    | _ => ""

/-- The file of a text is found by its place. -/
theorem shopYaml_safeLoad {text : String} (place : Nat) (hplace : place < shopFiles.length)
    (h : shopFiles.findIdx? (·.1 = pyRstrip text) = some place) :
    shopYaml.safeLoad text = .ok shopFiles[place].2 := by
  simp [shopYaml, List.find?_eq_bind_findIdx?_getElem?, h, hplace]

/-- The files of an order, its revenue and its customer. -/
theorem definitions_readBack_shop :
    parseEntityYaml shopYaml (entityToYaml shopYaml (onOrders "order" (Eq.refl true))) =
        .ok (onOrders "order" (Eq.refl true)).reapplied ∧
      (∀ r, parseMetricYaml shopYaml noPython (metricToYaml shopYaml orderRevenue) = .ok r ↔
        orderRevenue.origin ≠ .dbtImport ∧ r = orderRevenue.reapplied) ∧
      ∀ r, parseCanonicalJoinYaml shopYaml (canonicalJoinToYaml shopYaml (placedBy .manual)) =
          .ok r ↔
        (placedBy .manual).reads = true ∧ r = (placedBy .manual).reapplied := by
  refine definitions_readBack ?_ ?_ ?_
  · exact shopYaml_safeLoad 0 (by decide) (by decide +kernel)
  · exact shopYaml_safeLoad 2 (by decide) (by decide +kernel)
  · exact shopYaml_safeLoad 3 (by decide) (by decide +kernel)

end SchemaBrain.Core
