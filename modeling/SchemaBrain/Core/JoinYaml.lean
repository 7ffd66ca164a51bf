import SchemaBrain.Core.EntityYaml

/-!
# Canonical-join files

`joins/yaml_grammar.py` over the constructors of `JoinColumnPair` and `CanonicalJoin`, and the
checks that its parser runs. The library is the one under `_Yaml12SafeLoader`.
-/

namespace SchemaBrain.Core

open Base

/-- The constructor of `JoinColumnPair`. -/
def JoinColumnPair.make (sourceColumn targetColumn : String) : Except PyError JoinColumnPair := do
  let source ← requireIdent "source_column" sourceColumn
  let target ← requireIdent "target_column" targetColumn
  return ⟨source.1, target.1, isIdent_checked source, isIdent_checked target⟩

section Parser

variable (limit : Nat)

/-- The start of the messages about one item of `on`. -/
def onScope (index : Nat) : String := "on[" ++ toString index ++ "]"

/-- One column of an item of `on`. -/
def onColumn (field : String) : YamlValue → Except YamlFailure String
  | .str column =>
    if column = "" then
      .error (.yaml (field ++ " must be a non-empty string " ++ (YamlValue.str column).got))
    else .ok column
  | raw => refuse limit [raw] (field ++ " must be a non-empty string " ++ raw.got)

/-- `_parse_on_item`. -/
def parseOnItem (index : Nat) : YamlValue → Except YamlFailure JoinColumnPair
  | .map item => do
    checkKeys limit ("missing required field(s) in " ++ onScope index)
      ("unknown " ++ onScope index ++ " keys") ["source", "target"] ["source", "target"] item
    let source ← onColumn limit (onScope index ++ ".source")
      ((yamlField item "source").getD .null)
    let target ← onColumn limit (onScope index ++ ".target")
      ((yamlField item "target").getD .null)
    rewrap (onScope index ++ ": ") (JoinColumnPair.make source target)
  | raw => .error (.yaml (onScope index ++ " must be a mapping with `source` and `target` keys " ++
      "(got " ++ raw.typeName ++ ")"))

/-- `_parse_on_list`. -/
def parseOnList : YamlValue → Except YamlFailure (List JoinColumnPair)
  | .seq [] => .error (.yaml ("on must contain at least one column pair " ++
      "(cross joins are not canonical)"))
  | .seq items => items.zipIdx.mapM fun item => parseOnItem limit item.2 item.1
  | raw => .error (.yaml ("on must be a list of \x7bsource, target\x7d mappings (got " ++
      raw.typeName ++ ")"))

/-- `dbt_import` is no origin of a file. -/
def refuseDbtImport (message origin : String) : Except YamlFailure Unit :=
  if origin = "dbt_import" then .error (.yaml message) else .ok ()

/-- `_parse_origin`. -/
def parseJoinOrigin (raw : YamlValue) : Except YamlFailure String := do
  let origin ← parseWord limit "origin" (validWords Origin) raw
  refuseDbtImport ("origin 'dbt_import' is reserved for the dbt-relationships importer, which " ++
    "has not shipped yet. Use 'manual' or omit the field to default. To import entities from " ++
    "dbt today, see `schemabrain import dbt`; the joins counterpart is on the roadmap.") origin
  return origin

/-- `_parse_cardinality`. -/
def parseCardinality : YamlValue → Except YamlFailure (Option String)
  | .null => .ok none
  | raw => (parseWord limit "cardinality" (validWords Cardinality) raw).map some

/-- `parse_canonical_join_yaml` of the top-level mapping. -/
def parseJoinFields (data : List (YamlScalar × YamlValue)) : Except YamlFailure JoinRecord := do
  checkKeys limit "missing required field(s) in top-level" "unknown top-level keys"
    ["version", "name", "description", "source_entity", "target_entity", "on", "origin",
      "cardinality"]
    ["version", "name", "source_entity", "target_entity", "on"] data
  checkVersion limit "canonical-join" ((yamlField data "version").getD .null)
  let name ← requireStr limit data "name"
  let description ← optionalStr limit data "description" ""
  let sourceEntity ← requireStr limit data "source_entity"
  let targetEntity ← requireStr limit data "target_entity"
  let on ← parseOnList limit ((yamlField data "on").getD .null)
  let origin ← parseJoinOrigin limit ((yamlField data "origin").getD (.str "manual"))
  let cardinality ← parseCardinality limit ((yamlField data "cardinality").getD .null)
  rewrap "canonical-join validation failed: " (JoinRecord.make name description sourceEntity
    targetEntity on origin cardinality "manually_authored" "applied")

end Parser

/-- `parse_canonical_join_yaml`. -/
def parseCanonicalJoinYaml (yaml12 : YamlLibrary) (text : String) :
    Except YamlFailure JoinRecord :=
  parseFile yaml12 "failed to parse YAML"
    (parseTopLevel "canonical-join" (parseJoinFields yaml12.maxStrDigits)) text

/-! ## The checks of the constructors -/

theorem joinColumnPair_raises (sourceColumn targetColumn : String) :
    RaisesValueError (JoinColumnPair.make sourceColumn targetColumn) := by
  refine (requireIdent_raises _ _).bind fun source => ?_
  exact (requireIdent_raises _ _).bind fun target => .ok _

theorem joinColumnPair_isOk (sourceColumn targetColumn : String) :
    (JoinColumnPair.make sourceColumn targetColumn).isOk =
      (isIdent sourceColumn && isIdent targetColumn) := by
  unfold JoinColumnPair.make requireIdent
  by_cases hsource : isIdent sourceColumn = true <;>
    by_cases htarget : isIdent targetColumn = true <;>
    simp [hsource, htarget, bind, Except.bind, pure, Except.pure, Except.isOk, Except.toBool]

/-- The constructor of `CanonicalJoin` raises `ValueError` only. -/
theorem joinRecord_raises (name description sourceEntity targetEntity : String)
    (on : List JoinColumnPair) (origin : String) (cardinality : Option String)
    (inferenceMethod validationState : String) :
    RaisesValueError (JoinRecord.make name description sourceEntity targetEntity on origin
      cardinality inferenceMethod validationState) := by
  refine (requireIdent_raises _ _).bind fun name => ?_
  refine (requireIdent_raises _ _).bind fun source => ?_
  refine (requireIdent_raises _ _).bind fun target => ?_
  split
  · exact .error _
  · split
    · exact .error _
    · refine (requireWord_raises _ _).bind fun origin => ?_
      refine (requireOptionalWord_raises _ _).bind fun cardinality => ?_
      refine (requireWord_raises _ _).bind fun inferenceMethod => ?_
      exact (requireWord_raises _ _).bind fun validationState => .ok _

/-! ## The checks of the parser -/

section Checks

variable (limit : Nat)

/-- The value is an identifier. -/
def isIdentValue : YamlValue → Bool
  | .str s => isIdent s
  | _ => false

/-- The checks of an item of `on`. -/
def onItemChecks : YamlValue → List Check
  | .map item => [keysCheck limit ["source", "target"] ["source", "target"] item,
      printedCheck limit isText ((yamlField item "source").getD .null),
      printedCheck limit isText ((yamlField item "target").getD .null),
      ⟨isIdentValue ((yamlField item "source").getD .null) &&
        isIdentValue ((yamlField item "target").getD .null), false⟩]
  | _ => [⟨false, false⟩]

/-- The checks of `on`. -/
def onListChecks : YamlValue → List Check
  | .seq [] => [⟨false, false⟩]
  | .seq items => items.flatMap (onItemChecks limit)
  | _ => [⟨false, false⟩]

/-- The checks of an origin of a file. -/
def fileOriginChecks (raw : YamlValue) : List Check :=
  [printedCheck limit (isWordOf (validWords Origin)) raw,
    ⟨!isWordOf ["dbt_import"] raw, false⟩]

/-- The value is missing or a word of the set. -/
def isOptionalWordOf (valid : List String) : YamlValue → Bool
  | .null => true
  | raw => isWordOf valid raw

/-- The checks of `parse_canonical_join_yaml` before it constructs the join. -/
def joinChecks (data : List (YamlScalar × YamlValue)) : List Check :=
  [keysCheck limit ["version", "name", "description", "source_entity", "target_entity", "on",
      "origin", "cardinality"] ["version", "name", "source_entity", "target_entity", "on"] data,
    printedCheck limit isOne ((yamlField data "version").getD .null),
    printedCheck limit isText ((yamlField data "name").getD .null),
    printedCheck limit isStr (optionalField data "description"),
    printedCheck limit isText ((yamlField data "source_entity").getD .null),
    printedCheck limit isText ((yamlField data "target_entity").getD .null)] ++
    (onListChecks limit ((yamlField data "on").getD .null) ++
      (fileOriginChecks limit ((yamlField data "origin").getD (.str "manual")) ++ [
        printedCheck limit (isOptionalWordOf (validWords Cardinality))
          ((yamlField data "cardinality").getD .null)]))

variable {limit}

theorem runs_onColumn (field : String) (raw : YamlValue) :
    Runs (onColumn limit field raw) [printedCheck limit isText raw] := by
  unfold onColumn
  split
  · next column =>
    split
    · next hempty =>
      exact .own (by simp [printedCheck, isText, hempty])
        (by simp [printedCheck, YamlValue.prints, YamlScalar.prints])
    · next hne => exact .of_ok rfl (by simp [printedCheck, isText, hne])
  · next hother =>
    refine .refuse ?_ (by simp [printedCheck])
    unfold printedCheck isText
    split
    · next column => exact absurd rfl (hother column)
    · rfl

/-- A column that was read is the string of its field. -/
theorem onColumn_ok {field column : String} {raw : YamlValue}
    (h : onColumn limit field raw = .ok column) : raw = .str column := by
  unfold onColumn at h
  split at h
  · split at h
    · simp at h
    · rw [Except.ok.inj h]
  · unfold refuse at h
    split at h <;> simp at h

theorem runs_parseOnItem (index : Nat) (raw : YamlValue) :
    Runs (parseOnItem limit index raw) (onItemChecks limit raw) := by
  unfold parseOnItem onItemChecks
  split
  · next item =>
    refine (runs_checkKeys _ _ _ _ item).bind fun _ _ => ?_
    refine (runs_onColumn _ _).bind fun source hsource => ?_
    refine (runs_onColumn _ _).bind fun target htarget => ?_
    rw [onColumn_ok hsource, onColumn_ok htarget]
    exact runs_rewrap (joinColumnPair_raises _ _) (joinColumnPair_isOk _ _).symm rfl
  · exact .own rfl rfl

theorem runs_parseOnList (raw : YamlValue) :
    Runs (parseOnList limit raw) (onListChecks limit raw) := by
  unfold parseOnList onListChecks
  split
  · exact .own rfl rfl
  · next items _ =>
    have hchecks : items.flatMap (onItemChecks limit) =
        items.zipIdx.flatMap fun item => onItemChecks limit item.1 := by
      conv_lhs => rw [← List.zipIdx_map_fst 0 items]
      rw [List.flatMap_map]
    rw [hchecks]
    exact .mapM fun item _ => runs_parseOnItem item.2 item.1
  · exact .own rfl rfl

theorem runs_refuseDbtImport (message origin : String) :
    Runs (refuseDbtImport message origin) [⟨!isWordOf ["dbt_import"] (.str origin), false⟩] := by
  unfold refuseDbtImport
  split
  · next hdbt => exact .own (by simp [isWordOf, hdbt]) rfl
  · next hne => exact .of_ok rfl (by simp [isWordOf, hne])

theorem runs_parseJoinOrigin (raw : YamlValue) :
    Runs (parseJoinOrigin limit raw) (fileOriginChecks limit raw) := by
  refine (runs_parseWord _ _ _).bind fun origin horigin => ?_
  rw [(parseWord_ok horigin).1, ← List.append_nil [_]]
  exact (runs_refuseDbtImport _ _).bind fun _ _ => .ok origin

theorem runs_parseCardinality (raw : YamlValue) :
    Runs (parseCardinality limit raw)
      [printedCheck limit (isOptionalWordOf (validWords Cardinality)) raw] := by
  unfold parseCardinality
  split
  · exact .of_ok rfl rfl
  · next hother =>
    have hchecks : printedCheck limit (isOptionalWordOf (validWords Cardinality)) raw =
        printedCheck limit (isWordOf (validWords Cardinality)) raw := by
      unfold printedCheck isOptionalWordOf
      split
      · exact absurd rfl hother
      · rfl
    rw [hchecks]
    exact (runs_parseWord _ _ _).map some

/-- What `parse_canonical_join_yaml` raises is read off its checks. -/
theorem guards_parseJoinFields (data : List (YamlScalar × YamlValue)) :
    Guards YamlFailure.Foreign (parseJoinFields limit data) (joinChecks limit data) := by
  unfold parseJoinFields joinChecks
  refine (runs_checkKeys _ _ _ _ data).bind_guards fun _ _ => ?_
  refine (runs_checkVersion _ _).bind_guards fun _ _ => ?_
  refine (runs_requireStr data "name").bind_guards fun name _ => ?_
  refine (runs_optionalStr data "description" "").bind_guards fun description _ => ?_
  refine (runs_requireStr data "source_entity").bind_guards fun sourceEntity _ => ?_
  refine (runs_requireStr data "target_entity").bind_guards fun targetEntity _ => ?_
  refine (runs_parseOnList _).bind_guards fun on _ => ?_
  refine (runs_parseJoinOrigin _).bind_guards fun origin _ => ?_
  refine (runs_parseCardinality _).bind_guards fun cardinality _ => ?_
  exact guards_rewrap (joinRecord_raises _ _ _ _ _ _ _ _ _)

end Checks

end SchemaBrain.Core
