import SchemaBrain.Base.YamlGrammar
import SchemaBrain.Core.SemanticRecords

/-!
# Entity files

`entities/yaml_grammar.py` over the constructor of `Entity`, and the checks that its parser runs.
-/

namespace SchemaBrain.Core

open Base

/-- The words of a closed set. -/
def validWords (α : Type) [Literal α] : List String := (Literal.values (α := α)).map word

section Parser

variable (limit : Nat)

/-- The check of the binding's shapes: both are known, `multi_table` is not accepted. -/
def checkBindingShapes (members : List (YamlScalar × YamlValue)) : Except YamlFailure Unit :=
  if members = [] then
    .error (.yaml "binding must specify exactly one shape; got empty mapping")
  else if unknownKeys ["single_table", "multi_table"] members ≠ [] then
    if YamlScalar.sortable (unknownKeys ["single_table", "multi_table"] members) then
      refuse limit ((unknownKeys ["single_table", "multi_table"] members).map .scalar)
        ("unknown binding shape(s): [" ++ ", ".intercalate (YamlScalar.sortedReprs
          (unknownKeys ["single_table", "multi_table"] members)) ++
          "]; allowed: " ++ pyReprList ["multi_table", "single_table"])
    else .error .typeError
  else if (yamlField members "multi_table").isSome then
    if (yamlField members "single_table").isSome then
      .error (.yaml
        "binding must specify exactly one shape; got both single_table and multi_table")
    else
      .error (.yaml "multi_table binding is deferred to v2; use single_table for v1 entities")
  else .ok ()

/-- `SingleTableBinding(qualified_table=...)` of the value of `single_table`. -/
def singleTableBinding : YamlValue → Except YamlFailure String
  | .str qualifiedTable =>
    if (parseQualifiedColumn qualifiedTable).isSome then .ok qualifiedTable
    else .error (.yaml ("binding.single_table: qualified_table must be 'schema.table' form (got " ++
      pyRepr qualifiedTable ++ ")"))
  | raw => refuse limit [raw] ("binding.single_table must be a string " ++ raw.got)

/-- `_parse_binding`: the qualified table. -/
def parseBinding : YamlValue → Except YamlFailure String
  | .map members => do
    checkBindingShapes limit members
    singleTableBinding limit ((yamlField members "single_table").getD .null)
  | raw => .error (.yaml ("binding must be a mapping (got " ++ raw.typeName ++ ")"))

/-- `parse_entity_yaml` of the top-level mapping. -/
def parseEntityFields (data : List (YamlScalar × YamlValue)) :
    Except YamlFailure EntityRecord := do
  checkKeys limit "missing required field(s)" "unknown top-level keys"
    ["version", "name", "description", "binding", "identity", "origin", "group"]
    ["version", "name", "binding", "identity"] data
  checkVersion limit "entity" ((yamlField data "version").getD .null)
  let name ← requireStr limit data "name"
  let description ← optionalStr limit data "description" ""
  let qualifiedTable ← parseBinding limit ((yamlField data "binding").getD .null)
  let identity ← requireStr limit data "identity"
  let origin ← parseWord limit "origin" (validWords Origin)
    ((yamlField data "origin").getD (.str "manual"))
  let group ← parseWord limit "group" (validWords Group)
    ((yamlField data "group").getD (.str "other"))
  rewrap "entity validation failed: " (EntityRecord.make name description qualifiedTable identity
    origin "manually_authored" "applied" group none "")

end Parser

/-- `parse_entity_yaml`. -/
def parseEntityYaml (yaml : YamlLibrary) (text : String) : Except YamlFailure EntityRecord :=
  parseFile yaml "failed to parse YAML"
    (parseTopLevel "entity" (parseEntityFields yaml.maxStrDigits)) text

/-! ## The checks of the constructors -/

theorem requireIdent_raises (field value : String) :
    RaisesValueError (requireIdent field value) := by
  unfold requireIdent
  split
  · exact .ok _
  · exact .error _

theorem requireWord_raises {α : Type} [Literal α] (rule value : String) :
    RaisesValueError (requireWord rule value : Except PyError α) := by
  unfold requireWord
  split
  · exact .ok _
  · exact .error _

theorem requireOptionalWord_raises {α : Type} [Literal α] (rule : String) (value : Option String) :
    RaisesValueError (requireOptionalWord rule value : Except PyError (Option α)) := by
  cases value with
  | none => exact .ok none
  | some value => exact (requireWord_raises rule value).map

/-- The constructor of `Entity` raises `ValueError` only. -/
theorem entityRecord_raises (name description qualifiedTable identity origin inferenceMethod
    validationState group : String) (bindConfidence : Option String) (rationale : String) :
    RaisesValueError (EntityRecord.make name description qualifiedTable identity origin
      inferenceMethod validationState group bindConfidence rationale) := by
  unfold EntityRecord.make
  split
  · exact .error _
  · refine (requireIdent_raises _ _).bind fun name => ?_
    refine (requireIdent_raises _ _).bind fun identity => ?_
    refine (requireWord_raises _ _).bind fun origin => ?_
    refine (requireWord_raises _ _).bind fun inferenceMethod => ?_
    refine (requireWord_raises _ _).bind fun validationState => ?_
    refine (requireWord_raises _ _).bind fun group => ?_
    exact (requireOptionalWord_raises _ _).bind fun bindConfidence => .ok _

/-! ## The checks of the parser -/

section Checks

variable (limit : Nat)

/-- The binding is a mapping with a shape, all its shapes are known, and it is not
`multi_table`. -/
def bindingShapesCheck (members : List (YamlScalar × YamlValue)) : Check where
  passes := !members.isEmpty && unknownKeys ["single_table", "multi_table"] members = [] &&
    (yamlField members "multi_table").isNone
  foreign := !(YamlScalar.sortable (unknownKeys ["single_table", "multi_table"] members) &&
    (unknownKeys ["single_table", "multi_table"] members).all (·.prints limit))

/-- The value is a `schema.table` text. -/
def isQualifiedTable : YamlValue → Bool
  | .str qualifiedTable => (parseQualifiedColumn qualifiedTable).isSome
  | _ => false

/-- The checks of a binding. -/
def bindingChecks : YamlValue → List Check
  | .map members => [bindingShapesCheck limit members,
      printedCheck limit isQualifiedTable ((yamlField members "single_table").getD .null)]
  | _ => [⟨false, false⟩]

/-- The checks of `parse_entity_yaml` before it constructs the entity. -/
def entityChecks (data : List (YamlScalar × YamlValue)) : List Check :=
  [keysCheck limit ["version", "name", "description", "binding", "identity", "origin", "group"]
      ["version", "name", "binding", "identity"] data,
    printedCheck limit isOne ((yamlField data "version").getD .null),
    printedCheck limit isText ((yamlField data "name").getD .null),
    printedCheck limit isStr (optionalField data "description")] ++
    (bindingChecks limit ((yamlField data "binding").getD .null) ++ [
      printedCheck limit isText ((yamlField data "identity").getD .null),
      printedCheck limit (isWordOf (validWords Origin))
        ((yamlField data "origin").getD (.str "manual")),
      printedCheck limit (isWordOf (validWords Group))
        ((yamlField data "group").getD (.str "other"))])

variable {limit}

private theorem runs_checkBindingShapes (members : List (YamlScalar × YamlValue)) :
    Runs (checkBindingShapes limit members) [bindingShapesCheck limit members] := by
  unfold checkBindingShapes
  split
  · next hempty =>
    subst hempty
    exact .own (by simp [bindingShapesCheck]) (by simp [bindingShapesCheck, unknownKeys,
      YamlScalar.sortable])
  · next hne =>
    split
    · next hunknown =>
      split
      · next hsorted =>
        refine .refuse (by simp [bindingShapesCheck, hunknown]) ?_
        simp [bindingShapesCheck, hsorted, List.all_map, YamlValue.prints, Function.comp_def]
      · next hsorted =>
        exact .of_error rfl (by simp [bindingShapesCheck, hunknown])
          (by simp [bindingShapesCheck, hsorted])
    · next hknown =>
      rw [not_not] at hknown
      have hown : (bindingShapesCheck limit members).foreign = false := by
        simp [bindingShapesCheck, hknown, YamlScalar.sortable]
      split
      · next hmulti =>
        have hfails : (bindingShapesCheck limit members).passes = false := by
          have hnone : (yamlField members "multi_table").isNone = false := by
            rw [← Option.not_isSome, hmulti]
            rfl
          simp [bindingShapesCheck, hnone]
        split
        · exact .own hfails hown
        · exact .own hfails hown
      · next hmulti =>
        have hnone : (yamlField members "multi_table").isNone = true := by
          simpa using hmulti
        exact .of_ok rfl (by simp [bindingShapesCheck, hne, hknown, hnone])

private theorem runs_singleTableBinding (raw : YamlValue) :
    Runs (singleTableBinding limit raw) [printedCheck limit isQualifiedTable raw] := by
  unfold singleTableBinding
  split
  · next qualifiedTable =>
    split
    · next hform => exact .of_ok rfl (by simp [printedCheck, isQualifiedTable, hform])
    · next hform =>
      exact .own (by simpa [printedCheck, isQualifiedTable] using hform)
        (by simp [printedCheck, YamlValue.prints, YamlScalar.prints])
  · next hother =>
    refine .refuse ?_ (by simp [printedCheck])
    unfold printedCheck isQualifiedTable
    split
    · next qualifiedTable => exact absurd rfl (hother qualifiedTable)
    · rfl

theorem runs_parseBinding (raw : YamlValue) :
    Runs (parseBinding limit raw) (bindingChecks limit raw) := by
  unfold parseBinding bindingChecks
  split
  · next members =>
    exact (runs_checkBindingShapes members).bind fun _ _ => runs_singleTableBinding _
  · exact .own rfl rfl

/-- What `parse_entity_yaml` raises is read off its checks. -/
theorem guards_parseEntityFields (data : List (YamlScalar × YamlValue)) :
    Guards YamlFailure.Foreign (parseEntityFields limit data) (entityChecks limit data) := by
  unfold parseEntityFields entityChecks
  refine (runs_checkKeys _ _ _ _ data).bind_guards fun _ _ => ?_
  refine (runs_checkVersion _ _).bind_guards fun _ _ => ?_
  refine (runs_requireStr data "name").bind_guards fun name _ => ?_
  refine (runs_optionalStr data "description" "").bind_guards fun description _ => ?_
  refine (runs_parseBinding _).bind_guards fun qualifiedTable _ => ?_
  refine (runs_requireStr data "identity").bind_guards fun identity _ => ?_
  refine (runs_parseWord "origin" _ _).bind_guards fun origin _ => ?_
  refine (runs_parseWord "group" _ _).bind_guards fun group _ => ?_
  exact guards_rewrap (entityRecord_raises _ _ _ _ _ _ _ _ _ _)

end Checks

end SchemaBrain.Core
