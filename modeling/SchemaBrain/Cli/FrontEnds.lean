import SchemaBrain.Core.MetricYaml
import SchemaBrain.Pii.PolicyChecks

/-!
# The YAML front ends

Which exceptions leave the four parsers. A parser fails with its own error unless the first
check that fails sorts unknown keys that cannot be compared, prints an integer that is too
long, or runs the expression parser out of its stack or memory.
-/

namespace SchemaBrain.Cli

open Base Core Pii

/-- The front end returned a value or raised its own error. -/
def FailsOwn {α : Type} (x : Except YamlFailure α) : Prop :=
  (∃ a, x = .ok a) ∨ ∃ message, x = .error (.yaml message)

theorem failsOwn_iff {α : Type} {x : Except YamlFailure α} :
    FailsOwn x ↔ ¬ RaisesForeign YamlFailure.Foreign x := by
  unfold FailsOwn
  cases x with
  | ok a => simp
  | error e => cases e <;> simp [YamlFailure.Foreign]

/-- A front end fails with its own error exactly when the checks of the loaded mapping do. -/
private theorem failsOwn_parseFile {α : Type} {yaml : YamlLibrary} {failed what text : String}
    {body : List (YamlScalar × YamlValue) → Except YamlFailure α}
    {checks : List (YamlScalar × YamlValue) → List Check}
    (h : ∀ data, Guards YamlFailure.Foreign (body data) (checks data)) :
    FailsOwn (parseFile yaml failed (parseTopLevel what body) text) ↔
      ∀ data, yaml.safeLoad text = .ok (.map data) → ownFailure (checks data) = true := by
  have hguards : ∀ data, RaisesForeign YamlFailure.Foreign (parseTopLevel what body data) ↔
      ownFailure (topLevelChecks checks data) = false := guards_parseTopLevel h
  rw [failsOwn_iff, raisesForeign_parseFile]
  simp only [hguards, not_exists, not_and, Bool.not_eq_false]
  constructor
  · exact fun hall data hload => hall (.map data) hload
  · intro hall data hload
    cases data with
    | map data => exact hall data hload
    | scalar s => rfl
    | seq items => rfl

/-- A file with some empty fields, a field `1` and a field `notes`. -/
def strayText (fields : List String) : String :=
  String.join ((fields ++ ["1", "notes"]).map (· ++ ":\n"))

/-- What it loads as. -/
def strayData (fields : List String) : YamlValue :=
  .map (fields.map (fun field => (.str field, .null)) ++ [(.int 1, .null), (.str "notes", .null)])

/-- The required fields of the four kinds of file. -/
def requiredFields : List (List String) :=
  [["version", "name", "binding", "identity"],
    ["version", "name", "source_entity", "target_entity", "on"],
    ["version", "name", "entity", "measure"], ["version", "block"]]

/-- The library on those files. -/
def strayYaml : YamlLibrary where
  safeLoad text :=
    match requiredFields.find? (strayText · = text) with
    | some fields => .ok (strayData fields)
    | none => .error ""
  safeDump _ := ""

private theorem strayYaml_safeLoad {fields : List String} (h : fields ∈ requiredFields) :
    strayYaml.safeLoad (strayText fields) = .ok (strayData fields) := by
  simp only [requiredFields, List.mem_cons, List.not_mem_nil, or_false] at h
  rcases h with rfl | rfl | rfl | rfl <;> rfl

/-- A front end whose keys cannot be sorted raises `TypeError`. -/
private theorem not_failsOwn_of_stray {α : Type} {fields : List String} {failed what : String}
    {body : List (YamlScalar × YamlValue) → Except YamlFailure α} (h : fields ∈ requiredFields)
    (hbody : parseTopLevel what body (strayData fields) = .error .typeError) :
    ¬ FailsOwn (parseFile strayYaml failed (parseTopLevel what body) (strayText fields)) := by
  unfold parseFile
  rw [strayYaml_safeLoad h]
  simp [hbody, FailsOwn]

end SchemaBrain.Cli
