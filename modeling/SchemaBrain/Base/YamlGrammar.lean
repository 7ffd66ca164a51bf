import SchemaBrain.Base.Checks
import SchemaBrain.Base.Yaml

/-!
# Validators of YAML grammars

The field validators that the front ends over `yaml.safe_load` share, with the checks that
they run. A validator raises the error of its front end, unless its message cannot be built.
-/

namespace SchemaBrain.Base

/-- What a front end fails with. -/
inductive YamlFailure
  /-- The error class of the front end. -/
  | yaml (message : String)
  /-- `TypeError`, as sorting keys that cannot be compared raises it. -/
  | typeError
  /-- A plain `ValueError`, as printing an integer with too many digits raises it. -/
  | valueError
  /-- `KeyError`. -/
  | keyError
  /-- `RecursionError`. -/
  | recursionError
  /-- `MemoryError`. -/
  | memoryError
  deriving DecidableEq, Repr

/-- An exception that is not the front end's own. -/
def YamlFailure.Foreign : YamlFailure → Prop
  | .yaml _ => False
  | _ => True

/-- A computation of a front end runs some checks. -/
abbrev Runs {α : Type} (x : Except YamlFailure α) (checks : List Check) : Prop :=
  Follows YamlFailure.Foreign x checks

section Validators

variable (limit : Nat)

/-- Raises the front end's error with a message that prints some values. -/
def refuse {α : Type} (values : List YamlValue) (message : String) : Except YamlFailure α :=
  if values.all (·.prints limit) then .error (.yaml message) else .error .valueError

/-- `except ValueError as exc: raise ...` around a constructor. -/
def rewrap {α : Type} (before : String) : Except PyError α → Except YamlFailure α
  | .ok a => .ok a
  | .error (.valueError message) => .error (.yaml (before ++ message))
  | .error (.typeError _) => .error .typeError
  | .error (.keyError _) => .error .keyError

/-- The required keys that a mapping lacks. -/
def missingKeys (required : List String) (data : List (YamlScalar × YamlValue)) : List String :=
  required.filter fun key => (yamlField data key).isNone

/-- The keys of a mapping that are not allowed. -/
def unknownKeys (allowed : List String) (data : List (YamlScalar × YamlValue)) :
    List YamlScalar :=
  (data.map (·.1)).filter fun key => !allowed.any (key.isKey ·)

/-- `_check_keys`, with the starts of its two messages. -/
def checkKeys (missingText unknownText : String) (allowed required : List String)
    (data : List (YamlScalar × YamlValue)) : Except YamlFailure Unit :=
  if missingKeys required data ≠ [] then
    .error (.yaml (missingText ++ ": " ++ pyReprList (pySorted (missingKeys required data))))
  else if unknownKeys allowed data ≠ [] then
    if YamlScalar.sortable (unknownKeys allowed data) then
      refuse limit ((unknownKeys allowed data).map .scalar) (unknownText ++ ": [" ++
        ", ".intercalate (YamlScalar.sortedReprs (unknownKeys allowed data)) ++ "]")
    else .error .typeError
  else .ok ()

/-- `_check_version`. -/
def checkVersion (files : String) : YamlValue → Except YamlFailure Unit
  | .int i =>
    if i = 1 then .ok ()
    else refuse limit [.int i] ("version must be 1 (got " ++ toString i ++
      "); this parser only supports v1 " ++ files ++ " files")
  | value => refuse limit [value] ("version must be the integer 1 (got " ++ value.repr ++
      ", type " ++ value.typeName ++ ")")

/-- `_require_str`. -/
def requireStr (data : List (YamlScalar × YamlValue)) (field : String) :
    Except YamlFailure String :=
  match (yamlField data field).getD .null with
  | .str s => if s = "" then .error (.yaml (field ++ " must be non-empty")) else .ok s
  | value => refuse limit [value] (field ++ " must be a string " ++ value.got)

/-- `_optional_str`. -/
def optionalStr (data : List (YamlScalar × YamlValue)) (field default : String) :
    Except YamlFailure String :=
  match yamlField data field with
  | none => .ok default
  | some (.str s) => .ok s
  | some value => refuse limit [value] (field ++ " must be a string " ++ value.got)

/-- A word of a closed set, as the origin, the group and the cardinality are read. -/
def parseWord (field : String) (valid : List String) : YamlValue → Except YamlFailure String
  | .str s =>
    if s ∈ valid then .ok s
    else .error (.yaml (field ++ " must be one of " ++ pyReprList (pySorted valid) ++ " (got " ++
      pyRepr s ++ ")"))
  | raw => refuse limit [raw] (field ++ " must be a string " ++ raw.got)

/-- The top level of a file: a mapping, of which the grammar makes something. -/
def parseTopLevel {α : Type} (what : String)
    (body : List (YamlScalar × YamlValue) → Except YamlFailure α) :
    YamlValue → Except YamlFailure α
  | .null => .error (.yaml (what ++ " YAML is empty"))
  | .map data => body data
  | data => .error (.yaml (what ++ " YAML must be a mapping at the top level (got " ++
      data.typeName ++ ")"))

/-- A front end: the loaded text goes to the grammar. -/
def parseFile {α : Type} (yaml : YamlLibrary) (failed : String)
    (grammar : YamlValue → Except YamlFailure α) (text : String) : Except YamlFailure α :=
  match yaml.safeLoad text with
  | .error message => .error (.yaml (failed ++ ": " ++ message))
  | .ok data => grammar data

/-! ## Their checks -/

/-- The keys: none is missing or unknown, and unknown ones can be sorted and printed. -/
def keysCheck (allowed required : List String) (data : List (YamlScalar × YamlValue)) : Check where
  passes := missingKeys required data = [] && unknownKeys allowed data = []
  foreign := missingKeys required data = [] &&
    !(YamlScalar.sortable (unknownKeys allowed data) &&
      (unknownKeys allowed data).all (·.prints limit))

/-- The checks of a file, where its top level is a mapping. -/
def topLevelChecks (checks : List (YamlScalar × YamlValue) → List Check) : YamlValue → List Check
  | .map data => checks data
  | _ => []

/-- A value that must satisfy a test, and is printed when it does not. -/
def printedCheck (passes : YamlValue → Bool) (value : YamlValue) : Check :=
  ⟨passes value, !value.prints limit⟩

/-- The value is `1`. -/
def isOne : YamlValue → Bool
  | .int i => i = 1
  | _ => false

/-- The value is a string. -/
def isStr : YamlValue → Bool
  | .str _ => true
  | _ => false

/-- The value is a string that is not empty. -/
def isText : YamlValue → Bool
  | .str s => s ≠ ""
  | _ => false

/-- The value is a word of the set. -/
def isWordOf (valid : List String) : YamlValue → Bool
  | .str s => s ∈ valid
  | _ => false

variable {limit}

@[simp] theorem foreign_yaml (message : String) : ¬ (YamlFailure.yaml message).Foreign := id

@[simp] theorem foreign_typeError : YamlFailure.typeError.Foreign := trivial

@[simp] theorem foreign_valueError : YamlFailure.valueError.Foreign := trivial

/-- A refusal, as a check that failed. -/
theorem Runs.refuse {α : Type} {values : List YamlValue} {message : String} {c : Check}
    (hpasses : c.passes = false) (hforeign : c.foreign = !values.all (·.prints limit)) :
    Runs (Base.refuse limit values message : Except YamlFailure α) [c] := by
  unfold Base.refuse
  split
  · next hprints => exact .of_error rfl hpasses (by simp [hforeign, hprints])
  · next hlong => exact .of_error rfl hpasses (by simpa [hforeign] using hlong)

/-- A check whose failure is the front end's own. -/
theorem Runs.own {α : Type} {message : String} {c : Check} (hpasses : c.passes = false)
    (hforeign : c.foreign = false) :
    Runs (.error (.yaml message) : Except YamlFailure α) [c] :=
  .of_error rfl hpasses (by simp [hforeign])

/-- A constructor that raises `ValueError` only. -/
def RaisesValueError {α : Type} (x : Except PyError α) : Prop :=
  ∀ e, x = .error e → ∃ message, e = .valueError message

theorem RaisesValueError.ok {α : Type} (a : α) : RaisesValueError (.ok a) := by
  rintro e ⟨⟩

theorem RaisesValueError.error {α : Type} (message : String) :
    RaisesValueError (.error (.valueError message) : Except PyError α) := by
  rintro e ⟨⟩
  exact ⟨message, rfl⟩

theorem RaisesValueError.bind {α β : Type} {x : Except PyError α} {f : α → Except PyError β}
    (h : RaisesValueError x) (h' : ∀ a, RaisesValueError (f a)) : RaisesValueError (x >>= f) := by
  intro e he
  cases x with
  | error e' =>
    obtain rfl : e' = e := Except.error.inj he
    exact h _ rfl
  | ok a => exact h' a e he

theorem RaisesValueError.map {α β : Type} {x : Except PyError α} {f : α → β}
    (h : RaisesValueError x) : RaisesValueError (x.map f) :=
  fun e he => h e (map_eq_error he)

theorem RaisesValueError.mapM {α β : Type} {f : α → Except PyError β} {xs : List α}
    (h : ∀ x, RaisesValueError (f x)) : RaisesValueError (xs.mapM f) := by
  intro e he
  obtain ⟨x, -, hx⟩ := mapM_eq_error he
  exact h x e hx

/-- The checks of a constructor pass exactly when it returns, and its errors are rewrapped. -/
theorem runs_rewrap {α : Type} {before : String} {x : Except PyError α} {c : Check}
    (h : RaisesValueError x) (hpasses : c.passes = x.isOk) (hforeign : c.foreign = false) :
    Runs (rewrap before x) [c] := by
  cases x with
  | ok a => exact .of_ok rfl hpasses
  | error e =>
    obtain ⟨message, rfl⟩ := h e rfl
    exact .own hpasses hforeign

/-- A constructor at the end of a front end guards nothing. -/
theorem guards_rewrap {α : Type} {before : String} {x : Except PyError α}
    (h : RaisesValueError x) : Guards YamlFailure.Foreign (rewrap before x) [] := by
  cases x with
  | ok a => exact .of_own (not_raisesForeign_ok a)
  | error e =>
    obtain ⟨message, rfl⟩ := h e rfl
    exact .of_own (by simp [rewrap])

theorem runs_checkKeys (missingText unknownText : String) (allowed required : List String)
    (data : List (YamlScalar × YamlValue)) :
    Runs (checkKeys limit missingText unknownText allowed required data)
      [keysCheck limit allowed required data] := by
  unfold checkKeys
  split
  · next hmissing => exact .own (by simp [keysCheck, hmissing]) (by simp [keysCheck, hmissing])
  · next hmissing =>
    rw [not_not] at hmissing
    split
    · next hunknown =>
      split
      · next hsorted =>
        refine .refuse (by simp [keysCheck, hunknown]) ?_
        simp [keysCheck, hmissing, hsorted, List.all_map, YamlValue.prints, Function.comp_def]
      · next hsorted =>
        exact .of_error rfl (by simp [keysCheck, hunknown])
          (by simp [keysCheck, hmissing, hsorted])
    · next hunknown =>
      rw [not_not] at hunknown
      exact .of_ok rfl (by simp [keysCheck, hmissing, hunknown])

theorem runs_checkVersion (files : String) (value : YamlValue) :
    Runs (checkVersion limit files value) [printedCheck limit isOne value] := by
  unfold checkVersion
  split
  · next i =>
    split
    · next hone => exact .of_ok rfl (by simp [printedCheck, isOne, hone])
    · next hne => exact .refuse (by simp [printedCheck, isOne, hne]) (by simp [printedCheck])
  · next hother =>
    refine .refuse ?_ (by simp [printedCheck])
    unfold printedCheck isOne
    split
    · next i => exact absurd rfl (hother i)
    · rfl

theorem runs_requireStr (data : List (YamlScalar × YamlValue)) (field : String) :
    Runs (requireStr limit data field)
      [printedCheck limit isText ((yamlField data field).getD .null)] := by
  unfold requireStr
  split
  · next s hs =>
    rw [hs]
    split
    · next hempty =>
      exact .own (by simp [printedCheck, isText, hempty])
        (by simp [printedCheck, YamlValue.prints, YamlScalar.prints])
    · next hne => exact .of_ok rfl (by simp [printedCheck, isText, hne])
  · next hother =>
    refine .refuse ?_ (by simp [printedCheck])
    unfold printedCheck isText
    split
    · next s hs => exact absurd hs (hother s)
    · rfl

/-- The value of an optional field that must be a string. -/
def optionalField (data : List (YamlScalar × YamlValue)) (field : String) : YamlValue :=
  (yamlField data field).getD (.str "")

theorem runs_optionalStr (data : List (YamlScalar × YamlValue)) (field default : String) :
    Runs (optionalStr limit data field default)
      [printedCheck limit isStr (optionalField data field)] := by
  unfold optionalStr optionalField
  split
  · next hnone =>
    rw [hnone]
    exact .of_ok rfl rfl
  · next s hs =>
    rw [hs]
    exact .of_ok rfl rfl
  · next value hother hvalue =>
    rw [hvalue]
    refine .refuse ?_ (by simp [printedCheck])
    unfold printedCheck isStr
    split
    · next s hs => exact absurd hs (hother s)
    · rfl

theorem runs_parseWord (field : String) (valid : List String) (raw : YamlValue) :
    Runs (parseWord limit field valid raw) [printedCheck limit (isWordOf valid) raw] := by
  unfold parseWord
  split
  · next s =>
    split
    · next hmem => exact .of_ok rfl (by simp [printedCheck, isWordOf, hmem])
    · next hnot =>
      exact .own (by simp [printedCheck, isWordOf, hnot])
        (by simp [printedCheck, YamlValue.prints, YamlScalar.prints])
  · next hother =>
    refine .refuse ?_ (by simp [printedCheck])
    unfold printedCheck isWordOf
    split
    · next s => exact absurd rfl (hother s)
    · rfl

/-- A word that was read is the string of its value. -/
theorem parseWord_ok {field s : String} {valid : List String} {raw : YamlValue}
    (h : parseWord limit field valid raw = .ok s) : raw = .str s ∧ s ∈ valid := by
  unfold parseWord at h
  split at h
  · split at h
    · next hmem =>
      obtain rfl := Except.ok.inj h
      exact ⟨rfl, hmem⟩
    · simp at h
  · unfold refuse at h
    split at h <;> simp at h

theorem guards_parseTopLevel {α : Type} {what : String}
    {body : List (YamlScalar × YamlValue) → Except YamlFailure α}
    {checks : List (YamlScalar × YamlValue) → List Check}
    (h : ∀ data, Guards YamlFailure.Foreign (body data) (checks data)) (data : YamlValue) :
    Guards YamlFailure.Foreign (parseTopLevel what body data) (topLevelChecks checks data) := by
  cases data with
  | map data => exact h data
  | seq items => exact .of_own (by simp [parseTopLevel])
  | scalar s => exact .of_own (by cases s <;> simp [parseTopLevel])

/-- A front end raises a foreign error exactly when its grammar does on the loaded text. -/
theorem raisesForeign_parseFile {α : Type} {yaml : YamlLibrary} {failed text : String}
    {grammar : YamlValue → Except YamlFailure α} :
    RaisesForeign YamlFailure.Foreign (parseFile yaml failed grammar text) ↔
      ∃ data, yaml.safeLoad text = .ok data ∧ RaisesForeign YamlFailure.Foreign (grammar data) := by
  unfold parseFile
  cases hload : yaml.safeLoad text with
  | error message => simp
  | ok data => simp

end Validators

end SchemaBrain.Base
