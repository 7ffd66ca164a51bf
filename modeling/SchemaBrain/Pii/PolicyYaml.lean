import SchemaBrain.Base.YamlGrammar
import SchemaBrain.Pii.Policy

/-!
# Policy files

`pii/policy_yaml.py` over the constructors of `pii/policy.py`. What the emitter writes is parsed
back as the same policy, in the emitter's order.
-/

namespace SchemaBrain.Pii

open Base Core

/-! ## Words -/

/-- `SENSITIVITIES`. -/
def sensitivities : List Sensitivity := [.isPublic, .internal, .confidential, .pii]

/-- The stored word of a sensitivity. -/
def sensitivityWord : Sensitivity → String
  | .isPublic => "public"
  | .internal => "internal"
  | .confidential => "confidential"
  | .pii => "pii"

/-- `PII_CATEGORIES_ORDERED`. -/
def piiCategoriesOrdered : List PiiCategory :=
  [.contact, .financial, .paymentCard, .health, .genetic, .biometric, .behavioral,
    .onlineIdentifier, .credential, .governmentId, .location, .demographicProtected]

/-- The sensitivity of a word. -/
def sensitivityOfWord (word : String) : Option Sensitivity :=
  sensitivities.find? (sensitivityWord · = word)

/-- The category of a word. -/
def categoryOfWord (word : String) : Option PiiCategory :=
  piiCategoriesOrdered.find? (·.word = word)

/-- The words outside `PII_CATEGORIES`. -/
def unknownCategories (words : List String) : List String :=
  words.filter fun word => (categoryOfWord word).isNone

/-- Both ends of a message about unknown categories. -/
def unknownMessage (subject : String) (words : List String) : String :=
  subject ++ pyReprList (pySorted (unknownCategories words)) ++
    " (allowed: " ++ pyReprList (pySorted (piiCategoriesOrdered.map PiiCategory.word)) ++ ")"

@[simp] theorem sensitivityOfWord_word (s : Sensitivity) :
    sensitivityOfWord (sensitivityWord s) = some s := by
  cases s <;> decide

@[simp] theorem categoryOfWord_word (c : PiiCategory) : categoryOfWord c.word = some c := by
  cases c <;> decide

theorem mem_piiCategoriesOrdered (c : PiiCategory) : c ∈ piiCategoriesOrdered := by
  cases c <;> decide

theorem word_injective : Function.Injective PiiCategory.word := fun c c' h =>
  Option.some.inj ((categoryOfWord_word c).symm.trans ((congrArg categoryOfWord h).trans
    (categoryOfWord_word c')))

theorem unknownCategories_words (cs : List PiiCategory) :
    unknownCategories (cs.map PiiCategory.word) = [] := by
  simp [unknownCategories]

theorem filterMap_words (cs : List PiiCategory) :
    (cs.map PiiCategory.word).filterMap categoryOfWord = cs := by
  rw [List.filterMap_map]
  simp

/-- The words of a set of categories, in some order, are all known and read back as the set. -/
theorem categoriesOfWords {words : List String} {categories : List PiiCategory}
    (h : ∀ word, word ∈ words ↔ ∃ c ∈ categories, c.word = word) :
    unknownCategories words = [] ∧
      ∀ c, c ∈ words.filterMap categoryOfWord ↔ c ∈ categories := by
  constructor
  · rw [unknownCategories, List.filter_eq_nil_iff]
    intro word hword
    obtain ⟨c, -, rfl⟩ := (h word).1 hword
    simp
  · intro c
    rw [List.mem_filterMap]
    constructor
    · rintro ⟨word, hword, hc⟩
      obtain ⟨c', hc', rfl⟩ := (h word).1 hword
      rw [categoryOfWord_word] at hc
      exact Option.some.inj hc ▸ hc'
    · exact fun hc => ⟨c.word, (h _).2 ⟨c, hc, rfl⟩, categoryOfWord_word c⟩

/-! ## Constructors -/

/-- `ColumnOverride(...)` with the text of its `ValueError`. -/
def ColumnOverride.make (qualifiedColumn sensitivity : String) (categories : List String) :
    Except String ColumnOverride :=
  if hpath : (parseColumnPath qualifiedColumn).isSome then
    match sensitivityOfWord sensitivity with
    | none => .error ("sensitivity must be one of " ++
        pyReprList (sensitivities.map sensitivityWord) ++ " (got " ++ pyRepr sensitivity ++ ")")
    | some s =>
      if unknownCategories categories = [] then
        .ok ⟨qualifiedColumn, ⟨s, categories.filterMap categoryOfWord⟩, hpath⟩
      else .error (unknownMessage "categories contains unknown values: " categories)
  else .error ("qualified_column must be `schema.table.column` form with identifier-shaped " ++
    "parts (got " ++ pyRepr qualifiedColumn ++ ")")

/-- The first key that repeats an earlier one. -/
def repeatedKey (seen : List String) : List String → Option String
  | [] => none
  | key :: rest => if key ∈ seen then some key else repeatedKey (key :: seen) rest

theorem repeatedKey_eq_none {keys seen : List String} :
    repeatedKey seen keys = none ↔ keys.Nodup ∧ ∀ key ∈ keys, key ∉ seen := by
  induction keys generalizing seen with
  | nil => simp [repeatedKey]
  | cons key rest ih =>
    rw [repeatedKey, List.nodup_cons, List.forall_mem_cons]
    split
    · next hseen => simp [hseen]
    · next hseen =>
      rw [ih]
      simp only [List.mem_cons, not_or]
      constructor
      · rintro ⟨hrest, hfresh⟩
        exact ⟨⟨fun hmem => (hfresh key hmem).1 rfl, hrest⟩, hseen, fun k hk => (hfresh k hk).2⟩
      · rintro ⟨⟨hkey, hrest⟩, -, hfresh⟩
        exact ⟨hrest, fun k hk => ⟨fun heq => hkey (heq ▸ hk), hfresh k hk⟩⟩

/-- `Policy(...)` with the text of its `ValueError`. -/
def Policy.make (block : List String) (columnOverrides : List ColumnOverride)
    (description : String) : Except String Policy :=
  if unknownCategories block = [] then
    match h : repeatedKey [] (columnOverrides.map (·.qualifiedColumn)) with
    | some key => .error ("duplicate column override: " ++ pyRepr key ++ " appears more than once")
    | none => .ok {
        block := block.filterMap categoryOfWord
        columnOverrides := columnOverrides
        description := description
        overrides_key := (repeatedKey_eq_none.1 h).1 }
  else .error (unknownMessage "block contains unknown PII categories: " block)

theorem Policy.make_ok {block : List String} {columnOverrides : List ColumnOverride}
    (description : String) (hblock : unknownCategories block = [])
    (hkeys : (columnOverrides.map (·.qualifiedColumn)).Nodup) :
    Policy.make block columnOverrides description =
      .ok ⟨block.filterMap categoryOfWord, columnOverrides, description, hkeys⟩ := by
  have hnone : repeatedKey [] (columnOverrides.map (·.qualifiedColumn)) = none :=
    repeatedKey_eq_none.2 ⟨hkeys, by simp⟩
  rw [Policy.make, if_pos hblock]
  split
  · next key hkey => simp [hnone] at hkey
  · rfl

/-! ## The parser -/

/-- What parsing fails with: `PolicyYamlError`, or an exception that it lets through. -/
abbrev PolicyError := YamlFailure

section Parser

variable (limit : Nat)

/-- `_check_keys`. -/
def checkPolicyKeys (allowed required : List String) (scope : String)
    (data : List (YamlScalar × YamlValue)) : Except PolicyError Unit :=
  checkKeys limit ("missing required " ++ scope ++ " field(s)") ("unknown " ++ scope ++ " keys")
    allowed required data

/-- A list of different strings, as `_parse_block` and the categories of an override read one:
`items` and `duplicate` start the two messages. -/
def distinctStrings (items duplicate : String) (seen : List String) :
    List YamlValue → Except PolicyError (List String)
  | [] => .ok seen
  | .str s :: rest =>
    if s ∈ seen then .error (.yaml (duplicate ++ pyRepr s))
    else distinctStrings items duplicate (seen ++ [s]) rest
  | value :: _ => refuse limit [value] (items ++ " must be strings " ++ value.got)

/-- `_parse_block`. -/
def parseBlock : YamlValue → Except PolicyError (List String)
  | .seq items =>
    distinctStrings limit "block items" "block contains duplicate category: " [] items
  | raw => refuse limit [raw] ("block must be a list of category names " ++ raw.got)

/-- The start of the messages about one override. -/
def overrideScope (qualifiedColumn : String) : String :=
  "column_overrides[" ++ pyRepr qualifiedColumn ++ "]"

/-- The sensitivity of an override. -/
def parseSensitivity (scope : String) : YamlValue → Except PolicyError String
  | .str sensitivity =>
    if (sensitivityOfWord sensitivity).isSome then .ok sensitivity
    else .error (.yaml (scope ++ ".sensitivity must be one of " ++
      pyReprList (sensitivities.map sensitivityWord) ++ " (got " ++ pyRepr sensitivity ++ ")"))
  | raw => refuse limit [raw] (scope ++ ".sensitivity must be a string " ++ raw.got)

/-- The categories of an override. -/
def parseCategories (scope : String) : YamlValue → Except PolicyError (List String)
  | .seq items => distinctStrings limit (scope ++ ".categories items")
      (scope ++ ".categories contains duplicate: ") [] items
  | raw => refuse limit [raw] (scope ++ ".categories must be a list " ++ raw.got)

/-- One member of `column_overrides`. -/
def parseColumnOverride : YamlScalar × YamlValue → Except PolicyError ColumnOverride
  | (.str qualifiedColumn, .map body) => do
    checkPolicyKeys limit ["sensitivity", "categories"] ["sensitivity"]
      (overrideScope qualifiedColumn) body
    let sensitivity ← parseSensitivity limit (overrideScope qualifiedColumn)
      ((yamlField body "sensitivity").getD .null)
    let categories ← parseCategories limit (overrideScope qualifiedColumn)
      ((yamlField body "categories").getD (.seq []))
    match ColumnOverride.make qualifiedColumn sensitivity categories with
    | .error message => .error (.yaml (overrideScope qualifiedColumn ++ ": " ++ message))
    | .ok override => .ok override
  | (.str qualifiedColumn, body) =>
    refuse limit [body] (overrideScope qualifiedColumn ++ " must be a mapping " ++ body.got)
  | (key, _) => refuse limit [.scalar key] ("column_overrides keys must be strings " ++
      (YamlValue.scalar key).got)

/-- `_parse_column_overrides`; a missing field is `None`. -/
def parseColumnOverrides : YamlValue → Except PolicyError (List ColumnOverride)
  | .null => .ok []
  | .map members => members.mapM (parseColumnOverride limit)
  | raw => refuse limit [raw] ("column_overrides must be a mapping " ++ raw.got)

/-- `parse_policy_yaml` of the top-level mapping. -/
def parsePolicyFields (data : List (YamlScalar × YamlValue)) : Except PolicyError Policy := do
  checkPolicyKeys limit ["version", "description", "block", "column_overrides"]
    ["version", "block"] "top-level" data
  checkVersion limit "policy" ((yamlField data "version").getD .null)
  let description ← optionalStr limit data "description" ""
  let block ← parseBlock limit ((yamlField data "block").getD .null)
  let columnOverrides ←
    parseColumnOverrides limit ((yamlField data "column_overrides").getD .null)
  match Policy.make block columnOverrides description with
  | .error message => .error (.yaml ("policy validation failed: " ++ message))
  | .ok policy => .ok policy

end Parser

/-- `parse_policy_yaml`. -/
def parsePolicyYaml (yaml : YamlLibrary) (text : String) : Except PolicyError Policy :=
  parseFile yaml "failed to parse policy YAML"
    (parseTopLevel "policy" (parsePolicyFields yaml.maxStrDigits)) text

/-! ## The emitter -/

/-- The categories of a set in canonical order. -/
def orderedCategories (categories : List PiiCategory) : List PiiCategory :=
  piiCategoriesOrdered.filter (· ∈ categories)

/-- A list of category words. -/
def categoriesValue (categories : List PiiCategory) : YamlValue :=
  .seq ((orderedCategories categories).map fun c => .str c.word)

/-- The overrides by qualified column. -/
def sortedOverrides (overrides : List ColumnOverride) : List ColumnOverride :=
  overrides.insertionSort fun o o' => o.qualifiedColumn ≤ o'.qualifiedColumn

/-- The member of one override. -/
def overrideMember (o : ColumnOverride) : YamlScalar × YamlValue :=
  (.str o.qualifiedColumn, .map [(.str "sensitivity", .str (sensitivityWord o.tag.sensitivity)),
    (.str "categories", categoriesValue o.tag.categories)])

/-- The body that `policy_to_yaml` dumps. -/
def policyBody (policy : Policy) : List (YamlScalar × YamlValue) :=
  [(.str "version", .int 1)] ++
    (if policy.description = "" then [] else [(.str "description", .str policy.description)]) ++
    [(.str "block", categoriesValue policy.block)] ++
    (if policy.columnOverrides = [] then []
      else [(.str "column_overrides",
        .map ((sortedOverrides policy.columnOverrides).map overrideMember))])

/-- `policy_to_yaml`. -/
def policyToYaml (yaml : YamlLibrary) (policy : Policy) : String :=
  pyRstrip (yaml.safeDump (.map (policyBody policy)))

/-! ## Reading back what was emitted -/

theorem mem_orderedCategories {categories : List PiiCategory} {c : PiiCategory} :
    c ∈ orderedCategories categories ↔ c ∈ categories := by
  simp [orderedCategories, mem_piiCategoriesOrdered]

theorem nodup_orderedWords (categories : List PiiCategory) :
    ((orderedCategories categories).map PiiCategory.word).Nodup := by
  have hordered : piiCategoriesOrdered.Nodup := by decide
  exact (hordered.filter _).map word_injective

/-- The override with its categories in canonical order. -/
def ColumnOverride.canonical (o : ColumnOverride) : ColumnOverride :=
  { o with tag := ⟨o.tag.sensitivity, orderedCategories o.tag.categories⟩ }

/-- The overrides in the order of the emitter. -/
def canonicalOverrides (overrides : List ColumnOverride) : List ColumnOverride :=
  (sortedOverrides overrides).map ColumnOverride.canonical

theorem mem_canonicalOverrides {overrides : List ColumnOverride} {o : ColumnOverride} :
    o ∈ canonicalOverrides overrides ↔ ∃ o' ∈ overrides, o'.canonical = o := by
  rw [canonicalOverrides, List.mem_map]
  exact exists_congr fun o' => and_congr_left fun _ => (List.perm_insertionSort _ _).mem_iff

theorem nodup_canonicalOverrides {overrides : List ColumnOverride}
    (h : (overrides.map (·.qualifiedColumn)).Nodup) :
    ((canonicalOverrides overrides).map (·.qualifiedColumn)).Nodup := by
  have hperm := (List.perm_insertionSort (fun o o' : ColumnOverride =>
    o.qualifiedColumn ≤ o'.qualifiedColumn) overrides).map (·.qualifiedColumn)
  rw [canonicalOverrides, List.map_map]
  exact hperm.nodup_iff.2 h

/-- The policy in the order of the emitter. -/
def Policy.canonical (policy : Policy) : Policy where
  block := orderedCategories policy.block
  columnOverrides := canonicalOverrides policy.columnOverrides
  description := policy.description
  overrides_key := nodup_canonicalOverrides policy.overrides_key

section Reading

variable {limit : Nat}

theorem distinctStrings_words {items duplicate : String} {words seen : List String}
    (h : (seen ++ words).Nodup) :
    distinctStrings limit items duplicate seen (words.map .str) = .ok (seen ++ words) := by
  induction words generalizing seen with
  | nil => simp [distinctStrings]
  | cons word rest ih =>
    have hfresh : word ∉ seen := fun hmem =>
      List.disjoint_of_nodup_append h hmem List.mem_cons_self
    rw [List.append_cons] at h ⊢
    rw [List.map_cons, distinctStrings, if_neg hfresh, ih h]

theorem distinctStrings_categories (items duplicate : String) (categories : List PiiCategory) :
    distinctStrings limit items duplicate []
        ((orderedCategories categories).map fun c => .str c.word) =
      .ok ((orderedCategories categories).map PiiCategory.word) := by
  have hwords : distinctStrings limit items duplicate []
      (((orderedCategories categories).map PiiCategory.word).map .str) =
        .ok ([] ++ (orderedCategories categories).map PiiCategory.word) :=
    distinctStrings_words (by simpa using nodup_orderedWords categories)
  simpa [List.map_map, Function.comp_def] using hwords

theorem parseColumnOverride_member (o : ColumnOverride) :
    parseColumnOverride limit (overrideMember o) = .ok o.canonical := by
  simp [ColumnOverride.canonical, parseColumnOverride, overrideMember, checkPolicyKeys, checkKeys,
    missingKeys, unknownKeys, yamlField, YamlScalar.isKey, categoriesValue, parseSensitivity,
    parseCategories, distinctStrings_categories, ColumnOverride.make, o.path_ident,
    unknownCategories_words, bind, Except.bind]

theorem parseColumnOverrides_members (policy : Policy) :
    parseColumnOverrides limit ((yamlField (policyBody policy) "column_overrides").getD .null) =
      .ok (canonicalOverrides policy.columnOverrides) := by
  by_cases hnone : policy.columnOverrides = []
  · have hfield : yamlField (policyBody policy) "column_overrides" = none := by
      rw [policyBody, if_pos hnone]
      split <;> simp [yamlField, YamlScalar.isKey]
    rw [hfield, hnone]
    rfl
  · have hfield : yamlField (policyBody policy) "column_overrides" =
        some (.map ((sortedOverrides policy.columnOverrides).map overrideMember)) := by
      rw [policyBody, if_neg hnone]
      split <;> simp [yamlField, YamlScalar.isKey]
    rw [hfield, Option.getD_some, parseColumnOverrides, List.mapM_map]
    exact mapM_of_ok fun o _ => parseColumnOverride_member o

/-- The body that was dumped is parsed back as the same policy. -/
theorem parsePolicyFields_body (policy : Policy) :
    parsePolicyFields limit (policyBody policy) = .ok policy.canonical := by
  have hkeys : checkPolicyKeys limit ["version", "description", "block", "column_overrides"]
      ["version", "block"] "top-level" (policyBody policy) = .ok () := by
    unfold policyBody
    split <;> split <;>
      simp [checkPolicyKeys, checkKeys, missingKeys, unknownKeys, yamlField, YamlScalar.isKey]
  have hversion : yamlField (policyBody policy) "version" = some (.int 1) := rfl
  have hdescription : optionalStr limit (policyBody policy) "description" "" =
      .ok policy.description := by
    unfold policyBody
    split
    · next hempty =>
      split <;> simp [optionalStr, yamlField, YamlScalar.isKey, hempty]
    · rfl
  have hblock : yamlField (policyBody policy) "block" = some (categoriesValue policy.block) := by
    unfold policyBody
    split <;> simp [yamlField, YamlScalar.isKey]
  simp only [parsePolicyFields, hkeys, hversion, hdescription, hblock, Option.getD_some,
    checkVersion, categoriesValue, parseBlock, distinctStrings_categories,
    parseColumnOverrides_members, bind, Except.bind, if_true]
  rw [Policy.make_ok _ (unknownCategories_words _) (nodup_canonicalOverrides policy.overrides_key)]
  simp only [filterMap_words, Policy.canonical]

end Reading

/-- What was emitted is parsed back as the same policy, where the library reads back the data
that it dumped. -/
theorem parse_policyToYaml {yaml : YamlLibrary} {policy : Policy}
    (h : yaml.safeLoad (policyToYaml yaml policy) = .ok (.map (policyBody policy))) :
    parsePolicyYaml yaml (policyToYaml yaml policy) = .ok policy.canonical := by
  rw [parsePolicyYaml, parseFile, h]
  exact parsePolicyFields_body policy

end SchemaBrain.Pii
