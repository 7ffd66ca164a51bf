import SchemaBrain.Indexer.PolicyHistory
import SchemaBrain.Web.PolicySession

/-!
# The policy listing, its preview and its application

`/api/pii/policy` and `/api/pii/policy/preview` from `dashboard/sidecar.py`, and `policy apply`.
A session of edits is previewed and applied; what the grid shows is what the store then holds.
-/

namespace SchemaBrain.Dashboard

open Base Core Pii Web Indexer

/-! ## The policy on disk -/

/-- The file at the policy's path. -/
inductive PolicyFile
  | missing
  /-- Reading it raises `PolicyYamlError`. -/
  | unreadable (message : String)
  | text (text : String)

/-- `Policy(block=CATASTROPHIC_LEAK_CATEGORIES)`. -/
def floorPolicy : Policy where
  block := catastrophicLeakCategories
  columnOverrides := []

/-- `_load_current_policy`: the policy and a parse error. -/
def loadCurrentPolicy (yaml : YamlLibrary) :
    PolicyFile → Except PolicyError (Policy × Option String)
  | .missing => .ok (floorPolicy, none)
  | .unreadable message => .ok (floorPolicy, some message)
  | .text text =>
    match parsePolicyYaml yaml text with
    | .ok policy => .ok (policy, none)
    | .error (.yaml message) => .ok (floorPolicy, some message)
    | .error error => .error error

/-- `_load_active_block`: the block, its source and a parse error. -/
def loadActiveBlock (yaml : YamlLibrary) :
    PolicyFile → Except PolicyError (List PiiCategory × String × Option String)
  | .missing => .ok (catastrophicLeakCategories, "default", none)
  | .unreadable message => .ok (catastrophicLeakCategories, "default", some message)
  | .text text =>
    match parsePolicyYaml yaml text with
    | .ok policy => .ok (policy.block, "yaml", none)
    | .error (.yaml message) => .ok (catastrophicLeakCategories, "default", some message)
    | .error error => .error error

/-! ## The listing -/

/-- The answer of `/api/pii/policy`, less its roll-ups. -/
structure PolicyListing where
  blockSource : String
  activeBlock : List PiiCategory
  perColumn : List PolicyColumnEntry
  yamlParseError : Option String

/-- `policy_route`. -/
def policyRoute (yaml : YamlLibrary) (file : PolicyFile) (store : Store) :
    Except PolicyError PolicyListing := do
  let (activeBlock, blockSource, yamlError) ← loadActiveBlock yaml file
  .ok ⟨blockSource, sortedCategories activeBlock, perColumn store, yamlError⟩

/-! ## The preview -/

/-- What a route fails with. -/
inductive RouteError
  /-- `HTTPException`. -/
  | http (status : Nat) (detail : String)
  | policy (error : PolicyError)
  deriving DecidableEq

/-- `_MAX_PREVIEW_OVERRIDES`. -/
def maxPreviewOverrides : Nat := 1000

/-- The members of a comma-joined list. -/
def csvCategories (csv : String) : List String := ((pySplit ',' csv).filter (· ≠ "")).eraseDups

/-- `_parse_override_param`. -/
def parseOverrideParam (raw : String) : Except RouteError ColumnOverride :=
  match pySplit '|' raw with
  | [qualifiedColumn, sensitivity, categoriesCsv] =>
    match ColumnOverride.make qualifiedColumn sensitivity (csvCategories categoriesCsv) with
    | .ok override => .ok override
    | .error message => .error (.http 400 message)
  | _ => .error (.http 400
      ("override must be 'qualified_column|sensitivity|categories' (got " ++ pyRepr raw ++ ")"))

/-- The policy that a query stages. -/
def stagedPolicy (query : PreviewQuery) (description : String) : Except RouteError Policy := do
  let overrides ← query.override.mapM parseOverrideParam
  match Policy.make query.block.eraseDups overrides description with
  | .ok policy => .ok policy
  | .error message => .error (.http 400 message)

/-- `_yaml_diff` over the lines of `difflib.ndiff`. -/
def yamlDiff (ndiff : String → String → List String) (currentYaml stagedYaml : String) :
    List (String × String) :=
  (ndiff currentYaml stagedYaml).filterMap fun line =>
    let tag := line.toList.take 2
    let text := String.ofList (line.toList.drop 2)
    if tag = [' ', ' '] then some ("context", text)
    else if tag = ['-', ' '] then some ("remove", text)
    else if tag = ['+', ' '] then some ("add", text)
    else none

/-- The answer of `/api/pii/policy/preview`. -/
structure PolicyPreview where
  stagedYaml : String
  currentYaml : String
  diffLines : List (String × String)
  changed : Bool
  stagedBlock : List PiiCategory
  currentParseError : Option String

/-- The answer for a staged policy beside the one on disk. -/
def renderPreview (yaml : YamlLibrary) (ndiff : String → String → List String)
    (current : Policy) (currentParseError : Option String) (staged : Policy) : PolicyPreview :=
  let currentYaml := policyToYaml yaml current
  let stagedYaml := policyToYaml yaml staged
  { stagedYaml := stagedYaml
    currentYaml := currentYaml
    diffLines := yamlDiff ndiff currentYaml stagedYaml
    changed := stagedYaml ≠ currentYaml
    stagedBlock := sortedCategories staged.block
    currentParseError := currentParseError }

/-- `policy_preview_route`. -/
def policyPreviewRoute (yaml : YamlLibrary) (ndiff : String → String → List String)
    (file : PolicyFile) (query : PreviewQuery) : Except RouteError PolicyPreview :=
  if query.override.length > maxPreviewOverrides then
    .error (.http 400 ("too many overrides (max " ++ toString maxPreviewOverrides ++ ", got " ++
      toString query.override.length ++ ")"))
  else
    match loadCurrentPolicy yaml file with
    | .error error => .error (.policy error)
    | .ok (current, currentParseError) => do
      let staged ← stagedPolicy query current.description
      .ok (renderPreview yaml ndiff current currentParseError staged)

/-! ## `policy apply` -/

/-- `_cmd_policy_apply` of a file's text on its source: the store and the exit code. -/
def cmdPolicyApply (yaml : YamlLibrary) (text : String) (s : IndexedStore) (force : Bool := false) :
    IndexedStore × Nat :=
  match parsePolicyYaml yaml text with
  | .error _ => (s, 1)
  | .ok policy =>
    match policyApply s policy force with
    | (s', some _) => (s', 2)
    | (s', none) => (s', 0)

/-! ## Reading a query back -/

/-- A staged override and one of a policy say the same of one column. -/
def Says (entry : String × StagedOverride) (o : ColumnOverride) : Prop :=
  o.qualifiedColumn = entry.1 ∧ entry.2.sensitivity = o.tag.sensitivity ∧
    ∀ c, c ∈ entry.2.categories ↔ c ∈ o.tag.categories

/-- A policy has the staged overrides and no others. -/
structure SameOverrides (overrides : StagedOverrides) (policy : Policy) : Prop where
  written : ∀ entry ∈ overrides, ∃ o ∈ policy.columnOverrides, Says entry o
  staged : ∀ o ∈ policy.columnOverrides, ∃ entry ∈ overrides, Says entry o

variable {staged : Staged}

theorem mem_sortedWords {categories : List PiiCategory} {word : String} :
    word ∈ sortedUtf16 (categories.map PiiCategory.word) ↔ ∃ c ∈ categories, c.word = word := by
  rw [sortedUtf16, (List.perm_insertionSort _ _).mem_iff, List.mem_map]

private theorem word_chars (c : PiiCategory) :
    c.word ≠ "" ∧ ',' ∉ c.word.toList ∧ '|' ∉ c.word.toList := by
  cases c <;> decide

/-- The category list of a serialized override. -/
def categoriesCsv (categories : List PiiCategory) : String :=
  ",".intercalate (sortedUtf16 (categories.map PiiCategory.word))

private theorem bar_not_mem_csv (categories : List PiiCategory) :
    '|' ∉ (categoriesCsv categories).toList := by
  intro hbar
  rcases mem_toList_intercalate hbar with hsep | ⟨word, hword, hmem⟩
  · exact absurd hsep (by decide)
  · obtain ⟨c, -, rfl⟩ := mem_sortedWords.1 hword
    exact (word_chars c).2.2 hmem

theorem csvCategories_csv (categories : List PiiCategory) :
    csvCategories (categoriesCsv categories) =
      (sortedUtf16 (categories.map PiiCategory.word)).eraseDups := by
  rw [csvCategories, categoriesCsv]
  cases hwords : sortedUtf16 (categories.map PiiCategory.word) with
  | nil => decide
  | cons word rest =>
    have hchars : ∀ word' ∈ word :: rest, word' ≠ "" ∧ ',' ∉ word'.toList := by
      intro word' hword'
      rw [← hwords] at hword'
      obtain ⟨c, -, rfl⟩ := mem_sortedWords.1 hword'
      exact ⟨(word_chars c).1, (word_chars c).2.1⟩
    have hsplit : pySplit ',' (",".intercalate (word :: rest)) = word :: rest :=
      pySplit_intercalate (by simp) fun word' hword' => (hchars word' hword').2
    rw [hsplit, List.filter_eq_self.2 fun word' hword' => by simpa using (hchars word' hword').1]

private theorem serializeOverride_eq (key : String) (override : StagedOverride) :
    serializeOverride key override = (String.singleton '|').intercalate
      [key, sensitivityWord override.sensitivity, categoriesCsv override.categories] := by
  simp [serializeOverride, categoriesCsv, String.intercalate_cons_cons, String.append_assoc]

private theorem bar_not_mem_path {key : String} (h : (parseColumnPath key).isSome = true) :
    '|' ∉ key.toList := by
  obtain ⟨p, hp⟩ := Option.isSome_iff_exists.1 h
  obtain ⟨rfl, hschema, htable, hcolumn⟩ := parseColumnPath_spec hp
  have hident : ∀ s : String, isIdent s = true → '|' ∉ s.toList := fun s hs hmem =>
    absurd (isIdentChar_of_mem hs hmem) (by decide)
  simp [String.toList_append, hident _ hschema, hident _ htable, hident _ hcolumn]

private theorem pySplit_serialize {entry : String × StagedOverride} (hkey : '|' ∉ entry.1.toList) :
    pySplit '|' (serializeOverride entry.1 entry.2) =
      [entry.1, sensitivityWord entry.2.sensitivity, categoriesCsv entry.2.categories] := by
  rw [serializeOverride_eq]
  refine pySplit_intercalate (by simp) ?_
  simp only [List.forall_mem_cons, List.not_mem_nil, false_imp_iff, implies_true, and_true]
  exact ⟨hkey, by cases entry.2.sensitivity <;> decide, bar_not_mem_csv _⟩

/-- A staged override on a column path is read back. -/
theorem parseOverrideParam_serialize {entry : String × StagedOverride}
    (hpath : (parseColumnPath entry.1).isSome = true) :
    ∃ o, parseOverrideParam (serializeOverride entry.1 entry.2) = .ok o ∧ Says entry o := by
  obtain ⟨hknown, hread⟩ := categoriesOfWords fun word => show
      word ∈ csvCategories (categoriesCsv entry.2.categories) ↔
        ∃ c ∈ entry.2.categories, c.word = word by
    rw [csvCategories_csv, List.mem_eraseDups, mem_sortedWords]
  refine ⟨⟨entry.1, ⟨entry.2.sensitivity,
    (csvCategories (categoriesCsv entry.2.categories)).filterMap categoryOfWord⟩, hpath⟩, ?_,
    rfl, rfl, fun c => (hread c).symm⟩
  simp only [parseOverrideParam, pySplit_serialize (bar_not_mem_path hpath), ColumnOverride.make,
    dif_pos hpath, sensitivityOfWord_word, if_pos hknown]

/-- A staged override on anything else is refused. -/
theorem path_of_parseOverrideParam {entry : String × StagedOverride} {o : ColumnOverride}
    (h : parseOverrideParam (serializeOverride entry.1 entry.2) = .ok o) :
    (parseColumnPath entry.1).isSome = true := by
  unfold parseOverrideParam at h
  split at h
  · next qualifiedColumn sensitivity csv hsplit =>
    have hcount := length_pySplit '|' (serializeOverride entry.1 entry.2)
    have hbars : (serializeOverride entry.1 entry.2).toList.count '|' =
        entry.1.toList.count '|' + (sensitivityWord entry.2.sensitivity).toList.count '|' +
          (categoriesCsv entry.2.categories).toList.count '|' + 2 := by
      simp only [serializeOverride, categoriesCsv, String.toList_append, List.count_append]
      simp only [show "|".toList.count '|' = 1 by decide]
      omega
    rw [hsplit, List.length_cons, List.length_cons, List.length_singleton] at hcount
    have hkey : '|' ∉ entry.1.toList := List.count_eq_zero.1 (by omega)
    obtain ⟨rfl, -⟩ := List.cons.inj (hsplit.symm.trans (pySplit_serialize hkey))
    by_contra hpath
    simp [ColumnOverride.make, hpath] at h
  · simp at h

/-- A query is staged where every override is on a column path, and stages what it was built
from. -/
theorem stagedPolicy_buildPreviewQuery (description : String)
    (hkeys : (staged.overrides.map (·.1)).Nodup)
    (hpaths : ∀ entry ∈ staged.overrides, (parseColumnPath entry.1).isSome = true) :
    ∃ policy, stagedPolicy (buildPreviewQuery staged) description = .ok policy ∧
      (∀ c, c ∈ policy.block ↔ c ∈ staged.block) ∧ SameOverrides staged.overrides policy := by
  -- The texts are sorted, so the entries are read in the order of their texts.
  let entries := staged.overrides.insertionSort fun a b =>
    utf16 (serializeOverride a.1 a.2) ≤ utf16 (serializeOverride b.1 b.2)
  have hperm : entries.Perm staged.overrides := List.perm_insertionSort _ _
  have hquery : (buildPreviewQuery staged).override =
      entries.map fun entry => serializeOverride entry.1 entry.2 :=
    (List.map_insertionSort (fun a b : String × StagedOverride =>
      utf16 (serializeOverride a.1 a.2) ≤ utf16 (serializeOverride b.1 b.2))
      (fun a b : String => utf16 a ≤ utf16 b) (fun entry => serializeOverride entry.1 entry.2)
      staged.overrides fun _ _ _ _ => Iff.rfl).symm
  obtain ⟨overrides, hoverrides, hsays⟩ := mapM_forall₂ (R := Says) fun entry hentry =>
    parseOverrideParam_serialize (hpaths entry (hperm.mem_iff.1 hentry))
  have hnames : entries.map (·.1) = overrides.map (·.qualifiedColumn) :=
    List.forall₂_eq_eq_eq ▸ List.forall₂_map_left_iff.2 (List.forall₂_map_right_iff.2
      (List.Forall₂.imp (fun _ _ h => h.1.symm) hsays))
  have hblock := categoriesOfWords fun word => show
      word ∈ (buildPreviewQuery staged).block.eraseDups ↔ ∃ c ∈ staged.block, c.word = word by
    rw [List.mem_eraseDups, buildPreviewQuery, mem_sortedWords]
  have hnodup : (overrides.map (·.qualifiedColumn)).Nodup :=
    hnames ▸ (hperm.map _).nodup_iff.2 hkeys
  refine ⟨⟨_, overrides, description, hnodup⟩, ?_, hblock.2, ?_, ?_⟩
  · rw [stagedPolicy, hquery, List.mapM_map, Function.comp_def, hoverrides]
    simp only [bind, Except.bind, Policy.make_ok description hblock.1 hnodup]
  · exact fun entry hentry => (forall₂_mem hsays).2 entry (hperm.mem_iff.2 hentry)
  · intro o ho
    obtain ⟨entry, hentry, hsays⟩ := (forall₂_mem hsays).1 o ho
    exact ⟨entry, hperm.mem_iff.1 hentry, hsays⟩

/-- The preview accepts staged overrides on column paths only. -/
theorem path_of_preview {yaml : YamlLibrary} {ndiff : String → String → List String}
    {file : PolicyFile} {preview : PolicyPreview}
    (h : policyPreviewRoute yaml ndiff file (buildPreviewQuery staged) = .ok preview) :
    ∀ entry ∈ staged.overrides, (parseColumnPath entry.1).isSome = true := by
  intro entry hentry
  have hraw : serializeOverride entry.1 entry.2 ∈ (buildPreviewQuery staged).override :=
    (List.perm_insertionSort _ _).mem_iff.2 (List.mem_map.2 ⟨entry, hentry, rfl⟩)
  unfold policyPreviewRoute at h
  split at h
  · simp at h
  · split at h
    · simp at h
    · next current error _ =>
      obtain ⟨policy, hstaged, -⟩ := bind_eq_ok h
      obtain ⟨overrides, hoverrides, -⟩ := bind_eq_ok hstaged
      obtain ⟨o, -, ho⟩ := (mem_mapM hoverrides).2 _ hraw
      exact path_of_parseOverrideParam ho

/-- Canonical order changes no override. -/
theorem SameOverrides.canonical {overrides : StagedOverrides} {policy : Policy}
    (h : SameOverrides overrides policy) : SameOverrides overrides policy.canonical where
  written entry hentry := by
    obtain ⟨o, ho, hkey, hsensitivity, hcategories⟩ := h.written entry hentry
    exact ⟨o.canonical, mem_canonicalOverrides.2 ⟨o, ho, rfl⟩, hkey, hsensitivity, fun c =>
      (hcategories c).trans mem_orderedCategories.symm⟩
  staged o ho := by
    obtain ⟨o, ho', rfl⟩ := mem_canonicalOverrides.1 ho
    obtain ⟨entry, hentry, hkey, hsensitivity, hcategories⟩ := h.staged o ho'
    exact ⟨entry, hentry, hkey, hsensitivity, fun c =>
      (hcategories c).trans mem_orderedCategories.symm⟩

/-- Under every key the staged state and the policy have the same override. -/
theorem SameOverrides.stagedAs {overrides : StagedOverrides} {policy : Policy}
    (h : SameOverrides overrides policy) (hkeys : (overrides.map (·.1)).Nodup) (key : String) :
    StagedAs (overrides.lookup key)
      (policy.columnOverrides.find? (·.qualifiedColumn = key)) := by
  cases hfound : policy.columnOverrides.find? (·.qualifiedColumn = key) with
  | some o =>
    obtain rfl : o.qualifiedColumn = key := of_decide_eq_true (List.find?_some hfound :)
    obtain ⟨⟨key, override⟩, hentry, hkey, hsays⟩ := h.staged o (List.mem_of_find?_eq_some hfound)
    obtain rfl : o.qualifiedColumn = key := hkey
    rw [(lookup_eq_some_iff_mem hkeys).2 hentry]
    exact hsays
  | none =>
    cases hlookup : overrides.lookup key with
    | none => trivial
    | some override =>
      obtain ⟨o, ho, hkey, -⟩ :=
        h.written (key, override) ((lookup_eq_some_iff_mem hkeys).1 hlookup)
      exact absurd hkey (by simpa using List.find?_eq_none.1 hfound o ho)

/-! ## What is enforced -/

/-- The schema, table and column of a listed column are identifiers. -/
def WellNamed (row : PolicyColumnEntry) : Prop :=
  ∃ schema table, row.qualifiedTable = schema ++ "." ++ table ∧ isIdent schema = true ∧
    isIdent table = true ∧ isIdent row.columnName = true

/-- The stored categories of a column meet the block set or the floor. -/
def Enforced (policy : Policy) (s : IndexedStore) (r : ColumnPiiTagRow) : Prop :=
  ∃ r', s.tagRow r.qualifiedTable r.columnName = some r' ∧
    ∃ c ∈ r'.tag.categories, c ∈ policy.block ∨ c ∈ catastrophicLeakCategories

variable {s s' : IndexedStore} {policy : Policy}

theorem columnIsFloor_iff {categories : List PiiCategory} :
    columnIsFloor categories = true ↔ ∃ c ∈ categories, c ∈ catastrophicLeakCategories := by
  simp [columnIsFloor]

theorem meetsFloor_iff {tag : ColumnPiiTag} :
    tag.meetsFloor = true ↔ ∃ c ∈ tag.categories, c ∈ catastrophicLeakCategories := by
  simp [ColumnPiiTag.meetsFloor, floorCategories, and_comm]

/-- An override of a well named column is on this column only. -/
theorem WellNamed.parts {row : PolicyColumnEntry} (h : WellNamed row) {o : ColumnOverride}
    (hkey : o.qualifiedColumn = row.qualifiedTable ++ "." ++ row.columnName) :
    o.qualifiedTable = row.qualifiedTable ∧ o.columnName = row.columnName := by
  obtain ⟨schema, table, htext, hschema, htable, -⟩ := h
  rw [htext] at hkey ⊢
  exact ColumnOverride.parts hschema htable hkey

theorem WellNamed.path {row : PolicyColumnEntry} (h : WellNamed row) :
    (parseColumnPath (row.qualifiedTable ++ "." ++ row.columnName)).isSome = true := by
  obtain ⟨schema, table, htext, hschema, htable, hcolumn⟩ := h
  rw [htext, parseColumnPath_idents hschema htable hcolumn]
  rfl

/-- A staged override meets the floor exactly when its column does. -/
theorem floor_iff_of_stagedFrom {r : ColumnPiiTagRow} {override : StagedOverride}
    (h : StagedFrom (columnEntry r) override) :
    (∃ c ∈ override.categories, c ∈ catastrophicLeakCategories) ↔
      columnIsFloor (columnEntry r).categories = true := by
  rcases h with ⟨rfl, hfloor⟩ | ⟨-, rfl⟩
  · simp [hfloor, markSafe]
  · exact columnIsFloor_iff.symm

section

variable (hinv : SessionInv (perColumn s.toStore) staged.overrides)
  (hnamed : ∀ row ∈ perColumn s.toStore,
    (staged.overrides.lookup row.qualifiedColumn).isSome = true → WellNamed row)

include hinv hnamed

/-- A staged override is from the listed column that bears its key. -/
theorem stagedFrom_of_key {r : ColumnPiiTagRow} (hr : r ∈ s.columnPiiTags)
    {override : StagedOverride}
    (hentry : ((columnEntry r).qualifiedColumn, override) ∈ staged.overrides) :
    StagedFrom (columnEntry r) override := by
  obtain ⟨row, hrow, hkey, hfrom⟩ := hinv.listed _ hentry
  obtain ⟨r', hr', rfl⟩ := mem_perColumn.1 hrow
  have hlookup := (lookup_eq_some_iff_mem hinv.keys).2 hentry
  have hwell := hnamed (columnEntry r) (mem_perColumn.2 ⟨r, hr, rfl⟩) (by rw [hlookup]; rfl)
  have hwell' := hnamed (columnEntry r') hrow (by rw [hkey, hlookup]; rfl)
  -- Both columns are the one that an override of this key is on.
  let o : ColumnOverride := ⟨(columnEntry r).qualifiedColumn, override, hwell.path⟩
  have hparts := hwell.parts (o := o) rfl
  have hparts' := hwell'.parts (o := o) hkey.symm
  have hrows : r' = r := List.inj_on_of_nodup_map s.tags_key hr' hr
    (Prod.ext (hparts'.1.symm.trans hparts.1) (hparts'.2.symm.trans hparts.2))
  exact hrows ▸ hfrom

/-- The override of a stored column is staged under its key. -/
theorem staged_of_override {o : ColumnOverride} (ho : o ∈ policy.columnOverrides)
    (hsame : SameOverrides staged.overrides policy) {r : ColumnPiiTagRow}
    (hr : s.tagRow o.qualifiedTable o.columnName = some r) :
    ∃ override, staged.overrides.lookup (columnEntry r).qualifiedColumn = some override ∧
      StagedFrom (columnEntry r) override ∧
        ∀ c, c ∈ override.categories ↔ c ∈ o.tag.categories := by
  obtain ⟨hmem, htable, hcolumn⟩ := Store.tagRow_eq_some_iff.1 hr
  obtain ⟨⟨key, override⟩, hentry, hkey, -, hcategories⟩ := hsame.staged o ho
  have hrkey : (columnEntry r).qualifiedColumn = key := by
    rw [columnEntry, htable, hcolumn, o.text_eq, hkey]
  rw [← hrkey] at hentry
  exact ⟨override, (lookup_eq_some_iff_mem hinv.keys).2 hentry,
    stagedFrom_of_key hinv hnamed hmem hentry, hcategories⟩

/-- Applying the policy of a session is refused nowhere. -/
theorem exists_policyApply (force : Bool) (hsame : SameOverrides staged.overrides policy) :
    ∃ s', policyApply s policy force = (s', none) := by
  refine exists_applyOverrides policy.overrides_key fun o ho r hr hfloor => ?_
  obtain ⟨override, -, hfrom, hcategories⟩ := staged_of_override hinv hnamed ho hsame hr
  rw [meetsFloor_iff] at hfloor ⊢
  have hrow : columnIsFloor (columnEntry r).categories = true := by
    rw [columnIsFloor_iff]
    exact hfloor.imp fun c hc => ⟨mem_sortedCategories.2 hc.1, hc.2⟩
  obtain ⟨c, hc, hcatastrophic⟩ := (floor_iff_of_stagedFrom hfrom).2 hrow
  exact ⟨c, (hcategories c).1 hc, hcatastrophic⟩

/-- The grid shows a column as blocked or locked exactly when its stored categories are met. -/
theorem enforced_iff (hsame : SameOverrides staged.overrides policy)
    (hblock : ∀ c, c ∈ policy.block ↔ c ∈ staged.block)
    (happly : policyApply s policy = (s', none)) {r : ColumnPiiTagRow}
    (hr : r ∈ s.columnPiiTags) :
    Enforced policy s' r ↔
      columnVerb (columnEntry r).qualifiedColumn (columnEntry r).categories staged = .block ∨
        columnVerb (columnEntry r).qualifiedColumn (columnEntry r).categories staged = .floor := by
  have hstored := Store.tagRow_eq_some_iff.2 ⟨hr, rfl, rfl⟩
  have hafter := tagRow_policyApply happly r.qualifiedTable r.columnName
  rw [columnVerb_blocked_iff, Enforced, hafter]
  cases hoverride : policy.overrideFor r.qualifiedTable r.columnName with
  | some o =>
    obtain ⟨ho, htable, hcolumn⟩ := Policy.overrideFor_eq_some_iff.1 hoverride
    obtain ⟨override, hlookup, hfrom, hcategories⟩ :=
      staged_of_override hinv hnamed ho hsame (by rw [htable, hcolumn, hstored])
    rw [← floor_iff_of_stagedFrom hfrom, effectiveCategories, hlookup]
    simp only [Option.some.injEq, exists_eq_left', ColumnOverride.row, ← hcategories, hblock,
      and_or_left, exists_or]
    exact or_comm
  | none =>
    have hlookup : staged.overrides.lookup (columnEntry r).qualifiedColumn = none := by
      rw [Option.eq_none_iff_forall_ne_some]
      intro override hlookup
      obtain ⟨o, ho, hkey, -⟩ := hsame.written _ ((lookup_eq_some_iff_mem hinv.keys).1 hlookup)
      have hwell := hnamed _ (mem_perColumn.2 ⟨r, hr, rfl⟩) (by rw [hlookup]; rfl)
      have hsome := Policy.overrideFor_eq_some_iff.2 ⟨ho, hwell.parts hkey⟩
      exact absurd (hsome.symm.trans hoverride) (by simp)
    rw [columnIsFloor_iff, effectiveCategories, hlookup]
    simp only [hstored, Option.some.injEq, exists_eq_left', hblock, columnEntry,
      mem_sortedCategories, and_or_left, exists_or]
    exact or_comm

end

/-- Both loaders of the policy on disk agree. -/
theorem loadCurrentPolicy_of_served {yaml : YamlLibrary} {file : PolicyFile} {store : Store}
    {listing : PolicyListing} (h : policyRoute yaml file store = .ok listing) :
    ∃ current error, loadCurrentPolicy yaml file = .ok (current, error) ∧
      listing.activeBlock = activeBlock current ∧ listing.perColumn = perColumn store := by
  obtain ⟨⟨block, source, error⟩, hload, hlisting⟩ := bind_eq_ok h
  obtain rfl := Except.ok.inj hlisting
  cases file with
  | missing =>
    obtain ⟨rfl, -⟩ := Prod.mk.inj (Except.ok.inj hload)
    exact ⟨floorPolicy, none, rfl, rfl, rfl⟩
  | unreadable message =>
    obtain ⟨rfl, -⟩ := Prod.mk.inj (Except.ok.inj hload)
    exact ⟨floorPolicy, some message, rfl, rfl, rfl⟩
  | text text =>
    cases hparse : parsePolicyYaml yaml text with
    | ok policy =>
      rw [loadActiveBlock, hparse] at hload
      obtain ⟨rfl, -⟩ := Prod.mk.inj (Except.ok.inj hload)
      exact ⟨policy, none, by rw [loadCurrentPolicy, hparse], rfl, rfl⟩
    | error parseError =>
      rw [loadActiveBlock, hparse] at hload
      cases parseError with
      | yaml message =>
        obtain ⟨rfl, -⟩ := Prod.mk.inj (Except.ok.inj hload)
        exact ⟨floorPolicy, some message, by rw [loadCurrentPolicy, hparse], rfl, rfl⟩
      | typeError | valueError | keyError | recursionError | memoryError => simp at hload

/-- What the grid shows after a session is what applying its preview enforces, where the columns
with a staged override are well named and the library reads back the body that it dumped. -/
theorem policyGrid_enforced {yaml : YamlLibrary} {ndiff : String → String → List String}
    {file : PolicyFile} {s : IndexedStore} {listing : PolicyListing} {staged : Staged}
    (hserved : policyRoute yaml file s.toStore = .ok listing)
    (hedited : Reaches (editorStep listing.perColumn) (fun _ _ => True)
      ⟨listing.activeBlock, initialOverridesFromPerColumn listing.perColumn⟩ staged)
    (hcap : staged.overrides.length ≤ maxPreviewOverrides)
    (hnamed : ∀ row ∈ listing.perColumn,
      (staged.overrides.lookup row.qualifiedColumn).isSome = true → WellNamed row)
    (hyaml : ∀ current error policy, loadCurrentPolicy yaml file = .ok (current, error) →
      stagedPolicy (buildPreviewQuery staged) current.description = .ok policy →
      yaml.safeLoad (policyToYaml yaml policy) = .ok (.map (policyBody policy))) :
    ∃ preview policy s',
      policyPreviewRoute yaml ndiff file (buildPreviewQuery staged) = .ok preview ∧
      parsePolicyYaml yaml preview.stagedYaml = .ok policy ∧
      (∀ c, c ∈ policy.block ↔ c ∈ staged.block) ∧
      (∀ key, StagedAs (staged.overrides.lookup key)
        (policy.columnOverrides.find? (·.qualifiedColumn = key))) ∧
      cmdPolicyApply yaml preview.stagedYaml s = (s', 0) ∧
      (∀ r ∈ s.columnPiiTags, Enforced policy s' r ↔
        columnVerb (columnEntry r).qualifiedColumn (columnEntry r).categories staged = .block ∨
        columnVerb (columnEntry r).qualifiedColumn (columnEntry r).categories staged = .floor) ∧
      ∀ row ∈ listing.perColumn, ∀ verb,
        siblingsAffectedByVerb listing.perColumn row.qualifiedColumn row.categories verb staged =
          if verb = .allow then 0
          else (movedColumns listing.perColumn row.qualifiedColumn staged
            (applyVerb staged row.qualifiedColumn row.categories (oppositeVerb verb))).length := by
  obtain ⟨current, error, hcurrent, -, hlisting⟩ := loadCurrentPolicy_of_served hserved
  have hinv := sessionInv_of_reaches hedited
  have hpaths : ∀ entry ∈ staged.overrides, (parseColumnPath entry.1).isSome = true := by
    intro entry hentry
    obtain ⟨row, hrow, hkey, -⟩ := hinv.listed entry hentry
    have hlookup := (lookup_eq_some_iff_mem hinv.keys).2 hentry
    have hwell := hnamed row hrow (by rw [hkey, hlookup]; rfl)
    rw [hlisting] at hrow
    obtain ⟨r, -, rfl⟩ := mem_perColumn.1 hrow
    exact hkey ▸ hwell.path
  obtain ⟨policy, hpolicy, hblock, hsame⟩ :=
    stagedPolicy_buildPreviewQuery current.description hinv.keys hpaths
  have hparse := parse_policyToYaml (hyaml current error policy hcurrent hpolicy)
  rw [hlisting] at hinv hnamed
  obtain ⟨s', happly⟩ := exists_policyApply hinv hnamed false hsame.canonical
  have hlength : (buildPreviewQuery staged).override.length = staged.overrides.length := by
    simp [buildPreviewQuery, sortedUtf16]
  have hblock' : ∀ c, c ∈ policy.canonical.block ↔ c ∈ staged.block := fun c =>
    mem_orderedCategories.trans (hblock c)
  refine ⟨renderPreview yaml ndiff current error policy, policy.canonical, s', ?_, hparse,
    hblock', hsame.canonical.stagedAs hinv.keys, ?_,
    fun r hr => enforced_iff hinv hnamed hsame.canonical hblock' happly hr, ?_⟩
  · rw [policyPreviewRoute, if_neg (by rw [hlength]; exact Nat.not_lt.2 hcap), hcurrent]
    simp only [hpolicy, bind, Except.bind]
  · rw [cmdPolicyApply, renderPreview, hparse]
    simp only [happly]
  · intro row _ verb
    split
    · next hallow => rw [siblingsAffectedByVerb, if_pos hallow]
    · next hverb => exact siblingsAffectedByVerb_eq hverb _ _

/-! ## Two sessions -/

/-- A store with one column, tagged by the classifier as contact data. -/
def contactStore (column : String) : IndexedStore :=
  { emptyStore with
    columnPiiTags := [⟨"public.users", column, ⟨.pii, [.contact]⟩, .heuristic⟩]
    tags_key := by simp }

/-- The only column of the store is marked safe. -/
def allowed (column : String) : Staged where
  block := sortedCategories catastrophicLeakCategories
  overrides := [("public.users." ++ column, markSafe)]

theorem allowed_reached (column : String) :
    Reaches (editorStep (perColumn (contactStore column).toStore)) (fun _ _ => True)
      ⟨sortedCategories catastrophicLeakCategories,
        initialOverridesFromPerColumn (perColumn (contactStore column).toStore)⟩
      (allowed column) := by
  let row := columnEntry ⟨"public.users", column, ⟨.pii, [.contact]⟩, .heuristic⟩
  refine .tail (a := .applyVerb row .allow) .refl trivial ?_
  have hrow : row ∈ perColumn (contactStore column).toStore :=
    mem_perColumn.2 ⟨_, List.mem_singleton_self _, rfl⟩
  have hfloor : columnIsFloor row.categories = false :=
    (by decide : columnIsFloor (sortedCategories [.contact]) = false)
  rw [editorStep, if_pos ⟨hrow, by simp [columnVerb_eq_floor_iff, hfloor], by decide⟩]
  rfl

/-- The policy that the second session stages. -/
def emailAllowed : Policy where
  block := sortedCategories catastrophicLeakCategories
  columnOverrides := [⟨"public.users.email", markSafe, by decide⟩]

/-- The text of that policy. -/
def emailAllowedText : String :=
  ("version: 1\nblock:\n- payment_card\n- credential\n- government_id\ncolumn_overrides:\n" ++
    "  public.users.email:\n    sensitivity: internal\n    categories: [").push ']'

/-- The library on that policy and its text. -/
def emailYaml : YamlLibrary where
  safeDump _ := emailAllowedText ++ "\n"
  safeLoad text :=
    if text = emailAllowedText then .ok (.map (policyBody emailAllowed)) else .error ""

/-- The session is previewed and applied. -/
theorem policyGrid_enforced_email : ∃ preview policy s',
    policyPreviewRoute emailYaml (fun _ _ => []) .missing (buildPreviewQuery (allowed "email")) =
        .ok preview ∧
      parsePolicyYaml emailYaml preview.stagedYaml = .ok policy ∧
      cmdPolicyApply emailYaml preview.stagedYaml (contactStore "email") = (s', 0) := by
  have hstaged : stagedPolicy (buildPreviewQuery (allowed "email")) "" = .ok emailAllowed := by
    decide
  have htext : policyToYaml emailYaml emailAllowed = emailAllowedText :=
    pyRstrip_newline (by decide)
  have hwell : WellNamed (columnEntry ⟨"public.users", "email", ⟨.pii, [.contact]⟩, .heuristic⟩) :=
    ⟨"public", "users", by decide, by decide, by decide, by decide⟩
  have hserved : policyRoute emailYaml .missing (contactStore "email").toStore =
      .ok ⟨"default", _, _, none⟩ := rfl
  obtain ⟨preview, policy, s', hpreview, hparse, -, -, happly, -⟩ :=
    policyGrid_enforced hserved (allowed_reached "email") (by decide)
      (fun row hrow _ => by
        obtain ⟨r, hr, rfl⟩ := mem_perColumn.1 hrow
        obtain rfl := List.mem_singleton.1 hr
        exact hwell)
      (fun current error policy hcurrent hpolicy => by
        obtain ⟨rfl, -⟩ := Prod.mk.inj (Except.ok.inj hcurrent)
        obtain rfl := Except.ok.inj (hstaged.symm.trans hpolicy)
        rw [htext]
        simp only [emailYaml, if_true])
  exact ⟨preview, policy, s', hpreview, hparse, happly⟩

/-- A column whose name is no identifier is marked safe, and the preview refuses the query. -/
theorem not_policyGrid_accepted : ¬ ∃ (yaml : YamlLibrary) (ndiff : String → String → List String),
    ∀ (file : PolicyFile) (s : IndexedStore) (listing : PolicyListing) (staged : Staged),
      policyRoute yaml file s.toStore = .ok listing →
      Reaches (editorStep listing.perColumn) (fun _ _ => True)
        ⟨listing.activeBlock, initialOverridesFromPerColumn listing.perColumn⟩ staged →
      staged.overrides.length ≤ maxPreviewOverrides →
      ∃ preview, policyPreviewRoute yaml ndiff file (buildPreviewQuery staged) = .ok preview := by
  rintro ⟨yaml, ndiff, hall⟩
  obtain ⟨preview, hpreview⟩ := hall .missing (contactStore "e-mail") _ _ rfl
    (allowed_reached "e-mail") (by decide)
  have hrefused : stagedPolicy (buildPreviewQuery (allowed "e-mail")) "" =
      .error (.http 400 ("qualified_column must be `schema.table.column` form with " ++
        "identifier-shaped parts (got 'public.users.e-mail')")) := by
    decide
  have hshort : ¬ (buildPreviewQuery (allowed "e-mail")).override.length > maxPreviewOverrides := by
    decide
  rw [policyPreviewRoute, if_neg hshort] at hpreview
  simp only [loadCurrentPolicy, floorPolicy, hrefused, bind, Except.bind] at hpreview
  simp at hpreview

end SchemaBrain.Dashboard
