import SchemaBrain.Mcp.Redaction

/-!
# `describe_table`

The columns and foreign keys of one table, blocked names masked. The table is looked up
under the parsed name, the tags under the text that was parsed: only a spelling that is the
stored key finds them.
-/

namespace SchemaBrain.Mcp

open Base Core Semantic

/-- One column of a `TableDescription`. -/
structure ColumnInfo where
  name : String
  dataType : String
  nullable : Bool
  default : Option String
  isPrimaryKey : Bool
  description : String
  redacted : Bool
  deriving DecidableEq, Repr

/-- One foreign key of a `TableDescription`. -/
structure ForeignKeyInfo where
  name : String
  sourceColumns : List String
  targetQualifiedName : String
  targetColumns : List String
  deriving DecidableEq, Repr

/-- What `describe_table` returns. -/
structure TableDescription where
  qualifiedName : String
  schemaName : String
  name : String
  columns : List ColumnInfo
  foreignKeys : List ForeignKeyInfo
  tokenEstimate : Nat
  redactedColumns : List String
  deriving DecidableEq, Repr

/-- `_token_estimate_of`, from the length of the serialized payload. -/
def tokenEstimateOf (jsonLength : Nat) : Nat := max 1 (jsonLength / 4)

/-- The text of a foreign key's target. -/
def targetText (fk : ForeignKey) : String := fk.targetSchema ++ "." ++ fk.targetTable

section Tool

variable (catalog : Catalog) (piiBlock : List PiiCategory)

/-- The loop over the columns: what it shows of them, and the placeholders it used. -/
def describeColumns (table : QualifiedTable) (tagKey : String) :
    (PiiCategory → Nat) → List Column → List ColumnInfo × List String
  | _, [] => ([], [])
  | counters, c :: rest =>
    match maskCategory catalog.toStore piiBlock tagKey c.name with
    | some category =>
      let label := placeholder category (counters category + 1)
      let (columns, redacted) := describeColumns table tagKey
        (Function.update counters category (counters category + 1)) rest
      ({ name := label, dataType := c.dataType, nullable := c.nullable, default := none,
         isPrimaryKey := false, description := "", redacted := true } :: columns,
        label :: redacted)
    | none =>
      let (columns, redacted) := describeColumns table tagKey counters rest
      ({ name := c.name, dataType := c.dataType, nullable := c.nullable, default := c.default,
         isPrimaryKey := c.isPrimaryKey,
         description := (catalog.columnDescription table c.name).getD "", redacted := false } ::
        columns, redacted)

/-- One foreign key, its source columns masked by the tags under one text. -/
def describeForeignKey (tagKey : String) (fk : ForeignKey) : ForeignKeyInfo where
  name := fk.name
  sourceColumns := redactBlockedFkColumns catalog.toStore piiBlock tagKey fk.sourceColumns
  targetQualifiedName := targetText fk
  targetColumns := redactBlockedFkColumns catalog.toStore piiBlock (targetText fk) fk.targetColumns

/-- What is shown of a table whose tags are looked up under a text. -/
def describeTableAs (table : Table) (tagKey : String) :
    List ColumnInfo × List String × List ForeignKeyInfo :=
  let (columns, redacted) :=
    describeColumns catalog piiBlock table.qualified tagKey (fun _ => 0) table.columns
  (columns, redacted, table.foreignKeys.map (describeForeignKey catalog piiBlock tagKey))

/-- `describe_table_impl`. `jsonLength` is the length of the serialized payload. -/
def describeTable (jsonLength : TableDescription → Nat) (qualifiedName : String) :
    Except ReadError TableDescription :=
  match parseQualifiedName qualifiedName with
  | .error e => .error (.valueError e)
  | .ok key =>
    match catalog.getTable key with
    | none => .error (.tableNotFound (key.text ++ " is not in the store for source " ++
        pyRepr catalog.sourceConnectionId ++ ". Run `schemabrain index` against the source " ++
        "database first."))
    | some table =>
      let (columns, redacted, foreignKeys) := describeTableAs catalog piiBlock table qualifiedName
      let partialResult : TableDescription :=
        { qualifiedName := qualifiedName, schemaName := key.schema, name := key.table,
          columns := columns, foreignKeys := foreignKeys, tokenEstimate := 0,
          redactedColumns := redacted }
      .ok { partialResult with tokenEstimate := tokenEstimateOf (jsonLength partialResult) }

end Tool

section Masks

variable {catalog : Catalog} {piiBlock : List PiiCategory}

/-! ## Columns -/

/-- What is shown of a column under its placeholder, if it has one. -/
def shownColumn (catalog : Catalog) (table : QualifiedTable) (c : Column) :
    Option String → ColumnInfo
  | some label =>
    { name := label, dataType := c.dataType, nullable := c.nullable, default := none,
      isPrimaryKey := false, description := "", redacted := true }
  | none =>
    { name := c.name, dataType := c.dataType, nullable := c.nullable, default := c.default,
      isPrimaryKey := c.isPrimaryKey,
      description := (catalog.columnDescription table c.name).getD "", redacted := false }

/-- The masks of a column list, by the tags under one text. -/
def maskCategories (store : Store) (piiBlock : List PiiCategory) (tagKey : String)
    (columns : List Column) : List (Option PiiCategory) :=
  columns.map fun c => maskCategory store piiBlock tagKey c.name

/-- The loop shows every column under its placeholder. -/
theorem describeColumns_eq (table : QualifiedTable) (tagKey : String)
    (counters : PiiCategory → Nat) (columns : List Column) :
    describeColumns catalog piiBlock table tagKey counters columns =
      (columns.zipWith (shownColumn catalog table)
        (placeholders counters (maskCategories catalog.toStore piiBlock tagKey columns)),
      (placeholders counters
        (maskCategories catalog.toStore piiBlock tagKey columns)).filterMap id) := by
  induction columns generalizing counters with
  | nil => rfl
  | cons c columns ih =>
    unfold describeColumns
    split
    · next category hmask => simp [maskCategories, hmask, placeholders, ih, shownColumn]
    · next hmask => simp [maskCategories, hmask, placeholders, ih, shownColumn]

/-- A shown column tells its placeholder. -/
def ColumnInfo.label (info : ColumnInfo) : Option String :=
  if info.redacted then some info.name else none

/-- The labels of shown columns are their placeholders. -/
theorem map_label {table : QualifiedTable} {columns : List Column} {labels : List (Option String)}
    (h : labels.length = columns.length) :
    (columns.zipWith (shownColumn catalog table) labels).map (·.label) = labels := by
  induction columns generalizing labels with
  | nil => simpa using h
  | cons c columns ih =>
    cases labels with
    | nil => simp at h
    | cons label labels =>
      rw [List.zipWith_cons_cons, List.map_cons, ih (by simpa using h)]
      cases label <;> rfl

/-- A blocked column is opaque, and any other one carries its name. -/
structure MaskedColumn (blocked : Prop) (c : Column) (info : ColumnInfo) : Prop where
  hidden : blocked → info.redacted = true
  unnamed : info.redacted = true → (∃ category n, info.name = placeholder category n) ∧
    info.default = none ∧ info.isPrimaryKey = false ∧ info.description = ""
  named : info.redacted = false → info.name = c.name

/-- What is shown of one list of names: a blocked one is a placeholder. -/
def MaskedNames (blocked : String → Prop) (names shown : List String) : Prop :=
  List.Forall₂ (fun name text => (blocked name → text = fkRedactedPlaceholder) ∧
    (text = fkRedactedPlaceholder ∨ text = name)) names shown

/-- A result in which no entry that stands for a blocked column carries its name, default,
primary-key flag or description. -/
structure MasksBlocked (catalog : Catalog) (piiBlock : List PiiCategory) (table : Table)
    (d : TableDescription) : Prop where
  columns : List.Forall₂ (fun c info =>
    MaskedColumn (Blocked catalog.toStore piiBlock table.qualified.text c.name) c info)
    table.columns d.columns
  redacted : ∀ label ∈ d.redactedColumns, ∃ category n, label = placeholder category n
  foreignKeys : List.Forall₂ (fun fk info =>
    MaskedNames (Blocked catalog.toStore piiBlock table.qualified.text) fk.sourceColumns
      info.sourceColumns ∧
    MaskedNames (Blocked catalog.toStore piiBlock (targetText fk)) fk.targetColumns
      info.targetColumns) table.foreignKeys d.foreignKeys

private theorem maskedColumn_shown {blocked : Prop} {table : QualifiedTable} {c : Column}
    {label : Option String}
    (hlabel : ∀ text, label = some text → ∃ category n, text = placeholder category n) :
    MaskedColumn blocked c (shownColumn catalog table c label) ↔ (blocked → label ≠ none) := by
  cases label with
  | none =>
    refine ⟨fun h hblocked => ?_, fun h => ?_⟩
    · exact absurd (h.hidden hblocked) Bool.false_ne_true
    · exact ⟨fun hblocked => absurd rfl (h hblocked),
        fun hfalse => absurd hfalse Bool.false_ne_true, fun _ => rfl⟩
  | some text =>
    refine ⟨fun _ _ => Option.some_ne_none text, fun _ => ?_⟩
    exact ⟨fun _ => rfl, fun _ => ⟨hlabel text rfl, rfl, rfl, rfl⟩,
      fun hfalse => absurd hfalse (Bool.false_ne_true ∘ Eq.symm)⟩

/-- Shown columns hide the blocked ones when these have masks. -/
private theorem forall₂_shown {blocked : Column → Prop} {table : QualifiedTable}
    {mask : Column → Option PiiCategory} (counters : PiiCategory → Nat) (columns : List Column) :
    List.Forall₂ (fun c info => MaskedColumn (blocked c) c info) columns
        (columns.zipWith (shownColumn catalog table) (placeholders counters (columns.map mask))) ↔
      ∀ c ∈ columns, blocked c → mask c ≠ none := by
  induction columns generalizing counters with
  | nil => simp
  | cons c columns ih =>
    rw [List.map_cons, List.forall_mem_cons]
    cases hmask : mask c with
    | none =>
      rw [placeholders, List.zipWith_cons_cons, List.forall₂_cons, ih,
        maskedColumn_shown (by simp)]
      simp
    | some category =>
      rw [placeholders, List.zipWith_cons_cons, List.forall₂_cons, ih,
        maskedColumn_shown (fun _ htext => ⟨_, _, (Option.some.inj htext).symm⟩)]
      simp

private theorem mem_placeholders {counters : PiiCategory → Nat} {masks : List (Option PiiCategory)}
    {label : String} (h : label ∈ (placeholders counters masks).filterMap id) :
    ∃ category n, label = placeholder category n := by
  induction masks generalizing counters with
  | nil => simp [placeholders] at h
  | cons mask masks ih =>
    cases mask with
    | none => exact ih (by simpa [placeholders] using h)
    | some category =>
      rw [placeholders, List.filterMap_cons_some (f := id) rfl] at h
      rcases List.mem_cons.1 h with rfl | h
      · exact ⟨_, _, rfl⟩
      · exact ih h

private theorem maskedNames_redact {blocked : String → Prop} {tagKey : String}
    {names : List String} :
    MaskedNames blocked names (redactBlockedFkColumns catalog.toStore piiBlock tagKey names) ↔
      ∀ name ∈ names, blocked name →
        Blocked catalog.toStore piiBlock tagKey name ∨ name = fkRedactedPlaceholder := by
  rw [MaskedNames, redactBlockedFkColumns, List.forall₂_map_right_iff, List.forall₂_same]
  refine forall₂_congr fun name _ => ?_
  split
  · next hblocked => simp [hblocked]
  · next hblocked => simp [hblocked]

/-! ## Spellings -/

/-- The tags stored under a spelling mask the table as those under its text do. -/
structure TagsFound (store : Store) (piiBlock : List PiiCategory) (table : Table)
    (spelling : String) : Prop where
  columns : ∀ c ∈ table.columns, Blocked store piiBlock table.qualified.text c.name →
    Blocked store piiBlock spelling c.name
  sources : ∀ fk ∈ table.foreignKeys, ∀ name ∈ fk.sourceColumns,
    Blocked store piiBlock table.qualified.text name →
      Blocked store piiBlock spelling name ∨ name = fkRedactedPlaceholder
  samePlaceholders : parseQualifiedName table.qualified.text = .ok table.qualified →
    ∀ c ∈ table.columns, maskCategory store piiBlock spelling c.name =
      maskCategory store piiBlock table.qualified.text c.name
  sameSources : parseQualifiedName table.qualified.text = .ok table.qualified →
    ∀ fk ∈ table.foreignKeys, ∀ name ∈ fk.sourceColumns,
      (Blocked store piiBlock spelling name ↔ Blocked store piiBlock table.qualified.text name) ∨
        name = fkRedactedPlaceholder

/-- The tool masks the table under a spelling, and shows what it shows under the plain one
where that names the table too. -/
structure MasksSpelling (catalog : Catalog) (piiBlock : List PiiCategory)
    (jsonLength : TableDescription → Nat) (table : Table) (spelling : String) : Prop where
  masked : ∃ d, describeTable catalog piiBlock jsonLength spelling = .ok d ∧
    MasksBlocked catalog piiBlock table d
  same : parseQualifiedName table.qualified.text = .ok table.qualified →
    ∃ d d', describeTable catalog piiBlock jsonLength spelling = .ok d ∧
      describeTable catalog piiBlock jsonLength table.qualified.text = .ok d' ∧
      d.columns = d'.columns ∧ d.redactedColumns = d'.redactedColumns ∧
      d.foreignKeys = d'.foreignKeys

variable {jsonLength : TableDescription → Nat} {table : Table}

variable (piiBlock jsonLength) in
/-- A spelling of a stored table is described. -/
theorem describeTable_of_parse {spelling : String} {key : QualifiedTable}
    (hparse : parseQualifiedName spelling = .ok key) (htable : catalog.getTable key = some table) :
    ∃ d, describeTable catalog piiBlock jsonLength spelling = .ok d ∧
      (d.columns, d.redactedColumns, d.foreignKeys) =
        describeTableAs catalog piiBlock table spelling := by
  rw [describeTable, hparse]
  simp only [htable]
  exact ⟨_, rfl, rfl⟩

/-- A described table is stored, and shown by the tags under its spelling. -/
theorem describeTable_ok {spelling : String} {d : TableDescription}
    (h : describeTable catalog piiBlock jsonLength spelling = .ok d) :
    ∃ key table, parseQualifiedName spelling = .ok key ∧ catalog.getTable key = some table ∧
      (d.columns, d.redactedColumns, d.foreignKeys) =
        describeTableAs catalog piiBlock table spelling := by
  unfold describeTable at h
  split at h
  · simp at h
  · next key hparse =>
    split at h
    · simp at h
    · next table htable =>
      obtain rfl := Except.ok.inj h
      exact ⟨key, table, hparse, htable, rfl⟩

private theorem masksBlocked_iff {spelling : String} {d : TableDescription}
    (hd : (d.columns, d.redactedColumns, d.foreignKeys) =
      describeTableAs catalog piiBlock table spelling) :
    MasksBlocked catalog piiBlock table d ↔
      (∀ c ∈ table.columns, Blocked catalog.toStore piiBlock table.qualified.text c.name →
        Blocked catalog.toStore piiBlock spelling c.name) ∧
      (∀ fk ∈ table.foreignKeys, ∀ name ∈ fk.sourceColumns,
        Blocked catalog.toStore piiBlock table.qualified.text name →
          Blocked catalog.toStore piiBlock spelling name ∨ name = fkRedactedPlaceholder) := by
  rw [describeTableAs, describeColumns_eq] at hd
  obtain ⟨hcolumns, hrest⟩ := Prod.mk.inj hd
  obtain ⟨hredacted, hforeign⟩ := Prod.mk.inj hrest
  have hshown : List.Forall₂ (fun c info =>
      MaskedColumn (Blocked catalog.toStore piiBlock table.qualified.text c.name) c info)
      table.columns d.columns ↔
      ∀ c ∈ table.columns, Blocked catalog.toStore piiBlock table.qualified.text c.name →
        Blocked catalog.toStore piiBlock spelling c.name := by
    rw [hcolumns, maskCategories, forall₂_shown]
    simp only [ne_eq, maskCategory_eq_none, not_not]
  have hkeys : List.Forall₂ (fun fk info =>
      MaskedNames (Blocked catalog.toStore piiBlock table.qualified.text) fk.sourceColumns
        info.sourceColumns ∧
      MaskedNames (Blocked catalog.toStore piiBlock (targetText fk)) fk.targetColumns
        info.targetColumns) table.foreignKeys d.foreignKeys ↔
      ∀ fk ∈ table.foreignKeys, ∀ name ∈ fk.sourceColumns,
        Blocked catalog.toStore piiBlock table.qualified.text name →
          Blocked catalog.toStore piiBlock spelling name ∨ name = fkRedactedPlaceholder := by
    rw [hforeign, List.forall₂_map_right_iff, List.forall₂_same]
    refine forall₂_congr fun fk _ => ?_
    rw [describeForeignKey, maskedNames_redact, maskedNames_redact]
    exact and_iff_left fun name _ hblocked => .inl hblocked
  constructor
  · intro h
    exact ⟨hshown.1 h.columns, hkeys.1 h.foreignKeys⟩
  · intro ⟨hcolumn, hsource⟩
    exact ⟨hshown.2 hcolumn, fun label hlabel => mem_placeholders (hredacted ▸ hlabel),
      hkeys.2 hsource⟩

/-- What two tag keys show agrees exactly when they mask the same. -/
private theorem describeTableAs_eq_iff {tagKey tagKey' : String} :
    describeTableAs catalog piiBlock table tagKey =
        describeTableAs catalog piiBlock table tagKey' ↔
      (∀ c ∈ table.columns, maskCategory catalog.toStore piiBlock tagKey c.name =
        maskCategory catalog.toStore piiBlock tagKey' c.name) ∧
      ∀ fk ∈ table.foreignKeys, ∀ name ∈ fk.sourceColumns,
        (Blocked catalog.toStore piiBlock tagKey name ↔
          Blocked catalog.toStore piiBlock tagKey' name) ∨ name = fkRedactedPlaceholder := by
  have hkeys : table.foreignKeys.map (describeForeignKey catalog piiBlock tagKey) =
      table.foreignKeys.map (describeForeignKey catalog piiBlock tagKey') ↔
      ∀ fk ∈ table.foreignKeys, ∀ name ∈ fk.sourceColumns,
        (Blocked catalog.toStore piiBlock tagKey name ↔
          Blocked catalog.toStore piiBlock tagKey' name) ∨ name = fkRedactedPlaceholder := by
    rw [List.map_inj_left]
    refine forall₂_congr fun fk _ => ?_
    simp only [describeForeignKey, redactBlockedFkColumns, ForeignKeyInfo.mk.injEq, true_and,
      and_true, List.map_inj_left]
    refine forall₂_congr fun name _ => ?_
    by_cases hblocked : Blocked catalog.toStore piiBlock tagKey name <;>
      by_cases hblocked' : Blocked catalog.toStore piiBlock tagKey' name <;>
      simp [hblocked, hblocked', eq_comm]
  rw [describeTableAs, describeTableAs, describeColumns_eq, describeColumns_eq]
  constructor
  · intro h
    obtain ⟨hcolumns, hrest⟩ := Prod.mk.inj h
    have hlabels := congrArg (List.map ColumnInfo.label) hcolumns
    rw [map_label (by simp [length_placeholders, maskCategories]),
      map_label (by simp [length_placeholders, maskCategories])] at hlabels
    exact ⟨List.map_inj_left.1 (placeholders_inj hlabels), hkeys.1 (Prod.mk.inj hrest).2⟩
  · intro ⟨hmasks, hsources⟩
    have hcategories : maskCategories catalog.toStore piiBlock tagKey table.columns =
        maskCategories catalog.toStore piiBlock tagKey' table.columns :=
      List.map_inj_left.2 hmasks
    rw [hcategories, hkeys.2 hsources]

/-- A spelling is masked, and shown as the plain one, exactly when the tags are found under
it. -/
theorem masksSpelling_iff {spelling : String} {key : QualifiedTable}
    (hparse : parseQualifiedName spelling = .ok key) (htable : catalog.getTable key = some table) :
    MasksSpelling catalog piiBlock jsonLength table spelling ↔
      TagsFound catalog.toStore piiBlock table spelling := by
  obtain ⟨d, hd, hshown⟩ := describeTable_of_parse piiBlock jsonLength hparse htable
  have hkey : table.qualified = key := by simpa using List.find?_some htable
  constructor
  · intro ⟨⟨d₁, hd₁, hmasked⟩, hsame⟩
    obtain rfl := Except.ok.inj (hd.symm.trans hd₁)
    obtain ⟨hcolumns, hsources⟩ := (masksBlocked_iff hshown).1 hmasked
    have hplain : parseQualifiedName table.qualified.text = .ok table.qualified →
        describeTableAs catalog piiBlock table spelling =
          describeTableAs catalog piiBlock table table.qualified.text := by
      intro hparse'
      obtain ⟨d₁, d', hd₁, hd', hc, hr, hf⟩ := hsame hparse'
      obtain rfl := Except.ok.inj (hd.symm.trans hd₁)
      obtain ⟨d'₁, hd'₁, hshown'⟩ := describeTable_of_parse piiBlock jsonLength hparse'
        (hkey ▸ htable)
      obtain rfl := Except.ok.inj (hd'.symm.trans hd'₁)
      rw [← hshown, ← hshown', hc, hr, hf]
    exact ⟨hcolumns, hsources, fun hparse' => (describeTableAs_eq_iff.1 (hplain hparse')).1,
      fun hparse' => (describeTableAs_eq_iff.1 (hplain hparse')).2⟩
  · intro h
    refine ⟨⟨d, hd, (masksBlocked_iff hshown).2 ⟨h.columns, h.sources⟩⟩, fun hparse' => ?_⟩
    obtain ⟨d', hd', hshown'⟩ := describeTable_of_parse piiBlock jsonLength hparse' (hkey ▸ htable)
    have heq : (d.columns, d.redactedColumns, d.foreignKeys) =
        (d'.columns, d'.redactedColumns, d'.foreignKeys) := by
      rw [hshown, hshown', describeTableAs_eq_iff]
      exact ⟨h.samePlaceholders hparse', h.sameSources hparse'⟩
    obtain ⟨hc, hrest⟩ := Prod.mk.inj heq
    obtain ⟨hr, hf⟩ := Prod.mk.inj hrest
    exact ⟨d, d', hd, hd', hc, hr, hf⟩

end Masks

/-- Users with a credential column. -/
def credentialUsers : Table where
  qualified := ⟨"public", "users"⟩
  columns := [
    { name := "id", dataType := "bigint", nullable := false, isPrimaryKey := true },
    { name := "password_hash", dataType := "text", ordinalPosition := 2 }]

/-- The rows of `credentialUsers` with the column's tag. -/
def credentialCatalog : Catalog where
  tables := [credentialUsers]
  entities := []
  canonicalJoins := []
  metrics := []
  columnPiiTags := [⟨"public.users", "password_hash", ⟨.confidential, [.credential]⟩, .heuristic⟩]

theorem masksSpelling_iff_users :
    MasksSpelling credentialCatalog [] (fun _ => 0) credentialUsers "public.\"users\"" ↔
      TagsFound credentialCatalog.toStore [] credentialUsers "public.\"users\"" := by
  have hparse : parseQualifiedName "public.\"users\"" = .ok ⟨"public", "users"⟩ := by
    decide
  exact masksSpelling_iff hparse (by decide)

/-- The tags are not stored under the quoted name. -/
theorem not_masksSpelling_quoted :
    ¬ ∀ (catalog : Catalog) (piiBlock : List PiiCategory) (jsonLength : TableDescription → Nat)
      (spelling : String) (key : QualifiedTable) (table : Table),
      parseQualifiedName spelling = .ok key → catalog.getTable key = some table →
        MasksSpelling catalog piiBlock jsonLength table spelling := by
  intro hall
  have hparse : parseQualifiedName "public.\"users\"" = .ok ⟨"public", "users"⟩ := by
    decide
  obtain ⟨d, hd, hmasked⟩ := (hall credentialCatalog [] (fun _ => 0) _ _ credentialUsers hparse
    (by decide)).masked
  have hshown : (describeTable credentialCatalog [] (fun _ => 0) "public.\"users\"").toOption.map
      (fun d => d.columns.map (·.redacted)) = some [false, false] := by decide
  have hblocked : Blocked credentialCatalog.toStore [] "public.users" "password_hash" := by
    decide
  have hredacted : d.columns.map (·.redacted) = [false, false] := by
    rw [hd] at hshown
    exact Option.some.inj hshown
  have hmap : List.Forall₂ (fun c redacted => Blocked credentialCatalog.toStore []
      credentialUsers.qualified.text c.name → redacted = true) credentialUsers.columns
      (d.columns.map (·.redacted)) :=
    List.forall₂_map_right_iff.2 (hmasked.columns.imp fun _ _ h => h.hidden)
  rw [hredacted] at hmap
  cases hmap with
  | cons _ hrest => exact absurd ((List.forall₂_cons.1 hrest).1 hblocked) Bool.false_ne_true

end SchemaBrain.Mcp
