import SchemaBrain.Mcp.Renaming

/-!
# `describe_entity`

One entity with the columns of its table, blocked names masked as `describe_table` masks
them. Its identity is copied from the row as it stands: the one name that is not masked.
-/

namespace SchemaBrain.Mcp

open Base Core Semantic

/-- One column of an `EntityDetail`. -/
structure EntityColumn where
  name : String
  dataType : String
  nullable : Bool
  description : String
  piiSensitivity : Sensitivity
  piiCategories : List PiiCategory
  redacted : Bool
  deriving DecidableEq, Repr

/-- What `describe_entity` returns. -/
structure EntityDetail where
  name : String
  description : String
  qualifiedTable : String
  identity : String
  origin : Origin
  columns : List EntityColumn
  tokenEstimate : Nat
  inferenceMethod : InferenceMethod
  validationState : ValidationState
  redactedColumns : List String
  deriving DecidableEq, Repr

section Tool

variable (catalog : Catalog) (piiBlock : List PiiCategory)

/-- The loop over the bound table's columns: what it shows of them, and the placeholders it
used. -/
def describeEntityColumns (table : QualifiedTable) :
    (PiiCategory → Nat) → List Column → List EntityColumn × List String
  | _, [] => ([], [])
  | counters, c :: rest =>
    let tag := catalog.columnPiiTag table.text c.name
    match maskCategory catalog.toStore piiBlock table.text c.name with
    | some category =>
      let displayName := placeholder category (counters category + 1)
      let (columns, redactedNames) := describeEntityColumns table
        (Function.update counters category (counters category + 1)) rest
      ({ name := displayName, dataType := c.dataType, nullable := c.nullable, description := "",
         piiSensitivity := tag.sensitivity, piiCategories := [], redacted := true } :: columns,
        displayName :: redactedNames)
    | none =>
      let (columns, redactedNames) := describeEntityColumns table counters rest
      ({ name := c.name, dataType := c.dataType, nullable := c.nullable,
         description := (catalog.columnDescription table c.name).getD "",
         piiSensitivity := tag.sensitivity, piiCategories := sortedCategories tag.categories,
         redacted := false } :: columns, redactedNames)

/-- `describe_entity_impl`. `jsonLength` is the length of the serialized payload. -/
def describeEntity (jsonLength : EntityDetail → Nat) (name : String) :
    Except ReadError EntityDetail :=
  match validateIdent name "entity" with
  | .error e => .error (.valueError e)
  | .ok () =>
    match catalog.getEntity name with
    | none => .error (.entityNotFound ("No entity named " ++ pyRepr name ++ " for this source. " ++
        "Call `list_entities` to see what's defined."))
    | some entity =>
      match catalog.getTable entity.binding with
      | none => .error (.runtimeError ("FK invariant violated: entity " ++ pyRepr name ++
          " references missing table " ++ pyRepr entity.binding.text))
      | some table =>
        let (columns, redactedNames) :=
          describeEntityColumns catalog piiBlock entity.binding (fun _ => 0) table.columns
        let notes := catalog.entityNotes entity.name
        let partialResult : EntityDetail :=
          { name := entity.name, description := notes.description,
            qualifiedTable := entity.binding.text, identity := entity.identity,
            origin := notes.origin, columns := columns, tokenEstimate := 0,
            inferenceMethod := notes.inferenceMethod, validationState := notes.validationState,
            redactedColumns := redactedNames }
        .ok { partialResult with tokenEstimate := tokenEstimateOf (jsonLength partialResult) }

end Tool

/-- A column's placeholder, if it is shown under one. -/
def EntityColumn.label (column : EntityColumn) : Option String :=
  if column.redacted then some column.name else none

section Columns

variable {catalog catalog' : Catalog} {piiBlock : List PiiCategory} {ρ : Renaming}
variable {table : QualifiedTable}

/-- The two tools number the columns of one table alike. -/
theorem labels_describeEntityColumns (counters : PiiCategory → Nat) (columns : List Column) :
    (describeEntityColumns catalog piiBlock table counters columns).1.map (·.label) =
      placeholders counters (maskCategories catalog.toStore piiBlock table.text columns) := by
  induction columns generalizing counters with
  | nil => rfl
  | cons c columns ih =>
    have hcons : maskCategories catalog.toStore piiBlock table.text (c :: columns) =
        maskCategory catalog.toStore piiBlock table.text c.name ::
          maskCategories catalog.toStore piiBlock table.text columns := rfl
    unfold describeEntityColumns
    simp only
    split
    · next category hmask =>
      rw [List.map_cons, ih, hcons, hmask]
      rfl
    · next hmask =>
      rw [List.map_cons, ih, hcons, hmask]
      rfl

/-- Renamed columns are shown alike. -/
theorem Renames.describeEntityColumns (h : Renames catalog piiBlock ρ catalog')
    (counters : PiiCategory → Nat) {columns columns' : List Column}
    (hcolumns : List.Forall₂ (RenamedColumn catalog piiBlock ρ catalog' table) columns columns') :
    describeEntityColumns catalog' piiBlock table counters columns' =
      describeEntityColumns catalog piiBlock table counters columns := by
  induction hcolumns generalizing counters with
  | nil => rfl
  | cons hc _ ih =>
    rw [Mcp.describeEntityColumns, Mcp.describeEntityColumns, h.maskCategory hc.name,
      h.columnPiiTag hc.name, hc.dataType, hc.nullable]
    simp only
    split
    · rw [ih]
    · next hmask =>
      have hunblocked := maskCategory_eq_none.1 hmask
      rw [ih, hc.description hunblocked, hc.name.eq_of_unblocked hunblocked]

end Columns

section Renaming

variable {catalog catalog' : Catalog} {piiBlock : List PiiCategory} {ρ : Renaming}
variable {jsonLength : EntityDetail → Nat} {name : String}

/-- What a described entity shows. -/
theorem describeEntity_ok {detail : EntityDetail}
    (h : describeEntity catalog piiBlock jsonLength name = .ok detail) :
    validateIdent name "entity" = .ok () ∧
    ∃ e t, catalog.getEntity name = some e ∧ catalog.getTable e.binding = some t ∧
      detail.identity = e.identity ∧ detail.qualifiedTable = e.binding.text ∧
      detail.columns =
        (describeEntityColumns catalog piiBlock e.binding (fun _ => 0) t.columns).1 := by
  unfold describeEntity at h
  split at h
  · simp at h
  · next hvalid =>
    refine ⟨hvalid, ?_⟩
    split at h
    · simp at h
    · next e hentity =>
      split at h
      · simp at h
      · next t htable =>
        obtain rfl := Except.ok.inj h
        exact ⟨e, t, hentity, htable, rfl, rfl, rfl⟩

variable (piiBlock jsonLength) in
/-- An entity of the store is described. -/
theorem exists_describeEntity {e : Entity} (hvalid : validateIdent name "entity" = .ok ())
    (he : catalog.getEntity name = some e) :
    ∃ detail, describeEntity catalog piiBlock jsonLength name = .ok detail ∧
      detail.identity = e.identity := by
  obtain ⟨t, ht⟩ := Store.exists_getTable he
  rw [describeEntity, hvalid]
  simp only [he, ht]
  exact ⟨_, rfl, rfl⟩

/-- The placeholders of a described entity are those of its described table. -/
theorem labels_describeEntity {detail : EntityDetail} {tableLength : TableDescription → Nat}
    {d : TableDescription} (h : describeEntity catalog piiBlock jsonLength name = .ok detail)
    (hd : describeTable catalog piiBlock tableLength detail.qualifiedTable = .ok d) :
    detail.columns.map (·.label) = d.columns.map (·.label) := by
  obtain ⟨-, e, t, -, htable, -, hqualified, hcolumns⟩ := describeEntity_ok h
  obtain ⟨key, t', hparse, htable', hshown⟩ := describeTable_ok hd
  have hident := e.binding_ident
  rw [Bool.and_eq_true] at hident
  rw [hqualified, parseQualifiedName_text_iff hident.1 hident.2] at hparse
  obtain rfl := hparse.1
  obtain rfl := Option.some.inj (htable.symm.trans htable')
  rw [describeTableAs, describeColumns_eq] at hshown
  have hqualified' : t.qualified = e.binding := by simpa using List.find?_some htable
  rw [hcolumns, labels_describeEntityColumns, (Prod.mk.inj hshown).1, map_label, hqualified]
  simp [length_placeholders, maskCategories]

/-- The identity of the entity that a name means is no column that the renaming changes. -/
def IdentityKept (catalog : Catalog) (ρ : Renaming) (name : String) : Prop :=
  validateIdent name "entity" = .ok () →
    ∀ e, catalog.getEntity name = some e → ρ e.binding.text e.identity = e.identity

/-- Renamed stores describe an entity alike if they name its identity alike. -/
theorem Renames.describeEntity_eq (h : Renames catalog piiBlock ρ catalog')
    (hidentity : IdentityKept catalog ρ name) :
    describeEntity catalog' piiBlock jsonLength name =
      describeEntity catalog piiBlock jsonLength name := by
  have hentity := h.getEntity name
  unfold describeEntity
  split
  · rfl
  · next hvalid =>
    cases hfound : catalog.getEntity name with
    | none =>
      rw [hfound] at hentity
      rw [rel_none hentity]
    | some e =>
      obtain ⟨e', hfound', he⟩ := rel_some (hfound ▸ hentity)
      obtain ⟨t, ht⟩ := Store.exists_getTable hfound
      obtain ⟨t', ht', htable⟩ := rel_some (ht ▸ h.getTable e.binding)
      have hidentity' : e'.identity = e.identity := he.identity.1.trans (hidentity hvalid e hfound)
      have hqualified : t.qualified = e.binding := by simpa using List.find?_some ht
      simp only [hfound', he.binding, ht, ht', he.name, hidentity', h.entityNotes,
        h.describeEntityColumns _ (hqualified ▸ htable.columns)]

/-- `describe_entity` gives the same answer in both stores, and numbers the placeholders of
its columns as `describe_table` does. -/
structure HidesNames (catalog catalog' : Catalog) (piiBlock : List PiiCategory)
    (jsonLength : EntityDetail → Nat) (tableLength : TableDescription → Nat) (name : String) :
    Prop where
  same : describeEntity catalog' piiBlock jsonLength name =
    describeEntity catalog piiBlock jsonLength name
  labels : ∀ detail d, describeEntity catalog piiBlock jsonLength name = .ok detail →
    describeTable catalog piiBlock tableLength detail.qualifiedTable = .ok d →
    detail.columns.map (·.label) = d.columns.map (·.label)

/-- A described entity hides blocked names exactly if its identity is none of those renamed. -/
theorem hidesNames_iff {tableLength : TableDescription → Nat}
    (h : Renames catalog piiBlock ρ catalog') :
    HidesNames catalog catalog' piiBlock jsonLength tableLength name ↔
      IdentityKept catalog ρ name := by
  constructor
  · intro hhides hvalid e hentity
    obtain ⟨e', hentity', he⟩ := rel_some (hentity ▸ h.getEntity name)
    obtain ⟨detail, hdetail, hidentity⟩ :=
      exists_describeEntity piiBlock jsonLength hvalid hentity
    obtain ⟨detail', hdetail', hidentity'⟩ :=
      exists_describeEntity piiBlock jsonLength hvalid hentity'
    have heq : detail' = detail :=
      Except.ok.inj (hdetail'.symm.trans (hhides.same.trans hdetail))
    rw [← he.identity.1, ← hidentity', heq, hidentity]
  · intro hidentity
    exact ⟨h.describeEntity_eq hidentity, fun _ _ => labels_describeEntity⟩

end Renaming

/-- Citizens, known by their number in a column of some name. -/
def citizenCatalog (number : String) (h : isIdent number = true) : Catalog where
  tables := [⟨⟨"public", "citizens"⟩, [{ name := number, dataType := "text" }], []⟩]
  entities := [{ name := "citizen", binding := ⟨"public", "citizens"⟩, identity := number,
                 identity_ident := h }]
  canonicalJoins := []
  metrics := []
  columnPiiTags := [⟨"public.citizens", number, ⟨.pii, [.governmentId]⟩, .heuristic⟩]
  tables_key := List.nodup_singleton _
  entities_key := List.nodup_singleton _
  tags_key := List.nodup_singleton _
  entities_bound := by simp
  joins_source := by simp
  joins_target := by simp
  metrics_anchored := by simp

/-- The number's column under its other name. -/
def numberRenaming : Renaming := fun _ => Equiv.swap "ssn" "tax_id"

private theorem renames_citizens :
    Renames (citizenCatalog "ssn" rfl) [] numberRenaming (citizenCatalog "tax_id" rfl) := by
  have hname : Renamed (citizenCatalog "ssn" rfl) [] numberRenaming "public.citizens" "ssn"
      "tax_id" := by
    refine ⟨(Equiv.swap_apply_left _ _).symm, .inr ?_⟩
    decide
  constructor
  · exact .cons
      ⟨rfl, .cons ⟨hname, rfl, rfl, rfl, rfl, fun _ => rfl, fun _ => rfl⟩ .nil, .nil⟩ .nil
  · exact .cons ⟨rfl, hname, rfl, rfl⟩ .nil
  · exact .cons ⟨rfl, rfl, hname⟩ .nil
  · exact .nil
  · exact .nil
  · rfl
  · rfl

theorem hidesNames_iff_citizens :
    HidesNames (citizenCatalog "ssn" rfl) (citizenCatalog "tax_id" rfl) [] (fun _ => 0)
        (fun _ => 0) "citizen" ↔
      IdentityKept (citizenCatalog "ssn" rfl) numberRenaming "citizen" :=
  hidesNames_iff renames_citizens

/-- The name of the number's column is the identity of the described entity. -/
theorem not_hidesNames_citizens :
    ¬ ∀ (catalog catalog' : Catalog) (piiBlock : List PiiCategory) (ρ : Renaming)
      (jsonLength : EntityDetail → Nat) (tableLength : TableDescription → Nat) (name : String),
      Renames catalog piiBlock ρ catalog' →
        HidesNames catalog catalog' piiBlock jsonLength tableLength name := by
  intro hall
  have hsame := (hall _ _ [] numberRenaming (fun _ => 0) (fun _ => 0) "citizen"
    renames_citizens).same
  have hidentity := congrArg (fun d => d.toOption.map (·.identity)) hsame
  revert hidentity
  decide

end SchemaBrain.Mcp
