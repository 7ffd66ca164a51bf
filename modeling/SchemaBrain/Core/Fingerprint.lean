import SchemaBrain.Base.Json
import SchemaBrain.Base.Python
import SchemaBrain.Core.Model

/-!
# Column fingerprints

The hashes that decide whether a table is indexed again. The structural one covers every
field of a column and its foreign-key targets, the semantic one adds the profiled samples.
-/

namespace SchemaBrain.Core

open Base

/-- The profile of one column, as far as a fingerprint reads it. -/
structure ColumnStats where
  sampleValues : List String := []
  shapePatterns : List String := []
  deriving DecidableEq, Repr

/-- `PROMPT_VERSION`. -/
def promptVersion : String := "2026-06-08-1"

/-- `fk_targets_for_column`. -/
def fkTargetsForColumn (table : Table) (columnName : String) : List String :=
  pySorted ((table.foreignKeys.flatMap fun fk =>
    ((fk.sourceColumns.zip fk.targetColumns).filter (·.1 = columnName)).map fun p =>
      fk.targetSchema ++ "." ++ fk.targetTable ++ "." ++ p.2).eraseDups)

/-- A list of strings. -/
def jsonStrings (items : List String) : Json := .arr (items.map .str)

/-- The text that `_hash_json` hashes. -/
def hashedText (members : List (String × Json)) : Bytes :=
  Json.dumpsBytes Json.escapeUtf8 (.obj members)

/-- `_hash_json`, over a hash function. -/
def hashJson (H : HashFn) (members : List (String × Json)) : String :=
  hex (H (hashedText members)).val

/-- The payload of a structural fingerprint. -/
def structuralPayload (col : Column) (fkTargets : List String) : List (String × Json) := [
  ("name", .str col.name),
  ("data_type", .str col.dataType),
  ("nullable", .bool col.nullable),
  ("default", match col.default with
    | none => .null
    | some text => .str text),
  ("position", .int col.ordinalPosition),
  ("is_pk", .bool col.isPrimaryKey),
  ("fk_targets", jsonStrings (pySorted fkTargets))]

/-- `column_structural_fingerprint`. -/
def columnStructuralFingerprint (H : HashFn) (col : Column) (fkTargets : List String) : String :=
  hashJson H (structuralPayload col fkTargets)

/-- `column_semantic_fingerprint` at `PROMPT_VERSION`, which is not empty. -/
def columnSemanticFingerprint (H : HashFn) (col : Column) (fkTargets : List String)
    (stats : Option ColumnStats) : String :=
  let listed (values : ColumnStats → List String) : Json :=
    match stats with
    | none => .null
    | some stats => jsonStrings (pySorted (values stats))
  hashJson H [
    ("structural", .str (columnStructuralFingerprint H col fkTargets)),
    ("samples", listed (·.sampleValues)),
    ("shapes", listed (·.shapePatterns)),
    ("prompt_version", .str promptVersion)]

/-- The texts behind the structural fingerprints of a table. -/
def Table.structuralTexts (table : Table) : List Bytes :=
  table.columns.map fun col =>
    hashedText (structuralPayload col (fkTargetsForColumn table col.name))

/-! ## Equal fingerprints -/

private theorem sortKeysItems_str (items : List String) :
    Json.sortKeysItems (items.map .str) = items.map .str := by
  induction items with
  | nil => rw [List.map_nil, Json.sortKeysItems]
  | cons item items ih => rw [List.map_cons, Json.sortKeysItems, ih, Json.sortKeys] <;> simp

private theorem sortKeysMembers_structural (col : Column) (fkTargets : List String) :
    Json.sortKeysMembers (structuralPayload col fkTargets) = structuralPayload col fkTargets := by
  unfold structuralPayload jsonStrings
  cases col.default <;>
    simp [Json.sortKeysMembers, Json.sortKeys, sortKeysItems_str]

/-- A structural fingerprint's text determines the column. -/
theorem column_eq_of_hashedText {col col' : Column} {fkTargets fkTargets' : List String}
    (h : hashedText (structuralPayload col fkTargets) =
      hashedText (structuralPayload col' fkTargets')) : col = col' := by
  have hsorted := Json.dumpsBytes_inj h
  rw [Json.sortKeys, Json.sortKeys, sortKeysMembers_structural,
    sortKeysMembers_structural] at hsorted
  have hpayload : structuralPayload col fkTargets = structuralPayload col' fkTargets' := by
    apply Json.members_eq_of_perm
    · exact (Json.sortedMembers_perm _).symm.trans
        (Json.obj.inj hsorted ▸ Json.sortedMembers_perm _)
    · rfl
    · change (List.Nodup ["name", "data_type", "nullable", "default", "position", "is_pk",
        "fk_targets"])
      decide
  obtain ⟨name, dataType, nullable, position, default, isPrimaryKey⟩ := col
  obtain ⟨name', dataType', nullable', position', default', isPrimaryKey'⟩ := col'
  simp only [structuralPayload, List.cons.injEq, Prod.mk.injEq, Json.str.injEq, Json.bool.injEq,
    Json.int.injEq, true_and] at hpayload
  obtain ⟨rfl, rfl, rfl, hdefault, hposition, rfl, -⟩ := hpayload
  obtain rfl : position = position' := by exact_mod_cast hposition
  obtain rfl : default = default' := by
    cases default <;> cases default' <;> simp_all
  rfl

/-- Without a collision among the texts, columns of one fingerprint are one column. -/
theorem column_eq_of_fingerprint {H : HashFn} {texts : List Bytes} (hH : CollisionFreeOn H texts)
    {col col' : Column} {fkTargets fkTargets' : List String}
    (hmem : hashedText (structuralPayload col fkTargets) ∈ texts)
    (hmem' : hashedText (structuralPayload col' fkTargets') ∈ texts)
    (h : columnStructuralFingerprint H col fkTargets =
      columnStructuralFingerprint H col' fkTargets') : col = col' :=
  column_eq_of_hashedText (hH _ hmem _ hmem' (Subtype.ext (hex_injective h)))

end SchemaBrain.Core
