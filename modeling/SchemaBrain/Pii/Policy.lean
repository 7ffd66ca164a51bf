import SchemaBrain.Core.TagOverrides

/-!
# Policies and their application

`pii/policy.py`, and the part of `policy apply` that writes to the store. An override replaces
the row of its column; nothing is ever removed.
-/

namespace SchemaBrain.Pii

open Base Core

/-! ## Overrides -/

/-- The three parts of a full match of `_QUALIFIED_COLUMN_RE`. -/
def parseColumnPath (text : String) : Option (String × String × String) :=
  let (schema, rest) := splitDot text
  match parseQualifiedColumn rest with
  | none => none
  | some (table, column) =>
    if '.' ∈ text.toList ∧ isIdent schema then some (schema, table, column) else none

/-- A path of three identifiers is read as them. -/
theorem parseColumnPath_idents {schema table column : String} (hschema : isIdent schema = true)
    (htable : isIdent table = true) (hcolumn : isIdent column = true) :
    parseColumnPath (schema ++ "." ++ table ++ "." ++ column) = some (schema, table, column) := by
  have hrest : parseQualifiedColumn (table ++ "." ++ column) = some (table, column) := by
    simp [parseQualifiedColumn, splitDot_append htable, htable, hcolumn]
  have hpath : schema ++ "." ++ table ++ "." ++ column =
      schema ++ "." ++ (table ++ "." ++ column) := by
    simp only [String.append_assoc]
  rw [hpath]
  simp [parseColumnPath, splitDot_append hschema, hrest, hschema]

/-- What a path consists of. -/
theorem parseColumnPath_spec {text : String} {p : String × String × String}
    (h : parseColumnPath text = some p) :
    text = p.1 ++ "." ++ p.2.1 ++ "." ++ p.2.2 ∧ isIdent p.1 = true ∧ isIdent p.2.1 = true ∧
      isIdent p.2.2 = true := by
  unfold parseColumnPath at h
  dsimp only at h
  split at h
  · simp at h
  · next table column hrest =>
    split at h
    · next hdot =>
      obtain rfl := Option.some.inj h
      obtain ⟨htable, hcolumn⟩ := parseQualifiedColumn_ident hrest
      refine ⟨?_, hdot.2, htable, hcolumn⟩
      calc text = (splitDot text).1 ++ "." ++ (splitDot text).2 := (splitDot_join hdot.1).symm
        _ = (splitDot text).1 ++ "." ++ table ++ "." ++ column := by
          rw [← (parseQualifiedColumn_spec hrest).2]
          simp only [String.append_assoc]
    · simp at h

/-- `ColumnOverride`. -/
structure ColumnOverride where
  qualifiedColumn : String
  tag : ColumnPiiTag
  path_ident : (parseColumnPath qualifiedColumn).isSome = true := by decide
  deriving DecidableEq

namespace ColumnOverride

/-- `qualified_table`. -/
def qualifiedTable (o : ColumnOverride) : String :=
  (splitDot o.qualifiedColumn).1 ++ "." ++ (splitDot (splitDot o.qualifiedColumn).2).1

/-- `column_name`. -/
def columnName (o : ColumnOverride) : String := (splitDot (splitDot o.qualifiedColumn).2).2

/-- The parts of an override's path. -/
theorem parts {o : ColumnOverride} {schema table column : String} (hschema : isIdent schema = true)
    (htable : isIdent table = true)
    (hkey : o.qualifiedColumn = schema ++ "." ++ table ++ "." ++ column) :
    o.qualifiedTable = schema ++ "." ++ table ∧ o.columnName = column := by
  have hsplit : splitDot o.qualifiedColumn = (schema, table ++ "." ++ column) := by
    rw [hkey, ← splitDot_append hschema]
    simp only [String.append_assoc]
  rw [qualifiedTable, columnName, hsplit, splitDot_append htable]
  exact ⟨rfl, rfl⟩

/-- The key of an override is its two parts. -/
theorem text_eq (o : ColumnOverride) :
    o.qualifiedTable ++ "." ++ o.columnName = o.qualifiedColumn := by
  obtain ⟨p, hpath⟩ := Option.isSome_iff_exists.1 o.path_ident
  obtain ⟨htext, hschema, htable, -⟩ := parseColumnPath_spec hpath
  obtain ⟨htableText, hcolumn⟩ := parts hschema htable htext
  rw [htableText, hcolumn, htext]

/-- Overrides of one column of one table have one key. -/
theorem qualifiedColumn_congr {o o' : ColumnOverride}
    (htable : o.qualifiedTable = o'.qualifiedTable) (hcolumn : o.columnName = o'.columnName) :
    o.qualifiedColumn = o'.qualifiedColumn := by
  rw [← o.text_eq, ← o'.text_eq, htable, hcolumn]

end ColumnOverride

/-- `Policy`. -/
structure Policy where
  block : List PiiCategory
  columnOverrides : List ColumnOverride
  description : String := ""
  overrides_key : (columnOverrides.map (·.qualifiedColumn)).Nodup := by
    first | exact List.nodup_nil | decide
  deriving DecidableEq

namespace Policy

/-- The override of one column. -/
def overrideFor (p : Policy) (qualifiedTable columnName : String) : Option ColumnOverride :=
  p.columnOverrides.find? fun o =>
    o.qualifiedTable = qualifiedTable ∧ o.columnName = columnName

theorem overrideFor_eq_some_iff {p : Policy} {qualifiedTable columnName : String}
    {o : ColumnOverride} :
    p.overrideFor qualifiedTable columnName = some o ↔
      o ∈ p.columnOverrides ∧ o.qualifiedTable = qualifiedTable ∧ o.columnName = columnName := by
  constructor
  · intro h
    exact ⟨List.mem_of_find?_eq_some h, by simpa using List.find?_some h⟩
  · rintro ⟨ho, rfl, rfl⟩
    cases hfound : p.overrideFor o.qualifiedTable o.columnName with
    | none => exact absurd (List.find?_eq_none.1 hfound o ho) (by simp)
    | some o' =>
      have hkey : o'.qualifiedTable = o.qualifiedTable ∧ o'.columnName = o.columnName := by
        simpa using List.find?_some hfound
      rw [List.inj_on_of_nodup_map p.overrides_key (List.mem_of_find?_eq_some hfound) ho
        (ColumnOverride.qualifiedColumn_congr hkey.1 hkey.2)]

end Policy

/-! ## Application -/

/-- The row that an override writes. -/
def ColumnOverride.row (o : ColumnOverride) : ColumnPiiTagRow :=
  ⟨o.qualifiedTable, o.columnName, o.tag, .operator⟩

/-- The loop of `_cmd_policy_apply`: it returns at the first refused override, whose error it
prints, and keeps what it has written. -/
def applyOverrides (force : Bool) (s : IndexedStore) :
    List ColumnOverride → IndexedStore × Option CatastrophicDowngradeError
  | [] => (s, none)
  | o :: rest =>
    match s.upsertColumnPiiTagOverride o.qualifiedTable o.columnName o.tag force with
    | .error e => (s, some e)
    | .ok s' => applyOverrides force s' rest

/-- `_cmd_policy_apply` of a parsed policy on its source: the store, and the refusal that makes
it return 2 instead of 0. -/
def policyApply (s : IndexedStore) (policy : Policy) (force : Bool := false) :
    IndexedStore × Option CatastrophicDowngradeError :=
  applyOverrides force s policy.columnOverrides

theorem applyOverrides_ok_cons {force : Bool} {s s' : IndexedStore} {o : ColumnOverride}
    {rest : List ColumnOverride} (h : applyOverrides force s (o :: rest) = (s', none)) :
    ∃ s₁, s.upsertColumnPiiTagOverride o.qualifiedTable o.columnName o.tag force = .ok s₁ ∧
      applyOverrides force s₁ rest = (s', none) := by
  rw [applyOverrides] at h
  split at h
  · simp at h
  · next s₁ hupsert => exact ⟨s₁, hupsert, h⟩

/-- Overrides with different keys that keep the floors of their rows are all written. -/
theorem exists_applyOverrides {force : Bool} {s : IndexedStore} {overrides : List ColumnOverride}
    (hkeys : (overrides.map (·.qualifiedColumn)).Nodup)
    (hkeep : ∀ o ∈ overrides, ∀ r, s.tagRow o.qualifiedTable o.columnName = some r →
      r.tag.meetsFloor = true → o.tag.meetsFloor = true) :
    ∃ s', applyOverrides force s overrides = (s', none) := by
  induction overrides generalizing s with
  | nil => exact ⟨s, rfl⟩
  | cons o rest ih =>
    rw [List.map_cons, List.nodup_cons] at hkeys
    obtain ⟨s₁, hs₁⟩ := IndexedStore.exists_upsert force (hkeep o List.mem_cons_self)
    have hrest : ∀ o' ∈ rest, ∀ r, s₁.tagRow o'.qualifiedTable o'.columnName = some r →
        r.tag.meetsFloor = true → o'.tag.meetsFloor = true := by
      intro o' ho' r hr
      rw [IndexedStore.tagRow_upsert hs₁] at hr
      split at hr
      · next hkey =>
        exact absurd (List.mem_map.2 ⟨o', ho', ColumnOverride.qualifiedColumn_congr hkey.1 hkey.2⟩)
          hkeys.1
      · exact hkeep o' (List.mem_cons_of_mem _ ho') r hr
    obtain ⟨s', hs'⟩ := ih hkeys.2 hrest
    refine ⟨s', ?_⟩
    rw [applyOverrides, hs₁]
    exact hs'

/-- Overrides with different keys that are all written leave their rows, and every other row
as it was. -/
theorem tagRow_applyOverrides {force : Bool} {s s' : IndexedStore}
    {overrides : List ColumnOverride} (hkeys : (overrides.map (·.qualifiedColumn)).Nodup)
    (h : applyOverrides force s overrides = (s', none)) (table column : String) :
    s'.tagRow table column =
      match overrides.find? (fun o => o.qualifiedTable = table ∧ o.columnName = column) with
      | some o => some o.row
      | none => s.tagRow table column := by
  induction overrides generalizing s with
  | nil =>
    obtain ⟨rfl, -⟩ := Prod.mk.inj h
    rfl
  | cons o rest ih =>
    obtain ⟨s₁, hupsert, hrest⟩ := applyOverrides_ok_cons h
    rw [List.map_cons, List.nodup_cons] at hkeys
    rw [ih hkeys.2 hrest, IndexedStore.tagRow_upsert hupsert]
    by_cases hkey : o.qualifiedTable = table ∧ o.columnName = column
    · obtain ⟨rfl, rfl⟩ := hkey
      -- No later override has this key.
      have hnone : rest.find? (fun o' => o'.qualifiedTable = o.qualifiedTable ∧
          o'.columnName = o.columnName) = none := by
        rw [List.find?_eq_none]
        intro o' ho' hkey
        rw [decide_eq_true_eq] at hkey
        exact hkeys.1 (ColumnOverride.qualifiedColumn_congr hkey.1 hkey.2 ▸
          List.mem_map_of_mem ho')
      rw [hnone, List.find?_cons_of_pos (by simp)]
      exact if_pos ⟨rfl, rfl⟩
    · have hother : ¬ (table = o.qualifiedTable ∧ column = o.columnName) := fun heq =>
        hkey ⟨heq.1.symm, heq.2.symm⟩
      rw [List.find?_cons_of_neg (by simpa using hkey), if_neg hother]

/-- A policy that is applied leaves the rows of its overrides, and every other row as it was. -/
theorem tagRow_policyApply {force : Bool} {s s' : IndexedStore} {policy : Policy}
    (h : policyApply s policy force = (s', none)) (table column : String) :
    s'.tagRow table column =
      match policy.overrideFor table column with
      | some o => some o.row
      | none => s.tagRow table column :=
  tagRow_applyOverrides policy.overrides_key h table column

/-- Overrides change tag rows only. -/
theorem applyOverrides_frame {force : Bool} {s s' : IndexedStore}
    {overrides : List ColumnOverride} {refusal : Option CatastrophicDowngradeError}
    (h : applyOverrides force s overrides = (s', refusal)) :
    s'.tables = s.tables ∧ s'.fingerprints = s.fingerprints := by
  induction overrides generalizing s with
  | nil =>
    obtain ⟨rfl, -⟩ := Prod.mk.inj h
    exact ⟨rfl, rfl⟩
  | cons o rest ih =>
    rw [applyOverrides] at h
    split at h
    · obtain ⟨rfl, -⟩ := Prod.mk.inj h
      exact ⟨rfl, rfl⟩
    · next s₁ hupsert =>
      have hframe : s₁.tables = s.tables ∧ s₁.fingerprints = s.fingerprints := by
        simp only [IndexedStore.upsertColumnPiiTagOverride] at hupsert
        split at hupsert
        · simp at hupsert
        · obtain rfl := Except.ok.inj hupsert
          exact ⟨rfl, rfl⟩
      exact ⟨(ih h).1.trans hframe.1, (ih h).2.trans hframe.2⟩

end SchemaBrain.Pii
