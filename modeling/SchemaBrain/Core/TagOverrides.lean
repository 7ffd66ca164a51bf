import SchemaBrain.Base.Python
import SchemaBrain.Core.StoreWrites

/-!
# Operator tags

`upsert_column_pii_tag_override` and `delete_column_pii_tag_override`. One row per column is
shared with `write_column_pii_tags`; each write is described by the row that it leaves under
every key.
-/

namespace SchemaBrain.Core

open Base

/-! ## The row of one column -/

namespace Store

variable (store : Store)

/-- The tag row of one column. -/
def tagRow (qualifiedTable columnName : String) : Option ColumnPiiTagRow :=
  store.columnPiiTags.find? fun r => r.qualifiedTable = qualifiedTable ∧ r.columnName = columnName

variable {store}

private theorem find?_eq_some_iff_of_key {rows : List ColumnPiiTagRow}
    (hrows : (rows.map fun r => (r.qualifiedTable, r.columnName)).Nodup) (key : String × String)
    {p : ColumnPiiTagRow → Bool}
    (hp : ∀ r, p r = true → (r.qualifiedTable, r.columnName) = key) {r : ColumnPiiTagRow} :
    rows.find? p = some r ↔ r ∈ rows ∧ p r = true := by
  constructor
  · exact fun h => ⟨List.mem_of_find?_eq_some h, List.find?_some h⟩
  · rintro ⟨hr, hpr⟩
    cases hfound : rows.find? p with
    | none => exact absurd hpr (List.find?_eq_none.1 hfound r hr)
    | some r' =>
      have hkey := (hp r' (List.find?_some hfound)).trans (hp r hpr).symm
      rw [List.inj_on_of_nodup_map hrows (List.mem_of_find?_eq_some hfound) hr hkey]

/-- A row is read under its key. -/
theorem tagRow_eq_some_iff {qualifiedTable columnName : String} {r : ColumnPiiTagRow} :
    store.tagRow qualifiedTable columnName = some r ↔
      r ∈ store.columnPiiTags ∧ r.qualifiedTable = qualifiedTable ∧ r.columnName = columnName := by
  rw [tagRow, find?_eq_some_iff_of_key store.tags_key (qualifiedTable, columnName)
    (by simp), decide_eq_true_eq]

/-- The operator's row of a column, where its row is one. -/
theorem find?_operator_eq_some_iff {qualifiedTable columnName : String} {r : ColumnPiiTagRow} :
    (store.columnPiiTags.find? fun r =>
      r.qualifiedTable = qualifiedTable ∧ r.columnName = columnName ∧ r.origin = .operator) =
        some r ↔
      store.tagRow qualifiedTable columnName = some r ∧ r.origin = .operator := by
  rw [find?_eq_some_iff_of_key store.tags_key (qualifiedTable, columnName)
    (by simp +contextual), tagRow_eq_some_iff, decide_eq_true_eq, and_assoc, and_assoc]

/-- Stores whose rows of a column are the same read the same row. -/
theorem tagRow_congr {store' : Store} {qualifiedTable columnName : String}
    (h : ∀ r : ColumnPiiTagRow, r.qualifiedTable = qualifiedTable → r.columnName = columnName →
      (r ∈ store'.columnPiiTags ↔ r ∈ store.columnPiiTags)) :
    store'.tagRow qualifiedTable columnName = store.tagRow qualifiedTable columnName := by
  refine Option.ext fun r => ?_
  rw [tagRow_eq_some_iff, tagRow_eq_some_iff]
  exact and_congr_left fun hkey => h r hkey.1 hkey.2

/-- The overridden columns are those whose row is an operator's. -/
theorem mem_overridden_iff_tagRow {qualifiedTable columnName : String} :
    columnName ∈ store.overridden qualifiedTable ↔
      ∃ r, store.tagRow qualifiedTable columnName = some r ∧ r.origin = .operator := by
  simp only [mem_overridden, tagRow_eq_some_iff]
  constructor
  · rintro ⟨r, hr, htable, horigin, hcolumn⟩
    exact ⟨r, ⟨hr, htable, hcolumn⟩, horigin⟩
  · rintro ⟨r, ⟨hr, htable, hcolumn⟩, horigin⟩
    exact ⟨r, hr, htable, horigin, hcolumn⟩

end Store

/-! ## The catastrophic floor -/

/-- `CATASTROPHIC_LEAK_CATEGORIES & categories`. -/
def floorCategories (categories : List PiiCategory) : List PiiCategory :=
  catastrophicLeakCategories.filter (· ∈ categories)

/-- The categories contain one of the floor. -/
def ColumnPiiTag.meetsFloor (tag : ColumnPiiTag) : Bool := !(floorCategories tag.categories).isEmpty

/-- `CatastrophicDowngradeError`. -/
structure CatastrophicDowngradeError where
  qualifiedTable : String
  columnName : String
  droppedCategories : List PiiCategory
  deriving DecidableEq, Repr

/-- The message of a refused downgrade. -/
def CatastrophicDowngradeError.message (e : CatastrophicDowngradeError) : String :=
  "refusing to downgrade " ++ e.qualifiedTable ++ "." ++ e.columnName ++
    ": the override would strip the always-on catastrophic-leak protection (" ++
    ", ".intercalate ((e.droppedCategories.map PiiCategory.word).insertionSort (· ≤ ·)) ++
    "). Catastrophic columns stay redacted unconditionally. Re-run with " ++
    "--force-catastrophic-downgrade to override this safeguard (NOT recommended for production)."

/-! ## The two operations -/

/-- The rows of every other column. -/
def otherRows (rows : List ColumnPiiTagRow) (qualifiedTable columnName : String) :
    List ColumnPiiTagRow :=
  rows.filter fun r => ¬ (r.qualifiedTable = qualifiedTable ∧ r.columnName = columnName)

/-- `INSERT ... ON CONFLICT DO UPDATE`; no reader sees the order of the rows. -/
def upsertedTags (rows : List ColumnPiiTagRow) (qualifiedTable columnName : String)
    (tag : ColumnPiiTag) : List ColumnPiiTagRow :=
  otherRows rows qualifiedTable columnName ++ [⟨qualifiedTable, columnName, tag, .operator⟩]

/-- `DELETE ... AND origin = 'operator'`. -/
def clearedTags (rows : List ColumnPiiTagRow) (qualifiedTable columnName : String) :
    List ColumnPiiTagRow :=
  rows.filter fun r =>
    ¬ (r.qualifiedTable = qualifiedTable ∧ r.columnName = columnName ∧ r.origin = .operator)

theorem nodup_upsertedTags {rows : List ColumnPiiTagRow} {qualifiedTable columnName : String}
    {tag : ColumnPiiTag} (h : (rows.map fun r => (r.qualifiedTable, r.columnName)).Nodup) :
    ((upsertedTags rows qualifiedTable columnName tag).map
      fun r => (r.qualifiedTable, r.columnName)).Nodup := by
  rw [upsertedTags, List.map_append, List.map_singleton, List.nodup_append_comm]
  refine List.nodup_cons.2 ⟨?_, h.sublist (List.filter_sublist.map _)⟩
  intro hmem
  obtain ⟨r, hr, hkey⟩ := List.mem_map.1 hmem
  exact of_decide_eq_true (List.mem_filter.1 hr).2 (Prod.mk.inj hkey)

namespace IndexedStore

variable (s : IndexedStore)

/-- `upsert_column_pii_tag_override`. -/
def upsertColumnPiiTagOverride (qualifiedTable columnName : String) (tag : ColumnPiiTag)
    (forceCatastrophicDowngrade : Bool := false) :
    Except CatastrophicDowngradeError IndexedStore :=
  let prior := (s.getColumnPiiTag qualifiedTable columnName).map (·.categories) |>.getD []
  let dropped := floorCategories prior
  if !forceCatastrophicDowngrade && !tag.meetsFloor && !dropped.isEmpty then
    .error ⟨qualifiedTable, columnName, dropped⟩
  else
    .ok { s with
      columnPiiTags := upsertedTags s.columnPiiTags qualifiedTable columnName tag
      tags_key := nodup_upsertedTags s.tags_key }

/-- `delete_column_pii_tag_override`: the store, and whether a row was deleted. -/
def deleteColumnPiiTagOverride (qualifiedTable columnName : String)
    (forceCatastrophicDowngrade : Bool := false) :
    Except CatastrophicDowngradeError (IndexedStore × Bool) :=
  let existing := s.columnPiiTags.find? fun r =>
    r.qualifiedTable = qualifiedTable ∧ r.columnName = columnName ∧ r.origin = .operator
  let dropped := floorCategories ((existing.map (·.tag.categories)).getD [])
  if !forceCatastrophicDowngrade && !dropped.isEmpty then
    .error ⟨qualifiedTable, columnName, dropped⟩
  else
    .ok ({ s with
      columnPiiTags := clearedTags s.columnPiiTags qualifiedTable columnName
      tags_key := s.tags_key.sublist (List.filter_sublist.map _) }, existing.isSome)

/-! ## The row that each write leaves -/

variable {s} {s' : IndexedStore} {qualifiedTable columnName : String}

/-- An override replaces the row of its column and no other. -/
theorem tagRow_upsert {tag : ColumnPiiTag} {force : Bool}
    (h : s.upsertColumnPiiTagOverride qualifiedTable columnName tag force = .ok s')
    (table column : String) :
    s'.tagRow table column =
      if table = qualifiedTable ∧ column = columnName then
        some ⟨qualifiedTable, columnName, tag, .operator⟩
      else s.tagRow table column := by
  simp only [upsertColumnPiiTagOverride] at h
  split at h
  · simp at h
  · obtain rfl := Except.ok.inj h
    split
    · next hkey =>
      obtain ⟨rfl, rfl⟩ := hkey
      rw [Store.tagRow_eq_some_iff]
      exact ⟨List.mem_append_right _ (List.mem_singleton_self _), rfl, rfl⟩
    · next hkey =>
      apply Store.tagRow_congr
      rintro r rfl rfl
      simp only [upsertedTags, otherRows, List.mem_append, List.mem_filter, List.mem_singleton,
        decide_eq_true_eq]
      constructor
      · rintro (⟨hr, -⟩ | rfl)
        · exact hr
        · exact absurd ⟨rfl, rfl⟩ hkey
      · exact fun hr => .inl ⟨hr, hkey⟩

/-- An override that drops the floor is written over no row that meets it. -/
theorem meetsFloor_of_upsert {tag : ColumnPiiTag}
    (h : s.upsertColumnPiiTagOverride qualifiedTable columnName tag = .ok s')
    {r : ColumnPiiTagRow} (hr : s.tagRow qualifiedTable columnName = some r)
    (hfloor : r.tag.meetsFloor = true) : tag.meetsFloor = true := by
  have hprior : s.getColumnPiiTag qualifiedTable columnName = some r.tag := by
    simpa [Store.getColumnPiiTag, Store.tagRow] using congrArg (Option.map (·.tag)) hr
  simp only [upsertColumnPiiTagOverride, hprior] at h
  cases hdrop : tag.meetsFloor with
  | true => rfl
  | false =>
    rw [ColumnPiiTag.meetsFloor] at hfloor
    simp [hdrop, hfloor] at h

/-- An override that keeps the floor of the row it replaces is written. -/
theorem exists_upsert {tag : ColumnPiiTag} (force : Bool)
    (h : ∀ r, s.tagRow qualifiedTable columnName = some r → r.tag.meetsFloor = true →
      tag.meetsFloor = true) :
    ∃ s', s.upsertColumnPiiTagOverride qualifiedTable columnName tag force = .ok s' := by
  have hprior : s.getColumnPiiTag qualifiedTable columnName =
      (s.tagRow qualifiedTable columnName).map (·.tag) := rfl
  simp only [upsertColumnPiiTagOverride, hprior]
  split
  · next hrefused =>
    simp only [Bool.and_eq_true, Bool.not_eq_true'] at hrefused
    obtain ⟨⟨-, htag⟩, hdropped⟩ := hrefused
    cases hrow : s.tagRow qualifiedTable columnName with
    | none => simp [hrow, floorCategories] at hdropped
    | some r =>
      rw [hrow] at hdropped
      have hkept := h r hrow (by rw [ColumnPiiTag.meetsFloor, Bool.not_eq_true']; exact hdropped)
      rw [htag] at hkept
      simp at hkept
  · exact ⟨_, rfl⟩

/-- Clearing an override leaves its column without a row and every other row as it was. -/
theorem tagRow_delete {force done : Bool}
    (h : s.deleteColumnPiiTagOverride qualifiedTable columnName force = .ok (s', done))
    (table column : String) :
    s'.tagRow table column =
      (s.tagRow table column).filter fun r =>
        ¬ (table = qualifiedTable ∧ column = columnName ∧ r.origin = .operator) := by
  simp only [deleteColumnPiiTagOverride] at h
  split at h
  · simp at h
  · obtain ⟨rfl, -⟩ := Prod.mk.inj (Except.ok.inj h)
    refine Option.ext fun r => ?_
    rw [Option.filter_eq_some_iff, Store.tagRow_eq_some_iff, Store.tagRow_eq_some_iff]
    simp only [clearedTags, List.mem_filter, decide_eq_true_eq]
    constructor
    · rintro ⟨⟨hr, hkept⟩, rfl, rfl⟩
      exact ⟨⟨hr, rfl, rfl⟩, hkept⟩
    · rintro ⟨⟨hr, rfl, rfl⟩, hkept⟩
      exact ⟨⟨hr, hkept⟩, rfl, rfl⟩

/-- A row that meets the floor is not cleared. -/
theorem not_meetsFloor_of_delete {done : Bool}
    (h : s.deleteColumnPiiTagOverride qualifiedTable columnName = .ok (s', done))
    {r : ColumnPiiTagRow} (hr : s.tagRow qualifiedTable columnName = some r)
    (horigin : r.origin = .operator) : r.tag.meetsFloor = false := by
  have hexisting := Store.find?_operator_eq_some_iff.2 ⟨hr, horigin⟩
  simp only [deleteColumnPiiTagOverride, hexisting] at h
  rw [ColumnPiiTag.meetsFloor]
  by_contra hfloor
  rw [Bool.not_eq_false, Bool.not_eq_true'] at hfloor
  simp [hfloor] at h

/-- A bulk write leaves operators' rows and replaces the others of its table. -/
theorem tagRow_writeColumnPiiTags {tags : List (String × ColumnPiiTag)}
    (h : s.writeColumnPiiTags qualifiedTable tags = some s') (table column : String) :
    s'.tagRow table column =
      if table = qualifiedTable then
        (match (s.tagRow table column).filter (·.origin = .operator) with
        | some r => some r
        | none => (tags.lookup column).map fun tag => ⟨qualifiedTable, column, tag, .heuristic⟩)
      else s.tagRow table column := by
  simp only [writeColumnPiiTags] at h
  split at h
  · next hkeys =>
    obtain rfl := Option.some.inj h
    refine Option.ext fun r => ?_
    rw [Store.tagRow_eq_some_iff, Store.mem_replacedTags]
    split
    · next htable =>
      subst htable
      cases hoperator : (s.tagRow table column).filter (·.origin = .operator) with
      | some r' =>
        rw [Option.filter_eq_some_iff, decide_eq_true_eq] at hoperator
        obtain ⟨hrow, horigin⟩ := hoperator
        have hmem := Store.tagRow_eq_some_iff.1 hrow
        have hoverridden := Store.mem_overridden_iff_tagRow.2 ⟨r', hrow, horigin⟩
        rw [Option.some.injEq]
        constructor
        · rintro ⟨⟨hr, -⟩ | ⟨p, -, hfree, rfl⟩, htable, hcolumn⟩
          · rw [Store.tagRow_eq_some_iff.2 ⟨hr, htable, hcolumn⟩] at hrow
            exact (Option.some.inj hrow).symm
          · obtain rfl : p.1 = column := hcolumn
            exact absurd hoverridden hfree
        · rintro rfl
          exact ⟨.inl ⟨hmem.1, by simp [horigin]⟩, hmem.2⟩
      | none =>
        have hfree : column ∉ s.overridden table := by
          rw [Store.mem_overridden_iff_tagRow]
          rintro ⟨r', hrow, horigin⟩
          simp [hrow, horigin] at hoperator
        rw [Option.map_eq_some_iff]
        constructor
        · rintro ⟨⟨hr, hheuristic⟩ | ⟨p, hp, -, rfl⟩, htable, hcolumn⟩
          · refine absurd (Store.mem_overridden_iff_tagRow.2 ⟨r, ?_, ?_⟩) hfree
            · exact Store.tagRow_eq_some_iff.2 ⟨hr, htable, hcolumn⟩
            · cases horigin : r.origin with
              | heuristic => exact absurd ⟨htable, horigin⟩ hheuristic
              | operator => rfl
          · obtain rfl : p.1 = column := hcolumn
            exact ⟨p.2, (lookup_eq_some_iff_mem hkeys).2 hp, rfl⟩
        · rintro ⟨tag, htag, rfl⟩
          exact ⟨.inr ⟨(column, tag), (lookup_eq_some_iff_mem hkeys).1 htag, hfree, rfl⟩, rfl, rfl⟩
    · next htable =>
      rw [Store.tagRow_eq_some_iff]
      constructor
      · rintro ⟨⟨hr, -⟩ | ⟨p, -, -, rfl⟩, hrtable, hcolumn⟩
        · exact ⟨hr, hrtable, hcolumn⟩
        · exact absurd hrtable.symm htable
      · rintro ⟨hr, rfl, hcolumn⟩
        exact ⟨.inl ⟨hr, fun hheuristic => htable hheuristic.1⟩, rfl, hcolumn⟩
  · simp at h

end IndexedStore

end SchemaBrain.Core
