import Mathlib.Data.List.Induction
import SchemaBrain.Base.Python
import SchemaBrain.Core.TagOverrides

/-!
# The policy editor

`web/lib/policy.ts` over the listing of `/api/pii/policy`. A verb per column is projected on a
set of blocked categories and a map of staged overrides. The entries of a `Map` or a `Set` are
read by key or sorted, so their order is left open.
-/

namespace SchemaBrain.Web

open Base Core

/-! ## The listing -/

/-- `PolicyColumnEntry`. -/
structure PolicyColumnEntry where
  qualifiedTable : String
  columnName : String
  qualifiedColumn : String
  sensitivity : Sensitivity
  categories : List PiiCategory
  origin : TagOrigin
  deriving DecidableEq, Repr

/-- `sorted` of a set of categories, by their words. -/
def sortedCategories (categories : List PiiCategory) : List PiiCategory :=
  categories.insertionSort fun c d => c.word ≤ d.word

/-- One row of `per_column`. -/
def columnEntry (r : ColumnPiiTagRow) : PolicyColumnEntry where
  qualifiedTable := r.qualifiedTable
  columnName := r.columnName
  qualifiedColumn := r.qualifiedTable ++ "." ++ r.columnName
  sensitivity := r.tag.sensitivity
  categories := sortedCategories r.tag.categories
  origin := r.origin

/-- `per_column`: the rows by table and column. -/
def perColumn (store : Store) : List PolicyColumnEntry :=
  (store.columnPiiTags.insertionSort fun r r' =>
    r.qualifiedTable < r'.qualifiedTable ∨
      r.qualifiedTable = r'.qualifiedTable ∧ r.columnName ≤ r'.columnName).map columnEntry

/-! ## Staged state -/

/-- `StagedOverride`. -/
abbrev StagedOverride := ColumnPiiTag

/-- `StagedOverrides`, a `Map` by qualified column. -/
abbrev StagedOverrides := List (String × StagedOverride)

/-- `map.delete(key)`. -/
def StagedOverrides.delete (overrides : StagedOverrides) (key : String) : StagedOverrides :=
  overrides.filter (·.1 ≠ key)

/-- `map.set(key, value)`. -/
def StagedOverrides.set (overrides : StagedOverrides) (key : String) (value : StagedOverride) :
    StagedOverrides :=
  overrides.delete key ++ [(key, value)]

/-- `set.add(category)`. -/
def addCategory (block : List PiiCategory) (category : PiiCategory) : List PiiCategory :=
  if category ∈ block then block else block ++ [category]

/-- `set.delete(category)`. -/
def deleteCategory (block : List PiiCategory) (category : PiiCategory) : List PiiCategory :=
  block.filter (· ≠ category)

/-- What the editor holds. -/
structure Staged where
  block : List PiiCategory
  overrides : StagedOverrides
  deriving DecidableEq, Repr

/-- `initialOverridesFromPerColumn`. -/
def initialOverridesFromPerColumn (perColumn : List PolicyColumnEntry) : StagedOverrides :=
  perColumn.foldl (fun overrides row =>
    if row.origin = .operator then
      overrides.set row.qualifiedColumn ⟨row.sensitivity, row.categories⟩
    else overrides) []

/-! ## Verbs -/

/-- `PolicyVerb | "floor"`. -/
inductive PolicyVerb
  | block
  | redact
  | allow
  | floor
  deriving DecidableEq, Repr

/-- `columnIsFloor`. -/
def columnIsFloor (categories : List PiiCategory) : Bool :=
  categories.any (· ∈ catastrophicLeakCategories)

/-- `effectiveCategories`. -/
def effectiveCategories (baseCategories : List PiiCategory) (stagedOverrides : StagedOverrides)
    (qualifiedColumn : String) : List PiiCategory :=
  match stagedOverrides.lookup qualifiedColumn with
  | some override => override.categories
  | none => baseCategories

/-- `columnVerb`. -/
def columnVerb (qualifiedColumn : String) (baseCategories : List PiiCategory) (staged : Staged) :
    PolicyVerb :=
  if columnIsFloor baseCategories then .floor
  else
    let cats := effectiveCategories baseCategories staged.overrides qualifiedColumn
    if cats.any (· ∈ staged.block) then .block
    else
      match staged.overrides.lookup qualifiedColumn with
      | some override => if override.categories.isEmpty then .allow else .redact
      | none => .redact

/-- `MARK_SAFE_SENSITIVITY` and no category. -/
def markSafe : StagedOverride := ⟨.internal, []⟩

/-- `applyVerb`; `floor` is no argument of it. -/
def applyVerb (staged : Staged) (qualifiedColumn : String) (baseCategories : List PiiCategory) :
    PolicyVerb → Staged
  | .block =>
    ⟨baseCategories.foldl addCategory staged.block, staged.overrides.delete qualifiedColumn⟩
  | .redact =>
    ⟨baseCategories.foldl deleteCategory staged.block, staged.overrides.delete qualifiedColumn⟩
  | _ => ⟨staged.block, staged.overrides.set qualifiedColumn markSafe⟩

/-- `toggleCategoryBlock`. -/
def toggleCategoryBlock (stagedBlock : List PiiCategory) (category : PiiCategory) (block : Bool) :
    List PiiCategory :=
  if block then addCategory stagedBlock category
  else if category ∈ catastrophicLeakCategories then stagedBlock
  else deleteCategory stagedBlock category

/-- The verb that a disclosure is simulated with. -/
def oppositeVerb (verb : PolicyVerb) : PolicyVerb :=
  if verb = .block then .redact else .block

/-- `siblingsAffectedByVerb`. -/
def siblingsAffectedByVerb (perColumn : List PolicyColumnEntry) (qualifiedColumn : String)
    (baseCategories : List PiiCategory) (verb : PolicyVerb) (staged : Staged) : Nat :=
  if verb = .allow then 0
  else
    let alt := applyVerb staged qualifiedColumn baseCategories (oppositeVerb verb)
    perColumn.foldl (fun count row =>
      if row.qualifiedColumn = qualifiedColumn then count
      else if columnIsFloor row.categories then count
      else
        let before := columnVerb row.qualifiedColumn row.categories staged
        let after := columnVerb row.qualifiedColumn row.categories alt
        if before ≠ after then count + 1 else count) 0

/-! ## Maps and sets by key -/

theorem lookup_delete (overrides : StagedOverrides) (key key' : String) :
    (overrides.delete key).lookup key' = if key' = key then none else overrides.lookup key' := by
  induction overrides with
  | nil => simp [StagedOverrides.delete]
  | cons p rest ih =>
    unfold StagedOverrides.delete at ih ⊢
    by_cases hp : p.1 = key
    · rw [List.filter_cons_of_neg (by simpa using hp), ih]
      by_cases hkey : key' = key
      · rw [if_pos hkey, if_pos hkey]
      · rw [if_neg hkey, if_neg hkey, List.lookup_cons, beq_false_of_ne (hp ▸ hkey)]
    · rw [List.filter_cons_of_pos (by simpa using hp), List.lookup_cons, List.lookup_cons, ih]
      by_cases hkey : key' = key
      · rw [if_pos hkey, hkey, beq_false_of_ne (Ne.symm hp)]
        simp
      · simp [hkey]

theorem lookup_set (overrides : StagedOverrides) (key key' : String) (value : StagedOverride) :
    (overrides.set key value).lookup key' =
      if key' = key then some value else overrides.lookup key' := by
  rw [StagedOverrides.set, List.lookup_append, lookup_delete]
  by_cases hkey : key' = key
  · simp [hkey]
  · simp [hkey, List.lookup_cons, beq_false_of_ne hkey]

theorem mem_addCategory {block : List PiiCategory} {category c : PiiCategory} :
    c ∈ addCategory block category ↔ c ∈ block ∨ c = category := by
  unfold addCategory
  split
  · next hmem =>
    constructor
    · exact .inl
    · rintro (h | rfl)
      · exact h
      · exact hmem
  · simp

theorem mem_deleteCategory {block : List PiiCategory} {category c : PiiCategory} :
    c ∈ deleteCategory block category ↔ c ∈ block ∧ c ≠ category := by
  simp [deleteCategory]

theorem mem_sortedCategories {categories : List PiiCategory} {c : PiiCategory} :
    c ∈ sortedCategories categories ↔ c ∈ categories :=
  (List.perm_insertionSort _ _).mem_iff

theorem mem_perColumn {store : Store} {entry : PolicyColumnEntry} :
    entry ∈ perColumn store ↔ ∃ r ∈ store.columnPiiTags, columnEntry r = entry := by
  rw [perColumn, List.mem_map]
  exact exists_congr fun r => and_congr_left fun _ => (List.perm_insertionSort _ _).mem_iff

/-- The override that the editor starts from for a key: that of the last operator's row. -/
theorem lookup_initialOverrides (entries : List PolicyColumnEntry) (key : String) :
    (initialOverridesFromPerColumn entries).lookup key =
      (entries.reverse.find? fun row => row.origin = .operator ∧ row.qualifiedColumn = key).map
        fun row => ⟨row.sensitivity, row.categories⟩ := by
  induction entries using List.reverseRecOn with
  | nil => rfl
  | append_singleton entries row ih =>
    unfold initialOverridesFromPerColumn at ih ⊢
    rw [List.foldl_append, List.reverse_append, List.reverse_singleton, List.singleton_append]
    simp only [List.foldl_cons, List.foldl_nil]
    by_cases horigin : row.origin = .operator
    · rw [if_pos horigin, lookup_set]
      by_cases hkey : key = row.qualifiedColumn
      · rw [if_pos hkey, List.find?_cons_of_pos (by simp [horigin, hkey])]
        rfl
      · rw [if_neg hkey, ih, List.find?_cons_of_neg (by simp [horigin, Ne.symm hkey])]
    · rw [if_neg horigin, ih, List.find?_cons_of_neg (by simp [horigin])]

end SchemaBrain.Web
