import SchemaBrain.Base.Run
import SchemaBrain.Pii.PolicyYaml
import SchemaBrain.Web.PolicyEditor

/-!
# Editing a policy

The edits that the grid and the category strip offer, in any order, and the query that the staged
state is previewed with.
-/

namespace SchemaBrain.Web

open Base Core Pii

/-! ## The preview's query -/

/-- The UTF-16 code units of a text. -/
def utf16 (text : String) : List Nat :=
  text.toList.flatMap fun c =>
    if c.toNat < 0x10000 then [c.toNat]
    else [0xD800 + (c.toNat - 0x10000) / 0x400, 0xDC00 + (c.toNat - 0x10000) % 0x400]

/-- `strings.sort()`. -/
def sortedUtf16 (strings : List String) : List String :=
  strings.insertionSort fun a b => utf16 a ≤ utf16 b

/-- `serializeOverride`. -/
def serializeOverride (qualifiedColumn : String) (override : StagedOverride) : String :=
  let categories := ",".intercalate (sortedUtf16 (override.categories.map PiiCategory.word))
  qualifiedColumn ++ "|" ++ sensitivityWord override.sensitivity ++ "|" ++ categories

/-- The `{block, override}` payload. -/
structure PreviewQuery where
  block : List String
  override : List String

/-- `buildPreviewQuery`. -/
def buildPreviewQuery (staged : Staged) : PreviewQuery where
  block := sortedUtf16 (staged.block.map PiiCategory.word)
  override := sortedUtf16 (staged.overrides.map fun entry => serializeOverride entry.1 entry.2)

/-! ## Edits -/

/-- One edit. -/
inductive EditorAction
  | applyVerb (row : PolicyColumnEntry) (verb : PolicyVerb)
  | toggleCategory (category : PiiCategory) (block : Bool)
  deriving DecidableEq

/-- An edit of the staged state; a verb is offered on a listed column that is not locked. -/
def editorStep (perColumn : List PolicyColumnEntry) (staged : Staged) :
    EditorAction → Option Staged
  | .applyVerb row verb =>
    if row ∈ perColumn ∧ columnVerb row.qualifiedColumn row.categories staged ≠ .floor ∧
        verb ≠ .floor then
      some (applyVerb staged row.qualifiedColumn row.categories verb)
    else none
  | .toggleCategory category block =>
    some { staged with block := toggleCategoryBlock staged.block category block }

/-- Where a staged override comes from: the column was marked safe and is not locked, or its
listed row is an operator's. -/
def StagedFrom (row : PolicyColumnEntry) (override : StagedOverride) : Prop :=
  override = markSafe ∧ columnIsFloor row.categories = false ∨
    row.origin = .operator ∧ override = ⟨row.sensitivity, row.categories⟩

/-- What holds in every session. -/
structure SessionInv (perColumn : List PolicyColumnEntry) (overrides : StagedOverrides) :
    Prop where
  keys : (overrides.map (·.1)).Nodup
  listed : ∀ entry ∈ overrides, ∃ row ∈ perColumn,
    row.qualifiedColumn = entry.1 ∧ StagedFrom row entry.2

/-- The locked columns are those of the floor, in every state. -/
theorem columnVerb_eq_floor_iff {qualifiedColumn : String} {categories : List PiiCategory}
    {staged : Staged} :
    columnVerb qualifiedColumn categories staged = .floor ↔ columnIsFloor categories = true := by
  unfold columnVerb
  split
  · next hfloor => simp [hfloor]
  · next hfloor =>
    rw [iff_false_right hfloor]
    dsimp only
    split
    · simp
    · split
      · split <;> simp
      · simp

section

variable {perColumn : List PolicyColumnEntry} {overrides : StagedOverrides} {staged : Staged}

theorem SessionInv.delete (h : SessionInv perColumn overrides) (key : String) :
    SessionInv perColumn (overrides.delete key) where
  keys := h.keys.sublist (List.filter_sublist.map _)
  listed entry hentry := h.listed entry (List.mem_filter.1 hentry).1

theorem SessionInv.set (h : SessionInv perColumn overrides) {row : PolicyColumnEntry}
    (hrow : row ∈ perColumn) {override : StagedOverride} (hfrom : StagedFrom row override) :
    SessionInv perColumn (overrides.set row.qualifiedColumn override) where
  keys := by
    rw [StagedOverrides.set, List.map_append, List.map_singleton, List.nodup_append_comm]
    refine List.nodup_cons.2 ⟨?_, (h.delete _).keys⟩
    intro hmem
    obtain ⟨entry, hentry, hkey⟩ := List.mem_map.1 hmem
    exact of_decide_eq_true (List.mem_filter.1 hentry).2 hkey
  listed entry hentry := by
    rcases List.mem_append.1 hentry with hold | hnew
    · exact (h.delete _).listed entry hold
    · rw [List.mem_singleton.1 hnew]
      exact ⟨row, hrow, rfl, hfrom⟩

theorem SessionInv.mono {perColumn' : List PolicyColumnEntry} (h : SessionInv perColumn overrides)
    (hsub : perColumn ⊆ perColumn') : SessionInv perColumn' overrides where
  keys := h.keys
  listed entry hentry := by
    obtain ⟨row, hrow, hspec⟩ := h.listed entry hentry
    exact ⟨row, hsub hrow, hspec⟩

theorem sessionInv_initial (perColumn : List PolicyColumnEntry) :
    SessionInv perColumn (initialOverridesFromPerColumn perColumn) := by
  induction perColumn using List.reverseRecOn with
  | nil => exact ⟨List.nodup_nil, by simp [initialOverridesFromPerColumn]⟩
  | append_singleton rows row ih =>
    have hrows : SessionInv (rows ++ [row]) (initialOverridesFromPerColumn rows) :=
      ih.mono (List.subset_append_left _ _)
    unfold initialOverridesFromPerColumn at hrows ⊢
    rw [List.foldl_append, List.foldl_cons, List.foldl_nil]
    split
    · next horigin => exact hrows.set (by simp) (.inr ⟨horigin, rfl⟩)
    · exact hrows

/-- Every edit keeps the invariant. -/
theorem sessionInv_step {staged' : Staged} {action : EditorAction}
    (h : SessionInv perColumn staged.overrides)
    (hstep : editorStep perColumn staged action = some staged') :
    SessionInv perColumn staged'.overrides := by
  cases action with
  | applyVerb row verb =>
    unfold editorStep at hstep
    dsimp only at hstep
    split at hstep
    · next hoffered =>
      obtain ⟨hrow, hunlocked, hverb⟩ := hoffered
      obtain rfl := Option.some.inj hstep
      cases verb with
      | block => exact h.delete _
      | redact => exact h.delete _
      | allow =>
        exact h.set hrow (.inl ⟨rfl, Bool.eq_false_iff.2 (mt columnVerb_eq_floor_iff.2 hunlocked)⟩)
      | floor => exact absurd rfl hverb
    · simp at hstep
  | toggleCategory category block =>
    obtain rfl := Option.some.inj hstep
    exact h

/-- The invariant holds in every session that starts from the listing. -/
theorem sessionInv_of_reaches {block : List PiiCategory}
    (h : Reaches (editorStep perColumn) (fun _ _ => True)
      ⟨block, initialOverridesFromPerColumn perColumn⟩ staged) :
    SessionInv perColumn staged.overrides :=
  Reaches.invariant (I := fun staged => SessionInv perColumn staged.overrides) _
    (sessionInv_initial perColumn) (fun hinv _ hstep => sessionInv_step hinv hstep) h

/-! ## Verbs and siblings -/

/-- The verb of a column depends on the blocked categories and its own override. -/
theorem columnVerb_congr {staged' : Staged} {qualifiedColumn : String}
    (hblock : staged'.block = staged.block)
    (hlookup : staged'.overrides.lookup qualifiedColumn = staged.overrides.lookup qualifiedColumn)
    (categories : List PiiCategory) :
    columnVerb qualifiedColumn categories staged' =
      columnVerb qualifiedColumn categories staged := by
  unfold columnVerb effectiveCategories
  rw [hblock, hlookup]

/-- A column is shown as blocked or locked exactly when its effective or its own categories are. -/
theorem columnVerb_blocked_iff {qualifiedColumn : String} {categories : List PiiCategory} :
    columnVerb qualifiedColumn categories staged = .block ∨
        columnVerb qualifiedColumn categories staged = .floor ↔
      columnIsFloor categories = true ∨
        ∃ c ∈ effectiveCategories categories staged.overrides qualifiedColumn,
          c ∈ staged.block := by
  unfold columnVerb
  split
  · next hfloor => simp [hfloor]
  · next hfloor =>
    rw [Bool.not_eq_true] at hfloor
    dsimp only
    split
    · next hblocked =>
      obtain ⟨c, hc, hblock⟩ := List.any_eq_true.1 hblocked
      simp only [true_or, true_iff]
      exact .inr ⟨c, hc, of_decide_eq_true hblock⟩
    · next hopen =>
      have hnone : ¬ ∃ c ∈ effectiveCategories categories staged.overrides qualifiedColumn,
          c ∈ staged.block := by
        rintro ⟨c, hc, hblock⟩
        exact hopen (List.any_eq_true.2 ⟨c, hc, decide_eq_true hblock⟩)
      simp only [hfloor, hnone, Bool.false_eq_true, or_false, iff_false]
      split
      · split <;> simp
      · simp

/-- The columns, other than one, that are not locked and show another verb in another state. -/
def movedColumns (perColumn : List PolicyColumnEntry) (qualifiedColumn : String)
    (staged staged' : Staged) : List PolicyColumnEntry :=
  perColumn.filter fun row =>
    row.qualifiedColumn ≠ qualifiedColumn ∧ columnIsFloor row.categories = false ∧
      columnVerb row.qualifiedColumn row.categories staged ≠
        columnVerb row.qualifiedColumn row.categories staged'

/-- The disclosed number is that of the columns which the opposite verb moves. -/
theorem siblingsAffectedByVerb_eq {verb : PolicyVerb} (hverb : verb ≠ .allow)
    (qualifiedColumn : String) (categories : List PiiCategory) :
    siblingsAffectedByVerb perColumn qualifiedColumn categories verb staged =
      (movedColumns perColumn qualifiedColumn staged
        (applyVerb staged qualifiedColumn categories (oppositeVerb verb))).length := by
  rw [siblingsAffectedByVerb, if_neg hverb, movedColumns]
  dsimp only
  induction perColumn using List.reverseRecOn with
  | nil => rfl
  | append_singleton rows row ih =>
    rw [List.foldl_append, List.foldl_cons, List.foldl_nil, ih, List.filter_append,
      List.length_append, List.filter_singleton]
    by_cases hkey : row.qualifiedColumn = qualifiedColumn
    · simp [hkey]
    · cases hfloor : columnIsFloor row.categories with
      | true => simp [hkey]
      | false =>
        simp only [hkey, if_false, Bool.false_eq_true, ne_eq, not_false_eq_true, true_and]
        split <;> simp_all

/-- `allow` moves no other column. -/
theorem movedColumns_allow (qualifiedColumn : String) (categories : List PiiCategory) :
    movedColumns perColumn qualifiedColumn staged
      (applyVerb staged qualifiedColumn categories .allow) = [] := by
  rw [movedColumns, List.filter_eq_nil_iff]
  intro row _ hmoved
  obtain ⟨hkey, -, hverb⟩ := of_decide_eq_true hmoved
  have hblock : (applyVerb staged qualifiedColumn categories .allow).block = staged.block := rfl
  have hlookup : (applyVerb staged qualifiedColumn categories .allow).overrides.lookup
      row.qualifiedColumn = staged.overrides.lookup row.qualifiedColumn :=
    (lookup_set _ _ _ _).trans (if_neg hkey)
  exact hverb (columnVerb_congr hblock hlookup _).symm

end

end SchemaBrain.Web
