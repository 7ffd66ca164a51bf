import SchemaBrain.Pii.Confidence
import SchemaBrain.Indexer.TagHistory

/-!
# Confidence bands over histories

The rows of `column_pii_tags` with their bands, under the three operations that write them. A bulk
write brings the bands of its tags; an override keeps whatever band the row has.
-/

namespace SchemaBrain.Indexer

open Base Core Pii

/-- One row of `column_pii_tags` with `pii_confidence` and `pii_confidence_score`. -/
structure BandedRow extends ColumnPiiTagRow where
  band : Option PiiConfidenceBand := none
  score : Option ℚ := none

/-- The store with the bands of its tag rows. -/
structure BandedStore where
  store : IndexedStore
  rows : List BandedRow
  rows_eq : rows.map (·.toColumnPiiTagRow) = store.columnPiiTags

namespace BandedStore

/-- The rows after `write_column_pii_tags`. -/
def replacedRows (s : BandedStore) (qualifiedTable : String) (tags : List (String × ColumnPiiTag))
    (confidence : String → Option PiiConfidenceBand × Option ℚ) : List BandedRow :=
  (s.rows.filter fun r => ¬ (r.qualifiedTable = qualifiedTable ∧ r.origin = .heuristic)) ++
  (tags.filter fun p => p.1 ∉ s.store.overridden qualifiedTable).map fun p => {
    qualifiedTable := qualifiedTable
    columnName := p.1
    tag := p.2
    origin := .heuristic
    band := (confidence p.1).1
    score := (confidence p.1).2 }

/-- The row of a column. -/
def row (s : BandedStore) (qualifiedTable columnName : String) : Option BandedRow :=
  s.rows.find? fun r => r.qualifiedTable = qualifiedTable ∧ r.columnName = columnName

/-- The rows after `INSERT ... ON CONFLICT DO UPDATE SET`: the band and the score are not set. -/
def upsertedRows (s : BandedStore) (qualifiedTable columnName : String) (tag : ColumnPiiTag) :
    List BandedRow :=
  (s.rows.filter fun r => ¬ (r.qualifiedTable = qualifiedTable ∧ r.columnName = columnName)) ++
  [{ qualifiedTable := qualifiedTable
     columnName := columnName
     tag := tag
     origin := .operator
     band := (s.row qualifiedTable columnName).bind (·.band)
     score := (s.row qualifiedTable columnName).bind (·.score) }]

/-- The rows after `DELETE ... AND origin = 'operator'`. -/
def clearedRows (s : BandedStore) (qualifiedTable columnName : String) : List BandedRow :=
  s.rows.filter fun r =>
    ¬ (r.qualifiedTable = qualifiedTable ∧ r.columnName = columnName ∧ r.origin = .operator)

variable {s : BandedStore} {qualifiedTable columnName : String}

theorem replacedRows_eq {tags : List (String × ColumnPiiTag)}
    {confidence : String → Option PiiConfidenceBand × Option ℚ} :
    (s.replacedRows qualifiedTable tags confidence).map (·.toColumnPiiTagRow) =
      s.store.replacedTags qualifiedTable tags := by
  rw [replacedRows, List.map_append, Store.replacedTags, ← s.rows_eq, List.map_map, List.filter_map]
  rfl

theorem upsertedRows_eq {tag : ColumnPiiTag} :
    (s.upsertedRows qualifiedTable columnName tag).map (·.toColumnPiiTagRow) =
      upsertedTags s.store.columnPiiTags qualifiedTable columnName tag := by
  rw [upsertedRows, List.map_append, upsertedTags, otherRows, ← s.rows_eq, List.filter_map]
  rfl

theorem clearedRows_eq : (s.clearedRows qualifiedTable columnName).map (·.toColumnPiiTagRow) =
    clearedTags s.store.columnPiiTags qualifiedTable columnName := by
  rw [clearedRows, clearedTags, ← s.rows_eq, List.filter_map]
  rfl

theorem mem_of_row {r : BandedRow} (h : s.row qualifiedTable columnName = some r) :
    r ∈ s.rows ∧ r.qualifiedTable = qualifiedTable ∧ r.columnName = columnName :=
  ⟨List.mem_of_find?_eq_some h, by simpa using List.find?_some h⟩

end BandedStore

/-! ## Histories -/

/-- One operation on the tag rows. -/
inductive BandAction
  /-- The tags of a table, with the shapes of the values of its columns. -/
  | writeTags (qualifiedTable : String) (tags : List (String × ColumnPiiTag))
      (shapes : String → List String)
  | upsertOverride (qualifiedTable columnName : String) (tag : ColumnPiiTag) (force : Bool)
  | deleteOverride (qualifiedTable columnName : String) (force : Bool)

/-- The `confidence` that `index` passes with the tags of a table. -/
def indexConfidence (tags : List (String × ColumnPiiTag)) (shapes : String → List String)
    (column : String) : Option PiiConfidenceBand × Option ℚ :=
  ((tags.lookup column).map fun tag => classifyPiiConfidence tag.categories (shapes column)).getD
    (none, none)

private theorem tags_of_write {s s' : IndexedStore} {qualifiedTable : String}
    {tags : List (String × ColumnPiiTag)} (h : s.writeColumnPiiTags qualifiedTable tags = some s') :
    s'.columnPiiTags = s.replacedTags qualifiedTable tags ∧ (tags.map (·.1)).Nodup := by
  simp only [IndexedStore.writeColumnPiiTags] at h
  split at h
  · next hkeys =>
    obtain rfl := Option.some.inj h
    exact ⟨rfl, hkeys⟩
  · cases h

private theorem tags_of_upsert {s s' : IndexedStore} {qualifiedTable columnName : String}
    {tag : ColumnPiiTag} {force : Bool}
    (h : s.upsertColumnPiiTagOverride qualifiedTable columnName tag force = .ok s') :
    s'.columnPiiTags = upsertedTags s.columnPiiTags qualifiedTable columnName tag := by
  simp only [IndexedStore.upsertColumnPiiTagOverride] at h
  split at h
  · cases h
  · obtain rfl := Except.ok.inj h
    rfl

private theorem tags_of_delete {s s' : IndexedStore} {qualifiedTable columnName : String}
    {force done : Bool}
    (h : s.deleteColumnPiiTagOverride qualifiedTable columnName force = .ok (s', done)) :
    s'.columnPiiTags = clearedTags s.columnPiiTags qualifiedTable columnName := by
  simp only [IndexedStore.deleteColumnPiiTagOverride] at h
  split at h
  · cases h
  · obtain ⟨rfl, -⟩ := Prod.mk.inj (Except.ok.inj h)
    rfl

/-- One operation. A refused one is no step. -/
def bandStep (s : BandedStore) : BandAction → Option BandedStore
  | .writeTags qualifiedTable tags shapes =>
    match h : s.store.writeColumnPiiTags qualifiedTable tags with
    | none => none
    | some store => some {
        store := store
        rows := s.replacedRows qualifiedTable tags (indexConfidence tags shapes)
        rows_eq := BandedStore.replacedRows_eq.trans (tags_of_write h).1.symm }
  | .upsertOverride qualifiedTable columnName tag force =>
    match h : s.store.upsertColumnPiiTagOverride qualifiedTable columnName tag force with
    | .error _ => none
    | .ok store => some {
        store := store
        rows := s.upsertedRows qualifiedTable columnName tag
        rows_eq := BandedStore.upsertedRows_eq.trans (tags_of_upsert h).symm }
  | .deleteOverride qualifiedTable columnName force =>
    match h : s.store.deleteColumnPiiTagOverride qualifiedTable columnName force with
    | .error _ => none
    | .ok (store, _) => some {
        store := store
        rows := s.clearedRows qualifiedTable columnName
        rows_eq := BandedStore.clearedRows_eq.trans (tags_of_delete h).symm }

/-- In every row the band agrees with the tag. -/
def BandsAgree (s : BandedStore) : Prop := ∀ r ∈ s.rows, BandAgrees r.tag r.band r.score

/-- An override of a row with a band has categories, and they meet the floor as the row's do. -/
def KeepsBand (s : BandedStore) : BandAction → Prop
  | .upsertOverride qualifiedTable columnName tag _ =>
    ∀ r, s.row qualifiedTable columnName = some r → r.band ≠ none →
      tag.categories ≠ [] ∧ tag.meetsFloor = r.tag.meetsFloor
  | _ => True

instance (s : BandedStore) : ∀ a, Decidable (KeepsBand s a)
  | .upsertOverride qualifiedTable columnName tag _ =>
    decidable_of_iff ((s.row qualifiedTable columnName).all fun r =>
      decide (r.band ≠ none → tag.categories ≠ [] ∧ tag.meetsFloor = r.tag.meetsFloor)) (by
        rw [KeepsBand]
        cases s.row qualifiedTable columnName <;> simp [or_iff_not_imp_left])
  | .writeTags .. | .deleteOverride .. => isTrue trivial

/-! ## Every step -/

section Step

variable {s s' : BandedStore}

private theorem bandsAgree_writeTags {qualifiedTable : String} {tags : List (String × ColumnPiiTag)}
    {shapes : String → List String} (hagree : BandsAgree s)
    (hstep : bandStep s (.writeTags qualifiedTable tags shapes) = some s') : BandsAgree s' := by
  simp only [bandStep] at hstep
  split at hstep
  · cases hstep
  · next store hwrite =>
    obtain rfl := Option.some.inj hstep
    have hkeys := (tags_of_write hwrite).2
    intro r hr
    rcases List.mem_append.1 hr with hkept | hnew
    · exact hagree r (List.mem_of_mem_filter hkept)
    · obtain ⟨⟨column, tag⟩, hp, rfl⟩ := List.mem_map.1 hnew
      have hlookup : tags.lookup column = some tag :=
        (lookup_eq_some_iff_mem hkeys).2 (List.mem_of_mem_filter hp)
      simpa [indexConfidence, hlookup] using
        bandAgrees_classifyPiiConfidence tag (shapes column)

private theorem bandsAgree_deleteOverride {qualifiedTable columnName : String} {force : Bool}
    (hagree : BandsAgree s)
    (hstep : bandStep s (.deleteOverride qualifiedTable columnName force) = some s') :
    BandsAgree s' := by
  simp only [bandStep] at hstep
  split at hstep
  · cases hstep
  · obtain rfl := Option.some.inj hstep
    exact fun r hr => hagree r (List.mem_of_mem_filter hr)

private theorem bandsAgree_upsertOverride_iff {qualifiedTable columnName : String}
    {tag : ColumnPiiTag} {force : Bool} (hagree : BandsAgree s)
    (hstep : bandStep s (.upsertOverride qualifiedTable columnName tag force) = some s') :
    BandsAgree s' ↔ KeepsBand s (.upsertOverride qualifiedTable columnName tag force) := by
  simp only [bandStep] at hstep
  split at hstep
  · cases hstep
  · have hrows : s'.rows = s.upsertedRows qualifiedTable columnName tag := by
      rw [← Option.some.inj hstep]
    have hothers : BandsAgree s' ↔ BandAgrees tag
        ((s.row qualifiedTable columnName).bind (·.band))
        ((s.row qualifiedTable columnName).bind (·.score)) := by
      unfold BandsAgree
      rw [hrows]
      constructor
      · exact fun h => h _ (List.mem_append_right _ (List.mem_singleton_self _))
      · intro h r hr
        rcases List.mem_append.1 hr with hkept | hnew
        · exact hagree r (List.mem_of_mem_filter hkept)
        · obtain rfl := List.mem_singleton.1 hnew
          exact h
    rw [hothers, KeepsBand]
    cases hrow : s.row qualifiedTable columnName with
    | none => simp [bandAgrees_none]
    | some r =>
      have hr := hagree r (BandedStore.mem_of_row hrow).1
      simpa using hr.with_tag_iff

/-- From a store whose bands agree, a step leaves them in agreement if and only if it is no override
that changes what the band of its row says. -/
theorem bandsAgree_step_iff {a : BandAction} (hagree : BandsAgree s)
    (hstep : bandStep s a = some s') : BandsAgree s' ↔ KeepsBand s a := by
  cases a with
  | writeTags qualifiedTable tags shapes =>
    exact iff_of_true (bandsAgree_writeTags hagree hstep) trivial
  | upsertOverride qualifiedTable columnName tag force =>
    exact bandsAgree_upsertOverride_iff hagree hstep
  | deleteOverride qualifiedTable columnName force =>
    exact iff_of_true (bandsAgree_deleteOverride hagree hstep) trivial

end Step

/-! ## Every history -/

/-- In a history whose overrides keep what the bands of their rows say, the bands agree with the
tags after every operation. -/
theorem bandsAgree_of_reaches {start s : BandedStore} (hstart : BandsAgree start)
    (hhistory : Reaches bandStep KeepsBand start s) : BandsAgree s :=
  hhistory.invariant bandStep hstart fun hagree hkeeps hstep =>
    (bandsAgree_step_iff hagree hstep).2 hkeeps

/-- The store without a row. -/
def emptyBanded : BandedStore := ⟨emptyStore, [], rfl⟩

/-- The tags of a pass over a table with an email column and a password column. -/
def writeUsers : BandAction :=
  .writeTags "public.users"
    [("email", ⟨.pii, [.contact]⟩), ("password_hash", ⟨.pii, [.credential]⟩)]
    fun _ => ["aaa@aaa.aaa"]

/-- The row of the email column. -/
def emailRow (s : BandedStore) : Option (ColumnPiiTag × Option PiiConfidenceBand) :=
  (s.row "public.users" "email").map fun r => (r.tag, r.band)

/-- A pass, and an override that keeps the email column what it is. -/
theorem bandsAgree_of_reaches_users : ∃ s : BandedStore,
    emailRow s = some (⟨.confidential, [.contact]⟩, some .high) ∧ BandsAgree s := by
  obtain ⟨s, hreached, hrow⟩ := Reaches.exists_of_trace bandStep KeepsBand emptyBanded
    [writeUsers, .upsertOverride "public.users" "email" ⟨.confidential, [.contact]⟩ false,
      .upsertOverride "public.users" "password_hash" ⟨.pii, [.paymentCard]⟩ false]
    (P := fun s => emailRow s = some (⟨.confidential, [.contact]⟩, some .high))
    (by decide +kernel)
  have hempty : BandsAgree emptyBanded := by simp [BandsAgree, emptyBanded]
  exact ⟨s, hrow, bandsAgree_of_reaches hempty hreached⟩

/-- An email column that an operator marks as safe keeps the band of its former tag. -/
theorem not_bandsAgree :
    ¬ ∀ s, Reaches bandStep (fun _ _ => True) emptyBanded s → BandsAgree s := by
  intro hall
  obtain ⟨s, hreached, hrow⟩ := Reaches.exists_of_trace bandStep (fun _ _ => True) emptyBanded
    [writeUsers, .upsertOverride "public.users" "email" markedSafe false]
    (P := fun s => emailRow s = some (markedSafe, some .high)) (by decide +kernel)
  obtain ⟨r, hr, hfields⟩ := Option.map_eq_some_iff.1 hrow
  obtain ⟨htag, hband⟩ := Prod.mk.inj hfields
  have hagrees := hall s hreached r (BandedStore.mem_of_row hr).1
  exact hagrees.categories_ne_nil (by simp [hband]) (by rw [htag]; rfl)

end SchemaBrain.Indexer
