import SchemaBrain.Core.TagOverrides
import SchemaBrain.Indexer.PiiTags

/-!
# Tag histories of one column

Index passes, overrides and their deletion in any order, none of them forced. A downgrade is
refused by looking at the row that is there; a pass never touches an operator's row.
-/

namespace SchemaBrain.Indexer

open Base Core

/-! ## Histories -/

/-- One operation on the tag rows. -/
inductive TagAction
  /-- The tags of one table, with classification or with `--no-pii-classify`. -/
  | indexPass (run : IndexRun) (table : Table)
  | upsertOverride (qualifiedTable columnName : String) (tag : ColumnPiiTag)
  | deleteOverride (qualifiedTable columnName : String)

/-- The store, and what `classify_column` gave the column in the latest pass over its table,
if that pass classified it. -/
structure TagHistory where
  store : IndexedStore
  assigned : Option ColumnPiiTag

variable (qualifiedTable columnName : String)

/-- One operation, as one column sees it. A refused one changes nothing. -/
def tagStep (h : TagHistory) : TagAction → Option TagHistory
  | .indexPass run table =>
    match h.store.writeColumnPiiTags table.qualified.text (newTags run table) with
    | none => some h
    | some store =>
      some ⟨store, if table.qualified.text = qualifiedTable then
        (newTags run table).lookup columnName else h.assigned⟩
  | .upsertOverride table column tag =>
    match h.store.upsertColumnPiiTagOverride table column tag with
    | .error _ => some h
    | .ok store => some { h with store := store }
  | .deleteOverride table column =>
    match h.store.deleteColumnPiiTagOverride table column with
    | .error _ => some h
    | .ok (store, _) => some { h with store := store }

/-- Where the latest pass gave the column a category of the floor, its stored row has one. -/
def FloorHolds (h : TagHistory) : Prop :=
  ∀ tag, h.assigned = some tag → tag.meetsFloor = true →
    ∃ r, h.store.tagRow qualifiedTable columnName = some r ∧ r.tag.meetsFloor = true

/-- A pass that gives the column a category of the floor finds no operator's row without
one. -/
def KeepsFloor (h : TagHistory) : TagAction → Prop
  | .indexPass run table => table.qualified.text = qualifiedTable →
    ∀ tag, (newTags run table).lookup columnName = some tag → tag.meetsFloor = true →
      ∀ r, h.store.tagRow qualifiedTable columnName = some r → r.origin = .operator →
        r.tag.meetsFloor = true
  | _ => True

/-! ## Every step -/

variable {qualifiedTable columnName} {h h' : TagHistory}

/-- What a pass leaves in the row of a column of its table. -/
private theorem tagRow_indexPass {run : IndexRun} {table : Table} {s s' : IndexedStore}
    (hwrite : s.writeColumnPiiTags table.qualified.text (newTags run table) = some s')
    {tag : ColumnPiiTag} (htag : (newTags run table).lookup columnName = some tag) :
    (∃ r, s'.tagRow table.qualified.text columnName = some r ∧ r.tag.meetsFloor = true) ↔
      ((∃ r, s.tagRow table.qualified.text columnName = some r ∧ r.origin = .operator ∧
          r.tag.meetsFloor = true) ∨
        tag.meetsFloor = true ∧ ∀ r, s.tagRow table.qualified.text columnName = some r →
          r.origin ≠ .operator) := by
  rw [IndexedStore.tagRow_writeColumnPiiTags hwrite, if_pos rfl, htag]
  cases hrow : s.tagRow table.qualified.text columnName with
  | none => simp
  | some r =>
    rw [Option.filter_some]
    cases horigin : r.origin with
    | operator => simp [horigin]
    | heuristic => simp [horigin]

/-- A pass that meets the condition leaves the floor in place. -/
theorem floorHolds_indexPass {run : IndexRun} {table : Table}
    (hfloor : FloorHolds qualifiedTable columnName h)
    (hkeeps : KeepsFloor qualifiedTable columnName h (.indexPass run table))
    (hstep : tagStep qualifiedTable columnName h (.indexPass run table) = some h') :
    FloorHolds qualifiedTable columnName h' := by
  simp only [tagStep] at hstep
  split at hstep
  · rwa [← Option.some.inj hstep]
  · next store hwrite =>
    rw [← Option.some.inj hstep]
    intro tag hassigned hmeets
    split at hassigned
    · next htable =>
      subst htable
      refine (tagRow_indexPass hwrite hassigned).2 ?_
      by_cases hoperator : ∃ r, h.store.tagRow table.qualified.text columnName = some r ∧
          r.origin = .operator
      · obtain ⟨r, hr, horigin⟩ := hoperator
        exact .inl ⟨r, hr, horigin, hkeeps rfl tag hassigned hmeets r hr horigin⟩
      · exact .inr ⟨hmeets, fun r hr horigin => hoperator ⟨r, hr, horigin⟩⟩
    · next htable =>
      dsimp only
      rw [IndexedStore.tagRow_writeColumnPiiTags hwrite, if_neg (Ne.symm htable)]
      exact hfloor tag hassigned hmeets

/-- A pass that does not meet it loses the floor. -/
theorem not_floorHolds_indexPass {run : IndexRun} {table : Table} {s' : IndexedStore}
    (hwrite : h.store.writeColumnPiiTags table.qualified.text (newTags run table) = some s')
    (hshadowed : ¬ KeepsFloor qualifiedTable columnName h (.indexPass run table))
    (hstep : tagStep qualifiedTable columnName h (.indexPass run table) = some h') :
    ¬ FloorHolds qualifiedTable columnName h' := by
  simp only [tagStep, hwrite] at hstep
  rw [← Option.some.inj hstep]
  simp only [KeepsFloor, not_forall] at hshadowed
  obtain ⟨rfl, tag, htag, hmeets, r, hr, horigin, hdropped⟩ := hshadowed
  intro hfloor
  rcases (tagRow_indexPass hwrite htag).1 (hfloor tag (by rw [if_pos rfl, htag]) hmeets) with
    ⟨r', hr', -, hmeets'⟩ | ⟨-, hnone⟩
  · obtain rfl := Option.some.inj (hr.symm.trans hr')
    exact hdropped hmeets'
  · exact hnone r hr horigin

/-- An override that is not refused leaves the floor in place. -/
theorem floorHolds_upsertOverride {table column : String} {tag : ColumnPiiTag}
    (hfloor : FloorHolds qualifiedTable columnName h)
    (hstep : tagStep qualifiedTable columnName h (.upsertOverride table column tag) = some h') :
    FloorHolds qualifiedTable columnName h' := by
  simp only [tagStep] at hstep
  split at hstep
  · rwa [← Option.some.inj hstep]
  · next store hupsert =>
    rw [← Option.some.inj hstep]
    intro assigned hassigned hmeets
    obtain ⟨r, hr, hrmeets⟩ := hfloor assigned hassigned hmeets
    dsimp only
    rw [IndexedStore.tagRow_upsert hupsert]
    split
    · next hkey =>
      obtain ⟨rfl, rfl⟩ := hkey
      exact ⟨_, rfl, IndexedStore.meetsFloor_of_upsert hupsert hr hrmeets⟩
    · exact ⟨r, hr, hrmeets⟩

/-- A deletion that is not refused leaves the floor in place. -/
theorem floorHolds_deleteOverride {table column : String}
    (hfloor : FloorHolds qualifiedTable columnName h)
    (hstep : tagStep qualifiedTable columnName h (.deleteOverride table column) = some h') :
    FloorHolds qualifiedTable columnName h' := by
  simp only [tagStep] at hstep
  split at hstep
  · rwa [← Option.some.inj hstep]
  · next store done hdelete =>
    rw [← Option.some.inj hstep]
    intro assigned hassigned hmeets
    obtain ⟨r, hr, hrmeets⟩ := hfloor assigned hassigned hmeets
    refine ⟨r, ?_, hrmeets⟩
    dsimp only
    rw [IndexedStore.tagRow_delete hdelete, hr, Option.filter_some, if_pos]
    rw [decide_eq_true_eq]
    rintro ⟨rfl, rfl, horigin⟩
    simp [IndexedStore.not_meetsFloor_of_delete hdelete hr horigin] at hrmeets

/-! ## Every history -/

/-- In a history whose classifying passes find no operator's row without the floor on a column
that they assign it, the floor holds after every operation. -/
theorem floorHolds_of_reaches (qualifiedTable columnName : String) (start : IndexedStore)
    (h : TagHistory)
    (hhistory : Reaches (tagStep qualifiedTable columnName) (KeepsFloor qualifiedTable columnName)
      ⟨start, none⟩ h) : FloorHolds qualifiedTable columnName h := by
  refine hhistory.invariant (tagStep qualifiedTable columnName) (by simp [FloorHolds]) ?_
  intro h h' a hfloor hkeeps hstep
  cases a with
  | indexPass run table => exact floorHolds_indexPass hfloor hkeeps hstep
  | upsertOverride table column tag => exact floorHolds_upsertOverride hfloor hstep
  | deleteOverride table column => exact floorHolds_deleteOverride hfloor hstep

/-! ## A column that the classifier protects -/

/-- The table `public.users` with the column `ssn`. -/
def contactsTable : Table where
  qualified := ⟨"public", "users"⟩
  columns := [{ name := "ssn", dataType := "text" }]
  foreignKeys := []

/-- The tag of an operator who marks a column as safe. -/
def markedSafe : ColumnPiiTag := ⟨.internal, []⟩

private theorem newTags_ssn :
    newTags (contactsRun false none) contactsTable = [("ssn", ⟨.pii, [.governmentId]⟩)] := by
  decide +kernel

/-- A classifying pass over a column without a row. -/
theorem floorHolds_of_reaches_ssn : ∃ h : TagHistory,
    h.assigned = some ⟨.pii, [.governmentId]⟩ ∧ FloorHolds "public.users" "ssn" h := by
  obtain ⟨h, hstep, hassigned⟩ := Option.map_eq_some_iff.1
    (show (tagStep "public.users" "ssn" ⟨emptyStore, none⟩
      (.indexPass (contactsRun false none) contactsTable)).map (·.assigned) =
        some (some ⟨.pii, [.governmentId]⟩) by
      simp only [tagStep, newTags_ssn]
      decide)
  refine ⟨h, hassigned, floorHolds_of_reaches "public.users" "ssn" emptyStore h
    (.tail .refl ?_ hstep)⟩
  intro _ tag _ _ r hr
  simp [Store.tagRow, emptyStore] at hr

/-- A column marked as safe before the first pass loses the floor that the pass assigns. -/
theorem not_floorHolds_ssn :
    ¬ ∀ h : TagHistory, Reaches (tagStep "public.users" "ssn") (fun _ _ => True)
      ⟨emptyStore, none⟩ h → FloorHolds "public.users" "ssn" h := by
  intro hall
  obtain ⟨h, hreached, hassigned, hrow⟩ := Reaches.exists_of_trace
    (tagStep "public.users" "ssn") (fun _ _ => True) ⟨emptyStore, none⟩
    [.upsertOverride "public.users" "ssn" markedSafe,
      .indexPass (contactsRun false none) contactsTable]
    (P := fun h => h.assigned = some ⟨.pii, [.governmentId]⟩ ∧
      h.store.tagRow "public.users" "ssn" =
        some ⟨"public.users", "ssn", markedSafe, .operator⟩) (by
      simp only [runTrace, guarded, tagStep, newTags_ssn]
      decide)
  obtain ⟨r, hr, hmeets⟩ := hall h hreached _ hassigned (by decide)
  obtain rfl := Option.some.inj (hrow.symm.trans hr)
  exact absurd hmeets (by decide)

end SchemaBrain.Indexer
