import SchemaBrain.Indexer.PiiTags
import SchemaBrain.Pii.Policy
import SchemaBrain.Web.PolicyEditor

/-!
# Histories of policies

Index runs with classification on and applied policies, on one source. Applying only ever adds
operators' rows, so the rows of an earlier policy outlive it.
-/

namespace SchemaBrain.Indexer

open Base Core Pii Web

/-! ## Histories -/

/-- The store, and the policies applied to it, the latest first. -/
structure PolicyHistory where
  store : IndexedStore
  applied : List Policy

/-- One event of a history. -/
inductive PolicyAction
  | index (run : IndexRun)
  | apply (policy : Policy)

/-- A completed run, or an application that returns 0; nothing else is in a history. -/
def policyStep (H : HashFn) (h : PolicyHistory) : PolicyAction → Option PolicyHistory
  | .index run =>
    match index H run h.store with
    | (store, true) => some { h with store := store }
    | (_, false) => none
  | .apply policy =>
    match policyApply h.store policy with
    | (store, none) => some ⟨store, policy :: h.applied⟩
    | (_, some _) => none

/-- Different tables have different `schema.table` texts, and no two columns share a
fingerprint by a hash collision. -/
structure KnownApart (H : HashFn) (source : Source) (s : IndexedStore) : Prop where
  texts : ∀ t ∈ knownTables source s, ∀ t' ∈ knownTables source s,
    t.qualified.text = t'.qualified.text → t.qualified = t'.qualified
  collision_free : CollisionFreeOn H ((knownTables source s).flatMap Table.structuralTexts)

/-- Runs are on this source, with classification on and over tables that are known apart. -/
def RunsOn (H : HashFn) (source : Source) (h : PolicyHistory) : PolicyAction → Prop
  | .index run => run.source = source ∧ run.noPiiClassify = false ∧ KnownApart H source h.store
  | .apply _ => True

/-- The override of a column in the latest policy that has one. -/
def latestOverride (applied : List Policy) (table column : String) : Option ColumnOverride :=
  applied.findSome? (·.overrideFor table column)

/-! ## What a policy file says -/

/-- The tag that a policy and the classifier give a column. -/
def declaredTag (policy : Policy) (q : QualifiedTable) (col : Column) : ColumnPiiTag :=
  match policy.overrideFor q.text col.name with
  | some o => o.tag
  | none => classification q col

/-- Every indexed column has the tag of the policy's override, or its classification. -/
def TagsDeclared (source : Source) (policy : Policy) (s : Store) : Prop :=
  ∀ q ∈ source.listTables, ∀ col ∈ (source.getTable q).columns,
    s.getColumnPiiTag q.text col.name = some (declaredTag policy q col)

/-- `active_block` for the policy on disk. -/
def activeBlock (onDisk : Policy) : List PiiCategory := sortedCategories onDisk.block

/-- A staged override and an override of the file say the same. -/
def StagedAs (staged : Option StagedOverride) (onDisk : Option ColumnOverride) : Prop :=
  match staged, onDisk with
  | none, none => True
  | some staged, some o => staged.sensitivity = o.tag.sensitivity ∧
      ∀ c, c ∈ staged.categories ↔ c ∈ o.tag.categories
  | _, _ => False

/-- An untouched editor holds the policy on disk. -/
def EditorReproduces (policy : Policy) (s : Store) : Prop :=
  (∀ c, c ∈ activeBlock policy ↔ c ∈ policy.block) ∧
    ∀ key, StagedAs ((initialOverridesFromPerColumn (perColumn s)).lookup key)
      (policy.columnOverrides.find? (·.qualifiedColumn = key))

/-! ## Operators' rows -/

variable {H : HashFn} {source : Source} {h h' : PolicyHistory} {s s' : IndexedStore}
  {applied : List Policy}

/-- No write of a run touches an operator's row. -/
theorem operatorRow_write {w : StoreWrite} (hwrite : s.write w = some s') (table column : String) :
    (s'.tagRow table column).filter (·.origin = .operator) =
      (s.tagRow table column).filter (·.origin = .operator) := by
  cases w with
  | writeColumnPiiTags text tags =>
    rw [IndexedStore.tagRow_writeColumnPiiTags hwrite]
    split
    · cases hoperator : (s.tagRow table column).filter (·.origin = .operator) with
      | some r =>
        have horigin := (Option.filter_eq_some_iff.1 hoperator).2
        simpa using horigin
      | none => cases tags.lookup column <;> simp
    · rfl
  | _ =>
    have htags := write_columnPiiTags hwrite (by simp)
    simp only [Store.tagRow, htags]

theorem operatorRow_index (run : IndexRun) (table column : String) :
    ((index H run s).1.tagRow table column).filter (·.origin = .operator) =
      (s.tagRow table column).filter (·.origin = .operator) := by
  refine IndexedStore.writeAll_induction (P := fun s' =>
    (s'.tagRow table column).filter (·.origin = .operator) =
      (s.tagRow table column).filter (·.origin = .operator)) ?_ rfl
  intro s₁ s₂ w _ hsame hwrite
  rw [operatorRow_write hwrite, hsame]

/-- What holds after every event of a history. -/
structure PolicyInv (H : HashFn) (h : PolicyHistory) : Prop where
  /-- The cached columns are tagged. -/
  cached : CachedColumnsTagged H h.store
  /-- The operators' rows are those of the latest overrides. -/
  operators : ∀ table column, (h.store.tagRow table column).filter (·.origin = .operator) =
    (latestOverride h.applied table column).map ColumnOverride.row

theorem KnownApart.keepsTags {run : IndexRun} (hsource : run.source = source)
    (hclassify : run.noPiiClassify = false) (hcompleted : (index H run s).2 = true)
    (h : KnownApart H source s) : KeepsTags H s run where
  texts := hsource ▸ h.texts
  collision_free := hsource ▸ h.collision_free
  classified := by simp [hclassify]
  settled := by simp [pendingTags_of_completed hcompleted]

theorem policyInv_index {run : IndexRun} (h : PolicyInv H ⟨s, applied⟩)
    (hrun : KeepsTags H s run) : PolicyInv H ⟨(index H run s).1, applied⟩ where
  cached := cachedColumnsTagged_index h.cached hrun
  operators table column := (operatorRow_index run table column).trans (h.operators table column)

/-- A column that no applied override covers keeps its tag. -/
theorem tagged_policyApply {policy : Policy} {q : QualifiedTable} {col : Column}
    (h : Tagged s.toStore q col) (happly : policyApply s policy = (s', none)) :
    Tagged s'.toStore q col := by
  intro hfree
  have hrow := tagRow_policyApply happly q.text col.name
  cases hoverride : policy.overrideFor q.text col.name with
  | some o =>
    rw [hoverride] at hrow
    exact absurd (Store.mem_overridden_iff_tagRow.2 ⟨o.row, hrow, rfl⟩) hfree
  | none =>
    rw [hoverride] at hrow
    have hheuristic := h fun hoverridden => hfree <| by
      rw [Store.mem_overridden_iff_tagRow] at hoverridden ⊢
      rwa [hrow]
    have hsame := Store.tagRow_eq_some_iff.2 ⟨hheuristic, rfl, rfl⟩
    exact (Store.tagRow_eq_some_iff.1 (hrow.trans hsame)).1

theorem policyInv_apply {policy : Policy} (h : PolicyInv H ⟨s, applied⟩)
    (happly : policyApply s policy = (s', none)) : PolicyInv H ⟨s', policy :: applied⟩ where
  cached := by
    obtain ⟨htables, hfingerprints⟩ := applyOverrides_frame happly
    intro r hr
    rw [hfingerprints] at hr
    obtain ⟨t, ht, hkey, col, hcol, hname, hhash, htagged⟩ := h.cached r hr
    exact ⟨t, htables ▸ ht, hkey, col, hcol, hname, hhash, tagged_policyApply htagged happly⟩
  operators table column := by
    rw [tagRow_policyApply happly, latestOverride, List.findSome?_cons]
    cases policy.overrideFor table column with
    | some o => rfl
    | none => exact h.operators table column

theorem policyInv_step {a : PolicyAction} (hinv : PolicyInv H h) (hruns : RunsOn H source h a)
    (hstep : policyStep H h a = some h') : PolicyInv H h' := by
  cases a with
  | index run =>
    simp only [policyStep] at hstep
    split at hstep
    · next store hindex =>
      rw [← Option.some.inj hstep]
      obtain ⟨hsource, hclassify, hapart⟩ := hruns
      have hrun := hapart.keepsTags hsource hclassify (by rw [hindex])
      simpa only [hindex] using policyInv_index hinv hrun
    · simp at hstep
  | apply policy =>
    simp only [policyStep] at hstep
    split at hstep
    · next store happly =>
      rw [← Option.some.inj hstep]
      exact policyInv_apply hinv happly
    · simp at hstep

/-! ## The store after a policy and a run -/

theorem latestOverride_eq_none {applied : List Policy} {o : ColumnOverride} :
    latestOverride applied o.qualifiedTable o.columnName = none ↔
      ∀ p ∈ applied, o.qualifiedColumn ∉ p.columnOverrides.map (·.qualifiedColumn) := by
  rw [latestOverride, List.findSome?_eq_none_iff]
  refine forall₂_congr fun p _ => ?_
  constructor
  · intro hnone hmem
    obtain ⟨o', ho', hkey⟩ := List.mem_map.1 hmem
    have hsome := Policy.overrideFor_eq_some_iff (p := p).2 ⟨ho', rfl, rfl⟩
    rw [ColumnOverride.qualifiedTable, ColumnOverride.columnName, hkey] at hsome
    exact absurd (hsome.symm.trans hnone) (by simp)
  · intro hmem
    cases hfound : p.overrideFor o.qualifiedTable o.columnName with
    | none => rfl
    | some o' =>
      obtain ⟨ho', htable, hcolumn⟩ := Policy.overrideFor_eq_some_iff.1 hfound
      exact absurd (List.mem_map.2 ⟨o', ho', ColumnOverride.qualifiedColumn_congr htable hcolumn⟩)
        hmem

/-- After a completed run every column of the source has its latest override or its
classification. -/
theorem getColumnPiiTag_index {run : IndexRun} (hinv : PolicyInv H ⟨s, applied⟩)
    (hrun : KeepsTags H s run) (hcompleted : (index H run s).2 = true) {q : QualifiedTable}
    (hq : q ∈ run.source.listTables) {col : Column}
    (hcol : col ∈ (run.source.getTable q).columns) :
    (index H run s).1.getColumnPiiTag q.text col.name =
      some (match latestOverride applied q.text col.name with
        | some o => o.tag
        | none => classification q col) := by
  have hoperator := (policyInv_index hinv hrun).operators q.text col.name
  have htagged := tagsComplete_index hinv.cached hrun hcompleted q hq col hcol
  change ((index H run s).1.tagRow q.text col.name).map (·.tag) = _
  cases hlatest : latestOverride applied q.text col.name with
  | some o =>
    rw [hlatest] at hoperator
    rw [(Option.filter_eq_some_iff.1 hoperator).1]
    rfl
  | none =>
    rw [hlatest] at hoperator
    have hfree : col.name ∉ (index H run s).1.overridden q.text := by
      rw [Store.mem_overridden_iff_tagRow]
      rintro ⟨r, hr, horigin⟩
      simp [hr, horigin] at hoperator
    rw [Store.tagRow_eq_some_iff.2 ⟨htagged hfree, rfl, rfl⟩]
    rfl

/-- Every column that an applied policy overrides is one of this policy's. -/
def CoversEarlier (policy : Policy) (applied : List Policy) : Prop :=
  ∀ earlier ∈ applied, ∀ o ∈ earlier.columnOverrides,
    o.qualifiedColumn ∈ policy.columnOverrides.map (·.qualifiedColumn)

/-- Where a policy covers the earlier ones, the latest override is its own. -/
theorem latestOverride_of_covers {policy : Policy} (hcovers : CoversEarlier policy applied)
    (table column : String) :
    latestOverride (policy :: applied) table column = policy.overrideFor table column := by
  rw [latestOverride, List.findSome?_cons]
  cases hown : policy.overrideFor table column with
  | some o => rfl
  | none =>
    rw [Option.eq_none_iff_forall_ne_some]
    intro o ho
    obtain ⟨earlier, hearlier, hfound⟩ := List.exists_of_findSome?_eq_some ho
    obtain ⟨hmem, rfl, rfl⟩ := Policy.overrideFor_eq_some_iff.1 hfound
    have hnone : latestOverride [policy] o.qualifiedTable o.columnName = none := by
      rw [latestOverride, List.findSome?_cons, hown]
      rfl
    exact latestOverride_eq_none.1 hnone policy (List.mem_singleton_self _)
      (hcovers earlier hearlier o hmem)

/-- The operators' rows as the editor reads them. -/
private theorem lookup_initial_eq_some {key : String} {v : StagedOverride}
    (hoperators : ∀ table column, (s.tagRow table column).filter (·.origin = .operator) =
      (latestOverride applied table column).map ColumnOverride.row)
    (h : (initialOverridesFromPerColumn (perColumn s.toStore)).lookup key = some v) :
    ∃ o, o.qualifiedColumn = key ∧
      latestOverride applied o.qualifiedTable o.columnName = some o ∧
      v = ⟨o.tag.sensitivity, sortedCategories o.tag.categories⟩ := by
  rw [lookup_initialOverrides, Option.map_eq_some_iff] at h
  obtain ⟨row, hrow, rfl⟩ := h
  have hspec := List.find?_some hrow
  simp only [decide_eq_true_eq] at hspec
  obtain ⟨hoperator, rfl⟩ := hspec
  obtain ⟨r, hr, rfl⟩ := mem_perColumn.1 (List.mem_reverse.1 (List.mem_of_find?_eq_some hrow))
  have horigin : r.origin = .operator := hoperator
  have hlatest := hoperators r.qualifiedTable r.columnName
  rw [Store.tagRow_eq_some_iff.2 ⟨hr, rfl, rfl⟩, Option.filter_some,
    if_pos (decide_eq_true horigin), eq_comm, Option.map_eq_some_iff] at hlatest
  obtain ⟨o, ho, rfl⟩ := hlatest
  exact ⟨o, o.text_eq.symm, ho, rfl⟩

/-- An operator's row is read by the editor. -/
private theorem lookup_initial_ne_none {o : ColumnOverride} {r : ColumnPiiTagRow}
    (hrow : s.tagRow o.qualifiedTable o.columnName = some r) (horigin : r.origin = .operator) :
    (initialOverridesFromPerColumn (perColumn s.toStore)).lookup o.qualifiedColumn ≠ none := by
  obtain ⟨hr, htable, hcolumn⟩ := Store.tagRow_eq_some_iff.1 hrow
  rw [lookup_initialOverrides, ne_eq, Option.map_eq_none_iff, List.find?_eq_none]
  intro hnone
  refine hnone (columnEntry r) (List.mem_reverse.2 (mem_perColumn.2 ⟨r, hr, rfl⟩)) ?_
  rw [decide_eq_true_eq]
  exact ⟨horigin, by rw [columnEntry, htable, hcolumn, o.text_eq]⟩

/-- The editor reproduces the last policy exactly when that policy covers the earlier ones. -/
theorem editorReproduces_iff {policy : Policy}
    (hoperators : ∀ table column, (s.tagRow table column).filter (·.origin = .operator) =
      (latestOverride (policy :: applied) table column).map ColumnOverride.row) :
    EditorReproduces policy s.toStore ↔ CoversEarlier policy applied := by
  constructor
  · rintro ⟨-, heditor⟩ earlier hearlier o ho
    by_contra hmissing
    have hstaged := heditor o.qualifiedColumn
    have honDisk : policy.columnOverrides.find? (·.qualifiedColumn = o.qualifiedColumn) =
        none := by
      rw [List.find?_eq_none]
      intro o' ho' hkey
      exact hmissing (List.mem_map.2 ⟨o', ho', of_decide_eq_true hkey⟩)
    cases hlatest : latestOverride (policy :: applied) o.qualifiedTable o.columnName with
    | none =>
      exact latestOverride_eq_none.1 hlatest earlier (List.mem_cons_of_mem _ hearlier)
        (List.mem_map_of_mem ho)
    | some o' =>
      have hoperator := hoperators o.qualifiedTable o.columnName
      rw [hlatest, Option.map_some, Option.filter_eq_some_iff] at hoperator
      have hread := lookup_initial_ne_none hoperator.1 rfl
      rw [honDisk] at hstaged
      cases hlookup : (initialOverridesFromPerColumn (perColumn s.toStore)).lookup
          o.qualifiedColumn with
      | none => exact hread hlookup
      | some v =>
        rw [hlookup] at hstaged
        exact hstaged
  · intro hcovers
    refine ⟨fun c => mem_sortedCategories, fun key => ?_⟩
    cases hlookup : (initialOverridesFromPerColumn (perColumn s.toStore)).lookup key with
    | some v =>
      obtain ⟨o, rfl, hlatest, rfl⟩ := lookup_initial_eq_some hoperators hlookup
      rw [latestOverride_of_covers hcovers] at hlatest
      have hfound : policy.columnOverrides.find? (·.qualifiedColumn = o.qualifiedColumn) =
          some o := by
        have hmem := (Policy.overrideFor_eq_some_iff.1 hlatest).1
        cases hfound : policy.columnOverrides.find? (·.qualifiedColumn = o.qualifiedColumn) with
        | none => exact absurd (List.find?_eq_none.1 hfound o hmem) (by simp)
        | some o' =>
          rw [List.inj_on_of_nodup_map policy.overrides_key (List.mem_of_find?_eq_some hfound) hmem
            (by simpa using List.find?_some hfound)]
      rw [hfound]
      exact ⟨rfl, fun c => mem_sortedCategories⟩
    | none =>
      cases hfound : policy.columnOverrides.find? (·.qualifiedColumn = key) with
      | none => trivial
      | some o =>
        obtain rfl : o.qualifiedColumn = key := by simpa using List.find?_some hfound
        have hown := Policy.overrideFor_eq_some_iff.2
          ⟨List.mem_of_find?_eq_some hfound, rfl, rfl⟩
        have hoperator := hoperators o.qualifiedTable o.columnName
        rw [latestOverride_of_covers hcovers, hown, Option.map_some,
          Option.filter_eq_some_iff] at hoperator
        exact absurd hlookup (lookup_initial_ne_none hoperator.1 rfl)

/-! ## Every history -/

/-- After the last policy and one completed run, the tags are those of the file and the editor
reproduces it exactly when the policy overrides every column that an earlier one did. -/
theorem declared_iff (H : HashFn) (source : Source) {start : IndexedStore}
    (hcached : CachedColumnsTagged H start)
    (hheuristic : ∀ r ∈ start.columnPiiTags, r.origin = .heuristic) {h : PolicyHistory}
    (hhistory : Reaches (policyStep H) (RunsOn H source) ⟨start, []⟩ h) {policy : Policy}
    {store : IndexedStore} (happly : policyApply h.store policy = (store, none))
    {run : IndexRun} (hsource : run.source = source) (hclassify : run.noPiiClassify = false)
    (hapart : KnownApart H source store) (hcompleted : (index H run store).2 = true) :
    TagsDeclared source policy (index H run store).1.toStore ∧
        EditorReproduces policy (index H run store).1.toStore ↔
      CoversEarlier policy h.applied := by
  have hinv : PolicyInv H h := by
    refine hhistory.invariant (policyStep H) ⟨hcached, fun table column => ?_⟩ policyInv_step
    rw [latestOverride, List.findSome?_nil, Option.map_none, Option.filter_eq_none_iff]
    intro r hr
    simp [hheuristic r (Store.tagRow_eq_some_iff.1 hr).1]
  have happlied := policyInv_apply hinv happly
  have hrun := hapart.keepsTags hsource hclassify hcompleted
  rw [editorReproduces_iff (policyInv_index happlied hrun).operators]
  refine ⟨And.right, fun hcovers => ⟨fun q hq col hcol => ?_, hcovers⟩⟩
  rw [← hsource] at hq hcol
  rw [getColumnPiiTag_index happlied hrun hcompleted hq hcol, latestOverride_of_covers hcovers]
  rfl

/-! ## An override that is taken out again -/

/-- A policy that marks the contacts' `email` as safe. -/
def emailSafe : Policy where
  block := catastrophicLeakCategories
  columnOverrides := [{ qualifiedColumn := "public.contacts.email", tag := markSafe }]

/-- The same policy without its override. -/
def noOverride : Policy where
  block := catastrophicLeakCategories
  columnOverrides := []

/-- The classifier marks no column as safe. -/
theorem classification_ne_markSafe (q : QualifiedTable) (col : Column) :
    classification q col ≠ markSafe := by
  unfold classification classifyColumn
  split <;> simp [markSafe, ColumnPiiTag.untagged]

/-- The first policy of a store, and one run. -/
theorem declared_iff_contacts :
    ∃ store, policyApply emptyStore emailSafe = (store, none) ∧
      (TagsDeclared (contactsRun false none).source emailSafe
            (index Sha256.digest (contactsRun false none) store).1.toStore ∧
          EditorReproduces emailSafe
            (index Sha256.digest (contactsRun false none) store).1.toStore ↔
        CoversEarlier emailSafe []) := by
  obtain ⟨store, happly, hdone⟩ : ∃ store, policyApply emptyStore emailSafe = (store, none) ∧
      (index Sha256.digest (contactsRun false none) store).2 = true :=
    ⟨_, rfl, by decide⟩
  have htables := (applyOverrides_frame happly).1
  refine ⟨store, happly, declared_iff Sha256.digest (contactsRun false none).source
    (by simp [CachedColumnsTagged]) (by simp) .refl happly rfl rfl
    ⟨?_, ?_⟩ hdone⟩
  · simp [knownTables, htables, emptyStore, contactsRun]
  · simp [CollisionFreeOn, knownTables, htables, emptyStore, contactsRun, Table.structuralTexts]

/-- An override is applied, taken out of the file, and the file applied again. -/
theorem not_declared_contacts :
    ¬ ∀ (h : PolicyHistory) (policy : Policy) (store : IndexedStore),
      Reaches (policyStep Sha256.digest) (fun _ _ => True) ⟨emptyStore, []⟩ h →
      policyApply h.store policy = (store, none) →
      (index Sha256.digest (contactsRun false none) store).2 = true →
      TagsDeclared (contactsRun false none).source policy
          (index Sha256.digest (contactsRun false none) store).1.toStore ∧
        EditorReproduces policy
          (index Sha256.digest (contactsRun false none) store).1.toStore := by
  intro hall
  obtain ⟨h, hreached, hdone, htag⟩ := Reaches.exists_of_trace (policyStep Sha256.digest)
    (fun _ _ => True) ⟨emptyStore, []⟩ [.apply emailSafe]
    (P := fun h => (index Sha256.digest (contactsRun false none) h.store).2 = true ∧
      (index Sha256.digest (contactsRun false none) h.store).1.getColumnPiiTag
        (QualifiedTable.text ⟨"public", "contacts"⟩) "email" = some markSafe) (by decide)
  have hdeclared := (hall h noOverride h.store hreached rfl hdone).1 ⟨"public", "contacts"⟩
    (List.mem_singleton_self _) { name := "email", dataType := "text" } (List.mem_singleton_self _)
  rw [htag, Option.some.injEq] at hdeclared
  exact classification_ne_markSafe _ _ hdeclared.symm

end SchemaBrain.Indexer
