import SchemaBrain.Base.Sha256
import SchemaBrain.Base.TwoRuns
import SchemaBrain.Enrichment.Prompts
import SchemaBrain.Indexer.Index

/-!
# Index runs with an enrichment pipeline

The prompts that a run hands to the LLM, and the store that its writes leave. Two runs whose
profiles differ in values of hidden columns only are compared write by write: their stores are
the same but for the semantic fingerprints, which no later step of a run reads.
-/

namespace SchemaBrain.Indexer

open Base Core Enrichment

/-! ## Runs -/

/-- What `enrich_columns_async` comes to for one table: the prompts it sent, in order, and the
descriptions by column, if no task raised. -/
structure Enriched (σ : Type) where
  state : σ
  sent : List String
  descriptions : Option (List (String × String))

/-- The arguments of `index` with a pipeline. The tasks of `enrichColumns` are the columns with
their prompts; the schedule, the spend and the answers of the LLM are its state `σ`. -/
structure EnrichRun (σ : Type) where
  source : Source
  profile : Table → String → Option ColumnProfile
  enrichColumns : σ → List (String × String) → Enriched σ
  embed : Option (String → Bytes) := none
  noPiiClassify : Bool := false

section Runs

variable {σ : Type}

/-- The run of the writes for one table, its descriptions in hand. -/
def EnrichRun.writing (run : EnrichRun σ) (descriptions : List (String × String)) : IndexRun where
  source := run.source
  profile := fun table name => (run.profile table name).map (·.toColumnStats)
  describe := some fun _ => descriptions
  embed := run.embed
  noPiiClassify := run.noPiiClassify

-- The digest of the fingerprints, and the text of a null percentage.
variable (H : HashFn) (nullPct : Nat → Nat → String)

/-- The tasks of one table. -/
def tablePrompts (run : EnrichRun σ) (table : Table) : List (String × String) :=
  table.columns.map fun col =>
    (col.name, columnDescriptionUserPrompt nullPct table col (run.profile table col.name)
      (fkTargetsForColumn table col.name))

/-- The loop: the store that it leaves, and the prompts that it sent. An exception of the
pipeline or a refused write ends it. -/
def enrichLoop (run : EnrichRun σ) : σ → IndexedStore → List QualifiedTable →
    IndexedStore × List String
  | _, s, [] => (s, [])
  | state, s, q :: rest =>
    let table := run.source.getTable q
    if isChanged H s table then
      let enriched := run.enrichColumns state (tablePrompts nullPct run table)
      match enriched.descriptions with
      | none => (s, enriched.sent)
      | some descriptions =>
        match s.writeAll (tableWrites H (run.writing descriptions) table) with
        | (s', true) =>
          let (s'', sent) := enrichLoop run enriched.state s' rest
          (s'', enriched.sent ++ sent)
        | (s', false) => (s', enriched.sent)
    else enrichLoop run state s rest

/-- `index` with a pipeline. -/
def enrichIndex (run : EnrichRun σ) (state : σ) (s : IndexedStore) :
    IndexedStore × List String :=
  match s.writeAll (removals run.source s) with
  | (s', true) => enrichLoop H nullPct run state s' run.source.listTables
  | (s', false) => (s', [])

/-- The user prompts that a run hands to the LLM. -/
def userPrompts (run : EnrichRun σ) (state : σ) (s : IndexedStore) : List String :=
  (enrichIndex H nullPct run state s).2

end Runs

/-! ## Stores but for the semantic fingerprints -/

/-- The fingerprint rows without the semantic hash. -/
def structuralRows (rows : List (ColumnRow Fingerprints)) :
    List (QualifiedTable × String × String) :=
  rows.map fun r => (r.table, r.column, r.value.structural)

/-- Two stores that only the semantic fingerprints can tell apart. -/
structure SameButSemantic (s s' : IndexedStore) : Prop where
  toStore : s.toStore = s'.toStore
  structural : structuralRows s.fingerprints = structuralRows s'.fingerprints
  descriptions : s.descriptions = s'.descriptions
  embeddings : s.embeddings = s'.embeddings

/-- Two writes that leave such stores alike. -/
inductive SameWrite : StoreWrite → StoreWrite → Prop
  | same (w : StoreWrite) : SameWrite w w
  | fingerprints (q : QualifiedTable) {new new' : List (String × Fingerprints)}
      (h : (new.map fun p => (p.1, p.2.structural)) = new'.map fun p => (p.1, p.2.structural)) :
      SameWrite (.writeTableFingerprints q new) (.writeTableFingerprints q new')

theorem structuralRows_filter (rows : List (ColumnRow Fingerprints)) (p : QualifiedTable → Bool) :
    structuralRows (rows.filter (p ·.table)) = (structuralRows rows).filter (p ·.1) := by
  rw [structuralRows, structuralRows, List.filter_map]
  rfl

theorem structuralRows_replaceRows (rows : List (ColumnRow Fingerprints)) (q : QualifiedTable)
    (new : List (String × Fingerprints)) :
    structuralRows (replaceRows rows q new) =
      (structuralRows rows).filter (·.1 ≠ q) ++
        (new.map fun p => (p.1, p.2.structural)).map fun p => (q, p) := by
  rw [replaceRows, structuralRows, List.map_append]
  congr 1
  · exact structuralRows_filter rows fun table => decide (table ≠ q)
  · simp

section Writes

variable {s s' : IndexedStore}

theorem SameButSemantic.exists_rows (h : SameButSemantic s s') : ∃ rows,
    structuralRows rows = structuralRows s'.fingerprints ∧
      ∃ hrows : RowsOk s'.tables rows,
        s = { s' with fingerprints := rows, fingerprints_ok := hrows } := by
  obtain ⟨store, rows, descriptions, embeddings, hok, _, _⟩ := s
  obtain ⟨hstore, hrows, hdescriptions, hembeddings⟩ := h
  simp only at hstore hrows hdescriptions hembeddings
  subst hstore hdescriptions hembeddings
  exact ⟨rows, hrows, hok, rfl⟩

private theorem writeFingerprints_same (h : SameButSemantic s s') (q : QualifiedTable)
    {new new' : List (String × Fingerprints)}
    (hnew : (new.map fun p => (p.1, p.2.structural)) = new'.map fun p => (p.1, p.2.structural)) :
    Option.Rel SameButSemantic (s.writeTableFingerprints q new)
      (s'.writeTableFingerprints q new') := by
  obtain ⟨rows, hrows, _, rfl⟩ := h.exists_rows
  have hnames : new.map (·.1) = new'.map (·.1) := by
    simpa [Function.comp_def] using congrArg (List.map Prod.fst) hnew
  have hempty : new = [] ↔ new' = [] := by
    rw [← List.map_eq_nil_iff (f := fun p => (p.1, p.2.structural)), hnew, List.map_eq_nil_iff]
  simp only [IndexedStore.writeTableFingerprints, hnames, hempty]
  split
  · refine .some ⟨rfl, ?_, rfl, rfl⟩
    simp only
    rw [structuralRows_replaceRows, structuralRows_replaceRows, hrows, hnew]
  · exact .none

private theorem deleteTable_same (h : SameButSemantic s s') (q : QualifiedTable) :
    SameButSemantic (s.deleteTable q) (s'.deleteTable q) := by
  have hkeep := fun rows : List (ColumnRow Fingerprints) =>
    structuralRows_filter rows fun table => decide (table ≠ q)
  refine ⟨?_, ?_, ?_, ?_⟩
  · simp only [IndexedStore.deleteTable, h.toStore]
  · exact (hkeep _).trans ((congrArg _ h.structural).trans (hkeep _).symm)
  · simp only [IndexedStore.deleteTable, h.descriptions]
  · simp only [IndexedStore.deleteTable, h.embeddings]

/-- Writes that are the same but for semantic fingerprints keep two stores so. -/
theorem write_same (h : SameButSemantic s s') {w w' : StoreWrite} (hw : SameWrite w w') :
    Option.Rel SameButSemantic (s.write w) (s'.write w') := by
  cases hw with
  | fingerprints q hnew => exact writeFingerprints_same h q hnew
  | same =>
    cases w with
    | writeTableFingerprints q new => exact writeFingerprints_same h q rfl
    | deleteTable q => exact .some (deleteTable_same h q)
    | writeTable t =>
      obtain ⟨hstore, hrows, hdescriptions, hembeddings⟩ := deleteTable_same h t.qualified
      simp only [IndexedStore.write, IndexedStore.writeTable]
      split
      · refine .some ⟨?_, hrows, hdescriptions, hembeddings⟩
        simp only [hstore]
      · exact .none
    | writeTableDescriptions q new =>
      obtain ⟨rows, hrows, _, rfl⟩ := h.exists_rows
      simp only [IndexedStore.write, IndexedStore.writeTableDescriptions]
      split
      · exact .some ⟨rfl, hrows, rfl, rfl⟩
      · exact .none
    | writeTableEmbeddings q new =>
      obtain ⟨rows, hrows, _, rfl⟩ := h.exists_rows
      simp only [IndexedStore.write, IndexedStore.writeTableEmbeddings]
      split
      · exact .some ⟨rfl, hrows, rfl, rfl⟩
      · exact .none
    | writeColumnPiiTags q tags =>
      obtain ⟨rows, hrows, _, rfl⟩ := h.exists_rows
      simp only [IndexedStore.write, IndexedStore.writeColumnPiiTags]
      split
      · exact .some ⟨rfl, hrows, rfl, rfl⟩
      · exact .none

theorem writeAll_same (h : SameButSemantic s s') {writes writes' : List StoreWrite}
    (hwrites : List.Forall₂ SameWrite writes writes') :
    (s.writeAll writes).2 = (s'.writeAll writes').2 ∧
      SameButSemantic (s.writeAll writes).1 (s'.writeAll writes').1 := by
  induction hwrites generalizing s s' with
  | nil => exact ⟨rfl, h⟩
  | cons hw _ ih =>
    have hrel := write_same h hw
    simp only [IndexedStore.writeAll]
    generalize s.write _ = next at hrel ⊢
    generalize s'.write _ = next' at hrel ⊢
    cases hrel with
    | none => exact ⟨rfl, h⟩
    | some hnext => exact ih hnext

end Writes

/-! ## Two profiles -/

/-- The profiles of two profilers differ only in the sample values and shape patterns of hidden
columns. -/
def DifferOnlyIn (hidden : Table → Column → Prop) (source : Source)
    (profile profile' : Table → String → Option ColumnProfile) : Prop :=
  ∀ q ∈ source.listTables, ∀ col ∈ (source.getTable q).columns,
    (profile (source.getTable q) col.name).map (·.counts) =
      (profile' (source.getTable q) col.name).map (·.counts) ∧
    (¬hidden (source.getTable q) col →
      profile (source.getTable q) col.name = profile' (source.getTable q) col.name)

/-- A column that `classify_column` does not mark public. -/
def ClassifiedNonPublic (table : Table) (col : Column) : Prop :=
  promptSensitivity table col ≠ .isPublic

section Loop

variable {σ : Type} {H : HashFn} {nullPct : Nat → Nat → String} {run : EnrichRun σ}
  {profile' : Table → String → Option ColumnProfile} {s s' : IndexedStore}

/-- The comparison with the cache reads structural hashes only. -/
theorem isChanged_same (h : SameButSemantic s s') (table : Table) :
    isChanged H s table = isChanged H s' table := by
  have hcached : ∀ s : IndexedStore, cachedStructural s table.qualified =
      ((structuralRows s.fingerprints).filter (·.1 = table.qualified)).map (·.2) := by
    intro s
    have hfilter := structuralRows_filter s.fingerprints fun t => decide (t = table.qualified)
    rw [← hfilter]
    simp [cachedStructural, getTableFingerprints, structuralRows]
  rw [isChanged, isChanged, hcached, hcached, h.structural]

/-- No write but that of the fingerprints reads the profile. -/
theorem tableWrites_same (H : HashFn) (run : EnrichRun σ)
    (profile' : Table → String → Option ColumnProfile) (descriptions : List (String × String))
    (table : Table) :
    List.Forall₂ SameWrite (tableWrites H (run.writing descriptions) table)
      (tableWrites H ({ run with profile := profile' }.writing descriptions) table) := by
  refine .cons (.same _) (.cons (.fingerprints _ ?_) ?_)
  · simp [newFingerprints]
  · exact List.forall₂_same.2 fun w _ => .same w

theorem tablePrompts_eq {q : QualifiedTable}
    (h : DifferOnlyIn ClassifiedNonPublic run.source run.profile profile')
    (hq : q ∈ run.source.listTables) :
    tablePrompts nullPct { run with profile := profile' } (run.source.getTable q) =
      tablePrompts nullPct run (run.source.getTable q) := by
  refine List.map_congr_left fun col hcol => ?_
  obtain ⟨hcounts, hsame⟩ := h q hq col hcol
  rw [columnDescriptionUserPrompt_congr nullPct _ hcounts fun hpublic =>
    hsame fun hhidden => hhidden hpublic]

theorem enrichLoop_same (h : DifferOnlyIn ClassifiedNonPublic run.source run.profile profile')
    (hs : SameButSemantic s s') (state : σ) {listed : List QualifiedTable}
    (hlisted : listed ⊆ run.source.listTables) :
    (enrichLoop H nullPct { run with profile := profile' } state s' listed).2 =
      (enrichLoop H nullPct run state s listed).2 := by
  induction listed generalizing state s s' with
  | nil => rfl
  | cons q rest ih =>
    obtain ⟨hq, hrest⟩ := List.cons_subset.1 hlisted
    simp only [enrichLoop, isChanged_same hs, tablePrompts_eq h hq]
    split
    · split
      · rfl
      · next descriptions _ =>
        have hwrites := writeAll_same hs
          (tableWrites_same H run profile' descriptions (run.source.getTable q))
        revert hwrites
        generalize s.writeAll _ = out
        generalize s'.writeAll _ = out'
        obtain ⟨next, completed⟩ := out
        obtain ⟨next', completed'⟩ := out'
        rintro ⟨rfl, hnext⟩
        cases completed with
        | true => simp only [ih hnext _ hrest]
        | false => rfl
    · exact ih hs state hrest

/-- The prompts of two runs that no public column tells apart. -/
theorem userPrompts_eq (H : HashFn) (nullPct : Nat → Nat → String) (run : EnrichRun σ)
    (profile' : Table → String → Option ColumnProfile)
    (h : DifferOnlyIn ClassifiedNonPublic run.source run.profile profile') (state : σ)
    (s : IndexedStore) :
    userPrompts H nullPct { run with profile := profile' } state s =
      userPrompts H nullPct run state s := by
  unfold userPrompts enrichIndex
  simp only
  split
  · exact enrichLoop_same h ⟨rfl, rfl, rfl, rfl⟩ state (List.Subset.refl _)
  · rfl

end Loop

/-! ## A table of two text columns -/

def notesColumn : Column := { name := "notes", dataType := "text" }

def ssnColumn : Column := { name := "ssn", dataType := "text", ordinalPosition := 2 }

def people : Table := ⟨⟨"public", "people"⟩, [notesColumn, ssnColumn], []⟩

/-- The profile of one row. -/
def oneValue (value : String) : ColumnProfile where
  sampleValues := [value]
  totalRows := 1
  nullCount := 0
  distinctCount := 1

/-- One row with this note and this number. -/
def peopleProfile (note ssn : String) : Table → String → Option ColumnProfile := fun _ name =>
  ([("notes", oneValue note), ("ssn", oneValue ssn)] : List _).lookup name

/-- Every prompt is sent, and the connection breaks before an answer comes. -/
def peopleRun (note ssn : String) : EnrichRun Unit where
  source := {
    listTables := [people.qualified]
    getTable := fun q => { people with qualified := q }
    getTable_qualified := fun _ => rfl
    columns_key := fun _ => by simp [people, notesColumn, ssnColumn] }
  profile := peopleProfile note ssn
  enrichColumns := fun _ tasks => ⟨(), tasks.map (·.2), none⟩

/-- An operator has tagged the notes as contact data. -/
def taggedStore : IndexedStore where
  tables := []
  entities := []
  canonicalJoins := []
  metrics := []
  columnPiiTags := [⟨"public.people", "notes", ⟨.pii, [.contact]⟩, .operator⟩]
  fingerprints_ok := emptyStore.fingerprints_ok
  descriptions_ok := emptyStore.descriptions_ok
  embeddings_ok := emptyStore.embeddings_ok

theorem promptSensitivity_people :
    promptSensitivity people notesColumn = .isPublic ∧
      promptSensitivity people ssnColumn = .pii := by
  decide +kernel

/-- Two runs over different numbers. -/
theorem userPrompts_eq_people :
    peopleProfile "late" "078-05-1120" people "ssn" ≠
        peopleProfile "late" "219-09-9999" people "ssn" ∧
      userPrompts Sha256.digest (fun _ _ => "0.0%")
          { peopleRun "late" "078-05-1120" with profile := peopleProfile "late" "219-09-9999" }
          () taggedStore =
        userPrompts Sha256.digest (fun _ _ => "0.0%") (peopleRun "late" "078-05-1120") ()
          taggedStore := by
  refine ⟨by decide, userPrompts_eq Sha256.digest (fun _ _ => "0.0%")
    (peopleRun "late" "078-05-1120") (peopleProfile "late" "219-09-9999") ?_ () taggedStore⟩
  intro q hq col hcol
  obtain rfl : q = people.qualified := List.mem_singleton.1 hq
  rcases List.mem_pair.1 hcol with rfl | rfl
  · exact ⟨rfl, fun _ => rfl⟩
  · have hhidden : ClassifiedNonPublic people ssnColumn := by
      rw [ClassifiedNonPublic, promptSensitivity_people.2]
      decide
    exact ⟨rfl, fun hpublic => absurd hhidden hpublic⟩

/-- The operator's tag is not asked: its column is shown. -/
theorem not_userPrompts_eq_tagged : ¬ ∀ (H : HashFn) (nullPct : Nat → Nat → String)
    (run : EnrichRun Unit) (profile' : Table → String → Option ColumnProfile) (s : IndexedStore),
    DifferOnlyIn (fun table col => ClassifiedNonPublic table col ∨
        (s.columnPiiTag table.qualified.text col.name).sensitivity ≠ .isPublic)
      run.source run.profile profile' →
    userPrompts H nullPct { run with profile := profile' } () s =
      userPrompts H nullPct run () s := by
  intro h
  have hsame := h Sha256.digest (fun _ _ => "0.0%") (peopleRun "Ann called" "078-05-1120")
    (peopleProfile "Bob called" "078-05-1120") taggedStore (by
      intro q hq col hcol
      obtain rfl : q = people.qualified := List.mem_singleton.1 hq
      rcases List.mem_pair.1 hcol with rfl | rfl
      · exact ⟨rfl, fun hshown => absurd (.inr (by decide)) hshown⟩
      · exact ⟨rfl, fun _ => rfl⟩)
  have hprompts : ∀ note, userPrompts Sha256.digest (fun _ _ => "0.0%")
      { peopleRun "Ann called" "078-05-1120" with profile := peopleProfile note "078-05-1120" } ()
      taggedStore = (tablePrompts (fun _ _ => "0.0%") (peopleRun note "078-05-1120") people).map
        (·.2) := fun _ => rfl
  have hhead : ∀ note, ∃ rest,
      (tablePrompts (fun _ _ => "0.0%") (peopleRun note "078-05-1120") people).map (·.2) =
        columnDescriptionUserPrompt (fun _ _ => "0.0%") people notesColumn
          (some (oneValue note)) (fkTargetsForColumn people "notes") :: rest := by
    intro note
    have hprofile : (peopleRun note "078-05-1120").profile people notesColumn.name =
        some (oneValue note) := rfl
    have hcolumns : people.columns = [notesColumn, ssnColumn] := rfl
    have hname : notesColumn.name = "notes" := rfl
    rw [tablePrompts, hcolumns, List.map_cons, List.map_cons, hprofile, hname]
    dsimp only
    exact ⟨_, rfl⟩
  have hshown : ∀ note, columnDescriptionUserPrompt (fun _ _ => "0.0%") people notesColumn
      (some (oneValue note)) (fkTargetsForColumn people "notes") =
        "\n".intercalate (schemaLines people notesColumn (fkTargetsForColumn people "notes") ++
          statsLines (fun _ _ => "0.0%") .isPublic (oneValue note)) := by
    intro note
    rw [← promptSensitivity_people.1]
    rfl
  obtain ⟨rest, hfirst⟩ := hhead "Bob called"
  obtain ⟨rest', hfirst'⟩ := hhead "Ann called"
  have hnotes := (hprompts "Bob called").symm.trans (hsame.trans (hprompts "Ann called"))
  rw [hfirst, hfirst', List.cons.injEq, hshown, hshown] at hnotes
  exact absurd hnotes.1 (by decide +kernel)

end SchemaBrain.Indexer
