import SchemaBrain.Mining.Pipeline

/-!
# What mining attributes

The pairs of a table and a statement that a run of `mine_queries` adds, and what it does to those
that are there. A reference that could mean several tables is left out; the statement is not.
-/

namespace SchemaBrain.Mining

open Base Core

/-! ## References -/

/-- Two indexed tables have the name. -/
def Ambiguous (indexed : List QualifiedTable) (name : String) : Prop :=
  ∃ table ∈ indexed, ∃ table' ∈ indexed, table ≠ table' ∧ table.table = name ∧ table'.table = name

/-- The references name an indexed table, with its schema or as the only one of its name. -/
def References (indexed : List QualifiedTable) (refs : List TableRef) (table : QualifiedTable) :
    Prop :=
  table ∈ indexed ∧ ((some table.schema, table.table) ∈ refs ∨
    (none, table.table) ∈ refs ∧ ¬ Ambiguous indexed table.table)

section References

variable {indexed : List QualifiedTable}

/-- One schema is listed for a name just where one indexed table has it. -/
private theorem schemasOf_eq_singleton_iff (hindexed : indexed.Nodup) {schema name : String} :
    schemasOf indexed name = [schema] ↔
      (⟨schema, name⟩ : QualifiedTable) ∈ indexed ∧ ¬ Ambiguous indexed name := by
  have hmem : ∀ table, table ∈ indexed.filter (·.table = name) ↔
      table ∈ indexed ∧ table.table = name := by simp
  unfold schemasOf
  constructor
  · intro h
    obtain ⟨table, hfilter, hschema⟩ := List.map_eq_singleton_iff.1 h
    have hall : ∀ table' ∈ indexed, table'.table = name → table' = table := by
      intro table' htable' hname
      have := (hmem table').2 ⟨htable', hname⟩
      rwa [hfilter, List.mem_singleton] at this
    obtain ⟨htable, rfl⟩ := (hmem table).1 (hfilter ▸ List.mem_singleton_self table)
    refine ⟨hschema ▸ htable, ?_⟩
    rintro ⟨first, hfirst, second, hsecond, hne, hname, hname'⟩
    exact hne ((hall first hfirst hname).trans (hall second hsecond hname').symm)
  · rintro ⟨htable, hunique⟩
    have hall : ∀ table', table' ∈ indexed.filter (·.table = name) ↔ table' ∈ [⟨schema, name⟩] := by
      intro table'
      rw [hmem, List.mem_singleton]
      constructor
      · rintro ⟨hindexed', hname⟩
        by_contra hne
        exact hunique ⟨table', hindexed', _, htable, hne, hname, rfl⟩
      · rintro rfl
        exact ⟨htable, rfl⟩
    have hperm := (List.perm_ext_iff_of_nodup (hindexed.filter _) (List.nodup_singleton _)).2 hall
    rw [List.perm_singleton.1 hperm, List.map_singleton]

theorem resolveReference_eq_some_iff (hindexed : indexed.Nodup) {ref : TableRef}
    {table : QualifiedTable} : resolveReference indexed ref = some table ↔ table ∈ indexed ∧
      (ref = (some table.schema, table.table) ∨
        ref = (none, table.table) ∧ ¬ Ambiguous indexed table.table) := by
  obtain ⟨_ | schema, name⟩ := ref
  · rw [resolveReference]
    constructor
    · intro h
      split at h
      · next schema hschemas =>
        obtain rfl := Option.some.inj h
        obtain ⟨htable, hunique⟩ := (schemasOf_eq_singleton_iff hindexed).1 hschemas
        exact ⟨htable, .inr ⟨rfl, hunique⟩⟩
      · cases h
    · rintro ⟨htable, hschema | ⟨hname, hunique⟩⟩
      · cases hschema
      · obtain rfl : name = table.table := (Prod.mk.inj hname).2
        rw [(schemasOf_eq_singleton_iff hindexed).2 ⟨htable, hunique⟩]
  · rw [resolveReference]
    constructor
    · intro h
      split at h
      · next htable =>
        obtain rfl := Option.some.inj h
        exact ⟨htable, .inl rfl⟩
      · cases h
    · rintro ⟨htable, hschema | ⟨hname, -⟩⟩
      · obtain ⟨heq, rfl⟩ := Prod.mk.inj hschema
        obtain rfl := Option.some.inj heq
        rw [if_pos htable]
      · cases hname

theorem mem_resolveReferences (hindexed : indexed.Nodup) {refs : List TableRef}
    {table : QualifiedTable} :
    table ∈ resolveReferences indexed refs ↔ References indexed refs table := by
  rw [resolveReferences, List.mem_dedup, List.mem_filterMap, References]
  simp only [resolveReference_eq_some_iff hindexed]
  constructor
  · rintro ⟨ref, href, htable, rfl | ⟨rfl, hunique⟩⟩
    · exact ⟨htable, .inl href⟩
    · exact ⟨htable, .inr ⟨href, hunique⟩⟩
  · rintro ⟨htable, href | ⟨href, hunique⟩⟩
    · exact ⟨_, href, htable, .inl rfl⟩
    · exact ⟨_, href, htable, .inr ⟨rfl, hunique⟩⟩

end References

/-! ## A run -/

section Run

variable (W : WordChars) (references : String → List TableRef) (s : QueryStore)
  (rawRows : List PgStatRow) (now : Int)

/-- The statement has a reference that could mean several tables. -/
def HasAmbiguous (query : String) : Prop :=
  ∃ name, (none, name) ∈ references query ∧ Ambiguous s.tables name

/-- The statement is an example of the table: it is no profiler's, it leaves no table open, and it
references this one. -/
def Attributed (query : String) (table : QualifiedTable) : Prop :=
  isProfilerQuery W query = false ∧ ¬ HasAmbiguous references s query ∧
    References s.tables (references query) table

/-- The store after a run. -/
def mined : QueryStore := (mineQueries W references s (some rawRows) now).1

/-- The pair of a table and a statement is stored. -/
def Stored (s : QueryStore) (table : QualifiedTable) (query : String) : Prop :=
  (table, query) ∈ s.rows.map ExampleQuery.key

/-- A run adds the attributed pairs, keeps the first time and the count of those that are there, and
a second run changes nothing but the last time. -/
structure MinesExactly : Prop where
  added : ∀ table query, ¬ Stored s table query →
    (Stored (mined W references s rawRows now) table query ↔
      (∃ raw ∈ rawRows, raw.query = query) ∧ Attributed W references s query table)
  kept : ∀ row ∈ s.rows, ∃ row' ∈ (mined W references s rawRows now).rows, row'.key = row.key ∧
    row'.firstSeenAt = row.firstSeenAt ∧ row.observationCount ≤ row'.observationCount
  again : ∀ now' k,
    (rowOf ExampleQuery.key (mined W references (mined W references s rawRows now) rawRows
      now').rows k).map ExampleQuery.timeless =
    (rowOf ExampleQuery.key (mined W references s rawRows now).rows k).map ExampleQuery.timeless

variable {W references s rawRows now}

theorem mem_minedTables {query : String} {table : QualifiedTable} :
    table ∈ minedTables W references s.tables query ↔
      isProfilerQuery W query = false ∧ References s.tables (references query) table := by
  unfold minedTables
  split
  · next h => simp [h]
  · next h => simp [h, mem_resolveReferences s.tables_key]

theorem stored_mined {table : QualifiedTable} {query : String} :
    Stored (mined W references s rawRows now) table query ↔ Stored s table query ∨
      ∃ raw ∈ rawRows, raw.query = query ∧ isProfilerQuery W query = false ∧
        References s.tables (references query) table := by
  unfold Stored
  refine (mem_keys_foldl_upsertRow ExampleQuery.key_update _).trans (or_congr_right ?_)
  rw [List.mem_map]
  constructor
  · rintro ⟨row, hrow, hkey⟩
    obtain ⟨raw, hraw, htable, hfields⟩ := mem_rowsToWrite.1 hrow
    rw [hfields] at hkey
    obtain ⟨rfl, rfl⟩ := Prod.mk.inj hkey
    exact ⟨raw, hraw, rfl, mem_minedTables.1 htable⟩
  · rintro ⟨raw, hraw, rfl, htable⟩
    refine ⟨⟨table, raw.query, raw.calls, now, now, .pgStatStatements, ⟨.isPublic, []⟩⟩,
      mem_rowsToWrite.2 ⟨raw, hraw, mem_minedTables.2 htable, rfl⟩, rfl⟩

/-- The row of a key after updates from rows that bring nothing new. -/
private theorem timeless_updates {row : ExampleQuery} {news : List ExampleQuery}
    (htag : ∀ new ∈ news, new.tag = row.tag)
    (hcount : ∀ new ∈ news, new.observationCount ≤ row.observationCount) :
    ((news.foldl (fun row new => some ((row.map (ExampleQuery.update · new)).getD new))
      (some row)).map ExampleQuery.timeless) = some row.timeless := by
  induction news generalizing row with
  | nil => rfl
  | cons new news ih =>
    obtain ⟨hnewTag, htag⟩ := List.forall_mem_cons.1 htag
    obtain ⟨hnewCount, hcount⟩ := List.forall_mem_cons.1 hcount
    have hsame : (row.update new).timeless = row.timeless := by
      simp [ExampleQuery.update, ExampleQuery.timeless, hnewTag, max_eq_right hnewCount]
    have hobserved : (row.update new).observationCount = row.observationCount :=
      max_eq_right hnewCount
    rw [List.foldl_cons, Option.map_some, Option.getD_some, ← hsame]
    exact @ih (row.update new) (fun new' h => (htag new' h).trans hnewTag.symm)
      (fun new' h => hobserved.symm ▸ hcount new' h)

/-- Updates keep the first time, and the count covers the ones before and the ones they bring. -/
private theorem updates_keep {row : ExampleQuery} (news : List ExampleQuery) :
    ∃ row', news.foldl (fun row new => some ((row.map (ExampleQuery.update · new)).getD new))
        (some row) = some row' ∧ row'.key = row.key ∧ row'.firstSeenAt = row.firstSeenAt ∧
      row.observationCount ≤ row'.observationCount ∧
      (∀ new ∈ news, new.observationCount ≤ row'.observationCount) ∧
      ∀ tag, row.tag = tag → (∀ new ∈ news, new.tag = tag) → row'.tag = tag := by
  induction news generalizing row with
  | nil => exact ⟨row, rfl, rfl, rfl, le_rfl, by simp, fun _ h _ => h⟩
  | cons new news ih =>
    obtain ⟨row', hrow', hkey, hfirst, hcount, hnews, htag⟩ := @ih (row.update new)
    refine ⟨row', hrow', hkey, hfirst, (le_max_right _ _).trans hcount,
      List.forall_mem_cons.2 ⟨(le_max_left _ _).trans hcount, hnews⟩, fun tag _ hall => ?_⟩
    obtain ⟨hnewTag, hall⟩ := List.forall_mem_cons.1 hall
    exact htag tag hnewTag hall

/-- A batch leaves a row whose count covers it, with the tag that all of it has. -/
private theorem batch_leaves {start : Option ExampleQuery} {news : List ExampleQuery}
    {tag : ColumnPiiTag} (hne : news ≠ []) (htag : ∀ new ∈ news, new.tag = tag) :
    ∃ row', news.foldl (fun row new => some ((row.map (ExampleQuery.update · new)).getD new))
        start = some row' ∧ row'.tag = tag ∧
      ∀ new ∈ news, new.observationCount ≤ row'.observationCount := by
  obtain ⟨new, rest, rfl⟩ := List.exists_cons_of_ne_nil hne
  obtain ⟨hnewTag, hall⟩ := List.forall_mem_cons.1 htag
  obtain ⟨row', hrow', -, -, hcount, hnews, hkeeps⟩ :=
    @updates_keep ((start.map (ExampleQuery.update · new)).getD new) rest
  refine ⟨row', hrow', hkeeps tag ?_ hall, List.forall_mem_cons.2 ⟨le_trans ?_ hcount, hnews⟩⟩
  · cases start <;> exact hnewTag
  · cases start with
    | none => exact le_rfl
    | some old => exact le_max_left _ _

/-- The rows of the batch under a key carry the default tag. -/
private theorem tag_of_batch {tables : List QualifiedTable} {k : QualifiedTable × String} :
    ∀ new ∈ (rowsToWrite W references tables rawRows now).filter (ExampleQuery.key · = k),
      new.tag = ⟨.isPublic, []⟩ := by
  intro new hnew
  obtain ⟨_, _, _, hfields⟩ := mem_rowsToWrite.1 (List.mem_of_mem_filter hnew)
  rw [hfields]

private theorem rowOf_mined (k : QualifiedTable × String) :
    rowOf ExampleQuery.key (mined W references s rawRows now).rows k =
      ((rowsToWrite W references s.tables rawRows now).filter (ExampleQuery.key · = k)).foldl
        (fun row new => some ((row.map (ExampleQuery.update · new)).getD new))
        (rowOf ExampleQuery.key s.rows k) :=
  rowOf_foldl_upsertRow ExampleQuery.key_update _

theorem mined_kept {row : ExampleQuery} (hrow : row ∈ s.rows) :
    ∃ row' ∈ (mined W references s rawRows now).rows, row'.key = row.key ∧
      row'.firstSeenAt = row.firstSeenAt ∧ row.observationCount ≤ row'.observationCount := by
  obtain ⟨row', hrow', hkey, hfirst, hcount, -⟩ := @updates_keep row
    ((rowsToWrite W references s.tables rawRows now).filter (ExampleQuery.key · = row.key))
  have hfound := @rowOf_mined W references s rawRows now row.key
  rw [rowOf_of_mem s.rows_key hrow, hrow'] at hfound
  exact ⟨row', (rowOf_spec hfound).1, hkey, hfirst, hcount⟩

/-- The batch of another run has the same pairs and counts. -/
private theorem mem_rowsToWrite_again {now' : Int} {new : ExampleQuery}
    {k : QualifiedTable × String}
    (h : new ∈ (rowsToWrite W references s.tables rawRows now').filter (ExampleQuery.key · = k)) :
    ∃ new' ∈ (rowsToWrite W references s.tables rawRows now).filter (ExampleQuery.key · = k),
      new'.observationCount = new.observationCount := by
  obtain ⟨hnew, hkey⟩ := List.mem_filter.1 h
  obtain ⟨raw, hraw, htable, hfields⟩ := mem_rowsToWrite.1 hnew
  refine ⟨{ new with firstSeenAt := now, lastSeenAt := now }, List.mem_filter.2 ⟨?_, hkey⟩, rfl⟩
  refine mem_rowsToWrite.2 ⟨raw, hraw, htable, ?_⟩
  rw [hfields]

theorem mined_again (now' : Int) (k : QualifiedTable × String) :
    (rowOf ExampleQuery.key (mined W references (mined W references s rawRows now) rawRows
      now').rows k).map ExampleQuery.timeless =
    (rowOf ExampleQuery.key (mined W references s rawRows now).rows k).map
      ExampleQuery.timeless := by
  have hagain := fun new => @mem_rowsToWrite_again W references s rawRows now now' new k
  have htables : (mined W references s rawRows now).tables = s.tables := rfl
  rw [rowOf_mined, htables]
  have hfirst := @rowOf_mined W references s rawRows now k
  have htag := @tag_of_batch W references rawRows now s.tables k
  have htag' := @tag_of_batch W references rawRows now' s.tables k
  generalize (rowsToWrite W references s.tables rawRows now).filter
    (ExampleQuery.key · = k) = news at hfirst hagain htag
  generalize (rowsToWrite W references s.tables rawRows now').filter
    (ExampleQuery.key · = k) = news' at hagain htag'
  cases hnews : news with
  | nil =>
    cases news' with
    | nil => rfl
    | cons new _ =>
      obtain ⟨_, hmem, -⟩ := hagain _ List.mem_cons_self
      rw [hnews] at hmem
      cases hmem
  | cons new rest =>
    obtain ⟨row', hrow', htagged, hcounted⟩ :=
      @batch_leaves (rowOf ExampleQuery.key s.rows k) _ _ (by simp [hnews]) htag
    rw [hfirst, hrow', Option.map_some]
    refine timeless_updates (fun new hnew => (htag' new hnew).trans htagged.symm) ?_
    intro new hnew
    obtain ⟨new', hmem, hcount⟩ := hagain _ hnew
    exact hcount ▸ hcounted new' hmem

/-- A run mines exactly if and only if every statement with a reference that could mean several
tables is already stored with the other tables that it references. -/
theorem minesExactly_iff : MinesExactly W references s rawRows now ↔
    ∀ raw ∈ rawRows, isProfilerQuery W raw.query = false → HasAmbiguous references s raw.query →
      ∀ table, References s.tables (references raw.query) table → Stored s table raw.query := by
  constructor
  · intro h raw hraw hprofiler hambiguous table htable
    by_contra hnew
    have hstored : Stored (mined W references s rawRows now) table raw.query :=
      stored_mined.2 (.inr ⟨raw, hraw, rfl, hprofiler, htable⟩)
    exact ((h.added table raw.query hnew).1 hstored).2.2.1 hambiguous
  · intro h
    refine ⟨fun table query hnew => ?_, fun row => mined_kept, mined_again⟩
    rw [stored_mined, or_iff_right hnew]
    constructor
    · rintro ⟨raw, hraw, rfl, hprofiler, htable⟩
      exact ⟨⟨raw, hraw, rfl⟩, hprofiler,
        fun hambiguous => hnew (h raw hraw hprofiler hambiguous table htable), htable⟩
    · rintro ⟨⟨raw, hraw, rfl⟩, hprofiler, -, htable⟩
      exact ⟨raw, hraw, rfl, hprofiler, htable⟩

end Run

/-! ## A statement that is kept -/

/-- The letters and digits of ASCII. -/
def asciiWords : WordChars := ⟨Char.isAlphanum, fun _ _ => rfl⟩

/-- A store with two tables `orders`. -/
def ordersStore : QueryStore where
  tables := [⟨"public", "orders"⟩, ⟨"public", "users"⟩, ⟨"sales", "orders"⟩]
  rows := []
  tables_key := by decide
  rows_key := by decide
  rows_indexed := by decide

/-- The references of a join of two tables without schemas. -/
def joinReferences (_ : String) : List TableRef := [(none, "orders"), (none, "users")]

/-- A statement over one of two tables `orders`. -/
def joinStatement : PgStatRow := ⟨"SELECT * FROM orders o JOIN users u ON o.user_id = u.id", 7⟩

/-- A statement that leaves open which `orders` it reads becomes an example of `users`. -/
theorem not_minesExactly :
    ¬ MinesExactly asciiWords joinReferences ordersStore [joinStatement] 1700000000 := by
  intro h
  have hprofiler : isProfilerQuery asciiWords joinStatement.query = false := by decide
  have hunique : ¬ Ambiguous ordersStore.tables "users" := by
    unfold Ambiguous
    decide
  have hstored : Stored (mined asciiWords joinReferences ordersStore [joinStatement] 1700000000)
      ⟨"public", "users"⟩ joinStatement.query :=
    stored_mined.2 (.inr ⟨joinStatement, List.mem_singleton_self _, rfl, hprofiler, by decide,
      .inr ⟨by decide, hunique⟩⟩)
  have hattributed := (h.added ⟨"public", "users"⟩ joinStatement.query (by
    unfold Stored
    decide)).1 hstored
  exact hattributed.2.2.1 ⟨"orders", by decide, ⟨"public", "orders"⟩, by decide,
    ⟨"sales", "orders"⟩, by decide, by decide, rfl, rfl⟩

end SchemaBrain.Mining
