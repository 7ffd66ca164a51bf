import Mathlib.Data.List.Dedup
import SchemaBrain.Base.KeyedRows
import SchemaBrain.Base.Regex
import SchemaBrain.Base.Yaml
import SchemaBrain.Core.Store
import SchemaBrain.Pii.Classifier

/-!
# Mining the query log

`mine_queries`: the statements of `pg_stat_statements` become example queries of the indexed tables
that they reference. What a statement references is given; so is which characters are letters.
-/

namespace SchemaBrain.Mining

open Base Core

/-! ## Queries of the profiler -/

/-- A character, whatever its case. -/
def anyCase (c : Char) : Regex := .char fun d => Pii.foldCase d = Pii.foldCase c

/-- A text, whatever its case. -/
def keyword (word : String) : List Regex := word.toList.map anyCase

/-- `\s+`. -/
def spaces : Regex := .many true 1 none (.char isPySpace)

/-- `.+?`, where the dot is any character. -/
def anything : Regex := .many false 1 none (.char fun _ => true)

/-- `_PROFILER_COUNTS_PATTERN`. -/
def profilerCountsPattern (W : WordChars) : Regex :=
  Regex.sequence (.wordBoundary W) (.wordBoundary W :: keyword "AS" ++ [spaces] ++ keyword "nn_" ++
    [.many true 1 none (.char fun c => (decimalDigit c).isSome)])

/-- `_PROFILER_SAMPLER_PATTERN`. -/
def profilerSamplerPattern (W : WordChars) : Regex :=
  Regex.sequence (.wordBoundary W) (keyword "SELECT" ++ [spaces] ++ keyword "DISTINCT" ++
    [spaces, anything] ++ keyword "::" ++ [.many true 0 none (.char isPySpace)] ++
    keyword "text" ++ [spaces] ++ keyword "AS" ++ [spaces] ++ keyword "v" ++
    [.wordBoundary W, anything, .wordBoundary W] ++ keyword "IS" ++ [spaces] ++ keyword "NOT" ++
    [spaces] ++ keyword "NULL")

/-- `is_profiler_query`. -/
def isProfilerQuery (W : WordChars) (sql : String) : Bool :=
  if sql = "" || sql.toList.all isPySpace then false
  else (profilerCountsPattern W).search sql || (profilerSamplerPattern W).search sql

/-! ## References -/

/-- A reference to a table: its schema, if it is qualified, and its name. -/
abbrev TableRef := Option String × String

/-- `unqualified_map.get(table, [])`. -/
def schemasOf (indexed : List QualifiedTable) (table : String) : List String :=
  (indexed.filter (·.table = table)).map (·.schema)

/-- The body of the loop of `_resolve_references`. -/
def resolveReference (indexed : List QualifiedTable) : TableRef → Option QualifiedTable
  | (none, table) =>
    match schemasOf indexed table with
    | [schema] => some ⟨schema, table⟩
    | _ => none
  | (some schema, table) =>
    if (⟨schema, table⟩ : QualifiedTable) ∈ indexed then some ⟨schema, table⟩ else none

/-- `_resolve_references`: a set, in some order. -/
def resolveReferences (indexed : List QualifiedTable) (refs : List TableRef) :
    List QualifiedTable :=
  (refs.filterMap (resolveReference indexed)).dedup

/-! ## Rows -/

/-- `ExampleQuerySource`. -/
inductive ExampleQuerySource
  | pgStatStatements
  | curated
  deriving DecidableEq, Repr

/-- One row of `example_queries`. -/
structure ExampleQuery where
  table : QualifiedTable
  sqlText : String
  observationCount : Int
  firstSeenAt : Int
  lastSeenAt : Int
  source : ExampleQuerySource
  tag : ColumnPiiTag
  deriving DecidableEq

namespace ExampleQuery

/-- The columns of the unique index. -/
def key (row : ExampleQuery) : QualifiedTable × String := (row.table, row.sqlText)

/-- `DO UPDATE SET`. -/
def update (old new : ExampleQuery) : ExampleQuery :=
  { old with
    observationCount := max new.observationCount old.observationCount
    lastSeenAt := new.lastSeenAt
    tag := new.tag }

@[simp] theorem key_update (old new : ExampleQuery) : (update old new).key = old.key := rfl

/-- The row without the time that every run sets. -/
def timeless (row : ExampleQuery) : ExampleQuery := { row with lastSeenAt := 0 }

end ExampleQuery

/-- The indexed tables of one source and their example queries. -/
structure QueryStore where
  tables : List QualifiedTable
  rows : List ExampleQuery
  tables_key : tables.Nodup
  rows_key : (rows.map ExampleQuery.key).Nodup
  rows_indexed : ∀ row ∈ rows, row.table ∈ tables

/-- `PgStatRow`. -/
structure PgStatRow where
  query : String
  calls : Int

/-- `MineReport`. -/
structure MineReport where
  statementsRead : Nat
  statementsUsed : Nat
  rowsWritten : Nat
  skippedUnavailable : Bool := false

section Mine

variable (W : WordChars) (references : String → List TableRef)

/-- The tables that a statement becomes an example of. -/
def minedTables (indexed : List QualifiedTable) (query : String) : List QualifiedTable :=
  if isProfilerQuery W query then [] else resolveReferences indexed (references query)

/-- The rows that a statement adds to the batch. -/
def minedRows (indexed : List QualifiedTable) (now : Int) (raw : PgStatRow) : List ExampleQuery :=
  (minedTables W references indexed raw.query).map fun table => {
    table := table
    sqlText := raw.query
    observationCount := raw.calls
    firstSeenAt := now
    lastSeenAt := now
    source := .pgStatStatements
    tag := ⟨.isPublic, []⟩ }

/-- `rows_to_write`. -/
def rowsToWrite (indexed : List QualifiedTable) (rawRows : List PgStatRow) (now : Int) :
    List ExampleQuery :=
  rawRows.flatMap (minedRows W references indexed now)

variable {W references} {indexed : List QualifiedTable} {rawRows : List PgStatRow} {now : Int}

theorem resolveReference_mem {ref : TableRef} {table : QualifiedTable}
    (h : resolveReference indexed ref = some table) : table ∈ indexed ∧ ref.2 = table.table := by
  obtain ⟨_ | schema, name⟩ := ref
  · rw [resolveReference] at h
    split at h
    · next schema hschemas =>
      obtain rfl := Option.some.inj h
      have hmem : schema ∈ schemasOf indexed name := hschemas ▸ List.mem_singleton_self _
      obtain ⟨table, htable, rfl⟩ := List.mem_map.1 hmem
      obtain ⟨hindexed, hname⟩ := List.mem_filter.1 htable
      obtain rfl := of_decide_eq_true hname
      exact ⟨hindexed, rfl⟩
    · cases h
  · rw [resolveReference] at h
    split at h
    · next hindexed =>
      obtain rfl := Option.some.inj h
      exact ⟨hindexed, rfl⟩
    · cases h

theorem minedTables_indexed {query : String} {table : QualifiedTable}
    (h : table ∈ minedTables W references indexed query) : table ∈ indexed := by
  unfold minedTables at h
  split at h
  · cases h
  · obtain ⟨ref, -, href⟩ := List.mem_filterMap.1 (List.mem_dedup.1 h)
    exact (resolveReference_mem href).1

/-- What a row of the batch is made of. -/
theorem mem_rowsToWrite {row : ExampleQuery} : row ∈ rowsToWrite W references indexed rawRows now ↔
    ∃ raw ∈ rawRows, row.table ∈ minedTables W references indexed raw.query ∧
      row = ⟨row.table, raw.query, raw.calls, now, now, .pgStatStatements, ⟨.isPublic, []⟩⟩ := by
  unfold rowsToWrite minedRows
  simp only [List.mem_flatMap, List.mem_map]
  constructor
  · rintro ⟨raw, hraw, table, htable, rfl⟩
    exact ⟨raw, hraw, htable, rfl⟩
  · rintro ⟨raw, hraw, htable, hrow⟩
    exact ⟨raw, hraw, _, htable, hrow.symm⟩

variable (W references)

/-- `write_example_queries`. -/
def QueryStore.writeExampleQueries (s : QueryStore) (batch : List ExampleQuery)
    (hindexed : ∀ row ∈ batch, row.table ∈ s.tables) : QueryStore where
  tables := s.tables
  rows := batch.foldl (upsertRow ExampleQuery.key ExampleQuery.update) s.rows
  tables_key := s.tables_key
  rows_key := nodup_foldl_upsertRow ExampleQuery.key_update s.rows_key batch
  rows_indexed := by
    have hkeys : ∀ (rows : List ExampleQuery), (∀ row ∈ rows, row.table ∈ s.tables) ↔
        ∀ k ∈ rows.map ExampleQuery.key, k.1 ∈ s.tables := by
      intro rows
      simp [ExampleQuery.key]
    rw [hkeys]
    intro k hk
    rcases (mem_keys_foldl_upsertRow ExampleQuery.key_update batch).1 hk with hold | hnew
    · exact (hkeys _).1 s.rows_indexed k hold
    · exact (hkeys _).1 hindexed k hnew

/-- `mine_queries`, on what the reader returns, if it is available. -/
def mineQueries (s : QueryStore) (fetched : Option (List PgStatRow)) (now : Int) :
    QueryStore × MineReport :=
  match fetched with
  | none => (s, ⟨0, 0, 0, true⟩)
  | some rawRows =>
    let batch := rowsToWrite W references s.tables rawRows now
    (s.writeExampleQueries batch fun _ hrow => by
      obtain ⟨_, _, htable, _⟩ := mem_rowsToWrite.1 hrow
      exact minedTables_indexed htable,
      { statementsRead := rawRows.length
        statementsUsed := rawRows.countP fun raw =>
          !(minedTables W references s.tables raw.query).isEmpty
        rowsWritten := batch.length })

end Mine

end SchemaBrain.Mining
