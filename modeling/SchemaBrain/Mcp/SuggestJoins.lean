import Mathlib.Algebra.Order.Ring.Unbundled.Rat
import Mathlib.Data.Prod.Lex
import Mathlib.Data.String.Basic
import SchemaBrain.Base.BreadthFirst
import SchemaBrain.Mcp.DescribeTable

/-!
# Paths over foreign keys

`suggest_joins`: the shortest path between two tables in the undirected graph of the foreign
keys, each edge in the direction it is walked. The tables are looked up under the texts they
are asked for with, so a table whose text the parser of names refuses has no spelling at all.
-/

namespace SchemaBrain.Mcp

open Base Core

/-! ## The graph -/

/-- `FrozenJoinEdgeSeed`. -/
structure JoinEdgeSeed where
  fkName : String
  ownerQualifiedName : String
  ownerColumns : List String
  referencedQualifiedName : String
  referencedColumns : List String
  deriving DecidableEq, Repr

/-- `JoinEdge`. -/
structure JoinEdge where
  fkName : String
  leftQualifiedName : String
  leftColumns : List String
  rightQualifiedName : String
  rightColumns : List String
  confidence : Rat
  via : String
  deriving DecidableEq, Repr

/-- `_FK_CONFIDENCE`. -/
def fkConfidence : Rat := 1

/-- `_VIA_FK`. -/
def viaFk : String := "foreign_key"

/-- The neighbours of every table, each with the seed of its foreign key. -/
abbrev FkAdjacency := List (String × List (String × JoinEdgeSeed))

/-- `list_all_foreign_keys`. -/
def listAllForeignKeys (store : Store) : List (QualifiedTable × ForeignKey) :=
  sortedBy (fun row => toLex (row.1.schema, toLex (row.1.table, row.2.name)))
    (store.tables.flatMap fun t => t.foreignKeys.map (t.qualified, ·))

/-- The seed of one row. -/
def edgeSeed (row : QualifiedTable × ForeignKey) : JoinEdgeSeed where
  fkName := row.2.name
  ownerQualifiedName := row.1.text
  ownerColumns := row.2.sourceColumns
  referencedQualifiedName := targetText row.2
  referencedColumns := row.2.targetColumns

/-- The two entries of one row. -/
def addForeignKey (adjacency : FkAdjacency) (row : QualifiedTable × ForeignKey) : FkAdjacency :=
  let seed := edgeSeed row
  dictAppend (dictAppend adjacency seed.ownerQualifiedName (seed.referencedQualifiedName, seed))
    seed.referencedQualifiedName (seed.ownerQualifiedName, seed)

/-- `_build_fk_adjacency`. -/
def buildFkAdjacency (rows : List (QualifiedTable × ForeignKey)) : FkAdjacency :=
  (rows.foldl addForeignKey []).map fun item =>
    (item.1, sortedBy (fun entry => toLex (entry.1, entry.2.fkName)) item.2)

/-- `_edge_from_seed`. -/
def edgeFromSeed (seed : JoinEdgeSeed) (left : String) : JoinEdge :=
  if left = seed.ownerQualifiedName then
    ⟨seed.fkName, seed.ownerQualifiedName, seed.ownerColumns, seed.referencedQualifiedName,
      seed.referencedColumns, fkConfidence, viaFk⟩
  else
    ⟨seed.fkName, seed.referencedQualifiedName, seed.referencedColumns, seed.ownerQualifiedName,
      seed.ownerColumns, fkConfidence, viaFk⟩

/-- `_bfs_shortest_path`. Every vertex that the search queues has its item in the adjacency,
but the start may have none. -/
def bfsShortestPath (adjacency : FkAdjacency) (start target : String) (maxHops : Nat) :
    Option (List JoinEdge) :=
  (breadthFirst (dictList adjacency) start target maxHops (adjacency.length + 2)).map fun path =>
    path.map fun hop => edgeFromSeed hop.label hop.origin

/-! ## The tool -/

/-- `JoinPath`. -/
structure JoinPath where
  startQualifiedName : String
  endQualifiedName : String
  hops : Nat
  edges : List JoinEdge
  confidence : Rat
  deriving DecidableEq, Repr

/-- `SuggestJoinsResult`, each unreachable pair in alphabetical order. -/
structure SuggestJoinsResult where
  paths : List JoinPath
  unreachablePairs : List (String × String)
  deriving DecidableEq, Repr

section Tool

variable (catalog : Catalog) (piiBlock : List PiiCategory)

/-- `_redact_edge`. -/
def redactEdge (edge : JoinEdge) : JoinEdge :=
  { edge with
    leftColumns :=
      redactBlockedFkColumns catalog.toStore piiBlock edge.leftQualifiedName edge.leftColumns
    rightColumns :=
      redactBlockedFkColumns catalog.toStore piiBlock edge.rightQualifiedName edge.rightColumns }

/-- The checks of the input tables: each name parses and is the text of a stored table. -/
def checkTables : List String → Except ReadError Unit
  | [] => .ok ()
  | name :: rest =>
    match parseQualifiedName name with
    | .error text => .error (.valueError text)
    | .ok _ =>
      if name ∈ catalog.tables.map (·.qualified.text) then checkTables rest
      else .error (.tableNotFound (name ++ " is not in the store for source " ++
        pyRepr catalog.sourceConnectionId ++ ". Run `schemabrain index` against the source " ++
        "database first."))

/-- The alphabetical form of a pair. -/
def sortedPair (pair : String × String) : String × String :=
  if pair.1 ≤ pair.2 then pair else (pair.2, pair.1)

/-- The reported path of a pair. -/
def joinPath (pair : String × String) (edges : List JoinEdge) : JoinPath where
  startQualifiedName := pair.1
  endQualifiedName := pair.2
  hops := edges.length
  edges := edges.map (redactEdge catalog piiBlock)
  confidence := (edges.map (·.confidence)).foldr min fkConfidence

/-- `suggest_joins_impl`. -/
def suggestJoins (tables : List String) (maxHops : Int) : Except ReadError SuggestJoinsResult :=
  if maxHops ≤ 0 then
    .error (.valueError ("max_hops must be positive, got " ++ toString maxHops))
  else
    let unique := tables.eraseDups
    if unique.length < 2 then
      .error (.valueError ("suggest_joins requires at least 2 distinct tables, got " ++
        toString unique.length ++ " unique entries from " ++ pyReprList tables))
    else do
      checkTables catalog unique
      let adjacency := buildFkAdjacency (listAllForeignKeys catalog.toStore)
      let searched := (pairsInOrder unique).map fun pair =>
        (pair, bfsShortestPath adjacency pair.1 pair.2 maxHops.toNat)
      .ok {
        paths := sortedBy
          (fun path => toLex (path.hops, toLex (path.startQualifiedName, path.endQualifiedName)))
          (searched.filterMap fun item => item.2.map (joinPath catalog piiBlock item.1))
        unreachablePairs := sortedBy toLex
          (searched.filterMap fun item =>
            if item.2 = none then some (sortedPair item.1) else none) }

end Tool

/-! ## What is reported of a pair -/

section Reports

variable (catalog : Catalog) (piiBlock : List PiiCategory)

/-- The qualified names that a foreign key links to a name, in either direction. -/
def linkedNames (name : String) : List String :=
  catalog.tables.flatMap fun t => t.foreignKeys.flatMap fun fk =>
    (if t.qualified.text = name then [targetText fk] else []) ++
      if targetText fk = name then [t.qualified.text] else []

/-- The edge pairs the columns of a stored foreign key in one of its two directions, blocked
columns under their mask. -/
def PairsForeignKey (edge : JoinEdge) : Prop :=
  ∃ t ∈ catalog.tables, ∃ fk ∈ t.foreignKeys,
    edge = redactEdge catalog piiBlock ⟨fk.name, t.qualified.text, fk.sourceColumns,
        targetText fk, fk.targetColumns, fkConfidence, viaFk⟩ ∨
      edge = redactEdge catalog piiBlock ⟨fk.name, targetText fk, fk.targetColumns,
        t.qualified.text, fk.sourceColumns, fkConfidence, viaFk⟩

/-- Edges from one name to another: the right table of each is the left table of the next. -/
def Chains : String → List JoinEdge → String → Prop
  | name, [], last => name = last
  | name, edge :: rest, last =>
    edge.leftQualifiedName = name ∧ Chains edge.rightQualifiedName rest last

/-- A correct shortest path between two names. -/
structure ReportsShortest (start target : String) (path : JoinPath) : Prop where
  start_eq : path.startQualifiedName = start
  target_eq : path.endQualifiedName = target
  hops_eq : path.hops = path.edges.length
  chained : Chains start path.edges target
  paired : ∀ edge ∈ path.edges, PairsForeignKey catalog piiBlock edge
  minimal : ∀ q, Walk (linkedNames catalog) start target q → path.edges.length ≤ q.length

/-- The second name is linked to the first one by at most so many foreign keys. -/
def LinkedWithin (maxHops : Nat) (start target : String) : Prop :=
  ∃ q, Walk (linkedNames catalog) start target q ∧ q.length ≤ maxHops

/-- One call with two names: a shortest path if there is one within the bound, and an
unreachable pair otherwise. -/
structure PairAnswer (maxHops : Nat) (start target : String) (result : SuggestJoinsResult) :
    Prop where
  linked : LinkedWithin catalog maxHops start target → ∃ path, result.paths = [path] ∧
    result.unreachablePairs = [] ∧ ReportsShortest catalog piiBlock start target path
  apart : ¬ LinkedWithin catalog maxHops start target →
    result.paths = [] ∧ result.unreachablePairs = [sortedPair (start, target)]

/-- Two tables are answered for in both orders, by paths of one length. -/
def AnswersPair (maxHops : Nat) (s e : QualifiedTable) : Prop :=
  ∃ result result', suggestJoins catalog piiBlock [s.text, e.text] maxHops = .ok result ∧
    suggestJoins catalog piiBlock [e.text, s.text] maxHops = .ok result' ∧
    PairAnswer catalog piiBlock maxHops s.text e.text result ∧
    PairAnswer catalog piiBlock maxHops e.text s.text result' ∧
    result.paths.map (·.hops) = result'.paths.map (·.hops)

/-- The parser of names accepts the text. -/
def Readable (text : String) : Prop := ∃ q, parseQualifiedName text = .ok q

end Reports

/-! ## The adjacency -/

section Adjacency

variable {catalog : Catalog} {piiBlock : List PiiCategory}

/-- A foreign key with the two names it links, the first one being left. -/
def Links (row : QualifiedTable × ForeignKey) (name neighbor : String) : Prop :=
  (name = row.1.text ∧ neighbor = targetText row.2) ∨
    (name = targetText row.2 ∧ neighbor = row.1.text)

private theorem mem_addForeignKey {adjacency : FkAdjacency} {row : QualifiedTable × ForeignKey}
    {name : String} {entry : String × JoinEdgeSeed} :
    entry ∈ dictList (addForeignKey adjacency row) name ↔
      entry ∈ dictList adjacency name ∨ entry.2 = edgeSeed row ∧ Links row name entry.1 := by
  obtain ⟨neighbor, seed⟩ := entry
  unfold addForeignKey Links
  simp only [mem_dictList_dictAppend, Prod.mk.injEq, edgeSeed]
  tauto

private theorem mem_foldl_addForeignKey {rows : List (QualifiedTable × ForeignKey)}
    {adjacency : FkAdjacency} {name : String} {entry : String × JoinEdgeSeed} :
    entry ∈ dictList (rows.foldl addForeignKey adjacency) name ↔
      entry ∈ dictList adjacency name ∨
        ∃ row ∈ rows, entry.2 = edgeSeed row ∧ Links row name entry.1 := by
  induction rows generalizing adjacency with
  | nil => simp
  | cons row rows ih => rw [List.foldl_cons, ih, mem_addForeignKey]; simp [or_assoc]

private theorem mem_buildFkAdjacency {rows : List (QualifiedTable × ForeignKey)} {name : String}
    {entry : String × JoinEdgeSeed} : entry ∈ dictList (buildFkAdjacency rows) name ↔
      ∃ row ∈ rows, entry.2 = edgeSeed row ∧ Links row name entry.1 := by
  have hsorted : entry ∈ dictList (buildFkAdjacency rows) name ↔
      entry ∈ dictList (rows.foldl addForeignKey []) name := by
    rw [dictList, buildFkAdjacency, dictGet_map (sortedBy _), dictList]
    cases dictGet (rows.foldl addForeignKey []) name <;> simp
  rw [hsorted, mem_foldl_addForeignKey]
  simp [dictList]

theorem mem_listAllForeignKeys {store : Store} {row : QualifiedTable × ForeignKey} :
    row ∈ listAllForeignKeys store ↔
      ∃ t ∈ store.tables, t.qualified = row.1 ∧ row.2 ∈ t.foreignKeys := by
  obtain ⟨q, fk⟩ := row
  rw [listAllForeignKeys, mem_sortedBy]
  simp only [List.mem_flatMap, List.mem_map, Prod.mk.injEq]
  constructor
  · rintro ⟨t, ht, fk', hfk, rfl, rfl⟩
    exact ⟨t, ht, rfl, hfk⟩
  · rintro ⟨t, ht, rfl, hfk⟩
    exact ⟨t, ht, fk, hfk, rfl, rfl⟩

theorem mem_linkedNames {name neighbor : String} : neighbor ∈ linkedNames catalog name ↔
    ∃ t ∈ catalog.tables, ∃ fk ∈ t.foreignKeys, Links (t.qualified, fk) name neighbor := by
  simp only [linkedNames, Links, List.mem_flatMap, List.mem_append, List.mem_ite_nil_right,
    List.mem_singleton]
  simp only [eq_comm]

/-- The adjacency of the catalog. -/
private def fkAdjacency (catalog : Catalog) : FkAdjacency :=
  buildFkAdjacency (listAllForeignKeys catalog.toStore)

private theorem mem_fkAdjacency {name neighbor : String} {seed : JoinEdgeSeed} :
    (neighbor, seed) ∈ dictList (fkAdjacency catalog) name ↔
      ∃ t ∈ catalog.tables, ∃ fk ∈ t.foreignKeys, seed = edgeSeed (t.qualified, fk) ∧
        Links (t.qualified, fk) name neighbor := by
  rw [fkAdjacency, mem_buildFkAdjacency]
  constructor
  · rintro ⟨⟨q, fk⟩, hrow, hseed, hlinks⟩
    obtain ⟨t, ht, rfl, hfk⟩ := mem_listAllForeignKeys.1 hrow
    exact ⟨t, ht, fk, hfk, hseed, hlinks⟩
  · rintro ⟨t, ht, fk, hfk, hseed, hlinks⟩
    exact ⟨(t.qualified, fk), mem_listAllForeignKeys.2 ⟨t, ht, rfl, hfk⟩, hseed, hlinks⟩

private theorem mem_successors_fkAdjacency {name neighbor : String} :
    neighbor ∈ successors (dictList (fkAdjacency catalog)) name ↔
      neighbor ∈ linkedNames catalog name := by
  rw [mem_successors, mem_linkedNames]
  simp only [mem_fkAdjacency]
  constructor
  · rintro ⟨seed, t, ht, fk, hfk, -, hlinks⟩
    exact ⟨t, ht, fk, hfk, hlinks⟩
  · rintro ⟨t, ht, fk, hfk, hlinks⟩
    exact ⟨_, t, ht, fk, hfk, rfl, hlinks⟩

theorem linkedNames_symm {name neighbor : String} (h : neighbor ∈ linkedNames catalog name) :
    name ∈ linkedNames catalog neighbor := by
  rw [mem_linkedNames] at h ⊢
  obtain ⟨t, ht, fk, hfk, hlinks⟩ := h
  exact ⟨t, ht, fk, hfk, hlinks.symm.imp And.symm And.symm⟩

/-- Every neighbour has its own item. -/
private theorem key_of_neighbor {name neighbor : String}
    (h : neighbor ∈ successors (dictList (fkAdjacency catalog)) name) :
    neighbor ∈ (fkAdjacency catalog).map Prod.fst := by
  have hback := mem_successors_fkAdjacency.2 (linkedNames_symm (mem_successors_fkAdjacency.1 h))
  by_contra hnone
  rw [successors, dictList, dictGet_eq_none.2 hnone] at hback
  cases hback

end Adjacency

/-! ## The search -/

section Paths

variable {catalog : Catalog} {piiBlock : List PiiCategory}

private theorem chains_append {name middle last : String} {edges edges' : List JoinEdge}
    (h : Chains name edges middle) (h' : Chains middle edges' last) :
    Chains name (edges ++ edges') last := by
  induction edges generalizing name with
  | nil => exact h ▸ h'
  | cons edge edges ih => exact ⟨h.1, ih h.2⟩

private theorem chains_redact {name last : String} {edges : List JoinEdge}
    (h : Chains name edges last) :
    Chains name (edges.map (redactEdge catalog piiBlock)) last := by
  induction edges generalizing name with
  | nil => exact h
  | cons edge edges ih => exact ⟨h.1, ih h.2⟩

/-- An edge has the ends of its hop and pairs the columns of a foreign key. -/
private theorem edgeFromSeed_spec {hop : Hop String JoinEdgeSeed}
    (h : (hop.target, hop.label) ∈ dictList (fkAdjacency catalog) hop.origin) :
    (edgeFromSeed hop.label hop.origin).leftQualifiedName = hop.origin ∧
      (edgeFromSeed hop.label hop.origin).rightQualifiedName = hop.target ∧
      PairsForeignKey catalog piiBlock
        (redactEdge catalog piiBlock (edgeFromSeed hop.label hop.origin)) := by
  obtain ⟨t, ht, fk, hfk, hseed, hlinks⟩ := mem_fkAdjacency.1 h
  rw [hseed, edgeFromSeed]
  split
  · next howner =>
    refine ⟨howner.symm, ?_, t, ht, fk, hfk, .inl rfl⟩
    rcases hlinks with ⟨-, htarget⟩ | ⟨horigin, htarget⟩
    · exact htarget.symm
    -- a foreign key from a table to itself has one name on both sides
    · exact (horigin.symm.trans howner).trans htarget.symm
  · next howner =>
    rcases hlinks with ⟨horigin, -⟩ | ⟨horigin, htarget⟩
    · exact absurd horigin howner
    · exact ⟨horigin.symm, htarget.symm, t, ht, fk, hfk, .inr rfl⟩

private theorem chains_of_labelledWalk {start last : String}
    {path : List (Hop String JoinEdgeSeed)}
    (h : LabelledWalk (dictList (fkAdjacency catalog)) start last path) :
    Chains start (path.map fun hop => edgeFromSeed hop.label hop.origin) last := by
  induction path using List.reverseRecOn generalizing last with
  | nil => exact h.walk.eq_of_nil.symm
  | append_singleton path hop ih =>
    obtain ⟨hlabels, hlast⟩ := List.forall_mem_append.1 h.labels
    have hwalk := h.walk
    rw [pathEdges, List.map_append] at hwalk
    obtain ⟨rfl, hwalk, -⟩ := hwalk.of_concat
    have hedge := hlast hop (List.mem_singleton_self hop)
    obtain ⟨hleft, hright, -⟩ := @edgeFromSeed_spec catalog [] hop hedge
    rw [List.map_append]
    exact chains_append (ih ⟨hwalk, hlabels⟩) ⟨hleft, hright⟩

/-- The path of a pair, if the search finds one. -/
private def searched (catalog : Catalog) (maxHops : Nat) (start target : String) :
    Option (List JoinEdge) :=
  bfsShortestPath (fkAdjacency catalog) start target maxHops

private theorem searched_some {maxHops : Nat} {start target : String} (hne : start ≠ target)
    {edges : List JoinEdge} (h : searched catalog maxHops start target = some edges) :
    LinkedWithin catalog maxHops start target ∧ ReportsShortest catalog piiBlock start target
      (joinPath catalog piiBlock (start, target) edges) := by
  rw [searched, bfsShortestPath, Option.map_eq_some_iff] at h
  obtain ⟨path, hpath, rfl⟩ := h
  have hfinds := @breadthFirst_findsShortest _ _ _ _ start target maxHops hne.symm _
    fun v w => @key_of_neighbor catalog v w
  rw [List.length_map, hpath] at hfinds
  obtain ⟨hwalk, hlen, hshortest⟩ := hfinds
  rw [shortest_congr fun _ _ => mem_successors_fkAdjacency] at hshortest
  have hlength : (pathEdges path).length = path.length := List.length_map _
  refine ⟨⟨pathEdges path, hshortest.1, hlength ▸ hlen⟩, rfl, rfl, ?_, ?_, ?_, fun q hq => ?_⟩
  · simp [joinPath]
  · exact chains_redact (chains_of_labelledWalk hwalk)
  · intro edge hedge
    obtain ⟨_, hraw, rfl⟩ := List.mem_map.1 hedge
    obtain ⟨hop, hhop, rfl⟩ := List.mem_map.1 hraw
    exact (edgeFromSeed_spec (hwalk.labels hop hhop)).2.2
  · have hle := hshortest.2 q hq
    simpa [joinPath, pathEdges] using hle

private theorem searched_none {maxHops : Nat} {start target : String} (hne : start ≠ target)
    (h : searched catalog maxHops start target = none) :
    ¬ LinkedWithin catalog maxHops start target := by
  rw [searched, bfsShortestPath, Option.map_eq_none_iff] at h
  have hfinds := @breadthFirst_findsShortest _ _ _ _ start target maxHops hne.symm _
    fun v w => @key_of_neighbor catalog v w
  rw [List.length_map, h] at hfinds
  rintro ⟨q, hq, hle⟩
  have hlt := hfinds q (hq.congr fun _ _ => mem_successors_fkAdjacency.2)
  omega

private theorem linkedWithin_symm {maxHops : Nat} {start target : String} :
    LinkedWithin catalog maxHops start target ↔ LinkedWithin catalog maxHops target start := by
  constructor
  all_goals
    rintro ⟨q, hq, hle⟩
    obtain ⟨q', hq', hlen⟩ := hq.exists_reverse fun _ _ => linkedNames_symm
    exact ⟨q', hq', hlen ▸ hle⟩

private theorem linked_of_pairs {edge : JoinEdge} (h : PairsForeignKey catalog piiBlock edge) :
    edge.rightQualifiedName ∈ linkedNames catalog edge.leftQualifiedName := by
  obtain ⟨t, ht, fk, hfk, rfl | rfl⟩ := h
  · exact mem_linkedNames.2 ⟨t, ht, fk, hfk, .inl ⟨rfl, rfl⟩⟩
  · exact mem_linkedNames.2 ⟨t, ht, fk, hfk, .inr ⟨rfl, rfl⟩⟩

private theorem walk_of_chains {start target : String} {edges : List JoinEdge}
    (hchain : Chains start edges target)
    (hpairs : ∀ edge ∈ edges, PairsForeignKey catalog piiBlock edge) :
    ∃ q, Walk (linkedNames catalog) start target q ∧ q.length = edges.length := by
  induction edges generalizing start with
  | nil => exact ⟨[], hchain ▸ .nil, rfl⟩
  | cons edge edges ih =>
    obtain ⟨rfl, hrest⟩ := hchain
    obtain ⟨hedge, hothers⟩ := List.forall_mem_cons.1 hpairs
    obtain ⟨q, hq, hlen⟩ := ih hrest hothers
    exact ⟨_, .cons (linked_of_pairs hedge) hq, by simp [hlen]⟩

/-- Shortest paths in the two directions have one length. -/
private theorem ReportsShortest.hops_le {start target : String} {path path' : JoinPath}
    (h : ReportsShortest catalog piiBlock start target path)
    (h' : ReportsShortest catalog piiBlock target start path') : path.hops ≤ path'.hops := by
  obtain ⟨q, hq, hlen⟩ := walk_of_chains h'.chained h'.paired
  obtain ⟨q', hq', hlen'⟩ := hq.exists_reverse fun _ _ => linkedNames_symm
  have hle := h.minimal q' hq'
  rw [h.hops_eq, h'.hops_eq]
  omega

end Paths

/-! ## A call with two names -/

section Pair

variable {catalog : Catalog} {piiBlock : List PiiCategory}

/-- The names pass if and only if each is the readable text of a stored table. -/
theorem checkTables_ok_iff {names : List String} : checkTables catalog names = .ok () ↔
    ∀ name ∈ names, Readable name ∧ name ∈ catalog.tables.map (·.qualified.text) := by
  induction names with
  | nil => simp [checkTables]
  | cons name names ih =>
    rw [List.forall_mem_cons, ← ih, checkTables, Readable]
    cases hparse : parseQualifiedName name with
    | error text => simp
    | ok q =>
      by_cases hknown : name ∈ catalog.tables.map (·.qualified.text) <;> simp [hknown]

/-- The answer to two accepted names. -/
private def pairResult (catalog : Catalog) (piiBlock : List PiiCategory) (maxHops : Nat)
    (start target : String) : SuggestJoinsResult :=
  match searched catalog maxHops start target with
  | some edges => ⟨[joinPath catalog piiBlock (start, target) edges], []⟩
  | none => ⟨[], [sortedPair (start, target)]⟩

private theorem suggestJoins_pair {maxHops : Nat} (hmax : 1 ≤ maxHops) {start target : String}
    {result : SuggestJoinsResult} :
    suggestJoins catalog piiBlock [start, target] maxHops = .ok result ↔
      start ≠ target ∧ checkTables catalog [start, target] = .ok () ∧
        result = pairResult catalog piiBlock maxHops start target := by
  have hpos : ¬ (maxHops : Int) ≤ 0 := by omega
  unfold suggestJoins
  rw [if_neg hpos]
  by_cases hne : start = target
  · subst hne
    simp [List.eraseDups_cons]
  · have hunique : [start, target].eraseDups = [start, target] := by
      simp [List.eraseDups_cons, Ne.symm hne]
    have hpairs : pairsInOrder [start, target] = [(start, target)] := rfl
    simp only [hunique, hpairs, List.length_cons, List.length_nil, Nat.lt_irrefl, if_false,
      Int.toNat_natCast]
    cases hcheck : checkTables catalog [start, target] with
    | error e => simp [bind, Except.bind]
    | ok u =>
      have hsearch : bfsShortestPath (buildFkAdjacency (listAllForeignKeys catalog.toStore)) start
          target maxHops = searched catalog maxHops start target := rfl
      simp only [bind, Except.bind, List.map_cons, List.map_nil, hsearch, Except.ok.injEq]
      cases hfound : searched catalog maxHops start target with
      | none => simp [pairResult, hfound, hne, sortedBy, eq_comm]
      | some edges => simp [pairResult, hfound, hne, sortedBy, eq_comm]

private theorem pairAnswer_pairResult {maxHops : Nat} {start target : String}
    (hne : start ≠ target) : PairAnswer catalog piiBlock maxHops start target
      (pairResult catalog piiBlock maxHops start target) := by
  cases hfound : searched catalog maxHops start target with
  | none =>
    have hapart := searched_none hne hfound
    exact ⟨fun h => absurd h hapart, fun _ => by simp [pairResult, hfound]⟩
  | some edges =>
    obtain ⟨hlinked, hshortest⟩ := @searched_some _ piiBlock _ _ _ hne _ hfound
    exact ⟨fun _ => ⟨_, by simp [pairResult, hfound], by simp [pairResult, hfound], hshortest⟩,
      fun h => absurd hlinked h⟩

private theorem PairAnswer.hops_eq {maxHops : Nat} {start target : String}
    {result result' : SuggestJoinsResult}
    (h : PairAnswer catalog piiBlock maxHops start target result)
    (h' : PairAnswer catalog piiBlock maxHops target start result') :
    result.paths.map (·.hops) = result'.paths.map (·.hops) := by
  by_cases hlinked : LinkedWithin catalog maxHops start target
  · obtain ⟨path, hpaths, -, hpath⟩ := h.linked hlinked
    obtain ⟨path', hpaths', -, hpath'⟩ := h'.linked (linkedWithin_symm.1 hlinked)
    rw [hpaths, hpaths', List.map_singleton, List.map_singleton,
      Nat.le_antisymm (hpath.hops_le hpath') (hpath'.hops_le hpath)]
  · rw [(h.apart hlinked).1, (h'.apart (mt linkedWithin_symm.2 hlinked)).1]

/-- Two stored tables are answered for, by correct shortest paths, if and only if the parser of
names reads both texts and the texts are different. -/
theorem answersPair_iff (catalog : Catalog) (piiBlock : List PiiCategory) {maxHops : Nat}
    (hmax : 1 ≤ maxHops) {s e : QualifiedTable} (hs : s ∈ catalog.tables.map (·.qualified))
    (he : e ∈ catalog.tables.map (·.qualified)) :
    AnswersPair catalog piiBlock maxHops s e ↔
      Readable s.text ∧ Readable e.text ∧ s.text ≠ e.text := by
  have hknown : ∀ q ∈ catalog.tables.map (·.qualified),
      q.text ∈ catalog.tables.map (·.qualified.text) := by
    intro q hq
    obtain ⟨t, ht, rfl⟩ := List.mem_map.1 hq
    exact List.mem_map_of_mem ht
  have hcheck : ∀ q q' : QualifiedTable, q ∈ catalog.tables.map (·.qualified) →
      q' ∈ catalog.tables.map (·.qualified) →
      (checkTables catalog [q.text, q'.text] = .ok () ↔ Readable q.text ∧ Readable q'.text) := by
    intro q q' hq hq'
    rw [checkTables_ok_iff]
    simp only [List.forall_mem_cons, List.not_mem_nil, false_imp_iff, implies_true, hknown q hq,
      hknown q' hq', and_true]
  constructor
  · rintro ⟨result, _, hresult, -⟩
    obtain ⟨hne, hchecked, -⟩ := (suggestJoins_pair hmax).1 hresult
    obtain ⟨hreads, hreads'⟩ := (hcheck s e hs he).1 hchecked
    exact ⟨hreads, hreads', hne⟩
  · rintro ⟨hreads, hreads', hne⟩
    have hanswer := @pairAnswer_pairResult catalog piiBlock maxHops _ _ hne
    have hanswer' := @pairAnswer_pairResult catalog piiBlock maxHops _ _ hne.symm
    exact ⟨_, _, (suggestJoins_pair hmax).2 ⟨hne, (hcheck s e hs he).2 ⟨hreads, hreads'⟩, rfl⟩,
      (suggestJoins_pair hmax).2 ⟨hne.symm, (hcheck e s he hs).2 ⟨hreads', hreads⟩, rfl⟩,
      hanswer, hanswer', hanswer.hops_eq hanswer'⟩

/-- Orders of users, and order items in a table with a blank in its name. -/
def orderItemsCatalog : Catalog where
  tables := [⟨⟨"public", "users"⟩, [{ name := "id", dataType := "integer" }], []⟩,
    ⟨⟨"public", "orders"⟩, [{ name := "id", dataType := "integer" },
        { name := "user_id", dataType := "integer", ordinalPosition := 2 }],
      [⟨"orders_user_fk", ["user_id"], "public", "users", ["id"]⟩]⟩,
    ⟨⟨"public", "order items"⟩, [{ name := "order_id", dataType := "integer" }],
      [⟨"items_order_fk", ["order_id"], "public", "orders", ["id"]⟩]⟩]
  entities := []
  canonicalJoins := []
  metrics := []
  columnPiiTags := []

theorem answersPair_iff_orders :
    AnswersPair orderItemsCatalog [] 6 ⟨"public", "users"⟩ ⟨"public", "orders"⟩ :=
  (answersPair_iff orderItemsCatalog [] (by decide) (by decide) (by decide)).2
    ⟨⟨_, (parseQualifiedName_text_iff (by decide) (by decide)).2 ⟨rfl, by decide, by decide⟩⟩,
      ⟨_, (parseQualifiedName_text_iff (by decide) (by decide)).2 ⟨rfl, by decide, by decide⟩⟩,
      by decide⟩

/-- Order items refer to orders, and a call that names the two is refused. -/
theorem not_answersPair :
    ¬ AnswersPair orderItemsCatalog [] 6 ⟨"public", "order items"⟩ ⟨"public", "orders"⟩ := by
  rintro ⟨result, _, hresult, -⟩
  obtain ⟨-, hchecked, -⟩ := (suggestJoins_pair (by decide)).1 hresult
  obtain ⟨q, hq⟩ := (checkTables_ok_iff.1 hchecked _ List.mem_cons_self).1
  have hrefused : (parseQualifiedName "public.order items").toOption = none := by decide +kernel
  have htext : (⟨"public", "order items"⟩ : QualifiedTable).text = "public.order items" := by decide
  rw [htext] at hq
  rw [hq] at hrefused
  cases hrefused

end Pair

end SchemaBrain.Mcp
