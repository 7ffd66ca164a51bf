import Mathlib.Data.Prod.Lex
import Mathlib.Data.String.Basic
import SchemaBrain.Base.Collections
import SchemaBrain.Core.Model
import SchemaBrain.Joins.SqlTree

/-!
# Joins mined from statements

`extract_join_predicates`: the equalities in the ON clauses of a statement, between the tables
that their qualifiers name. Names are looked up in a map that is filled from the whole of the
FROM and JOIN trees, and JOIN nodes are taken from the whole statement, queries nested in it
included.
-/

namespace SchemaBrain.Joins

open Base Core

/-! ## Extracted joins -/

/-- `(schema, table)`, in the order of tuples. -/
def tableKey (q : QualifiedTable) : String ×ₗ String := toLex (q.schema, q.table)

theorem tableKey_inj {q q' : QualifiedTable} (h : tableKey q = tableKey q') : q = q' := by
  obtain ⟨schema, table⟩ := q
  obtain ⟨schema', table'⟩ := q'
  obtain ⟨rfl, rfl⟩ := Prod.mk.inj (toLex_inj.1 h)
  rfl

/-- `ExtractedJoin`: two tables in order, with the pairs of their columns in order. -/
structure ExtractedJoin where
  a : QualifiedTable
  b : QualifiedTable
  pairs : List (String × String)
  pairs_ne_nil : pairs ≠ []
  directed : tableKey a ≤ tableKey b
  sorted : pairs.Pairwise fun p p' => toLex p ≤ toLex p'
  deriving DecidableEq

/-- `ExtractedJoin.__post_init__`: the lower table comes first. -/
def makeExtracted (left right : QualifiedTable) (rawPairs : List (String × String))
    (h : rawPairs ≠ []) : ExtractedJoin :=
  if hdir : tableKey left ≤ tableKey right then
    ⟨left, right, sortedBy toLex rawPairs, by
      rwa [ne_eq, ← List.length_eq_zero_iff, sortedBy_perm.length_eq, List.length_eq_zero_iff],
      hdir, pairwise_sortedBy⟩
  else
    ⟨right, left, sortedBy toLex (rawPairs.map Prod.swap), by
      rwa [ne_eq, ← List.length_eq_zero_iff, sortedBy_perm.length_eq, List.length_map,
        List.length_eq_zero_iff], (not_le.1 hdir).le, pairwise_sortedBy⟩

/-! ## Names -/

/-- What a table node says: its table and the name it goes by. -/
def SqlNode.tableRef (n : SqlNode) : Option (String × QualifiedTable) :=
  match n.kind with
  | .table name db aliasOrName =>
    if name = "" ∨ aliasOrName = "" then none else some (aliasOrName, ⟨db, name⟩)
  | _ => none

/-- The FROM clause and the JOIN nodes of a SELECT. -/
def SqlNode.sources (select : SqlNode) : List SqlNode :=
  (select.arg "from").toList ++ select.argList "joins"

/-- The names below the FROM clause and the JOIN nodes, in the order they are recorded. -/
def recordedNames (select : SqlNode) : List (String × QualifiedTable) :=
  select.sources.flatMap fun source => source.walk.filterMap SqlNode.tableRef

/-- `_build_alias_map`. -/
def buildAliasMap (select : SqlNode) : List (String × QualifiedTable) :=
  (recordedNames select).foldl (fun aliasMap item => dictSet aliasMap item.1 item.2) []

/-! ## ON clauses -/

/-- `_walk_and_equalities`. -/
def andEqualities : SqlNode → List (SqlNode × SqlNode)
  | .and left right => andEqualities left ++ andEqualities right
  | .paren this => andEqualities this
  | .eq left right => [(left, right)]
  | .node _ _ => []

/-- `_column_ref`: the qualifier and the column. -/
def columnRef (n : SqlNode) : Option (String × String) :=
  match n.kind with
  | .column name table => if name = "" ∨ table = "" then none else some (table, name)
  | _ => none

/-- A column on a table. -/
abbrev ColEndpoint := String × QualifiedTable

/-- The column that a side of an equality names. -/
def endpoint (names : String → Option QualifiedTable) (side : SqlNode) : Option ColEndpoint :=
  (columnRef side).bind fun ref => (names ref.1).map (ref.2, ·)

/-- The equalities of an ON clause between columns of known tables. -/
def columnPairs (names : String → Option QualifiedTable) (on : SqlNode) :
    List (ColEndpoint × ColEndpoint) :=
  (andEqualities on).filterMap fun eq =>
    match endpoint names eq.1, endpoint names eq.2 with
    | some lhs, some rhs => some (lhs, rhs)
    | _, _ => none

/-- The equality links these two tables. -/
def Links (l r : QualifiedTable) (pair : ColEndpoint × ColEndpoint) : Prop :=
  (pair.1.2 = l ∧ pair.2.2 = r) ∨ (pair.1.2 = r ∧ pair.2.2 = l)

instance (l r : QualifiedTable) (pair : ColEndpoint × ColEndpoint) : Decidable (Links l r pair) :=
  inferInstanceAs (Decidable (_ ∨ _))

/-- The columns of an equality, that of the given table first. -/
def orient (l : QualifiedTable) (pair : ColEndpoint × ColEndpoint) : String × String :=
  if pair.1.2 = l then (pair.1.1, pair.2.1) else (pair.2.1, pair.1.1)

/-- The loop over the column pairs: all of them link the tables of the first one. -/
def rawPairs (l r : QualifiedTable) :
    List (ColEndpoint × ColEndpoint) → Option (List (String × String))
  | [] => some []
  | pair :: rest =>
    if Links l r pair then (rawPairs l r rest).map (orient l pair :: ·) else none

/-- `_extract_from_join_node`. The constructor's check of the pairs never fails here. -/
def extractFromJoinNode (names : String → Option QualifiedTable) (join : SqlNode) :
    Option ExtractedJoin :=
  match join.arg "on" with
  | none => none
  | some on =>
    match columnPairs names on with
    | [] => none
    | first :: rest =>
      match rawPairs first.1.2 first.2.2 (first :: rest) with
      | none => none
      | some raw =>
        if h : raw = [] then none else some (makeExtracted first.1.2 first.2.2 raw h)

/-- The node is a JOIN. -/
def SqlNode.isJoin (n : SqlNode) : Bool := n.kind = .join

/-- `extract_join_predicates` of a parsed statement: the elements of the set. -/
def extractJoinPredicates (parsed : SqlNode) : List ExtractedJoin :=
  if parsed.kind ≠ .select then []
  else
    let aliasMap := buildAliasMap parsed
    if aliasMap = [] then []
    else ((parsed.findAll SqlNode.isJoin).filterMap
      (extractFromJoinNode (dictGet aliasMap))).eraseDups

/-! ## What one JOIN node gives -/

theorem Links.swap {l r : QualifiedTable} {pair : ColEndpoint × ColEndpoint} :
    Links l r pair.swap ↔ Links l r pair := by
  simp only [Links, Prod.fst_swap, Prod.snd_swap]
  tauto

theorem links_comm {l r : QualifiedTable} {pair : ColEndpoint × ColEndpoint} :
    Links r l pair ↔ Links l r pair := Or.comm

theorem rawPairs_eq {l r : QualifiedTable} {pairs : List (ColEndpoint × ColEndpoint)} :
    rawPairs l r pairs =
      if ∀ pair ∈ pairs, Links l r pair then some (pairs.map (orient l)) else none := by
  induction pairs with
  | nil => simp [rawPairs]
  | cons pair pairs ih =>
    rw [rawPairs, ih]
    by_cases hpair : Links l r pair
    · rw [if_pos hpair]
      by_cases hrest : ∀ pair ∈ pairs, Links l r pair
      · rw [if_pos hrest, if_pos (List.forall_mem_cons.2 ⟨hpair, hrest⟩)]
        rfl
      · rw [if_neg hrest, if_neg fun h => hrest (List.forall_mem_cons.1 h).2]
        rfl
    · rw [if_neg hpair, if_neg fun h => hpair (List.forall_mem_cons.1 h).1]

/-- A join is determined by its tables and pairs. -/
theorem ExtractedJoin.eq_of {e e' : ExtractedJoin} (ha : e.a = e'.a) (hb : e.b = e'.b)
    (hpairs : e.pairs = e'.pairs) : e = e' := by
  cases e
  cases e'
  simp_all only

/-- The join reads the equalities: it links their tables and has their columns. -/
structure Reads (e : ExtractedJoin) (pairs : List (ColEndpoint × ColEndpoint)) : Prop where
  links : ∀ pair ∈ pairs, Links e.a e.b pair
  pairs_eq : e.pairs = sortedBy toLex (pairs.map (orient e.a))

private theorem orient_swap {l r : QualifiedTable} (hne : l ≠ r) {pair : ColEndpoint × ColEndpoint}
    (h : Links l r pair) : (orient l pair).swap = orient r pair := by
  rcases h with ⟨hl, hr⟩ | ⟨hr, hl⟩
  · simp [orient, hl, hne]
  · simp [orient, hr, Ne.symm hne]

private theorem reads_makeExtracted {l r : QualifiedTable}
    {pairs : List (ColEndpoint × ColEndpoint)} (hlinks : ∀ pair ∈ pairs, Links l r pair)
    (hraw : pairs.map (orient l) ≠ []) :
    Reads (makeExtracted l r (pairs.map (orient l)) hraw) pairs := by
  unfold makeExtracted
  split
  · exact ⟨hlinks, rfl⟩
  · next hdir =>
    have hne : l ≠ r := by
      rintro rfl
      exact hdir le_rfl
    refine ⟨fun pair hpair => links_comm.2 (hlinks pair hpair), ?_⟩
    dsimp only
    rw [List.map_map]
    congr 1
    exact List.map_congr_left fun pair hpair => orient_swap hne (hlinks pair hpair)

/-- Two tables in order are determined by an equality that links them. -/
private theorem eq_of_links {a b a' b' : QualifiedTable} (hdir : tableKey a ≤ tableKey b)
    (hdir' : tableKey a' ≤ tableKey b') {pair : ColEndpoint × ColEndpoint} (h : Links a b pair)
    (h' : Links a' b' pair) : a = a' ∧ b = b' := by
  have hcross : ∀ {x y : QualifiedTable}, tableKey x ≤ tableKey y → tableKey y ≤ tableKey x →
      x = y := fun hxy hyx => tableKey_inj (le_antisymm hxy hyx)
  rcases h with ⟨rfl, rfl⟩ | ⟨rfl, rfl⟩ <;> rcases h' with ⟨rfl, rfl⟩ | ⟨rfl, rfl⟩
  · exact ⟨rfl, rfl⟩
  · exact ⟨hcross hdir hdir', (hcross hdir hdir').symm⟩
  · exact ⟨hcross hdir hdir', (hcross hdir hdir').symm⟩
  · exact ⟨rfl, rfl⟩

/-- Equalities are read as one join at most. -/
theorem Reads.unique {e e' : ExtractedJoin} {pairs : List (ColEndpoint × ColEndpoint)}
    (hne : pairs ≠ []) (h : Reads e pairs) (h' : Reads e' pairs) : e = e' := by
  obtain ⟨pair, hpair⟩ := List.exists_mem_of_ne_nil pairs hne
  obtain ⟨ha, hb⟩ := eq_of_links e.directed e'.directed (h.links pair hpair) (h'.links pair hpair)
  exact ExtractedJoin.eq_of ha hb (by rw [h.pairs_eq, h'.pairs_eq, ha])

/-- A JOIN node gives the join that its equalities are read as. -/
theorem extractFromJoinNode_eq_some {names : String → Option QualifiedTable} {join : SqlNode}
    {e : ExtractedJoin} : extractFromJoinNode names join = some e ↔ ∃ on, join.arg "on" = some on ∧
      columnPairs names on ≠ [] ∧ Reads e (columnPairs names on) := by
  unfold extractFromJoinNode
  cases hon : join.arg "on" with
  | none => simp
  | some on =>
    simp only [Option.some.injEq, exists_eq_left']
    cases hpairs : columnPairs names on with
    | nil => simp
    | cons first rest =>
      simp only [ne_eq, reduceCtorEq, not_false_eq_true, true_and]
      rw [rawPairs_eq]
      by_cases hlinks : ∀ pair ∈ first :: rest, Links first.1.2 first.2.2 pair
      · rw [if_pos hlinks]
        dsimp only
        have hraw : (first :: rest).map (orient first.1.2) ≠ [] := by simp
        have hreads := reads_makeExtracted hlinks hraw
        rw [dif_neg hraw, Option.some.injEq]
        constructor
        · rintro rfl
          exact hreads
        · exact hreads.unique (List.cons_ne_nil _ _)
      · rw [if_neg hlinks]
        simp only [reduceCtorEq, false_iff]
        intro h
        refine hlinks fun pair hpair => ?_
        rcases h.links first List.mem_cons_self with ⟨ha, hb⟩ | ⟨hb, ha⟩
        · rw [ha, hb]
          exact h.links pair hpair
        · rw [ha, hb]
          exact links_comm.2 (h.links pair hpair)

/-! ## The scope of a SELECT -/

/-- The equality says that the columns of the two tables are equal, in either direction. -/
def Spells (a b : QualifiedTable) (p : String × String) (pair : ColEndpoint × ColEndpoint) : Prop :=
  pair = ((p.1, a), (p.2, b)) ∨ pair = ((p.2, b), (p.1, a))

section Scope

variable (select : SqlNode)

/-- The names of the tables in the SELECT's own FROM and JOIN list. -/
def ownNames : List (String × QualifiedTable) :=
  select.sources.flatMap fun source => source.scopeWalk.filterMap SqlNode.tableRef

/-- The JOIN nodes of the SELECT itself. -/
def ownJoins : List SqlNode :=
  select.sources.flatMap fun source => source.scopeWalk.filter SqlNode.isJoin

/-- The side is a column whose qualifier is bound to its table in the SELECT's own list. -/
def OwnColumn (side : SqlNode) (column : ColEndpoint) : Prop :=
  ∃ name, columnRef side = some (name, column.1) ∧ (name, column.2) ∈ ownNames select

/-- An equality in the AND-chain of a JOIN node, between columns that are bound in the SELECT's
own list. -/
def OwnEquality (join : SqlNode) (pair : ColEndpoint × ColEndpoint) : Prop :=
  ∃ on, join.arg "on" = some on ∧ ∃ eq ∈ andEqualities on,
    OwnColumn select eq.1 pair.1 ∧ OwnColumn select eq.2 pair.2

/-- Every column pair of the join is an equality of one of the SELECT's own JOIN nodes. -/
def FromOwnJoin (e : ExtractedJoin) : Prop :=
  ∃ join ∈ ownJoins select, ∀ p ∈ e.pairs,
    ∃ pair, OwnEquality select join pair ∧ Spells e.a e.b p pair

/-- Every extracted join comes from the SELECT itself. -/
def ScopeSound : Prop := ∀ e ∈ extractJoinPredicates select, FromOwnJoin select e

/-- The last table that is found under a name anywhere below the FROM clause and the JOINs. -/
def lastNamed (name : String) : Option QualifiedTable :=
  ((recordedNames select).reverse.find? (·.1 = name)).map (·.2)

/-- The equalities of a JOIN node, read with the names of the whole statement. -/
def statementEqualities (join : SqlNode) : List (ColEndpoint × ColEndpoint) :=
  ((join.arg "on").map (columnPairs (lastNamed select))).getD []

/-- The equalities are those of one of the SELECT's own JOIN nodes, with its own names. -/
def OwnEqualities (pairs : List (ColEndpoint × ColEndpoint)) : Prop :=
  ∃ join ∈ ownJoins select, ∀ pair ∈ pairs,
    OwnEquality select join pair ∨ OwnEquality select join pair.swap

end Scope

/-! ## Soundness of the scope -/

section Sound

variable {select : SqlNode}

theorem dictGet_buildAliasMap : dictGet (buildAliasMap select) = lastNamed select := by
  funext name
  have hloop := @dictGet_foldl_dictSet _ _ _ [] name _ Prod.fst Prod.snd (recordedNames select)
  simpa [buildAliasMap, lastNamed] using hloop

theorem mem_extractJoinPredicates (hselect : select.kind = .select) {e : ExtractedJoin} :
    e ∈ extractJoinPredicates select ↔ ∃ join, select.Below join ∧ join.isJoin = true ∧
      statementEqualities select join ≠ [] ∧ Reads e (statementEqualities select join) := by
  have hnode : ∀ join, extractFromJoinNode (lastNamed select) join = some e ↔
      statementEqualities select join ≠ [] ∧ Reads e (statementEqualities select join) := by
    intro join
    rw [extractFromJoinNode_eq_some, statementEqualities]
    cases join.arg "on" <;> simp
  unfold extractJoinPredicates
  rw [if_neg (by simp [hselect])]
  dsimp only
  split
  · next hempty =>
    have hnone : ∀ join, statementEqualities select join = [] := by
      intro join
      have hlast : ∀ name, lastNamed select name = none := by
        intro name
        rw [← dictGet_buildAliasMap, hempty, dictGet_nil]
      rw [statementEqualities]
      cases join.arg "on" with
      | none => rfl
      | some on =>
        rw [Option.map_some, Option.getD_some, columnPairs, List.filterMap_eq_nil_iff]
        intro eq _
        have hside : endpoint (lastNamed select) eq.1 = none := by
          rw [endpoint]
          cases columnRef eq.1 <;> simp [hlast]
        rw [hside]
    simp [hnone]
  · rw [dictGet_buildAliasMap, List.mem_eraseDups, List.mem_filterMap]
    simp only [SqlNode.mem_findAll, hnode, and_assoc]

theorem Spells.swap {a b : QualifiedTable} {p : String × String}
    {pair : ColEndpoint × ColEndpoint} (h : Spells a b p pair) : Spells a b p pair.swap := by
  rcases h with rfl | rfl
  · exact .inr rfl
  · exact .inl rfl

theorem Spells.eq_or_swap {a b : QualifiedTable} {p : String × String}
    {pair pair' : ColEndpoint × ColEndpoint} (h : Spells a b p pair) (h' : Spells a b p pair') :
    pair' = pair ∨ pair' = pair.swap := by
  rcases h with rfl | rfl <;> rcases h' with rfl | rfl
  · exact .inl rfl
  · exact .inr rfl
  · exact .inr rfl
  · exact .inl rfl

theorem spells_orient {a b : QualifiedTable} {pair : ColEndpoint × ColEndpoint}
    (h : Links a b pair) : Spells a b (orient a pair) pair := by
  obtain ⟨⟨col, table⟩, col', table'⟩ := pair
  unfold orient
  split
  · next hfirst =>
    rcases h with ⟨rfl, rfl⟩ | ⟨rfl, rfl⟩
    · exact .inl rfl
    · have hsame : table = table' := hfirst
      subst hsame
      exact .inl rfl
  · next hfirst =>
    rcases h with ⟨rfl, rfl⟩ | ⟨rfl, rfl⟩
    · exact absurd rfl hfirst
    · exact .inr rfl

private theorem fromOwnJoin_iff {e : ExtractedJoin} {pairs : List (ColEndpoint × ColEndpoint)}
    (h : Reads e pairs) : FromOwnJoin select e ↔ OwnEqualities select pairs := by
  have hmem : ∀ p, p ∈ e.pairs ↔ ∃ pair ∈ pairs, orient e.a pair = p := by
    intro p
    rw [h.pairs_eq, mem_sortedBy, List.mem_map]
  have hspell : ∀ pair ∈ pairs, Spells e.a e.b (orient e.a pair) pair :=
    fun pair hpair => spells_orient (h.links pair hpair)
  constructor
  · rintro ⟨join, hjoin, hall⟩
    refine ⟨join, hjoin, fun pair hpair => ?_⟩
    obtain ⟨pair', hown, hspells⟩ := hall _ ((hmem _).2 ⟨pair, hpair, rfl⟩)
    rcases (hspell pair hpair).eq_or_swap hspells with rfl | rfl
    · exact .inl hown
    · exact .inr hown
  · rintro ⟨join, hjoin, hall⟩
    refine ⟨join, hjoin, fun p hp => ?_⟩
    obtain ⟨pair, hpair, rfl⟩ := (hmem p).1 hp
    rcases hall pair hpair with hown | hown
    · exact ⟨pair, hown, hspell pair hpair⟩
    · exact ⟨pair.swap, hown, (hspell pair hpair).swap⟩

/-- Equalities between two tables are read as a join. -/
theorem exists_reads {l r : QualifiedTable} {pairs : List (ColEndpoint × ColEndpoint)}
    (hne : pairs ≠ []) (hlinks : ∀ pair ∈ pairs, Links l r pair) : ∃ e, Reads e pairs := by
  have hraw : pairs.map (orient l) ≠ [] := by simpa using hne
  exact ⟨_, reads_makeExtracted hlinks hraw⟩

/-- The extraction is sound if and only if every JOIN node below the SELECT whose equalities,
read with the last table of each name, link two tables, has the equalities of one of the
SELECT's own JOIN nodes with its own names. -/
theorem scopeSound_iff (hselect : select.kind = .select) : ScopeSound select ↔
    ∀ join, select.Below join → join.isJoin = true → statementEqualities select join ≠ [] →
      (∃ l r, ∀ pair ∈ statementEqualities select join, Links l r pair) →
        OwnEqualities select (statementEqualities select join) := by
  constructor
  · rintro hsound join hbelow hjoin hne ⟨l, r, hlinks⟩
    obtain ⟨e, he⟩ := exists_reads hne hlinks
    exact (fromOwnJoin_iff he).1
      (hsound e ((mem_extractJoinPredicates hselect).2 ⟨join, hbelow, hjoin, hne, he⟩))
  · intro hall e he
    obtain ⟨join, hbelow, hjoin, hne, hreads⟩ := (mem_extractJoinPredicates hselect).1 he
    exact (fromOwnJoin_iff hreads).2
      (hall join hbelow hjoin hne ⟨e.a, e.b, hreads.links⟩)

/-! ## Two statements -/

/-- A table of the schema `public` under an alias. -/
def tableNode (name aliasName : String) : SqlNode := .node (.table name "public" aliasName) []

/-- A qualified column. -/
def columnNode (qualifier name : String) : SqlNode := .node (.column name qualifier) []

/-- `SELECT ... FROM from JOIN this ON on`. -/
def selectJoin (source this on : SqlNode) : SqlNode :=
  .node .select [("from", .node .other [("this", source)]),
    ("joins", .node .join [("this", this), ("on", on)])]

/-- `SELECT * FROM users u JOIN orders o ON u.id = o.user_id`. -/
def ordersStatement : SqlNode :=
  selectJoin (tableNode "users" "u") (tableNode "orders" "o")
    (.eq (columnNode "u" "id") (columnNode "o" "user_id"))

theorem scopeSound_iff_orders : ScopeSound ordersStatement := by
  refine (scopeSound_iff rfl).2 fun join hbelow hjoin _ _ => ?_
  have hwalk : ordersStatement.findAll SqlNode.isJoin = ownJoins ordersStatement := rfl
  have hown : join ∈ ownJoins ordersStatement := hwalk ▸ SqlNode.mem_findAll.2 ⟨hbelow, hjoin⟩
  refine ⟨join, hown, fun pair hpair => .inl ?_⟩
  obtain rfl := List.mem_singleton.1 hown
  obtain rfl := List.mem_singleton.1 hpair
  exact ⟨_, rfl, _, List.mem_singleton_self _, ⟨"u", rfl, by decide⟩, "o", rfl, by decide⟩

/-- `SELECT * FROM orders o JOIN (SELECT ... FROM users a JOIN accounts b ON a.account_id = b.id)
s ON s.id = o.user_id`. -/
def nestedStatement : SqlNode :=
  selectJoin (tableNode "orders" "o")
    (.node .other [("this", selectJoin (tableNode "users" "a") (tableNode "accounts" "b")
      (.eq (columnNode "a" "account_id") (columnNode "b" "id")))])
    (.eq (columnNode "s" "id") (columnNode "o" "user_id"))

/-- The join of the nested query. -/
private def accountsJoin : ExtractedJoin where
  a := ⟨"public", "accounts"⟩
  b := ⟨"public", "users"⟩
  pairs := [("id", "account_id")]
  pairs_ne_nil := List.cons_ne_nil _ _
  directed := by decide
  sorted := List.pairwise_singleton _ _

/-- The join of the nested query is extracted, and its tables are not in the FROM and JOIN list
of the statement. -/
theorem not_scopeSound : ¬ ScopeSound nestedStatement := by
  intro h
  have hextracted : accountsJoin ∈ extractJoinPredicates nestedStatement := by decide
  obtain ⟨join, -, hall⟩ := h _ hextracted
  obtain ⟨pair, ⟨on, -, eq, -, ⟨name, -, hname⟩, -⟩, hspells⟩ := hall _ List.mem_cons_self
  have hnames : ownNames nestedStatement = [("o", ⟨"public", "orders"⟩)] := rfl
  rw [hnames, List.mem_singleton, Prod.mk.injEq] at hname
  rcases hspells with rfl | rfl
  · exact absurd hname.2 (by decide)
  · exact absurd hname.2 (by decide)

end Sound

end SchemaBrain.Joins
