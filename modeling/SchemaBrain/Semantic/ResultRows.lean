import SchemaBrain.Base.RowOrder
import SchemaBrain.Semantic.OutputNames
import Mathlib.Order.WithBot

/-!
# Result rows

What a statement returns over a database: the tuples that its WHERE clause keeps, their
groups, and the orders of the groups that its ORDER BY clause allows. How a database
truncates times, compares values in filters and aggregates is left open.
-/

namespace SchemaBrain.Semantic

open Base Core

/-- The rows of the tables, and what the database makes of values. -/
structure Database (V : Type) where
  rows : QualifiedTable → List (Row V)
  truncate : TimeGrain → Option V → Option V
  passes : Operator → List PyValue → Option V → Bool
  aggregate : MetricMeasure → List (Row V) → Option V

section Results

variable {V : Type}

/-- The column of a tuple that a reference names. -/
def ColumnRef.of (ref : ColumnRef) (t : Tuple V) : Option V := t.value ref.aliasName ref.column

/-- The value of an item over a group. A group has one value of its keys: the first
tuple's. -/
def SelectItem.value (db : Database V) (group : List (Tuple V)) : SelectItem → Option V
  | timeBucket grain ref => db.truncate grain (group.head?.bind ref.of)
  | groupColumn ref _ => group.head?.bind ref.of
  | measure m anchorAlias _ => db.aggregate m (group.map fun t => t.value anchorAlias)

/-- NULL sorts as if it were larger than any value. -/
def nullLargest (v : Option V) : WithTop V := v.elim ⊤ fun x => x

theorem nullLargest_injective : Function.Injective (nullLargest (V := V)) := by
  rintro (_ | v) (_ | v') h
  · rfl
  · exact absurd h WithTop.top_ne_coe
  · exact absurd h WithTop.coe_ne_top
  · exact congrArg some (WithTop.coe_injective h)

namespace Query

variable (q : Query) (db : Database V) (params : List (String × PyValue))

/-- A GROUP BY or ORDER BY name is that of two items: the database refuses the statement. -/
def Ambiguous : Prop :=
  ∃ name ∈ q.groupBy ++ q.orderBy.map (·.expression),
    1 < (q.select.filter (·.outputName = name)).length

/-- The value over a group of the item with a name. -/
def valueNamed (name : String) (group : List (Tuple V)) : Option V :=
  (q.select.find? (·.outputName = name)).bind (·.value db group)

/-- The GROUP BY key of a tuple. -/
def groupKey (t : Tuple V) : List (Option V) := q.groupBy.map (q.valueNamed db · [t])

/-- The keys of the ORDER BY clause. -/
def sortKeys : List (SortKey (List (Tuple V)) (WithTop V)) :=
  q.orderBy.map fun clause => ⟨fun group => nullLargest (q.valueNamed db clause.expression group),
    clause.direction = .desc⟩

variable [DecidableEq V]

/-- The tuples that the WHERE clause keeps. -/
def kept : List (Tuple V) :=
  (q.relation db.rows).filter fun t => q.filters.all fun clause =>
    db.passes clause.op (clause.paramNames.filterMap (List.lookup · params)) (clause.column.of t)

/-- The groups: one a key, or all tuples without a GROUP BY clause. -/
def groups : List (List (Tuple V)) :=
  if q.groupBy = [] then [q.kept db params]
  else ((q.kept db params).map (q.groupKey db)).eraseDups.map fun key =>
    (q.kept db params).filter (q.groupKey db · = key)

end Query

end Results

/-! ## Tuples -/

section Tuples

variable {V : Type} [DecidableEq V] {rows : QualifiedTable → List (Row V)} {anchor : String}
  {joins : List ResolvedJoin}

/-- The sides of a join's pairs are columns of its source and of its target. -/
theorem aliases_of_clause {join : ResolvedJoin} {p : ColumnRef × ColumnRef}
    (hp : p ∈ join.clause.on) :
    p.1.aliasName = join.sourceAlias ∧ p.2.aliasName = join.targetAlias := by
  obtain ⟨pair, -, rfl⟩ := List.mem_map.1 hp
  exact ⟨rfl, rfl⟩

/-- A join holds of an extended tuple as it did before. -/
private theorem holds_extend_old {join : ResolvedJoin} {t : Tuple V} {b : Bound V}
    (hsource : join.sourceAlias ∈ t.rows.map (·.aliasName))
    (htarget : join.targetAlias ∈ t.rows.map (·.aliasName)) :
    join.clause.holds (t.extend b) = join.clause.holds t := by
  unfold JoinClause.holds
  rw [Bool.eq_iff_iff, List.all_eq_true, List.all_eq_true]
  refine forall₂_congr fun p hp => ?_
  obtain ⟨h₁, h₂⟩ := aliases_of_clause hp
  rw [Tuple.value_extend_of_mem (h₁ ▸ hsource), Tuple.value_extend_of_mem (h₂ ▸ htarget)]

/-- Every tuple of the joins has their aliases, and all their clauses hold of it. -/
theorem joinRows_holds (hscoped : Resolver.Scoped anchor joins) {tuples : List (Tuple V)}
    (htuples : ∀ t ∈ tuples, t.rows.map (·.aliasName) = [anchor]) :
    ∀ t ∈ Query.joinRows rows tuples (joins.map (·.clause)),
      t.rows.map (·.aliasName) = anchor :: joins.map (·.targetAlias) ∧
        ∀ join ∈ joins, join.clause.holds t = true := by
  induction hscoped with
  | nil => exact fun t ht => ⟨htuples t ht, by simp⟩
  | @snoc joins join hscoped hsource hanchor hnew ih =>
    intro t ht
    rw [List.map_append, Query.joinRows, List.foldl_append] at ht
    obtain ⟨t', ht', b, hb, hon, rfl⟩ := mem_innerJoin.1 ht
    obtain ⟨haliases, hholds⟩ := ih t' ht'
    constructor
    · rw [Tuple.rows_extend, List.map_append, haliases, List.map_singleton, (mem_scan hb).1,
        List.map_append, List.map_singleton, List.cons_append]
      rfl
    · intro join' hjoin'
      rcases List.mem_append.1 hjoin' with hjoin' | hjoin'
      · rw [holds_extend_old]
        · exact hholds join' hjoin'
        · rw [haliases, List.mem_cons]
          exact hscoped.source hjoin'
        · rw [haliases]
          exact List.mem_cons_of_mem _ (List.mem_map_of_mem hjoin')
      · rw [List.mem_singleton.1 hjoin']
        exact hon

/-- Rows under the aliases of the joins, equal on all pairs, make a tuple. -/
theorem exists_joinRows (hscoped : Resolver.Scoped anchor joins) (tuples : List (Tuple V))
    (row : String → Row V)
    (hstart : ∃ t ∈ tuples, t.rows.map (·.aliasName) = [anchor] ∧
      ∀ column, t.value anchor column = row anchor column)
    (hrows : ∀ join ∈ joins, row join.targetAlias ∈ rows join.targetTable)
    (hon : ∀ join ∈ joins, ∀ p ∈ join.clause.on,
      sqlEq (row p.1.aliasName p.1.column) (row p.2.aliasName p.2.column) = true) :
    ∃ t ∈ Query.joinRows rows tuples (joins.map (·.clause)),
      t.rows.map (·.aliasName) = anchor :: joins.map (·.targetAlias) ∧
        ∀ aliasName ∈ anchor :: joins.map (·.targetAlias), ∀ column,
          t.value aliasName column = row aliasName column := by
  induction hscoped with
  | nil =>
    obtain ⟨t, ht, haliases, hvalue⟩ := hstart
    exact ⟨t, ht, haliases, by simpa using hvalue⟩
  | @snoc joins join hscoped hsource hanchor hnew ih =>
    obtain ⟨t, ht, haliases, hvalue⟩ := ih (fun j hj => hrows j (List.mem_append_left _ hj))
      fun j hj => hon j (List.mem_append_left _ hj)
    obtain ⟨b, hb, hname, hrow⟩ := exists_mem_scan join.targetAlias (hrows join (by simp))
    have hfresh : b.aliasName ∉ t.rows.map (·.aliasName) := by
      rw [hname, haliases, List.mem_cons, not_or]
      exact ⟨hanchor, hnew⟩
    have hvalue' : ∀ aliasName ∈ anchor :: (joins ++ [join]).map (·.targetAlias), ∀ column,
        (t.extend b).value aliasName column = row aliasName column := by
      intro aliasName hmem column
      rw [List.map_append, ← List.cons_append, List.mem_append, List.map_singleton,
        List.mem_singleton] at hmem
      rcases hmem with hmem | rfl
      · rw [Tuple.value_extend_of_mem (haliases ▸ hmem), hvalue aliasName hmem]
      · rw [← hname, Tuple.value_extend_new hfresh, hname, hrow]
    refine ⟨t.extend b, ?_, ?_, hvalue'⟩
    · rw [List.map_append, Query.joinRows, List.foldl_append]
      refine mem_innerJoin.2 ⟨t, ht, b, hb, ?_, rfl⟩
      refine List.all_eq_true.2 fun p hp => ?_
      obtain ⟨h₁, h₂⟩ := aliases_of_clause hp
      rw [hvalue', hvalue']
      · exact hon join (by simp) p hp
      · rw [h₂]
        exact List.mem_cons_of_mem _ (List.mem_map_of_mem (by simp))
      · rw [h₁, List.mem_cons, List.map_append, List.mem_append]
        exact hsource.imp_right .inl
    · rw [Tuple.rows_extend, List.map_append, haliases, List.map_singleton, hname,
        List.map_append, List.map_singleton, List.cons_append]

end Tuples

end SchemaBrain.Semantic
