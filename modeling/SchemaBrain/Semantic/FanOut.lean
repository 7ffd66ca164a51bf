import SchemaBrain.Semantic.Emit
import SchemaBrain.Semantic.TimeBucket

/-!
# Fan-out

What a declared cardinality promises about the rows of the two ends of a join, and the
FROM and JOIN clauses of a plan without fan-out: no row of the anchor occurs twice.
-/

namespace SchemaBrain.Core

open Base

section Cardinalities

variable {V : Type} [DecidableEq V]

/-- Each row of the left table matches one row of the right table at most. -/
def AtMostOne (agree : Row V → Row V → Bool) (left right : List (Row V)) : Prop :=
  ∀ row ∈ left, (right.filter (agree row)).length ≤ 1

instance (agree : Row V → Row V → Bool) (left right : List (Row V)) :
    Decidable (AtMostOne agree left right) :=
  inferInstanceAs (Decidable (∀ row ∈ left, _))

/-- Whether the pairs agree on two rows. -/
def pairsAgree (pairs : List JoinColumnPair) (left right : Row V) : Bool :=
  pairs.all fun p => sqlEq (left p.sourceColumn) (right p.targetColumn)

/-- Swapped pairs read the rows the other way round. -/
theorem pairsAgree_swap (pairs : List JoinColumnPair) (left right : Row V) :
    pairsAgree (pairs.map (·.swap)) left right = pairsAgree pairs right left := by
  unfold pairsAgree
  rw [List.all_map]
  congr 1
  funext p
  exact sqlEq_comm _ _

/-- The rows of the two ends of a join keep its declared cardinality. -/
def CanonicalJoin.Respects (join : CanonicalJoin) (source target : List (Row V)) : Prop :=
  match join.cardinality with
  | some .manyToOne => AtMostOne (pairsAgree join.on) source target
  | some .oneToMany => AtMostOne (fun row row' => pairsAgree join.on row' row) target source
  | some .oneToOne => AtMostOne (pairsAgree join.on) source target ∧
      AtMostOne (fun row row' => pairsAgree join.on row' row) target source
  | some .manyToMany | none => True

/-- Every canonical join keeps its declared cardinality on an instance. -/
def Store.RespectsCardinalities (store : Store) (rows : QualifiedTable → List (Row V)) : Prop :=
  ∀ join ∈ store.canonicalJoins, ∀ source target,
    store.getEntity join.sourceEntity = some source →
    store.getEntity join.targetEntity = some target →
    join.Respects (rows source.binding) (rows target.binding)

end Cardinalities

end SchemaBrain.Core

namespace SchemaBrain.Semantic

open Base Core

namespace Resolver

variable {r : Resolver} {V : Type} {rows : QualifiedTable → List (Row V)}

/-- A link without fan-out finds one row at most, whichever way it walks its join. -/
theorem HasChain.atMostOne [DecidableEq V] {f : String} {chain : List (String × ChainEdge)}
    (h : r.HasChain f chain) {link : String × ChainEdge} (hlink : link ∈ chain)
    (hrows : r.store.RespectsCardinalities rows) (hfan : (r.linkJoin link).fansOut = false) :
    AtMostOne (pairsAgree link.2.onPairsInChainDirection) (rows (r.tableOf link.1))
      (rows (r.tableOf link.2.targetEntityInChain)) := by
  obtain ⟨from_, edge⟩ := link
  obtain ⟨entry, hentry, hedge⟩ := h.2.exists_entry h.1 hlink
  obtain rfl : edge = entry.toChainEdge := hedge
  obtain ⟨hjoin, hends⟩ := entry_spec hentry
  obtain ⟨source, hsource⟩ := Store.exists_joinSource hjoin
  obtain ⟨target, htarget⟩ := Store.exists_joinTarget hjoin
  have hkeeps := hrows entry.join (Store.mem_listCanonicalJoins.1 hjoin) source target hsource
    htarget
  rw [← tableOf_eq hsource, ← tableOf_eq htarget] at hkeeps
  simp only [ResolvedJoin.fansOut, linkJoin, GraphEntry.toChainEdge] at hfan ⊢
  unfold CanonicalJoin.Respects at hkeeps
  rcases hends with ⟨hrev, hentity, hneighbor, hpairs⟩ | ⟨hrev, hentity, hneighbor, hpairs⟩
  · rw [show from_ = entry.join.sourceEntity from hentity, hneighbor, hpairs]
    cases hcard : entry.join.cardinality with
    | none => simp [hrev, hcard] at hfan
    | some cardinality =>
      cases cardinality with
      | oneToOne => exact (by simpa [hcard] using hkeeps : _ ∧ _).1
      | manyToOne => simpa [hcard] using hkeeps
      | oneToMany => simp [hrev, hcard] at hfan
      | manyToMany => simp [hrev, hcard] at hfan
  · rw [show from_ = entry.join.targetEntity from hentity, hneighbor, hpairs]
    have hswap : pairsAgree (V := V) (entry.join.on.map (·.swap)) =
        fun row row' => pairsAgree entry.join.on row' row := by
      funext row row'
      exact pairsAgree_swap _ row row'
    rw [hswap]
    cases hcard : entry.join.cardinality with
    | none => simp [hrev, hcard, flipCardinality] at hfan
    | some cardinality =>
      cases cardinality with
      | oneToOne => exact (by simpa [hcard] using hkeeps : _ ∧ _).2
      | oneToMany => simpa [hcard] using hkeeps
      | manyToOne => simp [hrev, hcard, flipCardinality, Cardinality.flip] at hfan
      | manyToMany => simp [hrev, hcard, flipCardinality, Cardinality.flip] at hfan

/-! ## Tuples -/

/-- The aliases of a tuple, each over a row of the table bound to it. -/
structure Binds (r : Resolver) (rows : QualifiedTable → List (Row V)) (aliases : List String)
    (t : Tuple V) : Prop where
  aliases_eq : t.rows.map (·.aliasName) = aliases
  row_mem : ∀ b ∈ t.rows, b.row ∈ rows (r.tableOf b.aliasName)

theorem Binds.exists_row {aliases : List String} {t : Tuple V} (h : r.Binds rows aliases t)
    {aliasName : String} (hmem : aliasName ∈ aliases) :
    ∃ b, t.rows.find? (·.aliasName = aliasName) = some b ∧
      b.row ∈ rows (r.tableOf aliasName) := by
  rw [← h.aliases_eq] at hmem
  obtain ⟨b, hb, hname⟩ := List.mem_map.1 hmem
  cases hfind : t.rows.find? (·.aliasName = aliasName) with
  | none => exact absurd (List.find?_eq_none.1 hfind b hb) (by simpa using hname)
  | some b' =>
    have hname' : b'.aliasName = aliasName := by simpa using List.find?_some hfind
    exact ⟨b', rfl, hname' ▸ h.row_mem b' (List.mem_of_find?_eq_some hfind)⟩

theorem Binds.extend {aliases : List String} {t : Tuple V} (h : r.Binds rows aliases t)
    {b : Bound V} (hrow : b.row ∈ rows (r.tableOf b.aliasName)) :
    r.Binds rows (aliases ++ [b.aliasName]) (t.extend b) where
  aliases_eq := by rw [Tuple.rows_extend, List.map_append, h.aliases_eq, List.map_singleton]
  row_mem b' hb' := by
    rw [Tuple.rows_extend] at hb'
    rcases List.mem_append.1 hb' with hb' | hb'
    · exact h.row_mem b' hb'
    · exact List.mem_singleton.1 hb' ▸ hrow

/-- The ON pairs of a new alias compare the source row with the new one. -/
theorem Binds.holds_extend [DecidableEq V] {aliases : List String} {t : Tuple V}
    (h : r.Binds rows aliases t) {join : ResolvedJoin} {b b' : Bound V}
    (hsource : t.rows.find? (·.aliasName = join.sourceAlias) = some b)
    (hname : b'.aliasName = join.targetAlias) (hnew : join.targetAlias ∉ aliases) :
    join.clause.holds (t.extend b') = pairsAgree join.onPairs b.row b'.row := by
  rw [← hname, ← h.aliases_eq] at hnew
  unfold JoinClause.holds ResolvedJoin.clause pairsAgree
  rw [List.all_map]
  congr 1
  funext p
  simp only [Function.comp_apply, Tuple.value_extend_old hsource, ← hname,
    Tuple.value_extend_new hnew]

/-- The tuples behind some joins of a plan: their rows come from the tables of their aliases,
and without fan-out they hold each first row once at most. -/
theorem joinRows_spec [DecidableEq V] (hrows : r.store.RespectsCardinalities rows)
    {joins : List ResolvedJoin} (hscoped : Scoped (aliasFor r.metric.entity) joins)
    (hlinks : ∀ join ∈ joins, ∃ f chain link, r.HasChain f chain ∧ link ∈ chain ∧
      join = r.linkJoin link)
    (hfan : ∀ join ∈ joins, join.fansOut = false) {tuples : List (Tuple V)}
    (htuples : ∀ t ∈ tuples, r.Binds rows [aliasFor r.metric.entity] t) :
    (∀ t ∈ Query.joinRows rows tuples (joins.map (·.clause)),
      r.Binds rows (aliasFor r.metric.entity :: joins.map (·.targetAlias)) t) ∧
    ((Query.joinRows rows tuples (joins.map (·.clause))).map (·.first)).Sublist
      (tuples.map (·.first)) := by
  induction hscoped with
  | nil => exact ⟨htuples, .refl _⟩
  | @snoc joins join hscoped hsource hanchor hnew ih =>
    obtain ⟨hbinds, hsublist⟩ := ih (fun j hj => hlinks j (List.mem_append_left _ hj))
      fun j hj => hfan j (List.mem_append_left _ hj)
    obtain ⟨f, chain, link, hchain, hlink, rfl⟩ := hlinks join (by simp)
    have hone := hchain.atMostOne hlink hrows (hfan _ (by simp))
    have hnew' : (r.linkJoin link).targetAlias ∉
        aliasFor r.metric.entity :: joins.map (·.targetAlias) := by
      rw [List.mem_cons, not_or]
      exact ⟨hanchor, hnew⟩
    simp only [List.map_append, List.map_singleton, Query.joinRows, List.foldl_append,
      List.foldl_cons, List.foldl_nil]
    constructor
    · intro t ht
      obtain ⟨t', ht', b, hb, -, rfl⟩ := mem_innerJoin.1 ht
      obtain ⟨hname, hrow⟩ := mem_scan hb
      have hrow' : b.row ∈ rows (r.tableOf b.aliasName) := by
        rw [hname]
        exact hrow
      have hextend := (hbinds t' ht').extend hrow'
      rwa [hname, List.cons_append] at hextend
    · refine (innerJoin_first_sublist fun t ht => ?_).trans hsublist
      obtain ⟨b, hfind, hrow⟩ := (hbinds t ht).exists_row (List.mem_cons.2 hsource)
      have hfilter : (scan (r.linkJoin link).clause.aliasName
            (rows (r.linkJoin link).clause.table)).filter
              (fun b' => (r.linkJoin link).clause.holds (t.extend b')) =
          (scan (r.linkJoin link).clause.aliasName
            (rows (r.linkJoin link).clause.table)).filter
              (fun b' => pairsAgree link.2.onPairsInChainDirection b.row b'.row) := by
        refine List.filter_congr fun b' hb' => ?_
        exact (hbinds t ht).holds_extend hfind (mem_scan hb').1 hnew'
      rw [hfilter, length_filter_scan]
      exact hone b.row hrow

end Resolver

/-- No declared fan-out, no repetition: over rows that keep the declared cardinalities, the
FROM and JOIN clauses of a plan with an empty `fan_out_join_names` hold every anchor row once
at most, and so every value computed from it. -/
theorem anchor_rows_once {store : Store} {req : MetricRequest} {plan : MetricPlan}
    (hplan : resolveMetricPlan store req = .ok plan) (hfan : plan.fanOutJoinNames = [])
    {V : Type} [DecidableEq V] {rows : QualifiedTable → List (Row V)}
    (hrows : store.RespectsCardinalities rows) :
    ∃ q params, emitQuery plan = .ok (q, params) ∧
      ((q.relation rows).map (·.first.position)).Nodup ∧
      ∀ {W : Type} (measure : Row V → W),
        ((q.relation rows).map fun t => measure t.first.row).Sublist
          ((rows plan.anchorTable).map measure) := by
  obtain ⟨q, params, hemit⟩ := exists_emitQuery hplan
  refine ⟨q, params, hemit, ?_⟩
  obtain ⟨r, rfl, -, -, -, -, hof⟩ := resolveMetricPlan_ok hplan
  obtain ⟨-, htable, halias, hjoins, -⟩ := emitQuery_ok hemit
  have hfan' : ∀ join ∈ plan.joins, join.fansOut = false := by
    simpa [MetricPlan.fanOutJoinNames, List.filter_eq_nil_iff] using hfan
  have hlinks : ∀ join ∈ plan.joins, ∃ f chain link, r.HasChain f chain ∧ link ∈ chain ∧
      join = r.linkJoin link := by
    intro join hjoin
    obtain ⟨link, hlink, rfl⟩ := (hof.joins_of.mem_iff join).1 hjoin
    obtain ⟨f, chain, hchain, hmem⟩ := hof.joins_of.on_chain link hlink
    exact ⟨f, chain, link, hchain, hmem, rfl⟩
  have hstart : ∀ t ∈ (scan q.anchorAlias (rows q.anchorTable)).map fun b => (⟨b, []⟩ : Tuple V),
      r.Binds rows [aliasFor r.metric.entity] t := by
    intro t ht
    obtain ⟨b, hb, rfl⟩ := List.mem_map.1 ht
    obtain ⟨hname, hrow⟩ := mem_scan hb
    rw [halias, hof.anchorAlias_eq] at hname
    refine ⟨by simp [Tuple.rows, hname], ?_⟩
    intro b' hb'
    rw [List.mem_singleton.1 hb', hname, aliasFor, hof.anchored.tableOf, ← hof.anchorTable_eq,
      ← htable]
    exact hrow
  have hsublist := (Resolver.joinRows_spec hrows hof.joins_of.well_scoped hlinks hfan' hstart).2
  rw [← hjoins] at hsublist
  change ((q.relation rows).map (·.first)).Sublist _ at hsublist
  rw [List.map_map, htable] at hsublist
  constructor
  · have hpositions := hsublist.map (·.position)
    rw [List.map_map, List.map_map] at hpositions
    refine List.Nodup.sublist hpositions ?_
    have := scan_map_position q.anchorAlias (rows plan.anchorTable)
    exact (this ▸ List.nodup_range : ((scan q.anchorAlias (rows plan.anchorTable)).map
      (·.position)).Nodup)
  · intro W measure
    have hvalues := hsublist.map fun b => measure b.row
    rw [List.map_map, List.map_map] at hvalues
    conv_rhs => rw [← scan_map_row q.anchorAlias (rows plan.anchorTable), List.map_map]
    exact hvalues

/-- Two orders of one customer, with one account. -/
def accountRows (q : QualifiedTable) : List (Row Nat) :=
  if q.table = "orders" then
    [fun c => if c = "customer_id" then some 1 else none,
      fun c => if c = "customer_id" then some 1 else none]
  else if q.table = "customers" then
    [fun c => if c = "id" then some 1 else if c = "account_id" then some 7 else none]
  else [fun c => if c = "id" then some 7 else none]

theorem anchor_rows_once_chained :
    ∃ plan, resolveMetricPlan chainedStore monthlyRevenue = .ok plan ∧
      ∃ q params, emitQuery plan = .ok (q, params) ∧
        ((q.relation accountRows).map (·.first.position)).Nodup := by
  have hrows : chainedStore.RespectsCardinalities accountRows := by
    intro join hjoin source target hsource htarget
    have hjoin' : join = accountJoins[0] ∨ join = accountJoins[1] := by
      simpa [chainedStore, accountJoins] using hjoin
    rcases hjoin' with rfl | rfl
    · obtain rfl : accountEntities[0] = source := Option.some.inj hsource
      obtain rfl : accountEntities[1] = target := Option.some.inj htarget
      change AtMostOne _ _ _
      decide
    · obtain rfl : accountEntities[1] = source := Option.some.inj hsource
      obtain rfl : accountEntities[2] = target := Option.some.inj htarget
      change AtMostOne _ _ _
      decide
  have hfan : (resolveMetricPlan chainedStore monthlyRevenue).toOption.map
      (·.fanOutJoinNames) = some [] := by decide +kernel
  cases h : resolveMetricPlan chainedStore monthlyRevenue with
  | error e => simp [h, Except.toOption] at hfan
  | ok plan =>
    rw [h] at hfan
    obtain ⟨q, params, hemit, hnodup, -⟩ := anchor_rows_once h (Option.some.inj hfan) hrows
    exact ⟨plan, rfl, q, params, hemit, hnodup⟩

end SchemaBrain.Semantic
