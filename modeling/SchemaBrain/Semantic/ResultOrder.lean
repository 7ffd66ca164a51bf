import SchemaBrain.Semantic.ResultRows
import Mathlib.Logic.Relation

/-!
# The order of result rows

ORDER BY orders by the columns that a request asks for and by one tie break, GROUP BY groups
by all group columns and the time bucket. The rows of every database are strictly ordered
exactly when each GROUP BY column is ordered by, or equal by the ON pairs to one that is.
-/

namespace SchemaBrain.Semantic

open Base Core

/-! ## Ordered columns -/

/-- The column that a reference names, under the alias of its entity. -/
def refColumn (text : String) : ColumnRef := ⟨aliasFor (refEntity text), (splitDot text).2⟩

/-- A group-by reference that the rows are ordered by: without an `order_by` all of them,
else the requested ones and the first other one. -/
def OrderedRef (req : MetricRequest) (text : String) : Prop :=
  text ∈ req.groupBy ∧ (req.orderBy = [] ∨ text ∈ req.orderBy.map (·.column) ∨
    req.groupBy.eraseDups.find? (· ∉ req.orderBy.map (·.column)) = some text)

/-- Columns that a join on the way to an entity of the request sets equal. -/
def Resolver.JoinedOn (r : Resolver) (req : MetricRequest) (source target : ColumnRef) : Prop :=
  ∃ link, r.ChainLinks (requestEntities req ++ r.inheritedEntity req) link ∧
    ∃ p ∈ link.2.join.on, source = ⟨aliasFor link.2.join.sourceEntity, p.sourceColumn⟩ ∧
      target = ⟨aliasFor link.2.join.targetEntity, p.targetColumn⟩

/-- The column of the time bucket that the request gets. -/
def Resolver.bucketRef (r : Resolver) (req : MetricRequest) : Option ColumnRef :=
  match req.timeGrain, r.metric.timeDimension with
  | none, _ => none
  | some _, some dimension => some ⟨aliasFor r.metric.entity, (splitDot dimension).2⟩
  | some _, none =>
    match inheritedCandidate r.store r.metric req.timeDimension with
    | .ok (some candidate) => some (refColumn candidate.1)
    | _ => none

/-- The columns behind the GROUP BY keys. -/
def Resolver.keyColumns (r : Resolver) (req : MetricRequest) : List ColumnRef :=
  (r.bucketRef req).toList ++ req.groupBy.map refColumn

/-- Every GROUP BY column is one that the rows are ordered by, or joins set them equal. -/
def KeysOrdered (store : Store) (req : MetricRequest) : Prop :=
  ∀ r : Resolver, r.store = store → r.via = req.via →
    store.getMetric req.metricName = some r.metric → r.Anchored →
    ∀ key ∈ r.keyColumns req, ∃ text, OrderedRef req text ∧
      Relation.EqvGen (r.JoinedOn req) (refColumn text) key

/-- Over every database that takes the statement, any two groups are strictly ordered, and
the rows that a LIMIT keeps do not depend on the run. -/
structure RowsOrdered (V : Type) [LinearOrder V] (q : Query) (params : List (String × PyValue)) :
    Prop where
  strict : ∀ db : Database V, ¬ q.Ambiguous → (q.groups db params).Pairwise fun group group' =>
    Precedes (q.sortKeys db) group group' ∨ Precedes (q.sortKeys db) group' group
  same_rows : ∀ db : Database V, ¬ q.Ambiguous → ∀ result result',
    SortedBy (q.sortKeys db) (q.groups db params) result →
    SortedBy (q.sortKeys db) (q.groups db params) result' →
    ∀ limit, result.take limit = result'.take limit

section Clauses

variable {metricName : String} {groupBy : List ResolvedColumn}
  {orderBy : List RequestedOrderBy} {resolved : List ResolvedOrderBy}

/-- The group columns among the requested clauses. -/
private theorem alias_mem_clauses_iff (hrefs : (groupBy.map (·.ref)).Nodup)
    (hmetric : metricName ∉ groupBy.map (·.ref))
    (hnames : ∀ i < groupBy.length, metricName ≠ groupColAlias i)
    {clauses : List ResolvedOrderBy}
    (h : resolveClauses (aliasByRequest metricName groupBy) orderBy [] = .ok clauses) {i : Nat}
    (hi : i < groupBy.length) :
    groupColAlias i ∈ clauses.map (·.expression) ↔ groupBy[i].ref ∈ orderBy.map (·.column) := by
  obtain ⟨hfrom, hasked⟩ := resolveClauses_ok h
  constructor
  · intro hmem
    obtain ⟨clause, hclause, heq⟩ := List.mem_map.1 hmem
    obtain ⟨-, o, ho, -, halias⟩ := hfrom clause hclause
    rw [heq] at halias
    rcases aliasOf_eq_some halias with ⟨-, hname⟩ | ⟨j, hj, href, hname⟩
    · exact absurd hname.symm (hnames i hi)
    · obtain rfl := groupColAlias_injective hname
      exact List.mem_map.2 ⟨o, ho, href.symm⟩
  · intro hmem
    obtain ⟨o, ho, href⟩ := List.mem_map.1 hmem
    obtain ⟨name, halias, hseen⟩ := hasked o ho
    rw [href, aliasOf_groupColumn hrefs hmetric hi] at halias
    rw [Option.some.inj halias]
    exact hseen.resolve_left (by simp)

/-- The group columns that the resolved clauses order by. -/
theorem alias_mem_orderBy_iff (hrefs : (groupBy.map (·.ref)).Nodup)
    (hmetric : metricName ∉ groupBy.map (·.ref))
    (hnames : ∀ i < groupBy.length, metricName ≠ groupColAlias i)
    (h : resolveOrderBy metricName groupBy orderBy = .ok resolved) {i : Nat}
    (hi : i < groupBy.length) :
    groupColAlias i ∈ resolved.map (·.expression) ↔
      orderBy = [] ∨ groupBy[i].ref ∈ orderBy.map (·.column) ∨
        (groupBy.map (·.ref)).find? (· ∉ orderBy.map (·.column)) = some groupBy[i].ref := by
  obtain ⟨clauses, hclauses, rfl⟩ := resolveOrderBy_ok h
  have hasked : ∀ {j : Nat} (hj : j < groupBy.length),
      groupColAlias j ∈ clauses.map (·.expression) ↔
        groupBy[j].ref ∈ (askedClauses groupBy orderBy).map (·.column) :=
    fun hj => alias_mem_clauses_iff hrefs hmetric hnames hclauses hj
  rw [List.map_append, List.mem_append, hasked hi]
  by_cases horder : orderBy = []
  · have hne : groupBy ≠ [] := List.ne_nil_of_length_pos (by omega)
    have hall : groupBy[i].ref ∈ (askedClauses groupBy orderBy).map (·.column) := by
      rw [askedClauses, if_pos ⟨horder, hne⟩, List.map_map]
      exact List.mem_map_of_mem (f := ResolvedColumn.ref) (List.getElem_mem hi)
    exact iff_of_true (.inl hall) (.inl horder)
  · have hrequested : askedClauses groupBy orderBy = orderBy :=
      if_neg fun hnone => horder hnone.1
    rw [hrequested] at hasked hclauses ⊢
    rw [or_iff_right horder]
    -- the tie break and the first other reference are found at one index
    constructor
    · refine Or.imp_right fun htie => ?_
      rcases tieBreak_spec groupBy clauses with ⟨hnone, -⟩ | ⟨j, hj, hsome, hmissing, -, hfirst⟩
      · simp [hnone] at htie
      · rw [hsome, List.map_singleton, List.mem_singleton] at htie
        obtain rfl := groupColAlias_injective htie
        rw [hasked hi] at hmissing
        refine List.find?_eq_some_iff_getElem.2 ⟨by simpa using hmissing, i, by simpa using hi,
          by simp, fun j hj => ?_⟩
        have hj' : j < groupBy.length := hj.trans hi
        simpa using (hasked hj').1 (hfirst j hj)
    · intro hcases
      by_cases hmem : groupBy[i].ref ∈ orderBy.map (·.column)
      · exact .inl hmem
      · obtain ⟨-, k, hk, href, hfirst⟩ :=
          List.find?_eq_some_iff_getElem.1 (hcases.resolve_left hmem)
        rw [List.length_map] at hk
        rw [List.getElem_map] at href
        have hcol : groupBy[k] = groupBy[i] :=
          List.inj_on_of_nodup_map hrefs (List.getElem_mem hk) (List.getElem_mem hi) href
        obtain rfl := (List.Nodup.getElem_inj_iff (List.Nodup.of_map _ hrefs)).1 hcol
        have hne : clauses ≠ [] := by
          rintro rfl
          obtain ⟨o, orderBy', rfl⟩ := List.exists_cons_of_ne_nil horder
          obtain ⟨name, -, hseen⟩ := (resolveClauses_ok hclauses).2 o List.mem_cons_self
          simp at hseen
        rcases tieBreak_spec groupBy clauses with
          ⟨-, hnone | hall⟩ | ⟨j, hj, hsome, hmissing, -, hbefore⟩
        · exact absurd hnone hne
        · exact .inl ((hasked hi).1 (hall k hi))
        · rcases lt_trichotomy j k with hlt | rfl | hlt
          · refine absurd ((hasked hj).2 ?_) hmissing
            simpa using hfirst j hlt
          · exact .inr (by simp [hsome])
          · exact .inl ((hasked hi).1 (hbefore k hlt))

end Clauses

/-! ## Keys of a plan -/

/-- The column behind a GROUP BY key. -/
def SelectItem.keyColumn : SelectItem → Option ColumnRef
  | timeBucket _ ref => some ref
  | groupColumn ref _ => some ref
  | measure _ _ _ => none

section Keys

variable {r : Resolver} {req : MetricRequest} {plan : MetricPlan} {q : Query}

/-- The column of a plan's bucket is the one that the request asks for. -/
theorem bucketRef_eq (h : r.PlanOf req plan) :
    (plan.timeBucket = none → r.bucketRef req = none) ∧
      ∀ grain, plan.timeBucket = some grain → r.bucketRef req = bucketColumn plan := by
  unfold Resolver.bucketRef bucketColumn
  rw [h.metric_eq, h.anchorAlias_eq]
  rcases h.time with ⟨hneeds, -, hdimension, hbucket⟩ | ⟨hneeds, hchoice, -, hdimension, hbucket⟩ |
    ⟨candidate, hneeds, hchoice, -, hdimension, -, hbucket, -⟩
  · rw [hbucket, hdimension]
    cases hgrain : req.timeGrain with
    | none => simp
    | some grain =>
      cases htime : r.metric.timeDimension with
      | none => simp [needsInheritance, hgrain, htime] at hneeds
      | some dimension => simp
  · simp only [needsInheritance, Bool.and_eq_true, Option.isNone_iff_eq_none] at hneeds
    rw [hbucket, hdimension, hneeds.1, hchoice]
    cases req.timeGrain <;> simp
  · simp only [needsInheritance, Bool.and_eq_true, Option.isNone_iff_eq_none] at hneeds
    rw [hbucket, hdimension, hneeds.1, hchoice]
    cases req.timeGrain <;> simp [refColumn, refEntity, aliasFor]

/-- The items of the GROUP BY keys: they come before the measure, and their columns are the
request's. -/
structure KeyItems (r : Resolver) (req : MetricRequest) (plan : MetricPlan) (q : Query)
    (items : List SelectItem) : Prop where
  select_eq : q.select =
    items ++ [.measure plan.metric.measure plan.anchorAlias plan.metric.name]
  groupBy_eq : q.groupBy = items.map (·.outputName)
  key_of_item : ∀ item ∈ items, ∃ key ∈ r.keyColumns req, item.keyColumn = some key
  item_of_key : ∀ key ∈ r.keyColumns req, ∃ item ∈ items, item.keyColumn = some key
  group_item : ∀ i, ∀ hi : i < plan.groupByColumns.length,
    .groupColumn (refColumn plan.groupByColumns[i].ref) i ∈ items

theorem exists_keyItems (h : r.PlanOf req plan) (hreq : r.Requestable req)
    (hq : Emitted plan q) : ∃ items, KeyItems r req plan q items := by
  obtain ⟨bucket, hbucket, hselect⟩ := hq.select_eq
  obtain ⟨bucket', hbucket', hgroupBy⟩ := hq.groupBy_eq
  obtain rfl := Except.ok.inj (hbucket.symm.trans hbucket')
  have hrefs := refs_groupByColumns h hreq
  have hcolumn : ∀ col ∈ plan.groupByColumns, col.ref ∈ req.groupBy ∧
      col.columnRef = refColumn col.ref := by
    intro col hcol
    rw [h.groupBy_eq] at hcol
    obtain ⟨text, htext, rfl⟩ := (Resolver.mem_groupColumns hcol).resolve_left (by simp)
    rw [Resolver.ref_columnAt (hreq.group_refs text htext)]
    exact ⟨htext, rfl⟩
  have hbucketItems : (∀ item ∈ bucket, ∃ key, r.bucketRef req = some key ∧
        item.keyColumn = some key ∧ item.outputName = "time_bucket") ∧
      ∀ key, r.bucketRef req = some key → ∃ item ∈ bucket, item.keyColumn = some key := by
    obtain ⟨hnone, hsome⟩ := bucketRef_eq h
    rcases emitTimeBucket_ok hbucket with ⟨rfl, hgrain⟩ | ⟨grain, ref, rfl, hgrain, href⟩
    · simp [hnone hgrain]
    · simp [hsome grain hgrain, href, SelectItem.keyColumn, SelectItem.outputName]
  refine ⟨bucket ++ plan.groupByColumns.mapIdx fun index col =>
    .groupColumn col.columnRef index, ⟨hselect, ?_, ?_, ?_, ?_⟩⟩
  · rw [hgroupBy, List.map_append]
    congr 1
    · exact List.map_congr_left fun item hitem => by
        obtain ⟨_, -, -, hname⟩ := hbucketItems.1 item hitem
        exact hname.symm
    · apply List.ext_getElem
      · simp
      · intro i hi hi'
        simp [SelectItem.outputName]
  · intro item hitem
    rw [Resolver.keyColumns]
    rcases List.mem_append.1 hitem with hitem | hitem
    · obtain ⟨key, hkey, hcol, -⟩ := hbucketItems.1 item hitem
      exact ⟨key, List.mem_append_left _ (by simp [hkey]), hcol⟩
    · obtain ⟨i, hi, rfl⟩ := List.mem_mapIdx.1 hitem
      obtain ⟨hmem, hcol⟩ := hcolumn _ (List.getElem_mem hi)
      exact ⟨_, List.mem_append_right _ (List.mem_map_of_mem hmem), congrArg some hcol⟩
  · intro key hkey
    rcases List.mem_append.1 hkey with hkey | hkey
    · obtain ⟨item, hitem, hcol⟩ := hbucketItems.2 key (by simpa using hkey)
      exact ⟨item, List.mem_append_left _ hitem, hcol⟩
    · obtain ⟨text, htext, rfl⟩ := List.mem_map.1 hkey
      rw [← List.mem_eraseDups, ← hrefs] at htext
      obtain ⟨i, hi, rfl⟩ := List.getElem_of_mem htext
      rw [List.length_map] at hi
      refine ⟨.groupColumn plan.groupByColumns[i].columnRef i,
        List.mem_append_right _ (List.mem_mapIdx.2 ⟨i, hi, rfl⟩), ?_⟩
      rw [SelectItem.keyColumn, (hcolumn _ (List.getElem_mem hi)).2, List.getElem_map]
  · intro i hi
    refine List.mem_append_right _ (List.mem_mapIdx.2 ⟨i, hi, ?_⟩)
    rw [(hcolumn _ (List.getElem_mem hi)).2]

/-- The key columns are under aliases of the statement. -/
theorem alias_of_key (h : r.PlanOf req plan) (horder : r.InOrder [] (requestEntities req))
    {key : ColumnRef} (hkey : key ∈ r.keyColumns req) :
    key.aliasName ∈ aliasFor r.metric.entity :: plan.joins.map (·.targetAlias) := by
  have hreached : r.Reached (planEntities req plan) key.aliasName := by
    rcases List.mem_append.1 hkey with hkey | hkey
    · rw [Option.mem_toList, Resolver.bucketRef] at hkey
      split at hkey
      · simp at hkey
      · obtain rfl := Option.some.inj hkey
        exact .inl rfl
      · next htime =>
        split at hkey
        · next grain hgrain _ candidate hchoice =>
          obtain rfl := Option.some.inj hkey
          rcases h.time with ⟨hneeds, -⟩ | ⟨-, hchoice', -⟩ |
            ⟨candidate', -, hchoice', -, hdimension, -, -, -, hreached⟩
          · simp [needsInheritance, htime, hgrain] at hneeds
          · simp [hchoice] at hchoice'
          · obtain rfl := Option.some.inj (Except.ok.inj (hchoice.symm.trans hchoice'))
            refine hreached.mono fun e he => ?_
            simpa [planEntities, hdimension, or_comm] using he
        · simp at hkey
    · obtain ⟨text, htext, rfl⟩ := List.mem_map.1 hkey
      refine (horder.reached _ ?_).mono fun e he => ?_
      · exact List.mem_append_left _ (List.mem_map_of_mem htext)
      · rw [planEntities_eq h]
        exact List.mem_append_left _ (by simpa using he)
  rcases hreached with heq | ⟨link, hlink, heq⟩
  · exact List.mem_cons.2 (.inl heq)
  · refine List.mem_cons_of_mem _ (List.mem_map.2 ⟨r.linkJoin link, ?_, heq⟩)
    exact (h.joins_of.mem_iff _).2 ⟨link, hlink, rfl⟩

/-- The ON pairs of a plan's joins are the request's. -/
theorem joinedOn_iff (h : r.PlanOf req plan) {a b : ColumnRef} :
    (r.JoinedOn req a b ∨ r.JoinedOn req b a) ↔
      ∃ join ∈ plan.joins, (a, b) ∈ join.clause.on ∨ (b, a) ∈ join.clause.on := by
  unfold Resolver.JoinedOn
  rw [← planEntities_eq h]
  have hside : ∀ link, r.ChainLinks (planEntities req plan) link →
      ∀ a b, ((a, b) ∈ (r.linkJoin link).clause.on ∨ (b, a) ∈ (r.linkJoin link).clause.on) ↔
        (∃ p ∈ link.2.join.on, a = ⟨aliasFor link.2.join.sourceEntity, p.sourceColumn⟩ ∧
          b = ⟨aliasFor link.2.join.targetEntity, p.targetColumn⟩) ∨
        ∃ p ∈ link.2.join.on, b = ⟨aliasFor link.2.join.sourceEntity, p.sourceColumn⟩ ∧
          a = ⟨aliasFor link.2.join.targetEntity, p.targetColumn⟩ := by
    rintro link ⟨f, hf, chain, hchain, hmem⟩ a b
    rcases (link_clause hchain hmem).2 with ⟨-, -, hclause⟩ | ⟨-, -, hclause⟩
    · simp only [hclause, List.mem_map, Prod.mk.injEq, aliasFor, eq_comm]
    · simp only [hclause, List.mem_map, Prod.mk.injEq, aliasFor, eq_comm, or_comm, and_comm]
  constructor
  · rintro (⟨link, hlink, hpair⟩ | ⟨link, hlink, hpair⟩)
    · exact ⟨_, (h.joins_of.mem_iff _).2 ⟨link, hlink, rfl⟩, (hside link hlink a b).2 (.inl hpair)⟩
    · exact ⟨_, (h.joins_of.mem_iff _).2 ⟨link, hlink, rfl⟩, (hside link hlink a b).2 (.inr hpair)⟩
  · rintro ⟨join, hjoin, hpair⟩
    obtain ⟨link, hlink, rfl⟩ := (h.joins_of.mem_iff join).1 hjoin
    exact ((hside link hlink a b).1 hpair).imp (⟨link, hlink, ·⟩) (⟨link, hlink, ·⟩)

end Keys

/-! ## Groups -/

section Groups

variable {V : Type} {r : Resolver} {req : MetricRequest} {plan : MetricPlan} {q : Query}
  {items : List SelectItem} {db : Database V} {params : List (String × PyValue)}

/-- The item that a name denotes gives its value. -/
theorem valueNamed_of_mem (hnodup : (q.select.map (·.outputName)).Nodup) {item : SelectItem}
    (hitem : item ∈ q.select) (db : Database V) (group : List (Tuple V)) :
    q.valueNamed db item.outputName group = item.value db group := by
  rw [Query.valueNamed, ← List.head?_filter, denotes_of_mem hnodup hitem]
  rfl

/-- A key's value is a function of its column. -/
theorem value_congr {item : SelectItem} {key : ColumnRef} (hkey : item.keyColumn = some key)
    {group group' : List (Tuple V)} (h : group.head?.bind key.of = group'.head?.bind key.of) :
    item.value db group = item.value db group' := by
  cases item with
  | timeBucket grain ref =>
    obtain rfl := Option.some.inj hkey
    exact congrArg (db.truncate grain) h
  | groupColumn ref index =>
    obtain rfl := Option.some.inj hkey
    exact h
  | measure _ _ _ => simp [SelectItem.keyColumn] at hkey

/-- The key of a tuple is the values of the key items. -/
theorem groupKey_eq (hitems : KeyItems r req plan q items)
    (hnodup : (q.select.map (·.outputName)).Nodup) (t : Tuple V) :
    q.groupKey db t = items.map fun item => item.value db [t] := by
  rw [Query.groupKey, hitems.groupBy_eq, List.map_map]
  refine List.map_congr_left fun item hitem => valueNamed_of_mem hnodup ?_ db [t]
  rw [hitems.select_eq]
  exact List.mem_append_left _ hitem

variable [LinearOrder V]

/-- The group of a tuple. -/
def Query.groupOf (q : Query) (db : Database V) (params : List (String × PyValue))
    (t : Tuple V) : List (Tuple V) :=
  (q.kept db params).filter (q.groupKey db · = q.groupKey db t)

/-- With a GROUP BY clause, any two groups are those of tuples with different keys. -/
theorem pairwise_groups_iff (hgroup : q.groupBy ≠ [])
    {R : List (Tuple V) → List (Tuple V) → Prop} (hR : ∀ g g', R g g' → R g' g) :
    (q.groups db params).Pairwise R ↔
      ∀ t ∈ q.kept db params, ∀ t' ∈ q.kept db params, q.groupKey db t ≠ q.groupKey db t' →
        R (q.groupOf db params t) (q.groupOf db params t') := by
  rw [Query.groups, if_neg hgroup, List.pairwise_map]
  have : Std.Symm fun k k' : List (Option V) =>
      R ((q.kept db params).filter (q.groupKey db · = k))
        ((q.kept db params).filter (q.groupKey db · = k')) := ⟨fun _ _ h => hR _ _ h⟩
  constructor
  · intro hall t ht t' ht' hne
    have hmem : ∀ t ∈ q.kept db params,
        q.groupKey db t ∈ ((q.kept db params).map (q.groupKey db)).eraseDups :=
      fun t ht => List.mem_eraseDups.2 (List.mem_map_of_mem ht)
    exact hall.forall (hmem t ht) (hmem t' ht') hne
  · intro hall
    refine (nodup_eraseDups ((q.kept db params).map (q.groupKey db))).imp_of_mem ?_
    intro k k' hk hk' hne
    obtain ⟨t, ht, rfl⟩ := List.mem_map.1 (List.mem_eraseDups.1 hk)
    obtain ⟨t', ht', rfl⟩ := List.mem_map.1 (List.mem_eraseDups.1 hk')
    exact hall t ht t' ht' hne

/-- A key has one value over the group of a tuple: the tuple's. -/
theorem value_groupOf (hitems : KeyItems r req plan q items)
    (hnodup : (q.select.map (·.outputName)).Nodup) {t : Tuple V} (ht : t ∈ q.kept db params)
    {item : SelectItem} (hitem : item ∈ items) :
    item.value db (q.groupOf db params t) = item.value db [t] := by
  obtain ⟨key, -, hkey⟩ := hitems.key_of_item item hitem
  have hself : t ∈ q.groupOf db params t := List.mem_filter.2 ⟨ht, by simp⟩
  cases hgroup : q.groupOf db params t with
  | nil => simp [hgroup] at hself
  | cons first rest =>
    have hfirst : first ∈ q.groupOf db params t := hgroup ▸ List.mem_cons_self
    have hsame : q.groupKey db first = q.groupKey db t := by
      simpa using (List.mem_filter.1 hfirst).2
    rw [groupKey_eq hitems hnodup, groupKey_eq hitems hnodup, List.map_inj_left] at hsame
    rw [← hsame item hitem]
    exact value_congr hkey rfl

/-- Two groups are strictly ordered exactly when some ORDER BY value differs. -/
theorem ordered_iff {group group' : List (Tuple V)} :
    Precedes (q.sortKeys db) group group' ∨ Precedes (q.sortKeys db) group' group ↔
      ∃ clause ∈ q.orderBy, q.valueNamed db clause.expression group ≠
        q.valueNamed db clause.expression group' := by
  rw [precedes_or_precedes_iff, Query.sortKeys]
  simp only [List.mem_map, exists_exists_and_eq_and, ne_eq, nullLargest_injective.eq_iff]

/-- The values of a group column that the clauses order by. -/
theorem valueNamed_groupOf (hitems : KeyItems r req plan q items)
    (hnodup : (q.select.map (·.outputName)).Nodup) {t : Tuple V} (ht : t ∈ q.kept db params)
    {i : Nat} (hi : i < plan.groupByColumns.length) :
    q.valueNamed db (groupColAlias i) (q.groupOf db params t) =
      (refColumn plan.groupByColumns[i].ref).of t := by
  have hitem := hitems.group_item i hi
  have hselect : SelectItem.groupColumn (refColumn plan.groupByColumns[i].ref) i ∈ q.select := by
    rw [hitems.select_eq]
    exact List.mem_append_left _ hitem
  have hvalue := valueNamed_of_mem hnodup hselect db (q.groupOf db params t)
  rw [value_groupOf hitems hnodup ht hitem] at hvalue
  exact hvalue

/-- The tuples of a plan have the aliases of its joins, and the ON pairs are equal. -/
theorem relation_spec (h : r.PlanOf req plan) (hq : Emitted plan q)
    {rows : QualifiedTable → List (Row V)} {t : Tuple V} (ht : t ∈ q.relation rows) :
    t.rows.map (·.aliasName) = aliasFor r.metric.entity :: plan.joins.map (·.targetAlias) ∧
      ∀ join ∈ plan.joins, join.clause.holds t = true := by
  rw [Query.relation, hq.joins_eq] at ht
  refine joinRows_holds h.joins_of.well_scoped (fun t ht => ?_) t ht
  obtain ⟨b, hb, rfl⟩ := List.mem_map.1 ht
  rw [hq.anchorAlias_eq, h.anchorAlias_eq] at hb
  simp [Tuple.rows, (mem_scan hb).1]

/-- Columns that joins set equal are equal in every tuple. -/
theorem of_eq_of_eqvGen (h : r.PlanOf req plan) (hq : Emitted plan q)
    {rows : QualifiedTable → List (Row V)} {t : Tuple V} (ht : t ∈ q.relation rows)
    {a b : ColumnRef} (hjoined : Relation.EqvGen (r.JoinedOn req) a b) : a.of t = b.of t := by
  induction hjoined with
  | rel a b hab =>
    obtain ⟨join, hjoin, hpair⟩ := (joinedOn_iff h).1 (.inl hab)
    have hall := List.all_eq_true.1 ((relation_spec h hq ht).2 join hjoin)
    rcases hpair with hpair | hpair
    · exact eq_of_sqlEq (hall _ hpair)
    · exact (eq_of_sqlEq (hall _ hpair)).symm
  | refl a => rfl
  | symm a b _ ih => exact ih.symm
  | trans a b c _ _ ih ih' => exact ih.trans ih'

end Groups

/-! ## Strict order -/

section Strict

variable {V : Type} [LinearOrder V] {r : Resolver} {req : MetricRequest} {plan : MetricPlan}
  {q : Query}

/-- The resolver's part of `KeysOrdered`. -/
def Resolver.KeysOrdered (r : Resolver) (req : MetricRequest) : Prop :=
  ∀ key ∈ r.keyColumns req, ∃ text, OrderedRef req text ∧
    Relation.EqvGen (r.JoinedOn req) (refColumn text) key

/-- The group columns that a plan orders by are the request's. -/
theorem alias_mem_iff (h : r.PlanOf req plan) (hreq : r.Requestable req) (hq : Emitted plan q)
    (hnames : ∀ i < plan.groupByColumns.length, r.metric.name ≠ groupColAlias i) {i : Nat}
    (hi : i < plan.groupByColumns.length) :
    groupColAlias i ∈ q.orderBy.map (·.expression) ↔
      OrderedRef req plan.groupByColumns[i].ref := by
  have hrefs := refs_groupByColumns h hreq
  have hmem : plan.groupByColumns[i].ref ∈ req.groupBy := by
    rw [← List.mem_eraseDups, ← hrefs]
    exact List.mem_map_of_mem (List.getElem_mem hi)
  rw [hq.orderBy_eq, alias_mem_orderBy_iff (hrefs ▸ nodup_eraseDups _)
    (metricName_not_mem_refs (r := r)) hnames h.orderBy_eq hi, hrefs, OrderedRef,
    and_iff_right hmem]

/-- When the keys are ordered, tuples with different keys differ in an ORDER BY value. -/
theorem ordered_of_keysOrdered (h : r.PlanOf req plan) (hreq : r.Requestable req)
    (hq : Emitted plan q) {items : List SelectItem} (hitems : KeyItems r req plan q items)
    (hnodup : (q.select.map (·.outputName)).Nodup)
    (hnames : ∀ i < plan.groupByColumns.length, r.metric.name ≠ groupColAlias i)
    (hkeys : r.KeysOrdered req) {db : Database V} {params : List (String × PyValue)}
    {t t' : Tuple V} (ht : t ∈ q.kept db params) (ht' : t' ∈ q.kept db params)
    (hne : q.groupKey db t ≠ q.groupKey db t') :
    ∃ clause ∈ q.orderBy, q.valueNamed db clause.expression (q.groupOf db params t) ≠
      q.valueNamed db clause.expression (q.groupOf db params t') := by
  obtain ⟨item, hitem, hvalue⟩ : ∃ item ∈ items, item.value db [t] ≠ item.value db [t'] := by
    by_contra hall
    push Not at hall
    rw [groupKey_eq hitems hnodup, groupKey_eq hitems hnodup] at hne
    exact hne (List.map_congr_left hall)
  obtain ⟨key, hkey, hcolumn⟩ := hitems.key_of_item item hitem
  have hdiffer : key.of t ≠ key.of t' := fun heq => hvalue (value_congr hcolumn heq)
  obtain ⟨text, hordered, hjoined⟩ := hkeys key hkey
  have hrelation : ∀ {s : Tuple V}, s ∈ q.kept db params → s ∈ q.relation db.rows :=
    fun hs => List.mem_of_mem_filter hs
  rw [← of_eq_of_eqvGen h hq (hrelation ht) hjoined,
    ← of_eq_of_eqvGen h hq (hrelation ht') hjoined] at hdiffer
  have htext : text ∈ plan.groupByColumns.map (·.ref) := by
    rw [refs_groupByColumns h hreq, List.mem_eraseDups]
    exact hordered.1
  obtain ⟨i, hi, rfl⟩ := List.getElem_of_mem htext
  rw [List.length_map] at hi
  rw [List.getElem_map] at hordered hdiffer
  obtain ⟨clause, hclause, hname⟩ :=
    List.mem_map.1 ((alias_mem_iff h hreq hq hnames hi).2 hordered)
  refine ⟨clause, hclause, ?_⟩
  rwa [hname, valueNamed_groupOf hitems hnodup ht hi, valueNamed_groupOf hitems hnodup ht' hi]

/-- Rows under the aliases of a plan, equal on the ON pairs, make a tuple. -/
theorem exists_tuple (h : r.PlanOf req plan) (hq : Emitted plan q)
    (rows : QualifiedTable → List (Row V)) (row : String → Row V)
    (hrows : ∀ aliasName ∈ aliasFor r.metric.entity :: plan.joins.map (·.targetAlias),
      ∀ table, row aliasName ∈ rows table)
    (hon : ∀ a b, r.JoinedOn req a b →
      sqlEq (row a.aliasName a.column) (row b.aliasName b.column) = true) :
    ∃ t ∈ q.relation rows, ∀ ref : ColumnRef,
      ref.aliasName ∈ aliasFor r.metric.entity :: plan.joins.map (·.targetAlias) →
        ref.of t = row ref.aliasName ref.column := by
  obtain ⟨b, hb, hname, hrow⟩ := exists_mem_scan q.anchorAlias
    (hrows _ List.mem_cons_self q.anchorTable)
  rw [hq.anchorAlias_eq, h.anchorAlias_eq] at hname
  have hstart : ∃ t ∈ (scan q.anchorAlias (rows q.anchorTable)).map fun b => (⟨b, []⟩ : Tuple V),
      t.rows.map (·.aliasName) = [aliasFor r.metric.entity] ∧
        ∀ column, t.value (aliasFor r.metric.entity) column =
          row (aliasFor r.metric.entity) column := by
    refine ⟨⟨b, []⟩, List.mem_map_of_mem hb, by simp [Tuple.rows, hname], fun column => ?_⟩
    rw [Tuple.value, Tuple.rows, List.find?_cons_of_pos (by simpa using hname), Option.bind_some,
      hrow]
  have hon' : ∀ join ∈ plan.joins, ∀ p ∈ join.clause.on,
      sqlEq (row p.1.aliasName p.1.column) (row p.2.aliasName p.2.column) = true := by
    intro join hjoin p hp
    rcases (joinedOn_iff h).2 ⟨join, hjoin, .inl hp⟩ with hjoined | hjoined
    · exact hon _ _ hjoined
    · rw [sqlEq_comm]
      exact hon _ _ hjoined
  obtain ⟨t, ht, -, hvalue⟩ := exists_joinRows h.joins_of.well_scoped _ row hstart
    (fun join hjoin => hrows _ (List.mem_cons_of_mem _ (List.mem_map_of_mem hjoin)) _) hon'
  refine ⟨t, ?_, fun ref href => hvalue _ href _⟩
  rw [Query.relation, hq.joins_eq]
  exact ht

/-- Tuples that differ in the columns equal to a key that nothing orders by. -/
theorem exists_tied [Nontrivial V] (h : r.PlanOf req plan) (hreq : r.Requestable req)
    (horder : r.InOrder [] (requestEntities req)) (hq : Emitted plan q)
    {items : List SelectItem} (hitems : KeyItems r req plan q items)
    (hnodup : (q.select.map (·.outputName)).Nodup)
    (hnames : ∀ i < plan.groupByColumns.length, r.metric.name ≠ groupColAlias i)
    (params : List (String × PyValue)) {key : ColumnRef} (hkey : key ∈ r.keyColumns req)
    (hfree : ∀ text, OrderedRef req text →
      ¬ Relation.EqvGen (r.JoinedOn req) (refColumn text) key) :
    ∃ db : Database V, ∃ t ∈ q.kept db params, ∃ t' ∈ q.kept db params,
      q.groupKey db t ≠ q.groupKey db t' ∧ ∀ clause ∈ q.orderBy,
        q.valueNamed db clause.expression (q.groupOf db params t) =
          q.valueNamed db clause.expression (q.groupOf db params t') := by
  classical
  obtain ⟨low, high, hne⟩ := exists_pair_ne V
  let mark : ColumnRef → V := fun ref =>
    if Relation.EqvGen (r.JoinedOn req) ref key then high else low
  let marked : String → Row V := fun aliasName column => some (mark ⟨aliasName, column⟩)
  let plain : String → Row V := fun _ _ => some low
  let aliases := aliasFor r.metric.entity :: plan.joins.map (·.targetAlias)
  let db : Database V :=
    { rows := fun _ => aliases.map marked ++ aliases.map plain
      truncate := fun _ v => v
      passes := fun _ _ _ => true
      aggregate := fun _ _ => none }
  have hmark : ∀ a b, r.JoinedOn req a b → mark a = mark b := by
    intro a b hab
    have hsame : Relation.EqvGen (r.JoinedOn req) a key ↔
        Relation.EqvGen (r.JoinedOn req) b key :=
      ⟨fun hjoined => .trans _ _ _ (.symm _ _ (.rel _ _ hab)) hjoined,
        fun hjoined => .trans _ _ _ (.rel _ _ hab) hjoined⟩
    exact if_congr hsame rfl rfl
  obtain ⟨t, ht, hvalue⟩ := exists_tuple h hq db.rows marked
    (fun aliasName hmem _ => List.mem_append_left _ (List.mem_map_of_mem hmem))
    fun a b hab => by simp [marked, sqlEq, hmark a b hab]
  obtain ⟨t', ht', hvalue'⟩ := exists_tuple h hq db.rows plain
    (fun aliasName hmem _ => List.mem_append_right _ (List.mem_map_of_mem hmem))
    fun a b _ => by simp [plain, sqlEq]
  have hkept : ∀ {s : Tuple V}, s ∈ q.relation db.rows → s ∈ q.kept db params :=
    fun hs => List.mem_filter.2 ⟨hs, List.all_eq_true.2 fun _ _ => rfl⟩
  refine ⟨db, t, hkept ht, t', hkept ht', ?_, ?_⟩
  · intro heq
    rw [groupKey_eq hitems hnodup, groupKey_eq hitems hnodup, List.map_inj_left] at heq
    obtain ⟨item, hitem, hcolumn⟩ := hitems.item_of_key key hkey
    have hread : ∀ s : Tuple V, item.value db [s] = key.of s := by
      intro s
      cases item with
      | timeBucket grain ref => obtain rfl := Option.some.inj hcolumn; rfl
      | groupColumn ref index => obtain rfl := Option.some.inj hcolumn; rfl
      | measure _ _ _ => simp [SelectItem.keyColumn] at hcolumn
    have halias := alias_of_key h horder hkey
    have hsame := heq item hitem
    rw [hread, hread, hvalue key halias, hvalue' key halias] at hsame
    have hhigh : mark key = high := if_pos (.refl key)
    exact hne (Option.some.inj (hhigh ▸ hsame)).symm
  · intro clause hclause
    rw [hq.orderBy_eq] at hclause
    rcases expression_of_resolveOrderBy h.orderBy_eq clause hclause with hname | ⟨i, hi, hname⟩
    · have hmeasure : .measure plan.metric.measure plan.anchorAlias plan.metric.name ∈
          q.select := by
        rw [hitems.select_eq]
        simp
      have hnone : ∀ group, q.valueNamed db plan.metric.name group = none :=
        valueNamed_of_mem hnodup hmeasure db
      rw [hname, ← h.metric_eq, hnone, hnone]
    · have hordered : OrderedRef req plan.groupByColumns[i].ref := by
        rw [← alias_mem_iff h hreq hq hnames hi, hq.orderBy_eq]
        exact List.mem_map.2 ⟨clause, hclause, hname⟩
      have halias := alias_of_key h horder (List.mem_append_right (r.bucketRef req).toList
        (List.mem_map_of_mem (f := refColumn) hordered.1))
      rw [hname, valueNamed_groupOf hitems hnodup (hkept ht) hi,
        valueNamed_groupOf hitems hnodup (hkept ht') hi, hvalue _ halias, hvalue' _ halias]
      exact congrArg some (if_neg (hfree _ hordered))

end Strict

/-- A statement of a plan is ambiguous exactly when two of its names coincide. -/
theorem ambiguous_iff {r : Resolver} {req : MetricRequest} {plan : MetricPlan} {q : Query}
    (h : r.PlanOf req plan) (hq : Emitted plan q) {items : List SelectItem}
    (hitems : KeyItems r req plan q items) :
    q.Ambiguous ↔ ¬ (q.select.map (·.outputName)).Nodup := by
  constructor
  · rintro ⟨name, -, hmany⟩ hnodup
    obtain ⟨item, hitem⟩ := List.exists_mem_of_length_pos (Nat.zero_lt_of_lt hmany)
    obtain ⟨hselect, hname⟩ := List.mem_filter.1 hitem
    obtain rfl := of_decide_eq_true hname
    rw [denotes_of_mem hnodup hselect] at hmany
    simp at hmany
  · intro hdup
    -- the generated names are distinct, so the metric has one of them
    obtain ⟨bucket, hbucket, hnames⟩ := outputNames_eq h hq
    rw [hitems.select_eq, List.map_append] at hnames hdup
    obtain ⟨hgenerated, -⟩ := List.append_inj' hnames rfl
    have hnodup := nodup_generatedNames (hbucket.imp And.left And.left) plan.groupByColumns.length
    rw [← hgenerated] at hnodup
    have hmem : plan.metric.name ∈ items.map (·.outputName) := by
      by_contra hnew
      exact hdup (List.nodup_append_comm.1 (List.nodup_cons.2 ⟨hnew, hnodup⟩))
    obtain ⟨item, hitem, hname⟩ := List.mem_map.1 hmem
    have hitem' : item ∈ items.filter (·.outputName = plan.metric.name) :=
      List.mem_filter.2 ⟨hitem, by simpa using hname⟩
    refine ⟨plan.metric.name, List.mem_append_left _ (hitems.groupBy_eq ▸ hmem), ?_⟩
    rw [hitems.select_eq, List.filter_append, List.length_append]
    have hone := List.length_pos_of_mem hitem'
    have hlast : ([.measure plan.metric.measure plan.anchorAlias plan.metric.name].filter
        fun item : SelectItem => item.outputName = plan.metric.name).length = 1 := by
      simp [SelectItem.outputName]
    omega

/-- The rows of a resolved plan are ordered over every database exactly when the request
orders its keys, or the database refuses the statement. -/
theorem rowsOrdered_iff {V : Type} [LinearOrder V] [Nontrivial V] {store : Store}
    {req : MetricRequest} {plan : MetricPlan} (h : resolveMetricPlan store req = .ok plan) :
    (∃ q params, emitSql plan = .ok (q, params) ∧ RowsOrdered V q params) ↔
      (NameKept store req → KeysOrdered store req) := by
  obtain ⟨q, hemit, hq, -⟩ := exists_emitSql h
  obtain ⟨r, rfl, hvia, hmetric, hreq, horder, hplan⟩ := resolveMetricPlan_ok h
  obtain ⟨items, hitems⟩ := exists_keyItems hplan hreq hq
  have hnodup := nodup_outputNames_iff hplan hreq hmetric hq
  have hkeys : KeysOrdered r.store req ↔ r.KeysOrdered req := by
    constructor
    · exact fun hall => hall r rfl hvia hmetric hplan.anchored
    · intro hall r' hstore' hvia' hmetric' hanchored'
      obtain rfl := Resolver.eq_of_anchored hplan.anchored hanchored' hstore'
        (hvia'.trans hvia.symm) (Option.some.inj (hmetric'.symm.trans hmetric))
      exact hall
  have hnames : NameKept r.store req →
      ∀ i < plan.groupByColumns.length, r.metric.name ≠ groupColAlias i := by
    intro hkept i hi
    refine (hkept r.metric hmetric).2 i ?_
    rwa [← refs_groupByColumns hplan hreq, List.length_map]
  rw [hkeys]
  constructor
  · rintro ⟨q', params, hemit', hordered⟩ hkept
    obtain ⟨rfl, rfl⟩ := Prod.mk.inj (Except.ok.inj (hemit.symm.trans hemit'))
    by_contra hnot
    unfold Resolver.KeysOrdered at hnot
    push Not at hnot
    obtain ⟨key, hkey, hfree⟩ := hnot
    obtain ⟨db, t, ht, t', ht', hne, htied⟩ := exists_tied (V := V) hplan hreq horder hq hitems
      (hnodup.2 hkept) (hnames hkept) plan.params hkey hfree
    have hgroup : q.groupBy ≠ [] := by
      intro hnone
      simp [Query.groupKey, hnone] at hne
    have hclear : ¬ q.Ambiguous := fun hamb => (ambiguous_iff hplan hq hitems).1 hamb
      (hnodup.2 hkept)
    have hpair := (pairwise_groups_iff hgroup fun _ _ => Or.symm).1
      (hordered.strict db hclear) t ht t' ht' hne
    obtain ⟨clause, hclause, hdiffer⟩ := ordered_iff.1 hpair
    exact hdiffer (htied clause hclause)
  · intro hall
    have hstrict : ∀ db : Database V, ¬ q.Ambiguous →
        (q.groups db plan.params).Pairwise fun group group' =>
          Precedes (q.sortKeys db) group group' ∨ Precedes (q.sortKeys db) group' group := by
      intro db hclear
      have hdistinct : (q.select.map (·.outputName)).Nodup :=
        not_not.1 fun hdup => hclear ((ambiguous_iff hplan hq hitems).2 hdup)
      have hkept := hnodup.1 hdistinct
      by_cases hgroup : q.groupBy = []
      · rw [Query.groups, if_pos hgroup]
        exact List.pairwise_singleton _ _
      · refine (pairwise_groups_iff hgroup fun _ _ => Or.symm).2 fun t ht t' ht' hne => ?_
        exact ordered_iff.2 (ordered_of_keysOrdered hplan hreq hq hitems hdistinct (hnames hkept)
          (hall hkept) ht ht' hne)
    refine ⟨q, _, hemit, hstrict, fun db hclear result result' hresult hresult' limit => ?_⟩
    rw [hresult.unique (hstrict db hclear) hresult']

/-- The revenue of each customer and account, the largest first. -/
def revenueRanking : MetricRequest :=
  { metricName := "revenue", groupBy := ["order.customer_id", "order.account_id"],
    orderBy := [⟨"revenue", .desc⟩] }

theorem rowsOrdered_chained :
    ∃ plan, resolveMetricPlan chainedStore revenueRanking = .ok plan ∧
      ((∃ q params, emitSql plan = .ok (q, params) ∧ RowsOrdered Nat q params) ↔
        (NameKept chainedStore revenueRanking → KeysOrdered chainedStore revenueRanking)) := by
  have hrun : (resolveMetricPlan chainedStore revenueRanking).toOption.isSome = true := by
    decide +kernel
  cases h : resolveMetricPlan chainedStore revenueRanking with
  | error e => simp [h, Except.toOption] at hrun
  | ok plan => exact ⟨plan, rfl, rowsOrdered_iff h⟩

/-- Two orders of one customer, on two accounts. -/
def twoAccounts : Database Nat where
  rows _ := [fun column => some (if column = "account_id" then 7 else 1),
    fun column => some (if column = "account_id" then 8 else 1)]
  truncate _ value := value
  passes _ _ _ := true
  aggregate _ rows := some rows.length

/-- The tie break leaves the accounts of one customer in any order. -/
theorem not_rowsOrdered_ranking :
    ¬ ∀ store req plan, req.groupBy ≠ [] → resolveMetricPlan store req = .ok plan →
      ∃ q params, emitSql plan = .ok (q, params) ∧ RowsOrdered Nat q params := by
  intro hall
  have hrun : (resolveMetricPlan chainedStore revenueRanking).toOption.bind (fun plan =>
      (emitQuery plan).toOption.map fun emitted =>
        ((emitted.1.groups twoAccounts emitted.2).map fun group =>
          emitted.1.orderBy.map fun clause =>
            emitted.1.valueNamed twoAccounts clause.expression group,
        (emitted.1.groupBy ++ emitted.1.orderBy.map (·.expression)).map fun name =>
          (emitted.1.select.filter (·.outputName = name)).length)) =
      some ([[some 1, some 1], [some 1, some 1]], [1, 1, 1, 1]) := by
    decide +kernel
  cases h : resolveMetricPlan chainedStore revenueRanking with
  | error e => simp [h, Except.toOption] at hrun
  | ok plan =>
    obtain ⟨q, params, hemit, hordered⟩ := hall chainedStore revenueRanking plan (by decide) h
    rw [h, Except.toOption, Option.bind_some, emitQuery_of_emitSql hemit] at hrun
    obtain ⟨hvalues, hcounts⟩ := Prod.mk.inj (Option.some.inj hrun)
    have hclear : ¬ q.Ambiguous := by
      rintro ⟨name, hname, hmany⟩
      have hone := List.mem_map_of_mem (f := fun name =>
        (q.select.filter (·.outputName = name)).length) hname
      rw [hcounts] at hone
      simp at hone
      omega
    obtain ⟨group, group', hgroups⟩ : ∃ group group',
        q.groups twoAccounts params = [group, group'] :=
      List.length_eq_two.1 (by simpa using congrArg List.length hvalues)
    have hpair := hordered.strict twoAccounts hclear
    rw [hgroups, List.pairwise_pair] at hpair
    rw [hgroups] at hvalues
    obtain ⟨clause, hclause, hdiffer⟩ := ordered_iff.1 hpair
    simp only [List.map_cons, List.map_nil, List.cons.injEq, and_true] at hvalues
    exact hdiffer (List.map_inj_left.1 (hvalues.1.trans hvalues.2.symm) clause hclause)

end SchemaBrain.Semantic
