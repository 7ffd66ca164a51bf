import SchemaBrain.Semantic.ResolveJoins

/-!
# Resolved plans

When a request resolves, and what its plan holds: the checks that do not depend on the
order of the references, and the one that does.
-/

namespace SchemaBrain.Semantic

open Base Core

/-- The entity of a filter. -/
def filterEntity (requested : RequestedFilter) : String := refEntity requested.column

/-- The operator takes the value. -/
def OperatorOk (requested : RequestedFilter) : Prop :=
  checkOperatorValue requested.op requested.value 0 = .ok ()

/-- The value fits the operator, and the placeholders are those of its position. -/
def PredicateOk (p : ResolvedPredicate) : Prop :=
  ∃ index, checkOperatorValue p.op p.value index = .ok () ∧
    p.paramNames = paramNamesFor p.op index p.value

namespace Resolver

variable {r : Resolver}

/-! ## Reached entities -/

theorem ChainLinks.mono {entities entities' : List String} (h : ∀ e ∈ entities, e ∈ entities')
    {link : String × ChainEdge} (hlink : r.ChainLinks entities link) :
    r.ChainLinks entities' link := by
  obtain ⟨f, hf, hchain⟩ := hlink
  exact ⟨f, h f hf, hchain⟩

theorem chainLinks_congr {entities entities' : List String}
    (h : ∀ e, e ∈ entities ↔ e ∈ entities') (link : String × ChainEdge) :
    r.ChainLinks entities link ↔ r.ChainLinks entities' link :=
  ⟨.mono fun e => (h e).1, .mono fun e => (h e).2⟩

theorem Reached.mono {entities entities' : List String} (h : ∀ e ∈ entities, e ∈ entities')
    {entity : String} (hreached : r.Reached entities entity) : r.Reached entities' entity := by
  refine hreached.imp_right ?_
  rintro ⟨link, hlink, htarget⟩
  exact ⟨link, hlink.mono h, htarget⟩

/-- Whoever reaches an entity has a chain of its own. -/
theorem Reached.exists_self {entities : List String} {entity : String}
    (h : r.Reached entities entity) :
    entity = r.metric.entity ∨ ∃ f ∈ entities, r.Reached [f] f ∧ r.Reached [f] entity := by
  refine h.imp_right ?_
  rintro ⟨link, ⟨f, hf, chain, hchain, hmem⟩, htarget⟩
  obtain ⟨p, last, rfl, hlast⟩ := hchain.2.exists_last hchain.1
  refine ⟨f, hf, .inr ⟨last, ⟨f, by simp, _, hchain, by simp⟩, hlast⟩, .inr ⟨link, ?_, htarget⟩⟩
  exact ⟨f, by simp, _, hchain, hmem⟩

/-- Each entity is reached by those before it and itself. -/
def InOrder (r : Resolver) : List String → List String → Prop
  | _, [] => True
  | before, e :: rest => r.Reached (e :: before) e ∧ r.InOrder (e :: before) rest

theorem inOrder_append {before es es' : List String} :
    r.InOrder before (es ++ es') ↔ r.InOrder before es ∧ r.InOrder (es.reverse ++ before) es' := by
  induction es generalizing before with
  | nil => simp [InOrder]
  | cons e es ih => simp [InOrder, ih, and_assoc]

/-- In order, every entity is reached by the whole list. -/
theorem InOrder.reached {before es : List String} (h : r.InOrder before es) :
    ∀ e ∈ es, r.Reached (es ++ before) e := by
  induction es generalizing before with
  | nil => simp
  | cons e es ih =>
    obtain ⟨hhead, hrest⟩ := h
    intro e' he'
    rcases List.mem_cons.1 he' with rfl | he'
    · exact hhead.mono (by simp +contextual [or_comm])
    · exact (ih hrest e' he').mono (by simp +contextual [or_left_comm])

/-- Entities that a list of earlier ones and themselves reach are in any order. -/
theorem inOrder_of_reached {before es : List String} (h : ∀ e ∈ es, r.Reached (e :: before) e) :
    r.InOrder before es := by
  induction es generalizing before with
  | nil => trivial
  | cons e es ih =>
    refine ⟨h e List.mem_cons_self, ih fun e' he' => ?_⟩
    exact (h e' (List.mem_cons_of_mem _ he')).mono (by simp +contextual)

/-! ## Lists of references -/

/-- The group-by columns in order, each once. -/
def groupColumns (r : Resolver) (refs : List String) (cols : List ResolvedColumn) :
    List ResolvedColumn :=
  refs.foldl (fun cols ref => setDefault cols (r.columnAt ref)) cols

/-- A group-by column is that of one of the references. -/
theorem mem_groupColumns {refs : List String} {cols : List ResolvedColumn} {col : ResolvedColumn}
    (h : col ∈ r.groupColumns refs cols) : col ∈ cols ∨ ∃ ref ∈ refs, col = r.columnAt ref := by
  induction refs generalizing cols with
  | nil => exact .inl h
  | cons ref refs ih =>
    have hrest : col ∈ r.groupColumns refs (setDefault cols (r.columnAt ref)) := h
    rcases ih hrest with hcol | ⟨ref', href', rfl⟩
    · unfold setDefault at hcol
      split at hcol
      · exact .inl hcol
      · rcases List.mem_append.1 hcol with hcol | hcol
        · exact .inl hcol
        · exact .inr ⟨ref, List.mem_cons_self, List.mem_singleton.1 hcol⟩
    · exact .inr ⟨ref', List.mem_cons_of_mem _ href', rfl⟩

/-- Resolved group-by references. -/
structure ResolvedGroupBy (r : Resolver) (before refs : List String)
    (cols cols' : List ResolvedColumn) (joins' : List ResolvedJoin) : Prop where
  refs_ok : ∀ ref ∈ refs, r.RefOk ref
  in_order : r.InOrder before (refs.map refEntity)
  joins_of : r.JoinsOf (r.ChainLinks ((refs.map refEntity).reverse ++ before)) joins'
  columns_eq : cols' = r.groupColumns refs cols

theorem resolveGroupBy_ok (hr : r.Anchored) {before refs : List String}
    {joins joins' : List ResolvedJoin} {cols cols' : List ResolvedColumn}
    (hjoins : r.JoinsOf (r.ChainLinks before) joins)
    (h : r.resolveGroupBy refs cols joins = .ok (cols', joins')) :
    r.ResolvedGroupBy before refs cols cols' joins' := by
  induction refs generalizing before joins cols with
  | nil =>
    obtain ⟨rfl, rfl⟩ := Prod.mk.inj (Except.ok.inj h)
    exact ⟨by simp, trivial, hjoins, rfl⟩
  | cons ref refs ih =>
    obtain ⟨⟨col, joins₁⟩, hcol, h⟩ := bind_eq_ok h
    have hres := resolveColumn_ok hr hjoins hcol
    have hrest := ih hres.joins_of h
    refine ⟨?_, ⟨hres.reached, hrest.in_order⟩, ?_, ?_⟩
    · exact List.forall_mem_cons.2 ⟨hres.ref_ok, hrest.refs_ok⟩
    · simpa using hrest.joins_of
    · rw [hrest.columns_eq, hres.column_eq, groupColumns, groupColumns, List.foldl_cons]

theorem exists_resolveGroupBy (hr : r.Anchored) {before refs : List String}
    {joins : List ResolvedJoin} {cols : List ResolvedColumn}
    (hjoins : r.JoinsOf (r.ChainLinks before) joins) (hrefs : ∀ ref ∈ refs, r.RefOk ref)
    (horder : r.InOrder before (refs.map refEntity)) :
    ∃ cols' joins', r.resolveGroupBy refs cols joins = .ok (cols', joins') := by
  induction refs generalizing before joins cols with
  | nil => exact ⟨cols, joins, rfl⟩
  | cons ref refs ih =>
    obtain ⟨hhead, hrest⟩ := horder
    obtain ⟨col, joins₁, hcol⟩ : ∃ col joins₁, r.resolveColumn joins ref .groupBy =
        .ok (col, joins₁) := exists_resolveColumn hr hjoins (hrefs ref List.mem_cons_self) hhead
    obtain ⟨cols', joins', h⟩ : ∃ cols' joins', r.resolveGroupBy refs (setDefault cols col) joins₁ =
        .ok (cols', joins') :=
      ih (resolveColumn_ok hr hjoins hcol).joins_of
        (fun ref' hmem => hrefs ref' (List.mem_cons_of_mem _ hmem)) hrest
    exact ⟨cols', joins', by rw [resolveGroupBy, hcol]; exact h⟩

/-- Only the message of `_check_operator_value` depends on the position. -/
theorem checkOperatorValue_index {op : Operator} {value : PyValue} (i j : Nat)
    (h : checkOperatorValue op value i = .ok ()) : checkOperatorValue op value j = .ok () := by
  unfold checkOperatorValue at h ⊢
  split
  · next hunary =>
    rw [if_pos hunary] at h
    split <;> simp_all
  · next hunary =>
    rw [if_neg hunary] at h
    split
    · next hlist =>
      rw [if_pos hlist] at h
      split <;> simp_all
    · next hlist =>
      rw [if_neg hlist] at h
      split <;> simp_all

/-- Resolved filters. -/
structure ResolvedFilters (r : Resolver) (before : List String) (index : Nat)
    (filters : List RequestedFilter) (predicates : List ResolvedPredicate)
    (joins' : List ResolvedJoin) : Prop where
  refs_ok : ∀ f ∈ filters, r.RefOk f.column ∧ OperatorOk f
  in_order : r.InOrder before (filters.map filterEntity)
  joins_of : r.JoinsOf (r.ChainLinks ((filters.map filterEntity).reverse ++ before)) joins'
  columns_eq : predicates.map (·.column) = filters.map fun f => r.columnAt f.column
  predicates_ok : ∀ p ∈ predicates, PredicateOk p
  predicates_eq : predicates = filters.mapIdx fun i f =>
    ⟨r.columnAt f.column, f.op, paramNamesFor f.op (index + i) f.value, f.value⟩

theorem resolveFilters_ok (hr : r.Anchored) {before : List String} {filters : List RequestedFilter}
    {index : Nat} {joins joins' : List ResolvedJoin} {predicates : List ResolvedPredicate}
    (hjoins : r.JoinsOf (r.ChainLinks before) joins)
    (h : r.resolveFilters index filters joins = .ok (predicates, joins')) :
    r.ResolvedFilters before index filters predicates joins' := by
  induction filters generalizing index before joins predicates with
  | nil =>
    obtain ⟨rfl, rfl⟩ := Prod.mk.inj (Except.ok.inj h)
    exact ⟨by simp, trivial, hjoins, rfl, by simp, rfl⟩
  | cons f filters ih =>
    obtain ⟨⟨col, joins₁⟩, hcol, h⟩ := bind_eq_ok h
    obtain ⟨⟨⟩, hop, h⟩ := bind_eq_ok h
    obtain ⟨⟨tail, joins₂⟩, htail, h⟩ := bind_eq_ok h
    obtain ⟨rfl, rfl⟩ := Prod.mk.inj (Except.ok.inj h)
    have hres := resolveColumn_ok hr hjoins hcol
    have hrest := ih hres.joins_of htail
    refine ⟨?_, ⟨hres.reached, hrest.in_order⟩, ?_, ?_, ?_, ?_⟩
    · exact List.forall_mem_cons.2
        ⟨⟨hres.ref_ok, checkOperatorValue_index index 0 hop⟩, hrest.refs_ok⟩
    · simpa [filterEntity] using hrest.joins_of
    · simp only [List.map_cons, hrest.columns_eq, hres.column_eq]
    · exact List.forall_mem_cons.2 ⟨⟨index, hop, rfl⟩, hrest.predicates_ok⟩
    · rw [hrest.predicates_eq, hres.column_eq, List.mapIdx_cons]
      simp only [Nat.add_zero, Nat.add_assoc, Nat.add_comm 1]

theorem exists_resolveFilters (hr : r.Anchored) {before : List String}
    {filters : List RequestedFilter} {index : Nat} {joins : List ResolvedJoin}
    (hjoins : r.JoinsOf (r.ChainLinks before) joins)
    (hrefs : ∀ f ∈ filters, r.RefOk f.column ∧ OperatorOk f)
    (horder : r.InOrder before (filters.map filterEntity)) :
    ∃ predicates joins', r.resolveFilters index filters joins = .ok (predicates, joins') := by
  induction filters generalizing index before joins with
  | nil => exact ⟨[], joins, rfl⟩
  | cons f filters ih =>
    obtain ⟨hhead, hrest⟩ := horder
    obtain ⟨hok, hop⟩ := hrefs f List.mem_cons_self
    obtain ⟨col, joins₁, hcol⟩ : ∃ col joins₁, r.resolveColumn joins f.column .filter =
        .ok (col, joins₁) := exists_resolveColumn hr hjoins hok hhead
    obtain ⟨tail, joins₂, htail⟩ : ∃ tail joins₂, r.resolveFilters (index + 1) filters joins₁ =
        .ok (tail, joins₂) :=
      ih (resolveColumn_ok hr hjoins hcol).joins_of
        (fun f' hmem => hrefs f' (List.mem_cons_of_mem _ hmem)) hrest
    refine ⟨⟨col, f.op, paramNamesFor f.op index f.value, f.value⟩ :: tail, joins₂, ?_⟩
    rw [resolveFilters, hcol]
    simp only [bind, Except.bind, checkOperatorValue_index 0 index hop, htail]
    rfl

/-! ## Order and time -/

theorem ref_columnAt {columnRef : String} (h : r.RefOk columnRef) :
    (r.columnAt columnRef).ref = columnRef := by
  obtain ⟨p, hparse, -⟩ := h
  obtain ⟨hsplit, htext⟩ := parseQualifiedColumn_spec hparse
  simpa only [ResolvedColumn.ref, columnAt, refEntity, hsplit] using htext

private theorem ref_mem_setDefault {cols : List ResolvedColumn} {col : ResolvedColumn}
    {text : String} :
    text ∈ (setDefault cols col).map (·.ref) ↔ text ∈ cols.map (·.ref) ∨ text = col.ref := by
  unfold setDefault
  split
  · next hold =>
    rw [or_iff_left_of_imp]
    rintro rfl
    obtain ⟨c, hc, heq⟩ := List.any_eq_true.1 hold
    simp only [Bool.and_eq_true, decide_eq_true_eq] at heq
    exact List.mem_map.2 ⟨c, hc, by rw [ResolvedColumn.ref, ResolvedColumn.ref, heq.1, heq.2]⟩
  · rw [List.map_append, List.mem_append, List.map_singleton, List.mem_singleton]

/-- The texts of the group-by columns are the references. -/
theorem ref_mem_groupColumns {refs : List String} (hrefs : ∀ ref ∈ refs, r.RefOk ref)
    {cols : List ResolvedColumn} {text : String} :
    text ∈ (r.groupColumns refs cols).map (·.ref) ↔ text ∈ cols.map (·.ref) ∨ text ∈ refs := by
  induction refs generalizing cols with
  | nil => simp [groupColumns]
  | cons ref refs ih =>
    have hhead := ref_columnAt (hrefs ref List.mem_cons_self)
    have hstep : text ∈ (r.groupColumns (ref :: refs) cols).map (·.ref) ↔
        text ∈ (setDefault cols (r.columnAt ref)).map (·.ref) ∨ text ∈ refs :=
      ih fun ref' hmem => hrefs ref' (List.mem_cons_of_mem _ hmem)
    rw [hstep, ref_mem_setDefault, hhead, List.mem_cons, or_assoc]

end Resolver

/-- Clauses resolve when each names an alias. -/
theorem resolveClauses_isOk {aliases : List (String × String)} {orderBy : List RequestedOrderBy}
    {seen : List String} :
    (∃ clauses, resolveClauses aliases orderBy seen = .ok clauses) ↔
      ∀ o ∈ orderBy, o.column ∈ aliases.map (·.1) := by
  induction orderBy generalizing seen with
  | nil => simp [resolveClauses]
  | cons o orderBy ih =>
    rw [resolveClauses, List.forall_mem_cons]
    cases hfind : aliases.find? (·.1 = o.column) with
    | none =>
      have hnone : o.column ∉ aliases.map (·.1) := by
        intro hmem
        obtain ⟨a, ha, heq⟩ := List.mem_map.1 hmem
        exact List.find?_eq_none.1 hfind a ha (decide_eq_true heq)
      simp [hnone]
    | some found =>
      obtain ⟨key, name⟩ := found
      have hkey := List.find?_some hfind
      have hmem : o.column ∈ aliases.map (·.1) :=
        List.mem_map.2 ⟨(key, name), List.mem_of_find?_eq_some hfind, of_decide_eq_true hkey⟩
      simp only [hmem, true_and]
      split
      · exact ih
      · rw [← ih]
        constructor
        · rintro ⟨clauses, h⟩
          obtain ⟨tail, htail, -⟩ := bind_eq_ok h
          exact ⟨tail, htail⟩
        · rintro ⟨tail, htail⟩
          exact ⟨_, by rw [htail]; rfl⟩

/-- ORDER BY resolves when each clause names the measure or a group-by column. -/
theorem resolveOrderBy_isOk {metricName : String} {groupBy : List ResolvedColumn}
    {orderBy : List RequestedOrderBy} :
    (∃ clauses, resolveOrderBy metricName groupBy orderBy = .ok clauses) ↔
      ∀ o ∈ orderBy, o.column = metricName ∨ o.column ∈ groupBy.map (·.ref) := by
  have hkeys : (aliasByRequest metricName groupBy).map (·.1) =
      metricName :: groupBy.map (·.ref) := by
    rw [aliasByRequest, List.map_cons]
    congr 1
    apply List.ext_getElem
    · simp
    · simp
  have hok : ∀ requested, (∃ clauses, (do
      let clauses ← resolveClauses (aliasByRequest metricName groupBy) requested []
      return clauses ++ tieBreak groupBy clauses : Except CompilerError _) = .ok clauses) ↔
      ∀ o ∈ requested, o.column = metricName ∨ o.column ∈ groupBy.map (·.ref) := by
    intro requested
    have hclauses : (∃ clauses, resolveClauses (aliasByRequest metricName groupBy) requested [] =
        .ok clauses) ↔ ∀ o ∈ requested, o.column = metricName ∨ o.column ∈ groupBy.map (·.ref) := by
      rw [resolveClauses_isOk, hkeys]
      simp only [List.mem_cons]
    rw [← hclauses]
    constructor
    · rintro ⟨_, h⟩
      obtain ⟨clauses, hclauses, -⟩ := bind_eq_ok h
      exact ⟨clauses, hclauses⟩
    · rintro ⟨clauses, hclauses⟩
      exact ⟨_, by rw [hclauses]; rfl⟩
  unfold resolveOrderBy
  simp only
  rw [hok]
  split
  · next hdefault =>
    rw [hdefault.1]
    simp only [List.mem_map, List.not_mem_nil, false_imp_iff, implies_true, iff_true]
    rintro o ⟨col, hcol, rfl⟩
    exact .inr ⟨col, hcol, rfl⟩
  · rfl

/-! ## Plans -/

/-- The entities of the group-by columns and of the filters, in the order they are read. -/
def requestEntities (req : MetricRequest) : List String :=
  req.groupBy.map refEntity ++ req.filters.map filterEntity

/-- The checks of a request that no order of its references changes. -/
structure Resolver.Requestable (r : Resolver) (req : MetricRequest) : Prop where
  grain : checkDeclaredGrain r.metric req.timeGrain = .ok ()
  measure : r.validateMeasure = .ok ()
  group_refs : ∀ ref ∈ req.groupBy, r.RefOk ref
  filter_refs : ∀ f ∈ req.filters, r.RefOk f.column ∧ OperatorOk f
  order : ∀ o ∈ req.orderBy, o.column = r.metric.name ∨ o.column ∈ req.groupBy
  time : needsInheritance r.metric req = true →
    ∃ choice, inheritedCandidate r.store r.metric req.timeDimension = .ok choice ∧
      ∀ candidate ∈ choice, r.RefOk candidate.1 ∧
        r.Reached (refEntity candidate.1 :: requestEntities req) (refEntity candidate.1)

/-- The three outcomes of the time-dimension step. -/
inductive Resolver.PlanTime (r : Resolver) (req : MetricRequest) (plan : MetricPlan) : Prop
  | local_ (hneeds : needsInheritance r.metric req = false)
      (hresolution : plan.timeDimensionResolution = .local_)
      (hdimension : plan.inheritedTimeDimension = none) (hbucket : plan.timeBucket = req.timeGrain)
  | unavailable (hneeds : needsInheritance r.metric req = true)
      (hchoice : inheritedCandidate r.store r.metric req.timeDimension = .ok none)
      (hresolution : plan.timeDimensionResolution = .unavailable)
      (hdimension : plan.inheritedTimeDimension = none) (hbucket : plan.timeBucket = none)
  | inherited (candidate : String × List String) (hneeds : needsInheritance r.metric req = true)
      (hchoice : inheritedCandidate r.store r.metric req.timeDimension = .ok (some candidate))
      (hresolution : plan.timeDimensionResolution = .inherited)
      (hdimension : plan.inheritedTimeDimension = some candidate.1)
      (hvia : plan.timeDimensionInheritedVia = candidate.2)
      (hbucket : plan.timeBucket = req.timeGrain) (href : r.RefOk candidate.1)
      (hreached : r.Reached (refEntity candidate.1 :: requestEntities req)
        (refEntity candidate.1))

/-- The entities whose chains a plan joins. -/
def planEntities (req : MetricRequest) (plan : MetricPlan) : List String :=
  requestEntities req ++ (plan.inheritedTimeDimension.map refEntity).toList

/-- What the plan of a request holds. -/
structure Resolver.PlanOf (r : Resolver) (req : MetricRequest) (plan : MetricPlan) : Prop where
  anchored : r.Anchored
  metric_eq : plan.metric = r.metric
  anchorTable_eq : plan.anchorTable = r.anchorTable
  anchorAlias_eq : plan.anchorAlias = aliasFor r.metric.entity
  groupBy_eq : plan.groupByColumns = r.groupColumns req.groupBy []
  filters_eq : plan.filterPredicates.map (·.column) = req.filters.map fun f => r.columnAt f.column
  predicates_ok : ∀ p ∈ plan.filterPredicates, PredicateOk p
  predicates_eq : plan.filterPredicates = req.filters.mapIdx fun i f =>
    ⟨r.columnAt f.column, f.op, paramNamesFor f.op i f.value, f.value⟩
  orderBy_eq : resolveOrderBy r.metric.name plan.groupByColumns req.orderBy =
    .ok plan.orderByClauses
  limit_eq : plan.limit = req.limit
  joins_of : r.JoinsOf (r.ChainLinks (planEntities req plan)) plan.joins
  time : r.PlanTime req plan

namespace Resolver

variable {r : Resolver} {req : MetricRequest}

/-- A store, a metric and a `via` set make one resolver. -/
theorem eq_of_anchored {r' : Resolver} (hr : r.Anchored) (hr' : r'.Anchored)
    (hstore : r'.store = r.store) (hvia : r'.via = r.via) (hmetric : r'.metric = r.metric) :
    r' = r := by
  unfold Anchored at hr hr'
  rw [hstore, hmetric] at hr'
  have htable := Except.ok.inj (hr'.symm.trans hr)
  cases r
  cases r'
  simp_all

theorem requestEntities_swap (e : String) :
    e ∈ (req.filters.map filterEntity).reverse ++ ((req.groupBy.map refEntity).reverse ++ []) ↔
      e ∈ requestEntities req := by
  simp [requestEntities, or_comm]

/-- What the time-dimension step answers after the request's references. -/
private theorem resolveTimeBucket_ok (hr : r.Anchored) {entities : List String}
    {joins : List ResolvedJoin} (hjoins : r.JoinsOf (r.ChainLinks entities) joins)
    {time : TimeBucket} (h : r.resolveTimeBucket req joins = .ok time) :
    (needsInheritance r.metric req = false ∧ time = ⟨joins, .local_, none, [], req.timeGrain⟩) ∨
      (needsInheritance r.metric req = true ∧
        inheritedCandidate r.store r.metric req.timeDimension = .ok none ∧
        time = ⟨joins, .unavailable, none, [], none⟩) ∨
      ∃ candidate col joins', needsInheritance r.metric req = true ∧
        inheritedCandidate r.store r.metric req.timeDimension = .ok (some candidate) ∧
        r.Resolved entities candidate.1 col joins' ∧
        time = ⟨joins', .inherited, some candidate.1, candidate.2, req.timeGrain⟩ := by
  unfold resolveTimeBucket at h
  split at h
  · next hneeds =>
    obtain ⟨choice, hchoice, h⟩ := bind_eq_ok h
    cases choice with
    | none => exact .inr (.inl ⟨hneeds, hchoice, (Except.ok.inj h).symm⟩)
    | some candidate =>
      obtain ⟨⟨col, joins'⟩, hcol, h⟩ := bind_eq_ok h
      exact .inr (.inr ⟨candidate, col, joins', hneeds, hchoice, resolveColumn_ok hr hjoins hcol,
        (Except.ok.inj h).symm⟩)
  · next hneeds =>
    exact .inl ⟨by simpa using hneeds, (Except.ok.inj h).symm⟩

end Resolver

/-- What a request that resolved says about the store, its references and the plan. -/
theorem resolveMetricPlan_ok {store : Store} {req : MetricRequest} {plan : MetricPlan}
    (h : resolveMetricPlan store req = .ok plan) :
    ∃ r : Resolver, r.store = store ∧ r.via = req.via ∧
      store.getMetric req.metricName = some r.metric ∧ r.Requestable req ∧
      r.InOrder [] (requestEntities req) ∧ r.PlanOf req plan := by
  unfold resolveMetricPlan at h
  split at h
  · simp at h
  · next metric hmetric =>
    obtain ⟨⟨⟩, hgrain, h⟩ := bind_eq_ok h
    obtain ⟨anchorTable, hanchor, h⟩ := bind_eq_ok h
    obtain ⟨⟨⟩, hmeasure, h⟩ := bind_eq_ok h
    obtain ⟨⟨cols, joins₁⟩, hgroup, h⟩ := bind_eq_ok h
    obtain ⟨⟨predicates, joins₂⟩, hfilters, h⟩ := bind_eq_ok h
    obtain ⟨clauses, horder, h⟩ := bind_eq_ok h
    obtain ⟨time, htime, h⟩ := bind_eq_ok h
    obtain rfl := Except.ok.inj h
    have hr : Resolver.Anchored ⟨store, metric, anchorTable, req.via⟩ := hanchor
    have hG := Resolver.resolveGroupBy_ok hr .nil hgroup
    have hF := Resolver.resolveFilters_ok hr hG.joins_of hfilters
    have hjoins := hF.joins_of.congr (Resolver.chainLinks_congr Resolver.requestEntities_swap)
    have hrefs : ∀ text, text ∈ (Resolver.groupColumns ⟨store, metric, anchorTable, req.via⟩
        req.groupBy []).map (·.ref) ↔ text ∈ [].map ResolvedColumn.ref ∨ text ∈ req.groupBy :=
      fun _ => Resolver.ref_mem_groupColumns hG.refs_ok
    have horder' := resolveOrderBy_isOk.1 ⟨clauses, horder⟩
    simp only [hG.columns_eq, hrefs, List.map_nil, List.not_mem_nil, false_or] at horder'
    have hinorder : Resolver.InOrder ⟨store, metric, anchorTable, req.via⟩ []
        (requestEntities req) :=
      Resolver.inOrder_append.2 ⟨hG.in_order, hF.in_order⟩
    refine ⟨⟨store, metric, anchorTable, req.via⟩, rfl, rfl, hmetric, ?_, hinorder, ?_⟩
    · refine ⟨hgrain, hmeasure, hG.refs_ok, hF.refs_ok, horder', fun hneeds => ?_⟩
      rcases Resolver.resolveTimeBucket_ok hr hjoins htime with
        ⟨hno, -⟩ | ⟨-, hchoice, -⟩ | ⟨candidate, col, joins', -, hchoice, hres, -⟩
      · simp [hneeds] at hno
      · exact ⟨none, hchoice, by simp⟩
      · refine ⟨some candidate, hchoice, fun c hc => ?_⟩
        obtain rfl := Option.mem_some_iff.1 hc
        exact ⟨hres.ref_ok, hres.reached⟩
    · rcases Resolver.resolveTimeBucket_ok hr hjoins htime with
        ⟨hneeds, rfl⟩ | ⟨hneeds, hchoice, rfl⟩ |
        ⟨candidate, col, joins', hneeds, hchoice, hres, rfl⟩
      · refine ⟨hr, rfl, rfl, rfl, hG.columns_eq, hF.columns_eq, hF.predicates_ok,
          by simpa using hF.predicates_eq, horder, rfl, ?_,
          .local_ hneeds rfl rfl rfl⟩
        simpa [planEntities] using hjoins
      · refine ⟨hr, rfl, rfl, rfl, hG.columns_eq, hF.columns_eq, hF.predicates_ok,
          by simpa using hF.predicates_eq, horder, rfl, ?_,
          .unavailable hneeds hchoice rfl rfl rfl⟩
        simpa [planEntities] using hjoins
      · refine ⟨hr, rfl, rfl, rfl, hG.columns_eq, hF.columns_eq, hF.predicates_ok,
          by simpa using hF.predicates_eq, horder, rfl, ?_,
          .inherited candidate hneeds hchoice rfl rfl rfl rfl hres.ref_ok hres.reached⟩
        exact hres.joins_of.congr (Resolver.chainLinks_congr (by simp [planEntities, or_comm]))

/-- A request resolves when its checks pass and its references are reached in order. -/
theorem exists_resolveMetricPlan {r : Resolver} {req : MetricRequest} (hr : r.Anchored)
    (hvia : r.via = req.via) (hmetric : r.store.getMetric req.metricName = some r.metric)
    (hreq : r.Requestable req) (horder : r.InOrder [] (requestEntities req)) :
    ∃ plan, resolveMetricPlan r.store req = .ok plan := by
  obtain ⟨hG, hF⟩ := Resolver.inOrder_append.1 horder
  obtain ⟨cols, joins₁, hgroup⟩ : ∃ cols joins₁, r.resolveGroupBy req.groupBy [] [] =
      .ok (cols, joins₁) := Resolver.exists_resolveGroupBy hr .nil hreq.group_refs hG
  have hgroup_ok := Resolver.resolveGroupBy_ok hr .nil hgroup
  obtain ⟨predicates, joins₂, hfilters⟩ : ∃ predicates joins₂,
      r.resolveFilters 0 req.filters joins₁ = .ok (predicates, joins₂) :=
    Resolver.exists_resolveFilters hr hgroup_ok.joins_of hreq.filter_refs hF
  have hjoins := (Resolver.resolveFilters_ok hr hgroup_ok.joins_of hfilters).joins_of.congr
    (Resolver.chainLinks_congr Resolver.requestEntities_swap)
  obtain ⟨clauses, hclauses⟩ : ∃ clauses, resolveOrderBy r.metric.name cols req.orderBy =
      .ok clauses := by
    rw [resolveOrderBy_isOk, hgroup_ok.columns_eq]
    simpa [Resolver.ref_mem_groupColumns hgroup_ok.refs_ok] using hreq.order
  obtain ⟨time, htime⟩ : ∃ time, r.resolveTimeBucket req joins₂ = .ok time := by
    unfold Resolver.resolveTimeBucket
    by_cases hneeds : needsInheritance r.metric req = true
    · rw [if_pos hneeds]
      obtain ⟨choice, hchoice, hcandidate⟩ := hreq.time hneeds
      cases choice with
      | none => exact ⟨_, by rw [hchoice]; rfl⟩
      | some candidate =>
        obtain ⟨href, hreached⟩ := hcandidate candidate rfl
        obtain ⟨col, joins', hcol⟩ : ∃ col joins', r.resolveColumn joins₂ candidate.1 .groupBy =
            .ok (col, joins') := Resolver.exists_resolveColumn hr hjoins href hreached
        exact ⟨_, by rw [hchoice]; simp only [bind, Except.bind, hcol]; rfl⟩
    · rw [if_neg hneeds]
      exact ⟨_, rfl⟩
  have hsame : (⟨r.store, r.metric, r.anchorTable, req.via⟩ : Resolver) = r := by rw [← hvia]
  unfold resolveMetricPlan
  simp only [hmetric, hreq.grain, show lookupAnchorTable r.store r.metric.entity = .ok r.anchorTable
    from hr, hsame, hreq.measure, hgroup, hfilters, hclauses, htime, bind, Except.bind]
  exact ⟨_, rfl⟩

end SchemaBrain.Semantic
