import SchemaBrain.Semantic.ChainSearch
import SchemaBrain.Semantic.ViaContract

/-!
# The requested time dimension

When the `time_dimension` of a request decides what a metric inherits. The time step is the
only one that refuses a request for an ambiguous time dimension, and the other steps do not
look at the time arguments.
-/

namespace SchemaBrain.Semantic

open Base Core

/-- `AmbiguousTimeDimensionError`. -/
def CompilerError.isAmbiguousTime : CompilerError → Bool
  | .ambiguousTimeDimension _ _ => true
  | _ => false

/-- The computation does not raise `AmbiguousTimeDimensionError`. -/
def Unambiguous {α : Type} (x : Except CompilerError α) : Prop :=
  ∀ e, x = .error e → e.isAmbiguousTime = false

namespace Unambiguous

variable {α β : Type}

@[simp] theorem ok (a : α) : Unambiguous (.ok a : Except CompilerError α) := by
  rintro e ⟨⟩

theorem error {e : CompilerError} (h : e.isAmbiguousTime = false) :
    Unambiguous (.error e : Except CompilerError α) := by
  rintro e' ⟨⟩
  exact h

theorem bind {x : Except CompilerError α} {f : α → Except CompilerError β} (hx : Unambiguous x)
    (hf : ∀ a, Unambiguous (f a)) : Unambiguous (x >>= f) := by
  intro e he
  cases x with
  | error e' =>
    obtain rfl : e' = e := Except.error.inj he
    exact hx e' rfl
  | ok a => exact hf a e he

theorem mapM {f : α → Except CompilerError β} (hf : ∀ a, Unambiguous (f a)) (xs : List α) :
    Unambiguous (xs.mapM f) := by
  intro e he
  obtain ⟨x, -, hx⟩ := mapM_eq_error he
  exact hf x e hx

theorem forM {f : α → Except CompilerError Unit} (hf : ∀ a, Unambiguous (f a)) (xs : List α) :
    Unambiguous (xs.forM f) := by
  induction xs with
  | nil => exact ok ()
  | cons x xs ih =>
    rw [List.forM_eq_forM, List.forM_cons]
    exact (hf x).bind fun _ => ih

theorem foldlM {f : β → α → Except CompilerError β} (hf : ∀ b a, Unambiguous (f b a))
    (xs : List α) (b : β) : Unambiguous (xs.foldlM f b) := by
  induction xs generalizing b with
  | nil => exact ok b
  | cons x xs ih =>
    rw [List.foldlM_cons]
    exact (hf b x).bind ih

end Unambiguous

/-! ## The steps that are not about time -/

theorem unambiguous_lookupAnchorTable (store : Store) (entity : String) :
    Unambiguous (lookupAnchorTable store entity) := by
  unfold lookupAnchorTable
  split
  · exact .ok _
  · exact .error rfl

theorem unambiguous_validateColumnOnTable (store : Store) (entity column : String)
    (q : QualifiedTable) (kind : ColumnValidationKind) :
    Unambiguous (validateColumnOnTable store entity column q kind) := by
  unfold validateColumnOnTable columnsOn
  refine .bind ?_ fun allowed => ?_
  · split
    · exact .ok _
    · exact .error rfl
  · split
    · exact .ok ()
    · exact .error (by cases kind <;> rfl)

theorem unambiguous_checkOperatorValue (op : Operator) (value : PyValue) (index : Nat) :
    Unambiguous (checkOperatorValue op value index) := by
  unfold checkOperatorValue
  split
  · split
    · exact .ok ()
    · exact .error rfl
  · split <;> split <;> first | exact .ok () | exact .error rfl

theorem unambiguous_resolveClauses (aliases : List (String × String))
    (orderBy : List RequestedOrderBy) (seen : List String) :
    Unambiguous (resolveClauses aliases orderBy seen) := by
  induction orderBy generalizing seen with
  | nil => exact .ok []
  | cons o orderBy ih =>
    rw [resolveClauses]
    split
    · exact .error rfl
    · split
      · exact ih seen
      · exact (ih _).bind fun _ => .ok _

theorem unambiguous_resolveOrderBy (metricName : String) (groupBy : List ResolvedColumn)
    (orderBy : List RequestedOrderBy) :
    Unambiguous (resolveOrderBy metricName groupBy orderBy) :=
  (unambiguous_resolveClauses _ _ _).bind fun _ => .ok _

theorem unambiguous_findCanonicalChain (edges : List CanonicalJoin) {anchor target : String}
    (hne : anchor ≠ target) (via : List String) :
    Unambiguous (findCanonicalChain (buildJoinGraph edges) anchor target via) := by
  intro e he
  have hdue := (@findCanonicalChain_due edges anchor target via hne).1
  rw [he] at hdue
  cases e with
  | ambiguousTimeDimension => exact hdue.elim
  | _ => rfl

namespace Resolver

variable (r : Resolver)

theorem unambiguous_addLink (joins : List ResolvedJoin) (link : String × ChainEdge) :
    Unambiguous (r.addLink joins link) := by
  unfold addLink sourceAliasOf
  split
  · exact .ok joins
  · refine (unambiguous_lookupAnchorTable _ _).bind fun targetTable => .bind ?_ fun _ => .ok _
    split
    · exact .ok _
    · split
      · exact .ok _
      · exact .error rfl

theorem unambiguous_resolveColumn (joins : List ResolvedJoin) (columnRef : String)
    (kind : ColumnValidationKind) : Unambiguous (r.resolveColumn joins columnRef kind) := by
  have hcheck := unambiguous_validateColumnOnTable r.store
  unfold resolveColumn
  split
  · exact .error rfl
  · split
    · exact (hcheck _ _ _ _).bind fun _ => .ok _
    · next hne =>
      split
      · exact (hcheck _ _ _ _).bind fun _ => .ok _
      · split
        · exact .error rfl
        · refine (unambiguous_findCanonicalChain _ (Ne.symm hne) _).bind fun found => ?_
          refine (Unambiguous.foldlM r.unambiguous_addLink found.1 joins).bind fun joins' => ?_
          split
          · exact .error rfl
          · exact (hcheck _ _ _ _).bind fun _ => .ok _

theorem unambiguous_resolveGroupBy (refs : List String) (cols : List ResolvedColumn)
    (joins : List ResolvedJoin) : Unambiguous (r.resolveGroupBy refs cols joins) := by
  induction refs generalizing cols joins with
  | nil => exact .ok _
  | cons ref refs ih => exact (r.unambiguous_resolveColumn _ _ _).bind fun _ => ih _ _

theorem unambiguous_resolveFilters (index : Nat) (filters : List RequestedFilter)
    (joins : List ResolvedJoin) : Unambiguous (r.resolveFilters index filters joins) := by
  induction filters generalizing index joins with
  | nil => exact .ok _
  | cons f filters ih =>
    exact (r.unambiguous_resolveColumn _ _ _).bind fun _ =>
      (unambiguous_checkOperatorValue _ _ _).bind fun _ => (ih _ _).bind fun _ => .ok _

theorem unambiguous_validateMeasure : Unambiguous r.validateMeasure :=
  .forM (fun _ => unambiguous_validateColumnOnTable _ _ _ _ _) _

end Resolver

/-! ## The time step -/

/-- The columns that the search offers to a metric. -/
def offeredDimensions (store : Store) (metric : Metric) : List (String × List String) :=
  findInheritedTimeDimension store (buildJoinGraph store.listCanonicalJoins) metric.entity

/-- The request without its time grain. -/
def MetricRequest.withoutGrain (req : MetricRequest) : MetricRequest :=
  { req with timeGrain := none }

/-- A plan with the result of another time step. -/
def MetricPlan.withTime (plan : MetricPlan) (time : TimeBucket) : MetricPlan :=
  { plan with
    timeBucket := time.bucket
    joins := time.joins
    timeDimensionResolution := time.resolution
    inheritedTimeDimension := time.dimension
    timeDimensionInheritedVia := time.via }

/-- A requested time dimension is inherited, and one that is not offered is refused. -/
structure TimeContract (store : Store) (req : MetricRequest) (metric : Metric)
    (dimension : String) : Prop where
  inherited : ∀ plan, resolveMetricPlan store req = .ok plan →
    plan.timeDimensionResolution = .inherited → plan.inheritedTimeDimension = some dimension
  refused : dimension ∉ (offeredDimensions store metric).map (·.1) →
    offeredDimensions store metric ≠ [] → ∃ anchor candidates,
      resolveMetricPlan store req = .error (.ambiguousTimeDimension anchor candidates)

/-- The request passes every check but those of the time step. -/
def RestPasses (store : Store) (req : MetricRequest) : Prop :=
  ∃ r, Resolver.ResolverOf store req r ∧ r.Requestable req.withoutGrain ∧
    r.InOrder [] (requestEntities req)

/-- The dimension is offered, or nothing is, or there are others to choose from and nothing
else is wrong with the request. -/
def TimeSettled (store : Store) (req : MetricRequest) (metric : Metric)
    (dimension : String) : Prop :=
  dimension ∈ (offeredDimensions store metric).map (·.1) ∨ offeredDimensions store metric = [] ∨
    (2 ≤ (offeredDimensions store metric).length ∧ RestPasses store req)

section Time

variable {store : Store} {req : MetricRequest} {metric : Metric}

theorem restPasses_iff :
    RestPasses store req ↔ ∃ plan, resolveMetricPlan store req.withoutGrain = .ok plan := by
  constructor
  · rintro ⟨r, hr, hreq, horder⟩
    rw [← hr.store_eq]
    exact exists_resolveMetricPlan hr.anchored hr.via_eq (hr.store_eq ▸ hr.metric_eq) hreq horder
  · rintro ⟨plan, hplan⟩
    obtain ⟨r, hstore, hvia, hmetric, hreq, horder, hplan⟩ := resolveMetricPlan_ok hplan
    exact ⟨r, ⟨hstore, hvia, hmetric, hplan.anchored⟩, hreq, horder⟩

/-- A request with a grain fails as it does without, or takes the time step at the end. -/
theorem resolveMetricPlan_time (hmetric : store.getMetric req.metricName = some metric)
    (hnone : metric.timeDimension = none) :
    (∃ e, e.isAmbiguousTime = false ∧ resolveMetricPlan store req = .error e ∧
        resolveMetricPlan store req.withoutGrain = .error e) ∨
      ∃ (plan : MetricPlan) (r : Resolver) (joins : List ResolvedJoin),
        resolveMetricPlan store req.withoutGrain = .ok plan ∧
        r.store = store ∧ r.metric = metric ∧
        resolveMetricPlan store req = (do
          let time ← r.resolveTimeBucket req joins
          return plan.withTime time) := by
  have hgrain : ∀ grain, checkDeclaredGrain metric grain = .ok () := by
    simp [checkDeclaredGrain, hnone]
  unfold resolveMetricPlan MetricRequest.withoutGrain
  simp only [hmetric, hgrain, bind, Except.bind]
  cases hanchor : lookupAnchorTable store metric.entity with
  | error e => exact .inl ⟨e, unambiguous_lookupAnchorTable _ _ e hanchor, rfl, rfl⟩
  | ok anchorTable =>
    obtain ⟨r, hr⟩ : ∃ r : Resolver, (⟨store, metric, anchorTable, req.via⟩ : Resolver) = r :=
      ⟨_, rfl⟩
    simp only [hr]
    cases hmeasure : r.validateMeasure with
    | error e => exact .inl ⟨e, r.unambiguous_validateMeasure e hmeasure, rfl, rfl⟩
    | ok =>
      dsimp only
      cases hgroup : r.resolveGroupBy req.groupBy [] [] with
      | error e => exact .inl ⟨e, r.unambiguous_resolveGroupBy _ _ _ e hgroup, rfl, rfl⟩
      | ok found =>
        dsimp only
        cases hfilters : r.resolveFilters 0 req.filters found.2 with
        | error e => exact .inl ⟨e, r.unambiguous_resolveFilters _ _ _ e hfilters, rfl, rfl⟩
        | ok filtered =>
          dsimp only
          cases horder : resolveOrderBy metric.name found.1 req.orderBy with
          | error e => exact .inl ⟨e, unambiguous_resolveOrderBy _ _ _ e horder, rfl, rfl⟩
          | ok clauses =>
            -- without a grain the time step keeps the joins as they are
            have hlocal : r.resolveTimeBucket req.withoutGrain filtered.2 =
                .ok ⟨filtered.2, .local_, none, [], none⟩ := by
              simp [Resolver.resolveTimeBucket, needsInheritance, MetricRequest.withoutGrain]
            simp only [MetricRequest.withoutGrain] at hlocal
            simp only [hlocal]
            refine .inr ⟨_, r, filtered.2, rfl, by rw [← hr], by rw [← hr], ?_⟩
            cases r.resolveTimeBucket req filtered.2 <;> rfl

end Time

section Contract

variable {store : Store} {req : MetricRequest} {metric : Metric} {dimension : String}

/-- A dimension that is not offered narrows nothing. -/
theorem narrowCandidates_missing {offered : List (String × List String)}
    (h : dimension ∉ offered.map (·.1)) : narrowCandidates (some dimension) offered = offered := by
  have hfilter : offered.filter (·.1 = dimension) = [] := by
    rw [List.filter_eq_nil_iff]
    exact fun c hc heq => h (List.mem_map.2 ⟨c, hc, of_decide_eq_true heq⟩)
  rw [narrowCandidates, hfilter]

/-- A dimension that is offered is all that is left, or several columns are. -/
theorem narrowCandidates_offered {offered : List (String × List String)}
    (h : dimension ∈ offered.map (·.1)) :
    (∃ candidate, narrowCandidates (some dimension) offered = [candidate] ∧
        candidate.1 = dimension) ∨
      2 ≤ (narrowCandidates (some dimension) offered).length := by
  obtain ⟨c, hc, hname⟩ := List.mem_map.1 h
  have hmem : c ∈ offered.filter (·.1 = dimension) :=
    List.mem_filter.2 ⟨hc, decide_eq_true hname⟩
  have hlen : (offered.filter (·.1 = dimension)).length ≤ offered.length :=
    List.length_filter_le _ _
  unfold narrowCandidates
  match hfilter : offered.filter (·.1 = dimension) with
  | [] =>
    rw [hfilter] at hmem
    exact absurd hmem List.not_mem_nil
  | [candidate] =>
    rw [hfilter, List.mem_singleton] at hmem
    exact .inl ⟨candidate, by simp only [hfilter], hmem ▸ hname⟩
  | _ :: _ :: _ =>
    rw [hfilter] at hlen
    simp only [hfilter]
    exact .inr (le_trans (by simp) hlen)

theorem inheritedCandidate_eq (timeDimension : Option String) :
    inheritedCandidate store metric timeDimension =
      match narrowCandidates timeDimension (offeredDimensions store metric) with
      | [] => .ok none
      | [candidate] => .ok (some candidate)
      | candidates => .error (.ambiguousTimeDimension metric.entity candidates) := rfl

/-- What is inherited is the requested dimension, or the only one offered. -/
theorem inheritedCandidate_some {candidate : String × List String}
    (hchoice : inheritedCandidate store metric (some dimension) = .ok (some candidate)) :
    candidate.1 = dimension ∨
      (dimension ∉ (offeredDimensions store metric).map (·.1) ∧
        offeredDimensions store metric = [candidate]) := by
  rw [inheritedCandidate_eq] at hchoice
  by_cases hoffered : dimension ∈ (offeredDimensions store metric).map (·.1)
  · rcases narrowCandidates_offered hoffered with ⟨c, hone, hname⟩ | hmany
    · rw [hone] at hchoice
      obtain rfl := Option.some.inj (Except.ok.inj hchoice)
      exact .inl hname
    · split at hchoice
      · simp at hchoice
      · next hone => simp [hone] at hmany
      · simp at hchoice
  · rw [narrowCandidates_missing hoffered] at hchoice
    split at hchoice
    · simp at hchoice
    · next c hone =>
      obtain rfl := Option.some.inj (Except.ok.inj hchoice)
      exact .inr ⟨hoffered, hone⟩
    · simp at hchoice

/-- A time step that inherits a column raises no such error. -/
theorem unambiguous_resolveTimeBucket {r : Resolver} {joins : List ResolvedJoin}
    {candidate : String × List String}
    (hchoice : inheritedCandidate r.store r.metric req.timeDimension = .ok (some candidate)) :
    Unambiguous (r.resolveTimeBucket req joins) := by
  unfold Resolver.resolveTimeBucket
  split
  · rw [hchoice]
    exact (r.unambiguous_resolveColumn _ _ _).bind fun _ => .ok _
  · exact .ok _

/-- A requested time dimension is honoured or refused exactly for settled requests. -/
theorem timeContract_iff (hmetric : store.getMetric req.metricName = some metric)
    (hnone : metric.timeDimension = none) (hgrain : req.timeGrain.isSome = true)
    (hdimension : req.timeDimension = some dimension) :
    TimeContract store req metric dimension ↔ TimeSettled store req metric dimension := by
  have hneeds : needsInheritance metric req = true := by simp [needsInheritance, hnone, hgrain]
  constructor
  · intro hcontract
    by_cases hoffered : dimension ∈ (offeredDimensions store metric).map (·.1)
    · exact .inl hoffered
    by_cases hempty : offeredDimensions store metric = []
    · exact .inr (.inl hempty)
    obtain ⟨anchor, candidates, hraise⟩ := hcontract.refused hoffered hempty
    rcases resolveMetricPlan_time hmetric hnone with
      ⟨e, hother, herror, -⟩ | ⟨plan, r, joins, hrest, rfl, rfl, htime⟩
    · rw [hraise] at herror
      rw [← Except.error.inj herror] at hother
      simp [CompilerError.isAmbiguousTime] at hother
    · refine .inr (.inr ⟨?_, restPasses_iff.2 ⟨plan, hrest⟩⟩)
      cases hcand : offeredDimensions r.store r.metric with
      | nil => exact absurd hcand hempty
      | cons candidate others =>
        cases others with
        | nil =>
          -- the only column that is offered is inherited, whatever was asked for
          have hchoice : inheritedCandidate r.store r.metric req.timeDimension =
              .ok (some candidate) := by
            rw [hdimension, inheritedCandidate_eq, narrowCandidates_missing hoffered, hcand]
          have hclear : Unambiguous (resolveMetricPlan r.store req) := by
            rw [htime]
            exact (unambiguous_resolveTimeBucket hchoice).bind fun _ => .ok _
          have := hclear _ hraise
          simp [CompilerError.isAmbiguousTime] at this
        | cons candidate' others => simp
  · intro hsettled
    constructor
    · intro plan hplan hresolution
      obtain ⟨r, rfl, -, hmetric', -, -, hof⟩ := resolveMetricPlan_ok hplan
      obtain rfl := Option.some.inj (hmetric'.symm.trans hmetric)
      cases hof.time with
      | local_ _ hlocal => simp [hlocal] at hresolution
      | unavailable _ _ hunavailable => simp [hunavailable] at hresolution
      | inherited candidate _ hchoice _ hinherited =>
        rw [hinherited, Option.some.injEq]
        rw [hdimension] at hchoice
        rcases inheritedCandidate_some hchoice with hname | ⟨hmissing, hone⟩
        · exact hname
        · rcases hsettled with hoffered | hempty | ⟨hmany, -⟩
          · exact absurd hoffered hmissing
          · simp [hone] at hempty
          · simp [hone] at hmany
    · intro hmissing hne
      obtain ⟨hmany, hrest⟩ : 2 ≤ (offeredDimensions store metric).length ∧
          RestPasses store req := by
        rcases hsettled with hoffered | hempty | h
        · exact absurd hoffered hmissing
        · exact absurd hempty hne
        · exact h
      obtain ⟨plan, hplan⟩ := restPasses_iff.1 hrest
      rcases resolveMetricPlan_time hmetric hnone with
        ⟨e, -, -, herror⟩ | ⟨plan', r, joins, -, rfl, rfl, htime⟩
      · rw [hplan] at herror
        simp at herror
      · have hchoice : inheritedCandidate r.store r.metric req.timeDimension =
            .error (.ambiguousTimeDimension r.metric.entity (offeredDimensions r.store r.metric))
            := by
          rw [hdimension, inheritedCandidate_eq, narrowCandidates_missing hmissing]
          cases hcand : offeredDimensions r.store r.metric with
          | nil => exact absurd hcand hne
          | cons candidate others =>
            cases others with
            | nil => simp [hcand] at hmany
            | cons candidate' others => rfl
        refine ⟨r.metric.entity, offeredDimensions r.store r.metric, htime.trans ?_⟩
        simp only [Resolver.resolveTimeBucket, hneeds, if_true, hchoice, bind, Except.bind]

end Contract

/-- Revenue, on orders without a time of their own. -/
def signupRevenue : Metric :=
  { name := "revenue", entity := "order", measure := { agg := .sum, ref := .column "amount" } }

/-- Orders of customers, who signed up at some time. -/
def signupStore : Store where
  tables := [
    ⟨⟨"public", "orders"⟩, [⟨"amount", "int", false, 1, none, false⟩,
      ⟨"customer_id", "int", false, 2, none, false⟩], []⟩,
    ⟨⟨"public", "customers"⟩, [⟨"id", "int", false, 1, none, true⟩,
      ⟨"created_at", "timestamp", false, 2, none, false⟩], []⟩]
  entities := [
    { name := "order", binding := ⟨"public", "orders"⟩, identity := "id" },
    { name := "customer", binding := ⟨"public", "customers"⟩, identity := "id" }]
  canonicalJoins := [{ orderCustomer with cardinality := some .manyToOne }]
  metrics := [signupRevenue]
  columnPiiTags := []

/-- Revenue by day of some time dimension. -/
def byDayOf (dimension : String) : MetricRequest :=
  { metricName := "revenue", timeGrain := some .day, timeDimension := some dimension }

theorem timeContract_iff_created :
    TimeContract signupStore (byDayOf "customer.created_at") signupRevenue
      "customer.created_at" :=
  (timeContract_iff rfl rfl rfl rfl).2 (.inl (by decide))

/-- A time dimension that does not exist is asked for, and the only one there is inherited. -/
theorem not_timeContract :
    ¬ TimeContract signupStore (byDayOf "order.shipped_at") signupRevenue "order.shipped_at" := by
  intro h
  have hplan : (resolveMetricPlan signupStore (byDayOf "order.shipped_at")).toOption.map
      (fun plan => (plan.timeDimensionResolution, plan.inheritedTimeDimension)) =
      some (.inherited, some "customer.created_at") := by decide
  cases hres : resolveMetricPlan signupStore (byDayOf "order.shipped_at") with
  | error e => simp [hres, Except.toOption] at hplan
  | ok plan =>
    simp only [hres, Except.toOption, Option.map_some, Option.some.injEq, Prod.mk.injEq] at hplan
    have hdimension := h.inherited plan hres hplan.1
    rw [hplan.2] at hdimension
    simp at hdimension

end SchemaBrain.Semantic
