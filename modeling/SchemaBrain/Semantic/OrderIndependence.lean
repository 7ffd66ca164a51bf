import Mathlib.Data.List.Perm.Basic
import SchemaBrain.Semantic.ResolvePlan

/-!
# Order of the references

When the group-by columns and the filters of a request may be permuted. A plan's joins
never depend on the order. Success does: an entity whose own chain `via` excludes
resolves only after a reference whose chain passes it.
-/

namespace SchemaBrain.Semantic

open Base Core

/-- The request with its group-by columns and filters replaced. -/
def MetricRequest.reorder (req : MetricRequest) (groupBy : List String)
    (filters : List RequestedFilter) : MetricRequest :=
  { req with groupBy := groupBy, filters := filters }

@[simp] theorem MetricRequest.reorder_groupBy (req : MetricRequest) (groupBy : List String)
    (filters : List RequestedFilter) : (req.reorder groupBy filters).groupBy = groupBy := rfl

@[simp] theorem MetricRequest.reorder_filters (req : MetricRequest) (groupBy : List String)
    (filters : List RequestedFilter) : (req.reorder groupBy filters).filters = filters := rfl

/-- Both succeed with the same set of joins, or both fail. -/
def Agree : Except CompilerError MetricPlan → Except CompilerError MetricPlan → Prop
  | .ok plan, .ok plan' => ∀ join, join ∈ plan.joins ↔ join ∈ plan'.joins
  | .error _, .error _ => True
  | _, _ => False

theorem Agree.isOk_eq {a b : Except CompilerError MetricPlan} (h : Agree a b) :
    a.isOk = b.isOk := by
  cases a <;> cases b
  · rfl
  · exact h.elim
  · exact h.elim
  · rfl

namespace Resolver

variable {r : Resolver} {req : MetricRequest}

/-- In some order every reference can be resolved: the chains to the group-by entities pass
all of them, and with the chains to the filter entities they pass these too. -/
def SomeOrder (r : Resolver) (req : MetricRequest) : Prop :=
  (∀ e ∈ req.groupBy.map refEntity, r.Reached (req.groupBy.map refEntity) e) ∧
    ∀ e ∈ req.filters.map filterEntity, r.Reached (requestEntities req) e

/-- In every order every reference can be resolved: each group-by entity has a chain of its
own, each filter entity has one or lies on the chain to a group-by entity. -/
def EveryOrder (r : Resolver) (req : MetricRequest) : Prop :=
  (∀ e ∈ req.groupBy.map refEntity, r.Reached [e] e) ∧
    ∀ e ∈ req.filters.map filterEntity, r.Reached (e :: req.groupBy.map refEntity) e

/-! ## Orders -/

theorem someOrder_of_inOrder (h : r.InOrder [] (requestEntities req)) : r.SomeOrder req := by
  obtain ⟨hgroup, -⟩ := inOrder_append.1 h
  constructor
  · intro e he
    simpa using hgroup.reached e he
  · intro e he
    simpa using h.reached e (List.mem_append_right _ he)

theorem inOrder_of_everyOrder (h : r.EveryOrder req) : r.InOrder [] (requestEntities req) := by
  refine inOrder_append.2 ⟨inOrder_of_reached h.1, inOrder_of_reached fun e he => ?_⟩
  exact (h.2 e he).mono (by simp)

theorem EveryOrder.reorder (h : r.EveryOrder req) {groupBy : List String}
    {filters : List RequestedFilter} (hgroup : req.groupBy.Perm groupBy)
    (hfilters : req.filters.Perm filters) : r.EveryOrder (req.reorder groupBy filters) := by
  constructor
  · intro e he
    exact h.1 e ((hgroup.map refEntity).mem_iff.2 he)
  · intro e he
    refine (h.2 e ((hfilters.map filterEntity).mem_iff.2 he)).mono fun f hf => ?_
    rw [List.mem_cons] at hf ⊢
    exact hf.imp_right (hgroup.map refEntity).mem_iff.1

theorem mem_requestEntities_reorder {groupBy : List String} {filters : List RequestedFilter}
    (hgroup : req.groupBy.Perm groupBy) (hfilters : req.filters.Perm filters) (e : String) :
    e ∈ requestEntities req ↔ e ∈ requestEntities (req.reorder groupBy filters) := by
  simp only [requestEntities, List.mem_append, MetricRequest.reorder,
    (hgroup.map refEntity).mem_iff, (hfilters.map filterEntity).mem_iff]

theorem SomeOrder.of_reorder {groupBy : List String} {filters : List RequestedFilter}
    (hgroup : req.groupBy.Perm groupBy) (hfilters : req.filters.Perm filters)
    (h : r.SomeOrder (req.reorder groupBy filters)) : r.SomeOrder req := by
  constructor
  · intro e he
    exact (h.1 e ((hgroup.map refEntity).mem_iff.1 he)).mono fun f =>
      (hgroup.map refEntity).mem_iff.2
  · intro e he
    exact (h.2 e ((hfilters.map filterEntity).mem_iff.1 he)).mono fun f =>
      (mem_requestEntities_reorder hgroup hfilters f).2

open Classical in
/-- The references whose entities have chains of their own, then the others. -/
private theorem inOrder_selfFirst {α : Type} (entity : α → String) (before : List String)
    {refs : List α}
    (h : ∀ e ∈ refs.map entity, r.Reached (refs.map entity ++ before) e) :
    ∃ refs', refs.Perm refs' ∧ r.InOrder before (refs'.map entity) := by
  refine ⟨refs.filter (fun x => r.Reached [entity x] (entity x)) ++
    refs.filter (fun x => !decide (r.Reached [entity x] (entity x))),
    (List.filter_append_perm _ refs).symm, ?_⟩
  rw [List.map_append, inOrder_append]
  constructor
  · refine inOrder_of_reached fun e he => ?_
    obtain ⟨x, hx, rfl⟩ := List.mem_map.1 he
    have hself := of_decide_eq_true (List.mem_filter.1 hx).2
    exact hself.mono (by simp)
  · refine inOrder_of_reached fun e he => ?_
    obtain ⟨x, hx, rfl⟩ := List.mem_map.1 he
    rcases (h _ (List.mem_map_of_mem (List.mem_of_mem_filter hx))).exists_self with
      hanchor | ⟨f, hf, hself, hreached⟩
    · exact .inl hanchor
    · refine hreached.mono fun f' hf' => List.mem_cons_of_mem _ ?_
      obtain rfl := List.mem_singleton.1 hf'
      rcases List.mem_append.1 hf with hf | hf
      · obtain ⟨y, hy, rfl⟩ := List.mem_map.1 hf
        refine List.mem_append_left _ (List.mem_reverse.2 (List.mem_map_of_mem ?_))
        exact List.mem_filter.2 ⟨hy, decide_eq_true hself⟩
      · exact List.mem_append_right _ hf

/-- Some order of the references resolves. -/
theorem SomeOrder.exists_inOrder (h : r.SomeOrder req) :
    ∃ groupBy filters, req.groupBy.Perm groupBy ∧ req.filters.Perm filters ∧
      r.InOrder [] (requestEntities (req.reorder groupBy filters)) := by
  obtain ⟨groupBy, hgroup, horder⟩ := inOrder_selfFirst refEntity [] (by simpa using h.1)
  obtain ⟨filters, hfilters, horder'⟩ :=
    inOrder_selfFirst filterEntity (groupBy.map refEntity).reverse fun e he =>
      (h.2 e he).mono fun f hf => by
        rw [requestEntities, List.mem_append, (hgroup.map refEntity).mem_iff] at hf
        simpa [or_comm] using hf
  exact ⟨groupBy, filters, hgroup, hfilters, inOrder_append.2 ⟨horder, by simpa using horder'⟩⟩

/-- A reference that needs another one before it fails when it comes first. -/
theorem exists_not_inOrder (h : ¬ r.EveryOrder req) :
    ∃ groupBy filters, req.groupBy.Perm groupBy ∧ req.filters.Perm filters ∧
      ¬ r.InOrder [] (requestEntities (req.reorder groupBy filters)) := by
  rw [EveryOrder, not_and_or] at h
  push Not at h
  rcases h with ⟨e, he, hbad⟩ | ⟨e, he, hbad⟩
  · obtain ⟨ref, hmem, rfl⟩ := List.mem_map.1 he
    obtain ⟨l, l', heq⟩ := List.append_of_mem hmem
    refine ⟨ref :: (l ++ l'), req.filters, heq ▸ List.perm_middle, .rfl, ?_⟩
    exact fun horder => hbad horder.1
  · obtain ⟨f, hmem, rfl⟩ := List.mem_map.1 he
    obtain ⟨l, l', heq⟩ := List.append_of_mem hmem
    refine ⟨req.groupBy, f :: (l ++ l'), .rfl, heq ▸ List.perm_middle, ?_⟩
    intro horder
    have hfirst := (inOrder_append.1 horder).2.1
    refine hbad (hfirst.mono fun e he => ?_)
    simpa using he

theorem Requestable.reorder (h : r.Requestable req) {groupBy : List String}
    {filters : List RequestedFilter} (hgroup : req.groupBy.Perm groupBy)
    (hfilters : req.filters.Perm filters) : r.Requestable (req.reorder groupBy filters) where
  grain := h.grain
  measure := h.measure
  group_refs ref href := h.group_refs ref (hgroup.mem_iff.2 href)
  filter_refs f hf := h.filter_refs f (hfilters.mem_iff.2 hf)
  order o ho := (h.order o ho).imp_right hgroup.mem_iff.1
  time hneeds := by
    obtain ⟨choice, hchoice, hcandidate⟩ := h.time hneeds
    refine ⟨choice, hchoice, fun c hc => ⟨(hcandidate c hc).1, ?_⟩⟩
    refine (hcandidate c hc).2.mono fun e he => ?_
    rw [List.mem_cons] at he ⊢
    exact he.imp_right (mem_requestEntities_reorder hgroup hfilters e).1

end Resolver

/-- Whenever the request can be resolved in some order at all, each reference can be
resolved in every order. -/
def OrderFree (store : Store) (req : MetricRequest) : Prop :=
  ∀ r : Resolver, r.store = store → r.via = req.via →
    store.getMetric req.metricName = some r.metric → r.Anchored →
    r.Requestable req → r.SomeOrder req → r.EveryOrder req

section Agreement

variable {store : Store} {req : MetricRequest}

/-- Any two orders that resolve give the same set of joins. -/
private theorem joins_agree {groupBy : List String} {filters : List RequestedFilter}
    (hgroup : req.groupBy.Perm groupBy) (hfilters : req.filters.Perm filters)
    {plan plan' : MetricPlan} (h : resolveMetricPlan store req = .ok plan)
    (h' : resolveMetricPlan store (req.reorder groupBy filters) = .ok plan') :
    ∀ join, join ∈ plan.joins ↔ join ∈ plan'.joins := by
  obtain ⟨r, hstore, hvia, hmetric, -, -, hplan⟩ := resolveMetricPlan_ok h
  obtain ⟨r', hstore', hvia', hmetric', -, -, hplan'⟩ := resolveMetricPlan_ok h'
  obtain rfl : r' = r := Resolver.eq_of_anchored hplan.anchored hplan'.anchored
    (hstore'.trans hstore.symm) (hvia'.trans hvia.symm)
    (Option.some.inj (hmetric'.symm.trans hmetric))
  -- both plans inherit the same time dimension
  have hdimension : plan.inheritedTimeDimension = plan'.inheritedTimeDimension := by
    rcases hplan.time with ⟨hneeds, -, hdim, -⟩ | ⟨hneeds, hchoice, -, hdim, -⟩ |
      ⟨candidate, hneeds, hchoice, -, hdim, -⟩ <;>
    rcases hplan'.time with ⟨hneeds', -, hdim', -⟩ | ⟨hneeds', hchoice', -, hdim', -⟩ |
      ⟨candidate', hneeds', hchoice', -, hdim', -⟩ <;>
    simp_all [needsInheritance, MetricRequest.reorder]
  have hentities : ∀ e, e ∈ planEntities req plan ↔
      e ∈ planEntities (req.reorder groupBy filters) plan' := by
    intro e
    rw [planEntities, planEntities, List.mem_append, List.mem_append, hdimension,
      Resolver.mem_requestEntities_reorder hgroup hfilters]
  intro join
  rw [(hplan.joins_of.congr (Resolver.chainLinks_congr hentities)).mem_iff,
    hplan'.joins_of.mem_iff]

/-- Permuting the group-by columns and the filters never changes whether a request resolves
or which joins its plan has, exactly when the request is order free. -/
theorem agree_reorder_iff (store : Store) (req : MetricRequest) :
    (∀ groupBy filters, req.groupBy.Perm groupBy → req.filters.Perm filters →
      Agree (resolveMetricPlan store req)
        (resolveMetricPlan store (req.reorder groupBy filters))) ↔ OrderFree store req := by
  constructor
  · rintro hagree r rfl hvia hmetric hr hreq hsome
    by_contra hnot
    obtain ⟨G, F, hG, hF, hgood⟩ := hsome.exists_inOrder
    obtain ⟨G', F', hG', hF', hbad⟩ := Resolver.exists_not_inOrder hnot
    obtain ⟨plan, hplan⟩ : ∃ plan, resolveMetricPlan r.store (req.reorder G F) = .ok plan :=
      exists_resolveMetricPlan hr hvia hmetric (hreq.reorder hG hF) hgood
    have hok := (hagree G F hG hF).isOk_eq.symm.trans (hagree G' F' hG' hF').isOk_eq
    rw [hplan] at hok
    cases hfail : resolveMetricPlan r.store (req.reorder G' F') with
    | error e =>
      rw [hfail] at hok
      exact absurd hok (by simp [Except.isOk, Except.toBool])
    | ok plan' =>
      obtain ⟨r', hstore, hvia', hmetric', -, horder, hplan'⟩ := resolveMetricPlan_ok hfail
      obtain rfl : r' = r := Resolver.eq_of_anchored hr hplan'.anchored hstore
        (hvia'.trans hvia.symm) (Option.some.inj (hmetric'.symm.trans hmetric))
      exact hbad horder
  · intro hfree G F hG hF
    -- a success in either order makes every order succeed
    have hevery : ∀ {G' F'}, req.groupBy.Perm G' → req.filters.Perm F' → ∀ {plan},
        resolveMetricPlan store (req.reorder G' F') = .ok plan → ∀ {G'' F''},
        req.groupBy.Perm G'' → req.filters.Perm F'' →
        ∃ plan', resolveMetricPlan store (req.reorder G'' F'') = .ok plan' := by
      intro G' F' hG' hF' plan hplan G'' F'' hG'' hF''
      obtain ⟨r, rfl, hvia, hmetric, hreq, horder, hplan⟩ := resolveMetricPlan_ok hplan
      have hreq' : r.Requestable req := hreq.reorder hG'.symm hF'.symm
      have hsome := (Resolver.someOrder_of_inOrder horder).of_reorder hG' hF'
      have hall := hfree r rfl hvia hmetric hplan.anchored hreq' hsome
      exact exists_resolveMetricPlan hplan.anchored hvia hmetric (hreq'.reorder hG'' hF'')
        (Resolver.inOrder_of_everyOrder (hall.reorder hG'' hF''))
    cases h : resolveMetricPlan store req with
    | ok plan =>
      obtain ⟨plan', h'⟩ := hevery .rfl .rfl h hG hF
      rw [h']
      exact joins_agree hG hF h h'
    | error e =>
      cases h' : resolveMetricPlan store (req.reorder G F) with
      | error e' => trivial
      | ok plan' =>
        obtain ⟨plan, hplan⟩ := hevery hG hF h' .rfl .rfl
        exact absurd (h.symm.trans hplan) (by simp)

end Agreement

/-- Orders of customers of regions. -/
def orderStore : Store where
  tables := [
    ⟨⟨"public", "orders"⟩, [⟨"amount", "int", false, 1, none, false⟩,
      ⟨"customer_id", "int", false, 2, none, false⟩], []⟩,
    ⟨⟨"public", "customers"⟩, [⟨"id", "int", false, 1, none, true⟩,
      ⟨"segment", "text", true, 2, none, false⟩, ⟨"region_id", "int", false, 3, none, false⟩], []⟩,
    ⟨⟨"public", "regions"⟩, [⟨"id", "int", false, 1, none, true⟩,
      ⟨"name", "text", true, 2, none, false⟩], []⟩]
  entities := [
    { name := "order", binding := ⟨"public", "orders"⟩, identity := "id" },
    { name := "customer", binding := ⟨"public", "customers"⟩, identity := "id" },
    { name := "region", binding := ⟨"public", "regions"⟩, identity := "id" }]
  canonicalJoins := [
    { orderCustomer with cardinality := some .manyToOne },
    { customerRegion with cardinality := some .manyToOne }]
  metrics := [
    { name := "revenue", entity := "order", measure := { agg := .sum, ref := .column "amount" } }]
  columnPiiTags := []

/-- Revenue by region name and customer segment, through `customer_region`. -/
def regionFirst : MetricRequest :=
  { metricName := "revenue", groupBy := ["region.name", "customer.segment"],
    via := ["customer_region"] }

/-- With the region first the segment is read off its chain; the other way round `via` is not
on the chain to the customer. -/
theorem not_agree_regionFirst :
    ¬ ∀ groupBy filters, regionFirst.groupBy.Perm groupBy → regionFirst.filters.Perm filters →
      Agree (resolveMetricPlan orderStore regionFirst)
        (resolveMetricPlan orderStore (regionFirst.reorder groupBy filters)) := by
  intro hall
  have hagree := hall ["customer.segment", "region.name"] [] (List.Perm.swap _ _ _) .rfl
  exact absurd hagree.isOk_eq (by decide +kernel)

end SchemaBrain.Semantic
