import SchemaBrain.Semantic.ResolvePlan

/-!
# Joins to an inherited time dimension

The joins of a plan that lead from the anchor to one entity are the links of the
canonical chain to it. The candidate search found the entity along another walk, over
joins that keep the anchor's row count; the two are compared by their join names.
-/

namespace SchemaBrain.Semantic

open Base Core

/-- The joins behind an alias, followed through the source aliases: the last join first. -/
def leadingJoins : List ResolvedJoin → String → List ResolvedJoin
  | [], _ => []
  | join :: earlier, aliasName =>
    if join.targetAlias = aliasName then leadingJoins earlier join.sourceAlias ++ [join]
    else leadingJoins earlier aliasName

/-- The joins of a plan from the anchor to an entity, in order. -/
def MetricPlan.joinsTo (plan : MetricPlan) (entity : String) : List ResolvedJoin :=
  leadingJoins plan.joins.reverse (aliasFor entity)

/-- The joins to the inherited time dimension are the ones its provenance names, and none of
them multiplies the rows before it. -/
def BucketsAlongVia (plan : MetricPlan) : Prop :=
  ∃ dimension, plan.inheritedTimeDimension = some dimension ∧
    (plan.joinsTo (refEntity dimension)).map (·.canonicalName) = plan.timeDimensionInheritedVia ∧
    ∀ join ∈ plan.joinsTo (refEntity dimension),
      join.cardinality = some .manyToOne ∨ join.cardinality = some .oneToOne

theorem leadingJoins_of_not_mem {joins : List ResolvedJoin} {aliasName : String}
    (h : ∀ join ∈ joins, join.targetAlias ≠ aliasName) : leadingJoins joins aliasName = [] := by
  induction joins with
  | nil => rfl
  | cons join joins ih =>
    rw [leadingJoins, if_neg (h join List.mem_cons_self)]
    exact ih fun j hj => h j (List.mem_cons_of_mem _ hj)

namespace Resolver

variable {r : Resolver}

theorem Scoped.target_ne {anchor : String} {joins : List ResolvedJoin} (h : Scoped anchor joins) :
    ∀ join ∈ joins, join.targetAlias ≠ anchor := by
  induction h with
  | nil => simp
  | snoc _ _ hanchor _ ih =>
    intro join hjoin
    rcases List.mem_append.1 hjoin with hjoin | hjoin
    · exact ih join hjoin
    · exact List.mem_singleton.1 hjoin ▸ hanchor

/-- Behind the entity of a joined link stand the links of its chain up to it. -/
theorem leadingJoins_eq {joins : List ResolvedJoin}
    (hscoped : Scoped (aliasFor r.metric.entity) joins)
    (hlinks : ∀ join ∈ joins, ∃ f chain link, r.HasChain f chain ∧ link ∈ chain ∧
      join = r.linkJoin link)
    {f : String} {p s : List (String × ChainEdge)} {link : String × ChainEdge}
    (hchain : r.HasChain f (p ++ link :: s)) (hmem : r.linkJoin link ∈ joins) :
    leadingJoins joins.reverse (aliasFor link.2.targetEntityInChain) =
      (p ++ [link]).map r.linkJoin := by
  induction hscoped generalizing p s link with
  | nil => simp at hmem
  | @snoc joins join hscoped hsource hanchor hnew ih =>
    have hearlier : ∀ j ∈ joins, ∃ f chain link, r.HasChain f chain ∧ link ∈ chain ∧
        j = r.linkJoin link := fun j hj => hlinks j (List.mem_append_left _ hj)
    -- a join into the entity of a link of the chain is that link's
    have heq : ∀ {j : ResolvedJoin} {l : String × ChainEdge}, j ∈ joins ++ [join] →
        l ∈ p ++ link :: s → j.targetAlias = aliasFor l.2.targetEntityInChain →
        j = r.linkJoin l := by
      intro j l hj hl htarget
      obtain ⟨f', chain', l', hchain', hl', rfl⟩ := hlinks j hj
      rw [hchain'.link_eq hchain hl' hl htarget]
    have hlink : link ∈ p ++ link :: s := List.mem_append_right _ List.mem_cons_self
    rw [List.reverse_append, List.reverse_singleton, List.singleton_append, leadingJoins]
    split
    · next htarget =>
      obtain rfl := heq (by simp) hlink htarget
      rw [List.map_append, List.map_singleton]
      congr 1
      rcases hchain.2.predecessor hchain.1 with ⟨rfl, hfrom⟩ | ⟨q, prev, rfl, hfrom⟩
      · refine leadingJoins_of_not_mem fun j hj => ?_
        rw [linkJoin, hfrom]
        exact hscoped.target_ne j (List.mem_reverse.1 hj)
      · have hprev : prev ∈ (q ++ [prev]) ++ link :: s := by simp
        have hne : prev.2.targetEntityInChain ≠ r.metric.entity :=
          hchain.2.target_ne hchain.1 hprev
        have hstored : r.linkJoin prev ∈ joins := by
          rcases hsource with hanchor' | hsource
          · exact absurd (hfrom.symm.trans hanchor') hne
          · obtain ⟨j, hj, htarget⟩ := List.mem_map.1 hsource
            have hj' : j ∈ joins ++ [r.linkJoin link] := List.mem_append_left _ hj
            exact heq hj' hprev (htarget.trans hfrom) ▸ hj
        have hchain' : r.HasChain f (q ++ prev :: link :: s) := by
          rwa [List.append_assoc, List.singleton_append] at hchain
        rw [linkJoin, hfrom]
        exact ih hearlier hchain' hstored
    · next htarget =>
      refine ih hearlier hchain ((List.mem_append.1 hmem).resolve_right fun hlast => htarget ?_)
      rw [← List.mem_singleton.1 hlast, linkJoin]

end Resolver

/-- Each chain of the request that passes the entity of the inherited time dimension reaches
it along the joins that the candidate search recorded. -/
def InheritsAlongChain (store : Store) (req : MetricRequest) : Prop :=
  ∀ r : Resolver, r.store = store → r.via = req.via →
    store.getMetric req.metricName = some r.metric → r.Anchored →
    ∀ candidate, inheritedCandidate store r.metric req.timeDimension = .ok (some candidate) →
    ∀ f ∈ refEntity candidate.1 :: requestEntities req, ∀ p link s,
      r.HasChain f (p ++ link :: s) →
      link.2.targetEntityInChain = refEntity candidate.1 →
      (p ++ [link]).map (·.2.join.name) = candidate.2

/-- The chosen time dimension is one of those offered. -/
theorem mem_of_inheritedCandidate {store : Store} {metric : Metric} {dimension : Option String}
    {candidate : String × List String}
    (h : inheritedCandidate store metric dimension = .ok (some candidate)) :
    candidate ∈ findInheritedTimeDimension store (buildJoinGraph store.listCanonicalJoins)
      metric.entity := by
  unfold inheritedCandidate at h
  split at h
  · simp at h
  · next c hnarrow =>
    obtain rfl : c = candidate := Option.some.inj (Except.ok.inj h)
    have hmem : c ∈ narrowCandidates dimension (findInheritedTimeDimension store
        (buildJoinGraph store.listCanonicalJoins) metric.entity) := by rw [hnarrow]; simp
    unfold narrowCandidates at hmem
    split at hmem
    · exact hmem
    · split at hmem
      · next hfilter =>
        obtain rfl := List.mem_singleton.1 hmem
        exact List.mem_of_mem_filter (hfilter ▸ List.mem_cons_self)
      · exact hmem
  · simp at h

/-- A link's cardinality is that of its join walked from the entity it leaves. -/
theorem linkJoin_cardinality {r : Resolver} {entity : String} {entry : GraphEntry}
    (h : entry ∈ r.graph.get entity) :
    (r.linkJoin (entity, entry.toChainEdge)).cardinality =
      effectiveCardinality entity entry.join := by
  obtain ⟨-, hends⟩ := entry_spec h
  unfold Resolver.linkJoin GraphEntry.toChainEdge effectiveCardinality
  rcases hends with ⟨hrev, hentity, -, -⟩ | ⟨hrev, hentity, -, -⟩
  · simp [hrev, hentity]
  · have hne : entry.join.sourceEntity ≠ entity := hentity ▸ entry.join.no_self
    simp [hrev, hne]

theorem EntryWalk.mem_graph {graph : JoinGraph} {anchor x : String}
    {walk : List (String × GraphEntry)} (h : EntryWalk graph anchor x walk) :
    ∀ step ∈ walk, step.2 ∈ graph.get step.1 := by
  induction h with
  | nil => simp
  | snoc _ hentry ih =>
    intro step hstep
    rcases List.mem_append.1 hstep with hstep | hstep
    · exact ih step hstep
    · exact List.mem_singleton.1 hstep ▸ hentry

/-- A plan with an inherited time dimension joins its entity along the recorded walk, without
fan-out, exactly when the request's chains do. -/
theorem bucketsAlongVia_iff {store : Store} {req : MetricRequest} {plan : MetricPlan}
    (h : resolveMetricPlan store req = .ok plan)
    (hinherited : plan.timeDimensionResolution = .inherited) :
    BucketsAlongVia plan ↔ InheritsAlongChain store req := by
  obtain ⟨r, rfl, hvia, hmetric, -, -, hplan⟩ := resolveMetricPlan_ok h
  rcases hplan.time with ⟨-, hres, -⟩ | ⟨-, -, hres, -⟩ |
    ⟨candidate, -, hchoice, -, hdimension, hprovenance, -, -, hreached⟩
  · exact absurd (hres.symm.trans hinherited) (by decide)
  · exact absurd (hres.symm.trans hinherited) (by decide)
  obtain ⟨entity, col, hcandidate⟩ := isCandidate_of_mem (mem_of_inheritedCandidate hchoice)
  obtain ⟨e, -, he, -⟩ := hcandidate.bound
  have hentity : refEntity candidate.1 = entity := by
    rw [refEntity, hcandidate.text,
      splitDot_append (Store.name_of_getEntity he ▸ e.name_ident)]
  -- the joins to the entity, read off any chain of the request that passes it
  have hjoinsTo : ∀ f ∈ refEntity candidate.1 :: requestEntities req, ∀ p link s,
      r.HasChain f (p ++ link :: s) → link.2.targetEntityInChain = refEntity candidate.1 →
      plan.joinsTo (refEntity candidate.1) = (p ++ [link]).map r.linkJoin := by
    intro f hf p link s hchain htarget
    have hlink : r.ChainLinks (planEntities req plan) link := by
      refine ⟨f, ?_, _, hchain, List.mem_append_right _ List.mem_cons_self⟩
      simpa [planEntities, hdimension, or_comm] using hf
    rw [MetricPlan.joinsTo, ← htarget]
    refine Resolver.leadingJoins_eq hplan.joins_of.well_scoped ?_ hchain
      ((hplan.joins_of.mem_iff _).2 ⟨link, hlink, rfl⟩)
    intro join hjoin
    obtain ⟨l, hl, rfl⟩ := (hplan.joins_of.mem_iff join).1 hjoin
    obtain ⟨f', chain', hchain', hl'⟩ := hplan.joins_of.on_chain l hl
    exact ⟨f', chain', l, hchain', hl', rfl⟩
  constructor
  · rintro ⟨dimension, hdim, hnames, -⟩
    intro r' hstore' hvia' hmetric' hr' c hc f hf p link s hchain htarget
    obtain rfl : r' = r := Resolver.eq_of_anchored hplan.anchored hr' hstore'
      (hvia'.trans hvia.symm) (Option.some.inj (hmetric'.symm.trans hmetric))
    obtain rfl : candidate = c := Option.some.inj (Except.ok.inj (hchoice.symm.trans hc))
    obtain rfl : candidate.1 = dimension := Option.some.inj (hdimension.symm.trans hdim)
    rw [hjoinsTo f hf p link s hchain htarget, hprovenance, List.map_map] at hnames
    exact hnames
  · intro hcond
    obtain ⟨link, ⟨f, hf, chain, hchain, hmem⟩, htarget⟩ :=
      hreached.resolve_left (hentity ▸ hcandidate.not_anchor)
    obtain ⟨p, s, rfl⟩ := List.append_of_mem hmem
    have hnames := hcond r rfl hvia hmetric hplan.anchored candidate hchoice f hf p link s hchain
      htarget
    refine ⟨candidate.1, hdimension, ?_, ?_⟩
    · rw [hjoinsTo f hf p link s hchain htarget, hprovenance, ← hnames]
      simp [Resolver.linkJoin]
    · -- equal names from the anchor on: the chain is the walk of the search
      obtain ⟨walk, hwalk, hlinks⟩ := hchain.2.entryWalk hchain.1
      obtain ⟨walk', hwalk', hnames', hpreserves⟩ := hcandidate.walk
      have hsame : walk = walk' := by
        refine hwalk.eq_of_names r.join_names hwalk' ?_
        rw [← hnames', ← hnames, hlinks, List.map_map]
        rfl
      intro join hjoin
      rw [hjoinsTo f hf p link s hchain htarget, hlinks, List.map_map] at hjoin
      obtain ⟨step, hstep, rfl⟩ := List.mem_map.1 hjoin
      have hkeeps := hpreserves step (hsame ▸ hstep)
      rw [Function.comp_apply, linkJoin_cardinality (hwalk.mem_graph step hstep)]
      simpa [preservesRows] using hkeeps

/-- Orders of customers; a customer's account tells when it was opened. -/
def accountTables : List Table := [
  ⟨⟨"public", "orders"⟩, [⟨"amount", "int", false, 1, none, false⟩,
    ⟨"customer_id", "int", false, 2, none, false⟩,
    ⟨"account_id", "int", false, 3, none, false⟩], []⟩,
  ⟨⟨"public", "customers"⟩, [⟨"id", "int", false, 1, none, true⟩,
    ⟨"account_id", "int", false, 2, none, false⟩], []⟩,
  ⟨⟨"public", "accounts"⟩, [⟨"id", "int", false, 1, none, true⟩,
    ⟨"opened_at", "timestamp", false, 2, none, false⟩], []⟩]

/-- The entities of `accountTables`. -/
def accountEntities : List Entity := [
  { name := "order", binding := ⟨"public", "orders"⟩, identity := "amount" },
  { name := "customer", binding := ⟨"public", "customers"⟩, identity := "id" },
  { name := "account", binding := ⟨"public", "accounts"⟩, identity := "id" }]

/-- Orders join their customer, customers their account, and orders may join accounts
directly, with many accounts for one order. -/
def accountJoins : List CanonicalJoin := [
  { orderCustomer with cardinality := some .manyToOne },
  { name := "customer_account", sourceEntity := "customer", targetEntity := "account",
    on := [{ sourceColumn := "account_id", targetColumn := "id" }],
    cardinality := some .manyToOne },
  { name := "order_account", sourceEntity := "order", targetEntity := "account",
    on := [{ sourceColumn := "account_id", targetColumn := "id" }],
    cardinality := some .oneToMany }]

/-- Revenue of orders, without a time dimension. -/
def revenueMetric : Metric :=
  { name := "revenue", entity := "order", measure := { agg := .sum, ref := .column "amount" } }

/-- The joins through the customer alone. -/
def chainedStore : Store where
  tables := accountTables
  entities := accountEntities
  canonicalJoins := accountJoins.take 2
  metrics := [revenueMetric]
  columnPiiTags := []

/-- All three joins. -/
def shortcutStore : Store where
  tables := accountTables
  entities := accountEntities
  canonicalJoins := accountJoins
  metrics := [revenueMetric]
  columnPiiTags := []

/-- Revenue by month. -/
def monthlyRevenue : MetricRequest := { metricName := "revenue", timeGrain := some .month }

theorem bucketsAlongVia_chained :
    ∃ plan, resolveMetricPlan chainedStore monthlyRevenue = .ok plan ∧
      (BucketsAlongVia plan ↔ InheritsAlongChain chainedStore monthlyRevenue) := by
  have hinherited : (resolveMetricPlan chainedStore monthlyRevenue).toOption.map
      (·.timeDimensionResolution) = some .inherited := by decide
  cases h : resolveMetricPlan chainedStore monthlyRevenue with
  | error e => simp [h, Except.toOption] at hinherited
  | ok plan =>
    rw [h] at hinherited
    exact ⟨plan, rfl, bucketsAlongVia_iff h (Option.some.inj hinherited)⟩

/-- The search goes through the customer, the plan takes the direct join, which fans out. -/
theorem not_bucketsAlongVia_shortcut :
    ¬ ∀ store req plan, resolveMetricPlan store req = .ok plan →
      plan.timeDimensionResolution = .inherited → BucketsAlongVia plan := by
  intro hall
  have hrun : (resolveMetricPlan shortcutStore monthlyRevenue).toOption.map
      (fun plan => (plan.timeDimensionResolution, plan.inheritedTimeDimension,
        (plan.joinsTo "account").map (·.canonicalName), plan.timeDimensionInheritedVia)) =
      some (.inherited, some "account.opened_at", ["order_account"],
        ["order_customer", "customer_account"]) := by decide
  cases h : resolveMetricPlan shortcutStore monthlyRevenue with
  | error e => simp [h, Except.toOption] at hrun
  | ok plan =>
    rw [h] at hrun
    simp only [Except.toOption, Option.map_some, Option.some.injEq, Prod.mk.injEq] at hrun
    obtain ⟨hinherited, hdimension, hjoins, hvia⟩ := hrun
    obtain ⟨dimension, hdim, hnames, -⟩ := hall _ _ plan h hinherited
    obtain rfl : "account.opened_at" = dimension := Option.some.inj (hdimension.symm.trans hdim)
    rw [show refEntity "account.opened_at" = "account" by decide, hjoins, hvia] at hnames
    exact absurd hnames (by decide)

end SchemaBrain.Semantic
