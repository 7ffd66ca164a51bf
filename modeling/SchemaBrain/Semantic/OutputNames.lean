import SchemaBrain.Semantic.Scope

/-!
# Names of result columns

A SELECT item's name is the metric's, which its author chose, or a generated one. The
executor makes a dict of each row, and ORDER BY refers to items by name, so names that
coincide lose a column.
-/

namespace SchemaBrain.Semantic

open Base Core

/-- The name of an item in the result. -/
def SelectItem.outputName : SelectItem → String
  | timeBucket _ _ => "time_bucket"
  | groupColumn _ index => groupColAlias index
  | measure _ _ metricName => metricName

/-- The name stands for the item and no other. -/
def Query.Denotes (q : Query) (name : String) (item : SelectItem) : Prop :=
  q.select.filter (·.outputName = name) = [item]

/-! ## Generated names -/

theorem groupColAlias_injective : Function.Injective groupColAlias := by
  intro i j h
  have hchars := congrArg String.toList h
  simp only [groupColAlias, String.toList_append, List.append_cancel_left_eq] at hchars
  have hdigits : Nat.toDigits 10 i = Nat.toDigits 10 j := by
    rw [← Nat.toList_repr, ← Nat.toList_repr]
    exact hchars
  rw [← Nat.ofDigitChars_ten_toDigits (n := i), hdigits, Nat.ofDigitChars_ten_toDigits]

theorem groupColAlias_ne (index : Nat) : groupColAlias index ≠ "time_bucket" := by
  intro h
  have hfirst := congrArg (fun text => text.toList.head?) h
  simp only [groupColAlias, String.toList_append] at hfirst
  exact absurd hfirst (by simp)

namespace Resolver

variable {r : Resolver}

private theorem any_iff_ref_mem {cols : List ResolvedColumn} {col : ResolvedColumn}
    (hcols : ∀ c ∈ cols, isIdent c.entity = true) (hcol : isIdent col.entity = true) :
    (cols.any fun c => c.entity = col.entity && c.column = col.column) = true ↔
      col.ref ∈ cols.map (·.ref) := by
  rw [List.any_eq_true, List.mem_map]
  refine exists_congr fun c => and_congr_right fun hc => ?_
  rw [Bool.and_eq_true, decide_eq_true_eq, decide_eq_true_eq]
  constructor
  · rintro ⟨hentity, hcolumn⟩
    rw [ResolvedColumn.ref, ResolvedColumn.ref, hentity, hcolumn]
  · intro href
    have hsplit := congrArg splitDot href
    rw [ResolvedColumn.ref, ResolvedColumn.ref, splitDot_append (hcols c hc),
      splitDot_append hcol] at hsplit
    exact Prod.mk.inj hsplit

private theorem refs_groupColumns_from {refs : List String} (hrefs : ∀ ref ∈ refs, r.RefOk ref)
    {cols : List ResolvedColumn} (hcols : ∀ c ∈ cols, isIdent c.entity = true) :
    (r.groupColumns refs cols).map (·.ref) =
      cols.map (·.ref) ++ (refs.filter (· ∉ cols.map (·.ref))).eraseDups := by
  induction refs generalizing cols with
  | nil => simp [groupColumns]
  | cons ref refs ih =>
    have href := hrefs ref List.mem_cons_self
    have hentity : isIdent (r.columnAt ref).entity = true := href.named.1
    have htext : (r.columnAt ref).ref = ref := ref_columnAt href
    have hrest : ∀ ref' ∈ refs, r.RefOk ref' := fun ref' h => hrefs ref' (List.mem_cons_of_mem _ h)
    have hstep : (r.groupColumns (ref :: refs) cols).map (·.ref) =
        (r.groupColumns refs (setDefault cols (r.columnAt ref))).map (·.ref) := rfl
    rw [hstep]
    have hold := any_iff_ref_mem hcols hentity
    rw [htext] at hold
    by_cases hmem : ref ∈ cols.map (·.ref)
    · rw [setDefault, if_pos (hold.2 hmem), ih hrest hcols,
        List.filter_cons_of_neg (by simpa using hmem)]
    · have hcols' : ∀ c ∈ cols ++ [r.columnAt ref], isIdent c.entity = true := by
        intro c hc
        rcases List.mem_append.1 hc with hc | hc
        · exact hcols c hc
        · exact List.mem_singleton.1 hc ▸ hentity
      rw [setDefault, if_neg (mt hold.1 hmem), ih hrest hcols',
        List.filter_cons_of_pos (by simpa using hmem), List.eraseDups_cons, List.filter_filter,
        List.map_append, List.map_singleton, htext, List.append_assoc, List.singleton_append]
      congr 3
      refine List.filter_congr fun text _ => ?_
      by_cases heq : text = ref <;> simp [heq]

/-- The texts of the group columns are the references, each at its first place. -/
theorem refs_groupColumns {refs : List String} (hrefs : ∀ ref ∈ refs, r.RefOk ref) :
    (r.groupColumns refs []).map (·.ref) = refs.eraseDups := by
  rw [refs_groupColumns_from hrefs (by simp)]
  simp

end Resolver

/-! ## Kept columns -/

/-- The request gets a time bucket: it asks for a grain, and there is a dimension for it. -/
def Buckets (store : Store) (req : MetricRequest) (metric : Metric) : Prop :=
  req.timeGrain ≠ none ∧
    (metric.timeDimension = none → inheritedCandidate store metric req.timeDimension ≠ .ok none)

/-- The SELECT item that an ORDER BY column of a request refers to. -/
inductive RefersTo (plan : MetricPlan) : String → SelectItem → Prop
  | measure : RefersTo plan plan.metric.name
      (.measure plan.metric.measure plan.anchorAlias plan.metric.name)
  | group (i : Nat) (hi : i < plan.groupByColumns.length) :
      RefersTo plan plan.groupByColumns[i].ref (.groupColumn plan.groupByColumns[i].columnRef i)

/-- Every item has a name of its own, and ORDER BY names the items that were referred to. -/
structure KeepsColumns (req : MetricRequest) (plan : MetricPlan) (q : Query) : Prop where
  distinct : (q.select.map (·.outputName)).Nodup
  meant : ∀ clause ∈ q.orderBy, ∃ item, q.Denotes clause.expression item ∧
    if clause.autoAppendedTieBreak then ∃ col ∈ plan.groupByColumns, RefersTo plan col.ref item
    else ∃ o ∈ askedClauses plan.groupByColumns req.orderBy,
      clause.direction = o.direction ∧ RefersTo plan o.column item
  asked : ∀ o ∈ askedClauses plan.groupByColumns req.orderBy,
    ∃ clause ∈ q.orderBy, ∃ item, q.Denotes clause.expression item ∧ RefersTo plan o.column item

/-- The metric is not named like a generated column of the request. -/
def NameKept (store : Store) (req : MetricRequest) : Prop :=
  ∀ metric, store.getMetric req.metricName = some metric →
    (Buckets store req metric → metric.name ≠ "time_bucket") ∧
      ∀ i < req.groupBy.eraseDups.length, metric.name ≠ groupColAlias i

section Kept

variable {r : Resolver} {req : MetricRequest} {plan : MetricPlan} {q : Query}

theorem timeBucket_iff (h : r.PlanOf req plan) :
    plan.timeBucket ≠ none ↔ Buckets r.store req r.metric := by
  unfold Buckets
  rcases h.time with ⟨hneeds, -, -, hbucket⟩ | ⟨hneeds, hchoice, -, -, hbucket⟩ |
    ⟨candidate, hneeds, hchoice, -, -, -, hbucket, -⟩
  · rw [hbucket, iff_self_and]
    intro hgrain htime
    simp [needsInheritance, htime, Option.isSome_iff_ne_none.2 hgrain] at hneeds
  · simp only [needsInheritance, Bool.and_eq_true, Option.isNone_iff_eq_none] at hneeds
    simp [hbucket, hneeds.1, hchoice]
  · rw [hbucket, hchoice]
    simp

/-- The texts of a plan's group columns are the references, each once. -/
theorem refs_groupByColumns (h : r.PlanOf req plan) (hreq : r.Requestable req) :
    plan.groupByColumns.map (·.ref) = req.groupBy.eraseDups := by
  rw [h.groupBy_eq, Resolver.refs_groupColumns hreq.group_refs]

/-- A metric has no name that a reference could have. -/
theorem metricName_not_mem_refs : r.metric.name ∉ plan.groupByColumns.map (·.ref) := by
  intro hmem
  obtain ⟨col, -, href⟩ := List.mem_map.1 hmem
  have hdot : '.' ∈ r.metric.name.toList := by
    rw [← href, ResolvedColumn.ref, String.toList_append, String.toList_append]
    simp
  exact absurd (isIdentChar_of_mem r.metric.name_ident hdot) (by decide)

/-- The names of a statement: the bucket's, the group columns', the metric's. -/
theorem outputNames_eq (h : r.PlanOf req plan) (hq : Emitted plan q) :
    ∃ bucket, (bucket = [] ∧ plan.timeBucket = none ∨
        bucket = ["time_bucket"] ∧ plan.timeBucket ≠ none) ∧
      q.select.map (·.outputName) = bucket ++
        (List.range plan.groupByColumns.length).map groupColAlias ++ [r.metric.name] := by
  obtain ⟨bucket, hbucket, hitems⟩ := hq.select_eq
  have hgroup : (plan.groupByColumns.mapIdx
      fun index col => SelectItem.groupColumn col.columnRef index).map (·.outputName) =
      (List.range plan.groupByColumns.length).map groupColAlias := by
    apply List.ext_getElem
    · simp
    · intro i hi hi'
      simp [SelectItem.outputName]
  rw [hitems, List.map_append, List.map_append, hgroup, h.metric_eq]
  rcases emitTimeBucket_ok hbucket with ⟨rfl, hnone⟩ | ⟨grain, ref, rfl, hgrain, -⟩
  · exact ⟨[], .inl ⟨rfl, hnone⟩, rfl⟩
  · exact ⟨["time_bucket"], .inr ⟨rfl, by simp [hgrain]⟩, rfl⟩

theorem nodup_generatedNames {bucket : List String} (h : bucket = [] ∨ bucket = ["time_bucket"])
    (n : Nat) : (bucket ++ (List.range n).map groupColAlias).Nodup := by
  have hgroup : ((List.range n).map groupColAlias).Nodup :=
    List.nodup_range.map groupColAlias_injective
  rcases h with rfl | rfl
  · exact hgroup
  · refine List.nodup_cons.2 ⟨fun hmem => ?_, hgroup⟩
    obtain ⟨i, -, hi⟩ := List.mem_map.1 hmem
    exact groupColAlias_ne i hi

/-- The names are distinct exactly when the metric has none of the generated ones. -/
theorem nodup_outputNames_iff (h : r.PlanOf req plan) (hreq : r.Requestable req)
    (hmetric : r.store.getMetric req.metricName = some r.metric) (hq : Emitted plan q) :
    (q.select.map (·.outputName)).Nodup ↔ NameKept r.store req := by
  have hcount : req.groupBy.eraseDups.length = plan.groupByColumns.length := by
    rw [← refs_groupByColumns h hreq, List.length_map]
  have hkept : NameKept r.store req ↔ (Buckets r.store req r.metric →
      r.metric.name ≠ "time_bucket") ∧
      ∀ i < plan.groupByColumns.length, r.metric.name ≠ groupColAlias i := by
    rw [NameKept, hcount]
    simp [hmetric]
  obtain ⟨bucket, hbucket, hnames⟩ := outputNames_eq h hq
  have hgenerated := nodup_generatedNames (hbucket.imp And.left And.left)
    plan.groupByColumns.length
  rw [hkept, ← timeBucket_iff h, hnames, List.nodup_append_comm, List.singleton_append,
    List.nodup_cons, and_iff_left hgenerated, List.mem_append, not_or]
  refine and_congr ?_ ?_
  · rcases hbucket with ⟨rfl, hnone⟩ | ⟨rfl, hsome⟩
    · simp [hnone]
    · simp [hsome]
  · simp [eq_comm]

/-- Distinct names denote their items. -/
theorem denotes_of_mem (hnodup : (q.select.map (·.outputName)).Nodup) {item : SelectItem}
    (hitem : item ∈ q.select) : q.Denotes item.outputName item :=
  filter_key_eq hnodup hitem

/-- An alias of the request denotes the item that its column refers to. -/
private theorem denotes_alias (h : r.PlanOf req plan) (hq : Emitted plan q)
    (hnodup : (q.select.map (·.outputName)).Nodup) {column name : String}
    (halias : aliasOf (aliasByRequest r.metric.name plan.groupByColumns) column = some name) :
    ∃ item, q.Denotes name item ∧ RefersTo plan column item := by
  obtain ⟨bucket, -, hitems⟩ := hq.select_eq
  rcases aliasOf_eq_some halias with ⟨rfl, rfl⟩ | ⟨i, hi, rfl, rfl⟩
  · rw [← h.metric_eq]
    have hitem : .measure plan.metric.measure plan.anchorAlias plan.metric.name ∈ q.select := by
      rw [hitems]
      simp
    exact ⟨_, denotes_of_mem hnodup hitem, .measure⟩
  · have hitem : .groupColumn plan.groupByColumns[i].columnRef i ∈ q.select := by
      rw [hitems, List.mem_append, List.mem_append]
      exact .inl (.inr (List.mem_mapIdx.2 ⟨i, hi, rfl⟩))
    exact ⟨_, denotes_of_mem hnodup hitem, .group i hi⟩

end Kept

/-- The statement of a resolved plan keeps its columns exactly when the metric is not named
like a generated one. -/
theorem keepsColumns_iff {store : Store} {req : MetricRequest} {plan : MetricPlan}
    (h : resolveMetricPlan store req = .ok plan) :
    (∃ q params, emitSql plan = .ok (q, params) ∧ KeepsColumns req plan q) ↔
      NameKept store req := by
  obtain ⟨q, hemit, hq, -⟩ := exists_emitSql h
  obtain ⟨r, rfl, -, hmetric, hreq, -, hplan⟩ := resolveMetricPlan_ok h
  rw [← nodup_outputNames_iff hplan hreq hmetric hq]
  constructor
  · rintro ⟨q', params, hemit', hkeeps⟩
    obtain ⟨rfl, -⟩ := Prod.mk.inj (Except.ok.inj (hemit.symm.trans hemit'))
    exact hkeeps.distinct
  · intro hnodup
    obtain ⟨clauses, hclauses, hresolved⟩ := resolveOrderBy_ok hplan.orderBy_eq
    obtain ⟨hfrom, hasked⟩ := resolveClauses_ok hclauses
    refine ⟨q, _, hemit, hnodup, ?_, ?_⟩
    · intro clause hclause
      rw [hq.orderBy_eq, hresolved, List.mem_append] at hclause
      rcases hclause with hclause | hclause
      · obtain ⟨htie, o, ho, hdirection, halias⟩ := hfrom clause hclause
        obtain ⟨item, hdenotes, hrefers⟩ := denotes_alias hplan hq hnodup halias
        refine ⟨item, hdenotes, ?_⟩
        rw [if_neg (by simp [htie])]
        exact ⟨o, ho, hdirection, hrefers⟩
      · rcases tieBreak_spec plan.groupByColumns clauses with
          ⟨hnone, -⟩ | ⟨i, hi, hsome, -⟩
        · simp [hnone] at hclause
        · rw [hsome, List.mem_singleton] at hclause
          have halias := aliasOf_groupColumn (refs_groupByColumns hplan hreq ▸ nodup_eraseDups _)
            (metricName_not_mem_refs (r := r)) hi
          obtain ⟨item, hdenotes, hrefers⟩ := denotes_alias hplan hq hnodup halias
          rw [hclause]
          exact ⟨item, hdenotes, by simpa using ⟨_, List.getElem_mem hi, hrefers⟩⟩
    · intro o ho
      obtain ⟨name, halias, hmem⟩ := hasked o ho
      obtain ⟨clause, hclause, rfl⟩ := List.mem_map.1 (hmem.resolve_left (by simp))
      obtain ⟨item, hdenotes, hrefers⟩ := denotes_alias hplan hq hnodup halias
      refine ⟨clause, ?_, item, hdenotes, hrefers⟩
      rw [hq.orderBy_eq, hresolved]
      exact List.mem_append_left _ hclause

/-- Monthly revenue of each customer. -/
def monthlyCustomerRevenue : MetricRequest :=
  { metricName := "revenue", groupBy := ["customer.id"], timeGrain := some .month }

theorem keepsColumns_chained :
    ∃ plan, resolveMetricPlan chainedStore monthlyCustomerRevenue = .ok plan ∧
      ((∃ q params, emitSql plan = .ok (q, params) ∧
        KeepsColumns monthlyCustomerRevenue plan q) ↔
        NameKept chainedStore monthlyCustomerRevenue) := by
  have hrun : (resolveMetricPlan chainedStore monthlyCustomerRevenue).toOption.isSome = true := by
    decide +kernel
  cases h : resolveMetricPlan chainedStore monthlyCustomerRevenue with
  | error e => simp [h, Except.toOption] at hrun
  | ok plan => exact ⟨plan, rfl, keepsColumns_iff h⟩

/-- Revenue of orders, under the name of a group column. -/
def groupNamedMetric : Metric :=
  { name := "group_col_0", entity := "order", measure := { agg := .sum, ref := .column "amount" } }

/-- A store with `groupNamedMetric`. -/
def groupNamedStore : Store :=
  { chainedStore with
    metrics := [groupNamedMetric]
    metrics_key := List.nodup_singleton _
    metrics_anchored := by decide }

/-- The customer's identifier and the revenue have one name. -/
theorem not_keepsColumns_groupNamed :
    ¬ ∀ store req plan, resolveMetricPlan store req = .ok plan →
      ∃ q params, emitSql plan = .ok (q, params) ∧ KeepsColumns req plan q := by
  intro hall
  let req : MetricRequest := { monthlyCustomerRevenue with metricName := "group_col_0" }
  have hrun : (resolveMetricPlan groupNamedStore req).toOption.isSome = true := by
    decide +kernel
  cases h : resolveMetricPlan groupNamedStore req with
  | error e => simp [h, Except.toOption] at hrun
  | ok plan =>
    obtain ⟨q, params, hemit, hkeeps⟩ := hall groupNamedStore req plan h
    obtain ⟨q', hemit', hq, -⟩ := exists_emitSql h
    obtain ⟨rfl, -⟩ := Prod.mk.inj (Except.ok.inj (hemit.symm.trans hemit'))
    obtain ⟨r, hstore, -, hmetric, hreq, -, hplan⟩ := resolveMetricPlan_ok h
    rw [← hstore] at hmetric
    have hkept := (nodup_outputNames_iff hplan hreq hmetric hq).1 hkeeps.distinct
    rw [hstore] at hkept
    exact (hkept groupNamedMetric (by decide)).2 0 (by decide) (by decide)

end SchemaBrain.Semantic
