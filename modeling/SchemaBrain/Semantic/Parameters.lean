import SchemaBrain.Base.Json
import SchemaBrain.Semantic.Scope

/-!
# Bound parameters

Filter values and the limit reach the database as parameters only. Two requests that
differ in them alone get one text, and each placeholder of it stands for one value.
-/

namespace SchemaBrain.Semantic

open Base Base.Json Core

/-! ## Placeholder names -/

private theorem toList_number (n : Nat) : (toString n).toList = Nat.toDigits 10 n :=
  Nat.toList_repr

/-- A filter's placeholders start with its position. -/
theorem paramNamesFor_spec {op : Operator} {index : Nat} {value : PyValue} {name : String}
    (h : name ∈ paramNamesFor op index value) :
    ∃ rest, name.toList = "p_filter_".toList ++ (Nat.toDigits 10 index ++ rest) ∧
      NoDigitHead rest := by
  unfold paramNamesFor at h
  split at h
  · simp at h
  · split at h
    · split at h
      · obtain ⟨j, -, rfl⟩ := List.mem_map.1 h
        refine ⟨'_' :: Nat.toDigits 10 j, ?_, by simp⟩
        simp only [String.toList_append, toList_number, List.append_assoc]
        rfl
      · simp at h
    · rw [List.mem_singleton.1 h, String.toList_append, toList_number]
      exact ⟨[], by rw [List.append_nil], noDigitHead_nil⟩

/-- Filters at different positions share no placeholder. -/
theorem paramNamesFor_disjoint {op op' : Operator} {index index' : Nat} {value value' : PyValue}
    {name : String} (h : name ∈ paramNamesFor op index value)
    (h' : name ∈ paramNamesFor op' index' value') : index = index' := by
  obtain ⟨rest, hname, hrest⟩ := paramNamesFor_spec h
  obtain ⟨rest', hname', hrest'⟩ := paramNamesFor_spec h'
  rw [hname] at hname'
  exact (digits_append_inj hrest hrest' (List.append_cancel_left hname')).1

/-- The placeholders of one filter are distinct. -/
theorem paramNamesFor_nodup (op : Operator) (index : Nat) (value : PyValue) :
    (paramNamesFor op index value).Nodup := by
  unfold paramNamesFor
  split
  · simp
  · split
    · split
      · refine List.Nodup.map (fun j j' heq => ?_) List.nodup_range
        have hchars := congrArg String.toList heq
        simp only [String.toList_append, List.append_cancel_left_eq, toList_number] at hchars
        have hdigits : Nat.toDigits 10 j ++ [] = Nat.toDigits 10 j' ++ [] := by simpa using hchars
        exact (digits_append_inj noDigitHead_nil noDigitHead_nil hdigits).1
      · simp
    · simp

theorem limit_not_mem_paramNamesFor {op : Operator} {index : Nat} {value : PyValue} :
    "p_limit" ∉ paramNamesFor op index value := by
  intro h
  obtain ⟨rest, hname, -⟩ := paramNamesFor_spec h
  have hthird : "p_limit".toList[2]? = some 'f' := by rw [hname]; rfl
  exact absurd hthird (by decide)

/-- A checked filter has one value for each of its placeholders. -/
theorem length_paramNamesFor {op : Operator} {value : PyValue} (index : Nat)
    (h : checkOperatorValue op value index = .ok ()) :
    (paramNamesFor op index value).length = (op.boundValues value).length := by
  unfold checkOperatorValue at h
  unfold paramNamesFor Operator.boundValues
  by_cases hunary : op.isUnary = true
  · simp [hunary]
  · by_cases hlist : op.isList = true
    · simp only [hunary, hlist] at h ⊢
      cases value <;> simp_all
    · simp [hunary, hlist]

/-! ## Requests that differ in values -/

/-- A value that is given and is no list. -/
def isScalar : PyValue → Bool
  | .none => false
  | .list _ => false
  | _ => true

/-- Two scalars, two lists of one length, or one value. -/
inductive SameShape : PyValue → PyValue → Prop
  | refl (value : PyValue) : SameShape value value
  | scalars {value value' : PyValue} (h : isScalar value = true) (h' : isScalar value' = true) :
      SameShape value value'
  | lists {items items' : List PyValue} (h : items.length = items'.length) :
      SameShape (.list items) (.list items')

/-- Filters on one column with one operator. -/
structure SameFilter (f f' : RequestedFilter) : Prop where
  column : f.column = f'.column
  op : f.op = f'.op
  value : SameShape f.value f'.value

/-- Requests that differ at most in filter values and in the limit. -/
structure SameButValues (req req' : MetricRequest) : Prop where
  metricName : req.metricName = req'.metricName
  groupBy : req.groupBy = req'.groupBy
  filters : List.Forall₂ SameFilter req.filters req'.filters
  timeGrain : req.timeGrain = req'.timeGrain
  timeDimension : req.timeDimension = req'.timeDimension
  via : req.via = req'.via
  orderBy : req.orderBy = req'.orderBy

theorem SameShape.symm {value value' : PyValue} (h : SameShape value value') :
    SameShape value' value := by
  cases h with
  | refl => exact .refl _
  | scalars h h' => exact .scalars h' h
  | lists h => exact .lists h.symm

theorem SameFilter.symm {f f' : RequestedFilter} (h : SameFilter f f') : SameFilter f' f :=
  ⟨h.column.symm, h.op.symm, h.value.symm⟩

theorem SameButValues.symm {req req' : MetricRequest} (h : SameButValues req req') :
    SameButValues req' req :=
  ⟨h.metricName.symm, h.groupBy.symm, List.Forall₂.flip (h.filters.imp fun _ _ h => h.symm),
    h.timeGrain.symm, h.timeDimension.symm, h.via.symm, h.orderBy.symm⟩

/-- An operator takes every value of one shape or none. -/
theorem SameShape.checkOperatorValue {value value' : PyValue} (h : SameShape value value')
    {op : Operator} {index : Nat} (hok : checkOperatorValue op value index = .ok ()) :
    Semantic.checkOperatorValue op value' index = .ok () := by
  unfold Semantic.checkOperatorValue at hok ⊢
  cases h with
  | refl => exact hok
  | scalars h h' =>
    split at hok
    · cases value <;> simp_all [isScalar]
    · split at hok
      · cases value <;> simp_all [isScalar]
      · cases value' <;> simp_all [isScalar]
  | @lists items items' hlength =>
    split at hok
    · simp at hok
    · split at hok
      · cases items <;> cases items' <;> simp_all
      · simp at hok

/-- Values of one shape have the same placeholders. -/
theorem SameShape.paramNamesFor {value value' : PyValue} (h : SameShape value value')
    (op : Operator) (index : Nat) :
    Semantic.paramNamesFor op index value' = Semantic.paramNamesFor op index value := by
  unfold Semantic.paramNamesFor
  cases h with
  | refl => rfl
  | scalars h h' => cases value <;> cases value' <;> simp_all [isScalar]
  | lists hlength => simp only [hlength]

/-- Filters that differ in values resolve to the same clauses and joins. -/
theorem Resolver.resolveFilters_sameValues {r : Resolver} {filters filters' : List RequestedFilter}
    (h : List.Forall₂ SameFilter filters filters') {index : Nat} {joins joins' : List ResolvedJoin}
    {predicates : List ResolvedPredicate}
    (hok : r.resolveFilters index filters joins = .ok (predicates, joins')) :
    ∃ predicates', r.resolveFilters index filters' joins = .ok (predicates', joins') ∧
      predicates'.map (·.clause) = predicates.map (·.clause) := by
  induction h generalizing index joins predicates with
  | nil =>
    obtain ⟨rfl, rfl⟩ := Prod.mk.inj (Except.ok.inj hok)
    exact ⟨[], rfl, rfl⟩
  | @cons f f' filters filters' hfilter _ ih =>
    obtain ⟨⟨col, joins₁⟩, hcol, hok⟩ := bind_eq_ok hok
    obtain ⟨⟨⟩, hop, hok⟩ := bind_eq_ok hok
    obtain ⟨⟨tail, joins₂⟩, htail, hok⟩ := bind_eq_ok hok
    obtain ⟨rfl, rfl⟩ := Prod.mk.inj (Except.ok.inj hok)
    obtain ⟨tail', htail', hclauses⟩ := ih htail
    have hop' := hfilter.value.checkOperatorValue hop
    rw [hfilter.column] at hcol
    rw [hfilter.op] at hop'
    refine ⟨⟨col, f'.op, Semantic.paramNamesFor f'.op index f'.value, f'.value⟩ :: tail', ?_, ?_⟩
    · rw [resolveFilters, hcol]
      simp only [bind, Except.bind, hop', htail']
      rfl
    · rw [List.map_cons, List.map_cons, hclauses]
      simp only [ResolvedPredicate.clause, hfilter.op, hfilter.value.paramNamesFor]

/-- Of two requests that differ in values, the second resolves when the first does, to a plan
that differs in the same. -/
theorem resolveMetricPlan_sameValues {store : Store} {req req' : MetricRequest}
    (h : SameButValues req req') {plan : MetricPlan}
    (hok : resolveMetricPlan store req = .ok plan) :
    ∃ predicates, resolveMetricPlan store req' =
        .ok { plan with filterPredicates := predicates, limit := req'.limit } ∧
      predicates.map (·.clause) = plan.filterPredicates.map (·.clause) := by
  obtain ⟨name, groupBy, filters, timeGrain, timeDimension, limit, via, orderBy⟩ := req
  obtain ⟨name', groupBy', filters', timeGrain', timeDimension', limit', via', orderBy'⟩ := req'
  obtain ⟨rfl, rfl, hfilters, rfl, rfl, rfl, rfl⟩ := h
  unfold resolveMetricPlan at hok ⊢
  simp only at hok ⊢
  split at hok
  · simp at hok
  · next metric hmetric =>
    obtain ⟨⟨⟩, hgrain, hok⟩ := bind_eq_ok hok
    obtain ⟨anchorTable, hanchor, hok⟩ := bind_eq_ok hok
    obtain ⟨⟨⟩, hmeasure, hok⟩ := bind_eq_ok hok
    obtain ⟨⟨cols, joins₁⟩, hgroup, hok⟩ := bind_eq_ok hok
    obtain ⟨⟨predicates, joins₂⟩, hpredicates, hok⟩ := bind_eq_ok hok
    obtain ⟨clauses, horder, hok⟩ := bind_eq_ok hok
    obtain ⟨time, htime, hok⟩ := bind_eq_ok hok
    obtain rfl := Except.ok.inj hok
    obtain ⟨predicates', hpredicates', hclauses⟩ :=
      Resolver.resolveFilters_sameValues hfilters hpredicates
    refine ⟨predicates', ?_, hclauses⟩
    have htime' : Resolver.resolveTimeBucket ⟨store, metric, anchorTable, via⟩
        ⟨name, groupBy, filters', timeGrain, timeDimension, limit', via, orderBy⟩ joins₂ =
        .ok time := htime
    simp only [hgrain, hanchor, hmeasure, hgroup, hpredicates', horder, htime', bind, Except.bind]
    rfl

/-- Plans that differ in values have one statement. -/
theorem Emitted.eq_of_clauses {plan : MetricPlan} {q q' : Query}
    {predicates : List ResolvedPredicate} {limit : Int} (h : Emitted plan q)
    (h' : Emitted { plan with filterPredicates := predicates, limit := limit } q')
    (hclauses : predicates.map (·.clause) = plan.filterPredicates.map (·.clause)) : q' = q := by
  obtain ⟨bucket, hbucket, hselect⟩ := h.select_eq
  obtain ⟨bucket', hbucket', hselect'⟩ := h'.select_eq
  obtain ⟨keys, hkeys, hgroup⟩ := h.groupBy_eq
  obtain ⟨keys', hkeys', hgroup'⟩ := h'.groupBy_eq
  obtain rfl : bucket' = bucket := Except.ok.inj (hbucket'.symm.trans hbucket)
  obtain rfl : keys' = keys := Except.ok.inj (hkeys'.symm.trans hkeys)
  have htable := h'.anchorTable_eq.trans h.anchorTable_eq.symm
  have halias := h'.anchorAlias_eq.trans h.anchorAlias_eq.symm
  have hjoins := h'.joins_eq.trans h.joins_eq.symm
  have hfilters := h'.filters_eq.trans (hclauses.trans h.filters_eq.symm)
  have horder := h'.orderBy_eq.trans h.orderBy_eq.symm
  cases q
  cases q'
  simp only [Query.mk.injEq]
  exact ⟨hselect'.trans hselect.symm, htable, halias, hjoins, hfilters,
    hgroup'.trans hgroup.symm, horder⟩

/-! ## What the parameters stand for -/

/-- The parameters of a statement are its placeholders, each written once: those in the text
of a predicate stand for the values of its filter in order, the last one for the limit. -/
structure BindsValues (req : MetricRequest) (q : Query) (params : List (String × PyValue)) :
    Prop where
  keys : placeholders q.sql.toList = params.map (·.1)
  once : (placeholders q.sql.toList).Nodup
  filters : List.Forall₂ (fun clause f => clause.op = f.op ∧
    clause.column = ⟨refEntity f.column, (splitDot f.column).2⟩ ∧
    (placeholders clause.sql.toList).map (List.lookup · params) =
      (f.op.boundValues f.value).map some) q.filters req.filters
  limit : params.lookup "p_limit" = some (.int req.limit)

section Bound

variable {r : Resolver} {req : MetricRequest} {plan : MetricPlan} {q : Query}

private theorem map_fst_params {p : ResolvedPredicate} (h : PredicateOk p) :
    p.params.map (·.1) = p.paramNames := by
  obtain ⟨index, hcheck, hnames⟩ := h
  rw [ResolvedPredicate.params]
  refine List.map_fst_zip ?_
  rw [hnames, length_paramNamesFor index hcheck]

private theorem keys_of_params (h : r.PlanOf req plan) :
    plan.params.map (·.1) = plan.filterPredicates.flatMap (·.paramNames) ++ ["p_limit"] := by
  rw [MetricPlan.params, List.map_append, List.map_flatMap, List.map_singleton]
  congr 1
  exact List.flatMap_congr fun p hp => map_fst_params (h.predicates_ok p hp)

/-- The placeholders of a plan are distinct. -/
theorem nodup_keys (h : r.PlanOf req plan) : (plan.params.map (·.1)).Nodup := by
  have hlimit : ∀ p ∈ plan.filterPredicates, "p_limit" ∉ p.paramNames := by
    intro p hp
    obtain ⟨index, -, hnames⟩ := h.predicates_ok p hp
    rw [hnames]
    exact limit_not_mem_paramNamesFor
  rw [keys_of_params h, List.nodup_append_comm, List.singleton_append, List.nodup_cons,
    List.nodup_flatMap]
  refine ⟨?_, ?_, ?_⟩
  · rw [List.mem_flatMap]
    rintro ⟨p, hp, hmem⟩
    exact hlimit p hp hmem
  · intro p hp
    obtain ⟨index, -, hnames⟩ := h.predicates_ok p hp
    rw [hnames]
    exact paramNamesFor_nodup _ _ _
  · rw [h.predicates_eq, List.pairwise_iff_getElem]
    intro i j hi hj hij
    refine List.disjoint_left.2 fun name hname hname' => ?_
    simp only [List.getElem_mapIdx] at hname hname'
    exact absurd (paramNamesFor_disjoint hname hname') (Nat.ne_of_lt hij)

/-- A predicate's placeholders stand for the values it binds. -/
private theorem lookup_params (h : r.PlanOf req plan) {p : ResolvedPredicate}
    (hp : p ∈ plan.filterPredicates) :
    p.paramNames.map (List.lookup · plan.params) = (p.op.boundValues p.value).map some := by
  obtain ⟨index, hcheck, hnames⟩ := h.predicates_ok p hp
  have hlength : p.paramNames.length = (p.op.boundValues p.value).length := by
    rw [hnames, length_paramNamesFor index hcheck]
  apply List.ext_getElem
  · simpa using hlength
  · intro j hj hj'
    simp only [List.length_map] at hj hj'
    rw [List.getElem_map, List.getElem_map, lookup_eq_some_iff_mem (nodup_keys h)]
    refine List.mem_append_left _ (List.mem_flatMap.2 ⟨p, hp, ?_⟩)
    rw [ResolvedPredicate.params, List.mem_iff_getElem]
    exact ⟨j, by simp [hj, hj'], by rw [List.getElem_zip]⟩

theorem bindsValues (h : r.PlanOf req plan) (hq : Emitted plan q) (hnamed : q.Named) :
    BindsValues req q plan.params := by
  have hkeys : placeholders q.sql.toList = plan.params.map (·.1) := by
    rw [hnamed.placeholders_sql, keys_of_params h, hq.filters_eq, List.flatMap_map]
    rfl
  refine ⟨hkeys, hkeys ▸ nodup_keys h, ?_, ?_⟩
  · have hclause : ∀ clause ∈ q.filters, placeholders clause.sql.toList = clause.paramNames :=
      fun clause hclause => (hnamed.filters clause hclause).2.placeholders_sql
        (hnamed.filters clause hclause).1
    rw [List.forall₂_iff_get]
    refine ⟨by rw [hq.filters_eq, h.predicates_eq]; simp, fun i hi hi' => ?_⟩
    let p : ResolvedPredicate := ⟨r.columnAt req.filters[i].column, req.filters[i].op,
      paramNamesFor req.filters[i].op i req.filters[i].value, req.filters[i].value⟩
    have hp : p ∈ plan.filterPredicates := by
      rw [h.predicates_eq]
      exact List.mem_mapIdx.2 ⟨i, hi', rfl⟩
    have hat : q.filters[i] = p.clause := by
      simp only [hq.filters_eq, h.predicates_eq, List.getElem_map, List.getElem_mapIdx, p]
    simp only [List.get_eq_getElem, hclause _ (List.getElem_mem hi)]
    rw [hat]
    exact ⟨rfl, rfl, lookup_params h hp⟩
  · rw [lookup_eq_some_iff_mem (nodup_keys h), MetricPlan.params, h.limit_eq]
    exact List.mem_append_right _ (List.mem_singleton_self _)

end Bound

/-- Requests that differ in filter values and the limit resolve alike, are emitted into one
text, and bind their values to its placeholders. -/
theorem parameterised {store : Store} {req req' : MetricRequest} (h : SameButValues req req') :
    ((∃ plan, resolveMetricPlan store req = .ok plan) ↔
      ∃ plan', resolveMetricPlan store req' = .ok plan') ∧
    ∀ plan plan', resolveMetricPlan store req = .ok plan →
      resolveMetricPlan store req' = .ok plan' →
      ∃ q q' params params', emitSql plan = .ok (q, params) ∧ emitSql plan' = .ok (q', params') ∧
        q.sql = q'.sql ∧ BindsValues req q params ∧ BindsValues req' q' params' := by
  refine ⟨⟨?_, ?_⟩, ?_⟩
  · rintro ⟨plan, hok⟩
    obtain ⟨predicates, hok', -⟩ := resolveMetricPlan_sameValues h hok
    exact ⟨_, hok'⟩
  · rintro ⟨plan', hok'⟩
    obtain ⟨predicates, hok, -⟩ := resolveMetricPlan_sameValues h.symm hok'
    exact ⟨_, hok⟩
  · intro plan plan' hok hok'
    obtain ⟨q, hemit, hq, hnamed⟩ := exists_emitSql hok
    obtain ⟨q', hemit', hq', hnamed'⟩ := exists_emitSql hok'
    obtain ⟨r, -, -, -, -, -, hplan⟩ := resolveMetricPlan_ok hok
    obtain ⟨r', -, -, -, -, -, hplan'⟩ := resolveMetricPlan_ok hok'
    obtain ⟨predicates, hsame, hclauses⟩ := resolveMetricPlan_sameValues h hok
    obtain rfl := Except.ok.inj (hok'.symm.trans hsame)
    have hquery : q' = q := hq.eq_of_clauses hq' hclauses
    exact ⟨q, q', _, _, hemit, hemit', by rw [hquery], bindsValues hplan hq hnamed,
      bindsValues hplan' hq' hnamed'⟩

/-- Revenue of the orders from an amount on, for the customers of some accounts. -/
def revenueFrom (least : Int) (accounts : List Int) (limit : Int) : MetricRequest where
  metricName := "revenue"
  filters := [⟨"order.amount", .gte, .int least⟩,
    ⟨"customer.account_id", .in_, .list (accounts.map .int)⟩]
  limit := limit

theorem parameterised_revenueFrom :
    ∃ plan plan', resolveMetricPlan chainedStore (revenueFrom 10 [1, 2] 5) = .ok plan ∧
      resolveMetricPlan chainedStore (revenueFrom 99 [3, 4] 7) = .ok plan' ∧
      ∃ q q' params params', emitSql plan = .ok (q, params) ∧ emitSql plan' = .ok (q', params') ∧
        q.sql = q'.sql ∧ BindsValues (revenueFrom 10 [1, 2] 5) q params ∧
        BindsValues (revenueFrom 99 [3, 4] 7) q' params' := by
  have hsame : SameButValues (revenueFrom 10 [1, 2] 5) (revenueFrom 99 [3, 4] 7) :=
    ⟨rfl, rfl, .cons ⟨rfl, rfl, .scalars rfl rfl⟩ (.cons ⟨rfl, rfl, .lists rfl⟩ .nil), rfl, rfl,
      rfl, rfl⟩
  have hrun :
      (resolveMetricPlan chainedStore (revenueFrom 10 [1, 2] 5)).toOption.isSome = true := by
    decide +kernel
  have hparameterised : ((∃ plan, resolveMetricPlan chainedStore (revenueFrom 10 [1, 2] 5) =
      .ok plan) ↔ _) ∧ _ := parameterised hsame
  obtain ⟨hboth, hbinds⟩ := hparameterised
  cases h : resolveMetricPlan chainedStore (revenueFrom 10 [1, 2] 5) with
  | error e => simp [h, Except.toOption] at hrun
  | ok plan =>
    obtain ⟨plan', h'⟩ := hboth.1 ⟨plan, h⟩
    exact ⟨plan, plan', rfl, h', hbinds plan plan' h h'⟩

end SchemaBrain.Semantic
