import SchemaBrain.Semantic.OrderIndependence

/-!
# The `via` contract

A chain carries every name of `via`, so a plan with a join carries them all; a plan that
never leaves the anchor carries none. A request is refused for `via` at the first reference
that is not joined yet and has no path with all the names. Behind a resolved chain such a
refusal is against the names' rule, since all of them are on that chain.
-/

namespace SchemaBrain.Semantic

open Base Core

/-! ## Refusals for `via` -/

/-- The computation raised `UnknownViaJoinError`. -/
def RaisesUnknownVia {α : Type} (x : Except CompilerError α) : Prop :=
  ∃ anchor target requested available,
    x = .error (.unknownViaJoin anchor target requested available)

@[simp] theorem not_raises_ok {α : Type} (a : α) :
    ¬ RaisesUnknownVia (.ok a : Except CompilerError α) := by
  simp [RaisesUnknownVia]

/-- The first part raised, or it returned and the second part raised. -/
theorem raises_bind {α β : Type} {x : Except CompilerError α} {f : α → Except CompilerError β} :
    RaisesUnknownVia (x >>= f) ↔
      RaisesUnknownVia x ∨ ∃ a, x = .ok a ∧ RaisesUnknownVia (f a) := by
  cases x with
  | error e => simp [RaisesUnknownVia, bind, Except.bind]
  | ok a => simp [bind, Except.bind]

theorem not_raises_mapM {α β : Type} {f : α → Except CompilerError β}
    (h : ∀ a, ¬ RaisesUnknownVia (f a)) (xs : List α) : ¬ RaisesUnknownVia (xs.mapM f) := by
  rintro ⟨anchor, target, requested, available, heq⟩
  obtain ⟨x, -, hx⟩ := mapM_eq_error heq
  exact h x ⟨_, _, _, _, hx⟩

theorem not_raises_forM {α : Type} {f : α → Except CompilerError Unit}
    (h : ∀ a, ¬ RaisesUnknownVia (f a)) (xs : List α) : ¬ RaisesUnknownVia (xs.forM f) := by
  induction xs with
  | nil => exact not_raises_ok ()
  | cons x xs ih =>
    rw [List.forM_eq_forM, List.forM_cons, raises_bind]
    rintro (hx | ⟨-, -, hxs⟩)
    · exact h x hx
    · exact ih hxs

theorem not_raises_lookupAnchorTable (store : Store) (entity : String) :
    ¬ RaisesUnknownVia (lookupAnchorTable store entity) := by
  unfold lookupAnchorTable
  split <;> simp [RaisesUnknownVia]

theorem not_raises_validateColumnOnTable (store : Store) (entity column : String)
    (q : QualifiedTable) (kind : ColumnValidationKind) :
    ¬ RaisesUnknownVia (validateColumnOnTable store entity column q kind) := by
  unfold validateColumnOnTable columnsOn
  rw [raises_bind]
  rintro (htable | ⟨allowed, -, hcolumn⟩)
  · split at htable <;> simp [RaisesUnknownVia] at htable
  · split at hcolumn
    · exact not_raises_ok _ hcolumn
    · cases kind <;> simp [RaisesUnknownVia] at hcolumn

theorem not_raises_checkOperatorValue (op : Operator) (value : PyValue) (index : Nat) :
    ¬ RaisesUnknownVia (checkOperatorValue op value index) := by
  unfold checkOperatorValue
  split
  · split <;> simp [RaisesUnknownVia]
  · split <;> split <;> simp [RaisesUnknownVia]

theorem not_raises_checkDeclaredGrain (metric : Metric) (grain : Option TimeGrain) :
    ¬ RaisesUnknownVia (checkDeclaredGrain metric grain) := by
  unfold checkDeclaredGrain checkTimeGrain
  split
  · split
    · exact not_raises_ok ()
    · split
      · simp [RaisesUnknownVia]
      · split <;> simp [RaisesUnknownVia]
  · exact not_raises_ok ()

theorem not_raises_inheritedCandidate (store : Store) (metric : Metric)
    (timeDimension : Option String) :
    ¬ RaisesUnknownVia (inheritedCandidate store metric timeDimension) := by
  unfold inheritedCandidate
  split <;> simp [RaisesUnknownVia]

theorem not_raises_resolveClauses (aliases : List (String × String))
    (orderBy : List RequestedOrderBy) (seen : List String) :
    ¬ RaisesUnknownVia (resolveClauses aliases orderBy seen) := by
  induction orderBy generalizing seen with
  | nil => exact not_raises_ok []
  | cons o orderBy ih =>
    rw [resolveClauses]
    split
    · simp [RaisesUnknownVia]
    · split
      · exact ih seen
      · rw [raises_bind]
        rintro (hrest | ⟨clauses, -, hdone⟩)
        · exact ih _ hrest
        · exact not_raises_ok _ hdone

theorem not_raises_resolveOrderBy (metricName : String) (groupBy : List ResolvedColumn)
    (orderBy : List RequestedOrderBy) :
    ¬ RaisesUnknownVia (resolveOrderBy metricName groupBy orderBy) := by
  unfold resolveOrderBy
  rw [raises_bind]
  rintro (hclauses | ⟨clauses, -, hdone⟩)
  · exact not_raises_resolveClauses _ _ _ hclauses
  · exact not_raises_ok _ hdone

/-! ## Chains under `via` -/

section Chains

variable {graph : JoinGraph} {via : List String} {anchor target : String}

/-- A shortest path of at most six hops. -/
def CandidatePath (graph : JoinGraph) (anchor entity : String) (path : StructuralPath) : Prop :=
  Shortest (neighborEntities graph) anchor entity path ∧ path.length ≤ 6

/-- A join of that name lies on a candidate path to the entity. -/
def OnCandidatePath (graph : JoinGraph) (anchor entity name : String) : Prop :=
  ∃ path, CandidatePath graph anchor entity path ∧
    name ∈ (canonicalsOnStructuralPath graph path).map (·.name)

/-- The hop that a name of `via` is on resolves to the join of that name. -/
private theorem resolveHop_via {hop : String × String} {link : String × ChainEdge}
    (h : resolveHop graph via hop = .ok link) {entry : GraphEntry}
    (hentry : entry ∈ hopEntries graph hop) (hname : entry.join.name ∈ via) :
    link.2.join = entry.join := by
  unfold resolveHop at h
  split at h
  · simp at h
  · next only hcand =>
    rw [hcand, List.mem_singleton] at hentry
    rw [← Except.ok.inj h, hentry]
    rfl
  · split at h
    · simp at h
    · next only hmatch =>
      have hmem : entry ∈ (hopEntries graph hop).filter (·.join.name ∈ via) :=
        List.mem_filter.2 ⟨hentry, decide_eq_true hname⟩
      rw [hmatch, List.mem_singleton] at hmem
      rw [← Except.ok.inj h, hmem]
      rfl
    · simp at h

/-- Every name of `via` is the join of some link of a chain. -/
theorem ChainTo.carries_via (hne : anchor ≠ target) {chain : List (String × ChainEdge)}
    (h : ChainTo graph via anchor target chain) :
    ∀ name ∈ via, ∃ link ∈ chain, link.2.join.name = name := by
  obtain ⟨path, ⟨-, hvia⟩, -, hlinks⟩ := h.exists_path hne
  intro name hname
  have hon := List.all_eq_true.1 hvia name hname
  obtain ⟨hop, hhop, entry, hentry, hneighbor, rfl⟩ := mem_names_iff.1 (of_decide_eq_true hon)
  obtain ⟨link, hlink, hresolve⟩ := (forall₂_mem hlinks).2 hop hhop
  have hmem : entry ∈ hopEntries graph hop :=
    List.mem_filter.2 ⟨hentry, decide_eq_true hneighbor⟩
  exact ⟨link, hlink, by rw [resolveHop_via hresolve hmem hname]⟩

private theorem not_raises_resolveHop (hop : String × String) :
    ¬ RaisesUnknownVia (resolveHop graph via hop) := by
  unfold resolveHop
  split
  · simp [RaisesUnknownVia]
  · simp
  · split <;> simp [RaisesUnknownVia]

private theorem not_raises_renderStructuralPath (path : StructuralPath) :
    ¬ RaisesUnknownVia (renderStructuralPath graph path) := by
  refine not_raises_mapM (fun hop => ?_) path
  split <;> simp [RaisesUnknownVia]

/-- The search for a chain raises `UnknownViaJoinError` when there are candidate paths and
none has all of `via`. -/
theorem raises_findCanonicalChain {edges : List CanonicalJoin} (hne : anchor ≠ target) :
    RaisesUnknownVia (findCanonicalChain (buildJoinGraph edges) anchor target via) ↔
      (∃ path, CandidatePath (buildJoinGraph edges) anchor target path) ∧
        ∀ path, CandidatePath (buildJoinGraph edges) anchor target path →
          viaFeasible (buildJoinGraph edges) via path = false := by
  have hpaths : ∀ path, path ∈ structuralShortestPaths (buildJoinGraph edges) anchor target ↔
      CandidatePath (buildJoinGraph edges) anchor target path := mem_layeredSearch hne 6
  have hfeasible : filterStructuralPathsByVia (buildJoinGraph edges) via
        (structuralShortestPaths (buildJoinGraph edges) anchor target) = [] ↔
      ∀ path, CandidatePath (buildJoinGraph edges) anchor target path →
        viaFeasible (buildJoinGraph edges) via path = false := by
    rw [List.eq_nil_iff_forall_not_mem]
    refine forall_congr' fun path => ?_
    rw [mem_feasible hne, Feasible, not_and, Bool.not_eq_true, CandidatePath]
  unfold findCanonicalChain
  split
  · split
    · next hnil =>
      refine iff_of_false (by simp [RaisesUnknownVia]) ?_
      rintro ⟨⟨path, hpath⟩, -⟩
      rw [← hpaths, hnil] at hpath
      exact List.not_mem_nil hpath
    · next hcons =>
      have hexists : ∃ path, CandidatePath (buildJoinGraph edges) anchor target path := by
        obtain ⟨path, hpath⟩ := List.exists_mem_of_ne_nil _ hcons
        exact ⟨path, (hpaths path).1 hpath⟩
      rw [← hfeasible]
      split
      · next hnone => exact iff_of_true ⟨_, _, _, _, rfl⟩ ⟨hexists, hnone⟩
      · next path hone =>
        refine iff_of_false ?_ (by simp [hone])
        rw [raises_bind]
        rintro (hhops | ⟨chain, -, hdone⟩)
        · exact not_raises_mapM not_raises_resolveHop _ hhops
        · exact not_raises_ok _ hdone
      · next hnone hsingle =>
        refine iff_of_false ?_ fun h => hnone h.2
        rw [raises_bind]
        rintro (hrender | ⟨candidates, -, hdone⟩)
        · exact not_raises_mapM not_raises_renderStructuralPath _ hrender
        · simp [RaisesUnknownVia] at hdone
  · next hends =>
    refine iff_of_false (by simp [RaisesUnknownVia]) ?_
    rintro ⟨⟨path, hpath⟩, -⟩
    exact hends (by rw [(has_ends hpath.1.1 hne).1, (has_ends hpath.1.1 hne).2]; rfl)

end Chains

/-! ## References under `via` -/

namespace Resolver

variable {r : Resolver} {req : MetricRequest}

/-- The reference names a stored entity that is not joined by then and that candidate paths
lead to, none of them with all of `via`. -/
structure Blocked (r : Resolver) (before : List String) (columnRef : String) : Prop where
  parses : (parseQualifiedColumn columnRef).isSome = true
  not_reached : ¬ r.Reached before (refEntity columnRef)
  stored : ∃ e, r.store.getEntity (refEntity columnRef) = some e
  connected : ∃ path, CandidatePath r.graph r.metric.entity (refEntity columnRef) path
  infeasible : ∀ path, CandidatePath r.graph r.metric.entity (refEntity columnRef) path →
    viaFeasible r.graph r.via path = false

theorem Blocked.congr {before before' : List String} {columnRef : String}
    (h : r.Blocked before columnRef) (heq : ∀ e, e ∈ before ↔ e ∈ before') :
    r.Blocked before' columnRef :=
  { h with not_reached := fun hreached => h.not_reached (hreached.mono fun e => (heq e).2) }

/-- A reference raises `UnknownViaJoinError` exactly when it is blocked. -/
theorem raises_resolveColumn {before : List String} {joins : List ResolvedJoin}
    (hjoins : r.JoinsOf (r.ChainLinks before) joins) {columnRef : String}
    {kind : ColumnValidationKind} :
    RaisesUnknownVia (r.resolveColumn joins columnRef kind) ↔ r.Blocked before columnRef := by
  -- a column check raises other errors only
  have hcheck : ∀ {α : Type} {entity column : String} {q : QualifiedTable} {a : α},
      ¬ RaisesUnknownVia (do
        validateColumnOnTable r.store entity column q kind
        return a) := by
    intro α entity column q a h
    rcases raises_bind.1 h with hraise | ⟨-, -, hdone⟩
    · exact not_raises_validateColumnOnTable _ _ _ _ _ hraise
    · exact not_raises_ok _ hdone
  unfold resolveColumn
  split
  · next hparse =>
    refine iff_of_false (by simp [RaisesUnknownVia]) fun h => ?_
    have hparses := h.parses
    rw [hparse] at hparses
    simp at hparses
  · next entity column hparse =>
    have hentity : refEntity columnRef = entity := by
      rw [refEntity, (parseQualifiedColumn_spec hparse).1]
    split
    · next hanchor =>
      exact iff_of_false hcheck fun h => h.not_reached (.inl (hentity.trans hanchor))
    · next hne =>
      split
      · next join hlookup =>
        obtain ⟨link, hlink, -, htarget⟩ := hjoins.of_lookup hlookup
        refine iff_of_false hcheck fun h => h.not_reached (.inr ⟨link, hlink, ?_⟩)
        rw [htarget, hentity]
      · next hlookup =>
        have hnot : ¬ r.Reached before (refEntity columnRef) := by
          rintro (hanchor | ⟨link, hlink, htarget⟩)
          · exact hne (hentity.symm.trans hanchor)
          · obtain ⟨join, hjoin⟩ := hjoins.exists_lookup hlink
            rw [htarget, hentity, hlookup] at hjoin
            simp at hjoin
        split
        · next hmissing =>
          refine iff_of_false (by simp [RaisesUnknownVia]) fun h => ?_
          obtain ⟨e, he⟩ := h.stored
          rw [lookupOptionalTable, ← hentity, he] at hmissing
          simp at hmissing
        · next q hfound =>
          have hstored : ∃ e, r.store.getEntity (refEntity columnRef) = some e := by
            obtain ⟨e, he, -⟩ := Option.map_eq_some_iff.1 hfound
            exact ⟨e, hentity ▸ he⟩
          rw [raises_bind]
          constructor
          · rintro (hfind | ⟨⟨chain, consumed⟩, hfind, hrest⟩)
            · obtain ⟨hconnected, hinfeasible⟩ :=
                (raises_findCanonicalChain (Ne.symm hne)).1 hfind
              rw [← hentity] at hconnected hinfeasible
              exact ⟨by rw [hparse]; rfl, hnot, hstored, hconnected, hinfeasible⟩
            · have hchain : r.HasChain entity chain := ⟨Ne.symm hne, consumed, hfind⟩
              obtain ⟨joins', hadd, -⟩ := hjoins.addLinks (p := []) hchain (by simp)
              rcases raises_bind.1 hrest with hraise | ⟨joins₁, -, hlast⟩
              · rw [hadd] at hraise
                exact absurd hraise (not_raises_ok _)
              · split at hlast
                · simp [RaisesUnknownVia] at hlast
                · exact absurd hlast hcheck
          · intro h
            have hpaths := And.intro h.connected h.infeasible
            rw [hentity] at hpaths
            exact .inl ((raises_findCanonicalChain (Ne.symm hne)).2 hpaths)

/-- Group-by columns raise it at the first blocked reference. -/
theorem raises_resolveGroupBy (hr : r.Anchored) {before refs : List String}
    {joins : List ResolvedJoin} {cols : List ResolvedColumn}
    (hjoins : r.JoinsOf (r.ChainLinks before) joins) :
    RaisesUnknownVia (r.resolveGroupBy refs cols joins) ↔
      ∃ l ref l', refs = l ++ ref :: l' ∧ (∀ x ∈ l, r.RefOk x) ∧
        r.InOrder before (l.map refEntity) ∧
        r.Blocked ((l.map refEntity).reverse ++ before) ref := by
  induction refs generalizing before joins cols with
  | nil => exact iff_of_false (not_raises_ok _) (by simp)
  | cons ref refs ih =>
    rw [resolveGroupBy, raises_bind, raises_resolveColumn hjoins]
    constructor
    · rintro (hblocked | ⟨⟨col, joins'⟩, hcol, hrest⟩)
      · exact ⟨[], ref, refs, rfl, by simp, trivial, hblocked⟩
      · have hres := resolveColumn_ok hr hjoins hcol
        obtain ⟨l, ref', l', rfl, hrefs, horder, hblocked⟩ := (ih hres.joins_of).1 hrest
        refine ⟨ref :: l, ref', l', rfl, List.forall_mem_cons.2 ⟨hres.ref_ok, hrefs⟩,
          ⟨hres.reached, horder⟩, ?_⟩
        rwa [List.map_cons, List.reverse_cons, List.append_assoc, List.singleton_append]
    · rintro ⟨l, ref', l', heq, hrefs, horder, hblocked⟩
      cases l with
      | nil =>
        obtain ⟨rfl, rfl⟩ := List.cons.inj heq
        exact .inl hblocked
      | cons x l =>
        obtain ⟨rfl, rfl⟩ := List.cons.inj heq
        obtain ⟨col, joins', hcol⟩ : ∃ col joins', r.resolveColumn joins ref .groupBy =
            .ok (col, joins') :=
          exists_resolveColumn hr hjoins (hrefs _ List.mem_cons_self) horder.1
        refine .inr ⟨(col, joins'), hcol, (ih (resolveColumn_ok hr hjoins hcol).joins_of).2
          ⟨l, ref', l', rfl, fun y hy => hrefs y (List.mem_cons_of_mem _ hy), horder.2, ?_⟩⟩
        rwa [List.map_cons, List.reverse_cons, List.append_assoc, List.singleton_append]
          at hblocked

/-- Filters raise it at the first blocked reference. -/
theorem raises_resolveFilters (hr : r.Anchored) {before : List String}
    {filters : List RequestedFilter} {index : Nat} {joins : List ResolvedJoin}
    (hjoins : r.JoinsOf (r.ChainLinks before) joins) :
    RaisesUnknownVia (r.resolveFilters index filters joins) ↔
      ∃ l f l', filters = l ++ f :: l' ∧ (∀ x ∈ l, r.RefOk x.column ∧ OperatorOk x) ∧
        r.InOrder before (l.map filterEntity) ∧
        r.Blocked ((l.map filterEntity).reverse ++ before) f.column := by
  induction filters generalizing before index joins with
  | nil => exact iff_of_false (not_raises_ok _) (by simp)
  | cons f filters ih =>
    rw [resolveFilters, raises_bind, raises_resolveColumn hjoins]
    constructor
    · rintro (hblocked | ⟨⟨col, joins'⟩, hcol, hrest⟩)
      · exact ⟨[], f, filters, rfl, by simp, trivial, hblocked⟩
      · have hres := resolveColumn_ok hr hjoins hcol
        rcases raises_bind.1 hrest with hraise | ⟨⟨⟩, hop, hrest⟩
        · exact absurd hraise (not_raises_checkOperatorValue _ _ _)
        rcases raises_bind.1 hrest with hrest | ⟨⟨_, _⟩, -, hdone⟩
        · obtain ⟨l, f', l', rfl, hrefs, horder, hblocked⟩ := (ih hres.joins_of).1 hrest
          refine ⟨f :: l, f', l', rfl, List.forall_mem_cons.2
            ⟨⟨hres.ref_ok, checkOperatorValue_index index 0 hop⟩, hrefs⟩,
            ⟨hres.reached, horder⟩, ?_⟩
          rw [List.map_cons, List.reverse_cons, List.append_assoc, List.singleton_append]
          exact hblocked
        · exact absurd hdone (not_raises_ok _)
    · rintro ⟨l, f', l', heq, hrefs, horder, hblocked⟩
      cases l with
      | nil =>
        obtain ⟨rfl, rfl⟩ := List.cons.inj heq
        exact .inl hblocked
      | cons x l =>
        obtain ⟨rfl, rfl⟩ := List.cons.inj heq
        obtain ⟨hok, hop⟩ := hrefs _ List.mem_cons_self
        obtain ⟨col, joins', hcol⟩ : ∃ col joins', r.resolveColumn joins f.column .filter =
            .ok (col, joins') := exists_resolveColumn hr hjoins hok horder.1
        have hrest : RaisesUnknownVia (r.resolveFilters (index + 1) (l ++ f' :: l') joins') := by
          refine (ih (resolveColumn_ok hr hjoins hcol).joins_of).2
            ⟨l, f', l', rfl, fun y hy => hrefs y (List.mem_cons_of_mem _ hy), horder.2, ?_⟩
          rw [List.map_cons, List.reverse_cons, List.append_assoc, List.singleton_append]
            at hblocked
          exact hblocked
        refine .inr ⟨(col, joins'), hcol, raises_bind.2 (.inr ⟨(), ?_, raises_bind.2 (.inl hrest)⟩)⟩
        exact checkOperatorValue_index 0 index hop

/-- The time-dimension step raises it when the inherited dimension is blocked. -/
theorem raises_resolveTimeBucket {before : List String} {joins : List ResolvedJoin}
    (hjoins : r.JoinsOf (r.ChainLinks before) joins) :
    RaisesUnknownVia (r.resolveTimeBucket req joins) ↔
      needsInheritance r.metric req = true ∧ ∃ candidate,
        inheritedCandidate r.store r.metric req.timeDimension = .ok (some candidate) ∧
        r.Blocked before candidate.1 := by
  unfold resolveTimeBucket
  split
  · next hneeds =>
    rw [raises_bind, or_iff_right (not_raises_inheritedCandidate _ _ _)]
    simp only [hneeds, true_and]
    constructor
    · rintro ⟨choice, hchoice, hrest⟩
      cases choice with
      | none => exact absurd hrest (not_raises_ok _)
      | some candidate =>
        rcases raises_bind.1 hrest with hraise | ⟨⟨_, _⟩, -, hdone⟩
        · exact ⟨candidate, hchoice, (raises_resolveColumn hjoins).1 hraise⟩
        · exact absurd hdone (not_raises_ok _)
    · rintro ⟨candidate, hchoice, hblocked⟩
      exact ⟨_, hchoice, raises_bind.2 (.inl ((raises_resolveColumn hjoins).2 hblocked))⟩
  · next hneeds => exact iff_of_false (not_raises_ok _) (by simp [hneeds])

/-! ## Requests under `via` -/

/-- The resolver that a store makes for a request. -/
structure ResolverOf (store : Store) (req : MetricRequest) (r : Resolver) : Prop where
  store_eq : r.store = store
  via_eq : r.via = req.via
  metric_eq : store.getMetric req.metricName = some r.metric
  anchored : r.Anchored

/-- The reference at which a request is refused, and the entities read before it. -/
inductive RefusedRef (r : Resolver) (req : MetricRequest) : List String → String → Prop
  | groupBy {l l' : List String} {ref : String} (heq : req.groupBy = l ++ ref :: l')
      (hrefs : ∀ x ∈ l, r.RefOk x) (horder : r.InOrder [] (l.map refEntity))
      (hblocked : r.Blocked (l.map refEntity) ref) : RefusedRef r req (l.map refEntity) ref
  | filter {l l' : List RequestedFilter} {f : RequestedFilter} (heq : req.filters = l ++ f :: l')
      (hgroup : ∀ ref ∈ req.groupBy, r.RefOk ref)
      (hrefs : ∀ x ∈ l, r.RefOk x.column ∧ OperatorOk x)
      (horder : r.InOrder [] (req.groupBy.map refEntity ++ l.map filterEntity))
      (hblocked : r.Blocked (req.groupBy.map refEntity ++ l.map filterEntity) f.column) :
      RefusedRef r req (req.groupBy.map refEntity ++ l.map filterEntity) f.column
  | inherited {candidate : String × List String} (hneeds : needsInheritance r.metric req = true)
      (hchoice : inheritedCandidate r.store r.metric req.timeDimension = .ok (some candidate))
      (hgroup : ∀ ref ∈ req.groupBy, r.RefOk ref)
      (hrefs : ∀ f ∈ req.filters, r.RefOk f.column ∧ OperatorOk f)
      (horderBy : ∀ o ∈ req.orderBy, o.column = r.metric.name ∨ o.column ∈ req.groupBy)
      (horder : r.InOrder [] (requestEntities req))
      (hblocked : r.Blocked (requestEntities req) candidate.1) :
      RefusedRef r req (requestEntities req) candidate.1

/-- A request refused for `via` at a reference. -/
structure RefusedAt (r : Resolver) (req : MetricRequest) (before : List String)
    (columnRef : String) : Prop where
  grain : checkDeclaredGrain r.metric req.timeGrain = .ok ()
  measure : r.validateMeasure = .ok ()
  refused : r.RefusedRef req before columnRef

/-- What the references of a request raise, whatever is made of them. -/
private theorem raises_references {α : Type} (hr : r.Anchored) (req : MetricRequest)
    (make : List ResolvedColumn → List ResolvedPredicate → List ResolvedOrderBy →
      TimeBucket → α) :
    RaisesUnknownVia (do
        let (groupBy, joins) ← r.resolveGroupBy req.groupBy [] []
        let (predicates, joins) ← r.resolveFilters 0 req.filters joins
        let clauses ← resolveOrderBy r.metric.name groupBy req.orderBy
        let time ← r.resolveTimeBucket req joins
        return make groupBy predicates clauses time) ↔
      ∃ before columnRef, r.RefusedRef req before columnRef := by
  rw [raises_bind, raises_resolveGroupBy hr .nil]
  constructor
  · rintro (⟨l, ref, l', heq, hrefs, horder, hblocked⟩ | ⟨⟨cols, joins₁⟩, hgroup, hrest⟩)
    · exact ⟨_, _, .groupBy heq hrefs horder (hblocked.congr (by simp))⟩
    have hG := resolveGroupBy_ok hr .nil hgroup
    rcases raises_bind.1 hrest with hfilters | ⟨⟨predicates, joins₂⟩, hfilters, hrest⟩
    · obtain ⟨l, f, l', heq, hrefs, horder, hblocked⟩ :=
        (raises_resolveFilters hr hG.joins_of).1 hfilters
      exact ⟨_, _, .filter heq hG.refs_ok hrefs (inOrder_append.2 ⟨hG.in_order, horder⟩)
        (hblocked.congr (by simp [or_comm]))⟩
    have hF := resolveFilters_ok hr hG.joins_of hfilters
    rcases raises_bind.1 hrest with hraise | ⟨clauses, hclauses, hrest⟩
    · exact absurd hraise (not_raises_resolveOrderBy _ _ _)
    rcases raises_bind.1 hrest with htime | ⟨time, -, hdone⟩
    case inr => exact absurd hdone (not_raises_ok _)
    have hjoins := hF.joins_of.congr (chainLinks_congr requestEntities_swap)
    obtain ⟨hneeds, candidate, hchoice, hblocked⟩ := (raises_resolveTimeBucket hjoins).1 htime
    have horderBy := resolveOrderBy_isOk.1 ⟨clauses, hclauses⟩
    simp only [hG.columns_eq, ref_mem_groupColumns hG.refs_ok, List.map_nil, List.not_mem_nil,
      false_or] at horderBy
    exact ⟨_, _, .inherited hneeds hchoice hG.refs_ok hF.refs_ok horderBy
      (inOrder_append.2 ⟨hG.in_order, hF.in_order⟩) hblocked⟩
  · rintro ⟨before, columnRef, hrefused⟩
    cases hrefused with
    | groupBy heq hrefs horder hblocked =>
      exact .inl ⟨_, _, _, heq, hrefs, horder, hblocked.congr (by simp)⟩
    | filter heq hgroup hrefs horder hblocked =>
      obtain ⟨hG, hF⟩ := inOrder_append.1 horder
      obtain ⟨cols, joins₁, hok⟩ : ∃ cols joins₁, r.resolveGroupBy req.groupBy [] [] =
          .ok (cols, joins₁) := exists_resolveGroupBy hr .nil hgroup hG
      have hraise : RaisesUnknownVia (r.resolveFilters 0 req.filters joins₁) :=
        (raises_resolveFilters hr (resolveGroupBy_ok hr .nil hok).joins_of).2
          ⟨_, _, _, heq, hrefs, hF, hblocked.congr (by simp [or_comm])⟩
      exact .inr ⟨_, hok, raises_bind.2 (.inl hraise)⟩
    | inherited hneeds hchoice hgroup hrefs horderBy horder hblocked =>
      obtain ⟨hG, hF⟩ := inOrder_append.1 horder
      obtain ⟨cols, joins₁, hok⟩ : ∃ cols joins₁, r.resolveGroupBy req.groupBy [] [] =
          .ok (cols, joins₁) := exists_resolveGroupBy hr .nil hgroup hG
      have hgroup_ok := resolveGroupBy_ok hr .nil hok
      obtain ⟨predicates, joins₂, hok'⟩ : ∃ predicates joins₂,
          r.resolveFilters 0 req.filters joins₁ = .ok (predicates, joins₂) :=
        exists_resolveFilters hr hgroup_ok.joins_of hrefs hF
      have hjoins := (resolveFilters_ok hr hgroup_ok.joins_of hok').joins_of.congr
        (chainLinks_congr requestEntities_swap)
      obtain ⟨clauses, hclauses⟩ : ∃ clauses, resolveOrderBy r.metric.name cols req.orderBy =
          .ok clauses := by
        rw [resolveOrderBy_isOk, hgroup_ok.columns_eq]
        simpa [ref_mem_groupColumns hgroup_ok.refs_ok] using horderBy
      have htime : RaisesUnknownVia (r.resolveTimeBucket req joins₂) :=
        (raises_resolveTimeBucket hjoins).2 ⟨hneeds, _, hchoice, hblocked⟩
      exact .inr ⟨_, hok, raises_bind.2 (.inr ⟨_, hok',
        raises_bind.2 (.inr ⟨_, hclauses, raises_bind.2 (.inl htime)⟩)⟩)⟩

end Resolver

open Resolver

variable {store : Store} {req : MetricRequest}

/-- The plan that the resolver makes of a request's parts. -/
private def makePlan (metric : Metric) (anchorTable : QualifiedTable) (req : MetricRequest)
    (groupBy : List ResolvedColumn) (predicates : List ResolvedPredicate)
    (clauses : List ResolvedOrderBy) (time : TimeBucket) : MetricPlan where
  metric := metric
  anchorTable := anchorTable
  anchorAlias := aliasFor metric.entity
  groupByColumns := groupBy
  timeBucket := time.bucket
  filterPredicates := predicates
  limit := req.limit
  joins := time.joins
  orderByClauses := clauses
  timeDimensionResolution := time.resolution
  inheritedTimeDimension := time.dimension
  timeDimensionInheritedVia := time.via

/-- A request raises `UnknownViaJoinError` exactly when it is refused at some reference. -/
theorem raises_resolveMetricPlan :
    RaisesUnknownVia (resolveMetricPlan store req) ↔
      ∃ r, ResolverOf store req r ∧ ∃ before columnRef, r.RefusedAt req before columnRef := by
  unfold resolveMetricPlan
  split
  · next hnone =>
    refine iff_of_false (by simp [RaisesUnknownVia]) ?_
    rintro ⟨r, hr, -⟩
    rw [hr.metric_eq] at hnone
    simp at hnone
  · next metric hmetric =>
    rw [raises_bind, or_iff_right (not_raises_checkDeclaredGrain _ _)]
    constructor
    · rintro ⟨⟨⟩, hgrain, hrest⟩
      rcases raises_bind.1 hrest with hraise | ⟨anchorTable, hanchor, hrest⟩
      · exact absurd hraise (not_raises_lookupAnchorTable _ _)
      rcases raises_bind.1 hrest with hraise | ⟨⟨⟩, hmeasure, hrest⟩
      · exact absurd hraise
          (not_raises_forM (fun _ => not_raises_validateColumnOnTable _ _ _ _ _) _)
      have hr : Anchored ⟨store, metric, anchorTable, req.via⟩ := hanchor
      obtain ⟨before, columnRef, hrefused⟩ := 
        (raises_references hr req (makePlan metric anchorTable req)).1 hrest
      exact ⟨_, ⟨rfl, rfl, hmetric, hr⟩, before, columnRef, hgrain, hmeasure, hrefused⟩
    · rintro ⟨r, hr, before, columnRef, hrefused⟩
      obtain ⟨rstore, rmetric, anchorTable, rvia⟩ := r
      obtain ⟨rfl, rfl, hmetric', hanchored⟩ := hr
      obtain rfl := Option.some.inj (hmetric.symm.trans hmetric')
      refine ⟨(), hrefused.grain, raises_bind.2 (.inr ⟨anchorTable, hanchored,
        raises_bind.2 (.inr ⟨(), hrefused.measure, ?_⟩)⟩)⟩
      exact (raises_references hanchored req (makePlan metric anchorTable req)).2
        ⟨before, columnRef, hrefused.refused⟩

/-! ## The contract -/

/-- The entity is referenced by a group-by column or a filter. -/
def References (req : MetricRequest) (entity : String) : Prop :=
  ∃ ref ∈ req.groupBy ++ req.filters.map (·.column),
    ∃ column, parseQualifiedColumn ref = some (entity, column)

/-- A plan joins every name of `via`, and a request is refused for `via` only when some name
is on no candidate path to a referenced entity. -/
structure ViaContract (store : Store) (req : MetricRequest) : Prop where
  planned : ∀ plan, resolveMetricPlan store req = .ok plan →
    ∀ name ∈ req.via, ∃ join ∈ plan.joins, join.canonicalName = name
  refused : RaisesUnknownVia (resolveMetricPlan store req) →
    ∀ metric, store.getMetric req.metricName = some metric →
      ∃ name ∈ req.via, ∀ entity, References req entity →
        ¬ OnCandidatePath (buildJoinGraph store.listCanonicalJoins) metric.entity entity name

/-- A valid request with `via` reads another entity than the anchor, and a request is
refused at its first reference to another entity only, for a name on no candidate path. -/
structure ViaSettled (store : Store) (req : MetricRequest) : Prop where
  leaves_anchor : ∀ r, ResolverOf store req r → r.Requestable req → req.via ≠ [] →
    (∃ e ∈ requestEntities req, e ≠ r.metric.entity) ∨
      ∃ candidate, needsInheritance r.metric req = true ∧
        inheritedCandidate r.store r.metric req.timeDimension = .ok (some candidate) ∧
        refEntity candidate.1 ≠ r.metric.entity
  refused_first : ∀ r, ResolverOf store req r → ∀ before columnRef,
    r.RefusedAt req before columnRef → (∀ e ∈ before, e = r.metric.entity) ∧
      ∃ name ∈ req.via, ∀ entity, References req entity →
        ¬ OnCandidatePath r.graph r.metric.entity entity name

namespace Resolver

variable {r : Resolver}

/-- A chain puts every name of `via` on a candidate path to its entity. -/
theorem HasChain.onCandidatePath {entity : String} {chain : List (String × ChainEdge)}
    (h : r.HasChain entity chain) :
    ∀ name ∈ r.via, OnCandidatePath r.graph r.metric.entity entity name := by
  intro name hname
  obtain ⟨hpath, hvia⟩ := h.2.feasible h.1
  exact ⟨_, hpath, of_decide_eq_true (List.all_eq_true.1 hvia name hname)⟩

/-- A reached entity other than the anchor is passed by a chain to one of the entities. -/
theorem Reached.exists_chain {entities : List String} {entity : String}
    (h : r.Reached entities entity) (hne : entity ≠ r.metric.entity) :
    ∃ f ∈ entities, ∃ chain, r.HasChain f chain := by
  obtain ⟨link, ⟨f, hf, chain, hchain, -⟩, -⟩ := h.resolve_left hne
  exact ⟨f, hf, chain, hchain⟩

/-- The references that precede a refusal resolve in order. -/
theorem RefusedRef.before_spec {before : List String} {columnRef : String}
    (h : r.RefusedRef req before columnRef) :
    r.InOrder [] before ∧ ∀ e ∈ before, References req e := by
  have hparse : ∀ {ref : String}, r.RefOk ref → ref ∈ req.groupBy ++ req.filters.map (·.column) →
      References req (refEntity ref) := by
    rintro ref ⟨⟨entity, column⟩, hparse, -⟩ hmem
    refine ⟨ref, hmem, column, ?_⟩
    rw [hparse, refEntity, (parseQualifiedColumn_spec hparse).1]
  cases h with
  | groupBy heq hrefs horder hblocked =>
    refine ⟨horder, fun e he => ?_⟩
    obtain ⟨ref, href, rfl⟩ := List.mem_map.1 he
    exact hparse (hrefs ref href) (by simp [heq, href])
  | filter heq hgroup hrefs horder hblocked =>
    refine ⟨horder, fun e he => ?_⟩
    rcases List.mem_append.1 he with he | he
    · obtain ⟨ref, href, rfl⟩ := List.mem_map.1 he
      exact hparse (hgroup ref href) (List.mem_append_left _ href)
    · obtain ⟨f, hf, rfl⟩ := List.mem_map.1 he
      refine hparse (hrefs f hf).1 (List.mem_append_right _ (List.mem_map_of_mem ?_))
      rw [heq]
      exact List.mem_append_left _ hf
  | inherited hneeds hchoice hgroup hrefs horderBy horder hblocked =>
    refine ⟨horder, fun e he => ?_⟩
    rcases List.mem_append.1 he with he | he
    · obtain ⟨ref, href, rfl⟩ := List.mem_map.1 he
      exact hparse (hgroup ref href) (List.mem_append_left _ href)
    · obtain ⟨f, hf, rfl⟩ := List.mem_map.1 he
      exact hparse (hrefs f hf).1 (List.mem_append_right _ (List.mem_map_of_mem hf))

/-- Behind a reference to another entity, every name of `via` is on a candidate path to a
referenced entity. -/
theorem RefusedRef.names_on_path {before : List String} {columnRef e : String}
    (h : r.RefusedRef req before columnRef) (he : e ∈ before) (hne : e ≠ r.metric.entity) :
    ∃ f, References req f ∧ ∀ name ∈ r.via, OnCandidatePath r.graph r.metric.entity f name := by
  obtain ⟨horder, hrefs⟩ := h.before_spec
  have hreached : r.Reached before e := by simpa using horder.reached e he
  obtain ⟨f, hf, chain, hchain⟩ := hreached.exists_chain hne
  exact ⟨f, hrefs f hf, hchain.onCandidatePath⟩

/-- A plan that leaves the anchor joins every name of `via`. -/
theorem PlanOf.carries_via {plan : MetricPlan} (h : r.PlanOf req plan)
    (horder : r.InOrder [] (requestEntities req)) {e : String} (he : e ∈ planEntities req plan)
    (hne : e ≠ r.metric.entity) :
    ∀ name ∈ r.via, ∃ join ∈ plan.joins, join.canonicalName = name := by
  have hreached : r.Reached (planEntities req plan) e := by
    rcases List.mem_append.1 he with he | he
    · exact (horder.reached e he).mono (by simp +contextual [planEntities])
    · rcases h.time with ⟨-, -, hdim, -⟩ | ⟨-, -, -, hdim, -⟩ |
        ⟨candidate, -, -, -, hdim, -, -, -, hreached⟩
      · simp [hdim] at he
      · simp [hdim] at he
      · obtain rfl : e = refEntity candidate.1 := by simpa [hdim] using he
        exact hreached.mono (by simp [planEntities, hdim, or_comm])
  obtain ⟨f, hf, chain, hchain⟩ := hreached.exists_chain hne
  intro name hname
  obtain ⟨link, hlink, rfl⟩ := hchain.2.carries_via hchain.1 name hname
  exact ⟨r.linkJoin link, (h.joins_of.mem_iff _).2 ⟨link, ⟨f, hf, chain, hchain, hlink⟩, rfl⟩, rfl⟩

/-- A plan that never leaves the anchor has no joins. -/
theorem PlanOf.joins_eq_nil {plan : MetricPlan} (h : r.PlanOf req plan)
    (hanchor : ∀ e ∈ planEntities req plan, e = r.metric.entity) : plan.joins = [] := by
  refine List.eq_nil_iff_forall_not_mem.2 fun join hjoin => ?_
  obtain ⟨link, ⟨f, hf, chain, hchain, -⟩, -⟩ := (h.joins_of.mem_iff join).1 hjoin
  exact hchain.1 (hanchor f hf).symm

end Resolver

/-- The resolver of a request is determined. -/
theorem ResolverOf.unique {r r' : Resolver} (h : ResolverOf store req r)
    (h' : ResolverOf store req r') : r' = r :=
  eq_of_anchored h.anchored h'.anchored (h'.store_eq.trans h.store_eq.symm)
    (h'.via_eq.trans h.via_eq.symm) (Option.some.inj (h'.metric_eq.symm.trans h.metric_eq))

/-- A plan is faithful to `via` exactly when a valid request with `via` leaves the anchor. -/
theorem planned_iff :
    (∀ plan, resolveMetricPlan store req = .ok plan →
        ∀ name ∈ req.via, ∃ join ∈ plan.joins, join.canonicalName = name) ↔
      ∀ r, ResolverOf store req r → r.Requestable req → req.via ≠ [] →
        (∃ e ∈ requestEntities req, e ≠ r.metric.entity) ∨
          ∃ candidate, needsInheritance r.metric req = true ∧
            inheritedCandidate r.store r.metric req.timeDimension = .ok (some candidate) ∧
            refEntity candidate.1 ≠ r.metric.entity := by
  constructor
  · intro hplanned r hr hreq hvia
    by_contra hstays
    push Not at hstays
    obtain ⟨hanchor, hinherited⟩ := hstays
    have horder : r.InOrder [] (requestEntities req) :=
      inOrder_of_reached fun e he => .inl (hanchor e he)
    obtain ⟨rfl, hrvia, hmetric, hanchored⟩ := hr
    obtain ⟨plan, hplan⟩ : ∃ plan, resolveMetricPlan r.store req = .ok plan :=
      exists_resolveMetricPlan hanchored hrvia hmetric hreq horder
    obtain ⟨r', hstore, hvia', hmetric', -, -, hof⟩ := resolveMetricPlan_ok hplan
    obtain rfl : r' = r := ResolverOf.unique ⟨rfl, hrvia, hmetric, hanchored⟩
      ⟨hstore, hvia', hmetric', hof.anchored⟩
    obtain ⟨name, hname⟩ := List.exists_mem_of_ne_nil _ hvia
    obtain ⟨join, hjoin, -⟩ := hplanned plan hplan name hname
    rw [hof.joins_eq_nil] at hjoin
    · exact List.not_mem_nil hjoin
    · intro e he
      rcases List.mem_append.1 he with he | he
      · exact hanchor e he
      · rcases hof.time with ⟨-, -, hdim, -⟩ | ⟨-, -, -, hdim, -⟩ |
          ⟨candidate, hneeds, hchoice, -, hdim, -⟩
        · simp [hdim] at he
        · simp [hdim] at he
        · obtain rfl : e = refEntity candidate.1 := by simpa [hdim] using he
          exact hinherited candidate hneeds hchoice
  · intro hleaves plan hplan name hname
    obtain ⟨r, hstore, hvia, hmetric, hreq, horder, hof⟩ := resolveMetricPlan_ok hplan
    have hne : req.via ≠ [] := List.ne_nil_of_mem hname
    rw [← hvia] at hname
    rcases hleaves r ⟨hstore, hvia, hmetric, hof.anchored⟩ hreq hne with
      ⟨e, he, hother⟩ | ⟨candidate, hneeds, hchoice, hother⟩
    · exact hof.carries_via horder (List.mem_append_left _ he) hother name hname
    · have hdim : plan.inheritedTimeDimension = some candidate.1 := by
        rcases hof.time with ⟨hno, -⟩ | ⟨-, hnone, -⟩ | ⟨candidate', -, hchoice', -, hdim, -⟩
        · simp [hneeds] at hno
        · simp [hchoice] at hnone
        · rw [hchoice] at hchoice'
          rw [hdim, Option.some.inj (Except.ok.inj hchoice')]
      exact hof.carries_via horder (List.mem_append_right _ (by simp [hdim])) hother name hname

/-- The contract holds of exactly the settled requests. -/
theorem viaContract_iff (store : Store) (req : MetricRequest) :
    ViaContract store req ↔ ViaSettled store req := by
  constructor
  · rintro ⟨hplanned, hrefused⟩
    refine ⟨planned_iff.1 hplanned, fun r hr before columnRef hat => ?_⟩
    obtain ⟨name, hname, hstray⟩ := hrefused
      (raises_resolveMetricPlan.2 ⟨r, hr, before, columnRef, hat⟩) r.metric hr.metric_eq
    rw [← hr.store_eq] at hstray
    refine ⟨fun e he => ?_, name, hname, hstray⟩
    by_contra hother
    obtain ⟨f, href, hon⟩ := hat.refused.names_on_path he hother
    rw [← hr.via_eq] at hname
    exact hstray f href (hon name hname)
  · rintro ⟨hleaves, hfirst⟩
    refine ⟨planned_iff.2 hleaves, fun hraise metric hmetric => ?_⟩
    obtain ⟨r, hr, before, columnRef, hat⟩ := raises_resolveMetricPlan.1 hraise
    obtain ⟨-, name, hname, hstray⟩ := hfirst r hr before columnRef hat
    obtain rfl := Option.some.inj (hr.metric_eq.symm.trans hmetric)
    rw [← hr.store_eq]
    exact ⟨name, hname, hstray⟩

/-- Revenue alone, through a join that does not exist. -/
def anchorOnly : MetricRequest :=
  { metricName := "revenue", via := ["no_such_join"] }

/-- Revenue by customer segment and region name, through `customer_region`. -/
def segmentFirst : MetricRequest :=
  { metricName := "revenue", groupBy := ["customer.segment", "region.name"],
    via := ["customer_region"] }

/-- `UnknownViaJoinError` is raised. -/
private def isUnknownVia {α : Type} : Except CompilerError α → Bool
  | .error (.unknownViaJoin _ _ _ _) => true
  | _ => false

/-- The first request is planned without its join. The second is refused at the customer,
although its join is on the only path to the region. -/
theorem not_viaContract :
    (anchorOnly.via.Nodup ∧ ¬ ViaContract orderStore anchorOnly) ∧
      segmentFirst.via.Nodup ∧ ¬ ViaContract orderStore segmentFirst := by
  refine ⟨⟨by decide, fun h => ?_⟩, by decide, fun h => ?_⟩
  · have hplan : (resolveMetricPlan orderStore anchorOnly).toOption.map (·.joins.isEmpty) =
        some true := by decide
    cases hres : resolveMetricPlan orderStore anchorOnly with
    | error e => simp [hres, Except.toOption] at hplan
    | ok plan =>
      simp only [hres, Except.toOption, Option.map_some, Option.some.injEq,
        List.isEmpty_iff] at hplan
      obtain ⟨join, hjoin, -⟩ := h.planned plan hres "no_such_join" (by decide)
      rw [hplan] at hjoin
      exact List.not_mem_nil hjoin
  · have hraise : isUnknownVia (resolveMetricPlan orderStore segmentFirst) = true := by
      decide
    have hraises : RaisesUnknownVia (resolveMetricPlan orderStore segmentFirst) := by
      unfold isUnknownVia at hraise
      split at hraise
      · next heq => exact ⟨_, _, _, _, heq⟩
      · simp at hraise
    obtain ⟨name, hname, hstray⟩ := h.refused hraises _ rfl
    obtain rfl : name = "customer_region" := List.mem_singleton.1 hname
    have hpath : CandidatePath (buildJoinGraph orderStore.listCanonicalJoins) "order" "region"
        [("order", "customer"), ("customer", "region")] :=
      (mem_layeredSearch (by decide) 6 _).1 (by decide)
    exact hstray "region" ⟨"region.name", by decide, "name", by decide +kernel⟩
      ⟨_, hpath, by decide⟩

end SchemaBrain.Semantic
