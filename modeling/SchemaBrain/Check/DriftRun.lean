import SchemaBrain.Base.PyAccess
import SchemaBrain.Check.DriftReport

/-!
# When a drift check returns

A check ends without a report where the introspection of an entity's table fails, or where a
metric that is checked names a column of another entity as its time dimension. It calls the live
source once for each table, and for tables of entities only.
-/

namespace SchemaBrain.Check

open Base Core

section Returning

variable {lower : String → String} {store : Store} {source : QualifiedTable → Introspection}

/-- A loop returns where its body returns at every item. -/
theorem returns_mapM {ε α β : Type} {f : α → Except ε β} {xs : List α} :
    Returns (xs.mapM f) ↔ ∀ x ∈ xs, Returns (f x) := by
  constructor
  · rintro ⟨ys, hys⟩ x hx
    obtain ⟨y, -, hy⟩ := (mem_mapM hys).2 x hx
    exact ⟨y, hy⟩
  · exact exists_mapM

theorem returns_checkEntity {entity : Entity} :
    Returns ((checkEntity lower entity).run (readTable store source)) ↔
      source entity.binding ≠ .failed := by
  rw [checkEntity, Lookups.run_bind, Lookups.run_fetch, returns_bind]
  cases hsource : source entity.binding with
  | failed => simp [readTable, hsource]
  | notFound =>
    refine iff_of_true ⟨none, by simp [readTable, hsource], ?_⟩ (by simp)
    exact returns_ok _
  | found live =>
    refine iff_of_true ⟨some live, by simp [readTable, hsource], ?_⟩ (by simp)
    dsimp only
    split
    · exact returns_ok _
    · rw [Lookups.run_bind, Lookups.run_fetch, readTable_stored]
      exact returns_ok _

/-- A metric is checked, its measure columns are live, and its time dimension is a column of an
entity that is not its anchor. -/
def foreignTime (store : Store) (source : QualifiedTable → Introspection) (metric : Metric) :
    Bool :=
  metricChecked store source metric &&
    ((store.getEntity metric.entity).any fun anchor =>
      metric.measure.measureColumns.all fun column =>
        (liveColumn source anchor.binding column).isSome) &&
    metric.timeDimension.any fun t => (splitDot t).1 ≠ metric.entity

theorem returns_checkMetricOn {metric : Metric} {anchor : Entity} {live : Table} :
    Returns ((checkMetricOn lower metric anchor live).run (readTable store source)) ↔
      ((metric.measure.measureColumns.all fun column => (getColumn live column).isSome) &&
        metric.timeDimension.any fun t => (splitDot t).1 ≠ metric.entity) = false := by
  unfold checkMetricOn
  split
  · next column hmissing =>
    have hmem := mem_sortedMeasureColumns.1 (List.mem_of_find?_eq_some hmissing)
    have hnone : (getColumn live column).isNone = true :=
      List.find?_some (p := fun column => (getColumn live column).isNone) hmissing
    refine iff_of_true (returns_ok _) ?_
    rw [Bool.and_eq_false_iff, List.all_eq_false]
    exact .inl ⟨column, hmem, by simpa using hnone⟩
  · next hfound =>
    rw [List.find?_eq_none] at hfound
    have hall : (metric.measure.measureColumns.all fun column =>
        (getColumn live column).isSome) = true := by
      rw [List.all_eq_true]
      intro column hcolumn
      simpa [Option.isSome_iff_ne_none] using hfound column (mem_sortedMeasureColumns.2 hcolumn)
    rw [Lookups.run_bind, Lookups.run_fetch, readTable_stored]
    change Returns (Lookups.run _ _) ↔ _
    rw [hall, Bool.true_and]
    cases metric.timeDimension with
    | none => simp
    | some timeDimension =>
      dsimp only
      split
      · next hne => simp [hne]
      · next heq => simpa using heq

theorem returns_checkMetric {broken : List String} (hbroken : NamesBroken store source broken)
    {metric : Metric} :
    Returns ((checkMetric lower (listEntities store) broken metric).run (readTable store source)) ↔
      foreignTime store source metric = false := by
  unfold checkMetric foreignTime
  rw [find?_listEntities]
  cases hanchor : store.getEntity metric.entity with
  | none => simp [metricChecked, hanchor]
  | some anchor =>
    have hchecked : metricChecked store source metric = resolves source anchor := by
      simp [metricChecked, hanchor]
    simp only [hbroken.mem_iff hanchor, hchecked, Option.any_some]
    split
    · next hresolves => simp [hresolves]
    · next hresolves =>
      rw [Bool.not_eq_false] at hresolves
      obtain ⟨live, hsource⟩ := found_of_resolves hresolves
      have hread : readTable store source (.live anchor.binding) = .ok (some live) := by
        simp [readTable, hsource]
      rw [Lookups.run_bind, Lookups.run_fetch, hread]
      change Returns (Lookups.run _ (some <$> checkMetricOn lower metric anchor live)) ↔ _
      rw [map_eq_pure_bind, Lookups.run_bind, returns_bind, hresolves, Bool.true_and]
      simp only [liveColumn_of_found hsource]
      rw [← @returns_checkMetricOn lower store source]
      exact exists_congr fun drifts => and_iff_left (returns_ok _)

theorem returns_checkJoinOn {join : CanonicalJoin} {srcEnt tgtEnt : Entity}
    {srcLive tgtLive : Table} :
    Returns ((checkJoinOn lower join srcEnt tgtEnt srcLive tgtLive).run
      (readTable store source)) := by
  unfold checkJoinOn
  split
  · exact returns_ok _
  · rw [Lookups.run_bind, Lookups.run_fetch, readTable_stored]
    change Returns (Lookups.run _ _)
    rw [Lookups.run_bind, Lookups.run_fetch, readTable_stored]
    exact returns_ok _

theorem returns_checkJoin {broken : List String} (hbroken : NamesBroken store source broken)
    {join : CanonicalJoin} :
    Returns ((checkJoin lower (listEntities store) broken join).run (readTable store source)) := by
  unfold checkJoin
  rw [find?_listEntities, find?_listEntities]
  cases hsrc : store.getEntity join.sourceEntity with
  | none => exact returns_ok _
  | some srcEnt =>
    cases htgt : store.getEntity join.targetEntity with
    | none => exact returns_ok _
    | some tgtEnt =>
      simp only [hbroken.mem_iff hsrc, hbroken.mem_iff htgt]
      split
      · exact returns_ok _
      · next hresolves =>
        rw [not_or, Bool.not_eq_false, Bool.not_eq_false] at hresolves
        obtain ⟨srcLive, hsrcLive⟩ := found_of_resolves hresolves.1
        obtain ⟨tgtLive, htgtLive⟩ := found_of_resolves hresolves.2
        have hreadSrc : readTable store source (.live srcEnt.binding) = .ok (some srcLive) := by
          simp [readTable, hsrcLive]
        have hreadTgt : readTable store source (.live tgtEnt.binding) = .ok (some tgtLive) := by
          simp [readTable, htgtLive]
        rw [Lookups.run_bind, Lookups.run_fetch, hreadSrc]
        change Returns (Lookups.run _ _)
        rw [Lookups.run_bind, Lookups.run_fetch, hreadTgt]
        change Returns (Lookups.run _
          (some <$> checkJoinOn lower join srcEnt tgtEnt srcLive tgtLive))
        rw [map_eq_pure_bind, Lookups.run_bind, returns_bind]
        obtain ⟨drifts, hdrifts⟩ := @returns_checkJoinOn lower store source join srcEnt tgtEnt
          srcLive tgtLive
        exact ⟨drifts, hdrifts, returns_ok _⟩

/-- The check returns a report unless the introspection of an entity's table fails or a checked
metric names a time dimension of another entity. -/
theorem checkDrift_returns_iff (lower : String → String) (store : Store)
    (source : QualifiedTable → Introspection) :
    (∃ report, (checkDrift lower store source).2 = .ok report) ↔
      (∀ e ∈ store.entities, source e.binding ≠ .failed) ∧
        ∀ m ∈ store.metrics, foreignTime store source m = false := by
  change Returns _ ↔ _
  have hentities : Returns (((listEntities store).mapM (checkEntity lower)).run
      (readTable store source)) ↔ ∀ e ∈ store.entities, source e.binding ≠ .failed := by
    rw [Lookups.run_mapM, returns_mapM]
    simp only [returns_checkEntity, listEntities, mem_sortedBy]
  rw [checkDrift_snd, checkDefinitions, Lookups.run_bind, returns_bind, ← hentities]
  rw [Returns, ← exists_and_right]
  refine exists_congr fun checks => and_congr_right fun hchecks => ?_
  have hbroken := (entityOutcomes hchecks).2
  have hmetrics : Returns (((listMetrics store).mapM
      (checkMetric lower (listEntities store) (brokenNames (listEntities store) checks))).run
        (readTable store source)) ↔ ∀ m ∈ store.metrics, foreignTime store source m = false := by
    rw [Lookups.run_mapM, returns_mapM]
    simp only [returns_checkMetric hbroken, listMetrics, mem_sortedBy]
  rw [Lookups.run_bind, returns_bind, ← hmetrics]
  refine exists_congr fun metricChecks => and_iff_left ?_
  rw [Lookups.run_bind, returns_bind, Lookups.run_mapM]
  obtain ⟨joinChecks, hjoins⟩ := returns_mapM.2 fun join (_ : join ∈ store.listCanonicalJoins) =>
    @returns_checkJoin lower store source _ hbroken join
  exact ⟨joinChecks, hjoins, returns_ok _⟩

end Returning

/-! ## The tables asked for -/

section Asking

variable {lower : String → String} {store : Store}

/-- The live table or the indexed table of an entity. -/
def ofEntity (store : Store) : TableKey → Prop
  | .live q | .stored q => ∃ e ∈ store.entities, e.binding = q

theorem onlyAsks_checkEntity {entity : Entity} (h : entity ∈ store.entities) :
    (checkEntity lower entity).OnlyAsks (ofEntity store) := by
  refine (Lookups.onlyAsks_fetch ⟨entity, h, rfl⟩).bind fun answer => ?_
  cases answer with
  | none => exact Lookups.onlyAsks_pure _
  | some live =>
    dsimp only
    split
    · exact Lookups.onlyAsks_pure _
    · exact (Lookups.onlyAsks_fetch ⟨entity, h, rfl⟩).bind fun _ => Lookups.onlyAsks_pure _

theorem onlyAsks_checkMetricOn {metric : Metric} {anchor : Entity} (h : anchor ∈ store.entities)
    {live : Table} : (checkMetricOn lower metric anchor live).OnlyAsks (ofEntity store) := by
  unfold checkMetricOn
  split
  · exact Lookups.onlyAsks_pure _
  · refine (Lookups.onlyAsks_fetch ⟨anchor, h, rfl⟩).bind fun stored => ?_
    dsimp only
    split
    · exact Lookups.onlyAsks_pure _
    · split
      · exact Lookups.onlyAsks_raise _
      · exact Lookups.onlyAsks_pure _

theorem onlyAsks_checkMetric {broken : List String} {metric : Metric} :
    (checkMetric lower (listEntities store) broken metric).OnlyAsks (ofEntity store) := by
  unfold checkMetric
  split
  · exact Lookups.onlyAsks_pure _
  · next anchor hanchor =>
    have hmem : anchor ∈ store.entities := mem_sortedBy.1 (List.mem_of_find?_eq_some hanchor)
    split
    · exact Lookups.onlyAsks_pure _
    · refine (Lookups.onlyAsks_fetch ⟨anchor, hmem, rfl⟩).bind fun answer => ?_
      cases answer with
      | none => exact Lookups.onlyAsks_raise _
      | some live =>
        dsimp only
        rw [map_eq_pure_bind]
        exact (onlyAsks_checkMetricOn hmem).bind fun _ => Lookups.onlyAsks_pure _

theorem onlyAsks_checkJoinOn {join : CanonicalJoin} {srcEnt tgtEnt : Entity}
    (hsrc : srcEnt ∈ store.entities) (htgt : tgtEnt ∈ store.entities) {srcLive tgtLive : Table} :
    (checkJoinOn lower join srcEnt tgtEnt srcLive tgtLive).OnlyAsks (ofEntity store) := by
  unfold checkJoinOn
  split
  · exact Lookups.onlyAsks_pure _
  · refine (Lookups.onlyAsks_fetch ⟨srcEnt, hsrc, rfl⟩).bind fun _ => ?_
    exact (Lookups.onlyAsks_fetch ⟨tgtEnt, htgt, rfl⟩).bind fun _ => Lookups.onlyAsks_pure _

theorem onlyAsks_checkJoin {broken : List String} {join : CanonicalJoin} :
    (checkJoin lower (listEntities store) broken join).OnlyAsks (ofEntity store) := by
  unfold checkJoin
  split
  · next srcEnt tgtEnt hsrcEnt htgtEnt =>
    have hsrc : srcEnt ∈ store.entities := mem_sortedBy.1 (List.mem_of_find?_eq_some hsrcEnt)
    have htgt : tgtEnt ∈ store.entities := mem_sortedBy.1 (List.mem_of_find?_eq_some htgtEnt)
    split
    · exact Lookups.onlyAsks_pure _
    · refine (Lookups.onlyAsks_fetch ⟨srcEnt, hsrc, rfl⟩).bind fun srcLive => ?_
      refine (Lookups.onlyAsks_fetch ⟨tgtEnt, htgt, rfl⟩).bind fun tgtLive => ?_
      split
      · rw [map_eq_pure_bind]
        exact (onlyAsks_checkJoinOn hsrc htgt).bind fun _ => Lookups.onlyAsks_pure _
      · exact Lookups.onlyAsks_raise _
  · exact Lookups.onlyAsks_pure _

theorem onlyAsks_checkDefinitions : (checkDefinitions lower store).OnlyAsks (ofEntity store) := by
  refine (Lookups.onlyAsks_mapM fun e he => onlyAsks_checkEntity (mem_sortedBy.1 he)).bind
    fun _ => ?_
  refine (Lookups.onlyAsks_mapM fun _ _ => onlyAsks_checkMetric).bind fun _ => ?_
  exact (Lookups.onlyAsks_mapM fun _ _ => onlyAsks_checkJoin).bind fun _ => Lookups.onlyAsks_pure _

/-- The check gives what it gives without its caches; it reads each table once, of the live
source or of the store, and only tables of entities. -/
theorem checkDrift_asks_once (lower : String → String) (store : Store)
    (source : QualifiedTable → Introspection) :
    (checkDrift lower store source).2 =
        (checkDefinitions lower store).run (readTable store source) ∧
      (checkDrift lower store source).1.asked.Nodup ∧
      ∀ key ∈ (checkDrift lower store source).1.asked, ofEntity store key := by
  have hsound : Lookups.Session.Sound (readTable store source) {} := Lookups.Session.sound_empty
  obtain ⟨hanswer, hnodup, hasked⟩ :=
    Lookups.runCached_spec hsound (checkDefinitions lower store)
  refine ⟨hanswer, hnodup, fun key hkey => ?_⟩
  have hquestion := ((hasked key).1 hkey).resolve_left (List.not_mem_nil)
  exact onlyAsks_checkDefinitions.of_mem_questions key hquestion

end Asking

end SchemaBrain.Check
