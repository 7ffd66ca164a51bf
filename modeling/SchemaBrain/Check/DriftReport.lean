import SchemaBrain.Check.Drift
import SchemaBrain.Semantic.TimeBucket

/-!
# What a drift report says

A definition is healthy when every column that it reads is in the live source with the shape
that was indexed. A report counts the healthy definitions and names the others, except those
that rest on a broken entity; it exits with 0 when everything is healthy. The caches change
nothing but the number of calls of the source.
-/

namespace SchemaBrain.Check

open Base Core

/-! ## Healthy definitions -/

section Healthy

variable (lower : String → String) (store : Store) (source : QualifiedTable → Introspection)

/-- The live table under a name. -/
def liveTable (q : QualifiedTable) : Option Table :=
  match source q with
  | .found table => some table
  | _ => none

/-- The column of a live table. -/
def liveColumn (q : QualifiedTable) (column : String) : Option Column :=
  (liveTable source q).bind (getColumn · column)

/-- The table and the identity column of an entity are in the live source. -/
def resolves (entity : Entity) : Bool := (liveColumn source entity.binding entity.identity).isSome

/-- Two columns have one type, up to case and surrounding space, and one nullability. -/
def sameShape (storedCol liveCol : Column) : Bool :=
  normalType lower storedCol.dataType = normalType lower liveCol.dataType &&
    storedCol.nullable = liveCol.nullable

/-- A column is in the live source, with the shape that was indexed if one was. -/
def unchanged (q : QualifiedTable) (column : String) : Bool :=
  (liveColumn source q column).any fun liveCol =>
    ((store.getTable q).bind (getColumn · column)).all (sameShape lower · liveCol)

/-- The columns of its anchor that a metric reads. -/
def metricColumns (metric : Metric) : List String :=
  metric.measure.measureColumns ++ (metric.timeDimension.map fun t => (splitDot t).2).toList

/-- The identity column is unchanged. -/
def entityHealthy (entity : Entity) : Bool :=
  unchanged lower store source entity.binding entity.identity

/-- The anchor of a metric resolves, so that the metric is checked. -/
def metricChecked (metric : Metric) : Bool := (store.getEntity metric.entity).any (resolves source)

/-- Every column that a metric reads is unchanged, on an anchor that resolves. -/
def metricHealthy (metric : Metric) : Bool :=
  metricChecked store source metric && (store.getEntity metric.entity).any fun anchor =>
    (metricColumns metric).all (unchanged lower store source anchor.binding ·)

/-- Both ends of a join resolve, so that the join is checked. -/
def joinChecked (join : CanonicalJoin) : Bool :=
  (store.getEntity join.sourceEntity).any (resolves source) &&
    (store.getEntity join.targetEntity).any (resolves source)

/-- Every column of one side of a join is unchanged. -/
def sideUnchanged (entity : String) (columns : List String) : Bool :=
  (store.getEntity entity).any fun e => columns.all (unchanged lower store source e.binding ·)

/-- Every column that a join reads is unchanged, on ends that resolve. -/
def joinHealthy (join : CanonicalJoin) : Bool :=
  joinChecked store source join &&
    (sideUnchanged lower store source join.sourceEntity (join.on.map (·.sourceColumn)) &&
      sideUnchanged lower store source join.targetEntity (join.on.map (·.targetColumn)))

end Healthy

/-! ## The outcome of one definition -/

/-- What the check of one definition leaves: nothing where it is passed over, no drift where it
is healthy, and drifts under its own kind and name. -/
structure Outcome (kind : DefKind) (name : String) (checked healthy : Bool)
    (drifts : Option (List Drift)) : Prop where
  none_iff : drifts = none ↔ checked = false
  healthy_iff : drifts = some [] ↔ healthy = true
  named : ∀ d ∈ drifts.getD [], d.defKind = kind ∧ d.defName = name

section Columns

variable {lower : String → String} {store : Store} {source : QualifiedTable → Introspection}

theorem columnShapeDrifts_eq_nil {kind : DefKind} {name qualifiedTable column : String}
    {storedTable : Option Table} {liveCol : Column} :
    columnShapeDrifts lower kind name qualifiedTable column storedTable liveCol = [] ↔
      (storedTable.bind (getColumn · column)).all (sameShape lower · liveCol) = true := by
  unfold columnShapeDrifts
  cases storedTable.bind (getColumn · column) with
  | none => simp
  | some storedCol => simp [sameShape]

theorem named_columnShapeDrifts {kind : DefKind} {name qualifiedTable column : String}
    {storedTable : Option Table} {liveCol : Column} {d : Drift}
    (h : d ∈ columnShapeDrifts lower kind name qualifiedTable column storedTable liveCol) :
    d.defKind = kind ∧ d.defName = name := by
  unfold columnShapeDrifts at h
  cases hstored : storedTable.bind (getColumn · column) with
  | none => simp [hstored] at h
  | some storedCol =>
    simp only [hstored, List.mem_append] at h
    rcases h with h | h
    · split at h
      · rw [List.mem_singleton.1 h]
        exact ⟨rfl, rfl⟩
      · simp at h
    · split at h
      · rw [List.mem_singleton.1 h]
        exact ⟨rfl, rfl⟩
      · simp at h

theorem named_shapeDriftsAt {kind : DefKind} {name qualifiedTable column : String}
    {storedTable : Option Table} {live : Table} {d : Drift}
    (h : d ∈ shapeDriftsAt lower kind name qualifiedTable column storedTable live) :
    d.defKind = kind ∧ d.defName = name := by
  unfold shapeDriftsAt at h
  cases hlive : getColumn live column with
  | none => simp [hlive] at h
  | some liveCol =>
    rw [hlive] at h
    exact named_columnShapeDrifts h

variable {q : QualifiedTable} {live : Table}

theorem liveColumn_of_found (h : source q = .found live) (column : String) :
    liveColumn source q column = getColumn live column := by
  simp [liveColumn, liveTable, h]

/-- A column that is on the live table has no shape drift where it is unchanged. -/
theorem shapeDriftsAt_eq_nil {kind : DefKind} {name qualifiedTable column : String}
    (h : source q = .found live) (hcolumn : (getColumn live column).isNone = false) :
    shapeDriftsAt lower kind name qualifiedTable column (store.getTable q) live = [] ↔
      unchanged lower store source q column = true := by
  unfold shapeDriftsAt unchanged
  rw [liveColumn_of_found h]
  cases hlive : getColumn live column with
  | none => simp [hlive] at hcolumn
  | some liveCol => exact columnShapeDrifts_eq_nil

variable (lower store) in
theorem not_unchanged_of_missing {column : String} (h : source q = .found live)
    (hcolumn : (getColumn live column).isNone = true) :
    unchanged lower store source q column = false := by
  rw [Option.isNone_iff_eq_none] at hcolumn
  simp [unchanged, liveColumn_of_found h, hcolumn]

end Columns

section Definitions

variable {lower : String → String} {store : Store} {source : QualifiedTable → Introspection}

/-- What reading a live table does. -/
theorem readTable_live {q : QualifiedTable} {answer : Option Table}
    (h : readTable store source (.live q) = .ok answer) :
    (answer = none ∧ source q = .notFound) ∨
      ∃ live, answer = some live ∧ source q = .found live := by
  simp only [readTable] at h
  cases hsource : source q with
  | found table => exact .inr ⟨table, by simpa [hsource] using h.symm, rfl⟩
  | notFound => exact .inl ⟨by simpa [hsource] using h.symm, rfl⟩
  | failed => simp [hsource] at h

theorem readTable_stored (q : QualifiedTable) :
    readTable store source (.stored q) = .ok (store.getTable q) := rfl

/-- The outcome of an entity. -/
theorem checkEntity_spec {entity : Entity} {out : List Drift × Bool}
    (h : (checkEntity lower entity).run (readTable store source) = .ok out) :
    Outcome .entity entity.name true (entityHealthy lower store source entity) (some out.1) ∧
      out.2 = !resolves source entity := by
  rw [checkEntity, Lookups.run_bind, Lookups.run_fetch] at h
  obtain ⟨answer, hanswer, h⟩ := bind_eq_ok h
  rcases readTable_live hanswer with ⟨rfl, hsource⟩ | ⟨live, rfl, hsource⟩
  · obtain rfl : ([tableMissing entity], true) = out := Except.ok.inj h
    have hlive : liveColumn source entity.binding entity.identity = none := by
      simp [liveColumn, liveTable, hsource]
    refine ⟨⟨by simp, by simp [entityHealthy, unchanged, hlive], ?_⟩, by simp [resolves, hlive]⟩
    simp [tableMissing]
  · dsimp only at h
    split at h
    · next hmissing =>
      obtain rfl : ([identityColumnMissing entity], true) = out := Except.ok.inj h
      have hunchanged := not_unchanged_of_missing lower store hsource hmissing
      rw [Option.isNone_iff_eq_none] at hmissing
      refine ⟨⟨by simp, by simp [entityHealthy, hunchanged], by simp [identityColumnMissing]⟩, ?_⟩
      simp [resolves, liveColumn_of_found hsource, hmissing]
    · next hfound =>
      rw [Lookups.run_bind, Lookups.run_fetch, readTable_stored] at h
      obtain rfl := Except.ok.inj h
      rw [Bool.not_eq_true] at hfound
      refine ⟨⟨by simp, ?_, fun d hd => named_shapeDriftsAt hd⟩, ?_⟩
      · rw [Option.some_inj]
        exact shapeDriftsAt_eq_nil hsource hfound
      · have hsome : (getColumn live entity.identity).isSome = true := by
          simpa [Option.isNone_eq_false_iff] using hfound
        simp [resolves, liveColumn_of_found hsource, hsome]

/-- The entity that the listing gives for a name is the stored one. -/
theorem find?_listEntities (store : Store) (name : String) :
    (listEntities store).find? (·.name = name) = store.getEntity name := by
  cases hfound : store.getEntity name with
  | none =>
    have hnone := List.find?_eq_none.1 hfound
    exact List.find?_eq_none.2 fun e he => hnone e (mem_sortedBy.1 he)
  | some e =>
    have hmem : e ∈ listEntities store := mem_sortedBy.2 (List.mem_of_find?_eq_some hfound)
    have hname := Store.name_of_getEntity hfound
    cases hlisted : (listEntities store).find? (·.name = name) with
    | none => exact absurd (List.find?_eq_none.1 hlisted e hmem) (by simp [hname])
    | some e' =>
      have hmem' : e' ∈ store.entities := mem_sortedBy.1 (List.mem_of_find?_eq_some hlisted)
      have hname' : e'.name = name := by simpa using List.find?_some hlisted
      rw [List.inj_on_of_nodup_map store.entities_key hmem' (mem_sortedBy.1 hmem)
        (hname'.trans hname.symm)]

/-- The names of the entities that do not resolve. -/
def NamesBroken (store : Store) (source : QualifiedTable → Introspection) (broken : List String) :
    Prop :=
  ∀ name, name ∈ broken ↔ ∃ e ∈ store.entities, e.name = name ∧ resolves source e = false

theorem NamesBroken.mem_iff {broken : List String} (h : NamesBroken store source broken)
    {name : String} {e : Entity} (he : store.getEntity name = some e) :
    name ∈ broken ↔ resolves source e = false := by
  have hname := Store.name_of_getEntity he
  rw [h name]
  constructor
  · rintro ⟨e', he', hname', hresolves⟩
    rwa [← List.inj_on_of_nodup_map store.entities_key he' (List.mem_of_find?_eq_some he)
      (hname'.trans hname.symm)]
  · exact fun hresolves => ⟨e, List.mem_of_find?_eq_some he, hname, hresolves⟩

/-- An entity that resolves has a live table. -/
theorem found_of_resolves {e : Entity} (h : resolves source e = true) :
    ∃ live, source e.binding = .found live := by
  unfold resolves liveColumn liveTable at h
  cases hsource : source e.binding with
  | found live => exact ⟨live, rfl⟩
  | notFound => simp [hsource] at h
  | failed => simp [hsource] at h

variable {metric : Metric} {anchor : Entity} {live : Table}

theorem mem_sortedMeasureColumns {column : String} :
    column ∈ sortedMeasureColumns metric ↔ column ∈ metric.measure.measureColumns := mem_pySorted

/-- The time column has no drift where it is unchanged. -/
theorem timeDrifts_eq_nil (hsource : source anchor.binding = .found live) {column : String} :
    timeDrifts lower metric anchor (store.getTable anchor.binding) live column = [] ↔
      unchanged lower store source anchor.binding column = true := by
  unfold timeDrifts
  split
  · next hmissing => simp [not_unchanged_of_missing lower store hsource hmissing]
  · next hfound => exact shapeDriftsAt_eq_nil hsource (Bool.not_eq_true _ ▸ hfound)

theorem named_timeDrifts {stored : Option Table} {column : String} {d : Drift}
    (h : d ∈ timeDrifts lower metric anchor stored live column) :
    d.defKind = .metric ∧ d.defName = metric.name := by
  unfold timeDrifts at h
  split at h
  · rw [List.mem_singleton.1 h]
    exact ⟨rfl, rfl⟩
  · exact named_shapeDriftsAt h

/-- The drifts of a metric on the live table of its anchor. -/
theorem checkMetricOn_spec (hsource : source anchor.binding = .found live) {drifts : List Drift}
    (h : (checkMetricOn lower metric anchor live).run (readTable store source) = .ok drifts) :
    (drifts = [] ↔ (metricColumns metric).all
      (unchanged lower store source anchor.binding ·) = true) ∧
      ∀ d ∈ drifts, d.defKind = .metric ∧ d.defName = metric.name := by
  have hmeasure : ∀ d ∈ (sortedMeasureColumns metric).flatMap fun column =>
      shapeDriftsAt lower .metric metric.name anchor.binding.text column
        (store.getTable anchor.binding) live, d.defKind = .metric ∧ d.defName = metric.name := by
    intro d hd
    obtain ⟨column, -, hd⟩ := List.mem_flatMap.1 hd
    exact named_shapeDriftsAt hd
  unfold checkMetricOn at h
  split at h
  · next column hmissing =>
    obtain rfl := Except.ok.inj h
    have hmem := mem_sortedMeasureColumns.1 (List.mem_of_find?_eq_some hmissing)
    have hnone : (getColumn live column).isNone = true :=
      List.find?_some (p := fun column => (getColumn live column).isNone) hmissing
    have hchanged := not_unchanged_of_missing lower store hsource hnone
    refine ⟨⟨by simp, fun hall => ?_⟩, ?_⟩
    · rw [List.all_eq_true] at hall
      exact absurd (hall column (List.mem_append_left _ hmem)) (by simp [hchanged])
    · intro d hd
      rw [List.mem_singleton.1 hd]
      exact ⟨rfl, rfl⟩
  · next hfound =>
    rw [List.find?_eq_none] at hfound
    have hnil : ((sortedMeasureColumns metric).flatMap fun column =>
        shapeDriftsAt lower .metric metric.name anchor.binding.text column
          (store.getTable anchor.binding) live) = [] ↔
        metric.measure.measureColumns.all (unchanged lower store source anchor.binding ·) =
          true := by
      rw [List.flatMap_eq_nil_iff, List.all_eq_true]
      refine forall_congr' fun column => ?_
      rw [mem_sortedMeasureColumns]
      refine imp_congr_right fun hcolumn => shapeDriftsAt_eq_nil hsource ?_
      exact Bool.not_eq_true _ ▸ hfound column (mem_sortedMeasureColumns.2 hcolumn)
    rw [Lookups.run_bind, Lookups.run_fetch, readTable_stored] at h
    change Lookups.run _ _ = _ at h
    unfold metricColumns
    cases htime : metric.timeDimension with
    | none =>
      rw [htime] at h
      obtain rfl := Except.ok.inj h
      exact ⟨by simpa using hnil, hmeasure⟩
    | some timeDimension =>
      simp only [htime] at h
      split at h
      · simp at h
      · obtain rfl := Except.ok.inj h
        refine ⟨?_, fun d hd => (List.mem_append.1 hd).elim (hmeasure d) named_timeDrifts⟩
        rw [List.append_eq_nil_iff, hnil, timeDrifts_eq_nil hsource]
        simp

/-- The outcome of a metric. -/
theorem checkMetric_spec {broken : List String} (hbroken : NamesBroken store source broken)
    {out : Option (List Drift)}
    (h : (checkMetric lower (listEntities store) broken metric).run (readTable store source) =
      .ok out) :
    Outcome .metric metric.name (metricChecked store source metric)
      (metricHealthy lower store source metric) out := by
  unfold checkMetric at h
  rw [find?_listEntities] at h
  cases hanchor : store.getEntity metric.entity with
  | none =>
    rw [hanchor] at h
    obtain rfl : none = out := Except.ok.inj h
    have hchecked : metricChecked store source metric = false := by simp [metricChecked, hanchor]
    exact ⟨by simp [hchecked], by simp [metricHealthy, hchecked], by simp⟩
  | some anchor =>
    have hchecked : metricChecked store source metric = resolves source anchor := by
      simp [metricChecked, hanchor]
    simp only [hanchor, hbroken.mem_iff hanchor] at h
    split at h
    · next hresolves =>
      obtain rfl : none = out := Except.ok.inj h
      exact ⟨by simp [hchecked, hresolves], by simp [metricHealthy, hchecked, hresolves], by simp⟩
    · next hresolves =>
      rw [Bool.not_eq_false] at hresolves
      obtain ⟨live, hsource⟩ := found_of_resolves hresolves
      have hread : readTable store source (.live anchor.binding) = .ok (some live) := by
        simp [readTable, hsource]
      rw [Lookups.run_bind, Lookups.run_fetch, hread] at h
      change Lookups.run _ (some <$> checkMetricOn lower metric anchor live) = _ at h
      rw [map_eq_pure_bind, Lookups.run_bind] at h
      obtain ⟨drifts, hdrifts, h⟩ := bind_eq_ok h
      obtain rfl : some drifts = out := Except.ok.inj h
      obtain ⟨hnil, hnamed⟩ := checkMetricOn_spec hsource hdrifts
      refine ⟨by simp [hchecked, hresolves], ?_, hnamed⟩
      rw [Option.some_inj, hnil]
      simp [metricHealthy, hchecked, hresolves, hanchor]

variable {join : CanonicalJoin} {srcEnt tgtEnt : Entity} {srcLive tgtLive : Table}

/-- No column of the pairs is gone where none is reported. -/
theorem firstMissingJoinColumn_eq_none {pairs : List JoinColumnPair} :
    firstMissingJoinColumn join srcEnt tgtEnt srcLive tgtLive pairs = none ↔
      ∀ pair ∈ pairs, (getColumn srcLive pair.sourceColumn).isNone = false ∧
        (getColumn tgtLive pair.targetColumn).isNone = false := by
  induction pairs with
  | nil => simp [firstMissingJoinColumn]
  | cons pair rest ih =>
    rw [firstMissingJoinColumn, List.forall_mem_cons, ← ih]
    split
    · next hsource => simp [hsource]
    · next hsource =>
      split
      · next htarget => simp [htarget]
      · next htarget =>
        rw [Bool.not_eq_true] at hsource htarget
        simp [hsource, htarget]

/-- A reported column is a column of a pair that is gone. -/
theorem firstMissingJoinColumn_eq_some {pairs : List JoinColumnPair} {drift : Drift}
    (h : firstMissingJoinColumn join srcEnt tgtEnt srcLive tgtLive pairs = some drift) :
    (drift.defKind = .canonicalJoin ∧ drift.defName = join.name) ∧
      ∃ pair ∈ pairs, (getColumn srcLive pair.sourceColumn).isNone = true ∨
        (getColumn tgtLive pair.targetColumn).isNone = true := by
  induction pairs with
  | nil => simp [firstMissingJoinColumn] at h
  | cons pair rest ih =>
    rw [firstMissingJoinColumn] at h
    split at h
    · next hsource =>
      obtain rfl := Option.some.inj h
      exact ⟨⟨rfl, rfl⟩, pair, List.mem_cons_self, .inl hsource⟩
    · split at h
      · next htarget =>
        obtain rfl := Option.some.inj h
        exact ⟨⟨rfl, rfl⟩, pair, List.mem_cons_self, .inr htarget⟩
      · obtain ⟨hname, pair', hmem, hmissing⟩ := ih h
        exact ⟨hname, pair', List.mem_cons_of_mem _ hmem, hmissing⟩

/-- The columns of both sides of a join are unchanged. -/
def pairsUnchanged (lower : String → String) (store : Store)
    (source : QualifiedTable → Introspection) (join : CanonicalJoin) (srcEnt tgtEnt : Entity) :
    Prop :=
  ∀ pair ∈ join.on, unchanged lower store source srcEnt.binding pair.sourceColumn = true ∧
    unchanged lower store source tgtEnt.binding pair.targetColumn = true

/-- The drifts of a join on the live tables of its ends. -/
theorem checkJoinOn_spec (hsrc : source srcEnt.binding = .found srcLive)
    (htgt : source tgtEnt.binding = .found tgtLive) {drifts : List Drift}
    (h : (checkJoinOn lower join srcEnt tgtEnt srcLive tgtLive).run (readTable store source) =
      .ok drifts) :
    (drifts = [] ↔ pairsUnchanged lower store source join srcEnt tgtEnt) ∧
      ∀ d ∈ drifts, d.defKind = .canonicalJoin ∧ d.defName = join.name := by
  unfold checkJoinOn at h
  split at h
  · next drift hmissing =>
    obtain rfl := Except.ok.inj h
    obtain ⟨hname, pair, hpair, hgone⟩ := firstMissingJoinColumn_eq_some hmissing
    refine ⟨⟨by simp, fun hall => ?_⟩, ?_⟩
    · rcases hgone with hgone | hgone
      · simpa [not_unchanged_of_missing lower store hsrc hgone] using (hall pair hpair).1
      · simpa [not_unchanged_of_missing lower store htgt hgone] using (hall pair hpair).2
    · intro d hd
      rw [List.mem_singleton.1 hd]
      exact hname
  · next hfound =>
    rw [firstMissingJoinColumn_eq_none] at hfound
    rw [Lookups.run_bind, Lookups.run_fetch, readTable_stored] at h
    change Lookups.run _ _ = _ at h
    rw [Lookups.run_bind, Lookups.run_fetch, readTable_stored] at h
    obtain rfl := Except.ok.inj h
    constructor
    · rw [List.flatMap_eq_nil_iff]
      refine forall_congr' fun pair => imp_congr_right fun hpair => ?_
      obtain ⟨hsource, htarget⟩ := hfound pair hpair
      rw [List.append_eq_nil_iff, shapeDriftsAt_eq_nil hsrc hsource,
        shapeDriftsAt_eq_nil htgt htarget]
    · intro d hd
      obtain ⟨pair, -, hd⟩ := List.mem_flatMap.1 hd
      exact (List.mem_append.1 hd).elim named_shapeDriftsAt named_shapeDriftsAt

/-- The outcome of a join. -/
theorem checkJoin_spec {broken : List String} (hbroken : NamesBroken store source broken)
    {out : Option (List Drift)}
    (h : (checkJoin lower (listEntities store) broken join).run (readTable store source) =
      .ok out) :
    Outcome .canonicalJoin join.name (joinChecked store source join)
      (joinHealthy lower store source join) out := by
  have hpassed : joinChecked store source join = false → out = none →
      Outcome .canonicalJoin join.name (joinChecked store source join)
        (joinHealthy lower store source join) out := fun hchecked hout => by
    subst hout
    exact ⟨by simp [hchecked], by simp [joinHealthy, hchecked], by simp⟩
  unfold checkJoin at h
  rw [find?_listEntities, find?_listEntities] at h
  cases hsrc : store.getEntity join.sourceEntity with
  | none =>
    rw [hsrc] at h
    exact hpassed (by simp [joinChecked, hsrc]) (Except.ok.inj h).symm
  | some srcEnt =>
    cases htgt : store.getEntity join.targetEntity with
    | none =>
      rw [hsrc, htgt] at h
      exact hpassed (by simp [joinChecked, htgt]) (Except.ok.inj h).symm
    | some tgtEnt =>
      have hchecked : joinChecked store source join =
          (resolves source srcEnt && resolves source tgtEnt) := by simp [joinChecked, hsrc, htgt]
      simp only [hsrc, htgt, hbroken.mem_iff hsrc, hbroken.mem_iff htgt] at h
      split at h
      · next hresolves =>
        refine hpassed ?_ (Except.ok.inj h).symm
        rw [hchecked, Bool.and_eq_false_iff]
        exact hresolves
      · next hresolves =>
        rw [not_or, Bool.not_eq_false, Bool.not_eq_false] at hresolves
        obtain ⟨srcLive, hsrcLive⟩ := found_of_resolves hresolves.1
        obtain ⟨tgtLive, htgtLive⟩ := found_of_resolves hresolves.2
        have hreadSrc : readTable store source (.live srcEnt.binding) = .ok (some srcLive) := by
          simp [readTable, hsrcLive]
        have hreadTgt : readTable store source (.live tgtEnt.binding) = .ok (some tgtLive) := by
          simp [readTable, htgtLive]
        rw [Lookups.run_bind, Lookups.run_fetch, hreadSrc] at h
        change Lookups.run _ _ = _ at h
        rw [Lookups.run_bind, Lookups.run_fetch, hreadTgt] at h
        change Lookups.run _
          (some <$> checkJoinOn lower join srcEnt tgtEnt srcLive tgtLive) = _ at h
        rw [map_eq_pure_bind, Lookups.run_bind] at h
        obtain ⟨drifts, hdrifts, h⟩ := bind_eq_ok h
        obtain rfl : some drifts = out := Except.ok.inj h
        obtain ⟨hnil, hnamed⟩ := checkJoinOn_spec hsrcLive htgtLive hdrifts
        refine ⟨by simp [hchecked, hresolves], ?_, hnamed⟩
        rw [Option.some_inj, hnil]
        simp [joinHealthy, sideUnchanged, hchecked, hresolves, hsrc, htgt, pairsUnchanged,
          forall_and]

end Definitions

/-! ## Reports -/

section Outcomes

variable {α : Type} {kind : DefKind} {name : α → String} {checked healthy : α → Bool}
  {defs : List α} {outs : List (Option (List Drift))}

/-- The outcomes of the definitions of one kind, in their order. -/
abbrev Outcomes (kind : DefKind) (name : α → String) (checked healthy : α → Bool) (defs : List α)
    (outs : List (Option (List Drift))) : Prop :=
  List.Forall₂ (fun a => Outcome kind (name a) (checked a) (healthy a)) defs outs

/-- The outcomes without a drift are those of the healthy definitions. -/
theorem Outcomes.count_eq (h : Outcomes kind name checked healthy defs outs) :
    outs.count (some []) = defs.countP healthy := by
  induction h with
  | nil => rfl
  | cons hout _ ih =>
    rw [List.count_cons, List.countP_cons, ih]
    simp only [beq_iff_eq, hout.healthy_iff]

/-- A drift stands under the kind and the name of a definition that is checked and not healthy,
and every such definition has one. -/
theorem Outcomes.exists_drift_iff (h : Outcomes kind name checked healthy defs outs)
    {kind' : DefKind} {name' : String} :
    (∃ d ∈ outs.flatMap (·.getD []), d.defKind = kind' ∧ d.defName = name') ↔
      kind = kind' ∧ ∃ a ∈ defs, name a = name' ∧ checked a = true ∧ healthy a = false := by
  obtain ⟨hback, hforth⟩ := forall₂_mem h
  constructor
  · rintro ⟨d, hd, rfl, rfl⟩
    obtain ⟨out, hout, hd⟩ := List.mem_flatMap.1 hd
    obtain ⟨a, ha, houtcome⟩ := hback out hout
    obtain ⟨hkind, hname⟩ := houtcome.named d hd
    refine ⟨hkind.symm, a, ha, hname.symm, ?_, ?_⟩
    · by_contra hnot
      rw [houtcome.none_iff.2 (Bool.not_eq_true _ ▸ hnot)] at hd
      simp at hd
    · by_contra hnot
      rw [houtcome.healthy_iff.2 (Bool.not_eq_false _ ▸ hnot)] at hd
      simp at hd
  · rintro ⟨rfl, a, ha, rfl, hchecked, hhealthy⟩
    obtain ⟨out, hout, houtcome⟩ := hforth a ha
    cases out with
    | none => simp [houtcome.none_iff.1 rfl] at hchecked
    | some drifts =>
      cases drifts with
      | nil => simp [houtcome.healthy_iff.1 rfl] at hhealthy
      | cons d rest =>
        have hnamed := houtcome.named d (by simp)
        exact ⟨d, List.mem_flatMap.2 ⟨_, hout, by simp⟩, hnamed⟩

end Outcomes

section Report

variable {lower : String → String} {store : Store} {source : QualifiedTable → Introspection}

theorem brokenNames_eq {entities : List Entity} {checks : List (List Drift × Bool)}
    (h : List.Forall₂ (fun e check => check.2 = !resolves source e) entities checks) :
    brokenNames entities checks = (entities.filter fun e => !resolves source e).map (·.name) := by
  unfold brokenNames
  induction h with
  | nil => rfl
  | cons hbroken _ ih =>
    rw [List.zip_cons_cons, List.filter_cons, List.filter_cons, hbroken]
    split
    · rw [List.map_cons, List.map_cons, ih]
    · exact ih

theorem entityOutcomes {checks : List (List Drift × Bool)}
    (h : ((listEntities store).mapM (checkEntity lower)).run (readTable store source) =
      .ok checks) :
    Outcomes .entity Entity.name (fun _ => true) (entityHealthy lower store source)
        (listEntities store) (checks.map fun check => some check.1) ∧
      NamesBroken store source (brokenNames (listEntities store) checks) := by
  rw [Lookups.run_mapM] at h
  have hall := mapM_eq_ok h
  constructor
  · rw [Outcomes, List.forall₂_map_right_iff]
    exact hall.imp fun entity check hcheck => (checkEntity_spec hcheck).1
  · intro name
    rw [brokenNames_eq (hall.imp fun entity check hcheck => (checkEntity_spec hcheck).2)]
    simp only [List.mem_map, List.mem_filter, Bool.not_eq_true', listEntities, mem_sortedBy]
    exact exists_congr fun e => by rw [and_assoc, and_comm (a := resolves source e = false)]

/-- The definition of a kind under a name is checked and is not healthy. -/
def Drifted (lower : String → String) (store : Store) (source : QualifiedTable → Introspection)
    (name : String) : DefKind → Prop
  | .entity => ∃ e ∈ store.entities, e.name = name ∧ entityHealthy lower store source e = false
  | .metric => ∃ m ∈ store.metrics, m.name = name ∧ metricChecked store source m = true ∧
      metricHealthy lower store source m = false
  | .canonicalJoin => ∃ j ∈ store.canonicalJoins, j.name = name ∧
      joinChecked store source j = true ∧ joinHealthy lower store source j = false

/-- What a report says about the store and the live source. -/
structure Reports (lower : String → String) (store : Store)
    (source : QualifiedTable → Introspection) (report : CheckReport) : Prop where
  entities : report.totalEntities = store.entities.length ∧
    report.entitiesHealthy = store.entities.countP (entityHealthy lower store source)
  metrics : report.totalMetrics = store.metrics.length ∧
    report.metricsHealthy = store.metrics.countP (metricHealthy lower store source)
  joins : report.totalJoins = store.canonicalJoins.length ∧
    report.joinsHealthy = store.canonicalJoins.countP (joinHealthy lower store source)
  drifts : ∀ kind name, (∃ d ∈ report.drifts, d.defKind = kind ∧ d.defName = name) ↔
    Drifted lower store source name kind
  exit : report.exitCode = 0 ↔
    (∀ e ∈ store.entities, entityHealthy lower store source e = true) ∧
      (∀ m ∈ store.metrics, metricHealthy lower store source m = true) ∧
      ∀ j ∈ store.canonicalJoins, joinHealthy lower store source j = true

/-- An unchanged column is in the live source. -/
theorem resolves_of_entityHealthy {e : Entity} (h : entityHealthy lower store source e = true) :
    resolves source e = true := by
  unfold entityHealthy unchanged at h
  unfold resolves
  cases hcolumn : liveColumn source e.binding e.identity with
  | none => simp [hcolumn] at h
  | some liveCol => rfl

/-- Where nothing has drifted everything is healthy: then no definition was passed over. -/
theorem no_drift_iff :
    (∀ kind name, ¬ Drifted lower store source name kind) ↔
      (∀ e ∈ store.entities, entityHealthy lower store source e = true) ∧
        (∀ m ∈ store.metrics, metricHealthy lower store source m = true) ∧
        ∀ j ∈ store.canonicalJoins, joinHealthy lower store source j = true := by
  constructor
  · intro h
    have hentities : ∀ e ∈ store.entities, entityHealthy lower store source e = true := by
      intro e he
      by_contra hnot
      exact h .entity e.name ⟨e, he, rfl, Bool.not_eq_true _ ▸ hnot⟩
    have hresolves : ∀ name, (∃ e ∈ store.entities, e.name = name) →
        (store.getEntity name).any (resolves source) = true := by
      rintro _ ⟨e, he, rfl⟩
      obtain ⟨e', he'⟩ := Store.exists_getEntity he
      rw [he', Option.any_some]
      exact resolves_of_entityHealthy (hentities e' (List.mem_of_find?_eq_some he'))
    refine ⟨hentities, fun m hm => ?_, fun j hj => ?_⟩
    · have hchecked : metricChecked store source m = true :=
        hresolves m.entity (store.metrics_anchored m hm)
      by_contra hnot
      exact h .metric m.name ⟨m, hm, rfl, hchecked, Bool.not_eq_true _ ▸ hnot⟩
    · have hchecked : joinChecked store source j = true := by
        rw [joinChecked, hresolves _ (store.joins_source j hj),
          hresolves _ (store.joins_target j hj)]
        rfl
      by_contra hnot
      exact h .canonicalJoin j.name ⟨j, hj, rfl, hchecked, Bool.not_eq_true _ ▸ hnot⟩
  · rintro ⟨hentities, hmetrics, hjoins⟩ kind name hdrifted
    cases kind with
    | entity =>
      obtain ⟨e, he, -, hnot⟩ := hdrifted
      simp [hentities e he] at hnot
    | metric =>
      obtain ⟨m, hm, -, -, hnot⟩ := hdrifted
      simp [hmetrics m hm] at hnot
    | canonicalJoin =>
      obtain ⟨j, hj, -, -, hnot⟩ := hdrifted
      simp [hjoins j hj] at hnot

theorem exitCode_eq_zero {report : CheckReport} :
    report.exitCode = 0 ↔
      ∀ kind name, ¬ ∃ d ∈ report.drifts, d.defKind = kind ∧ d.defName = name := by
  unfold CheckReport.exitCode
  split
  · next hnil => simp [hnil]
  · next hne =>
    obtain ⟨d, hd⟩ := List.exists_mem_of_ne_nil _ hne
    exact iff_of_false (by simp) fun h => h d.defKind d.defName ⟨d, hd, rfl, rfl⟩

/-- A check that returns returns the report of its three lists of outcomes. -/
theorem checkDefinitions_ok {report : CheckReport}
    (h : (checkDefinitions lower store).run (readTable store source) = .ok report) :
    ∃ entityChecks metricChecks joinChecks,
      report = makeReport entityChecks metricChecks joinChecks ∧
      Outcomes .entity Entity.name (fun _ => true) (entityHealthy lower store source)
        (listEntities store) (entityChecks.map fun check => some check.1) ∧
      Outcomes .metric Metric.name (metricChecked store source) (metricHealthy lower store source)
        (listMetrics store) metricChecks ∧
      Outcomes .canonicalJoin CanonicalJoin.name (joinChecked store source)
        (joinHealthy lower store source) store.listCanonicalJoins joinChecks := by
  unfold checkDefinitions at h
  rw [Lookups.run_bind] at h
  obtain ⟨entityChecks, hentities, h⟩ := bind_eq_ok h
  obtain ⟨hentityOutcomes, hbroken⟩ := entityOutcomes hentities
  rw [Lookups.run_bind] at h
  obtain ⟨metricChecks, hmetrics, h⟩ := bind_eq_ok h
  rw [Lookups.run_bind] at h
  obtain ⟨joinChecks, hjoins, h⟩ := bind_eq_ok h
  rw [Lookups.run_mapM] at hmetrics hjoins
  exact ⟨entityChecks, metricChecks, joinChecks, (Except.ok.inj h).symm, hentityOutcomes,
    (mapM_eq_ok hmetrics).imp fun metric out hout => checkMetric_spec hbroken hout,
    (mapM_eq_ok hjoins).imp fun join out hout => checkJoin_spec hbroken hout⟩

/-- A report counts the healthy definitions of every kind and names exactly the drifted ones. -/
theorem checkDefinitions_reports {report : CheckReport}
    (h : (checkDefinitions lower store).run (readTable store source) = .ok report) :
    Reports lower store source report := by
  obtain ⟨entityChecks, metricChecks, joinChecks, rfl, hentities, hmetrics, hjoins⟩ :=
    checkDefinitions_ok h
  have hentityPerm : (listEntities store).Perm store.entities := sortedBy_perm
  have hmetricPerm : (listMetrics store).Perm store.metrics := sortedBy_perm
  have hjoinPerm : store.listCanonicalJoins.Perm store.canonicalJoins :=
    List.perm_insertionSort _ _
  have hentityDrifts : entityChecks.flatMap (·.1) =
      (entityChecks.map fun check => some check.1).flatMap (·.getD []) := by
    rw [List.flatMap_map]
    rfl
  have hentityCount : entityChecks.countP (·.1 = []) =
      (entityChecks.map fun check => some check.1).count (some []) := by
    rw [List.count, List.countP_map]
    exact List.countP_congr fun check _ => by simp
  have hdrifts : ∀ kind name, (∃ d ∈ (makeReport entityChecks metricChecks joinChecks).drifts,
      d.defKind = kind ∧ d.defName = name) ↔ Drifted lower store source name kind := by
    intro kind name
    simp only [makeReport, hentityDrifts, List.mem_append, or_and_right, exists_or,
      hentities.exists_drift_iff, hmetrics.exists_drift_iff, hjoins.exists_drift_iff]
    cases kind with
    | entity => simp [Drifted, listEntities]
    | metric => simp [Drifted, listMetrics]
    | canonicalJoin => simp [Drifted, Store.mem_listCanonicalJoins]
  refine ⟨⟨?_, ?_⟩, ⟨?_, ?_⟩, ⟨?_, ?_⟩, hdrifts, ?_⟩
  · rw [← hentityPerm.length_eq, hentities.length_eq, List.length_map]
    rfl
  · rw [← hentityPerm.countP_eq, ← hentities.count_eq]
    exact hentityCount
  · rw [← hmetricPerm.length_eq, hmetrics.length_eq]
    rfl
  · rw [← hmetricPerm.countP_eq, ← hmetrics.count_eq]
    rfl
  · rw [← hjoinPerm.length_eq, hjoins.length_eq]
    rfl
  · rw [← hjoinPerm.countP_eq, ← hjoins.count_eq]
    rfl
  · rw [exitCode_eq_zero, ← no_drift_iff]
    exact forall_congr' fun kind => forall_congr' fun name => not_congr (hdrifts kind name)

/-- What `check_drift` returns does not depend on its caches. -/
theorem checkDrift_snd : (checkDrift lower store source).2 =
    (checkDefinitions lower store).run (readTable store source) :=
  (Lookups.runCached_spec Lookups.Session.sound_empty _).1

/-- A report of `check_drift` counts the healthy definitions of every kind and names exactly the
drifted ones. -/
theorem checkDrift_reports (lower : String → String) (store : Store)
    (source : QualifiedTable → Introspection) (report : CheckReport)
    (h : (checkDrift lower store source).2 = .ok report) : Reports lower store source report :=
  checkDefinitions_reports (checkDrift_snd ▸ h)

/-- A live source in which the orders lost their customer and the accounts are gone. -/
def movedSource (q : QualifiedTable) : Introspection :=
  if q.table = "orders" then
    .found ⟨q, [⟨"amount", "int", false, 1, none, false⟩,
      ⟨"account_id", "int", false, 2, none, false⟩], []⟩
  else if q.table = "customers" then
    .found ⟨q, [⟨"id", "int", false, 1, none, true⟩,
      ⟨"account_id", "int", false, 2, none, false⟩], []⟩
  else .notFound

theorem checkDrift_reports_movedSource :
    ∃ report, (checkDrift id Semantic.chainedStore movedSource).2 = .ok report ∧
      report.entitiesHealthy = 2 ∧ report.exitCode = 1 ∧
      Reports id Semantic.chainedStore movedSource report := by
  have hrun : (checkDrift id Semantic.chainedStore movedSource).2.toOption.any
      (fun report => report.entitiesHealthy = 2 ∧ report.exitCode = 1) = true := by decide
  cases h : (checkDrift id Semantic.chainedStore movedSource).2 with
  | error e => simp [h, Except.toOption] at hrun
  | ok report =>
    have hreport : report.entitiesHealthy = 2 ∧ report.exitCode = 1 := by
      simpa [h, Except.toOption] using hrun
    exact ⟨report, rfl, hreport.1, hreport.2,
      checkDrift_reports id Semantic.chainedStore movedSource report h⟩

end Report

end SchemaBrain.Check
