import Mathlib.Data.Prod.Lex
import Mathlib.Data.String.Basic
import SchemaBrain.Base.Collections
import SchemaBrain.Enrichment.Prompts
import SchemaBrain.Mcp.Redaction

/-!
# Bridges over junction tables

`synthesize_bridges`: one logical join for every two entities that a junction entity is joined
to. Bridges are told apart by names that put three entity names together with underscores, so
a bridge whose name another one has is lost.
-/

namespace SchemaBrain.Joins

open Base Core

/-! ## Trust -/

/-- What the row of a canonical join holds beside its columns. -/
structure JoinNotes where
  inferenceMethod : InferenceMethod := .manuallyAuthored
  validationState : ValidationState := .applied
  deriving DecidableEq, Repr

/-- The rows of one source with the notes of their joins. -/
structure JoinCatalog extends Store where
  joinNotes : String → JoinNotes := fun _ => {}

/-- `_METHOD_RANK`. -/
def methodRank : InferenceMethod → Nat
  | .fkConstraint => 0
  | .dbtImport => 1
  | .manuallyAuthored => 2
  | .observedInQueryLog => 3
  | .llmSuggested => 4

/-- `_VALIDATION_RANK`. -/
def validationRank : ValidationState → Nat
  | .confirmed => 0
  | .applied => 1
  | .draft => 2

/-- `_worst_inference`. -/
def worstInference (a b : InferenceMethod) : InferenceMethod :=
  if methodRank b ≤ methodRank a then a else b

/-- `_worst_validation`. -/
def worstValidation (a b : ValidationState) : ValidationState :=
  if validationRank b ≤ validationRank a then a else b

/-! ## Synthesis -/

/-- `BridgeJoin`. -/
structure BridgeJoin where
  name : String
  sourceEntity : String
  targetEntity : String
  viaJunction : String
  viaJoins : String × String
  inferenceMethod : InferenceMethod
  validationState : ValidationState
  deriving DecidableEq, Repr

/-- `find_junction_entities`. -/
def findJunctionEntities (store : Store) : List Entity :=
  (sortedBy (·.name) store.entities).filter fun entity =>
    match store.getTable entity.binding with
    | none => false
    | some table => table.isJunctionTable

/-- `_legs_touching`: the joins of the junction, each with its other end. -/
def legsTouching (junctionName : String) (joins : List CanonicalJoin) :
    List (CanonicalJoin × String) :=
  sortedBy (fun leg => toLex (leg.2, leg.1.name)) (joins.filterMap fun join =>
    if join.sourceEntity = junctionName then some (join, join.targetEntity)
    else if join.targetEntity = junctionName then some (join, join.sourceEntity)
    else none)

/-- `f"{lo}_{hi}_via_{junction.name}"`. -/
def bridgeName (lo hi junction : String) : String := lo ++ "_" ++ hi ++ "_via_" ++ junction

/-- The bridge over two legs, if they have different ends. -/
def bridgeOver (notes : String → JoinNotes) (junction : String)
    (legs : (CanonicalJoin × String) × (CanonicalJoin × String)) : Option BridgeJoin :=
  let endA := legs.1.2
  let endB := legs.2.2
  if endA = endB then none
  else
    let lo := if endA ≤ endB then endA else endB
    let hi := if endA ≤ endB then endB else endA
    let legLo := if lo = endA then legs.1.1 else legs.2.1
    let legHi := if lo = endA then legs.2.1 else legs.1.1
    some {
      name := bridgeName lo hi junction
      sourceEntity := lo
      targetEntity := hi
      viaJunction := junction
      viaJoins := (legLo.name, legHi.name)
      inferenceMethod := worstInference (notes legLo.name).inferenceMethod
        (notes legHi.name).inferenceMethod
      validationState := worstValidation (notes legLo.name).validationState
        (notes legHi.name).validationState }

/-- `synthesize_bridges`: `seen_names` holds the names of the bridges that were kept. -/
def synthesizeBridges (catalog : JoinCatalog) : List BridgeJoin :=
  sortedBy (·.name) (keepFirst (·.name)
    ((findJunctionEntities catalog.toStore).flatMap fun junction =>
      (pairsInOrder (legsTouching junction.name catalog.listCanonicalJoins)).filterMap
        (bridgeOver catalog.joinNotes junction.name)))

/-- `_orient_pairs`. -/
def orientPairs (fromEntity toEntity : String) (join : CanonicalJoin) :
    Except String (List JoinColumnPair) :=
  if join.sourceEntity = fromEntity ∧ join.targetEntity = toEntity then .ok join.on
  else if join.sourceEntity = toEntity ∧ join.targetEntity = fromEntity then
    .ok (join.on.map (·.swap))
  else
    .error ("join " ++ pyRepr join.name ++ " does not connect " ++ pyRepr fromEntity ++ " and " ++
      pyRepr toEntity ++ " (it connects " ++ pyRepr join.sourceEntity ++ " and " ++
      pyRepr join.targetEntity ++ ")")

/-- `composed_on_pairs`. -/
def composedOnPairs (bridge : BridgeJoin) (legLo legHi : CanonicalJoin) :
    Except String (List JoinColumnPair × List JoinColumnPair) := do
  let aToJ ← orientPairs bridge.sourceEntity bridge.viaJunction legLo
  let jToB ← orientPairs bridge.viaJunction bridge.targetEntity legHi
  .ok (aToJ, jToB)

/-! ## Complete bridges -/

/-- A junction entity with two other entities, the first one before the second by name. -/
structure BridgeEnds where
  junction : String
  source : String
  target : String
  deriving DecidableEq, Repr

/-- The ends of a bridge. -/
def BridgeJoin.ends (bridge : BridgeJoin) : BridgeEnds :=
  ⟨bridge.viaJunction, bridge.sourceEntity, bridge.targetEntity⟩

/-- The join has these two ends, in either direction. -/
def Connects (join : CanonicalJoin) (a b : String) : Prop :=
  (join.sourceEntity = a ∧ join.targetEntity = b) ∨ (join.sourceEntity = b ∧ join.targetEntity = a)

/-- The columns of a join on the side of one of its ends. -/
def columnsAt (join : CanonicalJoin) (entity : String) : List String :=
  if join.sourceEntity = entity then join.on.map (·.sourceColumn)
  else join.on.map (·.targetColumn)

/-- The pairs read the columns of one entity, then those of the other one. -/
def ReadsFrom (pairs : List JoinColumnPair) (join : CanonicalJoin) (a b : String) : Prop :=
  pairs.map (·.sourceColumn) = columnsAt join a ∧ pairs.map (·.targetColumn) = columnsAt join b

section Complete

variable (catalog : JoinCatalog)

/-- An entity that is bound to a junction table. -/
def IsJunction (name : String) : Prop :=
  ∃ e ∈ catalog.entities, e.name = name ∧
    ∃ t ∈ catalog.tables, t.qualified = e.binding ∧ t.isJunctionTable = true

/-- The junction shares a canonical join with either entity. -/
structure Bridged (ends : BridgeEnds) : Prop where
  junction : IsJunction catalog ends.junction
  ordered : ends.source < ends.target
  source : ∃ join ∈ catalog.canonicalJoins, Connects join ends.junction ends.source
  target : ∃ join ∈ catalog.canonicalJoins, Connects join ends.junction ends.target

/-- The two joins of a bridge, in the order of its ends, and what they compose to. -/
def HasLegs (bridge : BridgeJoin) : Prop :=
  ∃ legLo ∈ catalog.canonicalJoins, ∃ legHi ∈ catalog.canonicalJoins,
    bridge.viaJoins = (legLo.name, legHi.name) ∧
    Connects legLo bridge.viaJunction bridge.sourceEntity ∧
    Connects legHi bridge.viaJunction bridge.targetEntity ∧
    ∃ aToJ jToB, composedOnPairs bridge legLo legHi = .ok (aToJ, jToB) ∧
      ReadsFrom aToJ legLo bridge.sourceEntity bridge.viaJunction ∧
      ReadsFrom jToB legHi bridge.viaJunction bridge.targetEntity

/-- One bridge for every junction and every two entities it is joined to, under different
names, each with its two legs. -/
structure CompleteBridges : Prop where
  each : ∀ ends, ends ∈ (synthesizeBridges catalog).map (·.ends) ↔ Bridged catalog ends
  once : ((synthesizeBridges catalog).map (·.ends)).Nodup
  names : ((synthesizeBridges catalog).map (·.name)).Nodup
  legs : ∀ bridge ∈ synthesizeBridges catalog, HasLegs catalog bridge

/-- The name of a bridge over these ends. -/
def BridgeEnds.name (ends : BridgeEnds) : String :=
  bridgeName ends.source ends.target ends.junction

end Complete

/-! ## Legs -/

theorem Connects.symm {join : CanonicalJoin} {a b : String} (h : Connects join a b) :
    Connects join b a := Or.symm h

theorem mem_legsTouching {junction : String} {joins : List CanonicalJoin}
    {leg : CanonicalJoin × String} : leg ∈ legsTouching junction joins ↔
      leg.1 ∈ joins ∧ Connects leg.1 junction leg.2 := by
  obtain ⟨join, other⟩ := leg
  rw [legsTouching, mem_sortedBy, List.mem_filterMap]
  constructor
  · rintro ⟨join', hmem, hleg⟩
    split at hleg
    · next hsource =>
      obtain ⟨rfl, rfl⟩ := Prod.mk.inj (Option.some.inj hleg)
      exact ⟨hmem, .inl ⟨hsource, rfl⟩⟩
    · split at hleg
      · next htarget =>
        obtain ⟨rfl, rfl⟩ := Prod.mk.inj (Option.some.inj hleg)
        exact ⟨hmem, .inr ⟨rfl, htarget⟩⟩
      · cases hleg
  · rintro ⟨hmem, hconnects⟩
    refine ⟨join, hmem, ?_⟩
    dsimp only [Connects] at hconnects
    rcases hconnects with ⟨rfl, rfl⟩ | ⟨rfl, rfl⟩
    · rw [if_pos rfl]
    · rw [if_neg join.no_self, if_pos rfl]

/-- The pairs of a join between two entities, read from either side. -/
theorem orientPairs_of_connects {join : CanonicalJoin} {a b : String} (h : Connects join a b) :
    ∃ pairs, orientPairs a b join = .ok pairs ∧ ReadsFrom pairs join a b := by
  have hself := join.no_self
  rcases h with ⟨rfl, rfl⟩ | ⟨rfl, rfl⟩
  · exact ⟨join.on, by simp [orientPairs], by simp [columnsAt], by simp [columnsAt, hself]⟩
  · refine ⟨join.on.map (·.swap), by simp [orientPairs, hself], ?_, ?_⟩
    · simp [columnsAt, hself, JoinColumnPair.swap]
    · simp [columnsAt, JoinColumnPair.swap]

/-! ## Candidates -/

section Candidates

variable {catalog : JoinCatalog}

theorem mem_findJunctionEntities {store : Store} {e : Entity} :
    e ∈ findJunctionEntities store ↔ e ∈ store.entities ∧
      ∃ t ∈ store.tables, t.qualified = e.binding ∧ t.isJunctionTable = true := by
  rw [findJunctionEntities, List.mem_filter, mem_sortedBy]
  refine and_congr_right fun _ => ?_
  cases hfound : store.getTable e.binding with
  | none =>
    have hnone := List.find?_eq_none.1 hfound
    simp only [Bool.false_eq_true, false_iff]
    rintro ⟨t, ht, hkey, -⟩
    exact hnone t ht (decide_eq_true hkey)
  | some table =>
    have hkey := of_decide_eq_true (List.find?_some hfound :)
    have hmem := List.mem_of_find?_eq_some hfound
    constructor
    · exact fun hjunction => ⟨table, hmem, hkey, hjunction⟩
    · rintro ⟨t, ht, hkey', hjunction⟩
      rwa [List.inj_on_of_nodup_map store.tables_key hmem ht (hkey.trans hkey'.symm)]

/-- What the bridges of the loops are made of. -/
private structure MadeOf (catalog : JoinCatalog) (bridge : BridgeJoin) : Prop where
  bridged : Bridged catalog bridge.ends
  named : bridge.name = bridge.ends.name
  legs : HasLegs catalog bridge

/-- The bridges of the loops, in order. -/
private def candidates (catalog : JoinCatalog) : List BridgeJoin :=
  (findJunctionEntities catalog.toStore).flatMap fun junction =>
    (pairsInOrder (legsTouching junction.name catalog.listCanonicalJoins)).filterMap
      (bridgeOver catalog.joinNotes junction.name)

/-- The bridge over two legs goes from the lower end to the higher one. -/
private theorem bridgeOver_eq_some {notes : String → JoinNotes} {junction : String}
    {legs : (CanonicalJoin × String) × (CanonicalJoin × String)} {bridge : BridgeJoin}
    (h : bridgeOver notes junction legs = some bridge) :
    ∃ lo hi, (legs = (lo, hi) ∨ legs = (hi, lo)) ∧ lo.2 < hi.2 ∧
      bridge.ends = ⟨junction, lo.2, hi.2⟩ ∧ bridge.name = bridge.ends.name ∧
      bridge.viaJoins = (lo.1.name, hi.1.name) := by
  obtain ⟨a, b⟩ := legs
  unfold bridgeOver at h
  dsimp only at h
  split at h
  · cases h
  · next hne =>
    obtain rfl := Option.some.inj h
    rcases lt_or_gt_of_ne hne with hlt | hgt
    · exact ⟨a, b, .inl rfl, hlt, by simp [BridgeJoin.ends, hlt.le],
        by simp [BridgeJoin.ends, BridgeEnds.name, hlt.le], by simp [hlt.le]⟩
    · exact ⟨b, a, .inr rfl, hgt, by simp [BridgeJoin.ends, not_le.2 hgt],
        by simp [BridgeJoin.ends, BridgeEnds.name, not_le.2 hgt],
        by simp [not_le.2 hgt, Ne.symm hne]⟩

private theorem bridgeOver_isSome {notes : String → JoinNotes} {junction : String}
    {legs : (CanonicalJoin × String) × (CanonicalJoin × String)} (h : legs.1.2 ≠ legs.2.2) :
    ∃ bridge, bridgeOver notes junction legs = some bridge := by
  unfold bridgeOver
  rw [if_neg h]
  exact ⟨_, rfl⟩

private theorem madeOf_of_mem_candidates {bridge : BridgeJoin} (h : bridge ∈ candidates catalog) :
    MadeOf catalog bridge := by
  obtain ⟨e, he, hbridge⟩ := List.mem_flatMap.1 h
  obtain ⟨hentity, htable⟩ := mem_findJunctionEntities.1 he
  obtain ⟨legs, hlegs, hover⟩ := List.mem_filterMap.1 hbridge
  obtain ⟨lo, hi, hlegs', hlt, hends, hname, hvia⟩ := bridgeOver_eq_some hover
  have hmem : lo ∈ legsTouching e.name catalog.listCanonicalJoins ∧
      hi ∈ legsTouching e.name catalog.listCanonicalJoins := by
    have hpair := mem_of_mem_pairsInOrder hlegs
    rcases hlegs' with rfl | rfl
    · exact hpair
    · exact hpair.symm
  obtain ⟨hlo, hconnects⟩ := mem_legsTouching.1 hmem.1
  obtain ⟨hhi, hconnects'⟩ := mem_legsTouching.1 hmem.2
  rw [Store.mem_listCanonicalJoins] at hlo hhi
  obtain ⟨hjunction, hrest⟩ := BridgeEnds.mk.inj hends
  obtain ⟨hsource, htarget⟩ := hrest
  constructor
  · rw [hends]
    exact ⟨⟨e, hentity, rfl, htable⟩, hlt, ⟨lo.1, hlo, hconnects⟩, hi.1, hhi, hconnects'⟩
  · exact hname
  · refine ⟨lo.1, hlo, hi.1, hhi, hvia, hjunction ▸ hsource ▸ hconnects,
      hjunction ▸ htarget ▸ hconnects', ?_⟩
    obtain ⟨aToJ, haToJ, hreads⟩ := orientPairs_of_connects hconnects.symm
    obtain ⟨jToB, hjToB, hreads'⟩ := orientPairs_of_connects hconnects'
    rw [← hjunction, ← hsource] at haToJ hreads
    rw [← hjunction, ← htarget] at hjToB hreads'
    refine ⟨aToJ, jToB, ?_, hreads, hreads'⟩
    simp [composedOnPairs, haToJ, hjToB, bind, Except.bind]

/-- Every two ends have a bridge in the loops. -/
private theorem exists_bridgeCandidate {ends : BridgeEnds} (h : Bridged catalog ends) :
    ∃ bridge ∈ candidates catalog, bridge.ends = ends := by
  obtain ⟨junction, source, target⟩ := ends
  obtain ⟨⟨e, he, rfl, htable⟩, hlt, ⟨legLo, hlo, hconnects⟩, legHi, hhi, hconnects'⟩ := h
  dsimp only at hlt hconnects hconnects'
  have hmem : (legLo, source) ∈ legsTouching e.name catalog.listCanonicalJoins :=
    mem_legsTouching.2 ⟨Store.mem_listCanonicalJoins.2 hlo, hconnects⟩
  have hmem' : (legHi, target) ∈ legsTouching e.name catalog.listCanonicalJoins :=
    mem_legsTouching.2 ⟨Store.mem_listCanonicalJoins.2 hhi, hconnects'⟩
  have hne : (legLo, source) ≠ (legHi, target) := fun heq => hlt.ne (Prod.mk.inj heq).2
  obtain ⟨legs, hlegs, heither⟩ : ∃ legs ∈ pairsInOrder (legsTouching e.name
      catalog.listCanonicalJoins), legs = ((legLo, source), (legHi, target)) ∨
        legs = ((legHi, target), (legLo, source)) := by
    rcases mem_pairsInOrder_or hmem hmem' hne with hpair | hpair
    · exact ⟨_, hpair, .inl rfl⟩
    · exact ⟨_, hpair, .inr rfl⟩
  have hdiffer : legs.1.2 ≠ legs.2.2 := by
    rcases heither with rfl | rfl
    · exact hlt.ne
    · exact hlt.ne'
  obtain ⟨bridge, hbridge⟩ := @bridgeOver_isSome catalog.joinNotes e.name legs hdiffer
  refine ⟨bridge, List.mem_flatMap.2 ⟨e, mem_findJunctionEntities.2 ⟨he, htable⟩,
    List.mem_filterMap.2 ⟨legs, hlegs, hbridge⟩⟩, ?_⟩
  obtain ⟨lo, hi, hsame, hlt', hends, -⟩ := bridgeOver_eq_some hbridge
  rw [hends]
  rcases heither with rfl | rfl <;> rcases hsame with hsame | hsame <;>
    obtain ⟨rfl, rfl⟩ := Prod.mk.inj hsame
  · rfl
  · exact absurd hlt' hlt.asymm
  · exact absurd hlt' hlt.asymm
  · rfl

end Candidates

/-! ## The list of bridges -/

section Synthesized

variable {catalog : JoinCatalog}

private theorem mem_synthesizeBridges {bridge : BridgeJoin} :
    bridge ∈ synthesizeBridges catalog ↔ bridge ∈ keepFirst (·.name) (candidates catalog) :=
  mem_sortedBy

private theorem madeOf_of_mem {bridge : BridgeJoin} (h : bridge ∈ synthesizeBridges catalog) :
    MadeOf catalog bridge :=
  madeOf_of_mem_candidates (keepFirst_subset _ (mem_synthesizeBridges.1 h))

private theorem nodup_names : ((synthesizeBridges catalog).map (·.name)).Nodup :=
  (sortedBy_perm.map _).nodup_iff.2 (nodup_keepFirst _)

/-- A bridge of the name of any two ends is kept. -/
private theorem exists_name {ends : BridgeEnds} (h : Bridged catalog ends) :
    ∃ bridge ∈ synthesizeBridges catalog, bridge.name = ends.name := by
  obtain ⟨bridge, hmem, rfl⟩ := exists_bridgeCandidate h
  obtain ⟨kept, hkept, hname⟩ := @exists_mem_keepFirst _ _ _ BridgeJoin.name _ _ hmem
  exact ⟨kept, mem_synthesizeBridges.2 hkept, hname.trans (madeOf_of_mem_candidates hmem).named⟩

/-- The bridges are complete if and only if no two of them would have one name. -/
theorem completeBridges_iff (catalog : JoinCatalog) :
    CompleteBridges catalog ↔ ∀ ends ends', Bridged catalog ends → Bridged catalog ends' →
      ends.name = ends'.name → ends = ends' := by
  constructor
  · intro h ends ends' hends hends' hname
    obtain ⟨bridge, hbridge, rfl⟩ := List.mem_map.1 ((h.each ends).2 hends)
    obtain ⟨bridge', hbridge', rfl⟩ := List.mem_map.1 ((h.each ends').2 hends')
    rw [← (madeOf_of_mem hbridge).named, ← (madeOf_of_mem hbridge').named] at hname
    rw [List.inj_on_of_nodup_map h.names hbridge hbridge' hname]
  · intro hinj
    refine ⟨fun ends => ⟨fun h => ?_, fun h => ?_⟩, ?_, nodup_names,
      fun bridge hbridge => (madeOf_of_mem hbridge).legs⟩
    · obtain ⟨bridge, hbridge, rfl⟩ := List.mem_map.1 h
      exact (madeOf_of_mem hbridge).bridged
    · obtain ⟨bridge, hbridge, hname⟩ := exists_name h
      rw [(madeOf_of_mem hbridge).named] at hname
      exact List.mem_map.2 ⟨bridge, hbridge, hinj _ _ (madeOf_of_mem hbridge).bridged h hname⟩
    · refine (List.nodup_map_iff_inj_on nodup_names.of_map).2 fun bridge hbridge bridge' hbridge'
        hends => ?_
      refine List.inj_on_of_nodup_map nodup_names hbridge hbridge' ?_
      rw [(madeOf_of_mem hbridge).named, (madeOf_of_mem hbridge').named, hends]

end Synthesized

/-! ## Two bridges of one name -/

/-- A table of the catalog below, with its primary key. -/
private def idTable (name : String) : Table where
  qualified := ⟨"public", name⟩
  columns := [{ name := "id", dataType := "integer", isPrimaryKey := true }]

/-- A junction that is joined to items, order tags, item orders and tags. -/
def linkCatalog : JoinCatalog where
  tables := [⟨⟨"public", "links"⟩,
      [{ name := "item_id", dataType := "integer", isPrimaryKey := true },
        { name := "tag_id", dataType := "integer", ordinalPosition := 2, isPrimaryKey := true }],
      [⟨"links_item_fk", ["item_id"], "public", "items", ["id"]⟩,
        ⟨"links_tag_fk", ["tag_id"], "public", "tags", ["id"]⟩]⟩,
    idTable "items", idTable "order_tags", idTable "item_orders", idTable "tags"]
  entities := [{ name := "link", binding := ⟨"public", "links"⟩, identity := "item_id" },
    { name := "item", binding := ⟨"public", "items"⟩, identity := "id" },
    { name := "order_tag", binding := ⟨"public", "order_tags"⟩, identity := "id" },
    { name := "item_order", binding := ⟨"public", "item_orders"⟩, identity := "id" },
    { name := "tag", binding := ⟨"public", "tags"⟩, identity := "id" }]
  canonicalJoins := [
    { name := "link_item", sourceEntity := "link", targetEntity := "item",
      on := [⟨"item_id", "id", Eq.refl true, Eq.refl true⟩] },
    { name := "link_order_tag", sourceEntity := "link", targetEntity := "order_tag",
      on := [⟨"tag_id", "id", Eq.refl true, Eq.refl true⟩] },
    { name := "link_item_order", sourceEntity := "link", targetEntity := "item_order",
      on := [⟨"item_id", "id", Eq.refl true, Eq.refl true⟩] },
    { name := "link_tag", sourceEntity := "link", targetEntity := "tag",
      on := [⟨"tag_id", "id", Eq.refl true, Eq.refl true⟩] }]
  metrics := []
  columnPiiTags := []

/-- Item with order tag and item order with tag have one name, and the second bridge is lost. -/
theorem not_completeBridges : ¬ CompleteBridges linkCatalog := by
  intro h
  have hlost : (⟨"link", "item_order", "tag"⟩ : BridgeEnds) ∉
      (synthesizeBridges linkCatalog).map (·.ends) := by decide
  refine hlost ((h.each _).2 ⟨⟨_, List.mem_cons_self, rfl, _, List.mem_cons_self, rfl, by decide⟩,
    by decide, ?_, ?_⟩)
  · exact ⟨linkCatalog.canonicalJoins.get ⟨2, by decide⟩, List.get_mem _ _, .inl ⟨rfl, rfl⟩⟩
  · exact ⟨linkCatalog.canonicalJoins.get ⟨3, by decide⟩, List.get_mem _ _, .inl ⟨rfl, rfl⟩⟩

end SchemaBrain.Joins
