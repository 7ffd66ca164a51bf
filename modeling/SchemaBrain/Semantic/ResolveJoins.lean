import SchemaBrain.Semantic.Resolve

/-!
# The joins of a resolved request

After a sequence of column references the joins are those of the canonical chains to
the referenced entities, under one alias each and in an order that introduces an alias
before it is used. A reference resolves when its column exists and some chain resolved by
then passes its entity.
-/

namespace SchemaBrain.Semantic

open Base Core

/-! ## References -/

/-- The entity that a reference names. -/
def refEntity (columnRef : String) : String := (splitDot columnRef).1

theorem lookupAnchorTable_eq_ok {store : Store} {entity : String} {q : QualifiedTable} :
    lookupAnchorTable store entity = .ok q ↔
      ∃ e, store.getEntity entity = some e ∧ e.binding = q := by
  unfold lookupAnchorTable
  split
  · next e he => simp [he]
  · next he => simp [he]

theorem validateColumnOnTable_eq_ok {store : Store} {entity column : String} {q : QualifiedTable}
    {kind : ColumnValidationKind} :
    validateColumnOnTable store entity column q kind = .ok () ↔
      ∃ t, store.getTable q = some t ∧ column ∈ t.columns.map (·.name) := by
  unfold validateColumnOnTable columnsOn
  cases htable : store.getTable q with
  | none => simp [bind, Except.bind]
  | some t =>
    simp only [bind, Except.bind, Option.some.injEq, exists_eq_left']
    split <;> simp_all

namespace Resolver

variable {r : Resolver}

/-- The anchor table is the one that the store binds to the anchor. -/
def Anchored (r : Resolver) : Prop :=
  lookupAnchorTable r.store r.metric.entity = .ok r.anchorTable

/-- The table bound to an entity. -/
def tableOf (r : Resolver) (entity : String) : QualifiedTable :=
  ((r.store.getEntity entity).map (·.binding)).getD ⟨"", ""⟩

theorem tableOf_eq {entity : String} {e : Entity} (h : r.store.getEntity entity = some e) :
    r.tableOf entity = e.binding := by
  simp [tableOf, h]

theorem Anchored.tableOf (h : r.Anchored) : r.tableOf r.metric.entity = r.anchorTable := by
  obtain ⟨e, he, hbinding⟩ := lookupAnchorTable_eq_ok.1 h
  rw [tableOf_eq he, hbinding]

/-- The entity has a table with the column. -/
def ColumnExists (r : Resolver) (entity column : String) : Prop :=
  ∃ e t, r.store.getEntity entity = some e ∧ r.store.getTable e.binding = some t ∧
    column ∈ t.columns.map (·.name)

/-- The reference has its form and names a column of an entity. -/
def RefOk (r : Resolver) (columnRef : String) : Prop :=
  ∃ p, parseQualifiedColumn columnRef = some p ∧ r.ColumnExists p.1 p.2

/-- The column that a reference resolves to. -/
def columnAt (r : Resolver) (columnRef : String) : ResolvedColumn :=
  ⟨refEntity columnRef, (splitDot columnRef).2, r.tableOf (refEntity columnRef),
    aliasFor (refEntity columnRef)⟩

theorem validate_iff {entity column : String} {kind : ColumnValidationKind} {e : Entity}
    (h : r.store.getEntity entity = some e) :
    validateColumnOnTable r.store entity column (r.tableOf entity) kind = .ok () ↔
      r.ColumnExists entity column := by
  rw [validateColumnOnTable_eq_ok, tableOf_eq h]
  simp [ColumnExists, h]

/-! ## Chains of a request -/

/-- The chain that a request walks to an entity other than its anchor. -/
def HasChain (r : Resolver) (entity : String) (chain : List (String × ChainEdge)) : Prop :=
  r.metric.entity ≠ entity ∧ ChainTo r.graph r.via r.metric.entity entity chain

/-- The links of the chains to some entities. -/
def ChainLinks (r : Resolver) (entities : List String) (link : String × ChainEdge) : Prop :=
  ∃ f ∈ entities, ∃ chain, r.HasChain f chain ∧ link ∈ chain

/-- The join that a link becomes. -/
def linkJoin (r : Resolver) (link : String × ChainEdge) : ResolvedJoin where
  canonicalName := link.2.join.name
  sourceAlias := aliasFor link.1
  targetEntity := link.2.targetEntityInChain
  targetTable := r.tableOf link.2.targetEntityInChain
  targetAlias := aliasFor link.2.targetEntityInChain
  onPairs := link.2.onPairsInChainDirection
  cardinality := if link.2.isReverseTraversal then flipCardinality link.2.join.cardinality
    else link.2.join.cardinality

/-- The joins of a store have one join a name. -/
theorem join_names (r : Resolver) : ∀ j ∈ r.store.listCanonicalJoins,
    ∀ j' ∈ r.store.listCanonicalJoins, j.name = j'.name → j = j' :=
  fun _ hj _ hj' hname => Store.join_eq_of_name hj hj' hname

theorem HasChain.agree {f f' : String} {p s p' s' : List (String × ChainEdge)}
    {link link' : String × ChainEdge} (h : r.HasChain f (p ++ link :: s))
    (h' : r.HasChain f' (p' ++ link' :: s'))
    (hentity : link.2.targetEntityInChain = link'.2.targetEntityInChain) :
    p ++ [link] = p' ++ [link'] :=
  h.2.agree r.join_names h.1 h'.1 h'.2 hentity

/-- Links into one entity are one link. -/
theorem HasChain.link_eq {f f' : String} {chain chain' : List (String × ChainEdge)}
    {link link' : String × ChainEdge} (h : r.HasChain f chain) (h' : r.HasChain f' chain')
    (hlink : link ∈ chain) (hlink' : link' ∈ chain')
    (hentity : link.2.targetEntityInChain = link'.2.targetEntityInChain) : link = link' := by
  obtain ⟨p, s, rfl⟩ := List.append_of_mem hlink
  obtain ⟨p', s', rfl⟩ := List.append_of_mem hlink'
  have heq := List.append_inj_right' (h.agree h' hentity) rfl
  simpa using heq

/-- The entity that a link enters is stored. -/
theorem HasChain.exists_entity {f : String} {chain : List (String × ChainEdge)}
    (h : r.HasChain f chain) {link : String × ChainEdge} (hlink : link ∈ chain) :
    ∃ e, r.store.getEntity link.2.targetEntityInChain = some e := by
  obtain ⟨entry, hentry, hedge⟩ := h.2.exists_entry h.1 hlink
  obtain ⟨hjoin, hends⟩ := entry_spec hentry
  rw [hedge, GraphEntry.toChainEdge]
  rcases hends with ⟨-, -, hneighbor, -⟩ | ⟨-, -, hneighbor, -⟩
  · exact hneighbor ▸ Store.exists_joinTarget hjoin
  · exact hneighbor ▸ Store.exists_joinSource hjoin

/-- A chain to an entity that another chain passes is an initial part of it. -/
theorem HasChain.subset {f e : String} {chain chain' : List (String × ChainEdge)}
    (h : r.HasChain e chain) (h' : r.HasChain f chain') {link : String × ChainEdge}
    (hlink : link ∈ chain') (hentity : link.2.targetEntityInChain = e) :
    ∀ l ∈ chain, l ∈ chain' := by
  obtain ⟨p, last, rfl, hlast⟩ := h.2.exists_last h.1
  obtain ⟨p', s', rfl⟩ := List.append_of_mem hlink
  have heq := h.agree h' (hlast.trans hentity.symm)
  intro l hl
  rw [heq, List.mem_append, List.mem_singleton] at hl
  rw [List.mem_append, List.mem_cons]
  exact hl.imp_right .inl

/-! ## The joins state -/

/-- Every alias is introduced once, after the alias it is joined to. -/
inductive Scoped (anchor : String) : List ResolvedJoin → Prop
  | nil : Scoped anchor []
  | snoc {joins : List ResolvedJoin} {join : ResolvedJoin} (h : Scoped anchor joins)
      (hsource : join.sourceAlias = anchor ∨ join.sourceAlias ∈ joins.map (·.targetAlias))
      (hanchor : join.targetAlias ≠ anchor)
      (hnew : join.targetAlias ∉ joins.map (·.targetAlias)) : Scoped anchor (joins ++ [join])

/-- Every source alias is the anchor's or that of a join. -/
theorem Scoped.source {anchor : String} {joins : List ResolvedJoin} (h : Scoped anchor joins)
    {join : ResolvedJoin} (hjoin : join ∈ joins) :
    join.sourceAlias = anchor ∨ join.sourceAlias ∈ joins.map (·.targetAlias) := by
  induction h with
  | nil => simp at hjoin
  | snoc _ hsource _ _ ih =>
    rw [List.map_append, List.mem_append]
    rcases List.mem_append.1 hjoin with hjoin | hjoin
    · exact (ih hjoin).imp_right .inl
    · rw [List.mem_singleton.1 hjoin]
      exact hsource.imp_right .inl

/-- The joins of a set of links, all of them on chains of the request. -/
structure JoinsOf (r : Resolver) (links : String × ChainEdge → Prop)
    (joins : List ResolvedJoin) : Prop where
  on_chain : ∀ link, links link → ∃ f chain, r.HasChain f chain ∧ link ∈ chain
  mem_iff : ∀ join, join ∈ joins ↔ ∃ link, links link ∧ join = r.linkJoin link
  well_scoped : Scoped (aliasFor r.metric.entity) joins

theorem JoinsOf.congr {links links' : String × ChainEdge → Prop} {joins : List ResolvedJoin}
    (h : r.JoinsOf links joins) (heq : ∀ link, links link ↔ links' link) :
    r.JoinsOf links' joins := by
  have : links = links' := funext fun link => propext (heq link)
  exact this ▸ h

theorem JoinsOf.nil : r.JoinsOf (r.ChainLinks []) [] :=
  ⟨fun _ ⟨_, hf, _⟩ => absurd hf (by simp), by simp [ChainLinks], .nil⟩

/-- A cached join belongs to the link into its entity. -/
theorem JoinsOf.of_lookup {links : String × ChainEdge → Prop} {joins : List ResolvedJoin}
    (h : r.JoinsOf links joins) {entity : String} {join : ResolvedJoin}
    (hlookup : lookupJoin joins entity = some join) :
    ∃ link, links link ∧ join = r.linkJoin link ∧ link.2.targetEntityInChain = entity := by
  obtain ⟨link, hlink, rfl⟩ := (h.mem_iff join).1 (List.mem_of_find?_eq_some hlookup)
  have hentity := List.find?_some hlookup
  exact ⟨link, hlink, rfl, of_decide_eq_true hentity⟩

theorem JoinsOf.exists_lookup {links : String × ChainEdge → Prop} {joins : List ResolvedJoin}
    (h : r.JoinsOf links joins) {link : String × ChainEdge} (hlink : links link) :
    ∃ join, lookupJoin joins link.2.targetEntityInChain = some join := by
  cases hlookup : lookupJoin joins link.2.targetEntityInChain with
  | some join => exact ⟨join, rfl⟩
  | none =>
    have hmem := (h.mem_iff _).2 ⟨link, hlink, rfl⟩
    exact absurd (List.find?_eq_none.1 hlookup _ hmem) (by simp [linkJoin])

/-- The left alias of the next link: the alias of the entity it leaves. -/
theorem JoinsOf.sourceAliasOf {links : String × ChainEdge → Prop} {joins : List ResolvedJoin}
    (h : r.JoinsOf links joins) {f : String} {p s : List (String × ChainEdge)}
    {link : String × ChainEdge} (hchain : r.HasChain f (p ++ link :: s))
    (hp : ∀ l ∈ p, links l) :
    r.sourceAliasOf joins link.1 = .ok (aliasFor link.1) ∧
      (aliasFor link.1 = aliasFor r.metric.entity ∨
        aliasFor link.1 ∈ joins.map (·.targetAlias)) := by
  unfold Resolver.sourceAliasOf
  rcases hchain.2.predecessor hchain.1 with ⟨-, hanchor⟩ | ⟨q, prev, rfl, hprev⟩
  · rw [if_pos hanchor, hanchor]
    exact ⟨rfl, .inl rfl⟩
  · have hprev_links : links prev := hp prev (by simp)
    obtain ⟨join, hlookup⟩ := h.exists_lookup hprev_links
    obtain ⟨link', -, rfl, hentity⟩ := h.of_lookup hlookup
    rw [← hprev] at hlookup hentity
    split
    · next hanchor => exact ⟨by rw [hanchor], .inl (by rw [hanchor])⟩
    · rw [hlookup]
      refine ⟨by simp only [linkJoin, hentity], .inr ?_⟩
      have hmem := List.mem_map_of_mem (f := (·.targetAlias)) (List.mem_of_find?_eq_some hlookup)
      simpa only [linkJoin, hentity] using hmem

/-- One more link of a chain. -/
theorem JoinsOf.addLink {links : String × ChainEdge → Prop} {joins : List ResolvedJoin}
    (h : r.JoinsOf links joins) {f : String} {p s : List (String × ChainEdge)}
    {link : String × ChainEdge} (hchain : r.HasChain f (p ++ link :: s))
    (hp : ∀ l ∈ p, links l) :
    ∃ joins', r.addLink joins link = .ok joins' ∧
      r.JoinsOf (fun l => links l ∨ l = link) joins' := by
  have hmem : link ∈ p ++ link :: s := List.mem_append_right _ List.mem_cons_self
  unfold Resolver.addLink
  cases hlookup : lookupJoin joins link.2.targetEntityInChain with
  | some join =>
    refine ⟨joins, rfl, h.congr fun l => ⟨.inl, ?_⟩⟩
    rintro (hl | rfl)
    · exact hl
    · obtain ⟨link', hlinks, -, hentity⟩ := h.of_lookup hlookup
      obtain ⟨f', chain', hchain', hlink'⟩ := h.on_chain link' hlinks
      exact hchain.link_eq hchain' hmem hlink' hentity.symm ▸ hlinks
  | none =>
    obtain ⟨e, he⟩ := hchain.exists_entity hmem
    have htable : lookupAnchorTable r.store link.2.targetEntityInChain =
        .ok (r.tableOf link.2.targetEntityInChain) :=
      lookupAnchorTable_eq_ok.2 ⟨e, he, (tableOf_eq he).symm⟩
    obtain ⟨hsource, hscope⟩ := h.sourceAliasOf hchain hp
    refine ⟨joins ++ [r.linkJoin link], ?_, ?_, ?_, ?_⟩
    · simp only [htable, hsource, bind, Except.bind, pure, Except.pure, linkJoin]
    · rintro l (hl | rfl)
      · exact h.on_chain l hl
      · exact ⟨f, _, hchain, hmem⟩
    · intro join
      rw [List.mem_append, List.mem_singleton, h.mem_iff]
      constructor
      · rintro (⟨l, hl, rfl⟩ | rfl)
        · exact ⟨l, .inl hl, rfl⟩
        · exact ⟨link, .inr rfl, rfl⟩
      · rintro ⟨l, hl | rfl, rfl⟩
        · exact .inl ⟨l, hl, rfl⟩
        · exact .inr rfl
    · refine .snoc h.well_scoped hscope (hchain.2.target_ne hchain.1 hmem) ?_
      intro hold
      obtain ⟨join, hjoin, heq⟩ := List.mem_map.1 hold
      obtain ⟨l, -, rfl⟩ := (h.mem_iff join).1 hjoin
      exact List.find?_eq_none.1 hlookup _ hjoin (decide_eq_true heq)

/-- The rest of a chain. -/
theorem JoinsOf.addLinks {links : String × ChainEdge → Prop} {joins : List ResolvedJoin}
    (h : r.JoinsOf links joins) {f : String} {p s : List (String × ChainEdge)}
    (hchain : r.HasChain f (p ++ s)) (hp : ∀ l ∈ p, links l) :
    ∃ joins', s.foldlM r.addLink joins = .ok joins' ∧
      r.JoinsOf (fun l => links l ∨ l ∈ s) joins' := by
  induction s generalizing p links joins with
  | nil => exact ⟨joins, rfl, h.congr (by simp)⟩
  | cons link s ih =>
    obtain ⟨joins₁, hadd, h₁⟩ := h.addLink hchain hp
    have hchain₁ : r.HasChain f ((p ++ [link]) ++ s) := by
      rwa [List.append_assoc, List.singleton_append]
    obtain ⟨joins₂, hrest, h₂⟩ := ih h₁ hchain₁ (by
      intro l hl
      rw [List.mem_append, List.mem_singleton] at hl
      exact hl.imp_left (hp l))
    refine ⟨joins₂, ?_, h₂.congr fun l => ?_⟩
    · rw [List.foldlM_cons, hadd]
      exact hrest
    · rw [List.mem_cons, or_assoc]

/-! ## One reference -/

/-- An entity is the anchor, or on a chain to one of the entities. -/
def Reached (r : Resolver) (entities : List String) (entity : String) : Prop :=
  entity = r.metric.entity ∨
    ∃ link, r.ChainLinks entities link ∧ link.2.targetEntityInChain = entity

theorem chainLinks_cons {e : String} {entities : List String} {link : String × ChainEdge} :
    r.ChainLinks (e :: entities) link ↔
      (∃ chain, r.HasChain e chain ∧ link ∈ chain) ∨ r.ChainLinks entities link := by
  simp [ChainLinks]

/-- A chain to an entity that is joined already brings nothing new. -/
theorem chainLinks_of_joined {e : String} {entities : List String}
    (h : ∃ link, r.ChainLinks entities link ∧ link.2.targetEntityInChain = e)
    (link : String × ChainEdge) :
    r.ChainLinks entities link ↔ r.ChainLinks (e :: entities) link := by
  rw [chainLinks_cons, or_iff_right_of_imp]
  rintro ⟨chain, hchain, hmem⟩
  obtain ⟨link', ⟨f, hf, chain', hchain', hlink'⟩, hentity⟩ := h
  exact ⟨f, hf, chain', hchain', hchain.subset hchain' hlink' hentity link hmem⟩

theorem chainLinks_anchor {entities : List String} (link : String × ChainEdge) :
    r.ChainLinks entities link ↔ r.ChainLinks (r.metric.entity :: entities) link := by
  rw [chainLinks_cons, or_iff_right_of_imp]
  rintro ⟨chain, hchain, -⟩
  exact absurd rfl hchain.1

section Column

variable {entities : List String} {joins : List ResolvedJoin} {columnRef : String}
  {kind : ColumnValidationKind}

/-- What a resolved reference says. -/
structure Resolved (r : Resolver) (entities : List String) (columnRef : String)
    (col : ResolvedColumn) (joins' : List ResolvedJoin) : Prop where
  ref_ok : r.RefOk columnRef
  reached : r.Reached (refEntity columnRef :: entities) (refEntity columnRef)
  joins_of : r.JoinsOf (r.ChainLinks (refEntity columnRef :: entities)) joins'
  column_eq : col = r.columnAt columnRef

/-- A reference that resolves names an existing column of a reached entity. -/
theorem resolveColumn_ok (hr : r.Anchored) (hjoins : r.JoinsOf (r.ChainLinks entities) joins)
    {col : ResolvedColumn} {joins' : List ResolvedJoin}
    (h : r.resolveColumn joins columnRef kind = .ok (col, joins')) :
    r.Resolved entities columnRef col joins' := by
  unfold resolveColumn at h
  split at h
  · simp at h
  · next entity column hparse =>
    have hsplit := (parseQualifiedColumn_spec hparse).1
    have hentity : refEntity columnRef = entity := by rw [refEntity, hsplit]
    have hcolumn : r.columnAt columnRef = ⟨entity, column, r.tableOf entity, aliasFor entity⟩ := by
      rw [columnAt, hentity, hsplit]
    -- the column is checked on the table of a stored entity in every branch
    have hrefOk : ∀ {e : Entity}, r.store.getEntity entity = some e →
        validateColumnOnTable r.store entity column (r.tableOf entity) kind = .ok () →
        r.RefOk columnRef :=
      fun he hvalid => ⟨(entity, column), hparse, (validate_iff he).1 hvalid⟩
    split at h
    · next hanchor =>
      subst hanchor
      obtain ⟨⟨⟩, hvalid, h⟩ := bind_eq_ok h
      obtain ⟨rfl, rfl⟩ := Prod.mk.inj (Except.ok.inj h)
      obtain ⟨e, he, -⟩ := lookupAnchorTable_eq_ok.1 hr
      rw [← hr.tableOf] at hvalid
      refine ⟨hrefOk he hvalid, .inl hentity, ?_, ?_⟩
      · rw [hentity]
        exact hjoins.congr chainLinks_anchor
      · rw [hcolumn, hr.tableOf]
    · next hne =>
      split at h
      · next join hlookup =>
        obtain ⟨⟨⟩, hvalid, h⟩ := bind_eq_ok h
        obtain ⟨rfl, rfl⟩ := Prod.mk.inj (Except.ok.inj h)
        obtain ⟨link, hlink, rfl, htarget⟩ := hjoins.of_lookup hlookup
        have hjoined : ∃ link, r.ChainLinks entities link ∧
            link.2.targetEntityInChain = entity := ⟨link, hlink, htarget⟩
        obtain ⟨f, hf, chain, hchain, hmem⟩ := id hlink
        obtain ⟨e, he⟩ := hchain.exists_entity hmem
        rw [htarget] at he
        simp only [linkJoin, htarget] at hvalid
        refine ⟨hrefOk he hvalid, .inr ?_, ?_, ?_⟩
        · rw [hentity]
          exact ⟨link, (chainLinks_of_joined hjoined link).1 hlink, htarget⟩
        · rw [hentity]
          exact hjoins.congr (chainLinks_of_joined hjoined)
        · rw [hcolumn, linkJoin, htarget]
      · split at h
        · simp at h
        · next q hoptional =>
          obtain ⟨⟨chain, consumed⟩, hfind, h⟩ := bind_eq_ok h
          obtain ⟨joins₁, hadd, h⟩ := bind_eq_ok h
          have hchain : r.HasChain entity chain := ⟨Ne.symm hne, consumed, hfind⟩
          obtain ⟨joins₂, hadd', hjoins₂⟩ := hjoins.addLinks (p := []) hchain (by simp)
          rw [hadd] at hadd'
          obtain rfl := Except.ok.inj hadd'
          have hjoins₁ : r.JoinsOf (r.ChainLinks (entity :: entities)) joins₁ := by
            refine hjoins₂.congr fun link => ?_
            rw [chainLinks_cons, or_comm]
            refine or_congr_left ⟨fun hl => ⟨chain, hchain, hl⟩, ?_⟩
            rintro ⟨chain', hchain', hl⟩
            exact hchain'.2.unique hchain.2 ▸ hl
          split at h
          · simp at h
          · next join hlookup =>
            obtain ⟨⟨⟩, hvalid, h⟩ := bind_eq_ok h
            obtain ⟨rfl, rfl⟩ := Prod.mk.inj (Except.ok.inj h)
            obtain ⟨link, hlink, rfl, htarget⟩ := hjoins₁.of_lookup hlookup
            obtain ⟨f, -, chain', hchain', hmem⟩ := id hlink
            obtain ⟨e, he⟩ := hchain'.exists_entity hmem
            rw [htarget] at he
            simp only [linkJoin, htarget] at hvalid
            refine ⟨hrefOk he hvalid, .inr ?_, ?_, ?_⟩
            · rw [hentity]
              exact ⟨link, hlink, htarget⟩
            · rw [hentity]
              exact hjoins₁
            · rw [hcolumn, linkJoin, htarget]

/-- A reference to an existing column of a reached entity resolves. -/
theorem exists_resolveColumn (hr : r.Anchored)
    (hjoins : r.JoinsOf (r.ChainLinks entities) joins) (hok : r.RefOk columnRef)
    (hreached : r.Reached (refEntity columnRef :: entities) (refEntity columnRef)) :
    ∃ col joins', r.resolveColumn joins columnRef kind = .ok (col, joins') := by
  obtain ⟨⟨entity, column⟩, hparse, hexists⟩ := hok
  have hentity : refEntity columnRef = entity := by
    rw [refEntity, (parseQualifiedColumn_spec hparse).1]
  rw [hentity] at hreached
  obtain ⟨e, t, he, -⟩ := id hexists
  have hvalid : validateColumnOnTable r.store entity column (r.tableOf entity) kind = .ok () :=
    (validate_iff he).2 hexists
  unfold resolveColumn
  simp only [hparse]
  by_cases hanchor : entity = r.metric.entity
  · rw [if_pos hanchor]
    rw [hanchor, hr.tableOf, ← hanchor] at hvalid
    exact ⟨_, _, by rw [hvalid]; rfl⟩
  · rw [if_neg hanchor]
    have hjoinTable : ∀ {links : String × ChainEdge → Prop} {js : List ResolvedJoin}
        {join : ResolvedJoin}, r.JoinsOf links js → lookupJoin js entity = some join →
        validateColumnOnTable r.store entity column join.targetTable kind = .ok () := by
      intro links js join hjs hlookup
      obtain ⟨link, -, rfl, htarget⟩ := hjs.of_lookup hlookup
      simpa only [linkJoin, htarget] using hvalid
    cases hlookup : lookupJoin joins entity with
    | some join => exact ⟨_, _, by simp only [hjoinTable hjoins hlookup]; rfl⟩
    | none =>
      -- no chain resolved so far passes the entity, so its own chain exists
      obtain ⟨link, hlink, htarget⟩ := hreached.resolve_left hanchor
      rcases chainLinks_cons.1 hlink with ⟨chain, hchain, hmem⟩ | hlink
      · obtain ⟨consumed, hfind⟩ := hchain.2
        obtain ⟨joins₁, hadd, hjoins₁⟩ := hjoins.addLinks (p := []) hchain (by simp)
        obtain ⟨join, hlookup₁⟩ := hjoins₁.exists_lookup (.inr hmem)
        rw [htarget] at hlookup₁
        refine ⟨⟨entity, column, join.targetTable, join.targetAlias⟩, joins₁, ?_⟩
        simp only [lookupOptionalTable, he, Option.map_some, hfind, hadd, hlookup₁,
          hjoinTable hjoins₁ hlookup₁, bind, Except.bind]
        rfl
      · obtain ⟨join, hjoin⟩ := hjoins.exists_lookup hlink
        rw [htarget, hlookup] at hjoin
        simp at hjoin

end Column

end Resolver

end SchemaBrain.Semantic
