import Mathlib.Data.List.Forall2
import SchemaBrain.Base.ShortestPaths
import SchemaBrain.Semantic.Plan

/-!
# The canonical-join graph and its chains

The undirected graph of canonical joins, its shortest structural paths under `via`, and
the chain of joins to one entity. Chains to different entities agree up to any entity
that both enter.
-/

namespace SchemaBrain.Semantic

open Base Core

/-- One way to leave an entity along a canonical join. -/
structure GraphEntry where
  neighbor : String
  join : CanonicalJoin
  onPairs : List JoinColumnPair
  isReverseTraversal : Bool
  deriving DecidableEq

/-- The adjacency lists, by entity. -/
abbrev JoinGraph := List (String × List GraphEntry)

/-- `graph.get(entity, [])`. -/
def JoinGraph.get (graph : JoinGraph) (entity : String) : List GraphEntry :=
  ((List.find? (·.1 = entity) graph).map (·.2)).getD []

/-- `entity in graph`. -/
def JoinGraph.has (graph : JoinGraph) (entity : String) : Bool :=
  List.any graph (·.1 = entity)

/-- The two entries of one join, each under the entity it leaves. -/
def joinEntries (join : CanonicalJoin) : List (String × GraphEntry) :=
  [(join.sourceEntity, ⟨join.targetEntity, join, join.on, false⟩),
    (join.targetEntity, ⟨join.sourceEntity, join, join.on.map (·.swap), true⟩)]

/-- The adjacency list of one entity, ordered by join name. -/
def entriesAt (edges : List CanonicalJoin) (entity : String) : List GraphEntry :=
  (((edges.flatMap joinEntries).filter (·.1 = entity)).map (·.2)).insertionSort
    (·.join.name ≤ ·.join.name)

/-- `_build_join_graph`. -/
def buildJoinGraph (edges : List CanonicalJoin) : JoinGraph :=
  ((edges.flatMap joinEntries).map (·.1)).eraseDups.map fun entity =>
    (entity, entriesAt edges entity)

/-- The neighbours of an entity, each once and sorted. -/
def neighborEntities (graph : JoinGraph) (entity : String) : List String :=
  pySorted ((graph.get entity).map (·.neighbor)).eraseDups

/-- A structural path: its entity pairs. -/
abbrev StructuralPath := List (String × String)

/-- `_structural_shortest_paths`. -/
def structuralShortestPaths (graph : JoinGraph) (anchor target : String) (maxHops : Nat := 6) :
    List StructuralPath :=
  layeredSearch (neighborEntities graph) target maxHops [(anchor, [])] [anchor]

/-- The entries that walk one entity pair. -/
def hopEntries (graph : JoinGraph) (hop : String × String) : List GraphEntry :=
  (graph.get hop.1).filter (·.neighbor = hop.2)

/-- `_canonicals_on_structural_path`. -/
def canonicalsOnStructuralPath (graph : JoinGraph) (path : StructuralPath) :
    List CanonicalJoin :=
  path.flatMap fun hop => (hopEntries graph hop).map (·.join)

/-- `via.issubset(...)`: every name of `via` is on some hop of the path. -/
def viaFeasible (graph : JoinGraph) (via : List String) (path : StructuralPath) : Bool :=
  via.all (· ∈ (canonicalsOnStructuralPath graph path).map (·.name))

/-- `_filter_structural_paths_by_via`. -/
def filterStructuralPathsByVia (graph : JoinGraph) (via : List String)
    (paths : List StructuralPath) : List StructuralPath :=
  if via = [] then paths else paths.filter (viaFeasible graph via)

/-- `repr` of an entity pair inside an invariant violation. -/
private def reprHop (hop : String × String) : String :=
  "(" ++ pyRepr hop.1 ++ ", " ++ pyRepr hop.2 ++ ")"

/-- `_render_structural_path_as_canonical_sequence`. -/
def renderStructuralPath (graph : JoinGraph) (path : StructuralPath) :
    Except CompilerError (List String) :=
  path.mapM fun hop =>
    match pySorted ((hopEntries graph hop).map (·.join.name)) with
    | name :: _ => .ok name
    | [] => .error (.internal ("compiler invariant violation: structural path hop " ++
        reprHop hop ++ " has zero canonical joins while rendering AmbiguousPathError " ++
        "candidate. This is a compiler bug."))

/-- `_ChainEdge`. -/
structure ChainEdge where
  join : CanonicalJoin
  targetEntityInChain : String
  onPairsInChainDirection : List JoinColumnPair
  isReverseTraversal : Bool
  deriving DecidableEq

/-- An entry as the edge of a chain. -/
def GraphEntry.toChainEdge (entry : GraphEntry) : ChainEdge :=
  ⟨entry.join, entry.neighbor, entry.onPairs, entry.isReverseTraversal⟩

/-- The canonical join of one hop: the only one, or the only one that `via` names. -/
def resolveHop (graph : JoinGraph) (via : List String) (hop : String × String) :
    Except CompilerError (String × ChainEdge) :=
  match hopEntries graph hop with
  | [] => .error (.internal ("compiler invariant violation: structural path hop " ++
      reprHop hop ++ " resolved to zero canonical joins in pass 2 — graph-path consistency " ++
      "is broken. This is a compiler bug."))
  | [entry] => .ok (hop.1, entry.toChainEdge)
  | candidates =>
    match candidates.filter (·.join.name ∈ via) with
    | [] => .error (.ambiguousJoin hop.1 hop.2 (pySorted (candidates.map (·.join.name))))
    | [entry] => .ok (hop.1, entry.toChainEdge)
    | matching => .error (.ambiguousJoin hop.1 hop.2 (pySorted (matching.map (·.join.name))))

/-- `_find_canonical_chain`: the ordered hops, and the `via` names that they carry. -/
def findCanonicalChain (graph : JoinGraph) (anchor target : String) (via : List String) :
    Except CompilerError (List (String × ChainEdge) × List String) :=
  if graph.has anchor && graph.has target then
    match structuralShortestPaths graph anchor target with
    | [] => .error (.unreachableEntity anchor target)
    | structuralPaths =>
      match filterStructuralPathsByVia graph via structuralPaths with
      | [] => .error (.unknownViaJoin anchor target (pySorted via.eraseDups)
          (pySorted ((structuralPaths.flatMap fun path =>
            (canonicalsOnStructuralPath graph path).map (·.name)).eraseDups)))
      | [path] => do
        let chain ← path.mapM (resolveHop graph via)
        return (chain, (chain.map (·.2.join.name)).filter (· ∈ via))
      | paths => do
        let candidatePaths ← paths.mapM (renderStructuralPath graph)
        .error (.ambiguousPath anchor target candidatePaths)
  else .error (.unreachableEntity anchor target)

/-! ## The graph -/

private theorem find_map_key {l : List String} {f : String → List GraphEntry} {entity : String}
    (h : entity ∈ l) :
    (l.map fun e => (e, f e)).find? (·.1 = entity) = some (entity, f entity) := by
  induction l with
  | nil => simp at h
  | cons e l ih =>
    rw [List.map_cons, List.find?_cons]
    by_cases heq : e = entity
    · simp [heq]
    · simp only [heq, decide_false]
      exact ih (by simpa [Ne.symm heq] using h)

/-- The list of an entity holds its entries, and there are none where it has no list. -/
theorem get_buildJoinGraph (edges : List CanonicalJoin) (entity : String) :
    (buildJoinGraph edges).get entity = entriesAt edges entity := by
  rw [JoinGraph.get, buildJoinGraph]
  by_cases hkey : entity ∈ ((edges.flatMap joinEntries).map (·.1)).eraseDups
  · rw [find_map_key hkey]
    rfl
  · have hnone : List.find? (fun p : String × List GraphEntry => decide (p.1 = entity))
        (((edges.flatMap joinEntries).map (·.1)).eraseDups.map fun e =>
          (e, entriesAt edges e)) = none := by
      rw [List.find?_eq_none]
      intro p hp hp'
      obtain ⟨e, he, rfl⟩ := List.mem_map.1 hp
      exact hkey (of_decide_eq_true hp' ▸ he)
    have hempty : (edges.flatMap joinEntries).filter (·.1 = entity) = [] := by
      rw [List.filter_eq_nil_iff]
      intro e he heq
      exact hkey (List.mem_eraseDups.2 (List.mem_map.2 ⟨e, he, of_decide_eq_true heq⟩))
    rw [hnone, entriesAt, hempty]
    rfl

/-- The entries of an entity are those of its joins. -/
theorem mem_get_buildJoinGraph {edges : List CanonicalJoin} {entity : String}
    {entry : GraphEntry} :
    entry ∈ (buildJoinGraph edges).get entity ↔
      ∃ j ∈ edges, (entity, entry) ∈ joinEntries j := by
  rw [get_buildJoinGraph, entriesAt, (List.perm_insertionSort _ _).mem_iff]
  simp only [List.mem_map, List.mem_filter, List.mem_flatMap, decide_eq_true_eq, Prod.exists,
    exists_eq_right]

/-- The join of an entry, the entry's two ends, and how it reads the join's pairs. -/
theorem entry_spec {edges : List CanonicalJoin} {entity : String} {entry : GraphEntry}
    (h : entry ∈ (buildJoinGraph edges).get entity) :
    entry.join ∈ edges ∧
      ((entry.isReverseTraversal = false ∧ entity = entry.join.sourceEntity ∧
          entry.neighbor = entry.join.targetEntity ∧ entry.onPairs = entry.join.on) ∨
        (entry.isReverseTraversal = true ∧ entity = entry.join.targetEntity ∧
          entry.neighbor = entry.join.sourceEntity ∧
          entry.onPairs = entry.join.on.map (·.swap))) := by
  obtain ⟨j, hj, hmem⟩ := mem_get_buildJoinGraph.1 h
  simp only [joinEntries, List.mem_cons, Prod.mk.injEq, List.not_mem_nil, or_false] at hmem
  rcases hmem with ⟨rfl, rfl⟩ | ⟨rfl, rfl⟩
  · exact ⟨hj, .inl ⟨rfl, rfl, rfl, rfl⟩⟩
  · exact ⟨hj, .inr ⟨rfl, rfl, rfl, rfl⟩⟩

/-- A neighbour is an entity that some entry leads to. -/
theorem mem_neighborEntities {graph : JoinGraph} {entity v : String} :
    v ∈ neighborEntities graph entity ↔ ∃ entry ∈ graph.get entity, entry.neighbor = v := by
  rw [neighborEntities, pySorted, (List.perm_insertionSort _ _).mem_iff, List.mem_eraseDups,
    List.mem_map]

/-- An entity that an entry leads to has a list of its own. -/
theorem neighbor_mem_keys {edges : List CanonicalJoin} {entity : String} {entry : GraphEntry}
    (h : entry ∈ (buildJoinGraph edges).get entity) :
    entry.neighbor ∈ (buildJoinGraph edges).map (·.1) := by
  obtain ⟨hj, hends⟩ := entry_spec h
  have hkey : ∀ e ∈ joinEntries entry.join, e.1 ∈ (buildJoinGraph edges).map (·.1) := by
    intro e he
    simp only [buildJoinGraph, List.map_map, Function.comp_def, List.map_id', List.mem_eraseDups]
    exact List.mem_map_of_mem (List.mem_flatMap.2 ⟨entry.join, hj, he⟩)
  rcases hends with ⟨-, -, hneighbor, -⟩ | ⟨-, -, hneighbor, -⟩
  · exact hneighbor ▸ hkey (_, _) (List.mem_cons_of_mem _ List.mem_cons_self)
  · exact hneighbor ▸ hkey (_, _) List.mem_cons_self

/-- The ends of a walk with an edge have adjacency lists. -/
theorem has_ends {edges : List CanonicalJoin} {anchor target : String} {path : StructuralPath}
    (h : Walk (neighborEntities (buildJoinGraph edges)) anchor target path)
    (hne : anchor ≠ target) :
    (buildJoinGraph edges).has anchor = true ∧ (buildJoinGraph edges).has target = true := by
  have hkey : ∀ {entity : String}, entity ∈ (buildJoinGraph edges).map (·.1) →
      (buildJoinGraph edges).has entity = true := by
    intro entity hmem
    obtain ⟨p, hp, rfl⟩ := List.mem_map.1 hmem
    exact List.any_eq_true.2 ⟨p, hp, decide_eq_true rfl⟩
  constructor
  · cases path with
    | nil => exact absurd h.eq_of_nil.symm hne
    | cons hop rest =>
      obtain ⟨hwalk, hnext⟩ := h.of_edge (p := [])
      rw [hwalk.eq_of_nil] at hnext
      obtain ⟨entry, hentry, -⟩ := mem_neighborEntities.1 hnext
      -- the list that the entry is in is not the default one
      by_contra hno
      have hnone : List.find? (·.1 = anchor) (buildJoinGraph edges) = none := by
        rw [List.find?_eq_none]
        exact fun p hp hp' => hno (List.any_eq_true.2 ⟨p, hp, hp'⟩)
      rw [JoinGraph.get, hnone] at hentry
      simp at hentry
  · rcases List.eq_nil_or_concat' path with rfl | ⟨q, last, rfl⟩
    · exact absurd h.eq_of_nil.symm hne
    · obtain ⟨hlast, -, hnext⟩ := h.of_concat
      obtain ⟨entry, hentry, hneighbor⟩ := mem_neighborEntities.1 hnext
      rw [hlast, ← hneighbor]
      exact hkey (neighbor_mem_keys hentry)

/-- The entries of one entity are told apart by their join names. -/
theorem entry_eq_of_name {edges : List CanonicalJoin}
    (hnames : ∀ j ∈ edges, ∀ j' ∈ edges, j.name = j'.name → j = j') {entity : String}
    {entry entry' : GraphEntry} (h : entry ∈ (buildJoinGraph edges).get entity)
    (h' : entry' ∈ (buildJoinGraph edges).get entity)
    (hname : entry.join.name = entry'.join.name) : entry = entry' := by
  obtain ⟨j, hj, hmem⟩ := mem_get_buildJoinGraph.1 h
  obtain ⟨j', hj', hmem'⟩ := mem_get_buildJoinGraph.1 h'
  simp only [joinEntries, List.mem_cons, Prod.mk.injEq, List.not_mem_nil, or_false] at hmem hmem'
  rcases hmem with ⟨hfrom, rfl⟩ | ⟨hfrom, rfl⟩ <;>
    rcases hmem' with ⟨hfrom', rfl⟩ | ⟨hfrom', rfl⟩ <;>
    obtain rfl := hnames _ hj _ hj' hname
  · rfl
  · exact absurd (hfrom.symm.trans hfrom') j.no_self
  · exact absurd (hfrom'.symm.trans hfrom) j.no_self
  · rfl

/-! ## Walks along entries -/

/-- A walk from `anchor` along entries of the graph, each with the entity it leaves. -/
inductive EntryWalk (graph : JoinGraph) (anchor : String) :
    String → List (String × GraphEntry) → Prop
  | nil : EntryWalk graph anchor anchor []
  | snoc {entity : String} {walk : List (String × GraphEntry)} {entry : GraphEntry}
      (h : EntryWalk graph anchor entity walk) (hentry : entry ∈ graph.get entity) :
      EntryWalk graph anchor entry.neighbor (walk ++ [(entity, entry)])

/-- A walk determines its end. -/
theorem EntryWalk.end_unique {graph : JoinGraph} {anchor x y : String}
    {walk : List (String × GraphEntry)} (hx : EntryWalk graph anchor x walk)
    (hy : EntryWalk graph anchor y walk) : x = y := by
  cases hx with
  | nil =>
    generalize hnil : ([] : List (String × GraphEntry)) = w at hy
    cases hy with
    | nil => rfl
    | snoc => simp at hnil
  | @snoc entity walk entry hwalk hentry =>
    generalize hcons : walk ++ [(entity, entry)] = w at hy
    cases hy with
    | nil => simp at hcons
    | snoc _ _ =>
      obtain ⟨-, hlast⟩ := List.append_inj' hcons rfl
      simp only [List.cons.injEq, Prod.mk.injEq, and_true] at hlast
      rw [hlast.2]

/-- Walks from one entity along joins of the same names are one walk. -/
theorem EntryWalk.eq_of_names {edges : List CanonicalJoin}
    (hnames : ∀ j ∈ edges, ∀ j' ∈ edges, j.name = j'.name → j = j') {anchor x y : String}
    {walk walk' : List (String × GraphEntry)}
    (h : EntryWalk (buildJoinGraph edges) anchor x walk)
    (h' : EntryWalk (buildJoinGraph edges) anchor y walk')
    (heq : walk.map (·.2.join.name) = walk'.map (·.2.join.name)) : walk = walk' := by
  induction h generalizing y walk' with
  | nil => simpa using heq.symm
  | @snoc entity walk entry hwalk hentry ih =>
    cases h' with
    | nil => simp at heq
    | @snoc entity' walk' entry' hwalk' hentry' =>
      simp only [List.map_append, List.map_singleton] at heq
      obtain ⟨hinit, hlast⟩ := List.append_inj' heq rfl
      obtain rfl := ih hwalk' hinit
      obtain rfl := hwalk.end_unique hwalk'
      rw [entry_eq_of_name hnames hentry hentry' (by simpa using hlast)]

/-! ## Chains -/

variable {graph : JoinGraph} {via : List String} {anchor target : String}

/-- The hop that `resolveHop` answers is one of the entity pair's entries. -/
theorem resolveHop_spec {hop : String × String} {link : String × ChainEdge}
    (h : resolveHop graph via hop = .ok link) :
    ∃ entry ∈ graph.get hop.1, entry.neighbor = hop.2 ∧ link = (hop.1, entry.toChainEdge) := by
  have hentry : ∃ entry ∈ hopEntries graph hop, link = (hop.1, entry.toChainEdge) := by
    unfold resolveHop at h
    split at h
    · simp at h
    · next entry hcand =>
      exact ⟨entry, by simp [hcand], (Except.ok.inj h).symm⟩
    · next hcand =>
      split at h
      · simp at h
      · next entry hmatch =>
        have hmem : entry ∈ (hopEntries graph hop).filter (·.join.name ∈ via) := by simp [hmatch]
        exact ⟨entry, List.mem_of_mem_filter hmem, (Except.ok.inj h).symm⟩
      · simp at h
  obtain ⟨entry, hmem, rfl⟩ := hentry
  obtain ⟨hmem, hneighbor⟩ := List.mem_filter.1 hmem
  exact ⟨entry, hmem, of_decide_eq_true hneighbor, rfl⟩

/-- The chain that the resolver finds to an entity. -/
def ChainTo (graph : JoinGraph) (via : List String) (anchor target : String)
    (chain : List (String × ChainEdge)) : Prop :=
  ∃ consumed, findCanonicalChain graph anchor target via = .ok (chain, consumed)

/-- There is one chain at most. -/
theorem ChainTo.unique {chain chain' : List (String × ChainEdge)}
    (h : ChainTo graph via anchor target chain) (h' : ChainTo graph via anchor target chain') :
    chain = chain' := by
  obtain ⟨_, h⟩ := h
  obtain ⟨_, h'⟩ := h'
  rw [h] at h'
  exact (Prod.mk.inj (Except.ok.inj h')).1

/-- The shortest paths that satisfy `via`. -/
def Feasible (graph : JoinGraph) (via : List String) (anchor target : String)
    (path : StructuralPath) : Prop :=
  (Shortest (neighborEntities graph) anchor target path ∧ path.length ≤ 6) ∧
    viaFeasible graph via path = true

theorem mem_feasible (hne : anchor ≠ target) (path : StructuralPath) :
    path ∈ filterStructuralPathsByVia graph via (structuralShortestPaths graph anchor target) ↔
      Feasible graph via anchor target path := by
  rw [Feasible, ← mem_layeredSearch hne, filterStructuralPathsByVia, structuralShortestPaths]
  split
  · next hvia => simp [hvia, viaFeasible]
  · exact List.mem_filter

/-- A chain resolves, hop by hop, the only feasible path. -/
theorem ChainTo.exists_path (hne : anchor ≠ target) {chain : List (String × ChainEdge)}
    (h : ChainTo graph via anchor target chain) :
    ∃ path, Feasible graph via anchor target path ∧
      (∀ path', Feasible graph via anchor target path' → path' = path) ∧
      List.Forall₂ (fun hop link => resolveHop graph via hop = .ok link) path chain := by
  obtain ⟨consumed, h⟩ := h
  unfold findCanonicalChain at h
  split at h
  · split at h
    · simp at h
    · split at h
      · simp at h
      · next path hpath =>
        obtain ⟨links, hlinks, h⟩ := bind_eq_ok h
        obtain ⟨rfl, -⟩ := Prod.mk.inj (Except.ok.inj h)
        have hmem : ∀ p, p ∈ [path] ↔ Feasible graph via anchor target p := by
          rw [← hpath]
          exact mem_feasible hne
        simp only [List.mem_singleton] at hmem
        exact ⟨path, (hmem path).1 rfl, fun path' h' => (hmem path').2 h', mapM_eq_ok hlinks⟩
      · next =>
        obtain ⟨paths, -, h⟩ := bind_eq_ok h
        simp at h
  · simp at h

/-- The entity pair of a link. -/
def hopOf (link : String × ChainEdge) : String × String := (link.1, link.2.targetEntityInChain)

private theorem hopOf_eq {hop : String × String} {link : String × ChainEdge}
    (h : resolveHop graph via hop = .ok link) : hopOf link = hop := by
  obtain ⟨entry, -, hneighbor, rfl⟩ := resolveHop_spec h
  rw [hopOf, GraphEntry.toChainEdge, hneighbor]

private theorem map_hopOf {path : StructuralPath} {chain : List (String × ChainEdge)}
    (h : List.Forall₂ (fun hop link => resolveHop graph via hop = .ok link) path chain) :
    chain.map hopOf = path := by
  induction h with
  | nil => rfl
  | cons hhop _ ih => rw [List.map_cons, ih, hopOf_eq hhop]

/-- The entity pairs of a chain are the feasible path. -/
theorem ChainTo.feasible (hne : anchor ≠ target) {chain : List (String × ChainEdge)}
    (h : ChainTo graph via anchor target chain) :
    Feasible graph via anchor target (chain.map hopOf) := by
  obtain ⟨path, hpath, -, hlinks⟩ := h.exists_path hne
  rwa [map_hopOf hlinks]

/-- Every link of a chain answers its own entity pair. -/
theorem ChainTo.resolveHop_link (hne : anchor ≠ target) {chain : List (String × ChainEdge)}
    (h : ChainTo graph via anchor target chain) {link : String × ChainEdge} (hlink : link ∈ chain) :
    resolveHop graph via (hopOf link) = .ok link := by
  obtain ⟨path, -, -, hlinks⟩ := h.exists_path hne
  clear h
  induction hlinks with
  | nil => simp at hlink
  | cons hhop _ ih =>
    rcases List.mem_cons.1 hlink with rfl | hmem
    · exact hopOf_eq hhop ▸ hhop
    · exact ih hmem

/-- The entry behind a link of a chain. -/
theorem ChainTo.exists_entry (hne : anchor ≠ target) {chain : List (String × ChainEdge)}
    (h : ChainTo graph via anchor target chain) {link : String × ChainEdge} (hlink : link ∈ chain) :
    ∃ entry ∈ graph.get link.1, link.2 = entry.toChainEdge := by
  obtain ⟨entry, hentry, -, heq⟩ := resolveHop_spec (h.resolveHop_link hne hlink)
  exact ⟨entry, hentry, by rw [heq]⟩

/-- The entity pairs up to a link are a shortest path to the entity it enters. -/
theorem ChainTo.shortest_through (hne : anchor ≠ target) {p s : List (String × ChainEdge)}
    {link : String × ChainEdge} (h : ChainTo graph via anchor target (p ++ link :: s)) :
    Shortest (neighborEntities graph) anchor link.2.targetEntityInChain
      ((p ++ [link]).map hopOf) := by
  have hshort := (h.feasible hne).1.1
  rw [List.map_append, List.map_cons] at hshort
  rw [List.map_append, List.map_singleton]
  exact Shortest.through_edge hshort

/-- A link leaves the anchor or the entity that the link before it enters. -/
theorem ChainTo.predecessor (hne : anchor ≠ target) {p s : List (String × ChainEdge)}
    {link : String × ChainEdge} (h : ChainTo graph via anchor target (p ++ link :: s)) :
    (p = [] ∧ link.1 = anchor) ∨
      ∃ q prev, p = q ++ [prev] ∧ link.1 = prev.2.targetEntityInChain := by
  have hto := h.shortest_through hne
  rw [List.map_append, List.map_singleton] at hto
  rcases List.eq_nil_or_concat' p with rfl | ⟨q, prev, rfl⟩
  · exact .inl ⟨rfl, hto.1.of_edge.1.eq_of_nil⟩
  · rw [List.append_assoc, List.singleton_append] at h
    exact .inr ⟨q, prev, rfl, hto.1.of_edge.1.end_unique (h.shortest_through hne).1⟩

/-- No link enters the anchor. -/
theorem ChainTo.target_ne (hne : anchor ≠ target) {chain : List (String × ChainEdge)}
    (h : ChainTo graph via anchor target chain) {link : String × ChainEdge}
    (hlink : link ∈ chain) : link.2.targetEntityInChain ≠ anchor := by
  have hnodup := (h.feasible hne).1.1.nodup_targets
  rw [List.nodup_cons, List.map_map] at hnodup
  exact fun heq => hnodup.1 (heq ▸ List.mem_map_of_mem hlink)

/-- A chain ends with a link into its target. -/
theorem ChainTo.exists_last (hne : anchor ≠ target) {chain : List (String × ChainEdge)}
    (h : ChainTo graph via anchor target chain) :
    ∃ p link, chain = p ++ [link] ∧ link.2.targetEntityInChain = target := by
  have hwalk := (h.feasible hne).1.1.1
  rcases List.eq_nil_or_concat' chain with rfl | ⟨p, link, rfl⟩
  · exact absurd hwalk.eq_of_nil hne.symm
  · exact ⟨p, link, rfl, ((h.shortest_through hne).1.end_unique hwalk)⟩

/-- The links up to one of them walk along entries to the entity it enters. -/
theorem ChainTo.entryWalk (hne : anchor ≠ target) {p s : List (String × ChainEdge)}
    {link : String × ChainEdge} (h : ChainTo graph via anchor target (p ++ link :: s)) :
    ∃ walk, EntryWalk graph anchor link.2.targetEntityInChain walk ∧
      p ++ [link] = walk.map fun step => (step.1, step.2.toChainEdge) := by
  induction p using List.reverseRecOn generalizing link s with
  | nil =>
    obtain ⟨entry, hentry, hedge⟩ := h.exists_entry hne List.mem_cons_self
    have hfrom : link.1 = anchor := (h.shortest_through hne).1.of_edge.1.eq_of_nil
    refine ⟨[] ++ [(link.1, entry)], ?_, by simp [← hedge]⟩
    rw [hedge, hfrom]
    exact .snoc .nil (hfrom ▸ hentry)
  | append_singleton p prev ih =>
    obtain ⟨entry, hentry, hedge⟩ := h.exists_entry hne
      (List.mem_append_right _ List.mem_cons_self)
    rcases h.predecessor hne with ⟨hnil, -⟩ | ⟨q, prev', heq, hfrom⟩
    · simp at hnil
    · obtain ⟨rfl, hprev⟩ := List.append_inj' heq rfl
      obtain rfl : prev = prev' := by simpa using hprev
      rw [List.append_assoc, List.singleton_append] at h
      obtain ⟨walk, hwalk, hlinks⟩ := ih h
      refine ⟨walk ++ [(link.1, entry)], ?_, ?_⟩
      · rw [hedge]
        exact .snoc (hfrom ▸ hwalk) hentry
      · rw [hlinks, List.map_append, List.map_singleton, ← hedge]

private theorem links_eq {l l' : List (String × ChainEdge)}
    (h : ∀ link ∈ l, resolveHop graph via (hopOf link) = .ok link)
    (h' : ∀ link ∈ l', resolveHop graph via (hopOf link) = .ok link)
    (hhops : l.map hopOf = l'.map hopOf) : l = l' := by
  induction l generalizing l' with
  | nil => exact (List.map_eq_nil_iff.1 hhops.symm).symm
  | cons link l ih =>
    cases l' with
    | nil => simp at hhops
    | cons link' l' =>
      obtain ⟨hhop, hhops⟩ := List.cons.inj hhops
      have hlink := h link List.mem_cons_self
      rw [hhop, h' link' List.mem_cons_self] at hlink
      rw [Except.ok.inj hlink, ih (fun k hk => h k (List.mem_cons_of_mem _ hk))
        (fun k hk => h' k (List.mem_cons_of_mem _ hk)) hhops]

/-! ## Agreement of chains -/

/-- A join name lies on a path exactly when some hop carries an entry of that name. -/
theorem mem_names_iff {path : StructuralPath} {name : String} :
    name ∈ (canonicalsOnStructuralPath graph path).map (·.name) ↔
      ∃ hop ∈ path, ∃ entry ∈ graph.get hop.1, entry.neighbor = hop.2 ∧
        entry.join.name = name := by
  simp only [canonicalsOnStructuralPath, hopEntries, List.mem_map, List.mem_flatMap,
    List.mem_filter, decide_eq_true_eq]
  constructor
  · rintro ⟨_, ⟨hop, hhop, entry, ⟨hentry, hneighbor⟩, rfl⟩, rfl⟩
    exact ⟨hop, hhop, entry, hentry, hneighbor, rfl⟩
  · rintro ⟨hop, hhop, entry, hentry, hneighbor, rfl⟩
    exact ⟨entry.join, ⟨hop, hhop, entry, ⟨hentry, hneighbor⟩, rfl⟩, rfl⟩

section Agreement

variable {edges : List CanonicalJoin}
  (hnames : ∀ j ∈ edges, ∀ j' ∈ edges, j.name = j'.name → j = j')

include hnames

/-- One join name on two hops: the hops are one entity pair, in one order or the other. -/
private theorem hop_of_shared_name {hop hop' : String × String} {entry entry' : GraphEntry}
    (h : entry ∈ (buildJoinGraph edges).get hop.1) (hneighbor : entry.neighbor = hop.2)
    (h' : entry' ∈ (buildJoinGraph edges).get hop'.1) (hneighbor' : entry'.neighbor = hop'.2)
    (hname : entry.join.name = entry'.join.name) :
    (hop.1 = hop'.1 ∧ hop.2 = hop'.2) ∨ (hop.1 = hop'.2 ∧ hop.2 = hop'.1) := by
  obtain ⟨hj, hends⟩ := entry_spec h
  obtain ⟨hj', hends'⟩ := entry_spec h'
  have hjoin := hnames _ hj _ hj' hname
  rw [hjoin, hneighbor] at hends
  rw [hneighbor'] at hends'
  rcases hends with ⟨-, h1, h2, -⟩ | ⟨-, h1, h2, -⟩ <;>
    rcases hends' with ⟨-, h1', h2', -⟩ | ⟨-, h1', h2', -⟩
  · exact .inl ⟨h1.trans h1'.symm, h2.trans h2'.symm⟩
  · exact .inr ⟨h1.trans h2'.symm, h2.trans h1'.symm⟩
  · exact .inr ⟨h1.trans h2'.symm, h2.trans h1'.symm⟩
  · exact .inl ⟨h1.trans h1'.symm, h2.trans h2'.symm⟩

/-- A name on the part of a shortest path before some entity is not on the part of another
shortest path after it. -/
private theorem name_not_beyond {x f f' : String} {p q p' q' : StructuralPath} {name : String}
    (h : Shortest (neighborEntities (buildJoinGraph edges)) anchor f (p ++ q))
    (hx : Walk (neighborEntities (buildJoinGraph edges)) anchor x p)
    (h' : Shortest (neighborEntities (buildJoinGraph edges)) anchor f' (p' ++ q'))
    (hx' : Walk (neighborEntities (buildJoinGraph edges)) anchor x p')
    (hmem : name ∈ (canonicalsOnStructuralPath (buildJoinGraph edges) p).map (·.name)) :
    name ∉ (canonicalsOnStructuralPath (buildJoinGraph edges) q').map (·.name) := by
  intro hbeyond
  obtain ⟨hop, hhop, entry, hentry, hneighbor, hname⟩ := mem_names_iff.1 hmem
  obtain ⟨hop', hhop', entry', hentry', hneighbor', hname'⟩ := mem_names_iff.1 hbeyond
  have hlen : p.length = p'.length := (h.of_append hx).length_eq (h'.of_append hx')
  obtain ⟨l, r, rfl⟩ := List.append_of_mem hhop
  obtain ⟨l', r', rfl⟩ := List.append_of_mem hhop'
  rw [List.append_assoc, List.cons_append] at h
  rw [← List.append_assoc] at h'
  -- the levels of the two ends of each hop
  have hfrom := h.before_edge
  have hto := h.through_edge
  have hfrom' := h'.before_edge
  have hto' := h'.through_edge
  simp only [List.length_append, List.length_cons] at hlen
  rcases hop_of_shared_name hnames hentry hneighbor hentry' hneighbor'
      (hname.trans hname'.symm) with ⟨h1, -⟩ | ⟨h1, h2⟩
  · rw [h1] at hfrom
    have := hfrom.length_eq hfrom'
    simp only [List.length_append] at this
    omega
  · rw [h1] at hfrom
    rw [h2] at hto
    have hl := hfrom.length_eq hto'
    have hr := hto.length_eq hfrom'
    simp only [List.length_append, List.length_singleton] at hl hr
    omega

/-- Two chains that both enter an entity are one chain up to it. -/
theorem ChainTo.agree {f f' : String} (hne : anchor ≠ f) (hne' : anchor ≠ f')
    {p s p' s' : List (String × ChainEdge)} {link link' : String × ChainEdge}
    (h : ChainTo (buildJoinGraph edges) via anchor f (p ++ link :: s))
    (h' : ChainTo (buildJoinGraph edges) via anchor f' (p' ++ link' :: s'))
    (hentity : link.2.targetEntityInChain = link'.2.targetEntityInChain) :
    p ++ [link] = p' ++ [link'] := by
  obtain ⟨path, ⟨⟨hshort, hlen⟩, hvia⟩, hunique, hlinks⟩ := h.exists_path hne
  obtain ⟨⟨hshort', -⟩, hvia'⟩ := h'.feasible hne'
  -- split both paths behind the shared entity
  have hsplit : path = (p ++ [link]).map hopOf ++ s.map hopOf := by simp [← map_hopOf hlinks]
  have hsplit' : (p' ++ link' :: s').map hopOf = (p' ++ [link']).map hopOf ++ s'.map hopOf := by
    simp
  have hx := h.shortest_through hne
  have hx' := h'.shortest_through hne'
  rw [← hentity] at hx'
  rw [hsplit] at hshort hvia hlen
  rw [hsplit'] at hshort' hvia'
  -- the exchanged path is feasible too, so it is the path
  have hfeasible : Feasible (buildJoinGraph edges) via anchor f
      ((p' ++ [link']).map hopOf ++ s.map hopOf) := by
    refine ⟨⟨hshort.exchange hx.1 hx', ?_⟩, ?_⟩
    · have := hx.length_eq hx'
      simp only [List.length_append] at hlen this ⊢
      omega
    · simp only [viaFeasible, List.all_eq_true, decide_eq_true_eq] at hvia hvia' ⊢
      intro name hname
      have hsome := hvia name hname
      have hsome' := hvia' name hname
      rw [canonicalsOnStructuralPath, List.flatMap_append, List.map_append,
        List.mem_append] at hsome hsome' ⊢
      rcases hsome with hbefore | hafter
      · rcases hsome' with hbefore' | hafter'
        · exact .inl hbefore'
        · exact absurd hafter' (name_not_beyond hnames hshort hx.1 hshort' hx'.1 hbefore)
      · exact .inr hafter
  have hhops := List.append_cancel_right ((hunique _ hfeasible).trans hsplit)
  have hmem : ∀ {q t : List (String × ChainEdge)} {k : String × ChainEdge},
      ∀ l ∈ q ++ [k], l ∈ q ++ k :: t := by
    intro q t k l hl
    rw [List.mem_append, List.mem_singleton] at hl
    rw [List.mem_append, List.mem_cons]
    exact hl.imp_right .inl
  exact (links_eq (fun l hl => h'.resolveHop_link hne' (hmem l hl))
    (fun l hl => h.resolveHop_link hne (hmem l hl)) hhops).symm

end Agreement

/-- Orders of customers. -/
def orderCustomer : CanonicalJoin where
  name := "order_customer"
  sourceEntity := "order"
  targetEntity := "customer"
  on := [{ sourceColumn := "customer_id", targetColumn := "id" }]

/-- Customers of regions. -/
def customerRegion : CanonicalJoin where
  name := "customer_region"
  sourceEntity := "customer"
  targetEntity := "region"
  on := [{ sourceColumn := "region_id", targetColumn := "id" }]

end SchemaBrain.Semantic
