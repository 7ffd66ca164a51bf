import Mathlib.Order.Bounds.Basic
import SchemaBrain.Base.Collections
import SchemaBrain.Semantic.ChainSearch

/-!
# The canonical path of a schema

`longest_canonical_path`: the longest of the shortest paths of the canonical-join graph. Between
two entities the first shortest path stands for all, each hop of it for its parallel joins.
-/

namespace SchemaBrain.Semantic

open Base Core

/-- `CanonicalPath`. -/
structure CanonicalPath where
  nodes : List String
  edges : List String
  deriving DecidableEq

namespace CanonicalPath

/-- `hops`. -/
def hops (path : CanonicalPath) : Nat := path.edges.length

/-- `_EMPTY_PATH`. -/
def empty : CanonicalPath := ⟨[], []⟩

/-- A longer path, or one of the same length that comes first. -/
def beats (candidate best : CanonicalPath) : Bool :=
  best.hops < candidate.hops ∨
    candidate.hops = best.hops ∧ 0 < candidate.hops ∧ candidate.nodes < best.nodes

end CanonicalPath

/-- `_path_from_graph`. -/
def pathFromGraph (graph : JoinGraph) (anchor target : String) :
    Except CompilerError CanonicalPath :=
  if anchor = target ∨ graph.has anchor = false ∨ graph.has target = false then .ok .empty
  else
    match structuralShortestPaths graph anchor target graph.length with
    | [] => .ok .empty
    | [] :: _ => .error (.internal "tuple index out of range")
    | (first :: rest) :: _ => do
      let edges ← renderStructuralPath graph (first :: rest)
      return ⟨first.1 :: (first :: rest).map (·.2), edges⟩

/-- `build_canonical_path`. -/
def buildCanonicalPath (joins : List CanonicalJoin) (anchor target : String) :
    Except CompilerError CanonicalPath :=
  pathFromGraph (buildJoinGraph joins) anchor target

/-- `longest_canonical_path`. -/
def longestCanonicalPath (joins : List CanonicalJoin) : Except CompilerError CanonicalPath :=
  let graph := buildJoinGraph joins
  (pairsInOrder (pySorted (graph.map (·.1)))).foldlM (fun best pair => do
    let candidate ← pathFromGraph graph pair.1 pair.2
    return if candidate.beats best then candidate else best) .empty

/-! ## What the path is -/

section Conditions

variable (joins : List CanonicalJoin) (anchor target : String)

/-- The first one of the shortest paths between two entities. -/
def LeastShortest (hops : StructuralPath) : Prop :=
  Shortest (joinedEntities joins) anchor target hops ∧
    ∀ other, Shortest (joinedEntities joins) anchor target other →
      hops.map Prod.snd ≤ other.map Prod.snd

/-- The first one of the names of the joins of a hop. -/
def FirstName (hop : String × String) (name : String) : Prop :=
  IsLeast {n | ∃ join ∈ parallelJoins joins hop, join.name = n} name

/-- A path shows its entities, and the first join name on each hop. -/
structure Shows (hops : StructuralPath) (path : CanonicalPath) : Prop where
  nodes : path.nodes = anchor :: hops.map Prod.snd
  edges : List.Forall₂ (FirstName joins) hops path.edges

/-- The path is the first one of the longest of the shortest paths between two entities, and the
empty path where no two entities are connected. -/
def IsDiameter (path : CanonicalPath) : Prop :=
  path = .empty ∧ (∀ a b hops, a < b → ¬ Shortest (joinedEntities joins) a b hops) ∨
    ∃ a b hops, a < b ∧ LeastShortest joins a b hops ∧ Shows joins a hops path ∧
      ∀ a' b' hops', a' < b' → LeastShortest joins a' b' hops' →
        hops'.length < hops.length ∨
          hops'.length = hops.length ∧ a :: hops.map Prod.snd ≤ a' :: hops'.map Prod.snd

end Conditions

variable {joins : List CanonicalJoin} {anchor target : String} {hops : StructuralPath}

theorem LeastShortest.unique {hops' : StructuralPath} (h : LeastShortest joins anchor target hops)
    (h' : LeastShortest joins anchor target hops') :
    hops.map Prod.snd = hops'.map Prod.snd :=
  le_antisymm (h.2 hops' h'.1) (h'.2 hops h.1)

theorem shortest_neighborEntities :
    Shortest (neighborEntities (buildJoinGraph joins)) anchor target hops ↔
      Shortest (joinedEntities joins) anchor target hops :=
  shortest_congr fun _ _ => mem_neighborEntities_iff

/-- A shortest path has no more hops than there are entities. -/
theorem length_le_of_shortest
    (h : Shortest (neighborEntities (buildJoinGraph joins)) anchor target hops) :
    hops.length ≤ (buildJoinGraph joins).length := by
  have hkeys : hops.map Prod.snd ⊆ (buildJoinGraph joins).map (·.1) := by
    intro entity hentity
    obtain ⟨⟨x, _⟩, hhop, rfl⟩ := List.mem_map.1 hentity
    obtain ⟨before, after, rfl⟩ := List.append_of_mem hhop
    obtain ⟨entry, hentry, rfl⟩ := mem_neighborEntities.1 h.1.of_edge.2
    exact neighbor_mem_keys hentry
  have hnodup : (hops.map Prod.snd).Nodup := (List.nodup_cons.1 h.nodup_targets).2
  simpa using (List.subperm_of_subset hnodup hkeys).length_le

/-- The names of a hop, sorted, start with the first one. -/
private theorem firstName_of_sorted {hop : String × String} {name : String} {rest : List String}
    (h : pySorted ((hopEntries (buildJoinGraph joins) hop).map (·.join.name)) = name :: rest) :
    FirstName joins hop name := by
  have hmem : ∀ n, n ∈ name :: rest ↔ ∃ join ∈ parallelJoins joins hop, join.name = n := by
    intro n
    rw [← h, mem_pySorted, ((hopEntries_perm hop).map _).mem_iff, List.map_map, List.mem_map]
    simp
  have hsorted : (name :: rest).Pairwise (· ≤ ·) := h ▸ List.pairwise_insertionSort _ _
  refine ⟨(hmem name).1 List.mem_cons_self, fun n hn => ?_⟩
  rcases List.mem_cons.1 ((hmem n).2 hn) with rfl | hrest
  · exact le_rfl
  · exact List.rel_of_pairwise_cons hsorted hrest

/-- The names of a path's hops are the first ones. -/
private theorem firstNames_of_render {names : List String}
    (h : renderStructuralPath (buildJoinGraph joins) hops = .ok names) :
    List.Forall₂ (FirstName joins) hops names := by
  unfold renderStructuralPath at h
  refine (mapM_eq_ok h).imp fun hop name hname => ?_
  split at hname
  · next hsorted =>
    obtain rfl := Except.ok.inj hname
    exact firstName_of_sorted hsorted
  · simp at hname

/-- Every hop of a shortest path has a join. -/
theorem parallelJoins_of_shortest (h : Shortest (joinedEntities joins) anchor target hops)
    {hop : String × String} (hhop : hop ∈ hops) : parallelJoins joins hop ≠ [] := by
  obtain ⟨before, after, rfl⟩ := List.append_of_mem hhop
  obtain ⟨join, hjoin, hend⟩ := List.mem_filterMap.1 h.1.of_edge.2
  exact List.ne_nil_of_mem (mem_parallelJoins.2 ⟨hjoin, hend⟩)

/-- The path between two entities shows the first of the shortest paths, if there is one. -/
theorem pathFromGraph_spec (hne : anchor ≠ target) :
    ∃ path, pathFromGraph (buildJoinGraph joins) anchor target = .ok path ∧
      (path = .empty ∧ (∀ hops, ¬ Shortest (joinedEntities joins) anchor target hops) ∨
        ∃ hops, LeastShortest joins anchor target hops ∧ Shows joins anchor hops path) := by
  have hmem : ∀ hops, hops ∈ structuralShortestPaths (buildJoinGraph joins) anchor target
      (buildJoinGraph joins).length ↔ Shortest (joinedEntities joins) anchor target hops := by
    intro hops
    rw [structuralShortestPaths, mem_layeredSearch hne, ← shortest_neighborEntities]
    exact and_iff_left_of_imp length_le_of_shortest
  unfold pathFromGraph
  split
  · next hends =>
    refine ⟨_, rfl, .inl ⟨rfl, fun hops hhops => ?_⟩⟩
    obtain ⟨hanchor, htarget⟩ := has_ends (shortest_neighborEntities.2 hhops).1 hne
    simp [hne, hanchor, htarget] at hends
  · have hsorted := pairwise_structuralShortestPaths (buildJoinGraph joins) anchor target
      (buildJoinGraph joins).length
    split
    · next hnil =>
      refine ⟨_, rfl, .inl ⟨rfl, fun hops hhops => ?_⟩⟩
      rw [← hmem, hnil] at hhops
      exact List.not_mem_nil hhops
    · next hcons =>
      have hwalk := ((hmem []).1 (hcons ▸ List.mem_cons_self)).1
      exact absurd hwalk.eq_of_nil.symm hne
    · next first rest others hcons =>
      have hshort := (hmem (first :: rest)).1 (hcons ▸ List.mem_cons_self)
      obtain ⟨names, hnames⟩ := exists_renderStructuralPath
        fun hop => parallelJoins_of_shortest hshort
      rw [hnames]
      refine ⟨_, rfl, .inr ⟨first :: rest, ⟨hshort, fun other hother => ?_⟩, ⟨?_,
        firstNames_of_render hnames⟩⟩⟩
      · rw [← hmem, hcons] at hother
        rw [hcons] at hsorted
        rcases List.mem_cons.1 hother with rfl | hlater
        · exact le_rfl
        · exact le_of_lt (List.rel_of_pairwise_cons hsorted hlater)
      · rw [(hshort.1.of_edge (p := [])).1.eq_of_nil]

/-! ## The longest path -/

private theorem beats_irrefl (path : CanonicalPath) : path.beats path = false := by
  simp [CanonicalPath.beats]

private theorem beats_trans (a b c : CanonicalPath) (hab : a.beats b = true)
    (hbc : b.beats c = true) : a.beats c = true := by
  simp only [CanonicalPath.beats, decide_eq_true_eq] at hab hbc ⊢
  rcases hab with hlt | ⟨heq, hpos, hnodes⟩
  · exact .inl (by omega)
  · rcases hbc with hlt' | ⟨heq', -, hnodes'⟩
    · exact .inl (by omega)
    · exact .inr ⟨heq.trans heq', hpos, hnodes.trans hnodes'⟩

/-- The path between two entities, as the loop reads it. -/
private def pathOf (joins : List CanonicalJoin) (pair : String × String) : CanonicalPath :=
  (pathFromGraph (buildJoinGraph joins) pair.1 pair.2).toOption.getD .empty

private theorem pathFromGraph_eq (hne : anchor ≠ target) :
    pathFromGraph (buildJoinGraph joins) anchor target = .ok (pathOf joins (anchor, target)) := by
  obtain ⟨path, hpath, -⟩ := @pathFromGraph_spec joins anchor target hne
  rw [pathOf, hpath]
  rfl

private theorem foldlM_champion {pairs : List (String × String)}
    (hpairs : ∀ pair ∈ pairs, pair.1 ≠ pair.2) (best : CanonicalPath) :
    pairs.foldlM (fun best pair => do
        let candidate ← pathFromGraph (buildJoinGraph joins) pair.1 pair.2
        return if candidate.beats best then candidate else best) best =
      .ok (champion CanonicalPath.beats (pairs.map (pathOf joins)) best) := by
  induction pairs generalizing best with
  | nil => rfl
  | cons pair pairs ih =>
    obtain ⟨hpair, hrest⟩ := List.forall_mem_cons.1 hpairs
    rw [List.foldlM_cons, pathFromGraph_eq hpair, List.map_cons, champion_cons]
    exact ih hrest _

/-- The entities of a shortest path with a hop are keys of the graph. -/
private theorem mem_keys_of_shortest (hne : anchor ≠ target)
    (h : Shortest (joinedEntities joins) anchor target hops) :
    anchor ∈ (buildJoinGraph joins).map (·.1) ∧ target ∈ (buildJoinGraph joins).map (·.1) := by
  have hkey : ∀ {entity}, (buildJoinGraph joins).has entity = true →
      entity ∈ (buildJoinGraph joins).map (·.1) := by
    intro entity hhas
    obtain ⟨item, hitem, heq⟩ := List.any_eq_true.1 hhas
    exact List.mem_map.2 ⟨item, hitem, of_decide_eq_true heq⟩
  exact (has_ends (shortest_neighborEntities.2 h).1 hne).imp hkey hkey

theorem Shows.hops_eq {path : CanonicalPath} (h : Shows joins anchor hops path) :
    path.hops = hops.length := h.edges.length_eq.symm

/-- The pairs of entities that the loop looks at. -/
private def entityPairs (joins : List CanonicalJoin) : List (String × String) :=
  pairsInOrder (pySorted ((buildJoinGraph joins).map (·.1)))

private theorem mem_entityPairs {a b : String} : (a, b) ∈ entityPairs joins ↔
    a ∈ (buildJoinGraph joins).map (·.1) ∧ b ∈ (buildJoinGraph joins).map (·.1) ∧ a < b := by
  have hkeys : ((buildJoinGraph joins).map (·.1)).Nodup := by
    simpa [buildJoinGraph, Function.comp_def] using nodup_eraseDups _
  rw [entityPairs, mem_pairsInOrder_iff (pairwise_pySorted hkeys), mem_pySorted, mem_pySorted]

/-- What the loop ends with. -/
private def bestPath (joins : List CanonicalJoin) : CanonicalPath :=
  champion CanonicalPath.beats ((entityPairs joins).map (pathOf joins)) .empty

private theorem longestCanonicalPath_eq : longestCanonicalPath joins = .ok (bestPath joins) :=
  foldlM_champion (fun _ hpair => (mem_entityPairs.1 hpair).2.2.ne) .empty

/-- The paths between all entities are no better than the one that the loop ends with. -/
private theorem unbeaten {a b : String} (hlt : a < b) (h : LeastShortest joins a b hops) :
    ∃ path : CanonicalPath, path.nodes = a :: hops.map Prod.snd ∧ path.hops = hops.length ∧
      path.beats (bestPath joins) = false := by
  obtain ⟨path, hpath, hspec⟩ := @pathFromGraph_spec joins a b hlt.ne
  have hpathOf : pathOf joins (a, b) = path :=
    Except.ok.inj ((pathFromGraph_eq hlt.ne).symm.trans hpath)
  obtain ⟨hanchor, htarget⟩ := mem_keys_of_shortest hlt.ne h.1
  have hmem : path ∈ (entityPairs joins).map (pathOf joins) :=
    List.mem_map.2 ⟨(a, b), mem_entityPairs.2 ⟨hanchor, htarget, hlt⟩, hpathOf⟩
  rcases hspec with ⟨-, hnone⟩ | ⟨hops', hleast, hshows⟩
  · exact absurd h.1 (hnone hops)
  · have hsame := h.unique hleast
    refine ⟨path, hsame ▸ hshows.nodes, ?_,
      (champion_unbeaten beats_irrefl beats_trans).2 path (List.mem_cons_of_mem _ hmem)⟩
    rw [hshows.hops_eq]
    simpa using (congrArg List.length hsame).symm

/-- Where the loop ends with the empty path, no two entities are connected. -/
private theorem not_shortest_of_empty (hempty : bestPath joins = .empty) {a b : String}
    (hlt : a < b) : ¬ Shortest (joinedEntities joins) a b hops := by
  intro h
  obtain ⟨path, -, ⟨-, hnone⟩ | ⟨hops', hleast, -⟩⟩ := @pathFromGraph_spec joins a b hlt.ne
  · exact hnone hops h
  · obtain ⟨path', -, hhops, hbeats⟩ := unbeaten hlt hleast
    have hpos := hleast.1.length_pos hlt.ne
    rw [hempty] at hbeats
    simp only [CanonicalPath.beats, decide_eq_false_iff_not, not_or] at hbeats
    exact hbeats.1 (hhops ▸ hpos)

/-- The longest canonical path is the diameter of the joins, and is always found. -/
theorem longestCanonicalPath_diameter (joins : List CanonicalJoin) :
    ∃ path, longestCanonicalPath joins = .ok path ∧ IsDiameter joins path := by
  refine ⟨bestPath joins, longestCanonicalPath_eq, ?_⟩
  by_cases hempty : bestPath joins = .empty
  · exact .inl ⟨hempty, fun a b hops hlt => not_shortest_of_empty hempty hlt⟩
  · have hmem : bestPath joins ∈ (entityPairs joins).map (pathOf joins) :=
      champion_mem.resolve_left hempty
    obtain ⟨⟨a, b⟩, hpair, hbest⟩ := List.mem_map.1 hmem
    have hlt := (mem_entityPairs.1 hpair).2.2
    obtain ⟨path, hpath, hspec⟩ := @pathFromGraph_spec joins a b hlt.ne
    obtain rfl : pathOf joins (a, b) = path :=
      Except.ok.inj ((pathFromGraph_eq hlt.ne).symm.trans hpath)
    rcases hspec with ⟨hnone, -⟩ | ⟨hops, hleast, hshows⟩
    · exact absurd (hbest.symm.trans hnone) hempty
    · rw [hbest] at hshows
      refine .inr ⟨a, b, hops, hlt, hleast, hshows, fun a' b' hops' hlt' hleast' => ?_⟩
      obtain ⟨path', hnodes, hhops, hbeats⟩ := unbeaten hlt' hleast'
      have hpos := hleast'.1.length_pos hlt'.ne
      simp only [CanonicalPath.beats, decide_eq_false_iff_not, not_or, not_and, not_lt,
        hhops, hnodes] at hbeats
      have hbestHops : (bestPath joins).hops = hops.length := hshows.hops_eq
      rw [hbestHops, hshows.nodes] at hbeats
      rcases hbeats.1.lt_or_eq with hshorter | hsame
      · exact .inl hshorter
      · exact .inr ⟨hsame, hbeats.2 hsame hpos⟩

end SchemaBrain.Semantic
