import SchemaBrain.Base.EdgeSpine
import SchemaBrain.Core.SemanticRecords
import SchemaBrain.Joins.Bridges
import SchemaBrain.Semantic.CanonicalPath

/-!
# The graph projection

`rebuild_graph_projection` flattens the canonical path to ranks of stored edges, and
`_reconstruct_canonical_path` walks the edges of rank 1 from one end to the other. What is served
is the path that was flattened.
-/

namespace SchemaBrain.Dashboard

open Base Core Joins Semantic

/-! ## The projected rows -/

/-- `EdgeOrigin`. -/
inductive EdgeOrigin
  | declared
  | logMined
  | inferred
  deriving DecidableEq, Repr

/-- `edge_origin_from_inference_method`. -/
def edgeOriginFromInferenceMethod : InferenceMethod → EdgeOrigin
  | .fkConstraint => .declared
  | .observedInQueryLog => .logMined
  | _ => .inferred

/-- `GraphNode`. -/
structure GraphNode where
  entityName : String
  group : Group := .other
  isCatastrophic : Bool := false
  rowCount : Option Int := none
  deriving DecidableEq

/-- `GraphEdge`. -/
structure GraphEdge where
  joinName : String
  sourceEntity : String
  targetEntity : String
  edgeOrigin : EdgeOrigin := .declared
  canonicalPathRank : Nat := 0
  cardinality : Option Cardinality := none
  rank_le : canonicalPathRank ≤ 2 := by decide
  deriving DecidableEq

/-- The rows that the tables `graph_nodes` and `graph_edges` take. -/
structure ProjectionFits (store : Store) (nodes : List GraphNode) (edges : List GraphEdge) :
    Prop where
  nodes_key : (nodes.map (·.entityName)).Nodup
  nodes_entity : ∀ node ∈ nodes, node.entityName ∈ store.entities.map (·.name)
  edges_key : (edges.map (·.joinName)).Nodup
  edges_join : ∀ edge ∈ edges, edge.joinName ∈ store.canonicalJoins.map (·.name)
  edges_source : ∀ edge ∈ edges, edge.sourceEntity ∈ store.entities.map (·.name)
  edges_target : ∀ edge ∈ edges, edge.targetEntity ∈ store.entities.map (·.name)

instance (store : Store) (nodes : List GraphNode) (edges : List GraphEdge) :
    Decidable (ProjectionFits store nodes edges) :=
  decidable_of_iff _ ⟨fun ⟨h₁, h₂, h₃, h₄, h₅, h₆⟩ => ⟨h₁, h₂, h₃, h₄, h₅, h₆⟩,
    fun ⟨h₁, h₂, h₃, h₄, h₅, h₆⟩ => And.intro h₁ (And.intro h₂ (And.intro h₃ (And.intro h₄
      (And.intro h₅ h₆))))⟩

/-- The rows of one source, with its graph projection. -/
structure GraphStore extends JoinCatalog where
  entityGroup : String → Group := fun _ => .other
  estimatedRowCount : QualifiedTable → Option Int := fun _ => none
  graphNodes : List GraphNode := []
  graphEdges : List GraphEdge := []
  projection_fits : ProjectionFits toStore graphNodes graphEdges

namespace GraphStore

/-- `list_entities`, `ORDER BY name`. -/
def listEntities (store : GraphStore) : List Entity :=
  store.entities.insertionSort (·.name ≤ ·.name)

/-- `list_graph_edges`, `ORDER BY join_name`. -/
def listGraphEdges (store : GraphStore) : List GraphEdge :=
  store.graphEdges.insertionSort (·.joinName ≤ ·.joinName)

/-- `write_graph_projection`: the rows are replaced, or an `IntegrityError` leaves them. -/
def writeGraphProjection (store : GraphStore) (nodes : List GraphNode) (edges : List GraphEdge) :
    Option GraphStore :=
  if h : ProjectionFits store.toStore nodes edges then
    some { store with graphNodes := nodes, graphEdges := edges, projection_fits := h }
  else none

end GraphStore

/-- `_entity_is_catastrophic`. -/
def entityIsCatastrophic (store : Store) (entity : Entity) : Bool :=
  match store.getTable entity.binding with
  | none => false
  | some table => table.columns.any fun column =>
    (store.getColumnPiiTag entity.binding.text column.name).any fun tag =>
      tag.categories.any (· ∈ catastrophicLeakCategories)

/-- `_graph_edge_from_join`. -/
def graphEdgeFromJoin (notes : String → JoinNotes) (spineEdges : List String)
    (join : CanonicalJoin) : GraphEdge :=
  let origin := edgeOriginFromInferenceMethod (notes join.name).inferenceMethod
  { joinName := join.name
    sourceEntity := join.sourceEntity
    targetEntity := join.targetEntity
    edgeOrigin := origin
    canonicalPathRank := if join.name ∈ spineEdges then 1 else 0
    cardinality := if origin = .declared then join.cardinality else none
    rank_le := by split <;> decide }

/-- What a rebuild raises. -/
inductive ProjectionError
  | compiler (error : CompilerError)
  | integrity

/-- `rebuild_graph_projection`. -/
def rebuildGraphProjection (store : GraphStore) : Except ProjectionError GraphStore :=
  let nodes := store.listEntities.map fun entity =>
    { entityName := entity.name
      group := store.entityGroup entity.name
      isCatastrophic := entityIsCatastrophic store.toStore entity
      rowCount := store.estimatedRowCount entity.binding }
  match longestCanonicalPath store.listCanonicalJoins with
  | .error e => .error (.compiler e)
  | .ok path =>
    let edges := store.listCanonicalJoins.map (graphEdgeFromJoin store.joinNotes path.edges)
    match store.writeGraphProjection nodes edges with
    | none => .error .integrity
    | some projected => .ok projected

/-! ## The served path -/

/-- The body of the canonical path. -/
structure ServedPath where
  nodes : List String := []
  edges : List String := []
  hops : Nat := 0
  deriving DecidableEq

/-- Each end of an edge, with the other end and the join name. -/
def spineEntries (spine : List GraphEdge) : List (String × String × String) :=
  spine.flatMap fun edge => [(edge.sourceEntity, (edge.targetEntity, edge.joinName)),
    (edge.targetEntity, (edge.sourceEntity, edge.joinName))]

/-- `adjacency`. -/
def spineAdjacency (spine : List GraphEdge) : List (String × List (String × String)) :=
  dictGroups (spineEntries spine)

/-- `degree`. -/
def spineDegree (spine : List GraphEdge) : List (String × Nat) :=
  dictTotals (spine.flatMap fun edge => [(edge.sourceEntity, 1), (edge.targetEntity, 1)])

/-- The neighbours in the adjacency lists that were not visited. -/
def unvisited (adjacency : List (String × List (String × String))) (visited : List String) :
    List (String × String) :=
  (adjacency.flatMap (·.2)).filter (·.1 ∉ visited)

/-- A step to a neighbour leaves fewer of them. -/
private theorem length_unvisited_lt {adjacency : List (String × List (String × String))}
    {visited : List String} {current : String} {neighbors rest : List (String × String)}
    {next : String × String} (hneighbors : dictGet adjacency current = some neighbors)
    (hnext : neighbors.filter (·.1 ∉ visited) = next :: rest) :
    (unvisited adjacency (visited ++ [next.1])).length < (unvisited adjacency visited).length := by
  have hfewer : unvisited adjacency (visited ++ [next.1]) =
      (unvisited adjacency visited).filter (·.1 ≠ next.1) := by
    rw [unvisited, unvisited, List.filter_filter]
    refine List.filter_congr fun entry _ => ?_
    simp [and_comm]
  obtain ⟨hmem, hnew⟩ := List.mem_filter.1 (hnext ▸ List.mem_cons_self : next ∈ neighbors.filter _)
  obtain ⟨item, hitem, rfl⟩ := Option.map_eq_some_iff.1 hneighbors
  have hentry : next ∈ unvisited adjacency visited :=
    List.mem_filter.2 ⟨List.mem_flatMap.2 ⟨item, (rowOf_spec hitem).1, hmem⟩, hnew⟩
  rw [hfewer]
  exact List.length_filter_lt_length_iff_exists.2 ⟨next, hentry, by simp⟩

/-- The walk from an entity on: each neighbour with the name of the join to it. -/
def spineWalk (adjacency : List (String × List (String × String))) (visited : List String)
    (current : String) : Except PyError (List (String × String)) :=
  match _hneighbors : dictGet adjacency current with
  | none => .error (.keyError current)
  | some neighbors =>
    match _hnext : neighbors.filter (·.1 ∉ visited) with
    | [] => .ok []
    | next :: _ => do
      let rest ← spineWalk adjacency (visited ++ [next.1]) next.1
      return next :: rest
termination_by (unvisited adjacency visited).length
decreasing_by exact length_unvisited_lt _hneighbors _hnext

section Walk

variable {adjacency : List (String × List (String × String))} {visited : List String}
  {current : String} {neighbors rest : List (String × String)} {next : String × String}

private theorem spineWalk_end (hneighbors : dictGet adjacency current = some neighbors)
    (hnone : neighbors.filter (·.1 ∉ visited) = []) :
    spineWalk adjacency visited current = .ok [] := by
  rw [spineWalk]
  split
  · next hno => simp [hneighbors] at hno
  · next neighbors' hsome =>
    obtain rfl := Option.some.inj (hneighbors.symm.trans hsome)
    split
    · rfl
    · next hnext => cases hnone.symm.trans hnext

private theorem spineWalk_next (hneighbors : dictGet adjacency current = some neighbors)
    (hnext : neighbors.filter (·.1 ∉ visited) = next :: rest) :
    spineWalk adjacency visited current =
      (spineWalk adjacency (visited ++ [next.1]) next.1).map (next :: ·) := by
  rw [spineWalk]
  split
  · next hno => simp [hneighbors] at hno
  · next neighbors' hsome =>
    obtain rfl := Option.some.inj (hneighbors.symm.trans hsome)
    split
    · next hnone => cases hnone.symm.trans hnext
    · next next' rest' hnext' =>
      obtain ⟨rfl, -⟩ := List.cons.inj (hnext.symm.trans hnext')
      rfl

end Walk

/-- `_reconstruct_canonical_path`. -/
def reconstructCanonicalPath (edges : List GraphEdge) : Except PyError ServedPath :=
  let spine := edges.filter (·.canonicalPathRank = 1)
  if spine = [] then .ok {}
  else
    match pySorted (((spineDegree spine).filter (·.2 = 1)).map (·.1)) with
    | [start, _] => do
      let walk ← spineWalk (spineAdjacency spine) [start] start
      return { nodes := start :: walk.map (·.1), edges := walk.map (·.2), hops := walk.length }
    | _ => .ok {}

/-! ## The walk over the spine -/

/-- The entity at the other end of an edge that touches this one. -/
def otherNode (entity : String) (edge : GraphEdge) : Option String :=
  if edge.sourceEntity = entity then some edge.targetEntity
  else if edge.targetEntity = entity then some edge.sourceEntity
  else none

variable {spine : List GraphEdge} {entity : String}

/-- The neighbours of an entity are at the other ends of its edges. -/
private theorem valuesOf_spine (hself : ∀ edge ∈ spine, edge.sourceEntity ≠ edge.targetEntity) :
    valuesOf (spineEntries spine) entity =
      (touching otherNode spine entity).map fun entry => (entry.1, entry.2.joinName) := by
  induction spine with
  | nil => rfl
  | cons edge spine ih =>
    obtain ⟨hedge, hrest⟩ := List.forall_mem_cons.1 hself
    rw [touching_cons, List.map_append, ← ih hrest, spineEntries, List.flatMap_cons, valuesOf,
      List.filter_append, List.map_append]
    congr 1
    unfold otherNode
    by_cases hsource : edge.sourceEntity = entity
    · have htarget : edge.targetEntity ≠ entity := fun h => hedge (hsource.trans h.symm)
      simp [hsource, htarget]
    · by_cases htarget : edge.targetEntity = entity
      · simp [hsource, htarget]
      · simp [hsource, htarget]

/-- The degree of an entity is the number of its edges. -/
private theorem countOf_spine (hself : ∀ edge ∈ spine, edge.sourceEntity ≠ edge.targetEntity) :
    countOf (spine.flatMap fun edge => [(edge.sourceEntity, 1), (edge.targetEntity, 1)]) entity =
      (touching otherNode spine entity).length := by
  induction spine with
  | nil => rfl
  | cons edge spine ih =>
    obtain ⟨hedge, hrest⟩ := List.forall_mem_cons.1 hself
    rw [touching_cons, List.length_append, ← ih hrest, List.flatMap_cons, countOf,
      List.filter_append, List.map_append, List.sum_append]
    congr 1
    unfold otherNode
    by_cases hsource : edge.sourceEntity = entity
    · have htarget : edge.targetEntity ≠ entity := fun h => hedge (hsource.trans h.symm)
      simp [hsource, htarget]
    · by_cases htarget : edge.targetEntity = entity
      · simp [hsource, htarget]
      · simp [hsource, htarget]

private theorem dictGet_spineAdjacency
    (hself : ∀ edge ∈ spine, edge.sourceEntity ≠ edge.targetEntity) {edge : GraphEdge}
    {other : String} (hedge : edge ∈ spine) (hother : otherNode entity edge = some other) :
    dictGet (spineAdjacency spine) entity =
      some ((touching otherNode spine entity).map fun entry => (entry.1, entry.2.joinName)) := by
  have hvalues := @valuesOf_spine spine entity hself
  have hmem : (other, edge.joinName) ∈ valuesOf (spineEntries spine) entity := by
    rw [hvalues]
    exact List.mem_map.2 ⟨(other, edge), mem_touching.2 ⟨hedge, hother⟩, rfl⟩
  rw [spineAdjacency, dictGet_dictGroups, hvalues,
    if_pos (List.mem_map.2 ⟨_, mem_valuesOf.1 hmem, rfl⟩)]

/-- The walk over the edges of a trail, from a vertex of it on. -/
private theorem spineWalk_eq {trail : List (GraphEdge × String)} {done : List GraphEdge}
    {visited : List String}
    (hself : ∀ edge ∈ spine, edge.sourceEntity ≠ edge.targetEntity)
    (htrail : Trail otherNode entity trail) (hperm : spine.Perm (done ++ trail.map Prod.fst))
    (htouched : ∃ edge ∈ spine, ∃ other, otherNode entity edge = some other)
    (hdone : ∀ edge ∈ done, ∀ u other, otherNode u edge = some other → other ∈ visited)
    (hentity : entity ∈ visited) (hnew : ∀ u ∈ trail.map Prod.snd, u ∉ visited)
    (hnodup : (trail.map Prod.snd).Nodup) :
    spineWalk (spineAdjacency spine) visited entity =
      .ok (trail.map fun step => (step.2, step.1.joinName)) := by
  obtain ⟨edge, hedge, other, hother⟩ := htouched
  have hget := dictGet_spineAdjacency hself hedge hother
  induction trail generalizing entity done visited edge other with
  | nil =>
    rw [List.map_nil, List.append_nil] at hperm
    have hnone : (touching otherNode spine entity).filter (·.1 ∉ visited) = [] :=
      unvisited_eq_nil fun edge hedge => hdone edge (hperm.mem_iff.1 hedge)
    refine spineWalk_end hget ?_
    rw [List.filter_map]
    exact List.map_eq_nil_iff.2 hnone
  | cons step rest ih =>
    obtain ⟨e, w⟩ := step
    have hone := htrail.unvisited_eq hperm hdone hentity hnew
    obtain ⟨hlinks, hrest⟩ := htrail
    have hmem : e ∈ spine := hperm.mem_iff.2 (by simp)
    have hgetNext := dictGet_spineAdjacency hself hmem hlinks.back
    have hnext : ((touching otherNode spine entity).map
        fun entry => (entry.1, entry.2.joinName)).filter (·.1 ∉ visited) = [(w, e.joinName)] := by
      rw [List.filter_map]
      exact congrArg (List.map _) hone
    obtain ⟨hw, hlater⟩ := List.nodup_cons.1 hnodup
    have hdone' : ∀ f ∈ done ++ [e], ∀ u x, otherNode u f = some x → x ∈ visited ++ [w] := by
      intro f hf u x hx
      rcases List.mem_append.1 hf with hbefore | hnow
      · exact List.mem_append_left _ (hdone f hbefore u x hx)
      · rw [List.mem_singleton.1 hnow] at hx
        rcases hlinks.eq_or_eq hx with ⟨-, rfl⟩ | ⟨-, rfl⟩
        · exact List.mem_append_right _ List.mem_cons_self
        · exact List.mem_append_left _ hentity
    have hnew' : ∀ u ∈ rest.map Prod.snd, u ∉ visited ++ [w] := by
      intro u hu hmem
      rcases List.mem_append.1 hmem with hbefore | hnow
      · exact hnew u (List.mem_cons_of_mem _ hu) hbefore
      · exact hw (List.mem_singleton.1 hnow ▸ hu)
    have hrestWalk := ih hrest (by simpa using hperm) hdone'
      (List.mem_append_right _ List.mem_cons_self) hnew' hlater e hmem entity hlinks.back hgetNext
    rw [spineWalk_next hget hnext, hrestWalk]
    rfl

/-- The entities of degree one. -/
private theorem mem_endpoints (hself : ∀ edge ∈ spine, edge.sourceEntity ≠ edge.targetEntity) :
    entity ∈ ((spineDegree spine).filter (·.2 = 1)).map (·.1) ↔
      (touching otherNode spine entity).length = 1 := by
  have hmem : entity ∈ ((spineDegree spine).filter (·.2 = 1)).map (·.1) ↔
      (entity, 1) ∈ spineDegree spine := by
    simp
  rw [hmem, spineDegree, mem_dictTotals, countOf_spine hself]
  constructor
  · exact fun h => h.2.symm
  · intro hone
    obtain ⟨entry, hentry⟩ := List.length_eq_one_iff.1 hone
    obtain ⟨hedge, hother⟩ := mem_touching.1 (hentry ▸ List.mem_singleton_self entry)
    refine ⟨?_, hone.symm⟩
    rw [List.map_flatMap, List.mem_flatMap]
    refine ⟨entry.2, hedge, ?_⟩
    unfold otherNode at hother
    split at hother
    · next hsource => simp [hsource]
    · split at hother
      · next htarget => simp [htarget]
      · cases hother

private theorem nodup_endpoints : (((spineDegree spine).filter (·.2 = 1)).map (·.1)).Nodup :=
  nodup_dictTotals.sublist (List.filter_sublist.map _)

/-- Two names in order, sorted. -/
private theorem pySorted_pair {names : List String} {a b : String} (hnodup : names.Nodup)
    (hnames : ∀ name, name ∈ names ↔ name = a ∨ name = b) (hlt : a < b) :
    pySorted names = [a, b] := by
  have hperm : names.Perm [a, b] := by
    rw [List.perm_ext_iff_of_nodup hnodup (by simpa using hlt.ne)]
    simpa using hnames
  rw [pySorted_eq_of_perm hperm]
  simp [pySorted, hlt.le]

/-- A simple trail whose edges are those of rank 1 is served as it is. -/
theorem reconstructCanonicalPath_eq {edges : List GraphEdge} {trail : List (GraphEdge × String)}
    {a b : String} (hself : ∀ edge ∈ edges, edge.sourceEntity ≠ edge.targetEntity)
    (htrail : Trail otherNode a trail) (hnodup : (trailNodes a trail).Nodup)
    (hlast : trail.getLast?.map Prod.snd = some b) (hlt : a < b)
    (hperm : (edges.filter (·.canonicalPathRank = 1)).Perm (trail.map Prod.fst)) :
    reconstructCanonicalPath edges =
      .ok ⟨trailNodes a trail, trail.map (·.1.joinName), trail.length⟩ := by
  generalize hspine : edges.filter (·.canonicalPathRank = 1) = spine at hperm
  have hself' : ∀ edge ∈ spine, edge.sourceEntity ≠ edge.targetEntity := fun edge hedge =>
    hself edge (List.mem_of_mem_filter (hspine ▸ hedge))
  have hne : trail ≠ [] := by
    rintro rfl
    cases hlast
  have hspineNe : spine ≠ [] := by
    rintro rfl
    exact hne (List.map_eq_nil_iff.1 (List.nil_perm.1 hperm))
  have hends : pySorted (((spineDegree spine).filter (·.2 = 1)).map (·.1)) = [a, b] := by
    refine pySorted_pair nodup_endpoints (fun name => ?_) hlt
    rw [mem_endpoints hself', touching, (hperm.filterMap _).length_eq]
    exact (htrail.length_touching_eq_one hnodup hne).trans
      (or_congr_right (by rw [hlast, Option.some_inj, eq_comm]))
  obtain ⟨hstart, hrest⟩ := List.nodup_cons.1 hnodup
  have htouched : ∃ edge ∈ spine, ∃ other, otherNode a edge = some other := by
    cases trail with
    | nil => exact absurd rfl hne
    | cons step rest =>
      exact ⟨step.1, hperm.mem_iff.2 List.mem_cons_self, step.2, htrail.1.forth⟩
  have hstarted : spine.Perm ([] ++ trail.map Prod.fst) := hperm
  have hwalk := spineWalk_eq hself' htrail hstarted htouched (by simp)
    List.mem_cons_self (fun u hu hmem => hstart (List.mem_singleton.1 hmem ▸ hu)) hrest
  unfold reconstructCanonicalPath
  simp only [hspine, if_neg hspineNe, hends, hwalk, bind, Except.bind, pure, Except.pure,
    List.map_map, List.length_map]
  rfl

/-- A walk over lists that lead to entities with lists ends. -/
private theorem exists_spineWalk {adjacency : List (String × List (String × String))}
    (hclosed : ∀ current neighbors, dictGet adjacency current = some neighbors →
      ∀ next ∈ neighbors, ∃ neighbors', dictGet adjacency next.1 = some neighbors')
    {visited : List String} {current : String}
    (hcurrent : ∃ neighbors, dictGet adjacency current = some neighbors) :
    ∃ walk, spineWalk adjacency visited current = .ok walk := by
  induction hn : (unvisited adjacency visited).length using Nat.strongRecOn
    generalizing visited current with
  | ind n ih =>
    obtain ⟨neighbors, hneighbors⟩ := hcurrent
    cases hnext : neighbors.filter (·.1 ∉ visited) with
    | nil => exact ⟨[], spineWalk_end hneighbors hnext⟩
    | cons next rest =>
      have hmem : next ∈ neighbors := by
        refine List.mem_of_mem_filter (p := (·.1 ∉ visited)) ?_
        rw [hnext]
        exact List.mem_cons_self
      obtain ⟨walk, hwalk⟩ := ih _ (hn ▸ length_unvisited_lt hneighbors hnext)
        (hclosed _ _ hneighbors next hmem) rfl
      exact ⟨next :: walk, by rw [spineWalk_next hneighbors hnext, hwalk]; rfl⟩

private theorem mem_keys_spineEntries : entity ∈ (spineEntries spine).map Prod.fst ↔
    ∃ edge ∈ spine, entity = edge.sourceEntity ∨ entity = edge.targetEntity := by
  rw [spineEntries, List.map_flatMap, List.mem_flatMap]
  simp

/-- The other end of an edge has a list of its own. -/
private theorem mem_keys_of_entry {entry : String × String}
    (h : (entity, entry) ∈ spineEntries spine) : entry.1 ∈ (spineEntries spine).map Prod.fst := by
  obtain ⟨edge, hedge, hends⟩ := List.mem_flatMap.1 h
  simp only [List.mem_cons, Prod.mk.injEq, List.not_mem_nil, or_false] at hends
  rcases hends with ⟨-, rfl⟩ | ⟨-, rfl⟩
  · exact mem_keys_spineEntries.2 ⟨edge, hedge, .inr rfl⟩
  · exact mem_keys_spineEntries.2 ⟨edge, hedge, .inl rfl⟩

private theorem exists_neighbors (h : entity ∈ (spineEntries spine).map Prod.fst) :
    ∃ neighbors, dictGet (spineAdjacency spine) entity = some neighbors :=
  ⟨_, dictGet_dictGroups.trans (if_pos h)⟩

/-- The walk never raises. -/
theorem exists_reconstructCanonicalPath (edges : List GraphEdge) :
    ∃ served, reconstructCanonicalPath edges = .ok served := by
  unfold reconstructCanonicalPath
  generalize edges.filter (·.canonicalPathRank = 1) = spine
  dsimp only
  split
  · exact ⟨_, rfl⟩
  · split
    · next start _ hends =>
      have hstart : start ∈ ((spineDegree spine).filter (·.2 = 1)).map (·.1) := by
        rw [← mem_pySorted, hends]
        exact List.mem_cons_self
      have hkey : start ∈ (spineEntries spine).map Prod.fst := by
        obtain ⟨⟨_, degree⟩, hitem, rfl⟩ := List.mem_map.1 hstart
        have hdegree := (mem_dictTotals.1 (List.mem_of_mem_filter hitem)).1
        rw [List.map_flatMap, List.mem_flatMap] at hdegree
        exact mem_keys_spineEntries.2 (by simpa using hdegree)
      have hclosed : ∀ current neighbors,
          dictGet (spineAdjacency spine) current = some neighbors →
          ∀ next ∈ neighbors, ∃ neighbors',
            dictGet (spineAdjacency spine) next.1 = some neighbors' := by
        intro current neighbors hneighbors next hnext
        rw [spineAdjacency, dictGet_dictGroups] at hneighbors
        split at hneighbors
        · obtain rfl := Option.some.inj hneighbors
          exact exists_neighbors (mem_keys_of_entry (mem_valuesOf.1 hnext))
        · cases hneighbors
      obtain ⟨walk, hwalk⟩ := @exists_spineWalk _ hclosed [start] start (exists_neighbors hkey)
      rw [hwalk]
      exact ⟨_, rfl⟩
    · exact ⟨_, rfl⟩

/-! ## The round trip -/

section RoundTrip

variable {joins : List CanonicalJoin} {notes : String → JoinNotes} {names : List String}
  {a b : String} {hops : StructuralPath}

private theorem links_of_otherEnd {join : CanonicalJoin} {edge : GraphEdge}
    (hsource : edge.sourceEntity = join.sourceEntity)
    (htarget : edge.targetEntity = join.targetEntity) (h : otherEnd a join = some b) :
    Links otherNode a edge b := by
  have hself := join.no_self
  unfold otherEnd at h
  split at h
  · next hfrom =>
    obtain rfl := Option.some.inj h
    obtain rfl := hfrom
    refine ⟨hself, by simp [otherNode, hsource, htarget], by simp [otherNode, hsource, htarget,
      hself], fun u hu hu' => ?_⟩
    simp [otherNode, hsource, htarget, Ne.symm hu, Ne.symm hu']
  · split at h
    · next hto =>
      obtain rfl := Option.some.inj h
      obtain rfl := hto
      refine ⟨hself.symm, by simp [otherNode, hsource, htarget, hself], by simp [otherNode,
        hsource, htarget], fun u hu hu' => ?_⟩
      simp [otherNode, hsource, htarget, Ne.symm hu, Ne.symm hu']
    · cases h

/-- The projected edges of a path, in the order of the path. -/
private theorem exists_trail (hwalk : Walk (joinedEntities joins) a b hops) {shown : List String}
    (hnames : List.Forall₂ (FirstName joins) hops shown) :
    ∃ trail : List (GraphEdge × String), Trail otherNode a trail ∧
      trail.map Prod.snd = hops.map Prod.snd ∧ trail.map (·.1.joinName) = shown ∧
      ∀ edge ∈ trail.map Prod.fst, ∃ join ∈ joins, graphEdgeFromJoin notes names join = edge := by
  induction hnames generalizing a with
  | nil => exact ⟨[], trivial, rfl, rfl, by simp⟩
  | @cons hop name hops shown hname _ ih =>
    obtain ⟨x, y⟩ := hop
    obtain ⟨rfl, -, hrest⟩ := hwalk.of_cons
    obtain ⟨trail, htrail, hnodes, hshown, hedges⟩ := ih hrest
    obtain ⟨⟨join, hjoin, rfl⟩, -⟩ := hname
    obtain ⟨hmem, hend⟩ := mem_parallelJoins.1 hjoin
    refine ⟨(graphEdgeFromJoin notes names join, y) :: trail,
      ⟨links_of_otherEnd rfl rfl hend, htrail⟩, congrArg (y :: ·) hnodes,
      congrArg (join.name :: ·) hshown, ?_⟩
    exact List.forall_mem_cons.2 ⟨⟨join, hmem, rfl⟩, hedges⟩

/-- The edges of rank 1 are those of the path. -/
private theorem spine_perm {edges : List GraphEdge} {trail : List (GraphEdge × String)}
    (hkeys : (joins.map (·.name)).Nodup)
    (hedges : edges.Perm (joins.map (graphEdgeFromJoin notes names)))
    (htrail : ∀ edge ∈ trail.map Prod.fst, ∃ join ∈ joins,
      graphEdgeFromJoin notes names join = edge)
    (hnames : trail.map (·.1.joinName) = names) (hnodup : (trail.map Prod.fst).Nodup) :
    (edges.filter (·.canonicalPathRank = 1)).Perm (trail.map Prod.fst) := by
  have hrank : ∀ join, (graphEdgeFromJoin notes names join).canonicalPathRank = 1 ↔
      join.name ∈ names := by
    intro join
    unfold graphEdgeFromJoin
    dsimp only
    split <;> simp_all
  have hprojected : (joins.map (graphEdgeFromJoin notes names)).Nodup := by
    refine List.Nodup.of_map (·.joinName) ?_
    rwa [List.map_map]
  rw [List.perm_ext_iff_of_nodup ((hedges.nodup_iff.2 hprojected).filter _) hnodup]
  intro edge
  rw [List.mem_filter, hedges.mem_iff, List.mem_map, decide_eq_true_eq]
  constructor
  · rintro ⟨⟨join, hjoin, rfl⟩, hone⟩
    rw [hrank, ← hnames] at hone
    obtain ⟨step, hstep, hname⟩ := List.mem_map.1 hone
    have hmem : step.1 ∈ trail.map Prod.fst := List.mem_map_of_mem hstep
    obtain ⟨join', hjoin', hedge⟩ := htrail _ hmem
    rw [← hedge] at hname
    obtain rfl := List.inj_on_of_nodup_map hkeys hjoin' hjoin hname
    exact hedge ▸ hmem
  · intro hmem
    obtain ⟨join, hjoin, rfl⟩ := htrail edge hmem
    refine ⟨⟨join, hjoin, rfl⟩, (hrank join).2 ?_⟩
    obtain ⟨step, hstep, hedge⟩ := List.mem_map.1 hmem
    rw [← hnames]
    exact List.mem_map.2 ⟨step, hstep, congrArg GraphEdge.joinName hedge⟩

/-- A projected diameter is served. -/
private theorem reconstruct_diameter {path : CanonicalPath} {edges : List GraphEdge}
    (hpath : IsDiameter joins path) (hkeys : (joins.map (·.name)).Nodup)
    (hedges : edges.Perm (joins.map (graphEdgeFromJoin notes path.edges))) :
    reconstructCanonicalPath edges = .ok ⟨path.nodes, path.edges, path.hops⟩ := by
  rcases hpath with ⟨rfl, -⟩ | ⟨a, b, hops, hlt, ⟨hshort, -⟩, hshows, -⟩
  · have hspine : edges.filter (·.canonicalPathRank = 1) = [] := by
      rw [List.filter_eq_nil_iff]
      intro edge hedge
      obtain ⟨join, -, rfl⟩ := List.mem_map.1 (hedges.mem_iff.1 hedge)
      simp [graphEdgeFromJoin, CanonicalPath.empty]
    rw [reconstructCanonicalPath, hspine]
    rfl
  · obtain ⟨trail, htrail, hnodes, hnames, hmem⟩ :=
      @exists_trail joins notes path.edges a b hops hshort.1 _ hshows.edges
    have hnodup : (trailNodes a trail).Nodup := by
      rw [trailNodes, hnodes]
      exact hshort.nodup_targets
    have hlast : trail.getLast?.map Prod.snd = some b := by
      rw [← List.getLast?_map, hnodes]
      rcases List.eq_nil_or_concat' hops with rfl | ⟨init, ⟨x, y⟩, rfl⟩
      · exact absurd hshort.1.eq_of_nil.symm hlt.ne
      · rw [hshort.1.of_concat.1]
        simp
    have hself : ∀ edge ∈ edges, edge.sourceEntity ≠ edge.targetEntity := by
      intro edge hedge
      obtain ⟨join, -, rfl⟩ := List.mem_map.1 (hedges.mem_iff.1 hedge)
      exact join.no_self
    rw [reconstructCanonicalPath_eq hself htrail hnodup hlast hlt
      (spine_perm hkeys hedges hmem hnames (htrail.nodup_edges hnodup)), trailNodes, hnodes,
      hnames, hshows.nodes, hshows.hops_eq]
    have hlength : trail.length = hops.length := by
      simpa using congrArg List.length hnodes
    rw [hlength]

end RoundTrip

namespace GraphStore

variable (store : GraphStore)

private theorem listEntities_perm : store.listEntities.Perm store.entities :=
  List.perm_insertionSort _ _

private theorem listCanonicalJoins_key :
    (store.listCanonicalJoins.map (·.name)).Nodup :=
  (((List.perm_insertionSort _ store.canonicalJoins).map _).nodup_iff).2 store.joins_key

/-- What a rebuild writes fits the tables. -/
private theorem rebuilt_fits (node : Entity → GraphNode)
    (hnode : ∀ entity, (node entity).entityName = entity.name) (names : List String) :
    ProjectionFits store.toStore (store.listEntities.map node)
      (store.listCanonicalJoins.map (graphEdgeFromJoin store.joinNotes names)) where
  nodes_key := by
    rw [List.map_map]
    have hnames : store.listEntities.map ((·.entityName) ∘ node) =
        store.listEntities.map (·.name) := List.map_congr_left fun entity _ => hnode entity
    rw [hnames]
    exact ((store.listEntities_perm.map _).nodup_iff).2 store.entities_key
  nodes_entity := by
    intro row hrow
    obtain ⟨entity, hentity, rfl⟩ := List.mem_map.1 hrow
    rw [hnode]
    exact List.mem_map_of_mem (store.listEntities_perm.mem_iff.1 hentity)
  edges_key := by
    rw [List.map_map]
    exact store.listCanonicalJoins_key
  edges_join := by
    intro row hrow
    obtain ⟨join, hjoin, rfl⟩ := List.mem_map.1 hrow
    exact List.mem_map_of_mem (Store.mem_listCanonicalJoins.1 hjoin)
  edges_source := by
    intro row hrow
    obtain ⟨join, hjoin, rfl⟩ := List.mem_map.1 hrow
    obtain ⟨entity, hentity, hname⟩ := store.joins_source join
      (Store.mem_listCanonicalJoins.1 hjoin)
    exact List.mem_map.2 ⟨entity, hentity, hname⟩
  edges_target := by
    intro row hrow
    obtain ⟨join, hjoin, rfl⟩ := List.mem_map.1 hrow
    obtain ⟨entity, hentity, hname⟩ := store.joins_target join
      (Store.mem_listCanonicalJoins.1 hjoin)
    exact List.mem_map.2 ⟨entity, hentity, hname⟩

/-- A rebuild succeeds, with the edges of the canonical path marked. -/
private theorem exists_rebuild {path : CanonicalPath}
    (hpath : longestCanonicalPath store.listCanonicalJoins = .ok path) :
    ∃ projected, rebuildGraphProjection store = .ok projected ∧
      projected.toJoinCatalog = store.toJoinCatalog ∧
      projected.graphEdges =
        store.listCanonicalJoins.map (graphEdgeFromJoin store.joinNotes path.edges) := by
  unfold rebuildGraphProjection
  rw [hpath]
  dsimp only
  rw [writeGraphProjection, dif_pos (store.rebuilt_fits _ (fun _ => rfl) path.edges)]
  exact ⟨_, rfl, rfl, rfl⟩

end GraphStore

/-- After a rebuild the served path is the canonical one, and that is the diameter of the joins;
neither function raises, on any joins and on any edges. -/
theorem served_canonicalPath :
    (∀ store : GraphStore, ∃ projected path,
      rebuildGraphProjection store = .ok projected ∧
      projected.toJoinCatalog = store.toJoinCatalog ∧
      longestCanonicalPath projected.listCanonicalJoins = .ok path ∧
      reconstructCanonicalPath projected.listGraphEdges =
        .ok ⟨path.nodes, path.edges, path.hops⟩ ∧
      IsDiameter projected.listCanonicalJoins path) ∧
    (∀ joins, ∃ path, longestCanonicalPath joins = .ok path) ∧
    ∀ edges, ∃ served, reconstructCanonicalPath edges = .ok served := by
  refine ⟨fun store => ?_, fun joins => ?_, exists_reconstructCanonicalPath⟩
  · obtain ⟨path, hpath, hdiameter⟩ := longestCanonicalPath_diameter store.listCanonicalJoins
    obtain ⟨projected, hrebuild, hsame, hedges⟩ := store.exists_rebuild hpath
    refine ⟨projected, path, hrebuild, hsame, ?_⟩
    rw [hsame]
    have hlisted : projected.listGraphEdges.Perm (store.listCanonicalJoins.map
        (graphEdgeFromJoin store.joinNotes path.edges)) :=
      hedges ▸ List.perm_insertionSort _ projected.graphEdges
    exact ⟨hpath, reconstruct_diameter hdiameter store.listCanonicalJoins_key hlisted, hdiameter⟩
  · obtain ⟨path, hpath, -⟩ := longestCanonicalPath_diameter joins
    exact ⟨path, hpath⟩

end SchemaBrain.Dashboard
