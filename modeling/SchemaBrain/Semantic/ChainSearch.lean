import SchemaBrain.Semantic.JoinGraph

/-!
# The outcomes of the chain search

The structural search against the shortest simple paths of the undirected join graph, and
the search for a chain: its four errors and its result partition the requests by those paths,
the names of `via` and the parallel joins of their hops.
-/

namespace SchemaBrain.Semantic

open Base Core

/-! ## The undirected join graph -/

/-- The entity at the other end of a join that touches this one. -/
def otherEnd (entity : String) (join : CanonicalJoin) : Option String :=
  if join.sourceEntity = entity then some join.targetEntity
  else if join.targetEntity = entity then some join.sourceEntity
  else none

/-- The entities that a join connects with this one. -/
def joinedEntities (edges : List CanonicalJoin) (entity : String) : List String :=
  edges.filterMap (otherEnd entity)

/-- A shortest simple entity path, of at most six hops. -/
def ShortEntityPath (edges : List CanonicalJoin) (anchor target : String)
    (path : StructuralPath) : Prop :=
  SimplePath (joinedEntities edges) anchor target path ∧ path.length ≤ 6 ∧
    ∀ other, SimplePath (joinedEntities edges) anchor target other → path.length ≤ other.length

/-- The joins between the two entities of a hop, in either stored direction. -/
def parallelJoins (edges : List CanonicalJoin) (hop : String × String) : List CanonicalJoin :=
  edges.filter fun join => otherEnd hop.1 join = some hop.2

/-- Every name of `via` is that of a join on some hop. -/
def CarriesVia (edges : List CanonicalJoin) (via : List String) (path : StructuralPath) : Prop :=
  ∀ name ∈ via, ∃ hop ∈ path, ∃ join ∈ parallelJoins edges hop, join.name = name

/-- Several joins run in parallel, and `via` does not name exactly one of them. -/
def Unsettled (edges : List CanonicalJoin) (via : List String) (hop : String × String) : Prop :=
  1 < (parallelJoins edges hop).length ∧
    ((parallelJoins edges hop).filter (·.name ∈ via)).length ≠ 1

/-- The link walks a hop along a join between its entities: the only one, or the only one that
`via` names. Its pairs read from the predecessor to the neighbour. -/
structure WalksHop (edges : List CanonicalJoin) (via : List String) (hop : String × String)
    (link : String × ChainEdge) : Prop where
  predecessor : link.1 = hop.1
  neighbor : link.2.targetEntityInChain = hop.2
  join_eq : parallelJoins edges hop = [link.2.join] ∨
    (parallelJoins edges hop).filter (·.name ∈ via) = [link.2.join]
  reverse_iff : link.2.isReverseTraversal = true ↔ link.2.join.sourceEntity = hop.2
  onPairs_eq : link.2.onPairsInChainDirection =
    if link.2.join.sourceEntity = hop.1 then link.2.join.on else link.2.join.on.map (·.swap)

/-- What a search for a chain ends with. -/
inductive ChainOutcome
  | unreachable
  | unknownVia
  | ambiguousPath
  | ambiguousJoin
  | chain
  | other
  deriving DecidableEq

/-- The class of the error, or that there is none. -/
def chainOutcome {α : Type} : Except CompilerError α → ChainOutcome
  | .ok _ => .chain
  | .error (.unreachableEntity _ _) => .unreachable
  | .error (.unknownViaJoin _ _ _ _) => .unknownVia
  | .error (.ambiguousPath _ _ _) => .ambiguousPath
  | .error (.ambiguousJoin _ _ _) => .ambiguousJoin
  | .error _ => .other

section Conditions

variable (edges : List CanonicalJoin) (anchor target : String) (via : List String)

/-- A shortest path that carries `via`. -/
def CarryingPath (path : StructuralPath) : Prop :=
  ShortEntityPath edges anchor target path ∧ CarriesVia edges via path

/-- The only shortest path that carries `via`. -/
def OnlyPath (path : StructuralPath) : Prop :=
  CarryingPath edges anchor target via path ∧
    ∀ other, CarryingPath edges anchor target via other → other = path

/-- When each outcome is due. -/
def Due : ChainOutcome → Prop
  | .unreachable => ¬ ∃ path, ShortEntityPath edges anchor target path
  | .unknownVia => (∃ path, ShortEntityPath edges anchor target path) ∧
      ¬ ∃ path, CarryingPath edges anchor target via path
  | .ambiguousPath => ∃ path other, path ≠ other ∧ CarryingPath edges anchor target via path ∧
      CarryingPath edges anchor target via other
  | .ambiguousJoin => ∃ path, OnlyPath edges anchor target via path ∧
      ∃ hop ∈ path, Unsettled edges via hop
  | .chain => ∃ path, OnlyPath edges anchor target via path ∧
      ∀ hop ∈ path, ¬ Unsettled edges via hop
  | .other => False

end Conditions

variable {edges : List CanonicalJoin} {anchor target : String} {via : List String}

/-! ## The graph of the search -/

/-- The entry that walks a hop along a join. -/
def hopEntry (hop : String × String) (join : CanonicalJoin) : GraphEntry :=
  if join.sourceEntity = hop.1 then ⟨hop.2, join, join.on, false⟩
  else ⟨hop.2, join, join.on.map (·.swap), true⟩

@[simp] theorem hopEntry_join (hop : String × String) (join : CanonicalJoin) :
    (hopEntry hop join).join = join := by
  unfold hopEntry
  split <;> rfl

private theorem joinEntries_hop (hop : String × String) (join : CanonicalJoin) :
    (((joinEntries join).filter (·.1 = hop.1)).map (·.2)).filter (·.neighbor = hop.2) =
      if otherEnd hop.1 join = some hop.2 then [hopEntry hop join] else [] := by
  obtain ⟨x, y⟩ := hop
  have hself := join.no_self
  unfold joinEntries otherEnd hopEntry
  by_cases hsource : join.sourceEntity = x
  · have htarget : join.targetEntity ≠ x := fun h => hself (hsource.trans h.symm)
    by_cases hother : join.targetEntity = y
    · have hne : x ≠ y := fun h => htarget (hother.trans h.symm)
      simp [hsource, hother, hne.symm]
    · simp [hsource, htarget, hother]
  · by_cases htarget : join.targetEntity = x
    · by_cases hother : join.sourceEntity = y
      · have hne : y ≠ x := fun h => hsource (hother.trans h)
        simp [htarget, hother, hne]
      · simp [hsource, htarget, hother]
    · simp [hsource, htarget]

private theorem flatMap_joinEntries_hop (hop : String × String) (edges : List CanonicalJoin) :
    (((edges.flatMap joinEntries).filter (·.1 = hop.1)).map (·.2)).filter (·.neighbor = hop.2) =
      (parallelJoins edges hop).map (hopEntry hop) := by
  induction edges with
  | nil => rfl
  | cons join edges ih =>
    rw [List.flatMap_cons, List.filter_append, List.map_append, List.filter_append, ih,
      joinEntries_hop, parallelJoins, parallelJoins, List.filter_cons]
    by_cases hend : otherEnd hop.1 join = some hop.2 <;> simp [hend]

/-- The entries of a hop are those of its parallel joins, in some order. -/
theorem hopEntries_perm (hop : String × String) :
    (hopEntries (buildJoinGraph edges) hop).Perm
      ((parallelJoins edges hop).map (hopEntry hop)) := by
  have hget : ((buildJoinGraph edges).get hop.1).Perm
      (((edges.flatMap joinEntries).filter (·.1 = hop.1)).map (·.2)) := by
    rw [get_buildJoinGraph]
    exact List.perm_insertionSort _ _
  rw [← flatMap_joinEntries_hop]
  exact hget.filter _

theorem mem_parallelJoins {hop : String × String} {join : CanonicalJoin} :
    join ∈ parallelJoins edges hop ↔ join ∈ edges ∧ otherEnd hop.1 join = some hop.2 := by
  simp [parallelJoins]

/-- The search walks along joins. -/
theorem mem_neighborEntities_iff {entity neighbor : String} :
    neighbor ∈ neighborEntities (buildJoinGraph edges) entity ↔
      neighbor ∈ joinedEntities edges entity := by
  have hentries : (∃ entry ∈ (buildJoinGraph edges).get entity, entry.neighbor = neighbor) ↔
      ∃ entry, entry ∈ hopEntries (buildJoinGraph edges) (entity, neighbor) := by
    simp [hopEntries]
  rw [mem_neighborEntities, hentries]
  simp only [(hopEntries_perm _).mem_iff, List.mem_map, mem_parallelJoins, joinedEntities,
    List.mem_filterMap]
  constructor
  · rintro ⟨_, join, hjoin, -⟩
    exact ⟨join, hjoin⟩
  · rintro ⟨join, hjoin⟩
    exact ⟨_, join, hjoin, rfl⟩

/-! ## The structural search -/

theorem shortEntityPath_iff {path : StructuralPath} :
    ShortEntityPath edges anchor target path ↔
      Shortest (neighborEntities (buildJoinGraph edges)) anchor target path ∧
        path.length ≤ 6 := by
  rw [shortest_congr (fun _ _ => mem_neighborEntities_iff), shortest_iff_simplePath,
    ShortEntityPath]
  exact ⟨fun ⟨hp, hlen, hleast⟩ => ⟨⟨hp, hleast⟩, hlen⟩,
    fun ⟨⟨hp, hleast⟩, hlen⟩ => ⟨hp, hlen, hleast⟩⟩

theorem mem_structuralShortestPaths (hne : anchor ≠ target) {path : StructuralPath} :
    path ∈ structuralShortestPaths (buildJoinGraph edges) anchor target ↔
      ShortEntityPath edges anchor target path :=
  (mem_layeredSearch hne 6 path).trans shortEntityPath_iff.symm

theorem pairwise_neighborEntities (graph : JoinGraph) (entity : String) :
    (neighborEntities graph entity).Pairwise (· < ·) :=
  pairwise_pySorted (nodup_eraseDups _)

theorem pairwise_structuralShortestPaths (graph : JoinGraph) (anchor target : String)
    (maxHops : Nat) : (structuralShortestPaths graph anchor target maxHops).Pairwise PathBefore :=
  layeredSearch_pairwise (pairwise_neighborEntities graph) anchor target maxHops

/-- Paths in strict order are different. -/
theorem nodup_structuralShortestPaths (graph : JoinGraph) (anchor target : String)
    (maxHops : Nat) : (structuralShortestPaths graph anchor target maxHops).Nodup := by
  refine (pairwise_structuralShortestPaths graph anchor target maxHops).imp ?_
  rintro p _ hbefore rfl
  exact lt_irrefl (p.map Prod.snd) hbefore

theorem nodup_filterStructuralPathsByVia (graph : JoinGraph) (via : List String)
    (anchor target : String) : (filterStructuralPathsByVia graph via
      (structuralShortestPaths graph anchor target)).Nodup := by
  have hnodup := nodup_structuralShortestPaths graph anchor target 6
  unfold filterStructuralPathsByVia
  split
  · exact hnodup
  · exact hnodup.filter _

/-- Every hop of a shortest path has a join. -/
theorem ShortEntityPath.hop_joins {path : StructuralPath}
    (h : ShortEntityPath edges anchor target path) {hop : String × String} (hhop : hop ∈ path) :
    parallelJoins edges hop ≠ [] := by
  obtain ⟨before, after, rfl⟩ := List.append_of_mem hhop
  obtain ⟨join, hjoin, hend⟩ := List.mem_filterMap.1 h.1.1.of_edge.2
  exact List.ne_nil_of_mem (mem_parallelJoins.2 ⟨hjoin, hend⟩)

/-- The search's test for `via`. -/
theorem viaFeasible_iff {path : StructuralPath} :
    viaFeasible (buildJoinGraph edges) via path = true ↔ CarriesVia edges via path := by
  have hnames : ∀ name, name ∈ (canonicalsOnStructuralPath (buildJoinGraph edges) path).map
      (·.name) ↔ ∃ hop ∈ path, ∃ join ∈ parallelJoins edges hop, join.name = name := by
    intro name
    simp only [canonicalsOnStructuralPath, List.mem_map, List.mem_flatMap,
      (hopEntries_perm _).mem_iff]
    constructor
    · rintro ⟨_, ⟨hop, hhop, _, ⟨join, hjoin, rfl⟩, rfl⟩, rfl⟩
      exact ⟨hop, hhop, join, hjoin, by simp⟩
    · rintro ⟨hop, hhop, join, hjoin, rfl⟩
      exact ⟨join, ⟨hop, hhop, _, ⟨join, hjoin, rfl⟩, by simp⟩, rfl⟩
  simp only [viaFeasible, List.all_eq_true, decide_eq_true_eq, hnames, CarriesVia]

theorem mem_filterStructuralPathsByVia (hne : anchor ≠ target) {path : StructuralPath} :
    path ∈ filterStructuralPathsByVia (buildJoinGraph edges) via
        (structuralShortestPaths (buildJoinGraph edges) anchor target) ↔
      CarryingPath edges anchor target via path := by
  rw [mem_feasible hne, Feasible, ← shortEntityPath_iff, viaFeasible_iff, CarryingPath]

/-! ## The hops -/

private theorem hopEntry_walks {hop : String × String} {join : CanonicalJoin}
    (hjoin : join ∈ parallelJoins edges hop)
    (heq : parallelJoins edges hop = [join] ∨
      (parallelJoins edges hop).filter (·.name ∈ via) = [join]) :
    WalksHop edges via hop (hop.1, (hopEntry hop join).toChainEdge) := by
  obtain ⟨-, hend⟩ := mem_parallelJoins.1 hjoin
  have hself := join.no_self
  unfold otherEnd at hend
  unfold hopEntry GraphEntry.toChainEdge
  split at hend
  · next hsource =>
    have hother : join.sourceEntity ≠ hop.2 := by
      rw [← Option.some.inj hend]
      exact hself
    rw [if_pos hsource]
    exact ⟨rfl, rfl, heq, by simpa using hother, by simp [hsource]⟩
  · next hsource =>
    rw [if_neg hsource]
    split at hend
    · exact ⟨rfl, rfl, heq, by simpa using Option.some.inj hend, by simp [hsource]⟩
    · simp at hend

/-- A hop with joins resolves to a link along it, unless it is unsettled. -/
theorem resolveHop_cases {hop : String × String} (hjoins : parallelJoins edges hop ≠ []) :
    (¬ Unsettled edges via hop ∧ ∃ link, resolveHop (buildJoinGraph edges) via hop = .ok link ∧
        WalksHop edges via hop link) ∨
      (Unsettled edges via hop ∧ ∃ x y names,
        resolveHop (buildJoinGraph edges) via hop = .error (.ambiguousJoin x y names)) := by
  have hperm := @hopEntries_perm edges hop
  have hlen := hperm.length_eq
  have hmatch : ((hopEntries (buildJoinGraph edges) hop).filter (·.join.name ∈ via)).Perm
      (((parallelJoins edges hop).filter (·.name ∈ via)).map (hopEntry hop)) := by
    refine (hperm.filter _).trans ?_
    rw [List.filter_map]
    simp [Function.comp_def]
  have hmatchLen := hmatch.length_eq
  rw [List.length_map] at hlen hmatchLen
  unfold resolveHop
  split
  · next hnil =>
    rw [hnil, List.length_nil] at hlen
    exact absurd (List.eq_nil_of_length_eq_zero hlen.symm) hjoins
  · next entry hone =>
    rw [hone] at hperm hlen
    obtain ⟨join, hjoin⟩ := List.length_eq_one_iff.1 hlen.symm
    rw [hjoin, List.map_singleton, List.singleton_perm_singleton] at hperm
    refine .inl ⟨fun h => by simp [Unsettled, hjoin] at h, _, rfl, ?_⟩
    rw [hperm]
    exact hopEntry_walks (by simp [hjoin]) (.inl hjoin)
  · next hnil hsingle =>
    have hseveral : 1 < (parallelJoins edges hop).length := by
      rw [← hlen]
      match hcand : hopEntries (buildJoinGraph edges) hop with
      | [] => exact absurd hcand hnil
      | [entry] => exact absurd hcand (hsingle entry)
      | _ :: _ :: _ => simp
    split
    · next hnone =>
      rw [hnone, List.length_nil] at hmatchLen
      exact .inr ⟨⟨hseveral, by omega⟩, _, _, _, rfl⟩
    · next entry hone =>
      rw [hone] at hmatch hmatchLen
      obtain ⟨join, hjoin⟩ := List.length_eq_one_iff.1 hmatchLen.symm
      have hmem : join ∈ (parallelJoins edges hop).filter (·.name ∈ via) := by simp [hjoin]
      rw [hjoin, List.map_singleton, List.singleton_perm_singleton] at hmatch
      refine .inl ⟨fun h => h.2 (by simp [hjoin]), _, rfl, ?_⟩
      rw [hmatch]
      exact hopEntry_walks (List.mem_of_mem_filter hmem) (.inr hjoin)
    · next hnone hmany =>
      refine .inr ⟨⟨hseveral, fun hone => ?_⟩, _, _, _, rfl⟩
      obtain ⟨entry, hentry⟩ := List.length_eq_one_iff.1 (hmatchLen.trans hone)
      exact hmany entry hentry

/-! ## The outcomes -/

/-- Two outcomes are not due at once. -/
theorem Due.unique {o o' : ChainOutcome} (h : Due edges anchor target via o)
    (h' : Due edges anchor target via o') : o = o' := by
  -- a path that carries `via` is a shortest path, and the only one is no other
  have hpath : ∀ path, CarryingPath edges anchor target via path →
      ShortEntityPath edges anchor target path := fun _ h => h.1
  cases o <;> cases o' <;> first | rfl | grind [Due, OnlyPath]

/-- The links that the hops of a path resolve to. -/
private theorem walksHops {path : StructuralPath} {chain : List (String × ChainEdge)}
    (h : List.Forall₂ (fun hop link => resolveHop (buildJoinGraph edges) via hop = .ok link)
      path chain) (hpath : ∀ hop ∈ path, parallelJoins edges hop ≠ []) :
    (∀ hop ∈ path, ¬ Unsettled edges via hop) ∧
      List.Forall₂ (WalksHop edges via) path chain := by
  induction h with
  | nil => exact ⟨by simp, .nil⟩
  | @cons hop link path chain hlink _ ih =>
    obtain ⟨hsettled, hwalks⟩ := ih fun hop hhop => hpath hop (List.mem_cons_of_mem _ hhop)
    rcases @resolveHop_cases edges via _ (hpath hop List.mem_cons_self) with
      ⟨hhop, link', hlink', hwalk⟩ | ⟨-, x, y, names, herror⟩
    · obtain rfl := Except.ok.inj (hlink.symm.trans hlink')
      exact ⟨List.forall_mem_cons.2 ⟨hhop, hsettled⟩, .cons hwalk hwalks⟩
    · rw [herror] at hlink
      simp at hlink

/-- The hops of a path resolve, or the first that does not is unsettled. -/
private theorem mapM_resolveHop {path : StructuralPath}
    (hpath : ∀ hop ∈ path, parallelJoins edges hop ≠ []) :
    ((∀ hop ∈ path, ¬ Unsettled edges via hop) ∧
        ∃ chain, path.mapM (resolveHop (buildJoinGraph edges) via) = .ok chain ∧
          List.Forall₂ (WalksHop edges via) path chain) ∨
      ((∃ hop ∈ path, Unsettled edges via hop) ∧
        ∃ x y names, path.mapM (resolveHop (buildJoinGraph edges) via) =
          .error (.ambiguousJoin x y names)) := by
  cases hmap : path.mapM (resolveHop (buildJoinGraph edges) via) with
  | ok chain =>
    obtain ⟨hsettled, hwalks⟩ := walksHops (mapM_eq_ok hmap) hpath
    exact .inl ⟨hsettled, chain, rfl, hwalks⟩
  | error e =>
    obtain ⟨hop, hhop, he⟩ := mapM_eq_error hmap
    rcases @resolveHop_cases edges via _ (hpath hop hhop) with ⟨-, link, hlink, -⟩ |
      ⟨hunsettled, x, y, names, herror⟩
    · rw [hlink] at he
      simp at he
    · rw [herror] at he
      obtain rfl := Except.error.inj he
      exact .inr ⟨⟨hop, hhop, hunsettled⟩, x, y, names, rfl⟩

/-- The hops of a path can be named. -/
theorem exists_renderStructuralPath {path : StructuralPath}
    (hpath : ∀ hop ∈ path, parallelJoins edges hop ≠ []) :
    ∃ names, renderStructuralPath (buildJoinGraph edges) path = .ok names := by
  cases hmap : renderStructuralPath (buildJoinGraph edges) path with
  | ok names => exact ⟨names, rfl⟩
  | error e =>
    unfold renderStructuralPath at hmap
    obtain ⟨hop, hhop, he⟩ := mapM_eq_error hmap
    split at he
    · simp at he
    · next hnil =>
      have hperm := (pySorted_perm ((hopEntries (buildJoinGraph edges) hop).map
        (·.join.name))).length_eq.symm.trans (congrArg List.length hnil)
      rw [List.length_map, (hopEntries_perm hop).length_eq, List.length_map] at hperm
      exact absurd (List.eq_nil_of_length_eq_zero hperm) (hpath hop hhop)

/-- The candidates of an ambiguous path can be named. -/
private theorem exists_candidatePaths {paths : List StructuralPath}
    (hpaths : ∀ path ∈ paths, ∀ hop ∈ path, parallelJoins edges hop ≠ []) :
    ∃ names, paths.mapM (renderStructuralPath (buildJoinGraph edges)) = .ok names := by
  cases hmap : paths.mapM (renderStructuralPath (buildJoinGraph edges)) with
  | ok names => exact ⟨names, rfl⟩
  | error e =>
    obtain ⟨path, hpath, he⟩ := mapM_eq_error hmap
    obtain ⟨names, hnames⟩ := exists_renderStructuralPath (hpaths path hpath)
    simp [hnames] at he

/-- The search ends with the outcome that is due, and its chain walks the only path. -/
theorem findCanonicalChain_due (hne : anchor ≠ target) :
    Due edges anchor target via
        (chainOutcome (findCanonicalChain (buildJoinGraph edges) anchor target via)) ∧
      ∀ chain consumed,
        findCanonicalChain (buildJoinGraph edges) anchor target via = .ok (chain, consumed) →
        ∃ path, OnlyPath edges anchor target via path ∧
          List.Forall₂ (WalksHop edges via) path chain := by
  have hmem : ∀ path, path ∈ structuralShortestPaths (buildJoinGraph edges) anchor target ↔
      ShortEntityPath edges anchor target path := fun _ => mem_structuralShortestPaths hne
  have hcarry : ∀ path, path ∈ filterStructuralPathsByVia (buildJoinGraph edges) via
        (structuralShortestPaths (buildJoinGraph edges) anchor target) ↔
      CarryingPath edges anchor target via path := fun _ => mem_filterStructuralPathsByVia hne
  unfold findCanonicalChain
  split
  · split
    · next hnil =>
      refine ⟨fun ⟨path, hpath⟩ => ?_, by simp⟩
      rw [← hmem, hnil] at hpath
      exact List.not_mem_nil hpath
    · next hcons =>
      obtain ⟨path, hpath⟩ := List.exists_mem_of_ne_nil _ hcons
      split
      · next hnone =>
        refine ⟨⟨⟨path, (hmem path).1 hpath⟩, fun ⟨path', hpath'⟩ => ?_⟩, by simp⟩
        rw [← hcarry, hnone] at hpath'
        exact List.not_mem_nil hpath'
      · next only hone =>
        simp only [hone, List.mem_singleton] at hcarry
        have honly : OnlyPath edges anchor target via only :=
          ⟨(hcarry only).1 rfl, fun other hother => (hcarry other).2 hother⟩
        rcases @mapM_resolveHop edges via only (fun hop => honly.1.1.hop_joins) with
          ⟨hsettled, chain, hchain, hwalks⟩ | ⟨hunsettled, x, y, names, herror⟩
        · rw [hchain]
          refine ⟨⟨only, honly, hsettled⟩, fun chain' consumed h => ?_⟩
          obtain ⟨rfl, -⟩ := Prod.mk.inj (Except.ok.inj h)
          exact ⟨only, honly, hwalks⟩
        · rw [herror]
          exact ⟨⟨only, honly, hunsettled⟩, by simp [bind, Except.bind]⟩
      · next paths hnone hmany =>
        obtain ⟨names, hnames⟩ := exists_candidatePaths fun path hpath hop =>
          ((hcarry path).1 hpath).1.hop_joins
        rw [hnames]
        refine ⟨?_, by simp [bind, Except.bind]⟩
        have hnodup := nodup_filterStructuralPathsByVia (buildJoinGraph edges) via anchor target
        match hpaths : filterStructuralPathsByVia (buildJoinGraph edges) via
          (structuralShortestPaths (buildJoinGraph edges) anchor target) with
        | [] => exact absurd hpaths hnone
        | [path] => exact absurd hpaths (hmany path)
        | path :: other :: _ =>
          rw [hpaths] at hnodup hcarry
          exact ⟨path, other, fun heq => by simp [heq] at hnodup,
            (hcarry path).1 List.mem_cons_self,
            (hcarry other).1 (List.mem_cons_of_mem _ List.mem_cons_self)⟩
  · next hends =>
    refine ⟨fun ⟨path, hpath⟩ => hends ?_, by simp⟩
    obtain ⟨hanchor, htarget⟩ := has_ends (shortEntityPath_iff.1 hpath).1.1 hne
    rw [hanchor, htarget]
    rfl

/-- The structural search finds exactly the shortest paths, in lexicographic order, and the
search for a chain ends with each outcome exactly when it is due. -/
theorem findCanonicalChain_exact (edges : List CanonicalJoin) {anchor target : String}
    (hne : anchor ≠ target) (via : List String) :
    ((structuralShortestPaths (buildJoinGraph edges) anchor target).Pairwise PathBefore ∧
        ∀ path, path ∈ structuralShortestPaths (buildJoinGraph edges) anchor target ↔
          ShortEntityPath edges anchor target path) ∧
      (∀ outcome,
        chainOutcome (findCanonicalChain (buildJoinGraph edges) anchor target via) = outcome ↔
          Due edges anchor target via outcome) ∧
      ∀ chain consumed,
        findCanonicalChain (buildJoinGraph edges) anchor target via = .ok (chain, consumed) →
        ∃ path, OnlyPath edges anchor target via path ∧
          List.Forall₂ (WalksHop edges via) path chain := by
  obtain ⟨hdue, hchain⟩ := @findCanonicalChain_due edges anchor target via hne
  refine ⟨⟨pairwise_structuralShortestPaths _ _ _ _, fun _ => mem_structuralShortestPaths hne⟩,
    fun outcome => ⟨?_, hdue.unique⟩, hchain⟩
  rintro rfl
  exact hdue

/-- Orders reach their region by two equally short ways. -/
def diamondJoins : List CanonicalJoin :=
  [orderCustomer,
    { name := "order_store", sourceEntity := "order", targetEntity := "store",
      on := [{ sourceColumn := "store_id", targetColumn := "id" }] },
    customerRegion,
    { name := "store_region", sourceEntity := "store", targetEntity := "region",
      on := customerRegion.on, on_ne_nil := customerRegion.on_ne_nil }]

theorem findCanonicalChain_exact_diamond :
    ShortEntityPath diamondJoins "order" "region" [("order", "store"), ("store", "region")] ∧
      Due diamondJoins "order" "region" [] .ambiguousPath ∧
      Due diamondJoins "order" "region" ["order_store"] .chain := by
  have hne : "order" ≠ "region" := by decide
  refine ⟨((findCanonicalChain_exact diamondJoins hne []).1.2 _).1 (by decide),
    ((findCanonicalChain_exact diamondJoins hne []).2.1 _).1 (by decide),
    ((findCanonicalChain_exact diamondJoins hne ["order_store"]).2.1 _).1 (by decide)⟩

end SchemaBrain.Semantic
