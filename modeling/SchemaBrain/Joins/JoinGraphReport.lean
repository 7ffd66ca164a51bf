import Mathlib.Data.String.Basic
import Mathlib.Order.Bounds.Basic
import SchemaBrain.Base.Collections
import SchemaBrain.Base.Python
import SchemaBrain.Base.SimplePaths
import SchemaBrain.Core.Model

/-!
# The join graph report

`detect_cycles_in_join_graph`: the cycles of the graph of the canonical joins, its longest path
and the entities that no join touches. The cycles and the path come from one search with an
explicit stack for each source entity.
-/

namespace SchemaBrain.Joins

open Base Core

/-- `JoinGraphReport`. -/
structure JoinGraphReport where
  cycles : List (List String)
  isolatedEntities : List String
  maxPathLength : Nat
  deriving DecidableEq

/-- `adjacency`: the targets of each source, sorted. -/
def adjacency (joins : List CanonicalJoin) : List (String × List String) :=
  (dictGroups (joins.map fun join => (join.sourceEntity, join.targetEntity))).map fun item =>
    (item.1, pySorted item.2)

/-- `connected`. -/
def connected (joins : List CanonicalJoin) : List String :=
  (joins.flatMap fun join => [join.sourceEntity, join.targetEntity]).eraseDups

/-- `_canonical_cycle`. -/
def canonicalCycle (cycle : List String) : List String :=
  let body := cycle.dropLast
  match body.min? with
  | none => cycle
  | some smallest =>
    let minIdx := body.idxOf smallest
    let rotated := body.drop minIdx ++ body.take minIdx
    rotated ++ rotated.take 1

/-- What the search does with a neighbour: a cycle, or a length of a path. -/
def reportHooks : DfsHooks String (List (List String) × Nat) where
  back found path neighbor :=
    (found.1 ++ [path.drop (path.idxOf neighbor) ++ [neighbor]], found.2)
  push found path := (found.1, max found.2 path.length)
  leaf found path _ := (found.1, max found.2 (path.length + 1))

/-- `entity in adjacency`. -/
def isSource (joins : List CanonicalJoin) (entity : String) : Bool :=
  (dictGet (adjacency joins) entity).isSome

/-- The entities that the searches start from. -/
def roots (joins : List CanonicalJoin) : List String :=
  (pySorted (connected joins)).filter (isSource joins)

/-- The searches, one for each root, with a number of rounds for each. -/
def walkRoots (rounds : Nat) (joins : List CanonicalJoin) : Option (List (List String) × Nat) :=
  (roots joins).foldlM (fun found root => dfsRun (dictList (adjacency joins)) (isSource joins)
    reportHooks rounds (dfsAt root 0 [] [root] found)) ([], 0)

/-- The report on what the searches found. -/
def reportOf (joins : List CanonicalJoin) (allEntityNames : Option (List String))
    (found : List (List String) × Nat) : JoinGraphReport where
  cycles := (found.1.map canonicalCycle).eraseDups.insertionSort (· ≤ ·)
  isolatedEntities := (allEntityNames.map fun names =>
    pySorted (names.eraseDups.filter (· ∉ connected joins))).getD []
  maxPathLength := found.2

/-- `detect_cycles_in_join_graph`, with a number of rounds for each search. -/
def detectCyclesInJoinGraph (rounds : Nat) (joins : List CanonicalJoin)
    (allEntityNames : Option (List String)) : Option JoinGraphReport :=
  if joins = [] then
    some { cycles := [], isolatedEntities := (allEntityNames.map pySorted).getD [],
           maxPathLength := 0 }
  else (walkRoots rounds joins).map (reportOf joins allEntityNames)

/-! ## The graph -/

/-- The entities that a join leads to from an entity. -/
def successors (joins : List CanonicalJoin) (entity : String) : List String :=
  (joins.filter (·.sourceEntity = entity)).map (·.targetEntity)

variable {joins : List CanonicalJoin} {entity target : String}

theorem mem_successors : target ∈ successors joins entity ↔
    ∃ join ∈ joins, join.sourceEntity = entity ∧ join.targetEntity = target := by
  simp [successors, and_assoc]

private theorem valuesOf_joins (joins : List CanonicalJoin) (entity : String) :
    valuesOf (joins.map fun join => (join.sourceEntity, join.targetEntity)) entity =
      successors joins entity := by
  rw [valuesOf, List.filter_map, List.map_map]
  rfl

theorem mem_adjacency :
    target ∈ dictList (adjacency joins) entity ↔ target ∈ successors joins entity := by
  have hsorted : dictList (adjacency joins) entity = pySorted (dictList (dictGroups
      (joins.map fun join => (join.sourceEntity, join.targetEntity))) entity) := by
    rw [dictList, adjacency, dictGet_map, dictList]
    cases dictGet _ entity <;> rfl
  rw [hsorted, mem_pySorted, dictList_dictGroups, valuesOf_joins]

theorem isSource_iff : isSource joins entity = true ↔ successors joins entity ≠ [] := by
  rw [isSource, adjacency, dictGet_map, Option.isSome_map, dictGet_dictGroups]
  simp [successors]

theorem mem_connected : entity ∈ connected joins ↔
    ∃ join ∈ joins, join.sourceEntity = entity ∨ join.targetEntity = entity := by
  simp [connected, List.mem_eraseDups, eq_comm]

/-- A join joins two entities. -/
theorem vertexPath_pair {join : CanonicalJoin} (hjoin : join ∈ joins) :
    VertexPath (successors joins) [join.sourceEntity, join.targetEntity] where
  chain := List.isChain_pair.2 (mem_successors.2 ⟨join, hjoin, rfl, rfl⟩)
  nodup := by simpa using join.no_self

/-! ## The walk -/

/-- The graph that the searches walk. -/
private theorem innerVertices_joins (joins : List CanonicalJoin) :
    InnerVertices (dictList (adjacency joins)) (isSource joins) (connected joins) where
  inner_iff entity := by
    simp only [isSource_iff, ne_eq, List.eq_nil_iff_forall_not_mem, mem_adjacency]
  finite entity h := by
    obtain ⟨target, htarget⟩ := List.exists_mem_of_ne_nil _ (isSource_iff.1 h)
    obtain ⟨join, hjoin, hsource, -⟩ := mem_successors.1 htarget
    exact mem_connected.2 ⟨join, hjoin, .inl hsource⟩

private theorem record_eq (isSource : String → Bool) (found : List (List String) × Nat)
    (visit : List String × String) :
    reportHooks.record isSource found visit =
      if visit.2 ∈ visit.1 then
        (found.1 ++ [visit.1.drop (visit.1.idxOf visit.2) ++ [visit.2]], found.2)
      else (found.1, max found.2 (visit.1 ++ [visit.2]).length) := by
  unfold DfsHooks.record reportHooks
  split
  · rfl
  · split <;> simp

/-- The cycles are those of the visits that come back. -/
private theorem mem_cycles_record (isSource : String → Bool) (visits : List (List String × String))
    (found : List (List String) × Nat) (cycle : List String) :
    cycle ∈ (visits.foldl (reportHooks.record isSource) found).1 ↔ cycle ∈ found.1 ∨
      ∃ visit ∈ visits, visit.2 ∈ visit.1 ∧
        visit.1.drop (visit.1.idxOf visit.2) ++ [visit.2] = cycle := by
  induction visits generalizing found with
  | nil => simp
  | cons visit visits ih =>
    rw [List.foldl_cons, ih, List.exists_mem_cons_iff, record_eq, ← or_assoc]
    refine or_congr_left ?_
    by_cases hback : visit.2 ∈ visit.1
    · simp [hback, eq_comm]
    · simp [hback]

/-- The length is the greatest one of the visits that leave their path. -/
private theorem isGreatest_record (isSource : String → Bool)
    (visits : List (List String × String)) (found : List (List String) × Nat) :
    IsGreatest (insert found.2 {n | ∃ visit ∈ visits, visit.2 ∉ visit.1 ∧
        (visit.1 ++ [visit.2]).length = n})
      (visits.foldl (reportHooks.record isSource) found).2 := by
  induction visits generalizing found with
  | nil => simp
  | cons visit visits ih =>
    have hih := ih (reportHooks.record isSource found visit)
    rw [List.foldl_cons]
    simp only [List.exists_mem_cons_iff]
    rw [record_eq] at hih ⊢
    by_cases hback : visit.2 ∈ visit.1
    · simpa [hback] using hih
    · rw [if_neg hback] at hih ⊢
      obtain ⟨hmem, hupper⟩ := hih
      constructor
      · rcases hmem with hmax | hlater
        · rw [hmax]
          rcases max_choice found.2 (visit.1 ++ [visit.2]).length with h | h
          · exact .inl h
          · exact .inr (.inl ⟨hback, h.symm⟩)
        · exact .inr (.inr hlater)
      · rintro n (rfl | ⟨-, rfl⟩ | hlater)
        · exact (le_max_left _ _).trans (hupper (.inl rfl))
        · exact (le_max_right _ _).trans (hupper (.inl rfl))
        · exact hupper (.inr hlater)

private theorem mem_roots : entity ∈ roots joins ↔ isSource joins entity = true := by
  rw [roots, List.mem_filter, mem_pySorted]
  exact and_iff_right_of_imp ((innerVertices_joins joins).finite entity)

/-- The visits that leave their path have the lengths of the paths of two or more entities. -/
private theorem leaving_length_iff {n : Nat} :
    (∃ visit ∈ (roots joins).flatMap (visitsFrom (dictList (adjacency joins)) (isSource joins)
        (connected joins)), visit.2 ∉ visit.1 ∧ (visit.1 ++ [visit.2]).length = n) ↔
      ∃ path, (VertexPath (successors joins) path ∧ 2 ≤ path.length) ∧ path.length = n := by
  have hgraph := innerVertices_joins joins
  simp only [mem_visitsFrom_roots_iff hgraph (fun _ => mem_roots),
    ← vertexPath_congr (fun _ _ => mem_adjacency), ← leaves_iff]
  constructor
  · rintro ⟨visit, hvisit, hnew, hlength⟩
    exact ⟨_, ⟨visit, hvisit, hnew, rfl⟩, hlength⟩
  · rintro ⟨_, ⟨visit, hvisit, hnew, rfl⟩, hlength⟩
    exact ⟨visit, hvisit, hnew, hlength⟩

/-- With a join, the searches end with the elementary cycles and the greatest length of a path. -/
private theorem exists_walkRoots (hjoins : joins ≠ []) :
    ∃ n found, (∀ rounds, n ≤ rounds → walkRoots rounds joins = some found) ∧
      (∀ cycle, cycle ∈ found.1 ↔
        ∃ body, ElementaryCycle (successors joins) body ∧ closedWalk body = cycle) ∧
      IsGreatest {n | ∃ path, VertexPath (successors joins) path ∧ path.length = n} found.2 := by
  have hgraph := innerVertices_joins joins
  obtain ⟨n, hn⟩ := @exists_dfsRuns _ _ _ _ _ reportHooks _ hgraph _
    (fun _ => mem_roots.1) ([], 0)
  refine ⟨n, _, hn, fun cycle => ?_, ?_⟩
  · rw [mem_cycles_record]
    simp only [mem_visitsFrom_roots_iff hgraph (fun _ => mem_roots), List.not_mem_nil, false_or]
    rw [closes_iff]
    simp only [elementaryCycle_congr fun _ _ => mem_adjacency]
  · obtain ⟨hmem, hupper⟩ := isGreatest_record (isSource joins) ((roots joins).flatMap
      (visitsFrom (dictList (adjacency joins)) (isSource joins) (connected joins))) ([], 0)
    -- a join is a path of two entities, so that one entity alone is never the longest path
    obtain ⟨join, hjoin⟩ := List.exists_mem_of_ne_nil _ hjoins
    have htwo := hupper (.inr (leaving_length_iff.2
      ⟨_, ⟨vertexPath_pair hjoin, le_rfl⟩, rfl⟩))
    constructor
    · rcases hmem with hzero | hlong
      · rw [hzero] at htwo
        exact absurd htwo (by simp)
      · obtain ⟨path, ⟨hpath, -⟩, hlength⟩ := leaving_length_iff.1 hlong
        exact ⟨path, hpath, hlength⟩
    · rintro _ ⟨path, hpath, rfl⟩
      by_cases hlong : 2 ≤ path.length
      · exact hupper (.inr (leaving_length_iff.2 ⟨path, ⟨hpath, hlong⟩, rfl⟩))
      · exact (by omega : path.length ≤ 2).trans htwo

/-! ## The report -/

/-- A cycle is reported from its smallest entity on. -/
private theorem canonicalCycle_closedWalk {body : List String} (hne : body ≠ []) :
    ∃ n, canonicalCycle (closedWalk body) = closedWalk (body.rotate n) ∧
      StartsSmallest (body.rotate n) := by
  have hdrop : (closedWalk body).dropLast = body := by
    cases body with
    | nil => rfl
    | cons first rest => exact List.dropLast_concat
  cases hmin : body.min? with
  | none => exact absurd (List.min?_eq_none_iff.1 hmin) hne
  | some smallest =>
    have hmem : smallest ∈ body := List.min?_mem hmin
    refine ⟨body.idxOf smallest, ?_, startsSmallest_rotate hmin⟩
    have hle := (List.idxOf_lt_length_iff.2 hmem).le
    rw [canonicalCycle, hdrop, hmin, List.rotate_eq_drop_append_take hle]
    rfl

/-- What a report says of the joins and the entities is so. -/
structure ReportExact (joins : List CanonicalJoin) (allEntityNames : Option (List String))
    (report : JoinGraphReport) : Prop where
  cycles_sorted : report.cycles.Pairwise (· < ·)
  cycles : ∀ cycle, cycle ∈ report.cycles ↔
    ∃ body, ElementaryCycle (successors joins) body ∧ StartsSmallest body ∧ closedWalk body = cycle
  once : ∀ body, ElementaryCycle (successors joins) body →
    ∃! cycle, cycle ∈ report.cycles ∧ ∃ n, closedWalk (body.rotate n) = cycle
  no_path : joins = [] → report.maxPathLength = 0
  longest : joins ≠ [] →
    IsGreatest {n | ∃ path, VertexPath (successors joins) path ∧ path.length = n}
      report.maxPathLength
  isolated_sorted : ∀ names, allEntityNames = some names →
    report.isolatedEntities.Pairwise (· < ·)
  isolated : ∀ names, allEntityNames = some names → ∀ entity,
    entity ∈ report.isolatedEntities ↔ entity ∈ names ∧
      ∀ join ∈ joins, join.sourceEntity ≠ entity ∧ join.targetEntity ≠ entity

/-- The detection ends, with an exact report. -/
def EndsExact (joins : List CanonicalJoin) (allEntityNames : Option (List String)) : Prop :=
  ∃ n report, (∀ rounds, n ≤ rounds →
    detectCyclesInJoinGraph rounds joins allEntityNames = some report) ∧
      ReportExact joins allEntityNames report

/-- The closed walks from smallest entities are one for each cycle. -/
private theorem existsUnique_cycle {cycles : List (List String)} {body : List String}
    (hcycles : ∀ cycle, cycle ∈ cycles ↔ ∃ body, ElementaryCycle (successors joins) body ∧
      StartsSmallest body ∧ closedWalk body = cycle)
    (hbody : ElementaryCycle (successors joins) body) :
    ∃! cycle, cycle ∈ cycles ∧ ∃ n, closedWalk (body.rotate n) = cycle := by
  obtain ⟨n, -, hsmallest⟩ := canonicalCycle_closedWalk hbody.ne_nil
  have hrotate := hbody.rotate n
  refine ⟨closedWalk (body.rotate n), ⟨(hcycles _).2 ⟨_, hrotate, hsmallest, rfl⟩, n, rfl⟩, ?_⟩
  rintro _ ⟨hmem, m, rfl⟩
  obtain ⟨body', -, hsmallest', heq⟩ := (hcycles _).1 hmem
  rw [closedWalk_injective heq] at hsmallest'
  have hrotated : (body.rotate n) ~r (body.rotate m) :=
    (List.IsRotated.symm ⟨n, rfl⟩).trans ⟨m, rfl⟩
  obtain ⟨k, hk⟩ := hrotated
  rw [← hk] at hsmallest' ⊢
  rw [rotate_eq_of_startsSmallest hrotate.nodup hsmallest hsmallest']

private theorem pairwise_sorted_cycles (cycles : List (List String)) :
    (cycles.eraseDups.insertionSort (· ≤ ·)).Pairwise (· < ·) := by
  have hperm := List.perm_insertionSort (· ≤ ·) cycles.eraseDups
  refine ((List.pairwise_insertionSort (· ≤ ·) cycles.eraseDups).and
    (hperm.nodup_iff.2 (nodup_eraseDups cycles))).imp ?_
  exact fun ⟨hle, hne⟩ => lt_of_le_of_ne hle hne

private theorem endsExact_of_joins (hjoins : joins ≠ [])
    (allEntityNames : Option (List String)) : EndsExact joins allEntityNames := by
  obtain ⟨n, found, hfound, hcycles, hlongest⟩ := exists_walkRoots hjoins
  refine ⟨n, reportOf joins allEntityNames found, fun rounds hrounds => ?_, ?_⟩
  · rw [detectCyclesInJoinGraph, if_neg hjoins, hfound rounds hrounds, Option.map_some]
  · have hmem : ∀ cycle, cycle ∈ (found.1.map canonicalCycle).eraseDups.insertionSort (· ≤ ·) ↔
        ∃ body, ElementaryCycle (successors joins) body ∧ StartsSmallest body ∧
          closedWalk body = cycle := by
      intro cycle
      rw [List.mem_insertionSort, List.mem_eraseDups, List.mem_map]
      constructor
      · rintro ⟨_, hbefore, rfl⟩
        obtain ⟨body, hbody, rfl⟩ := (hcycles _).1 hbefore
        obtain ⟨k, hcanonical, hsmallest⟩ := canonicalCycle_closedWalk hbody.ne_nil
        exact ⟨body.rotate k, hbody.rotate k, hsmallest, hcanonical.symm⟩
      · rintro ⟨body, hbody, hsmallest, rfl⟩
        obtain ⟨k, hcanonical, hsmallest'⟩ := canonicalCycle_closedWalk hbody.ne_nil
        refine ⟨_, (hcycles _).2 ⟨body, hbody, rfl⟩, ?_⟩
        rw [hcanonical, rotate_eq_of_startsSmallest hbody.nodup hsmallest hsmallest']
    exact {
      cycles_sorted := pairwise_sorted_cycles _
      cycles := hmem
      once := fun body hbody => existsUnique_cycle hmem hbody
      no_path := fun h => absurd h hjoins
      longest := fun _ => hlongest
      isolated_sorted := by
        rintro names rfl
        exact pairwise_pySorted ((nodup_eraseDups names).filter _)
      isolated := by
        rintro names rfl entity
        simp [reportOf, mem_connected, List.mem_eraseDups] }

/-- The report is exact, but for a repeated entity name where no join is there. -/
theorem endsExact_iff (joins : List CanonicalJoin) (allEntityNames : Option (List String)) :
    EndsExact joins allEntityNames ↔
      (joins = [] → ∀ names, allEntityNames = some names → names.Nodup) := by
  by_cases hjoins : joins = []
  · subst hjoins
    have hdetect : ∀ rounds, detectCyclesInJoinGraph rounds [] allEntityNames = some
        { cycles := [], isolatedEntities := (allEntityNames.map pySorted).getD [],
          maxPathLength := 0 } := fun _ => rfl
    have hnone : ∀ body, ¬ ElementaryCycle (successors []) body := by
      rintro body ⟨-, first, last, -, -, hedge⟩
      exact List.not_mem_nil hedge
    constructor
    · rintro ⟨n, report, hends, hexact⟩ - names rfl
      obtain rfl := Option.some.inj ((hdetect n).symm.trans (hends n le_rfl))
      have hsorted : (pySorted names).Pairwise (· < ·) := hexact.isolated_sorted names rfl
      exact (pySorted_perm names).nodup_iff.1 (hsorted.imp fun h => h.ne)
    · intro hnodup
      refine ⟨0, _, fun rounds _ => hdetect rounds, ?_⟩
      exact {
        cycles_sorted := List.Pairwise.nil
        cycles := fun cycle => by simp [hnone]
        once := fun body hbody => absurd hbody (hnone body)
        no_path := fun _ => rfl
        longest := fun h => absurd rfl h
        isolated_sorted := by
          rintro names rfl
          exact pairwise_pySorted (hnodup rfl names rfl)
        isolated := by
          rintro names rfl entity
          simp }
  · exact iff_of_true (endsExact_of_joins hjoins allEntityNames) fun h => absurd h hjoins

/-- Two times the same name without joins: the name is reported two times. -/
theorem not_endsExact : ¬ EndsExact [] (some ["orders", "orders"]) := by
  rintro ⟨n, report, hends, hexact⟩
  obtain rfl := Option.some.inj (hends n le_rfl)
  exact absurd (hexact.isolated_sorted _ rfl) (by decide)

end SchemaBrain.Joins
