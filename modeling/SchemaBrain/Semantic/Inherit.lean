import SchemaBrain.Core.Store
import SchemaBrain.Semantic.JoinGraph

/-!
# Inherited time dimensions

The breadth-first search over joins that keep the anchor's row count, for timestamp
columns of other entities. Its loop always drains its queue, and every candidate comes
with a walk of such joins from the anchor.
-/

namespace SchemaBrain.Semantic

open Base Core

/-- `str.lower()` on the letters that the keywords have. -/
private def lowerAscii (c : Char) : Char :=
  if c.isUpper then Char.ofNat (c.toNat + 32) else c

/-- `keyword in text`. -/
def isInfixOf (keyword : List Char) : List Char → Bool
  | [] => keyword.isEmpty
  | c :: rest => keyword.isPrefixOf (c :: rest) || isInfixOf keyword rest

/-- `_is_timestamp_type`. -/
def isTimestampType (dataType : String) : Bool :=
  let lower := dataType.toList.map lowerAscii
  ["timestamp", "datetime", "date"].any fun keyword => isInfixOf keyword.toList lower

/-- The cardinality of a join walked from `current`. -/
def effectiveCardinality (current : String) (join : CanonicalJoin) : Option Cardinality :=
  if join.sourceEntity = current then join.cardinality else flipCardinality join.cardinality

/-- The cardinalities that keep the number of anchor rows. -/
def preservesRows (c : Option Cardinality) : Bool :=
  c = some .manyToOne || c = some .oneToOne

/-- The timestamp columns of an entity's table, each with the walk that reaches it. -/
def timestampCandidates (store : Store) (entity : String) (path : List String) :
    List (String × List String) :=
  match store.getEntity entity with
  | none => []
  | some e =>
    match store.getTable e.binding with
    | none => []
    | some table =>
      (table.columns.filter (isTimestampType ·.dataType)).map fun col =>
        (entity ++ "." ++ col.name, path)

/-- The variables of the search loop. -/
structure InheritState where
  candidates : List (String × List String)
  visited : List (String × List String)
  frontier : List String

/-- One neighbour of the entity at the head of the queue. -/
def visitNeighbor (store : Store) (current : String) (currentPath : List String)
    (st : InheritState) (entry : GraphEntry) : InheritState :=
  if entry.neighbor ∈ st.visited.map (·.1) then st
  else if preservesRows (effectiveCardinality current entry.join) then
    let newPath := currentPath ++ [entry.join.name]
    { candidates := st.candidates ++ timestampCandidates store entry.neighbor newPath
      visited := st.visited ++ [(entry.neighbor, newPath)]
      frontier := st.frontier ++ [entry.neighbor] }
  else st

/-- `visited[entity]`. -/
def InheritState.pathTo (st : InheritState) (entity : String) : List String :=
  ((st.visited.find? (·.1 = entity)).map (·.2)).getD []

/-- The `while frontier` loop, for at most `fuel` turns. -/
def inheritLoop (store : Store) (graph : JoinGraph) : Nat → InheritState → InheritState
  | 0, st => st
  | fuel + 1, st =>
    match st.frontier with
    | [] => st
    | current :: rest =>
      inheritLoop store graph fuel
        ((graph.get current).foldl (visitNeighbor store current (st.pathTo current))
          { st with frontier := rest })

/-- The search state once the loop has had a turn for every entity. -/
def inheritSearch (store : Store) (graph : JoinGraph) (anchor : String) : InheritState :=
  inheritLoop store graph (graph.length + 1) ⟨[], [(anchor, [])], [anchor]⟩

/-- `_find_inherited_time_dimension`. -/
def findInheritedTimeDimension (store : Store) (graph : JoinGraph) (anchor : String) :
    List (String × List String) :=
  (inheritSearch store graph anchor).candidates

/-! ## The loop drains its queue -/

section Drained

variable {edges : List CanonicalJoin} {store : Store} {anchor : String}

/-- Visited entities are distinct and known to the graph, and the queue holds those that
have had no turn yet. -/
private structure QueueInv (edges : List CanonicalJoin) (anchor : String) (turns : Nat)
    (st : InheritState) : Prop where
  nodup : (st.visited.map (·.1)).Nodup
  known : ∀ x ∈ st.visited.map (·.1), x ∈ anchor :: (buildJoinGraph edges).map (·.1)
  turns_eq : st.visited.length = turns + st.frontier.length

private theorem QueueInv.visitNeighbor {turns : Nat} {st : InheritState}
    (h : QueueInv edges anchor turns st) {current : String} {path : List String}
    {entry : GraphEntry} (hentry : entry ∈ (buildJoinGraph edges).get current) :
    QueueInv edges anchor turns (visitNeighbor store current path st entry) := by
  unfold Semantic.visitNeighbor
  split
  · exact h
  · next hnew =>
    split
    · refine ⟨?_, ?_, ?_⟩
      · rw [List.map_append, List.map_singleton]
        exact List.nodup_append_comm.1 (List.nodup_cons.2 ⟨hnew, h.nodup⟩)
      · intro x hx
        rw [List.map_append, List.mem_append, List.map_singleton, List.mem_singleton] at hx
        rcases hx with hx | rfl
        · exact h.known x hx
        · exact List.mem_cons_of_mem _ (neighbor_mem_keys hentry)
      · simp only [List.length_append, List.length_singleton, h.turns_eq]
        omega
    · exact h

private theorem QueueInv.foldl {turns : Nat} {current : String} {path : List String}
    {entries : List GraphEntry}
    (hentries : ∀ entry ∈ entries, entry ∈ (buildJoinGraph edges).get current)
    {st : InheritState} (h : QueueInv edges anchor turns st) :
    QueueInv edges anchor turns
      (entries.foldl (Semantic.visitNeighbor store current path) st) := by
  induction entries generalizing st with
  | nil => exact h
  | cons entry entries ih =>
    exact ih (fun e he => hentries e (List.mem_cons_of_mem _ he))
      (h.visitNeighbor (hentries entry List.mem_cons_self))

private theorem QueueInv.drained {turns fuel : Nat} {st : InheritState}
    (h : QueueInv edges anchor turns st)
    (hfuel : turns + fuel = (buildJoinGraph edges).length + 1) :
    (inheritLoop store (buildJoinGraph edges) fuel st).frontier = [] := by
  induction fuel generalizing turns st with
  | zero =>
    have hle : st.visited.length ≤ (buildJoinGraph edges).length + 1 := by
      have := (List.subperm_of_subset h.nodup h.known).length_le
      simpa using this
    have := h.turns_eq
    exact List.length_eq_zero_iff.1 (by simp only [inheritLoop]; omega)
  | succ fuel ih =>
    unfold inheritLoop
    split
    · assumption
    · next current rest hfrontier =>
      have hpop : QueueInv edges anchor (turns + 1) { st with frontier := rest } :=
        ⟨h.nodup, h.known, by
          have := h.turns_eq
          rw [hfrontier, List.length_cons] at this
          simp only
          omega⟩
      exact ih (hpop.foldl fun _ he => he) (by omega)

/-- The search has visited everything it queued. -/
theorem inheritSearch_frontier :
    (inheritSearch store (buildJoinGraph edges) anchor).frontier = [] := by
  have hstart : QueueInv edges anchor 0 ⟨[], [(anchor, [])], [anchor]⟩ :=
    ⟨by simp, by simp, by simp⟩
  exact hstart.drained (by omega)

end Drained

/-! ## Candidates -/

section Candidates

variable {graph : JoinGraph} {store : Store} {anchor : String}

/-- A walk that keeps the anchor's row count, under its join names. -/
def PreservingWalk (graph : JoinGraph) (anchor entity : String) (names : List String) : Prop :=
  ∃ walk, EntryWalk graph anchor entity walk ∧ names = walk.map (·.2.join.name) ∧
    ∀ step ∈ walk, preservesRows (effectiveCardinality step.1 step.2.join) = true

/-- A candidate is a timestamp column of another entity, with a walk to it. -/
structure IsCandidate (store : Store) (graph : JoinGraph) (anchor : String)
    (candidate : String × List String) (entity : String) (col : Column) : Prop where
  walk : PreservingWalk graph anchor entity candidate.2
  not_anchor : entity ≠ anchor
  text : candidate.1 = entity ++ "." ++ col.name
  timestamp : isTimestampType col.dataType = true
  bound : ∃ e t, store.getEntity entity = some e ∧ store.getTable e.binding = some t ∧
    col ∈ t.columns

private structure WalkInv (store : Store) (graph : JoinGraph) (anchor : String)
    (st : InheritState) : Prop where
  visited_walk : ∀ v ∈ st.visited, PreservingWalk graph anchor v.1 v.2
  anchor_visited : anchor ∈ st.visited.map (·.1)
  frontier_visited : ∀ x ∈ st.frontier, x ∈ st.visited.map (·.1)
  candidate : ∀ c ∈ st.candidates, ∃ entity col, IsCandidate store graph anchor c entity col

private theorem mem_timestampCandidates {entity : String} {path : List String}
    {c : String × List String} (h : c ∈ timestampCandidates store entity path) :
    c.2 = path ∧ ∃ col, c.1 = entity ++ "." ++ col.name ∧ isTimestampType col.dataType = true ∧
      ∃ e t, store.getEntity entity = some e ∧ store.getTable e.binding = some t ∧
        col ∈ t.columns := by
  unfold timestampCandidates at h
  split at h
  · simp at h
  · next e hentity =>
    split at h
    · simp at h
    · next t htable =>
      obtain ⟨col, hcol, rfl⟩ := List.mem_map.1 h
      obtain ⟨hcol, htimestamp⟩ := List.mem_filter.1 hcol
      exact ⟨rfl, col, rfl, htimestamp, e, t, hentity, htable, hcol⟩

private theorem WalkInv.visitNeighbor {st : InheritState} (h : WalkInv store graph anchor st)
    {current : String} {path : List String} (hpath : PreservingWalk graph anchor current path)
    {entry : GraphEntry} (hentry : entry ∈ graph.get current) :
    WalkInv store graph anchor (visitNeighbor store current path st entry) := by
  unfold Semantic.visitNeighbor
  split
  · exact h
  · next hnew =>
    split
    · next hpreserves =>
      have hwalk : PreservingWalk graph anchor entry.neighbor (path ++ [entry.join.name]) := by
        obtain ⟨walk, hwalk, rfl, hsteps⟩ := hpath
        refine ⟨walk ++ [(current, entry)], .snoc hwalk hentry, by simp, ?_⟩
        intro step hstep
        rcases List.mem_append.1 hstep with hstep | hstep
        · exact hsteps step hstep
        · exact List.mem_singleton.1 hstep ▸ hpreserves
      have hmono : ∀ x ∈ st.visited.map (·.1),
          x ∈ (st.visited ++ [(entry.neighbor, path ++ [entry.join.name])]).map (·.1) := by
        intro x hx
        rw [List.map_append]
        exact List.mem_append_left _ hx
      refine ⟨?_, hmono _ h.anchor_visited, ?_, ?_⟩
      · intro v hv
        rcases List.mem_append.1 hv with hv | hv
        · exact h.visited_walk v hv
        · exact List.mem_singleton.1 hv ▸ hwalk
      · intro x hx
        rcases List.mem_append.1 hx with hx | hx
        · exact hmono x (h.frontier_visited x hx)
        · rw [List.mem_singleton.1 hx]
          simp
      · intro c hc
        rcases List.mem_append.1 hc with hc | hc
        · exact h.candidate c hc
        · obtain ⟨hnames, col, htext, htimestamp, hbound⟩ := mem_timestampCandidates hc
          refine ⟨entry.neighbor, col, hnames ▸ hwalk, ?_, htext, htimestamp, hbound⟩
          exact fun heq => hnew (heq ▸ h.anchor_visited)
    · exact h

private theorem WalkInv.pathTo {st : InheritState} (h : WalkInv store graph anchor st)
    {entity : String} (hvisited : entity ∈ st.visited.map (·.1)) :
    PreservingWalk graph anchor entity (st.pathTo entity) := by
  obtain ⟨v, hv, rfl⟩ := List.mem_map.1 hvisited
  unfold InheritState.pathTo
  cases hfind : st.visited.find? (·.1 = v.1) with
  | none => exact absurd (List.find?_eq_none.1 hfind v hv) (by simp)
  | some w =>
    have hkey : w.1 = v.1 := by simpa using List.find?_some hfind
    have hwalk := h.visited_walk w (List.mem_of_find?_eq_some hfind)
    rwa [hkey] at hwalk

private theorem WalkInv.foldl {current : String} {path : List String}
    (hpath : PreservingWalk graph anchor current path) {entries : List GraphEntry}
    (hentries : ∀ entry ∈ entries, entry ∈ graph.get current) {st : InheritState}
    (h : WalkInv store graph anchor st) :
    WalkInv store graph anchor (entries.foldl (Semantic.visitNeighbor store current path) st) := by
  induction entries generalizing st with
  | nil => exact h
  | cons entry entries ih =>
    exact ih (fun e he => hentries e (List.mem_cons_of_mem _ he))
      (h.visitNeighbor hpath (hentries entry List.mem_cons_self))

private theorem WalkInv.loop {fuel : Nat} {st : InheritState}
    (h : WalkInv store graph anchor st) :
    WalkInv store graph anchor (inheritLoop store graph fuel st) := by
  induction fuel generalizing st with
  | zero => exact h
  | succ fuel ih =>
    unfold inheritLoop
    split
    · exact h
    · next current rest hfrontier =>
      have hcurrent : current ∈ st.visited.map (·.1) :=
        h.frontier_visited current (hfrontier ▸ List.mem_cons_self)
      have hpop : WalkInv store graph anchor { st with frontier := rest } :=
        ⟨h.visited_walk, h.anchor_visited,
          fun x hx => h.frontier_visited x (hfrontier ▸ List.mem_cons_of_mem _ hx), h.candidate⟩
      exact ih (hpop.foldl (h.pathTo hcurrent) fun _ he => he)

/-- Every offered time dimension is a timestamp column behind a walk that keeps the
anchor's row count. -/
theorem isCandidate_of_mem {c : String × List String}
    (h : c ∈ findInheritedTimeDimension store graph anchor) :
    ∃ entity col, IsCandidate store graph anchor c entity col := by
  have hstart : WalkInv store graph anchor ⟨[], [(anchor, [])], [anchor]⟩ :=
    ⟨fun v hv => List.mem_singleton.1 hv ▸ ⟨[], .nil, rfl, by simp⟩, by simp, by simp, by simp⟩
  exact hstart.loop.candidate c h

end Candidates

end SchemaBrain.Semantic
