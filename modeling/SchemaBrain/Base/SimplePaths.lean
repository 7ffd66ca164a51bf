import Mathlib.Data.List.Chain
import Mathlib.Data.List.Nodup
import Mathlib.Data.List.Perm.Subperm
import Mathlib.Data.List.Rotate
import Mathlib.Order.MinMax

/-!
# Simple paths by depth-first search

The simple paths of a finite graph, its elementary cycles, and the search that walks all of them
with an explicit stack of vertices with cursors: no vertex is marked across branches, so the
search ends because a simple path cannot be longer than there are vertices.
-/

namespace SchemaBrain.Base

variable {V β : Type}

/-! ## Paths -/

/-- A path that no vertex is on twice. -/
structure VertexPath (adj : V → List V) (path : List V) : Prop where
  chain : path.IsChain fun v w => w ∈ adj v
  nodup : path.Nodup

/-- The last vertex of a path with one of its neighbours: the edges that a search looks at. -/
def IsVisit (adj : V → List V) (visit : List V × V) : Prop :=
  VertexPath adj visit.1 ∧ ∃ last, visit.1.getLast? = some last ∧ visit.2 ∈ adj last

section Visits

variable [DecidableEq V] (adj : V → List V) (inner : V → Bool)

/-- The visits of a search below a path, for the neighbours that are left of its last vertex, in
the order of the search. -/
def visits : Nat → List V → List V → List (List V × V)
  | 0, path, neighbors => neighbors.map (path, ·)
  | depth + 1, path, neighbors =>
    neighbors.flatMap fun neighbor => (path, neighbor) ::
      if neighbor ∉ path ∧ inner neighbor = true then
        visits depth (path ++ [neighbor]) (adj neighbor)
      else []

variable {adj inner} {path : List V} {last : V} {vertices : List V}

omit [DecidableEq V] in
theorem VertexPath.concat {v : V} (h : VertexPath adj path) (hlast : path.getLast? = some last)
    (hedge : v ∈ adj last) (hnew : v ∉ path) : VertexPath adj (path ++ [v]) where
  chain := by
    refine h.chain.append (List.isChain_singleton v) fun w hw w' hw' => ?_
    obtain rfl : w' = v := by simpa using hw'.symm
    obtain rfl : w = last := Option.some.inj (hw.symm.trans hlast)
    exact hedge
  nodup := List.nodup_append.2 ⟨h.nodup, List.nodup_singleton v, fun w hw w' hw' heq => by
    rw [List.mem_singleton.1 hw'] at heq
    exact hnew (heq ▸ hw)⟩

omit [DecidableEq V] in
theorem VertexPath.of_append {more : List V} (h : VertexPath adj (path ++ more)) :
    VertexPath adj path :=
  ⟨(List.isChain_append.1 h.chain).1, (List.nodup_append.1 h.nodup).1⟩

/-- A graph whose inner vertices, those with neighbours, are among the given ones. -/
structure InnerVertices (adj : V → List V) (inner : V → Bool) (vertices : List V) : Prop where
  inner_iff : ∀ v, inner v = true ↔ adj v ≠ []
  finite : ∀ v, inner v = true → v ∈ vertices

omit [DecidableEq V] in
/-- A visit below a path is one from its end, or below a longer path. -/
private theorem visit_below_iff (hgraph : InnerVertices adj inner vertices)
    (hpath : VertexPath adj path) (hlast : path.getLast? = some last) (visit : List V × V) :
    path <+: visit.1 ∧ IsVisit adj visit ↔
      ∃ v ∈ adj last, visit = (path, v) ∨
        v ∉ path ∧ inner v = true ∧ path ++ [v] <+: visit.1 ∧ IsVisit adj visit := by
  obtain ⟨walk, next⟩ := visit
  constructor
  · rintro ⟨⟨more, rfl⟩, hvisit⟩
    obtain ⟨hwalk, end_, hend, hedge⟩ := id hvisit
    cases more with
    | nil =>
      rw [List.append_nil, hlast, Option.some_inj] at hend
      exact ⟨next, hend ▸ hedge, .inl (by simp)⟩
    | cons v more =>
      obtain ⟨-, hmore, hjoin⟩ := List.isChain_append.1 hwalk.chain
      have hfirst : v ∈ adj last := hjoin last hlast v rfl
      have hnew : v ∉ path := fun hmem =>
        (List.nodup_append.1 hwalk.nodup).2.2 v hmem v List.mem_cons_self rfl
      have hinner : inner v = true := by
        rw [hgraph.inner_iff]
        cases more with
        | nil =>
          obtain rfl : v = end_ := by simpa using hend
          exact List.ne_nil_of_mem hedge
        | cons w more => exact List.ne_nil_of_mem (List.isChain_cons_cons.1 hmore).1
      exact ⟨v, hfirst, .inr ⟨hnew, hinner, ⟨more, by simp⟩, hvisit⟩⟩
  · rintro ⟨v, hedge, heq | ⟨-, -, hprefix, hvisit⟩⟩
    · obtain ⟨rfl, rfl⟩ := Prod.mk.inj heq
      exact ⟨List.prefix_rfl, hpath, last, hlast, hedge⟩
    · exact ⟨(List.prefix_append path [v]).trans hprefix, hvisit⟩

omit [DecidableEq V] in
/-- A path with all vertices on it cannot be extended. -/
private theorem not_extends (hgraph : InnerVertices adj inner vertices)
    (hpath : VertexPath adj path) (hlast : path.getLast? = some last) (hsub : path ⊆ vertices)
    (hdepth : vertices.length ≤ path.length + 0) {v : V} (hedge : v ∈ adj last) :
    ¬ (v ∉ path ∧ inner v = true) := by
  rintro ⟨hnew, hinner⟩
  have hlonger := (List.subperm_of_subset (hpath.concat hlast hedge hnew).nodup
    (List.append_subset.2 ⟨hsub, by simpa using hgraph.finite v hinner⟩)).length_le
  rw [List.length_append, List.length_singleton] at hlonger
  omega

/-- A search visits what is below its path. -/
theorem mem_visits_iff (hgraph : InnerVertices adj inner vertices) {depth : Nat}
    (hpath : VertexPath adj path) (hlast : path.getLast? = some last)
    (hsub : path ⊆ vertices) (hdepth : vertices.length ≤ path.length + depth)
    (visit : List V × V) :
    visit ∈ visits adj inner depth path (adj last) ↔ path <+: visit.1 ∧ IsVisit adj visit := by
  rw [visit_below_iff hgraph hpath hlast]
  induction depth generalizing path last with
  | zero =>
    rw [visits, List.mem_map]
    constructor
    · rintro ⟨v, hedge, rfl⟩
      exact ⟨v, hedge, .inl rfl⟩
    · rintro ⟨v, hedge, rfl | ⟨hnew, hinner, -⟩⟩
      · exact ⟨v, hedge, rfl⟩
      · exact absurd ⟨hnew, hinner⟩ (not_extends hgraph hpath hlast hsub hdepth hedge)
  | succ depth ih =>
    rw [visits, List.mem_flatMap]
    refine exists_congr fun v => and_congr_right fun hedge => ?_
    rw [List.mem_cons]
    refine or_congr_right ?_
    by_cases hgo : v ∉ path ∧ inner v = true
    · have hlonger := hpath.concat hlast hedge hgo.1
      have hlast' : (path ++ [v]).getLast? = some v := List.getLast?_concat
      have hbelow := ih hlonger hlast' (List.append_subset.2
        ⟨hsub, by simpa using hgraph.finite v hgo.2⟩)
        (by rw [List.length_append, List.length_singleton]; omega)
      rw [if_pos hgo, hbelow, ← visit_below_iff hgraph hlonger hlast']
      simp only [hgo, not_false_eq_true, true_and]
    · rw [if_neg hgo]
      refine iff_of_false List.not_mem_nil fun hno => hgo ⟨hno.1, hno.2.1⟩

end Visits

/-! ## The search with an explicit stack -/

/-- The stack, top first, of vertices with cursors into their neighbours; the path to the top;
the vertices on it; and what has been found. -/
structure DfsState (V β : Type) where
  stack : List (V × Nat)
  path : List V
  onStack : List V
  found : β

/-- What a search does with a neighbour: one on the stack, one that it goes on from (with the
path to it), and one without neighbours. -/
structure DfsHooks (V β : Type) where
  back : β → List V → V → β
  push : β → List V → β
  leaf : β → List V → V → β

section Search

variable [DecidableEq V] (adj : V → List V) (inner : V → Bool) (hooks : DfsHooks V β)

/-- The vertices on the stack without the last one of the path. -/
def discardLast (path onStack : List V) : List V :=
  onStack.filter fun v => some v ≠ path.getLast?

/-- One round of the search. -/
def dfsStep (s : DfsState V β) : DfsState V β :=
  match s.stack with
  | [] => s
  | (node, cursor) :: below =>
    match (adj node)[cursor]? with
    | none => { s with
        stack := below
        path := s.path.dropLast
        onStack := discardLast s.path s.onStack }
    | some neighbor =>
      let s := { s with stack := (node, cursor + 1) :: below }
      if neighbor ∈ s.onStack then { s with found := hooks.back s.found s.path neighbor }
      else if inner neighbor then
        let path := s.path ++ [neighbor]
        { stack := (neighbor, 0) :: s.stack
          path
          onStack := s.onStack ++ [neighbor]
          found := hooks.push s.found path }
      else { s with found := hooks.leaf s.found s.path neighbor }

/-- The search, for a number of rounds: what it found if it ended. -/
def dfsRun : Nat → DfsState V β → Option β
  | 0, s => if s.stack = [] then some s.found else none
  | rounds + 1, s =>
    if s.stack = [] then some s.found else dfsRun rounds (dfsStep adj inner hooks s)

/-- What a visit adds to what has been found. -/
def DfsHooks.record (found : β) (visit : List V × V) : β :=
  if visit.2 ∈ visit.1 then hooks.back found visit.1 visit.2
  else if inner visit.2 then hooks.push found (visit.1 ++ [visit.2])
  else hooks.leaf found visit.1 visit.2

variable {adj inner hooks} {path : List V} {node : V} {cursor : Nat}
  {below : List (V × Nat)} {found : β} {vertices : List V}

/-- A search that stands on a path. -/
def dfsAt (node : V) (cursor : Nat) (below : List (V × Nat)) (path : List V) (found : β) :
    DfsState V β :=
  ⟨(node, cursor) :: below, path, path, found⟩

private theorem dfsStep_pop (hnone : (adj node)[cursor]? = none) (hpath : path.Nodup) :
    dfsStep adj inner hooks (dfsAt node cursor below path found) =
      ⟨below, path.dropLast, path.dropLast, found⟩ := by
  have hdiscard : discardLast path path = path.dropLast := by
    unfold discardLast
    rcases List.eq_nil_or_concat' path with rfl | ⟨init, last, rfl⟩
    · rfl
    · have hlast : ∀ v ∈ init, v ≠ last := fun v hv =>
        (List.nodup_append.1 hpath).2.2 v hv last List.mem_cons_self
      rw [List.getLast?_concat, List.dropLast_concat, List.filter_append,
        List.filter_eq_self.2 fun v hv => by simpa using hlast v hv]
      simp
  simp only [dfsStep, dfsAt, hnone, hdiscard]

private theorem dfsStep_next {neighbor : V} (hnext : (adj node)[cursor]? = some neighbor) :
    dfsStep adj inner hooks (dfsAt node cursor below path found) =
      if neighbor ∉ path ∧ inner neighbor = true then
        dfsAt neighbor 0 ((node, cursor + 1) :: below) (path ++ [neighbor])
          (hooks.record inner found (path, neighbor))
      else dfsAt node (cursor + 1) below path (hooks.record inner found (path, neighbor)) := by
  simp only [dfsStep, dfsAt, hnext, DfsHooks.record]
  by_cases hmem : neighbor ∈ path
  · simp [hmem]
  · by_cases hinner : inner neighbor = true
    · simp [hmem, hinner]
    · simp [hmem, hinner]

/-- If a search gets past each neighbour, it gets past all that are left. -/
private theorem exists_iterate_row (hpath : path.Nodup) (visitsOf : V → List (List V × V))
    (hone : ∀ cursor neighbor found, (adj node)[cursor]? = some neighbor →
      ∃ rounds, (dfsStep adj inner hooks)^[rounds] (dfsAt node cursor below path found) =
        dfsAt node (cursor + 1) below path
          (((path, neighbor) :: visitsOf neighbor).foldl (hooks.record inner) found))
    (cursor : Nat) (found : β) :
    ∃ rounds, (dfsStep adj inner hooks)^[rounds] (dfsAt node cursor below path found) =
      ⟨below, path.dropLast, path.dropLast, (((adj node).drop cursor).flatMap fun neighbor =>
        (path, neighbor) :: visitsOf neighbor).foldl (hooks.record inner) found⟩ := by
  generalize hleft : (adj node).drop cursor = left
  induction left generalizing cursor found with
  | nil =>
    have hnone : (adj node)[cursor]? = none :=
      List.getElem?_eq_none (List.drop_eq_nil_iff.1 hleft)
    exact ⟨1, dfsStep_pop hnone hpath⟩
  | cons neighbor left ih =>
    have hnext : (adj node)[cursor]? = some neighbor := by
      rw [← List.head?_drop, hleft, List.head?_cons]
    have hrest : (adj node).drop (cursor + 1) = left := by
      rw [← List.tail_drop, hleft, List.tail_cons]
    obtain ⟨rounds, hrounds⟩ := hone cursor neighbor found hnext
    obtain ⟨more, hmore⟩ := ih (cursor + 1) _ hrest
    refine ⟨more + rounds, ?_⟩
    rw [Function.iterate_add_apply, hrounds, hmore, List.flatMap_cons, List.foldl_append]

/-- From a vertex on its stack a search comes to the vertex below it, and has visited what is
below the path between. -/
theorem exists_iterate_dfsStep (hgraph : InnerVertices adj inner vertices) {depth : Nat}
    (hpath : VertexPath adj path) (hlast : path.getLast? = some node) (hsub : path ⊆ vertices)
    (hdepth : vertices.length ≤ path.length + depth) (cursor : Nat) (below : List (V × Nat))
    (found : β) :
    ∃ rounds, (dfsStep adj inner hooks)^[rounds] (dfsAt node cursor below path found) =
      ⟨below, path.dropLast, path.dropLast,
        (visits adj inner depth path ((adj node).drop cursor)).foldl (hooks.record inner)
          found⟩ := by
  induction depth generalizing path node cursor below found with
  | zero =>
    have hrow : visits adj inner 0 path ((adj node).drop cursor) =
        ((adj node).drop cursor).flatMap fun neighbor => [(path, neighbor)] := by
      rw [visits, List.map_eq_flatMap]
    rw [hrow]
    refine exists_iterate_row hpath.nodup (fun _ => []) (fun cursor neighbor found hnext => ?_) _ _
    have hfull := not_extends hgraph hpath hlast hsub hdepth (List.mem_of_getElem? hnext)
    exact ⟨1, by rw [Function.iterate_one, dfsStep_next hnext, if_neg hfull]; rfl⟩
  | succ depth ih =>
    refine exists_iterate_row hpath.nodup (fun neighbor =>
      if neighbor ∉ path ∧ inner neighbor = true then
        visits adj inner depth (path ++ [neighbor]) (adj neighbor)
      else []) (fun cursor neighbor found hnext => ?_) _ _
    by_cases hgo : neighbor ∉ path ∧ inner neighbor = true
    · have hedge := List.mem_of_getElem? hnext
      obtain ⟨rounds, hrounds⟩ := ih (hpath.concat hlast hedge hgo.1) List.getLast?_concat
        (List.append_subset.2 ⟨hsub, by simpa using hgraph.finite neighbor hgo.2⟩)
        (by rw [List.length_append, List.length_singleton]; omega) 0
        ((node, cursor + 1) :: below) (hooks.record inner found (path, neighbor))
      refine ⟨rounds + 1, ?_⟩
      rw [Function.iterate_succ_apply, dfsStep_next hnext, if_pos hgo, hrounds, if_pos hgo,
        List.drop_zero, List.dropLast_concat]
      rfl
    · exact ⟨1, by rw [Function.iterate_one, dfsStep_next hnext, if_neg hgo, if_neg hgo]; rfl⟩

/-- The visits of a search from one vertex. -/
def visitsFrom (adj : V → List V) (inner : V → Bool) (vertices : List V) (root : V) :
    List (List V × V) :=
  visits adj inner vertices.length [root] (adj root)

omit [DecidableEq V] in
private theorem vertexPath_singleton (root : V) : VertexPath adj [root] :=
  ⟨List.isChain_singleton root, List.nodup_singleton root⟩

private theorem dfsStep_of_empty {s : DfsState V β} (h : s.stack = []) :
    dfsStep adj inner hooks s = s := by
  unfold dfsStep
  rw [h]

/-- A search that has emptied its stack has ended. -/
private theorem dfsRun_eq {n : Nat} {s : DfsState V β}
    (h : ((dfsStep adj inner hooks)^[n] s).stack = []) {rounds : Nat} (hn : n ≤ rounds) :
    dfsRun adj inner hooks rounds s = some ((dfsStep adj inner hooks)^[n] s).found := by
  induction n generalizing s rounds with
  | zero =>
    have hempty : s.stack = [] := h
    cases rounds <;> simp [dfsRun, hempty]
  | succ n ih =>
    rw [Function.iterate_succ_apply] at h ⊢
    obtain ⟨rounds, rfl⟩ := Nat.exists_eq_add_of_le' (Nat.lt_of_lt_of_le n.succ_pos hn)
    rw [dfsRun]
    split
    · next hempty =>
      have hsame := @dfsStep_of_empty _ _ _ adj inner hooks _ hempty
      rw [hsame, Function.iterate_fixed hsame]
    · exact ih h (by omega)

/-- The search from a vertex ends, after it has visited all paths from there. -/
theorem exists_dfsRun (hgraph : InnerVertices adj inner vertices) {root : V}
    (hroot : inner root = true) (found : β) :
    ∃ n, ∀ rounds, n ≤ rounds → dfsRun adj inner hooks rounds (dfsAt root 0 [] [root] found) =
      some ((visitsFrom adj inner vertices root).foldl (hooks.record inner) found) := by
  have hsub : [root] ⊆ vertices := by simpa using hgraph.finite root hroot
  have hlast : [root].getLast? = some root := rfl
  obtain ⟨n, hn⟩ := @exists_iterate_dfsStep _ _ _ adj inner hooks _ _ _ hgraph vertices.length
    (vertexPath_singleton root) hlast hsub (by omega) 0 [] found
  refine ⟨n, fun rounds hrounds => ?_⟩
  rw [dfsRun_eq (by rw [hn]) hrounds, hn, List.drop_zero, visitsFrom]

theorem mem_visitsFrom_iff (hgraph : InnerVertices adj inner vertices) {root : V}
    (hroot : inner root = true) (visit : List V × V) :
    visit ∈ visitsFrom adj inner vertices root ↔
      visit.1.head? = some root ∧ IsVisit adj visit := by
  have hfirst : ∀ walk : List V, [root] <+: walk ↔ walk.head? = some root := by
    intro walk
    cases walk <;> simp [eq_comm]
  have hsub : [root] ⊆ vertices := by simpa using hgraph.finite root hroot
  have hlast : [root].getLast? = some root := rfl
  rw [visitsFrom, mem_visits_iff hgraph (vertexPath_singleton root) hlast hsub (by omega), hfirst]

/-- The searches from all vertices with neighbours, one after the other, make all visits. -/
theorem exists_dfsRuns (hgraph : InnerVertices adj inner vertices) {roots : List V}
    (hroots : ∀ root ∈ roots, inner root = true) (found : β) :
    ∃ n, ∀ rounds, n ≤ rounds →
      roots.foldlM (fun found root =>
        dfsRun adj inner hooks rounds (dfsAt root 0 [] [root] found)) found =
        some ((roots.flatMap (visitsFrom adj inner vertices)).foldl (hooks.record inner)
          found) := by
  induction roots generalizing found with
  | nil => exact ⟨0, fun _ _ => rfl⟩
  | cons root roots ih =>
    obtain ⟨hroot, hrest⟩ := List.forall_mem_cons.1 hroots
    obtain ⟨n, hn⟩ := @exists_dfsRun _ _ _ adj inner hooks _ hgraph root hroot found
    obtain ⟨n', hn'⟩ := ih hrest
      ((visitsFrom adj inner vertices root).foldl (hooks.record inner) found)
    refine ⟨max n n', fun rounds hrounds => ?_⟩
    rw [List.foldlM_cons, hn rounds (by omega), Option.bind_eq_bind, Option.bind_some,
      hn' rounds (by omega), List.flatMap_cons, List.foldl_append]

theorem mem_visitsFrom_roots_iff (hgraph : InnerVertices adj inner vertices) {roots : List V}
    (hroots : ∀ v, v ∈ roots ↔ inner v = true) (visit : List V × V) :
    visit ∈ roots.flatMap (visitsFrom adj inner vertices) ↔ IsVisit adj visit := by
  rw [List.mem_flatMap]
  constructor
  · rintro ⟨root, hroot, hvisit⟩
    exact ((mem_visitsFrom_iff hgraph ((hroots root).1 hroot) visit).1 hvisit).2
  · intro hvisit
    obtain ⟨path, next⟩ := visit
    obtain ⟨hpath, last, hlast, hedge⟩ := id hvisit
    cases path with
    | nil => cases hlast
    | cons root rest =>
      have hroot : inner root = true := by
        rw [hgraph.inner_iff]
        cases rest with
        | nil =>
          obtain rfl : root = last := by simpa using hlast
          exact List.ne_nil_of_mem hedge
        | cons w rest => exact List.ne_nil_of_mem (List.isChain_cons_cons.1 hpath.chain).1
      exact ⟨root, (hroots root).2 hroot, (mem_visitsFrom_iff hgraph hroot _).2 ⟨rfl, hvisit⟩⟩

end Search

/-! ## Elementary cycles -/

/-- A simple path with an edge from its last vertex to its first one. -/
structure ElementaryCycle (adj : V → List V) (body : List V) : Prop
    extends VertexPath adj body where
  closed : ∃ first last, body.head? = some first ∧ body.getLast? = some last ∧ first ∈ adj last

namespace ElementaryCycle

variable {adj : V → List V} {body : List V}

/-- The cycle from its second vertex on. -/
private theorem rotate_one {v : V} {rest : List V} (h : ElementaryCycle adj (v :: rest)) :
    ElementaryCycle adj (rest ++ [v]) := by
  obtain ⟨first, last, hfirst, hlast, hedge⟩ := h.closed
  obtain rfl : v = first := by simpa using hfirst
  cases rest with
  | nil => exact h
  | cons w rest =>
    obtain ⟨hnext, hchain⟩ := List.isChain_cons_cons.1 h.chain
    obtain ⟨hnew, hnodup⟩ := List.nodup_cons.1 h.nodup
    have hpath : VertexPath adj (w :: rest) := ⟨hchain, hnodup⟩
    rw [List.getLast?_cons_cons] at hlast
    have hlonger := hpath.concat hlast hedge hnew
    exact ⟨hlonger, w, v, rfl, List.getLast?_concat, hnext⟩

theorem rotate (h : ElementaryCycle adj body) (n : Nat) : ElementaryCycle adj (body.rotate n) := by
  induction n generalizing body with
  | zero => rwa [List.rotate_zero]
  | succ n ih =>
    cases body with
    | nil => exact ih h
    | cons v rest =>
      rw [List.rotate_cons_succ]
      exact ih h.rotate_one

end ElementaryCycle

theorem ElementaryCycle.ne_nil {adj : V → List V} {body : List V} (h : ElementaryCycle adj body) :
    body ≠ [] := by
  rintro rfl
  obtain ⟨first, last, hfirst, -⟩ := h.closed
  cases hfirst

/-- A cycle written out, with its first vertex again at the end. -/
def closedWalk (body : List V) : List V := body ++ body.take 1

theorem closedWalk_injective : Function.Injective (closedWalk (V := V)) := by
  intro body body' h
  have hdrop : ∀ body : List V, (closedWalk body).dropLast = body := by
    intro body
    cases body with
    | nil => rfl
    | cons v rest => exact List.dropLast_concat
  rw [← hdrop body, h, hdrop]

/-- The visits that come back to their path close the elementary cycles. -/
theorem closes_iff [DecidableEq V] {adj : V → List V} {cycle : List V} :
    (∃ visit, IsVisit adj visit ∧ visit.2 ∈ visit.1 ∧
        visit.1.drop (visit.1.idxOf visit.2) ++ [visit.2] = cycle) ↔
      ∃ body, ElementaryCycle adj body ∧ closedWalk body = cycle := by
  constructor
  · rintro ⟨⟨path, v⟩, ⟨hpath, last, hlast, hedge⟩, hmem, rfl⟩
    have hlt : path.idxOf v < path.length := List.idxOf_lt_length_iff.2 hmem
    have hfirst : (path.drop (path.idxOf v)).head? = some v := by
      rw [List.head?_drop, List.getElem?_eq_getElem hlt, List.getElem_idxOf]
    have hend : (path.drop (path.idxOf v)).getLast? = some last := by
      rw [List.getLast?_drop, if_neg (by omega), hlast]
    refine ⟨path.drop (path.idxOf v), ⟨⟨hpath.chain.drop _, hpath.nodup.drop⟩, v, last, hfirst,
      hend, hedge⟩, ?_⟩
    rw [closedWalk, List.take_one, hfirst, Option.toList_some]
  · rintro ⟨body, ⟨hpath, first, last, hfirst, hlast, hedge⟩, rfl⟩
    obtain ⟨rest, rfl⟩ := List.head?_eq_some_iff.1 hfirst
    refine ⟨(first :: rest, first), ⟨hpath, last, hlast, hedge⟩, List.mem_cons_self, ?_⟩
    rw [List.idxOf_cons_self, List.drop_zero]
    rfl

/-- The visits that leave their path are the simple paths of two or more vertices. -/
theorem leaves_iff {adj : V → List V} {path : List V} :
    (∃ visit, IsVisit adj visit ∧ visit.2 ∉ visit.1 ∧ visit.1 ++ [visit.2] = path) ↔
      VertexPath adj path ∧ 2 ≤ path.length := by
  constructor
  · rintro ⟨⟨init, v⟩, ⟨hpath, last, hlast, hedge⟩, hnew, rfl⟩
    have hne : init ≠ [] := by
      rintro rfl
      cases hlast
    have hpos : 0 < init.length := List.length_pos_iff.2 hne
    exact ⟨hpath.concat hlast hedge hnew, by simpa using Nat.succ_le_of_lt hpos⟩
  · rintro ⟨hpath, hlength⟩
    rcases List.eq_nil_or_concat' path with rfl | ⟨init, v, rfl⟩
    · simp at hlength
    · cases hlast : init.getLast? with
      | none =>
        simp [List.getLast?_eq_none_iff.1 hlast] at hlength
      | some last =>
        obtain ⟨-, -, hjoin⟩ := List.isChain_append.1 hpath.chain
        refine ⟨(init, v), ⟨hpath.of_append, last, hlast, hjoin last hlast v rfl⟩, fun hmem => ?_,
          rfl⟩
        exact (List.nodup_append.1 hpath.nodup).2.2 v hmem v List.mem_cons_self rfl

section Congr

variable {adj adj' : V → List V} (hadj : ∀ v w, w ∈ adj v ↔ w ∈ adj' v)
include hadj

theorem vertexPath_congr {path : List V} : VertexPath adj path ↔ VertexPath adj' path := by
  have hchain : path.IsChain (fun v w => w ∈ adj v) ↔ path.IsChain (fun v w => w ∈ adj' v) := by
    simp only [hadj]
  exact ⟨fun h => ⟨hchain.1 h.chain, h.nodup⟩, fun h => ⟨hchain.2 h.chain, h.nodup⟩⟩

theorem elementaryCycle_congr {body : List V} :
    ElementaryCycle adj body ↔ ElementaryCycle adj' body := by
  constructor
  · rintro ⟨hpath, first, last, hfirst, hlast, hedge⟩
    exact ⟨(vertexPath_congr hadj).1 hpath, first, last, hfirst, hlast, (hadj _ _).1 hedge⟩
  · rintro ⟨hpath, first, last, hfirst, hlast, hedge⟩
    exact ⟨(vertexPath_congr hadj).2 hpath, first, last, hfirst, hlast, (hadj _ _).2 hedge⟩

end Congr

/-! ## Smallest vertices first -/

section Smallest

variable [LinearOrder V] {body : List V}

/-- No vertex is smaller than the first one. -/
def StartsSmallest (body : List V) : Prop := ∀ first ∈ body.head?, ∀ v ∈ body, first ≤ v

theorem startsSmallest_rotate {smallest : V} (h : body.min? = some smallest) :
    StartsSmallest (body.rotate (body.idxOf smallest)) := by
  have : Std.LawfulOrderMin V :=
    { le_min_iff := fun _ _ _ => le_min_iff, min_eq_or := fun a b => min_choice a b }
  obtain ⟨hmem, hle⟩ := List.min?_eq_some_iff.1 h
  intro first hfirst v hv
  have hlt := List.idxOf_lt_length_iff.2 hmem
  rw [Option.mem_def, List.head?_rotate hlt, List.getElem?_eq_getElem hlt, List.getElem_idxOf,
    Option.some_inj] at hfirst
  exact hfirst ▸ hle v (List.mem_rotate.1 hv)

/-- Of the rotations of a list without repetitions one starts with the smallest vertex. -/
theorem rotate_eq_of_startsSmallest (hnodup : body.Nodup) (hbody : StartsSmallest body) {n : Nat}
    (hrotate : StartsSmallest (body.rotate n)) : body.rotate n = body := by
  cases body with
  | nil => exact List.rotate_nil n
  | cons v rest =>
    rw [← List.rotate_mod] at hrotate ⊢
    generalize hk : n % (v :: rest).length = k at hrotate ⊢
    have hlt : k < (v :: rest).length := hk ▸ Nat.mod_lt n (Nat.succ_pos _)
    have hhead : ((v :: rest).rotate k).head? = some (v :: rest)[k] := by
      rw [List.head?_rotate hlt, List.getElem?_eq_getElem hlt]
    have hle : (v :: rest)[k] ≤ v :=
      hrotate _ hhead v (List.mem_rotate.2 List.mem_cons_self)
    have hge : v ≤ (v :: rest)[k] := hbody v rfl _ (List.getElem_mem hlt)
    have hfirst : (v :: rest)[k] = (v :: rest)[0] := le_antisymm hle hge
    have hzero : k = 0 := hnodup.getElem_inj_iff.1 hfirst
    rw [hzero, List.rotate_zero]

end Smallest

end SchemaBrain.Base
