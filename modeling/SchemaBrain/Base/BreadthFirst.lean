import SchemaBrain.Base.Collections
import SchemaBrain.Base.ShortestPaths

/-!
# Breadth-first search with parents

The queue search for one shortest path in a labelled graph: a vertex is visited when it is
queued, its parent is kept, and the path is read backwards from the target. Up to a bound on
the length the search finds a shortest path if there is any path.
-/

namespace SchemaBrain.Base

/-- One labelled edge of a path. -/
structure Hop (V L : Type) where
  origin : V
  label : L
  target : V
  deriving DecidableEq, Repr

/-- The visited vertices, the parents of all but the first one, and the queue with depths. -/
structure SearchState (V L : Type) where
  visited : List V
  parent : List (V × (V × L))
  frontier : List (V × Nat)

section Paths

variable {V L : Type} (adj : V → List (V × L)) (start : V)

/-! ## Paths -/

/-- The neighbours of a vertex. -/
def successors (v : V) : List V := (adj v).map Prod.fst

/-- The ends of the hops. -/
def pathEdges (path : List (Hop V L)) : List (V × V) :=
  path.map fun hop => (hop.origin, hop.target)

/-- A walk with the labels of its edges. -/
structure LabelledWalk (v : V) (path : List (Hop V L)) : Prop where
  walk : Walk (successors adj) start v (pathEdges path)
  labels : ∀ hop ∈ path, (hop.target, hop.label) ∈ adj hop.origin

variable {adj start} {v w : V}

theorem mem_successors : w ∈ successors adj v ↔ ∃ label, (w, label) ∈ adj v := by
  simp [successors]

theorem LabelledWalk.snoc {path : List (Hop V L)} {label : L}
    (h : LabelledWalk adj start v path) (hedge : (w, label) ∈ adj v) :
    LabelledWalk adj start w (path ++ [⟨v, label, w⟩]) where
  walk := by
    rw [pathEdges, List.map_append]
    exact .snoc h.walk (mem_successors.2 ⟨label, hedge⟩)
  labels hop hhop := by
    rcases List.mem_append.1 hhop with hold | hnew
    · exact h.labels hop hold
    · rw [List.mem_singleton.1 hnew]
      exact hedge

end Paths

section Search

variable {V L : Type} [DecidableEq V]

/-! ## The search -/

/-- The hops from a vertex back to the start, last hop first. -/
def walkBack (parent : List (V × (V × L))) (start : V) : Nat → V → Option (List (Hop V L))
  | 0, cursor => if cursor = start then some [] else none
  | fuel + 1, cursor =>
    if cursor = start then some []
    else match dictGet parent cursor with
      | none => none
      | some (previous, label) =>
        (walkBack parent start fuel previous).map (⟨previous, label, cursor⟩ :: ·)

/-- The neighbours of a vertex are visited. The target ends the loop with the parents. -/
def expand (target node : V) (depth : Nat) :
    List (V × L) → SearchState V L → Except (List (V × (V × L))) (SearchState V L)
  | [], st => .ok st
  | (neighbor, label) :: rest, st =>
    if neighbor ∈ st.visited then expand target node depth rest st
    else
      let parent := dictSet st.parent neighbor (node, label)
      if neighbor = target then .error parent
      else expand target node depth rest
        ⟨neighbor :: st.visited, parent, st.frontier ++ [(neighbor, depth + 1)]⟩

variable (adj : V → List (V × L)) (start target : V) (maxHops : Nat)

/-- The queue is worked off, for at most `fuel` vertices. -/
def searchQueue : Nat → SearchState V L → Option (List (Hop V L))
  | 0, _ => none
  | fuel + 1, st =>
    match st.frontier with
    | [] => none
    | (node, depth) :: rest =>
      if maxHops ≤ depth then searchQueue fuel { st with frontier := rest }
      else match expand target node depth (adj node) { st with frontier := rest } with
        | .error parent => (walkBack parent start maxHops target).map List.reverse
        | .ok st' => searchQueue fuel st'

/-- The search from the start. -/
def breadthFirst (fuel : Nat) : Option (List (Hop V L)) :=
  searchQueue adj start target maxHops fuel ⟨[start], [], [(start, 0)]⟩

variable {adj start target maxHops} {parent : List (V × (V × L))} {v w : V}

/-! ## The way back -/

/-- A new vertex is not on the way back from one that was there. -/
theorem walkBack_dictSet {fuel : Nat} {back : List (Hop V L)} {x : V × L}
    (hnew : dictGet parent w = none) (h : walkBack parent start fuel v = some back) :
    walkBack (dictSet parent w x) start fuel v = some back := by
  induction fuel generalizing v back with
  | zero => exact h
  | succ fuel ih =>
    unfold walkBack at h ⊢
    split at h
    · next hstart => rwa [if_pos hstart]
    · next hstart =>
      rw [if_neg hstart]
      cases hparent : dictGet parent v with
      | none => simp [hparent] at h
      | some item =>
        have hne : w ≠ v := by
          rintro rfl
          simp [hparent] at hnew
        rw [hparent, Option.map_eq_some_iff] at h
        obtain ⟨back', hback, rfl⟩ := h
        simp [dictGet_dictSet, hne, hparent, ih hback]

/-- The way back is found with more fuel. -/
theorem walkBack_mono {fuel fuel' : Nat} {back : List (Hop V L)} (hle : fuel ≤ fuel')
    (h : walkBack parent start fuel v = some back) : walkBack parent start fuel' v = some back := by
  induction fuel generalizing fuel' v back with
  | zero =>
    unfold walkBack at h
    split at h
    · next hstart =>
      unfold walkBack
      cases fuel' <;> simpa [hstart] using h
    · cases h
  | succ fuel ih =>
    obtain ⟨fuel', rfl⟩ := Nat.exists_eq_add_of_lt hle
    rw [show fuel + fuel' + 1 = (fuel + fuel') + 1 from rfl]
    unfold walkBack at h ⊢
    split at h
    · next hstart => rwa [if_pos hstart]
    · next hstart =>
      rw [if_neg hstart]
      cases hparent : dictGet parent v with
      | none => simp [hparent] at h
      | some item =>
        rw [hparent, Option.map_eq_some_iff] at h
        obtain ⟨back', hback, rfl⟩ := h
        simp [ih (Nat.le_add_right _ _) hback]

/-! ## One vertex -/

/-- Only visited vertices have a parent. -/
private def NoStray (st : SearchState V L) : Prop :=
  ∀ v, v ∉ st.visited → dictGet st.parent v = none

/-- The ways back that the old parents give are kept. -/
private def KeepsWays (start : V) (parent parent' : List (V × (V × L))) : Prop :=
  ∀ fuel v back, walkBack parent start fuel v = some back →
    walkBack parent' start fuel v = some back

/-- What the loop over the neighbours of a vertex leaves behind. -/
private structure Expanded (start target node : V) (depth : Nat) (neighbors : List (V × L))
    (st st' : SearchState V L) (new : List V) : Prop where
  visited : ∀ v, v ∈ st'.visited ↔ v ∈ new ∨ v ∈ st.visited
  frontier : st'.frontier = st.frontier ++ new.map (·, depth + 1)
  fresh : ∀ w ∈ new, w ∉ st.visited ∧ w ≠ target ∧
    ∃ label, (w, label) ∈ neighbors ∧ dictGet st'.parent w = some (node, label)
  covered : ∀ w ∈ neighbors.map Prod.fst, w ∈ st'.visited
  nodup : new.Nodup
  ways : KeepsWays start st.parent st'.parent
  parents : ∀ v ∈ st.visited, dictGet st'.parent v = dictGet st.parent v
  noStray : NoStray st'

private theorem NoStray.visit {st : SearchState V L} (h : NoStray st) (w node : V) (label : L)
    (depth : Nat) : NoStray (⟨w :: st.visited, dictSet st.parent w (node, label),
      st.frontier ++ [(w, depth)]⟩ : SearchState V L) := by
  intro v hv
  rw [List.mem_cons, not_or] at hv
  rw [dictGet_dictSet, if_neg (Ne.symm hv.1)]
  exact h v hv.2

private theorem expand_ok {node : V} {depth : Nat} {neighbors : List (V × L)}
    {st st' : SearchState V L} (hstray : NoStray st)
    (h : expand target node depth neighbors st = .ok st') :
    ∃ new, Expanded start target node depth neighbors st st' new := by
  induction neighbors generalizing st with
  | nil =>
    obtain rfl := Except.ok.inj h
    exact ⟨[], by simp, by simp, by simp, by simp, List.nodup_nil, fun _ _ _ hback => hback,
      fun _ _ => rfl, hstray⟩
  | cons neighbor rest ih =>
    obtain ⟨w, label⟩ := neighbor
    unfold expand at h
    split at h
    · next hvisited =>
      obtain ⟨new, hnew⟩ := ih hstray h
      refine ⟨new, hnew.visited, hnew.frontier, fun x hx => ?_, ?_, hnew.nodup, hnew.ways,
        hnew.parents, hnew.noStray⟩
      · obtain ⟨hx₁, hx₂, label', hmem, hparent⟩ := hnew.fresh x hx
        exact ⟨hx₁, hx₂, label', List.mem_cons_of_mem _ hmem, hparent⟩
      · rw [List.map_cons, List.forall_mem_cons]
        exact ⟨(hnew.visited w).2 (.inr hvisited), hnew.covered⟩
    · next hunseen =>
      dsimp only at h
      split at h
      · cases h
      · next htarget =>
        obtain ⟨new, hnew⟩ := ih (hstray.visit w node label (depth + 1)) h
        have hw : dictGet st'.parent w = some (node, label) := by
          rw [hnew.parents w List.mem_cons_self, dictGet_dictSet, if_pos rfl]
        refine ⟨w :: new, fun v => ?_, ?_, ?_, ?_, ?_, ?_, fun v hv => ?_, hnew.noStray⟩
        · rw [hnew.visited, List.mem_cons, List.mem_cons]
          tauto
        · rw [hnew.frontier, List.append_assoc]
          rfl
        · rw [List.forall_mem_cons]
          refine ⟨⟨hunseen, htarget, label, List.mem_cons_self, hw⟩, fun x hx => ?_⟩
          obtain ⟨hx₁, hx₂, label', hmem, hparent⟩ := hnew.fresh x hx
          exact ⟨fun hold => hx₁ (List.mem_cons_of_mem _ hold), hx₂, label',
            List.mem_cons_of_mem _ hmem, hparent⟩
        · rw [List.map_cons, List.forall_mem_cons]
          exact ⟨(hnew.visited w).2 (.inr List.mem_cons_self), hnew.covered⟩
        · exact List.nodup_cons.2 ⟨fun hmem => (hnew.fresh w hmem).1 List.mem_cons_self, hnew.nodup⟩
        · exact fun fuel v back hback =>
            hnew.ways fuel v back (walkBack_dictSet (hstray w hunseen) hback)
        · rw [hnew.parents v (List.mem_cons_of_mem _ hv), dictGet_dictSet, if_neg]
          rintro rfl
          exact hunseen hv

private theorem expand_error {node : V} {depth : Nat} {neighbors : List (V × L)}
    {st : SearchState V L} {parent' : List (V × (V × L))} (hstray : NoStray st)
    (h : expand target node depth neighbors st = .error parent') :
    (∃ label, (target, label) ∈ neighbors ∧ dictGet parent' target = some (node, label)) ∧
      KeepsWays start st.parent parent' := by
  induction neighbors generalizing st with
  | nil => cases h
  | cons neighbor rest ih =>
    obtain ⟨w, label⟩ := neighbor
    unfold expand at h
    split at h
    · obtain ⟨⟨label', hmem, hparent⟩, hways⟩ := ih hstray h
      exact ⟨⟨label', List.mem_cons_of_mem _ hmem, hparent⟩, hways⟩
    · next hunseen =>
      have hway : KeepsWays start st.parent (dictSet st.parent w (node, label)) :=
        fun fuel v back hback => walkBack_dictSet (hstray w hunseen) hback
      dsimp only at h
      split at h
      · next htarget =>
        obtain rfl := Except.error.inj h
        subst htarget
        exact ⟨⟨label, List.mem_cons_self, by rw [dictGet_dictSet, if_pos rfl]⟩, hway⟩
      · obtain ⟨⟨label', hmem, hparent⟩, hways⟩ := ih (hstray.visit w node label (depth + 1)) h
        exact ⟨⟨label', List.mem_cons_of_mem _ hmem, hparent⟩,
          fun fuel v back hback => hways fuel v back (hway fuel v back hback)⟩

/-! ## The queue -/

/-- Before a vertex is taken from the queue: the vertices of `done` have all their neighbours
visited, and every vertex has its way back. -/
private structure SearchInv (adj : V → List (V × L)) (start target : V) (maxHops : Nat)
    (done : List (V × Nat)) (st : SearchState V L) : Prop where
  started : (start, 0) ∈ done ++ st.frontier
  visited : ∀ v, v ∈ st.visited ↔ ∃ depth, (v, depth) ∈ done ++ st.frontier
  closed : ∀ v depth, (v, depth) ∈ done → depth < maxHops → ∀ w ∈ successors adj v,
    ∃ depth' ≤ depth + 1, (w, depth') ∈ done ++ st.frontier
  before : ∀ x ∈ done, ∀ y ∈ st.frontier, x.2 ≤ y.2
  ordered : st.frontier.Pairwise (·.2 ≤ ·.2)
  near : ∀ x ∈ st.frontier, ∀ y ∈ st.frontier, y.2 ≤ x.2 + 1
  traced : ∀ v depth, (v, depth) ∈ done ++ st.frontier → ∃ back,
    walkBack st.parent start depth v = some back ∧ back.length = depth ∧
      LabelledWalk adj start v back.reverse
  target : target ∉ st.visited
  noStray : NoStray st

/-- Below the depth of the queue every walk ends in a visited vertex. -/
private theorem SearchInv.reached {done : List (V × Nat)} {st : SearchState V L}
    (h : SearchInv adj start target maxHops done st) {k : Nat} (hk : k ≤ maxHops)
    (hfrontier : ∀ x ∈ st.frontier, k ≤ x.2) {q : List (V × V)}
    (hq : Walk (successors adj) start v q) (hlen : q.length ≤ k) :
    ∃ depth ≤ q.length, (v, depth) ∈ done ++ st.frontier := by
  induction hq with
  | nil => exact ⟨0, Nat.le_refl 0, h.started⟩
  | snoc hq hv ih =>
    rw [List.length_append, List.length_singleton] at hlen ⊢
    obtain ⟨depth, hdepth, hmem⟩ := ih (by omega)
    rcases List.mem_append.1 hmem with hdone | hqueued
    · obtain ⟨depth', hdepth', hmem'⟩ := h.closed _ _ hdone (by omega) _ hv
      exact ⟨depth', by omega, hmem'⟩
    · have hbelow := hfrontier _ hqueued
      simp only at hbelow
      omega

private theorem SearchInv.init (hne : target ≠ start) :
    SearchInv adj start target maxHops [] (⟨[start], [], [(start, 0)]⟩ : SearchState V L) where
  started := by simp
  visited v := by simp
  closed := by simp
  before := by simp
  ordered := by simp
  near := by simp
  traced v depth hmem := by
    obtain ⟨rfl, rfl⟩ : v = start ∧ depth = 0 := by simpa using hmem
    exact ⟨[], by simp [walkBack], rfl, .nil, by simp⟩
  target := by simpa using hne
  noStray v _ := rfl

/-- A vertex at the bound is left alone. -/
private theorem SearchInv.skip {done rest : List (V × Nat)} {st : SearchState V L} {depth : Nat}
    (h : SearchInv adj start target maxHops done st) (hst : st.frontier = (v, depth) :: rest)
    (hbound : maxHops ≤ depth) :
    SearchInv adj start target maxHops (done ++ [(v, depth)]) { st with frontier := rest } := by
  have hall : (done ++ [(v, depth)]) ++ rest = done ++ st.frontier := by
    rw [hst, List.append_assoc, List.singleton_append]
  constructor
  · exact hall ▸ h.started
  · exact hall ▸ h.visited
  · intro v' depth' hmem hlt w hw
    rw [hall]
    rcases List.mem_append.1 hmem with hdone | hlast
    · exact h.closed v' depth' hdone hlt w hw
    · obtain ⟨-, rfl⟩ := Prod.mk.inj (List.mem_singleton.1 hlast)
      omega
  · intro x hx y hy
    rcases List.mem_append.1 hx with hdone | hlast
    · exact h.before x hdone y (hst ▸ List.mem_cons_of_mem _ hy)
    · rw [List.mem_singleton.1 hlast]
      exact (List.pairwise_cons.1 (hst ▸ h.ordered)).1 y hy
  · exact (List.pairwise_cons.1 (hst ▸ h.ordered)).2
  · exact fun x hx y hy => h.near x (hst ▸ List.mem_cons_of_mem _ hx) y
      (hst ▸ List.mem_cons_of_mem _ hy)
  · exact hall ▸ h.traced
  · exact h.target
  · exact h.noStray

/-- The new vertices join the queue one level below the vertex that was taken. -/
private theorem SearchInv.enqueue {done rest : List (V × Nat)} {st st' : SearchState V L}
    {depth : Nat} {new : List V} (h : SearchInv adj start target maxHops done st)
    (hst : st.frontier = (v, depth) :: rest)
    (hnew : Expanded start target v depth (adj v) { st with frontier := rest } st' new) :
    SearchInv adj start target maxHops (done ++ [(v, depth)]) st' := by
  have hfrontier : ∀ x, x ∈ st'.frontier ↔ x ∈ rest ∨ ∃ w ∈ new, (w, depth + 1) = x := by
    intro x
    rw [hnew.frontier, List.mem_append, List.mem_map]
  have hall : ∀ x, x ∈ (done ++ [(v, depth)]) ++ st'.frontier ↔
      x ∈ done ++ st.frontier ∨ ∃ w ∈ new, (w, depth + 1) = x := by
    intro x
    simp only [List.mem_append, hfrontier, hst, List.mem_cons]
    tauto
  have hhead : (v, depth) ∈ st.frontier := hst ▸ List.mem_cons_self
  have hrest : ∀ x ∈ rest, x ∈ st.frontier := fun x hx => hst ▸ List.mem_cons_of_mem _ hx
  have hordered := List.pairwise_cons.1 (hst ▸ h.ordered)
  refine ⟨(hall _).2 (.inl h.started), fun w => ?_, ?_, ?_, ?_, ?_, ?_, ?_, hnew.noStray⟩
  · rw [hnew.visited, h.visited]
    constructor
    · rintro (hw | ⟨d, hd⟩)
      · exact ⟨depth + 1, (hall _).2 (.inr ⟨w, hw, rfl⟩)⟩
      · exact ⟨d, (hall _).2 (.inl hd)⟩
    · rintro ⟨d, hd⟩
      rcases (hall _).1 hd with hold | ⟨w', hw, heq⟩
      · exact .inr ⟨d, hold⟩
      · exact .inl ((Prod.mk.inj heq).1 ▸ hw)
  · intro u d hmem hlt w hw
    rcases List.mem_append.1 hmem with hdone | hlast
    · obtain ⟨d', hd', hmem'⟩ := h.closed u d hdone hlt w hw
      exact ⟨d', hd', (hall _).2 (.inl hmem')⟩
    · obtain ⟨rfl, rfl⟩ := Prod.mk.inj (List.mem_singleton.1 hlast)
      rcases (hnew.visited w).1 (hnew.covered w hw) with hfresh | hold
      · exact ⟨d + 1, Nat.le_refl _, (hall _).2 (.inr ⟨w, hfresh, rfl⟩)⟩
      · obtain ⟨d', hd'⟩ := (h.visited w).1 hold
        refine ⟨d', ?_, (hall _).2 (.inl hd')⟩
        rcases List.mem_append.1 hd' with hbefore | hqueued
        · exact Nat.le_succ_of_le (h.before _ hbefore _ hhead)
        · exact h.near _ hhead _ hqueued
  · intro x hx y hy
    have hle : x.2 ≤ depth := by
      rcases List.mem_append.1 hx with hdone | hlast
      · exact h.before x hdone _ hhead
      · rw [List.mem_singleton.1 hlast]
    rcases (hfrontier y).1 hy with hy | ⟨w, -, rfl⟩
    · exact Nat.le_trans hle (hordered.1 y hy)
    · exact Nat.le_succ_of_le hle
  · rw [hnew.frontier, List.pairwise_append]
    refine ⟨hordered.2, List.pairwise_map.2 (List.pairwise_of_forall fun _ _ => Nat.le_refl _), ?_⟩
    intro x hx y hy
    obtain ⟨w, -, rfl⟩ := List.mem_map.1 hy
    exact h.near _ hhead x (hrest x hx)
  · intro x hx y hy
    have hle : y.2 ≤ depth + 1 := by
      rcases (hfrontier y).1 hy with hy | ⟨w, -, rfl⟩
      · exact h.near _ hhead y (hrest y hy)
      · exact Nat.le_refl _
    refine Nat.le_trans hle (Nat.succ_le_succ ?_)
    rcases (hfrontier x).1 hx with hx | ⟨w, -, rfl⟩
    · exact hordered.1 x hx
    · exact Nat.le_succ _
  · intro w d hmem
    rcases (hall _).1 hmem with hold | ⟨w', hw, heq⟩
    · obtain ⟨back, hback, hlen, hwalk⟩ := h.traced w d hold
      exact ⟨back, hnew.ways _ _ _ hback, hlen, hwalk⟩
    · obtain ⟨rfl, rfl⟩ := Prod.mk.inj heq
      obtain ⟨hunseen, -, label, hedge, hparent⟩ := hnew.fresh w' hw
      obtain ⟨back, hback, hlen, hwalk⟩ := h.traced v depth (List.mem_append_right _ hhead)
      have hne : w' ≠ start := by
        rintro rfl
        exact hunseen ((h.visited _).2 ⟨0, h.started⟩)
      refine ⟨⟨v, label, w'⟩ :: back, ?_, by simp [hlen], ?_⟩
      · simp [walkBack, hne, hparent, hnew.ways _ _ _ hback]
      · rw [List.reverse_cons]
        exact hwalk.snoc hedge
  · rw [hnew.visited, not_or]
    exact ⟨fun hfresh => (hnew.fresh target hfresh).2.1 rfl, h.target⟩

/-! ## The result -/

/-- How many of the vertices are not visited. -/
private def unseen (vertices visited : List V) : Nat := (vertices.filter (· ∉ visited)).length

private theorem unseen_cons {vertices visited : List V} (hmem : w ∈ vertices)
    (hnew : w ∉ visited) : unseen vertices (w :: visited) < unseen vertices visited := by
  have hfilter : vertices.filter (· ∉ w :: visited) =
      (vertices.filter (· ∉ visited)).filter (· ≠ w) := by
    rw [List.filter_filter]
    refine List.filter_congr fun x _ => ?_
    simp [not_or]
  rw [unseen, hfilter]
  exact List.length_filter_lt_length_iff_exists.2
    ⟨w, List.mem_filter.2 ⟨hmem, by simpa using hnew⟩, by simp⟩

private theorem unseen_append {vertices visited new : List V} (hnodup : new.Nodup)
    (hnew : ∀ w ∈ new, w ∈ vertices ∧ w ∉ visited) :
    unseen vertices (new ++ visited) + new.length ≤ unseen vertices visited := by
  induction new with
  | nil => exact Nat.le_refl _
  | cons w new ih =>
    obtain ⟨hw, hrest⟩ := List.nodup_cons.1 hnodup
    obtain ⟨⟨hin, hout⟩, hothers⟩ := List.forall_mem_cons.1 hnew
    have hlt : unseen vertices (w :: (new ++ visited)) < unseen vertices (new ++ visited) :=
      unseen_cons hin (by simp [hw, hout])
    have hle := ih hrest hothers
    rw [List.cons_append, List.length_cons]
    omega

private theorem Expanded.unseen_le {node : V} {depth : Nat} {neighbors : List (V × L)}
    {st st' : SearchState V L} {new vertices : List V}
    (h : Expanded start target node depth neighbors st st' new)
    (hvertices : ∀ w ∈ neighbors.map Prod.fst, w ∈ vertices) :
    unseen vertices st'.visited + new.length ≤ unseen vertices st.visited := by
  have hsame : unseen vertices st'.visited = unseen vertices (new ++ st.visited) := by
    unfold unseen
    congr 2
    funext v
    simp only [h.visited, List.mem_append]
  rw [hsame]
  refine unseen_append h.nodup fun w hw => ?_
  obtain ⟨hunseen, -, label, hedge, -⟩ := h.fresh w hw
  exact ⟨hvertices w (List.mem_map.2 ⟨_, hedge, rfl⟩), hunseen⟩

/-- The path that the search returns is a shortest one within the bound, and where it returns
none there is no walk within the bound. -/
def FindsShortest (adj : V → List (V × L)) (start target : V) (maxHops : Nat) :
    Option (List (Hop V L)) → Prop
  | some path => LabelledWalk adj start target path ∧ path.length ≤ maxHops ∧
      Shortest (successors adj) start target (pathEdges path)
  | none => ∀ q, Walk (successors adj) start target q → maxHops < q.length

/-- The target, met among the neighbours of the vertex that was taken. -/
private theorem SearchInv.found {done rest : List (V × Nat)} {st : SearchState V L} {depth : Nat}
    {parent' : List (V × (V × L))} {label : L} (h : SearchInv adj start target maxHops done st)
    (hst : st.frontier = (v, depth) :: rest) (hdepth : depth < maxHops)
    (hedge : (target, label) ∈ adj v) (hparent : dictGet parent' target = some (v, label))
    (hways : KeepsWays start st.parent parent') :
    FindsShortest adj start target maxHops
      ((walkBack parent' start maxHops target).map List.reverse) := by
  have hhead : (v, depth) ∈ st.frontier := hst ▸ List.mem_cons_self
  obtain ⟨back, hback, hlen, hwalk⟩ := h.traced v depth (List.mem_append_right _ hhead)
  have hne : target ≠ start := by
    rintro rfl
    exact h.target ((h.visited _).2 ⟨0, h.started⟩)
  have hway : walkBack parent' start (depth + 1) target = some (⟨v, label, target⟩ :: back) := by
    simp [walkBack, hne, hparent, hways _ _ _ hback]
  have hsnoc := hwalk.snoc hedge
  have hlength : (back.reverse ++ [(⟨v, label, target⟩ : Hop V L)]).length = depth + 1 := by
    simp [hlen]
  rw [walkBack_mono hdepth hway, Option.map_some, List.reverse_cons]
  refine ⟨hsnoc, by omega, hsnoc.walk, fun q hq => ?_⟩
  rw [pathEdges, List.length_map, hlength]
  by_contra hshort
  have hfrontier : ∀ x ∈ st.frontier, depth ≤ x.2 := by
    rw [hst, List.forall_mem_cons]
    exact ⟨Nat.le_refl _, (List.pairwise_cons.1 (hst ▸ h.ordered)).1⟩
  obtain ⟨depth', -, hmem⟩ := h.reached hdepth.le hfrontier hq (by omega)
  exact h.target ((h.visited target).2 ⟨depth', hmem⟩)

private theorem SearchInv.findsShortest {vertices : List V}
    (hvertices : ∀ v, ∀ w ∈ successors adj v, w ∈ vertices) {done : List (V × Nat)}
    {st : SearchState V L} (h : SearchInv adj start target maxHops done st) {fuel : Nat}
    (hfuel : unseen vertices st.visited + st.frontier.length < fuel) :
    FindsShortest adj start target maxHops (searchQueue adj start target maxHops fuel st) := by
  induction fuel generalizing done st with
  | zero => omega
  | succ fuel ih =>
    unfold searchQueue
    split
    · next hempty =>
      intro q hq
      by_contra hshort
      obtain ⟨depth, -, hmem⟩ := h.reached (Nat.le_refl maxHops) (by simp [hempty]) hq
        (Nat.le_of_not_lt hshort)
      exact h.target ((h.visited target).2 ⟨depth, hmem⟩)
    · next node depth rest hfrontier =>
      have hstray : NoStray { st with frontier := rest } := h.noStray
      rw [hfrontier, List.length_cons] at hfuel
      split
      · next hbound => exact ih (h.skip hfrontier hbound) (by simpa using by omega)
      · next hbound =>
        split
        · next parent hexpand =>
          obtain ⟨⟨label, hedge, hparent⟩, hways⟩ :=
            @expand_error _ _ _ start _ _ _ _ _ _ hstray hexpand
          exact h.found hfrontier (Nat.lt_of_not_le hbound) hedge hparent hways
        · next st' hexpand =>
          obtain ⟨new, hnew⟩ := @expand_ok _ _ _ start _ _ _ _ _ _ hstray hexpand
          have hcount : unseen vertices st'.visited + new.length ≤ unseen vertices st.visited :=
            hnew.unseen_le (hvertices node)
          have hqueue : st'.frontier.length = rest.length + new.length := by
            simp [hnew.frontier]
          exact ih (h.enqueue hfrontier hnew) (by omega)

/-- The search finds a shortest path within the bound if there is a walk within it. -/
theorem breadthFirst_findsShortest (hne : target ≠ start) {vertices : List V}
    (hvertices : ∀ v, ∀ w ∈ successors adj v, w ∈ vertices) :
    FindsShortest adj start target maxHops
      (breadthFirst adj start target maxHops (vertices.length + 2)) := by
  refine (SearchInv.init hne).findsShortest hvertices ?_
  have hle : unseen vertices [start] ≤ vertices.length := List.length_filter_le _ _
  simp only [List.length_singleton]
  omega

end Search

end SchemaBrain.Base
