import Mathlib.Data.List.Basic
import Mathlib.Data.List.Induction

/-!
# Shortest paths by layers

Breadth-first search that keeps every shortest path to a target, over any successor
function: what it returns, and how shortest paths through one vertex can be exchanged.
-/

namespace SchemaBrain.Base

universe u

variable {V : Type u} (next : V → List V)

/-- A walk from `a` to a vertex, as its list of edges. -/
inductive Walk (a : V) : V → List (V × V) → Prop
  | nil : Walk a a []
  | snoc {w v : V} {p : List (V × V)} (h : Walk a w p) (hv : v ∈ next w) :
      Walk a v (p ++ [(w, v)])

/-- A walk that no walk between the same vertices undercuts. -/
def Shortest (a v : V) (p : List (V × V)) : Prop :=
  Walk next a v p ∧ ∀ q, Walk next a v q → p.length ≤ q.length

variable {next}

namespace Walk

/-- The empty walk ends where it starts. -/
theorem eq_of_nil {a v : V} (h : Walk next a v []) : v = a := by
  generalize hp : ([] : List (V × V)) = p at h
  cases h with
  | nil => rfl
  | snoc => simp at hp

/-- The last edge of a walk. -/
theorem of_concat {a v w x : V} {p : List (V × V)} (h : Walk next a v (p ++ [(w, x)])) :
    v = x ∧ Walk next a w p ∧ x ∈ next w := by
  generalize hp : p ++ [(w, x)] = q at h
  cases h with
  | nil => simp at hp
  | snoc h hv =>
    obtain ⟨rfl, hlast⟩ := List.append_inj' hp rfl
    simp only [List.cons.injEq, Prod.mk.injEq, and_true] at hlast
    obtain ⟨rfl, rfl⟩ := hlast
    exact ⟨rfl, h, hv⟩

/-- A walk determines its end. -/
theorem end_unique {a v w : V} {p : List (V × V)} (hv : Walk next a v p) (hw : Walk next a w p) :
    v = w := by
  cases hv with
  | nil => exact hw.eq_of_nil.symm
  | snoc _ _ => exact hw.of_concat.1.symm

/-- An initial segment of a walk may be replaced by any walk to the same vertex. -/
theorem replace_start {a v w : V} {p p' q : List (V × V)} (h : Walk next a w (p ++ q))
    (hp : Walk next a v p) (hp' : Walk next a v p') : Walk next a w (p' ++ q) := by
  induction q using List.reverseRecOn generalizing w with
  | nil =>
    rw [List.append_nil] at h ⊢
    rwa [h.end_unique hp]
  | append_singleton q edge ih =>
    obtain ⟨x, y⟩ := edge
    rw [← List.append_assoc] at h ⊢
    obtain ⟨rfl, hx, hy⟩ := h.of_concat
    exact .snoc (ih hx) hy

/-- An edge in front of a walk. -/
theorem cons {a v w : V} {p : List (V × V)} (hw : w ∈ next a) (h : Walk next w v p) :
    Walk next a v ((a, w) :: p) := by
  induction h with
  | nil => exact .snoc .nil hw
  | snoc _ hv ih => exact .snoc ih hv

/-- The first edge of a walk, and the walk from there. -/
theorem of_cons {a v x y : V} {p : List (V × V)} (h : Walk next a v ((x, y) :: p)) :
    x = a ∧ y ∈ next a ∧ Walk next y v p := by
  induction p using List.reverseRecOn generalizing v with
  | nil =>
    obtain ⟨rfl, hwalk, hy⟩ := h.of_concat (p := [])
    obtain rfl := hwalk.eq_of_nil
    exact ⟨rfl, hy, .nil⟩
  | append_singleton p edge ih =>
    obtain ⟨w, z⟩ := edge
    rw [← List.cons_append] at h
    obtain ⟨rfl, hwalk, hz⟩ := h.of_concat
    obtain ⟨rfl, hy, hrest⟩ := ih hwalk
    exact ⟨rfl, hy, .snoc hrest hz⟩

/-- Where every edge has an edge back, so has every walk. -/
theorem exists_reverse {a v : V} {p : List (V × V)}
    (hsymm : ∀ v w, w ∈ next v → v ∈ next w) (h : Walk next a v p) :
    ∃ q, Walk next v a q ∧ q.length = p.length := by
  induction h with
  | nil => exact ⟨[], .nil, rfl⟩
  | snoc _ hv ih =>
    obtain ⟨q, hq, hlen⟩ := ih
    exact ⟨_, .cons (hsymm _ _ hv) hq, by simp [hlen]⟩

/-- The walk up to an edge, and the edge. -/
theorem of_edge {a v w x : V} {p q : List (V × V)} (h : Walk next a v (p ++ (w, x) :: q)) :
    Walk next a w p ∧ x ∈ next w := by
  induction q using List.reverseRecOn generalizing v with
  | nil => exact h.of_concat.2
  | append_singleton q edge ih =>
    rw [show p ++ (w, x) :: (q ++ [edge]) = (p ++ (w, x) :: q) ++ [edge] by simp] at h
    exact ih h.of_concat.2.1

end Walk

namespace Shortest

variable {a v w x : V} {p p' q : List (V × V)}

/-- Shortest walks between the same vertices have one length. -/
theorem length_eq (h : Shortest next a v p) (h' : Shortest next a v p') :
    p.length = p'.length :=
  Nat.le_antisymm (h.2 p' h'.1) (h'.2 p h.1)

theorem length_pos (h : Shortest next a v p) (hne : a ≠ v) : 0 < p.length := by
  rw [List.length_pos_iff]
  rintro rfl
  exact hne h.1.eq_of_nil.symm

/-- An initial segment of a shortest walk is a shortest walk. -/
theorem of_append (h : Shortest next a w (p ++ q)) (hp : Walk next a v p) :
    Shortest next a v p := by
  refine ⟨hp, fun p' hp' => ?_⟩
  have hle := h.2 (p' ++ q) (h.1.replace_start hp hp')
  simp only [List.length_append] at hle
  omega

/-- Shortest walks may exchange the segments that lead to a common vertex. -/
theorem exchange (h : Shortest next a w (p ++ q)) (hp : Walk next a v p)
    (hp' : Shortest next a v p') : Shortest next a w (p' ++ q) := by
  refine ⟨h.1.replace_start hp hp'.1, fun r hr => ?_⟩
  have hlen := (h.of_append hp).length_eq hp'
  have hle := h.2 r hr
  simp only [List.length_append] at hle ⊢
  omega

/-- The segment before an edge of a shortest walk is shortest. -/
theorem before_edge (h : Shortest next a v (p ++ (w, x) :: q)) : Shortest next a w p :=
  h.of_append h.1.of_edge.1

/-- The segment up to and with an edge of a shortest walk is shortest. -/
theorem through_edge (h : Shortest next a v (p ++ (w, x) :: q)) :
    Shortest next a x (p ++ [(w, x)]) := by
  have hwalk := Walk.snoc h.1.of_edge.1 h.1.of_edge.2
  rw [show p ++ (w, x) :: q = (p ++ [(w, x)]) ++ q by simp] at h
  exact h.of_append hwalk

/-- The vertices that a shortest walk enters are distinct, and none of them is its start. -/
theorem nodup_targets (h : Shortest next a v p) : (a :: p.map Prod.snd).Nodup := by
  induction p using List.reverseRecOn generalizing v with
  | nil => simp
  | append_singleton p edge ih =>
    obtain ⟨w, x⟩ := edge
    have hbefore : Shortest next a w p := h.before_edge
    have hthrough : Shortest next a x (p ++ [(w, x)]) := h.through_edge
    rw [List.map_append, ← List.cons_append, List.nodup_append]
    refine ⟨ih hbefore, by simp, ?_⟩
    intro y hy z hz
    obtain rfl : z = x := by simpa using hz
    rintro rfl
    rcases List.mem_cons.1 hy with rfl | hy
    · exact absurd (hthrough.2 [] .nil) (by simp)
    · obtain ⟨⟨w', _⟩, hmem, rfl⟩ := List.mem_map.1 hy
      obtain ⟨l, r, rfl⟩ := List.append_of_mem hmem
      have hle := hthrough.2 _ hbefore.through_edge.1
      simp only [List.length_append, List.length_cons, List.length_nil] at hle
      omega

end Shortest

/-! ## Simple paths -/

/-- A walk that meets no vertex twice. -/
def SimplePath (next : V → List V) (a v : V) (p : List (V × V)) : Prop :=
  Walk next a v p ∧ (a :: p.map Prod.snd).Nodup

/-- Where there is a walk there is a shortest one. -/
theorem Walk.exists_shortest {a v : V} {p : List (V × V)} (h : Walk next a v p) :
    ∃ q, Shortest next a v q ∧ q.length ≤ p.length := by
  induction hn : p.length using Nat.strongRecOn generalizing p with
  | ind n ih =>
    by_cases hshorter : ∃ q, Walk next a v q ∧ q.length < p.length
    · obtain ⟨q, hq, hlt⟩ := hshorter
      obtain ⟨r, hr, hle⟩ := ih q.length (hn ▸ hlt) hq rfl
      exact ⟨r, hr, by omega⟩
    · refine ⟨p, ⟨h, fun q hq => ?_⟩, Nat.le_of_eq hn⟩
      by_contra hlt
      exact hshorter ⟨q, hq, by omega⟩

/-- The shortest walks are the shortest simple paths. -/
theorem shortest_iff_simplePath {a v : V} {p : List (V × V)} :
    Shortest next a v p ↔
      SimplePath next a v p ∧ ∀ q, SimplePath next a v q → p.length ≤ q.length := by
  constructor
  · exact fun h => ⟨⟨h.1, h.nodup_targets⟩, fun q hq => h.2 q hq.1⟩
  · rintro ⟨hp, hleast⟩
    refine ⟨hp.1, fun q hq => ?_⟩
    obtain ⟨r, hr, hle⟩ := hq.exists_shortest
    exact Nat.le_trans (hleast r ⟨hr.1, hr.nodup_targets⟩) hle

/-- Walks depend on who the successors are, not on their lists. -/
theorem Walk.congr {next' : V → List V} (hnext : ∀ v w, w ∈ next v → w ∈ next' v) {a v : V}
    {p : List (V × V)} (h : Walk next a v p) : Walk next' a v p := by
  induction h with
  | nil => exact .nil
  | snoc _ hv ih => exact .snoc ih (hnext _ _ hv)

/-- The same successors make the same shortest paths. -/
theorem shortest_congr {next' : V → List V} (hnext : ∀ v w, w ∈ next v ↔ w ∈ next' v) {a v : V}
    {p : List (V × V)} : Shortest next a v p ↔ Shortest next' a v p :=
  and_congr ⟨.congr fun v w => (hnext v w).1, .congr fun v w => (hnext v w).2⟩
    ⟨fun h q hq => h q (hq.congr fun v w => (hnext v w).2),
      fun h q hq => h q (hq.congr fun v w => (hnext v w).1)⟩

/-! ## The search -/

section Search

variable [DecidableEq V] (next)

/-- The paths one edge longer than a frontier entry, into vertices not visited. -/
def extendPath (visited : List V) (entry : V × List (V × V)) : List (V × List (V × V)) :=
  ((next entry.1).filter (· ∉ visited)).map fun v => (v, entry.2 ++ [(entry.1, v)])

/-- At most `rounds` layers of the search for `target`: it stops at the first layer that
meets the target, with every path of that layer that ends there. -/
def layeredSearch (target : V) : Nat → List (V × List (V × V)) → List V → List (List (V × V))
  | 0, _, _ => []
  | rounds + 1, frontier, visited =>
    let layer := frontier.flatMap (extendPath next visited)
    let found := (layer.filter (·.1 = target)).map (·.2)
    let nextFrontier := layer.filter (·.1 ≠ target)
    if found ≠ [] then found
    else layeredSearch target rounds nextFrontier (visited ++ nextFrontier.map (·.1))

variable {next}

/-- The state before layer `k + 1`: the frontier holds the shortest paths of length `k`,
`visited` the vertices within `k` edges, and the target is farther. -/
private structure LayerInv (next : V → List V) (a target : V) (k : Nat)
    (frontier : List (V × List (V × V))) (visited : List V) : Prop where
  frontier_iff : ∀ v p, (v, p) ∈ frontier ↔ Shortest next a v p ∧ p.length = k
  visited_iff : ∀ v, v ∈ visited ↔ ∃ p, Walk next a v p ∧ p.length ≤ k
  target_far : ∀ p, Walk next a target p → k < p.length

private theorem LayerInv.mem_layer {a target : V} {k : Nat} {frontier : List (V × List (V × V))}
    {visited : List V} (h : LayerInv next a target k frontier visited) (v : V)
    (p : List (V × V)) :
    (v, p) ∈ frontier.flatMap (extendPath next visited) ↔
      Shortest next a v p ∧ p.length = k + 1 := by
  simp only [List.mem_flatMap, extendPath, List.mem_map, List.mem_filter, decide_eq_true_eq,
    Prod.mk.injEq]
  constructor
  · rintro ⟨⟨w, q⟩, hw, v', ⟨hv, hnew⟩, rfl, rfl⟩
    obtain ⟨hshort, hlen⟩ := (h.frontier_iff w q).1 hw
    refine ⟨⟨.snoc hshort.1 hv, fun r hr => ?_⟩, by simp [hlen]⟩
    have hfar : ¬ r.length ≤ k := fun hle => hnew ((h.visited_iff v').2 ⟨r, hr, hle⟩)
    simp only [List.length_append, List.length_singleton]
    omega
  · rintro ⟨hshort, hlen⟩
    induction p using List.reverseRecOn with
    | nil => simp at hlen
    | append_singleton q edge =>
      obtain ⟨w, x⟩ := edge
      obtain ⟨rfl, -, hx⟩ := hshort.1.of_concat
      have hqlen : q.length = k := by simpa using hlen
      refine ⟨(w, q), (h.frontier_iff w q).2 ⟨hshort.before_edge, hqlen⟩, v, ⟨hx, ?_⟩, rfl, rfl⟩
      intro hvisited
      obtain ⟨r, hr, hrlen⟩ := (h.visited_iff v).1 hvisited
      have := hshort.2 r hr
      omega

private theorem LayerInv.next_layer {a target : V} {k : Nat}
    {frontier : List (V × List (V × V))} {visited : List V}
    (h : LayerInv next a target k frontier visited)
    (hfar : ∀ p, Walk next a target p → k + 1 < p.length) :
    LayerInv next a target (k + 1)
      ((frontier.flatMap (extendPath next visited)).filter (·.1 ≠ target))
      (visited ++ ((frontier.flatMap (extendPath next visited)).filter
        (·.1 ≠ target)).map (·.1)) := by
  have hmem : ∀ v p, (v, p) ∈ (frontier.flatMap (extendPath next visited)).filter
      (·.1 ≠ target) ↔ Shortest next a v p ∧ p.length = k + 1 := by
    intro v p
    rw [List.mem_filter, h.mem_layer, decide_eq_true_eq, and_iff_left_iff_imp]
    rintro ⟨hshort, hlen⟩ rfl
    have := hfar p hshort.1
    omega
  refine ⟨hmem, fun v => ?_, hfar⟩
  rw [List.mem_append, h.visited_iff]
  constructor
  · rintro (⟨p, hp, hlen⟩ | hv)
    · exact ⟨p, hp, by omega⟩
    · obtain ⟨⟨v', p⟩, hentry, rfl⟩ := List.mem_map.1 hv
      obtain ⟨hshort, hlen⟩ := (hmem v' p).1 hentry
      exact ⟨p, hshort.1, by omega⟩
  · rintro ⟨p, hp, hlen⟩
    by_cases hnear : ∃ q, Walk next a v q ∧ q.length ≤ k
    · exact .inl hnear
    · -- no walk of at most `k` edges: the one of `k + 1` edges is shortest
      have hshort : Shortest next a v p :=
        ⟨hp, fun q hq => by
          have : ¬ q.length ≤ k := fun hle => hnear ⟨q, hq, hle⟩
          omega⟩
      have hk : p.length = k + 1 := by
        have : ¬ p.length ≤ k := fun hle => hnear ⟨p, hp, hle⟩
        omega
      exact .inr (List.mem_map.2 ⟨(v, p), (hmem v p).2 ⟨hshort, hk⟩, rfl⟩)

private theorem LayerInv.mem_search {a target : V} (rounds : Nat) {k : Nat}
    {frontier : List (V × List (V × V))} {visited : List V}
    (h : LayerInv next a target k frontier visited) (p : List (V × V)) :
    p ∈ layeredSearch next target rounds frontier visited ↔
      Shortest next a target p ∧ p.length ≤ k + rounds := by
  induction rounds generalizing k frontier visited with
  | zero =>
    simp only [layeredSearch, List.not_mem_nil, false_iff, not_and]
    intro hshort hle
    have := h.target_far p hshort.1
    omega
  | succ rounds ih =>
    have hfound : ∀ q, q ∈ ((frontier.flatMap (extendPath next visited)).filter
        (·.1 = target)).map (·.2) ↔ Shortest next a target q ∧ q.length = k + 1 := by
      intro q
      rw [← h.mem_layer]
      simp [List.mem_map, List.mem_filter]
    unfold layeredSearch
    simp only
    split
    · next hne =>
      obtain ⟨q, hq⟩ := List.exists_mem_of_ne_nil _ hne
      obtain ⟨hshort, hlen⟩ := (hfound q).1 hq
      rw [hfound]
      constructor
      · rintro ⟨hp, hplen⟩
        exact ⟨hp, by omega⟩
      · rintro ⟨hp, -⟩
        exact ⟨hp, by rw [hp.length_eq hshort, hlen]⟩
    · next hnil =>
      have hfar : ∀ q, Walk next a target q → k + 1 < q.length := by
        intro q hq
        by_contra hle
        have hgt := h.target_far q hq
        have hshort : Shortest next a target q :=
          ⟨hq, fun r hr => by have := h.target_far r hr; omega⟩
        have hmem := (hfound q).2 ⟨hshort, by omega⟩
        rw [Decidable.not_not.1 hnil] at hmem
        exact List.not_mem_nil hmem
      rw [ih (h.next_layer hfar), Nat.add_assoc, Nat.add_comm 1]

/-- The search from a vertex finds exactly the shortest paths to the target, up to the
bound on the layers. -/
theorem mem_layeredSearch {a target : V} (hne : a ≠ target) (rounds : Nat) (p : List (V × V)) :
    p ∈ layeredSearch next target rounds [(a, [])] [a] ↔
      Shortest next a target p ∧ p.length ≤ rounds := by
  have hstart : LayerInv next a target 0 [(a, [])] [a] := by
    refine ⟨fun v q => ?_, fun v => ?_, fun q hq => ?_⟩
    · simp only [List.mem_singleton, Prod.mk.injEq, List.length_eq_zero_iff]
      constructor
      · rintro ⟨rfl, rfl⟩
        exact ⟨⟨.nil, fun _ _ => Nat.zero_le _⟩, rfl⟩
      · rintro ⟨hq, rfl⟩
        exact ⟨hq.1.eq_of_nil, rfl⟩
    · simp only [List.mem_singleton, Nat.le_zero, List.length_eq_zero_iff]
      constructor
      · rintro rfl
        exact ⟨[], .nil, rfl⟩
      · rintro ⟨q, hq, rfl⟩
        exact hq.eq_of_nil
    · cases q with
      | nil => exact absurd hq.eq_of_nil.symm hne
      | cons => exact Nat.zero_lt_succ _
  rw [hstart.mem_search rounds p, Nat.zero_add]

end Search

/-! ## Its order -/

section Order

variable [LT V]

/-- The vertices that one path enters come before those of the other. -/
def PathBefore (p q : List (V × V)) : Prop := p.map Prod.snd < q.map Prod.snd

private theorem PathBefore.concat_of_lt {p : List (V × V)} {w w' v v' : V} (h : v < v') :
    PathBefore (p ++ [(w, v)]) (p ++ [(w', v')]) := by
  unfold PathBefore
  rw [List.map_append, List.map_append]
  exact List.append_left_lt (List.Lex.rel h)

private theorem lt_concat {l l' : List V} (hlen : l.length = l'.length) (h : l < l') (v v' : V) :
    l ++ [v] < l' ++ [v'] := by
  induction h with
  | nil => simp at hlen
  | cons _ ih => exact List.Lex.cons (ih (by simpa using hlen))
  | rel h => exact List.Lex.rel h

private theorem PathBefore.concat {p q : List (V × V)} (hlen : p.length = q.length)
    (h : PathBefore p q) (edge edge' : V × V) : PathBefore (p ++ [edge]) (q ++ [edge']) := by
  unfold PathBefore at h ⊢
  rw [List.map_append, List.map_append]
  exact lt_concat (by simpa using hlen) h _ _

/-- The paths of a layer have one length and stand in order. -/
private structure Ordered (k : Nat) (layer : List (V × List (V × V))) : Prop where
  length_eq : ∀ entry ∈ layer, entry.2.length = k
  pairwise : layer.Pairwise fun e e' => PathBefore e.2 e'.2

private theorem Ordered.sublist {k : Nat} {layer layer' : List (V × List (V × V))}
    (h : Ordered k layer) (hsub : List.Sublist layer' layer) : Ordered k layer' :=
  ⟨fun entry hentry => h.length_eq entry (hsub.subset hentry), h.pairwise.sublist hsub⟩

variable [DecidableEq V]

private theorem Ordered.extend (hnext : ∀ v, (next v).Pairwise (· < ·)) {k : Nat}
    {frontier : List (V × List (V × V))} (h : Ordered k frontier) (visited : List V) :
    Ordered (k + 1) (frontier.flatMap (extendPath next visited)) := by
  constructor
  · intro entry hentry
    obtain ⟨before, hbefore, hentry⟩ := List.mem_flatMap.1 hentry
    obtain ⟨v, -, rfl⟩ := List.mem_map.1 hentry
    simp [h.length_eq before hbefore]
  · rw [List.pairwise_flatMap]
    constructor
    · intro entry _
      rw [extendPath, List.pairwise_map]
      exact ((hnext entry.1).sublist List.filter_sublist).imp .concat_of_lt
    · refine h.pairwise.imp_of_mem fun {e e'} he he' hlt x hx y hy => ?_
      obtain ⟨v, -, rfl⟩ := List.mem_map.1 hx
      obtain ⟨v', -, rfl⟩ := List.mem_map.1 hy
      exact hlt.concat (by rw [h.length_eq e he, h.length_eq e' he']) _ _

private theorem Ordered.search (hnext : ∀ v, (next v).Pairwise (· < ·)) {target : V}
    (rounds : Nat) {k : Nat} {frontier : List (V × List (V × V))} (h : Ordered k frontier)
    (visited : List V) :
    (layeredSearch next target rounds frontier visited).Pairwise PathBefore := by
  induction rounds generalizing k frontier visited with
  | zero => exact .nil
  | succ rounds ih =>
    have hlayer := h.extend hnext visited
    unfold layeredSearch
    simp only
    split
    · exact List.pairwise_map.2 (hlayer.sublist List.filter_sublist).pairwise
    · exact ih (hlayer.sublist List.filter_sublist) _

/-- Over successors in increasing order the search finds the paths in lexicographic order,
each once. -/
theorem layeredSearch_pairwise (hnext : ∀ v, (next v).Pairwise (· < ·)) (a target : V)
    (rounds : Nat) :
    (layeredSearch next target rounds [(a, [])] [a]).Pairwise PathBefore := by
  have hstart : Ordered (V := V) 0 [(a, [])] := ⟨by simp, List.pairwise_singleton _ _⟩
  exact hstart.search hnext rounds [a]

end Order

end SchemaBrain.Base
