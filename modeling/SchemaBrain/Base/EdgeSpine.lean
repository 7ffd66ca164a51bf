import Mathlib.Data.List.Nodup
import Mathlib.Data.List.Perm.Basic

/-!
# A simple path from its edges

What the edges of a simple path tell of it in any order: its two ends are the vertices that one
edge touches, and from an end there is one way on.
-/

namespace SchemaBrain.Base

variable {V E : Type} (other : V → E → Option V)

/-- The entries of a vertex: each edge that touches it, with the vertex at its other end. -/
def touching (edges : List E) (v : V) : List (V × E) :=
  edges.filterMap fun e => (other v e).map (·, e)

/-- An edge between two vertices. -/
structure Links (v : V) (e : E) (w : V) : Prop where
  ne : v ≠ w
  forth : other v e = some w
  back : other w e = some v
  apart : ∀ u, u ≠ v → u ≠ w → other u e = none

/-- A trail from a vertex, each edge with the vertex it leads to. -/
def Trail : V → List (E × V) → Prop
  | _, [] => True
  | v, (e, w) :: rest => Links other v e w ∧ Trail w rest

/-- The vertices of a trail. -/
def trailNodes (v : V) (trail : List (E × V)) : List V := v :: trail.map Prod.snd

variable {other} {v w u : V} {e : E} {trail rest : List (E × V)}

theorem touching_cons (e : E) (edges : List E) (u : V) :
    touching other (e :: edges) u =
      ((other u e).map (·, e)).toList ++ touching other edges u := by
  unfold touching
  rw [List.filterMap_cons]
  cases other u e <;> rfl

theorem mem_touching {edges : List E} {entry : V × E} :
    entry ∈ touching other edges u ↔ entry.2 ∈ edges ∧ other u entry.2 = some entry.1 := by
  obtain ⟨x, f⟩ := entry
  simp only [touching, List.mem_filterMap, Option.map_eq_some_iff, Prod.mk.injEq]
  constructor
  · rintro ⟨_, hf, _, hx, rfl, rfl⟩
    exact ⟨hf, hx⟩
  · rintro ⟨hf, hx⟩
    exact ⟨f, hf, x, hx, rfl, rfl⟩

/-- The ends of an edge. -/
theorem Links.eq_or_eq (h : Links other v e w) {x : V} (hx : other u e = some x) :
    u = v ∧ x = w ∨ u = w ∧ x = v := by
  by_cases huv : u = v
  · subst huv
    exact .inl ⟨rfl, Option.some.inj (hx.symm.trans h.forth)⟩
  · by_cases huw : u = w
    · subst huw
      exact .inr ⟨rfl, Option.some.inj (hx.symm.trans h.back)⟩
    · rw [h.apart u huv huw] at hx
      cases hx

/-- The edges of a trail touch its vertices only. -/
theorem Trail.touching_eq_nil (h : Trail other v trail) (hu : u ∉ trailNodes v trail) :
    touching other (trail.map Prod.fst) u = [] := by
  induction trail generalizing v with
  | nil => rfl
  | cons step rest ih =>
    obtain ⟨e, w⟩ := step
    obtain ⟨hlinks, hrest⟩ := h
    obtain ⟨huv, huw⟩ := not_or.1 (mt List.mem_cons.2 hu)
    have hnone : other u e = none :=
      hlinks.apart u huv fun heq => huw (heq ▸ List.mem_cons_self)
    rw [List.map_cons, touching_cons, hnone, ih hrest huw]
    rfl

/-- A simple trail has no edge twice. -/
theorem Trail.nodup_edges (h : Trail other v trail) (hnodup : (trailNodes v trail).Nodup) :
    (trail.map Prod.fst).Nodup := by
  induction trail generalizing v with
  | nil => exact List.nodup_nil
  | cons step rest ih =>
    obtain ⟨e, w⟩ := step
    obtain ⟨hlinks, hrest⟩ := h
    obtain ⟨hv, hnodup⟩ := List.nodup_cons.1 hnodup
    refine List.nodup_cons.2 ⟨fun hmem => ?_, ih hrest hnodup⟩
    have htouch : (w, e) ∈ touching other (rest.map Prod.fst) v :=
      mem_touching.2 ⟨hmem, hlinks.forth⟩
    rw [hrest.touching_eq_nil hv] at htouch
    exact List.not_mem_nil htouch

/-- One edge touches the ends of a simple trail, and no other vertex is touched by one. -/
theorem Trail.length_touching_eq_one (h : Trail other v trail)
    (hnodup : (trailNodes v trail).Nodup) (hne : trail ≠ []) :
    (touching other (trail.map Prod.fst) u).length = 1 ↔
      u = v ∨ trail.getLast?.map Prod.snd = some u := by
  induction trail generalizing v u with
  | nil => exact absurd rfl hne
  | cons step rest ih =>
    obtain ⟨e, w⟩ := step
    obtain ⟨hlinks, hrest⟩ := h
    obtain ⟨hv, hnodup⟩ := List.nodup_cons.1 hnodup
    rw [List.map_cons, touching_cons, List.length_append]
    by_cases huv : u = v
    · subst huv
      rw [hrest.touching_eq_nil hv, hlinks.forth]
      simp
    · by_cases hnil : rest = []
      · subst hnil
        by_cases huw : u = w
        · subst huw
          simp [hlinks.back, touching]
        · simp [hlinks.apart u huv huw, touching, huv, Ne.symm huw]
      · have hih := fun u => @ih w u hrest hnodup hnil
        have hlast : ((e, w) :: rest).getLast? = rest.getLast? := by
          rw [List.getLast?_cons]
          cases hrest' : rest.getLast? with
          | none => exact absurd (List.getLast?_eq_none_iff.1 hrest') hnil
          | some last => rfl
        rw [hlast]
        by_cases huw : u = w
        · subst huw
          have hone : (touching other (rest.map Prod.fst) u).length = 1 := (hih u).2 (.inl rfl)
          -- an inner vertex: the edge to it, and the one from it
          have hend : rest.getLast?.map Prod.snd ≠ some u := by
            intro heq
            obtain ⟨step, hstep, rfl⟩ := Option.map_eq_some_iff.1 heq
            exact (List.nodup_cons.1 hnodup).1
              (List.mem_map.2 ⟨step, List.mem_of_getLast? hstep, rfl⟩)
          rw [hone, hlinks.back]
          simp [huv, hend]
        · rw [hlinks.apart u huv huw]
          simp [hih u, huv, huw]

/-- From a vertex on the trail, with what is behind it visited, one entry is left. -/
theorem Trail.unvisited_eq [DecidableEq V] {edges done : List E} {visited : List V}
    (h : Trail other v ((e, w) :: rest)) (hperm : edges.Perm (done ++ e :: rest.map Prod.fst))
    (hdone : ∀ f ∈ done, ∀ u x, other u f = some x → x ∈ visited)
    (hv : v ∈ visited) (hnew : ∀ u ∈ w :: rest.map Prod.snd, u ∉ visited) :
    (touching other edges v).filter (·.1 ∉ visited) = [(w, e)] := by
  obtain ⟨hlinks, hrest⟩ := h
  have hbehind : (touching other done v).filter (·.1 ∉ visited) = [] := by
    rw [List.filter_eq_nil_iff]
    intro entry hentry
    obtain ⟨hmem, hother⟩ := mem_touching.1 hentry
    simpa using hdone _ hmem v _ hother
  have hahead : touching other (rest.map Prod.fst) v = [] :=
    hrest.touching_eq_nil fun hmem => hnew v hmem hv
  have hentries : (touching other edges v).Perm
      (touching other done v ++ touching other (e :: rest.map Prod.fst) v) := by
    rw [touching, touching, touching, ← List.filterMap_append]
    exact hperm.filterMap _
  have hfilter := hentries.filter (·.1 ∉ visited)
  rw [List.filter_append, hbehind, touching_cons, hlinks.forth, hahead] at hfilter
  simpa [hnew w List.mem_cons_self] using hfilter

/-- At the end of the trail no entry is left. -/
theorem unvisited_eq_nil [DecidableEq V] {edges : List E} {visited : List V}
    (hdone : ∀ f ∈ edges, ∀ u x, other u f = some x → x ∈ visited) :
    (touching other edges v).filter (·.1 ∉ visited) = [] := by
  rw [List.filter_eq_nil_iff]
  intro entry hentry
  obtain ⟨hmem, hother⟩ := mem_touching.1 hentry
  simpa using hdone _ hmem v _ hother

end SchemaBrain.Base
