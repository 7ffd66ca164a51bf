import Mathlib.Data.List.Basic

/-!
# Binary hash trees and authentication paths

A binary tree over any value type, its root under a combining function, and the
siblings met on the way to a leaf. Climbing from a leaf with the tree's own siblings
reaches the root; a climb that reaches the root of a tree whose combinations cannot
be confused used that tree's leaf and siblings. Steps are listed from the root down.
-/

namespace SchemaBrain.Base

universe u

/-- The child that a step down enters. -/
inductive Side
  | left
  | right
  deriving DecidableEq, Repr

/-- Binary trees with values at the leaves. -/
inductive HashTree (α : Type u)
  | leaf (a : α)
  | node (l r : HashTree α)

namespace HashTree

variable {α : Type u} (combine : α → α → α)

/-- The root value. -/
def root : HashTree α → α
  | leaf a => a
  | node l r => combine (root l) (root r)

/-- The leaf at the end of a sequence of steps, when the steps fit the shape. -/
def get? : HashTree α → List Side → Option α
  | leaf a, [] => some a
  | node l _, .left :: ds => get? l ds
  | node _ r, .right :: ds => get? r ds
  | _, _ => none

/-- The roots of the subtrees that a sequence of steps passes by. -/
def siblings : HashTree α → List Side → Option (List α)
  | leaf _, [] => some []
  | node l r, .left :: ds => (siblings l ds).map (root combine r :: ·)
  | node l r, .right :: ds => (siblings r ds).map (root combine l :: ·)
  | _, _ => none

/-- The value reached from `x` when each step combines with its sibling. -/
def climb (x : α) : List (Side × α) → α
  | [] => x
  | (.left, s) :: rest => combine (climb x rest) s
  | (.right, s) :: rest => combine s (climb x rest)

/-- Every pair a climb combines. -/
def climbPairs (x : α) : List (Side × α) → List (α × α)
  | [] => []
  | (.left, s) :: rest => (climb combine x rest, s) :: climbPairs x rest
  | (.right, s) :: rest => (s, climb combine x rest) :: climbPairs x rest

/-- Every pair combined below a tree's root. -/
def pairs : HashTree α → List (α × α)
  | leaf _ => []
  | node l r => (root combine l, root combine r) :: (pairs l ++ pairs r)

/-- The steps that lead to a leaf pass by exactly one sibling each. -/
theorem siblings_of_get? {t : HashTree α} {ds : List Side} {x : α} (h : t.get? ds = some x) :
    ∃ ss, t.siblings combine ds = some ss ∧ ss.length = ds.length := by
  induction t generalizing ds with
  | leaf a =>
    cases ds with
    | nil => exact ⟨[], rfl, rfl⟩
    | cons d ds => simp [get?] at h
  | node l r ihl ihr =>
    match ds with
    | [] => simp [get?] at h
    | .left :: ds =>
      obtain ⟨ss, hss, hlen⟩ := ihl h
      exact ⟨root combine r :: ss, by simp [siblings, hss], by simp [hlen]⟩
    | .right :: ds =>
      obtain ⟨ss, hss, hlen⟩ := ihr h
      exact ⟨root combine l :: ss, by simp [siblings, hss], by simp [hlen]⟩

/-- Climbing from a leaf with the tree's own siblings reaches the root. -/
theorem climb_siblings {t : HashTree α} {ds : List Side} {x : α} {ss : List α}
    (hget : t.get? ds = some x) (hss : t.siblings combine ds = some ss) :
    climb combine x (ds.zip ss) = t.root combine := by
  induction t generalizing ds ss with
  | leaf a =>
    cases ds with
    | nil =>
      simp only [get?, Option.some.injEq] at hget
      simp [climb, root, hget]
    | cons d ds => simp [get?] at hget
  | node l r ihl ihr =>
    match ds with
    | [] => simp [get?] at hget
    | .left :: ds =>
      simp only [siblings, Option.map_eq_some_iff] at hss
      obtain ⟨tail, htail, rfl⟩ := hss
      simp only [List.zip_cons_cons, climb, root, ihl hget htail]
    | .right :: ds =>
      simp only [siblings, Option.map_eq_some_iff] at hss
      obtain ⟨tail, htail, rfl⟩ := hss
      simp only [List.zip_cons_cons, climb, root, ihr hget htail]

/-- A climb that reaches the root, none of whose combinations is mistaken for another
combination of the tree, started at the tree's leaf and used the tree's siblings. -/
theorem climb_sound {t : HashTree α} {ds : List Side} {x y : α} {ss : List α}
    (hget : t.get? ds = some y) (hlen : ss.length = ds.length)
    (hinj : ∀ p ∈ climbPairs combine x (ds.zip ss), ∀ q ∈ t.pairs combine,
      combine p.1 p.2 = combine q.1 q.2 → p = q)
    (hroot : climb combine x (ds.zip ss) = t.root combine) :
    x = y ∧ t.siblings combine ds = some ss := by
  induction t generalizing ds ss with
  | leaf a =>
    cases ds with
    | nil =>
      rw [List.length_eq_zero_iff.mp hlen] at hroot ⊢
      simp only [get?, Option.some.injEq] at hget
      exact ⟨hroot.trans hget, rfl⟩
    | cons d ds => simp [get?] at hget
  | node l r ihl ihr =>
    match ds, ss with
    | [], _ => simp [get?] at hget
    | _ :: _, [] => simp at hlen
    | .left :: ds, s :: ss =>
      simp only [List.length_cons, Nat.add_right_cancel_iff] at hlen
      simp only [List.zip_cons_cons, climb, root] at hroot
      -- The topmost combination pins both the running value and the sibling.
      have htop := hinj (climb combine x (ds.zip ss), s) (by simp [climbPairs])
        (root combine l, root combine r) (by simp [pairs]) hroot
      obtain ⟨hx, hs⟩ := Prod.mk.inj htop
      have hrest := ihl hget hlen
        (fun p hp q hq => hinj p (by simp [climbPairs, hp]) q (by simp [pairs, hq])) hx
      exact ⟨hrest.1, by simp [siblings, hrest.2, hs]⟩
    | .right :: ds, s :: ss =>
      simp only [List.length_cons, Nat.add_right_cancel_iff] at hlen
      simp only [List.zip_cons_cons, climb, root] at hroot
      have htop := hinj (s, climb combine x (ds.zip ss)) (by simp [climbPairs])
        (root combine l, root combine r) (by simp [pairs]) hroot
      obtain ⟨hs, hx⟩ := Prod.mk.inj htop
      have hrest := ihr hget hlen
        (fun p hp q hq => hinj p (by simp [climbPairs, hp]) q (by simp [pairs, hq])) hx
      exact ⟨hrest.1, by simp [siblings, hrest.2, hs]⟩

/-- A property of combinations and of the start holds of the value a climb reaches. -/
theorem climb_induction {P : α → Prop} (hcombine : ∀ a b, P (combine a b)) {x : α} (hx : P x)
    (steps : List (Side × α)) : P (climb combine x steps) := by
  match steps with
  | [] => exact hx
  | (.left, _) :: _ => exact hcombine _ _
  | (.right, _) :: _ => exact hcombine _ _

/-- One half of each pair a climb combines is a value that the climb itself produced. -/
theorem climbPairs_half {P : α → Prop} (hcombine : ∀ a b, P (combine a b)) {x : α} (hx : P x)
    {steps : List (Side × α)} {p : α × α} (hp : p ∈ climbPairs combine x steps) :
    P p.1 ∨ P p.2 := by
  induction steps with
  | nil => simp [climbPairs] at hp
  | cons step rest ih =>
    have hrest := climb_induction combine hcombine hx rest
    obtain ⟨side, s⟩ := step
    cases side with
    | left =>
      rcases List.mem_cons.mp hp with rfl | hp
      · exact .inl hrest
      · exact ih hp
    | right =>
      rcases List.mem_cons.mp hp with rfl | hp
      · exact .inr hrest
      · exact ih hp

end HashTree

end SchemaBrain.Base
