import Mathlib.Data.List.Basic
import Mathlib.Data.List.Induction

/-!
# Hash chains

A chain links each body to the digest before it. Where the links in use cannot be
confused and none of them makes the genesis value, the last digest determines the
whole chain.
-/

namespace SchemaBrain.Base.HashChain

universe u v

variable {α : Type u} {β : Type v} (link : α → β → α)

/-- Every entry's digest links its body to the digest before it. -/
def Chained : α → List (β × α) → Prop
  | _, [] => True
  | prev, (body, digest) :: rest => digest = link prev body ∧ Chained digest rest

/-- The last digest, or the starting value of an empty chain. -/
def head : α → List (β × α) → α
  | prev, [] => prev
  | _, (_, digest) :: rest => head digest rest

/-- The pairs that a verifier of the chain links. -/
def inputs : α → List (β × α) → List (α × β)
  | _, [] => []
  | prev, (body, digest) :: rest => (prev, body) :: inputs digest rest

@[simp] theorem head_append (prev : α) (xs ys : List (β × α)) :
    head prev (xs ++ ys) = head (head prev xs) ys := by
  induction xs generalizing prev with
  | nil => rfl
  | cons x xs ih => exact ih x.2

@[simp] theorem inputs_append (prev : α) (xs ys : List (β × α)) :
    inputs prev (xs ++ ys) = inputs prev xs ++ inputs (head prev xs) ys := by
  induction xs generalizing prev with
  | nil => rfl
  | cons x xs ih => simp only [List.cons_append, inputs, head, ih]

/-- Chains are verified piece by piece. -/
theorem chained_append (prev : α) (xs ys : List (β × α)) :
    Chained link prev (xs ++ ys) ↔ Chained link prev xs ∧ Chained link (head prev xs) ys := by
  induction xs generalizing prev with
  | nil => simp [Chained, head]
  | cons x xs ih => simp only [List.cons_append, Chained, head, ih, and_assoc]

/-- Appending one linked entry keeps a chain. -/
theorem Chained.snoc {prev : α} {xs : List (β × α)} (h : Chained link prev xs) (body : β) :
    Chained link prev (xs ++ [(body, link (head prev xs) body)]) :=
  (chained_append link prev xs _).mpr ⟨h, rfl, trivial⟩

/-- The last digest determines the chain. -/
theorem chained_determined {genesis : α} {xs ys : List (β × α)}
    (hx : Chained link genesis xs) (hy : Chained link genesis ys)
    (hinj : ∀ p ∈ inputs genesis xs, ∀ q ∈ inputs genesis ys,
      link p.1 p.2 = link q.1 q.2 → p = q)
    (hgenesis : ∀ p ∈ inputs genesis xs ++ inputs genesis ys, link p.1 p.2 ≠ genesis)
    (hhead : head genesis xs = head genesis ys) : xs = ys := by
  induction xs using List.reverseRecOn generalizing ys with
  | nil =>
    rcases List.eq_nil_or_concat' ys with rfl | ⟨ys, ⟨body, digest⟩, rfl⟩
    · rfl
    · -- A link at the end of the other chain would make the genesis value.
      obtain ⟨-, hdigest, -⟩ := (chained_append link genesis ys _).mp hy
      simp only [head, head_append] at hhead
      exact absurd (hdigest ▸ hhead).symm (hgenesis (head genesis ys, body) (by simp [inputs]))
  | append_singleton xs x ih =>
    obtain ⟨body, digest⟩ := x
    obtain ⟨hxs, hdigest, -⟩ := (chained_append link genesis xs _).mp hx
    simp only [head_append, head] at hhead
    rcases List.eq_nil_or_concat' ys with rfl | ⟨ys, ⟨body', digest'⟩, rfl⟩
    · simp only [head] at hhead
      exact absurd (hdigest ▸ hhead) (hgenesis (head genesis xs, body) (by simp [inputs]))
    · obtain ⟨hys, hdigest', -⟩ := (chained_append link genesis ys _).mp hy
      simp only [head_append, head] at hhead
      have hpair := hinj (head genesis xs, body) (by simp [inputs])
        (head genesis ys, body') (by simp [inputs]) (by rw [← hdigest, ← hdigest', hhead])
      obtain ⟨hprev, hbody⟩ := Prod.mk.inj hpair
      have hrest := ih hxs hys
        (fun p hp q hq => hinj p (by simp [hp]) q (by simp [hq]))
        (fun p hp => hgenesis p (by
          rcases List.mem_append.mp hp with hp | hp <;> simp [hp])) hprev
      rw [hrest, hbody, hhead]

end SchemaBrain.Base.HashChain
