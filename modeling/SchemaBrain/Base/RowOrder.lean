import Mathlib.Data.List.Basic
import Mathlib.Data.List.Pairwise
import Mathlib.Order.Defs.LinearOrder
import Mathlib.Order.Lattice

/-!
# Ordering by keys

The lexicographic order of a list of keys, each ascending or descending. Values that the
keys tell apart, pair by pair, have one sorted arrangement.
-/

namespace SchemaBrain.Base

/-- One key of an ordering. -/
structure SortKey (α κ : Type) where
  value : α → κ
  descending : Bool

section Keys

variable {α κ : Type} [LinearOrder κ]

/-- The key puts the first value before the second. -/
def SortKey.Before (key : SortKey α κ) (a b : α) : Prop :=
  if key.descending then key.value b < key.value a else key.value a < key.value b

/-- The first key that tells the values apart puts the first one before the second. -/
def Precedes : List (SortKey α κ) → α → α → Prop
  | [], _, _ => False
  | key :: keys, a, b => key.Before a b ∨ (key.value a = key.value b ∧ Precedes keys a b)

theorem SortKey.before_or_before_iff {key : SortKey α κ} {a b : α} :
    key.Before a b ∨ key.Before b a ↔ key.value a ≠ key.value b := by
  unfold SortKey.Before
  rw [ne_iff_lt_or_gt]
  split
  · exact or_comm
  · rfl

/-- Two values are ordered, one way or the other, exactly when some key tells them apart. -/
theorem precedes_or_precedes_iff {keys : List (SortKey α κ)} {a b : α} :
    Precedes keys a b ∨ Precedes keys b a ↔ ∃ key ∈ keys, key.value a ≠ key.value b := by
  induction keys with
  | nil => simp [Precedes]
  | cons key keys ih =>
    rw [List.exists_mem_cons_iff, ← ih, ← SortKey.before_or_before_iff, Precedes, Precedes]
    constructor
    · rintro ((h | ⟨-, h⟩) | (h | ⟨-, h⟩))
      · exact .inl (.inl h)
      · exact .inr (.inl h)
      · exact .inl (.inr h)
      · exact .inr (.inr h)
    · intro h
      by_cases hvalue : key.value a = key.value b
      · rcases h with h | h
        · exact absurd hvalue (SortKey.before_or_before_iff.1 h)
        · exact h.imp (fun h => .inr ⟨hvalue, h⟩) fun h => .inr ⟨hvalue.symm, h⟩
      · exact (SortKey.before_or_before_iff.2 hvalue).imp .inl .inl

/-- The list in some order that the keys allow: no value comes after one that it precedes. -/
def SortedBy (keys : List (SortKey α κ)) (xs sorted : List α) : Prop :=
  sorted.Perm xs ∧ sorted.Pairwise fun a b => ¬ Precedes keys b a

/-- Values that the keys tell apart have one sorted arrangement. -/
theorem SortedBy.unique {keys : List (SortKey α κ)} {xs sorted sorted' : List α}
    (hxs : xs.Pairwise fun a b => Precedes keys a b ∨ Precedes keys b a)
    (h : SortedBy keys xs sorted) (h' : SortedBy keys xs sorted') : sorted = sorted' := by
  have : Std.Symm fun a b : α => Precedes keys a b ∨ Precedes keys b a := ⟨fun _ _ => Or.symm⟩
  refine (h.1.trans h'.1.symm).eq_of_pairwise (fun a b ha hb hba hab => ?_) h.2 h'.2
  by_contra hne
  rcases hxs.forall (h.1.mem_iff.1 ha) (h'.1.mem_iff.1 hb) hne with hlt | hlt
  · exact hab hlt
  · exact hba hlt

end Keys

end SchemaBrain.Base
