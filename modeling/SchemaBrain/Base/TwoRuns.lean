import Mathlib.Data.List.Forall2

/-!
# Two runs side by side

Lists related position by position: what a computation makes of them is equal, or related
again, when its steps are.
-/

namespace SchemaBrain.Base

variable {α β γ : Type}

/-- Related lists have equal images under maps that agree on related elements. -/
theorem map_eq_map_of_forall₂ {R : α → β → Prop} {f : α → γ} {g : β → γ} {l : List α}
    {l' : List β} (h : List.Forall₂ R l l') (hfg : ∀ a b, R a b → f a = g b) :
    l.map f = l'.map g := by
  have hmaps : List.Forall₂ (· = ·) (l.map f) (l'.map g) :=
    List.forall₂_map_left_iff.2 (List.forall₂_map_right_iff.2 (h.imp hfg))
  rwa [List.forall₂_eq_eq_eq] at hmaps

/-- The first hits in related lists are related. -/
theorem rel_find? {R : α → β → Prop} {p : α → Bool} {q : β → Bool} {l : List α} {l' : List β}
    (h : List.Forall₂ R l l') (hpq : ∀ a b, R a b → p a = q b) :
    Option.Rel R (l.find? p) (l'.find? q) := by
  induction h with
  | nil => exact .none
  | cons hab _ ih =>
    rw [List.find?_cons, List.find?_cons, hpq _ _ hab]
    split
    · exact .some hab
    · exact ih

/-- A hit in one list is related to one in the other. -/
theorem rel_some {R : α → β → Prop} {a : α} {o : Option β} (h : Option.Rel R (some a) o) :
    ∃ b, o = some b ∧ R a b := by
  cases h with
  | some hab => exact ⟨_, rfl, hab⟩

theorem rel_none {R : α → β → Prop} {o : Option β} (h : Option.Rel R none o) : o = none := by
  cases h with
  | none => rfl

end SchemaBrain.Base
