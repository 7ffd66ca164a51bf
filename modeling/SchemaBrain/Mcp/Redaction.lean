import SchemaBrain.Mcp.GetMetric
import SchemaBrain.Mcp.QualifiedName

/-!
# Masked names

What the read tools read beside the compiler's rows, and the masks that they put over the
names of blocked columns: numbered placeholders in column lists, one placeholder in the
column lists of foreign keys and joins.
-/

namespace SchemaBrain.Core

/-- What an entity's row holds beside its binding. -/
structure EntityNotes where
  description : String := ""
  origin : Origin := .manual
  inferenceMethod : InferenceMethod := .manuallyAuthored
  validationState : ValidationState := .applied
  deriving DecidableEq, Repr

/-- The rows of one source with the texts that the read tools show. -/
structure Catalog extends Store where
  sourceConnectionId : String := "default"
  columnDescription : QualifiedTable → String → Option String := fun _ _ => none
  entityNotes : String → EntityNotes := fun _ => {}

end SchemaBrain.Core

namespace SchemaBrain.Mcp

open Base Core Semantic

/-- What the read tools raise, with the text. -/
inductive ReadError
  | valueError (text : String)
  | tableNotFound (text : String)
  | columnNotFound (text : String)
  | entityNotFound (text : String)
  | runtimeError (text : String)
  deriving DecidableEq, Repr

/-! ## Policy -/

section Policy

variable (store : Store) (piiBlock : List PiiCategory)

/-- `sorted(categories & effective_block)` of the tag stored under a table's text. -/
def blockedCategories (table column : String) : List PiiCategory :=
  sortedCategories ((store.columnPiiTag table column).categories.filter
    (· ∈ effectiveBlock piiBlock))

/-- The column's stored categories meet the policy or the floor. -/
def Blocked (table column : String) : Prop := blockedCategories store piiBlock table column ≠ []

instance (table column : String) : Decidable (Blocked store piiBlock table column) :=
  inferInstanceAs (Decidable (_ ≠ _))

/-- The category that names a blocked column's placeholder. -/
def maskCategory (table column : String) : Option PiiCategory :=
  (blockedCategories store piiBlock table column).head?

/-- `_FK_REDACTED_PLACEHOLDER`. -/
def fkRedactedPlaceholder : String := "<redacted_column>"

/-- `redact_blocked_fk_columns`. -/
def redactBlockedFkColumns (table : String) (columns : List String) : List String :=
  columns.map fun column =>
    if Blocked store piiBlock table column then fkRedactedPlaceholder else column

variable {store piiBlock}

theorem maskCategory_eq_none {table column : String} :
    maskCategory store piiBlock table column = none ↔ ¬ Blocked store piiBlock table column := by
  simp [maskCategory, Blocked]

end Policy

/-! ## Placeholders -/

/-- `<redacted_CATEGORY_column_N>`. -/
def placeholder (category : PiiCategory) (n : Nat) : String :=
  "<redacted_" ++ category.word ++ "_column_" ++ toString n ++ ">"

private theorem word_not_prefix : ∀ c c' : PiiCategory, c ≠ c' →
    ¬ (c.word ++ "_column_").toList <+: (c'.word ++ "_column_").toList := by
  intro c c'
  cases c <;> cases c' <;> decide

/-- A placeholder tells its category. -/
theorem category_of_placeholder {c c' : PiiCategory} {n n' : Nat}
    (h : placeholder c n = placeholder c' n') : c = c' := by
  by_contra hne
  have hchars : (c.word ++ "_column_").toList ++ (toString n ++ ">").toList =
      (c'.word ++ "_column_").toList ++ (toString n' ++ ">").toList := by
    have hlist := congrArg String.toList h
    simp only [placeholder, String.toList_append, List.append_assoc,
      List.append_cancel_left_eq] at hlist ⊢
    exact hlist
  rcases List.prefix_or_prefix_of_prefix (List.prefix_append _ _)
    (hchars ▸ List.prefix_append _ _) with hprefix | hprefix
  · exact word_not_prefix c' c (Ne.symm hne) hprefix
  · exact word_not_prefix c c' hne hprefix

/-- The placeholders of a column list: the blocked columns are counted by category. -/
def placeholders : (PiiCategory → Nat) → List (Option PiiCategory) → List (Option String)
  | _, [] => []
  | counters, none :: rest => none :: placeholders counters rest
  | counters, some category :: rest =>
    some (placeholder category (counters category + 1)) ::
      placeholders (Function.update counters category (counters category + 1)) rest

/-- Equal placeholders mask equal categories. -/
theorem placeholders_inj {counters : PiiCategory → Nat} {masks masks' : List (Option PiiCategory)}
    (h : placeholders counters masks = placeholders counters masks') : masks = masks' := by
  induction masks generalizing counters masks' with
  | nil =>
    cases masks' with
    | nil => rfl
    | cons mask' masks' => cases mask' <;> simp [placeholders] at h
  | cons mask masks ih =>
    cases masks' with
    | nil => cases mask <;> simp [placeholders] at h
    | cons mask' masks' =>
      cases mask with
      | none =>
        cases mask' with
        | none => rw [ih (List.cons.inj h).2]
        | some category' => simp [placeholders] at h
      | some category =>
        cases mask' with
        | none => simp [placeholders] at h
        | some category' =>
          obtain ⟨hhead, htail⟩ := List.cons.inj h
          obtain rfl := category_of_placeholder (Option.some.inj hhead)
          rw [ih htail]

theorem length_placeholders (counters : PiiCategory → Nat) (masks : List (Option PiiCategory)) :
    (placeholders counters masks).length = masks.length := by
  induction masks generalizing counters with
  | nil => rfl
  | cons mask masks ih => cases mask <;> simp [placeholders, ih]

end SchemaBrain.Mcp
