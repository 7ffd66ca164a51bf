import Mathlib.Data.List.Basic

/-!
# Inner joins of row lists

The tuples of a chain of inner joins: a row of the first table, and the rows joined to it
under their aliases. A join that finds at most one row for each tuple repeats none.
-/

namespace SchemaBrain.Base

/-- The columns of a row, NULL as `none`. -/
abbrev Row (V : Type) := String → Option V

/-- A row of a table at its position, under an alias. -/
structure Bound (V : Type) where
  aliasName : String
  position : Nat
  row : Row V

/-- A row of the first table with the rows joined to it. -/
structure Tuple (V : Type) where
  first : Bound V
  joined : List (Bound V) := []

section Joins

variable {V : Type}

/-- The rows of a table, in order, under an alias. -/
def scan (aliasName : String) (rows : List (Row V)) : List (Bound V) :=
  rows.mapIdx fun position row => ⟨aliasName, position, row⟩

namespace Tuple

/-- The bound rows, the first one first. -/
def rows (t : Tuple V) : List (Bound V) := t.first :: t.joined

/-- One more joined row. -/
def extend (t : Tuple V) (b : Bound V) : Tuple V := { t with joined := t.joined ++ [b] }

/-- The column of the row under an alias. -/
def value (t : Tuple V) (aliasName column : String) : Option V :=
  (t.rows.find? (·.aliasName = aliasName)).bind (·.row column)

@[simp] theorem first_extend (t : Tuple V) (b : Bound V) : (t.extend b).first = t.first := rfl

@[simp] theorem rows_extend (t : Tuple V) (b : Bound V) : (t.extend b).rows = t.rows ++ [b] := rfl

/-- A joined row hides no row before it. -/
theorem value_extend_old {t : Tuple V} {aliasName : String} {b : Bound V}
    (h : t.rows.find? (·.aliasName = aliasName) = some b) (b' : Bound V) (column : String) :
    (t.extend b').value aliasName column = b.row column := by
  rw [value, rows_extend, List.find?_append, h]
  rfl

/-- A joined row leaves the columns under earlier aliases. -/
theorem value_extend_of_mem {t : Tuple V} {aliasName : String}
    (h : aliasName ∈ t.rows.map (·.aliasName)) (b : Bound V) (column : String) :
    (t.extend b).value aliasName column = t.value aliasName column := by
  obtain ⟨b', hb', rfl⟩ := List.mem_map.1 h
  cases hfind : t.rows.find? (·.aliasName = b'.aliasName) with
  | none => exact absurd (List.find?_eq_none.1 hfind b' hb') (by simp)
  | some found =>
    rw [value_extend_old hfind, value, hfind]
    rfl

/-- A row under a new alias is read under it. -/
theorem value_extend_new {t : Tuple V} {b : Bound V}
    (h : b.aliasName ∉ t.rows.map (·.aliasName)) (column : String) :
    (t.extend b).value b.aliasName column = b.row column := by
  have hnone : t.rows.find? (·.aliasName = b.aliasName) = none := by
    refine List.find?_eq_none.2 fun b' hb' heq => h ?_
    exact List.mem_map.2 ⟨b', hb', of_decide_eq_true heq⟩
  rw [value, rows_extend, List.find?_append, hnone]
  simp

end Tuple

/-- `left JOIN right ON on`, as a nested loop. -/
def innerJoin (left : List (Tuple V)) (right : List (Bound V)) (on : Tuple V → Bool) :
    List (Tuple V) :=
  left.flatMap fun t => (right.filter fun b => on (t.extend b)).map t.extend

theorem mem_innerJoin {left : List (Tuple V)} {right : List (Bound V)} {on : Tuple V → Bool}
    {t : Tuple V} : t ∈ innerJoin left right on ↔
      ∃ t' ∈ left, ∃ b ∈ right, on (t'.extend b) = true ∧ t'.extend b = t := by
  simp [innerJoin, and_assoc]

/-- With at most one row for each tuple the first rows stay in order and none repeats. -/
theorem innerJoin_first_sublist {left : List (Tuple V)} {right : List (Bound V)}
    {on : Tuple V → Bool}
    (h : ∀ t ∈ left, (right.filter fun b => on (t.extend b)).length ≤ 1) :
    ((innerJoin left right on).map (·.first)).Sublist (left.map (·.first)) := by
  induction left with
  | nil => simp [innerJoin]
  | cons t left ih =>
    have hrest := ih fun t' ht' => h t' (List.mem_cons_of_mem _ ht')
    have hone := h t List.mem_cons_self
    rw [innerJoin, List.flatMap_cons, List.map_append, List.map_cons]
    cases hmatch : right.filter fun b => on (t.extend b) with
    | nil => exact hrest.cons t.first
    | cons b bs =>
      rw [hmatch, List.length_cons, Nat.succ_le_succ_iff, Nat.le_zero,
        List.length_eq_zero_iff] at hone
      rw [hone]
      exact hrest.cons_cons t.first

theorem mem_scan {aliasName : String} {rows : List (Row V)} {b : Bound V}
    (h : b ∈ scan aliasName rows) : b.aliasName = aliasName ∧ b.row ∈ rows := by
  obtain ⟨i, hi, rfl⟩ := List.mem_mapIdx.1 h
  exact ⟨rfl, List.getElem_mem hi⟩

theorem exists_mem_scan (aliasName : String) {rows : List (Row V)} {row : Row V}
    (h : row ∈ rows) : ∃ b ∈ scan aliasName rows, b.aliasName = aliasName ∧ b.row = row := by
  obtain ⟨i, hi, rfl⟩ := List.getElem_of_mem h
  exact ⟨_, List.mem_mapIdx.2 ⟨i, hi, rfl⟩, rfl, rfl⟩

theorem scan_map_row (aliasName : String) (rows : List (Row V)) :
    (scan aliasName rows).map (·.row) = rows := by
  apply List.ext_getElem
  · simp [scan]
  · simp [scan]

theorem scan_map_position (aliasName : String) (rows : List (Row V)) :
    (scan aliasName rows).map (·.position) = List.range rows.length := by
  apply List.ext_getElem
  · simp [scan]
  · simp [scan]

/-- A condition on rows holds as often under an alias as in the table. -/
theorem length_filter_scan (aliasName : String) (rows : List (Row V)) (p : Row V → Bool) :
    ((scan aliasName rows).filter fun b => p b.row).length = (rows.filter p).length := by
  conv_rhs => rw [← scan_map_row aliasName rows, List.filter_map, List.length_map]
  rfl

/-- SQL's `=` on values that may be NULL. -/
def sqlEq [DecidableEq V] : Option V → Option V → Bool
  | some a, some b => a = b
  | _, _ => false

theorem sqlEq_comm [DecidableEq V] (a b : Option V) : sqlEq a b = sqlEq b a := by
  cases a <;> cases b <;> simp [sqlEq, eq_comm]

theorem eq_of_sqlEq [DecidableEq V] {a b : Option V} (h : sqlEq a b = true) : a = b := by
  cases a <;> cases b <;> simp_all [sqlEq]

end Joins

end SchemaBrain.Base
