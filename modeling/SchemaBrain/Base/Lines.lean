import Mathlib.Data.List.Basic

/-!
# Lines ended by a separator

A stream of lines, each ended by a separator, and what a reader of any prefix of the stream has
after it splits the prefix: the first lines, and the part of the next one.
-/

namespace SchemaBrain.Base

variable {α : Type} {sep : α}

/-- Lines, each ended by `sep`. -/
def unlines (sep : α) (lines : List (List α)) : List α := lines.flatMap (· ++ [sep])

@[simp] theorem unlines_nil : unlines sep [] = [] := rfl

@[simp] theorem unlines_cons (line : List α) (rest : List (List α)) :
    unlines sep (line :: rest) = line ++ sep :: unlines sep rest := by
  simp [unlines]

@[simp] theorem unlines_append (first second : List (List α)) :
    unlines sep (first ++ second) = unlines sep first ++ unlines sep second :=
  List.flatMap_append

theorem length_unlines_drop_le (lines : List (List α)) {k c : Nat} (h : k ≤ c) :
    (unlines sep (lines.drop c)).length ≤ (unlines sep (lines.drop k)).length := by
  have hsplit : lines.drop k = (lines.drop k).take (c - k) ++ lines.drop c := by
    rw [show lines.drop c = (lines.drop k).drop (c - k) by rw [List.drop_drop]; congr 1; omega]
    exact (List.take_append_drop ..).symm
  rw [hsplit, unlines_append, List.length_append]
  omega

/-- Splitting a prefix of a stream of lines gives its complete lines, and a rest that the stream
goes on from. -/
theorem splitOn_prefix [DecidableEq α] {lines : List (List α)} (hlines : ∀ l ∈ lines, sep ∉ l)
    {data more : List α} (h : data ++ more = unlines sep lines) :
    ∃ k buf, k ≤ lines.length ∧ data.splitOn sep = lines.take k ++ [buf] ∧
      buf ++ more = unlines sep (lines.drop k) ∧ sep ∉ buf := by
  induction lines generalizing data with
  | nil =>
    obtain ⟨rfl, rfl⟩ := List.append_eq_nil_iff.mp h
    exact ⟨0, [], Nat.le_refl _, rfl, rfl, List.not_mem_nil⟩
  | cons line rest ih =>
    obtain ⟨hline, hrest⟩ := List.forall_mem_cons.mp hlines
    rw [unlines_cons] at h
    rcases List.append_eq_append_iff.mp h with ⟨tail, rfl, rfl⟩ | ⟨tail, rfl, htail⟩
    · -- The prefix ends inside the first line.
      have hdata : sep ∉ data := fun hmem => hline (List.mem_append_left _ hmem)
      refine ⟨0, data, Nat.zero_le _, List.splitOn_eq_singleton hdata, ?_, hdata⟩
      simp
    · cases tail with
      | nil =>
        refine ⟨0, line, Nat.zero_le _, ?_, ?_, hline⟩
        · rw [List.append_nil, List.splitOn_eq_singleton hline, List.take_zero, List.nil_append]
        · rw [List.drop_zero, unlines_cons, htail, List.nil_append]
      | cons head tail =>
        rw [List.cons_append, List.cons.injEq] at htail
        obtain ⟨rfl, htail⟩ := htail
        obtain ⟨k, buf, hk, hsplit, hmore, hbuf⟩ := ih hrest htail.symm
        refine ⟨k + 1, buf, Nat.succ_le_succ hk, ?_, hmore, hbuf⟩
        rw [List.splitOn_append_cons_self_of_not_mem hline, hsplit, List.take_succ_cons,
          List.cons_append]

/-- A rest without a separator starts in the last line that what follows it leaves out. -/
theorem le_of_length_le {lines : List (List α)} {buf more : List α} {k c : Nat}
    (h : buf ++ more = unlines sep (lines.drop k)) (hbuf : sep ∉ buf) (hc : c ≤ lines.length)
    (hmore : more.length ≤ (unlines sep (lines.drop c)).length) : c ≤ k := by
  by_contra hlt
  have hlt := Nat.lt_of_not_le hlt
  have hk : k < lines.length := Nat.lt_of_lt_of_le hlt hc
  rw [List.drop_eq_getElem_cons hk, unlines_cons] at h
  have hlen : (unlines sep (lines.drop c)).length ≤ (unlines sep (lines.drop (k + 1))).length :=
    length_unlines_drop_le lines hlt
  rcases List.append_eq_append_iff.mp h with ⟨tail, -, rfl⟩ | ⟨tail, rfl, htail⟩
  · simp only [List.length_append, List.length_cons] at hmore
    omega
  · cases tail with
    | nil =>
      obtain rfl : sep :: unlines sep (lines.drop (k + 1)) = more := htail
      simp only [List.length_cons] at hmore
      omega
    | cons head tail =>
      obtain ⟨rfl, -⟩ := List.cons.inj htail
      exact hbuf (by simp)

end SchemaBrain.Base
