import Mathlib.Data.List.Nodup

/-!
# Rows under a primary key

A table as a list of rows with a key: the row of a key, `INSERT ... ON CONFLICT (key) DO UPDATE`
and `DELETE ... WHERE key = ?`, each described by the row that it leaves under every key.
-/

namespace SchemaBrain.Base

section Rows

variable {ρ κ : Type} [DecidableEq κ] (key : ρ → κ)

/-- The row of a key. -/
def rowOf (rows : List ρ) (k : κ) : Option ρ := rows.find? (key · = k)

/-- The row is inserted, or the one under its key is updated from it. -/
def upsertRow (update : ρ → ρ → ρ) (rows : List ρ) (new : ρ) : List ρ :=
  if key new ∈ rows.map key then rows.map fun r => if key r = key new then update r new else r
  else rows ++ [new]

/-- The rows under other keys. -/
def deleteRow (rows : List ρ) (k : κ) : List ρ := rows.filter (key · ≠ k)

variable {key} {update : ρ → ρ → ρ} {rows : List ρ} {new : ρ} {k : κ}

theorem rowOf_eq_none : rowOf key rows k = none ↔ k ∉ rows.map key := by
  rw [rowOf, List.find?_eq_none, List.mem_map]
  constructor
  · rintro hnone ⟨r, hr, hkey⟩
    exact hnone r hr (decide_eq_true hkey)
  · intro hnot r hr hkey
    exact hnot ⟨r, hr, of_decide_eq_true hkey⟩

theorem isSome_rowOf : (rowOf key rows k).isSome = true ↔ k ∈ rows.map key := by
  rw [← not_iff_not, Bool.not_eq_true, Option.isSome_eq_false_iff, Option.isNone_iff_eq_none,
    rowOf_eq_none]

/-- The row of a key is stored under it. -/
theorem rowOf_spec {r : ρ} (h : rowOf key rows k = some r) : r ∈ rows ∧ key r = k := by
  have hkey := List.find?_some h
  exact ⟨List.mem_of_find?_eq_some h, of_decide_eq_true hkey⟩

/-- Under different keys, a stored row is the row of its key. -/
theorem rowOf_of_mem (hrows : (rows.map key).Nodup) {r : ρ} (h : r ∈ rows) :
    rowOf key rows (key r) = some r := by
  have hkeys : key r ∈ rows.map key := List.mem_map_of_mem h
  obtain ⟨r', hr'⟩ := Option.isSome_iff_exists.1 (isSome_rowOf.2 hkeys)
  obtain ⟨hmem, hkey⟩ := rowOf_spec hr'
  rw [hr', List.inj_on_of_nodup_map hrows hmem h hkey]

private theorem find?_update (hupdate : ∀ old new, key (update old new) = key old) :
    (rows.map fun r => if key r = key new then update r new else r).find? (key · = k) =
      (rows.find? (key · = k)).map fun r => if key r = key new then update r new else r := by
  rw [List.find?_map]
  congr 2
  funext r
  dsimp only [Function.comp_apply]
  split
  · rw [hupdate]
  · rfl

/-- An upsert leaves the updated or the new row under its key, and the others alone. -/
theorem rowOf_upsertRow (hupdate : ∀ old new, key (update old new) = key old) :
    rowOf key (upsertRow key update rows new) k =
      if key new = k then some (((rowOf key rows k).map (update · new)).getD new)
      else rowOf key rows k := by
  unfold upsertRow
  split
  · next hold =>
    rw [rowOf, find?_update hupdate, ← rowOf]
    split
    · next hk =>
      obtain ⟨r, hr⟩ := Option.isSome_iff_exists.1 (isSome_rowOf.2 (hk ▸ hold))
      rw [hr, Option.map_some, Option.map_some, Option.getD_some, if_pos]
      rw [(rowOf_spec hr).2, hk]
    · next hk =>
      cases hr : rowOf key rows k with
      | none => rfl
      | some r =>
        rw [Option.map_some, if_neg]
        rw [(rowOf_spec hr).2]
        exact Ne.symm hk
  · next hnew =>
    rw [rowOf, List.find?_append, ← rowOf]
    split
    · next hk => simp [rowOf_eq_none.2 (hk ▸ hnew), hk]
    · next hk => simp [hk]

/-- Where an update carries every column, the row is replaced. -/
theorem rowOf_upsertRow_of_carried (hupdate : ∀ old new, key (update old new) = key old)
    (hcarried : ∀ old, key old = key new → update old new = new) :
    rowOf key (upsertRow key update rows new) k =
      if key new = k then some new else rowOf key rows k := by
  rw [rowOf_upsertRow hupdate]
  split
  · next hk =>
    cases hr : rowOf key rows k with
    | none => rfl
    | some old =>
      rw [Option.map_some, Option.getD_some, hcarried old ((rowOf_spec hr).2.trans hk.symm)]
  · rfl

theorem rowOf_deleteRow {k' : κ} :
    rowOf key (deleteRow key rows k') k = if k' = k then none else rowOf key rows k := by
  split
  · next hk =>
    rw [rowOf_eq_none, deleteRow, List.mem_map]
    rintro ⟨r, hr, hkey⟩
    exact of_decide_eq_true (List.mem_filter.1 hr).2 (hkey.trans hk.symm)
  · next hk =>
    rw [rowOf, deleteRow, List.find?_filter, rowOf]
    congr 1
    funext r
    by_cases hkey : key r = k
    · simp [hkey, Ne.symm hk]
    · simp [hkey]

/-- The keys after an upsert: the old ones and that of the row. -/
theorem mem_keys_upsertRow (hupdate : ∀ old new, key (update old new) = key old) :
    k ∈ (upsertRow key update rows new).map key ↔ k ∈ rows.map key ∨ k = key new := by
  rw [← isSome_rowOf, rowOf_upsertRow hupdate, ← isSome_rowOf]
  split
  · next hk => simp [hk]
  · next hk => simp [Ne.symm hk]

theorem nodup_upsertRow (hupdate : ∀ old new, key (update old new) = key old)
    (h : (rows.map key).Nodup) : ((upsertRow key update rows new).map key).Nodup := by
  unfold upsertRow
  split
  · have hkeys : (key ∘ fun r => if key r = key new then update r new else r) = key := by
      funext r
      dsimp only [Function.comp_apply]
      split
      · exact hupdate _ _
      · rfl
    rwa [List.map_map, hkeys]
  · next hnew =>
    rw [List.map_append, List.map_singleton, List.nodup_append_comm]
    exact List.nodup_cons.2 ⟨hnew, h⟩

/-- The row of a key after a batch of upserts: those under the key, one after another. -/
theorem rowOf_foldl_upsertRow (hupdate : ∀ old new, key (update old new) = key old)
    (news : List ρ) :
    rowOf key (news.foldl (upsertRow key update) rows) k = (news.filter (key · = k)).foldl
      (fun row new => some ((row.map (update · new)).getD new)) (rowOf key rows k) := by
  induction news generalizing rows with
  | nil => rfl
  | cons new news ih =>
    rw [List.foldl_cons, ih, rowOf_upsertRow hupdate, List.filter_cons]
    split
    · next hk => simp [hk]
    · next hk => simp [hk]

/-- The keys after a batch of upserts. -/
theorem mem_keys_foldl_upsertRow (hupdate : ∀ old new, key (update old new) = key old)
    (news : List ρ) : k ∈ (news.foldl (upsertRow key update) rows).map key ↔
      k ∈ rows.map key ∨ k ∈ news.map key := by
  induction news generalizing rows with
  | nil => simp
  | cons new news ih =>
    rw [List.foldl_cons, ih, mem_keys_upsertRow hupdate, List.map_cons, List.mem_cons, or_assoc]

theorem nodup_foldl_upsertRow (hupdate : ∀ old new, key (update old new) = key old)
    (h : (rows.map key).Nodup) (news : List ρ) :
    ((news.foldl (upsertRow key update) rows).map key).Nodup := by
  induction news generalizing rows with
  | nil => exact h
  | cons new news ih => exact ih (nodup_upsertRow hupdate h)

/-- Where updates carry every column, a batch leaves the last row under each key. -/
theorem rowOf_foldl_upsertRow_of_carried (hupdate : ∀ old new, key (update old new) = key old)
    (hcarried : ∀ old new, key old = key new → update old new = new) (news : List ρ) :
    rowOf key (news.foldl (upsertRow key update) rows) k =
      ((news.filter (key · = k)).getLast?).or (rowOf key rows k) := by
  induction news generalizing rows with
  | nil => rfl
  | cons new news ih =>
    rw [List.foldl_cons, ih, rowOf_upsertRow_of_carried hupdate fun old => hcarried old new,
      List.filter_cons]
    split
    · next hk =>
      rw [if_pos (decide_eq_true hk), List.getLast?_cons]
      cases (news.filter (key · = k)).getLast? <;> rfl
    · next hk => rw [if_neg (by simpa using hk)]

/-- A batch of rows that are all stored keeps the keys in their places. -/
theorem map_key_foldl_upsertRow (hupdate : ∀ old new, key (update old new) = key old)
    {news : List ρ} (h : ∀ new ∈ news, key new ∈ rows.map key) :
    (news.foldl (upsertRow key update) rows).map key = rows.map key := by
  induction news generalizing rows with
  | nil => rfl
  | cons new news ih =>
    obtain ⟨hnew, hnews⟩ := List.forall_mem_cons.1 h
    have hkeys : (upsertRow key update rows new).map key = rows.map key := by
      rw [upsertRow, if_pos hnew, List.map_map]
      apply List.map_congr_left
      intro r _
      dsimp only [Function.comp_apply]
      split
      · exact hupdate _ _
      · rfl
    rw [List.foldl_cons, ih (hkeys ▸ hnews), hkeys]

/-- Tables with the same keys in the same places and the same row of every key are the same. -/
theorem rows_ext {rows' : List ρ} (hkeys : rows.map key = rows'.map key)
    (hrows : (rows.map key).Nodup) (h : ∀ k, rowOf key rows k = rowOf key rows' k) :
    rows = rows' := by
  have hlength : rows.length = rows'.length := by simpa using congrArg List.length hkeys
  refine List.ext_getElem hlength fun i hi hi' => ?_
  have hkey : key rows[i] = key rows'[i] := by
    have := congrArg (·[i]?) hkeys
    simpa [hi, hi'] using this
  have hrow := rowOf_of_mem hrows (List.getElem_mem hi)
  have hrow' := rowOf_of_mem (hkeys ▸ hrows) (List.getElem_mem hi')
  rw [h, hkey, hrow'] at hrow
  exact (Option.some.inj hrow).symm

/-- A batch that was run changes nothing when it is run again, in any order that leaves the last
row of each key the last. -/
theorem foldl_upsertRow_again (hupdate : ∀ old new, key (update old new) = key old)
    (hcarried : ∀ old new, key old = key new → update old new = new) (hrows : (rows.map key).Nodup)
    {news again : List ρ}
    (h : ∀ k, (again.filter (key · = k)).getLast? = (news.filter (key · = k)).getLast?) :
    again.foldl (upsertRow key update) (news.foldl (upsertRow key update) rows) =
      news.foldl (upsertRow key update) rows := by
  have hnodup := nodup_foldl_upsertRow hupdate hrows news
  have hstored : ∀ new ∈ again, key new ∈ (news.foldl (upsertRow key update) rows).map key := by
    intro new hnew
    have hmem : new ∈ again.filter (key · = key new) := by simp [hnew]
    obtain ⟨last, hlast⟩ := Option.ne_none_iff_exists'.1
      (mt List.getLast?_eq_none_iff.1 (List.ne_nil_of_mem hmem))
    obtain ⟨hlast, hkey⟩ := List.mem_filter.1 (List.mem_of_getLast? (h _ ▸ hlast))
    rw [mem_keys_foldl_upsertRow hupdate]
    exact .inr (of_decide_eq_true hkey ▸ List.mem_map_of_mem hlast)
  have hkeys := map_key_foldl_upsertRow hupdate hstored
  refine rows_ext hkeys (hkeys ▸ hnodup) fun k => ?_
  rw [rowOf_foldl_upsertRow_of_carried hupdate hcarried,
    rowOf_foldl_upsertRow_of_carried hupdate hcarried, h]
  cases (news.filter (key · = k)).getLast? <;> rfl

/-- The rows after an upsert. -/
theorem mem_upsertRow {r : ρ} (h : r ∈ upsertRow key update rows new) :
    r ∈ rows ∨ key new ∉ rows.map key ∧ r = new ∨
      ∃ old ∈ rows, key old = key new ∧ r = update old new := by
  unfold upsertRow at h
  split at h
  · obtain ⟨old, hold, rfl⟩ := List.mem_map.1 h
    split
    · next hkey => exact .inr (.inr ⟨old, hold, hkey, rfl⟩)
    · exact .inl hold
  · next hnew =>
    exact (List.mem_append.1 h).imp_right fun hr => .inl ⟨hnew, List.mem_singleton.1 hr⟩

/-- A row under another key stays. -/
theorem mem_upsertRow_of_ne {r : ρ} (h : r ∈ rows) (hne : key r ≠ key new) :
    r ∈ upsertRow key update rows new := by
  unfold upsertRow
  split
  · exact List.mem_map.2 ⟨r, h, if_neg hne⟩
  · exact List.mem_append_left _ h

end Rows

end SchemaBrain.Base
