import Mathlib.Algebra.GroupWithZero.Nat
import Mathlib.Data.List.Dedup
import Mathlib.Data.List.Perm.Basic
import Mathlib.Data.List.Sort
import SchemaBrain.Base.KeyedRows

/-!
# Dictionaries and keyed sorts

A dictionary as a list of items under different keys, in insertion order, and `sorted` with a
key. A sort by a key that tells the elements apart depends on the elements alone, not on the
order they come in.
-/

namespace SchemaBrain.Base

section Dict

variable {κ ν : Type} [DecidableEq κ]

/-- `dict[key] = value`: a key that is there keeps its place. -/
def dictSet (dict : List (κ × ν)) (k : κ) (v : ν) : List (κ × ν) :=
  upsertRow Prod.fst (fun old new => (old.1, new.2)) dict (k, v)

/-- `dict.get(key)`. -/
def dictGet (dict : List (κ × ν)) (k : κ) : Option ν := (rowOf Prod.fst dict k).map Prod.snd

variable {dict : List (κ × ν)} {k k' : κ} {v : ν}

omit [DecidableEq κ] in
private theorem keeps_key (old new : κ × ν) : (old.1, new.2).1 = old.1 := rfl

@[simp] theorem dictGet_nil : dictGet ([] : List (κ × ν)) k = none := rfl

theorem dictGet_dictSet :
    dictGet (dictSet dict k v) k' = if k = k' then some v else dictGet dict k' := by
  have hcarried : ∀ old : κ × ν, old.1 = (k, v).1 → (old.1, (k, v).2) = (k, v) :=
    fun _ hold => Prod.ext hold rfl
  unfold dictGet dictSet
  rw [rowOf_upsertRow_of_carried keeps_key hcarried]
  split <;> rfl

theorem dictGet_eq_none : dictGet dict k = none ↔ k ∉ dict.map Prod.fst := by
  rw [dictGet, Option.map_eq_none_iff, rowOf_eq_none]

theorem nodup_dictSet (h : (dict.map Prod.fst).Nodup) : ((dictSet dict k v).map Prod.fst).Nodup :=
  nodup_upsertRow keeps_key h

/-- Under different keys, the items are what the keys get. -/
theorem dictGet_eq_some (h : (dict.map Prod.fst).Nodup) :
    dictGet dict k = some v ↔ (k, v) ∈ dict := by
  rw [dictGet, Option.map_eq_some_iff]
  constructor
  · rintro ⟨item, hitem, rfl⟩
    obtain ⟨hmem, rfl⟩ := rowOf_spec hitem
    exact hmem
  · intro hmem
    exact ⟨(k, v), rowOf_of_mem h hmem, rfl⟩

/-- `dict.get(key, [])`. -/
def dictList (dict : List (κ × List ν)) (k : κ) : List ν := (dictGet dict k).getD []

/-- `dict.setdefault(key, []).append(item)`. -/
def dictAppend (dict : List (κ × List ν)) (k : κ) (item : ν) : List (κ × List ν) :=
  dictSet dict k (dictList dict k ++ [item])

theorem mem_dictList_dictAppend {dict : List (κ × List ν)} {item item' : ν} :
    item' ∈ dictList (dictAppend dict k item) k' ↔
      item' ∈ dictList dict k' ∨ k' = k ∧ item' = item := by
  unfold dictAppend dictList
  rw [dictGet_dictSet]
  split
  · next hk => simp [hk]
  · next hk => simp [Ne.symm hk]

/-- The values of a dictionary are replaced. -/
theorem dictGet_map {ν' : Type} (f : ν → ν') :
    dictGet (dict.map fun item => (item.1, f item.2)) k = (dictGet dict k).map f := by
  unfold dictGet rowOf
  rw [List.find?_map]
  simp [Function.comp_def]

/-- After a loop of assignments a key gets the last value assigned to it. -/
theorem dictGet_foldl_dictSet {α : Type} (key : α → κ) (value : α → ν) (items : List α) :
    dictGet (items.foldl (fun dict a => dictSet dict (key a) (value a)) dict) k =
      ((items.reverse.find? (key · = k)).map value).or (dictGet dict k) := by
  induction items generalizing dict with
  | nil => rfl
  | cons a items ih =>
    rw [List.foldl_cons, ih, dictGet_dictSet, List.reverse_cons, List.find?_append]
    by_cases hkey : key a = k
    · cases items.reverse.find? (key · = k) <;> simp [hkey]
    · cases items.reverse.find? (key · = k) <;> simp [hkey]

theorem nodup_foldl_dictSet {α : Type} (key : α → κ) (value : α → ν) (items : List α)
    (h : (dict.map Prod.fst).Nodup) :
    ((items.foldl (fun dict a => dictSet dict (key a) (value a)) dict).map Prod.fst).Nodup := by
  induction items generalizing dict with
  | nil => exact h
  | cons a items ih => exact ih (nodup_dictSet h)

/-- The loop that keeps the better of the items under each key: the first one, unless a later one is
better. -/
def keepBest {α : Type} (key : α → κ) (better : α → α → Bool) (items : List α) : List (κ × α) :=
  items.foldl (fun kept a =>
    if (dictGet kept (key a)).all (better a) then dictSet kept (key a) a else kept) []

section Best

variable {α : Type} {key : α → κ} {better : α → α → Bool}

theorem mem_keys_dictSet : k' ∈ (dictSet dict k v).map Prod.fst ↔ k' ∈ dict.map Prod.fst ∨ k' = k :=
  mem_keys_upsertRow keeps_key

theorem mem_dictSet {item : κ × ν} (h : item ∈ dictSet dict k v) : item ∈ dict ∨ item = (k, v) := by
  rcases mem_upsertRow h with hold | ⟨-, hnew⟩ | ⟨old, -, hkey, hupdated⟩
  · exact .inl hold
  · exact .inr hnew
  · exact .inr (hupdated.trans (Prod.ext hkey rfl))

private theorem keepBest_loop (items : List α) (kept : List (κ × α))
    (hkeys : (kept.map Prod.fst).Nodup) (hkept : ∀ item ∈ kept, item.1 = key item.2) :
    let best := items.foldl (fun kept a =>
      if (dictGet kept (key a)).all (better a) then dictSet kept (key a) a else kept) kept
    (best.map Prod.fst).Nodup ∧
      (∀ item ∈ best, item.1 = key item.2 ∧ (item ∈ kept ∨ item.2 ∈ items)) ∧
      ∀ k, k ∈ best.map Prod.fst ↔ k ∈ kept.map Prod.fst ∨ k ∈ items.map key := by
  induction items generalizing kept with
  | nil => exact ⟨hkeys, fun item hitem => ⟨hkept item hitem, .inl hitem⟩, by simp⟩
  | cons a items ih =>
    rw [List.foldl_cons]
    split
    · obtain ⟨hnodup, hitems, hmem⟩ := ih (dictSet kept (key a) a) (nodup_dictSet hkeys) (by
        intro item hitem
        rcases mem_dictSet hitem with hold | rfl
        · exact hkept item hold
        · rfl)
      refine ⟨hnodup, fun item hitem => ⟨(hitems item hitem).1, ?_⟩, fun k => ?_⟩
      · rcases (hitems item hitem).2 with hset | hrest
        · rcases mem_dictSet hset with hold | rfl
          · exact .inl hold
          · exact .inr List.mem_cons_self
        · exact .inr (List.mem_cons_of_mem _ hrest)
      · rw [hmem, mem_keys_dictSet, List.map_cons, List.mem_cons, or_assoc]
    · next hkeep =>
      obtain ⟨hnodup, hitems, hmem⟩ := ih kept hkeys hkept
      refine ⟨hnodup, fun item hitem => ⟨(hitems item hitem).1, ?_⟩, fun k => ?_⟩
      · exact (hitems item hitem).2.imp_right (List.mem_cons_of_mem _)
      · have hthere : key a ∈ kept.map Prod.fst := by
          by_contra hnone
          rw [dictGet_eq_none.2 hnone] at hkeep
          exact hkeep rfl
        rw [hmem, List.map_cons, List.mem_cons]
        constructor
        · rintro (hold | hrest)
          · exact .inl hold
          · exact .inr (.inr hrest)
        · rintro (hold | rfl | hrest)
          · exact .inl hold
          · exact .inl hthere
          · exact .inr hrest

private theorem keepBest_spec (items : List α) :
    ((keepBest key better items).map Prod.fst).Nodup ∧
      (∀ item ∈ keepBest key better items, item.1 = key item.2 ∧ item.2 ∈ items) ∧
      ∀ k, k ∈ (keepBest key better items).map Prod.fst ↔ k ∈ items.map key := by
  obtain ⟨hnodup, hitems, hmem⟩ :=
    @keepBest_loop _ _ _ key better items [] List.nodup_nil (by simp)
  refine ⟨hnodup, fun item hitem => ⟨(hitems item hitem).1, ?_⟩, fun k => ?_⟩
  · exact (hitems item hitem).2.resolve_left List.not_mem_nil
  · exact (hmem k).trans (or_iff_right (by simp))

theorem nodup_keepBest (items : List α) : ((keepBest key better items).map Prod.fst).Nodup :=
  (keepBest_spec items).1

theorem mem_keepBest {items : List α} {item : κ × α} (h : item ∈ keepBest key better items) :
    item.1 = key item.2 ∧ item.2 ∈ items :=
  (keepBest_spec items).2.1 item h

theorem mem_keys_keepBest {items : List α} :
    k ∈ (keepBest key better items).map Prod.fst ↔ k ∈ items.map key :=
  (keepBest_spec items).2.2 k

end Best

/-- A key that is there keeps its place, a new one comes last. -/
theorem keys_prefix_dictSet : (dict.map Prod.fst).IsPrefix ((dictSet dict k v).map Prod.fst) := by
  unfold dictSet upsertRow
  split
  · have hkeys : (Prod.fst ∘ fun r : κ × ν => if r.1 = (k, v).1 then (r.1, (k, v).2) else r) =
        Prod.fst := by
      funext r
      dsimp only [Function.comp_apply]
      split <;> rfl
    exact ⟨[], by rw [List.map_map, hkeys, List.append_nil]⟩
  · rw [List.map_append]
    exact List.prefix_append _ _

/-! ### Totals -/

/-- `totals[key] += count` over the items. -/
def dictTotals (items : List (κ × Nat)) : List (κ × Nat) :=
  items.foldl (fun totals item => dictSet totals item.1 ((dictGet totals item.1).getD 0 + item.2))
    []

/-- The sum of the counts of a key. -/
def countOf (items : List (κ × Nat)) (k : κ) : Nat := ((items.filter (·.1 = k)).map (·.2)).sum

section Totals

variable {items : List (κ × Nat)} {totals : List (κ × Nat)} {t c : Nat}

private theorem dictGet_totals_loop : dictGet (items.foldl (fun totals item =>
      dictSet totals item.1 ((dictGet totals item.1).getD 0 + item.2)) totals) k =
    if k ∈ totals.map Prod.fst ∨ k ∈ items.map Prod.fst then
      some ((dictGet totals k).getD 0 + countOf items k) else none := by
  induction items generalizing totals with
  | nil =>
    rw [List.foldl_nil, List.map_nil]
    by_cases hk : k ∈ totals.map Prod.fst
    · obtain ⟨t, ht⟩ := Option.ne_none_iff_exists'.1 (mt dictGet_eq_none.1 (not_not_intro hk))
      rw [if_pos (.inl hk), ht]
      simp [countOf]
    · rw [if_neg (by simpa using hk), dictGet_eq_none.2 hk]
  | cons item items ih =>
    rw [List.foldl_cons, ih, dictGet_dictSet]
    have hkeys : ∀ t, k ∈ (dictSet totals item.1 t).map Prod.fst ↔
        k ∈ totals.map Prod.fst ∨ k = item.1 := fun _ => mem_keys_upsertRow keeps_key
    simp only [hkeys, List.map_cons, List.mem_cons, or_assoc]
    by_cases hk : item.1 = k
    · subst hk
      simp [countOf, Nat.add_assoc]
    · simp [countOf, hk]

private theorem nodup_totals_loop (h : (totals.map Prod.fst).Nodup) : ((items.foldl
    (fun totals item => dictSet totals item.1 ((dictGet totals item.1).getD 0 + item.2))
      totals).map Prod.fst).Nodup := by
  induction items generalizing totals with
  | nil => exact h
  | cons item items ih => exact ih (nodup_dictSet h)

private theorem keys_prefix_totals_loop : (totals.map Prod.fst).IsPrefix ((items.foldl
    (fun totals item => dictSet totals item.1 ((dictGet totals item.1).getD 0 + item.2))
      totals).map Prod.fst) := by
  induction items generalizing totals with
  | nil => exact List.prefix_rfl
  | cons item items ih => exact keys_prefix_dictSet.trans ih

theorem nodup_dictTotals : ((dictTotals items).map Prod.fst).Nodup :=
  nodup_totals_loop List.nodup_nil

theorem mem_dictTotals :
    (k, t) ∈ dictTotals items ↔ k ∈ items.map Prod.fst ∧ t = countOf items k := by
  rw [← dictGet_eq_some nodup_dictTotals, dictTotals, dictGet_totals_loop]
  simp [eq_comm]

/-- The key of the first item comes first. -/
theorem dictTotals_cons : ∃ rest, dictTotals ((k, c) :: items) =
    (k, countOf ((k, c) :: items) k) :: rest := by
  have hprefix : [k].IsPrefix ((dictTotals ((k, c) :: items)).map Prod.fst) :=
    @keys_prefix_totals_loop _ _ items [(k, 0 + c)]
  cases htotals : dictTotals ((k, c) :: items) with
  | nil => simp [htotals] at hprefix
  | cons first rest =>
    obtain ⟨k', t⟩ := first
    obtain rfl : k = k' := by simpa [htotals] using hprefix
    have hmem : (k, t) ∈ dictTotals ((k, c) :: items) := htotals ▸ List.mem_cons_self
    exact ⟨rest, by rw [(mem_dictTotals.1 hmem).2]⟩

end Totals

/-! ### Groups -/

/-- `groups.setdefault(key, []).append(value)` over the items. -/
def dictGroups (items : List (κ × ν)) : List (κ × List ν) :=
  items.foldl (fun groups item => dictAppend groups item.1 item.2) []

/-- The values of a key, in their order. -/
def valuesOf (items : List (κ × ν)) (k : κ) : List ν := (items.filter (·.1 = k)).map (·.2)

section Groups

variable {items : List (κ × ν)} {groups : List (κ × List ν)}

theorem mem_valuesOf : v ∈ valuesOf items k ↔ (k, v) ∈ items := by
  simp [valuesOf]

private theorem dictGet_groups_loop :
    dictGet (items.foldl (fun groups item => dictAppend groups item.1 item.2) groups) k =
      if k ∈ groups.map Prod.fst ∨ k ∈ items.map Prod.fst then
        some (dictList groups k ++ valuesOf items k) else none := by
  induction items generalizing groups with
  | nil =>
    rw [List.foldl_nil, List.map_nil]
    by_cases hk : k ∈ groups.map Prod.fst
    · obtain ⟨values, hvalues⟩ :=
        Option.ne_none_iff_exists'.1 (mt dictGet_eq_none.1 (not_not_intro hk))
      rw [if_pos (.inl hk), hvalues]
      simp [valuesOf, dictList, hvalues]
    · rw [if_neg (by simpa using hk), dictGet_eq_none.2 hk]
  | cons item items ih =>
    have hkeys : k ∈ (dictAppend groups item.1 item.2).map Prod.fst ↔
        k ∈ groups.map Prod.fst ∨ k = item.1 := mem_keys_dictSet
    rw [List.foldl_cons, ih]
    simp only [hkeys, List.map_cons, List.mem_cons, or_assoc]
    by_cases hk : item.1 = k
    · subst hk
      simp [valuesOf, dictAppend, dictList, dictGet_dictSet]
    · simp [valuesOf, dictAppend, dictList, dictGet_dictSet, hk]

theorem dictGet_dictGroups : dictGet (dictGroups items) k =
    if k ∈ items.map Prod.fst then some (valuesOf items k) else none := by
  rw [dictGroups, dictGet_groups_loop, List.map_nil]
  simp only [List.not_mem_nil, false_or]
  rfl

theorem dictList_dictGroups : dictList (dictGroups items) k = valuesOf items k := by
  rw [dictList, dictGet_dictGroups]
  split
  · rfl
  · next hk =>
    refine (List.eq_nil_iff_forall_not_mem.2 fun v hv => hk ?_).symm
    exact List.mem_map.2 ⟨(k, v), mem_valuesOf.1 hv, rfl⟩

end Groups

end Dict

/-- In an ordered list, the first element that is looked for stands before the others. -/
theorem rel_of_find? {α : Type} {r : α → α → Prop} {p : α → Bool} {l : List α} {a b : α}
    (hl : l.Pairwise r) (hb : l.find? p = some b) (ha : a ∈ l) (hp : p a = true) :
    a = b ∨ r b a := by
  obtain ⟨_, as, bs, rfl, hbefore⟩ := List.find?_eq_some_iff_append.1 hb
  rcases List.mem_append.1 ha with has | hbs
  · exact absurd (hbefore a has) (by simp [hp])
  · rcases List.mem_cons.1 hbs with rfl | hafter
    · exact .inl rfl
    · exact .inr ((List.pairwise_cons.1 (List.pairwise_append.1 hl).2.1).1 a hafter)

/-- A cut list keeps its beginning under a filter only if the filter takes all of it. -/
theorem take_filter_eq_take_iff {α β : Type} {f : α → β} {p : α → Bool} {l : List α} {n : Nat}
    (hf : ∀ a ∈ l, ∀ b ∈ l, f a = f b → a = b) :
    ((l.filter p).take n).map f = (l.take n).map f ↔ ∀ a ∈ l.take n, p a = true := by
  induction l generalizing n with
  | nil => simp
  | cons a l ih =>
    cases n with
    | zero => simp
    | succ n =>
      have htail := @ih n fun b hb c hc =>
        hf b (List.mem_cons_of_mem _ hb) c (List.mem_cons_of_mem _ hc)
      by_cases hp : p a = true
      · simp only [List.filter_cons_of_pos hp, List.take_succ_cons, List.map_cons,
          List.cons.injEq, true_and, htail, List.forall_mem_cons, hp]
      · refine iff_of_false (fun heq => ?_) fun hall => hp (hall a (by simp))
        have hhead := congrArg List.head? heq
        rw [List.take_succ_cons, List.map_cons, List.head?_cons] at hhead
        obtain ⟨b, hb, hfb⟩ := List.mem_map.1 (List.mem_of_head? hhead)
        obtain ⟨hmem, hpb⟩ := List.mem_filter.1 (List.mem_of_mem_take hb)
        exact hp (hf b hmem a List.mem_cons_self hfb ▸ hpb)

section Pairs

variable {α : Type}

/-- The pairs of a list, each with its earlier element first. -/
def pairsInOrder : List α → List (α × α)
  | [] => []
  | a :: rest => rest.map (a, ·) ++ pairsInOrder rest

theorem mem_of_mem_pairsInOrder {l : List α} {pair : α × α} (h : pair ∈ pairsInOrder l) :
    pair.1 ∈ l ∧ pair.2 ∈ l := by
  induction l with
  | nil => cases h
  | cons a l ih =>
    rcases List.mem_append.1 h with hnow | hlater
    · obtain ⟨b, hb, rfl⟩ := List.mem_map.1 hnow
      exact ⟨List.mem_cons_self, List.mem_cons_of_mem _ hb⟩
    · exact (ih hlater).imp (List.mem_cons_of_mem _) (List.mem_cons_of_mem _)

/-- Of two different elements one comes first. -/
theorem mem_pairsInOrder_or {l : List α} {a b : α} (ha : a ∈ l) (hb : b ∈ l) (hne : a ≠ b) :
    (a, b) ∈ pairsInOrder l ∨ (b, a) ∈ pairsInOrder l := by
  induction l with
  | nil => cases ha
  | cons c l ih =>
    unfold pairsInOrder
    simp only [List.mem_append, List.mem_map, Prod.mk.injEq]
    rcases List.mem_cons.1 ha with rfl | ha'
    · exact .inl (.inl ⟨b, (List.mem_cons.1 hb).resolve_left hne.symm, rfl, rfl⟩)
    · rcases List.mem_cons.1 hb with rfl | hb'
      · exact .inr (.inl ⟨a, ha', rfl, rfl⟩)
      · exact (ih ha' hb').imp .inr .inr

/-- In an ordered list the pairs are ordered. -/
theorem rel_of_mem_pairsInOrder {r : α → α → Prop} {l : List α} (h : l.Pairwise r) {pair : α × α}
    (hpair : pair ∈ pairsInOrder l) : r pair.1 pair.2 := by
  induction h with
  | nil => cases hpair
  | @cons a l hhead _ ih =>
    rcases List.mem_append.1 hpair with hnow | hlater
    · obtain ⟨b, hb, rfl⟩ := List.mem_map.1 hnow
      exact hhead b hb
    · exact ih hlater

/-- In strictly increasing order, the pairs are those of a smaller and a larger element. -/
theorem mem_pairsInOrder_iff [Preorder α] {l : List α} (h : l.Pairwise (· < ·)) {pair : α × α} :
    pair ∈ pairsInOrder l ↔ pair.1 ∈ l ∧ pair.2 ∈ l ∧ pair.1 < pair.2 := by
  constructor
  · intro hpair
    obtain ⟨hfirst, hsecond⟩ := mem_of_mem_pairsInOrder hpair
    exact ⟨hfirst, hsecond, rel_of_mem_pairsInOrder h hpair⟩
  · rintro ⟨hfirst, hsecond, hlt⟩
    refine (mem_pairsInOrder_or hfirst hsecond hlt.ne).resolve_right fun hswap => ?_
    exact lt_asymm hlt (rel_of_mem_pairsInOrder h hswap)

end Pairs

section Champion

variable {α : Type} (beats : α → α → Bool)

/-- The loop that goes on with an item that beats the best one so far. -/
def champion (items : List α) (best : α) : α :=
  items.foldl (fun best item => if beats item best then item else best) best

variable {beats} {items : List α} {best : α}

@[simp] theorem champion_cons (item : α) : champion beats (item :: items) best =
    champion beats items (if beats item best then item else best) := rfl

theorem champion_mem : champion beats items best = best ∨ champion beats items best ∈ items := by
  induction items generalizing best with
  | nil => exact .inl rfl
  | cons item items ih =>
    rw [champion_cons]
    split
    · exact .inr (List.mem_cons.2 ih)
    · exact ih.imp_right (List.mem_cons_of_mem _)

/-- The champion is the one that came in, or beats it; and no item beats the champion. -/
theorem champion_unbeaten (hirrefl : ∀ a, beats a a = false)
    (htrans : ∀ a b c, beats a b = true → beats b c = true → beats a c = true) :
    (champion beats items best = best ∨ beats (champion beats items best) best = true) ∧
      ∀ item ∈ best :: items, beats item (champion beats items best) = false := by
  induction items generalizing best with
  | nil => exact ⟨.inl rfl, by simp [champion, hirrefl]⟩
  | cons item items ih =>
    rw [champion_cons]
    by_cases hbeats : beats item best = true
    · rw [if_pos hbeats]
      obtain ⟨hchain, hlater⟩ := @ih item
      have hitem := hlater item List.mem_cons_self
      have hbest : beats best (champion beats items item) = false :=
        Bool.eq_false_iff.2 fun hno => Bool.eq_false_iff.1 hitem (htrans _ _ _ hbeats hno)
      refine ⟨.inr ?_, List.forall_mem_cons.2 ⟨hbest, hlater⟩⟩
      rcases hchain with heq | hwins
      · rw [heq]
        exact hbeats
      · exact htrans _ _ _ hwins hbeats
    · rw [if_neg hbeats]
      obtain ⟨hchain, hlater⟩ := @ih best
      obtain ⟨hbest, hrest⟩ := List.forall_mem_cons.1 hlater
      have hitem : beats item (champion beats items best) = false := by
        rw [Bool.eq_false_iff]
        intro hno
        rcases hchain with heq | hwins
        · exact hbeats (heq ▸ hno)
        · exact hbeats (htrans _ _ _ hno hwins)
      exact ⟨hchain, List.forall_mem_cons.2 ⟨hbest, List.forall_mem_cons.2 ⟨hitem, hrest⟩⟩⟩

end Champion

section KeepFirst

variable {α κ : Type} [DecidableEq κ] (key : α → κ)

/-- A loop that appends an element unless one with its key was appended before. -/
def keepFirst (items : List α) : List α :=
  items.foldl (fun kept a => if key a ∈ kept.map key then kept else kept ++ [a]) []

variable {key}

private theorem keepFirst_loop (items kept : List α) (hkept : (kept.map key).Nodup) :
    ∃ more, items.foldl (fun kept a => if key a ∈ kept.map key then kept else kept ++ [a]) kept =
        kept ++ more ∧ ((kept ++ more).map key).Nodup ∧ more ⊆ items ∧
      ∀ a ∈ items, key a ∈ (kept ++ more).map key := by
  induction items generalizing kept with
  | nil => exact ⟨[], by simp, by simpa using hkept, by simp, by simp⟩
  | cons a items ih =>
    rw [List.foldl_cons]
    split
    · next hseen =>
      obtain ⟨more, hmore, hnodup, hsub, hcover⟩ := ih kept hkept
      refine ⟨more, hmore, hnodup, fun b hb => List.mem_cons_of_mem _ (hsub hb), ?_⟩
      rw [List.forall_mem_cons, List.map_append]
      exact ⟨List.mem_append_left _ hseen, by simpa using hcover⟩
    · next hnew =>
      have hnext : ((kept ++ [a]).map key).Nodup := by
        rw [List.map_append, List.map_singleton, List.nodup_append_comm]
        exact List.nodup_cons.2 ⟨hnew, hkept⟩
      obtain ⟨more, hmore, hnodup, hsub, hcover⟩ := ih (kept ++ [a]) hnext
      rw [List.append_assoc, List.singleton_append] at hmore hnodup hcover
      refine ⟨a :: more, hmore, hnodup, List.cons_subset_cons _ hsub, ?_⟩
      rw [List.forall_mem_cons]
      exact ⟨List.mem_map_of_mem (by simp), hcover⟩

private theorem keepFirst_spec (items : List α) :
    ((keepFirst key items).map key).Nodup ∧ keepFirst key items ⊆ items ∧
      ∀ a ∈ items, key a ∈ (keepFirst key items).map key := by
  obtain ⟨more, hmore, hspec⟩ := @keepFirst_loop _ _ _ key items [] List.nodup_nil
  rw [keepFirst, hmore]
  exact hspec

theorem nodup_keepFirst (items : List α) : ((keepFirst key items).map key).Nodup :=
  (keepFirst_spec items).1

theorem keepFirst_subset (items : List α) : keepFirst key items ⊆ items :=
  (keepFirst_spec items).2.1

/-- Every key is kept. -/
theorem exists_mem_keepFirst {items : List α} {a : α} (h : a ∈ items) :
    ∃ b ∈ keepFirst key items, key b = key a :=
  List.mem_map.1 ((keepFirst_spec items).2.2 a h)

end KeepFirst

section SortedBy

variable {α κ : Type} [LinearOrder κ] (key : α → κ)

/-- `sorted(items, key=key)`. -/
def sortedBy (items : List α) : List α := items.insertionSort fun a b => key a ≤ key b

variable {key} {items items' : List α} {a : α}

theorem sortedBy_perm : (sortedBy key items).Perm items := List.perm_insertionSort _ _

@[simp] theorem mem_sortedBy : a ∈ sortedBy key items ↔ a ∈ items := List.mem_insertionSort _

theorem pairwise_sortedBy : (sortedBy key items).Pairwise fun a b => key a ≤ key b := by
  have : Std.Total fun a b : α => key a ≤ key b := ⟨fun a b => le_total (key a) (key b)⟩
  have : IsTrans α fun a b => key a ≤ key b := ⟨fun _ _ _ => le_trans⟩
  exact List.pairwise_insertionSort _ _

/-- A list in the order of a key that tells its elements apart is the sort of its elements. -/
theorem sortedBy_eq_of_perm (h : items'.Perm items)
    (hsorted : items'.Pairwise fun a b => key a ≤ key b)
    (hkey : ∀ a ∈ items, ∀ b ∈ items, key a = key b → a = b) : sortedBy key items = items' := by
  refine (sortedBy_perm.trans h.symm).eq_of_pairwise (fun a b ha hb hab hba => ?_)
    pairwise_sortedBy hsorted
  exact hkey a (mem_sortedBy.1 ha) b (h.mem_iff.1 hb) (le_antisymm hab hba)

/-- A sort by a key that tells the elements apart does not depend on their order. -/
theorem sortedBy_congr (h : items'.Perm items)
    (hkey : ∀ a ∈ items, ∀ b ∈ items, key a = key b → a = b) :
    sortedBy key items' = sortedBy key items :=
  (sortedBy_eq_of_perm (sortedBy_perm.trans h) pairwise_sortedBy hkey).symm

/-- Elements with one key stay in their order. -/
theorem sublist_sortedBy {b : α} (hkey : key a = key b) (h : [a, b].Sublist items) :
    [a, b].Sublist (sortedBy key items) := by
  have : Std.Total fun a b : α => key a ≤ key b := ⟨fun a b => le_total (key a) (key b)⟩
  have : IsTrans α fun a b => key a ≤ key b := ⟨fun _ _ _ => le_trans⟩
  exact List.sublist_insertionSort (List.pairwise_pair.2 hkey.le) h

private theorem filter_orderedInsert (k : κ) (a : α) (items : List α) :
    (items.orderedInsert (fun a b => key a ≤ key b) a).filter (key · = k) =
      (a :: items).filter (key · = k) := by
  induction items with
  | nil => rfl
  | cons b items ih =>
    rw [List.orderedInsert_cons]
    split
    · rfl
    · next hle =>
      rw [List.filter_cons, ih, List.filter_cons, List.filter_cons, List.filter_cons]
      by_cases ha : key a = k
      · have hb : key b ≠ k := by
          rintro rfl
          exact hle ha.le
        simp [ha, hb]
      · simp [ha]

/-- The elements with one key stay in their order. -/
theorem filter_sortedBy (k : κ) (items : List α) :
    (sortedBy key items).filter (key · = k) = items.filter (key · = k) := by
  induction items with
  | nil => rfl
  | cons a items ih =>
    rw [sortedBy, List.insertionSort_cons, filter_orderedInsert, List.filter_cons, List.filter_cons]
    rw [sortedBy] at ih
    rw [ih]

end SortedBy

/-- Two elements of a list without repetitions stand in one order. -/
theorem not_sublist_swap {α : Type} {l : List α} {a b : α} (hl : l.Nodup) (h : [a, b].Sublist l) :
    ¬ [b, a].Sublist l := by
  induction l with
  | nil => cases h
  | cons c l ih =>
    obtain ⟨hc, hrest⟩ := List.nodup_cons.1 hl
    intro h'
    cases h with
    | cons _ h =>
      cases h' with
      | cons _ h' => exact ih hrest h h'
      | cons_cons _ h' => exact hc (h.subset (by simp))
    | cons_cons _ h =>
      cases h' with
      | cons _ h' => exact hc (h'.subset (by simp))
      | cons_cons _ h' => exact hc (h'.subset (by simp))

/-- Lists that agree under a map up to order do so under every map that it determines. -/
theorem map_perm_map_of {α β γ : Type} {f : α → β} {g : α → γ} {l l' : List α}
    (h : (l.map f).Perm (l'.map f)) (hg : ∀ a ∈ l, ∀ b, f a = f b → g a = g b) :
    (l.map g).Perm (l'.map g) := by
  obtain ⟨m, hm, hperm⟩ : Relation.Comp (fun x y => x = List.map f y) List.Perm (l.map f) l' := by
    rw [List.eq_map_comp_perm]
    exact h
  have hsame : l.map g = m.map g := by
    clear h hperm
    induction l generalizing m with
    | nil => rw [List.map_eq_nil_iff.1 hm.symm]
    | cons a l ih =>
      obtain ⟨b, m, rfl, hab, hrest⟩ := List.map_eq_cons_iff.1 hm.symm
      rw [List.map_cons, List.map_cons, hg a List.mem_cons_self b hab.symm,
        ih (fun a ha => hg a (List.mem_cons_of_mem _ ha)) m hrest.symm]
  rw [hsame]
  exact hperm.map g

end SchemaBrain.Base
