import SchemaBrain.Base.Collections
import SchemaBrain.Base.Python

/-!
# Listings of a table

The rows of one scope in the order of their names, each decoded. A listing has one item for each
row, under the name of the row.
-/

namespace SchemaBrain.Base

variable {ρ α σ ν ε : Type} [DecidableEq σ] [LinearOrder ν]

/-- `SELECT ... WHERE scope = ? ORDER BY name`, with every row decoded. -/
def listing (scope : ρ → σ) (name : ρ → ν) (decode : ρ → Except ε α) (rows : List ρ) (k : σ) :
    Except ε (List α) :=
  (sortedBy name (rows.filter (scope · = k))).mapM decode

variable {scope : ρ → σ} {name : ρ → ν} {decode : ρ → Except ε α} {rows : List ρ} {k : σ}
  {nameOf : α → ν} {items : List α}

/-- A listing returns where the rows of the scope decode. -/
theorem exists_listing (h : ∀ r ∈ rows, scope r = k → ∃ a, decode r = .ok a) :
    ∃ items, listing scope name decode rows k = .ok items := by
  refine exists_mapM fun r hr => ?_
  obtain ⟨hmem, hscope⟩ := List.mem_filter.1 (mem_sortedBy.1 hr)
  exact h r hmem (of_decide_eq_true hscope)

/-- The items of a listing are what the rows of the scope decode to. -/
theorem mem_listing (h : listing scope name decode rows k = .ok items) {a : α} :
    a ∈ items ↔ ∃ r ∈ rows, scope r = k ∧ decode r = .ok a := by
  have hall := mem_mapM h
  constructor
  · intro ha
    obtain ⟨r, hr, hdecode⟩ := hall.1 a ha
    obtain ⟨hmem, hscope⟩ := List.mem_filter.1 (mem_sortedBy.1 hr)
    exact ⟨r, hmem, of_decide_eq_true hscope, hdecode⟩
  · rintro ⟨r, hmem, hscope, hdecode⟩
    obtain ⟨a', ha', hdecode'⟩ :=
      hall.2 r (mem_sortedBy.2 (List.mem_filter.2 ⟨hmem, decide_eq_true hscope⟩))
    rwa [← Except.ok.inj (hdecode'.symm.trans hdecode)]

section Named

variable (hname : ∀ r ∈ rows, scope r = k → ∀ a, decode r = .ok a → nameOf a = name r)

include hname

/-- The names of a listing are those of its rows. -/
theorem map_listing (h : listing scope name decode rows k = .ok items) :
    items.map nameOf = (sortedBy name (rows.filter (scope · = k))).map name := by
  have hrows : ∀ r ∈ sortedBy name (rows.filter (scope · = k)), ∀ a, decode r = .ok a →
      nameOf a = name r := fun r hr => by
    obtain ⟨hmem, hscope⟩ := List.mem_filter.1 (mem_sortedBy.1 hr)
    exact hname r hmem (of_decide_eq_true hscope)
  have hall := mapM_eq_ok h
  clear h
  generalize sortedBy name (rows.filter (scope · = k)) = sorted at hall hrows
  induction hall with
  | nil => rfl
  | cons hrow _ ih =>
    rw [List.map_cons, List.map_cons, hrows _ List.mem_cons_self _ hrow,
      ih fun r hr => hrows r (List.mem_cons_of_mem _ hr)]

/-- The items of a listing have different names where the rows have different keys. -/
theorem nodup_listing (hrows : (rows.map fun r => (scope r, name r)).Nodup)
    (h : listing scope name decode rows k = .ok items) : (items.map nameOf).Nodup := by
  rw [map_listing hname h, (sortedBy_perm.map _).nodup_iff]
  have hkeys := hrows.sublist
    ((List.filter_sublist (p := (scope · = k))).map fun r => (scope r, name r))
  refine List.Nodup.of_map (fun n => (k, n)) ?_
  rw [List.map_map]
  convert hkeys using 1
  apply List.map_congr_left
  intro r hr
  exact Prod.ext (of_decide_eq_true (List.mem_filter.1 hr).2).symm rfl

/-- The item of a name in a listing is that of the row with the key. -/
theorem find?_listing (hrows : (rows.map fun r => (scope r, name r)).Nodup)
    (h : listing scope name decode rows k = .ok items) (n : ν) :
    (rowOf (fun r => (scope r, name r)) rows (k, n) = none → items.find? (nameOf · = n) = none) ∧
      ∀ r, rowOf (fun r => (scope r, name r)) rows (k, n) = some r →
        ∃ a, decode r = .ok a ∧ items.find? (nameOf · = n) = some a := by
  constructor
  · intro hnone
    rw [List.find?_eq_none]
    intro a ha hn
    obtain ⟨r, hr, hscope, hdecode⟩ := (mem_listing h).1 ha
    have hrname : name r = n := (hname r hr hscope a hdecode).symm.trans (of_decide_eq_true hn)
    exact rowOf_eq_none.1 hnone (List.mem_map.2 ⟨r, hr, Prod.ext hscope hrname⟩)
  · intro r hrow
    obtain ⟨hmem, hkey⟩ := rowOf_spec hrow
    obtain ⟨hscope, hrname⟩ := Prod.mk.inj hkey
    obtain ⟨a, -, hdecode⟩ := (mem_mapM h).2 r
      (mem_sortedBy.2 (List.mem_filter.2 ⟨hmem, decide_eq_true hscope⟩))
    have ha : a ∈ items := (mem_listing h).2 ⟨r, hmem, hscope, hdecode⟩
    have han : nameOf a = n := (hname r hmem hscope a hdecode).trans hrname
    refine ⟨a, hdecode, ?_⟩
    rw [← han]
    exact rowOf_of_mem (nodup_listing hname hrows h) ha

end Named

/-- A table whose rows encode what is written under each name lists just that. -/
theorem listing_of_rows {written : ν → Option α} {row : α → ρ}
    (hrows : (rows.map fun r => (scope r, name r)).Nodup)
    (hwritten : ∀ n, rowOf (fun r => (scope r, name r)) rows (k, n) = (written n).map row)
    (hdecode : ∀ a, decode (row a) = .ok a) (hname : ∀ a, name (row a) = nameOf a) :
    ∃ items, listing scope name decode rows k = .ok items ∧ (items.map nameOf).Nodup ∧
      ∀ n, items.find? (nameOf · = n) = written n := by
  have hencodes : ∀ r ∈ rows, scope r = k → ∃ a, r = row a := by
    intro r hr hscope
    have hkey := rowOf_of_mem hrows hr
    rw [hscope, hwritten] at hkey
    obtain ⟨a, -, ha⟩ := Option.map_eq_some_iff.1 hkey
    exact ⟨a, ha.symm⟩
  have hnames : ∀ r ∈ rows, scope r = k → ∀ a, decode r = .ok a → nameOf a = name r := by
    intro r hr hscope a ha
    obtain ⟨b, rfl⟩ := hencodes r hr hscope
    rw [← Except.ok.inj ((hdecode b).symm.trans ha), hname]
  obtain ⟨items, hitems⟩ : ∃ items, listing scope name decode rows k = .ok items :=
    exists_listing fun r hr hscope => by
      obtain ⟨a, rfl⟩ := hencodes r hr hscope
      exact ⟨a, hdecode a⟩
  refine ⟨items, hitems, nodup_listing hnames hrows hitems, fun n => ?_⟩
  obtain ⟨hnone, hsome⟩ := find?_listing hnames hrows hitems n
  cases hn : written n with
  | none => exact hnone (by rw [hwritten, hn, Option.map_none])
  | some a =>
    obtain ⟨b, hb, hfind⟩ := hsome (row a) (by rw [hwritten, hn, Option.map_some])
    rw [hfind, ← Except.ok.inj ((hdecode a).symm.trans hb)]

end SchemaBrain.Base
