import SchemaBrain.Semantic.ResolvePlan

/-!
# ORDER BY clauses

Which output names the clauses of a plan order by: those that the request asks for, each
once, and at most one tie break.
-/

namespace SchemaBrain.Semantic

open Base Core

/-- `alias_by_request.get(column)`. -/
def aliasOf (aliases : List (String × String)) (column : String) : Option String :=
  (aliases.find? (·.1 = column)).map (·.2)

/-- The clauses that a request asks for: its own, or all its group columns in order. -/
def askedClauses (groupBy : List ResolvedColumn) (orderBy : List RequestedOrderBy) :
    List RequestedOrderBy :=
  if orderBy = [] ∧ groupBy ≠ [] then groupBy.map fun col => ⟨col.ref, .asc⟩ else orderBy

/-! ## Aliases -/

section Aliases

variable {metricName : String} {groupBy : List ResolvedColumn}

theorem aliasOf_metricName : aliasOf (aliasByRequest metricName groupBy) metricName =
    some metricName := by
  simp [aliasOf, aliasByRequest]

/-- A column's alias is the metric's name or that of a group column with its text. -/
theorem aliasOf_eq_some {column name : String}
    (h : aliasOf (aliasByRequest metricName groupBy) column = some name) :
    (column = metricName ∧ name = metricName) ∨
      ∃ i, ∃ hi : i < groupBy.length, groupBy[i].ref = column ∧ name = groupColAlias i := by
  obtain ⟨found, hfound, rfl⟩ := Option.map_eq_some_iff.1 h
  have hkey : found.1 = column := by simpa using List.find?_some hfound
  rcases List.mem_cons.1 (List.mem_of_find?_eq_some hfound) with rfl | hmem
  · exact .inl ⟨hkey.symm, rfl⟩
  · obtain ⟨i, hi, rfl⟩ := List.mem_mapIdx.1 hmem
    exact .inr ⟨i, hi, hkey, rfl⟩

/-- A group column is asked for under its own alias when no other key has its text. -/
theorem aliasOf_groupColumn (hrefs : (groupBy.map (·.ref)).Nodup)
    (hmetric : metricName ∉ groupBy.map (·.ref)) {i : Nat} (hi : i < groupBy.length) :
    aliasOf (aliasByRequest metricName groupBy) groupBy[i].ref = some (groupColAlias i) := by
  cases halias : aliasOf (aliasByRequest metricName groupBy) groupBy[i].ref with
  | none =>
    have hnone := Option.map_eq_none_iff.1 halias
    have hmem : (groupBy[i].ref, groupColAlias i) ∈ aliasByRequest metricName groupBy :=
      List.mem_cons_of_mem _ (List.mem_mapIdx.2 ⟨i, hi, rfl⟩)
    exact absurd (List.find?_eq_none.1 hnone _ hmem) (by simp)
  | some name =>
    rcases aliasOf_eq_some halias with ⟨heq, -⟩ | ⟨j, hj, href, rfl⟩
    · exact absurd (heq ▸ List.mem_map_of_mem (List.getElem_mem hi)) hmetric
    · have hcol : groupBy[j] = groupBy[i] :=
        List.inj_on_of_nodup_map hrefs (List.getElem_mem hj) (List.getElem_mem hi) href
      have hindex := (List.Nodup.getElem_inj_iff (List.Nodup.of_map _ hrefs)).1 hcol
      rw [hindex]

end Aliases

/-! ## Clauses -/

/-- The resolved clauses are the asked ones whose alias was not seen before. -/
theorem resolveClauses_ok {aliases : List (String × String)} {orderBy : List RequestedOrderBy}
    {seen : List String} {clauses : List ResolvedOrderBy}
    (h : resolveClauses aliases orderBy seen = .ok clauses) :
    (∀ clause ∈ clauses, clause.autoAppendedTieBreak = false ∧ ∃ o ∈ orderBy,
      clause.direction = o.direction ∧ aliasOf aliases o.column = some clause.expression) ∧
    ∀ o ∈ orderBy, ∃ name, aliasOf aliases o.column = some name ∧
      (name ∈ seen ∨ name ∈ clauses.map (·.expression)) := by
  induction orderBy generalizing seen clauses with
  | nil =>
    obtain rfl := Except.ok.inj h
    simp
  | cons o orderBy ih =>
    rw [resolveClauses] at h
    split at h
    · simp at h
    · next key name hfind =>
      have halias : aliasOf aliases o.column = some name := by rw [aliasOf, hfind]; rfl
      split at h
      · next hseen =>
        obtain ⟨hclauses, hasked⟩ := ih h
        refine ⟨fun clause hclause => ?_,
          List.forall_mem_cons.2 ⟨⟨name, halias, .inl hseen⟩, hasked⟩⟩
        obtain ⟨htie, o', ho', hfrom⟩ := hclauses clause hclause
        exact ⟨htie, o', List.mem_cons_of_mem _ ho', hfrom⟩
      · obtain ⟨tail, htail, h⟩ := bind_eq_ok h
        obtain rfl := Except.ok.inj h
        obtain ⟨hclauses, hasked⟩ := ih htail
        refine ⟨List.forall_mem_cons.2 ⟨⟨rfl, o, List.mem_cons_self, rfl, halias⟩, ?_⟩,
          List.forall_mem_cons.2 ⟨⟨name, halias, .inr (by simp)⟩, ?_⟩⟩
        · intro clause hclause
          obtain ⟨htie, o', ho', hfrom⟩ := hclauses clause hclause
          exact ⟨htie, o', List.mem_cons_of_mem _ ho', hfrom⟩
        · intro o' ho'
          obtain ⟨name', halias', hmem⟩ := hasked o' ho'
          refine ⟨name', halias', ?_⟩
          rw [List.map_cons, List.mem_cons]
          rcases hmem with hmem | hmem
          · exact (List.mem_cons.1 hmem).elim (fun heq => .inr (.inl heq)) .inl
          · exact .inr (.inr hmem)

/-- The tie break is the first group column that no clause orders by. -/
theorem tieBreak_spec (groupBy : List ResolvedColumn) (clauses : List ResolvedOrderBy) :
    (tieBreak groupBy clauses = [] ∧ (clauses = [] ∨
        ∀ i < groupBy.length, groupColAlias i ∈ clauses.map (·.expression))) ∨
      ∃ i < groupBy.length, tieBreak groupBy clauses = [⟨groupColAlias i, .asc, true⟩] ∧
        groupColAlias i ∉ clauses.map (·.expression) ∧ clauses ≠ [] ∧
        ∀ j < i, groupColAlias j ∈ clauses.map (·.expression) := by
  unfold tieBreak
  split
  · next hboth =>
    split
    · next name hfind =>
      obtain ⟨hmissing, i, hi, rfl, hfirst⟩ := List.find?_eq_some_iff_getElem.1 hfind
      rw [List.length_map, List.length_range] at hi
      rw [List.getElem_map, List.getElem_range] at hmissing ⊢
      refine .inr ⟨i, hi, rfl, by simpa using hmissing, hboth.1, fun j hj => ?_⟩
      simpa using hfirst j hj
    · next hfind =>
      refine .inl ⟨rfl, .inr fun i hi => ?_⟩
      have hall := List.find?_eq_none.1 hfind (groupColAlias i)
        (List.mem_map_of_mem (List.mem_range.2 hi))
      simpa using hall
  · next hboth =>
    refine .inl ⟨rfl, ?_⟩
    by_cases hclauses : clauses = []
    · exact .inl hclauses
    · have hempty : groupBy = [] := by
        by_contra hne
        exact hboth ⟨hclauses, hne⟩
      exact .inr (by simp [hempty])

/-- Resolved ORDER BY clauses: those asked for, then the tie break. -/
theorem resolveOrderBy_ok {metricName : String} {groupBy : List ResolvedColumn}
    {orderBy : List RequestedOrderBy} {resolved : List ResolvedOrderBy}
    (h : resolveOrderBy metricName groupBy orderBy = .ok resolved) :
    ∃ clauses, resolveClauses (aliasByRequest metricName groupBy) (askedClauses groupBy orderBy) []
      = .ok clauses ∧ resolved = clauses ++ tieBreak groupBy clauses := by
  obtain ⟨clauses, hclauses, h⟩ := bind_eq_ok h
  exact ⟨clauses, hclauses, (Except.ok.inj h).symm⟩

/-- Every ORDER BY name is the metric's or that of a group column. -/
theorem expression_of_resolveOrderBy {metricName : String} {groupBy : List ResolvedColumn}
    {orderBy : List RequestedOrderBy} {resolved : List ResolvedOrderBy}
    (h : resolveOrderBy metricName groupBy orderBy = .ok resolved) :
    ∀ clause ∈ resolved, clause.expression = metricName ∨
      ∃ i < groupBy.length, clause.expression = groupColAlias i := by
  obtain ⟨clauses, hclauses, rfl⟩ := resolveOrderBy_ok h
  intro clause hclause
  rcases List.mem_append.1 hclause with hclause | hclause
  · obtain ⟨-, o, -, -, halias⟩ := (resolveClauses_ok hclauses).1 clause hclause
    rcases aliasOf_eq_some halias with ⟨-, heq⟩ | ⟨i, hi, -, heq⟩
    · exact .inl heq
    · exact .inr ⟨i, hi, heq⟩
  · rcases tieBreak_spec groupBy clauses with
      ⟨hnone, -⟩ | ⟨i, hi, hsome, -⟩
    · simp [hnone] at hclause
    · rw [hsome, List.mem_singleton] at hclause
      exact .inr ⟨i, hi, by rw [hclause]⟩

end SchemaBrain.Semantic
