import Mathlib.Algebra.Order.Ring.Unbundled.Rat
import Mathlib.Data.Prod.Lex
import Mathlib.Data.String.Basic
import SchemaBrain.Base.Collections
import SchemaBrain.Base.Yaml
import SchemaBrain.Mcp.Redaction

/-!
# Ranking the entities for a query

`find_relevant_entities` against the ranking of every entity by the best of its similarities.
The columns are merged through a dictionary from tables to entities, which keeps one entity for
each table: of the entities bound to one table only the last by name is ranked.
-/

namespace SchemaBrain.Mcp

open Base Core

/-! ## Similarities -/

/-- A row of `search_embeddings_topk`: a column with its cosine to the query. -/
structure ScoredColumn where
  binding : QualifiedTable
  column : String
  score : Rat
  deriving DecidableEq, Repr

/-- What the embedder and the stored vectors give for one query. A vector without direction
is similar to nothing. -/
structure Similarities where
  zeroNorm : Bool
  columns : List ScoredColumn
  description : String → Rat
  columns_zero : zeroNorm = true → ∀ c ∈ columns, c.score = 0
  description_zero : zeroNorm = true → ∀ text, description text = 0

/-- `(-score, schema, table, column)`. -/
def ScoredColumn.key (c : ScoredColumn) : Rat ×ₗ String ×ₗ String ×ₗ String :=
  toLex (-c.score, toLex (c.binding.schema, toLex (c.binding.table, c.column)))

/-- The sort and the cut of `_cosine_topk`. -/
def cosineTopk (rows : List ScoredColumn) (k : Nat) : List ScoredColumn :=
  (sortedBy ScoredColumn.key rows).take k

/-- `_BULK_FETCH_COLUMN_K`. -/
def bulkFetchColumnK : Nat := 10000

/-- `col_rows`. -/
def Similarities.colRows (similarities : Similarities) : List ScoredColumn :=
  cosineTopk similarities.columns bulkFetchColumnK

/-! ## The tool -/

/-- `_ENTITY_DESCRIPTION_MATCH_LABEL`. -/
def entityDescriptionMatchLabel : String := "(entity description)"

/-- `_EntityBest`. -/
structure EntityBest where
  score : Rat
  binding : QualifiedTable
  bestColumn : String
  deriving DecidableEq, Repr

/-- `EntityHit`. -/
structure EntityHit where
  name : String
  score : Rat
  qualifiedTable : String
  bestColumn : String
  bestColumnDescription : String
  deriving DecidableEq, Repr

/-- `not query.strip()`. -/
def isBlank (query : String) : Bool := query.toList.all isPySpace

section Tool

variable (store : Catalog)

/-- `list_entities` of the source. -/
def listEntities : List Entity := sortedBy (·.name) store.entities

/-- `table_to_entity`. -/
def tableToEntity : List (QualifiedTable × Entity) :=
  (listEntities store).foldl (fun dict entity => dictSet dict entity.binding entity) []

/-- A row of the column loop. -/
def scoreColumn (best : List (String × EntityBest)) (row : ScoredColumn) :
    List (String × EntityBest) :=
  if row.score ≤ 0 then best
  else match dictGet (tableToEntity store) row.binding with
    | none => best
    | some entity =>
      match dictGet best entity.name with
      | some _ => best
      | none => dictSet best entity.name ⟨row.score, row.binding, row.column⟩

/-- An item of the description loop. -/
def scoreDescription (similarity : String → Rat) (best : List (String × EntityBest))
    (item : QualifiedTable × Entity) : List (String × EntityBest) :=
  let description := (store.entityNotes item.2.name).description
  if description = "" then best
  else
    let score := similarity description
    if score ≤ 0 then best
    else
      let hit : EntityBest := ⟨score, item.1, entityDescriptionMatchLabel⟩
      match dictGet best item.2.name with
      | none => dictSet best item.2.name hit
      | some current => if current.score < score then dictSet best item.2.name hit else best

/-- `best_per_entity` after both loops. -/
def bestPerEntity (similarities : Similarities) : List (String × EntityBest) :=
  (tableToEntity store).foldl (scoreDescription store similarities.description)
    (similarities.colRows.foldl (scoreColumn store) [])

/-- `(-score, name)`. -/
def rankKey (name : String) (score : Rat) : Rat ×ₗ String := toLex (-score, name)

/-- A ranked entity as the agent sees it. -/
def entityHit (piiBlock : List PiiCategory) (item : String × EntityBest) : EntityHit :=
  let best := item.2
  if best.bestColumn = entityDescriptionMatchLabel then
    ⟨item.1, best.score, best.binding.text, best.bestColumn,
      ((dictGet (tableToEntity store) best.binding).map fun entity =>
        (store.entityNotes entity.name).description).getD ""⟩
  else if Blocked store.toStore piiBlock best.binding.text best.bestColumn then
    ⟨item.1, best.score, best.binding.text, fkRedactedPlaceholder, ""⟩
  else
    ⟨item.1, best.score, best.binding.text, best.bestColumn,
      (store.columnDescription best.binding best.bestColumn).getD ""⟩

/-- `find_relevant_entities_impl`. -/
def findRelevantEntities (embedder : String → Similarities) (query : String) (limit : Int)
    (piiBlock : List PiiCategory) : List EntityHit :=
  if limit ≤ 0 then []
  else if isBlank query then []
  else if listEntities store = [] then []
  else if (embedder query).zeroNorm then []
  else
    let ranked := sortedBy (fun item : String × EntityBest => rankKey item.1 item.2.score)
      (bestPerEntity store (embedder query))
    (ranked.take limit.toNat).map (entityHit store piiBlock)

end Tool

/-! ## The ranking of every entity -/

section Ranking

variable (store : Catalog) (similarities : Similarities)

/-- The similarities of the columns of an entity's table and of its own description. -/
def entitySimilarities (e : Entity) : List Rat :=
  let description := (store.entityNotes e.name).description
  (similarities.colRows.filter (·.binding = e.binding)).map (·.score) ++
    if description = "" then [] else [similarities.description description]

/-- The greatest of an entity's similarities, or zero if none is positive. -/
def entityScore (e : Entity) : Rat := (entitySimilarities store similarities e).foldr max 0

/-- All entities of positive score, by descending score and then by name. -/
def rankedEntities : List Entity :=
  sortedBy (fun e => rankKey e.name (entityScore store similarities e))
    (store.entities.filter fun e => 0 < entityScore store similarities e)

/-- No entity after it by name is bound to the same table. -/
def LastOnTable (e : Entity) : Prop :=
  ∀ e' ∈ store.entities, e'.binding = e.binding → e'.name ≤ e.name

instance (e : Entity) : Decidable (LastOnTable store e) :=
  inferInstanceAs (Decidable (∀ e' ∈ store.entities, _))

/-- The tool lists the first entities of the ranking, each with its score and its table. -/
def ListsRanking (embedder : String → Similarities) (query : String) (limit : Int)
    (piiBlock : List PiiCategory) : Prop :=
  (findRelevantEntities store embedder query limit piiBlock).map
      (fun hit => (hit.name, hit.score, hit.qualifiedTable)) =
    ((rankedEntities store (embedder query)).take limit.toNat).map fun e =>
      (e.name, entityScore store (embedder query) e, e.binding.text)

instance (embedder : String → Similarities) (query : String) (limit : Int)
    (piiBlock : List PiiCategory) :
    Decidable (ListsRanking store embedder query limit piiBlock) :=
  inferInstanceAs (Decidable (_ = _))

end Ranking

/-! ## The two dictionaries -/

section Dictionaries

variable {store : Catalog} {similarities : Similarities}

theorem mem_listEntities {e : Entity} : e ∈ listEntities store ↔ e ∈ store.entities :=
  mem_sortedBy

theorem eq_of_name_eq {e e' : Entity} (h : e ∈ store.entities) (h' : e' ∈ store.entities)
    (hname : e.name = e'.name) : e = e' :=
  List.inj_on_of_nodup_map store.entities_key h h' hname

/-- Under a table stands the last entity that is bound to it. -/
theorem dictGet_tableToEntity {q : QualifiedTable} {e : Entity} :
    dictGet (tableToEntity store) q = some e ↔
      e ∈ store.entities ∧ e.binding = q ∧ LastOnTable store e := by
  have hget : dictGet (tableToEntity store) q =
      (listEntities store).reverse.find? (·.binding = q) := by
    have hloop := @dictGet_foldl_dictSet _ _ _ [] q _ Entity.binding id (listEntities store)
    simpa [tableToEntity] using hloop
  have hsorted : (listEntities store).reverse.Pairwise fun a b => b.name ≤ a.name :=
    List.pairwise_reverse.2 pairwise_sortedBy
  rw [hget]
  constructor
  · intro hfind
    have hmem : e ∈ store.entities :=
      mem_listEntities.1 (List.mem_reverse.1 (List.mem_of_find?_eq_some hfind))
    have hbinding : e.binding = q := of_decide_eq_true (List.find?_some hfind :)
    refine ⟨hmem, hbinding, fun e' he' hsame => ?_⟩
    rcases rel_of_find? hsorted hfind (List.mem_reverse.2 (mem_listEntities.2 he'))
      (decide_eq_true (hsame.trans hbinding)) with rfl | hle
    · exact le_rfl
    · exact hle
  · rintro ⟨hmem, hbinding, hlast⟩
    have hreverse := List.mem_reverse.2 (mem_listEntities.2 hmem)
    have hsome : ((listEntities store).reverse.find? (·.binding = q)).isSome := by
      rw [List.find?_isSome]
      exact ⟨e, hreverse, decide_eq_true hbinding⟩
    obtain ⟨e', hfind⟩ := Option.isSome_iff_exists.1 hsome
    have hmem' := mem_listEntities.1 (List.mem_reverse.1 (List.mem_of_find?_eq_some hfind))
    have hbinding' : e'.binding = q := of_decide_eq_true (List.find?_some hfind :)
    have hle := hlast e' hmem' (hbinding'.trans hbinding.symm)
    rcases rel_of_find? hsorted hfind hreverse (decide_eq_true hbinding) with rfl | hge
    · exact hfind
    · rw [eq_of_name_eq hmem hmem' (le_antisymm hge hle), hfind]

theorem nodup_keys_tableToEntity : ((tableToEntity store).map Prod.fst).Nodup :=
  nodup_foldl_dictSet Entity.binding id _ List.nodup_nil

/-- The items of the dictionary are the last entities of the tables. -/
theorem mem_tableToEntity {item : QualifiedTable × Entity} :
    item ∈ tableToEntity store ↔ item.2 ∈ store.entities ∧ item.2.binding = item.1 ∧
      LastOnTable store item.2 := by
  rw [← dictGet_tableToEntity, dictGet_eq_some nodup_keys_tableToEntity]

theorem nodup_names_tableToEntity : ((tableToEntity store).map (·.2.name)).Nodup := by
  refine (List.nodup_map_iff_inj_on nodup_keys_tableToEntity.of_map).2 fun item h item' h' heq => ?_
  obtain ⟨hmem, hbinding, -⟩ := mem_tableToEntity.1 h
  obtain ⟨hmem', hbinding', -⟩ := mem_tableToEntity.1 h'
  have hsame := eq_of_name_eq hmem hmem' heq
  exact Prod.ext (hbinding ▸ hbinding' ▸ congrArg Entity.binding hsame) hsame

end Dictionaries

/-! ## The greatest similarity -/

private theorem foldr_max_nonneg (scores : List Rat) : 0 ≤ scores.foldr max 0 := by
  induction scores with
  | nil => exact le_rfl
  | cons score scores ih => exact le_trans ih (le_max_right _ _)

private theorem foldr_max_le {scores : List Rat} {bound : Rat} (hzero : 0 ≤ bound)
    (h : ∀ score ∈ scores, score ≤ bound) : scores.foldr max 0 ≤ bound := by
  induction scores with
  | nil => exact hzero
  | cons score scores ih =>
    exact max_le (h score List.mem_cons_self) (ih fun s hs => h s (List.mem_cons_of_mem _ hs))

private theorem foldr_max_append (scores scores' : List Rat) :
    (scores ++ scores').foldr max 0 = max (scores.foldr max 0) (scores'.foldr max 0) := by
  induction scores with
  | nil => exact (max_eq_right (foldr_max_nonneg scores')).symm
  | cons score scores ih =>
    rw [List.cons_append, List.foldr_cons, List.foldr_cons, ih, max_assoc]

/-- The score and the table of an entity that is listed. -/
private def scored (score : Rat) (q : QualifiedTable) : Option (Rat × QualifiedTable) :=
  if 0 < score then some (score, q) else none

/-- In descending order, the first positive row of a table is its best. -/
private theorem find?_best {rows : List ScoredColumn} {q : QualifiedTable}
    (hrows : rows.Pairwise fun a b => b.score ≤ a.score) :
    (rows.find? fun row => 0 < row.score ∧ row.binding = q).map
        (fun row => (row.score, row.binding)) =
      scored (((rows.filter (·.binding = q)).map (·.score)).foldr max 0) q := by
  induction rows with
  | nil => rfl
  | cons row rows ih =>
    obtain ⟨hbelow, hrest⟩ := List.pairwise_cons.1 hrows
    by_cases hq : row.binding = q
    · have hle : ((rows.filter (·.binding = q)).map (·.score)).foldr max 0 ≤ max row.score 0 := by
        refine foldr_max_le (le_max_right _ _) fun score hscore => ?_
        obtain ⟨later, hlater, rfl⟩ := List.mem_map.1 hscore
        exact le_max_of_le_left (hbelow later (List.mem_of_mem_filter hlater))
      by_cases hpos : 0 < row.score
      · rw [max_eq_left hpos.le] at hle
        simp [hq, hpos, scored, max_eq_left hle]
      · rw [max_eq_right (not_lt.1 hpos)] at hle
        have hzero := le_antisymm hle (foldr_max_nonneg _)
        have hrow := max_eq_right (not_lt.1 hpos)
        simpa [hq, hpos, hzero, hrow] using ih hrest
    · simpa [hq] using ih hrest

/-! ## The two loops -/

section Loops

variable {store : Catalog} {best : List (String × EntityBest)} {name : String}

/-- The row scores the entity of this name. -/
private def scoresFor (store : Catalog) (name : String) (row : ScoredColumn) : Bool :=
  0 < row.score && (dictGet (tableToEntity store) row.binding).any (·.name = name)

private def columnBest (row : ScoredColumn) : EntityBest := ⟨row.score, row.binding, row.column⟩

private theorem dictGet_scoreColumn (row : ScoredColumn) :
    dictGet (scoreColumn store best row) name =
      (dictGet best name).or
        (if scoresFor store name row then some (columnBest row) else none) := by
  unfold scoreColumn scoresFor
  split
  · next hscore => simp [not_lt.2 hscore]
  · next hscore =>
    cases htable : dictGet (tableToEntity store) row.binding with
    | none => simp
    | some e =>
      by_cases hname : e.name = name
      · subst hname
        cases hbest : dictGet best e.name with
        | none => simp [hbest, dictGet_dictSet, not_le.1 hscore, columnBest]
        | some b => simp [hbest]
      · cases hbest : dictGet best e.name with
        | none => simp [hbest, dictGet_dictSet, hname]
        | some b => simp [hbest, hname]

/-- After the column loop an entity has its first positive row. -/
private theorem dictGet_foldl_scoreColumn (rows : List ScoredColumn) :
    dictGet (rows.foldl (scoreColumn store) best) name =
      (dictGet best name).or ((rows.find? (scoresFor store name)).map columnBest) := by
  induction rows generalizing best with
  | nil => simp
  | cons row rows ih =>
    rw [List.foldl_cons, ih, dictGet_scoreColumn, List.find?_cons, Option.or_assoc]
    cases scoresFor store name row <;> simp

/-- What an entity's description offers. -/
private def descriptionBest (store : Catalog) (similarity : String → Rat)
    (item : QualifiedTable × Entity) : Option EntityBest :=
  let description := (store.entityNotes item.2.name).description
  if description = "" ∨ similarity description ≤ 0 then none
  else some ⟨similarity description, item.1, entityDescriptionMatchLabel⟩

/-- The offer is taken if it is better. -/
private def betterOf (current offer : Option EntityBest) : Option EntityBest :=
  match offer, current with
  | none, current => current
  | some hit, none => some hit
  | some hit, some b => if b.score < hit.score then some hit else some b

private theorem dictGet_scoreDescription (similarity : String → Rat)
    (item : QualifiedTable × Entity) :
    dictGet (scoreDescription store similarity best item) name =
      if item.2.name = name then
        betterOf (dictGet best name) (descriptionBest store similarity item)
      else dictGet best name := by
  unfold scoreDescription descriptionBest
  by_cases hempty : (store.entityNotes item.2.name).description = ""
  · simp [hempty, betterOf]
  · by_cases hscore : similarity (store.entityNotes item.2.name).description ≤ 0
    · simp [hempty, hscore, betterOf]
    · by_cases hname : item.2.name = name
      · subst hname
        cases hbest : dictGet best item.2.name with
        | none => simp [hempty, hscore, betterOf, dictGet_dictSet]
        | some b =>
          by_cases hless : b.score < similarity (store.entityNotes item.2.name).description <;>
            simp [hempty, hscore, hbest, betterOf, dictGet_dictSet, hless]
      · cases dictGet best item.2.name with
        | none => simp [hempty, hscore, dictGet_dictSet, hname]
        | some b =>
          by_cases hless : b.score < similarity (store.entityNotes item.2.name).description <;>
            simp [hempty, hscore, dictGet_dictSet, hless, hname]

/-- After the description loop an entity has the better of its two. -/
private theorem dictGet_foldl_scoreDescription (similarity : String → Rat)
    {items : List (QualifiedTable × Entity)} (hitems : (items.map (·.2.name)).Nodup) :
    dictGet (items.foldl (scoreDescription store similarity) best) name =
      betterOf (dictGet best name)
        ((items.find? (·.2.name = name)).bind (descriptionBest store similarity)) := by
  induction items generalizing best with
  | nil => simp [betterOf]
  | cons item items ih =>
    obtain ⟨hfirst, hrest⟩ := List.nodup_cons.1 hitems
    rw [List.foldl_cons, ih hrest, dictGet_scoreDescription, List.find?_cons]
    by_cases hname : item.2.name = name
    · have hnone : items.find? (·.2.name = name) = none := by
        rw [List.find?_eq_none]
        intro later hlater hsame
        exact hfirst (List.mem_map.2 ⟨later, hlater, (of_decide_eq_true hsame).trans hname.symm⟩)
      simp [hname, hnone, betterOf]
    · simp [hname]

end Loops

/-! ## The list of hits -/

section Hits

variable {store : Catalog} {similarities : Similarities}

private theorem pairwise_colRows :
    similarities.colRows.Pairwise fun a b => b.score ≤ a.score := by
  refine (List.Pairwise.take pairwise_sortedBy).imp fun {a b} hkey => ?_
  rcases Prod.Lex.toLex_le_toLex.1 hkey with hless | ⟨hsame, -⟩
  · exact (neg_lt_neg_iff.1 hless).le
  · exact (neg_injective hsame).ge

/-- The rows that score the last entity of a table are those of the table. -/
private theorem scoresFor_last {e : Entity} (he : e ∈ store.entities) (hlast : LastOnTable store e)
    (row : ScoredColumn) :
    scoresFor store e.name row = decide (0 < row.score ∧ row.binding = e.binding) := by
  rw [scoresFor, Bool.decide_and]
  congr 1
  rw [Bool.eq_iff_iff, Option.any_eq_true, decide_eq_true_iff]
  constructor
  · rintro ⟨e', he', hname⟩
    obtain ⟨hmem', hbinding', -⟩ := dictGet_tableToEntity.1 he'
    rw [← hbinding', eq_of_name_eq hmem' he (of_decide_eq_true hname)]
  · intro hbinding
    exact ⟨e, dictGet_tableToEntity.2 ⟨he, hbinding.symm, hlast⟩, decide_eq_true rfl⟩

private theorem betterOf_scored {current offer : Option EntityBest} {q : QualifiedTable}
    {score score' : Rat} (hscore : 0 ≤ score)
    (hcurrent : current.map (fun b => (b.score, b.binding)) = scored score q)
    (hoffer : offer.map (fun b => (b.score, b.binding)) = scored score' q) :
    (betterOf current offer).map (fun b => (b.score, b.binding)) = scored (max score score') q := by
  unfold scored at hcurrent hoffer ⊢
  cases offer with
  | none =>
    have hle : score' ≤ 0 := by
      by_contra hpos
      simp [not_le.1 hpos] at hoffer
    rw [max_eq_left (hle.trans hscore)]
    exact hcurrent
  | some hit =>
    have hpos' : 0 < score' := by
      by_contra hle
      simp [hle] at hoffer
    rw [if_pos hpos', Option.map_some, Option.some_inj, Prod.mk.injEq] at hoffer
    rw [if_pos (lt_max_of_lt_right hpos')]
    cases current with
    | none =>
      have hle : score ≤ 0 := by
        by_contra hpos
        simp [not_le.1 hpos] at hcurrent
      rw [max_eq_right (hle.trans hpos'.le)]
      simp [betterOf, hoffer]
    | some b =>
      have hpos : 0 < score := by
        by_contra hle
        simp [hle] at hcurrent
      rw [if_pos hpos, Option.map_some, Option.some_inj, Prod.mk.injEq] at hcurrent
      by_cases hless : score < score'
      · simp [betterOf, hoffer, hcurrent, hless, max_eq_right hless.le]
      · simp [betterOf, hoffer, hcurrent, hless, max_eq_left (not_lt.1 hless)]

private theorem descriptionBest_scored (e : Entity) :
    (descriptionBest store similarities.description (e.binding, e)).map
        (fun b => (b.score, b.binding)) =
      scored ((if (store.entityNotes e.name).description = "" then []
        else [similarities.description (store.entityNotes e.name).description]).foldr max 0)
        e.binding := by
  unfold descriptionBest scored
  by_cases hempty : (store.entityNotes e.name).description = ""
  · simp [hempty]
  · by_cases hscore : similarities.description (store.entityNotes e.name).description ≤ 0
    · simp [hempty, hscore]
    · simp [hempty, hscore, (not_le.1 hscore).le]

private theorem dictGet_bestPerEntity (name : String) :
    dictGet (bestPerEntity store similarities) name =
      betterOf ((similarities.colRows.find? (scoresFor store name)).map columnBest)
        (((tableToEntity store).find? (·.2.name = name)).bind
          (descriptionBest store similarities.description)) := by
  unfold bestPerEntity
  rw [dictGet_foldl_scoreDescription _ nodup_names_tableToEntity, dictGet_foldl_scoreColumn,
    dictGet_nil, Option.none_or]

/-- The last entity of a table is scored by the greatest of its similarities. -/
private theorem bestPerEntity_last {e : Entity} (he : e ∈ store.entities)
    (hlast : LastOnTable store e) :
    (dictGet (bestPerEntity store similarities) e.name).map (fun b => (b.score, b.binding)) =
      scored (entityScore store similarities e) e.binding := by
  have hcolumns := @find?_best _ e.binding (@pairwise_colRows similarities)
  have hmem : (e.binding, e) ∈ tableToEntity store := mem_tableToEntity.2 ⟨he, rfl, hlast⟩
  have hitem : (tableToEntity store).find? (·.2.name = e.name) = some (e.binding, e) :=
    rowOf_of_mem nodup_names_tableToEntity hmem
  rw [dictGet_bestPerEntity, hitem, Option.bind_some, funext (scoresFor_last he hlast),
    entityScore, entitySimilarities, foldr_max_append]
  refine betterOf_scored (foldr_max_nonneg _) ?_ (descriptionBest_scored e)
  rw [Option.map_map]
  exact hcolumns

/-- No other entity is scored. -/
private theorem last_of_bestPerEntity {name : String} {b : EntityBest}
    (h : dictGet (bestPerEntity store similarities) name = some b) :
    ∃ e ∈ store.entities, e.name = name ∧ LastOnTable store e := by
  rw [dictGet_bestPerEntity] at h
  cases hrow : similarities.colRows.find? (scoresFor store name) with
  | some row =>
    have hscores := List.find?_some hrow
    obtain ⟨e, hget, hname⟩ := (Option.any_eq_true _ _).1 (Bool.and_elim_right hscores)
    obtain ⟨hmem, -, hlast⟩ := dictGet_tableToEntity.1 hget
    exact ⟨e, hmem, of_decide_eq_true hname, hlast⟩
  | none =>
    cases hitem : (tableToEntity store).find? (·.2.name = name) with
    | none => simp [hrow, hitem, betterOf] at h
    | some item =>
      obtain ⟨hmem, -, hlast⟩ := mem_tableToEntity.1 (List.mem_of_find?_eq_some hitem)
      exact ⟨item.2, hmem, of_decide_eq_true (List.find?_some hitem :), hlast⟩

private theorem nodup_scoreColumn {best : List (String × EntityBest)}
    (h : (best.map Prod.fst).Nodup) (row : ScoredColumn) :
    ((scoreColumn store best row).map Prod.fst).Nodup := by
  unfold scoreColumn
  split
  · exact h
  · split
    · exact h
    · split
      · exact h
      · exact nodup_dictSet h

private theorem nodup_scoreDescription {similarity : String → Rat}
    {best : List (String × EntityBest)} (h : (best.map Prod.fst).Nodup)
    (item : QualifiedTable × Entity) :
    ((scoreDescription store similarity best item).map Prod.fst).Nodup := by
  unfold scoreDescription
  dsimp only
  split
  · exact h
  · split
    · exact h
    · split
      · exact nodup_dictSet h
      · split
        · exact nodup_dictSet h
        · exact h

private theorem nodup_bestPerEntity :
    ((bestPerEntity store similarities).map Prod.fst).Nodup := by
  unfold bestPerEntity
  let distinct := fun best : List (String × EntityBest) => (best.map Prod.fst).Nodup
  refine List.foldlRecOn (motive := distinct) _ _ ?_
    fun best h item _ => nodup_scoreDescription h item
  exact List.foldlRecOn (motive := distinct) _ _ List.nodup_nil
    fun best h row _ => nodup_scoreColumn h row

theorem mem_rankedEntities {e : Entity} : e ∈ rankedEntities store similarities ↔
    e ∈ store.entities ∧ 0 < entityScore store similarities e := by
  rw [rankedEntities, mem_sortedBy, List.mem_filter, decide_eq_true_iff]

private theorem nodup_rankedEntities : ((rankedEntities store similarities).map (·.name)).Nodup :=
  (sortedBy_perm.map _).nodup_iff.2 (store.entities_key.sublist (List.filter_sublist.map _))

/-- The scored entities are the entities of the ranking that are the last of their tables. -/
private theorem bestPerEntity_perm :
    ((bestPerEntity store similarities).map fun item =>
        (item.1, item.2.score, item.2.binding.text)).Perm
      (((rankedEntities store similarities).filter (LastOnTable store ·)).map fun e =>
        (e.name, entityScore store similarities e, e.binding.text)) := by
  have hleft := @nodup_bestPerEntity store similarities
  have hright := @nodup_rankedEntities store similarities
  refine (List.perm_ext_iff_of_nodup (.of_map Prod.fst (by rwa [List.map_map]))
    (.of_map Prod.fst ?_)).2 fun entry => ?_
  · rw [List.map_map]
    exact hright.sublist (List.filter_sublist.map _)
  · simp only [List.mem_map, List.mem_filter, mem_rankedEntities, decide_eq_true_eq]
    constructor
    · rintro ⟨⟨name, b⟩, hitem, rfl⟩
      have hget := (dictGet_eq_some hleft).2 hitem
      obtain ⟨e, he, rfl, hlast⟩ := last_of_bestPerEntity hget
      have hscored := @bestPerEntity_last store similarities _ he hlast
      rw [hget, Option.map_some, scored] at hscored
      split at hscored
      · next hpos =>
        obtain ⟨hscore, hbinding⟩ := Prod.mk.injEq _ _ _ _ ▸ Option.some_inj.1 hscored
        exact ⟨e, ⟨⟨he, hpos⟩, hlast⟩, by rw [hscore, hbinding]⟩
      · cases hscored
    · rintro ⟨e, ⟨⟨he, hpos⟩, hlast⟩, rfl⟩
      have hscored := @bestPerEntity_last store similarities _ he hlast
      rw [scored, if_pos hpos, Option.map_eq_some_iff] at hscored
      obtain ⟨b, hget, hb⟩ := hscored
      obtain ⟨hscore, hbinding⟩ := Prod.mk.inj hb
      exact ⟨(e.name, b), (dictGet_eq_some hleft).1 hget, by rw [hscore, hbinding]⟩

/-- Sorted, the scored entities are the ranking without the entities that another one of their
table follows. -/
private theorem ranked_eq :
    (sortedBy (fun item : String × EntityBest => rankKey item.1 item.2.score)
        (bestPerEntity store similarities)).map
        (fun item => (item.1, item.2.score, item.2.binding.text)) =
      ((rankedEntities store similarities).filter (LastOnTable store ·)).map fun e =>
        (e.name, entityScore store similarities e, e.binding.text) := by
  have hperm := @bestPerEntity_perm store similarities
  have hnames : (((bestPerEntity store similarities).map fun item =>
      (item.1, item.2.score, item.2.binding.text)).map Prod.fst).Nodup := by
    rw [List.map_map]
    exact nodup_bestPerEntity
  have hsorted : ((sortedBy (fun item : String × EntityBest => rankKey item.1 item.2.score)
      (bestPerEntity store similarities)).map
      fun item => (item.1, item.2.score, item.2.binding.text)).Pairwise
      fun t t' => rankKey t.1 t.2.1 ≤ rankKey t'.1 t'.2.1 :=
    List.pairwise_map.2 pairwise_sortedBy
  refine ((sortedBy_perm.map _).trans hperm).eq_of_pairwise (fun t t' ht ht' hle hle' => ?_)
    hsorted (List.pairwise_map.2 (pairwise_sortedBy.sublist List.filter_sublist))
  have hkey := Prod.mk.inj (toLex_inj.1 (le_antisymm hle hle'))
  exact List.inj_on_of_nodup_map hnames ((sortedBy_perm.map _).mem_iff.1 ht)
    (hperm.mem_iff.2 ht') hkey.2

private theorem entry_entityHit (piiBlock : List PiiCategory) (item : String × EntityBest) :
    ((entityHit store piiBlock item).name, (entityHit store piiBlock item).score,
        (entityHit store piiBlock item).qualifiedTable) =
      (item.1, item.2.score, item.2.binding.text) := by
  unfold entityHit
  dsimp only
  split
  · rfl
  · split <;> rfl

private theorem rankedEntities_of_zeroNorm (h : similarities.zeroNorm = true) :
    rankedEntities store similarities = [] := by
  rw [List.eq_nil_iff_forall_not_mem]
  intro e he
  refine absurd (mem_rankedEntities.1 he).2 (not_lt.2 (foldr_max_le le_rfl fun score hscore => ?_))
  rcases List.mem_append.1 hscore with hcolumn | hdescription
  · obtain ⟨row, hrow, rfl⟩ := List.mem_map.1 hcolumn
    have hstored := List.mem_of_mem_take (List.mem_of_mem_filter hrow)
    exact (similarities.columns_zero h row (mem_sortedBy.1 hstored)).le
  · split at hdescription
    · cases hdescription
    · rw [List.mem_singleton.1 hdescription, similarities.description_zero h]

/-- The hits are those of the last entities of their tables. -/
theorem findRelevantEntities_entries (embedder : String → Similarities) (query : String)
    (limit : Int) (piiBlock : List PiiCategory) :
    (findRelevantEntities store embedder query limit piiBlock).map
        (fun hit => (hit.name, hit.score, hit.qualifiedTable)) =
      (((rankedEntities store (embedder query)).filter
          fun e => !isBlank query && decide (LastOnTable store e)).take limit.toNat).map fun e =>
        (e.name, entityScore store (embedder query) e, e.binding.text) := by
  unfold findRelevantEntities
  split
  · next hlimit => simp [Int.toNat_of_nonpos hlimit]
  split
  · next hblank => simp [hblank]
  split
  · next hempty =>
    have hnone : rankedEntities store (embedder query) = [] := by
      rw [List.eq_nil_iff_forall_not_mem]
      intro e he
      have hlisted := mem_listEntities.2 (mem_rankedEntities.1 he).1
      rw [hempty] at hlisted
      cases hlisted
    simp [hnone]
  split
  · next hzero => simp [rankedEntities_of_zeroNorm hzero]
  · next hblank _ _ =>
    simp only [hblank, Bool.not_false, Bool.true_and, List.map_map, List.map_take]
    rw [← ranked_eq]
    congr 1
    exact List.map_congr_left fun item _ => entry_entityHit piiBlock item

/-- The tool lists the first entities of the ranking if and only if the query is not blank and
each of them is the last entity of its table. -/
theorem findRelevantEntities_iff (store : Catalog) (embedder : String → Similarities)
    (query : String) (limit : Int) (piiBlock : List PiiCategory) :
    ListsRanking store embedder query limit piiBlock ↔
      ∀ e ∈ (rankedEntities store (embedder query)).take limit.toNat,
        isBlank query = false ∧ LastOnTable store e := by
  have hinj : ∀ e ∈ rankedEntities store (embedder query),
      ∀ e' ∈ rankedEntities store (embedder query),
      (e.name, entityScore store (embedder query) e, e.binding.text) =
        (e'.name, entityScore store (embedder query) e', e'.binding.text) → e = e' := by
    intro e he e' he' heq
    exact eq_of_name_eq (mem_rankedEntities.1 he).1 (mem_rankedEntities.1 he').1
      (Prod.mk.inj heq).1
  rw [ListsRanking, findRelevantEntities_entries, take_filter_eq_take_iff hinj]
  simp only [Bool.and_eq_true, Bool.not_eq_true', decide_eq_true_eq]

end Hits

/-! ## Two entities on one table -/

/-- A customer and a member, both bound to the table of users. -/
def usersCatalog : Catalog where
  tables := [⟨⟨"public", "users"⟩, [{ name := "id", dataType := "integer" },
    { name := "email", dataType := "text", ordinalPosition := 2 }], []⟩]
  entities := [{ name := "customer", binding := ⟨"public", "users"⟩, identity := "id" },
    { name := "member", binding := ⟨"public", "users"⟩, identity := "id" }]
  canonicalJoins := []
  metrics := []
  columnPiiTags := []

/-- The column `email` is half similar to every query. -/
def emailSimilarities (_query : String) : Similarities where
  zeroNorm := false
  columns := [⟨⟨"public", "users"⟩, "email", 1 / 2⟩]
  description _ := 0
  columns_zero := nofun
  description_zero := nofun

/-- Both entities have the similarity of the column, and only the member is listed. -/
theorem not_listsRanking : ¬ ListsRanking usersCatalog emailSimilarities "address" 10 [] := by
  decide +kernel

end SchemaBrain.Mcp
