import Mathlib.Data.List.Pairwise
import SchemaBrain.Base.Collections
import SchemaBrain.Base.Json
import SchemaBrain.Core.Model

/-!
# Join suggestions

`_merge_evidence_sources`: declared foreign keys and joins seen in the query log, one candidate
for each merge key. The key keeps the column pairs in the order they are listed in.
-/

namespace SchemaBrain.Joins

open Base Core

/-! ## Evidence -/

/-- `JoinConfidence`. -/
inductive JoinConfidence
  | high
  | medium
  | low
  deriving DecidableEq, Repr

/-- `JoinEvidence`. -/
inductive JoinEvidence
  | foreignKey
  | queryLog
  deriving DecidableEq, Repr

/-- `_candidate_key`: what is joined, with the column pairs as they are listed. -/
structure JoinShape where
  sourceEntity : String
  targetEntity : String
  on : List JoinColumnPair
  deriving DecidableEq

/-- `_FkSeed`. -/
structure FkSeed where
  fkName : String
  shape : JoinShape
  cardinality : Option Cardinality := none

/-- `_QueryLogEvidence`. -/
structure QueryLogEvidence where
  shape : JoinShape
  frequency : Nat

/-- `JoinCandidate`. -/
structure JoinCandidate where
  name : String
  shape : JoinShape
  confidence : JoinConfidence
  evidence : List JoinEvidence
  fkName : Option String
  queryLogFrequency : Nat
  rationale : String
  cardinality : Option Cardinality
  evidence_ne_nil : evidence ≠ [] := by decide

/-- `confidence_for_frequency`. -/
def confidenceForFrequency (frequency : Nat) : JoinConfidence :=
  if 5 ≤ frequency then .medium else .low

/-! ## Names -/

/-- `name[: -len(suffix)]` of a name that ends with the suffix. -/
def withoutSuffix (suffix name : String) : Option String :=
  if suffix.toList.isSuffixOf name.toList then
    some (String.ofList (name.toList.take (name.length - suffix.length)))
  else none

/-- `<source>_<target>`. -/
def JoinShape.pairName (shape : JoinShape) : String :=
  shape.sourceEntity ++ "_" ++ shape.targetEntity

/-- `_clean_fk_name`. -/
def cleanFkName (fkName : String) (shape : JoinShape) : String :=
  let cleaned := ((withoutSuffix "_fkey" fkName).or (withoutSuffix "_fk" fkName)).getD fkName
  if cleaned = "" then shape.pairName else cleaned

/-- The preferred name with a counter. -/
def numbered (preferred : String) (counter : Nat) : String :=
  preferred ++ "_" ++ toString counter

/-- `_allocate_name`: one of the first counters is free, one more than there are used names. -/
def allocateName (preferred : String) (used : List String) : String :=
  if preferred ∉ used then preferred
  else ((((List.range (used.length + 1)).map (· + 2)).map (numbered preferred)).find?
    (· ∉ used)).getD preferred

theorem numbered_injective (preferred : String) : Function.Injective (numbered preferred) := by
  intro m n h
  have hdigits : Nat.toDigits 10 m = Nat.toDigits 10 n := by
    have hchars := congrArg String.toList h
    simpa [numbered, Nat.toString_eq_repr, Nat.toList_repr] using hchars
  rw [← Nat.ofDigitChars_ten_toDigits (n := m), hdigits, Nat.ofDigitChars_ten_toDigits]

/-- The name is a new one. -/
theorem allocateName_not_mem (preferred : String) (used : List String) :
    allocateName preferred used ∉ used := by
  unfold allocateName
  split
  · next hfree => exact hfree
  · generalize hnames :
      ((List.range (used.length + 1)).map (· + 2)).map (numbered preferred) = names
    have hnodup : names.Nodup := by
      rw [← hnames]
      exact (List.nodup_range.map (add_left_injective 2)).map (numbered_injective preferred)
    have hlength : names.length = used.length + 1 := by simp [← hnames]
    cases hfind : names.find? (· ∉ used) with
    | some name => simpa using List.find?_some hfind
    | none =>
      -- otherwise all of these names are used, and there are too many of them
      have hall : names ⊆ used := fun name hname => by
        simpa using List.find?_eq_none.1 hfind name hname
      have := (List.subperm_of_subset hnodup hall).length_le
      omega

/-- The candidates get their names one after the other; a draft carries its preferred one. -/
def nameCandidates (used : List String) : List JoinCandidate → List JoinCandidate
  | [] => []
  | draft :: rest =>
    let name := allocateName draft.name used
    { draft with name } :: nameCandidates (name :: used) rest

@[simp] theorem shapes_nameCandidates (used : List String) (drafts : List JoinCandidate) :
    (nameCandidates used drafts).map (·.shape) = drafts.map (·.shape) := by
  induction drafts generalizing used with
  | nil => rfl
  | cons draft rest ih => simp only [nameCandidates, List.map_cons, ih]

/-- The names are different ones, and none of them was used before. -/
theorem names_nameCandidates (used : List String) (drafts : List JoinCandidate) :
    ((nameCandidates used drafts).map (·.name)).Nodup ∧
      ∀ name ∈ (nameCandidates used drafts).map (·.name), name ∉ used := by
  induction drafts generalizing used with
  | nil => exact ⟨List.nodup_nil, by simp [nameCandidates]⟩
  | cons draft rest ih =>
    obtain ⟨hnodup, hnew⟩ := ih (allocateName draft.name used :: used)
    simp only [nameCandidates, List.map_cons]
    refine ⟨List.nodup_cons.2 ⟨fun hagain => hnew _ hagain List.mem_cons_self, hnodup⟩, ?_⟩
    rw [List.forall_mem_cons]
    exact ⟨allocateName_not_mem _ _, fun name hname hused =>
      hnew name hname (List.mem_cons_of_mem _ hused)⟩

/-- Apart from its name, a draft becomes a candidate as it is. -/
theorem exists_nameCandidates {used : List String} {drafts : List JoinCandidate}
    {draft : JoinCandidate} (h : draft ∈ drafts) :
    ∃ name, { draft with name } ∈ nameCandidates used drafts := by
  induction drafts generalizing used with
  | nil => cases h
  | cons first rest ih =>
    rcases List.mem_cons.1 h with rfl | hrest
    · exact ⟨_, List.mem_cons_self⟩
    · obtain ⟨name, hname⟩ := @ih (allocateName first.name used :: used) hrest
      exact ⟨name, List.mem_cons_of_mem _ hname⟩

/-! ## The merge -/

/-- `fk_by_key`: of several keys with one shape, the alphabetically first. -/
def fkByKey (seeds : List FkSeed) : List (JoinShape × FkSeed) :=
  keepBest FkSeed.shape (fun seed existing => seed.fkName < existing.fkName) seeds

/-- `query_log_by_key`: of several pieces of evidence with one shape, the most frequent. -/
def queryLogByKey (evidence : List QueryLogEvidence) : List (JoinShape × QueryLogEvidence) :=
  keepBest QueryLogEvidence.shape (fun ev existing => ev.frequency > existing.frequency) evidence

/-- The candidate of a foreign key, with the evidence of the query log under its merge key. -/
def fkDraft (seed : FkSeed) : Option QueryLogEvidence → JoinCandidate
  | some ql => {
      name := cleanFkName seed.fkName seed.shape
      shape := seed.shape
      confidence := .high
      evidence := [.foreignKey, .queryLog]
      fkName := some seed.fkName
      queryLogFrequency := ql.frequency
      rationale := "Declared FK " ++ pyRepr seed.fkName ++ " confirmed by " ++
        toString ql.frequency ++ " observed joins in the query log."
      cardinality := seed.cardinality }
  | none => {
      name := cleanFkName seed.fkName seed.shape
      shape := seed.shape
      confidence := .high
      evidence := [.foreignKey]
      fkName := some seed.fkName
      queryLogFrequency := 0
      rationale := "Declared FK " ++ pyRepr seed.fkName ++ "."
      cardinality := seed.cardinality }

/-- The candidate of a join that only the query log shows. -/
def queryLogDraft (ql : QueryLogEvidence) : JoinCandidate where
  name := ql.shape.pairName
  shape := ql.shape
  confidence := confidenceForFrequency ql.frequency
  evidence := [.queryLog]
  fkName := none
  queryLogFrequency := ql.frequency
  rationale := "Observed in query log with frequency " ++ toString ql.frequency ++
    "; no declared FK between " ++ pyRepr ql.shape.sourceEntity ++ " and " ++
    pyRepr ql.shape.targetEntity ++ "."
  cardinality := none

/-- The candidates in their order, with their preferred names. -/
def candidateDrafts (seeds : List FkSeed) (evidence : List QueryLogEvidence) :
    List JoinCandidate :=
  (fkByKey seeds).map (fun item => fkDraft item.2 (dictGet (queryLogByKey evidence) item.1)) ++
    ((queryLogByKey evidence).filter fun item => item.1 ∉ (fkByKey seeds).map Prod.fst).map
      fun item => queryLogDraft item.2

/-- `_merge_evidence_sources`. -/
def mergeEvidenceSources (seeds : List FkSeed) (evidence : List QueryLogEvidence) :
    List JoinCandidate :=
  nameCandidates [] (candidateDrafts seeds evidence)

/-- The shapes of all that the merge is given. -/
def givenShapes (seeds : List FkSeed) (evidence : List QueryLogEvidence) : List JoinShape :=
  seeds.map (·.shape) ++ evidence.map (·.shape)

section Merge

variable {seeds : List FkSeed} {evidence : List QueryLogEvidence}

@[simp] theorem fkDraft_shape (seed : FkSeed) (ql : Option QueryLogEvidence) :
    (fkDraft seed ql).shape = seed.shape := by
  cases ql <;> rfl

/-- The shapes of the candidates are the merge keys. -/
theorem shapes_mergeEvidenceSources : (mergeEvidenceSources seeds evidence).map (·.shape) =
    (fkByKey seeds).map Prod.fst ++
      ((queryLogByKey evidence).map Prod.fst).filter (· ∉ (fkByKey seeds).map Prod.fst) := by
  unfold mergeEvidenceSources candidateDrafts
  rw [shapes_nameCandidates, List.map_append, List.map_map, List.map_map, List.filter_map]
  congr 1
  · refine List.map_congr_left fun item hitem => ?_
    rw [(mem_keepBest hitem).1]
    exact fkDraft_shape _ _
  · refine List.map_congr_left fun item hitem => ?_
    rw [(mem_keepBest (List.mem_filter.1 hitem).1).1]
    rfl

theorem nodup_shapes : ((mergeEvidenceSources seeds evidence).map (·.shape)).Nodup := by
  rw [shapes_mergeEvidenceSources, List.nodup_append]
  refine ⟨nodup_keepBest _, (nodup_keepBest _).filter _, fun shape hfk shape' hlog heq => ?_⟩
  exact absurd (heq ▸ hfk) (by simpa using (List.mem_filter.1 hlog).2)

/-- A shape has a candidate when it is given. -/
theorem mem_shapes {shape : JoinShape} :
    shape ∈ (mergeEvidenceSources seeds evidence).map (·.shape) ↔
      shape ∈ givenShapes seeds evidence := by
  have hfk : shape ∈ (fkByKey seeds).map Prod.fst ↔ shape ∈ seeds.map (·.shape) :=
    mem_keys_keepBest
  have hlog : shape ∈ (queryLogByKey evidence).map Prod.fst ↔ shape ∈ evidence.map (·.shape) :=
    mem_keys_keepBest
  rw [shapes_mergeEvidenceSources, givenShapes, List.mem_append, List.mem_append, List.mem_filter,
    decide_eq_true_iff, hfk, hlog]
  tauto

/-- A foreign key and evidence under one merge key give a candidate that carries both. -/
theorem exists_corroborated {seed : FkSeed} {ev : QueryLogEvidence} (hseed : seed ∈ seeds)
    (hev : ev ∈ evidence) (h : seed.shape = ev.shape) :
    ∃ c ∈ mergeEvidenceSources seeds evidence, c.shape = seed.shape ∧ c.confidence = .high ∧
      c.evidence = [.foreignKey, .queryLog] := by
  have hfk : seed.shape ∈ (fkByKey seeds).map Prod.fst :=
    mem_keys_keepBest.2 (List.mem_map_of_mem hseed)
  have hlog : seed.shape ∈ (queryLogByKey evidence).map Prod.fst :=
    mem_keys_keepBest.2 (h ▸ List.mem_map_of_mem hev)
  obtain ⟨item, hitem, hkey⟩ := List.mem_map.1 hfk
  obtain ⟨ql, hql⟩ := Option.ne_none_iff_exists'.1 (mt dictGet_eq_none.1 (not_not_intro hlog))
  have hdraft : fkDraft item.2 (some ql) ∈ candidateDrafts seeds evidence := by
    refine List.mem_append_left _ (List.mem_map.2 ⟨item, hitem, ?_⟩)
    rw [hkey, hql]
  obtain ⟨name, hname⟩ := @exists_nameCandidates [] _ _ hdraft
  exact ⟨_, hname, (mem_keepBest hitem).1.symm.trans hkey, rfl, rfl⟩

end Merge

/-! ## One candidate for each join -/

/-- The same join: between the same entities, over the same column pairs. -/
def JoinShape.Same (shape shape' : JoinShape) : Prop :=
  shape.sourceEntity = shape'.sourceEntity ∧ shape.targetEntity = shape'.targetEntity ∧
    ∀ pair, pair ∈ shape.on ↔ pair ∈ shape'.on

theorem JoinShape.Same.refl (shape : JoinShape) : shape.Same shape := ⟨rfl, rfl, fun _ => Iff.rfl⟩

theorem JoinShape.Same.symm {shape shape' : JoinShape} (h : shape.Same shape') :
    shape'.Same shape :=
  ⟨h.1.symm, h.2.1.symm, fun pair => (h.2.2 pair).symm⟩

/-- Each join that is given has one candidate, under a name of its own, and a foreign key that
the query log confirms has one that carries both. -/
structure OnePerJoin (seeds : List FkSeed) (evidence : List QueryLogEvidence) : Prop where
  names : ((mergeEvidenceSources seeds evidence).map (·.name)).Nodup
  seeds_represented : ∀ seed ∈ seeds, ∃ c ∈ mergeEvidenceSources seeds evidence,
    c.shape.Same seed.shape
  evidence_represented : ∀ ev ∈ evidence, ∃ c ∈ mergeEvidenceSources seeds evidence,
    c.shape.Same ev.shape
  separate : (mergeEvidenceSources seeds evidence).Pairwise fun c c' => ¬ c.shape.Same c'.shape
  corroborated : ∀ seed ∈ seeds, ∀ ev ∈ evidence, seed.shape.Same ev.shape →
    ∃ c ∈ mergeEvidenceSources seeds evidence, c.shape.Same seed.shape ∧ c.confidence = .high ∧
      c.evidence = [.foreignKey, .queryLog]

theorem exists_candidate {seeds : List FkSeed} {evidence : List QueryLogEvidence}
    {shape : JoinShape} (h : shape ∈ givenShapes seeds evidence) :
    ∃ c ∈ mergeEvidenceSources seeds evidence, c.shape.Same shape := by
  obtain ⟨c, hc, rfl⟩ := List.mem_map.1 (mem_shapes.2 h)
  exact ⟨c, hc, .refl _⟩

/-- There is one candidate for each join when a join is always listed with its column pairs in
one order. -/
theorem onePerJoin_iff (seeds : List FkSeed) (evidence : List QueryLogEvidence) :
    OnePerJoin seeds evidence ↔ ∀ shape ∈ givenShapes seeds evidence,
      ∀ shape' ∈ givenShapes seeds evidence, shape.Same shape' → shape = shape' := by
  constructor
  · intro h shape hshape shape' hshape' hsame
    obtain ⟨c, hc, rfl⟩ := List.mem_map.1 (mem_shapes.2 hshape)
    obtain ⟨c', hc', rfl⟩ := List.mem_map.1 (mem_shapes.2 hshape')
    by_contra hne
    have hsymm : Std.Symm fun c c' : JoinCandidate => ¬ c.shape.Same c'.shape :=
      ⟨fun _ _ hnot hsame => hnot hsame.symm⟩
    exact h.separate.forall hc hc' (fun heq => hne (congrArg _ heq)) hsame
  · intro h
    refine ⟨(names_nameCandidates _ _).1, fun seed hseed => exists_candidate ?_,
      fun ev hev => exists_candidate ?_, ?_, fun seed hseed ev hev hsame => ?_⟩
    · exact List.mem_append_left _ (List.mem_map_of_mem hseed)
    · exact List.mem_append_right _ (List.mem_map_of_mem hev)
    · have hshapes := @nodup_shapes seeds evidence
      rw [List.Nodup, List.pairwise_map] at hshapes
      refine hshapes.imp_of_mem fun hc hc' hne hsame => hne (h _ ?_ _ ?_ hsame)
      · exact mem_shapes.1 (List.mem_map_of_mem hc)
      · exact mem_shapes.1 (List.mem_map_of_mem hc')
    · have heq : seed.shape = ev.shape := h _ (List.mem_append_left _ (List.mem_map_of_mem hseed))
        _ (List.mem_append_right _ (List.mem_map_of_mem hev)) hsame
      obtain ⟨c, hc, hshape, hrest⟩ := exists_corroborated hseed hev heq
      exact ⟨c, hc, hshape ▸ .refl _, hrest⟩

/-- A composite foreign key as the constraint lists it, and as the query log shows it. -/
def shipmentKey : FkSeed where
  fkName := "shipments_order_fkey"
  shape := ⟨"shipment", "order", [⟨"order_no", "order_no", by decide, by decide⟩,
    ⟨"line_no", "line_no", by decide, by decide⟩]⟩

def shipmentLog : QueryLogEvidence where
  shape := ⟨"shipment", "order", [⟨"line_no", "line_no", by decide, by decide⟩,
    ⟨"order_no", "order_no", by decide, by decide⟩]⟩
  frequency := 8

theorem shipments_same : shipmentKey.shape.Same shipmentLog.shape :=
  ⟨rfl, rfl, fun pair => by simp [shipmentKey, shipmentLog, or_comm]⟩

/-- The join is suggested twice, and no candidate carries both pieces of evidence. -/
theorem not_onePerJoin :
    ¬ ∀ (seeds : List FkSeed) (evidence : List QueryLogEvidence), OnePerJoin seeds evidence := by
  intro h
  have hone := h [shipmentKey] [shipmentLog]
  have htags : ∀ c ∈ mergeEvidenceSources [shipmentKey] [shipmentLog],
      c.evidence ≠ [.foreignKey, .queryLog] := by decide
  obtain ⟨c, hc, -, -, hevidence⟩ := hone.corroborated _ (by simp) _ (by simp) shipments_same
  exact htags c hc hevidence

end SchemaBrain.Joins
