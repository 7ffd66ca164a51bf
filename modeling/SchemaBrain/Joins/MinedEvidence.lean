import SchemaBrain.Base.Python
import SchemaBrain.Joins.Respelling

/-!
# Mined evidence

The joins of a list of statements with the counts of the statements that contain them. The sort
tells two joins apart by their count and their tables, not by their columns, and the constructor
of a join keeps the sides of its pairs when both tables are the same.
-/

namespace SchemaBrain.Joins

open Base Core SqlNode

/-- `AggregatedJoin`. -/
structure AggregatedJoin where
  join : ExtractedJoin
  frequency : Nat
  deriving DecidableEq

/-- The key of the sort. -/
def evidenceKey (a : AggregatedJoin) : ℤ ×ₗ (String ×ₗ String) ×ₗ (String ×ₗ String) :=
  toLex (-(a.frequency : ℤ), toLex (tableKey a.join.a, tableKey a.join.b))

/-- `aggregate_join_predicates`. -/
def aggregateJoinPredicates (extractedWithCount : List (ExtractedJoin × Nat)) :
    List AggregatedJoin :=
  sortedBy evidenceKey ((dictTotals extractedWithCount).map fun item => ⟨item.1, item.2⟩)

/-- The joins of the statements one after the other, those of a statement in any order. -/
inductive Enumerates : List (SqlNode × Nat) → List (ExtractedJoin × Nat) → Prop
  | nil : Enumerates [] []
  | cons {statement : SqlNode} {count : Nat} {joins : List ExtractedJoin}
      {rest : List (SqlNode × Nat)} {items : List (ExtractedJoin × Nat)}
      (h : joins.Perm (extractJoinPredicates statement)) (hrest : Enumerates rest items) :
      Enumerates ((statement, count) :: rest) (joins.map (·, count) ++ items)

/-- The statements in another order, with other spellings of their ON clauses. -/
def RespelledStatements (statements statements' : List (SqlNode × Nat)) : Prop :=
  ∃ moved, statements.Perm moved ∧
    List.Forall₂ (fun s s' => Respelled false s.1 s'.1 ∧ s.2 = s'.2) moved statements'

/-- The evidence depends neither on the order of the statements and their joins nor on the
spelling of the ON clauses. -/
def SpellingFree (statements : List (SqlNode × Nat)) : Prop :=
  ∀ statements' items items', RespelledStatements statements statements' →
    Enumerates statements items → Enumerates statements' items' →
      aggregateJoinPredicates items' = aggregateJoinPredicates items

/-- Some statement contains the join. -/
def Observed (statements : List (SqlNode × Nat)) (e : ExtractedJoin) : Prop :=
  ∃ s ∈ statements, e ∈ extractJoinPredicates s.1

/-- The counts of the statements that contain the join. -/
def totalCount (statements : List (SqlNode × Nat)) (e : ExtractedJoin) : Nat :=
  ((statements.filter fun s => e ∈ extractJoinPredicates s.1).map (·.2)).sum

/-- Two joins of the same tables have different counts. -/
def NoTies (statements : List (SqlNode × Nat)) : Prop :=
  ∀ e e', Observed statements e → Observed statements e' → e.a = e'.a → e.b = e'.b →
    totalCount statements e = totalCount statements e' → e = e'

/-! ## The evidence of an enumeration -/

section Evidence

variable {statements statements' : List (SqlNode × Nat)} {items items' : List (ExtractedJoin × Nat)}
  {e e' : ExtractedJoin} {a : AggregatedJoin} {count : Nat}

theorem mem_aggregateJoinPredicates : a ∈ aggregateJoinPredicates items ↔
    a.join ∈ items.map Prod.fst ∧ a.frequency = countOf items a.join := by
  rw [aggregateJoinPredicates, mem_sortedBy, List.mem_map, ← mem_dictTotals]
  constructor
  · rintro ⟨item, hitem, rfl⟩
    exact hitem
  · exact fun h => ⟨_, h, rfl⟩

theorem nodup_aggregateJoinPredicates : (aggregateJoinPredicates items).Nodup := by
  rw [aggregateJoinPredicates, sortedBy_perm.nodup_iff]
  refine (List.Nodup.of_map _ nodup_dictTotals).map fun item item' h => ?_
  exact Prod.ext (congrArg AggregatedJoin.join h) (congrArg AggregatedJoin.frequency h)

private theorem countOf_append :
    countOf (items ++ items') e = countOf items e + countOf items' e := by
  simp [countOf]

theorem nodup_extractJoinPredicates {statement : SqlNode} :
    (extractJoinPredicates statement).Nodup := by
  unfold extractJoinPredicates
  split
  · exact List.nodup_nil
  · dsimp only
    split
    · exact List.nodup_nil
    · exact nodup_eraseDups _

private theorem countOf_joins {joins : List ExtractedJoin} (h : joins.Nodup) :
    countOf (joins.map (·, count)) e = if e ∈ joins then count else 0 := by
  induction joins with
  | nil => rfl
  | cons first joins ih =>
    obtain ⟨hfirst, hrest⟩ := List.nodup_cons.1 h
    have hcons : countOf ((first :: joins).map (·, count)) e =
        (if first = e then count else 0) + countOf (joins.map (·, count)) e := by
      by_cases heq : first = e <;> simp [countOf, heq]
    rw [hcons, ih hrest]
    by_cases heq : first = e
    · subst heq
      simp [hfirst]
    · simp [heq, Ne.symm heq]

theorem Enumerates.mem_iff (h : Enumerates statements items) :
    e ∈ items.map Prod.fst ↔ Observed statements e := by
  induction h with
  | nil => simp [Observed]
  | @cons statement count joins rest items hjoins _ ih =>
    rw [List.map_append, List.mem_append, ih, List.map_map]
    have hfst : Prod.fst ∘ (fun join : ExtractedJoin => (join, count)) = id := rfl
    rw [hfst, List.map_id, hjoins.mem_iff]
    simp [Observed]

theorem Enumerates.countOf_eq (h : Enumerates statements items) :
    countOf items e = totalCount statements e := by
  induction h with
  | nil => rfl
  | @cons statement count joins rest items hjoins _ ih =>
    rw [countOf_append, ih, countOf_joins (hjoins.nodup_iff.2 nodup_extractJoinPredicates),
      totalCount, totalCount]
    by_cases he : e ∈ extractJoinPredicates statement
    · rw [if_pos (hjoins.mem_iff.2 he), List.filter_cons_of_pos (by simpa using he)]
      simp
    · rw [if_neg (mt hjoins.mem_iff.1 he), List.filter_cons_of_neg (by simpa using he),
        Nat.zero_add]

/-- The evidence has the observed joins with their counts. -/
theorem Enumerates.mem_aggregate (h : Enumerates statements items) :
    a ∈ aggregateJoinPredicates items ↔
      Observed statements a.join ∧ a.frequency = totalCount statements a.join := by
  rw [mem_aggregateJoinPredicates, h.mem_iff, h.countOf_eq]

/-! ## Enough for the evidence to be free of the spelling -/

theorem evidenceKey_inj {a a' : AggregatedJoin} (h : evidenceKey a = evidenceKey a') :
    a.frequency = a'.frequency ∧ a.join.a = a'.join.a ∧ a.join.b = a'.join.b := by
  obtain ⟨hfrequency, htables⟩ := Prod.mk.inj (toLex_inj.1 h)
  obtain ⟨ha, hb⟩ := Prod.mk.inj (toLex_inj.1 htables)
  exact ⟨by omega, tableKey_inj ha, tableKey_inj hb⟩

/-- Evidence without ties depends only on what is observed, and how often. -/
theorem aggregate_eq_of_counts (hties : NoTies statements) (h : Enumerates statements items)
    (h' : Enumerates statements' items')
    (hobserved : ∀ e, Observed statements' e ↔ Observed statements e)
    (hcounts : ∀ e, Observed statements e → totalCount statements' e = totalCount statements e) :
    aggregateJoinPredicates items' = aggregateJoinPredicates items := by
  have hmem : ∀ a, a ∈ aggregateJoinPredicates items' ↔ a ∈ aggregateJoinPredicates items := by
    intro a
    rw [h.mem_aggregate, h'.mem_aggregate, hobserved]
    exact and_congr_right fun ha => by rw [hcounts _ ha]
  have hperm := (List.perm_ext_iff_of_nodup nodup_aggregateJoinPredicates
    nodup_aggregateJoinPredicates).2 hmem
  refine hperm.eq_of_pairwise (fun a a' ha ha' hle hge => ?_) pairwise_sortedBy pairwise_sortedBy
  obtain ⟨hfrequency, htables⟩ := evidenceKey_inj (le_antisymm hle hge)
  obtain ⟨hseen, htotal⟩ := h.mem_aggregate.1 ((hmem a).1 ha)
  obtain ⟨hseen', htotal'⟩ := h.mem_aggregate.1 ha'
  have hjoin := hties _ _ hseen hseen' htables.1 htables.2 (by rw [← htotal, ← htotal', hfrequency])
  cases a
  cases a'
  simp_all only

section Spelling

variable {s s' : SqlNode}

/-- The JOIN nodes of a statement have the same equalities in its spelling. -/
private theorem exists_join_respelled {join : SqlNode} (h : Respelled false s s')
    (hnames : lastNamed s' = lastNamed s) (hbelow : s.Below join) (hjoin : join.isJoin = true) :
    ∃ join', s'.Below join' ∧ join'.isJoin = true ∧
      ((statementEqualities s join).map unordered).Perm
        ((statementEqualities s' join').map unordered) := by
  obtain ⟨args, rfl⟩ := exists_joinNode hjoin
  obtain ⟨args', hbelow', hargs⟩ := h.hasSpelling hbelow
  refine ⟨_, hbelow', rfl, ?_⟩
  rw [statementEqualities, statementEqualities, hnames]
  exact joinPairs_perm hargs

private theorem ne_nil_of_perm {α : Type} {pairs pairs' : List (α × α)} (h : pairs ≠ [])
    (hperm : (pairs.map unordered).Perm (pairs'.map unordered)) : pairs' ≠ [] := by
  rintro rfl
  rw [List.map_nil, List.perm_nil, List.map_eq_nil_iff] at hperm
  exact h hperm

/-- A statement and its spelling contain the same joins. -/
theorem mem_extract_respelled (h : Respelled false s s')
    (hnames : s.kind = .select → lastNamed s' = lastNamed s)
    (hself : ∀ e ∈ extractJoinPredicates s, SelfPairsEqual e) :
    e ∈ extractJoinPredicates s' ↔ e ∈ extractJoinPredicates s := by
  by_cases hselect : s.kind = .select
  · have hselect' : s'.kind = .select := h.kind_eq ▸ hselect
    rw [mem_extractJoinPredicates hselect, mem_extractJoinPredicates hselect']
    constructor
    · rintro ⟨join', hbelow', hjoin', hne', hreads'⟩
      obtain ⟨join, hbelow, hjoin, hperm⟩ :=
        exists_join_respelled h.symm (hnames hselect).symm hbelow' hjoin'
      have hne := ne_nil_of_perm hne' hperm
      -- The join that the statement has here is read from both spellings.
      obtain ⟨e₀, hreads⟩ := exists_reads hne (links_respelled hreads'.links hperm)
      have hmem := (mem_extractJoinPredicates hselect).2 ⟨join, hbelow, hjoin, hne, hreads⟩
      have heq := (hreads.respelled (hself e₀ hmem) hperm.symm).unique hne' hreads'
      exact ⟨join, hbelow, hjoin, hne, heq ▸ hreads⟩
    · rintro ⟨join, hbelow, hjoin, hne, hreads⟩
      obtain ⟨join', hbelow', hjoin', hperm⟩ :=
        exists_join_respelled h (hnames hselect) hbelow hjoin
      have hmem := (mem_extractJoinPredicates hselect).2 ⟨join, hbelow, hjoin, hne, hreads⟩
      exact ⟨join', hbelow', hjoin', ne_nil_of_perm hne hperm,
        hreads.respelled (hself e hmem) hperm⟩
  · have hselect' : s'.kind ≠ .select := h.kind_eq ▸ hselect
    simp [extractJoinPredicates, hselect, hselect']

end Spelling

private theorem totalCount_moved {moved : List (SqlNode × Nat)} (h : statements.Perm moved) :
    totalCount moved e = totalCount statements e :=
  ((h.symm.filter _).map _).sum_eq

/-- Statements with other spellings and the same joins observe the same. -/
private theorem counts_respelled
    (h : List.Forall₂ (fun s s' : SqlNode × Nat =>
      (∀ e, e ∈ extractJoinPredicates s'.1 ↔ e ∈ extractJoinPredicates s.1) ∧ s.2 = s'.2)
      statements statements') :
    (Observed statements' e ↔ Observed statements e) ∧
      totalCount statements' e = totalCount statements e := by
  induction h with
  | nil => exact ⟨Iff.rfl, rfl⟩
  | @cons s s' rest rest' hs _ ih =>
    obtain ⟨hjoins, hcount⟩ := hs
    refine ⟨?_, ?_⟩
    · rw [Observed, Observed, List.exists_mem_cons_iff, List.exists_mem_cons_iff, hjoins]
      exact or_congr_right ih.1
    · have hrest := ih.2
      rw [totalCount, totalCount] at hrest ⊢
      by_cases he : e ∈ extractJoinPredicates s.1
      · rw [List.filter_cons_of_pos (by simpa using (hjoins e).2 he),
          List.filter_cons_of_pos (by simpa using he), List.map_cons, List.map_cons,
          List.sum_cons, List.sum_cons, hrest, hcount]
      · rw [List.filter_cons_of_neg (by simpa using mt (hjoins e).1 he),
          List.filter_cons_of_neg (by simpa using he), hrest]

theorem spellingFree_of_noTies (hsettled : ∀ s ∈ statements, NamesSettled s.1)
    (hself : ∀ e, Observed statements e → SelfPairsEqual e) (hties : NoTies statements) :
    SpellingFree statements := by
  rintro statements' items items' ⟨moved, hmoved, hrespelled⟩ h h'
  have hsame : List.Forall₂ (fun s s' : SqlNode × Nat =>
      (∀ e, e ∈ extractJoinPredicates s'.1 ↔ e ∈ extractJoinPredicates s.1) ∧ s.2 = s'.2)
      moved statements' := by
    have hall : ∀ s ∈ moved,
        NamesSettled s.1 ∧ ∀ e ∈ extractJoinPredicates s.1, SelfPairsEqual e := by
      intro s hs
      have hmem := hmoved.mem_iff.2 hs
      exact ⟨hsettled s hmem, fun e he => hself e ⟨s, hmem, he⟩⟩
    refine ((List.forall₂_and_left _ _).2 ⟨hall, hrespelled⟩).imp ?_
    rintro s s' ⟨⟨hs, hjoins⟩, hspelling, hcount⟩
    have hnames := fun hselect => lastNamed_respelled hspelling hselect hs
    exact ⟨fun e => mem_extract_respelled hspelling hnames hjoins, hcount⟩
  refine aggregate_eq_of_counts hties h h' (fun e => ?_) fun e _ => ?_
  · rw [(counts_respelled hsame).1]
    exact exists_congr fun s => and_congr_left fun _ => hmoved.symm.mem_iff
  · rw [(counts_respelled hsame).2, totalCount_moved hmoved]

/-! ## Ties -/

theorem respelledStatements_of_perm (h : statements.Perm statements') :
    RespelledStatements statements statements' :=
  ⟨statements', h, List.forall₂_same.2 fun _ _ => ⟨.refl _, rfl⟩⟩

theorem exists_enumerates (statements : List (SqlNode × Nat)) :
    ∃ items, Enumerates statements items := by
  induction statements with
  | nil => exact ⟨[], .nil⟩
  | cons s rest ih =>
    obtain ⟨items, hitems⟩ := ih
    exact ⟨_, .cons (.refl _) hitems⟩

/-- An observed join can come first. -/
private theorem exists_enumerates_first (he : Observed statements e) :
    ∃ moved count items, statements.Perm moved ∧ Enumerates moved ((e, count) :: items) := by
  obtain ⟨s, hs, hjoin⟩ := he
  obtain ⟨before, after, rfl⟩ := List.append_of_mem hs
  obtain ⟨items, hitems⟩ := exists_enumerates (before ++ after)
  have hjoins : (e :: (extractJoinPredicates s.1).erase e).Perm (extractJoinPredicates s.1) :=
    (List.perm_cons_erase hjoin).symm
  exact ⟨s :: (before ++ after), s.2, _, List.perm_middle, .cons hjoins hitems⟩

/-- Of two joins with the same key, the one that came first stays first. -/
private theorem sublist_aggregate (h : Enumerates statements ((e, count) :: items))
    (he' : Observed statements e') (hne : e ≠ e') (ha : e.a = e'.a) (hb : e.b = e'.b)
    (htie : totalCount statements e = totalCount statements e') :
    List.Sublist [⟨e, totalCount statements e⟩, ⟨e', totalCount statements e'⟩]
      (aggregateJoinPredicates ((e, count) :: items)) := by
  obtain ⟨rest, hrest⟩ := @dictTotals_cons _ _ e items count
  rw [h.countOf_eq] at hrest
  have hlater : (e', totalCount statements e') ∈ rest := by
    have hmem : (e', totalCount statements e') ∈ dictTotals ((e, count) :: items) :=
      mem_dictTotals.2 ⟨h.mem_iff.2 he', h.countOf_eq.symm⟩
    rw [hrest, List.mem_cons] at hmem
    exact hmem.resolve_left fun heq => hne (congrArg Prod.fst heq).symm
  have hmapped : (⟨e', totalCount statements e'⟩ : AggregatedJoin) ∈
      rest.map fun item => (⟨item.1, item.2⟩ : AggregatedJoin) :=
    List.mem_map.2 ⟨_, hlater, rfl⟩
  rw [aggregateJoinPredicates, hrest, List.map_cons]
  refine sublist_sortedBy ?_ ((List.singleton_sublist.2 hmapped).cons_cons _)
  simp only [evidenceKey, htie, ha, hb]

theorem noTies_of_spellingFree (h : SpellingFree statements) : NoTies statements := by
  intro e e' he he' ha hb htie
  by_contra hne
  obtain ⟨moved, count, items, hperm, hitems⟩ := exists_enumerates_first he
  obtain ⟨moved', count', items', hperm', hitems'⟩ := exists_enumerates_first he'
  have hobserved : ∀ {moved : List (SqlNode × Nat)} {e : ExtractedJoin}, statements.Perm moved →
      Observed statements e → Observed moved e :=
    fun hperm he => he.imp fun _ hs => ⟨hperm.mem_iff.1 hs.1, hs.2⟩
  have hfirst := sublist_aggregate hitems (hobserved hperm he') hne ha hb (by
    rw [totalCount_moved hperm, totalCount_moved hperm, htie])
  have hfirst' := sublist_aggregate hitems' (hobserved hperm' he) (Ne.symm hne) ha.symm hb.symm (by
    rw [totalCount_moved hperm', totalCount_moved hperm', htie])
  rw [totalCount_moved hperm, totalCount_moved hperm] at hfirst
  rw [totalCount_moved hperm', totalCount_moved hperm'] at hfirst'
  obtain ⟨start, hstart⟩ := exists_enumerates statements
  rw [h _ _ _ (respelledStatements_of_perm hperm) hstart hitems] at hfirst
  rw [h _ _ _ (respelledStatements_of_perm hperm') hstart hitems'] at hfirst'
  exact not_sublist_swap nodup_aggregateJoinPredicates hfirst hfirst'

/-! ## Joins of a table with itself -/

section Turned

variable (names : String → Option QualifiedTable) (lhs rhs : ColEndpoint)

/-- The sides of an equality name these columns in this order. -/
def NamesPair (left right : SqlNode) : Prop :=
  endpoint names left = some lhs ∧ endpoint names right = some rhs

instance (left right : SqlNode) : Decidable (NamesPair names lhs rhs left right) :=
  inferInstanceAs (Decidable (_ ∧ _))

mutual

/-- The tree with the equalities of its ON clauses that name the columns in this order turned. -/
def turned : Bool → SqlNode → SqlNode
  | _, .node kind args => .node kind (turnedArgs kind args)
  | chain, .and left right => .and (turned chain left) (turned chain right)
  | chain, .paren this => .paren (turned chain this)
  | chain, .eq left right =>
    if chain = true ∧ NamesPair names lhs rhs left right then
      .eq (turned false right) (turned false left)
    else .eq (turned false left) (turned false right)

/-- The arguments of a turned node. -/
def turnedArgs (kind : SqlKind) : List (String × SqlNode) → List (String × SqlNode)
  | [] => []
  | (key, child) :: rest => (key, turned (isOn kind key) child) :: turnedArgs kind rest

end

variable {names lhs rhs} {chain : Bool} {n m : SqlNode} {kind : SqlKind}

theorem turnedArgs_eq_map (args : List (String × SqlNode)) : turnedArgs names lhs rhs kind args =
    args.map fun item => (item.1, turned names lhs rhs (isOn kind item.1) item.2) := by
  induction args with
  | nil => rfl
  | cons item args ih =>
    obtain ⟨key, child⟩ := item
    rw [turnedArgs, ih, List.map_cons]

mutual

theorem respelled_turned : ∀ (chain : Bool) (n : SqlNode),
    Respelled chain n (turned names lhs rhs chain n)
  | chain, .node kind args => by
    rw [turned]
    exact respelled_turnedArgs [] args
  | chain, .and left right => by
    rw [turned]
    exact (Respelled.andLeft (respelled_turned chain left)).trans
      (.andRight (respelled_turned chain right))
  | chain, .paren this => by
    rw [turned]
    exact .paren (respelled_turned chain this)
  | chain, .eq left right => by
    have hsides : Respelled chain (.eq left right)
        (.eq (turned names lhs rhs false left) (turned names lhs rhs false right)) :=
      (Respelled.eqLeft (respelled_turned false left)).trans
        (.eqRight (respelled_turned false right))
    rw [turned]
    split
    · next h =>
      obtain ⟨rfl, -⟩ := h
      exact hsides.trans (.swap _ _)
    · exact hsides

theorem respelled_turnedArgs {chain : Bool} {kind : SqlKind} (before : List (String × SqlNode)) :
    ∀ args : List (String × SqlNode), Respelled chain (.node kind (before ++ args))
      (.node kind (before ++ turnedArgs names lhs rhs kind args))
  | [] => .refl _
  | (key, child) :: rest => by
    have hrest : Respelled chain
        (.node kind (before ++ [(key, turned names lhs rhs (isOn kind key) child)] ++ rest))
        (.node kind (before ++ [(key, turned names lhs rhs (isOn kind key) child)] ++
          turnedArgs names lhs rhs kind rest)) := respelled_turnedArgs _ rest
    rw [List.append_assoc, List.append_assoc, List.singleton_append, List.singleton_append] at hrest
    rw [turnedArgs]
    exact (Respelled.arg (respelled_turned _ child)).trans hrest

end

private theorem endpoint_turned :
    endpoint names (turned names lhs rhs chain n) = endpoint names n := by
  rw [endpoint, endpoint, columnRef_congr (respelled_turned chain n)]

/-- No equality of a turned ON clause names the columns in this order. -/
theorem not_namesPair_turned (hne : lhs ≠ rhs) {eq : SqlNode × SqlNode}
    (heq : eq ∈ andEqualities (turned names lhs rhs true n)) :
    ¬ NamesPair names lhs rhs eq.1 eq.2 := by
  induction n using andEqualities.induct with
  | case1 left right ihl ihr =>
    rw [turned, andEqualities, List.mem_append] at heq
    exact heq.elim ihl ihr
  | case2 this ih =>
    rw [turned, andEqualities] at heq
    exact ih heq
  | case3 left right =>
    rw [turned] at heq
    split at heq
    · next h =>
      rw [andEqualities, List.mem_singleton] at heq
      rintro ⟨hleft, -⟩
      rw [heq, endpoint_turned, h.2.2, Option.some.injEq] at hleft
      exact hne hleft.symm
    · next h =>
      rw [andEqualities, List.mem_singleton] at heq
      rintro ⟨hleft, hright⟩
      rw [heq, endpoint_turned] at hleft hright
      exact h ⟨rfl, hleft, hright⟩
  | case4 kind args =>
    rw [turned, andEqualities] at heq
    cases heq

/-- What stands in a turned tree is turned. -/
theorem below_turned (h : (turned names lhs rhs chain n).Below m) :
    ∃ chain' c, m = turned names lhs rhs chain' c := by
  induction h with
  | refl => exact ⟨chain, n, rfl⟩
  | child _ hc ih =>
    obtain ⟨chain', c, rfl⟩ := ih
    cases c with
    | node kind args =>
      rw [turned, turnedArgs_eq_map, children, List.map_map] at hc
      obtain ⟨item, -, rfl⟩ := List.mem_map.1 hc
      exact ⟨_, _, rfl⟩
    | and left right =>
      rw [turned] at hc
      rcases List.mem_pair.1 hc with rfl | rfl
      · exact ⟨_, _, rfl⟩
      · exact ⟨_, _, rfl⟩
    | paren this =>
      rw [turned] at hc
      exact ⟨_, _, List.mem_singleton.1 hc⟩
    | eq left right =>
      rw [turned] at hc
      split at hc
      · rcases List.mem_pair.1 hc with rfl | rfl
        · exact ⟨_, _, rfl⟩
        · exact ⟨_, _, rfl⟩
      · rcases List.mem_pair.1 hc with rfl | rfl
        · exact ⟨_, _, rfl⟩
        · exact ⟨_, _, rfl⟩

theorem mem_columnPairs {pair : ColEndpoint × ColEndpoint} : pair ∈ columnPairs names n ↔
    ∃ eq ∈ andEqualities n, NamesPair names pair.1 pair.2 eq.1 eq.2 := by
  rw [columnPairs, List.mem_filterMap]
  refine exists_congr fun eq => and_congr_right fun _ => ?_
  unfold NamesPair
  cases endpoint names eq.1 <;> cases endpoint names eq.2 <;> simp [Prod.ext_iff]

/-- No JOIN node of a turned tree has the equality in this order. -/
theorem pair_notMem_turned (hne : lhs ≠ rhs) {join : SqlNode}
    (hbelow : (turned names lhs rhs chain n).Below join) (hjoin : join.isJoin = true) :
    (lhs, rhs) ∉ joinPairs names join := by
  intro hmem
  obtain ⟨args', rfl⟩ := exists_joinNode hjoin
  obtain ⟨chain', c, hc⟩ := below_turned hbelow
  cases c with
  | node kind args =>
    rw [turned, turnedArgs_eq_map] at hc
    obtain ⟨rfl, rfl⟩ := SqlNode.node.inj hc
    rw [joinPairs, arg, List.find?_map] at hmem
    cases hfind : args.find? (fun item => decide (item.1 = "on")) with
    | none => simp [Function.comp_def, hfind] at hmem
    | some item =>
      have hkey : item.1 = "on" := by simpa using List.find?_some hfind
      have hpair : (lhs, rhs) ∈ columnPairs names (turned names lhs rhs true item.2) := by
        simpa [Function.comp_def, hfind, isOn, hkey] using hmem
      obtain ⟨eq, heq, hnamed⟩ := mem_columnPairs.1 hpair
      exact not_namesPair_turned hne heq hnamed
  | and left right => rw [turned] at hc; cases hc
  | paren this => rw [turned] at hc; cases hc
  | eq left right =>
    rw [turned] at hc
    split at hc <;> cases hc

end Turned

/-- A join of a table with itself that has these columns is not in the turned statement. -/
private theorem not_mem_extract_turned {s : SqlNode} {T : QualifiedTable} {p : String × String}
    (hsettled : NamesSettled s) (hp : p.1 ≠ p.2) (ha : e.a = T) (hb : e.b = T)
    (hmem : p ∈ e.pairs) :
    e ∉ extractJoinPredicates (turned (lastNamed s) (p.1, T) (p.2, T) false s) := by
  intro he
  have hspelling := @respelled_turned (lastNamed s) (p.1, T) (p.2, T) false s
  by_cases hselect : s.kind = .select
  · obtain ⟨join, hbelow, hjoin, -, hreads⟩ :=
      (mem_extractJoinPredicates (hspelling.kind_eq ▸ hselect)).1 he
    rw [statementEqualities, lastNamed_respelled hspelling hselect hsettled] at hreads
    rw [hreads.pairs_eq, mem_sortedBy, List.mem_map] at hmem
    obtain ⟨pair, hpair, rfl⟩ := hmem
    have hne : ((orient e.a pair).1, T) ≠ ((orient e.a pair).2, T) :=
      fun heq => hp (Prod.mk.inj heq).1
    have hlinks : Links T T pair := by
      have hpairLinks := hreads.links pair hpair
      rwa [ha, hb] at hpairLinks
    refine pair_notMem_turned hne hbelow hjoin ?_
    rw [ha, ← eq_orient_of_links hlinks]
    exact hpair
  · have hselect' := hspelling.kind_eq ▸ hselect
    simp [extractJoinPredicates, hselect'] at he

theorem selfPairsEqual_of_spellingFree (hsettled : ∀ s ∈ statements, NamesSettled s.1)
    (h : SpellingFree statements) (he : Observed statements e) : SelfPairsEqual e := by
  intro hab p hp
  by_contra hne
  let turnedStatements := statements.map fun s =>
    (turned (lastNamed s.1) (p.1, e.a) (p.2, e.a) false s.1, s.2)
  have hrespelled : RespelledStatements statements turnedStatements := by
    refine ⟨statements, .refl _, List.forall₂_map_right_iff.2 (List.forall₂_same.2 fun s _ => ?_)⟩
    exact ⟨respelled_turned _ _, rfl⟩
  obtain ⟨items, hitems⟩ := exists_enumerates statements
  obtain ⟨items', hitems'⟩ := exists_enumerates turnedStatements
  have hmem : ⟨e, totalCount statements e⟩ ∈ aggregateJoinPredicates items :=
    hitems.mem_aggregate.2 ⟨he, rfl⟩
  rw [← h _ _ _ hrespelled hitems hitems', hitems'.mem_aggregate] at hmem
  obtain ⟨⟨s', hs', hextracted⟩, -⟩ := hmem
  obtain ⟨s, hs, rfl⟩ := List.mem_map.1 hs'
  exact not_mem_extract_turned (hsettled s hs) hne rfl hab.symm hp hextracted

/-- Over statements with settled names, the evidence is free of the spelling and the order if and
only if the joins of a table with itself have equal columns and no two joins of the same tables
have the same count. -/
theorem spellingFree_iff (hsettled : ∀ s ∈ statements, NamesSettled s.1) : SpellingFree statements ↔
    (∀ e, Observed statements e → SelfPairsEqual e) ∧ NoTies statements := by
  constructor
  · intro h
    exact ⟨fun e => selfPairsEqual_of_spellingFree hsettled h, noTies_of_spellingFree h⟩
  · rintro ⟨hself, hties⟩
    exact spellingFree_of_noTies hsettled hself hties

/-- The join of `ordersStatement`. -/
private def ordersJoin : ExtractedJoin where
  a := ⟨"public", "orders"⟩
  b := ⟨"public", "users"⟩
  pairs := [("user_id", "id")]
  pairs_ne_nil := List.cons_ne_nil _ _
  directed := by decide
  sorted := List.pairwise_singleton _ _

theorem spellingFree_iff_orders : SpellingFree [(ordersStatement, 7)] := by
  have hextract : extractJoinPredicates ordersStatement = [ordersJoin] := by decide
  have honly : ∀ e, Observed [(ordersStatement, 7)] e → e = ordersJoin := by
    rintro e ⟨s, hs, he⟩
    rw [List.mem_singleton.1 hs, hextract] at he
    exact List.mem_singleton.1 he
  refine (spellingFree_iff fun s hs => ?_).2 ⟨fun e he => ?_, fun e e' he he' _ _ _ => ?_⟩
  · rw [List.mem_singleton.1 hs]
    have hnone : onNames ordersStatement = [] := rfl
    simp [NamesSettled, hnone]
  · rw [honly e he]
    exact fun hsame => absurd hsame (by decide)
  · rw [honly e he, honly e' he']

/-- `SELECT * FROM orders o JOIN addresses b ON o.billing_id = b.id JOIN addresses s
ON o.shipping_id = s.id`. -/
def addressesStatement : SqlNode :=
  .node .select [("from", .node .other [("this", tableNode "orders" "o")]),
    ("joins", .node .join [("this", tableNode "addresses" "b"),
      ("on", .eq (columnNode "o" "billing_id") (columnNode "b" "id"))]),
    ("joins", .node .join [("this", tableNode "addresses" "s"),
      ("on", .eq (columnNode "o" "shipping_id") (columnNode "s" "id"))])]

/-- A join of `addressesStatement`. -/
private def addressesJoin (column : String) : ExtractedJoin where
  a := ⟨"public", "addresses"⟩
  b := ⟨"public", "orders"⟩
  pairs := [("id", column)]
  pairs_ne_nil := List.cons_ne_nil _ _
  directed := by decide
  sorted := List.pairwise_singleton _ _

/-- The two joins of one statement come out in the order of the set. -/
theorem not_spellingFree : ¬ SpellingFree [(addressesStatement, 5)] := by
  intro h
  have hextract : extractJoinPredicates addressesStatement =
      [addressesJoin "billing_id", addressesJoin "shipping_id"] := by decide
  have hfirst : [addressesJoin "billing_id", addressesJoin "shipping_id"].Perm
      (extractJoinPredicates addressesStatement) := by rw [hextract]
  have hlast : [addressesJoin "shipping_id", addressesJoin "billing_id"].Perm
      (extractJoinPredicates addressesStatement) := by
    rw [hextract]
    exact .swap _ _ _
  have hbilling : Enumerates [(addressesStatement, 5)]
      [(addressesJoin "billing_id", 5), (addressesJoin "shipping_id", 5)] := .cons hfirst .nil
  have hshipping : Enumerates [(addressesStatement, 5)]
      [(addressesJoin "shipping_id", 5), (addressesJoin "billing_id", 5)] := .cons hlast .nil
  exact absurd (h _ _ _ (respelledStatements_of_perm (.refl _)) hbilling hshipping)
    (by decide)

end Evidence

end SchemaBrain.Joins
