import SchemaBrain.Base.Placeholder
import SchemaBrain.Semantic.Emit
import SchemaBrain.Semantic.OrderBy

/-!
# The characters of the statement

Every name in the text of a resolved plan is an identifier. So the text has no semicolon,
and its colons are those of the placeholders.
-/

namespace SchemaBrain.Semantic

open Base Core

/-! ## Texts without marks -/

/-- The marks that no name and no keyword has. -/
def marks : List Char := [';', ':']

/-- A text without marks. -/
def Markless (text : String) : Prop := ∀ c ∈ marks, c ∉ text.toList

instance (text : String) : Decidable (Markless text) :=
  inferInstanceAs (Decidable (∀ c ∈ marks, c ∉ text.toList))

theorem markless_append {text text' : String} :
    Markless (text ++ text') ↔ Markless text ∧ Markless text' := by
  simp only [Markless, String.toList_append, List.mem_append, not_or]
  exact ⟨fun h => ⟨fun c hc => (h c hc).1, fun c hc => (h c hc).2⟩,
    fun h c hc => ⟨h.1 c hc, h.2 c hc⟩⟩

theorem markless_intercalate {sep : String} {texts : List String} (hsep : Markless sep)
    (h : ∀ text ∈ texts, Markless text) : Markless (sep.intercalate texts) := by
  intro c hc hmem
  rcases mem_toList_intercalate hmem with hmem | ⟨text, htext, hmem⟩
  · exact hsep c hc hmem
  · exact h text htext c hc hmem

theorem markless_of_all {text : String} {p : Char → Bool} (h : text.toList.all p = true)
    (hp : ∀ c ∈ marks, p c = false) : Markless text := by
  intro c hc hmem
  exact absurd (List.all_eq_true.1 h c hmem) (by simp [hp c hc])

theorem markless_of_isIdent {name : String} (h : isIdent name = true) : Markless name := by
  intro c hc hmem
  have hchar := isIdentChar_of_mem h hmem
  rcases List.mem_cons.1 hc with rfl | hc
  · exact absurd hchar (by decide)
  · obtain rfl := List.mem_singleton.1 hc
    exact absurd hchar (by decide)

theorem markless_toString (n : Nat) : Markless (toString n) :=
  markless_of_all (isIdentChar_digits n) (by decide)

/-! ## Names -/

/-- The names of a column reference are identifiers. -/
def ColumnRef.Named (ref : ColumnRef) : Prop :=
  isIdent ref.aliasName = true ∧ isIdent ref.column = true

/-- The names of a table are identifiers. -/
def Named (table : QualifiedTable) : Prop :=
  isIdent table.schema = true ∧ isIdent table.table = true

/-- The names of a SELECT item are identifiers. -/
def SelectItem.Named : SelectItem → Prop
  | timeBucket _ column => column.Named
  | groupColumn column _ => column.Named
  | measure _ anchorAlias metricName => isIdent anchorAlias = true ∧ isIdent metricName = true

/-- The placeholders of a predicate are those that its text has room for. -/
structure WhereClause.Bound (clause : WhereClause) : Prop where
  chars : ∀ name ∈ clause.paramNames, name.toList.all isNameChar = true
  unary : clause.op.isUnary = true → clause.paramNames = []
  scalar : clause.op.isUnary = false → clause.op.isList = false →
    ∃ name, clause.paramNames = [name]

/-- Every name in a statement is an identifier. -/
structure Query.Named (q : Query) : Prop where
  select : ∀ item ∈ q.select, item.Named
  anchorTable : Semantic.Named q.anchorTable
  anchorAlias : isIdent q.anchorAlias = true
  joins : ∀ clause ∈ q.joins, Semantic.Named clause.table ∧ isIdent clause.aliasName = true ∧
    ∀ p ∈ clause.on, p.1.Named ∧ p.2.Named
  filters : ∀ clause ∈ q.filters, clause.column.Named ∧ clause.Bound
  groupBy : ∀ name ∈ q.groupBy, isIdent name = true
  orderBy : ∀ o ∈ q.orderBy, isIdent o.expression = true

section Markless

theorem markless_quoted {name : String} (h : isIdent name = true) : Markless (quoted name) := by
  rw [quoted, markless_append, markless_append]
  exact ⟨⟨by decide, markless_of_isIdent h⟩, by decide⟩

theorem ColumnRef.Named.markless {ref : ColumnRef} (h : ref.Named) : Markless ref.sql := by
  rw [ColumnRef.sql, markless_append, markless_append]
  exact ⟨⟨markless_quoted h.1, by decide⟩, markless_quoted h.2⟩

theorem Named.markless {table : QualifiedTable} (h : Named table) :
    Markless (quoteQualifiedTable table) := by
  rw [quoteQualifiedTable, markless_append, markless_append]
  exact ⟨⟨markless_quoted h.1, by decide⟩, markless_quoted h.2⟩

theorem markless_groupColAlias (index : Nat) : Markless (groupColAlias index) := by
  rw [groupColAlias, markless_append]
  exact ⟨by decide, markless_toString index⟩

theorem markless_measureExpression {anchorAlias : String} (halias : isIdent anchorAlias = true)
    {ast : MeasureExpr} (h : ∀ name ∈ ast.columns, isIdent name = true) :
    Markless (renderMeasureExpression anchorAlias ast) := by
  induction ast with
  | name id => exact ColumnRef.Named.markless ⟨halias, h id (by simp [MeasureExpr.columns])⟩
  | int value => exact markless_toString value
  | float repr => exact markless_of_all repr.plain (by decide)
  | binOp left op right ihleft ihright =>
    have hleft := ihleft fun name hname => h name (List.mem_append_left _ hname)
    have hright := ihright fun name hname => h name (List.mem_append_right _ hname)
    have hop : Markless op.sql := by cases op <;> decide
    simp only [renderMeasureExpression, markless_append, hleft, hright, hop]
    decide
  | neg operand ih =>
    simp only [renderMeasureExpression, markless_append, ih h]
    decide

private theorem markless_aggregate (agg : AggFunction) {operand : String}
    (h : Markless operand) :
    Markless (if agg = .countDistinct then "count(DISTINCT " ++ operand ++ ")"
      else agg.word ++ "(" ++ operand ++ ")") := by
  have hagg : Markless agg.word := by cases agg <;> decide
  split
  · simp only [markless_append, h]
    decide
  · simp only [markless_append, h, hagg]
    decide

theorem SelectItem.Named.markless {item : SelectItem} (h : item.Named) : Markless item.sql := by
  cases item with
  | timeBucket grain column =>
    have hgrain : Markless grain.word := by cases grain <;> decide
    have hcolumn : Markless column.sql := ColumnRef.Named.markless h
    simp only [SelectItem.sql, markless_append, hgrain, hcolumn]
    decide
  | groupColumn column index =>
    have hcolumn : Markless column.sql := ColumnRef.Named.markless h
    simp only [SelectItem.sql, markless_append, hcolumn, markless_groupColAlias]
    decide
  | measure m anchorAlias metricName =>
    obtain ⟨halias, hname⟩ := h
    have hcolumns : ∀ name ∈ m.ref.columns, isIdent name = true :=
      List.all_eq_true.1 m.columns_ident
    simp only [SelectItem.sql]
    rw [markless_append, markless_append]
    refine ⟨⟨?_, by decide⟩, markless_quoted hname⟩
    cases hm : m.ref with
    | column name =>
      have hname : isIdent name = true := hcolumns name (by simp [hm, MeasureRef.columns])
      exact markless_aggregate m.agg (ColumnRef.Named.markless ⟨halias, hname⟩)
    | expression ast =>
      have hast : ∀ name ∈ ast.columns, isIdent name = true := by
        simpa only [hm, MeasureRef.columns] using hcolumns
      exact markless_aggregate m.agg (markless_measureExpression halias hast)

theorem markless_join {clause : JoinClause} (htable : Named clause.table)
    (halias : isIdent clause.aliasName = true) (hon : ∀ p ∈ clause.on, p.1.Named ∧ p.2.Named) :
    Markless clause.sql := by
  have hpairs : Markless (" AND ".intercalate
      (clause.on.map fun p => p.1.sql ++ " = " ++ p.2.sql)) := by
    refine markless_intercalate (by decide) fun text htext => ?_
    obtain ⟨p, hp, rfl⟩ := List.mem_map.1 htext
    simp only [markless_append, (hon p hp).1.markless, (hon p hp).2.markless]
    decide
  simp only [JoinClause.sql, markless_append, htable.markless, markless_quoted halias, hpairs]
  decide

end Markless

/-! ## Lines -/

/-- The text of a predicate after its column and operator. -/
def WhereClause.tail (clause : WhereClause) : String :=
  if clause.op.isUnary then ""
  else if clause.op.isList then
    " (" ++ ", ".intercalate (clause.paramNames.map (":" ++ ·)) ++ ")"
  else " :" ++ clause.paramNames.headD ""

namespace WhereClause.Bound

variable {clause : WhereClause} (h : clause.Bound)

include h

private theorem placeholders_colonName {name : String} (hname : name ∈ clause.paramNames) :
    placeholders (":" ++ name).toList = [name] := by
  rw [String.toList_append]
  exact (placeholders_colon (h.chars name hname)).trans (by rw [String.ofList_toList])

theorem placeholders_tail : placeholders clause.tail.toList = clause.paramNames := by
  unfold tail
  split
  · next hunary => rw [h.unary hunary]; rfl
  · next hunary =>
    split
    · have hstop : StopsName ")".toList := stopsName_cons (by decide)
      have hlast : placeholders ")".toList = [] := placeholders_of_not_mem (by decide)
      have hitems := placeholders_intercalate (show ", ".toList = [',', ' '] from rfl) (by decide)
        (by decide) (clause.paramNames.map (":" ++ ·))
      rw [String.toList_append, String.toList_append, List.append_assoc,
        placeholders_append_of_not_mem (by decide), placeholders_append hstop, hlast,
        List.append_nil, hitems, List.flatMap_map]
      calc clause.paramNames.flatMap (fun name => placeholders (":" ++ name).toList)
          = clause.paramNames.flatMap fun name => [name] :=
            List.flatMap_congr fun name hname => h.placeholders_colonName hname
        _ = clause.paramNames := List.flatMap_singleton' _
    · next hlist =>
      obtain ⟨name, hname⟩ := h.scalar (by simpa using hunary) (by simpa using hlist)
      rw [hname, List.headD_cons]
      have hcolon : (" :" ++ name).toList = " ".toList ++ (":" ++ name).toList := by
        simp only [String.toList_append]
        rfl
      rw [hcolon, placeholders_append_of_not_mem (by decide),
        h.placeholders_colonName (hname ▸ List.mem_cons_self)]

theorem placeholders_sql (hcolumn : clause.column.Named) :
    placeholders clause.sql.toList = clause.paramNames := by
  have hop : Markless clause.op.sql := by cases clause.op <;> decide
  have hhead : Markless (clause.column.sql ++ " " ++ clause.op.sql) := by
    simp only [markless_append, hcolumn.markless, hop]
    decide
  rw [show clause.sql = clause.column.sql ++ " " ++ clause.op.sql ++ clause.tail from rfl,
    String.toList_append, placeholders_append_of_not_mem (hhead ':' (by decide)),
    h.placeholders_tail]

end WhereClause.Bound

private theorem semicolon_not_mem_predicate {clause : WhereClause} (h : clause.Bound)
    (hcolumn : clause.column.Named) : ';' ∉ clause.sql.toList := by
  have hsemicolon : ∀ {text : String}, Markless text → ';' ∉ text.toList :=
    fun hm => hm ';' (by decide)
  have hname : ∀ name ∈ clause.paramNames, ';' ∉ name.toList := fun name hname hmem =>
    absurd (List.all_eq_true.1 (h.chars name hname) ';' hmem) (by decide)
  have htail : ';' ∉ clause.tail.toList := by
    unfold WhereClause.tail
    split
    · decide
    · next hunary =>
      split
      · simp only [String.toList_append, List.mem_append, not_or]
        refine ⟨⟨by decide, fun hmem => ?_⟩, by decide⟩
        rcases mem_toList_intercalate hmem with hsep | ⟨text, htext, hmem⟩
        · exact absurd hsep (by decide)
        · obtain ⟨name, hparam, rfl⟩ := List.mem_map.1 htext
          rw [String.toList_append, List.mem_append] at hmem
          exact hmem.elim (by decide) (hname name hparam)
      · next hlist =>
        obtain ⟨name, hnames⟩ := h.scalar (by simpa using hunary) (by simpa using hlist)
        rw [hnames, List.headD_cons, String.toList_append, List.mem_append, not_or]
        exact ⟨by decide, hname name (hnames ▸ List.mem_cons_self)⟩
  have hop : Markless clause.op.sql := by cases clause.op <;> decide
  rw [show clause.sql = clause.column.sql ++ " " ++ clause.op.sql ++ clause.tail from rfl]
  simp only [String.toList_append, List.mem_append, not_or]
  exact ⟨⟨⟨hsemicolon hcolumn.markless, by decide⟩, hsemicolon hop⟩, htail⟩

private theorem markless_clauseText {keyword separator : String} {parts : List String}
    (hkeyword : Markless keyword) (hsep : Markless separator)
    (h : ∀ part ∈ parts, Markless part) :
    ∀ line ∈ clauseText keyword separator parts, Markless line := by
  intro line hline
  unfold clauseText at hline
  split at hline
  · simp at hline
  · rw [List.mem_singleton.1 hline, markless_append]
    exact ⟨hkeyword, markless_intercalate hsep h⟩

private theorem placeholders_markless {lines : List String} (h : ∀ line ∈ lines, Markless line) :
    lines.flatMap (placeholders ·.toList) = [] := by
  rw [List.flatMap_eq_nil_iff]
  exact fun line hline => placeholders_of_not_mem (h line hline ':' (by decide))

namespace Query.Named

variable {q : Query} (h : q.Named)

include h

/-- The lines before WHERE: SELECT, FROM and the joins. -/
private theorem markless_head : ∀ line ∈ ["SELECT " ++ ",\n       ".intercalate
      (q.select.map (·.sql)), "FROM " ++ quoteQualifiedTable q.anchorTable ++ " AS " ++
      quoted q.anchorAlias] ++ q.joins.map (·.sql), Markless line := by
  intro line hline
  rw [List.mem_append, List.mem_cons, List.mem_singleton] at hline
  rcases hline with (rfl | rfl) | hline
  · rw [markless_append]
    refine ⟨by decide, markless_intercalate (by decide) fun text htext => ?_⟩
    obtain ⟨item, hitem, rfl⟩ := List.mem_map.1 htext
    exact (h.select item hitem).markless
  · simp only [markless_append, h.anchorTable.markless, markless_quoted h.anchorAlias]
    decide
  · obtain ⟨clause, hclause, rfl⟩ := List.mem_map.1 hline
    obtain ⟨htable, halias, hon⟩ := h.joins clause hclause
    exact markless_join htable halias hon

private theorem markless_groupBy :
    ∀ line ∈ clauseText "GROUP BY " ", " q.groupBy, Markless line :=
  markless_clauseText (by decide) (by decide)
    fun name hname => markless_of_isIdent (h.groupBy name hname)

private theorem markless_orderBy : ∀ line ∈ clauseText "ORDER BY " ", "
    (q.orderBy.map fun o => quoted o.expression ++ " " ++ o.direction.upper), Markless line := by
  refine markless_clauseText (by decide) (by decide) fun text htext => ?_
  obtain ⟨o, ho, rfl⟩ := List.mem_map.1 htext
  have hdirection : Markless o.direction.upper := by cases o.direction <;> decide
  simp only [markless_append, markless_quoted (h.orderBy o ho), hdirection]
  decide

/-- No line of the text has a semicolon. -/
theorem semicolon_not_mem : ∀ line ∈ q.lines, ';' ∉ line.toList := by
  intro line hline
  have hmarkless : Markless line → ';' ∉ line.toList := fun hm => hm ';' (by decide)
  rw [Query.lines, List.mem_append, List.mem_append, List.mem_append, List.mem_append] at hline
  rcases hline with (((hhead | hwhere) | hgroup) | horder) | hlimit
  · exact hmarkless (h.markless_head line hhead)
  · unfold clauseText at hwhere
    split at hwhere
    · simp at hwhere
    · rw [List.mem_singleton.1 hwhere, String.toList_append, List.mem_append, not_or]
      refine ⟨by decide, fun hmem => ?_⟩
      rcases mem_toList_intercalate hmem with hsep | ⟨text, htext, hmem⟩
      · exact absurd hsep (by decide)
      · obtain ⟨clause, hclause, rfl⟩ := List.mem_map.1 htext
        obtain ⟨hcolumn, hbound⟩ := h.filters clause hclause
        exact semicolon_not_mem_predicate hbound hcolumn hmem
  · exact hmarkless (h.markless_groupBy line hgroup)
  · exact hmarkless (h.markless_orderBy line horder)
  · rw [List.mem_singleton.1 hlimit]
    decide

/-- The placeholders of the text: those of its predicates in order, then the limit's. -/
theorem placeholders_sql :
    placeholders q.sql.toList = q.filters.flatMap (·.paramNames) ++ ["p_limit"] := by
  have hwhere : (clauseText "WHERE " " AND " (q.filters.map (·.sql))).flatMap
      (placeholders ·.toList) = q.filters.flatMap (·.paramNames) := by
    have hparts : (q.filters.map (·.sql)).flatMap (placeholders ·.toList) =
        q.filters.flatMap (·.paramNames) := by
      rw [List.flatMap_map]
      refine List.flatMap_congr fun clause hclause => ?_
      exact (h.filters clause hclause).2.placeholders_sql (h.filters clause hclause).1
    have hjoined := placeholders_intercalate
      (show " AND ".toList = [' ', 'A', 'N', 'D', ' '] from rfl) (by decide)
      (by decide) (q.filters.map (·.sql))
    unfold clauseText
    split
    · next hnone => rw [← hparts, hnone]
    · rw [List.flatMap_singleton, String.toList_append, placeholders_append_of_not_mem (by decide),
        hjoined, hparts]
  have hlimit : placeholders "LIMIT :p_limit".toList = ["p_limit"] := by decide
  have hlines := placeholders_intercalate (show "\n".toList = ['\n'] from rfl) (by decide)
    (by decide) q.lines
  rw [Query.sql, hlines, Query.lines]
  simp only [List.flatMap_append]
  rw [← List.flatMap_append, placeholders_markless h.markless_head,
    placeholders_markless h.markless_groupBy, placeholders_markless h.markless_orderBy, hwhere,
    List.flatMap_singleton, hlimit]
  simp

end Query.Named

/-! ## Resolved plans -/

theorem Resolver.RefOk.named {r : Resolver} {columnRef : String} (h : r.RefOk columnRef) :
    (r.columnAt columnRef).columnRef.Named := by
  obtain ⟨p, hparse, -⟩ := h
  obtain ⟨hentity, hcolumn⟩ := parseQualifiedColumn_ident hparse
  have hsplit := (parseQualifiedColumn_spec hparse).1
  exact ⟨by rwa [← hsplit] at hentity, by rwa [← hsplit] at hcolumn⟩

theorem named_binding (e : Entity) : Named e.binding := by
  have hident := e.binding_ident
  rwa [Bool.and_eq_true] at hident

private theorem isNameChar_digits (n : Nat) : (toString n).toList.all isNameChar = true := by
  rw [Nat.toString_eq_ofList_toDigits, String.toList_ofList, List.all_eq_true]
  intro c hc
  have hdigit := Nat.isDigit_of_mem_toDigits (by omega) (by omega) hc
  simp [isNameChar, Char.isAlphanum, hdigit]

/-- The predicate of a filter has the placeholders that its text has room for. -/
theorem bound_paramNames (column : ColumnRef) (op : Operator) (index : Nat) (value : PyValue) :
    WhereClause.Bound ⟨column, op, paramNamesFor op index value⟩ := by
  have hfilter : ("p_filter_" ++ toString index).toList.all isNameChar = true := by
    rw [String.toList_append, List.all_append, isNameChar_digits]
    decide
  refine ⟨?_, ?_, ?_⟩
  · intro name hname
    simp only [paramNamesFor] at hname
    split at hname
    · simp at hname
    · split at hname
      · split at hname
        · obtain ⟨j, -, rfl⟩ := List.mem_map.1 hname
          rw [String.toList_append, String.toList_append, List.all_append, List.all_append, hfilter,
            isNameChar_digits]
          decide
        · simp at hname
      · rwa [List.mem_singleton.1 hname]
  · intro hunary
    unfold paramNamesFor
    rw [if_pos hunary]
  · intro hunary hlist
    refine ⟨"p_filter_" ++ toString index, ?_⟩
    unfold paramNamesFor
    rw [if_neg (by simpa using hunary), if_neg (by simpa using hlist)]

section Plan

variable {r : Resolver} {req : MetricRequest} {plan : MetricPlan} {q : Query}

/-- The aliases and tables of a plan's joins are identifiers, and so are their ON columns. -/
private theorem named_joins (h : r.PlanOf req plan) : ∀ join ∈ plan.joins,
    Named join.targetTable ∧ isIdent join.targetAlias = true ∧
      isIdent join.sourceAlias = true := by
  have htarget : ∀ join ∈ plan.joins, Named join.targetTable ∧ isIdent join.targetAlias = true := by
    intro join hjoin
    obtain ⟨link, hlink, rfl⟩ := (h.joins_of.mem_iff join).1 hjoin
    obtain ⟨f, chain, hchain, hmem⟩ := h.joins_of.on_chain link hlink
    obtain ⟨e, he⟩ := hchain.exists_entity hmem
    refine ⟨?_, ?_⟩
    · simp only [Resolver.linkJoin, Resolver.tableOf_eq he, named_binding]
    · simp only [Resolver.linkJoin, aliasFor, ← Store.name_of_getEntity he, e.name_ident]
  intro join hjoin
  refine ⟨(htarget join hjoin).1, (htarget join hjoin).2, ?_⟩
  rcases h.joins_of.well_scoped.source hjoin with hanchor | hmem
  · rw [hanchor, aliasFor]
    exact r.metric.entity_ident
  · obtain ⟨earlier, hearlier, heq⟩ := List.mem_map.1 hmem
    rw [← heq]
    exact (htarget earlier hearlier).2

private theorem named_bucket (h : r.PlanOf req plan) {ref : ColumnRef}
    (hcolumn : bucketColumn plan = some ref) : ref.Named := by
  unfold bucketColumn at hcolumn
  split at hcolumn
  · next dimension hdimension =>
    obtain rfl := Option.some.inj hcolumn
    rcases h.time with ⟨-, -, hnone, -⟩ | ⟨-, -, -, hnone, -⟩ |
      ⟨candidate, -, -, -, hsome, -, -, href, -⟩
    · simp [hnone] at hdimension
    · simp [hnone] at hdimension
    · obtain rfl := Option.some.inj (hsome.symm.trans hdimension)
      exact href.named
  · next dimension _ htime =>
    obtain rfl := Option.some.inj hcolumn
    have hform := plan.metric.dimension_form
    rw [htime, Option.all_some] at hform
    obtain ⟨p, hparse⟩ := Option.isSome_iff_exists.1 hform
    refine ⟨?_, ?_⟩
    · rw [h.anchorAlias_eq]
      exact r.metric.entity_ident
    · simp only [(parseQualifiedColumn_spec hparse).1]
      exact (parseQualifiedColumn_ident hparse).2
  · simp at hcolumn

theorem isIdent_groupColAlias (index : Nat) : isIdent (groupColAlias index) = true :=
  isIdent_append (by decide) (isIdentChar_digits index)

/-- Every name in the statement of a resolved plan is an identifier. -/
theorem Resolver.PlanOf.named (h : r.PlanOf req plan) (hreq : r.Requestable req)
    (hq : Emitted plan q) : q.Named := by
  have hentity := r.metric.entity_ident
  refine ⟨?_, ?_, ?_, ?_, ?_, ?_, ?_⟩
  · obtain ⟨bucket, hbucket, hitems⟩ := hq.select_eq
    intro item hitem
    rw [hitems, List.mem_append, List.mem_append, List.mem_singleton] at hitem
    rcases hitem with (hitem | hitem) | rfl
    · rcases emitTimeBucket_ok hbucket with ⟨rfl, -⟩ | ⟨grain, ref, rfl, -, hcolumn⟩
      · simp at hitem
      · rw [List.mem_singleton.1 hitem]
        exact named_bucket h hcolumn
    · obtain ⟨i, hi, rfl⟩ := List.mem_mapIdx.1 hitem
      have hmem : plan.groupByColumns[i] ∈ r.groupColumns req.groupBy [] :=
        h.groupBy_eq ▸ List.getElem_mem hi
      obtain ⟨ref, href, heq⟩ := (Resolver.mem_groupColumns hmem).resolve_left (by simp)
      rw [heq]
      exact (hreq.group_refs ref href).named
    · refine ⟨?_, plan.metric.name_ident⟩
      rw [h.anchorAlias_eq]
      exact hentity
  · obtain ⟨e, -, hbinding⟩ := lookupAnchorTable_eq_ok.1 h.anchored
    rw [hq.anchorTable_eq, h.anchorTable_eq, ← hbinding]
    exact named_binding e
  · rw [hq.anchorAlias_eq, h.anchorAlias_eq]
    exact hentity
  · intro clause hclause
    rw [hq.joins_eq] at hclause
    obtain ⟨join, hjoin, rfl⟩ := List.mem_map.1 hclause
    obtain ⟨htable, htarget, hsource⟩ := named_joins h join hjoin
    refine ⟨htable, htarget, fun p hp => ?_⟩
    obtain ⟨pair, -, rfl⟩ := List.mem_map.1 hp
    exact ⟨⟨hsource, pair.source_ident⟩, htarget, pair.target_ident⟩
  · intro clause hclause
    rw [hq.filters_eq, h.predicates_eq] at hclause
    obtain ⟨p, hp, rfl⟩ := List.mem_map.1 hclause
    obtain ⟨i, hi, rfl⟩ := List.mem_mapIdx.1 hp
    exact ⟨(hreq.filter_refs _ (List.getElem_mem hi)).1.named, bound_paramNames _ _ _ _⟩
  · obtain ⟨bucket, -, hkeys⟩ := hq.groupBy_eq
    intro name hname
    rw [hkeys, List.mem_append] at hname
    rcases hname with hname | hname
    · obtain ⟨-, -, rfl⟩ := List.mem_map.1 hname
      decide
    · obtain ⟨index, -, rfl⟩ := List.mem_map.1 hname
      exact isIdent_groupColAlias index
  · intro o ho
    rw [hq.orderBy_eq] at ho
    rcases expression_of_resolveOrderBy h.orderBy_eq o ho with hname | ⟨i, -, hname⟩
    · rw [hname]
      exact r.metric.name_ident
    · rw [hname]
      exact isIdent_groupColAlias i

end Plan

/-- Every plan that resolved is emitted, with the plan's parameters. -/
theorem exists_emitSql {store : Store} {req : MetricRequest} {plan : MetricPlan}
    (h : resolveMetricPlan store req = .ok plan) :
    ∃ q, emitSql plan = .ok (q, plan.params) ∧ Emitted plan q ∧ q.Named := by
  obtain ⟨r, -, -, -, hreq, -, hplan⟩ := resolveMetricPlan_ok h
  obtain ⟨q, hemit⟩ := hplan.emitQuery
  have hq := emitQuery_ok hemit
  have hnamed := hplan.named hreq hq
  exact ⟨q, emitSql_of_lines hemit hnamed.semicolon_not_mem, hq, hnamed⟩

end SchemaBrain.Semantic
