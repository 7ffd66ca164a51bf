import Mathlib.Data.List.Forall2
import Mathlib.Data.Sym.Sym2
import SchemaBrain.Joins.Mining

/-!
# Respelled statements

Trees that differ in the sides of ON equalities and in the order and grouping of the conjuncts
of ON clauses. Their JOIN nodes have the same equalities, and their names mean the same tables
unless a table below an ON clause shares its name with another one.
-/

namespace SchemaBrain.Joins

open Base Core

namespace SqlNode

/-- The argument of a node is an ON clause. -/
def isOn (kind : SqlKind) (key : String) : Bool := kind = .join && key = "on"

/-- Two spellings of a tree. The flag says that the tree stands in the AND-chain of an ON
clause. -/
inductive Respelled : Bool → SqlNode → SqlNode → Prop
  | refl {on : Bool} (n : SqlNode) : Respelled on n n
  | trans {on : Bool} {n m k : SqlNode} (h : Respelled on n m) (h' : Respelled on m k) :
      Respelled on n k
  | swap (left right : SqlNode) : Respelled true (.eq left right) (.eq right left)
  | andComm (left right : SqlNode) : Respelled true (.and left right) (.and right left)
  | andAssoc (a b c : SqlNode) : Respelled true (.and (.and a b) c) (.and a (.and b c))
  | arg {on : Bool} {kind : SqlKind} {before after : List (String × SqlNode)} {key : String}
      {c c' : SqlNode} (h : Respelled (isOn kind key) c c') :
      Respelled on (.node kind (before ++ (key, c) :: after))
        (.node kind (before ++ (key, c') :: after))
  | andLeft {on : Bool} {left left' right : SqlNode} (h : Respelled on left left') :
      Respelled on (.and left right) (.and left' right)
  | andRight {on : Bool} {left right right' : SqlNode} (h : Respelled on right right') :
      Respelled on (.and left right) (.and left right')
  | paren {on : Bool} {this this' : SqlNode} (h : Respelled on this this') :
      Respelled on (.paren this) (.paren this')
  | eqLeft {on : Bool} {left left' right : SqlNode} (h : Respelled false left left') :
      Respelled on (.eq left right) (.eq left' right)
  | eqRight {on : Bool} {left right right' : SqlNode} (h : Respelled false right right') :
      Respelled on (.eq left right) (.eq left right')

variable {on : Bool} {n n' m root : SqlNode} {kind : SqlKind}
  {args args' : List (String × SqlNode)}

theorem Respelled.symm (h : Respelled on n n') : Respelled on n' n := by
  induction h with
  | refl n => exact .refl n
  | trans _ _ ih ih' => exact ih'.trans ih
  | swap left right => exact .swap right left
  | andComm left right => exact .andComm right left
  | andAssoc a b c =>
    have hturned : Respelled true (.and a (.and b c)) (.and (.and c b) a) :=
      (Respelled.andComm _ _).trans (.andLeft (.andComm b c))
    have hgrouped : Respelled true (.and (.and c b) a) (.and (.and b a) c) :=
      (Respelled.andAssoc c b a).trans (.andComm _ _)
    exact (hturned.trans hgrouped).trans (.andLeft (.andComm b a))
  | arg _ ih => exact .arg ih
  | andLeft _ ih => exact .andLeft ih
  | andRight _ ih => exact .andRight ih
  | paren _ ih => exact .paren ih
  | eqLeft _ ih => exact .eqLeft ih
  | eqRight _ ih => exact .eqRight ih

theorem Respelled.kind_eq (h : Respelled on n n') : n.kind = n'.kind := by
  induction h with
  | trans _ _ ih ih' => exact ih.trans ih'
  | _ => rfl

/-- Two spellings of an argument. -/
def RespelledArg (kind : SqlKind) (item item' : String × SqlNode) : Prop :=
  item.1 = item'.1 ∧ Respelled (isOn kind item.1) item.2 item'.2

private theorem respelledArgs_refl : List.Forall₂ (RespelledArg kind) args args :=
  List.forall₂_same.2 fun _ _ => ⟨rfl, .refl _⟩

private theorem respelledArgs_trans {args'' : List (String × SqlNode)}
    (h : List.Forall₂ (RespelledArg kind) args args')
    (h' : List.Forall₂ (RespelledArg kind) args' args'') :
    List.Forall₂ (RespelledArg kind) args args'' := by
  induction h generalizing args'' with
  | nil => exact h'
  | cons hitem _ ih =>
    cases h' with
    | cons hitem' hrest' =>
      refine .cons ⟨hitem.1.trans hitem'.1, hitem.2.trans ?_⟩ (ih hrest')
      rw [hitem.1]
      exact hitem'.2

/-- The spelling of a node keeps its class and its arguments in their places. -/
theorem Respelled.exists_args (h : Respelled on (.node kind args) n') :
    ∃ args', n' = .node kind args' ∧ List.Forall₂ (RespelledArg kind) args args' := by
  generalize hn : SqlNode.node kind args = n at h
  induction h generalizing args with
  | refl n => exact ⟨args, hn.symm, respelledArgs_refl⟩
  | trans _ _ ih ih' =>
    obtain ⟨args', rfl, hargs⟩ := ih hn
    obtain ⟨args'', rfl, hargs'⟩ := ih' rfl
    exact ⟨args'', rfl, respelledArgs_trans hargs hargs'⟩
  | arg hc =>
    obtain ⟨rfl, rfl⟩ := SqlNode.node.inj hn
    refine ⟨_, rfl, List.rel_append respelledArgs_refl (.cons ⟨rfl, hc⟩ respelledArgs_refl)⟩
  | swap | andComm | andAssoc | andLeft | andRight | paren | eqLeft | eqRight => cases hn

theorem below_iff : n.Below m ↔ m = n ∨ ∃ c ∈ n.children, c.Below m := by
  constructor
  · intro h
    induction h with
    | refl => exact .inl rfl
    | child _ hc ih =>
      rcases ih with rfl | ⟨c', hc', hbelow⟩
      · exact .inr ⟨_, hc, .refl⟩
      · exact .inr ⟨c', hc', hbelow.child hc⟩
  · rintro (rfl | ⟨c, hc, hbelow⟩)
    · exact .refl
    · exact (Below.refl.child hc).trans hbelow

private theorem below_and {left right : SqlNode} :
    (SqlNode.and left right).Below (.node kind args) ↔
      left.Below (.node kind args) ∨ right.Below (.node kind args) := by
  rw [below_iff]
  simp [children]

private theorem below_eq {left right : SqlNode} : (SqlNode.eq left right).Below (.node kind args) ↔
    left.Below (.node kind args) ∨ right.Below (.node kind args) := by
  rw [below_iff]
  simp [children]

private theorem below_paren {this : SqlNode} :
    (SqlNode.paren this).Below (.node kind args) ↔ this.Below (.node kind args) := by
  rw [below_iff]
  simp [children]

theorem below_node : (SqlNode.node kind args).Below m ↔
    m = .node kind args ∨ ∃ item ∈ args, item.2.Below m := by
  rw [below_iff, children]
  simp only [List.mem_map, exists_exists_and_eq_and]

/-- A spelling of the node stands in the tree. -/
def HasSpelling (tree : SqlNode) (kind : SqlKind) (args : List (String × SqlNode)) : Prop :=
  ∃ args', tree.Below (.node kind args') ∧ List.Forall₂ (RespelledArg kind) args args'

private theorem HasSpelling.of_below (h : n.Below (.node kind args)) : n.HasSpelling kind args :=
  ⟨args, h, respelledArgs_refl⟩

private theorem HasSpelling.mono (h : n.HasSpelling kind args)
    (hsub : ∀ {args}, n.Below (.node kind args) → n'.Below (.node kind args)) :
    n'.HasSpelling kind args := by
  obtain ⟨args', hbelow, hargs⟩ := h
  exact ⟨args', hsub hbelow, hargs⟩

/-- Every node in a tree has its spelling in a spelling of the tree. -/
theorem Respelled.hasSpelling (h : Respelled on n n') (hbelow : n.Below (.node kind args)) :
    n'.HasSpelling kind args := by
  induction h generalizing args with
  | refl n => exact .of_below hbelow
  | trans _ _ ih ih' =>
    obtain ⟨args', hbelow', hargs⟩ := ih hbelow
    obtain ⟨args'', hbelow'', hargs'⟩ := ih' hbelow'
    exact ⟨args'', hbelow'', respelledArgs_trans hargs hargs'⟩
  | swap left right => exact .of_below (below_eq.2 (below_eq.1 hbelow).symm)
  | andComm left right => exact .of_below (below_and.2 (below_and.1 hbelow).symm)
  | andAssoc a b c =>
    rw [below_and, below_and, or_assoc] at hbelow
    refine .of_below ?_
    rw [below_and, below_and]
    exact hbelow
  | @arg _ kind' before after key c c' hc ih =>
    have hplaced : ∀ item ∈ before ++ (key, c') :: after, ∀ {args}, item.2.Below (.node kind args) →
        (SqlNode.node kind' (before ++ (key, c') :: after)).Below (.node kind args) :=
      fun item hitem _ h => below_node.2 (.inr ⟨item, hitem, h⟩)
    rcases below_node.1 hbelow with heq | ⟨item, hitem, hitemBelow⟩
    · obtain ⟨rfl, rfl⟩ := SqlNode.node.inj heq
      exact ⟨_, .refl, List.rel_append respelledArgs_refl (.cons ⟨rfl, hc⟩ respelledArgs_refl)⟩
    · rw [List.mem_append, List.mem_cons] at hitem
      rcases hitem with hbefore | rfl | hafter
      · exact .of_below (hplaced item (by simp [hbefore]) hitemBelow)
      · exact (ih hitemBelow).mono (hplaced (key, c') (by simp))
      · exact .of_below (hplaced item (by simp [hafter]) hitemBelow)
  | andLeft _ ih =>
    rcases below_and.1 hbelow with hleft | hright
    · exact (ih hleft).mono fun h => below_and.2 (.inl h)
    · exact .of_below (below_and.2 (.inr hright))
  | andRight _ ih =>
    rcases below_and.1 hbelow with hleft | hright
    · exact .of_below (below_and.2 (.inl hleft))
    · exact (ih hright).mono fun h => below_and.2 (.inr h)
  | paren _ ih => exact (ih (below_paren.1 hbelow)).mono below_paren.2
  | eqLeft _ ih =>
    rcases below_eq.1 hbelow with hleft | hright
    · exact (ih hleft).mono fun h => below_eq.2 (.inl h)
    · exact .of_below (below_eq.2 (.inr hright))
  | eqRight _ ih =>
    rcases below_eq.1 hbelow with hleft | hright
    · exact .of_below (below_eq.2 (.inl hleft))
    · exact (ih hright).mono fun h => below_eq.2 (.inr h)

theorem rel_arg (h : List.Forall₂ (RespelledArg kind) args args') (key : String) :
    Option.Rel (Respelled (isOn kind key)) ((SqlNode.node kind args).arg key)
      ((SqlNode.node kind args').arg key) := by
  simp only [arg]
  induction h with
  | nil => exact .none
  | @cons item item' _ _ hitem _ ih =>
    obtain ⟨hkey, hvalue⟩ := hitem
    by_cases hitemKey : item.1 = key
    · rw [List.find?_cons_of_pos (by simpa using hitemKey),
        List.find?_cons_of_pos (by simpa [← hkey] using hitemKey)]
      exact .some (hitemKey ▸ hvalue)
    · rw [List.find?_cons_of_neg (by simpa using hitemKey),
        List.find?_cons_of_neg (by simpa [← hkey] using hitemKey)]
      exact ih

theorem rel_argList (h : List.Forall₂ (RespelledArg kind) args args') (key : String) :
    List.Forall₂ (Respelled (isOn kind key)) ((SqlNode.node kind args).argList key)
      ((SqlNode.node kind args').argList key) := by
  simp only [argList]
  induction h with
  | nil => exact .nil
  | @cons item item' _ _ hitem _ ih =>
    obtain ⟨hkey, hvalue⟩ := hitem
    by_cases hitemKey : item.1 = key
    · rw [List.filter_cons_of_pos (by simpa using hitemKey),
        List.filter_cons_of_pos (by simpa [← hkey] using hitemKey)]
      exact .cons (hitemKey ▸ hvalue) ih
    · rw [List.filter_cons_of_neg (by simpa using hitemKey),
        List.filter_cons_of_neg (by simpa [← hkey] using hitemKey)]
      exact ih

end SqlNode

open SqlNode

variable {n n' : SqlNode} {kind : SqlKind} {args args' : List (String × SqlNode)}

/-! ## Equalities -/

/-- A pair without its order. -/
def unordered {α : Type} (pair : α × α) : Sym2 α := s(pair.1, pair.2)

theorem unordered_eq {α : Type} {pair pair' : α × α} :
    unordered pair = unordered pair' ↔ pair = pair' ∨ pair = pair'.swap := by
  rw [unordered, unordered, Sym2.eq, Sym2.rel_iff']

/-- The equalities of an ON clause, each as its two columns without their order. -/
def chainRefs (n : SqlNode) : List (Sym2 (Option (String × String))) :=
  (andEqualities n).map fun eq => s(columnRef eq.1, columnRef eq.2)

theorem columnRef_congr {chain : Bool} (h : Respelled chain n n') : columnRef n = columnRef n' := by
  rw [columnRef, columnRef, h.kind_eq]

theorem chainRefs_perm {chain : Bool} (h : Respelled chain n n') :
    (chainRefs n).Perm (chainRefs n') := by
  unfold chainRefs
  induction h with
  | refl n => exact .refl _
  | trans _ _ ih ih' => exact ih.trans ih'
  | swap left right =>
    simp only [andEqualities, List.map_singleton, Sym2.eq_swap, List.Perm.refl]
  | andComm left right =>
    simp only [andEqualities, List.map_append]
    exact List.perm_append_comm
  | andAssoc a b c => simp only [andEqualities, List.append_assoc, List.Perm.refl]
  | arg _ _ => exact .refl _
  | andLeft _ ih =>
    simp only [andEqualities, List.map_append]
    exact ih.append_right _
  | andRight _ ih =>
    simp only [andEqualities, List.map_append]
    exact ih.append_left _
  | paren _ ih => exact ih
  | eqLeft h _ => simp only [andEqualities, List.map_singleton, columnRef_congr h, List.Perm.refl]
  | eqRight h _ => simp only [andEqualities, List.map_singleton, columnRef_congr h, List.Perm.refl]

section Names

variable {names : String → Option QualifiedTable}

/-- The column that a reference names. -/
def resolve (names : String → Option QualifiedTable) (ref : Option (String × String)) :
    Option ColEndpoint :=
  ref.bind fun ref => (names ref.1).map (ref.2, ·)

/-- Two columns, if both are named. -/
def bothNamed : Option ColEndpoint → Option ColEndpoint → Option (Sym2 ColEndpoint)
  | some lhs, some rhs => some s(lhs, rhs)
  | _, _ => none

theorem bothNamed_comm (lhs rhs : Option ColEndpoint) : bothNamed lhs rhs = bothNamed rhs lhs := by
  cases lhs <;> cases rhs <;> simp [bothNamed, Sym2.eq_swap]

/-- The columns that an equality names. -/
def readRefs (names : String → Option QualifiedTable) :
    Sym2 (Option (String × String)) → Option (Sym2 ColEndpoint) :=
  Sym2.lift ⟨fun l r => bothNamed (resolve names l) (resolve names r),
    fun _ _ => bothNamed_comm _ _⟩

theorem map_unordered_columnPairs : (columnPairs names n).map unordered =
    (chainRefs n).filterMap (readRefs names) := by
  unfold columnPairs chainRefs
  rw [List.map_filterMap, List.filterMap_map]
  refine List.filterMap_congr fun eq _ => ?_
  have hread : (readRefs names ∘ fun eq : SqlNode × SqlNode => s(columnRef eq.1, columnRef eq.2))
      eq = bothNamed (endpoint names eq.1) (endpoint names eq.2) := rfl
  rw [hread]
  cases endpoint names eq.1 <;> cases endpoint names eq.2 <;> rfl

/-- The equalities of a JOIN node between columns of known tables. -/
def joinPairs (names : String → Option QualifiedTable) (join : SqlNode) :
    List (ColEndpoint × ColEndpoint) :=
  ((join.arg "on").map (columnPairs names)).getD []

theorem joinPairs_perm (h : List.Forall₂ (RespelledArg kind) args args') :
    ((joinPairs names (.node kind args)).map unordered).Perm
      ((joinPairs names (.node kind args')).map unordered) := by
  unfold joinPairs
  have hon := rel_arg h "on"
  generalize (SqlNode.node kind args).arg "on" = clause at hon ⊢
  generalize (SqlNode.node kind args').arg "on" = clause' at hon ⊢
  cases hon with
  | none => exact .refl _
  | some hon =>
    simp only [Option.map_some, Option.getD_some, map_unordered_columnPairs]
    exact (chainRefs_perm hon).filterMap _

end Names

/-- A join of a table with itself has equal columns in its pairs. -/
def SelfPairsEqual (e : ExtractedJoin) : Prop := e.a = e.b → ∀ p ∈ e.pairs, p.1 = p.2

private theorem orient_swap_self {a b : QualifiedTable} (hne : a ≠ b)
    {pair : ColEndpoint × ColEndpoint} (h : Links a b pair) :
    orient a pair.swap = orient a pair := by
  rcases h with ⟨hl, hr⟩ | ⟨hr, hl⟩
  · simp [orient, hl, hr, hne.symm]
  · simp [orient, hl, hr, hne.symm]

/-- An equality of a table with itself is its columns. -/
theorem eq_orient_of_links {T : QualifiedTable} {pair : ColEndpoint × ColEndpoint}
    (h : Links T T pair) : pair = (((orient T pair).1, T), ((orient T pair).2, T)) := by
  have hboth : pair.1.2 = T ∧ pair.2.2 = T := h.elim id id
  rw [orient, if_pos hboth.1]
  exact Prod.ext (Prod.ext rfl hboth.1) (Prod.ext rfl hboth.2)

private theorem orient_unordered {e : ExtractedJoin} {pairs : List (ColEndpoint × ColEndpoint)}
    (h : Reads e pairs) (hself : SelfPairsEqual e) {pair pair' : ColEndpoint × ColEndpoint}
    (hpair : pair ∈ pairs) (heq : unordered pair = unordered pair') :
    orient e.a pair = orient e.a pair' := by
  have hlinks := h.links pair hpair
  rcases unordered_eq.1 heq with rfl | hswap
  · rfl
  · obtain rfl : pair' = pair.swap := by rw [hswap, Prod.swap_swap]
    by_cases hab : e.a = e.b
    · rw [← hab] at hlinks
      have hmem : orient e.a pair ∈ e.pairs := by
        rw [h.pairs_eq, mem_sortedBy]
        exact List.mem_map_of_mem hpair
      have hcolumns : (orient e.a pair).1 = (orient e.a pair).2 := hself hab _ hmem
      have hsame : pair.swap = pair := by
        rw [eq_orient_of_links hlinks, hcolumns, Prod.swap_prod_mk]
      rw [hsame]
    · exact (orient_swap_self hab hlinks).symm

theorem links_respelled {l r : QualifiedTable} {pairs pairs' : List (ColEndpoint × ColEndpoint)}
    (h : ∀ pair ∈ pairs, Links l r pair)
    (hperm : (pairs.map unordered).Perm (pairs'.map unordered)) :
    ∀ pair ∈ pairs', Links l r pair := by
  intro pair' hpair'
  obtain ⟨pair, hpair, heq⟩ := List.mem_map.1 (hperm.mem_iff.2 (List.mem_map_of_mem hpair'))
  rcases unordered_eq.1 heq with rfl | rfl
  · exact h pair hpair
  · exact Links.swap.1 (h _ hpair)

/-- A join is read from the equalities whatever their order and their sides are. -/
theorem Reads.respelled {e : ExtractedJoin} {pairs pairs' : List (ColEndpoint × ColEndpoint)}
    (h : Reads e pairs) (hself : SelfPairsEqual e)
    (hperm : (pairs.map unordered).Perm (pairs'.map unordered)) : Reads e pairs' := by
  refine ⟨links_respelled h.links hperm, ?_⟩
  have hcolumns : (pairs.map (orient e.a)).Perm (pairs'.map (orient e.a)) :=
    map_perm_map_of hperm fun _ hpair _ => orient_unordered h hself hpair
  rw [h.pairs_eq]
  exact sortedBy_congr hcolumns fun p _ p' _ => toLex_inj.1

/-! ## Names -/

section Names

/-- A table below a tree goes by this name. -/
def SqlNode.HasTable (tree : SqlNode) (x : String × QualifiedTable) : Prop :=
  ∃ m, tree.Below m ∧ m.tableRef = some x

/-- The names of the tables below the ON clauses of the JOIN nodes. -/
def onNames (select : SqlNode) : List (String × QualifiedTable) :=
  select.sources.flatMap fun source => (source.findAll SqlNode.isJoin).flatMap fun join =>
    (join.argList "on").flatMap fun on => on.walk.filterMap SqlNode.tableRef

/-- A name that a table below an ON clause goes by means one table in the statement. -/
def NamesSettled (select : SqlNode) : Prop :=
  ∀ x ∈ onNames select, ∀ y ∈ recordedNames select, x.1 = y.1 → x.2 = y.2

variable {x : String × QualifiedTable} {select select' : SqlNode} {chain : Bool}

private theorem mem_tableRefs : x ∈ n.walk.filterMap SqlNode.tableRef ↔ n.HasTable x := by
  simp only [List.mem_filterMap, SqlNode.mem_walk, SqlNode.HasTable]

theorem mem_recordedNames :
    x ∈ recordedNames select ↔ ∃ source ∈ select.sources, source.HasTable x := by
  simp only [recordedNames, List.mem_flatMap, mem_tableRefs]

theorem mem_onNames : x ∈ onNames select ↔ ∃ source ∈ select.sources,
    ∃ join, source.Below join ∧ join.isJoin = true ∧ ∃ on ∈ join.argList "on", on.HasTable x := by
  simp only [onNames, List.mem_flatMap, SqlNode.mem_findAll, mem_tableRefs, and_assoc]

/-- Only a node with arguments has a class of its own. -/
private theorem exists_node (h : n.kind ≠ .other) : ∃ args, n = .node n.kind args := by
  cases n with
  | node kind args => exact ⟨args, rfl⟩
  | and _ _ => exact absurd rfl h
  | paren _ => exact absurd rfl h
  | eq _ _ => exact absurd rfl h

theorem exists_joinNode (h : n.isJoin = true) : ∃ args, n = .node .join args := by
  have hkind : n.kind = .join := by simpa [SqlNode.isJoin] using h
  obtain ⟨args, hnode⟩ := @exists_node n (by simp [hkind])
  exact ⟨args, hkind ▸ hnode⟩

private theorem tableRef_congr (h : n.kind = n'.kind) : n.tableRef = n'.tableRef := by
  rw [SqlNode.tableRef, SqlNode.tableRef, h]

theorem hasTable_respelled (h : Respelled chain n n') (hx : n.HasTable x) : n'.HasTable x := by
  obtain ⟨m, hbelow, hm⟩ := hx
  have hkind : m.kind ≠ .other := by
    intro hother
    rw [SqlNode.tableRef, hother] at hm
    cases hm
  obtain ⟨args, hnode⟩ := exists_node hkind
  obtain ⟨args', hbelow', -⟩ := h.hasSpelling (hnode ▸ hbelow)
  exact ⟨_, hbelow', (tableRef_congr rfl).trans hm⟩

private theorem exists_mem_of_forall₂ {α : Type} {r : α → α → Prop} {l l' : List α} {a : α}
    (h : List.Forall₂ r l l') (ha : a ∈ l) : ∃ a' ∈ l', r a a' := by
  induction h with
  | nil => cases ha
  | cons hab _ ih =>
    rcases List.mem_cons.1 ha with rfl | hrest
    · exact ⟨_, List.mem_cons_self, hab⟩
    · obtain ⟨a', ha', hr⟩ := ih hrest
      exact ⟨a', List.mem_cons_of_mem _ ha', hr⟩

private theorem rel_toList {α : Type} {r : α → α → Prop} {a a' : Option α} (h : Option.Rel r a a') :
    List.Forall₂ r a.toList a'.toList := by
  cases h with
  | none => exact .nil
  | some h => exact .cons h .nil

theorem rel_sources (h : Respelled chain select select') (hselect : select.kind = .select) :
    List.Forall₂ (Respelled false) select.sources select'.sources := by
  obtain ⟨args, hnode⟩ := @exists_node select (by simp [hselect])
  rw [hselect] at hnode
  subst hnode
  obtain ⟨args', rfl, hargs⟩ := h.exists_args
  exact List.rel_append (rel_toList (rel_arg hargs "from")) (rel_argList hargs "joins")

theorem recordedNames_subset (h : List.Forall₂ (Respelled false) select.sources select'.sources) :
    recordedNames select ⊆ recordedNames select' := by
  intro x hx
  obtain ⟨source, hsource, htable⟩ := mem_recordedNames.1 hx
  obtain ⟨source', hsource', hrel⟩ := exists_mem_of_forall₂ h hsource
  exact mem_recordedNames.2 ⟨source', hsource', hasTable_respelled hrel htable⟩

theorem onNames_subset (h : List.Forall₂ (Respelled false) select.sources select'.sources) :
    onNames select ⊆ onNames select' := by
  intro x hx
  obtain ⟨source, hsource, join, hbelow, hjoin, on, hon, htable⟩ := mem_onNames.1 hx
  obtain ⟨source', hsource', hrel⟩ := exists_mem_of_forall₂ h hsource
  obtain ⟨args, rfl⟩ := exists_joinNode hjoin
  obtain ⟨args', hbelow', hargs⟩ := hrel.hasSpelling hbelow
  obtain ⟨on', hon', hrelOn⟩ := exists_mem_of_forall₂ (rel_argList hargs "on") hon
  exact mem_onNames.2
    ⟨source', hsource', _, hbelow', hjoin, on', hon', hasTable_respelled hrelOn htable⟩

theorem onNames_subset_recordedNames : onNames select ⊆ recordedNames select := by
  intro x hx
  obtain ⟨source, hsource, join, hbelow, hjoin, on, hon, m, hm, hx⟩ := mem_onNames.1 hx
  have hchild : on ∈ join.children := by
    cases join with
    | node kind args =>
      obtain ⟨item, hitem, rfl⟩ := List.mem_map.1 hon
      exact List.mem_map_of_mem (List.mem_filter.1 hitem).1
    | and _ _ => cases hon
    | paren _ => cases hon
    | eq _ _ => cases hon
  exact mem_recordedNames.2 ⟨source, hsource, m, (hbelow.child hchild).trans hm, hx⟩

/-! ## The order of the names -/

/-- The children of a node without the ON clause of a JOIN. -/
def SqlNode.outsideOn : SqlNode → List SqlNode
  | .node kind args => (args.filter fun item => !isOn kind item.1).map (·.2)
  | .and left right => [left, right]
  | .paren this => [this]
  | .eq left right => [left, right]

section Order

variable {β : Type} {f : SqlNode → Option β}

/-- Nothing is read below the tree. -/
def Blank (f : SqlNode → Option β) (n : SqlNode) : Prop := ∀ m, n.Below m → f m = none

/-- Nothing is read below the ON clauses of the tree. -/
def BlankOn (f : SqlNode → Option β) (n : SqlNode) : Prop :=
  ∀ join, n.Below join → join.isJoin = true → ∀ on ∈ join.argList "on", Blank f on

/-- Some trees of a list are left out, from which nothing is read. -/
inductive Thinned (f : SqlNode → Option β) : List SqlNode → List SqlNode → Prop
  | nil : Thinned f [] []
  | keep {n : SqlNode} {full thin : List SqlNode} (hn : BlankOn f n) (h : Thinned f full thin) :
      Thinned f (n :: full) (n :: thin)
  | drop {n : SqlNode} {full thin : List SqlNode} (hn : Blank f n) (h : Thinned f full thin) :
      Thinned f (n :: full) thin

theorem Thinned.filterMap_eq {full thin : List SqlNode} (h : Thinned f full thin) :
    full.filterMap f = thin.filterMap f := by
  induction h with
  | nil => rfl
  | keep _ _ ih => rw [List.filterMap_cons, List.filterMap_cons, ih]
  | drop hn _ ih => rw [List.filterMap_cons, hn _ .refl, ih]

theorem Thinned.append {full full' thin thin' : List SqlNode} (h : Thinned f full thin)
    (h' : Thinned f full' thin') : Thinned f (full ++ full') (thin ++ thin') := by
  induction h with
  | nil => exact h'
  | keep hn _ ih => exact .keep hn ih
  | drop hn _ ih => exact .drop hn ih

private theorem thinned_all {trees : List SqlNode} (h : ∀ n ∈ trees, BlankOn f n) :
    Thinned f trees trees := by
  induction trees with
  | nil => exact .nil
  | cons n trees ih =>
    exact .keep (h n List.mem_cons_self) (ih fun m hm => h m (List.mem_cons_of_mem _ hm))

private theorem thinned_none {trees : List SqlNode} (h : ∀ n ∈ trees, Blank f n) :
    Thinned f trees [] := by
  induction trees with
  | nil => exact .nil
  | cons n trees ih =>
    exact .drop (h n List.mem_cons_self) (ih fun m hm => h m (List.mem_cons_of_mem _ hm))

private theorem BlankOn.child (h : BlankOn f n) {c : SqlNode} (hc : c ∈ n.children) :
    BlankOn f c :=
  fun join hbelow => h join ((SqlNode.Below.refl.child hc).trans hbelow)

private theorem thinned_args (items : List (String × SqlNode)) (hsub : items ⊆ args)
    (h : BlankOn f (.node kind args)) :
    Thinned f (items.map (·.2)) ((items.filter fun item => !isOn kind item.1).map (·.2)) := by
  induction items with
  | nil => exact .nil
  | cons item items ih =>
    have hitem : item ∈ args := hsub List.mem_cons_self
    have hrest := ih fun x hx => hsub (List.mem_cons_of_mem _ hx)
    by_cases hon : isOn kind item.1 = true
    · rw [List.filter_cons_of_neg (by simp [hon])]
      obtain ⟨hjoin, hkey⟩ : kind = .join ∧ item.1 = "on" := by simpa [isOn] using hon
      refine .drop (h _ .refl (by simp [SqlNode.isJoin, SqlNode.kind, hjoin]) _ ?_) hrest
      exact List.mem_map.2 ⟨item, List.mem_filter.2 ⟨hitem, by simpa using hkey⟩, rfl⟩
    · rw [List.filter_cons_of_pos (by simp [hon])]
      exact .keep (h.child (List.mem_map_of_mem hitem)) hrest

private theorem thinned_children (h : BlankOn f n) : Thinned f n.children n.outsideOn := by
  cases n with
  | node kind args => exact thinned_args args (List.Subset.refl _) h
  | and _ _ => exact thinned_all fun _ => h.child
  | paren _ => exact thinned_all fun _ => h.child
  | eq _ _ => exact thinned_all fun _ => h.child

theorem Thinned.next {full thin : List SqlNode} (h : Thinned f full thin) :
    Thinned f (full.flatMap SqlNode.children) (thin.flatMap SqlNode.outsideOn) := by
  induction h with
  | nil => exact .nil
  | keep hn _ ih =>
    rw [List.flatMap_cons, List.flatMap_cons]
    exact (thinned_children hn).append ih
  | drop hn _ ih =>
    rw [List.flatMap_cons]
    exact (thinned_none fun c hc m hm => hn m ((SqlNode.Below.refl.child hc).trans hm)).append ih

theorem Thinned.layers_eq {full thin : List SqlNode} (h : Thinned f full thin) (fuel : Nat) :
    (layers SqlNode.children fuel full).filterMap f =
      (layers SqlNode.outsideOn fuel thin).filterMap f := by
  induction fuel generalizing full thin with
  | zero => rfl
  | succ fuel ih =>
    rw [layers, layers, List.filterMap_append, List.filterMap_append, h.filterMap_eq, ih h.next]

/-- What the walk reads stands outside the ON clauses. -/
theorem walk_filterMap_eq (h : BlankOn f n) (k : Nat) :
    n.walk.filterMap f = (layers SqlNode.outsideOn (n.depth + k) [n]).filterMap f := by
  rw [SqlNode.walk, ← layers_add (by simp) k]
  exact (Thinned.keep h .nil).layers_eq _

end Order

private theorem rel_trans {l l' l'' : List SqlNode} (h : List.Forall₂ (Respelled chain) l l')
    (h' : List.Forall₂ (Respelled chain) l' l'') : List.Forall₂ (Respelled chain) l l'' := by
  induction h generalizing l'' with
  | nil => exact h'
  | cons hn _ ih =>
    cases h' with
    | cons hn' hrest' => exact .cons (hn.trans hn') (ih hrest')

private theorem rel_refl {l : List SqlNode} : List.Forall₂ (Respelled chain) l l :=
  List.forall₂_same.2 fun _ _ => .refl _

theorem rel_outsideOn (h : Respelled false n n') :
    List.Forall₂ (Respelled false) n.outsideOn n'.outsideOn := by
  generalize hchain : false = chain at h
  induction h with
  | refl n => exact rel_refl
  | trans _ _ ih ih' => exact rel_trans (ih hchain) (ih' hchain)
  | swap | andComm | andAssoc => cases hchain
  | @arg _ kind before after key c c' hc _ =>
    simp only [SqlNode.outsideOn, List.filter_append, List.map_append]
    refine List.rel_append rel_refl ?_
    by_cases hon : isOn kind key = true
    · rw [List.filter_cons_of_neg (by simp [hon]), List.filter_cons_of_neg (by simp [hon])]
      exact rel_refl
    · rw [List.filter_cons_of_pos (by simp [hon]), List.filter_cons_of_pos (by simp [hon])]
      exact .cons (by simpa [hon, ← hchain] using hc) rel_refl
  | andLeft hn _ => exact .cons hn rel_refl
  | andRight hn _ => exact .cons (.refl _) (.cons hn .nil)
  | paren hn _ => exact .cons hn .nil
  | eqLeft hn _ => exact .cons (hchain ▸ hn) rel_refl
  | eqRight hn _ => exact .cons (.refl _) (.cons (hchain ▸ hn) .nil)

theorem rel_layers {layer layer' : List SqlNode} (h : List.Forall₂ (Respelled false) layer layer')
    (fuel : Nat) : List.Forall₂ (Respelled false) (layers SqlNode.outsideOn fuel layer)
      (layers SqlNode.outsideOn fuel layer') := by
  induction fuel generalizing layer layer' with
  | zero => exact .nil
  | succ fuel ih => exact List.rel_append h (ih (List.rel_flatMap h fun _ _ => rel_outsideOn))

/-- The table of a node, if it goes by the name. -/
def tableNamed (name : String) (n : SqlNode) : Option (String × QualifiedTable) :=
  n.tableRef.filter (·.1 = name)

private theorem filterMap_tableNamed_congr {name : String} {l l' : List SqlNode}
    (h : List.Forall₂ (Respelled false) l l') :
    l.filterMap (tableNamed name) = l'.filterMap (tableNamed name) := by
  induction h with
  | nil => rfl
  | cons hn _ ih =>
    rw [List.filterMap_cons, List.filterMap_cons, ih, tableNamed, tableNamed,
      tableRef_congr hn.kind_eq]

private theorem walk_tableNamed_congr {name : String} (h : Respelled false n n')
    (hblank : BlankOn (tableNamed name) n) (hblank' : BlankOn (tableNamed name) n') :
    n.walk.filterMap (tableNamed name) = n'.walk.filterMap (tableNamed name) := by
  rw [walk_filterMap_eq hblank n'.depth, walk_filterMap_eq hblank' n.depth, Nat.add_comm n'.depth]
  exact filterMap_tableNamed_congr (rel_layers (.cons h .nil) _)

theorem lastNamed_eq_head? {name : String} : lastNamed select name =
    ((select.sources.flatMap fun source =>
      source.walk.filterMap (tableNamed name)).reverse.head?).map (·.2) := by
  have hread : (recordedNames select).filter (·.1 = name) =
      select.sources.flatMap fun source => source.walk.filterMap (tableNamed name) := by
    rw [recordedNames, List.filter_flatMap]
    refine List.flatMap_congr fun source _ => ?_
    rw [List.filter_filterMap]
    rfl
  rw [lastNamed, ← List.head?_filter, List.filter_reverse, hread]

private theorem lastNamed_of_unique (hx : x ∈ recordedNames select)
    (hall : ∀ y ∈ recordedNames select, y.1 = x.1 → y.2 = x.2) :
    lastNamed select x.1 = some x.2 := by
  rw [lastNamed]
  cases hfind : (recordedNames select).reverse.find? (·.1 = x.1) with
  | none =>
    have hmiss := List.find?_eq_none.1 hfind x (List.mem_reverse.2 hx)
    simp at hmiss
  | some y =>
    have hy := List.mem_reverse.1 (List.mem_of_find?_eq_some hfind)
    rw [Option.map_some, hall y hy (by simpa using List.find?_some hfind)]

/-- A name that no table below an ON clause goes by. -/
private theorem blankOn_of_unused {name : String} (h : ∀ x ∈ onNames select, x.1 ≠ name)
    {source : SqlNode} (hsource : source ∈ select.sources) : BlankOn (tableNamed name) source := by
  intro join hbelow hjoin on hon m hm
  cases hx : m.tableRef with
  | none => rw [tableNamed, hx, Option.filter_none]
  | some x =>
    have hmem : x ∈ onNames select :=
      mem_onNames.2 ⟨source, hsource, join, hbelow, hjoin, on, hon, m, hm, hx⟩
    have hne : x.1 ≠ name := h x hmem
    rw [tableNamed, hx, Option.filter_some, if_neg (by simpa using hne)]

theorem NamesSettled.respelled (h : Respelled chain select select')
    (hselect : select.kind = .select) (hsettled : NamesSettled select) : NamesSettled select' := by
  have hsources' := rel_sources h.symm (h.kind_eq ▸ hselect)
  exact fun x hx y hy =>
    hsettled x (onNames_subset hsources' hx) y (recordedNames_subset hsources' hy)

/-- A settled name means the same table in every spelling. -/
theorem lastNamed_respelled (h : Respelled chain select select') (hselect : select.kind = .select)
    (hsettled : NamesSettled select) : lastNamed select' = lastNamed select := by
  have hsources := rel_sources h hselect
  have hsources' := rel_sources h.symm (h.kind_eq ▸ hselect)
  funext name
  by_cases hused : ∃ x ∈ onNames select, x.1 = name
  · obtain ⟨x, hx, rfl⟩ := hused
    have hmem := onNames_subset_recordedNames hx
    rw [lastNamed_of_unique hmem fun y hy hname => (hsettled x hx y hy hname.symm).symm]
    refine lastNamed_of_unique (recordedNames_subset hsources hmem) fun y hy hname => ?_
    exact (hsettled x hx y (recordedNames_subset hsources' hy) hname.symm).symm
  · have hunused : ∀ x ∈ onNames select, x.1 ≠ name := fun x hx hname => hused ⟨x, hx, hname⟩
    have hunused' : ∀ x ∈ onNames select', x.1 ≠ name :=
      fun x hx => hunused x (onNames_subset hsources' hx)
    rw [lastNamed_eq_head?, lastNamed_eq_head?]
    congr 3
    have hblank := fun source hsource => @blankOn_of_unused select name hunused source hsource
    have hblank' := fun source hsource => @blankOn_of_unused select' name hunused' source hsource
    clear hsources'
    generalize select.sources = sources at hsources hblank
    generalize select'.sources = sources' at hsources hblank'
    induction hsources with
    | nil => rfl
    | cons hn _ ih =>
      rw [List.flatMap_cons, List.flatMap_cons,
        walk_tableNamed_congr hn (hblank _ List.mem_cons_self) (hblank' _ List.mem_cons_self),
        ih (fun n hn => hblank n (List.mem_cons_of_mem _ hn))
          fun n hn => hblank' n (List.mem_cons_of_mem _ hn)]

end Names

end SchemaBrain.Joins
