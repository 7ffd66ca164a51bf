import SchemaBrain.Core.Schema

/-!
# The statements of the schema as a script

What each statement of `Core.Schema` reads and what it changes, so that a whole script can be
judged on the file it starts from.
-/

namespace SchemaBrain.Core.Schema

open SchemaBrain.Base

/-! ## What a statement changes -/

def TableState.ensureColumn (T : TableState) (c : ColumnDecl) : TableState :=
  if c.name ∈ T.names then T else T.addColumn c

def TableState.backfilled (T : TableState) : TableState :=
  { T with rows := T.rows.map backfilledRow }

namespace Statement

/-- The metadata after a statement that ran. -/
def onMeta : Statement → Option (String → Option String) → Option (String → Option String)
  | createMeta, m => some (m.getD fun _ => none)
  | setVersion value, m =>
    m.map fun m => Function.update m versionKey ((m versionKey).map fun _ => value)
  | insertVersion value, m =>
    m.map fun m => Function.update m versionKey (some ((m versionKey).getD value))
  | _, m => m

/-- The table called `t` after a statement that ran. -/
def onTable (t : String) : Statement → Option TableState → Option TableState
  | createTable name columns, T => if t = name then some (T.getD ⟨columns, []⟩) else T
  | addColumn table c, T | addColumnIfTable table c, T =>
    if t = table then T.map (·.addColumn c) else T
  | addColumnIfMissing table c, T => if t = table then T.map (·.ensureColumn c) else T
  | backfillOrigin table, T => if t = table then T.map TableState.backfilled else T
  | _, T => T

/-- The names of indexes and triggers after a statement that ran. -/
def onObjects : Statement → List String → List String
  | createIndex ix, names => if ix.name ∈ names then names else ix.name :: names
  | createTrigger name _, names => if name ∈ names then names else name :: names
  | _, names => names

def effect (a : Statement) (db : Database) : Database where
  metaRows := a.onMeta db.metaRows
  tables t := a.onTable t (db.tables t)
  objects := a.onObjects db.objects

@[simp]
theorem effect_tables (a : Statement) (db : Database) (t : String) :
    (a.effect db).tables t = a.onTable t (db.tables t) := rfl

/-! ## What a statement finds -/

/-- What earlier statements of a script have put in place. -/
inductive Need
  | metadata
  | table (name : String)
  | column (table name : String)
  deriving DecidableEq

def Need.holds (db : Database) : Need → Prop
  | metadata => ∃ m, db.metaRows = some m
  | table name => ∃ T, db.tables name = some T
  | column name c => ∃ T, db.tables name = some T ∧ c ∈ T.names

def needs : Statement → List Need
  | setVersion _ | insertVersion _ => [.metadata]
  | createIndex ix => [.table ix.table]
  | createTrigger _ table | addColumnIfMissing table _ => [.table table]
  | backfillOrigin table =>
    [.table table, .column table "inference_method", .column table "validation_state"]
  | _ => []

def provides : Statement → List Need
  | createMeta => [.metadata]
  | createTable name _ => [.table name]
  | addColumn table c => [.table table, .column table c.name]
  | _ => []

/-- What a statement asks of the file, beyond what it needs. -/
def allowed : Statement → Database → Prop
  | addColumn table c, db => ∃ T, db.tables table = some T ∧ c.name ∉ T.names
  | addColumnIfTable table c, db => ∀ T, db.tables table = some T → c.name ∉ T.names
  | backfillOrigin table, db => ∀ T, db.tables table = some T →
    "origin" ∈ T.names ∧ ∀ row ∈ T.rows, Backfillable row
  | createIndex ix, db => ix.name ∈ db.objects ∨ ∀ T, db.tables ix.table = some T → T.Admits ix
  | _, _ => True

/-- The table and the columns of it that `allowed` looks at. -/
def reads : Statement → Option (String × List String)
  | addColumn table c | addColumnIfTable table c => some (table, [c.name])
  | backfillOrigin table => some (table, ["origin"])
  | createIndex ix => some (ix.table, ix.columns)
  | _ => none

/-- A statement that leaves alone whether the columns of a table are there, and their values. -/
def spares (table : String) (columns : List String) : Statement → Bool
  | createTable name _ => name ≠ table
  | addColumn name c | addColumnIfTable name c | addColumnIfMissing name c =>
    name ≠ table || c.name ∉ columns
  | backfillOrigin name =>
    name ≠ table || ("inference_method" ∉ columns && "validation_state" ∉ columns)
  | _ => true

/-- A statement that creates the table of an index with the columns of the index. -/
def suits (ix : IndexDecl) : Statement → Bool
  | createTable name columns => name = ix.table && ix.columns ⊆ columns.map ColumnDecl.name
  | _ => false

/-- The name a statement gives to an index or a trigger. -/
def object : Statement → Option String
  | createIndex ix => some ix.name
  | createTrigger name _ => some name
  | _ => none

/-- `a` does not change whether `b` is allowed. -/
def independent (a b : Statement) : Bool :=
  match b, b.reads with
  | createIndex ix, _ =>
    a.object ≠ some ix.name && (a.spares ix.table ix.columns || a.suits ix)
  | _, some (table, columns) => a.spares table columns
  | _, none => true

end Statement

/-! ## What statements leave alone -/

/-- Two states of a table that agree on some columns. -/
def SameOn (columns : List String) (T T' : TableState) : Prop :=
  (∀ c ∈ columns, (c ∈ T.names ↔ c ∈ T'.names)) ∧
    ∃ f : TableRow → TableRow, T'.rows = T.rows.map f ∧ ∀ row, ∀ c ∈ columns, f row c = row c

namespace SameOn

variable {columns : List String} {T T' : TableState}

theorem refl : SameOn columns T T := ⟨fun _ _ => .rfl, id, by simp, fun _ _ _ => rfl⟩

theorem addColumn {c : ColumnDecl} (h : c.name ∉ columns) :
    SameOn columns T (T.addColumn c) := by
  refine ⟨fun x hx => ?_, fun row => Function.update row c.name c.default, rfl, ?_⟩
  · simp [TableState.names, TableState.addColumn, ne_of_mem_of_not_mem hx h]
  · intro row x hx
    exact Function.update_of_ne (ne_of_mem_of_not_mem hx h) _ _

theorem ensureColumn {c : ColumnDecl} (h : c.name ∉ columns) :
    SameOn columns T (T.ensureColumn c) := by
  unfold TableState.ensureColumn
  split
  · exact refl
  · exact addColumn h

theorem backfilled (him : "inference_method" ∉ columns) (hvs : "validation_state" ∉ columns) :
    SameOn columns T T.backfilled := by
  refine ⟨fun _ _ => .rfl, backfilledRow, rfl, fun row x hx => ?_⟩
  unfold backfilledRow
  rw [Function.update_of_ne (ne_of_mem_of_not_mem hx hvs),
    Function.update_of_ne (ne_of_mem_of_not_mem hx him)]

theorem admits_iff {ix : IndexDecl} (h : SameOn ix.columns T T') : T'.Admits ix ↔ T.Admits ix := by
  obtain ⟨hnames, f, hrows, hf⟩ := h
  have hclash (row row' : TableRow) : TableState.Clash ix.columns (f row) (f row') ↔
      TableState.Clash ix.columns row row' := by
    refine forall₂_congr fun c hc => ?_
    rw [hf row c hc, hf row' c hc]
  unfold TableState.Admits
  rw [hrows, List.pairwise_map]
  simp only [hclash]
  rw [forall₂_congr fun c hc => (hnames c hc).symm]

end SameOn

namespace Statement

/-- A table that a statement spares agrees with what it was. -/
theorem onTable_sameOn {a : Statement} {table : String} {columns : List String}
    (h : a.spares table columns = true) (T : Option TableState) :
    Option.Rel (SameOn columns) T (a.onTable table T) := by
  have hrefl : ∀ T, Option.Rel (SameOn columns) T T := fun T => by
    cases T with
    | none => exact .none
    | some T => exact .some .refl
  have hmap : ∀ {name : String} {f : TableState → TableState},
      (name = table → ∀ T, SameOn columns T (f T)) →
      Option.Rel (SameOn columns) T (if table = name then T.map f else T) := by
    intro name f hf
    split
    · next heq =>
      cases T with
      | none => exact .none
      | some T => exact .some (hf heq.symm T)
    · exact hrefl T
  cases a <;> simp only [spares, onTable, Bool.or_eq_true, Bool.and_eq_true,
    decide_not, Bool.not_eq_true', decide_eq_false_iff_not] at h ⊢
  case createTable name cols => rw [if_neg fun heq => h heq.symm]; exact hrefl T
  case addColumn name c => exact hmap fun heq _ => .addColumn (h.resolve_left (· heq))
  case addColumnIfTable name c => exact hmap fun heq _ => .addColumn (h.resolve_left (· heq))
  case addColumnIfMissing name c => exact hmap fun heq _ => .ensureColumn (h.resolve_left (· heq))
  case backfillOrigin name =>
    exact hmap fun heq _ =>
      .backfilled (h.resolve_left (· heq)).1 (h.resolve_left (· heq)).2
  all_goals exact hrefl T

private theorem setTable_eq {db : Database} {name : String} {T : TableState}
    {tables : String → Option TableState} (hself : tables name = some T)
    (hother : ∀ t, t ≠ name → tables t = db.tables t) :
    db.setTable name T = { db with tables := tables } := by
  unfold Database.setTable
  congr 1
  funext t
  by_cases heq : t = name
  · rw [heq, Function.update_self, hself]
  · rw [Function.update_of_ne heq, hother t heq]

private theorem withTables_eq {db : Database} {tables : String → Option TableState}
    (h : ∀ t, tables t = db.tables t) : { db with tables := tables } = db := by
  obtain rfl : tables = db.tables := funext h
  rfl

private theorem addColumn_eq {db : Database} {table : String} {c : ColumnDecl} {T : TableState}
    (hT : db.tables table = some T) (hc : c.name ∉ T.names) :
    db.addColumn table c = some { db with
      tables := fun t =>
        if t = table then (db.tables t).map (·.addColumn c) else db.tables t } := by
  simp only [Database.addColumn, hT, hc, if_false]
  exact congrArg some (setTable_eq (by simp [hT]) fun t ht => if_neg ht)

/-- A statement that has what it needs and is allowed has its effect. -/
theorem exec_eq_effect {a : Statement} {db : Database} (hneeds : ∀ n ∈ a.needs, n.holds db)
    (hallowed : a.allowed db) : exec a db = some (a.effect db) := by
  cases a with
  | begin | commit | selectVersion | createMeta => rfl
  | setVersion value | insertVersion value =>
    obtain ⟨m, hm⟩ := hneeds .metadata (by simp [needs])
    simp [exec, effect, onMeta, onTable, onObjects, hm]
  | createTable name columns =>
    cases hT : db.tables name with
    | none =>
      simp only [exec, hT]
      exact congrArg some (setTable_eq (by simp [onTable, hT]) fun t ht => if_neg ht)
    | some T =>
      simp only [exec, hT]
      refine congrArg some (withTables_eq fun t => ?_).symm
      simp only [onTable]
      by_cases heq : t = name
      · rw [if_pos heq, heq, hT, Option.getD_some]
      · rw [if_neg heq]
  | createIndex ix =>
    obtain ⟨T, hT⟩ := hneeds (.table ix.table) (by simp [needs])
    simp only [exec, effect, onMeta, onTable, onObjects, hT]
    rcases hallowed with hname | hadmits
    · rw [if_pos hname, if_pos hname]
    · rw [if_pos (hadmits T hT)]
      split <;> rfl
  | createTrigger name table =>
    obtain ⟨T, hT⟩ := hneeds (.table table) (by simp [needs])
    simp only [exec, effect, onMeta, onTable, onObjects, hT]
    split <;> rfl
  | addColumn table c =>
    obtain ⟨T, hT, hc⟩ := hallowed
    exact addColumn_eq hT hc
  | addColumnIfTable table c =>
    cases hT : db.tables table with
    | none =>
      simp only [exec, hT]
      refine congrArg some (withTables_eq fun t => ?_).symm
      simp only [onTable]
      by_cases heq : t = table
      · rw [if_pos heq, heq, hT, Option.map_none]
      · rw [if_neg heq]
    | some T =>
      simp only [exec, hT]
      exact addColumn_eq hT (hallowed T hT)
  | addColumnIfMissing table c =>
    obtain ⟨T, hT⟩ := hneeds (.table table) (by simp [needs])
    simp only [exec, hT]
    by_cases hc : c.name ∈ T.names
    · rw [if_pos hc]
      refine congrArg some (withTables_eq fun t => ?_).symm
      simp only [onTable]
      by_cases heq : t = table
      · rw [if_pos heq, heq, hT, Option.map_some, TableState.ensureColumn, if_pos hc]
      · rw [if_neg heq]
    · rw [if_neg hc, addColumn_eq hT hc]
      simp only [effect, onMeta, onTable, onObjects]
      congr
      funext t
      by_cases heq : t = table
      · rw [if_pos heq, if_pos heq, heq, hT, Option.map_some, Option.map_some,
          TableState.ensureColumn, if_neg hc]
      · rw [if_neg heq, if_neg heq]
  | backfillOrigin table =>
    obtain ⟨T, hT⟩ := hneeds (.table table) (by simp [needs])
    obtain ⟨T', hT', him⟩ := hneeds (.column table "inference_method") (by simp [needs])
    obtain ⟨T'', hT'', hvs⟩ := hneeds (.column table "validation_state") (by simp [needs])
    obtain rfl : T = T' := Option.some.inj (hT.symm.trans hT')
    obtain rfl : T = T'' := Option.some.inj (hT.symm.trans hT'')
    obtain ⟨horigin, hrows⟩ := hallowed T hT
    simp only [exec, hT]
    rw [if_pos ⟨by simp [horigin, him, hvs], hrows⟩]
    exact congrArg some
      (setTable_eq (by simp [onTable, hT, TableState.backfilled]) fun t ht => if_neg ht)

/-- A statement that ran had what it needs and was allowed. -/
theorem allowed_of_exec {a : Statement} {db db' : Database} (h : exec a db = some db') :
    (∀ n ∈ a.needs, n.holds db) ∧ a.allowed db := by
  cases a with
  | begin | commit | selectVersion | createMeta | createTable => simp [needs, allowed]
  | setVersion value | insertVersion value =>
    cases hm : db.metaRows <;> simp [exec, needs, Need.holds, allowed, hm] at h ⊢
  | createIndex ix =>
    cases hT : db.tables ix.table with
    | none => simp [exec, hT] at h
    | some T =>
      simp only [exec, hT] at h
      refine ⟨by simp [needs, Need.holds, hT], ?_⟩
      split at h
      · next hname => exact .inl hname
      · split at h
        · next hadmits => exact .inr fun T' hT' => Option.some.inj (hT.symm.trans hT') ▸ hadmits
        · cases h
  | createTrigger name table =>
    cases hT : db.tables table <;> simp [exec, needs, Need.holds, allowed, hT] at h ⊢
  | addColumn table c =>
    simp only [exec, Database.addColumn] at h
    cases hT : db.tables table with
    | none => simp [hT] at h
    | some T =>
      refine ⟨by simp [needs], T, hT, fun hc => ?_⟩
      simp [hT, hc] at h
  | addColumnIfTable table c =>
    refine ⟨by simp [needs], fun T hT hc => ?_⟩
    simp [exec, Database.addColumn, hT, hc] at h
  | addColumnIfMissing table c =>
    cases hT : db.tables table <;> simp [exec, needs, Need.holds, allowed, hT] at h ⊢
  | backfillOrigin table =>
    cases hT : db.tables table with
    | none => simp [exec, hT] at h
    | some T =>
      simp only [exec, hT] at h
      split at h
      · next hran =>
        obtain ⟨hcolumns, hrows⟩ := hran
        refine ⟨?_, fun T' hT' => ?_⟩
        · have him := hcolumns "inference_method" (by simp)
          have hvs := hcolumns "validation_state" (by simp)
          simp [needs, Need.holds, hT, him, hvs]
        · obtain rfl : T = T' := Option.some.inj (hT.symm.trans hT')
          exact ⟨hcolumns "origin" (by simp), hrows⟩
      · cases h

/-- A statement ran when it had what it needs and was allowed, and then had its effect. -/
theorem exec_eq_some_iff {a : Statement} {db db' : Database} :
    exec a db = some db' ↔
      (∀ n ∈ a.needs, n.holds db) ∧ a.allowed db ∧ db' = a.effect db := by
  constructor
  · intro h
    obtain ⟨hneeds, hallowed⟩ := allowed_of_exec h
    rw [exec_eq_effect hneeds hallowed] at h
    exact ⟨hneeds, hallowed, (Option.some.inj h).symm⟩
  · rintro ⟨hneeds, hallowed, rfl⟩
    exact exec_eq_effect hneeds hallowed

/-- No statement drops a table or a column. -/
theorem onTable_some (a : Statement) (t : String) (T : TableState) :
    ∃ T', a.onTable t (some T) = some T' ∧ T.names ⊆ T'.names := by
  have hadd : ∀ c : ColumnDecl, T.names ⊆ (T.addColumn c).names := fun c => by
    simp [TableState.names, TableState.addColumn]
  have hif : ∀ {name : String} {f : TableState → TableState}, T.names ⊆ (f T).names →
      ∃ T', (if t = name then (some T).map f else some T) = some T' ∧ T.names ⊆ T'.names := by
    intro name f hf
    split
    · exact ⟨f T, rfl, hf⟩
    · exact ⟨T, rfl, List.Subset.refl _⟩
  cases a with
  | begin | commit | selectVersion | createMeta | setVersion | insertVersion | createIndex
  | createTrigger => exact ⟨T, rfl, List.Subset.refl _⟩
  | createTable name columns =>
    refine ⟨T, ?_, List.Subset.refl _⟩
    simp [onTable]
  | addColumn table c | addColumnIfTable table c => exact hif (hadd c)
  | addColumnIfMissing table c =>
    refine hif ?_
    unfold TableState.ensureColumn
    split
    · exact List.Subset.refl _
    · exact hadd c
  | backfillOrigin table => exact hif (List.Subset.refl _)

theorem holds_effect {n : Need} {a : Statement} {db : Database} (h : n.holds db) :
    n.holds (a.effect db) := by
  cases n with
  | metadata =>
    obtain ⟨m, hm⟩ := h
    cases a <;> simp [Need.holds, effect, onMeta, hm]
  | table name =>
    obtain ⟨T, hT⟩ := h
    obtain ⟨T', hT', -⟩ := onTable_some a name T
    exact ⟨T', by rw [effect_tables, hT, hT']⟩
  | column name c =>
    obtain ⟨T, hT, hc⟩ := h
    obtain ⟨T', hT', hnames⟩ := onTable_some a name T
    exact ⟨T', by rw [effect_tables, hT, hT'], hnames hc⟩

theorem holds_provides {n : Need} {a : Statement} {db : Database} (hallowed : a.allowed db)
    (hn : n ∈ a.provides) : n.holds (a.effect db) := by
  cases a <;> simp only [provides, List.not_mem_nil, List.mem_cons, or_false] at hn
  case createMeta =>
    subst hn
    exact ⟨_, rfl⟩
  case createTable name columns =>
    subst hn
    exact ⟨(db.tables name).getD ⟨columns, []⟩, if_pos rfl⟩
  case addColumn table c =>
    obtain ⟨T, hT, -⟩ := hallowed
    have hafter : ((addColumn table c).effect db).tables table = some (T.addColumn c) := by
      simp [effect, onTable, hT]
    rcases hn with rfl | rfl
    · exact ⟨_, hafter⟩
    · exact ⟨_, hafter, by simp [TableState.names, TableState.addColumn]⟩

theorem onObjects_iff {a : Statement} {name : String} (h : a.object ≠ some name)
    (names : List String) : name ∈ a.onObjects names ↔ name ∈ names := by
  have hcons : ∀ other : String, other ≠ name →
      (name ∈ (if other ∈ names then names else other :: names) ↔ name ∈ names) := by
    intro other hne
    split
    · exact .rfl
    · simp [hne.symm]
  cases a with
  | createIndex ix => exact hcons ix.name fun heq => h (congrArg some heq)
  | createTrigger other table => exact hcons other fun heq => h (congrArg some heq)
  | _ => exact .rfl

/-- What `a` does not change for `b`, it does not change. -/
theorem allowed_effect_iff {a b : Statement} {db : Database} (h : a.independent b = true) :
    b.allowed (a.effect db) ↔ b.allowed db := by
  have hsame {table : String} {columns : List String} (hspares : a.spares table columns = true) :
      Option.Rel (SameOn columns) (db.tables table) ((a.effect db).tables table) :=
    onTable_sameOn hspares _
  cases b with
  | addColumn table c =>
    have hrel := hsame h
    simp only [allowed]
    generalize (a.effect db).tables table = after, db.tables table = before at hrel ⊢
    cases hrel with
    | none => exact .rfl
    | some hsame => simp [hsame.1 c.name (by simp)]
  | addColumnIfTable table c =>
    have hrel := hsame h
    simp only [allowed]
    generalize (a.effect db).tables table = after, db.tables table = before at hrel ⊢
    cases hrel with
    | none => exact .rfl
    | some hsame => simp [hsame.1 c.name (by simp)]
  | backfillOrigin table =>
    have hrel := hsame h
    simp only [allowed]
    generalize (a.effect db).tables table = after, db.tables table = before at hrel ⊢
    cases hrel with
    | none => exact .rfl
    | some hsame =>
      obtain ⟨hnames, f, hrows, hf⟩ := hsame
      simp [hnames "origin" (by simp), hrows, Backfillable, hf _ "origin" (by simp)]
  | createIndex ix =>
    simp only [independent, Bool.and_eq_true, decide_eq_true_eq, Bool.or_eq_true] at h
    obtain ⟨hobject, htable⟩ := h
    simp only [allowed]
    refine or_congr (onObjects_iff hobject _) ?_
    rcases htable with hspares | hsuits
    · have hrel := hsame hspares
      generalize (a.effect db).tables ix.table = after, db.tables ix.table = before at hrel ⊢
      cases hrel with
      | none => exact .rfl
      | some hsame => simp [hsame.admits_iff]
    · -- The table that `a` creates when it is missing admits the index.
      cases a <;> simp only [suits, Bool.false_eq_true, Bool.and_eq_true, decide_eq_true_eq]
        at hsuits
      case createTable name columns =>
        obtain ⟨rfl, hcolumns⟩ := hsuits
        have hempty : TableState.Admits ⟨columns, []⟩ ix :=
          ⟨fun c hc => hcolumns hc, fun _ => .nil⟩
        cases hT : db.tables ix.table <;> simp [onTable, hT, hempty]
  | _ => exact .rfl

end Statement

/-- The statements of the schema can be judged ahead of their turn. -/
def schemaRules : ScriptRules Database Statement Statement.Need where
  exec := exec
  allowed := Statement.allowed
  effect := Statement.effect
  needs := Statement.needs
  provides := Statement.provides
  holds n db := n.holds db
  independent := Statement.independent
  exec_eq_some_iff := Statement.exec_eq_some_iff
  holds_effect := Statement.holds_effect
  holds_provides _ := Statement.holds_provides
  allowed_effect_iff h _ _ := Statement.allowed_effect_iff h

/-! ## A table through a script -/

/-- The table called `t` after a script that ran. -/
def onTableAll (t : String) (script : List Statement) (T : Option TableState) :
    Option TableState :=
  script.foldl (fun T a => a.onTable t T) T

theorem effects_tables (script : List Statement) (db : Database) (t : String) :
    (schemaRules.effects script db).tables t = onTableAll t script (db.tables t) := by
  induction script generalizing db with
  | nil => rfl
  | cons a rest ih => exact ih (a.effect db)

theorem effects_metaRows (script : List Statement) (db : Database) :
    (schemaRules.effects script db).metaRows =
      script.foldl (fun m a => a.onMeta m) db.metaRows := by
  induction script generalizing db with
  | nil => rfl
  | cons a rest ih => exact ih (a.effect db)

end SchemaBrain.Core.Schema
