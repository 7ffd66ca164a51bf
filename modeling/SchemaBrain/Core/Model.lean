import Mathlib.Data.List.Basic
import Mathlib.Data.List.Sort
import Mathlib.Data.String.Basic
import SchemaBrain.Base.Python

/-!
# The semantic layer's definitions

Physical tables, entities bound to them, canonical joins between entities, metrics
anchored on them, and column tags. A value carries the checks of its constructor.
-/

namespace SchemaBrain.Core

/-- A first character of `_IDENT_RE`. -/
def isIdentStart (c : Char) : Bool := c.isAlpha || c = '_'

/-- A later character of `_IDENT_RE`. -/
def isIdentChar (c : Char) : Bool := c.isAlphanum || c = '_' || c = '$'

/-- `[A-Za-z_][A-Za-z0-9_$]*` on characters. -/
def isIdentChars : List Char → Bool
  | [] => false
  | c :: rest => isIdentStart c && rest.all isIdentChar

/-- A full match of `_IDENT_RE`. -/
def isIdent (s : String) : Bool := isIdentChars s.toList

/-- `text.split(".", 1)` of a text with a dot: the parts around the first one. -/
def splitDot (text : String) : String × String :=
  (String.ofList (text.toList.takeWhile (· ≠ '.')),
    String.ofList ((text.toList.dropWhile (· ≠ '.')).drop 1))

/-- A full match of `_QUALIFIED_COLUMN_RE`, as its two groups. -/
def parseQualifiedColumn (text : String) : Option (String × String) :=
  let (entity, column) := splitDot text
  if '.' ∈ text.toList ∧ isIdent entity ∧ isIdent column then some (entity, column) else none

private theorem takeWhile_dot {l : List Char} (h : '.' ∈ l) :
    l.takeWhile (· ≠ '.') ++ '.' :: (l.dropWhile (· ≠ '.')).drop 1 = l := by
  induction l with
  | nil => simp at h
  | cons c l ih =>
    by_cases hc : c = '.'
    · simp [hc]
    · have hmem : '.' ∈ l := (List.mem_cons.1 h).resolve_left (Ne.symm hc)
      simpa [hc] using ih hmem

/-- A text with a dot is its two parts. -/
theorem splitDot_join {text : String} (h : '.' ∈ text.toList) :
    (splitDot text).1 ++ "." ++ (splitDot text).2 = text := by
  apply String.toList_injective
  simp only [splitDot, String.toList_append, String.toList_ofList, List.append_assoc]
  exact takeWhile_dot h

private theorem takeWhile_append_dot {l : List Char} (l' : List Char) (h : '.' ∉ l) :
    (l ++ '.' :: l').takeWhile (· ≠ '.') = l ∧
      (l ++ '.' :: l').dropWhile (· ≠ '.') = '.' :: l' := by
  induction l with
  | nil => simp
  | cons c l ih =>
    rw [List.mem_cons, not_or] at h
    have hc : c ≠ '.' := Ne.symm h.1
    simpa [hc] using ih h.2

/-- An identifier has identifier characters only. -/
theorem isIdentChar_of_mem {s : String} (h : isIdent s = true) {c : Char} (hc : c ∈ s.toList) :
    isIdentChar c = true := by
  unfold isIdent at h
  cases hs : s.toList with
  | nil => simp [hs] at hc
  | cons first rest =>
    simp only [hs, isIdentChars, Bool.and_eq_true, List.all_eq_true] at h
    rw [hs] at hc
    rcases List.mem_cons.1 hc with rfl | hc
    · have hstart := h.1
      simp only [isIdentStart, Bool.or_eq_true, decide_eq_true_eq] at hstart
      rcases hstart with halpha | rfl
      · simp [isIdentChar, Char.isAlphanum, halpha]
      · decide
    · exact h.2 c hc

private theorem dot_not_mem_ident {s : String} (h : isIdent s = true) : '.' ∉ s.toList :=
  fun hmem => absurd (isIdentChar_of_mem h hmem) (by decide)

/-- The parts of a text that starts with an identifier and a dot. -/
theorem splitDot_append {entity : String} (h : isIdent entity = true) (column : String) :
    splitDot (entity ++ "." ++ column) = (entity, column) := by
  have hchars : (entity ++ "." ++ column).toList = entity.toList ++ '.' :: column.toList := by
    simp [String.toList_append]
  obtain ⟨htake, hdrop⟩ := takeWhile_append_dot column.toList (dot_not_mem_ident h)
  simp only [splitDot, hchars, htake, hdrop, List.drop_one, List.tail_cons, String.ofList_toList]

/-- A parsed reference is its parts, and a qualified text. -/
theorem parseQualifiedColumn_spec {text : String} {p : String × String}
    (h : parseQualifiedColumn text = some p) :
    splitDot text = p ∧ p.1 ++ "." ++ p.2 = text := by
  unfold parseQualifiedColumn at h
  simp only at h
  split at h
  · next hform =>
    obtain rfl := Option.some.inj h
    exact ⟨rfl, splitDot_join hform.1⟩
  · simp at h

/-- The parts of a parsed reference are identifiers. -/
theorem parseQualifiedColumn_ident {text : String} {p : String × String}
    (h : parseQualifiedColumn text = some p) : isIdent p.1 = true ∧ isIdent p.2 = true := by
  unfold parseQualifiedColumn at h
  simp only at h
  split at h
  · next hform =>
    obtain rfl := Option.some.inj h
    exact hform.2
  · simp at h

/-- More identifier characters after an identifier. -/
theorem isIdent_append {s s' : String} (h : isIdent s = true)
    (h' : s'.toList.all isIdentChar = true) : isIdent (s ++ s') = true := by
  unfold isIdent at h ⊢
  rw [String.toList_append]
  cases hs : s.toList with
  | nil => simp [hs, isIdentChars] at h
  | cons c rest =>
    rw [hs, isIdentChars, Bool.and_eq_true] at h
    rw [List.cons_append, isIdentChars, List.all_append, h.1, h.2, h']
    rfl

/-- A number's digits are identifier characters. -/
theorem isIdentChar_digits (n : Nat) : (toString n).toList.all isIdentChar = true := by
  rw [Nat.toString_eq_ofList_toDigits, String.toList_ofList, List.all_eq_true]
  intro c hc
  have hdigit := Nat.isDigit_of_mem_toDigits (by omega) (by omega) hc
  simp [isIdentChar, Char.isAlphanum, hdigit]

/-! ## Tables -/

/-- The key of a physical table within one source. -/
structure QualifiedTable where
  schema : String
  table : String
  deriving DecidableEq, Repr

/-- The `schema.table` form. -/
def QualifiedTable.text (q : QualifiedTable) : String := q.schema ++ "." ++ q.table

/-- One physical column. -/
structure Column where
  name : String
  dataType : String
  nullable : Bool := true
  ordinalPosition : Nat := 1
  default : Option String := none
  isPrimaryKey : Bool := false
  deriving DecidableEq, Repr

/-- One declared foreign key. -/
structure ForeignKey where
  name : String
  sourceColumns : List String
  targetSchema : String
  targetTable : String
  targetColumns : List String
  deriving DecidableEq, Repr

/-- One physical table with its columns and foreign keys. -/
structure Table where
  qualified : QualifiedTable
  columns : List Column
  foreignKeys : List ForeignKey := []
  deriving DecidableEq, Repr

/-! ## Entities and canonical joins -/

/-- `Origin`, and the same set for joins and metrics. -/
inductive Origin
  | manual
  | suggested
  | dbtImport
  deriving DecidableEq, Repr

/-- `InferenceMethod`. -/
inductive InferenceMethod
  | manuallyAuthored
  | llmSuggested
  | fkConstraint
  | dbtImport
  | observedInQueryLog
  deriving DecidableEq, Repr

/-- `ValidationState`. -/
inductive ValidationState
  | draft
  | applied
  | confirmed
  deriving DecidableEq, Repr

/-- A domain name for one physical table. -/
structure Entity where
  name : String
  binding : QualifiedTable
  identity : String
  name_ident : isIdent name = true := by exact Eq.refl true
  binding_ident : (isIdent binding.schema && isIdent binding.table) = true := by exact Eq.refl true
  identity_ident : isIdent identity = true := by exact Eq.refl true
  deriving DecidableEq

/-- How many rows of each side a canonical join links. -/
inductive Cardinality
  | oneToOne
  | oneToMany
  | manyToOne
  | manyToMany
  deriving DecidableEq, Repr

/-- `flip_cardinality` of a known cardinality. -/
def Cardinality.flip : Cardinality → Cardinality
  | .oneToMany => .manyToOne
  | .manyToOne => .oneToMany
  | .oneToOne => .oneToOne
  | .manyToMany => .manyToMany

/-- The cardinality seen when a join is traversed against its stored direction. -/
def flipCardinality (c : Option Cardinality) : Option Cardinality := c.map Cardinality.flip

/-- One equi-join predicate of a canonical join. -/
structure JoinColumnPair where
  sourceColumn : String
  targetColumn : String
  source_ident : isIdent sourceColumn = true := by exact Eq.refl true
  target_ident : isIdent targetColumn = true := by exact Eq.refl true
  deriving DecidableEq

/-- The pair read from the other side. -/
def JoinColumnPair.swap (p : JoinColumnPair) : JoinColumnPair :=
  ⟨p.targetColumn, p.sourceColumn, p.target_ident, p.source_ident⟩

/-- A named equi-join between two different entities. -/
structure CanonicalJoin where
  name : String
  sourceEntity : String
  targetEntity : String
  on : List JoinColumnPair
  cardinality : Option Cardinality := none
  name_ident : isIdent name = true := by exact Eq.refl true
  source_ident : isIdent sourceEntity = true := by exact Eq.refl true
  target_ident : isIdent targetEntity = true := by exact Eq.refl true
  no_self : sourceEntity ≠ targetEntity := by decide
  on_ne_nil : on ≠ [] := by decide
  deriving DecidableEq

/-! ## Metrics -/

/-- `AggFunction`. -/
inductive AggFunction
  | sum
  | count
  | countDistinct
  | avg
  | min
  | max
  deriving DecidableEq, Repr

/-- The wire word of an aggregate. -/
def AggFunction.word : AggFunction → String
  | .sum => "sum"
  | .count => "count"
  | .countDistinct => "count_distinct"
  | .avg => "avg"
  | .min => "min"
  | .max => "max"

/-- `TimeGrain`, in its canonical order. -/
inductive TimeGrain
  | day
  | week
  | month
  | quarter
  | year
  deriving DecidableEq, Repr

namespace TimeGrain

/-- The wire word of a grain. -/
def word : TimeGrain → String
  | day => "day"
  | week => "week"
  | month => "month"
  | quarter => "quarter"
  | year => "year"

/-- `_TIME_GRAIN_RANK`. -/
def rank : TimeGrain → Nat
  | day => 0
  | week => 1
  | month => 2
  | quarter => 3
  | year => 4

/-- The grain that a wire word names, if it is in `_VALID_GRAINS`. -/
def ofWord (word : String) : Option TimeGrain :=
  [day, week, month, quarter, year].find? (·.word = word)

end TimeGrain

/-- The binary operators of a measure expression. -/
inductive BinOp
  | add
  | sub
  | mult
  | div
  deriving DecidableEq, Repr

/-- `_BINOP_SQL`. -/
def BinOp.sql : BinOp → String
  | .add => "+"
  | .sub => "-"
  | .mult => "*"
  | .div => "/"

/-- The `repr` of a finite float: digits, a point and an exponent. -/
structure FloatRepr where
  text : String
  plain : (text.toList.all fun c => c.isDigit || c ∈ ['.', 'e', '+', '-']) = true := by
    exact Eq.refl true
  shape : Base.isFloatText text = true := by exact Eq.refl true
  deriving DecidableEq, Repr

/-- A parsed measure expression. A float literal is kept as its `repr`. -/
inductive MeasureExpr
  | name (id : String)
  | int (value : Nat)
  | float (repr : FloatRepr)
  | binOp (left : MeasureExpr) (op : BinOp) (right : MeasureExpr)
  | neg (operand : MeasureExpr)
  deriving DecidableEq, Repr

/-- The columns that the parser collects, in reading order. -/
def MeasureExpr.columns : MeasureExpr → List String
  | .name id => [id]
  | .int _ => []
  | .float _ => []
  | .binOp left _ right => left.columns ++ right.columns
  | .neg operand => operand.columns

/-- What a measure aggregates: one column or a composite expression, never both. -/
inductive MeasureRef
  | column (name : String)
  | expression (ast : MeasureExpr)
  deriving DecidableEq, Repr

/-- The columns on the anchor table that the reference reads. -/
def MeasureRef.columns : MeasureRef → List String
  | .column name => [name]
  | .expression ast => ast.columns

theorem MeasureRef.column_ne_nil (name : String) : (MeasureRef.column name).columns ≠ [] :=
  List.cons_ne_nil name []

/-- The aggregate of a metric. The columns are identifiers, and there is one at least. -/
structure MetricMeasure where
  agg : AggFunction
  ref : MeasureRef
  columns_ident : ref.columns.all isIdent = true := by exact Eq.refl true
  columns_ne_nil : ref.columns ≠ [] := by first | exact MeasureRef.column_ne_nil _ | decide
  deriving DecidableEq

/-- `measure_columns`: a set, listed once each. -/
def MetricMeasure.measureColumns (m : MetricMeasure) : List String := m.ref.columns.eraseDups

theorem noGrains_paired : (none : Option String) = none ↔ ([] : List TimeGrain) = [] := by decide

theorem noGrains_sorted : ([] : List TimeGrain).Pairwise fun g g' => g.rank < g'.rank :=
  List.Pairwise.nil

/-- A measure anchored on one entity, with an optional time dimension. -/
structure Metric where
  name : String
  entity : String
  measure : MetricMeasure
  timeDimension : Option String := none
  timeGrains : List TimeGrain := []
  name_ident : isIdent name = true := by exact Eq.refl true
  entity_ident : isIdent entity = true := by exact Eq.refl true
  grains_paired : (timeDimension = none ↔ timeGrains = []) := by
    first | exact noGrains_paired | decide
  dimension_form : timeDimension.all (fun t => (parseQualifiedColumn t).isSome) = true := by
    exact Eq.refl true
  grains_sorted : timeGrains.Pairwise (fun g g' => g.rank < g'.rank) := by
    first | exact noGrains_sorted | decide
  deriving DecidableEq

/-! ## Tags -/

/-- `Sensitivity`, in increasing order. -/
inductive Sensitivity
  | isPublic
  | internal
  | confidential
  | pii
  deriving DecidableEq, Repr

/-- `_SENSITIVITY_RANK`. -/
def Sensitivity.rank : Sensitivity → Nat
  | .isPublic => 0
  | .internal => 1
  | .confidential => 2
  | .pii => 3

/-- `PIICategory`. -/
inductive PiiCategory
  | contact
  | financial
  | paymentCard
  | health
  | genetic
  | biometric
  | behavioral
  | onlineIdentifier
  | credential
  | governmentId
  | location
  | demographicProtected
  deriving DecidableEq, Repr

/-- The stored word of a category. -/
def PiiCategory.word : PiiCategory → String
  | .contact => "contact"
  | .financial => "financial"
  | .paymentCard => "payment_card"
  | .health => "health"
  | .genetic => "genetic"
  | .biometric => "biometric"
  | .behavioral => "behavioral"
  | .onlineIdentifier => "online_identifier"
  | .credential => "credential"
  | .governmentId => "government_id"
  | .location => "location"
  | .demographicProtected => "demographic_protected"

/-- `CATASTROPHIC_LEAK_CATEGORIES`. -/
def catastrophicLeakCategories : List PiiCategory := [.credential, .paymentCard, .governmentId]

/-- The sensitivity and the category set of one column. -/
structure ColumnPiiTag where
  sensitivity : Sensitivity
  categories : List PiiCategory
  deriving DecidableEq, Repr

/-- The tag of a column without a stored row. -/
def ColumnPiiTag.untagged : ColumnPiiTag := ⟨.isPublic, []⟩

end SchemaBrain.Core
