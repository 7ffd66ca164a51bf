import SchemaBrain.Base.SqlExpression
import SchemaBrain.Core.MeasureExpression
import SchemaBrain.Semantic.SqlText

/-!
# The meaning of a measure expression

The text that the renderer makes of a parsed expression reads, by the precedence of SQL, as
the same tree. The renderer fails on an integer that the interpreter does not print.
-/

namespace SchemaBrain.Core

open Base

/-- The SQL operator of a binary operator. -/
def BinOp.toSql : BinOp → SqlOperator
  | .add => .add
  | .sub => .sub
  | .mult => .mul
  | .div => .div

namespace MeasureExpr

/-- The integer literals of an expression. -/
def ints : MeasureExpr → List Nat
  | .name _ => []
  | .int value => [value]
  | .float _ => []
  | .binOp left _ right => left.ints ++ right.ints
  | .neg operand => operand.ints

/-- The expression as one of SQL, its columns under an alias. -/
def toSql (anchorAlias : String) : MeasureExpr → SqlExpr
  | .name id => .column anchorAlias id
  | .int value => .number (toString value)
  | .float repr => .number repr.text
  | .binOp left op right => .bin (left.toSql anchorAlias) op.toSql (right.toSql anchorAlias)
  | .neg operand => .neg (operand.toSql anchorAlias)

/-- The value of an expression on one row. -/
def value {V : Type} (A : SqlArithmetic V) (anchorAlias : String) : MeasureExpr → V
  | .name id => A.column anchorAlias id
  | .int value => A.number (toString value)
  | .float repr => A.number repr.text
  | .binOp left op right =>
    A.bin op.toSql (left.value A anchorAlias) (right.value A anchorAlias)
  | .neg operand => A.neg (operand.value A anchorAlias)

theorem value_toSql {V : Type} (A : SqlArithmetic V) (anchorAlias : String) (ast : MeasureExpr) :
    (ast.toSql anchorAlias).value A = ast.value A anchorAlias := by
  induction ast with
  | name | int | float => rfl
  | binOp left op right ihl ihr => simp only [toSql, SqlExpr.value, value, ihl, ihr]
  | neg operand ih => simp only [toSql, SqlExpr.value, value, ih]

theorem columns_toSql (anchorAlias : String) (ast : MeasureExpr) :
    (ast.toSql anchorAlias).columns = ast.columns.map (anchorAlias, ·) := by
  induction ast with
  | name | int | float => rfl
  | binOp left op right ihl ihr =>
    simp only [toSql, SqlExpr.columns, columns, ihl, ihr, List.map_append]
  | neg operand ih => simp only [toSql, SqlExpr.columns, columns, ih]

/-- The digits of a natural number are a numeral without a point. -/
theorem numeralPhase_toString (n : Nat) :
    numeralPhase (toString n).toList = some .whole := by
  have hdigits : ∀ c ∈ (toString n).toList, c.isDigit = true := by
    intro c hc
    rw [Nat.toString_eq_ofList_toDigits, String.toList_ofList] at hc
    exact Nat.isDigit_of_mem_toDigits (by omega) (by omega) hc
  have hread : ∀ cs : List Char, (∀ c ∈ cs, c.isDigit = true) →
      cs.foldlM NumeralPhase.step .whole = some .whole := by
    intro cs hcs
    induction cs with
    | nil => rfl
    | cons c cs ih =>
      rw [List.foldlM_cons]
      simp only [NumeralPhase.step, hcs c List.mem_cons_self, if_true]
      exact ih fun d hd => hcs d (List.mem_cons_of_mem _ hd)
  cases htext : (toString n).toList with
  | nil =>
    rw [Nat.toString_eq_ofList_toDigits, String.toList_ofList] at htext
    exact absurd htext Nat.toDigits_ne_nil
  | cons c cs =>
    rw [htext] at hdigits
    rw [numeralPhase, if_pos (hdigits c List.mem_cons_self)]
    exact hread cs fun d hd => hdigits d (List.mem_cons_of_mem _ hd)

theorem numeralPhase_float (repr : FloatRepr) :
    numeralPhase repr.text.toList = some .fraction ∨
      numeralPhase repr.text.toList = some .exponent := by
  have hshape := repr.shape
  simpa [isFloatText] using hshape

theorem isNumeral_of_mem {anchorAlias : String} {ast : MeasureExpr} {text : String}
    (h : text ∈ (ast.toSql anchorAlias).numbers) : SqlExpr.IsNumeral text := by
  induction ast with
  | name id => simp [toSql, SqlExpr.numbers] at h
  | int value =>
    obtain rfl := List.mem_singleton.1 h
    exact ⟨.whole, by simp, numeralPhase_toString value⟩
  | float repr =>
    obtain rfl := List.mem_singleton.1 h
    rcases numeralPhase_float repr with hphase | hphase
    · exact ⟨.fraction, by simp, hphase⟩
    · exact ⟨.exponent, by simp, hphase⟩
  | binOp left op right ihl ihr => exact (List.mem_append.1 h).elim ihl ihr
  | neg operand ih => exact ih h

/-- Different expressions are different in SQL. -/
theorem toSql_injective (anchorAlias : String) : Function.Injective (toSql anchorAlias) := by
  have hfloat : ∀ (n : Nat) (repr : FloatRepr), toString n ≠ repr.text := by
    intro n repr heq
    have hphase := numeralPhase_toString n
    rw [heq] at hphase
    rcases numeralPhase_float repr with h | h <;> simp [h] at hphase
  intro ast
  induction ast with
  | name id => intro other h; cases other <;> simp_all [toSql]
  | int value =>
    intro other h
    cases other with
    | int value' =>
      simp only [toSql, SqlExpr.number.injEq] at h
      have hdigits : Nat.toDigits 10 value = Nat.toDigits 10 value' := by
        simpa using congrArg String.toList h
      rw [← @Nat.ofDigitChars_ten_toDigits value, hdigits, Nat.ofDigitChars_ten_toDigits]
    | float repr => exact absurd (SqlExpr.number.inj h) (hfloat value repr)
    | name | binOp | neg => simp [toSql] at h
  | float repr =>
    intro other h
    cases other with
    | int value => exact absurd (SqlExpr.number.inj h).symm (hfloat value repr)
    | float repr' =>
      cases repr
      cases repr'
      simp_all [toSql]
    | name | binOp | neg => simp [toSql] at h
  | binOp left op right ihl ihr =>
    intro other h
    cases other with
    | binOp left' op' right' =>
      obtain ⟨hl, hop, hr⟩ := SqlExpr.bin.inj h
      rw [ihl hl, ihr hr]
      cases op <;> cases op' <;> simp_all [BinOp.toSql]
    | name | int | float | neg => simp [toSql] at h
  | neg operand ih =>
    intro other h
    cases other with
    | neg operand' => rw [ih (SqlExpr.neg.inj h)]
    | name | int | float | binOp => simp [toSql] at h

end MeasureExpr

end SchemaBrain.Core

namespace SchemaBrain.Semantic

open Base Core

/-! ## The renderer -/

/-- `str(value)` of an integer, where it has no more digits than the interpreter prints. -/
def printInt (limit value : Nat) : Except PyError String :=
  if limit = 0 ∨ value < 10 ^ limit then .ok (toString value)
  else .error (.valueError ("Exceeds the limit (" ++ toString limit ++ " digits) for integer " ++
    "string conversion; use sys.set_int_max_str_digits() to increase the limit"))

/-- `render_measure_expression`, under a limit on the digits of an integer. -/
def renderUnder (limit : Nat) (anchorAlias : String) : MeasureExpr → Except PyError String
  | .name id => .ok (ColumnRef.sql ⟨anchorAlias, id⟩)
  | .int value => printInt limit value
  | .float repr => .ok repr.text
  | .binOp left op right => do
    let left ← renderUnder limit anchorAlias left
    let right ← renderUnder limit anchorAlias right
    return "(" ++ left ++ " " ++ op.sql ++ " " ++ right ++ ")"
  | .neg operand => do
    let operand ← renderUnder limit anchorAlias operand
    return "(-" ++ operand ++ ")"

/-- Every integer literal is printed. -/
def Printable (limit : Nat) (ast : MeasureExpr) : Prop :=
  ∀ value ∈ ast.ints, limit = 0 ∨ value < 10 ^ limit

theorem renderMeasureExpression_toSql (anchorAlias : String) (ast : MeasureExpr) :
    renderMeasureExpression anchorAlias ast = (ast.toSql anchorAlias).text := by
  induction ast with
  | name id =>
    rw [← String.toList_inj]
    simp [renderMeasureExpression, MeasureExpr.toSql, SqlExpr.text, ColumnRef.sql, quoted]
  | int | float => rfl
  | binOp left op right ihl ihr =>
    have hsign : op.sql = op.toSql.sign := by cases op <;> rfl
    simp only [renderMeasureExpression, MeasureExpr.toSql, SqlExpr.text, ihl, ihr, hsign]
  | neg operand ih => simp only [renderMeasureExpression, MeasureExpr.toSql, SqlExpr.text, ih]

/-- Where every integer is printed the limit does not matter, and elsewhere nothing is
rendered. -/
theorem renderUnder_eq_ok {limit : Nat} {anchorAlias : String} {ast : MeasureExpr}
    {text : String} :
    renderUnder limit anchorAlias ast = .ok text ↔
      Printable limit ast ∧ text = renderMeasureExpression anchorAlias ast := by
  induction ast generalizing text with
  | name id => simp [renderUnder, Printable, MeasureExpr.ints, renderMeasureExpression, eq_comm]
  | int value =>
    unfold renderUnder printInt
    split <;> simp_all [Printable, MeasureExpr.ints, renderMeasureExpression, eq_comm]
  | float repr => simp [renderUnder, Printable, MeasureExpr.ints, renderMeasureExpression, eq_comm]
  | binOp left op right ihl ihr =>
    have hprint : Printable limit (.binOp left op right) ↔
        Printable limit left ∧ Printable limit right := by
      simp [Printable, MeasureExpr.ints, or_imp, forall_and]
    rw [hprint]
    constructor
    · intro h
      obtain ⟨l, hl, h⟩ := bind_eq_ok h
      obtain ⟨r, hr, h⟩ := bind_eq_ok h
      obtain ⟨hleft, rfl⟩ := ihl.1 hl
      obtain ⟨hright, rfl⟩ := ihr.1 hr
      exact ⟨⟨hleft, hright⟩, (Except.ok.inj h).symm⟩
    · rintro ⟨⟨hleft, hright⟩, rfl⟩
      simp only [renderUnder, ihl.2 ⟨hleft, rfl⟩, ihr.2 ⟨hright, rfl⟩]
      rfl
  | neg operand ih =>
    constructor
    · intro h
      obtain ⟨o, ho, h⟩ := bind_eq_ok h
      obtain ⟨hoperand, rfl⟩ := ih.1 ho
      exact ⟨hoperand, (Except.ok.inj h).symm⟩
    · rintro ⟨hoperand, rfl⟩
      simp only [renderUnder, ih.2 ⟨hoperand, rfl⟩]
      rfl

/-! ## The meaning -/

/-- The text reads as the expression and as no other, so it has its values; the quoted names
under the alias are the expression's columns; and there is no comment, no semicolon and no
quote but around those names and the alias. -/
structure KeepsMeaning (anchorAlias : String) (ast : MeasureExpr) (text : String) : Prop where
  same_tree : ∃ e, readSql text = some e ∧
    ∀ other : MeasureExpr, e = other.toSql anchorAlias ↔ other = ast
  same_value : ∀ {V : Type} (A : SqlArithmetic V),
    (readSql text).map (·.value A) = some (ast.value A anchorAlias)
  columns : ∃ tokens, sqlTokens .idle text.toList = some tokens ∧
    ∀ column, column ∈ SqlExpr.namesUnder anchorAlias tokens ↔ column ∈ ast.columns
  no_comment : ¬ ['-', '-'] <:+: text.toList ∧ ¬ ['/', '*'] <:+: text.toList
  no_semicolon : ';' ∉ text.toList
  quotes : '\'' ∉ text.toList ∧ text.toList.count '"' = 4 * ast.columns.length

private theorem noComment_ident {name : String} (h : isIdent name = true) :
    SqlExpr.NoComment name.toList := by
  refine SqlExpr.noComment_of_forall fun c hc => ⟨?_, ?_⟩ <;>
  · rintro rfl
    exact absurd (isIdentChar_of_mem h hc) (by decide)

section Meaning

variable {anchorAlias : String} {ast : MeasureExpr} (halias : isIdent anchorAlias = true)
  (hcolumns : ast.columns.all isIdent = true)

include halias hcolumns

private theorem names_ident {column : String × String}
    (h : column ∈ (ast.toSql anchorAlias).columns) :
    isIdent column.1 = true ∧ isIdent column.2 = true := by
  rw [MeasureExpr.columns_toSql] at h
  obtain ⟨name, hname, rfl⟩ := List.mem_map.1 h
  exact ⟨halias, List.all_eq_true.1 hcolumns name hname⟩

private theorem wellSpelled_toSql : (ast.toSql anchorAlias).WellSpelled := by
  refine ⟨fun column hcolumn => ?_, fun text htext => MeasureExpr.isNumeral_of_mem htext⟩
  obtain ⟨h, h'⟩ := names_ident halias hcolumns hcolumn
  constructor <;> intro hmem
  · exact absurd (isIdentChar_of_mem h hmem) (by decide)
  · exact absurd (isIdentChar_of_mem h' hmem) (by decide)

/-- No character of a rendered text is a mark that identifiers and numerals lack. -/
private theorem not_mem_text {c : Char} (hmarks : c ∉ ['(', ')', ' ', '"', '.', '+', '-', '*', '/'])
    (hident : isIdentChar c = false) : c ∉ (ast.toSql anchorAlias).text.toList := by
  intro hmem
  rcases SqlExpr.mem_text hmem with h | ⟨column, hcolumn, h⟩ | ⟨text, htext, h⟩
  · exact hmarks h
  · obtain ⟨h1, h2⟩ := names_ident halias hcolumns hcolumn
    rcases h with h | h
    · exact absurd (isIdentChar_of_mem h1 h) (by simp [hident])
    · exact absurd (isIdentChar_of_mem h2 h) (by simp [hident])
  · rcases (MeasureExpr.isNumeral_of_mem htext).mem h with h | h
    · simp [isIdentChar, Char.isAlphanum, h] at hident
    · simp only [List.mem_cons, List.not_mem_nil, or_false] at h hmarks
      rcases h with rfl | rfl | rfl | rfl <;> simp_all [isIdentChar]

/-- The rendered text keeps the meaning of an expression over identifiers. -/
theorem keepsMeaning_render :
    KeepsMeaning anchorAlias ast (renderMeasureExpression anchorAlias ast) := by
  have hspelled := wellSpelled_toSql halias hcolumns
  obtain ⟨htokens, hread⟩ := SqlExpr.readSql_text hspelled
  rw [renderMeasureExpression_toSql]
  refine ⟨⟨_, hread, fun other => ?_⟩, fun A => ?_, ⟨_, htokens, fun column => ?_⟩, ?_, ?_, ?_, ?_⟩
  · exact ⟨fun h => (MeasureExpr.toSql_injective anchorAlias h).symm, fun h => by rw [h]⟩
  · rw [hread, Option.map_some, MeasureExpr.value_toSql]
  · have hnames := @SqlExpr.namesUnder_tokens anchorAlias (ast.toSql anchorAlias)
      (by simp [MeasureExpr.columns_toSql]) []
    rw [List.append_nil, MeasureExpr.columns_toSql] at hnames
    rw [hnames]
    simp [SqlExpr.namesUnder]
  · refine (SqlExpr.noComment_text hspelled fun column hcolumn => ?_).no_opener
    obtain ⟨h1, h2⟩ := names_ident halias hcolumns hcolumn
    exact ⟨noComment_ident h1, noComment_ident h2⟩
  · exact not_mem_text halias hcolumns (by decide) (by decide)
  · exact not_mem_text halias hcolumns (by decide) (by decide)
  · rw [SqlExpr.count_quote_text hspelled, MeasureExpr.columns_toSql, List.length_map]

end Meaning

/-- What the parser accepts is rendered with its meaning, exactly where the interpreter prints
its integers. -/
theorem measureExpression_meaning (python : PythonAst) (limit : Nat)
    {anchorAlias expression : String} {ast : MeasureExpr} (halias : isIdent anchorAlias = true)
    (h : parseMeasureExpression python expression = .ok ast) :
    (∃ text, renderUnder limit anchorAlias ast = .ok text ∧ KeepsMeaning anchorAlias ast text) ↔
      Printable limit ast := by
  constructor
  · rintro ⟨text, hrender, -⟩
    exact (renderUnder_eq_ok.1 hrender).1
  · intro hprint
    exact ⟨_, renderUnder_eq_ok.2 ⟨hprint, rfl⟩,
      keepsMeaning_render halias (parseMeasureExpression_columns h).1⟩

/-- An interpreter that has one text to parse. -/
def parserOf (expression : String) (tree : PyExpr) : PythonAst where
  parse text := if text = expression then .ok tree else .error (.syntaxError "invalid syntax")
  stack := 100

/-- `price * -0.01`. -/
def discountTree : PyExpr :=
  .binOp (.name "price") (.allowed .mult)
    (.neg (.constant (.finite ⟨"0.01", by decide, by decide⟩)))

theorem measureExpression_meaning_discount :
    ∃ text, renderUnder 4300 "order" (.binOp (.name "price") .mult
        (.neg (.float ⟨"0.01", by decide, by decide⟩))) = .ok text ∧
      KeepsMeaning "order" (.binOp (.name "price") .mult
        (.neg (.float ⟨"0.01", by decide, by decide⟩))) text := by
  have hparse : parseMeasureExpression (parserOf "price * -0.01" discountTree) "price * -0.01" =
      .ok (.binOp (.name "price") .mult (.neg (.float ⟨"0.01", by decide, by decide⟩))) := rfl
  exact (measureExpression_meaning _ 4300 (by decide) hparse).2 fun _ h => by cases h

/-- `price + 0x1000...`, with 4000 zeros. -/
def hugeExpression : String := "price + 0x1" ++ String.ofList (List.replicate 4000 '0')

/-- `price` and an integer literal. -/
def sumTree (value : Nat) : PyExpr :=
  .binOp (.name "price") (.allowed .add) (.constant (.int value))

/-- What `hugeExpression` parses to. -/
def hugeMeasure : MeasureExpr := .binOp (.name "price") .add (.int (16 ^ 4000))

private theorem hugeExpression_text : hugeExpression.toList.all isPySpace = false := by
  simp only [hugeExpression, String.toList_append, List.all_append]
  rw [show "price + 0x1".toList.all isPySpace = false by decide, Bool.false_and]

private theorem parse_sumTree {expression : String} (value : Nat)
    (h : expression.toList.all isPySpace = false) :
    parseMeasureExpression (parserOf expression (sumTree value)) expression =
      .ok (.binOp (.name "price") .add (.int value)) := by
  unfold parseMeasureExpression parserOf
  rw [h]
  simp only [Bool.false_eq_true, if_false, if_true]
  rfl

private theorem huge_le : 10 ^ 4300 ≤ 16 ^ 4000 := by
  have hbase : (10 ^ 43) ^ 100 ≤ (16 ^ 40) ^ 100 :=
    Nat.pow_le_pow_left (by decide : 10 ^ 43 ≤ 16 ^ 40) 100
  have hleft : 10 ^ 4300 = (10 ^ 43) ^ 100 := by
    rw [show 4300 = 43 * 100 from rfl, Nat.pow_mul]
  have hright : 16 ^ 4000 = (16 ^ 40) ^ 100 := Nat.pow_mul 16 40 100
  rw [hleft, hright]
  exact hbase

/-- A hexadecimal literal may have more decimal digits than the interpreter prints. -/
theorem not_measureExpression_meaning :
    parseMeasureExpression (parserOf hugeExpression (sumTree (16 ^ 4000))) hugeExpression =
        .ok hugeMeasure ∧
      ¬ ∃ text, renderUnder 4300 "order" hugeMeasure = .ok text ∧
        KeepsMeaning "order" hugeMeasure text := by
  refine ⟨parse_sumTree _ hugeExpression_text, ?_⟩
  rintro ⟨text, hrender, -⟩
  have hprint : (4300 : Nat) = 0 ∨ 16 ^ 4000 < 10 ^ 4300 :=
    (renderUnder_eq_ok.1 hrender).1 _ (List.mem_singleton.2 rfl)
  rcases hprint with hzero | hlt
  · exact absurd hzero (by decide)
  · exact absurd hlt (Nat.not_lt.2 huge_le)

end SchemaBrain.Semantic
