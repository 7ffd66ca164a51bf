import Mathlib.Data.List.Chain
import SchemaBrain.Base.Python

/-!
# Arithmetic expressions in SQL text

A lexer and a precedence parser for the scalar arithmetic of SQL: columns under an alias,
numerals, the four operators, negation and parentheses. A comment is not an expression.
-/

namespace SchemaBrain.Base

/-- The binary operators. -/
inductive SqlOperator
  | add
  | sub
  | mul
  | div
  deriving DecidableEq, Repr

/-- An expression, its numerals as they are written. -/
inductive SqlExpr
  | column (aliasName name : String)
  | number (text : String)
  | bin (left : SqlExpr) (op : SqlOperator) (right : SqlExpr)
  | neg (operand : SqlExpr)
  deriving DecidableEq, Repr

/-- What the parts of an expression mean on one row. -/
structure SqlArithmetic (V : Type) where
  column : String → String → V
  number : String → V
  bin : SqlOperator → V → V → V
  neg : V → V

/-- The value of an expression. -/
def SqlExpr.value {V : Type} (A : SqlArithmetic V) : SqlExpr → V
  | .column aliasName name => A.column aliasName name
  | .number text => A.number text
  | .bin left op right => A.bin op (left.value A) (right.value A)
  | .neg operand => A.neg (operand.value A)

/-! ## Tokens -/

/-- A token; a name is what stands between two double quotes. -/
inductive SqlToken
  | lparen
  | rparen
  | dot
  | op (op : SqlOperator)
  | number (text : String)
  | name (text : String)
  deriving DecidableEq, Repr

/-- What the lexer has begun: nothing, a minus or a slash, a numeral with its phase, or a
quoted name, open or with a quote that ends it or is doubled. The texts are reversed. -/
inductive LexState
  | idle
  | minus
  | slash
  | numeral (phase : NumeralPhase) (text : List Char)
  | open_ (text : List Char)
  | closed (text : List Char)

/-- The token of a single mark. -/
def markToken (c : Char) : Option SqlToken :=
  if c = '(' then some .lparen
  else if c = ')' then some .rparen
  else if c = '.' then some .dot
  else if c = '+' then some (.op .add)
  else if c = '*' then some (.op .mul)
  else none

/-- A character where no token has begun: the tokens it ends and what it begins. -/
def lexIdle (c : Char) : Option (List SqlToken × LexState) :=
  if c = ' ' then some ([], .idle)
  else if c = '-' then some ([], .minus)
  else if c = '/' then some ([], .slash)
  else if c = '"' then some ([], .open_ [])
  else if c.isDigit then some ([], .numeral .whole [c])
  else (markToken c).map fun token => ([token], .idle)

/-- The token that ends before the character `c`; `--` and `/*` open comments. -/
def lexEnd : LexState → Option Char → Option (List SqlToken)
  | .idle, _ => some []
  | .minus, c => if c = some '-' then none else some [.op .sub]
  | .slash, c => if c = some '*' then none else some [.op .div]
  | .numeral phase text, _ =>
    if phase ∈ [.whole, .point, .fraction, .exponent] then
      some [.number (String.ofList text.reverse)]
    else none
  | .open_ _, _ => none
  | .closed text, _ => some [.name (String.ofList text.reverse)]

/-- The state of a token that goes on with the character. -/
def lexMore : LexState → Char → Option LexState
  | .numeral phase text, c => (phase.step c).map fun phase => .numeral phase (c :: text)
  | .open_ text, c => some (if c = '"' then .closed text else .open_ (c :: text))
  | .closed text, c => if c = '"' then some (.open_ ('"' :: text)) else none
  | _, _ => none

/-- The tokens of a text, none where it has other characters or a comment. -/
def sqlTokens : LexState → List Char → Option (List SqlToken)
  | state, [] => lexEnd state none
  | state, c :: rest =>
    match lexMore state c with
    | some state => sqlTokens state rest
    | none => do
      let ended ← lexEnd state (some c)
      let (tokens, state) ← lexIdle c
      let tail ← sqlTokens state rest
      return ended ++ tokens ++ tail

/-! ## The parser -/

mutual

/-- `'-' operand`, a number, a column or a parenthesis. -/
def sqlOperand : Nat → List SqlToken → Option (SqlExpr × List SqlToken)
  | n + 1, .op .sub :: rest => do
    let (e, rest) ← sqlOperand n rest
    return (.neg e, rest)
  | _ + 1, .number text :: rest => some (.number text, rest)
  | _ + 1, .name aliasName :: .dot :: .name name :: rest => some (.column aliasName name, rest)
  | n + 1, .lparen :: rest => do
    match ← sqlSum n rest with
    | (e, .rparen :: rest) => some (e, rest)
    | _ => none
  | _, _ => none

/-- `operand (('*' | '/') operand)*` -/
def sqlProduct : Nat → List SqlToken → Option (SqlExpr × List SqlToken)
  | n + 1, tokens => do
    let (e, rest) ← sqlOperand n tokens
    sqlFactors n e rest
  | 0, _ => none

/-- The factors after the first, to the left. -/
def sqlFactors : Nat → SqlExpr → List SqlToken → Option (SqlExpr × List SqlToken)
  | n + 1, e, .op .mul :: rest => do
    let (e', rest) ← sqlOperand n rest
    sqlFactors n (.bin e .mul e') rest
  | n + 1, e, .op .div :: rest => do
    let (e', rest) ← sqlOperand n rest
    sqlFactors n (.bin e .div e') rest
  | _ + 1, e, rest => some (e, rest)
  | 0, _, _ => none

/-- `product (('+' | '-') product)*` -/
def sqlSum : Nat → List SqlToken → Option (SqlExpr × List SqlToken)
  | n + 1, tokens => do
    let (e, rest) ← sqlProduct n tokens
    sqlTerms n e rest
  | 0, _ => none

/-- The terms after the first, to the left. -/
def sqlTerms : Nat → SqlExpr → List SqlToken → Option (SqlExpr × List SqlToken)
  | n + 1, e, .op .add :: rest => do
    let (e', rest) ← sqlProduct n rest
    sqlTerms n (.bin e .add e') rest
  | n + 1, e, .op .sub :: rest => do
    let (e', rest) ← sqlProduct n rest
    sqlTerms n (.bin e .sub e') rest
  | _ + 1, e, rest => some (e, rest)
  | 0, _, _ => none

end

/-- The expression that a text spells. Six calls are enough for a token. -/
def readSql (text : String) : Option SqlExpr := do
  let tokens ← sqlTokens .idle text.toList
  match ← sqlSum (6 * tokens.length + 6) tokens with
  | (e, []) => some e
  | _ => none

example : readSql "(\"o\".\"a\" - -1) * 2.5e-3 / \"o\".\"b\"" =
    some (.bin (.bin (.bin (.column "o" "a") .sub (.neg (.number "1"))) .mul (.number "2.5e-3"))
      .div (.column "o" "b")) := by decide +kernel

example : readSql "1 --1" = none := by decide +kernel

/-! ## Spelling -/

/-- The sign of an operator. -/
def SqlOperator.sign : SqlOperator → String
  | .add => "+"
  | .sub => "-"
  | .mul => "*"
  | .div => "/"

namespace SqlExpr

/-- The text of an expression with every operation in parentheses. -/
def text : SqlExpr → String
  | .column aliasName name => "\"" ++ aliasName ++ "\".\"" ++ name ++ "\""
  | .number text => text
  | .bin left op right => "(" ++ left.text ++ " " ++ op.sign ++ " " ++ right.text ++ ")"
  | .neg operand => "(-" ++ operand.text ++ ")"

/-- Its tokens. -/
def tokens : SqlExpr → List SqlToken
  | .column aliasName name => [.name aliasName, .dot, .name name]
  | .number text => [.number text]
  | .bin left op right => .lparen :: left.tokens ++ .op op :: right.tokens ++ [.rparen]
  | .neg operand => .lparen :: .op .sub :: operand.tokens ++ [.rparen]

/-- The columns that an expression reads, in reading order. -/
def columns : SqlExpr → List (String × String)
  | .column aliasName name => [(aliasName, name)]
  | .number _ => []
  | .bin left _ right => left.columns ++ right.columns
  | .neg operand => operand.columns

/-- The numerals of an expression. -/
def numbers : SqlExpr → List String
  | .column _ _ => []
  | .number text => [text]
  | .bin left _ right => left.numbers ++ right.numbers
  | .neg operand => operand.numbers

/-- A numeral that the lexer reads to its end. -/
def IsNumeral (text : String) : Prop :=
  ∃ phase ∈ [NumeralPhase.whole, .point, .fraction, .exponent],
    numeralPhase text.toList = some phase

/-- The names have no quotes and the numerals are numerals. -/
structure WellSpelled (e : SqlExpr) : Prop where
  names : ∀ column ∈ e.columns, '"' ∉ column.1.toList ∧ '"' ∉ column.2.toList
  numbers : ∀ text ∈ e.numbers, IsNumeral text

theorem WellSpelled.left {left right : SqlExpr} {op : SqlOperator}
    (h : WellSpelled (.bin left op right)) : left.WellSpelled :=
  ⟨fun column hc => h.names column (List.mem_append_left _ hc),
    fun text ht => h.numbers text (List.mem_append_left _ ht)⟩

theorem WellSpelled.right {left right : SqlExpr} {op : SqlOperator}
    (h : WellSpelled (.bin left op right)) : right.WellSpelled :=
  ⟨fun column hc => h.names column (List.mem_append_right _ hc),
    fun text ht => h.numbers text (List.mem_append_right _ ht)⟩

theorem WellSpelled.operand {operand : SqlExpr} (h : WellSpelled (.neg operand)) :
    operand.WellSpelled :=
  ⟨h.names, h.numbers⟩

/-! ## Reading a spelling back -/

/-- The calls that an expression takes to read. -/
private def calls : SqlExpr → Nat
  | .column _ _ | .number _ => 6
  | .bin left _ right => left.calls + right.calls + 6
  | .neg operand => operand.calls + 6

private theorem calls_le (e : SqlExpr) : e.calls ≤ 6 * e.tokens.length := by
  induction e with
  | column | number => simp [calls, tokens]
  | bin left op right ihl ihr =>
    simp only [calls, tokens, List.length_append, List.length_cons]
    omega
  | neg operand ih => simp only [calls, tokens, List.length_append, List.length_cons]; omega

private theorem sqlFactors_rparen (n : Nat) (e : SqlExpr) (rest : List SqlToken) :
    sqlFactors (n + 1) e (.rparen :: rest) = some (e, .rparen :: rest) := by
  simp [sqlFactors]

private theorem sqlTerms_rparen (n : Nat) (e : SqlExpr) (rest : List SqlToken) :
    sqlTerms (n + 1) e (.rparen :: rest) = some (e, .rparen :: rest) := by
  simp [sqlTerms]

/-- Parenthesised, an expression is an operand. -/
private theorem sqlOperand_tokens (e : SqlExpr) (rest : List SqlToken) {n : Nat}
    (h : e.calls ≤ n) : sqlOperand n (e.tokens ++ rest) = some (e, rest) := by
  induction e generalizing n rest with
  | column aliasName name =>
    obtain ⟨n, rfl⟩ := Nat.exists_eq_add_of_le' (le_trans (by decide : 1 ≤ 6) h)
    simp [tokens, sqlOperand]
  | number text =>
    obtain ⟨n, rfl⟩ := Nat.exists_eq_add_of_le' (le_trans (by decide : 1 ≤ 6) h)
    simp [tokens, sqlOperand]
  | neg operand ih =>
    obtain ⟨n, rfl⟩ := Nat.exists_eq_add_of_le' (le_trans (Nat.le_add_left 6 _) h)
    have hcalls : operand.calls ≤ n + 2 := by simp only [calls] at h; omega
    have htokens : (SqlExpr.neg operand).tokens ++ rest =
        .lparen :: .op .sub :: (operand.tokens ++ .rparen :: rest) := by simp [tokens]
    rw [htokens]
    simp [sqlOperand, sqlSum, sqlProduct, ih _ hcalls, sqlFactors_rparen, sqlTerms_rparen]
  | bin left op right ihl ihr =>
    obtain ⟨n, rfl⟩ := Nat.exists_eq_add_of_le' (le_trans (Nat.le_add_left 6 _) h)
    have hleft : left.calls ≤ n + 3 := by simp only [calls] at h; omega
    have hright : right.calls ≤ n + 2 := by simp only [calls] at h; omega
    have htokens : (SqlExpr.bin left op right).tokens ++ rest =
        .lparen :: (left.tokens ++ .op op :: (right.tokens ++ .rparen :: rest)) := by
      simp [tokens]
    rw [htokens]
    cases op with
    | add | sub =>
      simp [sqlOperand, sqlSum, sqlProduct, ihl _ hleft, ihr _ hright, sqlFactors, sqlTerms]
    | mul | div =>
      simp [sqlOperand, sqlSum, sqlProduct, ihl _ hleft, ihr _ hright, sqlFactors, sqlTerms]

/-- The tokens of a spelling are read as the expression. -/
theorem sqlSum_tokens (e : SqlExpr) :
    sqlSum (6 * e.tokens.length + 6) e.tokens = some (e, []) := by
  have hcalls : e.calls ≤ 6 * e.tokens.length + 4 := e.calls_le.trans (Nat.le_add_right _ 4)
  have hoperand := e.sqlOperand_tokens [] hcalls
  rw [List.append_nil] at hoperand
  simp [sqlSum, sqlProduct, hoperand, sqlFactors, sqlTerms]

end SqlExpr

/-! ## Lexing a spelling -/

/-- The tokens before a text, and those of the text. -/
def prepend (tokens : List SqlToken) : Option (List SqlToken) → Option (List SqlToken) :=
  Option.map (tokens ++ ·)

@[simp] theorem prepend_nil (x : Option (List SqlToken)) : prepend [] x = x := by
  cases x <;> rfl

@[simp] theorem prepend_prepend (ts ts' : List SqlToken) (x : Option (List SqlToken)) :
    prepend ts (prepend ts' x) = prepend (ts ++ ts') x := by
  cases x <;> simp [prepend]

@[simp] theorem lexMore_idle (c : Char) : lexMore .idle c = none := rfl

@[simp] theorem lexEnd_idle (c : Option Char) : lexEnd .idle c = some [] := rfl

/-- A token ends where the next character does not go on with it. -/
theorem sqlTokens_end {state : LexState} {rest : List Char} {ended : List SqlToken}
    (hmore : ∀ c ∈ rest.head?, lexMore state c = none)
    (hend : lexEnd state rest.head? = some ended) :
    sqlTokens state rest = prepend ended (sqlTokens .idle rest) := by
  cases rest with
  | nil => simpa [sqlTokens, prepend, lexEnd] using hend
  | cons c rest =>
    have hc : lexMore state c = none := hmore c rfl
    have hend : lexEnd state (some c) = some ended := hend
    simp only [sqlTokens, hc, hend, lexMore_idle, lexEnd_idle]
    cases hidle : lexIdle c with
    | none => rfl
    | some begun =>
      obtain ⟨tokens, state'⟩ := begun
      cases hrest : sqlTokens state' rest <;> simp [prepend, hrest]

/-- A character where no token has begun. -/
theorem sqlTokens_begin {c : Char} {tokens : List SqlToken} {state : LexState}
    (h : lexIdle c = some (tokens, state)) (rest : List Char) :
    sqlTokens .idle (c :: rest) = prepend tokens (sqlTokens state rest) := by
  simp only [sqlTokens, lexMore_idle, lexEnd_idle, h]
  cases hrest : sqlTokens state rest <;> simp [prepend, hrest]

/-- The characters of a numeral. -/
theorem sqlTokens_numeral {phase phase' : NumeralPhase} {cs : List Char}
    (h : cs.foldlM NumeralPhase.step phase = some phase') (text rest : List Char) :
    sqlTokens (.numeral phase text) (cs ++ rest) =
      sqlTokens (.numeral phase' (cs.reverse ++ text)) rest := by
  induction cs generalizing phase text with
  | nil =>
    obtain rfl := Option.some.inj h
    rfl
  | cons c cs ih =>
    rw [List.foldlM_cons] at h
    obtain ⟨next, hnext, h⟩ := Option.bind_eq_some_iff.1 h
    rw [List.cons_append, sqlTokens]
    simp only [lexMore, hnext, Option.map_some]
    rw [ih h, List.reverse_cons, List.append_assoc, List.singleton_append]

/-- The characters of a quoted name. -/
theorem sqlTokens_name {cs : List Char} (h : '"' ∉ cs) (text rest : List Char) :
    sqlTokens (.open_ text) (cs ++ '"' :: rest) =
      sqlTokens (.closed (cs.reverse ++ text)) rest := by
  induction cs generalizing text with
  | nil => simp [sqlTokens, lexMore]
  | cons c cs ih =>
    rw [List.mem_cons, not_or] at h
    rw [List.cons_append, sqlTokens]
    simp only [lexMore, Ne.symm h.1, if_false]
    rw [ih h.2, List.reverse_cons, List.append_assoc, List.singleton_append]

/-- What may follow an operand: nothing, a blank or a closing parenthesis. -/
def Closes (rest : List Char) : Prop := ∀ c ∈ rest.head?, c = ' ' ∨ c = ')'

theorem sqlTokens_numeral_end {text : String} (h : SqlExpr.IsNumeral text) {rest : List Char}
    (hrest : Closes rest) :
    sqlTokens .idle (text.toList ++ rest) =
      prepend [.number text] (sqlTokens .idle rest) := by
  obtain ⟨phase, hphase, hread⟩ := h
  cases htext : text.toList with
  | nil => simp [htext, numeralPhase] at hread
  | cons c cs =>
    rw [htext, numeralPhase] at hread
    split at hread
    · next hdigit =>
      have hidle : lexIdle c = some ([], .numeral .whole [c]) := by
        have hne : ∀ d : Char, d.isDigit = false → c ≠ d := by
          rintro d hd rfl
          simp [hd] at hdigit
        simp [lexIdle, hdigit, hne ' ' rfl, hne '-' rfl, hne '/' rfl, hne '"' rfl]
      rw [List.cons_append, sqlTokens_begin hidle, prepend_nil, sqlTokens_numeral hread]
      have hchars : (cs.reverse ++ [c]).reverse = text.toList := by simp [htext]
      refine sqlTokens_end ?_ ?_
      · intro d hd
        rcases hrest d hd with rfl | rfl <;> cases phase <;> rfl
      · simp only [lexEnd, hchars, String.ofList_toList, if_pos hphase]
    · simp at hread

theorem sqlTokens_name_end {name : String} (h : '"' ∉ name.toList) {rest : List Char}
    (hrest : ∀ c ∈ rest.head?, c ≠ '"') :
    sqlTokens .idle ('"' :: (name.toList ++ '"' :: rest)) =
      prepend [.name name] (sqlTokens .idle rest) := by
  rw [sqlTokens_begin rfl, prepend_nil, sqlTokens_name h]
  refine sqlTokens_end (fun c hc => ?_) ?_
  · simp [lexMore, hrest c hc]
  · simp [lexEnd]

/-- The signs of operators, before a blank. -/
theorem sqlTokens_sign (op : SqlOperator) (rest : List Char) :
    sqlTokens .idle (op.sign.toList ++ ' ' :: rest) =
      prepend [.op op] (sqlTokens .idle (' ' :: rest)) := by
  cases op with
  | add | mul => exact sqlTokens_begin rfl _
  | sub | div =>
    refine (sqlTokens_begin rfl _).trans ?_
    rw [prepend_nil]
    exact sqlTokens_end (by simp [lexMore]) rfl

namespace SqlExpr

theorem closes_rparen (rest : List Char) : Closes (')' :: rest) := by simp [Closes]

theorem closes_blank (rest : List Char) : Closes (' ' :: rest) := by simp [Closes]

/-- A numeral starts with a digit. -/
theorem IsNumeral.head {text : String} (h : IsNumeral text) :
    ∃ c cs, text.toList = c :: cs ∧ c.isDigit = true ∧
      ∃ phase, cs.foldlM NumeralPhase.step .whole = some phase := by
  obtain ⟨phase, -, hread⟩ := h
  cases htext : text.toList with
  | nil => simp [htext, numeralPhase] at hread
  | cons c cs =>
    rw [htext, numeralPhase] at hread
    split at hread
    · next hdigit => exact ⟨c, cs, rfl, hdigit, phase, hread⟩
    · simp at hread

/-- What an operand starts with is no minus. -/
theorem head_text {e : SqlExpr} (h : e.WellSpelled) :
    ∃ c cs, e.text.toList = c :: cs ∧ c ≠ '-' := by
  cases e with
  | column aliasName name => exact ⟨'"', _, by simp [text]; rfl, by decide⟩
  | number text =>
    obtain ⟨c, cs, htext, hdigit, -⟩ := (h.numbers text List.mem_cons_self).head
    refine ⟨c, cs, htext, ?_⟩
    rintro rfl
    simp at hdigit
  | bin left op right => exact ⟨'(', _, by simp [text]; rfl, by decide⟩
  | neg operand => exact ⟨'(', _, by simp [text]; rfl, by decide⟩

/-- A spelling has the tokens of its expression. -/
theorem sqlTokens_text {e : SqlExpr} (h : e.WellSpelled) {rest : List Char}
    (hrest : Closes rest) :
    sqlTokens .idle (e.text.toList ++ rest) = prepend e.tokens (sqlTokens .idle rest) := by
  induction e generalizing rest with
  | column aliasName name =>
    obtain ⟨halias, hname⟩ := h.names (aliasName, name) List.mem_cons_self
    have htext : (column aliasName name).text.toList ++ rest =
        '"' :: (aliasName.toList ++ '"' :: '.' :: '"' :: (name.toList ++ '"' :: rest)) := by
      simp [text]
    have hquote : ∀ c ∈ rest.head?, c ≠ '"' := by
      intro c hc
      rcases hrest c hc with rfl | rfl <;> decide
    rw [htext, sqlTokens_name_end halias (by simp), sqlTokens_begin rfl,
      sqlTokens_name_end hname hquote]
    simp [tokens]
  | number text => exact sqlTokens_numeral_end (h.numbers text List.mem_cons_self) hrest
  | bin left op right ihl ihr =>
    have htext : (bin left op right).text.toList ++ rest =
        '(' :: (left.text.toList ++ ' ' :: (op.sign.toList ++ ' ' ::
          (right.text.toList ++ ')' :: rest))) := by
      simp [text]
    rw [htext, sqlTokens_begin rfl, ihl h.left (closes_blank _), sqlTokens_begin rfl,
      sqlTokens_sign, sqlTokens_begin rfl, ihr h.right (closes_rparen _), sqlTokens_begin rfl]
    simp [tokens]
  | neg operand ih =>
    have htext : (neg operand).text.toList ++ rest =
        '(' :: '-' :: (operand.text.toList ++ ')' :: rest) := by
      simp [text]
    rw [htext, sqlTokens_begin rfl, sqlTokens_begin rfl, prepend_nil]
    have hminus : sqlTokens .minus (operand.text.toList ++ ')' :: rest) =
        prepend [.op .sub] (sqlTokens .idle (operand.text.toList ++ ')' :: rest)) := by
      obtain ⟨c, cs, hcs, hc⟩ := head_text h.operand
      rw [hcs]
      exact sqlTokens_end (by simp [lexMore]) (by simp [lexEnd, hc])
    rw [hminus, ih h.operand (closes_rparen _), sqlTokens_begin rfl]
    simp [tokens]

/-- Reading a spelling gives the expression back. -/
theorem readSql_text {e : SqlExpr} (h : e.WellSpelled) :
    sqlTokens .idle e.text.toList = some e.tokens ∧ readSql e.text = some e := by
  have htokens : sqlTokens .idle e.text.toList = some e.tokens := by
    have hlex := @sqlTokens_text e h [] (by simp [Closes])
    rw [List.append_nil] at hlex
    rw [hlex]
    simp [sqlTokens, prepend]
  refine ⟨htokens, ?_⟩
  simp [readSql, htokens, sqlSum_tokens]

/-! ## The characters of a spelling -/

/-- The characters do not open a comment. -/
def Apart (a b : Char) : Prop := ¬ (a = '-' ∧ b = '-') ∧ ¬ (a = '/' ∧ b = '*')

/-- A text without `--` and without `/*`. -/
def NoComment (cs : List Char) : Prop := cs.IsChain Apart

theorem NoComment.no_opener {cs : List Char} (h : NoComment cs) :
    ¬ ['-', '-'] <:+: cs ∧ ¬ ['/', '*'] <:+: cs := by
  constructor
  · intro hinfix
    have hpair := h.infix hinfix
    simp [Apart] at hpair
  · intro hinfix
    have hpair := h.infix hinfix
    simp [Apart] at hpair

theorem NoComment.cons {c : Char} {cs : List Char} (hminus : c ≠ '-') (hslash : c ≠ '/')
    (h : NoComment cs) : NoComment (c :: cs) :=
  List.isChain_cons.2 ⟨fun _ _ => ⟨fun h => hminus h.1, fun h => hslash h.1⟩, h⟩

theorem NoComment.append {c : Char} {cs cs' : List Char} (hminus : c ≠ '-') (hstar : c ≠ '*')
    (h : NoComment cs) (h' : NoComment (c :: cs')) : NoComment (cs ++ c :: cs') := by
  refine List.isChain_append.2 ⟨h, h', fun x _ y hy => ?_⟩
  obtain rfl : c = y := by simpa using hy
  exact ⟨fun h => hminus h.2, fun h => hstar h.2⟩

/-- A numeral goes on with a digit, a point, the mark of an exponent or the sign after it. -/
theorem numeralPhase_step {phase next : NumeralPhase} {c : Char} (h : phase.step c = some next) :
    c.isDigit = true ∨ (phase ≠ .sign ∧ (c = '.' ∨ c = 'e')) ∨
      (phase = .mark ∧ (c = '+' ∨ c = '-') ∧ next = .sign) := by
  cases phase <;> grind [NumeralPhase.step]

/-- The characters of a numeral. -/
theorem IsNumeral.mem {text : String} (h : IsNumeral text) {c : Char} (hc : c ∈ text.toList) :
    c.isDigit = true ∨ c ∈ ['.', 'e', '+', '-'] := by
  obtain ⟨d, ds, htext, hdigit, phase, hread⟩ := h.head
  have hrest : ∀ (cs : List Char) (p : NumeralPhase), cs.foldlM NumeralPhase.step p = some phase →
      c ∈ cs → c.isDigit = true ∨ c ∈ ['.', 'e', '+', '-'] := by
    intro cs
    induction cs with
    | nil => simp
    | cons x xs ih =>
      intro p hp hmem
      rw [List.foldlM_cons] at hp
      obtain ⟨next, hnext, hp⟩ := Option.bind_eq_some_iff.1 hp
      rcases List.mem_cons.1 hmem with rfl | hmem
      · rcases numeralPhase_step hnext with h | ⟨-, rfl | rfl⟩ | ⟨-, rfl | rfl, -⟩ <;> simp_all
      · exact ih next hp hmem
  rw [htext] at hc
  rcases List.mem_cons.1 hc with rfl | hc
  · exact .inl hdigit
  · exact hrest ds .whole hread hc

theorem noComment_of_forall {cs : List Char} (h : ∀ c ∈ cs, c ≠ '-' ∧ c ≠ '/') : NoComment cs := by
  induction cs with
  | nil => exact .nil
  | cons c cs ih =>
    obtain ⟨hminus, hslash⟩ := h c List.mem_cons_self
    exact .cons hminus hslash (ih fun d hd => h d (List.mem_cons_of_mem _ hd))

/-- In a numeral a minus comes after the mark of the exponent, before a digit. -/
private theorem noComment_numeral {phase phase' : NumeralPhase} {cs : List Char}
    (h : cs.foldlM NumeralPhase.step phase = some phase') {c : Char}
    (hminus : c = '-' → phase = .sign) (hslash : c ≠ '/') : NoComment (c :: cs) := by
  induction cs generalizing phase c with
  | nil => exact List.isChain_singleton _
  | cons d cs ih =>
    rw [List.foldlM_cons] at h
    obtain ⟨next, hnext, h⟩ := Option.bind_eq_some_iff.1 h
    have hd := numeralPhase_step hnext
    refine List.isChain_cons.2 ⟨fun y hy => ?_, ih h ?_ ?_⟩
    · obtain rfl : d = y := by simpa using hy
      refine ⟨?_, fun h => hslash h.1⟩
      rintro ⟨hc, rfl⟩
      simp [hminus hc] at hd
    · rintro rfl
      simp only [Char.reduceEq, or_self, and_false, or_true, true_and, false_or] at hd
      exact (hd.resolve_left (by decide)).2
    · rintro rfl
      simp at hd

theorem IsNumeral.noComment {text : String} (h : IsNumeral text) : NoComment text.toList := by
  obtain ⟨c, cs, htext, hdigit, phase, hread⟩ := h.head
  rw [htext]
  refine noComment_numeral hread ?_ ?_ <;> rintro rfl <;> simp at hdigit

/-- A spelling has no comment, where its names have none. -/
theorem noComment_text {e : SqlExpr} (h : e.WellSpelled)
    (hnames : ∀ column ∈ e.columns, NoComment column.1.toList ∧ NoComment column.2.toList) :
    NoComment e.text.toList := by
  induction e with
  | column aliasName name =>
    obtain ⟨halias, hname⟩ := hnames (aliasName, name) List.mem_cons_self
    have htext : (column aliasName name).text.toList =
        '"' :: (aliasName.toList ++ '"' :: '.' :: '"' :: (name.toList ++ ['"'])) := by
      simp [text]
    rw [htext]
    refine .cons (by decide) (by decide) (halias.append (by decide) (by decide) ?_)
    refine .cons (by decide) (by decide) (.cons (by decide) (by decide) ?_)
    exact .cons (by decide) (by decide)
      (hname.append (by decide) (by decide) (List.isChain_singleton _))
  | number text => exact (h.numbers text List.mem_cons_self).noComment
  | bin left op right ihl ihr =>
    have hleft := ihl h.left fun column hc => hnames column (List.mem_append_left _ hc)
    have hright := ihr h.right fun column hc => hnames column (List.mem_append_right _ hc)
    have hsign : NoComment op.sign.toList := by cases op <;> exact List.isChain_singleton _
    have htext : (bin left op right).text.toList =
        '(' :: (left.text.toList ++ ' ' :: (op.sign.toList ++ ' ' ::
          (right.text.toList ++ [')']))) := by
      simp [text]
    rw [htext]
    refine .cons (by decide) (by decide) (hleft.append (by decide) (by decide) ?_)
    refine .cons (by decide) (by decide) (hsign.append (by decide) (by decide) ?_)
    exact .cons (by decide) (by decide)
      (hright.append (by decide) (by decide) (List.isChain_singleton _))
  | neg operand ih =>
    have htext : (neg operand).text.toList =
        '(' :: '-' :: (operand.text.toList ++ [')']) := by
      simp [text]
    have hrest : NoComment (operand.text.toList ++ [')']) :=
      (ih h.operand hnames).append (by decide) (by decide) (List.isChain_singleton _)
    obtain ⟨c, cs, hcs, hc⟩ := head_text h.operand
    rw [hcs] at hrest
    rw [htext, hcs]
    refine .cons (by decide) (by decide) (List.isChain_cons.2 ⟨fun d hd => ?_, hrest⟩)
    obtain rfl : c = d := by simpa using hd
    exact ⟨fun h => hc h.2, fun h => absurd h.1 (by decide)⟩

/-- The characters of a spelling are marks or come from its names and numerals. -/
theorem mem_text {e : SqlExpr} {c : Char} (h : c ∈ e.text.toList) :
    c ∈ ['(', ')', ' ', '"', '.', '+', '-', '*', '/'] ∨
      (∃ column ∈ e.columns, c ∈ column.1.toList ∨ c ∈ column.2.toList) ∨
      ∃ text ∈ e.numbers, c ∈ text.toList := by
  induction e with
  | column aliasName name =>
    have hname : (c ∈ aliasName.toList ∨ c ∈ name.toList) ∨ c = '"' ∨ c = '.' := by
      simp only [text, String.toList_append, List.mem_append] at h
      grind
    rcases hname with hname | rfl | rfl
    · exact .inr (.inl ⟨(aliasName, name), List.mem_cons_self, hname⟩)
    · exact .inl (by decide)
    · exact .inl (by decide)
  | number text => exact .inr (.inr ⟨text, List.mem_cons_self, h⟩)
  | bin left op right ihl ihr =>
    have hsign : c ∈ op.sign.toList → c ∈ ['(', ')', ' ', '"', '.', '+', '-', '*', '/'] := by
      cases op <;> simp +contextual [SqlOperator.sign]
    simp only [text, String.toList_append, List.mem_append] at h
    simp only [columns, numbers, List.mem_append]
    grind
  | neg operand ih =>
    simp only [text, String.toList_append, List.mem_append] at h
    simp only [columns, numbers]
    grind

/-- Every double quote delimits a name. -/
theorem count_quote_text {e : SqlExpr} (h : e.WellSpelled) :
    e.text.toList.count '"' = 4 * e.columns.length := by
  induction e with
  | column aliasName name =>
    obtain ⟨halias, hname⟩ := h.names (aliasName, name) List.mem_cons_self
    simp [text, columns, List.count_eq_zero_of_not_mem halias,
      List.count_eq_zero_of_not_mem hname]
  | number text =>
    have hnone : '"' ∉ text.toList := fun hmem => by
      have := (h.numbers text List.mem_cons_self).mem hmem
      simp at this
    exact List.count_eq_zero_of_not_mem hnone
  | bin left op right ihl ihr =>
    have hsign : op.sign.toList.count '"' = 0 := by cases op <;> rfl
    have hl := ihl h.left
    have hr := ihr h.right
    simp only [text, columns, String.toList_append, List.count_append, List.length_append, hsign,
      hl, hr]
    simp
    omega
  | neg operand ih =>
    have ho := ih h.operand
    simp only [text, columns, String.toList_append, List.count_append, ho]
    simp

/-- The names under an alias, where tokens spell a column. -/
def namesUnder (aliasName : String) : List SqlToken → List String
  | .name a :: .dot :: .name name :: rest =>
    if a = aliasName then name :: namesUnder aliasName rest else namesUnder aliasName rest
  | _ :: rest => namesUnder aliasName rest
  | [] => []

/-- The names under the alias of every column are those of the columns. -/
theorem namesUnder_tokens {aliasName : String} {e : SqlExpr}
    (h : ∀ column ∈ e.columns, column.1 = aliasName) (rest : List SqlToken) :
    namesUnder aliasName (e.tokens ++ rest) =
      e.columns.map (·.2) ++ namesUnder aliasName rest := by
  induction e generalizing rest with
  | column a name =>
    have halias : a = aliasName := h (a, name) List.mem_cons_self
    simp [tokens, columns, namesUnder, halias]
  | number text => simp [tokens, columns, namesUnder]
  | bin left op right ihl ihr =>
    have hl := ihl fun column hc => h column (List.mem_append_left _ hc)
    have hr := ihr fun column hc => h column (List.mem_append_right _ hc)
    simp [tokens, columns, namesUnder, hl, hr]
  | neg operand ih => simp [tokens, columns, namesUnder, ih h]

end SqlExpr

end SchemaBrain.Base
