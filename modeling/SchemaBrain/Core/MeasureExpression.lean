import SchemaBrain.Core.SemanticRecords

/-!
# Measure expressions

`parse_measure_expression` over the syntax trees of Python's `ast`, with what its walk raises
when the tree is too deep for the interpreter's stack.
-/

namespace SchemaBrain.Core

open Base

/-- The value of an `ast.Constant`. A float comes with its `repr`. -/
inductive PyConstant
  | bool (b : Bool)
  | int (value : Nat)
  | finite (repr : FloatRepr)
  | nonFinite (repr : String)
  | other (typeName repr : String)
  deriving DecidableEq, Repr

/-- The class of a binary operator. -/
inductive PyOperator
  | allowed (op : BinOp)
  | other (name : String)
  deriving DecidableEq, Repr

/-- An expression of Python's `ast`. -/
inductive PyExpr
  | name (id : String)
  | constant (value : PyConstant)
  | binOp (left : PyExpr) (op : PyOperator) (right : PyExpr)
  | neg (operand : PyExpr)
  | unaryOp (op : String) (operand : PyExpr)
  | other (nodeType : String)
  deriving Repr

/-- What `ast.parse` raises. -/
inductive AstError
  | syntaxError (message : String)
  | valueError (message : String)
  | recursionError
  | memoryError
  deriving DecidableEq, Repr

/-- The interpreter under the parser: `ast.parse(text, mode="eval").body`, and how many calls
of `_walk` fit on its stack. -/
structure PythonAst where
  parse : String → Except AstError PyExpr
  stack : Nat

/-- What `parse_measure_expression` raises: `MalformedMeasureExpressionError` with its reason,
or what it lets through. -/
inductive ExpressionError
  | malformed (reason : String)
  | valueError (message : String)
  | recursionError
  | memoryError
  deriving DecidableEq, Repr

private def malformed {α : Type} (reason : String) : Except ExpressionError α :=
  .error (.malformed reason)

/-- `_walk`: the tree, where every node is allowed. -/
def walk : Nat → PyExpr → Except ExpressionError MeasureExpr
  | 0, _ => .error .recursionError
  | _ + 1, .name id =>
    if isIdent id then .ok (.name id) else malformed ("invalid column identifier " ++ pyRepr id)
  | _ + 1, .constant (.bool b) =>
    malformed ("boolean literal " ++ (if b then "True" else "False") ++ " is not allowed")
  | _ + 1, .constant (.int value) => .ok (.int value)
  | _ + 1, .constant (.finite repr) => .ok (.float repr)
  | _ + 1, .constant (.nonFinite repr) => malformed ("non-finite float literal " ++ repr ++
      " is not allowed (numeric literals must be finite)")
  | _ + 1, .constant (.other typeName repr) =>
    malformed ("literal must be numeric (got " ++ typeName ++ ": " ++ repr ++ ")")
  | stack + 1, .binOp left (.allowed op) right => do
    let left ← walk stack left
    let right ← walk stack right
    return .binOp left op right
  | _ + 1, .binOp _ (.other name) _ =>
    malformed ("operator " ++ name ++ " is not allowed (allowed: +, -, *, /)")
  | stack + 1, .neg operand => do
    let operand ← walk stack operand
    return .neg operand
  | _ + 1, .unaryOp op _ => malformed ("unary operator " ++ op ++
      " is not allowed (only unary `-` is permitted)")
  | _ + 1, .other nodeType => malformed ("node type " ++ nodeType ++ " is not allowed")

/-- `parse_measure_expression`. -/
def parseMeasureExpression (python : PythonAst) (expression : String) :
    Except ExpressionError MeasureExpr :=
  if expression.toList.all isPySpace then malformed "expression is empty"
  else
    match python.parse expression with
    | .error (.syntaxError message) => malformed ("syntax error: " ++ message)
    | .error (.valueError message) => .error (.valueError message)
    | .error .recursionError => .error .recursionError
    | .error .memoryError => .error .memoryError
    | .ok tree => do
      let ast ← walk python.stack tree
      if ast.columns = [] then
        malformed ("expression must reference at least one column " ++
          "(numeric-literal-only expressions are not a meaningful measure)")
      else return ast

/-- A walked tree reads identifiers only. -/
theorem walk_columns {stack : Nat} {tree : PyExpr} {ast : MeasureExpr}
    (h : walk stack tree = .ok ast) : ast.columns.all isIdent = true := by
  induction tree generalizing stack ast with
  | name id =>
    cases stack with
    | zero => simp [walk] at h
    | succ stack =>
      rw [walk] at h
      split at h
      · next hident =>
        obtain rfl := Except.ok.inj h
        simp [MeasureExpr.columns, hident]
      · simp [malformed] at h
  | constant value =>
    cases stack with
    | zero => simp [walk] at h
    | succ stack =>
      cases value with
      | int value => rw [← Except.ok.inj h]; rfl
      | finite repr => rw [← Except.ok.inj h]; rfl
      | bool b => simp [walk, malformed] at h
      | nonFinite repr => simp [walk, malformed] at h
      | other typeName repr => simp [walk, malformed] at h
  | binOp left op right ihLeft ihRight =>
    cases stack with
    | zero => simp [walk] at h
    | succ stack =>
      cases op with
      | other name => simp [walk, malformed] at h
      | allowed op =>
        obtain ⟨l, hl, h⟩ := bind_eq_ok h
        obtain ⟨r, hr, h⟩ := bind_eq_ok h
        rw [← Except.ok.inj h, MeasureExpr.columns, List.all_append, ihLeft hl, ihRight hr]
        rfl
  | neg operand ih =>
    cases stack with
    | zero => simp [walk] at h
    | succ stack =>
      obtain ⟨o, ho, h⟩ := bind_eq_ok h
      rw [← Except.ok.inj h, MeasureExpr.columns]
      exact ih ho
  | unaryOp op operand ih =>
    cases stack <;> simp [walk, malformed] at h
  | other nodeType =>
    cases stack <;> simp [walk, malformed] at h

/-- What a parsed expression reads. -/
theorem parseMeasureExpression_columns {python : PythonAst} {expression : String}
    {ast : MeasureExpr} (h : parseMeasureExpression python expression = .ok ast) :
    ast.columns.all isIdent = true ∧ ast.columns ≠ [] := by
  unfold parseMeasureExpression at h
  split at h
  · simp [malformed] at h
  · split at h
    · simp [malformed] at h
    · simp at h
    · simp at h
    · simp at h
    · obtain ⟨ast', hwalk, h⟩ := bind_eq_ok h
      split at h
      · simp [malformed] at h
      · next hne =>
        obtain rfl := Except.ok.inj h
        exact ⟨walk_columns hwalk, hne⟩

/-- The parser with the reason where it raises `MalformedMeasureExpressionError`. -/
def PythonAst.expressions (python : PythonAst) : MeasureExpressions where
  parse text :=
    match parseMeasureExpression python text with
    | .ok ast => .ok ast
    | .error (.malformed reason) => .error reason
    | .error _ => .error ""
  columns_ident := by
    intro text ast h
    split at h
    · next hparse =>
      obtain rfl := Except.ok.inj h
      exact (parseMeasureExpression_columns hparse).1
    · simp at h
    · simp at h
  columns_ne_nil := by
    intro text ast h
    split at h
    · next hparse =>
      obtain rfl := Except.ok.inj h
      exact (parseMeasureExpression_columns hparse).2
    · simp at h
    · simp at h

end SchemaBrain.Core
