import SchemaBrain.Base.Python

/-!
# YAML documents

The data that `yaml.safe_load` returns and `yaml.safe_dump` takes, and the reads that the
grammars over it share. The library itself is a parameter.
-/

namespace SchemaBrain.Base

/-- The value of a float, as `<` compares it. -/
inductive FloatValue
  | negInf
  | finite (q : Rat)
  | posInf
  | nan
  deriving DecidableEq

/-- `a < b` of two numbers: a NaN is on neither side of anything. -/
def FloatValue.lt : FloatValue → FloatValue → Bool
  | .finite p, .finite q => p < q
  | .negInf, .finite _ | .negInf, .posInf | .finite _, .posInf => true
  | _, _ => false

/-- A scalar, and so a key, of a loaded document. Floats and timestamps come with their
`repr`. -/
inductive YamlScalar
  | null
  | bool (b : Bool)
  | int (i : Int)
  | float (value : FloatValue) (text : String)
  | str (s : String)
  | date (ordinal : Int) (text : String)
  | datetime (aware : Bool) (instant : Int) (text : String)
  deriving DecidableEq

/-- A loaded document. -/
inductive YamlValue
  | scalar (s : YamlScalar)
  | seq (items : List YamlValue)
  | map (members : List (YamlScalar × YamlValue))

/-- `yaml.safe_load`, with the text of its `YAMLError`, and `yaml.safe_dump` in block style;
and how many digits of an integer the interpreter prints, 0 for any number. -/
structure YamlLibrary where
  safeLoad : String → Except String YamlValue
  safeDump : YamlValue → String
  maxStrDigits : Nat := 4300

namespace YamlScalar

/-- `type(value).__name__`. -/
def typeName : YamlScalar → String
  | null => "NoneType"
  | bool _ => "bool"
  | int _ => "int"
  | float _ _ => "float"
  | str _ => "str"
  | date _ _ => "date"
  | datetime _ _ _ => "datetime"

/-- `repr(value)`. -/
def repr : YamlScalar → String
  | null => "None"
  | bool true => "True"
  | bool false => "False"
  | int i => toString i
  | str s => pyRepr s
  | float _ text | date _ text | datetime _ _ text => text

/-- `repr(value)` returns: an integer has no more digits than the interpreter prints. -/
def prints (limit : Nat) : YamlScalar → Bool
  | int i => limit = 0 || i.natAbs < 10 ^ limit
  | _ => true

/-- `value == key` for a string. -/
def isKey (key : String) : YamlScalar → Bool
  | str s => s = key
  | _ => false

/-- What a scalar can be compared with. -/
inductive Order
  | number
  | string
  | date
  | naive
  | aware
  deriving DecidableEq

/-- The values that `<` accepts beside this one; `None` has none. -/
def order : YamlScalar → Option Order
  | null => none
  | bool _ | int _ | float _ _ => some .number
  | str _ => some .string
  | date _ _ => some .date
  | datetime aware _ _ => some (if aware then .aware else .naive)

private def number : YamlScalar → FloatValue
  | bool b => .finite (if b then 1 else 0)
  | int i => .finite i
  | float value _ => value
  | date ordinal _ => .finite ordinal
  | datetime _ instant _ => .finite instant
  | _ => .nan

/-- `a < b` of two values that can be compared. -/
def lt : YamlScalar → YamlScalar → Bool
  | str s, str s' => s < s'
  | a, b => a.number.lt b.number

/-- `sorted` compares any two keys: there is one at most, or all are of one order. -/
def sortable (keys : List YamlScalar) : Bool :=
  keys.length ≤ 1 || keys.all fun a => keys.all fun b => a.order.isSome && a.order = b.order

/-- `sorted` of keys that it can compare, as their `repr`. -/
def sortedReprs (keys : List YamlScalar) : List String :=
  (keys.insertionSort fun a b => !b.lt a).map repr

end YamlScalar

namespace YamlValue

@[match_pattern] abbrev null : YamlValue := scalar .null

@[match_pattern] abbrev int (i : Int) : YamlValue := scalar (.int i)

@[match_pattern] abbrev str (s : String) : YamlValue := scalar (.str s)

/-- `type(value).__name__`. -/
def typeName : YamlValue → String
  | scalar s => s.typeName
  | seq _ => "list"
  | map _ => "dict"

mutual

/-- `repr(value)`. -/
def repr : YamlValue → String
  | scalar s => s.repr
  | seq items => "[" ++ ", ".intercalate (reprItems items) ++ "]"
  | map members => "\x7b" ++ ", ".intercalate (reprMembers members) ++ "\x7d"

/-- The `repr` of each item. -/
def reprItems : List YamlValue → List String
  | [] => []
  | item :: rest => item.repr :: reprItems rest

/-- The `key: value` text of each member. -/
def reprMembers : List (YamlScalar × YamlValue) → List String
  | [] => []
  | (key, value) :: rest => (key.repr ++ ": " ++ value.repr) :: reprMembers rest

end

mutual

/-- `repr(value)` returns. -/
def prints (limit : Nat) : YamlValue → Bool
  | scalar s => s.prints limit
  | seq items => printsItems limit items
  | map members => printsMembers limit members

/-- Every item prints. -/
def printsItems (limit : Nat) : List YamlValue → Bool
  | [] => true
  | item :: rest => item.prints limit && printsItems limit rest

/-- Every key and value prints. -/
def printsMembers (limit : Nat) : List (YamlScalar × YamlValue) → Bool
  | [] => true
  | (key, value) :: rest => key.prints limit && value.prints limit && printsMembers limit rest

end

/-- `got <type>: <repr>`, as the grammars report a value. -/
def got (value : YamlValue) : String := "(got " ++ value.typeName ++ ": " ++ value.repr ++ ")"

end YamlValue

/-- `data.get(key)` for a string. -/
def yamlField (members : List (YamlScalar × YamlValue)) (key : String) : Option YamlValue :=
  (members.find? (·.1.isKey key)).map (·.2)

/-- The characters of `str.isspace`. -/
def isPySpace (c : Char) : Bool :=
  let n := c.toNat
  9 ≤ n && n ≤ 13 || 28 ≤ n && n ≤ 32 || n = 133 || n = 160 || n = 5760 ||
    8192 ≤ n && n ≤ 8202 || n = 8232 || n = 8233 || n = 8239 || n = 8287 || n = 12288

/-- `text.rstrip()`. -/
def pyRstrip (text : String) : String :=
  String.ofList (text.toList.reverse.dropWhile isPySpace).reverse

/-- A final newline after a text that ends in no space is stripped. -/
theorem pyRstrip_newline {text : String} {c : Char} (h : isPySpace c = false) :
    pyRstrip (text.push c ++ "\n") = text.push c := by
  have hnewline : isPySpace '\n' = true := by decide
  apply String.toList_injective
  simp [pyRstrip, h, hnewline]

/-- `text.split(sep)` for one character. -/
def pySplit (sep : Char) (text : String) : List String :=
  (text.toList.splitOn sep).map String.ofList

/-- Texts without the separator are read back from their join. -/
theorem pySplit_intercalate {sep : Char} {texts : List String} (hne : texts ≠ [])
    (h : ∀ text ∈ texts, sep ∉ text.toList) :
    pySplit sep ((String.singleton sep).intercalate texts) = texts := by
  rw [pySplit, String.toList_intercalate, String.toList_singleton,
    List.splitOn_intercalate sep (by simpa using h) (by simpa using hne), List.map_map]
  simp

/-- A text is split at every occurrence of the separator. -/
theorem length_pySplit (sep : Char) (text : String) :
    (pySplit sep text).length = text.toList.count sep + 1 := by
  rw [pySplit, List.length_map, List.splitOn_eq_splitOnP]
  induction text.toList with
  | nil => rfl
  | cons c rest ih =>
    rw [List.splitOnP_cons_eq_if_modifyHead, List.count_cons]
    split
    · simp [ih]
    · simp [ih]

end SchemaBrain.Base
