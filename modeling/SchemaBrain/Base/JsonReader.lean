import SchemaBrain.Base.Json

/-!
# Reading JSON

`json.loads` as a machine that takes one character at a time: the containers that are open, and
what the next character may be. Reading a text is reading its parts one after the other.
-/

namespace SchemaBrain.Base

/-- What `json.loads` returns. A number is kept as its literal. -/
inductive JsonDoc
  | null
  | bool (b : Bool)
  | number (literal : String)
  | str (s : String)
  | arr (items : List JsonDoc)
  | obj (members : List (String × JsonDoc))
  deriving Repr

namespace JsonReader

/-- A container that is open, with what it holds so far. -/
inductive Frame
  | arr (items : List JsonDoc)
  | obj (members : List (String × JsonDoc))
  | member (members : List (String × JsonDoc)) (key : String)

/-- What the next character belongs to. -/
inductive Mode
  | value
  | firstItem
  | firstKey
  | key
  | colon
  | after
  | text (isKey : Bool) (chars : List Char)
  | escape (isKey : Bool) (chars : List Char)
  | unicode (isKey : Bool) (chars digits : List Char)
  | lowSurrogate (isKey : Bool) (chars : List Char) (high : Nat) (chars' : List Char)
  | scalar (chars : List Char)
  | finished (doc : JsonDoc)

/-- The open containers, the innermost first, and the mode. -/
structure State where
  stack : List Frame
  mode : Mode

/-- The whitespace of the grammar. -/
def isSpace (c : Char) : Bool := c ∈ [' ', '\t', '\n', '\r']

/-- What ends a literal. -/
def isDelimiter (c : Char) : Bool := isSpace c || c ∈ [',', ':', ']', '\x7d']

/-- The number of four hex digits. -/
def hexNumber (digits : List Char) : Option Nat :=
  if digits.length = 4 ∧ digits.all fun c => c.isDigit || 'a' ≤ c.toLower && c.toLower ≤ 'f' then
    some (digits.foldl (fun n c => 16 * n + hexValue c.toLower) 0)
  else none

/-- The digits at the front, of which there is one at least. -/
private def digits? (chars : List Char) : Option (List Char) :=
  match chars with
  | c :: rest => if c.isDigit then some (rest.dropWhile Char.isDigit) else none
  | [] => none

/-- The literals of a number. -/
def isNumber (chars : List Char) : Bool :=
  let unsigned := if chars.head? = some '-' then chars.tail else chars
  let integer := if unsigned.head? = some '0' then some unsigned.tail else digits? unsigned
  let fraction := integer.bind fun rest =>
    if rest.head? = some '.' then digits? rest.tail else some rest
  let exponent := fraction.bind fun rest =>
    match rest with
    | [] => some []
    | e :: rest =>
      if e = 'e' ∨ e = 'E' then
        digits? (if rest.head? = some '+' ∨ rest.head? = some '-' then rest.tail else rest)
      else none
  exponent = some []

/-- The document of a literal. -/
def scalarDoc (chars : List Char) : Option JsonDoc :=
  let literal := String.ofList chars
  if literal = "null" then some .null
  else if literal = "true" then some (.bool true)
  else if literal = "false" then some (.bool false)
  else if isNumber chars ∨ literal ∈ ["NaN", "Infinity", "-Infinity"] then some (.number literal)
  else none

/-- A dictionary with one more member: a key keeps its place and takes the later value. -/
def setMember (members : List (String × JsonDoc)) (key : String) (doc : JsonDoc) :
    List (String × JsonDoc) :=
  if key ∈ members.map (·.1) then members.map fun m => if m.1 = key then (key, doc) else m
  else members ++ [(key, doc)]

/-- A complete value takes its place in the innermost container. -/
def place (stack : List Frame) (doc : JsonDoc) : State :=
  match stack with
  | [] => ⟨[], .finished doc⟩
  | .arr items :: rest => ⟨.arr (items ++ [doc]) :: rest, .after⟩
  | .member members key :: rest => ⟨.obj (setMember members key doc) :: rest, .after⟩
  | .obj members :: rest => ⟨.obj members :: rest, .after⟩

/-- A complete string: a value, or the key of a member. -/
def placeText (stack : List Frame) (isKey : Bool) (chars : List Char) : Option State :=
  match isKey, stack with
  | false, stack => some (place stack (.str (String.ofList chars)))
  | true, .obj members :: rest => some ⟨.member members (String.ofList chars) :: rest, .colon⟩
  | true, _ => none

/-- The first character of a value. -/
def startValue (stack : List Frame) (c : Char) : Option State :=
  if c = '"' then some ⟨stack, .text false []⟩
  else if c = '[' then some ⟨.arr [] :: stack, .firstItem⟩
  else if c = '\x7b' then some ⟨.obj [] :: stack, .firstKey⟩
  else if isDelimiter c then none
  else some ⟨stack, .scalar [c]⟩

/-- The character after a value. -/
def afterValue (stack : List Frame) (c : Char) : Option State :=
  match c, stack with
  | ',', .arr items :: rest => some ⟨.arr items :: rest, .value⟩
  | ',', .obj members :: rest => some ⟨.obj members :: rest, .key⟩
  | ']', .arr items :: rest => some (place rest (.arr items))
  | '\x7d', .obj members :: rest => some (place rest (.obj members))
  | _, _ => none

/-- The character after a backslash. -/
def unescape (c : Char) : Option Char :=
  match c with
  | '"' => some '"'
  | '\\' => some '\\'
  | '/' => some '/'
  | 'b' => some (Char.ofNat 8)
  | 'f' => some (Char.ofNat 12)
  | 'n' => some '\n'
  | 'r' => some '\r'
  | 't' => some '\t'
  | _ => none

/-- The character of a code unit. A lone surrogate, which is no character, is refused. -/
def unitMode (isKey : Bool) (chars : List Char) (unit : Nat) : Option Mode :=
  if 0xd800 ≤ unit ∧ unit < 0xdc00 then some (.lowSurrogate isKey chars unit [])
  else if 0xdc00 ≤ unit ∧ unit < 0xe000 then none
  else some (.text isKey (chars ++ [Char.ofNat unit]))

/-- One character. -/
def step (s : State) (c : Char) : Option State :=
  match s.mode with
  | .value => if isSpace c then some s else startValue s.stack c
  | .firstItem =>
    if isSpace c then some s
    else if c = ']' then afterValue s.stack c
    else startValue s.stack c
  | .firstKey =>
    if isSpace c then some s
    else if c = '\x7d' then afterValue s.stack c
    else if c = '"' then some { s with mode := .text true [] }
    else none
  | .key =>
    if isSpace c then some s
    else if c = '"' then some { s with mode := .text true [] }
    else none
  | .colon =>
    if isSpace c then some s else if c = ':' then some { s with mode := .value } else none
  | .after => if isSpace c then some s else afterValue s.stack c
  | .text isKey chars =>
    if c = '"' then placeText s.stack isKey chars
    else if c = '\\' then some { s with mode := .escape isKey chars }
    else if c.toNat < 32 then none
    else some { s with mode := .text isKey (chars ++ [c]) }
  | .escape isKey chars =>
    if c = 'u' then some { s with mode := .unicode isKey chars [] }
    else (unescape c).map fun c' => { s with mode := .text isKey (chars ++ [c']) }
  | .unicode isKey chars digits =>
    let digits := digits ++ [c]
    if digits.length < 4 then some { s with mode := .unicode isKey chars digits }
    else ((hexNumber digits).bind (unitMode isKey chars)).map fun mode => { s with mode := mode }
  | .lowSurrogate isKey chars high read =>
    let read := read ++ [c]
    if read.length < 6 then some { s with mode := .lowSurrogate isKey chars high read }
    else if read.take 2 = ['\\', 'u'] then
      (hexNumber (read.drop 2)).bind fun low =>
        let c' := Char.ofNat (0x10000 + 1024 * (high - 0xd800) + (low - 0xdc00))
        if 0xdc00 ≤ low ∧ low < 0xe000 then some { s with mode := .text isKey (chars ++ [c']) }
        else none
    else none
  | .scalar chars =>
    if isDelimiter c then
      (scalarDoc chars).bind fun doc =>
        let closed := place s.stack doc
        if isSpace c then some closed else afterValue closed.stack c
    else some { s with mode := .scalar (chars ++ [c]) }
  | .finished _ => if isSpace c then some s else none

/-- The document at the end of a text. -/
def finish (s : State) : Option JsonDoc :=
  match s.mode, s.stack with
  | .finished doc, _ => some doc
  | .scalar chars, [] => scalarDoc chars
  | _, _ => none

end JsonReader

/-- `json.loads`, nothing where it raises `JSONDecodeError`. -/
def loads (text : String) : Option JsonDoc :=
  (text.toList.foldlM JsonReader.step ⟨[], .value⟩).bind JsonReader.finish

/-- The text of a list under the default separators, given those of its items. -/
def dumpList (texts : List (List Char)) : List Char :=
  '[' :: ([',', ' '].intercalate texts ++ [']'])

namespace JsonReader

/-! ## Reading what was written -/

/-- Wherever a value may start, the text reads as the document. -/
def Reads (chars : List Char) (doc : JsonDoc) : Prop :=
  ∀ stack mode, mode = .value ∨ mode = .firstItem →
    chars.foldlM step ⟨stack, mode⟩ = some (place stack doc)

theorem loads_of_reads {chars : List Char} {doc : JsonDoc} (h : Reads chars doc) :
    loads (String.ofList chars) = some doc := by
  rw [loads, String.toList_ofList, h [] .value (.inl rfl)]
  rfl

private theorem step_quote {stack : List Frame} {mode : Mode}
    (hmode : mode = .value ∨ mode = .firstItem) :
    step ⟨stack, mode⟩ '"' = some ⟨stack, .text false []⟩ := by
  rcases hmode with rfl | rfl <;> rfl

private theorem step_bracket {stack : List Frame} {mode : Mode}
    (hmode : mode = .value ∨ mode = .firstItem) :
    step ⟨stack, mode⟩ '[' = some ⟨.arr [] :: stack, .firstItem⟩ := by
  rcases hmode with rfl | rfl <;> rfl

private theorem foldlM_text {stack : List Frame} {isKey : Bool} {read chars : List Char}
    (h : ∀ c ∈ chars, c ≠ '"' ∧ c ≠ '\\' ∧ 32 ≤ c.toNat) :
    chars.foldlM step ⟨stack, .text isKey read⟩ = some ⟨stack, .text isKey (read ++ chars)⟩ := by
  induction chars generalizing read with
  | nil => simp
  | cons c rest ih =>
    obtain ⟨hquote, hback, hcontrol⟩ := h c List.mem_cons_self
    have hstep : step ⟨stack, .text isKey read⟩ c = some ⟨stack, .text isKey (read ++ [c])⟩ := by
      simp [step, hquote, hback, Nat.not_lt.2 hcontrol]
    rw [List.foldlM_cons, hstep]
    have hread : rest.foldlM step ⟨stack, .text isKey (read ++ [c])⟩ =
        some ⟨stack, .text isKey (read ++ [c] ++ rest)⟩ :=
      ih fun c' hc' => h c' (List.mem_cons_of_mem _ hc')
    simpa using hread

/-- A string without escapes. -/
theorem reads_str {s : String} (h : ∀ c ∈ s.toList, c ≠ '"' ∧ c ≠ '\\' ∧ 32 ≤ c.toNat) :
    Reads ('"' :: (s.toList ++ ['"'])) (.str s) := by
  intro stack mode hmode
  rw [List.foldlM_cons, step_quote hmode]
  simp [List.foldlM_append, foldlM_text h, step, placeText]

private theorem intercalate_cons (text : List Char) (texts : List (List Char)) :
    [',', ' '].intercalate (text :: texts) = text ++ texts.flatMap (',' :: ' ' :: ·) := by
  induction texts generalizing text with
  | nil => simp
  | cons next texts ih =>
    rw [List.intercalate_cons_cons, ih, List.flatMap_cons]
    simp

/-- A list of what can be read. -/
theorem reads_dumpList {texts : List (List Char)} {docs : List JsonDoc}
    (h : List.Forall₂ Reads texts docs) : Reads (dumpList texts) (.arr docs) := by
  -- After one item, each further one comes with its separator.
  have hrest : ∀ {texts docs} (stack : List Frame) (items : List JsonDoc),
      List.Forall₂ Reads texts docs →
      (texts.flatMap (',' :: ' ' :: ·)).foldlM step ⟨.arr items :: stack, .after⟩ =
        some ⟨.arr (items ++ docs) :: stack, .after⟩ := by
    intro texts docs stack items h
    induction h generalizing items with
    | nil => simp
    | @cons text doc texts docs htext _ ih =>
      rw [List.flatMap_cons, List.cons_append, List.cons_append, List.foldlM_cons]
      have hcomma : step ⟨.arr items :: stack, .after⟩ ',' =
          some ⟨.arr items :: stack, .value⟩ := rfl
      have hspace : step ⟨.arr items :: stack, .value⟩ ' ' =
          some ⟨.arr items :: stack, .value⟩ := rfl
      simp only [hcomma, Option.bind_eq_bind, Option.bind_some, List.foldlM_cons, hspace,
        List.foldlM_append, htext (.arr items :: stack) .value (.inl rfl)]
      simpa [place] using ih (items ++ [doc])
  intro stack mode hmode
  rw [dumpList, List.foldlM_cons, step_bracket hmode]
  cases h with
  | nil => rfl
  | @cons text doc texts docs htext htexts =>
    rw [intercalate_cons]
    simp only [Option.bind_eq_bind, Option.bind_some, List.append_assoc, List.foldlM_append,
      htext (.arr [] :: stack) .firstItem (.inr rfl)]
    simp only [place, List.nil_append, hrest stack [doc] htexts, Option.bind_some]
    rfl

end JsonReader

end SchemaBrain.Base
