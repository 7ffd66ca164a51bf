import SchemaBrain.Base.Collections
import SchemaBrain.Base.Placeholder
import SchemaBrain.Base.TextLines
import SchemaBrain.Base.Yaml

/-!
# The `.env` file

`load_env_file_into_environ` and `persist_key_to_env_file`. A file is read in text mode, with
universal newlines, and written with line feeds as a system with that line separator does.
-/

namespace SchemaBrain.Setup

open Base

/-! ## Lines -/

/-- A line boundary of `str.splitlines`. -/
def isLineBreak (c : Char) : Bool :=
  c.toNat ∈ [0x0a, 0x0b, 0x0c, 0x0d, 0x1c, 0x1d, 0x1e, 0x85, 0x2028, 0x2029]

/-- `[A-Za-z_][A-Za-z0-9_]*` on characters. -/
def isKeyName : List Char → Bool
  | [] => false
  | c :: rest => (c.isAlpha || c = '_') && rest.all isNameChar

/-- `text.rstrip()` on characters. -/
def rstrip (text : List Char) : List Char := (text.reverse.dropWhile isPySpace).reverse

/-- A match of `_KEY_VALUE_RE` on a line: its two groups. -/
def matchKeyValue (raw : List Char) : Option (String × String) :=
  let text := raw.dropWhile isPySpace
  let key := text.takeWhile isNameChar
  match (text.dropWhile isNameChar).dropWhile isPySpace with
  | '=' :: rest =>
    if isKeyName key then
      some (String.ofList key, String.ofList (rstrip (rest.dropWhile isPySpace)))
    else none
  | _ => none

/-- The line assigns the key. -/
def assigns (keyName : String) (raw : List Char) : Bool :=
  (matchKeyValue raw).any (·.1 = keyName)

/-- The lines of a file that is read: `read_text().splitlines()`. -/
def readLines (text : String) : List (List Char) :=
  (splitLines isLineBreak (universalNewlines text.toList)).map Prod.fst

/-! ## Loading -/

/-- `_unquote_value`. -/
def unquoteValue (raw : String) : String :=
  match raw.toList with
  | first :: second :: rest =>
    if (second :: rest).getLast? = some first ∧ (first = '"' ∨ first = '\'') then
      String.ofList ((second :: rest).dropLast)
    else raw
  | _ => raw

/-- The number of keys that were loaded, and the environment. -/
abbrev Loaded := Nat × List (String × String)

/-- One round of the loader's loop. -/
def loadLine (loaded : Loaded) (raw : List Char) : Loaded :=
  let line := raw.dropWhile isPySpace
  if line = [] ∨ line.head? = some '#' then loaded
  else
    match matchKeyValue raw with
    | none => loaded
    | some (key, value) =>
      let value := unquoteValue value
      if value.toList.all isPySpace then loaded
      else if (dictGet loaded.2 key).isSome then loaded
      else (loaded.1 + 1, dictSet loaded.2 key value)

/-- `load_env_file_into_environ` of a file that may be missing. -/
def loadEnvFileIntoEnviron (file : Option String) (environ : List (String × String)) : Loaded :=
  match file with
  | none => (0, environ)
  | some text => (readLines text).foldl loadLine (0, environ)

/-! ## Persisting -/

/-- The line that is written for a key. -/
def keyLine (keyName keyValue : String) : List Char := keyName.toList ++ '=' :: keyValue.toList

/-- The lines that are written. -/
def outLines (keyName keyValue : String) (existing : List (List Char)) : List (List Char) :=
  let lines := existing.map fun raw =>
    if assigns keyName raw then keyLine keyName keyValue else raw
  if existing.any (assigns keyName) then lines else lines ++ [keyLine keyName keyValue]

/-- `persist_key_to_env_file`: the text of the file afterwards. -/
def persistKeyToEnvFile (keyName keyValue : String) (file : Option String) : String :=
  String.ofList (unlines '\n' (outLines keyName keyValue ((file.map readLines).getD [])))

end SchemaBrain.Setup
