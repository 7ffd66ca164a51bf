import SchemaBrain.Base.Python
import SchemaBrain.Core.Model

/-!
# Names of tables and entities in tool arguments

The parser of dotted names, bare or double-quoted, with its bounded error texts. The names
it accepts are the spellings of their segments, and every spelling is read back.
-/

namespace SchemaBrain.Mcp

open Base Core

/-- `_MAX_IDENT_LEN`. -/
def maxIdentLen : Nat := 63

/-- `_MAX_ECHO_LEN`. -/
def maxEchoLen : Nat := maxIdentLen * 3 + 2

/-- `_MAX_QUALIFIED_NAME_LEN`. -/
def maxQualifiedNameLen : Nat := 512

/-- `_bounded_repr`. -/
def boundedRepr (value : String) : String :=
  if value.length ≤ maxEchoLen then pyRepr value
  else pyRepr (String.ofList (value.toList.take maxEchoLen) ++ "...")

/-- `_IDENT_REGEX.match`: its `$` also stands before a last newline. -/
def matchesIdent (s : String) : Bool :=
  isIdent s || s.toList.getLast? = some '\n' && isIdentChars s.toList.dropLast

/-- A match of `_CONTROL_CHAR_REGEX`. -/
def hasControlChar (s : String) : Bool := s.toList.any fun c => c.toNat < 32 || c.toNat = 127

/-- `_validate_ident`. -/
def validateIdent (part role : String) : Except String Unit :=
  if part = "" then .error (role ++ " must not be empty")
  else if part.length > maxIdentLen then
    .error (role ++ " too long: " ++ toString part.length ++ " chars (max " ++
      toString maxIdentLen ++ "); got " ++ boundedRepr part)
  else if !matchesIdent part then
    .error (role ++ " must match [A-Za-z_][A-Za-z0-9_$]*, got " ++ boundedRepr part)
  else .ok ()

/-! ## Segments -/

/-- One segment of a dotted name, with its quoting. -/
structure Segment where
  value : List Char
  wasQuoted : Bool
  deriving DecidableEq

/-- Where the scan stands: before a segment, or inside one with what it has read of it. -/
inductive Scan
  | start
  | bare (read : List Char)
  | quoted (read : List Char)

/-- The loop of `_split_qualified_segments`. -/
def scanSegments (text : String) : Scan → List Char → Except String (List Segment)
  | .start, [] =>
    .error ("trailing `.` with no following segment in " ++ boundedRepr text)
  | .start, '"' :: rest => scanSegments text (.quoted []) rest
  | .start, '.' :: rest => (⟨[], false⟩ :: ·) <$> scanSegments text .start rest
  | .start, c :: rest => scanSegments text (.bare [c]) rest
  | .bare read, [] => .ok [⟨read, false⟩]
  | .bare read, '.' :: rest => (⟨read, false⟩ :: ·) <$> scanSegments text .start rest
  | .bare read, c :: rest => scanSegments text (.bare (read ++ [c])) rest
  | .quoted _, [] => .error ("unterminated quoted identifier in " ++ boundedRepr text)
  -- a doubled quote stands for one, and a single one closes the segment
  | .quoted read, '"' :: '"' :: rest => scanSegments text (.quoted (read ++ ['"'])) rest
  | .quoted read, ['"'] => .ok [⟨read, true⟩]
  | .quoted read, '"' :: '.' :: rest => (⟨read, true⟩ :: ·) <$> scanSegments text .start rest
  | .quoted _, '"' :: c :: rest =>
    .error ("expected `.` between segments at offset " ++
      toString (text.length - (c :: rest).length) ++ " in " ++ boundedRepr text)
  | .quoted read, c :: rest => scanSegments text (.quoted (read ++ [c])) rest

/-- `_split_qualified_segments`. -/
def splitQualifiedSegments (text : String) : Except String (List Segment) :=
  if text = "" then .error "qualified_name must not be empty"
  else if text.length > maxQualifiedNameLen then
    .error ("qualified_name too long: " ++ toString text.length ++ " chars (max " ++
      toString maxQualifiedNameLen ++ "); got " ++ boundedRepr text)
  else scanSegments text .start text.toList

/-- `_validate_parsed_segment`. -/
def validateParsedSegment (segment : Segment) (role : String) : Except String Unit :=
  let value := String.ofList segment.value
  if value = "" then .error (role ++ " must not be empty")
  else if value.length > maxIdentLen then
    .error (role ++ " too long: " ++ toString value.length ++ " chars (max " ++
      toString maxIdentLen ++ "); got " ++ boundedRepr value)
  else if hasControlChar value then
    .error (role ++ " contains invalid control character; got " ++ boundedRepr value ++
      ". Identifiers cannot carry C0 control bytes (\\x00-\\x1f) or DEL (\\x7f) even inside " ++
      "a double-quoted segment.")
  else if !segment.wasQuoted && !matchesIdent value then
    .error ("unquoted " ++ role ++ " must match [A-Za-z_][A-Za-z0-9_$]*, got " ++
      boundedRepr value ++ ". Wrap the name in double quotes (e.g. \"my name\") to use a " ++
      "non-identifier-shaped name.")
  else .ok ()

/-- What the agent is told to do about a name without a schema. -/
private def discoverHint : String :=
  "If you don't know the schema, call `find_relevant_tables` first to discover the " ++
    "qualified name (e.g. `public.orders`)."

/-- `_parse_qualified_name`, with the text of its `ValueError`. -/
def parseQualifiedName (text : String) : Except String QualifiedTable :=
  match splitQualifiedSegments text with
  | .error e => .error ("qualified_name must be `schema.name` (with optional double-quoting " ++
      "for non-identifier-shaped parts, e.g. public.\"weird name\"), got " ++ boundedRepr text ++
      ". " ++ e ++ ". " ++ discoverHint)
  | .ok [schema, name] =>
    match validateParsedSegment schema "schema", validateParsedSegment name "table" with
    | .ok (), .ok () => .ok ⟨String.ofList schema.value, String.ofList name.value⟩
    | .error e, _ | .ok (), .error e =>
      .error ("qualified_name segment validation failed for " ++ boundedRepr text ++ ": " ++ e)
  | .ok segments => .error ("qualified_name must be exactly `schema.name`, got " ++
      toString segments.length ++ " segment(s) in " ++ boundedRepr text ++ ". " ++ discoverHint)

/-! ## Spellings -/

/-- The characters between the quotes of a segment, its own quotes doubled. -/
def escapeQuotes (value : List Char) : List Char :=
  value.flatMap fun c => if c = '"' then ['"', '"'] else [c]

/-- How a segment is written. -/
def Segment.spelling (segment : Segment) : List Char :=
  if segment.wasQuoted then '"' :: (escapeQuotes segment.value ++ ['"']) else segment.value

/-- A bare segment has no dot and does not start with a quote. -/
def Segment.Spellable (segment : Segment) : Prop :=
  segment.wasQuoted = false → '.' ∉ segment.value ∧ segment.value.head? ≠ some '"'

/-- The segments after the first one, each with its dot. -/
def laterSpellings (segments : List Segment) : List Char :=
  segments.flatMap fun segment => '.' :: segment.spelling

/-- What the scan leaves of a text, by where it stands. -/
private def Reads (segments : List Segment) (chars : List Char) : Scan → Prop
  | .start => ∃ segment rest, segments = segment :: rest ∧ segment.Spellable ∧
      chars = segment.spelling ++ laterSpellings rest ∧ ∀ s ∈ rest, s.Spellable
  | .bare read => ∃ value rest, segments = ⟨read ++ value, false⟩ :: rest ∧ '.' ∉ value ∧
      chars = value ++ laterSpellings rest ∧ ∀ s ∈ rest, s.Spellable
  | .quoted read => ∃ value rest, segments = ⟨read ++ value, true⟩ :: rest ∧
      chars = escapeQuotes value ++ '"' :: laterSpellings rest ∧ ∀ s ∈ rest, s.Spellable

private theorem reads_later {segments : List Segment} {chars : List Char}
    (h : Reads segments chars .start) :
    '.' :: chars = laterSpellings segments ∧ ∀ s ∈ segments, s.Spellable := by
  obtain ⟨segment, rest, rfl, hspell, rfl, hrest⟩ := h
  exact ⟨rfl, List.forall_mem_cons.2 ⟨hspell, hrest⟩⟩

private theorem reads_of_scan {text : String} {scan : Scan} {chars : List Char}
    {segments : List Segment} (h : scanSegments text scan chars = .ok segments) :
    Reads segments chars scan := by
  fun_induction scanSegments text scan chars generalizing segments with
  | case1 => simp at h
  | case2 rest ih =>
    obtain ⟨value, later, rfl, rfl, hlater⟩ := ih h
    exact ⟨_, later, rfl, fun hbare => absurd hbare (by simp), by simp [Segment.spelling], hlater⟩
  | case3 rest ih =>
    obtain ⟨later, hlater, rfl⟩ := map_eq_ok h
    obtain ⟨hchars, hspell⟩ := reads_later (ih hlater)
    exact ⟨_, later, rfl, by simp [Segment.Spellable], by simp [Segment.spelling, hchars], hspell⟩
  | case4 c rest hquote hdot ih =>
    obtain ⟨value, later, rfl, hvalue, rfl, hlater⟩ := ih h
    refine ⟨_, later, rfl, fun _ => ⟨?_, by simpa using hquote⟩, by simp [Segment.spelling], hlater⟩
    rw [List.singleton_append, List.mem_cons, not_or]
    exact ⟨fun heq => hdot heq.symm, hvalue⟩
  | case5 read =>
    obtain rfl := Except.ok.inj h
    exact ⟨[], [], by simp, by simp, by simp [laterSpellings], by simp⟩
  | case6 read rest ih =>
    obtain ⟨later, hlater, rfl⟩ := map_eq_ok h
    obtain ⟨hchars, hspell⟩ := reads_later (ih hlater)
    exact ⟨[], later, by simp, by simp, hchars, hspell⟩
  | case7 read c rest hdot ih =>
    obtain ⟨value, later, rfl, hvalue, rfl, hlater⟩ := ih h
    refine ⟨c :: value, later, by simp, ?_, rfl, hlater⟩
    rw [List.mem_cons, not_or]
    exact ⟨fun heq => hdot heq.symm, hvalue⟩
  | case8 => simp at h
  | case9 read rest ih =>
    obtain ⟨value, later, rfl, rfl, hlater⟩ := ih h
    exact ⟨'"' :: value, later, by simp, by simp [escapeQuotes], hlater⟩
  | case10 read =>
    obtain rfl := Except.ok.inj h
    exact ⟨[], [], by simp, by simp [laterSpellings, escapeQuotes], by simp⟩
  | case11 read rest ih =>
    obtain ⟨later, hlater, rfl⟩ := map_eq_ok h
    obtain ⟨hchars, hspell⟩ := reads_later (ih hlater)
    exact ⟨[], later, by simp, by simp [escapeQuotes, hchars], hspell⟩
  | case12 => simp at h
  | case13 read c rest _ hlast _ hother ih =>
    have hc : c ≠ '"' := by
      rintro rfl
      cases rest with
      | nil => exact hlast rfl rfl
      | cons c' rest => exact hother c' rest rfl rfl
    obtain ⟨value, later, rfl, rfl, hlater⟩ := ih h
    exact ⟨c :: value, later, by simp, by simp [escapeQuotes, hc], hlater⟩

private theorem scan_bare (text : String) {value : List Char} (h : '.' ∉ value)
    (read tail : List Char) :
    scanSegments text (.bare read) (value ++ tail) =
      scanSegments text (.bare (read ++ value)) tail := by
  induction value generalizing read with
  | nil => simp
  | cons c value ih =>
    rw [List.mem_cons, not_or] at h
    have hstep : scanSegments text (.bare read) (c :: (value ++ tail)) =
        scanSegments text (.bare (read ++ [c])) (value ++ tail) := by
      rw [scanSegments]
      exact fun heq => h.1 heq.symm
    rw [List.cons_append, hstep, ih h.2, List.append_assoc, List.singleton_append]

private theorem scan_quoted (text : String) (value read tail : List Char) :
    scanSegments text (.quoted read) (escapeQuotes value ++ '"' :: tail) =
      scanSegments text (.quoted (read ++ value)) ('"' :: tail) := by
  induction value generalizing read with
  | nil => simp [escapeQuotes]
  | cons c value ih =>
    have hstep : scanSegments text (.quoted read) (escapeQuotes (c :: value) ++ '"' :: tail) =
        scanSegments text (.quoted (read ++ [c])) (escapeQuotes value ++ '"' :: tail) := by
      by_cases hc : c = '"'
      · subst hc
        simp [escapeQuotes, scanSegments]
      · have hone : escapeQuotes (c :: value) = c :: escapeQuotes value := by
          simp [escapeQuotes, hc]
        rw [hone, List.cons_append, scanSegments]
        · exact fun _ heq _ => hc heq
        · exact fun heq _ => hc heq
        · exact fun _ heq _ => hc heq
        · exact fun _ _ heq _ => hc heq
    rw [hstep, ih, List.append_assoc, List.singleton_append]

/-- A segment's spelling brings the scan to its end. -/
private theorem scan_segment (text : String) {segment : Segment} (h : segment.Spellable)
    (hvalue : segment.value ≠ []) (tail : List Char) :
    scanSegments text .start (segment.spelling ++ tail) =
      if segment.wasQuoted then scanSegments text (.quoted segment.value) ('"' :: tail)
      else scanSegments text (.bare segment.value) tail := by
  obtain ⟨value, wasQuoted⟩ := segment
  cases wasQuoted with
  | true =>
    rw [Segment.spelling, if_pos rfl, if_pos rfl, List.cons_append, List.append_assoc,
      List.singleton_append, scanSegments, scan_quoted]
    rfl
  | false =>
    obtain ⟨hdot, hquote⟩ := h rfl
    obtain ⟨c, rest, rfl⟩ := List.exists_cons_of_ne_nil hvalue
    rw [List.mem_cons, not_or] at hdot
    have hstep : scanSegments text .start (c :: (rest ++ tail)) =
        scanSegments text (.bare [c]) (rest ++ tail) := by
      rw [scanSegments]
      · exact fun heq => hquote (congrArg some heq)
      · exact fun heq => hdot.1 heq.symm
    rw [Segment.spelling, if_neg Bool.false_ne_true, if_neg Bool.false_ne_true, List.cons_append,
      hstep, scan_bare text hdot.2]
    rfl

/-- The scan reads back what segments spell. -/
theorem scan_spelling (text : String) {segment : Segment} {rest : List Segment}
    (h : ∀ s ∈ segment :: rest, s.Spellable ∧ s.value ≠ []) :
    scanSegments text .start (segment.spelling ++ laterSpellings rest) = .ok (segment :: rest) := by
  induction rest generalizing segment with
  | nil =>
    obtain ⟨hspell, hvalue⟩ := h segment List.mem_cons_self
    rw [scan_segment text hspell hvalue]
    obtain ⟨value, wasQuoted⟩ := segment
    cases wasQuoted <;> simp [laterSpellings, scanSegments]
  | cons next rest ih =>
    obtain ⟨hspell, hvalue⟩ := h segment List.mem_cons_self
    have hnext := ih fun s hs => h s (List.mem_cons_of_mem _ hs)
    rw [scan_segment text hspell hvalue, laterSpellings, List.flatMap_cons, List.cons_append]
    change (if segment.wasQuoted then
        scanSegments text (.quoted segment.value)
          ('"' :: '.' :: (next.spelling ++ laterSpellings rest))
      else scanSegments text (.bare segment.value)
          ('.' :: (next.spelling ++ laterSpellings rest))) = _
    obtain ⟨value, wasQuoted⟩ := segment
    cases wasQuoted <;> simp [scanSegments, hnext]

private theorem scan_segments (text : String) {schema name : Segment}
    (hschema : schema.Spellable ∧ schema.value ≠ []) (hname : name.Spellable ∧ name.value ≠ []) :
    scanSegments text .start (schema.spelling ++ '.' :: name.spelling) = .ok [schema, name] := by
  have hall : ∀ s ∈ [schema, name], s.Spellable ∧ s.value ≠ [] := by simp [hschema, hname]
  have hscan := scan_spelling text hall
  rwa [laterSpellings, List.flatMap_cons, List.flatMap_nil, List.append_nil] at hscan

/-- A split text is the spelling of its segments. -/
theorem splitQualifiedSegments_ok {text : String} {segments : List Segment}
    (h : splitQualifiedSegments text = .ok segments) :
    text.length ≤ maxQualifiedNameLen ∧ ∃ first rest, segments = first :: rest ∧
      text.toList = first.spelling ++ laterSpellings rest ∧ ∀ s ∈ segments, s.Spellable := by
  unfold splitQualifiedSegments at h
  split at h
  · cases h
  · split at h
    · cases h
    · next hlength =>
      obtain ⟨first, rest, rfl, hfirst, hchars, hrest⟩ := reads_of_scan h
      exact ⟨not_lt.1 hlength, first, rest, rfl, hchars, List.forall_mem_cons.2 ⟨hfirst, hrest⟩⟩

/-- A short text that segments spell is split into them. -/
theorem splitQualifiedSegments_spelling {text : String} {first : Segment} {rest : List Segment}
    (hlength : text.length ≤ maxQualifiedNameLen)
    (h : ∀ s ∈ first :: rest, s.Spellable ∧ s.value ≠ [])
    (hchars : text.toList = first.spelling ++ laterSpellings rest) :
    splitQualifiedSegments text = .ok (first :: rest) := by
  have hscan := scan_spelling text h
  have htext : text ≠ "" := by
    rintro rfl
    rw [← hchars] at hscan
    simp [scanSegments] at hscan
  rw [splitQualifiedSegments, if_neg htext, if_neg (not_lt.2 hlength), hchars, hscan]

/-- A segment that the parser takes for a role. -/
def Segment.Valid (segment : Segment) (role : String) : Prop :=
  validateParsedSegment segment role = .ok ()

theorem Segment.Valid.ne_nil {segment : Segment} {role : String} (h : segment.Valid role) :
    segment.value ≠ [] := by
  intro hnil
  rw [Segment.Valid, validateParsedSegment, hnil] at h
  simp at h

/-- The texts that the parser accepts are the spellings of two valid segments. -/
theorem parseQualifiedName_ok_iff {text : String} {table : QualifiedTable} :
    parseQualifiedName text = .ok table ↔
      text.length ≤ maxQualifiedNameLen ∧ ∃ schema name : Segment,
        schema.Valid "schema" ∧ name.Valid "table" ∧ schema.Spellable ∧ name.Spellable ∧
        text.toList = schema.spelling ++ '.' :: name.spelling ∧
        table = ⟨String.ofList schema.value, String.ofList name.value⟩ := by
  constructor
  · intro h
    unfold parseQualifiedName at h
    split at h
    · simp at h
    · next schema name hsplit =>
      split at h
      · next hschema hname =>
        obtain ⟨hlength, first, rest, heq, hchars, hspell⟩ := splitQualifiedSegments_ok hsplit
        obtain ⟨rfl, rfl⟩ := List.cons_eq_cons.1 heq
        exact ⟨hlength, schema, name, hschema, hname, hspell schema (by simp),
          hspell name (by simp), by simpa [laterSpellings] using hchars, (Except.ok.inj h).symm⟩
      · simp at h
      · simp at h
    · simp at h
  · rintro ⟨hlength, schema, name, hschema, hname, hschemaSpell, hnameSpell, hchars, rfl⟩
    have hsplit : splitQualifiedSegments text = .ok [schema, name] := by
      refine splitQualifiedSegments_spelling hlength ?_ (by simpa [laterSpellings] using hchars)
      simpa using ⟨⟨hschemaSpell, hschema.ne_nil⟩, hnameSpell, hname.ne_nil⟩
    rw [Segment.Valid] at hschema hname
    rw [parseQualifiedName, hsplit]
    simp only [hschema, hname]

/-! ## Identifiers -/

/-- The bare segment of a text. -/
private def bareSegment (s : String) : Segment := ⟨s.toList, false⟩

private theorem bareSegment_scans {s : String} (h : isIdent s = true) :
    (bareSegment s).Spellable ∧ (bareSegment s).value ≠ [] := by
  refine ⟨fun _ => ⟨fun hdot => ?_, fun hquote => ?_⟩, fun hnil => ?_⟩
  · exact absurd (isIdentChar_of_mem h hdot) (by decide)
  · exact absurd (isIdentChar_of_mem h (List.mem_of_head? hquote)) (by decide)
  · simp only [bareSegment] at hnil
    simp [isIdent, hnil, isIdentChars] at h

private theorem hasControlChar_ident {s : String} (h : isIdent s = true) :
    hasControlChar s = false := by
  rw [hasControlChar, List.any_eq_false]
  intro c hc
  have hchar := isIdentChar_of_mem h hc
  have hrange : 32 ≤ c.toNat ∧ c.toNat ≠ 127 := by
    simp only [isIdentChar, Bool.or_eq_true, decide_eq_true_eq] at hchar
    rcases hchar with (halnum | rfl) | rfl
    · have hbounds := toNat_of_isAlphanum halnum
      omega
    · decide
    · decide
  simp only [Bool.or_eq_true, decide_eq_true_eq]
  omega

private theorem bareSegment_valid_iff {s role : String} (h : isIdent s = true) :
    (bareSegment s).Valid role ↔ s.length ≤ maxIdentLen := by
  have hne : s ≠ "" := by
    rintro rfl
    exact absurd h (by decide)
  rw [Segment.Valid, validateParsedSegment]
  simp only [bareSegment, String.ofList_toList, hne, if_false, hasControlChar_ident h,
    matchesIdent, h]
  split
  · next hlong => simp [hlong]
  · next hshort => simp [not_lt.1 hshort]

/-- The plain text of an identifier table is read as the table, if its parts are not too long. -/
theorem parseQualifiedName_text_iff {q key : QualifiedTable} (hschema : isIdent q.schema = true)
    (htable : isIdent q.table = true) :
    parseQualifiedName q.text = .ok key ↔
      key = q ∧ q.schema.length ≤ maxIdentLen ∧ q.table.length ≤ maxIdentLen := by
  have hchars : q.text.toList = (bareSegment q.schema).spelling ++
      '.' :: (bareSegment q.table).spelling := by
    simp [QualifiedTable.text, bareSegment, Segment.spelling]
  rw [parseQualifiedName_ok_iff]
  constructor
  · rintro ⟨-, schema, name, hvalid, hvalid', hspell, hspell', hchars', rfl⟩
    have hscan := scan_segments q.text (bareSegment_scans hschema) (bareSegment_scans htable)
    have hscan' := scan_segments q.text ⟨hspell, hvalid.ne_nil⟩ ⟨hspell', hvalid'.ne_nil⟩
    rw [← hchars] at hscan
    rw [← hchars', hscan] at hscan'
    obtain ⟨rfl, hrest⟩ := List.cons_eq_cons.1 (Except.ok.inj hscan')
    obtain ⟨rfl, -⟩ := List.cons_eq_cons.1 hrest
    exact ⟨by simp [bareSegment], (bareSegment_valid_iff hschema).1 hvalid,
      (bareSegment_valid_iff htable).1 hvalid'⟩
  · rintro ⟨rfl, hlength, hlength'⟩
    refine ⟨?_, _, _, (bareSegment_valid_iff hschema).2 hlength,
      (bareSegment_valid_iff htable).2 hlength', (bareSegment_scans hschema).1,
      (bareSegment_scans htable).1, hchars, by simp [bareSegment]⟩
    simp only [QualifiedTable.text, String.length_append, maxQualifiedNameLen, maxIdentLen] at *
    have hdot : ".".length = 1 := rfl
    omega

end SchemaBrain.Mcp
