import SchemaBrain.Mcp.QualifiedName

/-!
# The grammar of qualified names

`_parse_column_qualified_name` beside `_parse_qualified_name`. Both accept the texts of one grammar:
segments joined by dots, each an identifier or a quoted name.
-/

namespace SchemaBrain.Mcp

open Base Core

/-- What the agent is told to do about a column name without its table. -/
private def discoverColumnHint : String :=
  "If you don't know the schema or table, call `find_relevant_tables` or `describe_table` first " ++
    "to discover them (e.g. `public.orders.user_id`)."

/-- `_parse_column_qualified_name`, with the text of its `ValueError`. -/
def parseColumnQualifiedName (text : String) : Except String (String × String × String) :=
  match splitQualifiedSegments text with
  | .error e => .error ("qualified_name must be `schema.table.column` (with optional " ++
      "double-quoting for non-identifier-shaped parts, e.g. public.frpm.\"Percent (%) Eligible " ++
      "Free (K-12)\"), got " ++ boundedRepr text ++ ". " ++ e ++ ". " ++ discoverColumnHint)
  | .ok [schema, table, column] =>
    let validated := do
      validateParsedSegment schema "schema"
      validateParsedSegment table "table"
      validateParsedSegment column "column"
    match validated with
    | .ok () => .ok (String.ofList schema.value, String.ofList table.value,
        String.ofList column.value)
    | .error e =>
      .error ("qualified_name segment validation failed for " ++ boundedRepr text ++ ": " ++ e)
  | .ok segments => .error ("qualified_name must be exactly `schema.table.column`, got " ++
      toString segments.length ++ " segment(s) in " ++ boundedRepr text ++ ". " ++
      discoverColumnHint)

/-! ## The grammar -/

/-- What a segment may denote: 1 to 63 characters, none of them a control character. -/
structure Denotable (name : String) : Prop where
  ne_empty : 1 ≤ name.length
  short : name.length ≤ 63
  printable : ∀ c ∈ name.toList, ¬ c.toNat < 32 ∧ c.toNat ≠ 127

/-- A name between double quotes, its own quotes doubled. -/
def quoted (name : String) : List Char := '"' :: (escapeQuotes name.toList ++ ['"'])

/-- A segment as it is written, with what it denotes. -/
inductive SegmentText : List Char → String → Prop
  | bare {name : String} : isIdent name = true → Denotable name → SegmentText name.toList name
  | quoted {name : String} : Denotable name → SegmentText (quoted name) name

/-- The text is segments joined by single dots, and they denote these names. -/
def NameText (text : String) (names : List String) : Prop :=
  ∃ segments, List.Forall₂ SegmentText segments names ∧
    text.toList = ['.'].intercalate segments

/-- The names between double quotes, joined by dots. -/
def quotedName (names : List String) : String :=
  String.ofList (['.'].intercalate (names.map quoted))

/-! ## Segments -/

theorem validateParsedSegment_ok_iff {segment : Segment} {role : String} :
    segment.Valid role ↔ Denotable (String.ofList segment.value) ∧
      (segment.wasQuoted = false → isIdent (String.ofList segment.value) = true) := by
  obtain ⟨value, wasQuoted⟩ := segment
  unfold Segment.Valid validateParsedSegment
  dsimp only
  generalize String.ofList value = name
  have hempty : name = "" ↔ name.length = 0 := by simp
  split
  · next h =>
    refine iff_of_false (by simp) fun hd => ?_
    have := hd.1.ne_empty
    have := hempty.1 h
    omega
  · next hne =>
    have hpos : 1 ≤ name.length := by
      have := mt hempty.2 hne
      omega
    split
    · next hlong =>
      refine iff_of_false (by simp) fun hd => ?_
      have := hd.1.short
      simp only [maxIdentLen] at hlong
      omega
    · next hshort =>
      have hlength : name.length ≤ 63 := not_lt.1 hshort
      split
      · next hcontrol =>
        refine iff_of_false (by simp) fun hd => ?_
        obtain ⟨c, hc, hbad⟩ := List.any_eq_true.1 hcontrol
        have := hd.1.printable c hc
        simp only [Bool.or_eq_true, decide_eq_true_eq] at hbad
        omega
      · next hcontrol =>
        have hprintable : ∀ c ∈ name.toList, ¬ c.toNat < 32 ∧ c.toNat ≠ 127 := by
          intro c hc
          have hgood := List.any_eq_false.1 (Bool.not_eq_true _ ▸ hcontrol) c hc
          simp only [Bool.or_eq_true, decide_eq_true_eq, not_or] at hgood
          exact hgood
        have hdenotable : Denotable name := ⟨hpos, hlength, hprintable⟩
        have hmatches : matchesIdent name = isIdent name := by
          have hlast : name.toList.getLast? ≠ some '\n' := by
            intro h
            have := hprintable '\n' (List.mem_of_getLast? h)
            simp at this
          simp [matchesIdent, hlast]
        rw [hmatches]
        cases wasQuoted <;> cases hident : isIdent name <;> simp [hdenotable]

private theorem isIdent_spellable {name : String} (h : isIdent name = true) :
    '.' ∉ name.toList ∧ name.toList.head? ≠ some '"' :=
  ⟨fun hdot => absurd (isIdentChar_of_mem h hdot) (by decide),
    fun hquote => absurd (isIdentChar_of_mem h (List.mem_of_head? hquote)) (by decide)⟩

/-- The texts of the grammar are the spellings of the segments that the parser takes. -/
theorem segmentText_iff {chars : List Char} {name : String} (role : String) :
    SegmentText chars name ↔ ∃ segment : Segment, segment.Valid role ∧ segment.Spellable ∧
      segment.spelling = chars ∧ String.ofList segment.value = name := by
  constructor
  · intro h
    cases h with
    | bare hident hdenotable =>
      refine ⟨⟨name.toList, false⟩, ?_, fun _ => isIdent_spellable hident, rfl, by simp⟩
      exact validateParsedSegment_ok_iff.2 (by simpa using ⟨hdenotable, hident⟩)
    | quoted hdenotable =>
      refine ⟨⟨name.toList, true⟩, ?_, fun h => by simp at h, rfl, by simp⟩
      exact validateParsedSegment_ok_iff.2 (by simpa using hdenotable)
  · rintro ⟨⟨value, wasQuoted⟩, hvalid, -, rfl, rfl⟩
    obtain ⟨hdenotable, hident⟩ := validateParsedSegment_ok_iff.1 hvalid
    cases wasQuoted with
    | true => simpa [Mcp.quoted, Segment.spelling] using SegmentText.quoted hdenotable
    | false => simpa [Segment.spelling] using SegmentText.bare (hident rfl) hdenotable

/-! ## Names -/

private theorem intercalate_spellings (first : Segment) (rest : List Segment) :
    ['.'].intercalate ((first :: rest).map Segment.spelling) =
      first.spelling ++ laterSpellings rest := by
  induction rest generalizing first with
  | nil => simp [laterSpellings]
  | cons next rest ih =>
    have hnext := ih next
    rw [List.map_cons] at hnext ⊢
    rw [List.map_cons, List.intercalate_cons_cons, hnext, laterSpellings, laterSpellings,
      List.flatMap_cons]
    simp

/-- Segments are taken whatever their roles. -/
private def Taken (segment : Segment) : Prop := segment.Spellable ∧ ∀ role, segment.Valid role

private theorem taken_of_valid {segment : Segment} {role : String} (hspell : segment.Spellable)
    (h : segment.Valid role) : Taken segment :=
  ⟨hspell, fun _ => validateParsedSegment_ok_iff.2 (validateParsedSegment_ok_iff.1 h)⟩

/-- The texts of the grammar are those that taken segments spell. -/
private theorem nameText_iff {text : String} {names : List String} :
    NameText text names ↔ ∃ segments : List Segment, (∀ s ∈ segments, Taken s) ∧
      text.toList = ['.'].intercalate (segments.map Segment.spelling) ∧
      names = segments.map fun s => String.ofList s.value := by
  constructor
  · rintro ⟨texts, hall, htext⟩
    suffices ∃ segments : List Segment, (∀ s ∈ segments, Taken s) ∧
        texts = segments.map Segment.spelling ∧
        names = segments.map fun s => String.ofList s.value by
      obtain ⟨segments, htaken, rfl, hnames⟩ := this
      exact ⟨segments, htaken, htext, hnames⟩
    clear htext
    induction hall with
    | nil => exact ⟨[], by simp, rfl, rfl⟩
    | cons hsegment _ ih =>
      obtain ⟨segments, htaken, rfl, rfl⟩ := ih
      obtain ⟨segment, hvalid, hspell, rfl, rfl⟩ := (segmentText_iff "schema").1 hsegment
      exact ⟨segment :: segments,
        List.forall_mem_cons.2 ⟨taken_of_valid hspell hvalid, htaken⟩, rfl, rfl⟩
  · rintro ⟨segments, htaken, htext, rfl⟩
    refine ⟨_, ?_, htext⟩
    rw [List.forall₂_map_left_iff, List.forall₂_map_right_iff, List.forall₂_same]
    exact fun s hs => (segmentText_iff "schema").2
      ⟨s, (htaken s hs).2 _, (htaken s hs).1, rfl, rfl⟩

/-- Taken segments are what a short text is split into if and only if they spell it. -/
private theorem split_iff {text : String} (hlength : text.length ≤ maxQualifiedNameLen)
    {segments : List Segment} (hne : segments ≠ []) (h : ∀ s ∈ segments, Taken s) :
    splitQualifiedSegments text = .ok segments ↔
      text.toList = ['.'].intercalate (segments.map Segment.spelling) := by
  obtain ⟨first, rest, rfl⟩ := List.exists_cons_of_ne_nil hne
  rw [intercalate_spellings]
  constructor
  · intro hsplit
    obtain ⟨-, first', rest', heq, hchars, -⟩ := splitQualifiedSegments_ok hsplit
    obtain ⟨rfl, rfl⟩ := List.cons_eq_cons.1 heq
    exact hchars
  · exact splitQualifiedSegments_spelling hlength fun s hs =>
      ⟨(h s hs).1, ((h s hs).2 "schema").ne_nil⟩

theorem parseQualifiedName_iff {text schema table : String}
    (hlength : text.length ≤ maxQualifiedNameLen) :
    parseQualifiedName text = .ok ⟨schema, table⟩ ↔ NameText text [schema, table] := by
  rw [parseQualifiedName_ok_iff, nameText_iff]
  constructor
  · rintro ⟨-, first, second, hfirst, hsecond, hspell, hspell', htext, heq⟩
    obtain ⟨rfl, rfl⟩ := QualifiedTable.mk.inj heq
    refine ⟨[first, second], ?_, ?_, rfl⟩
    · simpa using ⟨taken_of_valid hspell hfirst, taken_of_valid hspell' hsecond⟩
    · rw [intercalate_spellings, htext]
      simp [laterSpellings]
  · rintro ⟨segments, htaken, htext, hnames⟩
    obtain ⟨first, _, rfl, rfl, htail⟩ := List.map_eq_cons_iff.1 hnames.symm
    obtain ⟨second, _, rfl, rfl, hnil⟩ := List.map_eq_cons_iff.1 htail
    obtain rfl := List.map_eq_nil_iff.1 hnil
    rw [intercalate_spellings] at htext
    exact ⟨hlength, first, second, (htaken first (by simp)).2 _, (htaken second (by simp)).2 _,
      (htaken first (by simp)).1, (htaken second (by simp)).1,
      by simpa [laterSpellings] using htext, rfl⟩

theorem parseColumnQualifiedName_iff {text schema table column : String}
    (hlength : text.length ≤ maxQualifiedNameLen) :
    parseColumnQualifiedName text = .ok (schema, table, column) ↔
      NameText text [schema, table, column] := by
  rw [nameText_iff]
  constructor
  · intro h
    unfold parseColumnQualifiedName at h
    split at h
    · cases h
    · next first second third hsplit =>
      dsimp only at h
      split at h
      · next hvalid =>
        obtain ⟨⟨⟩, hfirst, hvalid⟩ := bind_eq_ok hvalid
        obtain ⟨⟨⟩, hsecond, hthird⟩ := bind_eq_ok hvalid
        obtain ⟨-, _, _, -, -, hspell⟩ := splitQualifiedSegments_ok hsplit
        have htaken : ∀ s ∈ [first, second, third], Taken s := by
          simpa using ⟨taken_of_valid (hspell first (by simp)) hfirst,
            taken_of_valid (hspell second (by simp)) hsecond,
            taken_of_valid (hspell third (by simp)) hthird⟩
        refine ⟨_, htaken, (split_iff hlength (by simp) htaken).1 hsplit, ?_⟩
        obtain ⟨rfl, heq⟩ := Prod.mk.inj (Except.ok.inj h)
        obtain ⟨rfl, rfl⟩ := Prod.mk.inj heq
        rfl
      · cases h
    · cases h
  · rintro ⟨segments, htaken, htext, hnames⟩
    obtain ⟨first, _, rfl, rfl, htail⟩ := List.map_eq_cons_iff.1 hnames.symm
    obtain ⟨second, _, rfl, rfl, hlast⟩ := List.map_eq_cons_iff.1 htail
    obtain ⟨third, _, rfl, rfl, hnil⟩ := List.map_eq_cons_iff.1 hlast
    obtain rfl := List.map_eq_nil_iff.1 hnil
    have hsplit := (split_iff hlength (by simp) htaken).2 htext
    have hfirst : validateParsedSegment first "schema" = .ok () := (htaken first (by simp)).2 _
    have hsecond : validateParsedSegment second "table" = .ok () := (htaken second (by simp)).2 _
    have hthird : validateParsedSegment third "column" = .ok () := (htaken third (by simp)).2 _
    simp only [parseColumnQualifiedName, hsplit, hfirst, hsecond, hthird, bind, Except.bind]

/-! ## Quoting -/

private theorem length_quoted {name : String} (h : Denotable name) :
    (quoted name).length ≤ 128 := by
  have hshort : name.toList.length ≤ 63 := String.length_toList ▸ h.short
  have hescape : ∀ chars : List Char, (escapeQuotes chars).length ≤ 2 * chars.length := by
    intro chars
    induction chars with
    | nil => simp [escapeQuotes]
    | cons c chars ih =>
      have hone : (if c = '"' then ['"', '"'] else [c]).length ≤ 2 := by split <;> simp
      simp only [escapeQuotes, List.flatMap_cons, List.length_append, List.length_cons] at *
      omega
  have hlength := hescape name.toList
  simp only [quoted, List.length_cons, List.length_append, List.length_nil]
  omega

private theorem nameText_quotedName {names : List String} (h : ∀ name ∈ names, Denotable name) :
    NameText (quotedName names) names := by
  refine ⟨names.map quoted, ?_, by simp [quotedName]⟩
  rw [List.forall₂_map_left_iff, List.forall₂_same]
  exact fun name hname => .quoted (h name hname)

theorem parseQualifiedName_quoted {schema table : String} (hschema : Denotable schema)
    (htable : Denotable table) :
    (quotedName [schema, table]).length ≤ maxQualifiedNameLen ∧
      parseQualifiedName (quotedName [schema, table]) = .ok ⟨schema, table⟩ := by
  have hlength : (quotedName [schema, table]).length ≤ maxQualifiedNameLen := by
    have := length_quoted hschema
    have := length_quoted htable
    have hdot : ".".length = 1 := rfl
    simp [quotedName, List.intercalate_cons_cons, maxQualifiedNameLen]
    omega
  exact ⟨hlength, (parseQualifiedName_iff hlength).2
    (nameText_quotedName (by simp [hschema, htable]))⟩

theorem parseColumnQualifiedName_quoted {schema table column : String}
    (hschema : Denotable schema) (htable : Denotable table) (hcolumn : Denotable column) :
    (quotedName [schema, table, column]).length ≤ maxQualifiedNameLen ∧
      parseColumnQualifiedName (quotedName [schema, table, column]) =
        .ok (schema, table, column) := by
  have hlength : (quotedName [schema, table, column]).length ≤ maxQualifiedNameLen := by
    have := length_quoted hschema
    have := length_quoted htable
    have := length_quoted hcolumn
    have hdot : ".".length = 1 := rfl
    simp [quotedName, List.intercalate_cons_cons, maxQualifiedNameLen]
    omega
  exact ⟨hlength, (parseColumnQualifiedName_iff hlength).2
    (nameText_quotedName (by simp [hschema, htable, hcolumn]))⟩

/-! ## The two parsers -/

private theorem error_of_not_ok {α : Type} {x : Except String α} (h : ∀ a, x ≠ .ok a) :
    ∃ message, x = .error message := by
  cases x with
  | ok a => exact absurd rfl (h a)
  | error message => exact ⟨message, rfl⟩

/-- On the texts that are not too long, the parsers return what the grammar says and raise on every
other text; quoted names are read back. -/
theorem parsers_accept_grammar :
    (∀ text : String, text.length ≤ maxQualifiedNameLen →
      (∀ schema table, parseQualifiedName text = .ok ⟨schema, table⟩ ↔
        NameText text [schema, table]) ∧
      ((∀ schema table, ¬ NameText text [schema, table]) →
        ∃ message, parseQualifiedName text = .error message) ∧
      (∀ schema table column, parseColumnQualifiedName text = .ok (schema, table, column) ↔
        NameText text [schema, table, column]) ∧
      ((∀ schema table column, ¬ NameText text [schema, table, column]) →
        ∃ message, parseColumnQualifiedName text = .error message)) ∧
    (∀ schema table, Denotable schema → Denotable table →
      (quotedName [schema, table]).length ≤ maxQualifiedNameLen ∧
      parseQualifiedName (quotedName [schema, table]) = .ok ⟨schema, table⟩) ∧
    (∀ schema table column, Denotable schema → Denotable table → Denotable column →
      (quotedName [schema, table, column]).length ≤ maxQualifiedNameLen ∧
      parseColumnQualifiedName (quotedName [schema, table, column]) =
        .ok (schema, table, column)) := by
  refine ⟨fun text hlength => ⟨fun _ _ => parseQualifiedName_iff hlength, fun hnone => ?_,
    fun _ _ _ => parseColumnQualifiedName_iff hlength, fun hnone => ?_⟩,
    fun _ _ => parseQualifiedName_quoted, fun _ _ _ => parseColumnQualifiedName_quoted⟩
  · exact error_of_not_ok fun ⟨schema, table⟩ hok =>
      hnone schema table ((parseQualifiedName_iff hlength).1 hok)
  · exact error_of_not_ok fun ⟨schema, table, column⟩ hok =>
      hnone schema table column ((parseColumnQualifiedName_iff hlength).1 hok)

end SchemaBrain.Mcp
