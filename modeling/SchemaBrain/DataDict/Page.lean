import SchemaBrain.DataDict.TableStructure

/-!
# The page of the dictionary

The headings of a page are those of its title and of the descriptions, as long as no row breaks
into lines; so the page keeps its structure for the catalogs whose texts stay within their cells.
-/

namespace SchemaBrain.DataDict

open Base Core

/-! ## Emitted lines -/

/-- The lines that the emitted texts make on the page. -/
def emittedLines (texts : List String) : List (List Char) :=
  texts.flatMap fun text => markdownLines (text.toList ++ ['\n'])

/-- A text that is one line and no heading of level one. -/
structure IsQuietLine (text : String) : Prop where
  no_cr : '\r' ∉ text.toList
  no_lf : '\n' ∉ text.toList
  quiet : IsQuiet text.toList

theorem emittedLines_append (texts texts' : List String) :
    emittedLines (texts ++ texts') = emittedLines texts ++ emittedLines texts' :=
  List.flatMap_append

theorem emittedLines_nil : emittedLines [] = [] := rfl

theorem emittedLines_blank (texts : List String) :
    emittedLines ("" :: texts) = [] :: emittedLines texts := rfl

theorem emittedLines_cons {text : String} (h : IsQuietLine text) (texts : List String) :
    emittedLines (text :: texts) = text.toList :: emittedLines texts := by
  rw [emittedLines, List.flatMap_cons, markdownLines_line h.no_cr h.no_lf]
  rfl

theorem emittedLines_quiet {texts : List String} (h : ∀ text ∈ texts, IsQuietLine text) :
    emittedLines texts = texts.map String.toList := by
  induction texts with
  | nil => rfl
  | cons text texts ih =>
    obtain ⟨htext, htexts⟩ := List.forall_mem_cons.1 h
    rw [emittedLines_cons htext, ih htexts, List.map_cons]

theorem titles_emitted_quiet {texts : List String} (h : ∀ text ∈ texts, IsQuietLine text)
    (inText : Bool) : titles inText (emittedLines texts) = 0 := by
  rw [emittedLines_quiet h]
  exact titles_of_quiet (List.forall_mem_map.2 fun text htext => (h text htext).quiet) inText

/-- The lines of the page are those that are emitted. -/
theorem toList_renderMarkdown (model : DictionaryModel) :
    (renderMarkdown model).toList = unlines '\n' ((pageLines model).map String.toList) := by
  have hjoin : ∀ lines : List String, lines ≠ [] → ("\n".intercalate lines ++ "\n").toList =
      unlines '\n' (lines.map String.toList) := by
    intro lines hlines
    induction lines with
    | nil => exact absurd rfl hlines
    | cons line lines ih =>
      cases lines with
      | nil => simp [String.toList_append]
      | cons next lines =>
        rw [String.intercalate_cons_cons, List.map_cons, unlines_cons, ← ih (by simp)]
        simp [String.toList_append]
  exact hjoin _ (by simp [pageLines])

theorem titleCount_renderMarkdown (model : DictionaryModel) :
    titleCount (renderMarkdown model) = titles false (emittedLines (pageLines model)) := by
  rw [titleCount, toList_renderMarkdown, markdownLines_unlines, List.flatMap_map]
  rfl

/-! ## Quiet lines -/

/-- One line whose first character starts no heading. -/
private theorem isQuietLine_of_head {c : Char} {text : String} (hhead : text.toList.head? = some c)
    (hc : c ≠ ' ' ∧ c ≠ '#' ∧ c ≠ '=') (hcr : '\r' ∉ text.toList) (hlf : '\n' ∉ text.toList) :
    IsQuietLine text := by
  refine ⟨hcr, hlf, ?_⟩
  cases hchars : text.toList with
  | nil => simp [hchars] at hhead
  | cons first rest =>
    obtain rfl : first = c := by simpa [hchars] using hhead
    exact isQuiet_of_head hc.1 hc.2.1 hc.2.2 rest

/-- One line that starts a heading of a lower level. -/
private theorem isQuietLine_subheading {line : List Char} {text : String}
    (htext : text.toList = '#' :: '#' :: line) (hplain : IsPlain text) : IsQuietLine text where
  no_cr hmem := (hplain _ hmem).2.1 rfl
  no_lf hmem := (hplain _ hmem).2.2 rfl
  quiet := htext ▸ isQuiet_subheading line

private theorem isQuietLine_empty : IsQuietLine "" where
  no_cr := by simp
  no_lf := by simp
  quiet inText := by cases inText <;> rfl

/-- A row that is one row is one line. -/
private theorem isQuietLine_row {header : List Char} {cells : List String}
    (h : IsRow header (tableLine cells).toList) : IsQuietLine (tableLine cells) where
  no_cr := h.1
  no_lf := h.2.1
  quiet := by
    rw [toList_tableLine]
    exact isQuiet_of_head (by decide) (by decide) (by decide) _

/-- A heading of a lower level is one line. -/
private theorem isQuietLine_heading {level : Nat} (hlevel : 2 ≤ level) {title : String}
    (htitle : IsPlain title) : IsQuietLine (headingMarks level ++ " " ++ title) := by
  obtain ⟨level, rfl⟩ := Nat.exists_eq_add_of_le hlevel
  have hmarks : (headingMarks (2 + level)).toList = '#' :: '#' :: List.replicate level '#' := by
    rw [headingMarks, String.toList_ofList, Nat.add_comm]
    rfl
  have hplain : IsPlain (headingMarks (2 + level)) := by
    intro c hc
    rw [headingMarks, String.toList_ofList] at hc
    rw [List.eq_of_mem_replicate hc]
    decide
  refine @isQuietLine_subheading (List.replicate level '#' ++ " ".toList ++ title.toList) _ ?_
    ((hplain.append (by decide)).append htitle)
  rw [String.toList_append, String.toList_append, hmarks]
  rfl

/-- The rows of an entity are rows of their tables. -/
structure KeepsRows (entity : DictEntity) : Prop where
  columns : ∀ col ∈ entity.columns, IsRow columnHeader.toList (columnRow col).toList
  joins : ∀ join ∈ entity.joins, IsRow joinHeader.toList (joinRow join).toList
  metrics : ∀ metric ∈ entity.metrics, IsRow metricHeader.toList (metricRow metric).toList

/-- A table: its heading, its header, its divider and its rows. -/
private theorem isQuietLine_table {title header divider : String} {rows : List String} {level : Nat}
    (hlevel : 2 ≤ level) (htitle : IsPlain title) (hheader : IsQuietLine header)
    (hdivider : IsQuietLine divider) (hrows : ∀ row ∈ rows, IsQuietLine row) :
    ∀ text ∈ ["", headingMarks level ++ " " ++ title, "", header, divider] ++ rows,
      IsQuietLine text := by
  intro text htext
  simp only [List.cons_append, List.nil_append, List.mem_cons] at htext
  rcases htext with rfl | rfl | rfl | rfl | rfl | hrow
  · exact isQuietLine_empty
  · exact isQuietLine_heading hlevel htitle
  · exact isQuietLine_empty
  · exact hheader
  · exact hdivider
  · exact hrows text hrow

/-! ## Blocks -/

/-- What an entity's block has below its description and the blank line after it. -/
def blockTail (entity : DictEntity) (level : Nat) : List String :=
  ["- **Table:** " ++ code entity.qualifiedTable.text,
    "- **Identity:** " ++ code entity.identity,
    "- **Group:** " ++ word entity.group] ++
  columnsTable entity.columns (headingMarks (level + 1)) ++
  (if entity.joins = [] then [] else joinsTable entity.joins (headingMarks (level + 1))) ++
  (if entity.metrics = [] then [] else metricsTable entity.metrics (headingMarks (level + 1)))

private theorem isQuietLine_blockTail {entity : DictEntity} {level : Nat} (hlevel : 2 ≤ level)
    (h : KeepsRows entity) : ∀ text ∈ blockTail entity level, IsQuietLine text := by
  have hlevel' : 2 ≤ level + 1 := Nat.le_succ_of_le hlevel
  obtain ⟨hschema, htable⟩ := Bool.and_eq_true_iff.1 entity.table_ident
  have hqualified : IsPlain entity.qualifiedTable.text :=
    ((isPlain_of_ident hschema).append (by decide)).append (isPlain_of_ident htable)
  have hbullet : ∀ {title text : String}, title.toList.head? = some '-' → IsPlain title →
      IsPlain text → IsQuietLine (title ++ text) := by
    intro title text hhead htitle htext
    have hplain := htitle.append htext
    refine isQuietLine_of_head (c := '-') ?_ (by decide) (fun hmem => (hplain _ hmem).2.1 rfl)
      fun hmem => (hplain _ hmem).2.2 rfl
    rw [String.toList_append, List.head?_append, hhead]
    rfl
  have hfixed : IsQuietLine columnHeader ∧ IsQuietLine columnDivider ∧ IsQuietLine joinHeader ∧
      IsQuietLine joinDivider ∧ IsQuietLine metricHeader ∧ IsQuietLine metricDivider := by
    refine ⟨?_, ?_, ?_, ?_, ?_, ?_⟩ <;>
      exact isQuietLine_of_head (c := '|') (by decide) (by decide) (by decide) (by decide)
  obtain ⟨hcolumn, hcolumn', hjoin, hjoin', hmetric, hmetric'⟩ := hfixed
  have htitle : ∀ marks title : String, marks ++ (" " ++ title) = marks ++ " " ++ title :=
    fun _ _ => String.append_assoc.symm
  have hcolumns : ∀ text ∈ columnsTable entity.columns (headingMarks (level + 1)),
      IsQuietLine text := by
    rw [columnsTable, show " Columns" = " " ++ "Columns" by decide, htitle]
    refine isQuietLine_table hlevel' (by decide) hcolumn hcolumn' (List.forall_mem_map.2 ?_)
    exact fun col hcol => isQuietLine_row (h.columns col hcol)
  have hjoins : ∀ text ∈ joinsTable entity.joins (headingMarks (level + 1)),
      IsQuietLine text := by
    rw [joinsTable, show " Joins" = " " ++ "Joins" by decide, htitle]
    refine isQuietLine_table hlevel' (by decide) hjoin hjoin' (List.forall_mem_map.2 ?_)
    exact fun join hmem => isQuietLine_row (h.joins join hmem)
  have hmetrics : ∀ text ∈ metricsTable entity.metrics (headingMarks (level + 1)),
      IsQuietLine text := by
    rw [metricsTable, show " Metrics" = " " ++ "Metrics" by decide, htitle]
    refine isQuietLine_table hlevel' (by decide) hmetric hmetric' (List.forall_mem_map.2 ?_)
    exact fun metric hmem => isQuietLine_row (h.metrics metric hmem)
  intro text htext
  simp only [blockTail, List.mem_append, List.mem_cons, List.not_mem_nil, or_false] at htext
  rcases htext with (((rfl | rfl | rfl) | hmem) | hmem) | hmem
  · exact hbullet (by decide) (by decide) hqualified.code
  · exact hbullet (by decide) (by decide) (isPlain_of_ident entity.identity_ident).code
  · exact hbullet (by decide) (by decide) (isPlain_word _)
  · exact hcolumns text hmem
  · split at hmem
    · cases hmem
    · exact hjoins text hmem
  · split at hmem
    · cases hmem
    · exact hmetrics text hmem

/-- An entity's block adds the headings of its description. -/
theorem titles_entityBlock {entity : DictEntity} {level : Nat} (hlevel : 2 ≤ level)
    (h : KeepsRows entity) {rest : List (List Char)}
    (hrest : ∀ inText, titles inText rest = titles false rest) (inText : Bool) :
    titles inText (emittedLines (entityBlock entity level) ++ rest) =
      titleCount entity.description + titles false rest := by
  have hdescription : titles false (emittedLines [if entity.description = "" then emDash
      else escapeProse entity.description]) = titleCount entity.description := by
    rw [emittedLines, List.flatMap_singleton, titles_ended]
    split
    · next hempty =>
      rw [hempty]
      decide
    · rw [← titleCount_escapeProse, titleCount]
  have hheading : IsQuietLine (headingMarks level ++ " " ++ entity.name) :=
    isQuietLine_heading hlevel (isPlain_of_ident entity.name_ident)
  have hblock : entityBlock entity level = ["", headingMarks level ++ " " ++ entity.name, ""] ++
      ([if entity.description = "" then emDash else escapeProse entity.description] ++
        ("" :: blockTail entity level)) := by
    simp [entityBlock, blockTail]
  rw [hblock, emittedLines_append, emittedLines_append, List.append_assoc, List.append_assoc,
    emittedLines_blank, emittedLines_cons hheading, emittedLines_blank, List.cons_append,
    List.cons_append, List.cons_append, titles_blank, titles_quiet hheading.quiet, titles_blank,
    emittedLines_nil, List.nil_append]
  rw [emittedLines_blank, List.cons_append,
    titles_append fun _ => by rw [titles_blank, titles_blank], titles_blank, titles_append hrest,
    titles_emitted_quiet (isQuietLine_blockTail hlevel h), hdescription, Nat.zero_add]

private theorem titles_entities {entities : List DictEntity} {level : Nat} (hlevel : 2 ≤ level)
    (h : ∀ entity ∈ entities, KeepsRows entity) {rest : List (List Char)}
    (hrest : ∀ inText, titles inText rest = titles false rest) (inText : Bool) :
    titles inText (emittedLines (entities.flatMap fun entity => entityBlock entity level) ++ rest) =
      (entities.map fun entity => titleCount entity.description).sum + titles false rest := by
  induction entities generalizing inText with
  | nil => simpa [emittedLines_nil] using hrest inText
  | cons entity entities ih =>
    obtain ⟨hentity, hentities⟩ := List.forall_mem_cons.1 h
    have hmore := ih hentities
    rw [List.flatMap_cons, emittedLines_append, List.append_assoc,
      titles_entityBlock hlevel hentity (fun inText => by rw [hmore, hmore]), hmore, List.map_cons,
      List.sum_cons, Nat.add_assoc]

private theorem titles_sourceBlock {multiSource : Bool} {source : DictSource}
    (h : ∀ entity ∈ source.entities, KeepsRows entity) {rest : List (List Char)}
    (hrest : ∀ inText, titles inText rest = titles false rest) (inText : Bool) :
    titles inText (emittedLines (sourceBlock multiSource source) ++ rest) =
      (source.entities.map fun entity => titleCount entity.description).sum +
        titles false rest := by
  have hlevel : 2 ≤ (if multiSource then 3 else 2) := by split <;> decide
  have hentities := @titles_entities _ _ hlevel h _ hrest
  rw [sourceBlock, emittedLines_append, List.append_assoc]
  cases multiSource with
  | false => exact hentities inText
  | true =>
    have hplain : IsPlain source.sourceConnectionId := by
      intro c hc
      have halnum := List.all_eq_true.1 source.id_plain c hc
      refine ⟨?_, ?_, ?_⟩ <;> rintro rfl <;> revert halnum <;> decide
    have hdivider : IsQuietLine ("## Source: " ++ code source.sourceConnectionId) := by
      refine @isQuietLine_subheading (" Source: ".toList ++ (code source.sourceConnectionId).toList)
        _ ?_ (IsPlain.append (by decide) hplain.code)
      rw [String.toList_append]
      rfl
    rw [if_pos rfl, emittedLines_blank, emittedLines_cons hdivider, emittedLines_nil,
      List.cons_append, List.cons_append, List.nil_append, titles_blank,
      titles_quiet hdivider.quiet]
    exact hentities _

private theorem titles_sources {multiSource : Bool} {sources : List DictSource}
    (h : ∀ source ∈ sources, ∀ entity ∈ source.entities, KeepsRows entity) (inText : Bool) :
    titles inText (emittedLines (sources.flatMap (sourceBlock multiSource))) =
      ((sources.flatMap (·.entities)).map fun entity => titleCount entity.description).sum := by
  induction sources generalizing inText with
  | nil => rfl
  | cons source sources ih =>
    obtain ⟨hsource, hsources⟩ := List.forall_mem_cons.1 h
    have hmore := ih hsources
    rw [List.flatMap_cons, emittedLines_append,
      titles_sourceBlock hsource (fun inText => by rw [hmore, hmore]), hmore, List.flatMap_cons,
      List.map_append, List.sum_append]

private theorem isQuietLine_generated {schemaVersion : String} (h : IsPlain schemaVersion) :
    IsQuietLine (generatedLine schemaVersion) := by
  have hstart : ∀ start a b c : String, start.toList.head? = some 'G' →
      IsPlain (start ++ a ++ b ++ c) → IsQuietLine (start ++ a ++ b ++ c) := by
    intro start a b c hhead hplain
    refine isQuietLine_of_head (c := 'G') ?_ (by decide) (fun hmem => (hplain _ hmem).2.1 rfl)
      fun hmem => (hplain _ hmem).2.2 rfl
    simp [String.toList_append, List.head?_append, hhead]
  unfold generatedLine
  refine hstart _ _ _ _ (by decide) ?_
  exact ((IsPlain.append (by decide) h).append (by decide)).append (by decide)

/-- The headings of level one: the title of the page, and those in the descriptions. -/
theorem titleCount_page {model : DictionaryModel}
    (h : ∀ entity ∈ model.entities, KeepsRows entity) : titleCount (renderMarkdown model) =
      1 + (model.entities.map fun entity => titleCount entity.description).sum := by
  have hsources : ∀ source ∈ model.sources, ∀ entity ∈ source.entities, KeepsRows entity :=
    fun source hsource entity hentity =>
      h entity (List.mem_flatMap.2 ⟨source, hsource, hentity⟩)
  have hversion : IsPlain model.schemaVersion := by
    intro c hc
    have hdigit := List.all_eq_true.1 model.version_digits c hc
    refine ⟨?_, ?_, ?_⟩ <;> rintro rfl <;> revert hdigit <;> decide
  have hgenerated := isQuietLine_generated hversion
  have htitle : markdownLines ("# Data dictionary".toList ++ ['\n']) =
      ["# Data dictionary".toList] := by
    decide
  have hfirst : isTitle false "# Data dictionary".toList = true := by decide
  have htop : ∀ texts, emittedLines ("# Data dictionary" :: texts) =
      "# Data dictionary".toList :: emittedLines texts := fun texts => by
    rw [emittedLines, List.flatMap_cons, htitle]
    rfl
  rw [titleCount_renderMarkdown, pageLines, emittedLines_append, htop, emittedLines_blank,
    emittedLines_cons hgenerated, emittedLines_nil, List.cons_append, List.cons_append,
    List.cons_append, List.nil_append, titles, hfirst, titles_blank, titles_quiet hgenerated.quiet,
    titles_sources hsources]
  rfl

/-! ## What keeps the structure -/

/-- The rows of the tables are rows of their headers, and the page has one heading of level
one. -/
structure KeepsStructure (model : DictionaryModel) : Prop where
  rows : ∀ entity ∈ model.entities, KeepsRows entity
  title : titleCount (renderMarkdown model) = 1

/-- The texts of an entity that come from a catalog or from its authors stay within the page's
structure. -/
structure TextsFit (entity : DictEntity) : Prop where
  columns : ∀ col ∈ entity.columns, FitsCell col.name.toList ∧ FitsCell col.dataType.toList ∧
    ∀ t ∈ col.description, ProseFits t
  joins : ∀ join ∈ entity.joins, ProseFits join.description
  metrics : ∀ metric ∈ entity.metrics, FitsCell metric.measure.toList ∧
    ProseFits metric.description
  description : titleCount entity.description = 0

theorem keepsRows_iff (entity : DictEntity) : KeepsRows entity ↔
    (∀ col ∈ entity.columns, FitsCell col.name.toList ∧ FitsCell col.dataType.toList ∧
      ∀ t ∈ col.description, ProseFits t) ∧
    (∀ join ∈ entity.joins, ProseFits join.description) ∧
    ∀ metric ∈ entity.metrics, FitsCell metric.measure.toList ∧ ProseFits metric.description := by
  constructor
  · exact fun ⟨hcolumns, hjoins, hmetrics⟩ =>
      ⟨fun col hcol => (columnRow_isRow_iff col).1 (hcolumns col hcol),
        fun join hjoin => (joinRow_isRow_iff join).1 (hjoins join hjoin),
        fun metric hmetric => (metricRow_isRow_iff metric).1 (hmetrics metric hmetric)⟩
  · exact fun ⟨hcolumns, hjoins, hmetrics⟩ =>
      ⟨fun col hcol => (columnRow_isRow_iff col).2 (hcolumns col hcol),
        fun join hjoin => (joinRow_isRow_iff join).2 (hjoins join hjoin),
        fun metric hmetric => (metricRow_isRow_iff metric).2 (hmetrics metric hmetric)⟩

/-- A page keeps its structure exactly when the texts of every entity fit. -/
theorem keepsStructure_iff (model : DictionaryModel) :
    KeepsStructure model ↔ ∀ entity ∈ model.entities, TextsFit entity := by
  constructor
  · intro ⟨hrows, htitle⟩ entity hentity
    rw [titleCount_page hrows, Nat.add_eq_left, List.sum_eq_zero_iff_forall_eq_nat,
      List.forall_mem_map] at htitle
    obtain ⟨hcolumns, hjoins, hmetrics⟩ := (keepsRows_iff entity).1 (hrows entity hentity)
    exact ⟨hcolumns, hjoins, hmetrics, htitle entity hentity⟩
  · intro h
    have hrows : ∀ entity ∈ model.entities, KeepsRows entity := fun entity hentity =>
      have hfit := h entity hentity
      (keepsRows_iff entity).2 ⟨hfit.columns, hfit.joins, hfit.metrics⟩
    refine ⟨hrows, ?_⟩
    rw [titleCount_page hrows, Nat.add_eq_left, List.sum_eq_zero_iff_forall_eq_nat,
      List.forall_mem_map]
    exact fun entity hentity => (h entity hentity).description

/-- A catalog with a pipe in the name of a column. -/
def barModel : DictionaryModel where
  schemaVersion := "16"
  sources := [{
    sourceConnectionId := "0123456789abcdef"
    entities := [{
      name := "order"
      description := ""
      qualifiedTable := ⟨"public", "orders"⟩
      identity := "id"
      group := .billing
      columns := [⟨"net|gross", "numeric", false, false, false, none, .isPublic, []⟩]
      joins := []
      metrics := [] }] }]

/-- Its row has one cell more than the header. -/
theorem not_keepsStructure : ¬ ∀ model : DictionaryModel, KeepsStructure model := by
  intro h
  have hrow := ((h barModel).rows _ List.mem_cons_self).columns _ List.mem_cons_self
  revert hrow
  decide +kernel

end SchemaBrain.DataDict
