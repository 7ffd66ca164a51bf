import SchemaBrain.DataDict.RenderMarkdown

/-!
# What the rendered dictionary keeps

The rows of a page have the cells of their headers, and the page has one heading of level one,
when the texts of the catalog stay within their cells. A code span does not escape a pipe, the
escape of a description takes back one that is there, and line breaks get through all of them.
-/

namespace SchemaBrain.DataDict

open Base Core

/-! ## Cells -/

/-- A description that its escape keeps within a cell: no carriage return, and no pipe that is
already escaped. -/
def ProseFits (text : String) : Prop :=
  '\r' ∉ text.toList ∧ true ∉ pipes false text.toList

@[simp] theorem toList_replaceChar (c : Char) (replacement text : String) :
    (replaceChar c replacement text).toList =
      text.toList.flatMap fun c' => if c' = c then replacement.toList else [c'] :=
  String.toList_ofList

/-- The three replacements at once. -/
def cellChar (c : Char) : List Char :=
  if c = '\n' then [' '] else if c = '|' then ['\\', '|'] else if c = '$' then ['\\', '$'] else [c]

theorem toList_cell (text : String) : (cell text).toList = text.toList.flatMap cellChar := by
  simp only [cell, toList_replaceChar, List.flatMap_assoc]
  refine List.flatMap_congr fun c _ => ?_
  unfold cellChar
  by_cases hlf : c = '\n'
  · simp [hlf]
  · by_cases hpipe : c = '|'
    · simp [hpipe]
    · simp [hlf, hpipe]

/-- The escape of a description takes each pipe to the other kind. -/
theorem pipes_cellChars (escaped : Bool) (text : List Char) :
    pipes escaped (text.flatMap cellChar) = (pipes escaped text).map (!·) := by
  induction text generalizing escaped with
  | nil => rfl
  | cons c text ih =>
    rw [List.flatMap_cons, pipes]
    by_cases hlf : c = '\n'
    · subst hlf
      simpa [cellChar, pipes, nextEscaped] using ih false
    by_cases hpipe : c = '|'
    · subst hpipe
      simpa [cellChar, pipes, nextEscaped] using ih false
    by_cases hdollar : c = '$'
    · subst hdollar
      simpa [cellChar, pipes, nextEscaped] using ih false
    · simpa [cellChar, pipes, hlf, hpipe, hdollar] using ih (nextEscaped escaped c)

private theorem cr_mem_cellChar (c : Char) : '\r' ∈ cellChar c ↔ c = '\r' := by
  by_cases hcr : c = '\r'
  · subst hcr
    decide
  · unfold cellChar
    split_ifs <;> simp [hcr, Ne.symm hcr]

private theorem lf_not_mem_cellChar (c : Char) : '\n' ∉ cellChar c := by
  by_cases hlf : c = '\n'
  · subst hlf
    decide
  · unfold cellChar
    split_ifs <;> simp [Ne.symm hlf]

/-- A description fits its cell when no pipe in it is escaped. -/
theorem fitsCell_cell_iff (text : String) : FitsCell (cell text).toList ↔ ProseFits text := by
  have hcr : '\r' ∈ text.toList.flatMap cellChar ↔ '\r' ∈ text.toList := by
    simp [cr_mem_cellChar]
  have hlf : '\n' ∉ text.toList.flatMap cellChar := by
    simp [lf_not_mem_cellChar]
  rw [FitsCell, ProseFits, toList_cell, hcr, pipes_cellChars]
  simp [hlf]

/-- A code span fits its cell when its text does. -/
theorem fitsCell_code_iff (text : String) :
    FitsCell (code text).toList ↔ FitsCell text.toList := by
  have hchars : (code text).toList = ['`'] ++ text.toList ++ ['`'] := by
    simp [code, String.toList_append]
  have hpipes : pipes false (['`'] ++ text.toList ++ ['`']) = pipes false text.toList := by
    rw [pipes_append, @pipes_of_not_mem ['`'] (by simp), List.append_nil]
    rfl
  rw [hchars, FitsCell, FitsCell, hpipes]
  simp

/-! ## Texts of checked values -/

/-- A text that fits a cell wherever it stands. -/
def IsPlain (text : String) : Prop := ∀ c ∈ text.toList, c ≠ '|' ∧ c ≠ '\r' ∧ c ≠ '\n'

instance (text : String) : Decidable (IsPlain text) := inferInstanceAs (Decidable (∀ c ∈ _, _))

theorem IsPlain.fits {text : String} (h : IsPlain text) : FitsCell text.toList :=
  fitsCell_of_plain h

theorem IsPlain.append {text text' : String} (h : IsPlain text) (h' : IsPlain text') :
    IsPlain (text ++ text') := by
  intro c hc
  rw [String.toList_append, List.mem_append] at hc
  exact hc.elim (h c) (h' c)

theorem IsPlain.intercalate {sep : String} (hsep : IsPlain sep) {texts : List String}
    (h : ∀ text ∈ texts, IsPlain text) : IsPlain (sep.intercalate texts) := by
  intro c hc
  rcases mem_toList_intercalate hc with hmem | ⟨text, htext, hmem⟩
  · exact hsep c hmem
  · exact h text htext c hmem

theorem IsPlain.code {text : String} (h : IsPlain text) : IsPlain (code text) :=
  (IsPlain.append (by decide) h).append (by decide)

theorem isPlain_of_ident {text : String} (h : isIdent text = true) : IsPlain text := by
  intro c hc
  have hident := isIdentChar_of_mem h hc
  refine ⟨?_, ?_, ?_⟩ <;> rintro rfl <;> revert hident <;> decide

theorem isPlain_word (group : Group) : IsPlain (word group) := by
  cases group <;> decide

private theorem isPlain_onColumn {column : String} (h : isOnColumn column = true) :
    IsPlain column := by
  rw [isOnColumn, Bool.or_eq_true, decide_eq_true_iff] at h
  rcases h with hident | rfl
  · exact isPlain_of_ident hident
  · decide

private theorem isPlain_dq {text : String} (h : IsPlain text) : IsPlain (dq text) :=
  (IsPlain.append (by decide) h).append (by decide)

theorem isPlain_onClause (join : DictJoin) : IsPlain join.onClause := by
  obtain ⟨pairs, hpairs, heq⟩ := join.on_rendered
  obtain ⟨hsource, htarget⟩ := Bool.and_eq_true_iff.1 join.entities_ident
  rw [heq]
  refine IsPlain.intercalate (by decide) ?_
  rw [List.forall_mem_map]
  intro pair hpair
  obtain ⟨h1, h2⟩ := hpairs pair hpair
  have hfirst := isPlain_dq (isPlain_of_ident hsource)
  have hsecond := isPlain_dq (isPlain_of_ident htarget)
  exact (((((hfirst.append (by decide)).append (isPlain_dq (isPlain_onColumn h1))).append
    (by decide)).append hsecond).append (by decide)).append (isPlain_dq (isPlain_onColumn h2))

theorem isPlain_piiCell (categories : List PiiCategory) : IsPlain (piiCell categories) := by
  unfold piiCell
  split
  · decide
  · refine IsPlain.intercalate (by decide) ?_
    rw [List.forall_mem_map]
    intro category _
    cases category <;> decide

theorem isPlain_timeDimension (metric : DictMetric) :
    IsPlain ((metric.timeDimension.map code).getD emDash) := by
  cases htime : metric.timeDimension with
  | none => decide
  | some t =>
    have hform := metric.dimension_form
    rw [htime, Option.all_some, Option.isSome_iff_exists] at hform
    obtain ⟨p, hp⟩ := hform
    obtain ⟨hentity, hcolumn⟩ := parseQualifiedColumn_ident hp
    rw [Option.map_some, Option.getD_some, ← (parseQualifiedColumn_spec hp).2]
    exact (((isPlain_of_ident hentity).append (by decide)).append (isPlain_of_ident hcolumn)).code

theorem isPlain_timeGrains (metric : DictMetric) :
    IsPlain (if metric.timeGrains = [] then emDash
      else ", ".intercalate (metric.timeGrains.map word)) := by
  split
  · decide
  · refine IsPlain.intercalate (by decide) ?_
    rw [List.forall_mem_map]
    intro grain _
    cases grain <;> decide

theorem fitsCell_descCell_iff (text : Option String) :
    FitsCell (descCell text).toList ↔ ∀ t ∈ text, ProseFits t := by
  have hdash : FitsCell emDash.toList := IsPlain.fits (by decide)
  cases text with
  | none => simpa [descCell] using hdash
  | some t =>
    rw [descCell]
    split
    · next hempty => simpa [hempty, ProseFits] using hdash
    · simpa using fitsCell_cell_iff t

/-! ## Rows -/

theorem toList_tableLine (cells : List String) :
    (tableLine cells).toList = tableRow (cells.map String.toList) := by
  have hcells : (String.join (cells.map fun cell => " " ++ cell ++ " |")).toList =
      (cells.map String.toList).flatMap fun cell => ' ' :: cell ++ [' ', '|'] := by
    simp [String.toList_append, List.flatMap_map, String.toList_join]
  rw [tableLine, String.toList_append, hcells]
  rfl

/-- A row has the cells that it is written with when each of them fits. -/
theorem isRow_tableLine_iff {header : String} {cells : List String} (h : cells ≠ [])
    (hlength : (rowCells header.toList).length = cells.length) :
    IsRow header.toList (tableLine cells).toList ↔ ∀ cell ∈ cells, FitsCell cell.toList := by
  rw [toList_tableLine, isRow_tableRow_iff (by simpa using h) (by simpa using hlength),
    List.forall_mem_map]

private theorem length_headers : (rowCells columnHeader.toList).length = 8 ∧
    (rowCells joinHeader.toList).length = 5 ∧ (rowCells metricHeader.toList).length = 6 := by
  decide

theorem columnRow_isRow_iff (col : DictColumn) :
    IsRow columnHeader.toList (columnRow col).toList ↔ FitsCell col.name.toList ∧
      FitsCell col.dataType.toList ∧ ∀ t ∈ col.description, ProseFits t := by
  have hyesNo : ∀ value, FitsCell (yesNo value).toList := fun value =>
    IsPlain.fits (by cases value <;> decide)
  have hlabel : FitsCell (sensitivityLabel col.piiSensitivity).toList :=
    IsPlain.fits (by cases col.piiSensitivity <;> decide)
  rw [columnRow, isRow_tableLine_iff (by simp) length_headers.1]
  simp only [List.forall_mem_cons, List.not_mem_nil, false_imp_iff, implies_true, and_true,
    fitsCell_code_iff, hyesNo, hlabel, (isPlain_piiCell _).fits, fitsCell_descCell_iff, true_and]

theorem joinRow_isRow_iff (join : DictJoin) :
    IsRow joinHeader.toList (joinRow join).toList ↔ ProseFits join.description := by
  have hcardinality : FitsCell ((join.cardinality.map word).getD emDash).toList :=
    IsPlain.fits (by
      rcases join.cardinality with _ | cardinality
      · decide
      · cases cardinality <;> decide)
  have hprovenance : FitsCell join.provenance.toList := by
    obtain ⟨method, heq⟩ := join.provenance_label
    rw [heq]
    exact IsPlain.fits (by cases method <;> decide)
  rw [joinRow, isRow_tableLine_iff (by simp) length_headers.2.1]
  simp only [List.forall_mem_cons, List.not_mem_nil, false_imp_iff, implies_true, and_true,
    fitsCell_code_iff, (isPlain_of_ident join.name_ident).fits, (isPlain_onClause join).fits,
    hcardinality, hprovenance, fitsCell_descCell_iff, true_and, Option.mem_some_iff, forall_eq']

theorem metricRow_isRow_iff (metric : DictMetric) :
    IsRow metricHeader.toList (metricRow metric).toList ↔
      FitsCell metric.measure.toList ∧ ProseFits metric.description := by
  have hagg : FitsCell (word metric.agg).toList := IsPlain.fits (by cases metric.agg <;> decide)
  rw [metricRow, isRow_tableLine_iff (by simp) length_headers.2.2]
  simp only [List.forall_mem_cons, List.not_mem_nil, false_imp_iff, implies_true, and_true,
    fitsCell_code_iff, (isPlain_of_ident metric.name_ident).fits, hagg,
    (isPlain_timeDimension metric).fits, (isPlain_timeGrains metric).fits, fitsCell_descCell_iff,
    true_and, Option.mem_some_iff, forall_eq']

/-! ## Headings -/

/-- The number of headings of level one in a text. -/
def titleCount (text : String) : Nat := titles false (markdownLines text.toList)

private def escapeChar (c : Char) : List Char := if c = '$' then ['\\', '$'] else [c]

private theorem takeWhile_escape {sign : Char} (h : sign ≠ '$') (h' : sign ≠ '\\')
    (line : List Char) :
    (line.flatMap escapeChar).takeWhile (· = sign) = line.takeWhile (· = sign) ∧
      (line.flatMap escapeChar).dropWhile (· = sign) =
        (line.dropWhile (· = sign)).flatMap escapeChar := by
  induction line with
  | nil => exact ⟨rfl, rfl⟩
  | cons c line ih =>
    rw [List.flatMap_cons]
    by_cases hdollar : c = '$'
    · subst hdollar
      simp [escapeChar, Ne.symm h, Ne.symm h']
    · by_cases hsign : c = sign
      · subst hsign
        simpa [escapeChar, hdollar] using ih
      · simp [escapeChar, hdollar, hsign]

private theorem all_blank_escape (line : List Char) :
    (line.flatMap escapeChar).all isBlankChar = line.all isBlankChar := by
  induction line with
  | nil => rfl
  | cons c line ih =>
    rw [List.flatMap_cons, List.all_append, ih, List.all_cons]
    by_cases hdollar : c = '$'
    · subst hdollar
      rfl
    · simp [escapeChar, hdollar]

private theorem head?_escape {P : Char → Bool} (h : P '$' = P '\\') (line : List Char) :
    (line.flatMap escapeChar).head?.map P = line.head?.map P := by
  cases line with
  | nil => rfl
  | cons c line =>
    by_cases hdollar : c = '$'
    · subst hdollar
      simp [escapeChar, h]
    · simp [escapeChar, hdollar]

private theorem unindented_escape (line : List Char) :
    unindented (line.flatMap escapeChar) = (unindented line).map (·.flatMap escapeChar) := by
  obtain ⟨htake, hdrop⟩ := @takeWhile_escape ' ' (by decide) (by decide) line
  rw [unindented, unindented, htake, hdrop]
  split <;> rfl

private theorem headingLevel_escape (line : List Char) :
    headingLevel (line.flatMap escapeChar) = headingLevel line := by
  rw [headingLevel, headingLevel, unindented_escape, Option.bind_map]
  refine congrArg _ (funext fun text => ?_)
  obtain ⟨htake, hdrop⟩ := @takeWhile_escape '#' (by decide) (by decide) text
  have hhead := @head?_escape isBlankChar (by decide) (text.dropWhile (· = '#'))
  have hall : ∀ c : Option Char, c.all isBlankChar = ((c.map isBlankChar).getD true) := by
    intro c
    cases c <;> rfl
  simp only [Function.comp_apply, htake, hdrop, hall, hhead]

private theorem isUnderline_escape {sign : Char} (h : sign ≠ '$') (h' : sign ≠ '\\')
    (line : List Char) : isUnderline sign (line.flatMap escapeChar) = isUnderline sign line := by
  rw [isUnderline, isUnderline, unindented_escape, Option.any_map]
  refine congrArg (fun p => (unindented line).any p) (funext fun text => ?_)
  have hfirst : (text.flatMap escapeChar).head? = some sign ↔ text.head? = some sign := by
    cases text with
    | nil => exact Iff.rfl
    | cons c text =>
      by_cases hdollar : c = '$'
      · subst hdollar
        simp [escapeChar, Ne.symm h, Ne.symm h']
      · simp [escapeChar, hdollar]
  simp only [(takeWhile_escape h h' text).2, all_blank_escape, hfirst]

private theorem titles_escape (inText : Bool) (lines : List (List Char)) :
    titles inText (lines.map (·.flatMap escapeChar)) = titles inText lines := by
  induction lines generalizing inText with
  | nil => rfl
  | cons line lines ih =>
    rw [List.map_cons, titles, titles, ih]
    simp only [isTitle, leavesText, headingLevel_escape, all_blank_escape,
      @isUnderline_escape '=' (by decide) (by decide), @isUnderline_escape '-' (by decide)
        (by decide)]

private theorem map_consLine_escape (c : Char) (hc : c ≠ '$') (lines : List EndedLine) :
    (consLine c lines).map (fun line => (line.1.flatMap escapeChar, line.2)) =
      consLine c (lines.map fun line => (line.1.flatMap escapeChar, line.2)) := by
  cases lines <;> simp [consLine, escapeChar, hc]

private theorem map_consLine_dollar (lines : List EndedLine) :
    (consLine '$' lines).map (fun line => (line.1.flatMap escapeChar, line.2)) =
      consLine '\\' (consLine '$' (lines.map fun line => (line.1.flatMap escapeChar, line.2))) := by
  cases lines <;> rfl

private theorem splitLines_escape (text : List Char) :
    splitLines endsLine (text.flatMap escapeChar) =
      (splitLines endsLine text).map fun line => (line.1.flatMap escapeChar, line.2) := by
  induction text using splitLines.induct endsLine with
  | case1 => rfl
  | case2 rest ih =>
    rw [splitLines, List.map_cons, ← ih]
    rfl
  | case3 c rest hno hc ih =>
    have hdollar : c ≠ '$' := by
      rintro rfl
      revert hc
      decide
    have hno' : ∀ rest', c = '\r' → rest.flatMap escapeChar = '\n' :: rest' → False := by
      intro rest' hcr hrest
      cases rest with
      | nil => cases hrest
      | cons next rest =>
        by_cases hnext : next = '$'
        · subst hnext
          simp [escapeChar] at hrest
        · rw [List.flatMap_cons, escapeChar, if_neg hnext] at hrest
          exact hno rest hcr (by rw [(List.cons.inj hrest).1])
    rw [List.flatMap_cons, escapeChar, if_neg hdollar, List.singleton_append, splitLines_cons hno',
      splitLines_cons hno, if_pos hc, if_pos hc, List.map_cons, ih]
    rfl
  | case4 c rest hno hc ih =>
    have hcr : c ≠ '\r' := by
      rintro rfl
      exact hc (by decide)
    rw [splitLines_cons hno, if_neg hc, List.flatMap_cons]
    by_cases hdollar : c = '$'
    · subst hdollar
      rw [map_consLine_dollar, ← ih]
      rfl
    · rw [map_consLine_escape c hdollar, ← ih, escapeChar, if_neg hdollar, List.singleton_append,
        splitLines_cons (fun _ heq => absurd heq hcr), if_neg hc]

/-- The escape of a description changes no heading. -/
theorem titleCount_escapeProse (text : String) :
    titleCount (escapeProse text) = titleCount text := by
  have hchars : (escapeProse text).toList = text.toList.flatMap escapeChar := by
    rw [escapeProse, toList_replaceChar]
    rfl
  have hlines : markdownLines (text.toList.flatMap escapeChar) =
      (markdownLines text.toList).map (·.flatMap escapeChar) := by
    rw [markdownLines, markdownLines, splitLines_escape, List.map_map, List.map_map]
    rfl
  rw [titleCount, titleCount, hchars, hlines, titles_escape]

end SchemaBrain.DataDict
