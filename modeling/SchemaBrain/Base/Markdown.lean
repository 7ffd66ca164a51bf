import Mathlib.Algebra.BigOperators.Group.List.Basic
import Mathlib.Algebra.GroupWithZero.Nat
import SchemaBrain.Base.TextLines

/-!
# Markdown, line by line

The cells of a table row, which ends at a CR or LF and whose cells end at the pipes that are not
backslash-escaped, and the lines that are headings of level one.
-/

namespace SchemaBrain.Base

/-! ## Pipes -/

/-- The next character is escaped. -/
def nextEscaped (escaped : Bool) (c : Char) : Bool := c = '\\' && !escaped

/-- The pipes of a text, each with whether it is escaped. -/
def pipes : Bool → List Char → List Bool
  | _, [] => []
  | escaped, c :: rest =>
    if c = '|' then escaped :: pipes false rest else pipes (nextEscaped escaped c) rest

/-- Whether what follows a text is escaped. -/
def escapedAfter (escaped : Bool) (text : List Char) : Bool := text.foldl nextEscaped escaped

@[simp] theorem pipes_nil (escaped : Bool) : pipes escaped [] = [] := rfl

theorem pipes_append (escaped : Bool) (text rest : List Char) :
    pipes escaped (text ++ rest) =
      pipes escaped text ++ pipes (escapedAfter escaped text) rest := by
  induction text generalizing escaped with
  | nil => rfl
  | cons c text ih =>
    rw [List.cons_append, pipes, pipes]
    split
    · next hc =>
      rw [ih, List.cons_append, hc]
      rfl
    · exact ih _

/-- After a character other than a backslash nothing is escaped. -/
theorem escapedAfter_append {c : Char} (hc : c ≠ '\\') (escaped : Bool) (text : List Char) :
    escapedAfter escaped (text ++ [c]) = false := by
  simp [escapedAfter, nextEscaped, hc]

theorem pipes_of_not_mem {text : List Char} (h : '|' ∉ text) (escaped : Bool) :
    pipes escaped text = [] := by
  induction text generalizing escaped with
  | nil => rfl
  | cons c text ih =>
    rw [List.mem_cons, not_or] at h
    rw [pipes, if_neg (Ne.symm h.1)]
    exact ih h.2 _

/-! ## Rows -/

/-- The text between the pipes that are not escaped. -/
def splitCells : Bool → List Char → List (List Char)
  | _, [] => [[]]
  | escaped, c :: rest =>
    if c = '|' ∧ escaped = false then [] :: splitCells false rest
    else match splitCells (nextEscaped escaped c) rest with
      | [] => []
      | cell :: cells => (c :: cell) :: cells

/-- Text outside of the first and the last pipe is a cell unless it is blank. -/
def dropBlank (cells : List (List Char)) : List (List Char) :=
  match cells with
  | [] => []
  | cell :: rest => if cell.all (· = ' ') then rest else cell :: rest

/-- The cells of a row. -/
def rowCells (row : List Char) : List (List Char) :=
  (dropBlank (dropBlank (splitCells false row)).reverse).reverse

/-- One row, with as many cells as the header. -/
def IsRow (header row : List Char) : Prop :=
  '\r' ∉ row ∧ '\n' ∉ row ∧ (rowCells row).length = (rowCells header).length

instance (header row : List Char) : Decidable (IsRow header row) :=
  inferInstanceAs (Decidable (_ ∧ _))

/-- Cells between pipes. -/
def tableRow (cells : List (List Char)) : List Char :=
  '|' :: cells.flatMap fun cell => ' ' :: cell ++ [' ', '|']

theorem length_splitCells (escaped : Bool) (text : List Char) :
    (splitCells escaped text).length = (pipes escaped text).count false + 1 := by
  induction text generalizing escaped with
  | nil => rfl
  | cons c text ih =>
    rw [splitCells, pipes]
    by_cases hc : c = '|'
    · cases escaped with
      | false => simp [hc, ih]
      | true =>
        have hnext : nextEscaped true c = false := by simp [nextEscaped]
        rw [if_neg (by simp), if_pos hc, hnext]
        cases hcells : splitCells false text with
        | nil => simpa [hcells] using ih false
        | cons cell cells => simpa [hcells] using ih false
    · rw [if_neg (by simp [hc]), if_neg hc]
      cases hcells : splitCells (nextEscaped escaped c) text with
      | nil => simpa [hcells] using ih (nextEscaped escaped c)
      | cons cell cells => simpa [hcells] using ih (nextEscaped escaped c)

private theorem splitCells_append_pipe {escaped : Bool} {text : List Char}
    (h : escapedAfter escaped text = false) :
    splitCells escaped (text ++ ['|']) = splitCells escaped text ++ [[]] := by
  induction text generalizing escaped with
  | nil =>
    obtain rfl : escaped = false := h
    rfl
  | cons c text ih =>
    rw [List.cons_append, splitCells, splitCells]
    have hrest : escapedAfter (nextEscaped escaped c) text = false := h
    split
    · next hc =>
      rw [List.cons_append, ih]
      simpa [hc.1, hc.2, nextEscaped] using hrest
    · rw [ih hrest]
      cases hcells : splitCells (nextEscaped escaped c) text with
      | nil =>
        have hlength := length_splitCells (nextEscaped escaped c) text
        simp [hcells] at hlength
      | cons cell cells => rfl

private theorem length_rowCells {text : List Char} (h : escapedAfter false text = false) :
    (rowCells ('|' :: (text ++ ['|']))).length = (pipes false text).count false + 1 := by
  have hsplit : splitCells false ('|' :: (text ++ ['|'])) =
      [] :: (splitCells false text ++ [[]]) := by
    rw [splitCells, if_pos (by simp), splitCells_append_pipe h]
  have hfirst : ∀ cells : List (List Char), dropBlank ([] :: cells) = cells := fun _ => rfl
  rw [rowCells, hsplit, hfirst, List.reverse_append, List.reverse_singleton,
    List.singleton_append, hfirst, List.reverse_reverse, length_splitCells]

/-- The text stays within its cell. -/
def FitsCell (text : List Char) : Prop :=
  '\r' ∉ text ∧ '\n' ∉ text ∧ false ∉ pipes false text

theorem fitsCell_of_plain {text : List Char} (h : ∀ c ∈ text, c ≠ '|' ∧ c ≠ '\r' ∧ c ≠ '\n') :
    FitsCell text :=
  ⟨fun hmem => (h _ hmem).2.1 rfl, fun hmem => (h _ hmem).2.2 rfl, by
    rw [pipes_of_not_mem fun hmem => (h _ hmem).1 rfl]
    simp⟩

private theorem pipes_cell (cell rest : List Char) :
    pipes false (' ' :: cell ++ [' ', '|'] ++ rest) =
      pipes false cell ++ false :: pipes false rest := by
  have hspace : pipes false (' ' :: cell ++ [' ']) = pipes false cell := by
    rw [pipes_append, @pipes_of_not_mem [' '] (by simp), List.append_nil]
    rfl
  rw [show ' ' :: cell ++ [' ', '|'] ++ rest = (' ' :: cell ++ [' ']) ++ '|' :: rest by simp,
    pipes_append, hspace, escapedAfter_append (by decide)]
  rfl

private theorem count_pipes_cells (cells : List (List Char)) :
    (pipes false (cells.flatMap fun cell => ' ' :: cell ++ [' ', '|'])).count false =
      cells.length + (cells.map fun cell => (pipes false cell).count false).sum := by
  induction cells with
  | nil => rfl
  | cons cell cells ih =>
    rw [List.flatMap_cons, pipes_cell, List.count_append, List.count_cons_self, ih,
      List.length_cons, List.map_cons, List.sum_cons]
    omega

theorem length_rowCells_tableRow {cells : List (List Char)} (h : cells ≠ []) :
    (rowCells (tableRow cells)).length =
      cells.length + (cells.map fun cell => (pipes false cell).count false).sum := by
  obtain ⟨init, last, rfl⟩ := (List.eq_nil_or_concat' cells).resolve_left h
  have hrow : tableRow (init ++ [last]) =
      '|' :: ((init.flatMap fun cell => ' ' :: cell ++ [' ', '|']) ++ ' ' :: last ++ [' '] ++
        ['|']) := by
    simp [tableRow]
  have hcount := count_pipes_cells (init ++ [last])
  rw [List.flatMap_append, List.flatMap_singleton,
    show ' ' :: last ++ [' ', '|'] = (' ' :: last ++ [' ']) ++ ['|'] by simp, ← List.append_assoc,
    pipes_append, ← List.append_assoc, escapedAfter_append (by decide), List.count_append] at hcount
  rw [hrow, length_rowCells (escapedAfter_append (by decide) _ _), ← hcount]
  rfl

/-- A row has the cells that it is written with when each of them fits. -/
theorem isRow_tableRow_iff {header : List Char} {cells : List (List Char)} (h : cells ≠ [])
    (hlength : (rowCells header).length = cells.length) :
    IsRow header (tableRow cells) ↔ ∀ cell ∈ cells, FitsCell cell := by
  have hmem : ∀ c : Char, c ≠ '|' → c ≠ ' ' → (c ∉ tableRow cells ↔ ∀ cell ∈ cells, c ∉ cell) := by
    intro c hpipe hspace
    simp [tableRow, hpipe, hspace]
  rw [IsRow, hmem _ (by decide) (by decide), hmem _ (by decide) (by decide),
    length_rowCells_tableRow h, hlength, Nat.add_eq_left,
    List.sum_eq_zero_iff_forall_eq_nat]
  simp only [FitsCell, forall_and, List.forall_mem_map, List.count_eq_zero]

/-! ## Headings -/

/-- A character that ends a line. -/
def endsLine (c : Char) : Bool := c = '\n' || c = '\r'

/-- The lines of a text. -/
def markdownLines (text : List Char) : List (List Char) := (splitLines endsLine text).map Prod.fst

/-- A blank or a tab. -/
def isBlankChar (c : Char) : Bool := c = ' ' || c = '\t'

/-- A line after its indentation, which is of three blanks at most. -/
def unindented (line : List Char) : Option (List Char) :=
  if (line.takeWhile (· = ' ')).length ≤ 3 then some (line.dropWhile (· = ' ')) else none

/-- The level of a heading that is marked by signs in front. -/
def headingLevel (line : List Char) : Option Nat :=
  (unindented line).bind fun text =>
    let level := (text.takeWhile (· = '#')).length
    if 1 ≤ level ∧ level ≤ 6 ∧ ((text.dropWhile (· = '#')).head?.all isBlankChar) then some level
    else none

/-- A line of signs that underlines a heading. -/
def isUnderline (sign : Char) (line : List Char) : Bool :=
  (unindented line).any fun text =>
    text.head? = some sign && (text.dropWhile (· = sign)).all isBlankChar

/-- The line is a heading of level one, or makes one of the text above it. -/
def isTitle (inText : Bool) (line : List Char) : Bool :=
  headingLevel line = some 1 || inText && isUnderline '=' line

/-- Whether a line leaves a text open that the next one can underline. -/
def leavesText (inText : Bool) (line : List Char) : Bool :=
  !line.all isBlankChar && (headingLevel line).isNone &&
    !(inText && (isUnderline '=' line || isUnderline '-' line))

/-- The number of headings of level one among lines. Fenced code and containers are not
tracked. -/
def titles : Bool → List (List Char) → Nat
  | _, [] => 0
  | inText, line :: rest => (isTitle inText line).toNat + titles (leavesText inText line) rest

/-- A line that is no heading of level one, wherever it stands. -/
def IsQuiet (line : List Char) : Prop := ∀ inText, isTitle inText line = false

@[simp] theorem titles_nil (inText : Bool) : titles inText [] = 0 := rfl

/-- A blank line closes the text above it. -/
@[simp] theorem titles_blank (inText : Bool) (rest : List (List Char)) :
    titles inText ([] :: rest) = titles false rest := by
  cases inText <;> exact Nat.zero_add _

theorem titles_quiet {line : List Char} (h : IsQuiet line) (inText : Bool)
    (rest : List (List Char)) :
    titles inText (line :: rest) = titles (leavesText inText line) rest := by
  rw [titles, h inText]
  exact Nat.zero_add _

/-- The headings above lines that no text above them changes, and those among them. -/
theorem titles_append {rest : List (List Char)}
    (h : ∀ inText, titles inText rest = titles false rest) (inText : Bool)
    (lines : List (List Char)) :
    titles inText (lines ++ rest) = titles inText lines + titles false rest := by
  induction lines generalizing inText with
  | nil => rw [List.nil_append, h, titles_nil, Nat.zero_add]
  | cons line lines ih => rw [List.cons_append, titles, titles, ih, Nat.add_assoc]

theorem titles_of_quiet {lines : List (List Char)} (h : ∀ line ∈ lines, IsQuiet line)
    (inText : Bool) : titles inText lines = 0 := by
  induction lines generalizing inText with
  | nil => rfl
  | cons line lines ih =>
    obtain ⟨hline, hlines⟩ := List.forall_mem_cons.1 h
    rw [titles_quiet hline, ih hlines]

/-- Only a line that starts with a blank or a sign can be a heading. -/
theorem isQuiet_of_head {c : Char} (hspace : c ≠ ' ') (hsign : c ≠ '#') (hunder : c ≠ '=')
    (line : List Char) : IsQuiet (c :: line) := by
  intro inText
  have htext : unindented (c :: line) = some (c :: line) := by simp [unindented, hspace]
  have hlevel : headingLevel (c :: line) = none := by simp [headingLevel, htext, hsign]
  have hline : isUnderline '=' (c :: line) = false := by simp [isUnderline, htext, hunder]
  rw [isTitle, hlevel, hline, Bool.and_false]
  rfl

/-- A heading of a lower level. -/
theorem isQuiet_subheading (line : List Char) : IsQuiet ('#' :: '#' :: line) := by
  intro inText
  have htext : unindented ('#' :: '#' :: line) = some ('#' :: '#' :: line) := by simp [unindented]
  have hlevel : headingLevel ('#' :: '#' :: line) ≠ some 1 := by
    rw [headingLevel, htext, Option.bind_some]
    intro hone
    dsimp only at hone
    split at hone
    · next hmarks =>
      have hlength := Option.some.inj hone
      simp at hlength
    · cases hone
  have hline : isUnderline '=' ('#' :: '#' :: line) = false := by simp [isUnderline, htext]
  simp [isTitle, hlevel, hline]

/-- The lines of a text that is written line by line. -/
theorem markdownLines_unlines (texts : List (List Char)) :
    markdownLines (unlines '\n' texts) =
      texts.flatMap fun text => markdownLines (text ++ ['\n']) := by
  induction texts with
  | nil => rfl
  | cons text texts ih =>
    rw [unlines_cons, List.flatMap_cons, ← ih]
    unfold markdownLines
    rw [splitLines_append (by decide), List.map_append]

/-- A line break at the end of a text makes no heading. -/
theorem titles_ended (text : List Char) (inText : Bool) :
    titles inText (markdownLines (text ++ ['\n'])) = titles inText (markdownLines text) := by
  obtain ⟨blank, hblank, hlines⟩ := @splitLines_concat endsLine (by decide) (by decide) text
  have hzero : ∀ inText, titles inText blank = 0 := by
    rcases hblank with rfl | rfl
    · exact fun _ => rfl
    · exact fun inText => by rw [titles_blank, titles_nil]
  rw [markdownLines, markdownLines, hlines, titles_append (fun inText => by rw [hzero, hzero]),
    hzero, Nat.add_zero]

/-- A text without terminators is one line. -/
theorem markdownLines_line {line : List Char} (hcr : '\r' ∉ line) (hlf : '\n' ∉ line) :
    markdownLines (line ++ ['\n']) = [line] := by
  have hline : ∀ c ∈ line, endsLine c = false := by
    intro c hc
    have hcr : c ≠ '\r' := fun heq => hcr (heq ▸ hc)
    have hlf : c ≠ '\n' := fun heq => hlf (heq ▸ hc)
    simp [endsLine, hcr, hlf]
  rw [markdownLines, splitLines_line (by decide) hline (by decide)]
  rfl

end SchemaBrain.Base
