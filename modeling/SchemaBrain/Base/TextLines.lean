import SchemaBrain.Base.Lines

/-!
# Lines of a text

A text split into lines with their terminators, for any set of characters that end a line. CRLF
is one terminator, and the last line may have none.
-/

namespace SchemaBrain.Base

/-- A line with its terminator. -/
abbrev EndedLine := List Char × List Char

/-- One more character at the front of the first line. -/
def consLine (c : Char) : List EndedLine → List EndedLine
  | [] => [([c], [])]
  | (line, terminator) :: rest => (c :: line, terminator) :: rest

/-- The lines of a text. -/
def splitLines (ends : Char → Bool) : List Char → List EndedLine
  | [] => []
  | '\r' :: '\n' :: rest => ([], ['\r', '\n']) :: splitLines ends rest
  | c :: rest =>
    if ends c then ([], [c]) :: splitLines ends rest else consLine c (splitLines ends rest)

/-- The text of lines with their terminators. -/
def joinLines (lines : List EndedLine) : List Char := lines.flatMap fun line => line.1 ++ line.2

variable {ends : Char → Bool}

@[simp] theorem joinLines_nil : joinLines [] = [] := rfl

@[simp] theorem joinLines_cons (line : EndedLine) (rest : List EndedLine) :
    joinLines (line :: rest) = line.1 ++ line.2 ++ joinLines rest := rfl

theorem splitLines_cons {c : Char} {rest : List Char}
    (h : ∀ rest', c = '\r' → rest = '\n' :: rest' → False) :
    splitLines ends (c :: rest) =
      if ends c then ([], [c]) :: splitLines ends rest else consLine c (splitLines ends rest) := by
  rw [splitLines]
  exact h

private theorem joinLines_consLine (c : Char) (lines : List EndedLine) :
    joinLines (consLine c lines) = c :: joinLines lines := by
  cases lines <;> rfl

theorem joinLines_splitLines (text : List Char) : joinLines (splitLines ends text) = text := by
  induction text using splitLines.induct ends with
  | case1 => rfl
  | case2 rest ih => rw [splitLines, joinLines_cons, ih]; rfl
  | case3 c rest hcrlf hc ih =>
    rw [splitLines_cons hcrlf, if_pos hc, joinLines_cons, ih]
    rfl
  | case4 c rest hcrlf hc ih => rw [splitLines_cons hcrlf, if_neg hc, joinLines_consLine, ih]

/-- What holds of every line that can be split off. -/
private theorem forall_splitLines {P : EndedLine → Prop} (hcrlf : P ([], ['\r', '\n']))
    (hend : ∀ c, ends c = true → P ([], [c])) (hlast : ∀ c, ends c = false → P ([c], []))
    (hcons : ∀ c line, ends c = false → P line → P (c :: line.1, line.2)) (text : List Char) :
    ∀ line ∈ splitLines ends text, P line := by
  induction text using splitLines.induct ends with
  | case1 => intro line hline; cases hline
  | case2 rest ih =>
    rw [splitLines, List.forall_mem_cons]
    exact ⟨hcrlf, ih⟩
  | case3 c rest hno hc ih =>
    rw [splitLines_cons hno, if_pos hc, List.forall_mem_cons]
    exact ⟨hend c hc, ih⟩
  | case4 c rest hno hc ih =>
    have hc := Bool.eq_false_iff.2 hc
    rw [splitLines_cons hno, if_neg (by simp [hc])]
    cases hlines : splitLines ends rest with
    | nil => simpa [consLine] using hlast c hc
    | cons line lines =>
      rw [hlines, List.forall_mem_cons] at ih
      exact List.forall_mem_cons.2 ⟨hcons c line hc ih.1, ih.2⟩

/-- No character of a line ends a line. -/
theorem ends_eq_false_of_mem {text : List Char} {line : EndedLine}
    (h : line ∈ splitLines ends text) {c : Char} (hc : c ∈ line.1) : ends c = false := by
  have hall : ∀ line ∈ splitLines ends text, ∀ c ∈ line.1, ends c = false :=
    forall_splitLines (by simp) (by simp) (by simp) (by simp +contextual) text
  exact hall line h c hc

/-- The terminators. -/
theorem terminator_cases {text : List Char} {line : EndedLine} (h : line ∈ splitLines ends text) :
    line.2 = [] ∨ line.2 = ['\r', '\n'] ∨ ∃ c, ends c = true ∧ line.2 = [c] := by
  have hall : ∀ line ∈ splitLines ends text,
      line.2 = [] ∨ line.2 = ['\r', '\n'] ∨ ∃ c, ends c = true ∧ line.2 = [c] :=
    forall_splitLines (.inr (.inl rfl)) (fun c hc => .inr (.inr ⟨c, hc, rfl⟩))
      (fun _ _ => .inl rfl) (fun _ _ _ hline => hline) text
  exact hall line h

private theorem dropLast_consLine (c : Char) (lines : List EndedLine)
    (h : ∀ line ∈ lines.dropLast, line.2 ≠ []) :
    ∀ line ∈ (consLine c lines).dropLast, line.2 ≠ [] := by
  cases lines with
  | nil => simp [consLine]
  | cons line rest =>
    cases rest with
    | nil => simp [consLine]
    | cons next rest =>
      rw [List.dropLast_cons_of_ne_nil (by simp), List.forall_mem_cons] at h
      rw [consLine, List.dropLast_cons_of_ne_nil (by simp), List.forall_mem_cons]
      exact h

/-- Only the last line can be without a terminator. -/
theorem terminator_ne_nil {text : List Char} {line : EndedLine}
    (h : line ∈ (splitLines ends text).dropLast) : line.2 ≠ [] := by
  have hcons : ∀ (first : EndedLine) (lines : List EndedLine), first.2 ≠ [] →
      (∀ line ∈ lines.dropLast, line.2 ≠ []) → ∀ line ∈ (first :: lines).dropLast, line.2 ≠ [] := by
    intro first lines hfirst hlines
    cases lines with
    | nil => simp
    | cons next rest =>
      rw [List.dropLast_cons_of_ne_nil (by simp), List.forall_mem_cons]
      exact ⟨hfirst, hlines⟩
  induction text using splitLines.induct ends generalizing line with
  | case1 => cases h
  | case2 rest ih =>
    rw [splitLines] at h
    exact hcons _ _ (by simp) (fun _ => ih) line h
  | case3 c rest hno hc ih =>
    rw [splitLines_cons hno, if_pos hc] at h
    exact hcons _ _ (by simp) (fun _ => ih) line h
  | case4 c rest hno hc ih =>
    rw [splitLines_cons hno, if_neg hc] at h
    exact dropLast_consLine c _ (fun _ => ih) line h

private theorem splitLines_ne_nil {text : List Char} (h : text ≠ []) :
    splitLines ends text ≠ [] := by
  intro hnil
  have hjoin := @joinLines_splitLines ends text
  rw [hnil, joinLines_nil] at hjoin
  exact h hjoin.symm

private theorem not_crlf_append {c : Char} {text : List Char}
    (hno : ∀ rest, c = '\r' → text = '\n' :: rest → False) (hcr : ¬ (c = '\r' ∧ text = []))
    (more rest : List Char) (hc : c = '\r') (htext : text ++ '\n' :: more = '\n' :: rest) :
    False := by
  cases text with
  | nil => exact hcr ⟨hc, rfl⟩
  | cons c' text => exact hno text hc (by rw [(List.cons.inj htext).1])

section Newline

variable (hlf : ends '\n' = true)

include hlf

/-- A line break in the middle of a text is one between its lines. -/
theorem splitLines_append (text rest : List Char) : splitLines ends (text ++ '\n' :: rest) =
    splitLines ends (text ++ ['\n']) ++ splitLines ends rest := by
  induction text using splitLines.induct ends with
  | case1 =>
    have hfirst : ∀ rest, splitLines ends ('\n' :: rest) = ([], ['\n']) :: splitLines ends rest :=
      fun rest => by rw [splitLines_cons (by simp), if_pos hlf]
    simp only [List.nil_append, hfirst]
    rfl
  | case2 text ih =>
    simp only [List.cons_append, splitLines, ih]
  | case3 c text hno hc ih =>
    by_cases hcr : c = '\r' ∧ text = []
    · obtain ⟨rfl, rfl⟩ := hcr
      rfl
    · have hno' := not_crlf_append hno hcr
      rw [List.cons_append, List.cons_append, splitLines_cons (hno' _), splitLines_cons (hno' _),
        if_pos hc, if_pos hc, ih, List.cons_append]
  | case4 c text hno hc ih =>
    by_cases hcr : c = '\r' ∧ text = []
    · obtain ⟨rfl, rfl⟩ := hcr
      rfl
    · have hno' := not_crlf_append hno hcr
      rw [List.cons_append, List.cons_append, splitLines_cons (hno' _), splitLines_cons (hno' _),
        if_neg hc, if_neg hc, ih]
      cases hlines : splitLines ends (text ++ ['\n']) with
      | nil => exact absurd hlines (splitLines_ne_nil (by simp))
      | cons line lines => rfl

/-- A line break at the end of a text ends its last line, or is a blank one. -/
theorem splitLines_concat (hcr : ends '\r' = true) (text : List Char) :
    ∃ blank, (blank = [] ∨ blank = [[]]) ∧
    (splitLines ends (text ++ ['\n'])).map Prod.fst =
      (splitLines ends text).map Prod.fst ++ blank := by
  induction text using splitLines.induct ends with
  | case1 =>
    refine ⟨[[]], .inr rfl, ?_⟩
    rw [List.nil_append, splitLines_cons (by simp), if_pos hlf]
    rfl
  | case2 text ih =>
    obtain ⟨blank, hblank, hlines⟩ := ih
    exact ⟨blank, hblank, by simp only [List.cons_append, splitLines, List.map_cons, hlines]⟩
  | case3 c text hno hc ih =>
    by_cases hlast : c = '\r' ∧ text = []
    · obtain ⟨rfl, rfl⟩ := hlast
      refine ⟨[], .inl rfl, ?_⟩
      rw [splitLines_cons hno, if_pos hc]
      rfl
    · obtain ⟨blank, hblank, hlines⟩ := ih
      refine ⟨blank, hblank, ?_⟩
      rw [List.cons_append, splitLines_cons (not_crlf_append hno hlast _), splitLines_cons hno,
        if_pos hc, if_pos hc, List.map_cons, hlines, List.map_cons, List.cons_append]
  | case4 c text hno hc ih =>
    have hlast : ¬ (c = '\r' ∧ text = []) := fun h => hc (h.1 ▸ hcr)
    rw [List.cons_append, splitLines_cons (not_crlf_append hno hlast _), splitLines_cons hno,
      if_neg hc, if_neg hc]
    cases text with
    | nil =>
      refine ⟨[], .inl rfl, ?_⟩
      rw [List.nil_append, splitLines_cons (by simp), if_pos hlf]
      rfl
    | cons next text =>
      obtain ⟨blank, hblank, hlines⟩ := ih
      refine ⟨blank, hblank, ?_⟩
      cases hold : splitLines ends (next :: text) with
      | nil => exact absurd hold (splitLines_ne_nil (by simp))
      | cons line lines =>
        cases hnew : splitLines ends (next :: text ++ ['\n']) with
        | nil => exact absurd hnew (splitLines_ne_nil (by simp))
        | cons line' lines' =>
          rw [hold, hnew, List.map_cons, List.map_cons, List.cons_append] at hlines
          obtain ⟨hfirst, hrest⟩ := List.cons.inj hlines
          simp only [consLine, List.map_cons, hfirst, hrest, List.cons_append]

/-- A line in which nothing ends a line. -/
theorem splitLines_line {line : List Char} (hline : ∀ c ∈ line, ends c = false)
    (hcr : ends '\r' = true) (rest : List Char) :
    splitLines ends (line ++ '\n' :: rest) = (line, ['\n']) :: splitLines ends rest := by
  induction line with
  | nil => rw [List.nil_append, splitLines_cons (by simp), if_pos hlf]
  | cons c line ih =>
    obtain ⟨hc, hline⟩ := List.forall_mem_cons.1 hline
    have hno : c ≠ '\r' := fun heq => by simp [heq, hcr] at hc
    rw [List.cons_append, splitLines_cons (fun _ heq => absurd heq hno), if_neg (by simp [hc]),
      ih hline]
    rfl

/-- Lines in which nothing ends a line are the lines of their text. -/
theorem splitLines_unlines {lines : List (List Char)}
    (hlines : ∀ line ∈ lines, ∀ c ∈ line, ends c = false) (hcr : ends '\r' = true) :
    splitLines ends (unlines '\n' lines) = lines.map (·, ['\n']) := by
  induction lines with
  | nil => rfl
  | cons line lines ih =>
    obtain ⟨hline, hrest⟩ := List.forall_mem_cons.1 hlines
    rw [unlines_cons, splitLines_line hlf hline hcr, ih hrest, List.map_cons]

end Newline

/-! ## Lines under line feeds -/

/-- The terminators of a list of lines are as `splitLines` finds them. -/
structure WellEnded (lines : List EndedLine) : Prop where
  short : ∀ line ∈ lines, line.2 = [] ∨ line.2 = ['\r', '\n'] ∨ ∃ c, line.2 = [c]
  ended : ∀ line ∈ lines.dropLast, line.2 ≠ []

theorem wellEnded_splitLines (text : List Char) : WellEnded (splitLines ends text) where
  short line hline := by
    rcases terminator_cases hline with hnone | hcrlf | ⟨c, -, hc⟩
    · exact .inl hnone
    · exact .inr (.inl hcrlf)
    · exact .inr (.inr ⟨c, hc⟩)
  ended _ hline := terminator_ne_nil hline

namespace WellEnded

variable {line next : EndedLine} {lines : List EndedLine}

theorem tail (h : WellEnded (line :: next :: lines)) : WellEnded (next :: lines) where
  short l hl := h.short l (List.mem_cons_of_mem _ hl)
  ended l hl := h.ended l (List.mem_cons_of_mem _ hl)

private theorem head_eq_lf_iff (h : WellEnded (line :: next :: lines)) (rest rest' : List Char) :
    line.2 ++ rest = '\n' :: rest' ↔ line.2 = ['\n'] ∧ rest = rest' := by
  rcases h.short line List.mem_cons_self with hnone | hcrlf | ⟨c, hc⟩
  · exact absurd hnone (h.ended line List.mem_cons_self)
  · simp [hcrlf]
  · simp [hc]

/-- Lines are those under line feeds when each terminator is one. -/
theorem joinLines_eq_iff (h : WellEnded lines) :
    joinLines lines = unlines '\n' (lines.map Prod.fst) ↔ ∀ line ∈ lines, line.2 = ['\n'] := by
  induction lines with
  | nil => simp
  | cons line lines ih =>
    cases lines with
    | nil =>
      rcases h.short line List.mem_cons_self with hnone | hcrlf | ⟨c, hc⟩
      · simp [hnone]
      · simp [hcrlf]
      · simp [hc]
    | cons next lines =>
      rw [List.map_cons, unlines_cons, joinLines_cons, List.append_assoc,
        List.append_cancel_left_eq, h.head_eq_lf_iff, ih h.tail]
      simp

/-- What the last line lacks. -/
def missingEnd (lines : List EndedLine) : List Char :=
  if lines.getLast?.any (·.2 = []) then ['\n'] else []

/-- The same when the last line is ended. -/
theorem joinLines_missingEnd_iff (h : WellEnded lines) :
    joinLines lines ++ missingEnd lines = unlines '\n' (lines.map Prod.fst) ↔
      ∀ line ∈ lines, line.2 = ['\n'] ∨ line.2 = [] := by
  induction lines with
  | nil => simp [missingEnd]
  | cons line lines ih =>
    cases lines with
    | nil =>
      rcases h.short line List.mem_cons_self with hnone | hcrlf | ⟨c, hc⟩
      · simp [missingEnd, hnone]
      · simp [missingEnd, hcrlf]
      · simp [missingEnd, hc]
    | cons next lines =>
      have hlast : missingEnd (line :: next :: lines) = missingEnd (next :: lines) := by
        rw [missingEnd, missingEnd, List.getLast?_cons_cons]
      have hne : line.2 ≠ [] := h.ended line List.mem_cons_self
      rw [List.map_cons, unlines_cons, joinLines_cons, hlast, List.append_assoc,
        List.append_assoc, List.append_cancel_left_eq, h.head_eq_lf_iff, ih h.tail]
      simp [hne]

end WellEnded

/-! ## Text mode -/

/-- A text as it is read with universal newlines. -/
def universalNewlines : List Char → List Char
  | [] => []
  | '\r' :: '\n' :: rest => '\n' :: universalNewlines rest
  | '\r' :: rest => '\n' :: universalNewlines rest
  | c :: rest => c :: universalNewlines rest

theorem universalNewlines_of_not_mem {text : List Char} (h : '\r' ∉ text) :
    universalNewlines text = text := by
  induction text with
  | nil => rfl
  | cons c text ih =>
    rw [List.mem_cons, not_or] at h
    rw [universalNewlines, ih h.2]
    · exact fun rest hc => absurd hc.symm h.1
    · exact fun hc => absurd hc.symm h.1

private theorem map_fst_consLine (c : Char) {lines lines' : List EndedLine}
    (h : lines.map Prod.fst = lines'.map Prod.fst) :
    (consLine c lines).map Prod.fst = (consLine c lines').map Prod.fst := by
  cases lines with
  | nil => rw [List.map_eq_nil_iff.1 h.symm]
  | cons line lines =>
    cases lines' with
    | nil => cases h
    | cons line' lines' =>
      obtain ⟨hline, hlines⟩ := List.cons.inj h
      simp only [consLine, List.map_cons, hline, hlines]

/-- Reading with universal newlines keeps the lines. -/
theorem map_fst_universalNewlines (hcr : ends '\r' = true) (hlf : ends '\n' = true)
    (text : List Char) : (splitLines ends (universalNewlines text)).map Prod.fst =
      (splitLines ends text).map Prod.fst := by
  have hnewline : ∀ rest, splitLines ends ('\n' :: rest) = ([], ['\n']) :: splitLines ends rest :=
    fun rest => by rw [splitLines_cons (by simp), if_pos hlf]
  induction text using universalNewlines.induct with
  | case1 => rfl
  | case2 rest ih => rw [universalNewlines, hnewline, splitLines, List.map_cons, List.map_cons, ih]
  | case3 rest hno ih =>
    rw [universalNewlines, hnewline, splitLines_cons (fun rest' _ heq => hno rest' heq), if_pos hcr,
      List.map_cons, List.map_cons, ih]
    exact hno
  | case4 c rest hcrlf hc ih =>
    have hno : ∀ rest rest', c = '\r' → rest = '\n' :: rest' → False :=
      fun _ _ heq => absurd heq hc
    rw [universalNewlines, splitLines_cons (hno _), splitLines_cons (hno _)]
    · split
      · rw [List.map_cons, List.map_cons, ih]
      · exact map_fst_consLine c ih
    · exact hcrlf
    · exact hc

end SchemaBrain.Base
