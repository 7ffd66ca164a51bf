import SchemaBrain.Setup.EnvFile

/-!
# What persisting a key changes

A key that was persisted is loaded with its value, and the rest of the file keeps its lines. The
file keeps its bytes when its other lines are under line feeds: a file is written without the
terminators that it was read with.
-/

namespace SchemaBrain.Setup

open Base

/-- A key and a value as they can be persisted: a name, and a text on one line without blanks or
quotes around it. -/
structure Persistable (keyName keyValue : String) : Prop where
  key : isKeyName keyName.toList = true
  one_line : ∀ c ∈ keyValue.toList, isLineBreak c = false
  no_blank_before : keyValue.toList.head?.all (!isPySpace ·) = true
  no_blank_after : keyValue.toList.getLast?.all (!isPySpace ·) = true
  no_quotes : unquoteValue keyValue = keyValue

/-! ## The written line -/

private theorem isNameChar_of_key {key : List Char} (h : isKeyName key = true) {c : Char}
    (hc : c ∈ key) : isNameChar c = true := by
  cases key with
  | nil => cases hc
  | cons first rest =>
    rw [isKeyName, Bool.and_eq_true] at h
    rcases List.mem_cons.1 hc with rfl | hrest
    · have hfirst := h.1
      simp only [Bool.or_eq_true, decide_eq_true_eq] at hfirst
      rcases hfirst with halpha | rfl
      · simp [isNameChar, Char.isAlphanum, halpha]
      · decide
    · exact List.all_eq_true.1 h.2 c hrest

private theorem isPySpace_of_isNameChar {c : Char} (h : isNameChar c = true) :
    isPySpace c = false := by
  have hbounds : 48 ≤ c.toNat ∧ c.toNat ≤ 122 := by
    simp only [isNameChar, Bool.or_eq_true, decide_eq_true_eq] at h
    rcases h with h | rfl
    · have hrange := toNat_of_isAlphanum h
      omega
    · decide
  by_contra hspace
  rw [Bool.not_eq_false] at hspace
  simp only [isPySpace, Bool.or_eq_true, Bool.and_eq_true, decide_eq_true_eq] at hspace
  omega

private theorem isLineBreak_of_isNameChar {c : Char} (h : isNameChar c = true) :
    isLineBreak c = false := by
  have hspace := isPySpace_of_isNameChar h
  by_contra hbreak
  rw [Bool.not_eq_false] at hbreak
  simp only [isLineBreak, decide_eq_true_eq, List.mem_cons, List.not_mem_nil, or_false] at hbreak
  rcases hbreak with h | h | h | h | h | h | h | h | h | h <;> simp [isPySpace, h] at hspace

section Line

variable {keyName keyValue : String} (h : Persistable keyName keyValue)

include h

/-- No line ends in the written line. -/
theorem keyLine_one_line : ∀ c ∈ keyLine keyName keyValue, isLineBreak c = false := by
  intro c hc
  rw [keyLine, List.mem_append, List.mem_cons] at hc
  rcases hc with hkey | rfl | hvalue
  · exact isLineBreak_of_isNameChar (isNameChar_of_key h.key hkey)
  · decide
  · exact h.one_line c hvalue

/-- The written line assigns the value to the key. -/
theorem matchKeyValue_keyLine :
    matchKeyValue (keyLine keyName keyValue) = some (keyName, keyValue) := by
  have hname : ∀ c ∈ keyName.toList, isNameChar c = true := fun c => isNameChar_of_key h.key
  have hstart : (keyLine keyName keyValue).dropWhile isPySpace = keyLine keyName keyValue := by
    have hkey := h.key
    unfold keyLine
    cases hchars : keyName.toList with
    | nil => simp [hchars, isKeyName] at hkey
    | cons c rest =>
      have hspace := isPySpace_of_isNameChar (hname c (hchars ▸ List.mem_cons_self))
      rw [List.cons_append, List.dropWhile_cons_of_neg (by simp [hspace])]
  have htake : (keyLine keyName keyValue).takeWhile isNameChar = keyName.toList := by
    rw [keyLine, List.takeWhile_append_of_pos hname, List.takeWhile_cons_of_neg (by decide),
      List.append_nil]
  have hdrop : (keyLine keyName keyValue).dropWhile isNameChar = '=' :: keyValue.toList := by
    rw [keyLine, List.dropWhile_append_of_pos hname, List.dropWhile_cons_of_neg (by decide)]
  have hbefore : keyValue.toList.dropWhile isPySpace = keyValue.toList := by
    have hblank := h.no_blank_before
    cases hchars : keyValue.toList with
    | nil => rfl
    | cons c rest =>
      rw [List.dropWhile_cons_of_neg]
      simpa [hchars] using hblank
  have hafter : rstrip keyValue.toList = keyValue.toList := by
    have hblank := h.no_blank_after
    rw [List.getLast?_eq_head?_reverse] at hblank
    rw [rstrip, List.reverse_eq_iff]
    cases hchars : keyValue.toList.reverse with
    | nil => rfl
    | cons c rest =>
      rw [List.dropWhile_cons_of_neg]
      simpa [hchars] using hblank
  have hequals : ('=' :: keyValue.toList).dropWhile isPySpace = '=' :: keyValue.toList :=
    List.dropWhile_cons_of_neg (by decide)
  simp only [matchKeyValue, hstart, htake, hdrop, hequals, h.key, if_pos, hbefore, hafter,
    String.ofList_toList]

theorem assigns_keyLine : assigns keyName (keyLine keyName keyValue) = true := by
  simp [assigns, matchKeyValue_keyLine h]

end Line

/-! ## Loading -/

private theorem loadLine_eq (loaded : Loaded) (raw : List Char) : loadLine loaded raw = loaded ∨
    ∃ key value, matchKeyValue raw = some (key, value) ∧ dictGet loaded.2 key = none ∧
      loadLine loaded raw = (loaded.1 + 1, dictSet loaded.2 key (unquoteValue value)) := by
  unfold loadLine
  dsimp only
  split
  · exact .inl rfl
  · cases hmatch : matchKeyValue raw with
    | none => exact .inl rfl
    | some item =>
      obtain ⟨key, value⟩ := item
      dsimp only
      split
      · exact .inl rfl
      · split
        · exact .inl rfl
        · next hunset => exact .inr ⟨key, value, rfl, by simpa using hunset, rfl⟩

/-- A line for another key leaves the key as it is. -/
theorem dictGet_loadLine_of_not_assigns {keyName : String} {loaded : Loaded} {raw : List Char}
    (h : assigns keyName raw = false) :
    dictGet (loadLine loaded raw).2 keyName = dictGet loaded.2 keyName := by
  rcases loadLine_eq loaded raw with hsame | ⟨key, value, hmatch, -, hset⟩
  · rw [hsame]
  · rw [hset, dictGet_dictSet, if_neg]
    rintro rfl
    simp [assigns, hmatch] at h

/-- A key that is set keeps its value. -/
theorem dictGet_loadLine_of_some {keyName value : String} {loaded : Loaded}
    (h : dictGet loaded.2 keyName = some value) (raw : List Char) :
    dictGet (loadLine loaded raw).2 keyName = some value := by
  rcases loadLine_eq loaded raw with hsame | ⟨key, value', -, hunset, hset⟩
  · rw [hsame, h]
  · rw [hset, dictGet_dictSet, if_neg, h]
    rintro rfl
    simp [h] at hunset

section Load

variable {keyName keyValue : String} (h : Persistable keyName keyValue)

include h

private theorem head?_keyLine : (keyLine keyName keyValue).dropWhile isPySpace ≠ [] ∧
    ((keyLine keyName keyValue).dropWhile isPySpace).head? ≠ some '#' := by
  have hkey := h.key
  unfold keyLine
  cases hchars : keyName.toList with
  | nil => simp [hchars, isKeyName] at hkey
  | cons c rest =>
    have hname : isNameChar c = true := isNameChar_of_key h.key (hchars ▸ List.mem_cons_self)
    have hspace := isPySpace_of_isNameChar hname
    rw [List.cons_append, List.dropWhile_cons_of_neg (by simp [hspace])]
    refine ⟨by simp, ?_⟩
    rintro heq
    obtain rfl : c = '#' := by simpa using heq
    exact absurd hname (by decide)

/-- The written line sets a key that is not set, unless its value is empty. -/
theorem loadLine_keyLine {loaded : Loaded} (hunset : dictGet loaded.2 keyName = none) :
    dictGet (loadLine loaded (keyLine keyName keyValue)).2 keyName =
      if keyValue = "" then none else some keyValue := by
  obtain ⟨hne, hhash⟩ := head?_keyLine h
  have hblank : keyValue.toList.all isPySpace = decide (keyValue = "") := by
    have hbefore := h.no_blank_before
    cases hchars : keyValue.toList with
    | nil => simp [String.toList_eq_nil_iff.1 hchars]
    | cons c rest =>
      have hne : keyValue ≠ "" := fun heq => by simp [heq] at hchars
      have hspace : isPySpace c = false := by simpa [hchars] using hbefore
      simp [hne, hspace]
  unfold loadLine
  dsimp only
  rw [if_neg (not_or.2 ⟨hne, hhash⟩), matchKeyValue_keyLine h]
  dsimp only
  rw [h.no_quotes, hblank, hunset]
  by_cases hempty : keyValue = ""
  · simp [hempty, hunset]
  · simp [hempty, dictGet_dictSet]

omit h in
private theorem dictGet_foldl_of_some {value : String} (lines : List (List Char)) {loaded : Loaded}
    (hset : dictGet loaded.2 keyName = some value) :
    dictGet (lines.foldl loadLine loaded).2 keyName = some value := by
  induction lines generalizing loaded with
  | nil => exact hset
  | cons raw lines ih => exact ih (dictGet_loadLine_of_some hset raw)

/-- Lines of which those for the key are the written one set the key to its value. -/
theorem dictGet_foldl_loadLine {lines : List (List Char)}
    (hlines : ∀ raw ∈ lines, assigns keyName raw = true → raw = keyLine keyName keyValue)
    {loaded : Loaded} (hunset : dictGet loaded.2 keyName = none) :
    dictGet (lines.foldl loadLine loaded).2 keyName =
      if keyLine keyName keyValue ∈ lines ∧ keyValue ≠ "" then some keyValue else none := by
  induction lines generalizing loaded with
  | nil => simpa using hunset
  | cons raw lines ih =>
    obtain ⟨hraw, hrest⟩ := List.forall_mem_cons.1 hlines
    rw [List.foldl_cons]
    cases hassigns : assigns keyName raw with
    | true =>
      obtain rfl := hraw hassigns
      have hnext := loadLine_keyLine h hunset
      by_cases hempty : keyValue = ""
      · rw [if_pos hempty] at hnext
        rw [ih hrest hnext]
        simp [hempty]
      · rw [if_neg hempty] at hnext
        rw [dictGet_foldl_of_some lines hnext, if_pos ⟨List.mem_cons_self, hempty⟩]
    | false =>
      have hne : keyLine keyName keyValue ≠ raw := fun heq => by
        rw [← heq, assigns_keyLine h] at hassigns
        cases hassigns
      rw [ih hrest (by rw [dictGet_loadLine_of_not_assigns hassigns, hunset])]
      simp [hne]

end Load

/-! ## What the file keeps -/

section Frame

variable {keyName keyValue : String} (h : Persistable keyName keyValue)

/-- The old lines, with the written one in the place of those for the key. -/
def replaceAssigned (keyName keyValue : String) (lines : List EndedLine) : List EndedLine :=
  lines.map fun line =>
    if assigns keyName line.1 then (keyLine keyName keyValue, ['\n']) else line

/-- The old text with each line for the key replaced by the written one, or with that line
after it. -/
def expectedText (keyName keyValue text : String) : String :=
  let lines := splitLines isLineBreak text.toList
  String.ofList (
    if lines.any fun line => assigns keyName line.1 then
      joinLines (replaceAssigned keyName keyValue lines)
    else joinLines lines ++ WellEnded.missingEnd lines ++ (keyLine keyName keyValue ++ ['\n']))

/-- The line breaks of a file that are kept: line feeds, and a missing one at the end of a file
to which a line is added. -/
def KeepsBreaks (keyName text : String) : Prop :=
  ∀ line ∈ splitLines isLineBreak text.toList, assigns keyName line.1 = true ∨ line.2 = ['\n'] ∨
    line.2 = [] ∧ ∀ line' ∈ splitLines isLineBreak text.toList, assigns keyName line'.1 = false

theorem mem_outLines {existing : List (List Char)} {raw : List Char}
    (hraw : raw ∈ outLines keyName keyValue existing) :
    raw ∈ existing ∨ raw = keyLine keyName keyValue := by
  have hmap : ∀ raw ∈ existing.map fun raw =>
      if assigns keyName raw then keyLine keyName keyValue else raw,
      raw ∈ existing ∨ raw = keyLine keyName keyValue := by
    rw [List.forall_mem_map]
    intro raw hmem
    split
    · exact .inr rfl
    · exact .inl hmem
  unfold outLines at hraw
  dsimp only at hraw
  split at hraw
  · exact hmap raw hraw
  · rcases List.mem_append.1 hraw with hold | hnew
    · exact hmap raw hold
    · exact .inr (List.mem_singleton.1 hnew)

/-- A written line for the key is the new one. -/
theorem eq_keyLine_of_mem_outLines {existing : List (List Char)} {raw : List Char}
    (hraw : raw ∈ outLines keyName keyValue existing) (hassigns : assigns keyName raw = true) :
    raw = keyLine keyName keyValue := by
  have hmap : ∀ raw ∈ existing.map fun raw =>
      if assigns keyName raw then keyLine keyName keyValue else raw,
      assigns keyName raw = true → raw = keyLine keyName keyValue := by
    rw [List.forall_mem_map]
    intro raw hmem
    split
    · exact fun _ => rfl
    · next hno => exact fun hyes => absurd hyes hno
  unfold outLines at hraw
  dsimp only at hraw
  split at hraw
  · exact hmap raw hraw hassigns
  · rcases List.mem_append.1 hraw with hold | hnew
    · exact hmap raw hold hassigns
    · exact List.mem_singleton.1 hnew

theorem keyLine_mem_outLines (keyName keyValue : String) (existing : List (List Char)) :
    keyLine keyName keyValue ∈ outLines keyName keyValue existing := by
  unfold outLines
  dsimp only
  split
  · next hany =>
    obtain ⟨raw, hraw, hassigns⟩ := List.any_eq_true.1 hany
    exact List.mem_map.2 ⟨raw, hraw, if_pos hassigns⟩
  · exact List.mem_append_right _ List.mem_cons_self

/-- The lines that are read are those of the file. -/
theorem readLines_eq (text : String) :
    readLines text = (splitLines isLineBreak text.toList).map Prod.fst :=
  map_fst_universalNewlines (by decide) (by decide) _

private theorem wellEnded_replaced {lines : List EndedLine} (hlines : WellEnded lines) :
    WellEnded (replaceAssigned keyName keyValue lines) where
  short := by
    rw [replaceAssigned, List.forall_mem_map]
    intro line hline
    split
    · exact .inr (.inr ⟨'\n', rfl⟩)
    · exact hlines.short line hline
  ended := by
    rw [replaceAssigned, ← List.map_dropLast, List.forall_mem_map]
    intro line hline
    split
    · simp
    · exact hlines.ended line hline

/-- Persisting a key touches only the lines that assign it when the other lines are under line
feeds. -/
theorem persist_eq_expected_iff (keyName keyValue text : String) :
    persistKeyToEnvFile keyName keyValue (some text) = expectedText keyName keyValue text ↔
      KeepsBreaks keyName text := by
  have hended := @wellEnded_splitLines isLineBreak text.toList
  rw [persistKeyToEnvFile, Option.map_some, Option.getD_some, readLines_eq, expectedText,
    String.ofList_inj, KeepsBreaks, outLines]
  generalize splitLines isLineBreak text.toList = lines at hended ⊢
  have hread : (lines.map Prod.fst).any (assigns keyName) =
      lines.any fun line => assigns keyName line.1 := List.any_map
  rw [hread, eq_comm]
  by_cases hany : (lines.any fun line => assigns keyName line.1) = true
  · have hfst : (lines.map Prod.fst).map (fun raw =>
        if assigns keyName raw then keyLine keyName keyValue else raw) =
          (replaceAssigned keyName keyValue lines).map Prod.fst := by
      rw [replaceAssigned, List.map_map, List.map_map]
      refine List.map_congr_left fun line _ => ?_
      simp only [Function.comp_apply]
      split <;> rfl
    have hsome : ¬ ∀ line' ∈ lines, assigns keyName line'.1 = false := by
      simpa [List.any_eq_true] using hany
    rw [if_pos hany, if_pos hany, hfst, (wellEnded_replaced hended).joinLines_eq_iff,
      replaceAssigned, List.forall_mem_map]
    refine forall₂_congr fun line _ => ?_
    rw [or_iff_left (b := line.2 = [] ∧ _) fun hlast => hsome hlast.2]
    cases hline : assigns keyName line.1 <;> simp
  · have hnone : ∀ line ∈ lines, assigns keyName line.1 = false := by
      simpa [List.any_eq_true] using hany
    have hsame : (lines.map Prod.fst).map (fun raw =>
        if assigns keyName raw then keyLine keyName keyValue else raw) = lines.map Prod.fst := by
      rw [List.map_map]
      exact List.map_congr_left fun line hline => by simp [hnone line hline]
    rw [if_neg hany, if_neg hany, hsame, unlines_append, unlines_cons, unlines_nil,
      List.append_cancel_right_eq, hended.joinLines_missingEnd_iff]
    refine forall₂_congr fun line hline => ?_
    rw [hnone line hline, and_iff_left hnone]
    simp

include h

/-- The written lines are read back. -/
theorem readLines_persist (file : Option String) :
    readLines (persistKeyToEnvFile keyName keyValue file) =
      outLines keyName keyValue ((file.map readLines).getD []) := by
  have hold : ∀ raw ∈ (file.map readLines).getD [], ∀ c ∈ raw, isLineBreak c = false := by
    cases file with
    | none => simp
    | some text =>
      rw [Option.map_some, Option.getD_some, readLines, List.forall_mem_map]
      exact fun line hline c hc => ends_eq_false_of_mem hline hc
  have hlines : ∀ raw ∈ outLines keyName keyValue ((file.map readLines).getD []),
      ∀ c ∈ raw, isLineBreak c = false := by
    intro raw hraw
    rcases mem_outLines hraw with hmem | rfl
    · exact hold raw hmem
    · exact keyLine_one_line h
  have hcr : '\r' ∉ unlines '\n' (outLines keyName keyValue ((file.map readLines).getD [])) := by
    intro hmem
    obtain ⟨raw, hraw, hchar⟩ := List.mem_flatMap.1 hmem
    rcases List.mem_append.1 hchar with hline | hend
    · exact absurd (hlines raw hraw _ hline) (by decide)
    · exact absurd (List.mem_singleton.1 hend) (by decide)
  rw [readLines, persistKeyToEnvFile, String.toList_ofList, universalNewlines_of_not_mem hcr,
    splitLines_unlines (by decide) hlines (by decide), List.map_map]
  exact List.map_id _

/-- A persisted key is loaded with its value, unless that is empty. -/
theorem dictGet_load_persist (file : Option String) {environ : List (String × String)}
    (hunset : dictGet environ keyName = none) :
    dictGet (loadEnvFileIntoEnviron (some (persistKeyToEnvFile keyName keyValue file))
      environ).2 keyName = if keyValue = "" then none else some keyValue := by
  have hassigned : ∀ raw ∈ outLines keyName keyValue ((file.map readLines).getD []),
      assigns keyName raw = true → raw = keyLine keyName keyValue :=
    fun raw hraw hassigns => eq_keyLine_of_mem_outLines hraw hassigns
  rw [loadEnvFileIntoEnviron, readLines_persist h, dictGet_foldl_loadLine h hassigned hunset]
  simp [keyLine_mem_outLines]

end Frame

/-! ## What persisting a key promises -/

/-- The key is loaded with its value into an environment without it, and the file is the old text
with the lines for the key replaced, or with one line more. -/
structure TouchesOnlyKey (keyName keyValue text : String) : Prop where
  loads : ∀ environ, dictGet environ keyName = none →
    dictGet (loadEnvFileIntoEnviron (some (persistKeyToEnvFile keyName keyValue (some text)))
      environ).2 keyName = some keyValue
  frame : persistKeyToEnvFile keyName keyValue (some text) = expectedText keyName keyValue text

theorem persistable_key : Persistable "API_KEY" "sk-1" where
  key := by decide
  one_line := by decide
  no_blank_before := by decide
  no_blank_after := by decide
  no_quotes := by decide

end SchemaBrain.Setup
