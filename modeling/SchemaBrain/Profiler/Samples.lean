import Mathlib.Data.List.Forall2
import SchemaBrain.Base.Python
import SchemaBrain.Base.Substitution

/-!
# Sample values

Models `redact_pii` in `profiler/stats.py` and `PostgresProfiler._fetch_samples` in
`profiler/postgres.py`: the redaction of the sample values of a column and the width at which they
are shown. The rows of the `SELECT DISTINCT` statement are given.
-/

namespace SchemaBrain.Profiler

open SchemaBrain.Base

/-- `SAMPLE_TRUNCATE_AT`. -/
def sampleTruncateAt : Nat := 50

/-- `_SAMPLE_RAW_CAP`. -/
def sampleRawCap : Nat := 1000

/-- `body+`. -/
def plus (body : Regex) : Regex := .many true 1 none body

/-- `body{count}`. -/
def times (count : Nat) (body : Regex) : Regex := .many true count (some 0) body

def isLabelChar (c : Char) : Bool := c.isAlphanum || c = '-'

def isLocalChar (c : Char) : Bool := c.isAlphanum || c = '.' || c = '_' || c = '+' || c = '-'

/-- `_EMAIL_RE`. -/
def emailRe : Regex :=
  .sequence (plus (.seq (.char (· = '.')) (plus (.char isLabelChar))))
    [plus (.char isLocalChar), .char (· = '@'), plus (.char isLabelChar)]

def digit : Regex := .char Char.isDigit

/-- `_SSN_RE` between its lookarounds. -/
def ssnCore : Regex :=
  .sequence (times 4 digit) [times 3 digit, .char (· = '-'), times 2 digit, .char (· = '-')]

/-- `_SSN_RE`. -/
def ssnRe : Regex := .between Char.isDigit ssnCore

/-- `_CC_RE` between its lookarounds. -/
def ccCore : Regex :=
  .seq (.many true 12 (some 6)
      (.seq digit (.many true 0 (some 1) (.char fun c => c = ' ' || c = '-'))))
    digit

/-- `_CC_RE`. -/
def ccRe : Regex := .between Char.isDigit ccCore

/-- `redact_pii`. -/
def redactPii (value : String) : String :=
  ccRe.sub "<CC>" (ssnRe.sub "<SSN>" (emailRe.sub "<EMAIL>" value))

/-- `value[:width]`. -/
def firstChars (width : Nat) (value : String) : String :=
  String.ofList (value.toList.take width)

/-- `PostgresProfiler._fetch_samples` on the rows of its statement: the samples that are shown, and
the truncated values whose shapes are computed. -/
def fetchSamples (rows : List String) : List String × List String :=
  let capped := rows.map (firstChars sampleRawCap)
  (capped.map fun c => firstChars sampleTruncateAt (redactPii c),
    capped.map (firstChars sampleTruncateAt))

example : redactPii "a@b.co, 123-45-6789 or 4111 1111 1111 1111" = "<EMAIL>, <SSN> or <CC>" := by
  decide +kernel

/-! ## The patterns -/

section Patterns

open Regex

theorem solid_plus {body : Regex} {class' : Char → Bool} (hsolid : body.Solid)
    (hleads : body.Leads class') : (plus body).Solid :=
  ⟨hsolid, fun _ => hleads.ne_nil⟩

theorem leads_local : (plus (.char isLocalChar)).Leads isLocalChar :=
  (leads_char fun _ h => h).many true 0 none

theorem leads_label : (plus (.char isLabelChar)).Leads isLabelChar :=
  (leads_char fun _ h => h).many true 0 none

theorem leads_digit : digit.Leads Char.isDigit := leads_char fun _ h => h

theorem solid_digit : digit.Solid := trivial

theorem solid_email : emailRe.Solid := by
  have hlabel : (plus (.char isLabelChar)).Solid := solid_plus trivial (leads_char fun _ h => h)
  have hdot : Leads (· = '.') (.seq (.char (· = '.')) (plus (.char isLabelChar))) :=
    (leads_char fun _ h => h).seq
  exact ⟨solid_plus trivial (leads_char fun _ h => h), trivial, hlabel,
    solid_plus ⟨trivial, hlabel⟩ hdot⟩

theorem guarded_email : emailRe.Guarded emailRe.Accepts fun _ => false :=
  guarded_of_solid solid_email leads_local.seq

theorem at_mem_email {address : List Char} (h : emailRe.Accepts address) : '@' ∈ address := by
  obtain ⟨_, _, -, ⟨_, _, ⟨c, hc, rfl⟩, -, rfl⟩, rfl⟩ := h
  obtain rfl : c = '@' := of_decide_eq_true hc
  simp

theorem leads_ssn : ssnCore.Leads Char.isDigit := (leads_digit.many true 2 (some 0)).seq

theorem solid_ssn : ssnCore.Solid := by
  have hdigits : ∀ count, (times count digit).Solid := fun count =>
    ⟨solid_digit, fun _ => leads_digit.ne_nil⟩
  exact ⟨hdigits 3, trivial, hdigits 2, trivial, hdigits 4⟩

theorem guarded_ssn : ssnRe.Guarded ssnCore.Accepts Char.isDigit := by
  have hlast : digit.Trails Char.isDigit := trails_char fun _ h => h
  exact guarded_between solid_ssn leads_ssn (hlast.many true 3 (some 0)).seq.seq.seq.seq

theorem leads_cc : ccCore.Leads Char.isDigit := (leads_digit.seq.many true 11 (some 6)).seq

theorem solid_cc : ccCore.Solid := by
  have hseparator : (Regex.many true 0 (some 1) (.char fun c => c = ' ' || c = '-')).Solid :=
    ⟨trivial, fun _ => (leads_char fun _ h => h).ne_nil⟩
  exact ⟨⟨⟨solid_digit, hseparator⟩, fun _ => leads_digit.seq.ne_nil⟩, solid_digit⟩

theorem guarded_cc : ccRe.Guarded ccCore.Accepts Char.isDigit :=
  guarded_between solid_cc leads_cc (trails_char fun _ h => h).seq

/-- The brackets of a replacement are in no class of a pattern. -/
theorem brackets_of_mentions {pattern : Regex} {inside : List Char} {guard : Char → Bool}
    (hopening : pattern.mentions '<' = false) (hclosing : pattern.mentions '>' = false)
    (hinside : ∀ text, pattern.Accepts text → ∃ c ∈ text, c ∉ inside)
    (hguard : guard '<' = false ∧ guard '>' = false) :
    Brackets '<' '>' inside pattern.Accepts guard where
  opening_free text htext hmem := by
    rw [htext.mentions hmem] at hopening
    exact absurd hopening (by simp)
  closing_free text htext hmem := by
    rw [htext.mentions hmem] at hclosing
    exact absurd hclosing (by simp)
  inside_free := hinside
  opening_guard := hguard.1
  closing_guard := hguard.2

theorem brackets_email {inside : List Char} (h : '@' ∉ inside) :
    Brackets '<' '>' inside emailRe.Accepts fun _ => false :=
  brackets_of_mentions (by decide) (by decide) (fun _ htext => ⟨'@', at_mem_email htext, h⟩)
    ⟨rfl, rfl⟩

theorem brackets_digits {core : Regex} {inside : List Char} (hleads : core.Leads Char.isDigit)
    (hopening : core.mentions '<' = false) (hclosing : core.mentions '>' = false)
    (h : ∀ c ∈ inside, c.isDigit = false) : Brackets '<' '>' inside core.Accepts Char.isDigit :=
  brackets_of_mentions hopening hclosing (fun text htext => by
    obtain ⟨c, rest, rfl, hc⟩ := hleads text htext
    refine ⟨c, List.mem_cons_self, fun hmem => ?_⟩
    rw [h c hmem] at hc
    exact absurd hc (by simp)) ⟨rfl, rfl⟩

end Patterns

/-! ## The redaction -/

section Redaction

open Regex

/-- `redact_pii` on the characters of a value. -/
theorem toList_redactPii (value : String) :
    (redactPii value).toList =
      ccRe.subFrom ('<' :: "CC".toList ++ ['>']) none 0
        (ssnRe.subFrom ('<' :: "SSN".toList ++ ['>']) none 0
          (emailRe.subFrom ('<' :: "EMAIL".toList ++ ['>']) none 0 value.toList)) := by
  simp only [redactPii, sub, String.toList_ofList]
  rfl

/-- Each pass leaves no match of its pattern and makes none of the patterns before it. -/
theorem noMatch_redactPii (value : String) : emailRe.NoMatch none (redactPii value).toList ∧
    ssnRe.NoMatch none (redactPii value).toList ∧ ccRe.NoMatch none (redactPii value).toList := by
  have hssn : ∀ inside : List Char, (∀ c ∈ inside, c.isDigit = false) →
      Brackets '<' '>' inside ssnCore.Accepts Char.isDigit := fun inside =>
    brackets_digits leads_ssn (by decide) (by decide)
  rw [toList_redactPii]
  refine ⟨?_, ?_, ?_⟩
  · have hredacted : emailRe.NoMatch none
        (emailRe.subFrom ('<' :: "EMAIL".toList ++ ['>']) none 0 value.toList) :=
      guarded_email.noMatch_subFrom_self (brackets_email (by decide))
    exact (hredacted.subFrom guarded_ssn guarded_email (.inl fun _ => rfl)
      (brackets_email (by decide))).subFrom guarded_cc guarded_email (.inl fun _ => rfl)
        (brackets_email (by decide))
  · have hredacted : ssnRe.NoMatch none (ssnRe.subFrom ('<' :: "SSN".toList ++ ['>']) none 0
        (emailRe.subFrom ('<' :: "EMAIL".toList ++ ['>']) none 0 value.toList)) :=
      guarded_ssn.noMatch_subFrom_self (hssn _ (by decide))
    exact hredacted.subFrom guarded_cc guarded_ssn (.inr rfl) (hssn _ (by decide))
  · exact guarded_cc.noMatch_subFrom_self
      (brackets_digits leads_cc (by decide) (by decide) (by decide))

theorem search_redactPii (value : String) : emailRe.search (redactPii value) = false ∧
    ssnRe.search (redactPii value) = false ∧ ccRe.search (redactPii value) = false := by
  obtain ⟨hemail, hssn, hcc⟩ := noMatch_redactPii value
  exact ⟨searchFrom_eq_false.2 hemail, searchFrom_eq_false.2 hssn, searchFrom_eq_false.2 hcc⟩

theorem redactPii_redactPii (value : String) : redactPii (redactPii value) = redactPii value := by
  obtain ⟨hemail, hssn, hcc⟩ := noMatch_redactPii value
  refine String.toList_injective ?_
  rw [toList_redactPii, subFrom_of_noMatch hemail, subFrom_of_noMatch hssn, subFrom_of_noMatch hcc]

end Redaction

/-! ## The cap -/

section Cap

open Regex

/-- Neither in an SSN nor in a card number. -/
def Neutral (c : Char) : Prop := c.isDigit = false ∧ c ≠ ' ' ∧ c ≠ '-'

/-- No email address of a text begins before a place and goes on behind it. -/
def Apart (before after : List Char) : Prop :=
  ∀ done address back, before ++ after = done ++ address ++ back → emailRe.Accepts address →
    done.length < before.length → (done ++ address).length ≤ before.length

/-- The redaction of a value is settled within the cap: it has no more characters, or behind as
much redacted text as is shown stands a character that is in no SSN, in no card number and in no
email address that begins before it. -/
def Settled (value : String) : Prop :=
  value.length ≤ sampleRawCap ∨ ∃ before c after, value.toList = before ++ c :: after ∧
    before.length < sampleRawCap ∧ sampleTruncateAt ≤ (redactPii (String.ofList before)).length ∧
      Neutral c ∧ Apart before (c :: after)

theorem Neutral.not_mem_ssn {c : Char} (h : Neutral c) {text : List Char}
    (htext : ssnCore.Accepts text) : c ∉ text := by
  intro hmem
  have hmentions := htext.mentions hmem
  simp [ssnCore, Regex.sequence, Regex.mentions, times, digit, h.1, h.2.2] at hmentions

theorem Neutral.not_mem_cc {c : Char} (h : Neutral c) {text : List Char}
    (htext : ccCore.Accepts text) : c ∉ text := by
  intro hmem
  have hmentions := htext.mentions hmem
  simp [ccCore, Regex.mentions, digit, h.1, h.2.1, h.2.2] at hmentions

/-- Behind a pass the text begins with a neutral character where it did before. -/
theorem exists_neutral {pattern : Regex} {language : List Char → Prop} {guard : Char → Bool}
    {c : Char} (hguarded : pattern.Guarded language guard) (hc : Neutral c)
    (inside rest : List Char) (before : Option Char) :
    ∃ c' rest', Neutral c' ∧
      pattern.subFrom ('<' :: inside) before 0 (c :: rest) = c' :: rest' := by
  rcases hguarded.head?_subFrom before '<' c inside rest with h | h
  · obtain ⟨rest', h⟩ := List.head?_eq_some_iff.1 h
    exact ⟨c, rest', hc, h⟩
  · obtain ⟨rest', h⟩ := List.head?_eq_some_iff.1 h
    exact ⟨'<', rest', ⟨rfl, by decide, by decide⟩, h⟩

theorem email_append {before after : List Char} (hapart : Apart before after)
    (replacement : List Char) :
    emailRe.subFrom replacement none 0 (before ++ after) =
      emailRe.subFrom replacement none 0 before ++
        emailRe.subFrom replacement (before.getLast?.or none) 0 after := by
  refine guarded_email.subFrom_append (solid_email.isLocal _)
    fun done left hsplit hleft next hnext => ?_
  obtain ⟨address, haddress, ⟨hrest, -⟩, -⟩ := (guarded_email.mem_ends _ next).1 hnext
  dsimp only at hrest
  have hwhole : before ++ after = done ++ address ++ next.rest := by
    rw [hsplit, List.append_assoc, hrest, List.append_assoc]
  have hpos := List.length_pos_iff.2 hleft
  have hlength := hapart done address next.rest hwhole haddress
    (by rw [hsplit, List.length_append]; omega)
  rw [hsplit] at hlength
  have hrest := congrArg List.length hrest
  simp only [List.length_append] at hlength hrest
  omega

/-- Each pass splits at a neutral character, and leaves one there. -/
private theorem passes_append {before after : List Char} {c : Char} (hc : Neutral c)
    (hapart : Apart before (c :: after)) (email ssn cc : List Char) :
    ∃ back, ccRe.subFrom ('<' :: cc) none 0 (ssnRe.subFrom ('<' :: ssn) none 0
        (emailRe.subFrom ('<' :: email) none 0 (before ++ c :: after))) =
      ccRe.subFrom ('<' :: cc) none 0 (ssnRe.subFrom ('<' :: ssn) none 0
        (emailRe.subFrom ('<' :: email) none 0 before)) ++ back := by
  obtain ⟨c₁, after₁, hc₁, hemail⟩ :=
    exists_neutral guarded_email hc email after (before.getLast?.or none)
  rw [email_append hapart, hemail]
  generalize emailRe.subFrom ('<' :: email) none 0 before = before₁
  obtain ⟨c₂, after₂, hc₂, hssn⟩ :=
    exists_neutral guarded_ssn hc₁ ssn after₁ (before₁.getLast?.or none)
  rw [guarded_ssn.subFrom_append_cons (isLocal_between solid_ssn hc₁.1 after₁)
    (fun _ => hc₁.not_mem_ssn), hssn]
  generalize ssnRe.subFrom ('<' :: ssn) none 0 before₁ = before₂
  exact ⟨_, guarded_cc.subFrom_append_cons (isLocal_between solid_cc hc₂.1 after₂)
    (fun _ => hc₂.not_mem_cc)⟩

/-- What stands before a neutral character is redacted by itself. -/
theorem redactPii_append {before after : List Char} {c : Char} (hc : Neutral c)
    (hapart : Apart before (c :: after)) :
    ∃ back, (redactPii (String.ofList (before ++ c :: after))).toList =
      (redactPii (String.ofList before)).toList ++ back := by
  simp only [toList_redactPii, String.toList_ofList, List.cons_append]
  exact passes_append hc hapart _ _ _

theorem firstChars_of_length_le {width : Nat} {value : String} (h : value.length ≤ width) :
    firstChars width value = value := by
  rw [firstChars, List.take_of_length_le (by rwa [String.length_toList]), String.ofList_toList]

/-- An email address that reaches a place in the first characters does so in the whole. -/
theorem Apart.take {before after : List Char} (h : Apart before after) (n : Nat) :
    Apart before (after.take n) := by
  intro done address back hsplit
  refine h done address (back ++ after.drop n) ?_
  rw [← List.append_assoc, ← hsplit, List.append_assoc, List.take_append_drop]

/-- What is shown of a value is shown of all values that it begins. -/
private theorem firstChars_eq {width : Nat} {value text : String} {back : List Char}
    (h : value.toList = text.toList ++ back) (hlength : width ≤ text.length) :
    firstChars width value = firstChars width text := by
  rw [firstChars, firstChars, h, List.take_append_of_le_length (by rwa [String.length_toList])]

private theorem firstChars_split {width : Nat} {value : String} {before after : List Char}
    {c : Char} (hvalue : value.toList = before ++ c :: after) (hbefore : before.length < width) :
    ∃ n, firstChars width value = String.ofList (before ++ c :: after.take n) := by
  obtain ⟨n, rfl⟩ := Nat.exists_eq_add_of_lt hbefore
  refine ⟨n, ?_⟩
  rw [firstChars, hvalue, Nat.add_assoc, List.take_length_add_append, List.take_succ_cons]

/-- The redaction of a settled value and that of its first characters are shown alike. -/
theorem Settled.firstChars_redactPii {value : String} (h : Settled value) :
    firstChars sampleTruncateAt (redactPii (firstChars sampleRawCap value)) =
      firstChars sampleTruncateAt (redactPii value) := by
  rcases h with hshort | ⟨before, c, after, hvalue, hbefore, hshown, hc, hapart⟩
  · rw [firstChars_of_length_le hshort]
  · obtain ⟨n, hfirst⟩ := firstChars_split hvalue hbefore
    obtain ⟨back, hwhole⟩ := redactPii_append hc hapart
    obtain ⟨back', hcapped⟩ := redactPii_append hc (hapart.take (n + 1))
    rw [← hvalue, String.ofList_toList] at hwhole
    rw [hfirst, firstChars_eq hwhole hshown]
    exact firstChars_eq hcapped hshown

/-- Every value is redacted for good, and what is shown is the redaction of its first characters:
that of the whole value where that is settled within the cap. -/
theorem fetchSamples_redacted (rows : List String) :
    (∀ value, redactPii (redactPii value) = redactPii value ∧
      emailRe.search (redactPii value) = false ∧ ssnRe.search (redactPii value) = false ∧
        ccRe.search (redactPii value) = false) ∧
    List.Forall₂ (fun value sample =>
      sample = firstChars sampleTruncateAt (redactPii (firstChars sampleRawCap value)) ∧
        (Settled value → sample = firstChars sampleTruncateAt (redactPii value)))
      rows (fetchSamples rows).1 := by
  refine ⟨fun value => ⟨redactPii_redactPii value, search_redactPii value⟩, ?_⟩
  rw [fetchSamples, List.map_map, List.forall₂_map_right_iff, List.forall₂_same]
  exact fun value _ => ⟨rfl, Settled.firstChars_redactPii⟩

/-- An email address that the cap cuts. -/
def longAddress : String := String.ofList (List.replicate sampleRawCap 'a' ++ "@x.com".toList)

private theorem accepts_plus {class' : Char → Bool} {text : List Char} (hne : text ≠ [])
    (h : ∀ c ∈ text, class' c = true) : (plus (.char class')).Accepts text := by
  refine ⟨text.map fun c => [c], ?_, ?_, by simp, ?_⟩
  · simpa [Accepts] using h
  · rw [List.length_map]
    exact List.length_pos_iff.2 hne
  · rw [← List.flatMap_def, List.flatMap_singleton']

private theorem accepts_longAddress : emailRe.Accepts longAddress.toList := by
  rw [longAddress, String.toList_ofList]
  have hlocal : (plus (.char isLocalChar)).Accepts (List.replicate sampleRawCap 'a') := by
    refine accepts_plus ?_ fun c hc => ?_
    · exact List.ne_nil_of_length_pos (by rw [List.length_replicate]; decide)
    · rw [List.eq_of_mem_replicate hc]
      decide
  have hdots : (plus (.seq (.char (· = '.')) (plus (.char isLabelChar)))).Accepts ".com".toList :=
    ⟨[".com".toList], by
      simp only [List.mem_singleton, forall_eq]
      exact ⟨['.'], "com".toList, ⟨'.', rfl, rfl⟩, accepts_plus (by decide) (by decide), rfl⟩,
      Nat.le_refl _, by simp, rfl⟩
  exact ⟨_, _, hlocal, ⟨['@'], _, ⟨'@', rfl, rfl⟩,
    ⟨['x'], _, accepts_plus (by decide) (by decide), hdots, rfl⟩, rfl⟩, rfl⟩

/-- A bracket at the front of a value stays there. -/
private theorem head?_passes {ssn cc text : List Char} (h : text.head? = some '<') :
    (ccRe.subFrom ('<' :: cc) none 0 (ssnRe.subFrom ('<' :: ssn) none 0 text)).head? =
      some '<' := by
  obtain ⟨rest, rfl⟩ := List.head?_eq_some_iff.1 h
  obtain ⟨rest', h'⟩ :=
    List.head?_eq_some_iff.1 (or_self_iff.1 (guarded_ssn.head?_subFrom none '<' '<' ssn rest))
  rw [h']
  exact or_self_iff.1 (guarded_cc.head?_subFrom none '<' '<' cc rest')

private theorem head?_redactPii {value : String} (h : emailRe.Accepts value.toList) :
    (redactPii value).toList.head? = some '<' := by
  rw [toList_redactPii]
  refine head?_passes ?_
  have hmatch : (⟨value.toList.getLast?.or none, []⟩ : Place) ∈
      emailRe.ends ⟨none, value.toList⟩ :=
    (mem_ends_iff solid_email).2 ⟨_, h, (List.append_nil _).symm, rfl⟩
  cases hvalue : value.toList with
  | nil => exact absurd hvalue (leads_local.seq.ne_nil h)
  | cons c rest =>
    rw [hvalue] at hmatch
    obtain ⟨next, others, hends⟩ := List.exists_cons_of_ne_nil (List.ne_nil_of_mem hmatch)
    rw [guarded_email.subFrom_match hends]
    rfl

/-- Without an at sign and digits nothing is redacted. -/
private theorem redactPii_of_free {value : String} (hat : '@' ∉ value.toList)
    (hdigit : ∀ c ∈ value.toList, c.isDigit = false) : redactPii value = value := by
  have hfree : ∀ core : Regex, core.Leads Char.isDigit →
      ∀ matched, core.Accepts matched → ∃ c ∈ matched, c ∉ value.toList := by
    intro core hleads matched hmatched
    obtain ⟨c, rest, rfl, hc⟩ := hleads matched hmatched
    refine ⟨c, List.mem_cons_self, fun hmem => ?_⟩
    rw [hdigit c hmem] at hc
    exact absurd hc (by simp)
  refine String.toList_injective ?_
  rw [toList_redactPii,
    subFrom_of_noMatch (guarded_email.noMatch fun _ h => ⟨'@', at_mem_email h, hat⟩),
    subFrom_of_noMatch (guarded_ssn.noMatch (hfree _ leads_ssn)),
    subFrom_of_noMatch (guarded_cc.noMatch (hfree _ leads_cc))]

private theorem firstChars_longAddress :
    firstChars sampleRawCap longAddress = String.ofList (List.replicate sampleRawCap 'a') := by
  rw [firstChars, longAddress, String.toList_ofList, List.take_left' (List.length_replicate)]

/-- The whole value is redacted; its first characters are not, and are shown. -/
theorem not_sample_of_whole : ¬ ∀ rows, (fetchSamples rows).1 =
    rows.map fun value => firstChars sampleTruncateAt (redactPii value) := by
  intro h
  have hsample : firstChars sampleTruncateAt (redactPii (firstChars sampleRawCap longAddress)) =
      firstChars sampleTruncateAt (redactPii longAddress) :=
    (List.cons.inj (h [longAddress])).1
  have hkept : ∀ c ∈ (String.ofList (List.replicate sampleRawCap 'a')).toList, c = 'a' := by
    intro c hc
    rw [String.toList_ofList] at hc
    exact List.eq_of_mem_replicate hc
  rw [firstChars_longAddress, redactPii_of_free (fun hat => absurd (hkept _ hat) (by decide))
    fun c hc => by rw [hkept c hc]; rfl] at hsample
  obtain ⟨rest, hrest⟩ := List.head?_eq_some_iff.1 (head?_redactPii accepts_longAddress)
  have hhead := congrArg (fun value : String => value.toList.head?) hsample
  simp only [firstChars, String.toList_ofList, hrest, List.head?_take] at hhead
  have hnonempty : (List.replicate sampleRawCap 'a').head? = some 'a' := rfl
  simp [sampleTruncateAt, hnonempty] at hhead

end Cap

end SchemaBrain.Profiler
