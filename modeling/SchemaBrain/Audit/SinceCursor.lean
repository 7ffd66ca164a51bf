import SchemaBrain.Audit.ForensicWalk
import SchemaBrain.Base.Datetime

/-!
# Walks since a cursor

`resolve_since_cursor` and `parse_since` from `observability/tail.py`. A duration or a
timestamp becomes a threshold; the cursor is the row with the largest id among those whose
timestamp text is below the threshold's, and the walk starts after it.
-/

namespace SchemaBrain.Audit

open SchemaBrain.Base

/-! ## The `--since` spec -/

/-- What a spec fails with. -/
inductive SinceError
  /-- `SinceCursorError`. -/
  | cursor (message : String)
  | valueError (message : String)
  /-- A date outside the years 1 to 9999. -/
  | overflowError (message : String)
  deriving DecidableEq, Repr

/-- The keyword of `timedelta` for each duration unit. -/
inductive DurationUnit
  | seconds
  | minutes
  | hours
  | days
  deriving DecidableEq, Repr

/-- What `datetime.fromisoformat` returns: a datetime without a zone, or one that
`astimezone(UTC)` converts. -/
inductive IsoDatetime
  | naive
  | aware (astimezone : Except SinceError UtcDatetime)

/-- The functions of `re` and `datetime` behind `parse_since`. -/
structure DatetimeLibrary where
  /-- The value of a character of the class `\d`. -/
  decimal : Char → Option Nat
  /-- `now - timedelta(unit=amount)`. -/
  minus : UtcDatetime → Nat → DurationUnit → Except SinceError UtcDatetime
  /-- `datetime.fromisoformat`; `none` is its `ValueError`. -/
  fromisoformat : String → Option IsoDatetime

/-- The unit letters of a duration. -/
def durationUnit : Char → Option DurationUnit
  | 's' => some .seconds
  | 'm' => some .minutes
  | 'h' => some .hours
  | 'd' => some .days
  | _ => none

/-- `int` of a non-empty run of `\d`. -/
def digitsValue (lib : DatetimeLibrary) (digits : List Char) : Option Nat :=
  if digits = [] then none
  else (digits.mapM lib.decimal).map fun ds => ds.foldl (fun n d => 10 * n + d) 0

/-- `_DURATION_RE.match`: `$` also stands before a final newline. -/
def matchDuration (lib : DatetimeLibrary) (text : String) : Option (Nat × DurationUnit) :=
  let chars := text.toList
  let chars := if chars.getLast? = some '\n' then chars.dropLast else chars
  match chars.getLast? with
  | none => none
  | some letter => do
    let unit ← durationUnit letter
    let amount ← digitsValue lib chars.dropLast
    return (amount, unit)

/-- `parse_since`. -/
def parseSince (lib : DatetimeLibrary) (now : UtcDatetime) (text : String) :
    Except SinceError UtcDatetime :=
  match matchDuration lib text with
  | some (amount, unit) => lib.minus now amount unit
  | none =>
    let iso := if text.toList.getLast? = some 'Z' then
        String.ofList text.toList.dropLast ++ "+00:00"
      else text
    match lib.fromisoformat iso with
    | none => .error (.valueError ("could not parse --since " ++ pyRepr text ++
        ": expected duration like '5m' or ISO 8601 like '2026-05-17T10:00:00Z'"))
    | some .naive => .error (.valueError ("--since " ++ pyRepr text ++
        ": ISO 8601 timestamp must include a timezone (e.g. trailing 'Z' or '+00:00')"))
    | some (.aware utc) => utc

/-! ## The cursor -/

/-- `is_hex_prefix`: at least eight lowercase hex digits and nothing else. -/
def isHexPrefix (since : String) : Bool :=
  8 ≤ since.length && since.toList.all fun c => "0123456789abcdef".toList.contains c

/-- `lower(hex(value))`. SQLite takes the bytes of the value's text, which for a real
`realText` gives. -/
def sqlHex (realText : UInt64 → String) : SqlValue → List Char
  | .null => []
  | .integer i => hexChars (encodeUtf8 (toString i))
  | .real bits => hexChars (encodeUtf8 (realText bits))
  | .text s => hexChars (encodeUtf8 s)
  | .blob b => hexChars b

/-- `lower(hex(chain_hash)) GLOB since || '*'` for a pattern of hex digits. -/
def chainHashStartsWith (realText : UInt64 → String) (since : String) (row : StoredRow) : Bool :=
  since.toList.isPrefixOf (sqlHex realText row.chainHash)

/-- `occurred_at < ?`: text compares by code points, a BLOB is above every text. -/
def occurredBefore (threshold : String) (row : StoredRow) : Bool :=
  match row.occurredAt with
  | .text s => s < threshold
  | _ => false

section Cursor

variable (lib : DatetimeLibrary) (realText : UInt64 → String)

/-- `resolve_since_cursor` over a table listed by ascending id. -/
def resolveSinceCursor (table : List StoredRow) (now : UtcDatetime) (since : String) :
    Except SinceError Int :=
  if isHexPrefix since then
    match table.filter (chainHashStartsWith realText since) with
    | [] => .error (.cursor ("--since " ++ pyRepr since ++
        ": no audit row has a chain_hash starting with that prefix"))
    | [row] => .ok row.id
    | row :: row' :: _ => .error (.cursor ("--since " ++ pyRepr since ++
        ": prefix matches multiple audit rows (ids " ++ toString row.id ++ ", " ++
        toString row'.id ++ ", ...); pass more characters to disambiguate"))
  else do
    let threshold ← parseSince lib now since
    let thresholdIso := threshold.isoText
    match (table.filter (occurredBefore thresholdIso)).getLast? with
    | none => .error (.cursor ("--since " ++ pyRepr since ++
        ": no audit row precedes that threshold (" ++ thresholdIso ++
        "); cannot anchor the verification walk"))
    | some row => .ok row.id

end Cursor

/-! ## Tables whose rows a clock stamped -/

/-- The clock that stamps a call shows some datetime, not always a later one than before. -/
def stampedByClock (_ : System) : Action → Prop
  | .readMaxId _ _ occurredAt => ∃ t : UtcDatetime, occurredAt = t.isoText
  | _ => True

/-- The row carries the text of this datetime. -/
def StoredRow.OccurredAt (row : StoredRow) (t : UtcDatetime) : Prop :=
  row.occurredAt = .text t.isoText

/-- What a writer is about to store carries the text of a datetime. -/
def Pc.Stamped : Pc → Prop
  | .read _ occurredAt _ => ∃ t : UtcDatetime, occurredAt = t.isoText
  | .computed row _ => ∃ t, row.OccurredAt t
  | _ => True

/-- Every row, stored or on its way, carries the text of a datetime. -/
structure Stamped (s : System) : Prop where
  rows : ∀ row ∈ s.table, ∃ t, row.OccurredAt t
  pcs : ∀ w writer, s.writers w = some writer → writer.pc.Stamped

private theorem stamped_setWriter {s : System} (h : Stamped s) (w : Nat)
    {v : Option AuditWriter} (hv : ∀ writer, v = some writer → writer.pc.Stamped) :
    Stamped (s.setWriter w v) where
  rows := h.rows
  pcs := by
    intro w' writer hw'
    by_cases hsame : w' = w
    · subst hsame
      rw [System.setWriter_self] at hw'
      exact hv writer hw'
    · rw [System.setWriter_of_ne s v hsame] at hw'
      exact h.pcs w' writer hw'

private theorem stamped_setPc {s : System} (h : Stamped s) (w : Nat) {tail : Bytes} {pc : Pc}
    (hpc : pc.Stamped) : Stamped (s.setWriter w (some ⟨tail, pc⟩)) := by
  apply stamped_setWriter h
  intro writer hwriter
  rw [← Option.some.inj hwriter]
  exact hpc

/-- A step that stamps by a clock keeps every row stamped. -/
theorem stamped_step {H : HashFn} {s s' : System} {a : Action} (h : Stamped s)
    (hclock : stampedByClock s a) (hstep : step H s a = some s') : Stamped s' := by
  cases a with
  | openWriter w =>
    simp only [step] at hstep
    split at hstep
    · rw [← Option.some.inj hstep]
      exact stamped_setPc h w trivial
    · simp at hstep
  | exit w =>
    rw [← Option.some.inj hstep]
    exact stamped_setWriter h w (by simp)
  | readMaxId w draft occurredAt =>
    simp only [step] at hstep
    split at hstep
    · rw [← Option.some.inj hstep]
      exact stamped_setPc h w hclock
    · simp at hstep
  | compute w =>
    simp only [step] at hstep
    split at hstep
    · next tail draft occurredAt nextId hw =>
      obtain ⟨t, ht⟩ := h.pcs w _ hw
      split at hstep
      · rw [← Option.some.inj hstep]
        refine stamped_setPc h w ⟨t, ?_⟩
        rw [StoredRow.OccurredAt, writeRow, ht]
      · rw [← Option.some.inj hstep]
        exact stamped_setPc h w trivial
    · simp at hstep
  | insert w =>
    simp only [step] at hstep
    split at hstep
    · next tail row chainHash hw =>
      have hrow := h.pcs w _ hw
      split at hstep
      · next table hinsert =>
        rw [← Option.some.inj hstep]
        constructor
        · intro r hr
          unfold insertRow at hinsert
          split at hinsert
          · simp at hinsert
          · rw [← Option.some.inj hinsert] at hr
            rcases (List.mem_orderedInsert _).mp hr with rfl | hr
            · exact hrow
            · exact h.rows r hr
        · have hinserted : (Pc.inserted row chainHash).Stamped := trivial
          exact (stamped_setPc h w hinserted).pcs
      · rw [← Option.some.inj hstep]
        exact stamped_setPc h w trivial
    · simp at hstep
  | refuse w =>
    simp only [step] at hstep
    split at hstep
    · rw [← Option.some.inj hstep]
      exact stamped_setPc h w trivial
    · simp at hstep
  | finish w =>
    simp only [step] at hstep
    split at hstep
    · rw [← Option.some.inj hstep]
      have hidle : Pc.idle.Stamped := trivial
      exact ⟨h.rows, (stamped_setPc h w hidle).pcs⟩
    · simp at hstep

/-- A table that calls stamped by a clock have written is numbered and stamped. -/
theorem stamped_of_reaches {H : HashFn} {s : System}
    (h : Reaches (step H) stampedByClock freshSystem s) : Numbered s.table ∧ Stamped s := by
  have hboth : Inv H s ∧ Stamped s :=
    Reaches.invariant (step H) (I := fun s => Inv H s ∧ Stamped s)
      ⟨inv_freshSystem H, by simp [freshSystem], by simp [freshSystem]⟩
      (fun hI hclock hstep => ⟨inv_step hI.1 hstep, stamped_step hI.2 hclock hstep⟩) h
  exact ⟨hboth.1.numbered, hboth.2⟩

/-! ## What a walk after a cursor verifies -/

theorem Numbered.id_getElem {table : List StoredRow} (h : Numbered table) (i : Nat)
    (hi : i < table.length) : table[i].id = i + 1 := by
  have hget : (table.map StoredRow.id)[i]? = some ((i : Int) + 1) := by
    rw [h]
    simp [hi]
  simpa [hi] using hget

/-- Each id of a numbered table is one more than the id before it. -/
theorem Numbered.isChain {table : List StoredRow} (h : Numbered table) :
    table.IsChain fun row row' => row'.id = row.id + 1 := by
  rw [List.isChain_iff_getElem]
  intro i hi
  rw [h.id_getElem, h.id_getElem]
  rfl

theorem Numbered.pairwise {table : List StoredRow} (h : Numbered table) :
    table.Pairwise fun row row' => row.id < row'.id := by
  rw [List.pairwise_iff_getElem]
  intro i j hi hj hij
  rw [h.id_getElem, h.id_getElem]
  omega

theorem Numbered.eq_of_id {table : List StoredRow} (h : Numbered table) {row row' : StoredRow}
    (hrow : row ∈ table) (hrow' : row' ∈ table) (hid : row.id = row'.id) : row = row' := by
  obtain ⟨i, hi, rfl⟩ := List.getElem_of_mem hrow
  obtain ⟨j, hj, rfl⟩ := List.getElem_of_mem hrow'
  rw [h.id_getElem, h.id_getElem] at hid
  obtain rfl : i = j := by omega
  rfl

/-- The last row of a selection has its largest id. -/
theorem Numbered.le_getLast {table : List StoredRow} (h : Numbered table)
    (p : StoredRow → Bool) {row last : StoredRow} (hlast : (table.filter p).getLast? = some last)
    (hrow : row ∈ table.filter p) : row.id ≤ last.id := by
  obtain ⟨front, hfront⟩ := List.getLast?_eq_some_iff.mp hlast
  have hpairwise := h.pairwise.filter p
  rw [hfront, List.pairwise_append] at hpairwise
  rw [hfront, List.mem_append, List.mem_singleton] at hrow
  rcases hrow with hrow | rfl
  · have := hpairwise.2.2 row hrow last (List.mem_singleton_self last)
    omega
  · exact le_rfl

/-- A numbered table around one of its rows. -/
theorem Numbered.split {table : List StoredRow} (h : Numbered table) {c : Int}
    {anchor : StoredRow} (hanchor : table.find? (·.id = c) = some anchor) :
    ∃ before, table = before ++ anchor :: table.filter (·.id > c) := by
  rw [List.find?_eq_some_iff_append] at hanchor
  obtain ⟨hid, before, after, rfl, -⟩ := hanchor
  obtain rfl : anchor.id = c := by simpa using hid
  have hpairwise := h.pairwise
  rw [List.pairwise_append, List.pairwise_cons] at hpairwise
  obtain ⟨-, ⟨hafter, -⟩, hbefore⟩ := hpairwise
  refine ⟨before, ?_⟩
  rw [List.filter_append, List.filter_cons_of_neg (by simp)]
  have hnone : before.filter (·.id > anchor.id) = [] := by
    rw [List.filter_eq_nil_iff]
    intro row hrow
    have := hbefore row hrow anchor List.mem_cons_self
    simp only [gt_iff_lt, decide_eq_true_eq]
    omega
  have hall : after.filter (·.id > anchor.id) = after := by
    rw [List.filter_eq_self]
    intro row hrow
    simpa using hafter row hrow
  rw [hnone, hall, List.nil_append]

/-- A clean walk has recomputed its first row, and goes on from the stored hash. -/
theorem walkRows_clean_cons {H : HashFn} {full : Bool} {prevChain : Bytes} {row : StoredRow}
    {rest : List StoredRow} (h : (walkRows H full prevChain (row :: rest)).clean) :
    isBroken H (some prevChain) row = false ∧
      ∃ actualChain, pyBytes row.chainHash = .ok actualChain ∧
        (walkRows H full actualChain rest).clean := by
  unfold walkRows at h
  split at h
  · simp [WalkResult.clean] at h
  · next actualChain hactual =>
    split at h
    · cases full <;> simp [WalkResult.clean, yieldFirst] at h
    · simp [WalkResult.clean] at h
    · next canonical hcanonical =>
      unfold computeChainHash at h
      split at h
      · simp [WalkResult.clean] at h
      · next expectedChain hexpected =>
        split at h
        · cases full <;> simp [WalkResult.clean, yieldFirst] at h
        · next heq =>
          split at hexpected
          · simp at hexpected
          · rw [Except.ok.injEq] at hexpected
            refine ⟨?_, actualChain, hactual, h⟩
            simp [isBroken, hcanonical, storedHash, hactual, Except.toOption, hexpected, heq]

/-- A clean walk recomputed every row from the stored hash of the row before it. -/
theorem not_broken_of_clean {H : HashFn} {full : Bool} {prevChain : Bytes} {anchor : StoredRow}
    {rows : List StoredRow} (hanchor : pyBytes anchor.chainHash = .ok prevChain)
    (hids : (anchor :: rows).IsChain fun row row' => row'.id = row.id + 1)
    (hclean : (walkRows H full prevChain rows).clean) {row : StoredRow} (hrow : row ∈ rows) :
    ∃ prev ∈ anchor :: rows, prev.id + 1 = row.id ∧
      isBroken H (storedHash prev) row = false := by
  induction rows generalizing anchor prevChain with
  | nil => simp at hrow
  | cons head rest ih =>
    rw [List.isChain_cons_cons] at hids
    obtain ⟨hhead, actualChain, hactual, hrest⟩ := walkRows_clean_cons hclean
    rcases List.mem_cons.mp hrow with rfl | hrow
    · refine ⟨anchor, List.mem_cons_self, hids.1.symm, ?_⟩
      rwa [storedHash, hanchor]
    · obtain ⟨prev, hprev, hid, hbroken⟩ := ih hactual hids.2 hrest hrow
      exact ⟨prev, List.mem_cons_of_mem _ hprev, hid, hbroken⟩

/-! ## The window of a spec -/

/-- The row occurred at or after the threshold. -/
def AtOrAfter (threshold : UtcDatetime) (row : StoredRow) : Prop :=
  ∃ t, row.OccurredAt t ∧ threshold ≤ t

/-- The row occurred before the threshold. -/
def Before (threshold : UtcDatetime) (row : StoredRow) : Prop :=
  ∃ t, row.OccurredAt t ∧ t < threshold

/-- Every row at or after the threshold comes after the cursor, and a clean walk from there
has recomputed it from the stored hash of the row before it. -/
def CoversWindow (H : HashFn) (table : List StoredRow) (threshold : UtcDatetime) (c : Int) :
    Prop :=
  ∀ row ∈ table, AtOrAfter threshold row → c < row.id ∧
    ∀ full, (walkChain H table full (some c)).clean →
      ∃ prev ∈ table, prev.id + 1 = row.id ∧ isBroken H (storedHash prev) row = false

/-- No row from before the threshold follows one at or after it. A spec that reads as a hash
prefix has its only match in place of the rows before the threshold. -/
def WindowFollows (realText : UInt64 → String) (table : List StoredRow) (since : String)
    (threshold : UtcDatetime) : Prop :=
  ∀ row ∈ table, ∀ row' ∈ table, AtOrAfter threshold row' →
    (if isHexPrefix since then table.filter (chainHashStartsWith realText since) = [row]
      else Before threshold row) →
    row.id < row'.id

/-- On stamped rows the text comparison is that of the datetimes. -/
theorem occurredBefore_iff {threshold : UtcDatetime} {row : StoredRow} {t : UtcDatetime}
    (ht : row.OccurredAt t) : occurredBefore threshold.isoText row = true ↔ t < threshold := by
  rw [occurredBefore, ht]
  exact decide_eq_true_iff.trans UtcDatetime.isoText_lt_iff

/-- A walk after an id verifies every later row. -/
theorem coversWindow_iff_lt {H : HashFn} {table : List StoredRow} (h : Numbered table)
    {threshold : UtcDatetime} {anchor : StoredRow} (hanchor : anchor ∈ table) :
    CoversWindow H table threshold anchor.id ↔
      ∀ row ∈ table, AtOrAfter threshold row → anchor.id < row.id := by
  constructor
  · exact fun hcovers row hrow hat => (hcovers row hrow hat).1
  · intro hlt row hrow hat
    refine ⟨hlt row hrow hat, fun full hclean => ?_⟩
    have hfind : table.find? (·.id = anchor.id) = some anchor := by
      obtain ⟨first, hfirst⟩ : ∃ first, table.find? (·.id = anchor.id) = some first := by
        rw [← Option.isSome_iff_exists, List.find?_isSome]
        exact ⟨anchor, hanchor, by simp⟩
      rw [hfirst, h.eq_of_id (List.mem_of_find?_eq_some hfirst) hanchor
        (by simpa using List.find?_some hfirst)]
    obtain ⟨before, hsplit⟩ := h.split hfind
    simp only [walkChain, hfind] at hclean
    split at hclean
    · simp [WalkResult.clean] at hclean
    · next prevChain hprev =>
      have hids := h.isChain
      rw [hsplit, List.isChain_append] at hids
      obtain ⟨prev, hmem, hid, hbroken⟩ := not_broken_of_clean hprev hids.2.1 hclean
        (List.mem_filter.mpr ⟨hrow, by simpa using hlt row hrow hat⟩)
      refine ⟨prev, ?_, hid, hbroken⟩
      rw [hsplit]
      exact List.mem_append_right _ hmem

/-- The cursor of a spec covers the window of its threshold exactly when no row from before the
threshold follows one of the window. -/
theorem coversWindow_iff (H : HashFn) (lib : DatetimeLibrary) (realText : UInt64 → String)
    {s : System} (h : Reaches (step H) stampedByClock freshSystem s) {now : UtcDatetime}
    {since : String} {threshold : UtcDatetime}
    (hthreshold : parseSince lib now since = .ok threshold) :
    (∀ c, resolveSinceCursor lib realText s.table now since = .ok c →
        CoversWindow H s.table threshold c) ↔
      WindowFollows realText s.table since threshold := by
  obtain ⟨hnumbered, hstamped⟩ := stamped_of_reaches h
  unfold resolveSinceCursor WindowFollows
  split
  · next hhex =>
    constructor
    · intro hcovers row hrow row' hrow' hat honly
      rw [honly] at hcovers
      exact (coversWindow_iff_lt hnumbered hrow).mp (hcovers row.id rfl) row' hrow' hat
    · intro hfollows c hc
      split at hc
      · simp at hc
      · next row honly =>
        have hrow : row ∈ s.table := by
          have hmem : row ∈ s.table.filter (chainHashStartsWith realText since) := by
            rw [honly]
            exact List.mem_singleton_self row
          exact (List.mem_filter.mp hmem).1
        obtain rfl := Except.ok.inj hc
        rw [coversWindow_iff_lt hnumbered hrow]
        exact fun row' hrow' hat => hfollows row hrow row' hrow' hat honly
      · simp at hc
  · next htime =>
    rw [hthreshold]
    simp only [bind, Except.bind]
    constructor
    · intro hcovers row hrow row' hrow' hat hbefore
      obtain ⟨t, ht, hlt⟩ := hbefore
      have hmem := List.mem_filter.mpr ⟨hrow, (occurredBefore_iff ht).mpr hlt⟩
      obtain ⟨last, hlast⟩ : ∃ last,
          (s.table.filter (occurredBefore threshold.isoText)).getLast? = some last :=
        ⟨_, List.getLast?_eq_some_getLast (List.ne_nil_of_mem hmem)⟩
      have hle := hnumbered.le_getLast (occurredBefore threshold.isoText) hlast hmem
      rw [hlast] at hcovers
      have hlastmem := List.mem_filter.mp (List.mem_of_getLast? hlast)
      have := (coversWindow_iff_lt hnumbered hlastmem.1).mp (hcovers last.id rfl) row' hrow' hat
      omega
    · intro hfollows c hc
      split at hc
      · simp at hc
      · next last hlast =>
        obtain rfl := Except.ok.inj hc
        obtain ⟨hmem, hbefore⟩ := List.mem_filter.mp (List.mem_of_getLast? hlast)
        obtain ⟨t, ht⟩ := hstamped.rows last hmem
        rw [coversWindow_iff_lt hnumbered hmem]
        exact fun row' hrow' hat => hfollows last hmem row' hrow' hat
          ⟨t, ht, (occurredBefore_iff ht).mp hbefore⟩

/-! ## A clock that steps back -/

/-- Ten o'clock on a day of May 2026. -/
def tenOClock (day : Nat) (h : 1 ≤ day ∧ day ≤ 31) : UtcDatetime where
  year := 2026
  month := 5
  day := day
  hour := 10
  minute := 0
  second := 0
  microsecond := 0
  year_mem := by decide
  month_mem := by decide
  day_mem := h
  hour_lt := by decide
  minute_lt := by decide
  second_lt := by decide
  microsecond_lt := by decide

def may17 : UtcDatetime := tenOClock 17 (by decide)

def may18 : UtcDatetime := tenOClock 18 (by decide)

/-- The library on the spec of ten o'clock on 18 May. -/
def may18Library : DatetimeLibrary where
  decimal c := if c.isDigit then some (c.toNat - 48) else none
  minus _ _ _ := .error (.overflowError "date value out of range")
  fromisoformat s :=
    if s = "2026-05-18T10:00:00+00:00" then some (.aware (.ok may18)) else none

/-- A `write` call at a time. -/
def writeCallAt (t : UtcDatetime) : List Action :=
  [.readMaxId 0 quietDraft t.isoText, .compute 0, .insert 0, .finish 0]

/-- The clock shows one of the two times. -/
def stampedInMay (_ : System) : Action → Prop
  | .readMaxId _ _ occurredAt => occurredAt = may17.isoText ∨ occurredAt = may18.isoText
  | _ => True

instance (s : System) (a : Action) : Decidable (stampedInMay s a) := by
  cases a <;> unfold stampedInMay <;> infer_instance

private theorem exists_stampedInMay (times : List UtcDatetime) {P : System → Prop}
    [DecidablePred P]
    (htrace : (runTrace (guarded (step Sha256.digest) stampedInMay) freshSystem
      (.openWriter 0 :: times.flatMap writeCallAt)).map (fun s => decide (P s)) = some true) :
    ∃ s, Reaches (step Sha256.digest) stampedByClock freshSystem s ∧ P s := by
  obtain ⟨s, hs, hP⟩ := Reaches.exists_of_trace (step Sha256.digest) stampedInMay freshSystem _
    htrace
  refine ⟨s, Reaches.mono (step Sha256.digest) ?_ hs, hP⟩
  intro s a ha
  cases a with
  | readMaxId w draft occurredAt =>
    rcases ha with rfl | rfl
    · exact ⟨_, rfl⟩
    · exact ⟨_, rfl⟩
  | _ => trivial

/-- Calls on two days, in order, meet the condition for the second day. -/
theorem coversWindow_iff_may : ∃ s : System, s.table.length = 2 ∧
    ((∀ c, resolveSinceCursor may18Library (fun _ => "") s.table may18 "2026-05-18T10:00:00Z" =
      .ok c → CoversWindow Sha256.digest s.table may18 c) ↔
    WindowFollows (fun _ => "") s.table "2026-05-18T10:00:00Z" may18) := by
  obtain ⟨s, hs, hlength⟩ := exists_stampedInMay [may17, may18]
    (P := fun s => s.table.length = 2) (by decide)
  exact ⟨s, hlength, coversWindow_iff Sha256.digest may18Library _ hs (by decide)⟩

/-- Calls on 17, 18 and 17 May: the cursor for 18 May is the last row, after the row of the
window. -/
theorem not_coversWindow_stepBack :
    ¬ ∀ (s : System) (now : UtcDatetime) (since : String) (threshold : UtcDatetime) (c : Int),
      Reaches (step Sha256.digest) stampedByClock freshSystem s →
      parseSince may18Library now since = .ok threshold →
      resolveSinceCursor may18Library (fun _ => "") s.table now since = .ok c →
      CoversWindow Sha256.digest s.table threshold c := by
  intro hall
  obtain ⟨s, hs, hcursor, row, hrow, hday, hid⟩ :=
    exists_stampedInMay [may17, may18, may17] (P := fun s =>
      resolveSinceCursor may18Library (fun _ => "") s.table may18 "2026-05-18T10:00:00Z" =
          .ok 3 ∧
        ∃ row ∈ s.table, row.occurredAt = .text may18.isoText ∧ row.id = 2) (by decide)
  have hlt := (hall s may18 "2026-05-18T10:00:00Z" may18 3 hs (by decide) hcursor row hrow
    ⟨may18, hday, le_rfl⟩).1
  omega

end SchemaBrain.Audit
