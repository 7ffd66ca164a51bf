import SchemaBrain.Audit.Verify
import SchemaBrain.Base.Run

/-!
# Writers of the audit chain

`audit/writer.py` and `audit/fingerprint.py`. Any number of `AuditWriter` instances work
on one database file; the steps of their `write` calls interleave. Each reads the next
id from the table and the previous chain hash from its own memory.
-/

namespace SchemaBrain.Audit

open SchemaBrain.Base

/-! ## One write -/

/-- The per-call fields that `build_audit_row` hands to `write`. -/
structure Draft where
  sourceConnectionId : String
  callerId : Option String
  toolName : String
  status : String
  refusalReason : Option String
  costClass : String
  piiCategories : List String
  astShapeHash : Option Bytes
  ruleId : Option String
  fingerprintVersion : String
  anchorEntity : Option String
  deriving DecidableEq, Repr

/-- `FINGERPRINT_VERSION`. -/
def currentFingerprintVersion : String := "fp-v1"

/-- `_encode_pii_categories_csv`; the categories of a frozenset are distinct. -/
def encodePiiCategoriesCsv (categories : List String) : String :=
  ",".intercalate (pySorted categories)

/-- A JSON string or null. -/
def jsonOptStr : Option String → Json
  | none => .null
  | some s => .str s

/-- `compute_fingerprint` over the draft's structural fields. -/
def computeFingerprint (H : HashFn) (draft : Draft) : Bytes :=
  H (Json.dumpsBytes Json.escapeAscii (.obj [
    ("v", .str currentFingerprintVersion),
    ("ast", jsonOptStr (draft.astShapeHash.map hex)),
    ("pii", .arr ((pySorted draft.piiCategories).map .str)),
    ("reason", jsonOptStr draft.refusalReason),
    ("cost", .str draft.costClass),
    ("rule", jsonOptStr draft.ruleId)]))

/-- A text parameter bound to a TEXT column. -/
def bindText : Option String → TextCell
  | none => .null
  | some s => .text s

/-- A bytes parameter bound to a BLOB column. -/
def bindBytes : Option Bytes → SqlValue
  | none => .null
  | some b => .blob b

/-- The Python value of an optional string. -/
def optStr : Option String → PyValue
  | none => .none
  | some s => .str s

/-- The dict that `write` hands to `canonical_audit_row`. -/
def writeDict (H : HashFn) (draft : Draft) (occurredAt : String) (nextId : Int) : RowDict :=
  [("id", .int nextId), ("occurred_at", .str occurredAt),
    ("source_connection_id", .str draft.sourceConnectionId), ("caller_id", optStr draft.callerId),
    ("tool_name", .str draft.toolName), ("status", .str draft.status),
    ("refusal_reason", optStr draft.refusalReason), ("cost_class", .str draft.costClass),
    ("pii_categories", .str (encodePiiCategoriesCsv draft.piiCategories)),
    ("ast_shape_hash", (draft.astShapeHash.map PyValue.bytes).getD .none),
    ("rule_id", optStr draft.ruleId), ("fingerprint", .bytes (computeFingerprint H draft)),
    ("fingerprint_version", .str draft.fingerprintVersion)]

/-- The row that the INSERT binds. -/
def writeRow (H : HashFn) (draft : Draft) (occurredAt : String) (nextId : Int)
    (chainHash : Bytes) : StoredRow where
  id := nextId
  occurredAt := .text occurredAt
  sourceConnectionId := .text draft.sourceConnectionId
  callerId := bindText draft.callerId
  toolName := .text draft.toolName
  status := .text draft.status
  refusalReason := bindText draft.refusalReason
  costClass := .text draft.costClass
  piiCategories := .text (encodePiiCategoriesCsv draft.piiCategories)
  astShapeHash := bindBytes draft.astShapeHash
  ruleId := bindText draft.ruleId
  fingerprint := .blob (computeFingerprint H draft)
  fingerprintVersion := .text draft.fingerprintVersion
  chainHash := .blob chainHash
  anchorEntity := bindText draft.anchorEntity

/-- The chain hash that `write` computes from the cached tail. -/
def writeChainHash (H : HashFn) (lastChainHash : Bytes) (draft : Draft) (occurredAt : String)
    (nextId : Int) : Except PyError Bytes := do
  let canonical ← canonicalAuditRow (writeDict H draft occurredAt nextId)
  computeChainHash H lastChainHash canonical

/-- `SELECT max(id)`, then `(m or 0) + 1`. -/
def nextRowId (table : List StoredRow) : Int := (table.map StoredRow.id).max?.getD 0 + 1

/-- `_load_tail_chain_hash`: the last row's chain hash, or genesis for an empty table. -/
def loadTailChainHash (table : List StoredRow) : Except PyError Bytes :=
  match table.getLast? with
  | none => .ok genesisChainHash
  | some row => do
    let raw ← pyBytes row.chainHash
    if raw.length ≠ chainHashSize then
      .error (.valueError ("mcp_audit row " ++ toString row.id ++ " has corrupted chain_hash (" ++
        toString raw.length ++ " bytes; expected " ++ toString chainHashSize ++
        "). The chain is unrecoverable from this row; restore from backup or delete the store " ++
        "and re-index."))
    else .ok raw

/-- The values the `status` CHECK admits. -/
def allowedStatuses : List String :=
  ["success", "empty", "partial", "degraded", "error", "refused"]

/-- The values the `refusal_reason` CHECK admits. -/
def allowedRefusalReasons : List String :=
  ["pii_blocked", "allowlist_violation", "fragment_unsafe", "cost_cap_exceeded",
    "ambiguous_resolution", "schema_drift"]

/-- The values the `cost_class` CHECK admits. -/
def allowedCostClasses : List String := ["small", "medium", "large", "refused"]

/-- Membership of a text cell in an enumerated CHECK. -/
def TextCell.isOneOf (cell : TextCell) (allowed : List String) : Bool :=
  match cell with
  | .text s => allowed.contains s
  | _ => false

/-- The NOT NULL and CHECK constraints of the table. -/
def passesChecks (row : StoredRow) : Bool :=
  row.occurredAt ≠ .null && row.sourceConnectionId ≠ .null && row.toolName ≠ .null &&
    row.status.isOneOf allowedStatuses &&
    (row.refusalReason = .null || row.refusalReason.isOneOf allowedRefusalReasons) &&
    row.costClass.isOneOf allowedCostClasses && row.piiCategories ≠ .null &&
    row.fingerprint ≠ .null && row.fingerprintVersion ≠ .null && row.chainHash ≠ .null

/-- The INSERT: refused on a duplicate primary key or a failed constraint. The table is kept
in the order of ascending ids. -/
def insertRow (table : List StoredRow) (row : StoredRow) : Option (List StoredRow) :=
  if table.any (·.id = row.id) || !passesChecks row then none
  else some (table.orderedInsert (fun r r' => r.id ≤ r'.id) row)

/-! ## Interleaved writers -/

/-- Where a writer stands inside `write`. -/
inductive Pc
  | idle
  | read (draft : Draft) (occurredAt : String) (nextId : Int)
  | computed (row : StoredRow) (chainHash : Bytes)
  | inserted (row : StoredRow) (chainHash : Bytes)

/-- One `AuditWriter`: its cached tail and its place in the current call. -/
structure AuditWriter where
  lastChainHash : Bytes
  pc : Pc

/-- The table, the open writers by name, and the rows that calls have returned. -/
structure System where
  table : List StoredRow
  writers : Nat → Option AuditWriter
  returned : List StoredRow

/-- A new store that nobody has opened. -/
def freshSystem : System := ⟨[], fun _ => none, []⟩

/-- The steps of the writers. -/
inductive Action
  /-- `__init__`. -/
  | openWriter (w : Nat)
  /-- The process ends, at any point. -/
  | exit (w : Nat)
  /-- A call starts and reads the largest id. -/
  | readMaxId (w : Nat) (draft : Draft) (occurredAt : String)
  /-- Canonical bytes and chain hash from the cached tail. -/
  | compute (w : Nat)
  /-- INSERT and commit. -/
  | insert (w : Nat)
  /-- INSERT or commit refused by the database. -/
  | refuse (w : Nat)
  /-- The cached tail is updated and the call returns. -/
  | finish (w : Nat)

/-- The system with one writer's state replaced. -/
def System.setWriter (s : System) (w : Nat) (writer : Option AuditWriter) : System :=
  { s with writers := Function.update s.writers w writer }

/-- One step of one writer. -/
def step (H : HashFn) (s : System) : Action → Option System
  | .openWriter w =>
    match s.writers w, loadTailChainHash s.table with
    | none, .ok tail => some (s.setWriter w (some ⟨tail, .idle⟩))
    | _, _ => none
  | .exit w => some (s.setWriter w none)
  | .readMaxId w draft occurredAt =>
    match s.writers w with
    | some ⟨tail, .idle⟩ =>
      some (s.setWriter w (some ⟨tail, .read draft occurredAt (nextRowId s.table)⟩))
    | _ => none
  | .compute w =>
    match s.writers w with
    | some ⟨tail, .read draft occurredAt nextId⟩ =>
      match writeChainHash H tail draft occurredAt nextId with
      | .ok chainHash =>
        let row := writeRow H draft occurredAt nextId chainHash
        some (s.setWriter w (some ⟨tail, .computed row chainHash⟩))
      | .error _ => some (s.setWriter w (some ⟨tail, .idle⟩))
    | _ => none
  | .insert w =>
    match s.writers w with
    | some ⟨tail, .computed row chainHash⟩ =>
      match insertRow s.table row with
      | some table =>
        some { s.setWriter w (some ⟨tail, .inserted row chainHash⟩) with table := table }
      | none => some (s.setWriter w (some ⟨tail, .idle⟩))
    | _ => none
  | .refuse w =>
    match s.writers w with
    | some ⟨tail, .computed _ _⟩ => some (s.setWriter w (some ⟨tail, .idle⟩))
    | _ => none
  | .finish w =>
    match s.writers w with
    | some ⟨_, .inserted row chainHash⟩ =>
      some { s.setWriter w (some ⟨chainHash, .idle⟩) with returned := s.returned ++ [row] }
    | _ => none

/-- Every state any interleaving reaches. -/
def Reachable (H : HashFn) : System → Prop := Reaches (step H) (fun _ _ => True) freshSystem

/-! ## What a write computes -/

/-- Reading a written row back gives the dict it was hashed from. -/
theorem rowToCanonicalDict_writeRow (H : HashFn) (draft : Draft) (occurredAt : String)
    (nextId : Int) (chainHash : Bytes) :
    rowToCanonicalDict (writeRow H draft occurredAt nextId chainHash) =
      .ok (writeDict H draft occurredAt nextId) := by
  have htext : ∀ o, (bindText o).toPy = optStr o := by
    intro o
    cases o <;> rfl
  have hbytes : ∀ o, binaryValue (bindBytes o) = .ok ((o.map PyValue.bytes).getD .none) := by
    intro o
    cases o <;> rfl
  simp only [rowToCanonicalDict, writeRow, hbytes, canonicalDict, htext]
  rfl

/-- The written row is a chain entry that links to the cached tail. -/
theorem rowEntry_writeRow {H : HashFn} {lastChainHash chainHash : Bytes} {draft : Draft}
    {occurredAt : String} {nextId : Int}
    (h : writeChainHash H lastChainHash draft occurredAt nextId = .ok chainHash) :
    ∃ canonical, rowEntry (writeRow H draft occurredAt nextId chainHash) =
      .ok (canonical, chainHash) ∧ chainHash = chainLink H lastChainHash canonical := by
  obtain ⟨canonical, hcanonical, h⟩ := bind_eq_ok h
  refine ⟨canonical, ?_, ?_⟩
  · simp only [rowEntry, rowCanonical, rowToCanonicalDict_writeRow]
    simp [writeRow, pyBytes, bind, Except.bind, hcanonical, pure, Except.pure]
  · unfold computeChainHash at h
    split at h
    · simp at h
    · exact (Except.ok.inj h).symm

/-! ## The table of an interleaved run -/

/-- Ids run from one without gaps. -/
def Numbered (table : List StoredRow) : Prop :=
  table.map StoredRow.id = (List.range table.length).map fun i : Nat => (i : Int) + 1

theorem Numbered.mem_bounds {table : List StoredRow} (h : Numbered table) {row : StoredRow}
    (hrow : row ∈ table) : 1 ≤ row.id ∧ row.id ≤ table.length := by
  have hid : row.id ∈ table.map StoredRow.id := List.mem_map_of_mem hrow
  rw [h, List.mem_map] at hid
  obtain ⟨i, hi, hid⟩ := hid
  have := List.mem_range.mp hi
  omega

theorem Numbered.exists_id {table : List StoredRow} (h : Numbered table) {id : Int}
    (hlow : 1 ≤ id) (hhigh : id ≤ table.length) : ∃ row ∈ table, row.id = id := by
  have hid : id ∈ table.map StoredRow.id := by
    rw [h, List.mem_map]
    exact ⟨(id - 1).toNat, List.mem_range.mpr (by omega), by omega⟩
  obtain ⟨row, hrow, hrowid⟩ := List.mem_map.mp hid
  exact ⟨row, hrow, hrowid⟩

/-- The next id of a numbered table follows its last one. -/
theorem Numbered.nextRowId {table : List StoredRow} (h : Numbered table) :
    nextRowId table = table.length + 1 := by
  unfold Audit.nextRowId
  rw [h]
  cases hlen : table.length with
  | zero => rfl
  | succ n =>
    have hmax : ((List.range (n + 1)).map fun i : Nat => (i : Int) + 1).max? =
        some ((n : Int) + 1) := by
      rw [List.max?_eq_some_iff]
      constructor
      · exact List.mem_map.mpr ⟨n, List.mem_range.mpr (by omega), rfl⟩
      · intro b hb
        obtain ⟨i, hi, rfl⟩ := List.mem_map.mp hb
        have := List.mem_range.mp hi
        omega
    rw [hmax]
    simp

private theorem orderedInsert_last {table : List StoredRow} {row : StoredRow}
    (h : ∀ r ∈ table, r.id < row.id) :
    table.orderedInsert (fun r r' => r.id ≤ r'.id) row = table ++ [row] := by
  induction table with
  | nil => rfl
  | cons r table ih =>
    have hr := h r List.mem_cons_self
    rw [List.orderedInsert_cons, if_neg (by omega),
      ih fun r' hr' => h r' (List.mem_cons_of_mem r hr'), List.cons_append]

/-- A committed INSERT of a row numbered by `write` appends it with the next number. -/
theorem insertRow_append {table table' : List StoredRow} {row : StoredRow} (h : Numbered table)
    (hlow : 1 ≤ row.id) (hhigh : row.id ≤ table.length + 1)
    (hinsert : insertRow table row = some table') :
    table' = table ++ [row] ∧ row.id = table.length + 1 := by
  unfold insertRow at hinsert
  split at hinsert
  · simp at hinsert
  next hfree =>
  have hid : row.id = table.length + 1 := by
    by_contra hne
    obtain ⟨r, hr, hrid⟩ := h.exists_id hlow (by omega)
    apply hfree
    rw [Bool.or_eq_true, List.any_eq_true]
    exact .inl ⟨r, hr, by simpa using hrid⟩
  refine ⟨?_, hid⟩
  rw [← Option.some.inj hinsert, orderedInsert_last]
  intro r hr
  have := h.mem_bounds hr
  omega

theorem Numbered.append {table : List StoredRow} (h : Numbered table) {row : StoredRow}
    (hid : row.id = table.length + 1) : Numbered (table ++ [row]) := by
  unfold Numbered at h ⊢
  rw [List.map_append, h, List.length_append, List.length_singleton, List.range_succ,
    List.map_append]
  simp [hid]

/-- What a writer's place in its call says about the table. -/
def PcOk (H : HashFn) (s : System) (lastChainHash : Bytes) : Pc → Prop
  | .idle => True
  | .read _ _ nextId => 1 ≤ nextId ∧ nextId ≤ s.table.length + 1
  | .computed row chainHash =>
    1 ≤ row.id ∧ row.id ≤ s.table.length + 1 ∧
      ∃ canonical, rowEntry row = .ok (canonical, chainHash) ∧
        chainHash = chainLink H lastChainHash canonical
  | .inserted row chainHash =>
    row ∈ s.table ∧ row ∉ s.returned ∧ chainHash.length = chainHashSize

/-- The invariant of every interleaving. -/
structure Inv (H : HashFn) (s : System) : Prop where
  /-- Ids run from one without gaps. -/
  numbered : Numbered s.table
  /-- Each writer's place fits the table. -/
  pcs : ∀ w writer, s.writers w = some writer → PcOk H s writer.lastChainHash writer.pc
  /-- Cached tails are digests. -/
  tails : ∀ w writer, s.writers w = some writer → writer.lastChainHash.length = chainHashSize
  /-- No two writers are about to return one row. -/
  distinct : ∀ w w' row row' chainHash chainHash' tail tail', w ≠ w' →
    s.writers w = some ⟨tail, .inserted row chainHash⟩ →
    s.writers w' = some ⟨tail', .inserted row' chainHash'⟩ → row ≠ row'
  /-- Returned rows are stored. -/
  stored : ∀ row ∈ s.returned, row ∈ s.table
  /-- No row is returned twice. -/
  returnedOnce : s.returned.Nodup

@[simp] theorem System.setWriter_table (s : System) (w : Nat) (v : Option AuditWriter) :
    (s.setWriter w v).table = s.table := rfl

@[simp] theorem System.setWriter_returned (s : System) (w : Nat) (v : Option AuditWriter) :
    (s.setWriter w v).returned = s.returned := rfl

@[simp] theorem System.setWriter_self (s : System) (w : Nat) (v : Option AuditWriter) :
    (s.setWriter w v).writers w = v := by simp [System.setWriter]

theorem System.setWriter_of_ne (s : System) {w w' : Nat} (v : Option AuditWriter) (h : w' ≠ w) :
    (s.setWriter w v).writers w' = s.writers w' := by simp [System.setWriter, h]

/-- A writer that has not stored a row. -/
def Pc.unstored : Pc → Prop
  | .inserted _ _ => False
  | _ => True

private theorem inv_setWriter {H : HashFn} {s : System} (h : Inv H s) (w : Nat)
    (v : Option AuditWriter)
    (hv : ∀ writer, v = some writer → PcOk H s writer.lastChainHash writer.pc ∧
      writer.lastChainHash.length = chainHashSize ∧ writer.pc.unstored) :
    Inv H (s.setWriter w v) where
  numbered := h.numbered
  pcs := by
    intro w' writer hw'
    by_cases hne : w' = w
    · subst hne
      rw [System.setWriter_self] at hw'
      exact (hv writer hw').1
    · rw [System.setWriter_of_ne s v hne] at hw'
      exact h.pcs w' writer hw'
  tails := by
    intro w' writer hw'
    by_cases hne : w' = w
    · subst hne
      rw [System.setWriter_self] at hw'
      exact (hv writer hw').2.1
    · rw [System.setWriter_of_ne s v hne] at hw'
      exact h.tails w' writer hw'
  distinct := by
    intro w₁ w₂ row row' ch ch' tail tail' hne h₁ h₂
    have hother : ∀ {w' tail row ch},
        (s.setWriter w v).writers w' = some ⟨tail, .inserted row ch⟩ → w' ≠ w := by
      rintro w' tail row ch hw' rfl
      rw [System.setWriter_self] at hw'
      exact (hv _ hw').2.2
    rw [System.setWriter_of_ne s v (hother h₁)] at h₁
    rw [System.setWriter_of_ne s v (hother h₂)] at h₂
    exact h.distinct w₁ w₂ row row' ch ch' tail tail' hne h₁ h₂
  stored := h.stored
  returnedOnce := h.returnedOnce

private theorem pcOk_append {H : HashFn} {s s' : System} {new : StoredRow}
    (htable : s'.table = s.table ++ [new]) (hreturned : s'.returned = s.returned)
    {tail : Bytes} {pc : Pc} (h : PcOk H s tail pc) : PcOk H s' tail pc := by
  have hlen : s'.table.length = s.table.length + 1 := by simp [htable]
  cases pc with
  | idle => trivial
  | read draft occurredAt nextId =>
    obtain ⟨hlow, hhigh⟩ := h
    exact ⟨hlow, by omega⟩
  | computed row chainHash =>
    obtain ⟨hlow, hhigh, hentry⟩ := h
    exact ⟨hlow, by omega, hentry⟩
  | inserted row chainHash =>
    obtain ⟨hrow, hreturn, hwidth⟩ := h
    exact ⟨by simp [htable, hrow], by rwa [hreturned], hwidth⟩

private theorem inv_insert {H : HashFn} {s : System} (h : Inv H s) {w : Nat}
    {tail chainHash : Bytes} {row : StoredRow} {table : List StoredRow}
    (hw : s.writers w = some ⟨tail, .computed row chainHash⟩)
    (hinsert : insertRow s.table row = some table) :
    Inv H { s.setWriter w (some ⟨tail, .inserted row chainHash⟩) with table := table } := by
  obtain ⟨hlow, hhigh, canonical, hentry, hlink⟩ := h.pcs w _ hw
  have htail := h.tails w _ hw
  obtain ⟨rfl, hid⟩ := insertRow_append h.numbered hlow hhigh hinsert
  -- The new row's number is above every row of the old table.
  have hnew : ∀ r ∈ s.table, r ≠ row := by
    rintro r hr rfl
    have := h.numbered.mem_bounds hr
    omega
  have hold : ∀ {w' writer}, w' ≠ w →
      (s.setWriter w (some ⟨tail, .inserted row chainHash⟩)).writers w' = some writer →
      s.writers w' = some writer := by
    intro w' writer hne hw'
    rwa [System.setWriter_of_ne s _ hne] at hw'
  have hself : ∀ {writer}, (s.setWriter w (some ⟨tail, .inserted row chainHash⟩)).writers w =
      some writer → writer = ⟨tail, .inserted row chainHash⟩ := by
    intro writer hw'
    rw [System.setWriter_self] at hw'
    exact (Option.some.inj hw').symm
  constructor
  case numbered => exact h.numbered.append hid
  case pcs =>
    intro w' writer hw'
    by_cases hne : w' = w
    · subst hne
      rw [hself hw']
      refine ⟨by simp, fun hmem => hnew row (h.stored row hmem) rfl, ?_⟩
      rw [hlink]
      exact (H _).property
    · exact pcOk_append (by rfl) (by rfl) (h.pcs w' writer (hold hne hw'))
  case tails =>
    intro w' writer hw'
    by_cases hne : w' = w
    · subst hne
      rw [hself hw']
      exact htail
    · exact h.tails w' writer (hold hne hw')
  case distinct =>
    intro w₁ w₂ row₁ row₂ ch₁ ch₂ tail₁ tail₂ hne h₁ h₂
    by_cases hw₁ : w₁ = w
    · subst hw₁
      obtain ⟨-, hpc⟩ := AuditWriter.mk.inj (hself h₁)
      obtain ⟨rfl, -⟩ := Pc.inserted.inj hpc
      exact (hnew row₂ (h.pcs w₂ _ (hold (Ne.symm hne) h₂)).1).symm
    · by_cases hw₂ : w₂ = w
      · subst hw₂
        obtain ⟨-, hpc⟩ := AuditWriter.mk.inj (hself h₂)
        obtain ⟨rfl, -⟩ := Pc.inserted.inj hpc
        exact hnew row₁ (h.pcs w₁ _ (hold hw₁ h₁)).1
      · exact h.distinct w₁ w₂ row₁ row₂ ch₁ ch₂ tail₁ tail₂ hne (hold hw₁ h₁) (hold hw₂ h₂)
  case stored =>
    intro r hr
    exact List.mem_append_left _ (h.stored r hr)
  case returnedOnce => exact h.returnedOnce

private theorem inv_finish {H : HashFn} {s : System} (h : Inv H s) {w : Nat}
    {tail chainHash : Bytes} {row : StoredRow}
    (hw : s.writers w = some ⟨tail, .inserted row chainHash⟩) :
    Inv H { s.setWriter w (some ⟨chainHash, .idle⟩) with returned := s.returned ++ [row] } := by
  obtain ⟨hmem, hfresh, hwidth⟩ := h.pcs w _ hw
  have hold : ∀ {w' writer}, w' ≠ w →
      (s.setWriter w (some ⟨chainHash, .idle⟩)).writers w' = some writer →
      s.writers w' = some writer := by
    intro w' writer hne hw'
    rwa [System.setWriter_of_ne s _ hne] at hw'
  have hself : ∀ {writer}, (s.setWriter w (some ⟨chainHash, .idle⟩)).writers w = some writer →
      writer = ⟨chainHash, .idle⟩ := by
    intro writer hw'
    rw [System.setWriter_self] at hw'
    exact (Option.some.inj hw').symm
  constructor
  case numbered => exact h.numbered
  case pcs =>
    intro w' writer hw'
    by_cases hne : w' = w
    · subst hne
      rw [hself hw']
      trivial
    · have hpc := h.pcs w' writer (hold hne hw')
      obtain ⟨tail', pc⟩ := writer
      cases pc with
      | idle => trivial
      | read draft occurredAt nextId => exact hpc
      | computed row' ch' => exact hpc
      | inserted row' ch' =>
        obtain ⟨hrow', hreturn', hwidth'⟩ := hpc
        refine ⟨hrow', ?_, hwidth'⟩
        intro hin
        rcases List.mem_append.mp hin with hin | hin
        · exact hreturn' hin
        · exact h.distinct w' w row' row ch' chainHash tail' tail hne (hold hne hw') hw
            (List.mem_singleton.mp hin)
  case tails =>
    intro w' writer hw'
    by_cases hne : w' = w
    · subst hne
      rw [hself hw']
      exact hwidth
    · exact h.tails w' writer (hold hne hw')
  case distinct =>
    intro w₁ w₂ row₁ row₂ ch₁ ch₂ tail₁ tail₂ hne h₁ h₂
    have hother : ∀ {w' tail' row' ch'}, (s.setWriter w (some ⟨chainHash, .idle⟩)).writers w' =
        some ⟨tail', .inserted row' ch'⟩ → w' ≠ w := by
      rintro w' tail' row' ch' hw' rfl
      exact absurd (AuditWriter.mk.inj (hself hw')).2 (by simp)
    exact h.distinct w₁ w₂ row₁ row₂ ch₁ ch₂ tail₁ tail₂ hne (hold (hother h₁) h₁)
      (hold (hother h₂) h₂)
  case stored =>
    intro r hr
    rcases List.mem_append.mp hr with hr | hr
    · exact h.stored r hr
    · rw [List.mem_singleton.mp hr]
      exact hmem
  case returnedOnce =>
    refine List.Nodup.append h.returnedOnce (List.nodup_singleton row) ?_
    rw [List.disjoint_singleton]
    exact hfresh

private theorem length_loadTailChainHash {table : List StoredRow} {tail : Bytes}
    (h : loadTailChainHash table = .ok tail) : tail.length = chainHashSize := by
  unfold loadTailChainHash at h
  split at h
  · rw [← Except.ok.inj h]
    exact List.length_replicate
  · obtain ⟨raw, -, h⟩ := bind_eq_ok h
    split at h
    · simp at h
    next hwidth =>
    rw [← Except.ok.inj h]
    exact not_not.mp hwidth

/-- Every step of every writer keeps the invariant. -/
theorem inv_step {H : HashFn} {s s' : System} {a : Action} (h : Inv H s)
    (hstep : step H s a = some s') : Inv H s' := by
  cases a with
  | openWriter w =>
    simp only [step] at hstep
    split at hstep
    · next tail _ htail =>
      rw [← Option.some.inj hstep]
      apply inv_setWriter h
      rintro writer hwriter
      rw [← Option.some.inj hwriter]
      exact ⟨trivial, length_loadTailChainHash htail, trivial⟩
    · simp at hstep
  | exit w =>
    rw [← Option.some.inj hstep]
    apply inv_setWriter h
    simp
  | readMaxId w draft occurredAt =>
    simp only [step] at hstep
    split at hstep
    · next tail hw =>
      have htail := h.tails w _ hw
      rw [← Option.some.inj hstep]
      apply inv_setWriter h
      rintro writer hwriter
      rw [← Option.some.inj hwriter]
      refine ⟨?_, htail, trivial⟩
      rw [PcOk, h.numbered.nextRowId]
      omega
    · simp at hstep
  | compute w =>
    simp only [step] at hstep
    split at hstep
    · next tail draft occurredAt nextId hw =>
      have htail := h.tails w _ hw
      split at hstep
      · next chainHash hchain =>
        rw [← Option.some.inj hstep]
        apply inv_setWriter h
        rintro writer hwriter
        rw [← Option.some.inj hwriter]
        obtain ⟨hlow, hhigh⟩ := h.pcs w _ hw
        exact ⟨⟨hlow, hhigh, rowEntry_writeRow hchain⟩, htail, trivial⟩
      · rw [← Option.some.inj hstep]
        apply inv_setWriter h
        rintro writer hwriter
        rw [← Option.some.inj hwriter]
        exact ⟨trivial, htail, trivial⟩
    · simp at hstep
  | insert w =>
    simp only [step] at hstep
    split at hstep
    · next tail row chainHash hw =>
      have htail := h.tails w _ hw
      split at hstep
      · next table hinsert =>
        rw [← Option.some.inj hstep]
        exact inv_insert h hw hinsert
      · rw [← Option.some.inj hstep]
        apply inv_setWriter h
        rintro writer hwriter
        rw [← Option.some.inj hwriter]
        exact ⟨trivial, htail, trivial⟩
    · simp at hstep
  | refuse w =>
    simp only [step] at hstep
    split at hstep
    · next tail _ _ hw =>
      have htail := h.tails w _ hw
      rw [← Option.some.inj hstep]
      apply inv_setWriter h
      rintro writer hwriter
      rw [← Option.some.inj hwriter]
      exact ⟨trivial, htail, trivial⟩
    · simp at hstep
  | finish w =>
    simp only [step] at hstep
    split at hstep
    · next tail row chainHash hw =>
      rw [← Option.some.inj hstep]
      exact inv_finish h hw
    · simp at hstep

/-- The invariant holds before any writer opens the file. -/
theorem inv_freshSystem (H : HashFn) : Inv H freshSystem where
  numbered := rfl
  pcs := by simp [freshSystem]
  tails := by simp [freshSystem]
  distinct := by simp [freshSystem]
  stored := by simp [freshSystem]
  returnedOnce := List.nodup_nil

/-! ## What holds in every reachable state -/

/-- Every call that returned a row has exactly one row in the table, its own. -/
def EachReturnedOnce (s : System) : Prop :=
  s.returned.Nodup ∧ ∀ row ∈ s.returned, s.table.filter (·.id = row.id) = [row]

private theorem Numbered.filter_id {table : List StoredRow} (h : Numbered table)
    {row : StoredRow} (hrow : row ∈ table) : table.filter (·.id = row.id) = [row] := by
  have hnodup : (table.map StoredRow.id).Nodup := by
    rw [h]
    refine List.nodup_range.map fun i j hij => ?_
    have hint : (i : Int) + 1 = j + 1 := hij
    omega
  have hsplit := List.append_of_mem hrow
  obtain ⟨before, after, rfl⟩ := hsplit
  rw [List.map_append, List.map_cons, List.nodup_middle, List.nodup_cons] at hnodup
  have hother : ∀ r ∈ before ++ after, ¬ r.id = row.id := by
    rintro r hr hid
    apply hnodup.1
    rw [← List.map_append, ← hid]
    exact List.mem_map_of_mem hr
  rw [List.filter_append, List.filter_cons_of_pos (by simp),
    List.filter_eq_nil_iff.mpr fun r hr => by simpa using hother r (List.mem_append_left _ hr),
    List.filter_eq_nil_iff.mpr fun r hr => by simpa using hother r (List.mem_append_right _ hr),
    List.nil_append]

/-- In every interleaving each returned call has its one row. -/
theorem Inv.eachReturnedOnce {H : HashFn} {s : System} (h : Inv H s) : EachReturnedOnce s :=
  ⟨h.returnedOnce, fun _ hrow => h.numbered.filter_id (h.stored _ hrow)⟩

/-- An INSERT that commits was computed from the hash of the table's last row: no other writer
has committed since the writer loaded or advanced its cached tail. -/
def usesCurrentTail (s : System) : Action → Bool
  | .insert w =>
    match s.writers w with
    | some ⟨tail, .computed row _⟩ =>
      match insertRow s.table row, loadTailChainHash s.table with
      | none, _ => true
      | some _, .ok current => tail == current
      | some _, .error _ => false
    | _ => true
  | _ => true

/-- The table is a hash chain from genesis. -/
def ChainIntact (H : HashFn) (table : List StoredRow) : Prop :=
  ∃ entries, Entries table entries ∧ HashChain.Chained (chainLink H) genesisChainHash entries

/-- A walk of an intact table is clean, and of no other. -/
theorem walkChain_clean_iff (H : HashFn) (table : List StoredRow) (full : Bool) :
    (walkChain H table full none).clean ↔ ChainIntact H table :=
  walkRows_clean_iff H full List.length_replicate table

private theorem chainHead_getLast {prevChain current : Bytes} {table : List StoredRow}
    (h : chainHead prevChain table = .ok current) :
    match table.getLast? with
    | none => current = prevChain
    | some row => pyBytes row.chainHash = .ok current := by
  induction table generalizing prevChain with
  | nil => exact (Except.ok.inj h).symm
  | cons row rest ih =>
    obtain ⟨actualChain, hactual, h⟩ := bind_eq_ok h
    have hrest := ih h
    cases rest with
    | nil =>
      rw [List.getLast?_nil] at hrest
      rw [List.getLast?_singleton]
      dsimp only at hrest ⊢
      rw [hactual, hrest]
    | cons next rest =>
      rw [List.getLast?_cons_cons]
      exact hrest

/-- The tail a writer loads is the head of the table's chain. -/
theorem loadTailChainHash_eq {table : List StoredRow} {entries : List (Bytes × Bytes)}
    (hentries : Entries table entries) {current : Bytes}
    (h : loadTailChainHash table = .ok current) :
    current = HashChain.head genesisChainHash entries := by
  have hhead := chainHead_getLast (chainHead_eq hentries genesisChainHash)
  unfold loadTailChainHash at h
  split at h
  · next hempty =>
    rw [hempty] at hhead
    exact (Except.ok.inj h).symm.trans hhead.symm
  · next row hrow =>
    rw [hrow] at hhead
    obtain ⟨raw, hraw, h⟩ := bind_eq_ok h
    split at h
    · simp at h
    · rw [← Except.ok.inj h]
      exact Except.ok.inj (hraw.symm.trans hhead)

/-- Appending a row keeps the chain exactly when the row links to the tail a writer would
load. -/
theorem chainIntact_append_iff {H : HashFn} {table : List StoredRow} {row : StoredRow}
    {canonical chainHash current : Bytes} (h : ChainIntact H table)
    (hcurrent : loadTailChainHash table = .ok current)
    (hentry : rowEntry row = .ok (canonical, chainHash)) :
    ChainIntact H (table ++ [row]) ↔ chainHash = chainLink H current canonical := by
  obtain ⟨entries, hentries, hchained⟩ := h
  have hsnoc : Entries (table ++ [row]) (entries ++ [(canonical, chainHash)]) :=
    List.rel_append hentries (.cons hentry .nil)
  rw [loadTailChainHash_eq hentries hcurrent]
  constructor
  · rintro ⟨entries', hentries', hchained'⟩
    rw [entries_unique hentries' hsnoc, HashChain.chained_append] at hchained'
    exact hchained'.2.1
  · intro hlink
    exact ⟨_, hsnoc, (HashChain.chained_append _ _ _ _).mpr ⟨hchained, hlink, trivial⟩⟩

private theorem step_table {H : HashFn} {s s' : System} {a : Action}
    (hstep : step H s a = some s') :
    s'.table = s.table ∨ ∃ w tail row chainHash, a = .insert w ∧
      s.writers w = some ⟨tail, .computed row chainHash⟩ ∧
      insertRow s.table row = some s'.table := by
  cases a with
  | insert w =>
    simp only [step] at hstep
    split at hstep
    · next tail row chainHash hw =>
      split at hstep
      · next table hinsert =>
        rw [← Option.some.inj hstep]
        exact .inr ⟨w, tail, row, chainHash, rfl, hw, hinsert⟩
      · rw [← Option.some.inj hstep]
        exact .inl rfl
    · simp at hstep
  | exit w =>
    rw [← Option.some.inj hstep]
    exact .inl rfl
  | compute w =>
    simp only [step] at hstep
    split at hstep
    · split at hstep <;>
      · rw [← Option.some.inj hstep]
        exact .inl rfl
    · simp at hstep
  | _ =>
    simp only [step] at hstep
    split at hstep
    · rw [← Option.some.inj hstep]
      exact .inl rfl
    · simp at hstep

/-- A step that meets the condition keeps the chain intact. -/
theorem chainIntact_step {H : HashFn} {s s' : System} {a : Action} (hinv : Inv H s)
    (h : ChainIntact H s.table) (hcurrent : usesCurrentTail s a = true)
    (hstep : step H s a = some s') : ChainIntact H s'.table := by
  rcases step_table hstep with htable | ⟨w, tail, row, chainHash, rfl, hw, hinsert⟩
  · rwa [htable]
  obtain ⟨hlow, hhigh, canonical, hentry, hlink⟩ := hinv.pcs w _ hw
  simp only [usesCurrentTail, hw, hinsert] at hcurrent
  split at hcurrent
  · next hnone => simp at hnone
  · next current _ hload =>
    rw [(insertRow_append hinv.numbered hlow hhigh hinsert).1,
      chainIntact_append_iff h hload hentry, hlink, beq_iff_eq.mp hcurrent]
  · simp at hcurrent

/-- A committed INSERT computed from a stale tail breaks the chain, unless the hash collides. -/
theorem not_chainIntact_of_stale {H : HashFn} {s : System} {w : Nat} (hinv : Inv H s)
    (h : ChainIntact H s.table) {tail chainHash current canonical : Bytes} {row : StoredRow}
    {table : List StoredRow} (hw : s.writers w = some ⟨tail, .computed row chainHash⟩)
    (hinsert : insertRow s.table row = some table)
    (hload : loadTailChainHash s.table = .ok current) (hstale : tail ≠ current)
    (hentry : rowEntry row = .ok (canonical, chainHash))
    (hfree : CollisionFreeOn H [tail ++ canonical, current ++ canonical]) :
    ¬ ChainIntact H table := by
  obtain ⟨hlow, hhigh, canonical', hentry', hlink⟩ := hinv.pcs w _ hw
  obtain ⟨rfl, -⟩ := Prod.mk.inj (Except.ok.inj (hentry.symm.trans hentry'))
  rw [(insertRow_append hinv.numbered hlow hhigh hinsert).1,
    chainIntact_append_iff h hload hentry, hlink]
  intro hsame
  have hpre := hfree (tail ++ canonical) (by simp) (current ++ canonical) (by simp)
    (Subtype.ext hsame)
  exact hstale (append_inj_of_width_right rfl hpre).1

/-- Every interleaving gives each returned call its one row. -/
theorem reachable_eachReturnedOnce {H : HashFn} {s : System} (h : Reachable H s) :
    EachReturnedOnce s :=
  (Reaches.invariant (step H) (inv_freshSystem H) (fun hinv _ hstep => inv_step hinv hstep)
    h).eachReturnedOnce

/-- In a run whose every committed INSERT was computed from the current tail of the table, the
walk stays clean and each returned call has its one row. -/
theorem clean_of_usesCurrentTail (H : HashFn) (s : System)
    (h : Reaches (step H) (fun s a => usesCurrentTail s a = true) freshSystem s) :
    (walkChain H s.table true none).clean ∧ EachReturnedOnce s := by
  have hboth : Inv H s ∧ ChainIntact H s.table :=
    Reaches.invariant (step H) (I := fun s => Inv H s ∧ ChainIntact H s.table)
      ⟨inv_freshSystem H, [], .nil, trivial⟩
      (fun hI hcurrent hstep =>
        ⟨inv_step hI.1 hstep, chainIntact_step hI.1 hI.2 hcurrent hstep⟩) h
  exact ⟨(walkChain_clean_iff H s.table true).mpr hboth.2, hboth.1.eachReturnedOnce⟩

/-! ## Two writers on one file -/

/-- The draft of a quiet tool call. -/
def quietDraft : Draft where
  sourceConnectionId := "s"
  callerId := none
  toolName := "m"
  status := "success"
  refusalReason := none
  costClass := "small"
  piiCategories := []
  astShapeHash := none
  ruleId := none
  fingerprintVersion := currentFingerprintVersion
  anchorEntity := none

/-- A whole `write` call of one writer. -/
def writeCall (w : Nat) : List Action :=
  [.readMaxId w quietDraft "t", .compute w, .insert w, .finish w]

/-- A writer alone on a file meets the condition. -/
theorem clean_of_usesCurrentTail_alone :
    ∃ s, s.returned.length = 1 ∧ (walkChain Sha256.digest s.table true none).clean ∧
      EachReturnedOnce s := by
  obtain ⟨s, hs, hlen⟩ := Reaches.exists_of_trace (step Sha256.digest)
    (fun s a => usesCurrentTail s a = true) freshSystem (.openWriter 0 :: writeCall 0)
    (P := fun s => s.returned.length = 1) (by decide +kernel)
  exact ⟨s, hlen, clean_of_usesCurrentTail Sha256.digest s hs⟩

/-- Two writers opened on an empty store, one call each: the second row is computed from
genesis, and the walk reports it. -/
theorem two_writers_break_chain :
    ¬ ∀ s, Reachable Sha256.digest s →
      (walkChain Sha256.digest s.table true none).clean ∧ EachReturnedOnce s := by
  intro hall
  obtain ⟨s, hs, hbroken⟩ := Reaches.exists_of_trace (step Sha256.digest)
    (fun _ _ => True) freshSystem ([.openWriter 0, .openWriter 1] ++ writeCall 0 ++ writeCall 1)
    (P := fun s => ¬ (walkChain Sha256.digest s.table true none).clean) (by decide +kernel)
  exact hbroken (hall s hs).1

end SchemaBrain.Audit
