import Mathlib.Data.List.Chain
import SchemaBrain.Audit.Writer

/-!
# The forensic walk

`walk_chain(full=True)` over any table that the DDL admits. The walk catches the
`ValueError` of a canonical form and nothing else, so it is total and exact only on tables
without the shapes that raise elsewhere.
-/

namespace SchemaBrain.Audit

open SchemaBrain.Base

/-! ## The walk over a cursor -/

/-- A row of the table. One with a TEXT value that is not UTF-8 cannot be fetched. -/
inductive FetchedRow
  | row (r : StoredRow)
  | undecodable (id : Int)
  deriving DecidableEq, Repr

/-- What leaves the generator. -/
inductive WalkError
  | raised (exc : PyError)
  /-- `Could not decode to UTF-8 column`. -/
  | operationalError
  deriving DecidableEq, Repr

/-- The rows before the first one that cannot be fetched. -/
def fetchable : List FetchedRow → List StoredRow
  | .row r :: rest => r :: fetchable rest
  | _ => []

/-- `walk_chain(conn, full=True)`. -/
def forensicWalk (H : HashFn) (table : List FetchedRow) : List ChainMismatch × Option WalkError :=
  let rows := fetchable table
  match walkChain H rows true none with
  | (mismatches, some exc) => (mismatches, some (.raised exc))
  | (mismatches, none) =>
    (mismatches, if rows.length < table.length then some .operationalError else none)

/-! ## What the walk is for -/

/-- A stored chain hash as bytes. -/
def storedHash (row : StoredRow) : Option Bytes := (pyBytes row.chainHash).toOption

/-- A row whose canonical form cannot be computed, or whose stored hash is not the digest of
the stored hash before it and that form. -/
def isBroken (H : HashFn) (prevChain : Option Bytes) (row : StoredRow) : Bool :=
  match rowCanonical row, prevChain, storedHash row with
  | .ok canonical, some prevChain, some actualChain =>
    (H (prevChain ++ canonical) : Bytes) ≠ actualChain
  | _, _, _ => true

/-- The ids of the broken rows, in id order. -/
def brokenIds (H : HashFn) : Option Bytes → List FetchedRow → List Int
  | _, [] => []
  | prevChain, .row r :: rest =>
    (if isBroken H prevChain r then [r.id] else []) ++ brokenIds H (storedHash r) rest
  | _, .undecodable id :: rest => id :: brokenIds H none rest

/-- The walk ends normally, with one mismatch for each broken row. -/
def Forensic (H : HashFn) (table : List FetchedRow) : Prop :=
  (forensicWalk H table).2 = none ∧
    (forensicWalk H table).1.map (·.rowId) = brokenIds H (some genesisChainHash) table

/-! ## The shapes that raise -/

/-- The width of `bytes(value)`, where it can be read. -/
def SqlValue.bytesWidth : SqlValue → Option Nat
  | .integer i => if i < 0 then none else some i.toNat
  | .blob b => some b.length
  | _ => none

/-- A storage class on which `bytes` raises a `TypeError`. -/
def SqlValue.isTextOrReal : SqlValue → Bool
  | .text _ => true
  | .real _ => true
  | _ => false

/-- The TEXT columns of the canonical form. -/
def StoredRow.textFields (row : StoredRow) : List (String × TextCell) :=
  [("occurred_at", row.occurredAt), ("source_connection_id", row.sourceConnectionId),
    ("caller_id", row.callerId), ("tool_name", row.toolName), ("status", row.status),
    ("refusal_reason", row.refusalReason), ("cost_class", row.costClass),
    ("pii_categories", row.piiCategories), ("rule_id", row.ruleId),
    ("fingerprint_version", row.fingerprintVersion)]

/-- A BLOB in a TEXT column, which JSON cannot encode. -/
def TextCell.isBlob : TextCell → Bool
  | .blob _ => true
  | _ => false

/-- Both binary fields have the width that the canonical form asks for. -/
def StoredRow.binaryFits (row : StoredRow) : Prop :=
  (row.astShapeHash = .null ∨ row.astShapeHash.bytesWidth = some astShapeHashBytes) ∧
    row.fingerprint.bytesWidth = some fingerprintBytes

/-- A row on which only the caught `ValueError` can be raised. -/
structure StoredRow.Walkable (row : StoredRow) : Prop where
  chainHash : row.chainHash.bytesWidth.isSome = true
  astShapeHash : row.astShapeHash.isTextOrReal = false
  -- A negative `ast_shape_hash` raises the `ValueError` before the fingerprint is read.
  fingerprint : row.fingerprint.isTextOrReal = true → ∃ i < 0, row.astShapeHash = .integer i
  texts : row.binaryFits → ∀ field ∈ row.textFields, field.2.isBlob = false

/-- Rows that can be fetched and walked, where every row with a canonical form follows a chain
hash of 32 bytes. -/
structure Walkable (table : List FetchedRow) : Prop where
  rows : ∀ x ∈ table, ∃ r : StoredRow, x = .row r ∧ r.Walkable
  widths : table.IsChain fun x y => ∀ r r', x = .row r → y = .row r' → r'.binaryFits →
    r.chainHash.bytesWidth = some chainHashSize

/-! ## Canonical forms of admitted rows -/

variable {row : StoredRow}

private theorem pyBytes_width {v : SqlValue} {b : Bytes} (h : pyBytes v = .ok b) :
    v.bytesWidth = some b.length := by
  cases v with
  | integer i =>
    simp only [pyBytes] at h
    split at h
    · simp at h
    · next hneg =>
      obtain rfl := Except.ok.inj h
      simp [SqlValue.bytesWidth, hneg]
  | blob b' =>
    obtain rfl := Except.ok.inj h
    rfl
  | _ => simp [pyBytes] at h

private theorem exists_pyBytes {v : SqlValue} {n : Nat} (h : v.bytesWidth = some n) :
    ∃ b, pyBytes v = .ok b ∧ b.length = n := by
  cases v with
  | integer i =>
    simp only [SqlValue.bytesWidth] at h
    split at h
    · simp at h
    · next hneg =>
      obtain rfl := Option.some.inj h
      exact ⟨_, by rw [pyBytes, if_neg hneg], List.length_replicate⟩
  | blob b => exact ⟨b, rfl, Option.some.inj h⟩
  | _ => simp [SqlValue.bytesWidth] at h

private theorem mem_canonicalDict {a f : PyValue} {p : String × PyValue} :
    p ∈ canonicalDict row a f ↔ p = ("id", .int row.id) ∨ p = ("ast_shape_hash", a) ∨
      p = ("fingerprint", f) ∨ ∃ field ∈ row.textFields, p = (field.1, field.2.toPy) := by
  simp only [canonicalDict, StoredRow.textFields, List.mem_cons, List.not_mem_nil, or_false,
    exists_eq_or_imp, exists_eq_left]
  tauto

private theorem lookup_canonicalDict {a f : PyValue} {key : String} {v : PyValue} :
    (canonicalDict row a f).lookup key = some v ↔ (key, v) ∈ canonicalDict row a f := by
  apply lookup_eq_some_iff_mem
  change (List.Nodup ["id", "occurred_at", "source_connection_id", "caller_id", "tool_name",
    "status", "refusal_reason", "cost_class", "pii_categories", "ast_shape_hash", "rule_id",
    "fingerprint", "fingerprint_version"])
  decide

/-- The dict of a row has exactly the thirteen fields. -/
private theorem canonicalAuditRow_canonicalDict (row : StoredRow) (a f : PyValue) :
    canonicalAuditRow (canonicalDict row a f) = do
      let payload ← auditRowFields.mapM (payloadMember (canonicalDict row a f))
      let members ← payload.mapM jsonMember
      return Json.dumpsBytes Json.escapeUtf8 (.obj members) := by
  have hkeys : (canonicalDict row a f).map Prod.fst = auditRowFields := rfl
  have hnone : auditRowFields.filter (· ∉ auditRowFields) = [] := by decide
  simp only [canonicalAuditRow, hkeys, hnone, ne_eq, not_true_eq_false, if_false]

private theorem payloadField_error {key : String} {v : PyValue} {exc : PyError}
    (h : payloadField key v = .error exc) : ∃ text, exc = .valueError text := by
  unfold payloadField at h
  split at h
  · split at h
    · simp at h
    · exact ⟨_, (Except.error.inj h).symm⟩
  · split at h
    · have h := map_eq_error h
      unfold hexBytes at h
      split at h
      · generalize (if key = "ast_shape_hash" then astShapeHashBytes else fingerprintBytes) =
          expected at h
        dsimp only at h
        split at h
        · exact ⟨_, (Except.error.inj h).symm⟩
        · simp at h
      · exact ⟨_, (Except.error.inj h).symm⟩
    · simp at h

private theorem payloadField_text {key : String} {cell : TextCell} (hkey : key ∉ binary)
    (h : cell ≠ .null ∨ key ∈ nullable) : payloadField key cell.toPy = .ok cell.toPy := by
  unfold payloadField
  split
  · next hnone =>
    rw [if_pos (h.resolve_left ?_), hnone]
    cases cell <;> simp_all [TextCell.toPy]
  · rfl

/-- What a row that the DDL admits holds in its TEXT columns. -/
private theorem textFields_admitted (h : passesChecks row = true) :
    ∀ field ∈ row.textFields, field.1 ∉ binary ∧ (field.2 ≠ .null ∨ field.1 ∈ nullable) := by
  have hstatus : row.status.isOneOf allowedStatuses = true → row.status ≠ .null := by
    rintro h hnull
    simp [hnull, TextCell.isOneOf] at h
  have hcost : row.costClass.isOneOf allowedCostClasses = true → row.costClass ≠ .null := by
    rintro h hnull
    simp [hnull, TextCell.isOneOf] at h
  simp only [passesChecks, Bool.and_eq_true, decide_eq_true_eq] at h
  simp only [StoredRow.textFields, List.forall_mem_cons, List.not_mem_nil, false_implies,
    implies_true, and_true]
  refine ⟨⟨by decide, .inl ?_⟩, ⟨by decide, .inl ?_⟩, ⟨by decide, .inr (by decide)⟩,
    ⟨by decide, .inl ?_⟩, ⟨by decide, .inl ?_⟩, ⟨by decide, .inr (by decide)⟩,
    ⟨by decide, .inl ?_⟩, ⟨by decide, .inl ?_⟩, ⟨by decide, .inr (by decide)⟩,
    ⟨by decide, .inl ?_⟩⟩
  all_goals tauto

private theorem payloadMember_eq {a f v : PyValue} {key : String}
    (h : (key, v) ∈ canonicalDict row a f) :
    payloadMember (canonicalDict row a f) key = (payloadField key v).map fun w => (key, w) := by
  rw [payloadMember, lookup_canonicalDict.2 h]

private theorem exists_mem_canonicalDict {a f : PyValue} {key : String}
    (h : key ∈ auditRowFields) : ∃ v, (key, v) ∈ canonicalDict row a f := by
  obtain ⟨p, hp, rfl⟩ := List.mem_map.1 (show key ∈ (canonicalDict row a f).map Prod.fst from h)
  exact ⟨p.2, hp⟩

/-- The field checks of a dict whose binary fields fit: TEXT columns are passed on. -/
private theorem payloadField_fits (h : passesChecks row = true) {a f : PyValue}
    (ha : a = .none ∨ ∃ b, a = .bytes b ∧ b.length = astShapeHashBytes)
    (hf : ∃ b, f = .bytes b ∧ b.length = fingerprintBytes) :
    ∀ p ∈ canonicalDict row a f, ∃ w, payloadField p.1 p.2 = .ok w ∧
      ((∃ field ∈ row.textFields, w = field.2.toPy) ∨ ∀ b, w ≠ .bytes b) := by
  intro p hp
  rcases mem_canonicalDict.1 hp with rfl | rfl | rfl | ⟨field, hfield, rfl⟩
  · exact ⟨.int row.id, rfl, .inr (by simp)⟩
  · rcases ha with rfl | ⟨b, rfl, hb⟩
    · exact ⟨.none, rfl, .inr (by simp)⟩
    · refine ⟨.str (hex b), ?_, .inr (by simp)⟩
      simp [payloadField, binary, hexBytes, hb, Except.map]
  · obtain ⟨b, rfl, hb⟩ := hf
    refine ⟨.str (hex b), ?_, .inr (by simp)⟩
    simp [payloadField, binary, hexBytes, hb, Except.map]
  · obtain ⟨hkey, hnull⟩ := textFields_admitted h field hfield
    exact ⟨field.2.toPy, payloadField_text hkey hnull, .inl ⟨field, hfield, rfl⟩⟩

private theorem jsonMember_cases (m : String × PyValue) :
    (∃ j, jsonMember m = .ok j) ∧ (∀ b, m.2 ≠ .bytes b) ∨
      (∃ text, jsonMember m = .error (.typeError text)) ∧ ∃ b, m.2 = .bytes b := by
  obtain ⟨key, v⟩ := m
  cases v with
  | bytes b => exact .inr ⟨⟨_, rfl⟩, b, rfl⟩
  | _ => exact .inl ⟨⟨_, rfl⟩, by simp⟩

/-- A dict that passes the field checks has a canonical form, or a BLOB in a TEXT column. -/
private theorem canonicalAuditRow_fits (h : passesChecks row = true) {a f : PyValue}
    (ha : a = .none ∨ ∃ b, a = .bytes b ∧ b.length = astShapeHashBytes)
    (hf : ∃ b, f = .bytes b ∧ b.length = fingerprintBytes) :
    ((∀ field ∈ row.textFields, field.2.isBlob = false) →
      ∃ canonical, canonicalAuditRow (canonicalDict row a f) = .ok canonical) ∧
    ((∃ field ∈ row.textFields, field.2.isBlob = true) →
      ∃ text, canonicalAuditRow (canonicalDict row a f) = .error (.typeError text)) := by
  have hfields := payloadField_fits h ha hf
  obtain ⟨payload, hpayload⟩ : ∃ payload,
      auditRowFields.mapM (payloadMember (canonicalDict row a f)) = .ok payload := by
    refine exists_mapM fun key hkey => ?_
    obtain ⟨v, hv⟩ := exists_mem_canonicalDict hkey
    obtain ⟨w, hw, -⟩ := hfields _ hv
    exact ⟨(key, w), by rw [payloadMember_eq hv, hw, Except.map]⟩
  obtain ⟨hfrom, hto⟩ := mem_mapM hpayload
  rw [canonicalAuditRow_canonicalDict, hpayload]
  constructor
  · intro hplain
    obtain ⟨members, hmembers⟩ : ∃ members, payload.mapM jsonMember = .ok members := by
      refine exists_mapM fun m hm => ?_
      rcases jsonMember_cases m with ⟨hok, -⟩ | ⟨-, b, hbytes⟩
      · exact hok
      · obtain ⟨key, hkey, hmember⟩ := hfrom m hm
        obtain ⟨v, hv⟩ := exists_mem_canonicalDict hkey
        obtain ⟨w, hw, htext⟩ := hfields _ hv
        rw [payloadMember_eq hv, hw] at hmember
        obtain rfl := Except.ok.inj hmember
        rcases htext with ⟨field, hfield, rfl⟩ | hnot
        · have hblob := hplain field hfield
          cases hcell : field.2 <;> simp_all [TextCell.toPy, TextCell.isBlob]
        · exact absurd hbytes (hnot b)
    refine ⟨Json.dumpsBytes Json.escapeUtf8 (.obj members), ?_⟩
    simp [hmembers, bind, Except.bind, pure, Except.pure]
  · rintro ⟨field, hfield, hblob⟩
    obtain ⟨b, hb⟩ : ∃ b, field.2.toPy = .bytes b := by
      cases hcell : field.2 <;> simp_all [TextCell.toPy, TextCell.isBlob]
    have hv : (field.1, field.2.toPy) ∈ canonicalDict row a f :=
      mem_canonicalDict.2 (.inr (.inr (.inr ⟨field, hfield, rfl⟩)))
    obtain ⟨hkey, hnull⟩ := textFields_admitted h field hfield
    obtain ⟨m, hm, hmember⟩ := hto field.1 (List.mem_map_of_mem (f := Prod.fst) hv)
    rw [payloadMember_eq hv, payloadField_text hkey hnull] at hmember
    obtain rfl := Except.ok.inj hmember
    -- Encoding stops at the first BLOB, with a `TypeError` in any case.
    cases hmembers : payload.mapM jsonMember with
    | ok members =>
      obtain ⟨j, -, hj⟩ := (mem_mapM hmembers).2 _ hm
      rcases jsonMember_cases (field.1, field.2.toPy) with ⟨-, hnot⟩ | ⟨⟨text, herror⟩, -⟩
      · exact absurd hb (hnot b)
      · rw [herror] at hj
        simp at hj
    | error exc =>
      obtain ⟨m, -, herror⟩ := mapM_eq_error hmembers
      rcases jsonMember_cases m with ⟨⟨j, hj⟩, -⟩ | ⟨⟨text, htext⟩, -⟩
      · rw [hj] at herror
        simp at herror
      · obtain rfl := Except.error.inj (htext.symm.trans herror)
        exact ⟨text, by simp [hmembers, bind, Except.bind]⟩

/-- A dict that fails a field check raises a `ValueError`. -/
private theorem canonicalAuditRow_misfit {a f : PyValue} {p : String × PyValue}
    (hp : p ∈ canonicalDict row a f) {exc : PyError} (hfail : payloadField p.1 p.2 = .error exc) :
    ∃ text, canonicalAuditRow (canonicalDict row a f) = .error (.valueError text) := by
  rw [canonicalAuditRow_canonicalDict]
  cases hpayload : auditRowFields.mapM (payloadMember (canonicalDict row a f)) with
  | ok payload =>
    obtain ⟨m, -, hm⟩ := (mem_mapM hpayload).2 p.1 (List.mem_map_of_mem (f := Prod.fst) hp)
    rw [payloadMember_eq hp, hfail] at hm
    simp [Except.map] at hm
  | error exc' =>
    obtain ⟨key, hkey, herror⟩ := mapM_eq_error hpayload
    obtain ⟨v, hv⟩ : ∃ v, (key, v) ∈ canonicalDict row a f := exists_mem_canonicalDict hkey
    rw [payloadMember_eq hv] at herror
    obtain ⟨text, rfl⟩ := payloadField_error (map_eq_error herror)
    exact ⟨text, by simp [bind, Except.bind]⟩

private theorem binaryValue_cases (v : SqlValue) :
    v = .null ∧ binaryValue v = .ok .none ∨
    (∃ b, v.bytesWidth = some b.length ∧ binaryValue v = .ok (.bytes b)) ∨
    (∃ i < 0, v = .integer i) ∧ binaryValue v = .error (.valueError "negative count") ∨
    v.isTextOrReal = true ∧ ∃ text, binaryValue v = .error (.typeError text) := by
  cases v with
  | null => exact .inl ⟨rfl, rfl⟩
  | integer i =>
    by_cases hi : i < 0
    · exact .inr (.inr (.inl ⟨⟨i, hi, rfl⟩, by simp [binaryValue, pyBytes, hi, Except.map]⟩))
    · refine .inr (.inl ⟨List.replicate i.toNat 0, ?_, ?_⟩)
      · simp [SqlValue.bytesWidth, hi]
      · simp [binaryValue, pyBytes, hi, Except.map]
  | blob b => exact .inr (.inl ⟨b, rfl, rfl⟩)
  | real bits => exact .inr (.inr (.inr ⟨rfl, _, rfl⟩))
  | text s => exact .inr (.inr (.inr ⟨rfl, _, rfl⟩))

private theorem payloadField_width (key : String) (hkey : key ∈ binary) {b : Bytes}
    (h : b.length ≠ if key = "ast_shape_hash" then astShapeHashBytes else fingerprintBytes) :
    ∃ exc, payloadField key (.bytes b) = .error exc := by
  unfold payloadField hexBytes
  rw [if_neg (by simp), if_pos hkey]
  dsimp only
  rw [if_pos h]
  exact ⟨_, rfl⟩

/-- What the canonical form of an admitted row does: it is computed, or refused with a
`ValueError`, or with a `TypeError`. -/
private inductive CanonicalOutcome (row : StoredRow) : Prop
  | computed (fits : row.binaryFits)
      (walkable : row.chainHash.bytesWidth.isSome = true → row.Walkable)
      (h : ∃ canonical, rowCanonical row = .ok canonical)
  | valueError (misfits : ¬ row.binaryFits)
      (walkable : row.chainHash.bytesWidth.isSome = true → row.Walkable)
      (h : ∃ text, rowCanonical row = .error (.valueError text))
  | typeError (unwalkable : ¬ row.Walkable)
      (h : ∃ text, rowCanonical row = .error (.typeError text))

private theorem SqlValue.not_textOrReal_of_width {v : SqlValue} {n : Nat}
    (h : v.bytesWidth = some n) : v.isTextOrReal = false := by
  cases v <;> simp_all [SqlValue.bytesWidth, SqlValue.isTextOrReal]

private theorem rowCanonical_of_values {a f : PyValue} (ha : binaryValue row.astShapeHash = .ok a)
    (hf : binaryValue row.fingerprint = .ok f) :
    rowCanonical row = canonicalAuditRow (canonicalDict row a f) := by
  rw [rowCanonical, rowToCanonicalDict, ha, hf]
  rfl

/-- Both binary fields were read as bytes. -/
private theorem canonicalOutcome_bytes (h : passesChecks row = true) {a : PyValue} {c : Bytes}
    (ha : binaryValue row.astShapeHash = .ok a)
    (hast : row.astShapeHash = .null ∧ a = .none ∨
      ∃ b, row.astShapeHash.bytesWidth = some b.length ∧ a = .bytes b)
    (hf : binaryValue row.fingerprint = .ok (.bytes c))
    (hwidth : row.fingerprint.bytesWidth = some c.length) : CanonicalOutcome row := by
  have hcanonical := rowCanonical_of_values ha hf
  have hastPlain : row.astShapeHash.isTextOrReal = false := by
    rcases hast with ⟨hnull, -⟩ | ⟨b, hb, -⟩
    · rw [hnull]
      rfl
    · exact SqlValue.not_textOrReal_of_width hb
  have hfPlain := SqlValue.not_textOrReal_of_width hwidth
  by_cases hfits : row.binaryFits
  · have hfits' : (a = .none ∨ ∃ b, a = .bytes b ∧ b.length = astShapeHashBytes) ∧
        ∃ b, PyValue.bytes c = .bytes b ∧ b.length = fingerprintBytes := by
      obtain ⟨hfitA, hfitF⟩ := hfits
      refine ⟨?_, c, rfl, Option.some.inj (hwidth.symm.trans hfitF)⟩
      rcases hast with ⟨-, rfl⟩ | ⟨b, hb, rfl⟩
      · exact .inl rfl
      · refine .inr ⟨b, rfl, ?_⟩
        rcases hfitA with hnull | hfitA
        · simp [hnull, SqlValue.bytesWidth] at hb
        · exact Option.some.inj (hb.symm.trans hfitA)
    obtain ⟨hok, htype⟩ := canonicalAuditRow_fits h hfits'.1 hfits'.2
    by_cases hplain : ∀ field ∈ row.textFields, field.2.isBlob = false
    · exact .computed hfits (fun hchain => ⟨hchain, hastPlain, by simp [hfPlain], fun _ => hplain⟩)
        (hcanonical ▸ hok hplain)
    · refine .typeError (fun hwalkable => hplain (hwalkable.texts hfits)) (hcanonical ▸ htype ?_)
      simpa using hplain
  · refine .valueError hfits
      (fun hchain => ⟨hchain, hastPlain, by simp [hfPlain], fun hfit => absurd hfit hfits⟩) ?_
    rw [hcanonical]
    by_cases hc : c.length = fingerprintBytes
    · rcases hast with ⟨hnull, -⟩ | ⟨b, hb, rfl⟩
      · exact absurd ⟨.inl hnull, hwidth.trans (congrArg some hc)⟩ hfits
      · have hb' : b.length ≠ astShapeHashBytes := fun hlen =>
          hfits ⟨.inr (hb.trans (congrArg some hlen)), hwidth.trans (congrArg some hc)⟩
        obtain ⟨exc, hexc⟩ := payloadField_width "ast_shape_hash" (by decide) hb'
        exact canonicalAuditRow_misfit (mem_canonicalDict.2 (.inr (.inl rfl))) hexc
    · obtain ⟨exc, hexc⟩ := payloadField_width "fingerprint" (by decide) hc
      exact canonicalAuditRow_misfit (mem_canonicalDict.2 (.inr (.inr (.inl rfl)))) hexc

private theorem canonicalOutcome (h : passesChecks row = true) : CanonicalOutcome row := by
  have hnotnull : row.fingerprint ≠ .null := by
    simp only [passesChecks, Bool.and_eq_true, decide_eq_true_eq] at h
    tauto
  have hfields : ∀ {a}, binaryValue row.astShapeHash = .ok a →
      (row.astShapeHash = .null ∧ a = .none ∨
        ∃ b, row.astShapeHash.bytesWidth = some b.length ∧ a = .bytes b) →
      CanonicalOutcome row := by
    intro a ha hast
    have hplain : row.astShapeHash.isTextOrReal = false := by
      rcases hast with ⟨hnull, -⟩ | ⟨b, hb, -⟩
      · rw [hnull]
        rfl
      · exact SqlValue.not_textOrReal_of_width hb
    have hnotneg : ¬ ∃ i < 0, row.astShapeHash = .integer i := by
      rintro ⟨i, hi, heq⟩
      rw [heq] at hast
      simp [SqlValue.bytesWidth, hi] at hast
    rcases binaryValue_cases row.fingerprint with ⟨hnull, -⟩ | ⟨c, hwidth, hf⟩ |
      ⟨⟨i, hi, hneg⟩, hf⟩ | ⟨htext, text, hf⟩
    · exact absurd hnull hnotnull
    · exact canonicalOutcome_bytes h ha hast hf hwidth
    · have hmisfit : ¬ row.binaryFits := fun hfits => by
        have := hfits.2
        simp [hneg, SqlValue.bytesWidth, hi] at this
      refine .valueError hmisfit
        (fun hchain => ⟨hchain, hplain, ?_, fun hfit => absurd hfit hmisfit⟩)
        ⟨"negative count", ?_⟩
      · simp [hneg, SqlValue.isTextOrReal]
      · simp [rowCanonical, rowToCanonicalDict, ha, hf, bind, Except.bind]
    · refine .typeError (fun hwalkable => hnotneg (hwalkable.fingerprint htext)) ⟨text, ?_⟩
      simp [rowCanonical, rowToCanonicalDict, ha, hf, bind, Except.bind]
  rcases binaryValue_cases row.astShapeHash with ⟨hnull, ha⟩ | ⟨b, hwidth, ha⟩ |
    ⟨⟨i, hi, hneg⟩, ha⟩ | ⟨htext, text, ha⟩
  · exact hfields ha (.inl ⟨hnull, rfl⟩)
  · exact hfields ha (.inr ⟨b, hwidth, rfl⟩)
  · have hmisfit : ¬ row.binaryFits := fun hfits => by
      have := hfits.1
      simp [hneg, SqlValue.bytesWidth, hi] at this
    refine .valueError hmisfit (fun hchain => ⟨hchain, ?_, fun _ => ⟨i, hi, hneg⟩,
      fun hfit => absurd hfit hmisfit⟩) ⟨"negative count", ?_⟩
    · rw [hneg]
      rfl
    · simp [rowCanonical, rowToCanonicalDict, ha, bind, Except.bind]
  · refine .typeError (fun hwalkable => ?_) ⟨text, ?_⟩
    · simp [hwalkable.astShapeHash] at htext
    · simp [rowCanonical, rowToCanonicalDict, ha, bind, Except.bind]

/-! ## The walk -/

/-- From any previous hash, the walk over rows is total and exact exactly on walkable ones. -/
private theorem walkRows_forensic (H : HashFn) {rows : List StoredRow}
    (hadmitted : ∀ r ∈ rows, passesChecks r = true) (prevChain : Bytes) :
    ((walkRows H true prevChain rows).2 = none ∧
      (walkRows H true prevChain rows).1.map (·.rowId) =
        brokenIds H (some prevChain) (rows.map .row)) ↔
    (∀ r ∈ rows, r.Walkable) ∧
      (rows.IsChain fun r r' => r'.binaryFits → r.chainHash.bytesWidth = some chainHashSize) ∧
      ∀ r ∈ rows.head?, r.binaryFits → prevChain.length = chainHashSize := by
  induction rows generalizing prevChain with
  | nil => simp [walkRows, brokenIds]
  | cons r rest ih =>
    have hrest := fun r' hr' => hadmitted r' (List.mem_cons_of_mem _ hr')
    rw [List.isChain_cons, List.forall_mem_cons, List.head?_cons, List.map_cons, brokenIds]
    cases hactual : pyBytes r.chainHash with
    | error exc =>
      have hunwalkable : ¬ r.Walkable := fun hwalkable => by
        obtain ⟨n, hn⟩ := Option.isSome_iff_exists.1 hwalkable.chainHash
        obtain ⟨b, hb, -⟩ := exists_pyBytes hn
        simp [hactual] at hb
      simp [walkRows, hactual, hunwalkable]
    | ok actualChain =>
      have hwidth := pyBytes_width hactual
      have hsome : r.chainHash.bytesWidth.isSome = true := by rw [hwidth]; rfl
      have hstored : storedHash r = some actualChain := by rw [storedHash, hactual]; rfl
      -- The next row is walked from this row's stored hash.
      have hnext :
          (∀ r' ∈ rest.head?, r'.binaryFits → r.chainHash.bytesWidth = some chainHashSize) ↔
          ∀ r' ∈ rest.head?, r'.binaryFits → actualChain.length = chainHashSize := by
        rw [hwidth]
        simp
      rw [hnext, hstored]
      rcases canonicalOutcome (hadmitted r List.mem_cons_self) with
        ⟨hfits, hwalkable, canonical, hcanonical⟩ | ⟨hmisfits, hwalkable, text, hcanonical⟩ |
        ⟨hunwalkable, text, hcanonical⟩
      · have hhead : (∀ x ∈ some r, x.binaryFits → prevChain.length = chainHashSize) ↔
            prevChain.length = chainHashSize := by simp [hfits]
        rw [hhead]
        by_cases hprev : prevChain.length = chainHashSize
        · have hbroken : isBroken H (some prevChain) r =
              decide (chainLink H prevChain canonical ≠ actualChain) := by
            unfold isBroken
            rw [hcanonical, hstored]
            rfl
          rw [hbroken]
          by_cases hlink : chainLink H prevChain canonical = actualChain
          · simp only [walkRows, hactual, hcanonical, computeChainHash_of_width H hprev, hlink,
              ne_eq, not_true_eq_false, if_false, decide_false, Bool.false_eq_true, List.nil_append]
            rw [ih hrest actualChain]
            simp [hwalkable hsome, hprev, and_comm]
          · simp only [walkRows, hactual, hcanonical, computeChainHash_of_width H hprev, hlink,
              ne_eq, not_false_eq_true, if_true, decide_true, yieldFirst, List.map_cons,
              List.singleton_append, List.cons.injEq, true_and]
            rw [ih hrest actualChain]
            simp [hwalkable hsome, hprev, and_comm]
        · simp [walkRows, hactual, hcanonical, computeChainHash, hprev]
      · have hbroken : isBroken H (some prevChain) r = true := by simp [isBroken, hcanonical]
        have hhead : ∀ x ∈ some r, x.binaryFits → prevChain.length = chainHashSize := by
          simp [hmisfits]
        rw [hbroken]
        simp only [walkRows, hactual, hcanonical, if_true, yieldFirst, List.map_cons,
          List.singleton_append, List.cons.injEq, true_and]
        rw [ih hrest actualChain]
        simp only [hwalkable hsome, true_and, and_iff_left hhead]
        exact and_congr_right fun _ => and_comm
      · simp [walkRows, hactual, hcanonical, hunwalkable]

private theorem length_fetchable {table : List FetchedRow}
    (h : ∀ x ∈ table, ∃ r : StoredRow, x = .row r ∧ r.Walkable) :
    (fetchable table).length = table.length := by
  induction table with
  | nil => rfl
  | cons x rest ih =>
    obtain ⟨r, rfl, -⟩ := h x List.mem_cons_self
    rw [fetchable, List.length_cons, List.length_cons,
      ih fun y hy => h y (List.mem_cons_of_mem _ hy)]

private theorem fetchable_all {table : List FetchedRow}
    (h : ¬ (fetchable table).length < table.length) : table = (fetchable table).map .row := by
  induction table with
  | nil => rfl
  | cons x rest ih =>
    cases x with
    | row r =>
      rw [fetchable, List.map_cons, ← ih]
      simpa [fetchable] using h
    | undecodable id => simp [fetchable] at h

private theorem fetchable_map (rows : List StoredRow) : fetchable (rows.map .row) = rows := by
  induction rows with
  | nil => rfl
  | cons r rest ih => rw [List.map_cons, fetchable, ih]

/-- A table whose rows can all be fetched. -/
private theorem forensic_rows {H : HashFn} {rows : List StoredRow}
    (hadmitted : ∀ r ∈ rows, passesChecks r = true) :
    Forensic H (rows.map .row) ↔ Walkable (rows.map .row) := by
  have hwalk : Forensic H (rows.map .row) ↔
      ((walkRows H true genesisChainHash rows).2 = none ∧
        (walkRows H true genesisChainHash rows).1.map (·.rowId) =
          brokenIds H (some genesisChainHash) (rows.map .row)) := by
    simp only [Forensic, forensicWalk, fetchable_map, walkChain, List.length_map, lt_irrefl,
      if_false]
    cases hwalk : walkRows H true genesisChainHash rows with
    | mk mismatches exc => cases exc <;> simp
  rw [hwalk, walkRows_forensic H hadmitted]
  constructor
  · rintro ⟨hrows, hwidths, -⟩
    refine ⟨by simpa using hrows, ?_⟩
    rw [List.isChain_map]
    refine hwidths.imp ?_
    rintro r r' hwidth _ _ hx hy hfits
    obtain rfl := FetchedRow.row.inj hx
    obtain rfl := FetchedRow.row.inj hy
    exact hwidth hfits
  · rintro ⟨hrows, hwidths⟩
    refine ⟨by simpa using hrows, ?_, fun _ _ _ => List.length_replicate⟩
    rw [List.isChain_map] at hwidths
    exact hwidths.imp fun r r' hwidth => hwidth r r' rfl rfl

/-- A first row with a short chain hash, and one that follows it. -/
def shortHashTable : List FetchedRow := [.row (quietRow 1 [7]), .row (quietRow 2 quietHash2)]

end SchemaBrain.Audit
