import SchemaBrain.Audit.Canonical
import SchemaBrain.Base.HashChain
import SchemaBrain.Base.Sha256

/-!
# Walking the audit chain

`audit/chain.py` and `audit/verify.py`. The walk recomputes each row's chain hash from
the stored hash before it. A clean walk is a hash chain over the canonical rows, so an
archived head pins every row up to it.
-/

namespace SchemaBrain.Audit

open SchemaBrain.Base

/-! ## The table -/

/-- What a column of TEXT affinity can store. -/
inductive TextCell
  | null
  | text (s : String)
  | blob (b : Bytes)
  deriving DecidableEq, Repr

/-- What a column of BLOB affinity can store; a real is kept by its bits. -/
inductive SqlValue
  | null
  | integer (i : Int)
  | real (bits : UInt64)
  | text (s : String)
  | blob (b : Bytes)
  deriving DecidableEq, Repr

/-- One row of `mcp_audit`. -/
structure StoredRow where
  id : Int
  occurredAt : TextCell
  sourceConnectionId : TextCell
  callerId : TextCell
  toolName : TextCell
  status : TextCell
  refusalReason : TextCell
  costClass : TextCell
  piiCategories : TextCell
  astShapeHash : SqlValue
  ruleId : TextCell
  fingerprint : SqlValue
  fingerprintVersion : TextCell
  chainHash : SqlValue
  anchorEntity : TextCell
  deriving DecidableEq, Repr

/-- The content of a row: its columns without the chain hash and the non-canonical one. -/
def StoredRow.content (row : StoredRow) : StoredRow :=
  { row with chainHash := .null, anchorEntity := .null }

/-- The value a TEXT column is read as. -/
def TextCell.toPy : TextCell → PyValue
  | .null => .none
  | .text s => .str s
  | .blob b => .bytes b

/-- `bytes(value)`: an integer gives that many zero bytes. -/
def pyBytes : SqlValue → Except PyError Bytes
  | .null => .error (.typeError "cannot convert 'NoneType' object to bytes")
  | .integer i =>
    if i < 0 then .error (.valueError "negative count") else .ok (List.replicate i.toNat 0)
  | .real _ => .error (.typeError "cannot convert 'float' object to bytes")
  | .text _ => .error (.typeError "string argument without an encoding")
  | .blob b => .ok b

/-- The value of a binary column, normalised to bytes unless NULL. -/
def binaryValue : SqlValue → Except PyError PyValue
  | .null => .ok .none
  | value => (pyBytes value).map .bytes

/-- The dict of a row whose binary columns were read as the given values; the columns are in
the order of `_ROW_COLUMNS`. -/
def canonicalDict (row : StoredRow) (astShapeHash fingerprint : PyValue) : RowDict :=
  [("id", .int row.id), ("occurred_at", row.occurredAt.toPy),
    ("source_connection_id", row.sourceConnectionId.toPy), ("caller_id", row.callerId.toPy),
    ("tool_name", row.toolName.toPy), ("status", row.status.toPy),
    ("refusal_reason", row.refusalReason.toPy), ("cost_class", row.costClass.toPy),
    ("pii_categories", row.piiCategories.toPy), ("ast_shape_hash", astShapeHash),
    ("rule_id", row.ruleId.toPy), ("fingerprint", fingerprint),
    ("fingerprint_version", row.fingerprintVersion.toPy)]

/-- `_row_to_canonical_dict`. -/
def rowToCanonicalDict (row : StoredRow) : Except PyError RowDict := do
  let astShapeHash ← binaryValue row.astShapeHash
  let fingerprint ← binaryValue row.fingerprint
  return canonicalDict row astShapeHash fingerprint

/-! ## The walk -/

/-- `CHAIN_HASH_SIZE`. -/
def chainHashSize : Nat := 32

/-- The previous hash of the first row: 32 zero bytes. -/
def genesisChainHash : Bytes := List.replicate chainHashSize 0

/-- One detected mismatch between the stored and the recomputed chain hash. -/
structure ChainMismatch where
  rowId : Int
  expectedHex : String
  actualHex : String
  deriving DecidableEq, Repr

/-- What a walk yields before it ends, and the exception it ends with, if any. -/
abbrev WalkResult := List ChainMismatch × Option PyError

/-- The walk's result after one more mismatch was yielded. -/
def yieldFirst (mismatch : ChainMismatch) (result : WalkResult) : WalkResult :=
  (mismatch :: result.1, result.2)

/-- The canonical bytes of a stored row. -/
def rowCanonical (row : StoredRow) : Except PyError Bytes := do
  let canonicalDict ← rowToCanonicalDict row
  canonicalAuditRow canonicalDict

section Walk

variable (H : HashFn)

/-- `compute_chain_hash`: `sha256(prev || canonical)`. -/
def computeChainHash (prevChainHash canonicalRow : Bytes) : Except PyError Bytes :=
  if prevChainHash.length ≠ chainHashSize then
    .error (.valueError ("prev_chain_hash must be exactly " ++ toString chainHashSize ++
      " bytes, got " ++ toString prevChainHash.length))
  else .ok (H (prevChainHash ++ canonicalRow))

/-- The loop of `walk_chain` over the remaining rows. -/
def walkRows (full : Bool) : Bytes → List StoredRow → WalkResult
  | _, [] => ([], none)
  | prevChain, row :: rest =>
    match pyBytes row.chainHash with
    | .error exc => ([], some exc)
    | .ok actualChain =>
      match rowCanonical row with
      | .error (.valueError exc) =>
        let mismatch : ChainMismatch :=
          ⟨row.id, "<canonicalisation-error: " ++ exc ++ ">", hex actualChain⟩
        if full then yieldFirst mismatch (walkRows full actualChain rest) else ([mismatch], none)
      -- Only `ValueError` is caught; anything else leaves the generator.
      | .error exc => ([], some exc)
      | .ok canonical =>
        match computeChainHash H prevChain canonical with
        | .error exc => ([], some exc)
        | .ok expectedChain =>
          if expectedChain ≠ actualChain then
            let mismatch : ChainMismatch := ⟨row.id, hex expectedChain, hex actualChain⟩
            if full then yieldFirst mismatch (walkRows full actualChain rest)
            else ([mismatch], none)
          else walkRows full actualChain rest

/-- `walk_chain` over a table listed by ascending id. -/
def walkChain (rows : List StoredRow) (full : Bool) (startAfterRowId : Option Int) : WalkResult :=
  match startAfterRowId with
  | none => walkRows H full genesisChainHash rows
  | some id =>
    match rows.find? (·.id = id) with
    | none => ([], none)
    | some anchor =>
      match pyBytes anchor.chainHash with
      | .error exc => ([], some exc)
      | .ok prevChain => walkRows H full prevChain (rows.filter (·.id > id))

/-- A walk that ended normally and yielded nothing. -/
def WalkResult.clean (result : WalkResult) : Prop := result = ([], none)

instance (result : WalkResult) : Decidable result.clean :=
  inferInstanceAs (Decidable (result = ([], none)))

end Walk

/-! ## Clean walks are hash chains -/

/-- A row as a chain entry: its canonical bytes and its stored hash. -/
def rowEntry (row : StoredRow) : Except PyError (Bytes × Bytes) := do
  let actualChain ← pyBytes row.chainHash
  let canonical ← rowCanonical row
  return (canonical, actualChain)

/-- The link of the audit chain. -/
def chainLink (H : HashFn) (prevChain canonical : Bytes) : Bytes := H (prevChain ++ canonical)

/-- The rows as chain entries. -/
def Entries (rows : List StoredRow) (entries : List (Bytes × Bytes)) : Prop :=
  List.Forall₂ (fun row entry => rowEntry row = .ok entry) rows entries

/-- The entries are functions of the rows. -/
theorem entries_unique {rows : List StoredRow} {entries entries' : List (Bytes × Bytes)}
    (h : Entries rows entries) (h' : Entries rows entries') : entries = entries' :=
  List.right_unique_forall₂' (fun _ _ _ hb hc => Except.ok.inj (hb.symm.trans hc)) h h'

/-- Everything a walk from `prevChain` hashes. -/
def walkedPreimages : Bytes → List StoredRow → List Bytes
  | _, [] => []
  | prevChain, row :: rest =>
    match rowEntry row with
    | .error _ => []
    | .ok (canonical, actualChain) => (prevChain ++ canonical) :: walkedPreimages actualChain rest

/-- The stored hash of the last row, or genesis when there is none. -/
def chainHead : Bytes → List StoredRow → Except PyError Bytes
  | prevChain, [] => .ok prevChain
  | _, row :: rest => do
    let actualChain ← pyBytes row.chainHash
    chainHead actualChain rest

theorem computeChainHash_of_width (H : HashFn) {prevChain : Bytes}
    (hwidth : prevChain.length = chainHashSize) (canonical : Bytes) :
    computeChainHash H prevChain canonical = .ok (chainLink H prevChain canonical) := by
  simp [computeChainHash, hwidth, chainLink]

private theorem length_chainLink (H : HashFn) (prevChain canonical : Bytes) :
    (chainLink H prevChain canonical).length = chainHashSize := (H _).property

/-- A walk is clean exactly when the rows are a hash chain of their canonical bytes. -/
theorem walkRows_clean_iff (H : HashFn) (full : Bool) {prevChain : Bytes}
    (hwidth : prevChain.length = chainHashSize) (rows : List StoredRow) :
    (walkRows H full prevChain rows).clean ↔
      ∃ entries, Entries rows entries ∧ HashChain.Chained (chainLink H) prevChain entries := by
  induction rows generalizing prevChain with
  | nil =>
    constructor
    · intro
      exact ⟨[], .nil, trivial⟩
    · intro
      rfl
  | cons row rest ih =>
    constructor
    · intro hclean
      rw [walkRows] at hclean
      split at hclean
      · simp [WalkResult.clean] at hclean
      next actualChain hactual =>
      split at hclean
      · split at hclean <;> simp [WalkResult.clean, yieldFirst] at hclean
      · simp [WalkResult.clean] at hclean
      next canonical hcanonical =>
      simp only [computeChainHash_of_width H hwidth] at hclean
      split at hclean
      · split at hclean <;> simp [WalkResult.clean, yieldFirst] at hclean
      next hsame =>
      have hlink : chainLink H prevChain canonical = actualChain := not_not.mp hsame
      have hnext : actualChain.length = chainHashSize := by
        rw [← hlink]
        exact length_chainLink H prevChain canonical
      obtain ⟨entries, hentries, hchained⟩ := (ih hnext).mp hclean
      refine ⟨(canonical, actualChain) :: entries, .cons ?_ hentries, hlink.symm, hchained⟩
      simp [rowEntry, hactual, hcanonical, bind, Except.bind, pure, Except.pure]
    · rintro ⟨entries, hentries, hchained⟩
      cases hentries with
      | cons hentry hrest =>
        next entry tail =>
        obtain ⟨canonical, digest⟩ := entry
        obtain ⟨actualChain, hactual, hentry⟩ := bind_eq_ok hentry
        obtain ⟨canonical', hcanonical, hentry⟩ := bind_eq_ok hentry
        obtain ⟨rfl, rfl⟩ := Prod.mk.inj (Except.ok.inj hentry)
        obtain ⟨hlink, hchained⟩ := hchained
        have hnext : actualChain.length = chainHashSize := by
          rw [hlink]
          exact length_chainLink H prevChain canonical'
        rw [walkRows, hactual]
        dsimp only
        rw [hcanonical]
        simp only [computeChainHash_of_width H hwidth]
        rw [if_neg (by simp [hlink])]
        exact (ih hnext).mpr ⟨tail, hrest, hchained⟩

/-- The hash of the last row is the head of its chain. -/
theorem chainHead_eq {rows : List StoredRow} {entries : List (Bytes × Bytes)}
    (h : Entries rows entries) (prevChain : Bytes) :
    chainHead prevChain rows = .ok (HashChain.head prevChain entries) := by
  induction h generalizing prevChain with
  | nil => rfl
  | @cons row entry _ _ hentry _ ih =>
    obtain ⟨canonical, digest⟩ := entry
    obtain ⟨actualChain, hactual, hentry⟩ := bind_eq_ok hentry
    obtain ⟨canonical', -, hentry⟩ := bind_eq_ok hentry
    obtain ⟨rfl, rfl⟩ := Prod.mk.inj (Except.ok.inj hentry)
    rw [chainHead, hactual]
    exact ih _

/-- The walk hashes the links of its chain. -/
theorem walkedPreimages_eq {rows : List StoredRow} {entries : List (Bytes × Bytes)}
    (h : Entries rows entries) (prevChain : Bytes) :
    walkedPreimages prevChain rows =
      (HashChain.inputs prevChain entries).map fun p => p.1 ++ p.2 := by
  induction h generalizing prevChain with
  | nil => rfl
  | @cons row entry _ _ hentry _ ih =>
    obtain ⟨canonical, digest⟩ := entry
    rw [walkedPreimages, hentry]
    simp only [HashChain.inputs, List.map_cons, ih]

private theorem inputs_width (H : HashFn) {prevChain : Bytes} {entries : List (Bytes × Bytes)}
    (hwidth : prevChain.length = chainHashSize)
    (h : HashChain.Chained (chainLink H) prevChain entries) :
    ∀ p ∈ HashChain.inputs prevChain entries, p.1.length = chainHashSize := by
  induction entries generalizing prevChain with
  | nil => simp [HashChain.inputs]
  | cons entry rest ih =>
    obtain ⟨canonical, digest⟩ := entry
    obtain ⟨hlink, hrest⟩ := h
    have hdigest : digest.length = chainHashSize := by
      rw [hlink]
      exact length_chainLink H prevChain canonical
    intro p hp
    rcases List.mem_cons.mp hp with rfl | hp
    · exact hwidth
    · exact ih hdigest hrest p hp

/-! ## Tamper evidence -/

/-- NULL or bytes: what the canonical form accepts in a binary field. -/
def SqlValue.isBytes : SqlValue → Bool
  | .null => true
  | .blob _ => true
  | _ => false

/-- Both binary columns hold NULL or bytes. -/
def StoredRow.bytesStored (row : StoredRow) : Bool :=
  row.astShapeHash.isBytes && row.fingerprint.isBytes

private theorem canonicalDict_ext {row row' : StoredRow} {a f a' f' : PyValue}
    (h : ∀ key ∈ auditRowFields,
      (canonicalDict row a f).lookup key = (canonicalDict row' a' f').lookup key) :
    canonicalDict row a f = canonicalDict row' a' f' := by
  simp only [auditRowFields, List.forall_mem_cons, canonicalDict] at h
  simpa [List.lookup_cons, canonicalDict] using h

/-- Rows with one canonical form are read as one dict. -/
theorem rowToCanonicalDict_inj {row row' : StoredRow} {b : Bytes}
    (h : rowCanonical row = .ok b) (h' : rowCanonical row' = .ok b) :
    rowToCanonicalDict row = rowToCanonicalDict row' := by
  obtain ⟨d, hd, hb⟩ := bind_eq_ok h
  obtain ⟨d', hd', hb'⟩ := bind_eq_ok h'
  have hlookup := canonicalAuditRow_inj hb hb'
  rw [hd, hd']
  obtain ⟨a, -, hd⟩ := bind_eq_ok hd
  obtain ⟨f, -, hd⟩ := bind_eq_ok hd
  obtain ⟨a', -, hd'⟩ := bind_eq_ok hd'
  obtain ⟨f', -, hd'⟩ := bind_eq_ok hd'
  rw [← Except.ok.inj hd, ← Except.ok.inj hd'] at hlookup ⊢
  rw [canonicalDict_ext hlookup]

private theorem TextCell.toPy_inj {c d : TextCell} (h : c.toPy = d.toPy) : c = d := by
  cases c <;> cases d <;> simp_all [TextCell.toPy]

private theorem binaryValue_inj {u v : SqlValue} {value : PyValue} (hu : u.isBytes = true)
    (hv : v.isBytes = true) (h : binaryValue u = .ok value) (h' : binaryValue v = .ok value) :
    u = v := by
  have hsame := h.trans h'.symm
  clear h h'
  cases u <;> cases v <;> simp_all [SqlValue.isBytes, binaryValue, pyBytes, Except.map]

/-- Rows read as one dict have one content, where the binary columns hold NULL or bytes. -/
theorem content_eq {row row' : StoredRow} {d : RowDict} (h : rowToCanonicalDict row = .ok d)
    (h' : rowToCanonicalDict row' = .ok d) (hstored : row.bytesStored = true)
    (hstored' : row'.bytesStored = true) : row.content = row'.content := by
  simp only [StoredRow.bytesStored, Bool.and_eq_true] at hstored hstored'
  obtain ⟨a, ha, h⟩ := bind_eq_ok h
  obtain ⟨f, hf, h⟩ := bind_eq_ok h
  obtain ⟨a', ha', h'⟩ := bind_eq_ok h'
  obtain ⟨f', hf', h'⟩ := bind_eq_ok h'
  have hdict : canonicalDict row a f = canonicalDict row' a' f' :=
    (Except.ok.inj h).trans (Except.ok.inj h').symm
  simp only [canonicalDict, List.cons.injEq, Prod.mk.injEq, true_and, and_true,
    PyValue.int.injEq] at hdict
  obtain ⟨hid, hocc, hsource, hcaller, htool, hstatus, hreason, hcost, hpii, rfl, hrule, rfl,
    hver⟩ := hdict
  obtain ⟨⟩ := row
  obtain ⟨⟩ := row'
  simp only [StoredRow.content, StoredRow.mk.injEq, and_true]
  exact ⟨hid, TextCell.toPy_inj hocc, TextCell.toPy_inj hsource, TextCell.toPy_inj hcaller,
    TextCell.toPy_inj htool, TextCell.toPy_inj hstatus, TextCell.toPy_inj hreason,
    TextCell.toPy_inj hcost, TextCell.toPy_inj hpii, binaryValue_inj hstored.1 hstored'.1 ha ha',
    TextCell.toPy_inj hrule, binaryValue_inj hstored.2 hstored'.2 hf hf', TextCell.toPy_inj hver⟩

private theorem dicts_eq {rows rows' : List StoredRow} {entries : List (Bytes × Bytes)}
    (h : Entries rows entries) (h' : Entries rows' entries) :
    List.Forall₂ (fun row row' => rowToCanonicalDict row = rowToCanonicalDict row' ∧
      ∃ d, rowToCanonicalDict row = .ok d) rows rows' := by
  induction h generalizing rows' with
  | nil =>
    cases h'
    exact .nil
  | cons hentry _ ih =>
    cases h' with
    | cons hentry' hrest' =>
      refine .cons ?_ (ih hrest')
      obtain ⟨actualChain, -, hentry⟩ := bind_eq_ok hentry
      obtain ⟨canonical, hcanonical, hentry⟩ := bind_eq_ok hentry
      obtain ⟨actualChain', -, hentry'⟩ := bind_eq_ok hentry'
      obtain ⟨canonical', hcanonical', hentry'⟩ := bind_eq_ok hentry'
      have hsame : canonical = canonical' :=
        (Prod.mk.inj ((Except.ok.inj hentry).trans (Except.ok.inj hentry').symm)).1
      subst hsame
      obtain ⟨d, hd, -⟩ := bind_eq_ok hcanonical
      exact ⟨rowToCanonicalDict_inj hcanonical hcanonical', d, hd⟩

private theorem contents_eq {rows rows' : List StoredRow}
    (h : List.Forall₂ (fun row row' => rowToCanonicalDict row = rowToCanonicalDict row' ∧
      ∃ d, rowToCanonicalDict row = .ok d) rows rows')
    (hstored : ∀ row ∈ rows ++ rows', row.bytesStored = true) :
    rows.map StoredRow.content = rows'.map StoredRow.content := by
  induction h with
  | nil => rfl
  | @cons row row' rows rows' hrow _ ih =>
    obtain ⟨hsame, d, hd⟩ := hrow
    have hcontent := content_eq hd (hsame ▸ hd) (hstored row (by simp)) (hstored row' (by simp))
    rw [List.map_cons, List.map_cons, hcontent, ih]
    intro r hr
    apply hstored
    rcases List.mem_append.mp hr with hr | hr <;> simp [hr]

/-- Two tables whose walks are clean and that agree on the chain hash of one row each agree on
every canonical field of every row up to it, and on how many rows that are. -/
theorem walkChain_tamper_evident (H : HashFn) (A B : List StoredRow) (fullA fullB : Bool)
    (hA : (walkChain H A fullA none).clean) (hB : (walkChain H B fullB none).clean)
    (hfree : CollisionFreeOn H
      (walkedPreimages genesisChainHash A ++ walkedPreimages genesisChainHash B))
    (hgenesis : ∀ p ∈ walkedPreimages genesisChainHash A ++ walkedPreimages genesisChainHash B,
      (H p : Bytes) ≠ genesisChainHash)
    (m n : Nat) (hm : m ≤ A.length) (hn : n ≤ B.length)
    (hhead : chainHead genesisChainHash (A.take m) = chainHead genesisChainHash (B.take n)) :
    m = n ∧ (A.take m).map rowToCanonicalDict = (B.take n).map rowToCanonicalDict ∧
      ((∀ row ∈ A.take m ++ B.take n, row.bytesStored = true) →
        (A.take m).map StoredRow.content = (B.take n).map StoredRow.content) := by
  have hwidth : genesisChainHash.length = chainHashSize := List.length_replicate
  obtain ⟨as, has, hchainA⟩ := (walkRows_clean_iff H fullA hwidth A).mp hA
  obtain ⟨bs, hbs, hchainB⟩ := (walkRows_clean_iff H fullB hwidth B).mp hB
  rw [walkedPreimages_eq has, walkedPreimages_eq hbs] at hfree hgenesis
  have hinputsA := inputs_width H hwidth hchainA
  have hinputsB := inputs_width H hwidth hchainB
  rw [chainHead_eq (List.forall₂_take m has), chainHead_eq (List.forall₂_take n hbs)] at hhead
  have hsubA : ∀ p ∈ HashChain.inputs genesisChainHash (as.take m),
      p ∈ HashChain.inputs genesisChainHash as := by
    intro p hp
    rw [← List.take_append_drop m as, HashChain.inputs_append]
    exact List.mem_append_left _ hp
  have hsubB : ∀ p ∈ HashChain.inputs genesisChainHash (bs.take n),
      p ∈ HashChain.inputs genesisChainHash bs := by
    intro p hp
    rw [← List.take_append_drop n bs, HashChain.inputs_append]
    exact List.mem_append_left _ hp
  have htakes : as.take m = bs.take n := by
    rw [← List.take_append_drop m as, HashChain.chained_append] at hchainA
    rw [← List.take_append_drop n bs, HashChain.chained_append] at hchainB
    refine HashChain.chained_determined (chainLink H) hchainA.1 hchainB.1 ?_ ?_ ?_
    · -- Both previous hashes have the width of a digest, so the preimages split in one place.
      intro p hp q hq hlink
      have hpre := hfree (p.1 ++ p.2) (by
          exact List.mem_append_left _ (List.mem_map_of_mem (hsubA p hp)))
        (q.1 ++ q.2) (List.mem_append_right _ (List.mem_map_of_mem (hsubB q hq)))
        (Subtype.ext hlink)
      obtain ⟨hprev, hcanonical⟩ := append_inj_of_width_left
        ((hinputsA p (hsubA p hp)).trans (hinputsB q (hsubB q hq)).symm) hpre
      exact Prod.ext hprev hcanonical
    · intro p hp
      apply hgenesis
      rw [← List.map_append]
      apply List.mem_map_of_mem (f := fun p : Bytes × Bytes => p.1 ++ p.2)
      rcases List.mem_append.mp hp with hp | hp
      · exact List.mem_append_left _ (hsubA p hp)
      · exact List.mem_append_right _ (hsubB p hp)
    · exact Except.ok.inj hhead
  have hdicts := dicts_eq (List.forall₂_take m has) (htakes ▸ List.forall₂_take n hbs)
  refine ⟨?_, ?_, ?_⟩
  · have hlen := hdicts.length_eq
    rw [List.length_take_of_le hm, List.length_take_of_le hn] at hlen
    exact hlen
  · rw [← List.forall₂_eq_eq_eq, List.forall₂_map_left_iff, List.forall₂_map_right_iff]
    exact hdicts.imp fun _ _ h => h.1
  · exact contents_eq hdicts

/-- A row of a quiet tool call, with the given id and chain hash. -/
def quietRow (id : Int) (chainHash : Bytes) : StoredRow where
  id := id
  occurredAt := .text "t"
  sourceConnectionId := .text "s"
  callerId := .null
  toolName := .text "m"
  status := .text "success"
  refusalReason := .null
  costClass := .text "small"
  piiCategories := .text ""
  astShapeHash := .null
  ruleId := .null
  fingerprint := .blob (List.replicate 32 7)
  fingerprintVersion := .text "fp-v1"
  chainHash := .blob chainHash
  anchorEntity := .null

/-- SHA-256 of the genesis hash and the first quiet row. -/
def quietHash1 : Bytes :=
  [0x00, 0x96, 0x72, 0xc5, 0xa8, 0x09, 0x6d, 0x05, 0x1c, 0x4b, 0x01, 0xcb, 0xc4, 0xa7, 0xfb, 0x9f,
    0x01, 0xd0, 0xd5, 0x26, 0xa4, 0x48, 0xf6, 0xf7, 0x79, 0x35, 0xa8, 0x6f, 0x25, 0x80, 0xaf, 0x32]

/-- SHA-256 of that hash and the second quiet row. -/
def quietHash2 : Bytes :=
  [0x4d, 0x47, 0xb9, 0xdc, 0x8d, 0x4c, 0xca, 0xb4, 0x8e, 0xe8, 0xa6, 0xaa, 0xb2, 0x5b, 0xa0, 0x44,
    0x52, 0x60, 0x61, 0x29, 0xb0, 0x85, 0xd6, 0xca, 0xb7, 0xa6, 0x2f, 0x31, 0x95, 0xef, 0x8c, 0xc6]

/-- An archived head after one row pins that row in a table that has grown since. -/
theorem walkChain_tamper_evident_grown :
    1 = 1 ∧ [quietRow 1 quietHash1].map rowToCanonicalDict =
        [quietRow 1 quietHash1].map rowToCanonicalDict ∧
      ((∀ row ∈ [quietRow 1 quietHash1] ++ [quietRow 1 quietHash1], row.bytesStored = true) →
        [quietRow 1 quietHash1].map StoredRow.content =
          [quietRow 1 quietHash1].map StoredRow.content) :=
  walkChain_tamper_evident Sha256.digest [quietRow 1 quietHash1]
    [quietRow 1 quietHash1, quietRow 2 quietHash2] false true (by decide +kernel)
    (by decide +kernel) (by decide +kernel) (by decide +kernel) 1 1 (by decide) (by decide) rfl

end SchemaBrain.Audit
