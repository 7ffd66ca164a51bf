import SchemaBrain.Audit.Writer

/-!
# One writer and its failures

Whole `write` calls on one `AuditWriter`, each of which may fail at any of its steps, with
the writer closed and opened again between them. The cached tail and the table move
together.
-/

namespace SchemaBrain.Audit

open SchemaBrain.Base

/-- The steps of `write` at which an exception can strike. -/
inductive Fault
  | fingerprint
  | canonicalisation
  | chainHash
  | insert
  | commit
  deriving DecidableEq, Repr

/-- What a failed call raises. -/
inductive WriteError
  /-- `AuditWriter is closed`. -/
  | closed
  | raised (exc : PyError)
  /-- INSERT or commit refused by SQLite. -/
  | database
  /-- An exception from outside the modelled steps. -/
  | injected (fault : Fault)
  deriving DecidableEq, Repr

/-- One writer on a store file: the committed table, whether the connection is open, the
cached tail, and the rows that its calls have returned. -/
structure Session where
  table : List StoredRow
  isOpen : Bool
  lastChainHash : Bytes
  returned : List StoredRow

/-- A writer just opened on a new store. -/
def newSession : Session := ⟨[], true, genesisChainHash, []⟩

/-- An exception at a step of the call, if one is to strike there. -/
def strike (fault : Option Fault) (here : Fault) : Except WriteError Unit :=
  if fault = some here then .error (.injected here) else .ok ()

/-- An exception of the audit code. -/
def raise {α : Type} (result : Except PyError α) : Except WriteError α :=
  match result with
  | .ok a => .ok a
  | .error exc => .error (.raised exc)

/-- The INSERT under `with conn:`, which rolls back when it or the commit raises. -/
def insertTransaction (table : List StoredRow) (row : StoredRow) (fault : Option Fault) :
    Except WriteError (List StoredRow) := do
  strike fault .insert
  match insertRow table row with
  | none => .error .database
  | some table => do
    strike fault .commit
    return table

/-- `_require_conn`. -/
def requireConn (s : Session) : Except WriteError Unit :=
  if s.isOpen then .ok () else .error .closed

/-- The body of `write` up to the commit: the new table and the row to return. -/
def writeBody (H : HashFn) (s : Session) (draft : Draft) (occurredAt : String)
    (fault : Option Fault) : Except WriteError (List StoredRow × StoredRow × Bytes) := do
  requireConn s
  strike fault .fingerprint
  let nextId := nextRowId s.table
  strike fault .canonicalisation
  let canonical ← raise (canonicalAuditRow (writeDict H draft occurredAt nextId))
  strike fault .chainHash
  let chainHash ← raise (computeChainHash H s.lastChainHash canonical)
  let row := writeRow H draft occurredAt nextId chainHash
  let table ← insertTransaction s.table row fault
  return (table, row, chainHash)

/-- `AuditWriter.write`: a call that raises leaves the writer as it was. -/
def write (H : HashFn) (s : Session) (draft : Draft) (occurredAt : String)
    (fault : Option Fault) : Session × Except WriteError StoredRow :=
  match writeBody H s draft occurredAt fault with
  | .error e => (s, .error e)
  | .ok (table, row, chainHash) =>
    ({ s with table := table, lastChainHash := chainHash, returned := s.returned ++ [row] },
      .ok row)

/-- What happens to a writer. -/
inductive Call
  | write (draft : Draft) (occurredAt : String) (fault : Option Fault)
  | close
  /-- A new `AuditWriter` on the same file. -/
  | reopen

/-- The session after one call. -/
def call (H : HashFn) (s : Session) : Call → Session
  | .write draft occurredAt fault => (write H s draft occurredAt fault).1
  | .close => { s with isOpen := false }
  | .reopen =>
    match loadTailChainHash s.table with
    | .ok tail => { s with isOpen := true, lastChainHash := tail }
    -- The constructor raises, and there is no writer.
    | .error _ => { s with isOpen := false }

/-- The session after a sequence of calls. -/
def calls (H : HashFn) (sequence : List Call) : Session := sequence.foldl (call H) newSession

/-! ## Atomicity -/

/-- The table is what the calls returned, numbered and chained, and the cached tail is its
last hash. -/
structure Atomic (H : HashFn) (s : Session) : Prop where
  table_eq : s.table = s.returned
  numbered : s.table.map StoredRow.id = (List.range s.table.length).map fun i : Nat => (i : Int) + 1
  tail : ((s.table.getLast?.map StoredRow.chainHash).getD (.blob genesisChainHash)) =
    .blob s.lastChainHash
  clean : (walkChain H s.table true none).clean

/-- What every call keeps. -/
private structure SessionInv (H : HashFn) (s : Session) : Prop where
  table_eq : s.table = s.returned
  numbered : Numbered s.table
  chained : ChainIntact H s.table
  tail : s.table.getLast?.map StoredRow.chainHash = none ∧ s.lastChainHash = genesisChainHash ∨
    s.table.getLast?.map StoredRow.chainHash = some (.blob s.lastChainHash)
  width : s.lastChainHash.length = chainHashSize

variable {H : HashFn} {s : Session}

private theorem SessionInv.load (h : SessionInv H s) :
    loadTailChainHash s.table = .ok s.lastChainHash := by
  unfold loadTailChainHash
  rcases h.tail with ⟨hnone, htail⟩ | hsome
  · rw [Option.map_eq_none_iff.1 hnone, htail]
  · obtain ⟨row, hrow, hhash⟩ := Option.map_eq_some_iff.1 hsome
    simp [hrow, hhash, pyBytes, h.width, bind, Except.bind]

private theorem strike_eq_ok {fault : Option Fault} {here : Fault} {α : Type}
    {next : Unit → Except WriteError α} {a : α} (h : (strike fault here >>= next) = .ok a) :
    next () = .ok a := by
  obtain ⟨⟨⟩, -, h⟩ := bind_eq_ok h
  exact h

private theorem raise_eq_ok {α : Type} {result : Except PyError α} {a : α}
    (h : raise result = .ok a) : result = .ok a := by
  cases result with
  | error => simp [raise] at h
  | ok b => exact congrArg Except.ok (Except.ok.inj h)

/-- A body that returned computed the next row's hash from the cached tail and committed it. -/
private theorem writeBody_ok {draft : Draft} {occurredAt : String} {fault : Option Fault}
    {table : List StoredRow} {row : StoredRow} {chainHash : Bytes}
    (h : writeBody H s draft occurredAt fault = .ok (table, row, chainHash)) :
    writeChainHash H s.lastChainHash draft occurredAt (nextRowId s.table) = .ok chainHash ∧
      row = writeRow H draft occurredAt (nextRowId s.table) chainHash ∧
      insertRow s.table row = some table := by
  unfold writeBody at h
  obtain ⟨-, -, h⟩ := bind_eq_ok h
  have h := strike_eq_ok (strike_eq_ok h)
  obtain ⟨canonical, hcanonical, h⟩ := bind_eq_ok h
  have h := strike_eq_ok h
  obtain ⟨chainHash', hchain, h⟩ := bind_eq_ok h
  obtain ⟨table', hinsert, h⟩ := bind_eq_ok h
  simp only [pure, Except.pure, Except.ok.injEq, Prod.mk.injEq] at h
  obtain ⟨rfl, rfl, rfl⟩ := h
  have hinsert := strike_eq_ok hinsert
  refine ⟨?_, rfl, ?_⟩
  · simp [writeChainHash, raise_eq_ok hcanonical, raise_eq_ok hchain, bind, Except.bind]
  · split at hinsert
    · simp at hinsert
    · next hrow =>
      rw [hrow]
      exact congrArg some (Except.ok.inj (strike_eq_ok hinsert))

private theorem SessionInv.write (h : SessionInv H s) (draft : Draft) (occurredAt : String)
    (fault : Option Fault) : SessionInv H (write H s draft occurredAt fault).1 := by
  unfold Audit.write
  split
  · exact h
  next table row chainHash hbody =>
  obtain ⟨hchain, rfl, hinsert⟩ := writeBody_ok hbody
  obtain ⟨canonical, hentry, hlink⟩ := rowEntry_writeRow hchain
  have hnext := h.numbered.nextRowId
  obtain ⟨rfl, hid⟩ := insertRow_append h.numbered (by simp only [writeRow]; omega)
    (by simp only [writeRow]; omega) hinsert
  constructor
  · dsimp only
    rw [h.table_eq]
  · exact h.numbered.append hid
  · exact (chainIntact_append_iff h.chained h.load hentry).2 hlink
  · exact .inr (by simp [writeRow])
  · rw [hlink]
    exact (H _).property

private theorem SessionInv.call (h : SessionInv H s) (c : Call) : SessionInv H (call H s c) := by
  cases c with
  | write draft occurredAt fault => exact h.write draft occurredAt fault
  | close => exact ⟨h.table_eq, h.numbered, h.chained, h.tail, h.width⟩
  | reopen =>
    simp only [Audit.call, h.load]
    exact ⟨h.table_eq, h.numbered, h.chained, h.tail, h.width⟩

private theorem SessionInv.calls (sequence : List Call) : SessionInv H (calls H sequence) := by
  have hrun : ∀ s, SessionInv H s → SessionInv H (sequence.foldl (Audit.call H) s) := by
    induction sequence with
    | nil => exact fun _ h => h
    | cons c rest ih => exact fun s h => ih _ (h.call c)
  exact hrun _ ⟨rfl, rfl, ⟨[], .nil, trivial⟩, .inl ⟨rfl, rfl⟩, List.length_replicate⟩

/-- After every sequence of calls, failed ones and reopenings among them, the writer and the
table agree. -/
theorem atomic_calls (H : HashFn) (sequence : List Call) : Atomic H (calls H sequence) := by
  have hinv := SessionInv.calls (H := H) sequence
  refine ⟨hinv.table_eq, hinv.numbered, ?_, (walkChain_clean_iff H _ true).2 hinv.chained⟩
  rcases hinv.tail with ⟨hnone, htail⟩ | hsome
  · rw [hnone, htail, Option.getD_none]
  · rw [hsome, Option.getD_some]

example : ((calls Sha256.digest [.write quietDraft "t" none, .write quietDraft "t" (some .commit),
    .close, .write quietDraft "t" none, .reopen, .write quietDraft "t" none]).returned.map
      (·.id)) = [1, 2] := by decide +kernel

end SchemaBrain.Audit
