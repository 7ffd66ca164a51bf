import SchemaBrain.Base.Json
import SchemaBrain.Base.Python

/-!
# Canonical serialisation of audit rows

`audit/canonical.py`. A row is a dict from field names to Python values; its canonical
form is sorted-key JSON over thirteen fields with the two binary fields in hex. Rows
with one canonical form agree on every field.
-/

namespace SchemaBrain.Audit

open SchemaBrain.Base

/-- The Python values that a row of the audit table is read into. -/
inductive PyValue
  | none
  | int (i : Int)
  | str (s : String)
  | bytes (b : Bytes)
  deriving DecidableEq, Repr

/-- `type(value).__name__`. -/
def PyValue.typeName : PyValue → String
  | .none => "NoneType"
  | .int _ => "int"
  | .str _ => "str"
  | .bytes _ => "bytes"

/-- A dict with string keys, in insertion order. -/
abbrev RowDict := List (String × PyValue)

/-- The thirteen content fields. The source holds a frozenset, whose iteration order is
unspecified; here it is iterated as listed. -/
def auditRowFields : List String :=
  ["id", "occurred_at", "source_connection_id", "caller_id", "tool_name", "status",
    "refusal_reason", "cost_class", "pii_categories", "ast_shape_hash", "rule_id", "fingerprint",
    "fingerprint_version"]

/-- Fields that may carry `None`. -/
def nullable : List String := ["caller_id", "refusal_reason", "ast_shape_hash", "rule_id"]

/-- Binary fields, rendered in hex. -/
def binary : List String := ["ast_shape_hash", "fingerprint"]

/-- Required width of `fingerprint`. -/
def fingerprintBytes : Nat := 32

/-- Required width of `ast_shape_hash`. -/
def astShapeHashBytes : Nat := 32

/-- `_hex_bytes`: the hex of a binary field of the right width. -/
def hexBytes (field : String) (value : PyValue) : Except PyError String :=
  match value with
  | .bytes b =>
    let expected := if field = "ast_shape_hash" then astShapeHashBytes else fingerprintBytes
    if b.length ≠ expected then
      .error (.valueError ("canonical_audit_row field " ++ pyRepr field ++ " must be exactly " ++
        toString expected ++ " bytes, got " ++ toString b.length))
    else .ok (hex b)
  | _ =>
    .error (.valueError ("canonical_audit_row field " ++ pyRepr field ++
      " must be bytes or None, got " ++ value.typeName))

/-- What the loop of `canonical_audit_row` puts into the payload for one field. -/
def payloadField (key : String) (value : PyValue) : Except PyError PyValue :=
  if value = .none then
    if key ∈ nullable then .ok .none
    else .error (.valueError ("canonical_audit_row field " ++ pyRepr key ++
      " cannot be None (only " ++ pyReprList (pySorted nullable) ++ " are nullable)"))
  else if key ∈ binary then (hexBytes key value).map .str
  else .ok value

/-- How `json.dumps` encodes one value; it knows no encoding of bytes. -/
def jsonDefault : PyValue → Except PyError Json
  | .none => .ok .null
  | .int i => .ok (.int i)
  | .str s => .ok (.str s)
  | .bytes _ => .error (.typeError "Object of type bytes is not JSON serializable")

/-- One member of the payload. -/
def payloadMember (row : RowDict) (key : String) : Except PyError (String × PyValue) :=
  match row.lookup key with
  | none => .error (.keyError key)
  | some value => (payloadField key value).map fun v => (key, v)

/-- One member of the encoded object. -/
def jsonMember (member : String × PyValue) : Except PyError (String × Json) :=
  (jsonDefault member.2).map fun v => (member.1, v)

/-- `canonical_audit_row`: the deterministic UTF-8 JSON bytes of one row. -/
def canonicalAuditRow (row : RowDict) : Except PyError Bytes :=
  let keys := row.map Prod.fst
  let missing := auditRowFields.filter (· ∉ keys)
  let extra := keys.filter (· ∉ auditRowFields)
  if missing ≠ [] then
    .error (.valueError ("canonical_audit_row missing required fields: " ++
      pyReprList (pySorted missing)))
  else if extra ≠ [] then
    .error (.valueError ("canonical_audit_row got unexpected fields: " ++
      pyReprList (pySorted extra)))
  else do
    let payload ← auditRowFields.mapM (payloadMember row)
    let members ← payload.mapM jsonMember
    return Json.dumpsBytes Json.escapeUtf8 (.obj members)

/-! ## Injectivity -/

/-- The encoding of one field's value under its key. -/
def fieldJson (key : String) (value : PyValue) : Except PyError Json := do
  let v ← payloadField key value
  jsonDefault v

/-- The scalar that a field is encoded as. -/
private theorem fieldJson_cases {key : String} {v : PyValue} {j : Json}
    (h : fieldJson key v = .ok j) :
    (v = .none ∧ j = .null) ∨ (key ∈ binary ∧ ∃ b, v = .bytes b ∧ j = .str (hex b)) ∨
      (key ∉ binary ∧ ((∃ i, v = .int i ∧ j = .int i) ∨ ∃ s, v = .str s ∧ j = .str s)) := by
  obtain ⟨w, hw, hj⟩ := bind_eq_ok h
  unfold payloadField at hw
  split at hw
  · next hnone =>
    split at hw
    · rw [← Except.ok.inj hw] at hj
      exact .inl ⟨hnone, (Except.ok.inj hj).symm⟩
    · simp at hw
  next hsome =>
  split at hw
  · next hbin =>
    obtain ⟨text, htext, rfl⟩ := map_eq_ok hw
    cases v with
    | bytes b =>
      simp only [hexBytes] at htext
      split at htext
      all_goals
        split at htext
        · simp at htext
        · rw [← Except.ok.inj htext] at hj
          exact .inr (.inl ⟨hbin, b, rfl, (Except.ok.inj hj).symm⟩)
    | _ => simp [hexBytes] at htext
  · next hbin =>
    rw [← Except.ok.inj hw] at hj
    cases v with
    | none => exact absurd rfl hsome
    | int i => exact .inr (.inr ⟨hbin, .inl ⟨i, rfl, (Except.ok.inj hj).symm⟩⟩)
    | str s => exact .inr (.inr ⟨hbin, .inr ⟨s, rfl, (Except.ok.inj hj).symm⟩⟩)
    | bytes b => simp [jsonDefault] at hj

/-- The canonical form of a field determines its value. -/
theorem fieldJson_inj {key : String} {v w : PyValue} {j : Json} (hv : fieldJson key v = .ok j)
    (hw : fieldJson key w = .ok j) : v = w := by
  rcases fieldJson_cases hv with
    ⟨rfl, rfl⟩ | ⟨hbin, b, rfl, rfl⟩ | ⟨hbin, ⟨i, rfl, rfl⟩ | ⟨s, rfl, rfl⟩⟩
  · rcases fieldJson_cases hw with ⟨rfl, -⟩ | ⟨-, c, rfl, h⟩ | ⟨-, ⟨k, rfl, h⟩ | ⟨t, rfl, h⟩⟩
    · rfl
    all_goals exact absurd h (by simp)
  · rcases fieldJson_cases hw with ⟨rfl, h⟩ | ⟨-, c, rfl, h⟩ | ⟨hnot, -⟩
    · exact absurd h (by simp)
    · rw [hex_injective (Json.str.inj h)]
    · exact absurd hbin hnot
  · rcases fieldJson_cases hw with ⟨rfl, h⟩ | ⟨hin, -⟩ | ⟨-, ⟨k, rfl, h⟩ | ⟨t, rfl, h⟩⟩
    · exact absurd h (by simp)
    · exact absurd hin hbin
    · rw [Json.int.inj h]
    · exact absurd h (by simp)
  · rcases fieldJson_cases hw with ⟨rfl, h⟩ | ⟨hin, -⟩ | ⟨-, ⟨k, rfl, h⟩ | ⟨t, rfl, h⟩⟩
    · exact absurd h (by simp)
    · exact absurd hin hbin
    · exact absurd h (by simp)
    · rw [Json.str.inj h]

/-- Every encoded field is a scalar, which key sorting leaves alone. -/
theorem sortKeys_fieldJson {key : String} {v : PyValue} {j : Json} (h : fieldJson key v = .ok j) :
    j.sortKeys = j := by
  rcases fieldJson_cases h with ⟨-, rfl⟩ | ⟨-, b, -, rfl⟩ | ⟨-, ⟨i, -, rfl⟩ | ⟨s, -, rfl⟩⟩ <;>
    rw [Json.sortKeys] <;> simp

private theorem payload_spec {row : RowDict} {keys : List String} {payload : RowDict}
    {members : List (String × Json)}
    (hpayload : List.Forall₂ (fun key m => payloadMember row key = .ok m) keys payload)
    (hmembers : List.Forall₂ (fun m j => jsonMember m = .ok j) payload members) :
    members.map Prod.fst = keys ∧
      ∀ m ∈ members, ∃ v, row.lookup m.1 = some v ∧ fieldJson m.1 v = .ok m.2 := by
  induction hpayload generalizing members with
  | nil =>
    cases hmembers
    exact ⟨rfl, by simp⟩
  | cons hkey _ ih =>
    next key _ _ _ =>
    cases hmembers with
    | cons hmember hrest =>
      obtain ⟨hkeys, hvalues⟩ := ih hrest
      unfold payloadMember at hkey
      split at hkey
      · simp at hkey
      next value hvalue =>
      obtain ⟨p, hp, rfl⟩ := map_eq_ok hkey
      obtain ⟨j, hj, rfl⟩ := map_eq_ok hmember
      refine ⟨by rw [List.map_cons, hkeys], ?_⟩
      intro m hm
      rcases List.mem_cons.mp hm with rfl | hm
      · refine ⟨value, hvalue, ?_⟩
        rw [fieldJson, hp]
        exact hj
      · exact hvalues m hm

/-- What a canonical form says about its row: the encoded members, one for each field. -/
theorem canonicalAuditRow_ok {row : RowDict} {b : Bytes} (h : canonicalAuditRow row = .ok b) :
    ∃ members : List (String × Json),
      members.map Prod.fst = auditRowFields ∧
      (∀ m ∈ members, ∃ v, row.lookup m.1 = some v ∧ fieldJson m.1 v = .ok m.2) ∧
      Json.dumpsBytes Json.escapeUtf8 (.obj members) = b := by
  simp only [canonicalAuditRow] at h
  split at h
  · simp at h
  split at h
  · simp at h
  obtain ⟨payload, hpayload, h⟩ := bind_eq_ok h
  obtain ⟨members, hmembers, h⟩ := bind_eq_ok h
  obtain ⟨hkeys, hvalues⟩ := payload_spec (mapM_eq_ok hpayload) (mapM_eq_ok hmembers)
  exact ⟨members, hkeys, hvalues, Except.ok.inj h⟩

private theorem sortKeysMembers_scalar {members : List (String × Json)}
    (h : ∀ m ∈ members, m.2.sortKeys = m.2) : Json.sortKeysMembers members = members := by
  induction members with
  | nil => rw [Json.sortKeysMembers]
  | cons m members ih =>
    rw [Json.sortKeysMembers, h m List.mem_cons_self,
      ih fun m' hm' => h m' (List.mem_cons_of_mem m hm')]

/-- Rows with one canonical form agree on every content field. -/
theorem canonicalAuditRow_inj {row row' : RowDict} {b : Bytes}
    (h : canonicalAuditRow row = .ok b) (h' : canonicalAuditRow row' = .ok b) :
    ∀ key ∈ auditRowFields, row.lookup key = row'.lookup key := by
  obtain ⟨members, hkeys, hvalues, rfl⟩ := canonicalAuditRow_ok h
  obtain ⟨members', hkeys', hvalues', hbytes⟩ := canonicalAuditRow_ok h'
  have hscalar : Json.sortKeysMembers members = members := sortKeysMembers_scalar fun m hm => by
    obtain ⟨v, -, hv⟩ := hvalues m hm
    exact sortKeys_fieldJson hv
  have hscalar' : Json.sortKeysMembers members' = members' :=
    sortKeysMembers_scalar fun m hm => by
      obtain ⟨v, -, hv⟩ := hvalues' m hm
      exact sortKeys_fieldJson hv
  have hsorted := Json.dumpsBytes_inj hbytes
  rw [Json.sortKeys, Json.sortKeys, hscalar, hscalar'] at hsorted
  -- Both objects sort to one list, and each is listed in the order of the fields.
  have hmembers : members = members' := by
    apply Json.members_eq_of_perm
    · exact (Json.sortedMembers_perm members).symm.trans
        ((Json.obj.inj hsorted) ▸ Json.sortedMembers_perm members')
    · rw [hkeys, hkeys']
    · rw [hkeys]
      decide
  intro key hkey
  rw [← hkeys] at hkey
  obtain ⟨m, hm, rfl⟩ := List.mem_map.mp hkey
  obtain ⟨v, hlookup, hv⟩ := hvalues m hm
  obtain ⟨v', hlookup', hv'⟩ := hvalues' m (hmembers ▸ hm)
  rw [hlookup, hlookup', fieldJson_inj hv hv']

end SchemaBrain.Audit
