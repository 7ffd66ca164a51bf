import SchemaBrain.Base.Sha256
import SchemaBrain.Core.SourceId

/-!
# The source-scoped routes of the sidecar

The way of a source identifier through `dashboard/sidecar.py`: what each route reads under it
and what each route echoes. What a handler makes of the rows that it reads is a parameter; the
identifier reaches a body only where the handler puts it.
-/

namespace SchemaBrain.Dashboard

open Base Core

/-! ## The store and the handlers -/

/-- One row of `summarize_sources`. -/
structure SourceSummary where
  sourceConnectionId : String
  tableCount : Nat
  entityCount : Nat
  lastIndexedAt : Option Nat
  deriving DecidableEq, Repr

/-- The store as a sidecar reads it: its sources, and the rows under a key. -/
structure SidecarStore (R : Type) where
  sourceIds : List String
  summaries : List SourceSummary
  rows : String → R

/-- What the handlers make of the rows of one key: a body without the key. -/
structure Handlers (R β : Type) where
  piiMatrix : R → β
  listEntities : R → β
  /-- The drilldown into an entity, if `get_entity` finds it. -/
  entityColumns : String → R → Option β
  policy : R → β
  drift : R → β
  graph : R → β
  dictionary : R → β
  overview : R → β

/-- One source of `/api/meta`, with the engine where it is known. -/
structure MetaSource where
  summary : SourceSummary
  engine : Option String
  deriving DecidableEq, Repr

/-- The body of a response. -/
inductive Body (β : Type)
  /-- An `HTTPException`. -/
  | detail (text : String)
  | metaInfo (defaultSourceConnectionId : Option String) (sourceConnectionIds : List String)
      (sources : List MetaSource)
  /-- A body with its `source_connection_id`. -/
  | labelled (sourceConnectionId : String) (rest : β)
  | unlabelled (rest : β)
  deriving DecidableEq

structure Response (β : Type) where
  status : Nat
  body : Body β
  deriving DecidableEq

/-- The routes that resolve a source. -/
inductive Route
  | piiMatrix
  | entities
  | entityColumns (name : String)
  | policy
  | drift
  | graph
  | dict
  | overview
  deriving DecidableEq, Repr

/-- A request; `override` is the query parameter `source_connection_id`. -/
inductive Request
  | metaInfo
  | sourced (route : Route) (override : Option String)
  deriving DecidableEq, Repr

/-- A parameter that is given and not empty. -/
def given : Option String → Option String
  | some "" | none => none
  | some value => some value

section Routes

variable {R β : Type} (H : HashFn) (handlers : Handlers R β) (store : SidecarStore R)

/-- `_resolve_source`; `none` is the error without sources. -/
def resolveSource (config override : Option String) : Option String :=
  (given override).or ((given config).or store.sourceIds.head?)

/-- `_no_sources_http_error`. -/
def noSources : Response β :=
  ⟨409, .detail ("store has no indexed sources. Run `schemabrain index` against your " ++
    "source DB first.")⟩

/-- `_credential_safe_source_label`. -/
def credentialSafeSourceLabel (source : String) : String :=
  if looksLikeConnectionUrl source then
    match makeSourceId H source with
    | .ok sourceId => sourceId
    | .error _ => "source"
  else source

/-- `configured_id` and `configured_engine` of the meta route. -/
def configuredSource (config : Option String) : Option String × Option String :=
  match given config with
  | none => (none, none)
  | some configured =>
    if looksLikeConnectionUrl configured then
      match makeSourceId H configured with
      | .ok sourceId => (some sourceId, some "postgres")
      | .error _ => (none, none)
    else (some configured, none)

/-- `meta`. -/
def metaRoute (config : Option String) : Response β :=
  let (configuredId, configuredEngine) := configuredSource H config
  ⟨200, .metaInfo (configuredId.or store.sourceIds.head?) store.sourceIds
    (store.summaries.map fun s =>
      ⟨s, if some s.sourceConnectionId = configuredId then configuredEngine else none⟩)⟩

/-- `pii_matrix_route` and `policy_route`: the resolved source is read and echoed. -/
def plainRoute (handle : R → β) (resolved : String) : Response β :=
  ⟨200, .labelled resolved (handle (store.rows resolved))⟩

/-- `list_entities_route`: the resolved source is read, its safe label is echoed. -/
def listEntitiesRoute (resolved : String) : Response β :=
  ⟨200, .labelled (credentialSafeSourceLabel H resolved)
    (handlers.listEntities (store.rows resolved))⟩

/-- `entity_columns_route`. -/
def entityColumnsRoute (name resolved : String) : Response β :=
  match handlers.entityColumns name (store.rows resolved) with
  | none => ⟨404, .detail ("entity " ++ pyRepr name ++ " not found for source " ++
      pyRepr resolved)⟩
  | some body => ⟨200, .unlabelled body⟩

/-- `drift`, `graph`, `data_dictionary` and `overview`: the safe label is read and echoed. -/
def safeRoute (handle : R → β) (resolved : String) : Response β :=
  let safeSource := credentialSafeSourceLabel H resolved
  ⟨200, .labelled safeSource (handle (store.rows safeSource))⟩

/-- The response of a route to a resolved source. -/
def routeResponse (resolved : String) : Route → Response β
  | .piiMatrix => plainRoute store handlers.piiMatrix resolved
  | .policy => plainRoute store handlers.policy resolved
  | .entities => listEntitiesRoute H handlers store resolved
  | .entityColumns name => entityColumnsRoute handlers store name resolved
  | .drift => safeRoute H store handlers.drift resolved
  | .graph => safeRoute H store handlers.graph resolved
  | .dict => safeRoute H store handlers.dictionary resolved
  | .overview => safeRoute H store handlers.overview resolved

/-- The response of a sidecar to a request. -/
def respond (config : Option String) : Request → Response β
  | .metaInfo => metaRoute H store config
  | .sourced route override =>
    match resolveSource store config override with
    | none => noSources
    | some resolved => routeResponse H handlers store resolved route

/-! ## Two spellings of the credentials -/

/-- Whether a request is answered alike when the sidecar is configured with either of two URLs:
the exact condition for URLs that differ in their user information. -/
def CredentialFree (url : UrlParts) (user user' : Option UserInfo) : Request → Prop
  | .metaInfo => postgresSchemes.any fun s => s.1.toList = url.scheme
  | .sourced route override => given override ≠ none ∨
    match route with
    -- The raw URL is echoed.
    | .piiMatrix | .policy => False
    -- The rows are read under the raw URL.
    | .entities => (postgresSchemes.any fun s => s.1.toList = url.scheme) ∧
      handlers.listEntities (store.rows (urlText url user)) =
        handlers.listEntities (store.rows (urlText url user'))
    -- The raw URL is in the error.
    | .entityColumns name => ∃ body,
      handlers.entityColumns name (store.rows (urlText url user)) = some body ∧
        handlers.entityColumns name (store.rows (urlText url user')) = some body
    | .drift | .graph | .dict | .overview =>
      postgresSchemes.any fun s => s.1.toList = url.scheme

end Routes

section Proofs

variable {R β : Type} {H : HashFn} {handlers : Handlers R β} {store : SidecarStore R}
  {url : UrlParts} {user user' : Option UserInfo}

theorem urlText_ne_empty : urlText url user ≠ "" := by
  intro h
  have hchars : (urlText url user).toList = [] := by rw [h]; rfl
  simp [urlText, UrlParts.text] at hchars

theorem given_urlText : given (some (urlText url user)) = some (urlText url user) := by
  unfold given
  split
  · next h => exact absurd (Option.some.inj h) urlText_ne_empty
  · next h => cases h
  · next h => exact h.symm ▸ rfl

theorem resolveSource_urlText (override : Option String) :
    resolveSource store (some (urlText url user)) override =
      some ((given override).getD (urlText url user)) := by
  rw [resolveSource, given_urlText]
  cases given override <;> rfl

theorem credentialSafeSourceLabel_text (user user' : Option UserInfo)
    (h : (postgresSchemes.any fun s => s.1.toList = url.scheme) = true) :
    credentialSafeSourceLabel H (urlText url user) =
      credentialSafeSourceLabel H (urlText url user') := by
  simp only [credentialSafeSourceLabel, looksLikeConnectionUrl_text, h, if_true,
    makeSourceId_text url user user' H]

theorem credentialSafeSourceLabel_raw (user : Option UserInfo)
    (h : ¬(postgresSchemes.any fun s => s.1.toList = url.scheme) = true) :
    credentialSafeSourceLabel H (urlText url user) = urlText url user := by
  rw [credentialSafeSourceLabel, looksLikeConnectionUrl_text, if_neg h]

private theorem configuredSource_urlText (user : Option UserInfo) :
    configuredSource H (some (urlText url user)) =
      if (postgresSchemes.any fun s => s.1.toList = url.scheme) = true then
        match makeSourceId H (urlText url user) with
        | .ok sourceId => (some sourceId, some "postgres")
        | .error _ => (none, none)
      else (some (urlText url user), none) := by
  rw [configuredSource, given_urlText]
  simp only [looksLikeConnectionUrl_text]

private theorem metaRoute_eq_iff (hne : urlText url user ≠ urlText url user') :
    (metaRoute H store (some (urlText url user)) : Response β) =
        metaRoute H store (some (urlText url user')) ↔
      (postgresSchemes.any fun s => s.1.toList = url.scheme) = true := by
  by_cases h : (postgresSchemes.any fun s => s.1.toList = url.scheme) = true
  · have hsame : configuredSource H (some (urlText url user)) =
        configuredSource H (some (urlText url user')) := by
      rw [configuredSource_urlText, configuredSource_urlText, if_pos h, if_pos h,
        makeSourceId_text url user user' H]
    exact iff_of_true (by rw [metaRoute, metaRoute, hsame]) h
  · refine iff_of_false (fun heq => hne ?_) h
    simp only [metaRoute, configuredSource_urlText, if_neg h, Response.mk.injEq,
      Body.metaInfo.injEq] at heq
    exact Option.some.inj heq.2.1

private theorem plainRoute_ne (hne : urlText url user ≠ urlText url user') (handle : R → β) :
    plainRoute store handle (urlText url user) ≠ plainRoute store handle (urlText url user') := by
  intro heq
  simp only [plainRoute, Response.mk.injEq, Body.labelled.injEq] at heq
  exact hne heq.2.1

private theorem safeRoute_eq_iff (hne : urlText url user ≠ urlText url user') (handle : R → β) :
    safeRoute H store handle (urlText url user) = safeRoute H store handle (urlText url user') ↔
      (postgresSchemes.any fun s => s.1.toList = url.scheme) = true := by
  by_cases h : (postgresSchemes.any fun s => s.1.toList = url.scheme) = true
  · simp only [safeRoute, credentialSafeSourceLabel_text user user' h, h]
  · refine iff_of_false (fun heq => hne ?_) h
    simp only [safeRoute, credentialSafeSourceLabel_raw _ h, Response.mk.injEq,
      Body.labelled.injEq] at heq
    exact heq.2.1

private theorem listEntitiesRoute_eq_iff (hne : urlText url user ≠ urlText url user') :
    listEntitiesRoute H handlers store (urlText url user) =
        listEntitiesRoute H handlers store (urlText url user') ↔
      (postgresSchemes.any fun s => s.1.toList = url.scheme) = true ∧
        handlers.listEntities (store.rows (urlText url user)) =
          handlers.listEntities (store.rows (urlText url user')) := by
  simp only [listEntitiesRoute, Response.mk.injEq, Body.labelled.injEq, true_and]
  refine and_congr_left fun _ => ?_
  by_cases h : (postgresSchemes.any fun s => s.1.toList = url.scheme) = true
  · exact iff_of_true (credentialSafeSourceLabel_text user user' h) h
  · rw [credentialSafeSourceLabel_raw _ h, credentialSafeSourceLabel_raw _ h]
    exact iff_of_false hne h

private theorem entityColumnsRoute_eq_iff (hne : urlText url user ≠ urlText url user')
    (name : String) :
    entityColumnsRoute handlers store name (urlText url user) =
        entityColumnsRoute handlers store name (urlText url user') ↔
      ∃ body, handlers.entityColumns name (store.rows (urlText url user)) = some body ∧
        handlers.entityColumns name (store.rows (urlText url user')) = some body := by
  unfold entityColumnsRoute
  cases handlers.entityColumns name (store.rows (urlText url user)) with
  | none =>
    cases handlers.entityColumns name (store.rows (urlText url user')) with
    | none =>
      refine iff_of_false (fun heq => hne (pyRepr_injective ?_)) (by simp)
      simpa using heq
    | some body' => simp
  | some body =>
    cases handlers.entityColumns name (store.rows (urlText url user')) with
    | none => simp
    | some body' => simp [eq_comm]

/-- Two sidecars whose URLs differ in their user information answer a request alike exactly when
it is credential-free. -/
theorem respond_eq_iff (H : HashFn) (handlers : Handlers R β) (store : SidecarStore R)
    (url : UrlParts) (user user' : Option UserInfo) (request : Request) :
    respond H handlers store (some (urlText url user)) request =
        respond H handlers store (some (urlText url user')) request ↔
      urlText url user = urlText url user' ∨
        CredentialFree handlers store url user user' request := by
  by_cases hne : urlText url user = urlText url user'
  · rw [hne]
    exact iff_of_true rfl (.inl rfl)
  rw [or_iff_right hne]
  cases request with
  | metaInfo => exact metaRoute_eq_iff hne
  | sourced route override =>
    simp only [respond, resolveSource_urlText, CredentialFree]
    cases given override with
    | some value => simp
    | none =>
      simp only [ne_eq, not_true_eq_false, false_or, Option.getD_none]
      cases route with
      | piiMatrix => exact iff_of_false (plainRoute_ne hne _) not_false
      | policy => exact iff_of_false (plainRoute_ne hne _) not_false
      | entities => exact listEntitiesRoute_eq_iff hne
      | entityColumns name => exact entityColumnsRoute_eq_iff hne name
      | drift => exact safeRoute_eq_iff hne _
      | graph => exact safeRoute_eq_iff hne _
      | dict => exact safeRoute_eq_iff hne _
      | overview => exact safeRoute_eq_iff hne _

end Proofs

/-! ## A store without rows -/

/-- `postgresql://…@prod-db.internal:5432/orders`. -/
def ordersUrl : UrlParts where
  scheme := "postgresql".toList
  hostInfo := "prod-db.internal:5432".toList
  tail := "/orders".toList
  tail_ok c hc := by
    obtain rfl : '/' = c := Option.some_inj.1 hc
    rfl

def alice (password : List Char) (h : ∀ c ∈ password, c.isAlphanum = true) : UserInfo where
  text := "alice:".toList ++ password
  text_ok := by
    intro c hc
    rcases List.mem_append.1 hc with hc | hc
    · have hall : ∀ c ∈ "alice:".toList,
          endsAuthority c = false ∧ c ≠ '@' ∧ c ≠ '[' ∧ c ≠ ']' := by decide
      exact hall c hc
    · have halnum := h c hc
      refine ⟨?_, ?_, ?_, ?_⟩
      · simp only [endsAuthority, Bool.or_eq_false_iff, decide_eq_false_iff_not]
        refine ⟨⟨?_, ?_⟩, ?_⟩ <;> rintro rfl <;> exact absurd halnum (by decide)
      all_goals rintro rfl; exact absurd halnum (by decide)

/-- Handlers that find no entity. -/
def noRows : Handlers Unit Unit :=
  ⟨id, id, fun _ _ => none, id, id, id, id, id⟩

/-- The PII matrix echoes the password. -/
theorem not_respond_eq : ¬ ∀ (H : HashFn) (handlers : Handlers Unit Unit)
    (store : SidecarStore Unit) (url : UrlParts) (user user' : Option UserInfo)
    (request : Request),
    canonicalUrl (urlText url user) = canonicalUrl (urlText url user') →
    (canonicalUrl (urlText url user)).isOk = true →
      respond H handlers store (some (urlText url user)) request =
        respond H handlers store (some (urlText url user')) request := by
  intro h
  have hsame := h Sha256.digest noRows ⟨[], [], fun _ => ()⟩ ordersUrl
    (some (alice "s3cr3t".toList (by decide))) (some (alice "hunter2".toList (by decide)))
    (.sourced .piiMatrix none) (canonicalUrl_text ..) (by decide)
  simp only [respond, resolveSource_urlText] at hsame
  exact plainRoute_ne (by decide) _ hsame

end SchemaBrain.Dashboard
