import Mathlib.Data.List.DropRight
import Mathlib.Data.List.Infix
import SchemaBrain.Base.Bytes
import SchemaBrain.Base.Python
import SchemaBrain.Base.Url

/-!
# Source identifiers

The credential-free form of a connection URL, its short digest, and the test for a value that
looks like a URL.
-/

namespace SchemaBrain.Core

open Base

/-- `POSTGRES_SCHEMES`, with their default ports. -/
def postgresSchemes : List (String × Nat) := [
  ("postgresql", 5432),
  ("postgres", 5432),
  ("postgresql+psycopg", 5432),
  ("postgresql+psycopg2", 5432),
  ("postgresql+asyncpg", 5432)]

/-- `SOURCE_ID_LENGTH`. -/
def sourceIdLength : Nat := 16

/-- `canonical_url` from the parts of a URL with a scheme. -/
def canonicalForm (scheme hostname : List Char) (port : Option (Option Nat)) (path : List Char) :
    Except PyError String :=
  match postgresSchemes.lookup (String.ofList scheme) with
  | none => .error (.valueError ("Unsupported scheme " ++ pyRepr (String.ofList scheme) ++
      "; expected one of " ++ pyReprList (pySorted (postgresSchemes.map (·.1)))))
  | some defaultPort =>
    match port with
    | none => .error (.valueError "Port out of range 0-65535")
    | some port =>
      -- A port of zero is falsy.
      let port := match port with
        | none | some 0 => defaultPort
        | some n => n
      .ok (String.ofList scheme ++ "://" ++ String.ofList hostname ++ ":" ++ toString port ++
        String.ofList (path.rdropWhile (· = '/')))

/-- `canonical_url`. -/
def canonicalUrl (url : String) : Except PyError String :=
  let parsed := urlparse url.toList
  if parsed.scheme = [] then
    .error (.valueError ("Invalid connection URL (no scheme): " ++ pyRepr url))
  else canonicalForm parsed.scheme parsed.hostname parsed.port parsed.path

/-- `make_source_id`, over the digest. -/
def makeSourceId (H : HashFn) (url : String) : Except PyError String :=
  (canonicalUrl url).map fun canonical =>
    String.ofList ((hex (H (encodeUtf8 canonical)).1).toList.take sourceIdLength)

/-- `looks_like_connection_url`. -/
def looksLikeConnectionUrl (value : String) : Bool :=
  decide ("://".toList <:+: value.toList) &&
    postgresSchemes.any fun s => (s.1 ++ "://").toList.isPrefixOf value.toList

section Parts

variable (url : UrlParts) (user user' : Option UserInfo)

/-- The text of a URL. -/
def urlText : String := String.ofList (url.text user)

/-- The user information is not in the canonical form. -/
theorem canonicalUrl_text : canonicalUrl (urlText url user) = canonicalUrl (urlText url user') := by
  have hscheme : url.scheme.map Char.toLower ≠ [] := by
    cases hs : url.scheme with
    | nil => exact absurd url.scheme_ok (by simp [hs, isScheme])
    | cons c rest => simp
  have hparsed : ∀ user, (urlparse (url.text user)).scheme = url.scheme.map Char.toLower ∧
      (urlparse (url.text user)).path = url.tail.takeWhile fun c => c ≠ '?' && c ≠ '#' :=
    fun user => by rw [urlparse_text]; exact ⟨rfl, rfl⟩
  have hform : ∀ user, canonicalUrl (urlText url user) =
      canonicalForm (url.scheme.map Char.toLower) (urlparse (url.text user)).hostname
        (urlparse (url.text user)).port (url.tail.takeWhile fun c => c ≠ '?' && c ≠ '#') := by
    intro user
    have hchars : (urlText url user).toList = url.text user := String.toList_ofList
    rw [canonicalUrl, hchars, (hparsed user).1, if_neg hscheme, (hparsed user).2]
  rw [hform, hform, port_text url user user', hostname_text url user user']

theorem makeSourceId_text (H : HashFn) :
    makeSourceId H (urlText url user) = makeSourceId H (urlText url user') := by
  rw [makeSourceId, makeSourceId, canonicalUrl_text url user user']

private theorem prefix_scheme {name scheme l l' : List Char} (hname : ':' ∉ name)
    (hscheme : ':' ∉ scheme) (h : name ++ ':' :: l <+: scheme ++ ':' :: l') : name = scheme := by
  obtain ⟨more, h⟩ := h
  have htake : ∀ {name : List Char}, ':' ∉ name → ∀ l,
      (name ++ ':' :: l).takeWhile (· ≠ ':') = name := by
    intro name hname l
    have hpos : ∀ c ∈ name, decide (c ≠ ':') = true := fun c hc =>
      decide_eq_true fun heq => hname (heq ▸ hc)
    rw [List.takeWhile_append_of_pos hpos]
    simp
  rw [← htake hname (l ++ more), ← htake hscheme l', ← h]
  simp

/-- A URL is recognised by its scheme, in lower case as it is listed. -/
theorem looksLikeConnectionUrl_text : looksLikeConnectionUrl (urlText url user) =
    postgresSchemes.any fun s => s.1.toList = url.scheme := by
  have hinfix : "://".toList <:+: (urlText url user).toList :=
    ⟨url.scheme, url.netloc user ++ url.tail, by simp [urlText, UrlParts.text]⟩
  rw [looksLikeConnectionUrl, decide_eq_true hinfix, Bool.true_and, Bool.eq_iff_iff]
  simp only [List.any_eq_true, decide_eq_true_eq, List.isPrefixOf_iff_prefix]
  refine exists_congr fun s => and_congr_right fun hs => ?_
  have hcolon : ':' ∉ s.1.toList := by
    have hall : ∀ s ∈ postgresSchemes, ':' ∉ s.1.toList := by decide
    exact hall s hs
  have htext : (urlText url user).toList =
      url.scheme ++ ':' :: ('/' :: '/' :: (url.netloc user ++ url.tail)) := by
    simp [urlText, UrlParts.text]
  rw [htext, String.toList_append]
  constructor
  · exact prefix_scheme hcolon (colon_not_mem_of_isScheme url.scheme_ok)
  · intro heq
    rw [heq]
    exact ⟨url.netloc user ++ url.tail, by simp⟩

end Parts

end SchemaBrain.Core
