import Mathlib.Data.List.Basic
import Mathlib.Data.List.TakeWhile
import Mathlib.Data.String.Basic

/-!
# Splitting a URL

`urllib.parse.urlparse` as far as RFC 3986 says it: the scheme, the authority with its host and
port, and the path. The user information before the last at sign of an authority is in none of
the host, the port and the path.
-/

namespace SchemaBrain.Base

/-! ## The split -/

/-- What ends an authority. -/
def endsAuthority (c : Char) : Bool := c = '/' || c = '?' || c = '#'

/-- A character of a scheme after its first letter. -/
def isSchemeChar (c : Char) : Bool := c.isAlphanum || c = '+' || c = '-' || c = '.'

/-- A scheme as it may be spelled. -/
def isScheme : List Char → Bool
  | [] => false
  | c :: rest => c.isAlpha && rest.all isSchemeChar

/-- The scheme in lower case, and what follows the colon. -/
def splitScheme (url : List Char) : List Char × List Char :=
  let name := url.takeWhile (· ≠ ':')
  let rest := url.dropWhile (· ≠ ':')
  if isScheme name ∧ rest ≠ [] then (name.map Char.toLower, rest.drop 1) else ([], url)

/-- The authority after two slashes, and what follows it. -/
def splitNetloc : List Char → List Char × List Char
  | '/' :: '/' :: rest => (rest.takeWhile (!endsAuthority ·), rest.dropWhile (!endsAuthority ·))
  | rest => ([], rest)

structure SplitUrl where
  scheme : List Char
  netloc : List Char
  path : List Char
  deriving DecidableEq

/-- `urlparse`, without the query and the fragment. -/
def urlparse (url : List Char) : SplitUrl :=
  let (scheme, rest) := splitScheme url
  let (netloc, rest) := splitNetloc rest
  ⟨scheme, netloc, rest.takeWhile fun c => c ≠ '?' && c ≠ '#'⟩

namespace SplitUrl

variable (parsed : SplitUrl)

/-- The authority after the last at sign. -/
def hostInfo : List Char := (parsed.netloc.reverse.takeWhile (· ≠ '@')).reverse

/-- The host and the text of the port. -/
def hostAndPort : List Char × List Char :=
  match parsed.hostInfo.dropWhile (· ≠ '[') with
  | _ :: bracketed => (bracketed.takeWhile (· ≠ ']'),
      ((bracketed.dropWhile (· ≠ ']')).dropWhile (· ≠ ':')).drop 1)
  | [] => (parsed.hostInfo.takeWhile (· ≠ ':'), (parsed.hostInfo.dropWhile (· ≠ ':')).drop 1)

/-- `hostname`: in lower case up to a zone. Empty for `None`. -/
def hostname : List Char :=
  let host := parsed.hostAndPort.1
  (host.takeWhile (· ≠ '%')).map Char.toLower ++ host.dropWhile (· ≠ '%')

/-- `port`: `none` is a `ValueError`. -/
def port : Option (Option Nat) :=
  let text := parsed.hostAndPort.2
  if text = [] then some none
  else if text.all Char.isDigit then
    let value := text.foldl (fun n c => 10 * n + (c.toNat - '0'.toNat)) 0
    if value ≤ 65535 then some (some value) else none
  else none

end SplitUrl

/-! ## URLs by their parts -/

/-- A URL with an authority, less its user information. -/
structure UrlParts where
  scheme : List Char
  hostInfo : List Char
  /-- The path, the query and the fragment. -/
  tail : List Char
  scheme_ok : isScheme scheme = true := by decide
  hostInfo_ok : ∀ c ∈ hostInfo, c ≠ '@' ∧ endsAuthority c = false := by decide
  tail_ok : ∀ c ∈ tail.head?, endsAuthority c = true := by decide

/-- A user name and password: no delimiter but a colon. -/
structure UserInfo where
  text : List Char
  text_ok : ∀ c ∈ text, endsAuthority c = false ∧ c ≠ '@' ∧ c ≠ '[' ∧ c ≠ ']' := by decide

/-- The authority with its user information, if it has one. -/
def UrlParts.netloc (url : UrlParts) : Option UserInfo → List Char
  | none => url.hostInfo
  | some user => user.text ++ '@' :: url.hostInfo

/-- The URL as it is written. -/
def UrlParts.text (url : UrlParts) (user : Option UserInfo) : List Char :=
  url.scheme ++ [':', '/', '/'] ++ url.netloc user ++ url.tail

theorem colon_not_mem_of_isScheme {scheme : List Char} (h : isScheme scheme = true) :
    ':' ∉ scheme := by
  cases scheme with
  | nil => simp
  | cons c rest =>
    simp only [isScheme, Bool.and_eq_true, List.all_eq_true] at h
    intro hmem
    rcases List.mem_cons.1 hmem with rfl | hmem
    · exact absurd h.1 (by decide)
    · exact absurd (h.2 ':' hmem) (by decide)

section Parts

variable (url : UrlParts) (user : Option UserInfo)

private theorem netloc_ok : ∀ c ∈ url.netloc user, endsAuthority c = false := by
  intro c hc
  cases user with
  | none => exact (url.hostInfo_ok c hc).2
  | some info =>
    rcases List.mem_append.1 hc with hc | hc
    · exact (info.text_ok c hc).1
    · rcases List.mem_cons.1 hc with rfl | hc
      · decide
      · exact (url.hostInfo_ok c hc).2

theorem splitScheme_text : splitScheme (url.text user) =
    (url.scheme.map Char.toLower, ['/', '/'] ++ url.netloc user ++ url.tail) := by
  have hcolon : ∀ c ∈ url.scheme, decide (c ≠ ':') = true := fun c hc =>
    decide_eq_true fun heq => colon_not_mem_of_isScheme url.scheme_ok (heq ▸ hc)
  simp only [splitScheme, UrlParts.text, List.append_assoc]
  rw [List.takeWhile_append_of_pos hcolon, List.dropWhile_append_of_pos hcolon]
  simp [url.scheme_ok]

theorem splitNetloc_text : splitNetloc (['/', '/'] ++ url.netloc user ++ url.tail) =
    (url.netloc user, url.tail) := by
  have hnetloc : ∀ c ∈ url.netloc user, (!endsAuthority c) = true := fun c hc => by
    simp [netloc_ok url user c hc]
  have htail := url.tail_ok
  simp only [splitNetloc, List.cons_append, List.nil_append]
  rw [List.takeWhile_append_of_pos hnetloc, List.dropWhile_append_of_pos hnetloc]
  cases heq : url.tail with
  | nil => simp
  | cons c rest =>
    rw [heq] at htail
    simp [htail c rfl]

/-- A URL splits into its parts. -/
theorem urlparse_text : urlparse (url.text user) =
    ⟨url.scheme.map Char.toLower, url.netloc user,
      url.tail.takeWhile fun c => c ≠ '?' && c ≠ '#'⟩ := by
  simp only [urlparse, splitScheme_text, splitNetloc_text]

/-- The host of a URL does not depend on its user information. -/
theorem hostInfo_text : (urlparse (url.text user)).hostInfo = url.hostInfo := by
  have hhost : ∀ c ∈ url.hostInfo.reverse, decide (c ≠ '@') = true := fun c hc =>
    decide_eq_true (url.hostInfo_ok c (List.mem_reverse.1 hc)).1
  rw [urlparse_text, SplitUrl.hostInfo]
  cases user with
  | none => simp only [UrlParts.netloc, List.takeWhile_eq_self_iff.2 hhost, List.reverse_reverse]
  | some info =>
    simp only [UrlParts.netloc, List.reverse_append, List.reverse_cons, List.append_assoc]
    rw [List.takeWhile_append_of_pos hhost]
    simp

theorem hostname_text (user' : Option UserInfo) :
    (urlparse (url.text user)).hostname = (urlparse (url.text user')).hostname := by
  simp only [SplitUrl.hostname, SplitUrl.hostAndPort, hostInfo_text]

theorem port_text (user' : Option UserInfo) :
    (urlparse (url.text user)).port = (urlparse (url.text user')).port := by
  simp only [SplitUrl.port, SplitUrl.hostAndPort, hostInfo_text]

end Parts

end SchemaBrain.Base
