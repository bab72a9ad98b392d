import Upstreamer.Config.Url

/-!
# URIs

The `http` crate, which parses the URIs of outgoing requests, is not part of the repository. Which
authorities and which paths it accepts, and how long a URI may be, are parameters, as is the parser
itself. `parse_http` is what the crate documents of a text that begins with `http://`: the
authority ends at the first `/`, `?` or `#`, a fragment is discarded, the query begins at the first
`?`, and an absent path is read as `/`.

Every URL of the proxy is `http://`, an authority and a rest (`asStr_eq`). What is appended to its
text without trailing slashes is appended to the rest (`base_eq`), so the authority of the result is
that of the URL exactly when the rest is not lost or what is appended ends an authority.
-/

set_option autoImplicit false

namespace Upstreamer

open Foundations

/-- A URI, by what the accessors of the `http` crate return. -/
structure Uri where
  scheme : String
  host : String
  port : Option UInt16
  path : String
  query : Option String
  deriving DecidableEq

/-- The characters that end the authority of a URI. -/
def endsAuthority (c : Char) : Bool := c == '/' || c == '?' || c == '#'

/-- `PathAndQuery::path`: an absent path is the root. -/
def pathOf (pathAndQuery : String) : String :=
  let path := takeUntil (· == '?') pathAndQuery
  if path = "" then "/" else path

/-- `PathAndQuery::query`: what follows the first `?`. -/
def queryOf (pathAndQuery : String) : Option String :=
  match (dropUntil (· == '?') pathAndQuery).toList with
  | [] => none
  | _ :: query => some (String.ofList query)

/-- What is before the fragment of the text after an authority. -/
def beforeFragment (s : String) : String := takeUntil (· == '#') s

section Components

variable {s t : String}

theorem queryOf_append_of_free (h : Free (· == '?') s) (t : String) :
    queryOf (s ++ t) = queryOf t := by
  rw [queryOf, dropUntil_append_of_free h, queryOf]

theorem pathOf_append_of_free (h : Free (· == '?') s) (ht : t.toList.head? = some '/') :
    pathOf (s ++ t) = s ++ pathOf t := by
  obtain ⟨l, hl⟩ := List.head?_eq_some_iff.1 ht
  -- neither path is absent
  have hne : takeUntil (· == '?') t ≠ "" := by
    rw [takeUntil, hl, List.takeWhile_cons_of_pos (by decide), Ne, ← String.toList_inj,
      String.toList_ofList]
    exact List.cons_ne_nil _ _
  have hne' : s ++ takeUntil (· == '?') t ≠ "" := fun h => hne (String.append_eq_empty_iff.1 h).2
  rw [pathOf, takeUntil_append_of_free h, pathOf]
  simp only [if_neg hne, if_neg hne']

/-- A path followed by a query. -/
theorem pathOf_append_query (hs : s ≠ "") (h : Free (· == '?') s) (q : String) :
    pathOf (s ++ ("?" ++ q)) = s := by
  have hhead : ("?" ++ q).toList.head? = some '?' := head?_append rfl q
  have hquery : takeUntil (· == '?') ("?" ++ q) = "" := takeUntil_of_head hhead rfl
  rw [pathOf, takeUntil_append_of_free h, hquery, String.append_empty]
  exact if_neg hs

theorem queryOf_query (q : String) : queryOf ("?" ++ q) = some q := by
  have hhead : ("?" ++ q).toList = '?' :: q.toList := by
    rw [String.toList_append]
    rfl
  rw [queryOf, dropUntil_of_head (show _ = some '?' by rw [hhead]; rfl) rfl, hhead]
  exact congrArg some String.ofList_toList

theorem pathOf_of_free (hs : s ≠ "") (h : Free (· == '?') s) : pathOf s = s := by
  rw [pathOf, takeUntil_of_free h]
  exact if_neg hs

theorem queryOf_of_free (h : Free (· == '?') s) : queryOf s = none := by
  rw [queryOf, dropUntil_of_free h]
  rfl

/-- A query is shorter than the text it is the query of. -/
theorem length_lt_of_queryOf {q : String} (h : queryOf s = some q) : q.length < s.length := by
  rw [queryOf] at h
  split at h
  · cases h
  · next c query hquery =>
    obtain rfl := Option.some.inj h
    have hsplit := congrArg String.length (takeUntil_append_dropUntil (· == '?') s)
    have hdrop : (dropUntil (· == '?') s).length = query.length + 1 := by
      rw [← String.length_toList, hquery, List.length_cons]
    rw [String.length_append, hdrop] at hsplit
    rw [String.length_ofList]
    omega

end Components

/-- The text that follows `http://`, read as authority, path and query. -/
def readHttp (authority : String → Option (String × Option UInt16)) (acceptsPath : String → Bool)
    (maxLength : Nat) (s : String) : Option Uri :=
  if maxLength < ("http://" ++ s).utf8ByteSize then none
  else (authority (takeUntil endsAuthority s)).bind fun hp =>
    let pathAndQuery := beforeFragment (dropUntil endsAuthority s)
    if acceptsPath pathAndQuery then
      some ⟨"http", hp.1, hp.2, pathOf pathAndQuery, queryOf pathAndQuery⟩
    else none

/-- A URI parser: what it accepts as an authority, read as host and port, and as path and query, and
how many bytes a URI may have. -/
structure UriParser where
  parse : String → Option Uri
  authority : String → Option (String × Option UInt16)
  acceptsPath : String → Bool
  maxLength : Nat
  parse_http : ∀ s, parse ("http://" ++ s) = readHttp authority acceptsPath maxLength s

/-- The crate reads the authority of the URL as its host and port, if it accepts it. -/
def UriParser.ReadsAuthority (uris : UriParser) (url : Url) : Prop :=
  ∀ hp ∈ uris.authority url.authority, url.host = some hp.1 ∧ url.port = hp.2

/-- The URI has the scheme, the host and the port of the URL, where an absent port is the one of the
scheme. -/
structure Uri.At (uri : Uri) (url : Url) : Prop where
  scheme_eq : uri.scheme = url.scheme
  host_eq : some uri.host = url.host
  port_eq : uri.port.getD 80 = url.port.getD 80

namespace Url

/-- Host and port, without user information. -/
def hostPort (u : Url) : String :=
  match u.host with
  | none => ""
  | some h => h ++ (match u.port with
    | none => ""
    | some p => ":" ++ toString p.toNat)

/-- What follows the authority in the text of a URL. -/
def rest (u : Url) : String :=
  u.path ++ (match u.query with
    | none => ""
    | some q => "?" ++ q) ++
  (match u.fragment with
    | none => ""
    | some f => "#" ++ f)

/-- What the `url` crate promises about the text of an `http` URL: components are percent-encoded
where they contain a character that would end them. -/
structure Serialised (u : Url) : Prop where
  authority_ne_empty : u.authority ≠ ""
  authority_free : Free endsAuthority u.authority
  path_free : Free (fun c => c == '?' || c == '#') u.path
  query_free : ∀ q ∈ u.query, Free (· == '#') q

variable {u : Url}

theorem authority_eq_of_host (h : u.host.isSome) : u.authority = u.userinfo ++ u.hostPort := by
  obtain ⟨host, hhost⟩ := Option.isSome_iff_exists.1 h
  rw [authority, hostPort, hhost]
  exact String.append_assoc

theorem userinfo_eq_empty_iff : u.userinfo = "" ↔ u.username = "" ∧ u.password = none := by
  rw [userinfo]
  cases hpassword : u.password with
  | none => simp
  | some password => simp

theorem asStr_eq (h : u.scheme = "http") : u.asStr = "http://" ++ (u.authority ++ u.rest) := by
  rw [asStr, h, if_pos (u.host_authority (u.http_host h)), rest]
  simp only [String.append_assoc]
  rfl

/-- The text after the authority begins with the path. -/
theorem head?_rest (h : u.scheme = "http") : u.rest.toList.head? = some '/' := by
  rw [rest, String.append_assoc]
  exact head?_append (u.http_path h) _

/-- What is left of it when it is trimmed still begins with a slash, whatever is appended. -/
theorem head?_trimmed_append (h : u.scheme = "http") (hne : trimEndMatches '/' u.rest ≠ "")
    (t : String) : (trimEndMatches '/' u.rest ++ t).toList.head? = some '/' := by
  refine head?_append ?_ t
  rw [head?_trimEndMatches '/' hne, head?_rest h]

/-- Trimming the text of a URL trims what follows the authority. -/
theorem base_eq (h : u.scheme = "http") (hs : u.Serialised) :
    trimEndMatches '/' u.asStr = "http://" ++ (u.authority ++ trimEndMatches '/' u.rest) := by
  have hends : endsWithChar '/' u.authority = false := by
    rw [endsWithChar, beq_eq_false_iff_ne]
    intro hlast
    exact absurd (hs.authority_free '/' (List.mem_of_getLast? hlast)) (by decide)
  rw [asStr_eq h, trimEndMatches_append_append hs.authority_ne_empty hends]

end Url

/-- What the crate makes of a text that continues an authority. -/
theorem UriParser.parse_eq_some_iff (uris : UriParser) {authority : String}
    (hfree : Free endsAuthority authority) (tail : String) (uri : Uri) :
    uris.parse ("http://" ++ (authority ++ tail)) = some uri ↔
      ("http://" ++ (authority ++ tail)).utf8ByteSize ≤ uris.maxLength ∧
      ∃ hp, uris.authority (authority ++ takeUntil endsAuthority tail) = some hp ∧
        uris.acceptsPath (beforeFragment (dropUntil endsAuthority tail)) = true ∧
        uri = ⟨"http", hp.1, hp.2, pathOf (beforeFragment (dropUntil endsAuthority tail)),
          queryOf (beforeFragment (dropUntil endsAuthority tail))⟩ := by
  rw [uris.parse_http, readHttp, takeUntil_append_of_free hfree, dropUntil_append_of_free hfree]
  by_cases hlong : uris.maxLength < ("http://" ++ (authority ++ tail)).utf8ByteSize
  · rw [if_pos hlong]
    refine iff_of_false (by simp) fun h => ?_
    exact absurd h.1 (Nat.not_le.2 hlong)
  · rw [if_neg hlong, Option.bind_eq_some_iff]
    have hiff : ∀ hp : String × Option UInt16, ∀ pq : String,
        (if uris.acceptsPath pq then some (Uri.mk "http" hp.1 hp.2 (pathOf pq) (queryOf pq))
          else none) = some uri ↔
        uris.acceptsPath pq = true ∧ uri = ⟨"http", hp.1, hp.2, pathOf pq, queryOf pq⟩ := by
      intro hp pq
      split
      · next haccepts => rw [Option.some.injEq, eq_comm, and_iff_right haccepts]
      · next hrejects => exact iff_of_false (by simp) fun h => hrejects h.1
    simp only [hiff]
    exact ⟨fun h => ⟨Nat.not_lt.1 hlong, h⟩, And.right⟩

/-! ## A parser -/

/-- The number that a port is written as. -/
def readPort (digits : List Char) : Option UInt16 :=
  let value := digits.foldl (fun n c => n * 10 + (c.toNat - 48)) 0
  if digits ≠ [] ∧ digits.all Char.isDigit ∧ value < 65536 then some (UInt16.ofNat value) else none

/-- Host and port of an authority without brackets: what follows the user information, split at the
colon. -/
def readAuthority (s : String) : Option (String × Option UInt16) :=
  let hostPort := (s.toList.reverse.takeWhile (· != '@')).reverse
  if hostPort = [] ∨ s.toList.any Char.isWhitespace then none
  else
    match hostPort.dropWhile (· != ':') with
    | [] => some (String.ofList hostPort, none)
    | _ :: digits => some (String.ofList (hostPort.takeWhile (· != ':')), readPort digits)

namespace UriParser

/-- A parser for authorities without brackets that rejects blanks. -/
def simple : UriParser where
  parse text :=
    if startsWith text "http://" then
      readHttp readAuthority (fun s => !s.toList.any Char.isWhitespace) 65534
        (String.ofList (text.toList.drop 7))
    else none
  authority := readAuthority
  acceptsPath s := !s.toList.any Char.isWhitespace
  maxLength := 65534
  parse_http s := by
    have hdrop : String.ofList (("http://" ++ s).toList.drop 7) = s := by
      rw [String.toList_append]
      exact String.ofList_toList
    rw [if_pos (startsWith_append "http://" s), hdrop]

example : simple.parse "http://user@127.0.0.1:3000?a#b" =
    some ⟨"http", "127.0.0.1", some 3000, "/", some "a"⟩ := by decide

end UriParser

end Upstreamer
