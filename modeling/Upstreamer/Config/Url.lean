import Upstreamer.Foundations.Text

/-!
# URLs

The `url` crate is not part of the repository. A parsed URL is modelled by the components that the
crate's accessors return, and `Url.asStr` by the documented serialisation of those components. What
the crate promises about an `http` URL is carried by the structure: it has a host, and its path
begins with `/`, so that a URL written without a path is one whose path is `/`. A URL with a host
has an authority; one of another scheme may have an authority and no host.
-/

set_option autoImplicit false

namespace Upstreamer

open Foundations

/-- A parsed URL. -/
structure Url where
  scheme : String
  username : String
  password : Option String
  host : Option String
  port : Option UInt16
  path : String
  query : Option String
  fragment : Option String
  hasAuthority : Bool
  host_authority : host.isSome → hasAuthority = true
  http_host : scheme = "http" → host.isSome
  http_path : scheme = "http" → path.toList.head? = some '/'
  deriving DecidableEq

namespace Url

/-- User name and password with the separator that follows them. -/
def userinfo (u : Url) : String :=
  match u.password with
  | some p => u.username ++ ":" ++ p ++ "@"
  | none => if u.username = "" then "" else u.username ++ "@"

/-- `Url::authority`: user information, host and port. -/
def authority (u : Url) : String :=
  match u.host with
  | none => ""
  | some h => u.userinfo ++ h ++ (match u.port with
    | none => ""
    | some p => ":" ++ toString p.toNat)

/-- `Url::as_str` and `Url::to_string`: the serialisation. An authority may be empty, as in
`file:///tmp`. -/
def asStr (u : Url) : String :=
  u.scheme ++ ":" ++ (if u.hasAuthority then "//" ++ u.authority else "") ++ u.path ++
    (match u.query with
      | none => ""
      | some q => "?" ++ q) ++
    (match u.fragment with
      | none => ""
      | some f => "#" ++ f)

/-- The URL `http://host:port` with the given path. -/
def http (host : String) (port : Option UInt16) (path : String)
    (h : path.toList.head? = some '/' := by decide) : Url where
  scheme := "http"
  username := ""
  password := none
  host := some host
  port := port
  path := path
  query := none
  fragment := none
  hasAuthority := true
  host_authority := fun _ => rfl
  http_host := fun _ => rfl
  http_path := fun _ => h

/-- The URL `http://host:port`, which the crate parses with the path `/`. -/
def httpRoot (host : String) (port : Option UInt16) : Url := http host port "/"

theorem path_ne_empty_of_http {u : Url} (h : u.scheme = "http") : u.path ≠ "" := by
  intro hp
  have hhead := u.http_path h
  rw [hp] at hhead
  simp at hhead

/-- The text of a URL without query and fragment ends in `/` exactly when its path does. -/
theorem endsWithChar_asStr {u : Url} (h : u.scheme = "http") (hq : u.query = none)
    (hf : u.fragment = none) (c : Char) : endsWithChar c u.asStr = endsWithChar c u.path := by
  rw [asStr, hq, hf]
  simp only [String.append_empty]
  exact endsWithChar_append_of_ne_empty c _ (path_ne_empty_of_http h)

end Url

end Upstreamer
