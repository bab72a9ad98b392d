import Upstreamer.Config.Parser
import Upstreamer.Foundations.Dict

/-!
# Error pages

The pages that a configuration loads for status codes, and the response the proxy answers itself: a
page when one is on record for the status, the default text otherwise.
-/

set_option autoImplicit false

namespace Upstreamer

open Foundations

/-- The value of a header: opaque bytes. -/
abbrev HeaderValue := List UInt8

/-- The bytes of a text. -/
def bytesOf (s : String) : List UInt8 := s.toUTF8.data.toList

/-- `HeaderValue::to_str`: only visible ASCII characters, blanks and tabs are text. -/
def HeaderValue.toStr (v : HeaderValue) : Option String :=
  if v.all fun b => (32 ≤ b && b < 127) || b == 9 then
    some (String.ofList (v.map fun b => Char.ofNat b.toNat))
  else
    none

/-- A response: status, headers with their names in lower case, and body. -/
structure Response where
  status : UInt16
  headers : List (String × HeaderValue)
  body : List UInt8
  deriving DecidableEq

/-- `StatusCode::is_server_error`. -/
def Response.isServerError (resp : Response) : Bool :=
  decide (500 ≤ resp.status) && decide (resp.status < 600)

/-- `StatusCode::is_success`. -/
def Response.isSuccess (resp : Response) : Bool :=
  decide (200 ≤ resp.status) && decide (resp.status < 300)

abbrev ErrorPageStore := Dict UInt16 (List UInt8)

/-- `Path::join` of a directory and a file name. -/
def joinPath (directory file : String) : String :=
  if startsWith file "/" then file
  else if directory = "" || endsWith directory "/" then directory ++ file
  else directory ++ "/" ++ file

/-- `ErrorPageStore::from_config`: the pages that can be read, a later one for the same status
replacing an earlier one. -/
def ErrorPageStore.fromConfig (fs : FileSystem) (config : ErrorPagesConfig) : ErrorPageStore :=
  config.pages.foldl
    (fun pages page =>
      match fs.read (joinPath config.directory page.file) with
      | some content => pages.insert page.code content
      | none => pages)
    ∅

/-- `get_error_response`. -/
def errorResponse (pages : Option ErrorPageStore) (status : UInt16) (defaultBody : String) :
    Response :=
  match pages.bind fun store => store.lookup status with
  | some body => ⟨status, [("content-type", bytesOf "text/html")], body⟩
  | none => ⟨status, [], bytesOf defaultBody⟩

end Upstreamer
