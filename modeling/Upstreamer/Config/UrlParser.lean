import Upstreamer.Config.Uri
import Upstreamer.Foundations.IpText

/-!
# Parsing URLs

The `url` crate, which parses the URLs of discovered services, is not part of the repository. A
`UrlParser` is what the crate documents, with the URL standard, of a text that is `http://` and an
authority of plain characters: the host ends at the first colon that is not in brackets, what
follows is the port in decimal digits, a port that is absent or the one of the scheme is left out,
and the path is `/`. Which hosts there are is left to the host parser, which keeps the text of an
IPv4 address and reads letters as a domain name.

So a host that is pasted in front of a port comes back if it has no colon (`parse_pasted`), and
with a colon outside brackets the text is not a URL (`parse_pasted_of_colon`).
-/

set_option autoImplicit false

namespace Upstreamer

open Foundations

/-- Letters, digits, and what else addresses and ports are written with. -/
def isPlainChar (c : Char) : Bool :=
  c.isAlphanum || c == '.' || c == ':' || c == '[' || c == ']'

/-- The host of an authority, and what follows the colon after it. -/
def splitHost (inBrackets : Bool) : List Char → List Char × Option (List Char)
  | [] => ([], none)
  | c :: rest =>
      if c = ':' ∧ inBrackets = false then ([], some rest)
      else
        let (host, port) :=
          splitHost (if c = '[' then true else if c = ']' then false else inBrackets) rest
        (c :: host, port)

example : splitHost false "[fd00::1]:8080".toList = ("[fd00::1]".toList, some "8080".toList) := by
  decide

/-- The port of an `http` URL, left out where it is absent or the one of the scheme. -/
def readUrlPort (digits : List Char) : Option (Option UInt16) :=
  if digits = [] then some none
  else (readPort digits).map fun port => if port = 80 then none else some port

/-- The authority that follows `http://`, read as host and port. -/
def readHttpUrl (parseHost : String → Option String) (authority : String) : Option Url :=
  let (host, port) := splitHost false authority.toList
  if host = [] then none
  else do
    let host ← parseHost (String.ofList host)
    let port ← match port with
      | none => some none
      | some digits => readUrlPort digits
    some (Url.httpRoot host port)

/-- A URL parser and its host parser. -/
structure UrlParser where
  parse : String → Option Url
  host : String → Option String
  parse_http : ∀ authority : String, (∀ c ∈ authority.toList, isPlainChar c = true) →
    parse ("http://" ++ authority) = readHttpUrl host authority
  host_ipv4 : ∀ text : String, (readIpv4 text.toList).isSome → host text = some text
  host_letters : ∀ text : String, text ≠ "" → (∀ c ∈ text.toList, c.isAlpha = true) →
    host text = some (String.ofList (text.toList.map Char.toLower))

/-- `Url::port_or_known_default` of an `http` URL. -/
def Url.portOrKnownDefault (u : Url) : UInt16 := u.port.getD 80

/-! ## Decimal ports -/

theorem toList_toString_isDigit (n : Nat) : ∀ c ∈ (toString n).toList, c.isDigit = true := by
  intro c hc
  rw [Nat.toString_eq_repr, Nat.toList_repr] at hc
  exact Nat.isDigit_of_mem_toDigits (by decide) (by decide) hc

theorem toList_toString_ne_nil (n : Nat) : (toString n).toList ≠ [] := by
  rw [Nat.toString_eq_repr, Nat.toList_repr]
  exact Nat.toDigits_ne_nil

/-- A decimal number in range is read as a port. -/
theorem readPort_toString (n : Nat) :
    readPort (toString n).toList = if n < 65536 then some (UInt16.ofNat n) else none := by
  have hvalue : (toString n).toList.foldl (fun n c => n * 10 + (c.toNat - 48)) 0 = n := by
    have hdigits := Nat.ofDigitChars_ten_toDigits (n := n)
    simp only [Nat.ofDigitChars_eq_foldl, Nat.mul_comm 10] at hdigits
    rw [Nat.toString_eq_repr, Nat.toList_repr]
    exact hdigits
  have hall : (toString n).toList.all Char.isDigit = true :=
    List.all_eq_true.2 (toList_toString_isDigit n)
  simp only [readPort, hvalue, hall, toList_toString_ne_nil, ne_eq, not_false_iff, true_and]

/-! ## A host pasted in front of a port -/

/-- Without colons and brackets, the host is what is before the colon. -/
theorem splitHost_append {host : List Char} (hcolon : ':' ∉ host) (hopen : '[' ∉ host)
    (rest : List Char) : splitHost false (host ++ ':' :: rest) = (host, some rest) := by
  induction host with
  | nil => rfl
  | cons c host ih =>
    rw [List.mem_cons, not_or] at hcolon hopen
    have hc : ¬ (c = ':' ∧ false = false) := fun h => hcolon.1 h.1.symm
    rw [List.cons_append, splitHost, if_neg hc, if_neg (Ne.symm hopen.1), ite_self,
      ih hcolon.2 hopen.2]

theorem readUrlPort_toString (port : UInt16) :
    readUrlPort (toString port.toNat).toList = some (if port = 80 then none else some port) := by
  rw [readUrlPort, if_neg (toList_toString_ne_nil _), readPort_toString, if_pos port.toNat_lt,
    UInt16.ofNat_toNat, Option.map_some]

/-- A text with a colon is no port. -/
theorem readUrlPort_of_colon {digits : List Char} (h : ':' ∈ digits) :
    readUrlPort digits = none := by
  have hall : ¬ digits.all Char.isDigit = true := fun hall =>
    absurd (List.all_eq_true.1 hall ':' h) (by decide)
  rw [readUrlPort, if_neg (List.ne_nil_of_mem h), readPort, if_neg fun hdigits => hall hdigits.2.1]
  rfl

namespace UrlParser

variable (parser : UrlParser) {host : String} (port : UInt16)

theorem parse_authority (hplain : ∀ c ∈ host.toList, isPlainChar c = true) :
    parser.parse ("http://" ++ host ++ ":" ++ toString port.toNat) =
      readHttpUrl parser.host (host ++ (":" ++ toString port.toNat)) := by
  rw [String.append_assoc, String.append_assoc]
  refine parser.parse_http _ fun c hc => ?_
  rw [String.toList_append, String.toList_append, List.mem_append, List.mem_append] at hc
  rcases hc with hc | hc | hc
  · exact hplain c hc
  · obtain rfl := List.mem_singleton.1 hc
    rfl
  · simp [isPlainChar, Char.isAlphanum, toList_toString_isDigit _ c hc]

theorem toList_pasted (host : String) :
    (host ++ (":" ++ toString port.toNat)).toList =
      host.toList ++ ':' :: (toString port.toNat).toList := by
  rw [String.toList_append, String.toList_append]
  rfl

/-- **A host without a colon comes back.** -/
theorem parse_pasted (hplain : ∀ c ∈ host.toList, isPlainChar c = true) (hne : host ≠ "")
    (hcolon : ':' ∉ host.toList) (hopen : '[' ∉ host.toList) :
    parser.parse ("http://" ++ host ++ ":" ++ toString port.toNat) =
      (parser.host host).map fun h => Url.httpRoot h (if port = 80 then none else some port) := by
  have hne' : host.toList ≠ [] := fun h => hne (String.toList_inj.1 h)
  rw [parser.parse_authority port hplain, readHttpUrl, toList_pasted,
    splitHost_append hcolon hopen]
  simp only [if_neg hne', readUrlPort_toString, String.ofList_toList]
  cases parser.host host with
  | none => rfl
  | some h => rfl

/-- **A host with a colon outside brackets makes no URL.** -/
theorem parse_pasted_of_colon (hplain : ∀ c ∈ host.toList, isPlainChar c = true)
    (hcolon : ':' ∈ host.toList) (hopen : '[' ∉ host.toList) :
    parser.parse ("http://" ++ host ++ ":" ++ toString port.toNat) = none := by
  obtain ⟨before, after, hsplit, hbefore⟩ := List.eq_append_cons_of_mem hcolon
  have hopen' : '[' ∉ before := fun h => hopen (hsplit ▸ List.mem_append_left _ h)
  rw [parser.parse_authority port hplain, readHttpUrl, toList_pasted, hsplit, List.append_assoc,
    List.cons_append, splitHost_append hbefore hopen']
  -- the colon before the port is read as part of it
  have hport : readUrlPort (after ++ ':' :: (toString port.toNat).toList) = none :=
    readUrlPort_of_colon (List.mem_append_right after List.mem_cons_self)
  simp only [hport]
  split
  · rfl
  · cases parser.host (String.ofList before) with
    | none => rfl
    | some h => rfl

/-! ## A parser -/

/-- The host parser for IPv4 addresses and names of letters. -/
def simpleHost (text : String) : Option String :=
  if (readIpv4 text.toList).isSome then some text
  else if text.toList.all Char.isAlpha then some (String.ofList (text.toList.map Char.toLower))
  else none

/-- A parser for URLs that are an authority of plain characters. -/
def simple : UrlParser where
  parse text :=
    if startsWith text "http://" && (text.toList.drop 7).all isPlainChar then
      readHttpUrl simpleHost (String.ofList (text.toList.drop 7))
    else none
  host := simpleHost
  parse_http authority h := by
    have hdrop : ("http://" ++ authority).toList.drop 7 = authority.toList := by
      rw [String.toList_append]
      rfl
    rw [hdrop, startsWith_append, List.all_eq_true.2 h, String.ofList_toList]
    rfl
  host_ipv4 text h := if_pos h
  host_letters text hne h := by
    have hdigits : ¬ (readIpv4 text.toList).isSome := by
      intro hsome
      obtain ⟨n, hn⟩ := Option.isSome_iff_exists.1 hsome
      obtain ⟨c, hc⟩ := List.exists_mem_of_ne_nil _ (ne_nil_of_readIpv4 hn)
      rcases isDigit_of_readIpv4 hn c hc with rfl | hdigit
      · exact absurd (h _ hc) (by decide)
      · exact not_isDigit_of_isAlpha (h c hc) hdigit
    rw [simpleHost, if_neg hdigits, if_pos (List.all_eq_true.2 h)]

example : simple.parse "http://10.0.0.7:8080" = some (Url.httpRoot "10.0.0.7" (some 8080)) := by
  decide

end UrlParser

end Upstreamer
