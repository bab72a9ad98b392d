import Upstreamer.Config.UrlParser
import Upstreamer.Health.Discovery

/-!
# Addresses of services

`service_to_origin` pastes the cluster IP of a service between `http://` and a port and has the text
parsed. An IPv4 address comes back as the host of the URL (`serviceToOrigin_of_ipv4`). An IPv6
address is pasted without brackets, so the text is no URL and the service is ignored
(`serviceToOrigin_of_ipv6`), and the text `None` of a headless service is parsed as a domain name
(`serviceToOrigin_of_headless`). The address of a service is kept in all other cases
(`addressKept_iff`).
-/

set_option autoImplicit false

namespace Upstreamer

open Foundations

/-- `IpAddr::from_str`. -/
def IpAddr.parse (s : String) : Option IpAddr :=
  ((readIpv4 s.toList).map fun n => .v4 (BitVec.ofNat 32 n)).or
    ((readIpv6 s.toList).map fun n => .v6 (BitVec.ofNat 128 n))

/-- The address that is the host of a URL, in brackets if it is an IPv6 address. A domain name is
none. -/
def Url.hostIp (u : Url) : Option IpAddr :=
  u.host.bind fun host =>
    match host.toList with
    | '[' :: rest =>
        if rest.getLast? = some ']' then
          (readIpv6 rest.dropLast).map fun n => .v6 (BitVec.ofNat 128 n)
        else none
    | text => (readIpv4 text).map fun n => .v4 (BitVec.ofNat 32 n)

example : (Url.httpRoot "[fd00::1]" none).hostIp = IpAddr.parse "fd00::1" := by decide

/-! ## What a service declares -/

namespace Service

def clusterIp (svc : Service) : Option String := svc.spec.bind ServiceSpec.clusterIp

/-- The cluster IP of a headless service is the text `None`. -/
def Headless (svc : Service) : Prop := svc.clusterIp = some "None"

def portAnnotated (svc : Service) : Option String :=
  svc.annotations.bind fun annotations => annotations.lookup portAnnotation

/-- The first port of the spec. -/
def firstPort (svc : Service) : Option Int32 :=
  (svc.spec.bind ServiceSpec.ports).bind List.head?

/-- The port that the annotation names, else the first one of the spec, if it is in range. -/
def port (svc : Service) : Option UInt16 :=
  match svc.portAnnotated with
  | some text => parseU16 text
  | none => svc.firstPort.bind fun p =>
      if 0 ≤ p.toInt ∧ p.toInt < 65536 then some (UInt16.ofNat p.toInt.toNat) else none

/-- The pool that the annotation names, else the name of the service. -/
def pool (svc : Service) (name : String) : String :=
  (svc.annotations.bind fun annotations => annotations.lookup poolAnnotation).getD name

end Service

/-- A text that does not begin with a plus sign is read as a port. -/
theorem parseU16_eq_readPort {s : String} (h : s.toList.head? ≠ some '+') :
    parseU16 s = readPort s.toList := by
  rw [parseU16]
  generalize s.toList = l at h
  split
  · exact absurd rfl h
  · simp only [Nat.mul_comm 10]
    rfl

/-- **A port of the spec is read back from its text.** -/
theorem parseU16_toString (p : Int) :
    parseU16 (toString p) =
      if 0 ≤ p ∧ p < 65536 then some (UInt16.ofNat p.toNat) else none := by
  rw [Int.toString_eq_repr, Int.repr_eq_if]
  by_cases hp : 0 ≤ p
  · rw [if_pos hp, ← Nat.toString_eq_repr, parseU16_eq_readPort, readPort_toString]
    · simp only [hp, true_and, Int.toNat_lt hp]
      rfl
    · intro hplus
      exact absurd (toList_toString_isDigit _ _ (List.mem_of_mem_head? hplus)) (by decide)
  · -- the minus sign is no digit
    have hlist : ("-" ++ (-p).toNat.repr).toList = '-' :: (-p).toNat.repr.toList := by
      rw [String.toList_append]
      rfl
    rw [if_neg hp, if_neg fun h => hp h.1, parseU16_eq_readPort, readPort, hlist]
    · exact if_neg fun h => absurd (List.all_eq_true.1 h.2.1 '-' List.mem_cons_self) (by decide)
    · rw [hlist, List.head?_cons]
      decide

/-- **What the code makes of a service.** -/
theorem serviceToOrigin_eq (parseUrl : String → Option Url) (svc : Service) :
    serviceToOrigin parseUrl svc =
      svc.name.bind fun name => svc.clusterIp.bind fun clusterIp => svc.port.bind fun port =>
        (parseUrl ("http://" ++ clusterIp ++ ":" ++ toString port.toNat)).map fun url =>
          (svc.pool name, url) := by
  have hport : ∀ spec, svc.spec = some spec →
      ((svc.portAnnotated <|> (spec.ports.bind List.head?).map fun p => toString p.toInt).bind
        parseU16) = svc.port := by
    intro spec hspec
    rw [Service.port, Service.firstPort, hspec, Option.bind_some]
    cases svc.portAnnotated with
    | some text => rfl
    | none =>
      cases spec.ports.bind List.head? with
      | none => rfl
      | some p => exact parseU16_toString p.toInt
  rw [serviceToOrigin, Service.clusterIp]
  cases svc.name with
  | none => rfl
  | some name =>
    cases hspec : svc.spec with
    | none => rfl
    | some spec =>
      rw [← hport spec hspec]
      simp only [Option.bind_eq_bind, Option.bind_some, Option.bind_assoc, Option.map_eq_bind]
      rfl

/-! ## The kinds of cluster IPs -/

/-- A service with a name, a cluster IP and a port. -/
structure Service.Declares (svc : Service) (name clusterIp : String) (port : UInt16) : Prop where
  name_eq : svc.name = some name
  clusterIp_eq : svc.clusterIp = some clusterIp
  port_eq : svc.port = some port

section Kinds

variable {parser : UrlParser} {svc : Service} {name clusterIp : String} {port : UInt16} {n : Nat}

theorem serviceToOrigin_of_declares (h : svc.Declares name clusterIp port) :
    serviceToOrigin parser.parse svc =
      (parser.parse ("http://" ++ clusterIp ++ ":" ++ toString port.toNat)).map fun url =>
        (svc.pool name, url) := by
  rw [serviceToOrigin_eq, h.name_eq, h.clusterIp_eq, h.port_eq]
  rfl

/-- The characters of an IPv4 address are plain, and neither a colon nor a bracket. -/
theorem plain_of_readIpv4 {l : List Char} (h : readIpv4 l = some n) :
    ∀ c ∈ l, isPlainChar c = true ∧ c ≠ ':' ∧ c ≠ '[' := by
  intro c hc
  rcases isDigit_of_readIpv4 h c hc with rfl | hdigit
  · decide
  · refine ⟨by simp [isPlainChar, Char.isAlphanum, hdigit], ?_, ?_⟩
    · rintro rfl
      cases hdigit
    · rintro rfl
      cases hdigit

/-- **An IPv4 address comes back.** -/
theorem serviceToOrigin_of_ipv4 (h : svc.Declares name clusterIp port)
    (hip : readIpv4 clusterIp.toList = some n) :
    serviceToOrigin parser.parse svc =
      some (svc.pool name, Url.httpRoot clusterIp (if port = 80 then none else some port)) := by
  have hplain := plain_of_readIpv4 hip
  have hne : clusterIp ≠ "" := fun hempty => ne_nil_of_readIpv4 hip (hempty ▸ rfl)
  have hhost : parser.host clusterIp = some clusterIp :=
    parser.host_ipv4 clusterIp (Option.isSome_of_eq_some hip)
  rw [serviceToOrigin_of_declares h, parser.parse_pasted port (fun c hc => (hplain c hc).1) hne
    (fun hc => (hplain _ hc).2.1 rfl) (fun hc => (hplain _ hc).2.2 rfl), hhost]
  rfl

/-- The characters of an IPv6 address are plain and no bracket. -/
theorem plain_of_readIpv6 {l : List Char} (h : readIpv6 l = some n) :
    ∀ c ∈ l, isPlainChar c = true ∧ c ≠ '[' := by
  intro c hc
  have hchar := isIpv6Char_of_readIpv6 h c hc
  refine ⟨?_, ?_⟩
  · rw [isIpv6Char, Bool.or_eq_true, Bool.or_eq_true, beq_iff_eq, beq_iff_eq] at hchar
    rcases hchar with (rfl | rfl) | hhex
    · rfl
    · rfl
    · simp [isPlainChar, isAlphanum_of_isHexDigit hhex]
  · rintro rfl
    exact absurd hchar (by decide)

/-- **A service with an IPv6 address is ignored.** -/
theorem serviceToOrigin_of_ipv6 (hip : svc.clusterIp = some clusterIp)
    (h : readIpv6 clusterIp.toList = some n) : serviceToOrigin parser.parse svc = none := by
  have hplain := plain_of_readIpv6 h
  have hparse : ∀ port : UInt16,
      parser.parse ("http://" ++ clusterIp ++ ":" ++ toString port.toNat) = none := fun port =>
    parser.parse_pasted_of_colon port (fun c hc => (hplain c hc).1) (colon_mem_of_readIpv6 h)
      fun hc => (hplain _ hc).2 rfl
  rw [serviceToOrigin_eq, hip]
  cases svc.name with
  | none => rfl
  | some name =>
    cases svc.port with
    | none => rfl
    | some port =>
      rw [Option.bind_some, Option.bind_some, Option.bind_some, hparse]
      rfl

/-- **A headless service becomes an origin with a domain name for its host.** -/
theorem serviceToOrigin_of_headless (h : svc.Declares name "None" port) :
    serviceToOrigin parser.parse svc =
      some (svc.pool name, Url.httpRoot "none" (if port = 80 then none else some port)) := by
  have hletters : ∀ c ∈ "None".toList, c.isAlpha = true := List.all_eq_true.1 (by decide)
  have hplain : ∀ c ∈ "None".toList, isPlainChar c = true := List.all_eq_true.1 (by decide)
  have hhost : parser.host "None" = some "none" :=
    parser.host_letters "None" (by decide) hletters
  rw [serviceToOrigin_of_declares h, parser.parse_pasted port hplain (by decide) (by decide)
    (by decide), hhost]
  rfl

/-! ## Which addresses are kept -/

theorem hostIp_httpRoot (h : readIpv4 clusterIp.toList = some n) (p : Option UInt16) :
    (Url.httpRoot clusterIp p).hostIp = some (.v4 (BitVec.ofNat 32 n)) := by
  have hplain := plain_of_readIpv4 h
  rw [Url.hostIp, Url.httpRoot, Url.http, Option.bind_some]
  split
  · next rest hrest =>
    -- an IPv4 address does not begin with a bracket
    exact absurd rfl (hplain '[' (hrest ▸ List.mem_cons_self)).2.2
  · rw [h, Option.map_some]

end Kinds

/-- The address of a service is kept. With a name, an IP address and a port from 1 on, the service
is an origin with exactly this address and port, and a headless service is no origin. -/
structure AddressKept (parser : UrlParser) (svc : Service) : Prop where
  literal : ∀ name clusterIp port ip, svc.Declares name clusterIp port →
    IpAddr.parse clusterIp = some ip → port ≠ 0 →
    ∃ url, serviceToOrigin parser.parse svc = some (svc.pool name, url) ∧
      url.hostIp = some ip ∧ url.portOrKnownDefault = port
  headless : svc.Headless → serviceToOrigin parser.parse svc = none

/-- With a name and a port, the service is not headless, and its cluster IP is no IPv6 address
unless the port is 0. -/
def Service.AddressPasted (svc : Service) : Prop :=
  ∀ name clusterIp port, svc.Declares name clusterIp port →
    clusterIp ≠ "None" ∧ (port ≠ 0 → readIpv6 clusterIp.toList = none)

/-- **When the address of a service is kept.** -/
theorem addressKept_iff (parser : UrlParser) (svc : Service) :
    AddressKept parser svc ↔ svc.AddressPasted := by
  constructor
  · intro hkept name clusterIp port h
    refine ⟨?_, fun hport => ?_⟩
    · rintro rfl
      have hnone := hkept.headless h.clusterIp_eq
      rw [serviceToOrigin_of_headless h] at hnone
      cases hnone
    · cases hip : readIpv6 clusterIp.toList with
      | none => rfl
      | some n =>
        -- the address of an ignored service is not kept
        have hparse : IpAddr.parse clusterIp = some (.v6 (BitVec.ofNat 128 n)) := by
          rw [IpAddr.parse, readIpv4_of_readIpv6 hip, hip]
          rfl
        obtain ⟨url, hurl, -⟩ := hkept.literal name clusterIp port _ h hparse hport
        rw [serviceToOrigin_of_ipv6 h.clusterIp_eq hip] at hurl
        cases hurl
  · intro h
    constructor
    · intro name clusterIp port ip hdeclares hip hport
      rcases Option.or_eq_some_iff.1 hip with hip | ⟨-, hip⟩
      · obtain ⟨n, hn, rfl⟩ := Option.map_eq_some_iff.1 hip
        refine ⟨_, serviceToOrigin_of_ipv4 hdeclares hn, hostIp_httpRoot hn _, ?_⟩
        show (if port = 80 then none else some port).getD 80 = port
        split
        · next h80 => exact h80.symm
        · rfl
      · obtain ⟨n, hn, -⟩ := Option.map_eq_some_iff.1 hip
        rw [(h name clusterIp port hdeclares).2 hport] at hn
        cases hn
    · intro hheadless
      rw [serviceToOrigin_eq, hheadless]
      cases hname : svc.name with
      | none => rfl
      | some name =>
        cases hport : svc.port with
        | none => rfl
        | some port => exact absurd rfl (h name "None" port ⟨hname, hheadless, hport⟩).1

/-- **An IPv6 address and a headless service.** The first service is ignored, and the second one
becomes an origin at the host `none`. -/
theorem not_addressKept :
    serviceToOrigin UrlParser.simple.parse (.plain "db" "fd00::1" 5432) = none ∧
      ¬ AddressKept UrlParser.simple (.plain "db" "fd00::1" 5432) ∧
      serviceToOrigin UrlParser.simple.parse (.plain "db" "None" 5432) =
        some ("db", Url.httpRoot "none" (some 5432)) ∧
      ¬ AddressKept UrlParser.simple (.plain "db" "None" 5432) := by
  have hnone : serviceToOrigin UrlParser.simple.parse (.plain "db" "fd00::1" 5432) = none := by
    decide
  have hsome : serviceToOrigin UrlParser.simple.parse (.plain "db" "None" 5432) =
      some ("db", Url.httpRoot "none" (some 5432)) := by
    decide
  refine ⟨hnone, fun h => ?_, hsome, fun h => ?_⟩
  · obtain ⟨url, hurl, -⟩ := h.literal "db" "fd00::1" 5432
      (.v6 0xfd000000000000000000000000000001#128) ⟨rfl, rfl, by decide⟩ (by decide) (by decide)
    rw [hnone] at hurl
    cases hurl
  · have hheadless := h.headless rfl
    rw [hsome] at hheadless
    cases hheadless

/-- A service whose address is kept. -/
theorem addressKept_plain : AddressKept UrlParser.simple (.plain "db" "10.0.0.7" 5432) := by
  refine (addressKept_iff UrlParser.simple _).2 fun name clusterIp port h => ?_
  obtain rfl := Option.some.inj (h.clusterIp_eq.symm.trans rfl : some clusterIp = some "10.0.0.7")
  exact ⟨by decide, fun _ => by decide⟩

/-! ## A cluster of IPv6 addresses -/

/-- **In a cluster of IPv6 addresses nothing is ever discovered**, whatever services appear and
however often the configuration is reloaded. -/
theorem k8sOrigins_of_ipv6 (parser : UrlParser) (fs : FileSystem) (config : ProxyConfig)
    (updates : List Update) (last : Discovered)
    (hipv6 : ∀ svc order, Update.service svc order ∈ updates →
      ∃ clusterIp n, svc.clusterIp = some clusterIp ∧ readIpv6 clusterIp.toList = some n)
    (hrun : run (Discovered.step fs parser.parse) (Discovered.start fs config) updates =
      some last) :
    last.k8sOrigins = ∅ := by
  have hreaches : Reaches (Discovered.step fs parser.parse) (· ∈ updates)
      (Discovered.start fs config) last := ⟨updates, fun _ he => he, hrun⟩
  refine hreaches.invariant (I := fun s => s.k8sOrigins = ∅)
    (fun s update t hs hmem hstep => ?_) rfl
  cases update with
  | reload loaded =>
    obtain rfl := Option.some.inj hstep
    exact hs
  | service svc order =>
    obtain ⟨clusterIp, n, hip, hn⟩ := hipv6 svc order hmem
    simp only [Discovered.step, serviceToOrigin_of_ipv6 hip hn] at hstep
    obtain rfl := Option.some.inj hstep
    exact hs

end Upstreamer
