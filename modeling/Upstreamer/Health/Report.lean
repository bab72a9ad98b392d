import Upstreamer.Balance.OriginState
import Upstreamer.Foundations.Json
import Upstreamer.Middleware.Errors

/-!
# The health server

What the health server answers: the metrics as the exporter renders them, a constant that says the
process runs, and a report of the histories of all origins, which is a JSON object with a member for
each origin. The entries of the shared map come in an order that is not specified; the report is
made from a list of them, each read once.

The report says all there is to say: a reader gets back the entries that were listed
(`read_upstreamsBody`), whatever the URLs of the origins contain. And it says nothing else, since
two reports have the same text exactly when the histories are the same (`upstreamsBody_eq_iff`).
-/

set_option autoImplicit false

namespace Upstreamer

open Foundations

/-! ## The answers -/

/-- The members in the order in which they are inserted. -/
def OriginState.members (st : OriginState) : List (String × Json) :=
  [("healthy", .bool st.healthy),
    ("consecutive_successes", .number st.consecutiveSuccesses.toNat),
    ("consecutive_failures", .number st.consecutiveFailures.toNat),
    ("total_requests", .number st.totalRequests.toNat),
    ("total_failures", .number st.totalFailures.toNat),
    ("ewma_latency_ns", .number st.ewmaLatencyNs.toNat)]

def OriginState.toJson (st : OriginState) : Json := .object (sortedEntries st.members)

/-- The body of the report on the listed entries. -/
def upstreamsBody (entries : List (String × OriginState)) : String :=
  let origins := sortedEntries (entries.map fun entry => (entry.1, entry.2.toJson))
  Json.render (.object [("origins", .object origins)])

/-- `handle_health_request`, with the rendered metrics and the entries of the shared map. -/
def handleHealthRequest (path : String) (metrics : String)
    (entries : List (String × OriginState)) : Response :=
  match path with
  | "/metrics" => ⟨200, [("content-type", bytesOf "text/plain; version=0.0.4")], bytesOf metrics⟩
  | "/healthz" => ⟨200, [], bytesOf "\x7b\"status\":\"ok\"\x7d"⟩
  | "/healthz/upstreams" => ⟨200, [], bytesOf (upstreamsBody entries)⟩
  | _ => ⟨404, [], bytesOf "Not Found"⟩

/-! ## A reader of the report -/

/-- The number of a member. -/
def numberOf (members : List (String × Json)) (key : String) : Option Nat :=
  match members.lookup key with
  | some (.number n) => some n
  | _ => none

def u32Of (members : List (String × Json)) (key : String) : Option UInt32 := do
  let n ← numberOf members key
  if n < UInt32.size then some (UInt32.ofNat n) else none

def u64Of (members : List (String × Json)) (key : String) : Option UInt64 := do
  let n ← numberOf members key
  if n < UInt64.size then some (UInt64.ofNat n) else none

def OriginState.ofJson : Json → Option OriginState
  | .object members => do
      let healthy ←
        match members.lookup "healthy" with
        | some (.bool healthy) => some healthy
        | _ => none
      some
        { healthy := healthy
          consecutiveSuccesses := ← u32Of members "consecutive_successes"
          consecutiveFailures := ← u32Of members "consecutive_failures"
          totalRequests := ← u64Of members "total_requests"
          totalFailures := ← u64Of members "total_failures"
          ewmaLatencyNs := ← u64Of members "ewma_latency_ns" }
  | _ => none

/-- The entries of a report. -/
def readUpstreams (body : String) : Option (List (String × OriginState)) :=
  match Json.read body with
  | some (.object [("origins", .object origins)]) =>
      origins.mapM fun member => (OriginState.ofJson member.2).map fun st => (member.1, st)
  | _ => none

/-- The list has the entries of the map, each of them once. -/
structure Iterates (states : OriginStates) (entries : List (String × OriginState)) : Prop where
  nodup : (entries.map Prod.fst).Nodup
  mem_iff : ∀ key st, (key, st) ∈ entries ↔ states.lookup key = some st

/-! ## What the report says -/

theorem u32Of_eq {members : List (String × Json)} {key : String} {n : UInt32}
    (h : members.lookup key = some (.number n.toNat)) : u32Of members key = some n := by
  rw [u32Of, numberOf, h]
  exact (if_pos n.toNat_lt).trans (congrArg some (UInt32.ofNat_toNat))

theorem u64Of_eq {members : List (String × Json)} {key : String} {n : UInt64}
    (h : members.lookup key = some (.number n.toNat)) : u64Of members key = some n := by
  rw [u64Of, numberOf, h]
  exact (if_pos n.toNat_lt).trans (congrArg some (UInt64.ofNat_toNat))

theorem ofJson_toJson (st : OriginState) : OriginState.ofJson st.toJson = some st := by
  have hnodup : (st.members.map Prod.fst).Nodup := by
    simp [OriginState.members]
  have hlookup := lookup_sortedEntries hnodup
  rw [OriginState.toJson, OriginState.ofJson, u32Of_eq (hlookup _), u32Of_eq (hlookup _),
    u64Of_eq (hlookup _), u64Of_eq (hlookup _), u64Of_eq (hlookup _), hlookup]
  rfl

/-- A reader of the report gets the listed entries in the order of the keys. -/
theorem readUpstreams_upstreamsBody (entries : List (String × OriginState)) :
    readUpstreams (upstreamsBody entries) = some (sortedEntries entries) := by
  have hread : (fun e : String × OriginState =>
      (OriginState.ofJson e.2.toJson).map fun st => (e.1, st)) = some := by
    funext e
    rw [ofJson_toJson]
    rfl
  simp only [readUpstreams, upstreamsBody, Json.read_render, sortedEntries_map]
  rw [List.mapM_map]
  refine (congrArg (fun f => (sortedEntries entries).mapM f) hread).trans ?_
  exact List.mapM_pure.trans (congrArg some (List.map_id _))

section Reports

variable {states states' : OriginStates} {entries entries' : List (String × OriginState)}

theorem Iterates.perm (h : Iterates states entries) (hperm : entries'.Perm entries) :
    Iterates states entries' :=
  ⟨(hperm.map Prod.fst).nodup_iff.2 h.nodup, fun key st => hperm.mem_iff.trans (h.mem_iff key st)⟩

/-- Two orders of the same map have the same entries. -/
theorem Iterates.perm_of (h : Iterates states entries) (h' : Iterates states entries') :
    entries.Perm entries' :=
  (List.perm_ext_iff_of_nodup h.nodup.of_map h'.nodup.of_map).2 fun e =>
    (h.mem_iff e.1 e.2).trans (h'.mem_iff e.1 e.2).symm

/-- The map that holds the entries of a list. -/
theorem iterates_insertAll (hnodup : (entries.map Prod.fst).Nodup) :
    Iterates (Dict.insertAll entries ∅) entries := by
  refine ⟨hnodup, fun key st => ?_⟩
  by_cases hkey : key ∈ entries.map Prod.fst
  · obtain ⟨st', hmem, hlookup⟩ := Dict.lookup_insertAll_of_mem (m := ∅) hkey
    rw [hlookup, ← lookup_eq_some_iff_mem hnodup, (lookup_eq_some_iff_mem hnodup).2 hmem]
  · rw [Dict.lookup_insertAll_of_notMem hkey, Finmap.lookup_empty]
    exact iff_of_false (fun hmem => hkey (List.mem_map_of_mem hmem)) (fun h => nomatch h)

/-- Every map can be listed. -/
theorem exists_iterates (states : OriginStates) : ∃ entries, Iterates states entries := by
  refine ⟨states.entries.toList.map fun e => (e.1, e.2), ?_, fun key st => ?_⟩
  · have hkeys : (states.entries.toList.map fun e => (e.1, e.2)).map Prod.fst =
        states.entries.toList.map Sigma.fst := by
      rw [List.map_map]
      rfl
    have hnodup := Multiset.nodup_keys.2 states.nodupKeys
    rw [Multiset.keys, ← Multiset.coe_toList states.entries, Multiset.map_coe,
      Multiset.coe_nodup] at hnodup
    rwa [hkeys]
  · rw [Finmap.lookup_eq_some_iff, List.mem_map]
    constructor
    · rintro ⟨e, he, heq⟩
      obtain ⟨rfl, rfl⟩ := Prod.mk.inj heq
      exact Multiset.mem_toList.1 he
    · intro hmem
      exact ⟨⟨key, st⟩, Multiset.mem_toList.2 hmem, rfl⟩

/-- **The report lists every origin with its history, and nothing else**, in the order of the
URLs. -/
theorem read_upstreamsBody (h : Iterates states entries) :
    ∃ listed, readUpstreams (upstreamsBody entries) = some listed ∧ Iterates states listed ∧
      Increasing listed :=
  ⟨sortedEntries entries, readUpstreams_upstreamsBody entries,
    h.perm (sortedEntries_perm h.nodup), increasing_sortedEntries entries⟩

/-- **The text of the report is the same exactly when the histories are**, in whatever order the map
gives its entries. -/
theorem upstreamsBody_eq_iff (h : Iterates states entries) (h' : Iterates states' entries') :
    upstreamsBody entries = upstreamsBody entries' ↔ states = states' := by
  constructor
  · intro hbody
    have hread := readUpstreams_upstreamsBody entries
    rw [hbody, readUpstreams_upstreamsBody, Option.some.injEq] at hread
    have hperm : entries.Perm entries' :=
      (sortedEntries_perm h.nodup).symm.trans (hread ▸ sortedEntries_perm h'.nodup)
    refine Finmap.ext_lookup fun key => Option.ext fun st => ?_
    rw [← h.mem_iff, ← h'.mem_iff, hperm.mem_iff]
  · rintro rfl
    have hperm := h.perm_of h'
    rw [upstreamsBody, upstreamsBody, sortedEntries_map, sortedEntries_map,
      sortedEntries_eq_of_perm h.nodup hperm]

/-- A report of two origins in both orders. -/
theorem upstreamsBody_eq_iff_two :
    upstreamsBody [("http://a/", .new), ("http://b/", .new)] =
        upstreamsBody [("http://b/", .new), ("http://a/", .new)] ↔
      Dict.insertAll [("http://a/", OriginState.new), ("http://b/", .new)] ∅ =
        Dict.insertAll [("http://b/", OriginState.new), ("http://a/", .new)] ∅ :=
  upstreamsBody_eq_iff (iterates_insertAll (by decide)) (iterates_insertAll (by decide))

end Reports

end Upstreamer
