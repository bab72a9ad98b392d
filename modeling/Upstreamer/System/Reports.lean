import Upstreamer.Health.Report
import Upstreamer.System.AtomicRecords

/-!
# What an operator reads

The report of the health server is made from the map of histories while requests, probes, reloads
and rebuilds go on. A reader of the report finds each origin of the configuration. What the report
says of an origin is what the outcomes of its own requests and probes come to, as long as the
records of this origin do not overlap and the report is not made in the middle of one
(`report_exact`).
-/

set_option autoImplicit false

namespace Upstreamer.AtomicWorld

open Foundations

/-- **The report is exact where records do not overlap.** Whatever order the shared map lists its
entries in, a reader of the answer gets an entry for each origin of the configuration at start, and
no origin twice. An entry is the ledger of the outcomes of its origin if no record of this origin
has begun while another one was in progress, and none of them is in progress. -/
theorem report_exact (env : Externals) (config : ProxyConfig) (events : List AtomicEvent)
    (last : AtomicWorld) (hrun : run (step env) (start env config) events = some last)
    (metrics : String) (entries : List (String × OriginState))
    (hentries : Iterates last.world.app.originStates entries) :
    ∃ body listed,
      handleHealthRequest "/healthz/upstreams" metrics entries = ⟨200, [], bytesOf body⟩ ∧
      readUpstreams body = some listed ∧ (listed.map Prod.fst).Pairwise (· < ·) ∧
      (∀ e ∈ listed, Along (step env) (Apart e.1) (start env config) events →
        last.inProgress e.1 = [] →
          Ledger (reports (step env) (recordFor e.1) (start env config) events) e.2) ∧
      ∀ key ∈ config.originKeys, key ∈ listed.map Prod.fst := by
  obtain ⟨listed, hread, hlisted, hincreasing⟩ := read_upstreamsBody hentries
  refine ⟨upstreamsBody entries, listed, rfl, hread, List.pairwise_map.2 hincreasing,
    fun e he hapart hidle => ?_, fun key hkey => ?_⟩
  · have hst := (hlisted.mem_iff e.1 e.2).1 he
    exact ledger_of_run hrun hapart hidle hst
  · -- the origins of the configuration have had a history from the start
    have hstart : key ∈ (start env config).world.app.originStates :=
      AppState.mem_originStates_new.2 hkey
    obtain ⟨st, hst⟩ := Finmap.mem_iff.1 (mem_originStates_of_run hstart hrun)
    exact List.mem_map.2 ⟨(key, st), (hlisted.mem_iff key st).2 hst, rfl⟩

/-- The report after two requests, of which one has failed. -/
theorem report_exact_twoRecords :
    ∃ last entries body listed, run (step .none) (start .none .minimal) twoRecords = some last ∧
      Iterates last.world.app.originStates entries ∧
      handleHealthRequest "/healthz/upstreams" "" entries = ⟨200, [], bytesOf body⟩ ∧
      readUpstreams body = some listed ∧
      ∃ st, ("http://127.0.0.1:3000/", st) ∈ listed ∧ st.totalFailures = 1 ∧
        st.healthy = true := by
  obtain ⟨last, hlast, hidle⟩ := exists_run_twoRecords
  obtain ⟨entries, hentries⟩ := exists_iterates last.world.app.originStates
  obtain ⟨body, listed, hanswer, hread, -, hledger, hall⟩ :=
    report_exact .none .minimal twoRecords last hlast "" entries hentries
  obtain ⟨⟨key, st⟩, hmem, rfl⟩ := List.mem_map.1 (hall "http://127.0.0.1:3000/" (by decide))
  have hst := hledger _ hmem
  simp only at hst
  exact ⟨last, entries, body, listed, hlast, hentries, hanswer, hread, st, hmem,
    (ledger_twoRecords (hst apart_twoRecords hidle)).2⟩

end Upstreamer.AtomicWorld
