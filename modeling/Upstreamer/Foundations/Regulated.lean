import Upstreamer.Foundations.Machine
import Upstreamer.Foundations.Regulator

/-!
# Regulated machines

Some steps of a machine report a verdict at an instant. When a regulator can be tracked along the
guarded runs, in such a way that each report is its verdict on an arrival, the reports of a run are
the verdicts of the regulator (`reports_eq_verdicts`), and so no window sees more positive reports
than the envelope of its length (`positive_le_envelope`).
-/

set_option autoImplicit false

namespace Upstreamer.Foundations

universe u v w x

variable {σ : Type u} {ε : Type v} {δ : Type w}

/-- What the steps of a run report, in order. -/
def reports (step : σ → ε → Option σ) (report : σ → ε → Option δ) : σ → List ε → List δ
  | _, [] => []
  | s, e :: es =>
      match step s e with
      | none => []
      | some t => (report s e).toList ++ reports step report t es

theorem reports_cons {step : σ → ε → Option σ} {report : σ → ε → Option δ} {s t : σ} {e : ε}
    (h : step s e = some t) (es : List ε) :
    reports step report s (e :: es) = (report s e).toList ++ reports step report t es := by
  rw [reports, h]

theorem reports_cons_none {step : σ → ε → Option σ} {report : σ → ε → Option δ} {s : σ} {e : ε}
    (h : step s e = none) (es : List ε) : reports step report s (e :: es) = [] := by
  rw [reports, h]

/-- **Invariant rule for reports.** A relation between the state and the reports made so far that
each step preserves holds of a whole run. -/
theorem reports_invariant {report : σ → ε → Option δ} {step : σ → ε → Option σ}
    {I : σ → List δ → Prop}
    (hstep : ∀ s e t rs, I s rs → step s e = some t → I t (rs ++ (report s e).toList))
    {s t : σ} {es : List ε} {rs : List δ} (hI : I s rs) (hrun : run step s es = some t) :
    I t (rs ++ reports step report s es) := by
  induction es generalizing s rs with
  | nil =>
    cases hrun
    rw [reports, List.append_nil]
    exact hI
  | cons e es ih =>
    obtain ⟨u, hu, hrun⟩ := run_cons_eq_some.1 hrun
    rw [reports_cons hu, ← List.append_assoc]
    exact ih (hstep s e u rs hI hu) hrun

/-- **Noninterference.** Suppose that a relation between states is kept by the events that an
observer sees, in both runs at once and with the same report, and by the events hidden from the
observer, which report nothing, in one run alone. Then the run without the hidden events makes the
same reports. -/
theorem reports_filter {step : σ → ε → Option σ} {report : σ → ε → Option δ} {visible : ε → Bool}
    {R : σ → σ → Prop}
    (hvisible : ∀ s s' e t, R s s' → visible e = true → step s e = some t →
      ∃ t', step s' e = some t' ∧ report s' e = report s e ∧ R t t')
    (hhidden : ∀ s s' e t, R s s' → visible e = false → step s e = some t →
      report s e = none ∧ R t s')
    {s s' t : σ} {es : List ε} (hR : R s s') (hrun : run step s es = some t) :
    reports step report s' (es.filter visible) = reports step report s es := by
  induction es generalizing s s' with
  | nil => rfl
  | cons e es ih =>
    obtain ⟨u, hu, hrun⟩ := run_cons_eq_some.1 hrun
    rw [reports_cons hu]
    cases he : visible e with
    | true =>
      obtain ⟨u', hu', hreport, hRu⟩ := hvisible s s' e u hR he hu
      rw [List.filter_cons_of_pos he, reports_cons hu', hreport, ih hRu hrun]
    | false =>
      obtain ⟨hreport, hRu⟩ := hhidden s s' e u hR he hu
      rw [List.filter_cons_of_neg (by rw [he]; exact Bool.false_ne_true), hreport,
        Option.toList_none, List.nil_append, ih hRu hrun]

/-- Two ways to report that agree along a run make the same reports. -/
theorem reports_congr {step : σ → ε → Option σ} {report report' : σ → ε → Option δ} {s : σ}
    {es : List ε} (h : Along step (fun s e => report s e = report' s e) s es) :
    reports step report s es = reports step report' s es := by
  induction es generalizing s with
  | nil => rfl
  | cons e es ih =>
    cases hstep : step s e with
    | none => rw [reports_cons_none hstep, reports_cons_none hstep]
    | some t => rw [reports_cons hstep, reports_cons hstep, h.1, ih (h.2 t hstep)]

/-- The positive reports whose instant lies in the window from `a` to `b`. -/
def positiveIn {K : Type x} [LinearOrder K] (rs : List (K × Bool)) (a b : K) : Nat :=
  rs.countP fun r => decide (a ≤ r.1) && decide (r.1 ≤ b) && r.2

section Regulated

variable {K : Type x} [Field K] [LinearOrder K] {step : σ → ε → Option σ}
  {report : σ → ε → Option (K × Bool)} {guard : σ → ε → Prop} {clock : σ → K} {cap rate : K}
  {Tracks : σ → Regulator K → Prop}

/-- Along guarded steps a regulator is tracked whose verdicts are the reports. -/
structure Regulates (step : σ → ε → Option σ) (report : σ → ε → Option (K × Bool))
    (guard : σ → ε → Prop) (clock : σ → K) (cap rate : K) (Tracks : σ → Regulator K → Prop) :
    Prop where
  zero_le_amount : ∀ s v, Tracks s v → 0 ≤ v.amount
  last_le : ∀ s v, Tracks s v → v.last ≤ clock s
  clock_le : ∀ s e t, step s e = some t → clock s ≤ clock t
  instant : ∀ s e t now ok, step s e = some t → report s e = some (now, ok) → now = clock t
  silent : ∀ s e t v, Tracks s v → guard s e → step s e = some t → report s e = none → Tracks t v
  verdict : ∀ s e t v now ok, Tracks s v → guard s e → step s e = some t →
    report s e = some (now, ok) →
      ok = Regulator.serves cap rate v now ∧ Tracks t (Regulator.next cap rate v now)

/-- **The reports of a guarded run are the verdicts of the regulator.** -/
theorem reports_eq_verdicts (h : Regulates step report guard clock cap rate Tracks) {s : σ}
    {v : Regulator K} {es : List ε} (hs : Tracks s v) (hg : Along step guard s es) :
    (reports step report s es).map Prod.snd =
      Regulator.verdicts cap rate v ((reports step report s es).map Prod.fst) := by
  induction es generalizing s v with
  | nil => rfl
  | cons e es ih =>
    cases hstep : step s e with
    | none =>
      rw [reports_cons_none hstep]
      rfl
    | some t =>
      rw [reports_cons hstep]
      cases hreport : report s e with
      | none => exact ih (h.silent s e t v hs hg.1 hstep hreport) (hg.2 t hstep)
      | some r =>
        obtain ⟨now, ok⟩ := r
        obtain ⟨rfl, hnext⟩ := h.verdict s e t v now ok hs hg.1 hstep hreport
        -- the first report is a verdict, and the rest start from the regulator after it
        exact congrArg _ (ih hnext (hg.2 t hstep))

/-- Reports come in the order of their instants, none before the clock. -/
theorem reports_sorted (h : Regulates step report guard clock cap rate Tracks) (s : σ)
    (es : List ε) :
    ((reports step report s es).map Prod.fst).Pairwise (· ≤ ·) ∧
      ∀ now ∈ (reports step report s es).map Prod.fst, clock s ≤ now := by
  induction es generalizing s with
  | nil => exact ⟨List.Pairwise.nil, fun _ hnow => absurd hnow List.not_mem_nil⟩
  | cons e es ih =>
    cases hstep : step s e with
    | none =>
      rw [reports_cons_none hstep]
      exact ⟨List.Pairwise.nil, fun _ hnow => absurd hnow List.not_mem_nil⟩
    | some t =>
      obtain ⟨hsorted, hafter⟩ := ih t
      have hle := h.clock_le s e t hstep
      rw [reports_cons hstep]
      cases hreport : report s e with
      | none => exact ⟨hsorted, fun now hnow => hle.trans (hafter now hnow)⟩
      | some r =>
        obtain ⟨now, ok⟩ := r
        obtain rfl := h.instant s e t now ok hstep hreport
        refine ⟨List.Pairwise.cons hafter hsorted, fun later hlater => ?_⟩
        rcases List.mem_cons.1 hlater with rfl | hlater
        · exact hle
        · exact hle.trans (hafter later hlater)

/-- **Envelope of a regulated run.** -/
theorem positive_le_envelope [IsStrictOrderedRing K]
    (h : Regulates step report guard clock cap rate Tracks) (hcap : 0 ≤ cap) (hrate : 0 ≤ rate)
    {s : σ} {v : Regulator K} {es : List ε} (hs : Tracks s v) (hg : Along step guard s es)
    {a b : K} (hab : a ≤ b) :
    (positiveIn (reports step report s es) a b : K) ≤ cap + (b - a) * rate := by
  obtain ⟨hsorted, hafter⟩ := reports_sorted h s es
  have hzip : ((reports step report s es).map Prod.fst).zip
      ((reports step report s es).map Prod.snd) = reports step report s es := by
    have hunzip := List.zip_unzip (reports step report s es)
    rwa [List.unzip_eq_map] at hunzip
  have hserved : positiveIn (reports step report s es) a b = Regulator.servedIn cap rate v
      ((reports step report s es).map Prod.fst) a b := by
    rw [Regulator.servedIn, ← reports_eq_verdicts h hs hg, hzip]
    rfl
  rw [hserved]
  exact Regulator.servedIn_le_envelope hcap hrate hab hsorted (h.zero_le_amount s v hs)
    fun now hnow => (h.last_le s v hs).trans (hafter now hnow)

end Regulated

end Upstreamer.Foundations
