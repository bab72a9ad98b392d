import Mathlib.Data.List.Induction
import Upstreamer.Foundations.Regulated

/-!
# The past of a run

Safety properties that speak of what has happened need the events behind a state and not the state
alone. `Earlier step s P es` says that at some point of the run `es` from `s` an event was taken
that satisfies `P`, which may look at the events before it and at the state it was taken in. What
has happened stays so (`Earlier.append`), and the invariant rule for runs lets an invariant mention
the events so far (`past_invariant`).

`tally step p s es` counts the events of the run that satisfy `p`. A quantity that each step raises
by the events of one kind and lowers by those of another is balanced over whole runs (`balance`).
Reports are counted in the same way (`countP_reports`).
-/

set_option autoImplicit false

namespace Upstreamer.Foundations

universe u v w

variable {σ : Type u} {ε : Type v} {step : σ → ε → Option σ}

/-- Some event of the run satisfies `P`, of the events before it and the state it was taken in. -/
def Earlier (step : σ → ε → Option σ) (s : σ) (P : List ε → σ → ε → Prop) (es : List ε) : Prop :=
  ∃ es₁ e es₂ t, es = es₁ ++ e :: es₂ ∧ run step s es₁ = some t ∧ P es₁ t e

section Earlier

variable {s t u : σ} {e : ε} {es : List ε} {P : List ε → σ → ε → Prop}

theorem run_single (h : step s e = some t) : run step s [e] = some t :=
  run_cons_eq_some.2 ⟨t, h, rfl⟩

/-- The last event of a run has happened in it. -/
theorem earlier_concat (hrun : run step s es = some t) (h : P es t e) :
    Earlier step s P (es ++ [e]) :=
  ⟨es, e, [], t, rfl, hrun, h⟩

/-- What has happened stays so when the run goes on. -/
theorem Earlier.append (h : Earlier step s P es) (es' : List ε) :
    Earlier step s P (es ++ es') := by
  obtain ⟨es₁, e, es₂, t, rfl, hrun, hP⟩ := h
  exact ⟨es₁, e, es₂ ++ es', t, by rw [List.append_assoc, List.cons_append], hrun, hP⟩

/-- **Invariant rule with a past.** An invariant of the events so far and the state, kept by every
step, holds at the end of every run. -/
theorem past_invariant {I : List ε → σ → Prop} (hnil : I [] s)
    (hstep : ∀ es e t u, run step s es = some t → I es t → step t e = some u → I (es ++ [e]) u)
    (hrun : run step s es = some t) : I es t := by
  induction es using List.reverseRecOn generalizing t with
  | nil =>
    cases hrun
    exact hnil
  | append_singleton es e ih =>
    rw [run_append] at hrun
    obtain ⟨u, hu, hrun⟩ := Option.bind_eq_some_iff.1 hrun
    obtain ⟨v, hv, hvt⟩ := run_cons_eq_some.1 hrun
    cases hvt
    exact hstep es e u t hu (ih hu) hv

end Earlier

/-! ## Deciding what holds along a run -/

section Deciding

/-- A guard that can be decided in every state can be decided along a run. -/
instance decidableAlong (g : σ → ε → Prop) [∀ s e, Decidable (g s e)] :
    ∀ s es, Decidable (Along step g s es)
  | _, [] => inferInstanceAs (Decidable True)
  | s, e :: es =>
      match h : step s e with
      | none => decidable_of_iff (g s e) (by simp [Along, h])
      | some t =>
          have := decidableAlong g t es
          decidable_of_iff (g s e ∧ Along step g t es) (by simp [Along, h])

instance decidableThroughout (P : σ → Prop) [DecidablePred P] :
    ∀ s es, Decidable (Throughout step P s es)
  | s, [] => inferInstanceAs (Decidable (P s))
  | s, e :: es =>
      match h : step s e with
      | none => decidable_of_iff (P s) (by simp [Throughout, h])
      | some t =>
          have := decidableThroughout P t es
          decidable_of_iff (P s ∧ Throughout step P t es) (by simp [Throughout, h])

end Deciding

/-! ## Counting events -/

/-- How many events of the run satisfy `p` in the state they are taken in. -/
def tally (step : σ → ε → Option σ) (p : σ → ε → Bool) : σ → List ε → Nat
  | _, [] => 0
  | s, e :: es =>
      match step s e with
      | none => 0
      | some t => (p s e).toNat + tally step p t es

section Tally

variable {s t : σ} {e : ε} {es : List ε} {p q : σ → ε → Bool}

theorem tally_cons (h : step s e = some t) :
    tally step p s (e :: es) = (p s e).toNat + tally step p t es := by
  rw [tally, h]

theorem tally_concat (hrun : run step s es = some t) {u : σ} (h : step t e = some u) :
    tally step p s (es ++ [e]) = tally step p s es + (p t e).toNat := by
  induction es generalizing s with
  | nil =>
    cases hrun
    rw [List.nil_append, tally_cons h]
    exact Nat.add_comm _ _
  | cons d es ih =>
    obtain ⟨v, hv, hrun⟩ := run_cons_eq_some.1 hrun
    rw [List.cons_append, tally_cons hv, tally_cons hv, ih hrun, Nat.add_assoc]

theorem reports_append {δ : Type w} {report : σ → ε → Option δ} (hrun : run step s es = some t)
    (es' : List ε) : reports step report s (es ++ es') =
      reports step report s es ++ reports step report t es' := by
  induction es generalizing s with
  | nil =>
    cases hrun
    rfl
  | cons e es ih =>
    obtain ⟨u, hu, hrun⟩ := run_cons_eq_some.1 hrun
    rw [List.cons_append, reports_cons hu, reports_cons hu, ih hrun, List.append_assoc]

/-- What holds of the report of every step holds of all reports. -/
theorem forall_mem_reports {δ : Type w} {report : σ → ε → Option δ} {P : δ → Prop}
    (h : Along step (fun s e => ∀ r ∈ report s e, P r) s es) :
    ∀ r ∈ reports step report s es, P r := by
  induction es generalizing s with
  | nil => exact fun _ hr => absurd hr List.not_mem_nil
  | cons e es ih =>
    cases hstep : step s e with
    | none =>
      rw [reports_cons_none hstep]
      exact fun _ hr => absurd hr List.not_mem_nil
    | some u =>
      obtain ⟨hfirst, hrest⟩ := (along_cons hstep).1 h
      rw [reports_cons hstep]
      intro r hr
      rcases List.mem_append.1 hr with hr | hr
      · exact hfirst r (Option.mem_toList.1 hr)
      · exact ih hrest r hr

/-- The reports of one kind are the events that make them. -/
theorem countP_reports {δ : Type w} (report : σ → ε → Option δ) (r : δ → Bool) (s : σ)
    (es : List ε) : (reports step report s es).countP r =
      tally step (fun s e => (report s e).any r) s es := by
  induction es generalizing s with
  | nil => rfl
  | cons e es ih =>
    cases h : step s e with
    | none =>
      rw [reports_cons_none h, tally, h]
      rfl
    | some t =>
      rw [reports_cons h, tally_cons h, List.countP_append, ih]
      cases report s e with
      | none => rfl
      | some d => cases hd : r d <;> simp [hd]

/-- Events that are of the one kind only if they are of the other are no more. -/
theorem tally_le (h : Along step (fun s e => p s e = true → q s e = true) s es) :
    tally step p s es ≤ tally step q s es := by
  induction es generalizing s with
  | nil => exact le_rfl
  | cons e es ih =>
    cases hstep : step s e with
    | none =>
      rw [tally, hstep]
      exact Nat.zero_le _
    | some t =>
      obtain ⟨hfirst, hrest⟩ := (along_cons hstep).1 h
      rw [tally_cons hstep, tally_cons hstep]
      exact Nat.add_le_add (Bool.toNat_le_toNat hfirst) (ih hrest)

/-- **What comes in is what goes out and what is there.** -/
theorem balance {m : σ → Nat}
    (hstep : ∀ s e t, step s e = some t → m t + (q s e).toNat = m s + (p s e).toNat)
    (hrun : run step s es = some t) : m t + tally step q s es = m s + tally step p s es := by
  induction es generalizing s with
  | nil =>
    cases hrun
    rfl
  | cons e es ih =>
    obtain ⟨u, hu, hrun⟩ := run_cons_eq_some.1 hrun
    have hfirst := hstep s e u hu
    have hrest := ih hrun
    rw [tally_cons hu, tally_cons hu]
    omega

end Tally

/-! ## Projections -/

section Projection

variable {τ : Type w} {δ : Type v} {step' : τ → δ → Option τ} {π : τ → σ} {event : τ → δ → Option ε}

/-- Each step of the second machine is, seen through the projection, the step of the first that its
event stands for, or no step at all. -/
def Projects (step : σ → ε → Option σ) (step' : τ → δ → Option τ) (π : τ → σ)
    (event : τ → δ → Option ε) : Prop :=
  ∀ t d t', step' t d = some t' → run step (π t) (event t d).toList = some (π t')

/-- **Runs are projected to runs.** -/
theorem Projects.run (h : Projects step step' π event) {t t' : τ} {ds : List δ}
    (hrun : run step' t ds = some t') :
    Foundations.run step (π t) (reports step' event t ds) = some (π t') := by
  induction ds generalizing t with
  | nil =>
    cases hrun
    rfl
  | cons d ds ih =>
    obtain ⟨u, hu, hrun⟩ := run_cons_eq_some.1 hrun
    rw [reports_cons hu, run_append, h t d u hu, Option.bind_some, ih hrun]

/-- What the steps of the first machine keep, those of the second keep of its projection. -/
theorem Projects.invariant (h : Projects step step' π event) {I : σ → Prop}
    (hstep : ∀ s e t, I s → step s e = some t → I t) {t t' : τ} {d : δ} (ht : I (π t))
    (hd : step' t d = some t') : I (π t') := by
  have hproject := h t d t' hd
  cases hevent : event t d with
  | none =>
    rw [hevent, Option.toList_none, run_nil] at hproject
    exact Option.some.inj hproject ▸ ht
  | some e =>
    rw [hevent] at hproject
    obtain ⟨v, hv, hvt⟩ := run_cons_eq_some.1 hproject
    cases hvt
    exact hstep _ e _ ht hv

/-- Projections are composed. -/
theorem Projects.comp {υ : Type w} {γ : Type v} {step'' : υ → γ → Option υ} {π' : υ → τ}
    {event' : υ → γ → Option δ} (h : Projects step step' π event)
    (h' : Projects step' step'' π' event') :
    Projects step step'' (π ∘ π') fun u d => (event' u d).bind (event (π' u)) := by
  intro u d u' hu
  change Foundations.run step (π (π' u)) ((event' u d).bind (event (π' u))).toList =
    some (π (π' u'))
  have hproject := h' u d u' hu
  cases hevent : event' u d with
  | none =>
    rw [hevent, Option.toList_none, run_nil] at hproject
    exact congrArg (fun t => some (π t)) (Option.some.inj hproject)
  | some e =>
    rw [hevent] at hproject
    obtain ⟨t, ht, hlast⟩ := run_cons_eq_some.1 hproject
    cases hlast
    exact h _ e _ ht

/-- The projected run makes the reports of its events. -/
theorem Projects.reports (h : Projects step step' π event) {ρ : Type u} {report : σ → ε → Option ρ}
    (t : τ) (ds : List δ) :
    Foundations.reports step report (π t) (Foundations.reports step' event t ds) =
      Foundations.reports step' (fun t d => (event t d).bind (report (π t))) t ds := by
  induction ds generalizing t with
  | nil => rfl
  | cons d ds ih =>
    cases hu : step' t d with
    | none =>
      rw [reports_cons_none hu, reports_cons_none hu]
      rfl
    | some u =>
      have hproject := h t d u hu
      rw [reports_cons hu, reports_cons hu, ← ih, reports_append hproject]
      cases hevent : event t d with
      | none => rfl
      | some e =>
        rw [hevent] at hproject
        obtain ⟨v, hv, -⟩ := run_cons_eq_some.1 hproject
        rw [Option.toList_some, reports_cons hv, Option.bind_some]
        exact congrArg (· ++ _) (List.append_nil _)

/-- The projected run has the events that stand for those of the run. -/
theorem Projects.tally (h : Projects step step' π event) {p : σ → ε → Bool} (t : τ) (ds : List δ) :
    Foundations.tally step p (π t) (Foundations.reports step' event t ds) =
      Foundations.tally step' (fun t d => (event t d).any (p (π t))) t ds := by
  induction ds generalizing t with
  | nil => rfl
  | cons d ds ih =>
    cases hu : step' t d with
    | none =>
      rw [reports_cons_none hu, Foundations.tally, Foundations.tally, hu]
    | some u =>
      have hproject := h t d u hu
      rw [reports_cons hu, tally_cons hu, ← ih]
      cases hevent : event t d with
      | none =>
        rw [hevent, Option.toList_none, run_nil] at hproject
        rw [← Option.some.inj hproject]
        exact (Nat.zero_add _).symm
      | some e =>
        rw [hevent] at hproject
        obtain ⟨v, hv, hvu⟩ := run_cons_eq_some.1 hproject
        cases hvu
        exact tally_cons hv

end Projection

/-- **Invariant rule for reports of guarded runs.** -/
theorem reports_invariant_along {δ : Type w} {report : σ → ε → Option δ} {g : σ → ε → Prop}
    {I : σ → List δ → Prop}
    (hstep : ∀ s e t rs, I s rs → g s e → step s e = some t → I t (rs ++ (report s e).toList))
    {s t : σ} {es : List ε} {rs : List δ} (hI : I s rs) (hg : Along step g s es)
    (hrun : run step s es = some t) : I t (rs ++ reports step report s es) := by
  induction es generalizing s rs with
  | nil =>
    cases hrun
    rw [reports, List.append_nil]
    exact hI
  | cons e es ih =>
    obtain ⟨u, hu, hrun⟩ := run_cons_eq_some.1 hrun
    rw [reports_cons hu, ← List.append_assoc]
    exact ih (hstep s e u rs hI hg.1 hu) (hg.2 u hu) hrun

end Upstreamer.Foundations
