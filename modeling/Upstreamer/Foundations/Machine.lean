import Mathlib.Data.List.Forall2

/-!
# Event-driven machines

A machine is a partial step function `σ → ε → Option σ`: `step s e = none` says that the event `e`
cannot happen in `s`. A run is a list of events; every order in which concurrent activities may
interleave is one such list, so a statement about all runs is a statement about all
interleavings.

`Along step g s es` says that each event of the run satisfies the guard `g` in the state in which
it is taken, and `Throughout step P s es` that `P` holds in every state the run visits. An invariant
that each guarded step preserves holds throughout (`throughout_of_along`); when a step preserves the
invariant exactly if it meets the guard, the two are equivalent (`along_iff_throughout`). Two
machines whose steps preserve a relation between their states stay related (`run_related`), also
when one step of the first takes a run of the second (`run_simulated`).
-/

set_option autoImplicit false

namespace Upstreamer.Foundations

universe u v w

variable {σ : Type u} {ε : Type v} {τ : Type w}

/-- The state after the events of the list, when each of them can happen in its turn. -/
def run (step : σ → ε → Option σ) : σ → List ε → Option σ
  | s, [] => some s
  | s, e :: es => (step s e).bind fun t => run step t es

/-- Every event of the run that is reached meets the guard in the state where it is taken. -/
def Along (step : σ → ε → Option σ) (guard : σ → ε → Prop) : σ → List ε → Prop
  | _, [] => True
  | s, e :: es => guard s e ∧ ∀ t, step s e = some t → Along step guard t es

/-- `P` holds in every state that the run visits, the first and the last included. -/
def Throughout (step : σ → ε → Option σ) (P : σ → Prop) : σ → List ε → Prop
  | s, [] => P s
  | s, e :: es => P s ∧ ∀ t, step s e = some t → Throughout step P t es

/-- `t` is reached from `s` by some run all of whose events satisfy `allowed`. -/
def Reaches (step : σ → ε → Option σ) (allowed : ε → Prop) (s t : σ) : Prop :=
  ∃ es, (∀ e ∈ es, allowed e) ∧ run step s es = some t

section Runs

variable {step : σ → ε → Option σ}

@[simp]
theorem run_nil (s : σ) : run step s [] = some s := rfl

theorem run_cons (s : σ) (e : ε) (es : List ε) :
    run step s (e :: es) = (step s e).bind fun t => run step t es := rfl

theorem run_cons_eq_some {s t : σ} {e : ε} {es : List ε} :
    run step s (e :: es) = some t ↔ ∃ u, step s e = some u ∧ run step u es = some t := by
  rw [run_cons, Option.bind_eq_some_iff]

theorem run_append (s : σ) (es₁ es₂ : List ε) :
    run step s (es₁ ++ es₂) = (run step s es₁).bind fun t => run step t es₂ := by
  induction es₁ generalizing s with
  | nil => rfl
  | cons e es ih =>
    rw [List.cons_append, run_cons, run_cons, Option.bind_assoc]
    congr 1
    funext t
    exact ih t

theorem along_cons {guard : σ → ε → Prop} {s t : σ} {e : ε} {es : List ε}
    (h : step s e = some t) :
    Along step guard s (e :: es) ↔ guard s e ∧ Along step guard t es := by
  refine and_congr_right fun _ => ⟨fun hrest => hrest t h, fun hrest u hu => ?_⟩
  obtain rfl : t = u := Option.some.inj (h.symm.trans hu)
  exact hrest

/-- **Invariant rule for guarded runs.** An invariant that each guarded step preserves holds in
every state of a guarded run. -/
theorem throughout_of_along {I : σ → Prop} {guard : σ → ε → Prop}
    (hstep : ∀ s e t, I s → guard s e → step s e = some t → I t) {s : σ} {es : List ε}
    (hs : I s) (hg : Along step guard s es) : Throughout step I s es := by
  induction es generalizing s with
  | nil => exact hs
  | cons e es ih => exact ⟨hs, fun t ht => ih (hstep s e t hs hg.1 ht) (hg.2 t ht)⟩

theorem Throughout.head {P : σ → Prop} {s : σ} {es : List ε} (h : Throughout step P s es) :
    P s := by
  cases es with
  | nil => exact h
  | cons e es => exact h.1

theorem Throughout.last {P : σ → Prop} {s t : σ} {es : List ε} (h : Throughout step P s es)
    (hrun : run step s es = some t) : P t := by
  induction es generalizing s with
  | nil =>
    cases hrun
    exact h
  | cons e es ih =>
    obtain ⟨u, hu, hrun⟩ := run_cons_eq_some.1 hrun
    exact ih (h.2 u hu) hrun

theorem Throughout.mono {P Q : σ → Prop} (hPQ : ∀ s, P s → Q s) {s : σ} {es : List ε}
    (h : Throughout step P s es) : Throughout step Q s es := by
  induction es generalizing s with
  | nil => exact hPQ s h
  | cons e es ih => exact ⟨hPQ s h.1, fun t ht => ih (h.2 t ht)⟩

theorem Throughout.and {P Q : σ → Prop} {s : σ} {es : List ε} (hP : Throughout step P s es)
    (hQ : Throughout step Q s es) : Throughout step (fun s => P s ∧ Q s) s es := by
  induction es generalizing s with
  | nil => exact ⟨hP, hQ⟩
  | cons e es ih => exact ⟨⟨hP.1, hQ.1⟩, fun t ht => ih (hP.2 t ht) (hQ.2 t ht)⟩

theorem Along.and {g g' : σ → ε → Prop} {s : σ} {es : List ε} (h : Along step g s es)
    (h' : Along step g' s es) : Along step (fun s e => g s e ∧ g' s e) s es := by
  induction es generalizing s with
  | nil => trivial
  | cons e es ih => exact ⟨⟨h.1, h'.1⟩, fun t ht => ih (h.2 t ht) (h'.2 t ht)⟩

/-- **Exact guards under a side condition.** Suppose that all steps of the run meet `side`, and that
for such steps `J` is preserved as long as `P` holds and, from a state with `J` and `P`, a step
leads to a state with `P` exactly if it meets the guard. Then the run visits only states with `P`
exactly if all its steps meet the guard. -/
theorem along_iff_throughout_of_along {J P : σ → Prop} {side guard : σ → ε → Prop}
    (hJ : ∀ s e t, J s → P s → side s e → step s e = some t → J t)
    (hstep : ∀ s e t, J s → P s → side s e → step s e = some t → (guard s e ↔ P t))
    {s t : σ} {es : List ε} (hJs : J s) (hPs : P s) (hside : Along step side s es)
    (hrun : run step s es = some t) : Along step guard s es ↔ Throughout step P s es := by
  induction es generalizing s with
  | nil => exact iff_of_true trivial hPs
  | cons e es ih =>
    obtain ⟨u, hu, hrun⟩ := run_cons_eq_some.1 hrun
    -- the step is a function, so `u` is the only state that the quantifiers below range over
    have hguard := hstep s e u hJs hPs hside.1 hu
    have hJu := hJ s e u hJs hPs hside.1 hu
    constructor
    · rintro ⟨hg, hrest⟩
      refine ⟨hPs, fun t ht => ?_⟩
      cases hu.symm.trans ht
      exact (ih hJu (hguard.1 hg) (hside.2 u hu) hrun).1 (hrest u hu)
    · rintro ⟨-, hrest⟩
      -- the next state is visited as well, which gives back the guard of this step
      have hPu : P u := (hrest u hu).head
      refine ⟨hguard.2 hPu, fun t ht => ?_⟩
      cases hu.symm.trans ht
      exact (ih hJu hPu (hside.2 u hu) hrun).2 (hrest u hu)

/-- Guards that agree in every state with an invariant agree along the runs that keep it. -/
theorem along_congr {I : σ → Prop} {g g' : σ → ε → Prop} (hg : ∀ s e, I s → (g s e ↔ g' s e))
    {s : σ} {es : List ε} (hI : Throughout step I s es) :
    Along step g s es ↔ Along step g' s es := by
  induction es generalizing s with
  | nil => exact Iff.rfl
  | cons e es ih =>
    exact and_congr (hg s e hI.1) (forall₂_congr fun t ht => ih (hI.2 t ht))

/-- A guard along a run holds of an event in the state that the run has reached. -/
theorem Along.of_run {g : σ → ε → Prop} {s t : σ} {es es' : List ε} {e : ε}
    (h : Along step g s (es ++ e :: es')) (hrun : run step s es = some t) : g t e := by
  induction es generalizing s with
  | nil =>
    cases hrun
    exact h.1
  | cons d es ih =>
    obtain ⟨u, hu, hrun⟩ := run_cons_eq_some.1 hrun
    exact ih (h.2 u hu) hrun

theorem along_true (s : σ) (es : List ε) : Along step (fun _ _ => True) s es := by
  induction es generalizing s with
  | nil => trivial
  | cons e es ih => exact ⟨trivial, fun t _ => ih t⟩

theorem Along.imp {g g' : σ → ε → Prop} (hg : ∀ s e, g s e → g' s e) {s : σ} {es : List ε}
    (h : Along step g s es) : Along step g' s es := by
  induction es generalizing s with
  | nil => trivial
  | cons e es ih => exact ⟨hg s e h.1, fun t ht => ih (h.2 t ht)⟩

/-- A condition on all events of the list is a guard along the run. -/
theorem along_of_forall {g : ε → Prop} {s : σ} {es : List ε} (h : ∀ e ∈ es, g e) :
    Along step (fun _ e => g e) s es := by
  induction es generalizing s with
  | nil => trivial
  | cons e es ih =>
    obtain ⟨he, hes⟩ := List.forall_mem_cons.1 h
    exact ⟨he, fun t _ => ih hes⟩

/-- **Exact guards.** -/
theorem along_iff_throughout {J P : σ → Prop} {guard : σ → ε → Prop}
    (hJ : ∀ s e t, J s → P s → step s e = some t → J t)
    (hstep : ∀ s e t, J s → P s → step s e = some t → (guard s e ↔ P t)) {s t : σ} {es : List ε}
    (hJs : J s) (hPs : P s) (hrun : run step s es = some t) :
    Along step guard s es ↔ Throughout step P s es :=
  along_iff_throughout_of_along (fun s e t hJs hPs (_ : True) => hJ s e t hJs hPs)
    (fun s e t hJs hPs _ => hstep s e t hJs hPs)
    hJs hPs (along_true s es) hrun

/-- Guarded runs of two machines over event lists related event by event stay related, and the
second machine can follow the first. -/
theorem run_related {δ : Type v} {step' : τ → δ → Option τ} {R : σ → τ → Prop} {E : ε → δ → Prop}
    {guard : σ → ε → Prop} {guard' : τ → δ → Prop}
    (hstep : ∀ s t e d s', R s t → E e d → guard s e → guard' t d → step s e = some s' →
      ∃ t', step' t d = some t' ∧ R s' t')
    {s s' : σ} {t : τ} {es : List ε} {ds : List δ} (hR : R s t) (hE : List.Forall₂ E es ds)
    (hg : Along step guard s es) (hg' : Along step' guard' t ds) (hrun : run step s es = some s') :
    ∃ t', run step' t ds = some t' ∧ R s' t' := by
  induction hE generalizing s t with
  | nil =>
    cases hrun
    exact ⟨t, rfl, hR⟩
  | @cons e d es ds hed _ ih =>
    obtain ⟨u, hu, hrun⟩ := run_cons_eq_some.1 hrun
    -- the second machine follows one step; the rest of the run starts from related states
    obtain ⟨u', hu', hR'⟩ := hstep s t e d u hR hed hg.1 hg'.1 hu
    obtain ⟨t', ht', hRt⟩ := ih hR' (hg.2 u hu) (hg'.2 u' hu') hrun
    exact ⟨t', run_cons_eq_some.2 ⟨u', hu', ht'⟩, hRt⟩

/-- **Simulation by runs.** When each step of the first machine is matched by a run of the second
one, so is each of its runs. -/
theorem run_simulated {δ : Type v} {step' : τ → δ → Option τ} {R : σ → τ → Prop}
    (hstep : ∀ s t e s', R s t → step s e = some s' → ∃ ds t', run step' t ds = some t' ∧ R s' t')
    {s s' : σ} {t : τ} {es : List ε} (hR : R s t) (hrun : run step s es = some s') :
    ∃ ds t', run step' t ds = some t' ∧ R s' t' := by
  induction es generalizing s t with
  | nil =>
    cases hrun
    exact ⟨[], t, rfl, hR⟩
  | cons e es ih =>
    obtain ⟨u, hu, hrun⟩ := run_cons_eq_some.1 hrun
    obtain ⟨ds₁, t₁, hrun₁, hR₁⟩ := hstep s t e u hR hu
    obtain ⟨ds₂, t₂, hrun₂, hR₂⟩ := ih hR₁ hrun
    refine ⟨ds₁ ++ ds₂, t₂, ?_, hR₂⟩
    rw [run_append, hrun₁, Option.bind_some, hrun₂]

end Runs

section Reachability

variable {step : σ → ε → Option σ} {allowed : ε → Prop}

theorem Reaches.refl (s : σ) : Reaches step allowed s s := ⟨[], by simp, rfl⟩

theorem Reaches.single {s t : σ} {e : ε} (he : allowed e) (h : step s e = some t) :
    Reaches step allowed s t :=
  ⟨[e], by simpa using he, run_cons_eq_some.2 ⟨t, h, rfl⟩⟩

theorem Reaches.trans {s t u : σ} (h₁ : Reaches step allowed s t) (h₂ : Reaches step allowed t u) :
    Reaches step allowed s u := by
  obtain ⟨es₁, ha₁, hr₁⟩ := h₁
  obtain ⟨es₂, ha₂, hr₂⟩ := h₂
  refine ⟨es₁ ++ es₂, fun e he => ?_, by rw [run_append, hr₁, Option.bind_some, hr₂]⟩
  rcases List.mem_append.1 he with he | he
  · exact ha₁ e he
  · exact ha₂ e he

/-- **Invariant rule for reachable states.** -/
theorem Reaches.invariant {I : σ → Prop}
    (hstep : ∀ s e t, I s → allowed e → step s e = some t → I t) {s t : σ}
    (h : Reaches step allowed s t) (hs : I s) : I t := by
  obtain ⟨es, ha, hr⟩ := h
  induction es generalizing s with
  | nil =>
    cases hr
    exact hs
  | cons e es ih =>
    obtain ⟨u, hu, hr⟩ := run_cons_eq_some.1 hr
    exact ih (hstep s e u hs (ha e List.mem_cons_self) hu)
      (fun e he => ha e (List.mem_cons_of_mem _ he)) hr

end Reachability

end Upstreamer.Foundations
