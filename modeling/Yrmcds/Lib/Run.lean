/-
  Runs of a fallible transition function.

  A system is given by its step function `step : σ → ε → Except δ σ`: an EVENT takes a state to the
  next state, or fails (an exception that ends the process).  `run` folds a list of events; a run
  stops at the first failure.  `Along P` says that a condition on (state, event) pairs holds at every
  step a run really takes — the way to say "every step of this run meets the condition" without
  mentioning the states in between.

  The one induction of every safety proof is `run_invariant`: an invariant that a step keeps (under
  the step condition `P`), and under which a step cannot fail, holds of the state every run reaches —
  and the run reaches one.
-/
import Mathlib.Data.List.Basic

namespace Run

variable {σ ε δ : Type}

/-- Run a list of events from a state; stop at the first failing one. -/
def run (step : σ → ε → Except δ σ) : σ → List ε → Except δ σ
  | s, [] => .ok s
  | s, e :: es =>
    match step s e with
    | .ok s' => run step s' es
    | .error x => .error x

/-- `Along P step s es` — the condition `P` holds of every (state, event) pair met by the run of `es`
    from `s` (the pairs after a failure are never met). -/
def Along (P : σ → ε → Prop) (step : σ → ε → Except δ σ) : σ → List ε → Prop
  | _, [] => True
  | s, e :: es => P s e ∧ ∀ s', step s e = .ok s' → Along P step s' es

/-- `Throughout P step s es` — the condition `P` holds of every state the run of `es` from `s` passes,
    the first and the last included. -/
def Throughout (P : σ → Prop) (step : σ → ε → Except δ σ) : σ → List ε → Prop
  | s, [] => P s
  | s, e :: es => P s ∧ ∀ s', step s e = .ok s' → Throughout P step s' es

variable {step : σ → ε → Except δ σ}

variable {s s' : σ} {e : ε} {es : List ε}

theorem run_cons_ok (h : step s e = .ok s') (es : List ε) :
    run step s (e :: es) = run step s' es := by
  rw [run, h]

/-- Peel the first event off a successful run. -/
theorem run_cons_inv {t : σ} (h : run step s (e :: es) = .ok t) :
    ∃ s', step s e = .ok s' ∧ run step s' es = .ok t := by
  rw [run] at h
  cases hs : step s e with
  | ok s' => rw [hs] at h; exact ⟨s', rfl, h⟩
  | error x => rw [hs] at h; cases h

theorem along_cons_ok {P : σ → ε → Prop} (h : step s e = .ok s') :
    Along P step s (e :: es) ↔ P s e ∧ Along P step s' es := by
  rw [Along]
  refine and_congr_right fun _ => ⟨fun ha => ha s' h, fun ha t ht => ?_⟩
  rw [h, Except.ok.injEq] at ht
  exact ht ▸ ha

theorem along_cons_error {P : σ → ε → Prop} {x : δ} (es : List ε)
    (h : step s e = .error x) : Along P step s (e :: es) ↔ P s e := by
  rw [Along, h]
  exact ⟨And.left, fun hp => ⟨hp, fun _ ht => nomatch ht⟩⟩

/-- A condition that can be evaluated at a step can be evaluated along a run. -/
instance Along.decidable {P : σ → ε → Prop} [∀ s e, Decidable (P s e)] :
    ∀ (s : σ) (es : List ε), Decidable (Along P step s es)
  | _, [] => .isTrue trivial
  | s, e :: es =>
    match h : step s e with
    | .ok s' =>
      have := Along.decidable (P := P) s' es
      decidable_of_iff _ (along_cons_ok h).symm
    | .error _ => decidable_of_iff _ (along_cons_error es h).symm

instance Throughout.decidable {P : σ → Prop} [∀ s, Decidable (P s)] :
    ∀ (s : σ) (es : List ε), Decidable (Throughout P step s es)
  | s, [] => inferInstanceAs (Decidable (P s))
  | s, e :: es =>
    match h : step s e with
    | .ok s' =>
      have := Throughout.decidable (P := P) s' es
      decidable_of_iff (P s ∧ Throughout P step s' es) ⟨fun ht => ⟨ht.1, fun t hst => by
        rw [h, Except.ok.injEq] at hst; exact hst ▸ ht.2⟩, fun ht => ⟨ht.1, ht.2 s' h⟩⟩
    | .error _ => decidable_of_iff (P s) ⟨fun hp => ⟨hp, fun _ ht => by
        rw [h] at ht; cases ht⟩, fun ht => ht.1⟩

/-- **The invariant rule.**  A step that keeps `Inv` and cannot fail under it (given the step
    condition) makes every run succeed in a state of `Inv`. -/
theorem run_invariant {Inv : σ → Prop} {P : σ → ε → Prop}
    (hstep : ∀ s e, Inv s → P s e → ∃ s', step s e = .ok s' ∧ Inv s') :
    ∀ (es : List ε) (s : σ), Inv s → Along P step s es → ∃ s', run step s es = .ok s' ∧ Inv s' := by
  intro es
  induction es with
  | nil => intro s hs _; exact ⟨s, rfl, hs⟩
  | cons e es ih =>
    intro s hs hal
    obtain ⟨s1, h1, hi1⟩ := hstep s e hs hal.1
    obtain ⟨s', hr, hi'⟩ := ih s1 hi1 (hal.2 s1 h1)
    exact ⟨s', by rw [run_cons_ok h1, hr], hi'⟩

/-- The invariant rule for partial correctness: an invariant kept by the steps that succeed, under a
    condition on the events, holds of the end of every run that succeeds. -/
theorem run_preserves_of_mem {I : σ → Prop} {C : ε → Prop}
    (hstep : ∀ s e s', I s → C e → step s e = .ok s' → I s') (hC : ∀ e ∈ es, C e)
    (hs : I s) (h : run step s es = .ok s') : I s' := by
  induction es generalizing s with
  | nil => cases h; exact hs
  | cons e es ih =>
    obtain ⟨s1, h1, hr⟩ := run_cons_inv h
    have hs1 : I s1 := hstep s e s1 hs (hC e List.mem_cons_self) h1
    exact ih (fun f hf => hC f (List.mem_cons_of_mem _ hf)) hs1 hr

/-- ... and without a condition. -/
theorem run_preserves {Inv : σ → Prop} (hstep : ∀ s e s', Inv s → step s e = .ok s' → Inv s')
    (hs : Inv s) (h : run step s es = .ok s') : Inv s' :=
  run_preserves_of_mem (C := fun _ => True) (fun s e s' hi _ => hstep s e s' hi) (fun _ _ => trivial) hs h

/-- ... and under a condition on the steps taken. -/
theorem run_preserves_along {I : σ → Prop} {C : σ → ε → Prop}
    (hstep : ∀ s e s', I s → C s e → step s e = .ok s' → I s') :
    ∀ {s s' : σ}, I s → Along C step s es → run step s es = .ok s' → I s' := by
  induction es with
  | nil => intro s s' hs _ h; cases h; exact hs
  | cons e es ih =>
    intro s s' hs hal h
    obtain ⟨s1, h1, hr⟩ := run_cons_inv h
    exact ih (hstep s e s1 hs hal.1 h1) (hal.2 s1 h1) hr

/-- A run in two parts. -/
theorem run_append_ok : ∀ {s a : σ}, run step s es = .ok a → ∀ fs : List ε,
    run step s (es ++ fs) = run step a fs := by
  induction es with
  | nil => intro s a h fs; cases h; rfl
  | cons e es ih =>
    intro s a h fs
    obtain ⟨s1, h1, hr⟩ := run_cons_inv h
    rw [List.cons_append, run_cons_ok h1]
    exact ih hr fs

/-- What holds of every event in a state with the invariant holds along every run from one. -/
theorem along_of_invariant {I : σ → Prop} {P : σ → ε → Prop} (hP : ∀ {s} e, I s → P s e)
    (hI : ∀ {s s' e}, I s → step s e = .ok s' → I s') :
    ∀ (es : List ε) {s : σ}, I s → Along P step s es := by
  intro es
  induction es with
  | nil => exact fun _ => trivial
  | cons e es ih => exact fun h => ⟨hP e h, fun s' hs => ih (hI h hs)⟩

/-- The invariant rule without a condition: no run fails. -/
theorem run_total {I : σ → Prop} (hstep : ∀ s e, I s → ∃ s', step s e = .ok s' ∧ I s') (es : List ε)
    (hs : I s) : ∃ s', run step s es = .ok s' ∧ I s' := by
  refine run_invariant (P := fun _ _ => True) (fun s e hi _ => hstep s e hi) es s hs ?_
  exact along_of_invariant (I := fun _ => True) (fun _ _ => trivial) (fun _ _ => trivial) es trivial

theorem Along.append {C : σ → ε → Prop} {fs : List ε} : ∀ {s a : σ}, run step s es = .ok a →
    Along C step s (es ++ fs) → Along C step s es ∧ Along C step a fs := by
  induction es with
  | nil => intro s a h hal; cases h; exact ⟨trivial, hal⟩
  | cons e es ih =>
    intro s a h hal
    obtain ⟨s1, h1, hr⟩ := run_cons_inv h
    obtain ⟨he, hrest⟩ := (along_cons_ok h1).mp hal
    obtain ⟨hes, hfs⟩ := ih hr hrest
    exact ⟨(along_cons_ok h1).mpr ⟨he, hes⟩, hfs⟩

theorem Throughout.head {P : σ → Prop} (h : Throughout P step s es) : P s := by
  cases es with
  | nil => exact h
  | cons e es => exact h.1

/-- How a run fails: the step that throws is taken under the invariant and the step condition. -/
theorem run_error {I : σ → Prop} {C : σ → ε → Prop} {Q : δ → Prop}
    (hstep : ∀ s e s', I s → C s e → step s e = .ok s' → I s')
    (hfail : ∀ s e x, I s → C s e → step s e = .error x → Q x) (es : List ε) :
    ∀ {s : σ} {x : δ}, I s → Along C step s es → run step s es = .error x → Q x := by
  induction es with
  | nil => intro s x _ _ h; cases h
  | cons e es ih =>
    intro s x hs hc h
    rw [run] at h
    cases hse : step s e with
    | ok s' => rw [hse] at h; exact ih (hstep s e s' hs hc.1 hse) (hc.2 s' hse) h
    | error y =>
      rw [hse, Except.error.injEq] at h
      exact h ▸ hfail s e y hs hc.1 hse

/-- Throughout a run that meets a step condition, what an invariant kept under it implies. -/
theorem throughout_of_along {I P : σ → Prop} {C : σ → ε → Prop}
    (hstep : ∀ s e s', I s → C s e → step s e = .ok s' → I s') (hp : ∀ s, I s → P s) (es : List ε) :
    ∀ {s : σ}, I s → Along C step s es → Throughout P step s es := by
  induction es with
  | nil => intro s hs _; exact hp s hs
  | cons e es ih =>
    intro s hs ha
    exact ⟨hp s hs, fun s' h => ih (hstep s e s' hs ha.1 h) (ha.2 s' h)⟩

/-- A step condition that says exactly which steps stay within `P` says exactly which runs do. -/
theorem throughout_iff_along {I P : σ → Prop} {C : σ → ε → Prop} (hp : ∀ s, I s → P s)
    (hc : ∀ s e, I s → (C s e ↔ ∀ s', step s e = .ok s' → P s'))
    (hi : ∀ s e s', I s → step s e = .ok s' → P s' → I s') (es : List ε) :
    ∀ {s : σ}, I s → (Throughout P step s es ↔ Along C step s es) := by
  induction es with
  | nil => intro s hs; exact ⟨fun _ => trivial, fun _ => hp s hs⟩
  | cons e es ih =>
    intro s hs
    constructor
    · rintro ⟨-, ht⟩
      have hstay : ∀ s', step s e = .ok s' → P s' := fun s' h => (ht s' h).head
      exact ⟨(hc s e hs).mpr hstay, fun s' h => (ih (hi s e s' hs h (hstay s' h))).mp (ht s' h)⟩
    · rintro ⟨hse, ha⟩
      have hstay := (hc s e hs).mp hse
      exact ⟨hp s hs, fun s' h => (ih (hi s e s' hs h (hstay s' h))).mpr (ha s' h)⟩

/-- Two step conditions that agree where the invariant holds agree along every run that keeps it. -/
theorem along_iff_along {I : σ → Prop} {P C : σ → ε → Prop} (hpc : ∀ s e, I s → (P s e ↔ C s e))
    (hi : ∀ s e s', I s → C s e → step s e = .ok s' → I s') (es : List ε) :
    ∀ {s : σ}, I s → (Along P step s es ↔ Along C step s es) := by
  induction es with
  | nil => exact fun _ => Iff.rfl
  | cons e es ih =>
    intro s hs
    rw [Along, Along, hpc s e hs]
    refine and_congr_right fun hc => forall₂_congr fun s' h => ?_
    exact ih (hi s e s' hs hc h)

end Run
