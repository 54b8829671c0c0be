/-
  Values with a version.

  A cell of a system's state shows a value and a VERSION (`look`), and may be empty.  The rule of the
  game (`Versioned`): a step that finds the cell full and leaves it full either leaves both as they are
  or moves the version on by `next`.  Versions may come round again, but not within `N` steps of `next`
  (`Period`): a counter of w bits, say, with N = 2^w.

  `unchanged_of_version`: if the cell is full all along, changes fewer than N times, and shows at the
  end of a run the version it showed at the start, then it showed the same value all along.  This is
  what a compare-and-swap on the version relies on.  That the cell is never empty is essential: nothing
  is said about the version with which an empty cell is filled.
-/
import Yrmcds.Lib.Run
import Mathlib.Logic.Function.Iterate

namespace Version

open Run

variable {σ ε δ β V : Type}

/-- A step keeps what the cell shows, or moves its version on. -/
def Versioned (look : σ → Option (β × V)) (next : V → V) (step : σ → ε → Except δ σ) : Prop :=
  ∀ s e s' x x', step s e = .ok s' → look s = some x → look s' = some x' → x' = x ∨ x'.2 = next x.2

/-- `next` does not come back to where it started in fewer than `N` steps. -/
def Period (next : V → V) (N : Nat) : Prop := ∀ v n, 0 < n → n < N → next^[n] v ≠ v

variable [DecidableEq β] [DecidableEq V]

/-- How many steps of a run change what the cell shows. -/
def changes (look : σ → Option (β × V)) (step : σ → ε → Except δ σ) : σ → List ε → Nat
  | _, [] => 0
  | s, e :: es =>
    match step s e with
    | .ok s' => (if look s' = look s then 0 else 1) + changes look step s' es
    | .error _ => 0

variable {look : σ → Option (β × V)} {next : V → V} {step : σ → ε → Except δ σ}

theorem changes_cons {s s' : σ} {e : ε} (es : List ε) (h : step s e = .ok s') :
    changes look step s (e :: es) = (if look s' = look s then 0 else 1) + changes look step s' es := by
  rw [changes, h]

/-- The version at the end of a run, by the number of changes. -/
theorem version_of_run (hv : Versioned look next step) {es : List ε} :
    ∀ {s t : σ} {x y : β × V}, Throughout (fun s => (look s).isSome) step s es → run step s es = .ok t →
      look s = some x → look t = some y → y.2 = next^[changes look step s es] x.2 := by
  induction es with
  | nil =>
    intro s t x y _ hr hx hy
    cases hr
    rw [hx, Option.some.injEq] at hy
    rw [← hy]
    rfl
  | cons e es ih =>
    intro s t x y hfull hr hx hy
    obtain ⟨s1, h1, hr1⟩ := run_cons_inv hr
    have hfull1 := hfull.2 s1 h1
    obtain ⟨x1, hx1⟩ := Option.isSome_iff_exists.mp hfull1.head
    have hy1 := ih hfull1 hr1 hx1 hy
    rw [changes_cons es h1]
    by_cases hsame : look s1 = look s
    · rw [if_pos hsame, Nat.zero_add]
      rw [hsame, hx, Option.some.injEq] at hx1
      rw [hx1]
      exact hy1
    · rw [if_neg hsame, Nat.add_comm, Function.iterate_succ_apply]
      rcases hv s e s1 x x1 h1 hx hx1 with heq | hnext
      · exact absurd (by rw [hx1, hx, heq]) hsame
      · rw [← hnext]
        exact hy1

/-- A run without changes. -/
theorem throughout_of_changes_eq_zero {es : List ε} :
    ∀ {s : σ} {x : Option (β × V)}, look s = x → changes look step s es = 0 →
      Throughout (fun t => look t = x) step s es := by
  induction es with
  | nil => intro s x hx _; exact hx
  | cons e es ih =>
    intro s x hx h
    refine ⟨hx, fun s1 h1 => ?_⟩
    rw [changes_cons es h1, Nat.add_eq_zero_iff] at h
    have hsame : look s1 = look s := by
      by_contra hne
      rw [if_neg hne] at h
      exact absurd h.1 Nat.one_ne_zero
    exact ih (hsame.trans hx) h.2

/-- **The same version at both ends means that nothing happened in between.** -/
theorem unchanged_of_version (hv : Versioned look next step) {N : Nat} (hN : Period next N) {es : List ε}
    {s t : σ} {x y : β × V} (hfull : Throughout (fun s => (look s).isSome) step s es)
    (hfew : changes look step s es < N) (hr : run step s es = .ok t) (hx : look s = some x)
    (hy : look t = some y) (hxy : y.2 = x.2) : Throughout (fun t => look t = some x) step s es := by
  refine throughout_of_changes_eq_zero hx ?_
  by_contra hne
  have hy2 := version_of_run hv hfull hr hx hy
  exact hN x.2 _ (Nat.pos_of_ne_zero hne) hfew (hy2.symm.trans hxy)

end Version
