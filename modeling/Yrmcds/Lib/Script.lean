/-
  Programs that read values and give up at the first that cannot be read.

  A `Script` asks QUERIES, one after the other; the answer to one decides what is asked next.  A query
  without an answer ends the script, with a result that was fixed when the query was asked.  Parsers of
  lines of fields have this form.

  What is gained is a list of the queries: a script run with two sources of answers gives one result if
  the sources agree on what is asked, and where they do not agree everywhere, `resume` runs the script up
  to the first query that is in doubt (`stop`).  So "the result does not depend on X" is decided at ONE
  query: the one `resume` is left with.

  `runState` is a run in which reading has a side effect.  If a read that changes the state fails, the
  state is the initial one at every read, and the run is a plain one.
-/
import Mathlib.Data.List.Basic

/-- Read values until one cannot be read. -/
inductive Script (Q A α : Type) where
  | ret (a : α)
  | read (q : Q) (fail : α) (k : A → Script Q A α)

namespace Script

variable {Q A α σ : Type}

/-- The result, with answers from `f`. -/
def run (f : Q → Option A) : Script Q A α → α
  | ret a => a
  | read q fail k =>
    match f q with
    | none => fail
    | some a => run f (k a)

/-- What is asked. -/
def asked (f : Q → Option A) : Script Q A α → List Q
  | ret _ => []
  | read q _ k =>
    q :: match f q with
      | none => []
      | some a => asked f (k a)

/-- The script that is left at the first query in doubt. -/
def resume (f : Q → Option A) (stop : Q → Bool) : Script Q A α → Script Q A α
  | ret a => ret a
  | read q fail k =>
    if stop q then read q fail k
    else
      match f q with
      | none => ret fail
      | some a => resume f stop (k a)

/-- `P` holds of every result, whatever the answers. -/
def Every (P : α → Prop) : Script Q A α → Prop
  | ret a => P a
  | read _ fail k => P fail ∧ ∀ a, Every P (k a)

/-- `P` holds of every query with what it leads to, whatever the answers. -/
def Nodes (P : Q → α → (A → Script Q A α) → Prop) : Script Q A α → Prop
  | ret _ => True
  | read q fail k => P q fail k ∧ ∀ a, Nodes P (k a)

/-- A run in which reading changes a state. -/
def runState (f : σ → Q → Option A × σ) : Script Q A α → σ → α × σ
  | ret a, s => (a, s)
  | read q fail k, s =>
    match f s q with
    | (none, s') => (fail, s')
    | (some a, s') => runState f (k a) s'

theorem run_every {P : α → Prop} {p : Script Q A α} (h : p.Every P) (f : Q → Option A) : P (p.run f) := by
  induction p with
  | ret a => exact h
  | read q fail k ih =>
    rw [run]
    cases f q with
    | none => exact h.1
    | some a => exact ih a (h.2 a)

theorem Every.imp {P P' : α → Prop} (hP : ∀ a, P a → P' a) {p : Script Q A α} (h : p.Every P) :
    p.Every P' := by
  induction p with
  | ret a => exact hP a h
  | read q fail k ih => exact ⟨hP fail h.1, fun a => ih a (h.2 a)⟩

section

variable {f : Q → Option A} {stop : Q → Bool} {p : Script Q A α}

/-- Where the answers are not in doubt, they need not be asked for again. -/
theorem run_resume {g : Q → Option A} (hg : ∀ q, stop q = false → g q = f q) (p : Script Q A α) :
    (p.resume f stop).run g = p.run g := by
  induction p with
  | ret a => rfl
  | read q fail k ih =>
    rw [resume]
    cases hq : stop q with
    | true => rfl
    | false =>
      rw [if_neg (by decide), run, hg q hq]
      cases f q with
      | none => rfl
      | some a => exact ih a

/-- The query in doubt is one that is asked, and is as every query of the script is. -/
theorem resume_read {P : Q → α → (A → Script Q A α) → Prop} (hp : p.Nodes P) {q : Q} {fail : α}
    {k : A → Script Q A α} (h : p.resume f stop = read q fail k) :
    stop q = true ∧ q ∈ p.asked f ∧ P q fail k := by
  induction p with
  | ret a => cases h
  | read q' fail' k' ih =>
    rw [resume] at h
    rw [asked, List.mem_cons]
    cases hq : stop q' with
    | true =>
      rw [if_pos hq] at h
      cases h
      exact ⟨hq, .inl rfl, hp.1⟩
    | false =>
      rw [if_neg (by rw [hq]; decide)] at h
      cases hf : f q' with
      | none =>
        rw [hf] at h
        cases h
      | some a =>
        rw [hf] at h
        obtain ⟨hstop, hmem, hP⟩ := ih a (hp.2 a) h
        exact ⟨hstop, .inr hmem, hP⟩

/-- No query was in doubt. -/
theorem resume_ret {a : α} (h : p.resume f stop = ret a) : ∀ q ∈ p.asked f, stop q = false := by
  induction p with
  | ret b => exact fun q hq => absurd hq List.not_mem_nil
  | read q' fail' k' ih =>
    rw [resume] at h
    cases hq : stop q' with
    | true =>
      rw [if_pos hq] at h
      cases h
    | false =>
      rw [if_neg (by rw [hq]; decide)] at h
      intro q hmem
      rw [asked, List.mem_cons] at hmem
      cases hf : f q' with
      | none =>
        rw [hf] at hmem
        rcases hmem with rfl | hmem
        · exact hq
        · exact absurd hmem List.not_mem_nil
      | some a' =>
        rw [hf] at h hmem
        rcases hmem with rfl | hmem
        · exact hq
        · exact ih a' h q hmem

/-- If what is in doubt has no answer in `f`, only one such query is asked. -/
theorem resume_unique (hnone : ∀ q, stop q = true → f q = none) {q : Q} {fail : α} {k : A → Script Q A α}
    (h : p.resume f stop = read q fail k) {q' : Q} (hmem : q' ∈ p.asked f) (hq' : stop q' = true) :
    q' = q := by
  induction p with
  | ret a => cases h
  | read q0 fail0 k0 ih =>
    rw [resume] at h
    rw [asked, List.mem_cons] at hmem
    cases hq : stop q0 with
    | true =>
      rw [if_pos hq] at h
      cases h
      rw [hnone q hq] at hmem
      exact hmem.resolve_right List.not_mem_nil
    | false =>
      rw [if_neg (by rw [hq]; decide)] at h
      have htail := hmem.resolve_left fun heq => by rw [heq, hq] at hq'; cases hq'
      cases hf : f q0 with
      | none =>
        rw [hf] at h
        cases h
      | some a =>
        rw [hf] at h htail
        exact ih a h htail

end

section

variable {f : σ → Q → Option A × σ}

/-- A read that changes the state fails: so all reads are made in the initial state. -/
theorem runState_fst (hf : ∀ s q a, (f s q).1 = some a → (f s q).2 = s) (p : Script Q A α) (s : σ) :
    (p.runState f s).1 = p.run fun q => (f s q).1 := by
  induction p with
  | ret a => rfl
  | read q fail k ih =>
    rw [runState, run]
    cases hq : f s q with
    | mk x s' =>
      cases x with
      | none => rfl
      | some a =>
        have hs : (f s q).2 = s := hf s q a (by rw [hq])
        rw [hq] at hs
        dsimp only at hs ⊢
        rw [hs]
        exact ih a

/-- A flag that is set by some reads, and never cleared. -/
theorem runState_flag {g : Bool → Q → Option A} {sets : Q → Bool}
    (hg : ∀ s q, sets q = true → g s q = none) (p : Script Q A α) (s : Bool) :
    (p.runState (fun s q => (g s q, s || sets q)) s).2 = (s || (p.asked (g s)).any sets) := by
  induction p with
  | ret a => exact (Bool.or_false s).symm
  | read q fail k ih =>
    rw [runState, asked, List.any_cons]
    cases hq : g s q with
    | none => rw [List.any_nil, Bool.or_false]
    | some a =>
      have hsets : sets q = false := by
        by_contra hne
        rw [hg s q ((Bool.not_eq_false _).mp hne)] at hq
        cases hq
      dsimp only
      rw [hsets, Bool.or_false, Bool.false_or]
      exact ih a

end

end Script
