/-
  The maximum consumption a counter reports (src/counter/object.hpp).

  Time is cut into intervals of `stat_interval` seconds.  `max_consumption()` is to be the largest
  consumption of the CURRENT interval, and a counter has only two numbers and the time of its last change
  for that.  What the answer is compared with here is the whole HISTORY of the consumption: every value
  it has had, newest first, with the time at which it got it.

  A value was the consumption at some moment at or after the time `b` exactly if all later changes were
  made at `b` or later: then it is one of the values of the interval that begins at `b`, and the oldest of
  them is the one carried over from the interval before (`HeldSince`).

  The argument has two parts.  If the last change was made before the current interval began, the only
  value of the interval is the consumption itself.  Otherwise the interval is still that of the last change
  (`begin_eq`), and `m_max_consumption` is the largest value of THAT one (`Exact`).
-/
import Yrmcds.Counter.Sockets
import Mathlib.Order.Bounds.Basic

namespace Yrmcds.Counter

/-- What `acquire` and `release` are called with. -/
inductive Action where
  | acquire (resources maximum : UInt32)
  | release (resources : UInt32)
deriving DecidableEq, Repr

/-- A call, and the clock when it is made. -/
structure Call where
  now : Int
  action : Action
deriving DecidableEq, Repr

/-- The same, at another time. -/
def Env.at (g : Env) (now : Int) : Env := { g with now := now }

/-- A counter with its history: every consumption it has had, newest first. -/
structure Traced where
  obj : Object
  history : List (Int × UInt32)

namespace Traced

/-- The constructor. -/
def create (g : Env) (now : Int) (consumption : UInt32) : Traced :=
  ⟨Object.new (g.at now) consumption, [(now, consumption)]⟩

/-- What a call returns and leaves. -/
def answer (g : Env) (o : Object) (c : Call) : Bool × Object :=
  match c.action with
  | .acquire resources maximum => o.acquire (g.at c.now) resources maximum
  | .release resources => o.release (g.at c.now) resources

/-- A call; one that fails changes nothing. -/
def step (g : Env) (s : Traced) (c : Call) : Traced :=
  let r := answer g s.obj c
  { obj := r.2, history := if r.1 then (c.now, r.2.consumption) :: s.history else s.history }

variable {g : Env} {s : Traced} {c : Call}

theorem step_failed (h : answer g s.obj c = (false, s.obj)) : s.step g c = s := by
  unfold step
  rw [h]
  rfl

theorem step_done {v : UInt32} (h : (answer g s.obj c).1 = true) (hv : (answer g s.obj c).2.consumption = v) :
    s.step g c = ⟨(answer g s.obj c).2, (c.now, v) :: s.history⟩ := by
  unfold step
  dsimp only
  rw [if_pos h, hv]

end Traced

/-- `v` was the consumption at some moment at or after `b`: it was changed only at `b` or later, or never. -/
def HeldSince (b : Int) (history : List (Int × UInt32)) (v : UInt32) : Prop :=
  ∃ newer t older, history = newer ++ (t, v) :: older ∧ ∀ x ∈ newer, b ≤ x.1

variable {t now : Int} {m v : UInt32} {o : Object}

theorem heldSince_cons {b : Int} {w : UInt32} {h : List (Int × UInt32)} :
    HeldSince b ((t, w) :: h) v ↔ v = w ∨ (b ≤ t ∧ HeldSince b h v) := by
  constructor
  · rintro ⟨newer, t', older, hh, hb⟩
    cases newer with
    | nil =>
      rw [List.nil_append, List.cons.injEq, Prod.mk.injEq] at hh
      exact .inl hh.1.2.symm
    | cons x newer =>
      rw [List.cons_append, List.cons.injEq] at hh
      obtain ⟨rfl, hh⟩ := hh
      exact .inr ⟨hb _ List.mem_cons_self, newer, t', older, hh, fun y hy => hb y (List.mem_cons_of_mem _ hy)⟩
  · rintro (rfl | ⟨hbt, newer, t', older, rfl, hb⟩)
    · exact ⟨[], t, h, rfl, fun _ hx => by cases hx⟩
    · exact ⟨(t, w) :: newer, t', older, rfl, List.forall_mem_cons.mpr ⟨hbt, hb⟩⟩

/-! ## Intervals -/

section Exact

variable {g : Env}

/-- A shorter name for the begin of the interval that `t` lies in. -/
abbrev Env.begin (g : Env) (t : Int) : Int := Object.nearestBoundary g t

theorem begin_mono (hg : 0 < g.statInterval) {s : Int} (h : s ≤ t) : g.begin s ≤ g.begin t := by
  have hi : (0 : Int) < g.statInterval := Int.natCast_pos.mpr hg
  exact Int.mul_le_mul_of_nonneg_right (Int.tdiv_le_tdiv hi h) (Int.le_of_lt hi)

/-- The begin of an interval lies in the interval. -/
theorem begin_begin (hg : 0 < g.statInterval) (t : Int) : g.begin (g.begin t) = g.begin t := by
  have hi : (g.statInterval : Int) ≠ 0 := Int.natCast_ne_zero.mpr (Nat.ne_of_gt hg)
  show (t.tdiv g.statInterval * g.statInterval).tdiv g.statInterval * g.statInterval
    = t.tdiv g.statInterval * g.statInterval
  rw [Int.mul_tdiv_cancel _ hi]

/-- **A time between the begin of the current interval and now lies in the current interval.** -/
theorem begin_eq (hg : 0 < g.statInterval) (ht : t ≤ now) (hb : g.begin now ≤ t) :
    g.begin t = g.begin now := by
  refine Int.le_antisymm (begin_mono hg ht) ?_
  rw [← begin_begin hg now]
  exact begin_mono hg hb

theorem reportedMax_of_lt (h : o.lastUpdated < g.begin now) :
    o.reportedMax (g.at now) = o.consumption := if_pos h

theorem reportedMax_of_le (h : g.begin now ≤ o.lastUpdated) :
    o.reportedMax (g.at now) = o.maxConsumption := if_neg (Int.not_lt.mpr h)

/-! ## What a counter knows -/

/-- **What every call keeps.**  The history ends with the present value, and `m_max_consumption` is the
    largest value of the interval in which the last change was made. -/
structure Exact (g : Env) (s : Traced) : Prop where
  newest : ∃ older, s.history = (s.obj.lastUpdated, s.obj.consumption) :: older
  greatest : g.begin s.obj.lastUpdated ≤ s.obj.lastUpdated →
    IsGreatest { v | HeldSince (g.begin s.obj.lastUpdated) s.history v } s.obj.maxConsumption

theorem exact_create (g : Env) (now : Int) (c : UInt32) : Exact g (.create g now c) := by
  refine ⟨⟨[], rfl⟩, fun _ => ⟨⟨[], now, [], rfl, fun _ hx => by cases hx⟩, ?_⟩⟩
  intro v hv
  rcases heldSince_cons.mp hv with rfl | ⟨-, newer, t, older, hh, -⟩
  · exact UInt32.le_refl _
  · exact absurd hh.symm (by simp)

/-- The values of an interval that has begun after the last change. -/
theorem Exact.heldSince_of_lt {s : Traced} (e : Exact g s) {b : Int} (hb : s.obj.lastUpdated < b)
    : HeldSince b s.history v ↔ v = s.obj.consumption := by
  obtain ⟨older, hh⟩ := e.newest
  rw [hh, heldSince_cons]
  exact ⟨fun h => h.elim id fun h => absurd h.1 (Int.not_le.mpr hb), .inl⟩

/-- The values of an interval that had begun by then. -/
theorem Exact.greatest_of_le (hg : 0 < g.statInterval) {s : Traced} (e : Exact g s)
    (hnow : s.obj.lastUpdated ≤ now) (hb : g.begin now ≤ s.obj.lastUpdated) :
    IsGreatest { v | HeldSince (g.begin now) s.history v } s.obj.maxConsumption := by
  have heq := begin_eq hg hnow hb
  have := e.greatest (heq ▸ hb)
  rwa [heq] at this

/-- **The reported maximum is exact**, in every state that the calls can reach. -/
theorem Exact.reported (hg : 0 < g.statInterval) {s : Traced} (e : Exact g s) (hnow : s.obj.lastUpdated ≤ now) :
    IsGreatest { v | HeldSince (g.begin now) s.history v } (s.obj.reportedMax (g.at now)) := by
  by_cases hlt : s.obj.lastUpdated < g.begin now
  · rw [reportedMax_of_lt hlt]
    refine ⟨(e.heldSince_of_lt hlt).mpr rfl, fun v hv => ?_⟩
    rw [(e.heldSince_of_lt hlt).mp hv]
    exact UInt32.le_refl _
  · rw [reportedMax_of_le (Int.not_lt.mp hlt)]
    exact e.greatest_of_le hg hnow (Int.not_lt.mp hlt)

/-- A change to `v`, if the new maximum is at least `v`, at least the old maximum as it would have been
    reported, and one of the two. -/
theorem Exact.change (hg : 0 < g.statInterval) {s : Traced} (e : Exact g s)
    (hnow : s.obj.lastUpdated ≤ now) (hv : v ≤ m) (hm : s.obj.reportedMax (g.at now) ≤ m)
    (hone : m = v ∨ m = s.obj.reportedMax (g.at now)) :
    Exact g ⟨⟨v, m, now⟩, (now, v) :: s.history⟩ := by
  obtain ⟨hmem, hle⟩ := e.reported hg hnow
  refine ⟨⟨s.history, rfl⟩, fun hb => ⟨?_, ?_⟩⟩
  · rcases hone with rfl | rfl
    · exact heldSince_cons.mpr (.inl rfl)
    · exact heldSince_cons.mpr (.inr ⟨hb, hmem⟩)
  · intro w hw
    rcases heldSince_cons.mp hw with rfl | ⟨-, hw⟩
    · exact hv
    · exact UInt32.le_trans (hle hw) hm

/-- The present value is one of those of the interval. -/
theorem Exact.consumption_le (hg : 0 < g.statInterval) {s : Traced} (e : Exact g s)
    (hnow : s.obj.lastUpdated ≤ now) : s.obj.consumption ≤ s.obj.reportedMax (g.at now) := by
  refine (e.reported hg hnow).2 ?_
  obtain ⟨older, hh⟩ := e.newest
  show HeldSince _ _ _
  rw [hh]
  exact heldSince_cons.mpr (.inl rfl)

/-! ## The calls -/

/-- An `acquire` that succeeds does not make the consumption exceed 2^32 - 1. -/
def Call.Fits (g : Env) (o : Object) (c : Call) : Prop :=
  match c.action with
  | .acquire resources maximum => (o.acquire (g.at c.now) resources maximum).1 = true →
      o.consumption.toNat + resources.toNat < 2 ^ 32
  | .release _ => True

instance (g : Env) (o : Object) (c : Call) : Decidable (c.Fits g o) := by
  unfold Call.Fits
  cases c.action <;> infer_instance

theorem max_cases (a b : UInt32) : (a ≤ b ∧ max a b = b) ∨ (b ≤ a ∧ max a b = a) := by
  by_cases h : a ≤ b
  · exact .inl ⟨h, if_pos h⟩
  · exact .inr ⟨UInt32.le_of_lt (UInt32.not_le.mp h), if_neg h⟩

/-- The new maximum of an `acquire`: in a new interval the new value, and the old one is not larger. -/
theorem acquire_max (hle : o.consumption ≤ v) (now : Int)
    (hm : (if o.lastUpdated < g.begin now then v else max o.maxConsumption v) = m) :
    v ≤ m ∧ o.reportedMax (g.at now) ≤ m ∧ (m = v ∨ m = o.reportedMax (g.at now)) := by
  by_cases hlt : o.lastUpdated < g.begin now
  · rw [if_pos hlt] at hm
    rw [reportedMax_of_lt hlt, ← hm]
    exact ⟨UInt32.le_refl _, hle, .inl rfl⟩
  · rw [if_neg hlt] at hm
    rw [reportedMax_of_le (Int.not_lt.mp hlt), ← hm]
    rcases max_cases o.maxConsumption v with ⟨hmv, heq⟩ | ⟨hvm, heq⟩
    · rw [heq]
      exact ⟨UInt32.le_refl _, hmv, .inl rfl⟩
    · rw [heq]
      exact ⟨hvm, UInt32.le_refl _, .inr rfl⟩

theorem Exact.acquire (hg : 0 < g.statInterval) {s : Traced} (e : Exact g s)
    (hnow : s.obj.lastUpdated ≤ now) {r : UInt32} (hr : ¬ s.obj.consumption + r > m)
    (hfit : s.obj.consumption.toNat + r.toNat < 2 ^ 32) :
    Exact g ⟨(s.obj.acquire (g.at now) r m).2, (now, s.obj.consumption + r) :: s.history⟩ := by
  have hle : s.obj.consumption ≤ s.obj.consumption + r := by
    rw [UInt32.le_iff_toNat_le, UInt32.toNat_add, Nat.mod_eq_of_lt hfit]
    exact Nat.le_add_right _ _
  obtain ⟨hv, hm, hone⟩ := acquire_max (g := g) hle now rfl
  unfold Object.acquire
  rw [if_neg hr]
  exact e.change hg hnow hv hm hone

/-- A `release` leaves as its maximum what would have been reported before it. -/
theorem Exact.release (hg : 0 < g.statInterval) {s : Traced} (e : Exact g s)
    (hnow : s.obj.lastUpdated ≤ now) {r : UInt32} (hr : ¬ r > s.obj.consumption) :
    Exact g ⟨(s.obj.release (g.at now) r).2, (now, s.obj.consumption - r) :: s.history⟩ := by
  have hle : s.obj.consumption - r ≤ s.obj.consumption := by
    rw [UInt32.le_iff_toNat_le, UInt32.toNat_sub_of_le _ _ (UInt32.not_lt.mp hr)]
    exact Nat.sub_le _ _
  unfold Object.release
  rw [if_neg hr]
  exact e.change hg hnow (UInt32.le_trans hle (e.consumption_le hg hnow)) (UInt32.le_refl _) (.inr rfl)

/-- **One call.** -/
theorem Exact.step (hg : 0 < g.statInterval) {s : Traced} (e : Exact g s) {c : Call}
    (hnow : s.obj.lastUpdated ≤ c.now) (hfit : c.Fits g s.obj) :
    Exact g (s.step g c) ∧ (s.step g c).obj.lastUpdated ≤ c.now := by
  obtain ⟨now, action⟩ := c
  cases action with
  | acquire r m =>
    by_cases hr : s.obj.consumption + r > m
    · have hans : s.obj.acquire (g.at now) r m = (false, s.obj) := if_pos hr
      rw [Traced.step_failed (c := ⟨now, .acquire r m⟩) hans]
      exact ⟨e, hnow⟩
    · have hans : (s.obj.acquire (g.at now) r m).1 = true ∧
          (s.obj.acquire (g.at now) r m).2.consumption = s.obj.consumption + r ∧
          (s.obj.acquire (g.at now) r m).2.lastUpdated = now := by
        unfold Object.acquire
        rw [if_neg hr]
        exact ⟨rfl, rfl, rfl⟩
      rw [Traced.step_done (c := ⟨now, .acquire r m⟩) hans.1 hans.2.1]
      exact ⟨e.acquire hg hnow hr (hfit hans.1), Int.le_of_eq hans.2.2⟩
  | release r =>
    by_cases hr : r > s.obj.consumption
    · have hans : s.obj.release (g.at now) r = (false, s.obj) := if_pos hr
      rw [Traced.step_failed (c := ⟨now, .release r⟩) hans]
      exact ⟨e, hnow⟩
    · have hans : (s.obj.release (g.at now) r).1 = true ∧
          (s.obj.release (g.at now) r).2.consumption = s.obj.consumption - r ∧
          (s.obj.release (g.at now) r).2.lastUpdated = now := by
        unfold Object.release
        rw [if_neg hr]
        exact ⟨rfl, rfl, rfl⟩
      rw [Traced.step_done (c := ⟨now, .release r⟩) hans.1 hans.2.1]
      exact ⟨e.release hg hnow hr, Int.le_of_eq hans.2.2⟩

end Exact

/-- Every call of the run fits. -/
def FitsAll (g : Env) : Traced → List Call → Prop
  | _, [] => True
  | s, c :: cs => c.Fits g s.obj ∧ FitsAll g (s.step g c) cs

instance FitsAll.decidable (g : Env) : ∀ (s : Traced) (cs : List Call), Decidable (FitsAll g s cs)
  | _, [] => .isTrue trivial
  | s, c :: cs =>
    have := FitsAll.decidable g (s.step g c) cs
    inferInstanceAs (Decidable (_ ∧ _))

/-- A run of calls, under a clock that does not go back. -/
theorem Exact.run {g : Env} (hg : 0 < g.statInterval) : ∀ (cs : List Call) {s : Traced} {t : Int},
    Exact g s → s.obj.lastUpdated ≤ t → List.IsChain (· ≤ ·) (t :: (cs.map Call.now ++ [now])) →
      FitsAll g s cs → Exact g (cs.foldl (Traced.step g) s) ∧
        (cs.foldl (Traced.step g) s).obj.lastUpdated ≤ now := by
  intro cs
  induction cs with
  | nil =>
    intro s t e ht hclock _
    exact ⟨e, Int.le_trans ht (List.isChain_cons_cons.mp hclock).1⟩
  | cons c cs ih =>
    intro s t e ht hclock hfit
    rw [List.map_cons, List.cons_append, List.isChain_cons_cons] at hclock
    obtain ⟨e', hlast⟩ := e.step hg (Int.le_trans ht hclock.1) hfit.1
    exact ih e' hlast hclock.2 hfit.2

/-- **The reported maximum consumption is exact.**  At any time `now`, `max_consumption()` is the largest of
    the values that the consumption has had since the begin of the current interval, the one carried over
    from the interval before included. -/
theorem max_consumption_exact (g : Env) (hg : 1 ≤ g.statInterval) (t₀ : Int) (c₀ : UInt32) (cs : List Call)
    (now : Int) (hclock : List.IsChain (· ≤ ·) (t₀ :: (cs.map Call.now ++ [now])))
    (hfit : FitsAll g (.create g t₀ c₀) cs) :
    IsGreatest
      { v | HeldSince (Object.nearestBoundary g now) (cs.foldl (Traced.step g) (.create g t₀ c₀)).history v }
      ((cs.foldl (Traced.step g) (.create g t₀ c₀)).obj.reportedMax (g.at now)) := by
  obtain ⟨e, hlast⟩ := Exact.run hg cs (exact_create g t₀ c₀) (Int.le_refl _) hclock hfit
  exact e.reported hg hlast

/-- Intervals of 10 seconds: 5 units are held from 3 on, 2 are released at 12, and 3 + 1 are held at 13.
    At 15 the maximum is 5, carried over from before 10; at 21 it is 4. -/
theorem max_consumption_carried :
    let g : Env := { now := 0, statInterval := 10, stat := fun _ => "", sizeofHashKey := 0, sizeofObject := 0 }
    let cs : List Call := [⟨12, .release 2⟩, ⟨13, .acquire 1 100⟩, ⟨14, .acquire 200 100⟩]
    let s := cs.foldl (Traced.step g) (.create g 3 5)
    IsGreatest { v | HeldSince (Object.nearestBoundary g 15) s.history v } (s.obj.reportedMax (g.at 15)) ∧
      s.obj.reportedMax (g.at 15) = 5 ∧ s.obj.reportedMax (g.at 21) = 4 := by
  intro g cs s
  exact ⟨max_consumption_exact g (by decide) 3 5 cs 15 (by decide) (by decide), by decide, by decide⟩

end Yrmcds.Counter
