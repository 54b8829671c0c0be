/-
  The worker thread: `post_job`, `stop` and `run` (cybozu/worker.hpp).

  One worker and its one caller, the reactor thread.  Every access to `m_running`, `m_job`, `m_exit` and the
  eventfd is a step of its own, so a run is any interleaving of the two threads.

  The flag `m_running` is written by BOTH: the caller raises it for a job or for `stop`, the worker lowers it
  at the top of its loop.  Two things go wrong there:

  1. **Start.**  The worker lowers the flag before its first wait as well.  A job that was posted before is
     still in `m_job`, but nobody knows: the worker waits, and the caller sees an idle worker and posts over
     the job.  `handoff_iff`: this is the only way to lose a job.
  2. **Stop.**  A worker that is past its look at `m_exit` lowers the flag that `stop` raised, and then waits
     for it.  `stop_iff`: this is the only way for `stop` to hang; `stop_joins`: otherwise the worker ends.
-/
import Yrmcds.Lib.Run

namespace Yrmcds.Worker

open Run

/-! ## The two threads -/

/-- The next step of `run`. -/
inductive Pc where
  | store     -- `m_running.store(false)`
  | read      -- `read(m_event)`
  | spin      -- `m_running.load()`
  | check     -- `if( m_exit )`
  | job       -- `m_job(m_buffer)`, and `m_buffer.reset()`
  | done
deriving DecidableEq, Repr

/-- Where the caller is. -/
inductive Caller where
  | idle
  | found       -- `is_running()` was false
  | assigned    -- `post_job`: `m_job` has been assigned
  | stored      -- `post_job`: `m_running` has been raised
  | exiting     -- `stop`: `m_exit` has been set
  | exitStored  -- `stop`: `m_running` has been raised
  | joining     -- `stop`: the eventfd has been written
deriving DecidableEq, Repr

/-- A `worker`, its caller, and what happened so far.  Jobs are of any type. -/
structure State (J : Type) where
  running : Bool := false
  exit : Bool := false
  event : Nat := 0
  job : Option J := none
  worker : Pc := .store
  caller : Caller := .idle
  posted : List J := []
  executed : List J := []
deriving DecidableEq, Repr

/-- What the worker and its caller can do. -/
inductive Event (J : Type) where
  | work                -- the worker takes its next step
  | isRunning           -- the caller looks at `is_running()`
  | postJob (j : J)     -- ... calls `post_job`, which assigns `m_job`
  | stop                -- ... calls `stop`, which sets `m_exit`
  | call                -- ... takes the next step in `post_job` or `stop`
deriving DecidableEq, Repr

/-- An empty `std::function` is called. -/
inductive Err where
  | badFunctionCall
deriving DecidableEq, Repr

variable {J : Type}

/-- `run`.  A read of an eventfd that is 0 blocks; any other sets it to 0. -/
def work (s : State J) : Except Err (State J) :=
  match s.worker with
  | .store => .ok { s with running := false, worker := .read }
  | .read => .ok (if s.event = 0 then s else { s with event := 0, worker := .spin })
  | .spin => .ok (if s.running then { s with worker := .check } else s)
  | .check => .ok { s with worker := if s.exit then .done else .job }
  | .job =>
    match s.job with
    | none => .error .badFunctionCall
    | some j => .ok { s with executed := s.executed ++ [j], worker := .store }
  | .done => .ok s

/-- The steps of `post_job` and `stop` after the first. -/
def call (s : State J) : State J :=
  match s.caller with
  | .assigned => { s with running := true, caller := .stored }
  | .stored => { s with event := s.event + 1, caller := .idle }
  | .exiting => { s with running := true, caller := .exitStored }
  | .exitStored => { s with event := s.event + 1, caller := .joining }
  | .idle | .found | .joining => s

/-- One step of either thread.  `post_job` is called after `is_running()` was false, and by nobody else. -/
def step (s : State J) : Event J → Except Err (State J)
  | .work => work s
  | .isRunning =>
    .ok (if s.caller = .idle ∨ s.caller = .found then { s with caller := if s.running then .idle else .found }
      else s)
  | .postJob j =>
    .ok (if s.caller = .found then { s with job := some j, posted := s.posted ++ [j], caller := .assigned }
      else s)
  | .stop =>
    .ok (if s.caller = .idle ∨ s.caller = .found then { s with exit := true, caller := .exiting } else s)
  | .call => .ok (call s)

/-! ## What is claimed of them -/

/-- The next job is posted and not executed yet, and it is still in `m_job`. -/
def Owed (s : State J) : Prop := ∃ j, s.posted = s.executed ++ [j] ∧ s.job = some j

/-- **Exactly once**: the executed jobs are the posted ones in their order, up to the one that is owed. -/
def InOrder (s : State J) : Prop := s.posted = s.executed ∨ Owed s

/-- ... and whatever the caller does next, it stays so. -/
def Safe (s : State J) : Prop := ∀ es : List (Event J), .work ∉ es → Throughout InOrder step s es

/-- The worker's FIRST store lowers a flag that was raised for a job. -/
def Clears (s : State J) (e : Event J) : Prop :=
  e = .work ∧ s.worker = .store ∧ s.executed = [] ∧ s.running = true ∧ s.exit = false

/-- `stop` waits for the worker, and the worker for a flag that nobody will raise. -/
def Stuck (s : State J) : Prop := s.caller = .joining ∧ s.worker = .spin ∧ s.running = false

/-- Once `stop` has raised the flag, nothing that follows gets stuck. -/
def Stops (s : State J) : Prop :=
  s.caller = .exitStored ∨ s.caller = .joining →
    ∀ es : List (Event J), Throughout (fun t => ¬ Stuck t) step s es

/-- `stop` raises the flag while the worker is about to lower it, with or without a job before. -/
def Wedges (s : State J) (e : Event J) : Prop :=
  e = .call ∧ s.caller = .exiting ∧ (s.worker = .job ∨ s.worker = .store)

instance (s : State J) (e : Event J) [DecidableEq J] : Decidable (Clears s e) :=
  inferInstanceAs (Decidable (_ ∧ _ ∧ _ ∧ _ ∧ _))

instance (s : State J) (e : Event J) [DecidableEq J] : Decidable (Wedges s e) :=
  inferInstanceAs (Decidable (_ ∧ _ ∧ _))

/-! ## The hand-off -/

/-- What holds while no job has been lost. -/
structure Inv (s : State J) : Prop where
  inOrder : InOrder s
  /-- The worker has a job before it, from the moment it sees the flag. -/
  job : s.worker = .job → Owed s
  check : s.worker = .check → Owed s ∨ s.exit = true
  raised : s.running = true → s.worker = .store ∧ s.executed ≠ [] ∨ Owed s ∨ s.exit = true
  /-- Nobody but the worker lowers the flag, and it has not come to that yet. -/
  busy : s.worker = .check ∨ s.worker = .job → s.running = true
  again : s.worker = .store → s.executed ≠ [] → s.running = true ∧ s.posted = s.executed
  /-- A lowered flag that the caller sees, or has seen, says that all jobs are done. -/
  seen : s.caller = .found ∨ s.caller = .assigned → s.running = false
  found : s.caller = .found → s.posted = s.executed
  assigned : s.caller = .assigned → Owed s
  lowered : s.running = false → s.caller ≠ .assigned → s.exit = false → s.posted = s.executed
  exit : s.exit = true ↔ s.caller = .exiting ∨ s.caller = .exitStored ∨ s.caller = .joining

theorem inv_init : Inv ({} : State J) := by
  constructor <;> simp [InOrder]

variable {s s' : State J} {e : Event J}

/-- The worker moves on within its loop. -/
theorem Inv.moveWorker (h : Inv s) {pc : Pc} (n : Nat) (hpc : pc ≠ .store)
    (hraised : s.running = true → Owed s ∨ s.exit = true) (hcheck : pc = .check → s.running = true)
    (hjob : pc = .job → Owed s ∧ s.running = true) : Inv { s with worker := pc, event := n } where
  inOrder := h.inOrder
  job := fun hw => (hjob hw).1
  check := fun hw => hraised (hcheck hw)
  raised := fun hr => .inr (hraised hr)
  busy := fun hw => hw.elim hcheck fun hw => (hjob hw).2
  again := fun hw => absurd hw hpc
  seen := h.seen
  found := h.found
  assigned := h.assigned
  lowered := h.lowered
  exit := h.exit

/-- The caller moves on, without a write to the flag or to `m_job`. -/
theorem Inv.moveCaller (h : Inv s) {c : Caller} (n : Nat) (hc : c ≠ .assigned)
    (hs : s.caller ≠ .assigned) (hfound : c = .found → s.running = false ∧ s.exit = false)
    (hexit : s.exit = true ↔ c = .exiting ∨ c = .exitStored ∨ c = .joining) :
    Inv { s with caller := c, event := n } where
  inOrder := h.inOrder
  job := h.job
  check := h.check
  raised := h.raised
  busy := h.busy
  again := h.again
  seen := fun hf => (hfound (hf.resolve_right hc)).1
  found := fun hf => h.lowered (hfound hf).1 hs (hfound hf).2
  assigned := fun ha => absurd ha hc
  lowered := fun hlow _ => h.lowered hlow hs
  exit := hexit

/-- The worker's step keeps the invariant, unless it clears the flag of the first job. -/
theorem Inv.work (h : Inv s) (hc : ¬ Clears s .work) (hs : work s = .ok s') : Inv s' := by
  unfold Worker.work at hs
  cases hw : s.worker with
  | store =>
    rw [hw] at hs
    cases hs
    -- What the flag stood for is done, or nothing.
    have hdone : s.caller ≠ .assigned → s.exit = false → s.posted = s.executed := by
      intro hca hex
      by_cases hr : s.running = true
      · by_cases hfirst : s.executed = []
        · exact absurd ⟨rfl, hw, hfirst, hr, hex⟩ hc
        · exact (h.again hw hfirst).2
      · exact h.lowered (Bool.not_eq_true _ ▸ hr) hca hex
    exact
      { inOrder := h.inOrder, job := nofun, check := nofun, raised := nofun, busy := nofun, again := nofun
        seen := fun _ => rfl, found := h.found, assigned := h.assigned, lowered := fun _ => hdone
        exit := h.exit }
  | read =>
    have hraised : s.running = true → Owed s ∨ s.exit = true := fun hr =>
      (h.raised hr).resolve_left fun h => by rw [hw] at h; cases h.1
    rw [hw] at hs
    dsimp only at hs
    split_ifs at hs
    · cases hs
      exact h
    · cases hs
      exact h.moveWorker 0 nofun hraised nofun nofun
  | spin =>
    have hraised : s.running = true → Owed s ∨ s.exit = true := fun hr =>
      (h.raised hr).resolve_left fun h => by rw [hw] at h; cases h.1
    rw [hw] at hs
    dsimp only at hs
    split_ifs at hs with hr
    · cases hs
      exact h.moveWorker s.event nofun hraised (fun _ => hr) nofun
    · cases hs
      exact h
  | check =>
    have hr := h.busy (.inl hw)
    have howed := h.check hw
    rw [hw] at hs
    dsimp only at hs
    split_ifs at hs with hex
    · cases hs
      exact h.moveWorker s.event nofun (fun _ => howed) nofun nofun
    · cases hs
      exact h.moveWorker s.event nofun (fun _ => howed) nofun fun _ => ⟨howed.resolve_right hex, hr⟩
  | job =>
    obtain ⟨j, hp, hj⟩ := h.job hw
    have hr := h.busy (.inr hw)
    have hcaller : ¬ (s.caller = .found ∨ s.caller = .assigned) := by
      intro hca
      rw [h.seen hca] at hr
      cases hr
    rw [hw] at hs
    dsimp only at hs
    rw [hj] at hs
    cases hs
    exact
      { inOrder := .inl hp, job := nofun, check := nofun, again := fun _ _ => ⟨hr, hp⟩
        raised := fun _ => .inl ⟨rfl, by simp⟩, busy := fun hb => hb.elim nofun nofun
        seen := h.seen, found := fun hca => absurd (.inl hca) hcaller
        assigned := fun hca => absurd (.inr hca) hcaller
        lowered := fun hlow => by rw [show s.running = false from hlow] at hr; cases hr
        exit := h.exit }
  | done => rw [hw] at hs; cases hs; exact h

/-- The caller's steps keep it too. -/
theorem Inv.call (h : Inv s) : Inv (call s) := by
  have hexit := h.exit
  unfold Worker.call
  cases hca : s.caller with
  | assigned =>
    have howed := h.assigned hca
    have hlow := h.seen (.inr hca)
    exact
      { inOrder := h.inOrder, job := h.job, check := h.check, raised := fun _ => .inr (.inl howed)
        busy := fun _ => rfl
        again := fun hw hne => by rw [(h.again hw hne).1] at hlow; cases hlow
        seen := nofun, found := nofun, assigned := nofun, lowered := nofun
        exit := by simp_all }
  | stored => exact h.moveCaller (s.event + 1) nofun (by simp [hca]) nofun (by simp_all)
  | exiting =>
    have hex : s.exit = true := hexit.mpr (.inl hca)
    exact
      { inOrder := h.inOrder, job := h.job, check := h.check, raised := fun _ => .inr (.inr hex)
        busy := fun _ => rfl, again := fun hw hne => ⟨rfl, (h.again hw hne).2⟩
        seen := nofun, found := nofun, assigned := nofun, lowered := nofun
        exit := by simp [hex] }
  | exitStored => exact h.moveCaller (s.event + 1) nofun (by simp [hca]) nofun (by simp_all)
  | idle | found | joining => exact h

theorem Inv.postJob (h : Inv s) (hca : s.caller = .found) (j : J) :
    Inv { s with job := some j, posted := s.posted ++ [j], caller := .assigned } := by
  have hlow := h.seen (.inl hca)
  have hdone := h.found hca
  have howed : Owed { s with job := some j, posted := s.posted ++ [j], caller := .assigned } :=
    ⟨j, by rw [hdone], rfl⟩
  exact
    { inOrder := .inr howed, job := fun _ => howed, check := fun _ => .inl howed
      raised := fun _ => .inr (.inl howed), busy := h.busy
      again := fun hw hne => by rw [(h.again hw hne).1] at hlow; cases hlow
      seen := fun _ => hlow, found := nofun, assigned := fun _ => howed
      lowered := fun _ hne => absurd rfl hne, exit := by have := h.exit; simp_all }

theorem Inv.stop (h : Inv s) : Inv { s with exit := true, caller := .exiting } where
  inOrder := h.inOrder
  job := h.job
  check := fun _ => .inr rfl
  raised := fun _ => .inr (.inr rfl)
  busy := h.busy
  again := h.again
  seen := nofun
  found := nofun
  assigned := nofun
  lowered := nofun
  exit := by simp

/-- **One step of either thread** keeps the invariant, unless it clears. -/
theorem Inv.step (h : Inv s) (hc : ¬ Clears s e) (hs : step s e = .ok s') :
    Inv s' := by
  cases e with
  | work => exact h.work hc hs
  | call => cases hs; exact h.call
  | isRunning =>
    cases hs
    by_cases hca : s.caller = .idle ∨ s.caller = .found
    · rw [if_pos hca]
      have hne : s.caller ≠ .assigned := by rcases hca with hca | hca <;> simp [hca]
      have hexit := h.exit
      refine h.moveCaller s.event ?_ hne ?_ ?_
      · split_ifs <;> nofun
      · split_ifs with hr
        · nofun
        · rcases hca with hca | hca <;> simp_all
      · rcases hca with hca | hca <;> split_ifs <;> simp_all
    · rw [if_neg hca]
      exact h
  | postJob j =>
    cases hs
    split_ifs with hca
    · exact h.postJob hca j
    · exact h
  | stop =>
    cases hs
    split_ifs
    · exact h.stop
    · exact h

/-- The caller alone cannot do harm. -/
theorem Inv.safe (h : Inv s) : Safe s := by
  intro es hwork
  induction es generalizing s with
  | nil => exact h.inOrder
  | cons e es ih =>
    rw [List.mem_cons, not_or] at hwork
    refine ⟨h.inOrder, fun s' hs => ih (h.step (fun hc => hwork.1 hc.1.symm) hs) hwork.2⟩

/-- **A cleared flag loses the job**: the caller sees an idle worker, and posts over it. -/
theorem Inv.not_safe (h : Inv s) (hc : Clears s e) (hs : Worker.step s e = .ok s') :
    ¬ Safe s' := by
  obtain ⟨rfl, hw, hfirst, hr, hex⟩ := hc
  have hs' : s' = { s with running := false, worker := .read } := by
    change Worker.work s = .ok s' at hs
    unfold Worker.work at hs
    rw [hw] at hs
    exact (Except.ok.inj hs).symm
  obtain ⟨j, hp, -⟩ : Owed s := by
    refine ((h.raised hr).resolve_left fun hne => hne.2 hfirst).resolve_right ?_
    rw [hex]
    nofun
  have hover : ∀ t : State J, t.posted = s.executed ++ [j] → t.executed = s.executed → t.caller = .idle →
      t.running = false → ¬ Throughout InOrder Worker.step t [.isRunning, .postJob j] := by
    intro t hp' hx hca hlow ht
    have hlast := ((ht.2 _ rfl).2 _ rfl)
    unfold Throughout InOrder Owed at hlast
    simp [hca, hlow, hp', hx] at hlast
  subst hs'
  intro hsafe
  -- `is_running()` was true, so the caller is in no call, or before the last step of one.
  cases hca : s.caller with
  | idle =>
    have ht := hsafe [.isRunning, .postJob j] (by simp)
    exact hover { s with running := false, worker := .read } hp rfl hca rfl ht
  | stored =>
    have ht := (hsafe [.call, .isRunning, .postJob j] (by simp)).2 _ rfl
    refine hover _ ?_ ?_ ?_ ?_ ht <;> simp [Worker.call, hca, hp]
  | found =>
    rw [h.seen (.inl hca)] at hr
    cases hr
  | assigned =>
    rw [h.seen (.inr hca)] at hr
    cases hr
  | exiting | exitStored | joining =>
    have := h.exit
    simp [hex, hca] at this

/-- **Job hand-off.**  In every interleaving the jobs are executed exactly once, in their order, and no post
    can overwrite one, exactly if the worker's first store does not lower a flag raised for a job. -/
theorem handoff_iff (es : List (Event J)) :
    Throughout Safe step ({} : State J) es ↔ Along (fun s e => ¬ Clears s e) step {} es := by
  refine throughout_iff_along (I := Inv) (fun s h => h.safe) (fun s e h => ⟨?_, ?_⟩) ?_ es inv_init
  · exact fun hc s' hs => (h.step hc hs).safe
  · intro hsafe hc
    cases hs : step s e with
    | ok s' => exact h.not_safe hc hs (hsafe s' hs)
    | error x =>
      obtain ⟨rfl, hw, -⟩ := hc
      change work s = .error x at hs
      unfold work at hs
      rw [hw] at hs
      cases hs
  · intro s e s' h hs hsafe
    exact h.step (fun hc => h.not_safe hc hs hsafe) hs

/-- The caller posts job 1 before the worker runs, and job 2 after its first store: job 1 is lost. -/
theorem first_job_lost :
    ∃ s, run step ({} : State Nat)
      [.isRunning, .postJob 1, .call, .call, .work, .work, .isRunning, .postJob 2]
      = .ok s ∧ s.posted = [1, 2] ∧ s.executed = [] ∧ s.job = some 2 ∧ ¬ InOrder s := by
  refine ⟨_, rfl, rfl, rfl, rfl, ?_⟩
  rintro (h | ⟨j, h, -⟩)
  · cases h
  · exact absurd (show [1, 2] = [j] from h) (by simp)

/-! ## The job is there -/

/-- What holds in every run: where the worker is about to call `m_job`, there has been a `post_job`. -/
structure Loaded (s : State J) : Prop where
  raised : s.running = true → s.job.isSome ∨ s.exit = true
  check : s.worker = .check → s.job.isSome ∨ s.exit = true
  job : s.worker = .job → s.job.isSome
  assigned : s.caller = .assigned → s.job.isSome
  exiting : s.caller = .exiting → s.exit = true

theorem Loaded.work (h : Loaded s) : ∃ s', work s = .ok s' ∧ Loaded s' := by
  unfold Worker.work
  cases hw : s.worker with
  | store => exact ⟨_, rfl, nofun, nofun, nofun, h.assigned, h.exiting⟩
  | read =>
    refine ⟨_, rfl, ?_⟩
    split_ifs
    · exact h
    · exact ⟨h.raised, nofun, nofun, h.assigned, h.exiting⟩
  | spin =>
    refine ⟨_, rfl, ?_⟩
    split_ifs with hr
    · exact ⟨h.raised, fun _ => h.raised hr, nofun, h.assigned, h.exiting⟩
    · exact h
  | check =>
    refine ⟨_, rfl, ?_⟩
    split_ifs with hex
    · exact ⟨h.raised, nofun, nofun, h.assigned, h.exiting⟩
    · exact ⟨h.raised, nofun, fun _ => (h.check hw).resolve_right hex, h.assigned, h.exiting⟩
  | job =>
    obtain ⟨j, hj⟩ := Option.isSome_iff_exists.mp (h.job hw)
    rw [hj]
    exact ⟨_, rfl, fun _ => .inl rfl, nofun, nofun, fun _ => rfl, h.exiting⟩
  | done => exact ⟨s, rfl, h⟩

theorem Loaded.call (h : Loaded s) : Loaded (call s) := by
  unfold Worker.call
  cases hca : s.caller with
  | assigned => exact ⟨fun _ => .inl (h.assigned hca), h.check, h.job, nofun, nofun⟩
  | exiting => exact ⟨fun _ => .inr (h.exiting hca), h.check, h.job, nofun, nofun⟩
  | stored | exitStored => exact ⟨h.raised, h.check, h.job, nofun, nofun⟩
  | idle | found | joining => exact h

/-- **No step throws**, and every step keeps it so. -/
theorem Loaded.step (h : Loaded s) (e : Event J) : ∃ s', step s e = .ok s' ∧ Loaded s' := by
  cases e with
  | work => exact h.work
  | call => exact ⟨_, rfl, h.call⟩
  | isRunning =>
    refine ⟨_, rfl, ?_⟩
    split_ifs
    · exact ⟨h.raised, h.check, h.job, nofun, nofun⟩
    · exact ⟨h.raised, h.check, h.job, nofun, nofun⟩
    · exact h
  | postJob j =>
    refine ⟨_, rfl, ?_⟩
    split_ifs
    · exact ⟨fun _ => .inl rfl, fun _ => .inl rfl, fun _ => rfl, fun _ => rfl, nofun⟩
    · exact h
  | stop =>
    refine ⟨_, rfl, ?_⟩
    split_ifs
    · exact ⟨fun _ => .inr rfl, fun _ => .inr rfl, h.job, nofun, fun _ => rfl⟩
    · exact h

theorem loaded_init : Loaded ({} : State J) := ⟨nofun, nofun, nofun, nofun, nofun⟩

/-- **No run throws.** -/
theorem run_ok (es : List (Event J)) : ∃ s, run step ({} : State J) es = .ok s ∧ Loaded s :=
  run_total (fun _ e h => h.step e) es loaded_init

/-! ## Stop -/

/-- What holds from the moment that `stop` has raised the flag in time. -/
structure Ending (s : State J) : Prop where
  running : s.running = true
  exit : s.exit = true
  worker : s.worker = .read ∨ s.worker = .spin ∨ s.worker = .check ∨ s.worker = .done
  caller : s.caller = .exitStored ∨ s.caller = .joining
  event : s.caller = .joining → s.worker = .read → s.event ≠ 0

theorem Ending.work (h : Ending s) (hs : work s = .ok s') : Ending s' := by
  obtain ⟨hr, hex, hw, hca, hev⟩ := h
  unfold Worker.work at hs
  rcases hw with hw | hw | hw | hw
  · rw [hw] at hs
    dsimp only at hs
    split_ifs at hs
    · cases hs
      exact ⟨hr, hex, .inl hw, hca, hev⟩
    · cases hs
      exact ⟨hr, hex, .inr (.inl rfl), hca, nofun⟩
  · rw [hw] at hs
    dsimp only at hs
    rw [if_pos hr] at hs
    cases hs
    exact ⟨hr, hex, .inr (.inr (.inl rfl)), hca, nofun⟩
  · rw [hw] at hs
    dsimp only at hs
    rw [if_pos hex] at hs
    cases hs
    exact ⟨hr, hex, .inr (.inr (.inr rfl)), hca, nofun⟩
  · rw [hw] at hs
    cases hs
    exact ⟨hr, hex, .inr (.inr (.inr hw)), hca, hev⟩

theorem Ending.step (h : Ending s) (hs : step s e = .ok s') : Ending s' := by
  have hbusy : ¬ (s.caller = .idle ∨ s.caller = .found) := by
    rcases h.caller with hca | hca <;> simp [hca]
  cases e with
  | work => exact h.work hs
  | isRunning | stop =>
    cases hs
    rw [if_neg hbusy]
    exact h
  | postJob j =>
    cases hs
    rw [if_neg (fun hf => hbusy (.inr hf))]
    exact h
  | call =>
    cases hs
    unfold call
    rcases h.caller with hca | hca
    · rw [hca]
      exact ⟨h.running, h.exit, h.worker, .inr rfl, fun _ _ => Nat.succ_ne_zero _⟩
    · rw [hca]
      exact h

/-- `stop` raises the flag in time. -/
theorem Ending.of_exiting (hex : s.exit = true) (hw : ¬ (s.worker = .job ∨ s.worker = .store)) :
    Ending { s with running := true, caller := .exitStored } := by
  refine ⟨rfl, hex, ?_, .inl rfl, nofun⟩
  show s.worker = .read ∨ s.worker = .spin ∨ s.worker = .check ∨ s.worker = .done
  generalize s.worker = pc at hw ⊢
  cases pc <;> simp at hw ⊢

theorem Ending.not_stuck (h : Ending s) : ¬ Stuck s := by
  rintro ⟨-, -, hlow⟩
  rw [h.running] at hlow
  cases hlow

/-- What holds while no `stop` has been too late. -/
structure InTime (s : State J) : Prop extends Loaded s where
  ending : s.caller = .exitStored ∨ s.caller = .joining → Ending s

theorem inTime_init : InTime ({} : State J) := ⟨loaded_init, fun h => h.elim nofun nofun⟩

theorem InTime.stops (h : InTime s) : Stops s := by
  intro hca es
  have hend := h.ending hca
  clear hca h
  induction es generalizing s with
  | nil => exact hend.not_stuck
  | cons e es ih => exact ⟨hend.not_stuck, fun s' hs => ih (hend.step hs)⟩

/-- The worker does not touch what belongs to the caller. -/
theorem work_caller (hs : work s = .ok s') : s'.caller = s.caller := by
  unfold work at hs
  cases hw : s.worker with
  | store | check | done => rw [hw] at hs; cases hs; rfl
  | read | spin =>
    rw [hw] at hs
    dsimp only at hs
    split_ifs at hs <;> cases hs <;> rfl
  | job =>
    rw [hw] at hs
    dsimp only at hs
    cases hj : s.job with
    | none => rw [hj] at hs; cases hs
    | some j => rw [hj] at hs; cases hs; rfl

/-- Where a step brings `stop` past its store, it was past it, or this is the store. -/
theorem ending_cases (hs : step s e = .ok s') (hend : s'.caller = .exitStored ∨ s'.caller = .joining) :
    (s.caller = .exitStored ∨ s.caller = .joining) ∨ e = .call ∧ s.caller = .exiting := by
  cases e with
  | work => rw [work_caller hs] at hend; exact .inl hend
  | isRunning | postJob j | stop =>
    cases hs
    split_ifs at hend
    all_goals first | exact .inl hend | exact hend.elim nofun nofun
  | call =>
    cases hs
    unfold call at hend
    cases hca : s.caller with
    | exiting => exact .inr ⟨rfl, rfl⟩
    | exitStored => exact .inl (.inl rfl)
    | joining => exact .inl (.inr rfl)
    | idle | found => rw [hca] at hend; exact absurd hend (by simp [hca])
    | assigned | stored => rw [hca] at hend; exact hend.elim nofun nofun

theorem InTime.step (h : InTime s) (hw : ¬ Wedges s e) (hs : step s e = .ok s') :
    InTime s' := by
  obtain ⟨t, ht, hloaded⟩ := h.toLoaded.step e
  rw [hs] at ht
  cases ht
  refine ⟨hloaded, fun hend => ?_⟩
  rcases ending_cases hs hend with hpast | ⟨rfl, hca⟩
  · exact (h.ending hpast).step hs
  · have hs' : s' = { s with running := true, caller := .exitStored } := by
      change Except.ok (call s) = .ok s' at hs
      unfold call at hs
      rw [hca] at hs
      exact (Except.ok.inj hs).symm
    rw [hs']
    exact .of_exiting (h.exiting hca) fun hpc => hw ⟨rfl, hca, hpc⟩

/-- The flag is lowered, and then awaited. -/
theorem stuck_of_store (hw : s.worker = .store) (hca : s.caller = .exitStored) :
    ¬ Throughout (fun t => ¬ Stuck t) step s [.work, .call, .work] := by
  intro h
  have h1 : step s .work = .ok { s with running := false, worker := .read } := by
    show work s = _
    unfold work
    rw [hw]
  have h2 : step { s with running := false, worker := .read } (.call : Event J)
      = .ok { s with running := false, worker := .read, event := s.event + 1, caller := .joining } := by
    show Except.ok (call _) = _
    unfold call
    rw [hca]
  exact (((h.2 _ h1).2 _ h2).2 _ rfl) ⟨rfl, rfl, rfl⟩

/-- **A flag raised too late is lowered again**, and the worker waits for it for ever. -/
theorem Loaded.not_stops (h : Loaded s) (hw : Wedges s e) (hs : Worker.step s e = .ok s') : ¬ Stops s' := by
  obtain ⟨rfl, hca, hpc⟩ := hw
  have hs' : s' = { s with running := true, caller := .exitStored } := by
    change Except.ok (Worker.call s) = .ok s' at hs
    unfold Worker.call at hs
    rw [hca] at hs
    exact (Except.ok.inj hs).symm
  subst hs'
  intro hstops
  rcases hpc with hjob | hstore
  · obtain ⟨j, hj⟩ := Option.isSome_iff_exists.mp (h.job hjob)
    have hwork : Worker.step { s with running := true, caller := .exitStored } (.work : Event J)
        = .ok { s with
          running := true, caller := .exitStored, executed := s.executed ++ [j], worker := .store } := by
      show Worker.work _ = _
      unfold Worker.work
      rw [hjob, hj]
    have ht := (hstops (.inl rfl) [.work, .work, .call, .work]).2 _ hwork
    exact stuck_of_store rfl rfl ht
  · have ht := hstops (.inl rfl) [.work, .call, .work]
    exact stuck_of_store (s := { s with running := true, caller := .exitStored }) hstore rfl ht

/-- **Stop.**  In every interleaving a `stop` that has raised the flag leaves no way to get stuck, exactly if
    it never raises the flag while the worker is executing a job or about to lower the flag. -/
theorem stop_iff (es : List (Event J)) :
    Throughout Stops step ({} : State J) es ↔ Along (fun s e => ¬ Wedges s e) step {} es := by
  refine throughout_iff_along (I := InTime) (fun s h => h.stops) (fun s e h => ⟨?_, ?_⟩) ?_ es inTime_init
  · exact fun hw s' hs => (h.step hw hs).stops
  · intro hstops hw
    obtain ⟨s', hs, -⟩ := h.toLoaded.step e
    exact h.not_stops hw hs (hstops s' hs)
  · intro s e s' h hs hstops
    exact h.step (fun hw => h.not_stops hw hs hstops) hs

/-- ... and then the worker ends: three more steps of it, and `join` returns. -/
theorem stop_joins {es : List (Event J)} (hc : Along (fun s e => ¬ Wedges s e) step {} es)
    (hs : run step ({} : State J) es = .ok s) (hca : s.caller = .joining) :
    ∃ s', run step s [.work, .work, .work] = .ok s' ∧ s'.worker = .done := by
  have h := (run_preserves_along (fun s e s' h hw => h.step hw) inTime_init hc hs).ending (.inr hca)
  have hev := h.event hca
  rcases h.worker with hw | hw | hw | hw
  · simp [run, step, work, hw, hev hw, h.running, h.exit]
  · simp [run, step, work, hw, h.running, h.exit]
  · simp [run, step, work, hw, h.exit]
  · simp [run, step, work, hw]

/-- The worker is executing a job when `stop` is called. -/
theorem stop_hangs :
    ∃ s, run step ({} : State Nat)
      [.work, .isRunning, .postJob 1, .call, .call, .work, .work, .work, .stop, .call, .call, .work, .work,
        .work,
        .work]
      = .ok s ∧ s.executed = [1] ∧ Stuck s :=
  ⟨_, rfl, rfl, rfl, rfl, rfl⟩

end Yrmcds.Worker
