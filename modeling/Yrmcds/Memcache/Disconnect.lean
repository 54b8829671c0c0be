/-
  Connections that end while they hold locks.

  Locks are owned by a descriptor NUMBER.  A connection that goes away is invalidated and its
  descriptor closed at once, but its locks are released by its destructor, which waits for the syncer;
  and its receive job may be posted already when it becomes invalid.  Two things follow:

  * A new connection can be given the number of an old one that still holds locks.  It is then told
    that it owns them, and an unlock or delete throws in `remove_lock`.  `faithful_of_cleanAccept` says
    that this is the only way: a run is free of it when no accept hands out the number of a connection
    that waits as garbage with locks, or with commands it may still lock with.
  * A receive job that starts after its connection became invalid leaves `g_context` as the worker's
    last job set it, and calls `unlock_all` in that context.  `inContext_iff` says that this is the
    only way an `unlock_all` runs in a foreign context.
-/
import Yrmcds.Memcache.Descriptors

namespace Yrmcds.Memcache

open ChainTable Ownership Run

namespace Master

/-- A master that has just started: no connections, idle workers, nothing in the reactor's lists. -/
structure Boot (s : Master) : Prop where
  server : Memcache.Boot s.server
  idle : ∀ w, (s.workers w).job = none
  resources : s.resources = []
  garbage : s.garbage = []
  garbageCopy : s.garbageCopy = []

variable {s : Master} {e : MasterEvent}

theorem Boot.inv (h : Boot s) (strict : Prop) : Inv strict s := by
  refine ⟨(LockInv.of_boot h.server).toRecordsAgree,
    ⟨fun c _ => h.server.conns c, ?_, ?_, ?_, ?_, ?_, ?_⟩, ?_⟩
  · rw [h.resources, h.garbage, h.garbageCopy]
    rintro c (hc | hc | hc) <;> cases hc
  · rw [h.resources]
    intro c hc
    cases hc
  · intro w j hj; rw [h.idle w] at hj; cases hj
  · intro w j hj; rw [h.idle w] at hj; cases hj
  · intro w w' j j' hj; rw [h.idle w] at hj; cases hj
  · intro w j hj; rw [h.idle w] at hj; cases hj
  · intro hne; exact absurd h.garbageCopy hne

theorem Inv.step_ok {strict : Prop} {s' : Master} (h : Inv strict s)
    (hst : strict → s.startInContext e = true) (hs : s.step e = .ok s') : Inv strict s' := by
  have hout := h.step_outcome e hst
  rw [hs] at hout
  exact hout

theorem Inv.step_error {strict : Prop} {x : Err} (h : Inv strict s)
    (hst : strict → s.startInContext e = true) (hs : s.step e = .error x) : Fails s e x := by
  have hout := h.step_outcome e hst
  rw [hs] at hout
  exact hout

/-! ## Descriptors used again -/

/-- The connection can run commands: it is valid, or its job has received data. -/
def Active (s : Master) (c : Nat) (conn : Conn) : Prop :=
  conn.valid = true ∨ ∃ w, (s.workers w).job = some (.recv c true)

/-- No connection that can run commands is told that it owns a lock it does not have on its list. -/
def Faithful (s : Master) : Prop :=
  ∀ c conn, s.server.conns c = some conn → s.Active c conn → s.server.Sees conn

/-- No connection holds a lock while another one with its descriptor can run commands. -/
def Sole (s : Master) : Prop :=
  ∀ c conn, s.server.conns c = some conn → s.Active c conn →
    ∀ d x, s.server.conns d = some x → d ≠ c → x.fd = conn.fd → x.locks = []

theorem Inv.faithful_iff {strict : Prop} (h : Inv strict s) : s.Faithful ↔ s.Sole :=
  forall_congr' fun _ => forall_congr' fun _ => forall_congr' fun hc => forall_congr' fun _ =>
    h.agree.sees_iff_sole hc

/-- Of two connections with one number at most one can run commands, and then the other holds
    nothing. -/
theorem Alone.sole (h : Alone s) : s.Sole := by
  intro c conn hc hact d x hd hne hfd
  rcases h d c x conn hd hc hfd hne with hi | hi
  · exact hi.locks
  · rcases hact with hv | ⟨w, hj⟩
    · rw [hi.valid] at hv; cases hv
    · exact absurd hj (hi.job w)

theorem Boot.descriptors (h : Boot s) : Descriptors s ∧ Alone s := by
  have hnone : ∀ c x, s.server.conns c = some x → False := by
    intro c x hx
    rw [h.server.conns c] at hx
    cases hx
  refine ⟨⟨fun c x hx => ?_, fun c _ x _ hx => ?_, fun c x hx => ?_, fun c x hx => ?_⟩,
    fun c _ x _ hx => ?_⟩ <;>
    exact (hnone c x hx).elim

/-- **Locks across disconnects.**  In every run of the master whose accepts are all clean, no connection
    is ever told that it owns a lock which is not on its list, and `remove_lock` never throws. -/
theorem faithful_of_cleanAccept {s : Master} (h : Boot s) (es : List MasterEvent)
    (hclean : Along (fun s e => s.cleanAccept e = true) step s es) :
    Throughout Faithful step s es ∧ run step s es ≠ .error .removeLockBug := by
  have hinv : Inv False s ∧ Descriptors s ∧ Alone s := ⟨h.inv False, h.descriptors⟩
  have hstep : ∀ (s : Master) e s', Inv False s ∧ Descriptors s ∧ Alone s → s.cleanAccept e = true →
      s.step e = .ok s' → Inv False s' ∧ Descriptors s' ∧ Alone s' := by
    rintro s e s' ⟨hi, hd, ha⟩ hc hs
    exact ⟨hi.step_ok (fun hf => hf.elim) hs, Alone.step hi hd ha hc hs⟩
  have hfaith : ∀ s : Master, Inv False s ∧ Descriptors s ∧ Alone s → s.Faithful :=
    fun s hi => hi.1.faithful_iff.mpr hi.2.2.sole
  refine ⟨throughout_of_along hstep hfaith es hinv hclean, fun herr => ?_⟩
  refine run_error (Q := fun x => x ≠ .removeLockBug) hstep ?_ es hinv hclean herr rfl
  intro s e x hi _ hs
  -- the command that threw was run by a connection that is faithful
  cases hi.1.step_error (fun hf => hf.elim) hs with
  | exec hj hc hsee => exact absurd (hfaith s hi _ _ hc (.inr ⟨_, hj⟩)) hsee
  | reset hj hc hctx hl => exact Err.noConfusion

/-! ## Contexts -/

/-- Every receive job in its loop, the one that will call `unlock_all` when its connection is gone, has
    the descriptor of its connection as context, unless there is no lock to release. -/
def InContext (s : Master) : Prop :=
  ∀ w c got conn, (s.workers w).job = some (.recv c got) → s.server.conns c = some conn →
    (s.workers w).ctx = conn.fd ∨ conn.locks = []

theorem Inv.inContext (h : Inv True s) : s.InContext := by
  intro w c got conn hj hc
  obtain ⟨x, hx, hok⟩ := h.conn_of_job hj
  rw [show s.server.conns c = some x from hx, Option.some.injEq] at hc
  subst hc
  exact hok.2.2 trivial

/-- A start out of context makes a job out of context. -/
theorem not_inContext_of_start (hst : ¬ s.startInContext e = true) :
    ∃ s', s.step e = .ok s' ∧ ¬ s'.InContext := by
  cases e with
  | start w =>
    simp only [startInContext_start, not_forall, not_or] at hst
    obtain ⟨c, conn, hj, hc, hv, hctx, hl⟩ := hst
    refine ⟨_, by simp only [Master.step, hj, Master.onConn, hc]; rfl, fun hin => ?_⟩
    have := hin w c false conn (by rw [workers_setWorker_self]) hc
    rw [workers_setWorker_self, if_neg hv] at this
    exact this.elim hctx hl
  | _ => exact absurd rfl hst

/-- The `unlock_all` of a job out of context throws. -/
theorem Inv.reset_throws {strict : Prop} (h : Inv strict s) (hin : ¬ s.InContext) :
    ∃ w, s.step (.receive w .RESET) = .error .unlockBug := by
  simp only [InContext, not_forall, not_or] at hin
  obtain ⟨w, c, got, conn, hj, hc, hctx, hl⟩ := hin
  refine ⟨w, ?_⟩
  simp only [Master.step, hj, Master.onConn, hc, Master.receive]
  exact h.reset_error hc _ rfl hctx hl

theorem along_of_inContext (es : List MasterEvent) :
    ∀ {s : Master}, Throughout InContext step s es →
      Along (fun s e => s.startInContext e = true) step s es := by
  induction es with
  | nil => intro s _; trivial
  | cons e es ih =>
    intro s hin
    refine ⟨?_, fun s' hs => ih (hin.2 s' hs)⟩
    by_contra hst
    obtain ⟨s', hs, hnot⟩ := not_inContext_of_start hst
    exact hnot (hin.2 s' hs).head

/-- **Contexts of receive jobs.**  In every run of the master: every receive job runs in the context of
    its connection (or has no lock to release) and `object::unlock` never throws, exactly when every
    receive job is started in context; and a job out of context throws when it calls `unlock_all`. -/
theorem inContext_iff {s : Master} (h : Boot s) (es : List MasterEvent) :
    ((Throughout InContext step s es ∧ run step s es ≠ .error .unlockBug) ↔
        Along (fun s e => s.startInContext e = true) step s es) ∧
      ∀ t, run step s es = .ok t → ¬ t.InContext → ∃ w, t.step (.receive w .RESET) = .error .unlockBug := by
  refine ⟨⟨fun hin => along_of_inContext es hin.1, fun ha => ?_⟩, fun t ht hin => ?_⟩
  · have hstep : ∀ (s : Master) e s', Inv True s → s.startInContext e = true →
      s.step e = .ok s' → Inv True s' :=
      fun s e s' hi hst hs => hi.step_ok (fun _ => hst) hs
    refine ⟨throughout_of_along hstep (fun s hi => hi.inContext) es (h.inv True) ha, fun herr => ?_⟩
    refine run_error (Q := fun x => x ≠ .unlockBug) hstep ?_ es (h.inv True) ha herr rfl
    intro s e x hi hst hs
    cases hi.step_error (fun _ => hst) hs with
    | exec hj hc hsee => exact Err.noConfusion
    | reset hj hc hctx hl => exact absurd (hi.inContext _ _ _ _ hj hc) (not_or.mpr ⟨hctx, hl⟩)
  · have hinv : Inv False t :=
      run_preserves (fun s e s' hi hs => hi.step_ok (fun hf => hf.elim) hs) (h.inv False) ht
    exact hinv.reset_throws hin

/-! ## The two runs -/

/-- A master with two workers. -/
def twoWorkers : Master := { server := Server.oneBucket, nWorkers := 2 }

theorem boot_twoWorkers : Boot twoWorkers :=
  ⟨boot_init _ _ _ _ _ _ _, fun _ => rfl, rfl, rfl, rfl⟩

/-- Connection 0, with descriptor 5, stores "x" and locks it. -/
def lockRun : List MasterEvent :=
  [.accept 5, .readable 0 0, .start 0, .receive 0 .OK,
    .exec 0 (.bin { command := .Set, status := .OK, key := [120], key_le := x_le, data := [1] }),
    .exec 0 (.bin { command := .Lock, status := .OK, key := [120], key_le := x_le }),
    .receive 0 .AGAIN]

/-- It hangs up, and the next connection is given descriptor 5. -/
def reuseRun : List MasterEvent :=
  lockRun ++ [.invalidate 0, .remove 0, .tryClose 0, .accept 5, .readable 1 0, .start 0, .receive 0 .OK]

/-- It unlocks "x" before it hangs up; the next connection is given descriptor 5 and locks "x". -/
def cleanReuse : List MasterEvent :=
  [.readable 0 0, .start 0, .receive 0 .OK,
    .exec 0 (.bin { command := .Unlock, status := .OK, key := [120], key_le := x_le }), .receive 0 .AGAIN,
    .invalidate 0, .remove 0, .tryClose 0, .accept 5, .readable 1 0, .start 0, .receive 0 .OK,
    .exec 0 (.bin { command := .Lock, status := .OK, key := [120], key_le := x_le })]

/-- **The new connection is told that it owns the old one's lock**, and its unlock throws. -/
theorem fd_reuse_throws :
    (∃ s, run step twoWorkers reuseRun = .ok s ∧ ¬ s.Faithful) ∧
      run step twoWorkers
        (reuseRun ++ [.exec 0 (.bin { command := .Unlock, status := .OK, key := [120] })])
        = .error .removeLockBug := by
  refine ⟨⟨_, rfl, fun h => ?_⟩, rfl⟩
  have hsee := h 1 _ rfl (.inl rfl) 0 rfl
  exact absurd hsee (by decide)

/-- **A job posted before the hangup and started after it throws**: worker 1 has not served connection 0
    before. -/
theorem stale_context_throws :
    run step twoWorkers (lockRun ++ [.readable 0 1, .invalidate 0, .start 1, .receive 1 .RESET])
      = .error .unlockBug := rfl

/-- The number of a connection whose locks are released, but which is not destroyed yet, is handed out
    again; the new connection then locks the key. -/
theorem faithful_clean_reuse :
    Throughout Faithful step twoWorkers (lockRun ++ cleanReuse) ∧
      run step twoWorkers (lockRun ++ cleanReuse) ≠ .error .removeLockBug :=
  faithful_of_cleanAccept boot_twoWorkers _ (by decide)

/-- The lock survives to a hangup that the job itself sees, in context. -/
theorem inContext_one_client :
    Throughout InContext step twoWorkers (lockRun ++ [.readable 0 1, .start 1, .receive 1 .RESET]) ∧
      run step twoWorkers (lockRun ++ [.readable 0 1, .start 1, .receive 1 .RESET])
        ≠ .error .unlockBug := by
  exact (inContext_iff boot_twoWorkers _).1.mpr (by decide)

end Master

end Yrmcds.Memcache
