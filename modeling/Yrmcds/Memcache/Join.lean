/-
  A slave joins a running master (src/memcache/handler.cpp, src/sync.hpp, src/memcache/gc.cpp).

  A new slave is put on the list of slaves at once, but jobs that are already running have copied the
  old list and do not tell it of their changes.  So the handler asks the SYNCER to call back when every
  worker has been seen idle; only then is the slave handed to the next GC pass, which sends it, bucket
  by bucket, every object that stays.

  * `Serves x l s` — every receive job has slave `x` on its copy of the list, except those of the
    workers in `l`.  A request for `x` that still waits for the workers `l` has `Serves x l`
    (`Joined`): a job posted later has the new list, and a worker leaves `l` only when it has no job.
    So when the callback is made, all jobs serve `x`, and this remains so.
  * From the start of the pass on, `x` is told of every change (`Told`), hence what its copy has right it
    keeps right; and a visit of a bucket makes the copy right about the keys of that bucket
    (`gcStep_covers`).
    Between two visits any job may change anything.

  `initial_replication`: when the pass has ended, and ever after, the slave has every key of the master.
-/
import Yrmcds.Memcache.Disconnect
import Yrmcds.Memcache.Replication

namespace Yrmcds.Memcache

open ChainTable Run Replica

/-! ## What slave `x` is told -/

/-- Slave `x` is told what happens to the map; GC and the layout of the buckets are not concerned. -/
structure Told (x : Nat) (v v' : Server) : Prop where
  mirrors : MirrorsTo x v.hash v.log v'.hash v'.log
  gc : v'.gc = v.gc
  index : v'.hash.index = v.hash.index

namespace Told

variable {x : Nat} {v v' v'' : Server}

theorem same (hh : v'.hash = v.hash) (hl : v'.log = v.log) (hg : v'.gc = v.gc) : Told x v v' :=
  ⟨.same (by rw [hh]) (by rw [hl]), hg, by rw [hh]⟩

theorem trans (h : Told x v v') (h' : Told x v' v'') : Told x v v'' :=
  ⟨h.mirrors.trans h'.mirrors, h'.gc.trans h.gc, h'.index.trans h.index⟩

/-- Locks are given up. -/
theorem unlock {ctx : Int} {force : Bool} {ls : List Nat}
    (hu : unlockLoop ctx force v.hash ls = .ok v'.hash)
    (hl : v'.log = v.log) (hg : v'.gc = v.gc) : Told x v v' :=
  ⟨.same (view_unlockLoop hu) (by rw [hl]), hg, unlockLoop_index hu⟩

/-- A command of a job that serves the slave. -/
theorem runCmd {c : Nat} {conn : Conn} {ctx : Int} {slaves : List Nat} {r : Cmd} (hx : x ∈ slaves)
    (h : v.runCmd c conn ctx slaves r = .ok v') : Told x v v' := by
  obtain ⟨w, hw, rfl⟩ := RecordsAgree.runCmd_eq_ok h
  have hx' : x ∈ (v.session conn slaves).slaves := hx
  refine ⟨exec_mirrors hx' hw, rfl, ?_⟩
  exact exec_index hw

/-- What the copy has right about a key it keeps right. -/
theorem covers (h : Told x v v') {r : Key → Option Item} {k : Key}
    (hc : Covers (view v.hash k) (replay ReplMsg.key ReplMsg.eff r (messagesTo x v.log) k)) :
    Covers (view v'.hash k) (replay ReplMsg.key ReplMsg.eff r (messagesTo x v'.log) k) := by
  obtain ⟨new, hlog, hview⟩ := h.mirrors
  rw [hlog, hview, replay_append]
  exact replay_covers ReplMsg.key ReplMsg.eff_covers new hc

end Told

namespace Master

theorem destroyAll_told {x : Nat} (cs : List Nat) :
    ∀ {v v' : Server}, destroyAll v cs = .ok v' → Told x v v' := by
  induction cs with
  | nil => intro v v' h; cases h; exact .same rfl rfl rfl
  | cons c cs ih =>
    intro v v' h
    cases hc : v.conns c with
    | none =>
      simp only [destroyAll, hc] at h
      exact ih h
    | some conn =>
      simp only [destroyAll, hc, Server.destroy] at h
      cases hu : unlockLoop conn.fd true v.hash conn.locks with
      | error e => rw [hu] at h; cases h
      | ok m =>
        rw [hu] at h
        have hone : Told x v { v with hash := m, conns := Function.update v.conns c none } :=
          .unlock hu rfl rfl
        exact hone.trans (ih h)

/-! ## Which jobs serve slave `x` -/

/-- Every receive job has `x` on its copy of the list, except those of the workers in `l`. -/
def Serves (x : Nat) (l : List Nat) (s : Master) : Prop :=
  ∀ w j conn, (s.workers w).job = some j → j.isRecv = true → s.server.conns j.conn = some conn →
    x ∈ conn.slaves ∨ w ∈ l

/-- GC has nothing to do with jobs. -/
theorem serves_gcStep {x : Nat} {l : List Nat} {s : Master} (t : GcThread) (h : Serves x l s) :
    Serves x l { s with server := s.server.gcStep t } := by
  intro w j conn hj hr hc
  have hc' : (s.server.gcStep t).conns j.conn = some conn := hc
  rw [s.server.gcStep_conns t] at hc'
  exact h w j conn hj hr hc'

/-- A step that has to do with neither the syncer nor GC. -/
structure Plain (s s' : Master) : Prop where
  serves : ∀ x l, x ∈ s.slaves → Serves x l s → Serves x l s'
  told : ∀ x, x ∈ s.slaves → Serves x [] s → Told x s.server s'.server
  slaves : s'.slaves = s.slaves
  newSlaves : s'.newSlaves = s.newSlaves
  requests : s'.requests = s.requests
  joined : s'.joined = s.joined

namespace Plain

variable {s s' s'' : Master} {c w : Nat} {conn conn' : Conn}

@[refl] theorem refl (s : Master) : Plain s s :=
  ⟨fun _ _ _ h => h, fun _ _ _ => .same rfl rfl rfl, rfl, rfl, rfl, rfl⟩

theorem trans (h : Plain s s') (h' : Plain s' s'') : Plain s s'' where
  serves x l hx hs := h'.serves x l (h.slaves ▸ hx) (h.serves x l hx hs)
  told x hx hs := (h.told x hx hs).trans (h'.told x (h.slaves ▸ hx) (h.serves x [] hx hs))
  slaves := h'.slaves.trans h.slaves
  newSlaves := h'.newSlaves.trans h.newSlaves
  requests := h'.requests.trans h.requests
  joined := h'.joined.trans h.joined

/-- One connection changes, but its copy of the list only if it is brought up to date. -/
theorem setServer {v : Server} (hc : s.server.conns c = some conn)
    (hv : v.conns = Function.update s.server.conns c (some conn'))
    (hsl : conn'.slaves = conn.slaves ∨ conn'.slaves = s.slaves)
    (htold : ∀ x, Serves x [] s → Told x s.server v) : Plain s { s with server := v } := by
  refine ⟨fun x l hx hs u j y hj hr hy => ?_, fun x _ hs => htold x hs, rfl, rfl, rfl, rfl⟩
  have hy' : v.conns j.conn = some y := hy
  rw [hv] at hy'
  by_cases hjc : j.conn = c
  · rw [hjc, Function.update_self, Option.some.injEq] at hy'
    subst hy'
    rcases hsl with heq | heq
    · rw [heq]
      exact hs u j conn hj hr (hjc ▸ hc)
    · exact .inl (heq ▸ hx)
  · rw [Function.update_of_ne hjc] at hy'
    exact hs u j y hj hr hy'

/-- The store is not concerned. -/
theorem setConn (hc : s.server.conns c = some conn)
    (hsl : conn'.slaves = conn.slaves ∨ conn'.slaves = s.slaves) : Plain s (s.setConn c conn') :=
  setServer hc rfl hsl fun _ _ => .same rfl rfl rfl

/-- A worker's job ends, goes on, or is a receive job with an up-to-date list. -/
theorem setWorker (s : Master) (w : Nat) (u : Worker)
    (hu : ∀ j conn, u.job = some j → j.isRecv = true → s.server.conns j.conn = some conn →
      conn.slaves = s.slaves ∨
        ∃ i, (s.workers w).job = some i ∧ i.isRecv = true ∧ i.conn = j.conn) :
    Plain s (s.setWorker w u) := by
  refine ⟨fun x l hx hs v j y hj hr hy => ?_, fun _ _ _ => .same rfl rfl rfl, rfl, rfl, rfl, rfl⟩
  rcases Wiring.job_setWorker hj with ⟨rfl, hj'⟩ | ⟨-, hj'⟩
  · rcases hu j y hj' hr hy with heq | ⟨i, hi, hir, hic⟩
    · exact .inl (heq ▸ hx)
    · exact hs v i y hi hir (by rw [hic]; exact hy)
  · exact hs v j y hj' hr hy

/-- What is left of the state does not matter here. -/
theorem same (hc : s'.server.conns = s.server.conns) (hw : s'.workers = s.workers)
    (hh : s'.server.hash = s.server.hash) (hl : s'.server.log = s.server.log)
    (hg : s'.server.gc = s.server.gc) (h1 : s'.slaves = s.slaves) (h2 : s'.newSlaves = s.newSlaves)
    (h3 : s'.requests = s.requests) (h4 : s'.joined = s.joined) : Plain s s' := by
  refine ⟨fun x l _ hs => ?_, fun _ _ _ => .same hh hl hg, h1, h2, h3, h4⟩
  intro u j y hj hr hy
  rw [hw] at hj
  rw [hc] at hy
  exact hs u j y hj hr hy

/-- A receive job ends. -/
theorem finish (hc : s.server.conns c = some conn) (hsl : conn'.slaves = conn.slaves) :
    Plain s (s.finish w c conn') := by
  have hset : Plain s (s.setConn c { conn' with busy := false }) := setConn hc (.inl hsl)
  exact hset.trans (setWorker _ w _ fun _ _ hj => nomatch hj)

/-- ... after giving up its locks. -/
theorem reset (hc : s.server.conns c = some conn) (hsl : conn'.slaves = conn.slaves)
    (hs : s.reset w c conn' = .ok s') : Plain s s' := by
  unfold Master.reset at hs
  cases hu : unlockLoop (s.workers w).ctx false s.server.hash conn'.locks with
  | error e => rw [hu] at hs; cases hs
  | ok m =>
    rw [hu] at hs
    obtain rfl := Except.ok.inj hs
    have hset : Plain s (Master.setConn { s with server := { s.server with hash := m } } c
        { conn' with locks := [], busy := false }) :=
      setServer hc rfl (.inl hsl) fun _ _ => .unlock hu rfl rfl
    exact hset.trans (setWorker _ w _ fun _ _ hj => nomatch hj)

end Plain

/-- The syncer's and GC's events, and a slave that leaves. -/
def special : MasterEvent → Bool
  | .join | .leave _ | .check | .gcStart _ | .fixGarbage | .gcNext => true
  | _ => false

variable {e : MasterEvent} {t : GcThread}

/-- **Step**: all other events are plain. -/
theorem step_plain {s s' : Master} (h : Inv False s) (he : special e = false)
    (hs : s.step e = .ok s') : Plain s s' := by
  cases moved_of_step hs with
  | join | leave | check | gcStart | fixGarbage | gcNext => cases he
  | idle => exact .refl s
  | accept hfd =>
    refine ⟨fun x l _ hserve w j y hj hr hy => ?_, fun _ _ _ => .same rfl rfl rfl, rfl, rfl, rfl, rfl⟩
    -- no job runs on the new connection
    have hne := h.wiring.conn_ne_accepted hj
    exact hserve w j y hj hr ((Function.update_of_ne hne ..).symm.trans hy)
  | @readable c w conn hc hg =>
    have hset : Plain s (s.setConn c { conn with busy := true, slaves := s.slaves }) :=
      .setConn hc (.inr rfl)
    refine hset.trans (.setWorker _ w _ fun j y hj _ hy => .inl ?_)
    -- the job that is posted has the list as it is now
    rw [Option.some.injEq] at hj
    subst hj
    have hself : (s.setConn c { conn with busy := true, slaves := s.slaves }).server.conns c
        = some { conn with busy := true, slaves := s.slaves } := Function.update_self ..
    rw [Option.some.inj (hy.symm.trans hself)]
    rfl
  | @writable c w conn hc hg =>
    refine .setWorker s w _ fun j y hj hr => ?_
    rw [← Option.some.inj hj] at hr
    cases hr
  | invalidate hc => exact .setConn hc (.inl rfl)
  | remove hc hg => exact .same rfl rfl rfl rfl rfl rfl rfl rfl rfl
  | @tryClose c conn hc hg =>
    have hset : Plain s (s.setConn c { conn with closed := true }) := .setConn hc (.inl rfl)
    exact hset.trans (.same rfl rfl rfl rfl rfl rfl rfl rfl rfl)
  | tick now => exact .same rfl rfl rfl rfl rfl rfl rfl rfl rfl
  | @start w c conn hj hc =>
    refine .setWorker s w _ fun j y hj' _ _ => .inr ⟨_, hj, rfl, ?_⟩
    rw [← Option.some.inj hj']
    rfl
  | @received w c got conn hj hc hv =>
    refine .setWorker s w _ fun j y hj' _ _ => .inr ⟨_, hj, rfl, ?_⟩
    rw [← Option.some.inj hj']
    rfl
  | again hj hc hv => exact .finish hc rfl
  | reset hj hc hv hs =>
    refine .reset hc ?_ hs
    rfl
  | tooLarge hj hc hs =>
    refine .reset hc ?_ hs
    rfl
  | @exec w c r conn v hj hc hr =>
    obtain ⟨x, -, heq⟩ := RecordsAgree.runCmd_eq_ok hr
    have hconns : v.conns = Function.update s.server.conns c
        (some (conn.after x)) := by
      rw [heq]
      rfl
    refine .setServer hc hconns (.inl rfl) fun y hserve => ?_
    have hy : y ∈ conn.slaves := (hserve w _ conn hj rfl hc).resolve_right List.not_mem_nil
    exact .runCmd hy hr
  | @sent w c ok conn hj hc =>
    have hset : Plain s (s.setConn c { conn with valid := conn.valid && ok }) := .setConn hc (.inl rfl)
    exact hset.trans (.setWorker _ w _ fun _ _ hj => nomatch hj)

/-! ## The syncer -/

/-- Callbacks are made. -/
structure Fired (cbs : List Callback) (s s' : Master) : Prop where
  serves : ∀ x l, Serves x l s → Serves x l s'
  told : ∀ x, Told x s.server s'.server
  newSlaves : ∀ x ∈ s'.newSlaves, x ∈ s.newSlaves ∨ .newSlave x ∈ cbs
  slaves : s'.slaves = s.slaves
  requests : s'.requests = s.requests
  joined : s'.joined = s.joined

namespace Fired

variable {s s' : Master}

theorem fire {cb : Callback} (hs : s.fire cb = .ok s') : Fired [cb] s s' := by
  cases cb with
  | newSlave y =>
    obtain rfl := Except.ok.inj hs
    refine ⟨fun _ _ h => h, fun _ => .same rfl rfl rfl, fun x hx => ?_, rfl, rfl, rfl⟩
    rcases List.mem_append.mp hx with hx | hx
    · exact .inl hx
    · exact .inr (by rw [List.mem_singleton.mp hx]; exact List.mem_singleton.mpr rfl)
  | reactorGc =>
    unfold Master.fire at hs
    cases hv : destroyAll s.server s.garbageCopy with
    | error e => rw [hv] at hs; cases hs
    | ok v =>
      rw [hv] at hs
      obtain rfl := Except.ok.inj hs
      refine ⟨fun x l h w j conn hj hr hc => ?_, fun _ => destroyAll_told _ hv, fun _ => .inl, rfl, rfl, rfl⟩
      have hc' : v.conns j.conn = some conn := hc
      rw [destroyAll_conns _ hv] at hc'
      split_ifs at hc'
      exact h w j conn hj hr hc'

theorem fireAll (rs : List SyncRequest) : ∀ {s s' : Master}, Master.fireAll s rs = .ok s' →
    Fired (rs.map (·.callback)) s s' := by
  induction rs with
  | nil =>
    intro s s' hs
    cases hs
    exact ⟨fun _ _ h => h, fun _ => .same rfl rfl rfl, fun _ => .inl, rfl, rfl, rfl⟩
  | cons r rs ih =>
    intro s s' hs
    rw [Master.fireAll] at hs
    cases hf : s.fire r.callback with
    | error e => rw [hf] at hs; cases hs
    | ok s1 =>
      rw [hf] at hs
      have h := fire hf
      have h' := ih hs
      refine ⟨fun x l hl => h'.serves x l (h.serves x l hl), fun x => (h.told x).trans (h'.told x),
        fun x hx => ?_, h'.slaves.trans h.slaves, h'.requests.trans h.requests, h'.joined.trans h.joined⟩
      rcases h'.newSlaves x hx with hx | hx
      · rcases h.newSlaves x hx with hx | hx
        · exact .inl hx
        · exact .inr (List.mem_cons.mpr (.inl (List.mem_singleton.mp hx)))
      · exact .inr (List.mem_cons_of_mem _ hx)

end Fired

/-- Slave `x`, from its acceptance to the pass that serves it. -/
structure Joined (x : Nat) (s : Master) : Prop where
  listed : x < s.joined → x ∈ s.slaves
  asked : ∀ r ∈ s.requests, r.callback = .newSlave x → x < s.joined ∧ Serves x r.waiting s
  confirmed : x ∈ s.newSlaves → x < s.joined ∧ Serves x [] s

namespace Joined

variable {x : Nat} {s s' : Master}

theorem plain (h : Joined x s) (hp : Plain s s') : Joined x s' := by
  refine ⟨fun hx => ?_, fun r hr hcb => ?_, fun hx => ?_⟩
  · rw [hp.slaves]
    exact h.listed (hp.joined ▸ hx)
  · obtain ⟨hx, hs⟩ := h.asked r (hp.requests ▸ hr) hcb
    exact ⟨hp.joined ▸ hx, hp.serves x _ (h.listed hx) hs⟩
  · obtain ⟨hx, hs⟩ := h.confirmed (hp.newSlaves ▸ hx)
    exact ⟨hp.joined ▸ hx, hp.serves x _ (h.listed hx) hs⟩

/-- Callbacks are made, that for `x` when all jobs serve it. -/
theorem fired (h : Joined x s) {cbs : List Callback} (hf : Fired cbs s s')
    (hx : .newSlave x ∈ cbs → x < s.joined ∧ Serves x [] s) : Joined x s' := by
  refine ⟨fun hlt => ?_, fun r hr hcb => ?_, fun hin => ?_⟩
  · rw [hf.slaves]
    exact h.listed (hf.joined ▸ hlt)
  · obtain ⟨hlt, hs⟩ := h.asked r (hf.requests ▸ hr) hcb
    exact ⟨hf.joined ▸ hlt, hf.serves x _ hs⟩
  · obtain ⟨hlt, hs⟩ := (hf.newSlaves x hin).elim h.confirmed hx
    exact ⟨hf.joined ▸ hlt, hf.serves x _ hs⟩

end Joined

/-- All workers with a job are running ones. -/
theorem serves_running {s : Master} (hw : ∀ w j, (s.workers w).job = some j → w < s.nWorkers) (x : Nat) :
    Serves x ((List.range s.nWorkers).filter s.running) s := by
  intro w j conn hj _ _
  exact .inr (List.mem_filter.mpr ⟨List.mem_range.mpr (hw w j hj), running_of_job hj⟩)

/-- A request is made: the callback comes at once if nobody runs, otherwise the running workers are
    waited for. -/
theorem addRequest_joined {x : Nat} {s s' : Master} {cb : Callback} (h : Joined x s)
    (hw : ∀ w j, (s.workers w).job = some j → w < s.nWorkers) (hx : cb = .newSlave x → x < s.joined)
    (hs : s.addRequest cb = .ok s') :
    Joined x s' := by
  have hrun := serves_running hw x
  unfold addRequest at hs
  by_cases hnil : (List.range s.nWorkers).filter s.running = []
  · simp only [hnil, if_true] at hs
    have hf := Fired.fire hs
    rw [hnil] at hrun
    exact h.fired hf fun hin => ⟨hx (List.mem_singleton.mp hin).symm, hrun⟩
  · simp only [hnil, if_false] at hs
    obtain rfl := Except.ok.inj hs
    refine ⟨h.listed, fun r hr hcb => ?_, h.confirmed⟩
    rcases List.mem_append.mp hr with hr | hr
    · exact h.asked r hr hcb
    · obtain rfl := List.mem_singleton.mp hr
      exact ⟨hx hcb, hrun⟩

/-- A look at the workers: a worker with a job goes on being waited for. -/
theorem Serves.observe {x : Nat} {s : Master} {r : SyncRequest} (h : Serves x r.waiting s) :
    Serves x (s.observe r).waiting s := by
  intro w j conn hj hr hc
  refine (h w j conn hj hr hc).imp_right fun hin => ?_
  exact List.mem_filter.mpr ⟨hin, running_of_job hj⟩

/-- The syncer looks at the workers and makes the callbacks of those requests that wait for none. -/
theorem check_fired {s s' : Master} (hs : s.check = .ok s') :
    Fired (((s.requests.map s.observe).filter fun r => r.waiting = []).map (·.callback))
      { s with requests := (s.requests.map s.observe).filter fun r => r.waiting ≠ [] } s' :=
  .fireAll _ hs

theorem check_joined {x : Nat} {s s' : Master} (h : Joined x s) (hs : s.check = .ok s') : Joined x s' := by
  have hobs : ∀ r ∈ s.requests.map s.observe, r.callback = .newSlave x →
      x < s.joined ∧ Serves x r.waiting s := by
    intro r hr hcb
    obtain ⟨r0, hr0, rfl⟩ := List.mem_map.mp hr
    obtain ⟨hlt, hserve⟩ := h.asked r0 hr0 hcb
    exact ⟨hlt, hserve.observe⟩
  have h1 : Joined x { s with requests := (s.requests.map s.observe).filter fun r => r.waiting ≠ [] } :=
    ⟨h.listed, fun r hr hcb => hobs r (List.mem_filter.mp hr).1 hcb, h.confirmed⟩
  refine h1.fired (check_fired hs) fun hin => ?_
  obtain ⟨r, hr, hcb⟩ := List.mem_map.mp hin
  obtain ⟨hr, hnil⟩ := List.mem_filter.mp hr
  obtain ⟨hlt, hserve⟩ := hobs r hr hcb
  rw [of_decide_eq_true hnil] at hserve
  exact ⟨hlt, hserve⟩

/-- **Step**: a slave that does not leave is listed, waited for and confirmed as it should be. -/
theorem step_joined {x : Nat} {s s' : Master} (h : Inv False s) (hj : Joined x s)
    (he : e ≠ .leave x) (hs : s.step e = .ok s') : Joined x s' := by
  cases hsp : special e with
  | false => exact hj.plain (step_plain h hsp hs)
  | true =>
    cases moved_of_step hs with
    | idle => exact hj
    | join hs =>
      have hj1 : Joined x { s with slaves := s.slaves ++ [s.joined], joined := s.joined + 1 } := by
        refine ⟨fun hlt => List.mem_append.mpr ?_, fun r hr hcb => ?_, fun hx => ?_⟩
        · rcases Nat.lt_succ_iff_lt_or_eq.mp hlt with hlt | heq
          · exact .inl (hj.listed hlt)
          · exact .inr (List.mem_singleton.mpr heq)
        · exact (hj.asked r hr hcb).imp_left fun hlt => Nat.lt_succ_of_lt hlt
        · exact (hj.confirmed hx).imp_left fun hlt => Nat.lt_succ_of_lt hlt
      refine addRequest_joined hj1 h.wiring.bound (fun hcb => ?_) hs
      rw [← Callback.newSlave.inj hcb]
      exact Nat.lt_succ_self _
    | leave y =>
      refine ⟨fun hlt => List.mem_filter.mpr ⟨hj.listed hlt, ?_⟩, hj.asked, hj.confirmed⟩
      rw [decide_eq_true_eq]
      rintro rfl
      exact he rfl
    | check hs => exact check_joined hj hs
    | gcStart hg => exact ⟨hj.listed, hj.asked, fun hx => nomatch hx⟩
    | fixGarbage hready hcopy hs =>
      have hj1 : Joined x { s with garbageCopy := s.garbage, garbage := [] } :=
        ⟨hj.listed, hj.asked, hj.confirmed⟩
      exact addRequest_joined hj1 h.wiring.bound Callback.noConfusion hs
    | gcNext hg =>
      exact ⟨hj.listed, fun r hr hcb => (hj.asked r hr hcb).imp_right (serves_gcStep _),
        fun hx => (hj.confirmed hx).imp_right (serves_gcStep _)⟩
    | _ => cases hsp

/-! ## The initial replication -/

/-- What slave `x` has after replaying what it was sent, if it had `r` at first. -/
def copy (x : Nat) (r : Key → Option Item) (v : Server) : Key → Option Item :=
  replay ReplMsg.key ReplMsg.eff r (messagesTo x v.log)

/-- Requests add no messages and stop no job. -/
theorem addRequest_told {s s' : Master} {cb : Callback} (hs : s.addRequest cb = .ok s') (x : Nat) :
    Told x s.server s'.server ∧ s'.slaves = s.slaves ∧ (Serves x [] s → Serves x [] s') := by
  unfold addRequest at hs
  dsimp only at hs
  split_ifs at hs
  · have hf := Fired.fire hs
    exact ⟨hf.told x, hf.slaves, hf.serves x []⟩
  · obtain rfl := Except.ok.inj hs
    exact ⟨.same rfl rfl rfl, rfl, fun h => h⟩

/-- **Step**: a slave that is served by all jobs is told of every change, and goes on being served. -/
theorem step_told {x : Nat} {s s' : Master} (h : Inv False s) (hx : x ∈ s.slaves)
    (hserve : Serves x [] s) (he : e ≠ .leave x) (hgc : (∀ wall, e ≠ .gcStart wall) ∧ e ≠ .gcNext)
    (hs : s.step e = .ok s') : x ∈ s'.slaves ∧ Serves x [] s' ∧ Told x s.server s'.server := by
  cases hsp : special e with
  | false =>
    have hp := step_plain h hsp hs
    exact ⟨hp.slaves ▸ hx, hp.serves x [] hx hserve, hp.told x hx hserve⟩
  | true =>
    cases moved_of_step hs with
    | idle => exact ⟨hx, hserve, .same rfl rfl rfl⟩
    | join hs =>
      obtain ⟨htold, hsl, hserve'⟩ := addRequest_told hs x
      exact ⟨hsl ▸ List.mem_append_left _ hx, hserve' hserve, htold⟩
    | leave y =>
      refine ⟨List.mem_filter.mpr ⟨hx, ?_⟩, hserve, .same rfl rfl rfl⟩
      rw [decide_eq_true_eq]
      rintro rfl
      exact he rfl
    | check hs =>
      have hf := check_fired hs
      exact ⟨hf.slaves ▸ hx, hf.serves x [] hserve, hf.told x⟩
    | fixGarbage hready hcopy hs =>
      obtain ⟨htold, hsl, hserve'⟩ := addRequest_told hs x
      exact ⟨hsl ▸ hx, hserve' hserve, htold⟩
    | @gcStart wall hg => exact absurd rfl (hgc.1 wall)
    | gcNext hg => exact absurd rfl hgc.2
    | _ => cases hsp

/-- Slave `x` is on all lists: the handler's, those of the jobs, that of a running GC pass. -/
structure Served (x : Nat) (s : Master) : Prop where
  listed : x ∈ s.slaves
  jobs : Serves x [] s
  pass : s.server.GcServes x

/-- The copy has every key of the master. -/
def Complete (x : Nat) (r : Key → Option Item) (s : Master) : Prop :=
  ∀ k, Covers (view s.server.hash k) (copy x r s.server k)

/-- The pass is under way, and the copy has the keys of the buckets it has visited. -/
def UnderWay (x : Nat) (r : Key → Option Item) (s : Master) : Prop :=
  ∃ t, s.server.gc = some t ∧ x ∈ t.pass.newSlaves ∧
    ∀ k, s.server.hash.index k < t.next → Covers (view s.server.hash k) (copy x r s.server k)

section

variable {x : Nat} {r : Key → Option Item}

/-- A visit makes the copy right about the keys of its bucket. -/
theorem covers_visited {v : Server} (hn : t.next < v.hash.buckets.length)
    (hx : x ∈ t.pass.newSlaves) {k : Key} (hk : v.hash.index k = t.next) :
    Covers (view (v.gcStep t).hash k) (copy x r (v.gcStep t) k) := by
  intro i hi
  -- what is there after the visit is an item of the bucket that stays
  have hex : ∃ c ∈ v.visited t, c.key = k := by
    by_contra hnone
    have hne : ∀ c ∈ v.visited t, c.key ≠ k := fun c hc hck => hnone ⟨c, hc, hck⟩
    rw [view_gcStep_of_ne v t hn hne] at hi
    obtain ⟨c, hc, -⟩ := Option.map_eq_some_iff.mp hi
    exact hne c (v.hash.mem_bucket_of_find hc hk) (v.hash.find_key hc)
  obtain ⟨c, hc, rfl⟩ := hex
  rw [view_gcStep_mem v t hn hc] at hi
  split_ifs at hi with hrem
  -- ... and it is sent to the new slave
  unfold copy
  rw [gcStep_log v t hn, replay_append,
    replay_sweep ReplMsg.key (v.hash.nodup_bucket t.next)
      (fun c _ => gcSent_key x t.pass v.now v.flushTime c) _ hc,
    gcSent, if_neg hrem, if_pos hx]
  exact hi

/-- A visit, for a slave the pass serves. -/
theorem gcStep_covers {v : Server} (hx : x ∈ t.pass.slaves) {k : Key}
    (hc : Covers (view v.hash k) (copy x r v k)) :
    Covers (view (v.gcStep t).hash k) (copy x r (v.gcStep t) k) := by
  obtain ⟨new, hlog, hview⟩ := gcStep_mirrors v t hx
  unfold copy
  rw [hlog, hview, replay_append]
  exact replay_covers ReplMsg.key ReplMsg.eff_covers new hc

/-- **Step**: once on all lists, always on all lists. -/
theorem Served.step {s s' : Master} (hi : Inv False s) (h : Served x s)
    (he : e ≠ .leave x) (hs : s.step e = .ok s') : Served x s' := by
  by_cases hgc : (∀ wall, e ≠ .gcStart wall) ∧ e ≠ .gcNext
  · obtain ⟨hx, hjobs, htold⟩ := step_told hi h.listed h.jobs he hgc hs
    exact ⟨hx, hjobs, fun t ht => h.pass t (htold.gc ▸ ht)⟩
  · cases moved_of_step hs with
    | idle => exact h
    | @gcNext t hg =>
      refine ⟨h.listed, serves_gcStep t h.jobs, fun t' ht' => ?_⟩
      rw [← s.server.gcStep_pass t ht']
      exact h.pass t hg
    | gcStart hg =>
      refine ⟨h.listed, h.jobs, fun t ht' => ?_⟩
      obtain rfl := Option.some.inj ht'
      exact GcPass.mem_start (.inl h.listed) _ _ _ _
    | _ => exact absurd ⟨fun _ => MasterEvent.noConfusion, MasterEvent.noConfusion⟩ hgc

/-- **Step**: a complete copy stays complete. -/
theorem Complete.step {s s' : Master} (hi : Inv False s) (h : Served x s)
    (hall : Complete x r s) (he : e ≠ .leave x) (hs : s.step e = .ok s') : Complete x r s' := by
  by_cases hgc : (∀ wall, e ≠ .gcStart wall) ∧ e ≠ .gcNext
  · obtain ⟨-, -, htold⟩ := step_told hi h.listed h.jobs he hgc hs
    exact fun k => htold.covers (hall k)
  · cases moved_of_step hs with
    | idle => exact hall
    | @gcNext t hg => exact fun k => gcStep_covers (h.pass t hg) (hall k)
    | gcStart hg => exact hall
    | _ => exact absurd ⟨fun _ => MasterEvent.noConfusion, MasterEvent.noConfusion⟩ hgc

/-- A visit of the pass: one more bucket, or the end. -/
theorem UnderWay.gcNext {s : Master} (ht : s.server.gc = some t) (hpass : x ∈ t.pass.slaves)
    (h : UnderWay x r s) :
    Complete x r { s with server := s.server.gcStep t } ∨
      UnderWay x r { s with server := s.server.gcStep t } := by
  obtain ⟨t0, ht0, hnew, hbelow⟩ := h
  rw [ht, Option.some.injEq] at ht0
  subst ht0
  by_cases hn : t.next < s.server.hash.buckets.length
  · obtain ⟨t', ht', hpass', hnext⟩ := s.server.gcStep_gc t hn
    refine .inr ⟨t', ht', hpass' ▸ hnew, fun k hk => ?_⟩
    have hk' : s.server.hash.index k < t.next + 1 := by
      rw [← s.server.gcStep_index t, ← hnext]
      exact hk
    rcases Nat.lt_succ_iff_lt_or_eq.mp hk' with hlt | heq
    · exact gcStep_covers hpass (hbelow k hlt)
    · exact covers_visited hn hnew heq
  · -- the end of the pass: every bucket has been visited
    refine .inl fun k => gcStep_covers hpass (hbelow k ?_)
    exact Nat.lt_of_lt_of_le (s.server.hash.index_lt k) (Nat.le_of_not_lt hn)

/-- **Step**: a pass under way goes on, or ends with a complete copy. -/
theorem UnderWay.step {s s' : Master} (hi : Inv False s) (h : Served x s)
    (hway : UnderWay x r s) (he : e ≠ .leave x) (hs : s.step e = .ok s') :
    Complete x r s' ∨ UnderWay x r s' := by
  by_cases hgc : (∀ wall, e ≠ .gcStart wall) ∧ e ≠ .gcNext
  · obtain ⟨-, -, htold⟩ := step_told hi h.listed h.jobs he hgc hs
    obtain ⟨t, ht, hnew, hbelow⟩ := hway
    refine .inr ⟨t, htold.gc.trans ht, hnew, fun k hk => htold.covers (hbelow k ?_)⟩
    rw [← htold.index]
    exact hk
  · obtain ⟨t, ht, -⟩ := id hway
    cases e with
    | gcNext =>
      rw [Master.step, ht] at hs
      exact Except.ok.inj hs ▸ hway.gcNext ht (h.pass t ht)
    | gcStart wall =>
      rw [Master.step, ht] at hs
      exact Except.ok.inj hs ▸ .inr hway
    | _ => exact absurd ⟨fun _ => MasterEvent.noConfusion, MasterEvent.noConfusion⟩ hgc

/-- The pass that serves the new slave starts. -/
theorem underWay_gcStart {s s' : Master} (hj : Joined x s) (hx : x ∈ s.newSlaves) (hgc : s.server.gc = none)
    {wall : Int} (hs : s.step (.gcStart wall) = .ok s') : Served x s' ∧ UnderWay x r s' := by
  obtain ⟨hlt, hjobs⟩ := hj.confirmed hx
  rw [Master.step, hgc] at hs
  obtain rfl := Except.ok.inj hs
  refine ⟨⟨hj.listed hlt, hjobs, fun t ht => ?_⟩, _, rfl, hx, fun k hk => ?_⟩
  · obtain rfl := Option.some.inj ht
    exact GcPass.mem_start (.inr hx) _ _ _ _
  · cases hk

end

/-- A master that has just started, and that no slave has joined. -/
structure Unjoined (s : Master) : Prop extends Boot s where
  joined : s.joined = 0
  requests : s.requests = []
  newSlaves : s.newSlaves = []

theorem Unjoined.toJoined {s : Master} (h : Unjoined s) (x : Nat) : Joined x s := by
  refine ⟨fun hlt => ?_, fun r hr => ?_, fun hx => ?_⟩
  · rw [h.joined] at hlt; cases hlt
  · rw [h.requests] at hr; cases hr
  · rw [h.newSlaves] at hx; cases hx

/-- **The pass**: a slave that is among the confirmed new slaves when a pass starts is served from then on, and its
    copy is complete when the pass has ended. -/
theorem served_by_pass {x : Nat} {s0 s1 s2 : Master} (h0 : Unjoined s0) {es1 es2 : List MasterEvent} {wall : Int}
    (h1 : run step s0 es1 = .ok s1) (hx : x ∈ s1.newSlaves) (hstart : s1.server.gc = none)
    (h2 : run step s1 (.gcStart wall :: es2) = .ok s2) (hend : s2.server.gc = none)
    (hstay : ∀ e ∈ es1 ++ es2, e ≠ .leave x) (r : Key → Option Item) :
    ∃ s, s1.step (.gcStart wall) = .ok s ∧ run step s es2 = .ok s2 ∧ (Inv False s ∧ Served x s) ∧
      (Inv False s2 ∧ Served x s2) ∧ Complete x r s2 := by
  have hinv : ∀ (s : Master) e s', Inv False s → s.step e = .ok s' → Inv False s' :=
    fun s e s' h hs => h.step_ok (fun hf => hf.elim) hs
  -- up to the start of the pass the syncer is at work
  have hjoined : Inv False s1 ∧ Joined x s1 :=
    run_preserves_of_mem (I := fun s => Inv False s ∧ Joined x s)
      (fun s e s' h he hs => ⟨hinv s e s' h.1 hs, step_joined h.1 h.2 he hs⟩)
      (fun e he => hstay e (List.mem_append_left _ he)) ⟨h0.inv False, h0.toJoined x⟩ h1
  obtain ⟨s, hs, hr⟩ := run_cons_inv h2
  obtain ⟨hserved, hway⟩ := underWay_gcStart (r := r) hjoined.2 hx hstart hs
  have hi := hinv s1 _ s hjoined.1 hs
  -- then the pass
  have hpass : (Inv False s2 ∧ Served x s2) ∧ (Complete x r s2 ∨ UnderWay x r s2) := by
    refine run_preserves_of_mem
      (I := fun s => (Inv False s ∧ Served x s) ∧ (Complete x r s ∨ UnderWay x r s)) ?_
      (fun e he => hstay e (List.mem_append_right _ he)) ⟨⟨hi, hserved⟩, .inr hway⟩ hr
    rintro s e s' ⟨⟨hi, hsv⟩, hcopy⟩ he hs
    refine ⟨⟨hinv s e s' hi hs, hsv.step hi he hs⟩, ?_⟩
    rcases hcopy with hall | hway
    · exact .inl (hall.step hi hsv he hs)
    · exact hway.step hi hsv he hs
  refine ⟨s, hs, hr, ⟨hi, hserved⟩, hpass.1, hpass.2.resolve_right ?_⟩
  -- it has ended, so it is not under way
  rintro ⟨t', ht', -⟩
  rw [hend] at ht'
  cases ht'

/-- **The initial replication loses no update.**  In every run of the master in which slave `x` joins and
    does not leave: once a GC pass that started with `x` among the confirmed new slaves has ended, every
    key of the master is, at every later time `t`, on the slave that has replayed what it was sent, with
    the data, flags and expiration time it has on the master — whatever the slave had before. -/
theorem initial_replication {x : Nat} {s₀ s₁ s₂ t : Master} (h₀ : Unjoined s₀)
    {es₁ es₂ es₃ : List MasterEvent}
    {wall : Int} (h₁ : run step s₀ es₁ = .ok s₁) (hx : x ∈ s₁.newSlaves) (hstart : s₁.server.gc = none)
    (h₂ : run step s₁ (.gcStart wall :: es₂) = .ok s₂) (hend : s₂.server.gc = none)
    (h₃ : run step s₂ es₃ = .ok t) (hstay : ∀ e ∈ es₁ ++ es₂ ++ es₃, e ≠ .leave x) (limit : Nat)
    (slave : HashMap Object) (k : Key) (i : Item) (hi : view t.server.hash k = some i) :
    view ((messagesTo x t.server.log).foldl (replApply limit) slave) k = some i := by
  obtain ⟨-, -, -, -, hpass, hall⟩ := served_by_pass h₀ h₁ hx hstart h₂ hend
    (fun e he => hstay e (List.mem_append_left _ he)) (view slave)
  -- the copy remains complete
  have hlast : (Inv False t ∧ Served x t) ∧ Complete x (view slave) t := by
    refine run_preserves_of_mem (I := fun s => (Inv False s ∧ Served x s) ∧ Complete x (view slave) s) ?_
      (fun e he => hstay e (List.mem_append_right _ he)) ⟨hpass, hall⟩ h₃
    rintro s e s' ⟨⟨hi, hsv⟩, hall⟩ he hs
    exact ⟨⟨hi.step_ok (fun hf => hf.elim) hs, hsv.step hi he hs⟩, hall.step hi hsv he hs⟩
  rw [view_replay]
  exact hlast.2 k i hi

/-! ## A run -/

/-- A client stores "x"; while its job runs slave 0 joins, and the client stores "y", of which the slave is
    not told; the job ends and the syncer confirms the slave. -/
def joinRun : List MasterEvent :=
  [.accept 5, .readable 0 0, .start 0, .receive 0 .OK,
    .exec 0 (.bin { command := .Set, status := .OK, key := [120], key_le := x_le, data := [1] }), .join,
    .exec 0 (.bin { command := .Set, status := .OK, key := [121], key_le := y_le, data := [2] }),
    .check, .receive 0 .AGAIN, .check]

/-- During the pass the client stores something else under "x". -/
def passRun : List MasterEvent :=
  [.readable 0 1, .start 1, .receive 1 .OK,
    .exec 1 (.bin { command := .Set, status := .OK, key := [120], key_le := x_le, data := [3] }),
    .gcNext, .gcNext]

/-- After it, the client touches "y". -/
def afterRun : List MasterEvent :=
  [.exec 1 (.bin { command := .Touch, status := .OK, key := [121], key_le := y_le, exptime := 900 })]

theorem unjoined_twoWorkers : Unjoined twoWorkers := ⟨boot_twoWorkers, rfl, rfl, rfl⟩

/-- The slave, with nothing at first, has what was stored before it was served, and the new expiration
    time. -/
theorem initial_replication_joinRun :
    ∃ s₁ s₂ t, run step twoWorkers joinRun = .ok s₁ ∧ run step s₁ (.gcStart 100 :: passRun) = .ok s₂ ∧
      run step s₂ afterRun = .ok t ∧
      view ((messagesTo 0 t.server.log).foldl (replApply 100) Server.oneBucket.hash) [121]
        = some ⟨[2], 0, 900⟩ := by
  suffices h : ∃ s₁ s₂ t, run step twoWorkers joinRun = .ok s₁ ∧ 0 ∈ s₁.newSlaves ∧
      s₁.server.gc = none ∧ run step s₁ (.gcStart 100 :: passRun) = .ok s₂ ∧ s₂.server.gc = none ∧
      run step s₂ afterRun = .ok t ∧ view t.server.hash [121] = some ⟨[2], 0, 900⟩ by
    obtain ⟨s₁, s₂, t, h₁, hx, hstart, h₂, hend, h₃, hi⟩ := h
    have hstay : ∀ e ∈ joinRun ++ passRun ++ afterRun, e ≠ .leave 0 := by
      simp [joinRun, passRun, afterRun]
    exact ⟨s₁, s₂, t, h₁, h₂, h₃, initial_replication unjoined_twoWorkers h₁ hx hstart h₂ hend h₃ hstay 100
      Server.oneBucket.hash [121] _ hi⟩
  exact ⟨_, _, _, rfl, List.mem_cons_self, rfl, rfl, rfl, rfl, rfl⟩

end Master

end Yrmcds.Memcache
