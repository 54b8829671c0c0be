/-
  Which connections share a descriptor, and what an old one can still do.

  The kernel hands out the number of a descriptor again as soon as it is closed.  An old connection is
  INERT when it is invalid, holds no lock and has no received command left to execute: nothing brings
  an inert connection back (`Follows`), so it does no harm that another one has its number.

  `Descriptors` relates the flags of connections to the process's open descriptors: one that is not
  closed owns its number alone, and one that is closed is waiting as garbage.  Hence an accept meets an
  old connection with the same number only among the garbage, and if those are inert at every accept
  (`cleanAccept`), of two connections with one number one is always inert (`Alone`).
-/
import Yrmcds.Memcache.Jobs

namespace Yrmcds.Memcache

open ChainTable Ownership Run

namespace Master

/-- The connection will never run a command again, and holds nothing. -/
structure Inert (s : Master) (c : Nat) (conn : Conn) : Prop where
  valid : conn.valid = false
  locks : conn.locks = []
  job : ∀ w, (s.workers w).job ≠ some (.recv c true)

/-- Every connection of `s'` was there in `s`, with its descriptor, and is inert if it was. -/
def Follows (s s' : Master) : Prop :=
  ∀ c x', s'.server.conns c = some x' →
    ∃ x, s.server.conns c = some x ∧ x'.fd = x.fd ∧ (s.Inert c x → s'.Inert c x')

namespace Follows

variable {s s' : Master} {c w : Nat} {conn conn' : Conn}

@[refl] theorem refl (s : Master) : Follows s s := fun _ x hx => ⟨x, hx, rfl, id⟩

theorem trans {s1 s2 s3 : Master} (h : Follows s1 s2) (h' : Follows s2 s3) : Follows s1 s3 := by
  intro c z hz
  obtain ⟨y, hy, hfd, hin⟩ := h' c z hz
  obtain ⟨x, hx, hfd', hin'⟩ := h c y hy
  exact ⟨x, hx, hfd.trans hfd', hin ∘ hin'⟩

/-- Nothing about connections or jobs changes. -/
theorem same (hc : s'.server.conns = s.server.conns) (hw : s'.workers = s.workers) : Follows s s' := by
  intro c x hx
  rw [hc] at hx
  exact ⟨x, hx, rfl, fun hi => ⟨hi.valid, hi.locks, by rw [hw]; exact hi.job⟩⟩

/-- One connection changes. -/
theorem setServer {v : Server} (hc : s.server.conns c = some conn)
    (hv : v.conns = Function.update s.server.conns c (some conn')) (hfd : conn'.fd = conn.fd)
    (hin : s.Inert c conn → conn'.valid = false ∧ conn'.locks = []) :
    Follows s { s with server := v } := by
  intro d x hx
  have hx' : v.conns d = some x := hx
  rw [hv] at hx'
  by_cases hd : d = c
  · subst hd
    rw [Function.update_self, Option.some.injEq] at hx'
    subst hx'
    exact ⟨conn, hc, hfd, fun hi => ⟨(hin hi).1, (hin hi).2, hi.job⟩⟩
  · rw [Function.update_of_ne hd] at hx'
    exact ⟨x, hx', rfl, fun hi => ⟨hi.valid, hi.locks, hi.job⟩⟩

/-- A worker changes its job; only a connection that is not inert gets commands to execute. -/
theorem setWorker (s : Master) (w : Nat) (x : Worker)
    (h : ∀ c conn, x.job = some (.recv c true) → s.server.conns c = some conn → ¬ s.Inert c conn) :
    Follows s (s.setWorker w x) := by
  intro c conn hc
  refine ⟨conn, hc, rfl, fun hi => ⟨hi.valid, hi.locks, fun u hu => ?_⟩⟩
  rcases Wiring.job_setWorker hu with ⟨-, hj⟩ | ⟨-, hj⟩
  · exact h c conn hj hc hi
  · exact hi.job u hj

theorem finish (hc : s.server.conns c = some conn) (m : HashMap Object) (hfd : conn'.fd = conn.fd)
    (hin : s.Inert c conn → conn'.valid = false ∧ conn'.locks = []) :
    Follows s (Master.finish { s with server := { s.server with hash := m } } w c conn') := by
  have hset : Follows s (Master.setConn { s with server := { s.server with hash := m } } c
      { conn' with busy := false }) := setServer hc rfl hfd hin
  exact hset.trans (setWorker _ w _ fun _ _ hj => nomatch hj)

end Follows

/-! ## Open descriptors -/

/-- Connections and the open descriptors of the process. -/
structure Descriptors (s : Master) : Prop where
  isOpen : ∀ c x, s.server.conns c = some x → x.closed = false → x.fd ∈ s.openFds
  distinct : ∀ c d x y, s.server.conns c = some x → s.server.conns d = some y → x.closed = false →
    y.closed = false → x.fd = y.fd → c = d
  garbaged : ∀ c x, s.server.conns c = some x → x.closed = true → c ∈ s.garbage ∨ c ∈ s.garbageCopy
  invalid : ∀ c x, s.server.conns c = some x → c ∈ s.garbage ∨ c ∈ s.garbageCopy → x.valid = false

namespace Descriptors

variable {s : Master} {c : Nat} {conn conn' : Conn}

/-- One connection changes, but not its descriptor. -/
theorem setServer (h : Descriptors s) {v : Server} (hc : s.server.conns c = some conn)
    (hv : v.conns = Function.update s.server.conns c (some conn')) (hfd : conn'.fd = conn.fd)
    (hcl : conn'.closed = conn.closed) (hval : conn.valid = false → conn'.valid = false) :
    Descriptors { s with server := v } := by
  -- what is asked of a connection of `v` is known of the same connection of `s`
  have hold : ∀ d x, v.conns d = some x → ∃ y, s.server.conns d = some y ∧ x.fd = y.fd ∧
      x.closed = y.closed ∧ (y.valid = false → x.valid = false) := by
    intro d x hx
    rw [hv] at hx
    by_cases hd : d = c
    · subst hd
      rw [Function.update_self, Option.some.injEq] at hx
      subst hx
      exact ⟨conn, hc, hfd, hcl, hval⟩
    · rw [Function.update_of_ne hd] at hx
      exact ⟨x, hx, rfl, rfl, id⟩
  refine ⟨fun d x hx hcl => ?_, fun d e x y hx hy hxc hyc hxy => ?_, fun d x hx hcl => ?_,
    fun d x hx hg => ?_⟩
  · obtain ⟨y, hy, hyf, hyc, -⟩ := hold d x hx
    rw [hyf]
    exact h.isOpen d y hy (hyc ▸ hcl)
  · obtain ⟨x', hx', hxf', hxc', -⟩ := hold d x hx
    obtain ⟨y', hy', hyf', hyc', -⟩ := hold e y hy
    exact h.distinct d e x' y' hx' hy' (hxc' ▸ hxc) (hyc' ▸ hyc) (by rw [← hxf', ← hyf', hxy])
  · obtain ⟨y, hy, -, hyc, -⟩ := hold d x hx
    exact h.garbaged d y hy (hyc ▸ hcl)
  · obtain ⟨y, hy, -, -, hyv⟩ := hold d x hx
    exact hyv (h.invalid d y hy hg)

/-- Nothing that matters here changes. -/
theorem same (h : Descriptors s) {s' : Master} (hc : s'.server.conns = s.server.conns)
    (ho : s'.openFds = s.openFds) (hg : s'.garbage = s.garbage)
    (hgc : s'.garbageCopy = s.garbageCopy) : Descriptors s' := by
  refine ⟨?_, ?_, ?_, ?_⟩
  · rw [hc, ho]; exact h.isOpen
  · rw [hc]; exact h.distinct
  · rw [hc, hg, hgc]; exact h.garbaged
  · rw [hc, hg, hgc]; exact h.invalid

/-- `try_close` on garbage. -/
theorem close (h : Descriptors s) (hc : s.server.conns c = some conn)
    (hg : c ∈ s.garbage ∨ c ∈ s.garbageCopy) (hcl : conn.closed = false) :
    Descriptors { s.setConn c { conn with closed := true } with
      openFds := s.openFds.filter (· ≠ conn.fd) } := by
  have hold : ∀ d x, (s.setConn c { conn with closed := true }).server.conns d = some x →
      (d = c ∧ x = { conn with closed := true }) ∨ (d ≠ c ∧ s.server.conns d = some x) := by
    intro d x hx
    by_cases hd : d = c
    · subst hd
      have hself : (s.setConn d { conn with closed := true }).server.conns d
          = some { conn with closed := true } := Function.update_self ..
      exact .inl ⟨rfl, Option.some.inj (hx.symm.trans hself)⟩
    · exact .inr ⟨hd, (Function.update_of_ne hd ..).symm.trans hx⟩
  refine ⟨fun d x hx hcl' => ?_, fun d e x y hx hy hxc hyc => ?_, fun d x hx hcl' => ?_,
    fun d x hx hin => ?_⟩
  · rcases hold d x hx with ⟨-, rfl⟩ | ⟨hd, hx'⟩
    · cases hcl'
    · refine List.mem_filter.mpr ⟨h.isOpen d x hx' hcl', ?_⟩
      rw [decide_eq_true_iff]
      exact fun hfd => hd (h.distinct d c x conn hx' hc hcl' hcl hfd)
  · rcases hold d x hx with ⟨-, rfl⟩ | ⟨-, hx'⟩
    · cases hxc
    rcases hold e y hy with ⟨-, rfl⟩ | ⟨-, hy'⟩
    · cases hyc
    exact h.distinct d e x y hx' hy' hxc hyc
  · rcases hold d x hx with ⟨rfl, -⟩ | ⟨-, hx'⟩
    · exact hg
    · exact h.garbaged d x hx' hcl'
  · rcases hold d x hx with ⟨rfl, rfl⟩ | ⟨-, hx'⟩
    · exact h.invalid d conn hc hin
    · exact h.invalid d x hx' hin

/-- The destructors close what was left open. -/
theorem destroyAll (h : Descriptors s) {v : Server}
    (hv : Master.destroyAll s.server s.garbageCopy = .ok v) :
    Descriptors { s with
      server := v
      openFds := s.openFds.filter fun fd => fd ∉ leftOpen s.server s.garbageCopy
      garbageCopy := [] } := by
  have hold : ∀ d x, v.conns d = some x → s.server.conns d = some x ∧ d ∉ s.garbageCopy := by
    intro d x hx
    rw [destroyAll_conns _ hv d] at hx
    split_ifs at hx with hd
    exact ⟨hx, hd⟩
  refine ⟨fun d x hx hcl => ?_, fun d e x y hx hy => ?_, fun d x hx hcl => ?_, fun d x hx hg => ?_⟩
  · obtain ⟨hx', hd⟩ := hold d x hx
    refine List.mem_filter.mpr ⟨h.isOpen d x hx' hcl, ?_⟩
    rw [decide_eq_true_iff]
    intro hleft
    obtain ⟨e, he, hfd⟩ := List.mem_filterMap.mp hleft
    obtain ⟨y, hy, hyf⟩ := Option.bind_eq_some_iff.mp hfd
    split_ifs at hyf with hyc
    -- the one that closes this number is this connection, which is not destroyed
    have hed : e = d := h.distinct e d y x hy hx' (Bool.eq_false_iff.mpr hyc) hcl (Option.some.inj hyf)
    exact hd (hed ▸ he)
  · exact h.distinct d e x y (hold d x hx).1 (hold e y hy).1
  · obtain ⟨hx', hd⟩ := hold d x hx
    exact .inl ((h.garbaged d x hx' hcl).resolve_right hd)
  · refine h.invalid d x (hold d x hx).1 (hg.imp_right fun hnil => ?_)
    cases hnil

theorem fire (h : Descriptors s) {cb : Callback} {s' : Master} (hs : s.fire cb = .ok s') :
    Descriptors s' ∧ Follows s s' := by
  cases cb with
  | newSlave x =>
    obtain rfl := Except.ok.inj hs
    exact ⟨h.same rfl rfl rfl rfl, .same rfl rfl⟩
  | reactorGc =>
    unfold Master.fire at hs
    cases hv : Master.destroyAll s.server s.garbageCopy with
    | error e => rw [hv] at hs; cases hs
    | ok v =>
      rw [hv] at hs
      obtain rfl := Except.ok.inj hs
      refine ⟨h.destroyAll hv, fun c x hx => ?_⟩
      have hx' : v.conns c = some x := hx
      rw [destroyAll_conns _ hv c] at hx'
      split_ifs at hx'
      exact ⟨x, hx', rfl, fun hi => ⟨hi.valid, hi.locks, hi.job⟩⟩

theorem fireAll (rs : List SyncRequest) : ∀ {s s' : Master}, Descriptors s →
    Master.fireAll s rs = .ok s' → Descriptors s' ∧ Follows s s' := by
  induction rs with
  | nil => intro s s' h hs; cases hs; exact ⟨h, .refl s⟩
  | cons r rs ih =>
    intro s s' h hs
    rw [Master.fireAll] at hs
    cases hf : s.fire r.callback with
    | error e => rw [hf] at hs; cases hs
    | ok s1 =>
      rw [hf] at hs
      obtain ⟨hd1, hfol1⟩ := h.fire hf
      obtain ⟨hd, hfol⟩ := ih hd1 hs
      exact ⟨hd, hfol1.trans hfol⟩

theorem addRequest (h : Descriptors s) {cb : Callback} {s' : Master} (hs : s.addRequest cb = .ok s') :
    Descriptors s' ∧ Follows s s' := by
  unfold Master.addRequest at hs
  dsimp only at hs
  split_ifs at hs
  · exact h.fire hs
  · obtain rfl := Except.ok.inj hs
    exact ⟨h.same rfl rfl rfl rfl, .same rfl rfl⟩

end Descriptors

/-- A connection that was told to close stays so. -/
theorem prim_closing {g : Env} {l : Bool} {w w' : World} (hs : Prim g l w w') (h : w.2.closing = true) :
    w'.2.closing = true := by
  cases hs with
  | chat hc => exact hc.closing h
  | flush t hc => exact hc.closing h
  | create _ _ _ _ hc => exact hc.closing h
  | remove _ _ _ hc => exact hc.closing h
  | unlockAll _ hc => exact hc.closing h
  | obj _ hs =>
    cases hs with
    | chat hc => exact hc.closing h
    | access hc => exact hc.closing h
    | touch _ hc => exact hc.closing h
    | store _ _ _ hc => exact hc.closing h
    | lock _ hc => exact hc.closing h
    | unlock _ _ hc => exact hc.closing h

/-- A command does not make a connection valid. -/
theorem commit_valid {v : Server} {conn : Conn} {ctx : Int} {slaves : List Nat} {r : Cmd} {w : World}
    (h : r.exec (v.env ctx) v.hash (v.session conn slaves) = .ok w) (hv : conn.valid = false) :
    (! w.2.closing) = false := by
  have heff := exec_effects (v.env ctx) r v.hash (v.session conn slaves)
  rw [h] at heff
  have hclosing : (v.session conn slaves).closing = true := by
    show (! conn.valid) = true
    rw [hv]
    rfl
  rw [heff.preserves (fun _ _ _ => prim_closing) hclosing]
  rfl

/-- The accept, for which old connections matter, apart. -/
def isAccept : MasterEvent → Bool
  | .accept _ => true
  | _ => false

section

variable {s s' : Master} {c w : Nat} {conn : Conn}

/-- The end of a receive job. -/
theorem reset_follows (hd : Descriptors s) (hc : s.server.conns c = some conn) {conn' : Conn}
    (hfd : conn'.fd = conn.fd) (hcl : conn'.closed = conn.closed)
    (hval : conn.valid = false → conn'.valid = false) (hs : s.reset w c conn' = .ok s') :
    Descriptors s' ∧ Follows s s' := by
  unfold Master.reset at hs
  cases hu : unlockLoop (s.workers w).ctx false s.server.hash conn'.locks with
  | error e => rw [hu] at hs; cases hs
  | ok m =>
    rw [hu] at hs
    obtain rfl := Except.ok.inj hs
    refine ⟨?_, .finish hc m hfd fun hi => ⟨hval hi.valid, rfl⟩⟩
    have hset : Descriptors (s.setConn c { conn' with locks := [], busy := false }) :=
      hd.setServer hc rfl hfd hcl hval
    exact hset.same rfl rfl rfl rfl

/-- A connection that is removed from the reactor goes to the garbage. -/
theorem Descriptors.remove (hd : Descriptors s) (hc : s.server.conns c = some conn)
    (hv : conn.valid = false) :
    Descriptors { s with resources := s.resources.filter (· ≠ c), garbage := s.garbage ++ [c] } := by
  refine ⟨hd.isOpen, hd.distinct, fun d x hx hcl => ?_, fun d x hx hin => ?_⟩
  · exact (hd.garbaged d x hx hcl).imp_left (List.mem_append_left _)
  · rcases hin with hin | hin
    · rcases List.mem_append.mp hin with hin | hin
      · exact hd.invalid d x hx (.inl hin)
      · rw [List.mem_singleton.mp hin] at hx
        rw [show s.server.conns c = some x from hx, Option.some.injEq] at hc
        exact hc ▸ hv
    · exact hd.invalid d x hx (.inr hin)

/-- The garbage is handed over. -/
theorem Descriptors.fixGarbage (hd : Descriptors s) (hcopy : s.garbageCopy = []) :
    Descriptors { s with garbageCopy := s.garbage, garbage := [] } := by
  refine ⟨hd.isOpen, hd.distinct, fun d x hx hcl => ?_, fun d x hx hin => ?_⟩
  · rcases hd.garbaged d x hx hcl with hin | hin
    · exact .inr hin
    · rw [hcopy] at hin; cases hin
  · rcases hin with hin | hin
    · cases hin
    · exact hd.invalid d x hx (.inl hin)

/-- **Step**: descriptors stay in order and inert connections inert, whatever happens except an
    accept. -/
theorem step_follows (hd : Descriptors s) {e : MasterEvent} (he : isAccept e = false)
    (hs : s.step e = .ok s') : Descriptors s' ∧ Follows s s' := by
  cases moved_of_step hs with
  | idle => exact ⟨hd, .refl s⟩
  | accept hfd => cases he
  | join hs =>
    have hd1 : Descriptors { s with slaves := s.slaves ++ [s.joined], joined := s.joined + 1 } :=
      hd.same rfl rfl rfl rfl
    have hfol1 : Follows s { s with slaves := s.slaves ++ [s.joined], joined := s.joined + 1 } :=
      .same rfl rfl
    obtain ⟨hd', hfol⟩ := hd1.addRequest hs
    exact ⟨hd', hfol1.trans hfol⟩
  | leave x => exact ⟨hd.same rfl rfl rfl rfl, .same rfl rfl⟩
  | @readable c w conn hc hg =>
    have hset : Follows s (s.setConn c { conn with busy := true, slaves := s.slaves }) :=
      .setServer hc rfl rfl fun hi => ⟨hi.valid, hi.locks⟩
    have hdset : Descriptors (s.setConn c { conn with busy := true, slaves := s.slaves }) :=
      hd.setServer hc rfl rfl rfl id
    exact ⟨hdset.same rfl rfl rfl rfl, hset.trans (.setWorker _ w _ fun _ _ hj => nomatch hj)⟩
  | @writable c w conn hc hg =>
    exact ⟨hd.same rfl rfl rfl rfl, .setWorker s w _ fun _ _ hj => nomatch hj⟩
  | invalidate hc =>
    exact ⟨hd.setServer hc rfl rfl rfl fun _ => rfl, .setServer hc rfl rfl fun hi => ⟨rfl, hi.locks⟩⟩
  | remove hc hg => exact ⟨hd.remove hc hg.2, .same rfl rfl⟩
  | @tryClose c conn hc hg =>
    have hset : Follows s (s.setConn c { conn with closed := true }) :=
      .setServer hc rfl rfl fun hi => ⟨hi.valid, hi.locks⟩
    exact ⟨hd.close hc hg.1 hg.2, hset.trans (.same rfl rfl)⟩
  | check hs =>
    have hd1 : Descriptors { s with
        requests := (s.requests.map s.observe).filter fun r => r.waiting ≠ [] } :=
      hd.same rfl rfl rfl rfl
    have hfol1 : Follows s { s with
        requests := (s.requests.map s.observe).filter fun r => r.waiting ≠ [] } := .same rfl rfl
    obtain ⟨hd', hfol⟩ := Descriptors.fireAll _ hd1 hs
    exact ⟨hd', hfol1.trans hfol⟩
  | gcStart hg => exact ⟨hd.same rfl rfl rfl rfl, .same rfl rfl⟩
  | fixGarbage hready hcopy hs =>
    have hfol1 : Follows s { s with garbageCopy := s.garbage, garbage := [] } := .same rfl rfl
    obtain ⟨hd', hfol⟩ := (hd.fixGarbage hcopy).addRequest hs
    exact ⟨hd', hfol1.trans hfol⟩
  | tick now => exact ⟨hd.same rfl rfl rfl rfl, .same rfl rfl⟩
  | @start w c conn hj hc =>
    exact ⟨hd.same rfl rfl rfl rfl, .setWorker s w _ fun _ _ hj => nomatch hj⟩
  | @received w c got conn hj hc hv =>
    refine ⟨hd.same rfl rfl rfl rfl, .setWorker s w _ fun d x hjd hx hi => ?_⟩
    -- data is received on a valid connection
    rw [Option.some.injEq, Job.recv.injEq] at hjd
    obtain ⟨rfl, -⟩ := hjd
    rw [hc, Option.some.injEq] at hx
    subst hx
    rw [hi.valid] at hv
    cases hv
  | @again w c got conn hj hc hv =>
    have hset : Descriptors (s.setConn c { conn with busy := false }) := hd.setServer hc rfl rfl rfl id
    exact ⟨hset.same rfl rfl rfl rfl, .finish hc s.server.hash rfl fun hi => ⟨hi.valid, hi.locks⟩⟩
  | reset hj hc hv hs => refine reset_follows hd hc ?_ ?_ hv hs <;> rfl
  | tooLarge hj hc hs => refine reset_follows hd hc ?_ ?_ (fun _ => ?_) hs <;> rfl
  | @exec w c r conn v hj hc hr =>
    obtain ⟨x, hx, rfl⟩ := RecordsAgree.runCmd_eq_ok hr
    -- the connection executes commands, so it is not inert
    exact ⟨hd.setServer hc rfl rfl rfl (commit_valid hx),
      .setServer hc rfl rfl fun hi => absurd hj (hi.job w)⟩
  | @sent w c ok conn hj hc =>
    have hval : conn.valid = false → (conn.valid && ok) = false := by
      intro hv; rw [hv]; rfl
    have hset : Follows s (s.setConn c { conn with valid := conn.valid && ok }) :=
      .setServer hc rfl rfl fun hi => ⟨hval hi.valid, hi.locks⟩
    have hdset : Descriptors (s.setConn c { conn with valid := conn.valid && ok }) :=
      hd.setServer hc rfl rfl rfl hval
    exact ⟨hdset.same rfl rfl rfl rfl, hset.trans (.setWorker _ w _ fun _ _ hj => nomatch hj)⟩
  | @gcNext t hg =>
    exact ⟨hd.same (s.server.gcStep_conns t) rfl rfl rfl, .same (s.server.gcStep_conns t) rfl⟩

end

/-! ## Clean accepts -/

/-- A new connection is not given the number of a connection that waits as garbage and still holds a
    lock or executes received commands. -/
def cleanAccept (s : Master) : MasterEvent → Bool
  | .accept fd => (s.garbage ++ s.garbageCopy).all fun c =>
    (s.server.conns c).all fun conn => conn.fd != fd ||
      (conn.locks.isEmpty && (List.range s.nWorkers).all fun w => (s.workers w).job != some (.recv c true))
  | _ => true

/-- Of two connections with one number, one is inert. -/
def Alone (s : Master) : Prop :=
  ∀ c d x y, s.server.conns c = some x → s.server.conns d = some y → x.fd = y.fd → c ≠ d →
    s.Inert c x ∨ s.Inert d y

theorem Alone.follows {s s' : Master} (h : Alone s) (hf : Follows s s') : Alone s' := by
  intro c d x y hx hy hfd hne
  obtain ⟨x0, hx0, hxf, hxi⟩ := hf c x hx
  obtain ⟨y0, hy0, hyf, hyi⟩ := hf d y hy
  exact (h c d x0 y0 hx0 hy0 (by rw [← hxf, ← hyf, hfd]) hne).imp hxi hyi

/-- At a clean accept, the connections that had the number before are inert. -/
theorem inert_of_cleanAccept {strict : Prop} {s : Master} {fd : Int} (h : Inv strict s)
    (hd : Descriptors s) (hclean : s.cleanAccept (.accept fd) = true) (hfree : fd ∉ s.openFds) {c : Nat}
    {x : Conn} (hx : s.server.conns c = some x) (hfd : x.fd = fd) : s.Inert c x := by
  -- the number was free, so this connection is closed, hence garbage, hence invalid
  have hclosed : x.closed = true := by
    by_contra hcl
    exact hfree (hfd ▸ hd.isOpen c x hx (Bool.eq_false_iff.mpr hcl))
  have hin := hd.garbaged c x hx hclosed
  have hall := List.all_eq_true.mp hclean c (List.mem_append.mpr hin)
  simp only [hx, Option.all_some, hfd, bne_self_eq_false, Bool.false_or, Bool.and_eq_true,
    List.isEmpty_iff, List.all_eq_true, List.mem_range, bne_iff_ne, ne_eq] at hall
  refine ⟨hd.invalid c x hx hin, hall.1, fun w hj => ?_⟩
  exact hall.2 w (h.wiring.bound w _ hj) hj

section

variable {s : Master} {fd : Int}

/-- The state after an accept. -/
abbrev accept (s : Master) (fd : Int) : Master :=
  { s.setConn s.accepted { fd := fd } with
    accepted := s.accepted + 1
    openFds := fd :: s.openFds
    resources := s.accepted :: s.resources }

/-- A connection after an accept is the new one or an old one. -/
theorem conns_accept {strict : Prop} (h : Inv strict s) {c : Nat} {x : Conn}
    (hx : (s.accept fd).server.conns c = some x) :
    (c = s.accepted ∧ x = { fd := fd }) ∨ (c < s.accepted ∧ s.server.conns c = some x) := by
  by_cases hc : c = s.accepted
  · subst hc
    have hself : (s.accept fd).server.conns s.accepted = some { fd := fd } := Function.update_self ..
    exact .inl ⟨rfl, Option.some.inj (hx.symm.trans hself)⟩
  · have hold : s.server.conns c = some x := (Function.update_of_ne hc ..).symm.trans hx
    refine .inr ⟨?_, hold⟩
    by_contra hge
    rw [h.wiring.fresh c (by omega)] at hold
    cases hold

theorem Descriptors.accept {strict : Prop} (h : Inv strict s) (hd : Descriptors s)
    (hfree : fd ∉ s.openFds) : Descriptors (s.accept fd) := by
  refine ⟨fun c x hx hcl => ?_, fun c d x y hx hy hxc hyc hfd => ?_, fun c x hx hcl => ?_,
    fun c x hx hin => ?_⟩
  · rcases conns_accept h hx with ⟨-, rfl⟩ | ⟨-, hold⟩
    · exact List.mem_cons_self ..
    · exact List.mem_cons_of_mem _ (hd.isOpen c x hold hcl)
  · rcases conns_accept h hx with ⟨rfl, rfl⟩ | ⟨-, hxo⟩ <;>
      rcases conns_accept h hy with ⟨rfl, rfl⟩ | ⟨-, hyo⟩
    · rfl
    · have hyf : fd = y.fd := hfd
      exact absurd (hyf ▸ hd.isOpen d y hyo hyc) hfree
    · have hxf : x.fd = fd := hfd
      exact absurd (hxf ▸ hd.isOpen c x hxo hxc) hfree
    · exact hd.distinct c d x y hxo hyo hxc hyc hfd
  · rcases conns_accept h hx with ⟨-, rfl⟩ | ⟨-, hold⟩
    · cases hcl
    · exact hd.garbaged c x hold hcl
  · rcases conns_accept h hx with ⟨rfl, -⟩ | ⟨-, hold⟩
    · have hlt := h.wiring.named s.accepted (.inr hin)
      omega
    · exact hd.invalid c x hold hin

theorem Alone.accept {strict : Prop} (h : Inv strict s) (hd : Descriptors s) (ha : Alone s)
    (hclean : s.cleanAccept (.accept fd) = true) (hfree : fd ∉ s.openFds) : Alone (s.accept fd) := by
  have hinert : ∀ c x, s.server.conns c = some x → x.fd = fd → (s.accept fd).Inert c x := by
    intro c x hx hfd
    have hi := inert_of_cleanAccept h hd hclean hfree hx hfd
    exact ⟨hi.valid, hi.locks, hi.job⟩
  intro c d x y hx hy hfd hne
  rcases conns_accept h hx with ⟨rfl, rfl⟩ | ⟨-, hxo⟩ <;>
    rcases conns_accept h hy with ⟨rfl, rfl⟩ | ⟨-, hyo⟩
  · exact absurd rfl hne
  · exact .inr (hinert d y hyo hfd.symm)
  · exact .inl (hinert c x hxo hfd)
  · refine (ha c d x y hxo hyo hfd hne).imp ?_ ?_
    · exact fun hi => ⟨hi.valid, hi.locks, hi.job⟩
    · exact fun hi => ⟨hi.valid, hi.locks, hi.job⟩

end

/-- **Step**: with clean accepts, of two connections with one number one stays inert. -/
theorem Alone.step {s s' : Master} {e : MasterEvent} (h : Inv False s) (hd : Descriptors s)
    (ha : Alone s) (hclean : s.cleanAccept e = true) (hs : s.step e = .ok s') :
    Descriptors s' ∧ Alone s' := by
  by_cases he : isAccept e = true
  · cases moved_of_step hs with
    | idle => exact ⟨hd, ha⟩
    | accept hfd =>
      have hfree := (not_or.mp hfd).2
      exact ⟨.accept h hd hfree, .accept h hd ha hclean hfree⟩
    | _ => cases he
  · obtain ⟨hd', hf⟩ := step_follows hd (Bool.eq_false_iff.mpr he) hs
    exact ⟨hd', ha.follows hf⟩

end Master

end Yrmcds.Memcache
