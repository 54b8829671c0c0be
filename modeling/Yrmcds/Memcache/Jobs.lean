/-
  What a job can rely on, and what it cannot: the master process seen from the workers.

  `Wiring` ties workers, connections and the reactor's lists together.  A job's connection has not been
  destroyed: a connection is destroyed only by the request that `fix_garbage` puts to the syncer, which
  waits for every worker that was running then, and a job is posted for registered connections only.
  A receive job that has received data, or whose connection is still valid, has `g_context` set to the
  connection's descriptor.

  `RecordsAgree` (LockTable.lean) holds in every state of every run: each step keeps both records of the
  locks in agreement, whatever descriptors are used again.  What can go wrong is exactly this:

  * a command throws in `remove_lock`, if an object names the connection's descriptor and is not on its
    list — then ANOTHER connection with the same descriptor holds it (`sees_iff_sole`);
  * the `unlock_all` of a receive job throws in `object::unlock`, if the connection was invalid when
    the job started, the worker's `g_context` is another one's and the connection holds locks.
-/
import Yrmcds.Memcache.Master
import Yrmcds.Memcache.LockTable

namespace Yrmcds.Memcache

open ChainTable Ownership Run

/-! ## The records, when a connection changes -/

namespace RecordsAgree

variable {s : Server} {c : Nat} {conn conn' : Conn}

/-- Flags of a connection are not part of the records. -/
theorem setConn (h : RecordsAgree s) (hc : s.conns c = some conn) (hfd : conn'.fd = conn.fd)
    (hl : conn'.locks = conn.locks) :
    RecordsAgree { s with conns := Function.update s.conns c (some conn') } := by
  refine ⟨?_, ?_, h.keys⟩
  · rw [held_update s c _ s.hash, Option.map_some, hfd, hl, ← held_of_conn hc, Function.update_eq_self]
    exact h.table
  · rw [fds_update s c _ s.hash, Option.map_some, hfd, ← fds_of_conn hc, Function.update_eq_self]
    exact h.fd_ne

/-- `unlock_all`, in the context of the connection or without locks. -/
theorem unlockAll (h : RecordsAgree s) (hc : s.conns c = some conn) {ctx : Int}
    (hctx : ctx = conn.fd ∨ conn.locks = []) (conn' : Conn) (hfd : conn'.fd = conn.fd)
    (hl : conn'.locks = []) :
    ∃ m, unlockLoop ctx false s.hash conn.locks = .ok m ∧
      RecordsAgree { s with hash := m, conns := Function.update s.conns c (some conn') } := by
  rcases hctx with rfl | hnil
  · obtain ⟨m, hm, hown, hkeys⟩ := h.unlockLoop_ok hc conn.fd false (.inr rfl)
    refine ⟨m, hm, ?_, ?_, hkeys⟩
    · rw [held_update s c _ m, Option.map_some, hfd, hl]
      show Consistent (owner m) _
      rw [hown]
      exact h.table.dropAll (held_of_conn hc)
    · rw [fds_update s c _ m, Option.map_some, hfd, ← fds_of_conn hc, Function.update_eq_self]
      exact h.fd_ne
  · rw [hnil]
    exact ⟨s.hash, rfl, h.setConn hc hfd (hl.trans hnil.symm)⟩

/-- ... and in another context, with locks. -/
theorem unlockAll_error (h : RecordsAgree s) (hc : s.conns c = some conn) {ctx : Int}
    (hctx : ctx ≠ conn.fd) (hl : conn.locks ≠ []) :
    unlockLoop ctx false s.hash conn.locks = .error .unlockBug := by
  cases hlocks : conn.locks with
  | nil => exact absurd hlocks hl
  | cons a l =>
    -- the first object on the list names the connection, not the context
    have hown : owner s.hash a = some conn.fd :=
      h.table.owned (held_of_conn hc) (by rw [hlocks]; exact List.mem_cons_self)
    obtain ⟨k, p, hp, rfl, hlock, -⟩ := exists_find_of_owner hown
    rw [unlockLoop, s.hash.deref_eq_some_iff.mpr ⟨p, hp, rfl⟩]
    simp only [HashMap.apply_found hp, unlockHandler]
    have hu : p.val.unlock ctx false = .error .unlockBug := by
      unfold Object.unlock
      rw [if_pos]
      have hself : p.val.lockedBySelf ctx = false := by
        rw [Object.lockedBySelf_eq_false, hlock]
        exact hctx.symm
      rw [hself]
      rfl
    rw [hu]

/-- A connection has its view exactly when no other connection with its descriptor holds a lock. -/
theorem sees_iff_sole (h : RecordsAgree s) (hc : s.conns c = some conn) :
    s.Sees conn ↔ ∀ d x, s.conns d = some x → d ≠ c → x.fd = conn.fd → x.locks = [] := by
  constructor
  · intro hsee d x hd hne hfd
    cases hl : x.locks with
    | nil => rfl
    | cons a l =>
      have ha : a ∈ x.locks := by rw [hl]; exact List.mem_cons_self
      have hmine : a ∈ conn.locks := hsee a (by rw [← hfd]; exact h.table.owned (held_of_conn hd) ha)
      exact absurd (h.table.disjoint (held_of_conn hd) (held_of_conn hc) ha hmine) hne
  · intro hsole a ha
    obtain ⟨d, l, hd, hal⟩ := h.table.recorded ha
    obtain ⟨x, hx, hfd, rfl⟩ := held_eq_some.mp hd
    by_cases hdc : d = c
    · subst hdc
      rw [hc, Option.some.injEq] at hx
      exact hx ▸ hal
    · rw [hsole d x hx hdc hfd] at hal
      cases hal

theorem startGc (h : RecordsAgree s) (slaves newSlaves : List Nat) (wall : Int) :
    RecordsAgree (s.startGc slaves newSlaves wall) := ⟨h.table, h.fd_ne, h.keys⟩

end RecordsAgree

/-! ## Workers, connections and garbage -/

namespace Master

/-- What a job may rely on about its connection.  `strict` stands for the assumption that receive jobs
    were started in the context of their connection, or when it held no lock. -/
def JobOk (strict : Prop) (ctx : Int) (conn : Conn) : Job → Prop
  | .posted _ => conn.busy = true
  | .recv _ got => conn.busy = true ∧ (got = true ∨ conn.valid = true → ctx = conn.fd) ∧
      (strict → ctx = conn.fd ∨ conn.locks = [])
  | .send _ => True

/-- How workers, connections, the reactor's lists and the syncer's requests hang together. -/
structure Wiring (strict : Prop) (s : Master) : Prop where
  fresh : ∀ c, s.accepted ≤ c → s.server.conns c = none
  named : ∀ c, c ∈ s.resources ∨ c ∈ s.garbage ∨ c ∈ s.garbageCopy → c < s.accepted
  apart : ∀ c ∈ s.resources, c ∉ s.garbage ∧ c ∉ s.garbageCopy
  bound : ∀ w j, (s.workers w).job = some j → w < s.nWorkers
  jobs : ∀ w j, (s.workers w).job = some j →
    ∃ conn, s.server.conns j.conn = some conn ∧ JobOk strict (s.workers w).ctx conn j
  single : ∀ w w' j j', (s.workers w).job = some j → (s.workers w').job = some j' →
    j.isRecv = true → j'.isRecv = true → j.conn = j'.conn → w = w'
  waits : ∀ w j, (s.workers w).job = some j → j.conn ∈ s.garbageCopy →
    ∀ r ∈ s.requests, r.callback = .reactorGc → w ∈ r.waiting

namespace Wiring

variable {strict : Prop} {s : Master} {c w : Nat} {conn conn' : Conn} {v : Server}

/-- What a change of a connection's flags must respect. -/
structure Keeps (conn conn' : Conn) : Prop where
  fd : conn'.fd = conn.fd
  locks : conn'.locks = conn.locks
  busy : conn.busy = true → conn'.busy = true
  valid : conn'.valid = true → conn.valid = true

variable {ctx : Int} {j : Job}

theorem Keeps.jobOk (h : Keeps conn conn') (hj : JobOk strict ctx conn j) :
    JobOk strict ctx conn' j := by
  cases j with
  | posted c => exact h.busy hj
  | send c => trivial
  | recv c got =>
    rw [JobOk, h.fd, h.locks]
    exact ⟨h.busy hj.1, fun hg => hj.2.1 (hg.imp_right h.valid), hj.2.2⟩

/-- A step that changes the server, and of the connections only one, as the jobs on it allow. -/
theorem setServer (h : Wiring strict s) (hc : s.server.conns c = some conn)
    (hv : v.conns = Function.update s.server.conns c (some conn'))
    (hk : ∀ u j, (s.workers u).job = some j → j.conn = c → JobOk strict (s.workers u).ctx conn j →
      JobOk strict (s.workers u).ctx conn' j) :
    Wiring strict { s with server := v } where
  fresh := by
    intro d hd
    have hne : d ≠ c := by
      rintro rfl
      rw [h.fresh d hd] at hc
      cases hc
    show v.conns d = none
    rw [hv, Function.update_of_ne hne]
    exact h.fresh d hd
  named := h.named
  apart := h.apart
  bound := h.bound
  jobs := by
    intro u j hj
    obtain ⟨x, hx, hok⟩ := h.jobs u j hj
    show ∃ conn, v.conns j.conn = some conn ∧ _
    rw [hv]
    by_cases hjc : j.conn = c
    · rw [hjc, hc, Option.some.injEq] at hx
      subst hx
      exact ⟨conn', by rw [hjc, Function.update_self], hk u j hj hjc hok⟩
    · exact ⟨x, by rw [Function.update_of_ne hjc]; exact hx, hok⟩
  single := h.single
  waits := h.waits

/-- A step of the server that leaves the connections alone. -/
theorem sameConns (h : Wiring strict s) (hv : v.conns = s.server.conns) :
    Wiring strict { s with server := v } where
  fresh := by intro d hd; show v.conns d = none; rw [hv]; exact h.fresh d hd
  named := h.named
  apart := h.apart
  bound := h.bound
  jobs := by intro u j hj; show ∃ conn, v.conns j.conn = some conn ∧ _; rw [hv]; exact h.jobs u j hj
  single := h.single
  waits := h.waits

theorem job_setWorker {x : Worker} {u : Nat} (h : ((s.setWorker w x).workers u).job = some j) :
    (u = w ∧ x.job = some j) ∨ (u ≠ w ∧ (s.workers u).job = some j) := by
  by_cases hu : u = w
  · subst hu
    rw [workers_setWorker_self] at h
    exact .inl ⟨rfl, h⟩
  · rw [workers_setWorker_of_ne s x hu] at h
    exact .inr ⟨hu, h⟩

/-- A job is posted. -/
theorem post (h : Wiring strict s) (hw : w < s.nWorkers)
    (hc : s.server.conns j.conn = some conn) (hok : JobOk strict ctx conn j) (hr : j.conn ∈ s.resources)
    (hother : j.isRecv = true → ∀ u i, (s.workers u).job = some i → i.isRecv = true → i.conn ≠ j.conn) :
    Wiring strict (s.setWorker w { ctx := ctx, job := some j }) where
  fresh := h.fresh
  named := h.named
  apart := h.apart
  bound := by
    intro u i hi
    rcases job_setWorker hi with ⟨rfl, -⟩ | ⟨-, hi'⟩
    · exact hw
    · exact h.bound u i hi'
  jobs := by
    intro u i hi
    rcases job_setWorker hi with ⟨rfl, hij⟩ | ⟨hu, hi'⟩
    · rw [Option.some.injEq] at hij
      subst hij
      refine ⟨conn, hc, ?_⟩
      rw [workers_setWorker_self]
      exact hok
    · rw [workers_setWorker_of_ne s _ hu]
      exact h.jobs u i hi'
  single := by
    intro u u' i i' hi hi' hir hir' hii
    rcases job_setWorker hi with ⟨rfl, he⟩ | ⟨hu, he⟩ <;>
      rcases job_setWorker hi' with ⟨rfl, he'⟩ | ⟨hu', he'⟩
    · rfl
    · rw [Option.some.injEq] at he
      subst he
      exact absurd hii.symm (hother hir u' i' he' hir')
    · rw [Option.some.injEq] at he'
      subst he'
      exact absurd hii (hother hir' u i he hir)
    · exact h.single u u' i i' he he' hir hir' hii
  waits := by
    intro u i hi hg r hreq hcb
    rcases job_setWorker hi with ⟨rfl, he⟩ | ⟨-, he⟩
    · -- a registered connection is not garbage
      rw [Option.some.injEq] at he
      subst he
      exact absurd hg (h.apart _ hr).2
    · exact h.waits u i he hg r hreq hcb

/-- A job goes on. -/
theorem advance (h : Wiring strict s) {i : Job} (hj : (s.workers w).job = some j)
    (hi : i.conn = j.conn) (hr : i.isRecv = j.isRecv) (hc : s.server.conns j.conn = some conn)
    (hok : JobOk strict ctx conn i) : Wiring strict (s.setWorker w { ctx := ctx, job := some i }) where
  fresh := h.fresh
  named := h.named
  apart := h.apart
  bound := by
    intro u k hk
    rcases job_setWorker hk with ⟨rfl, -⟩ | ⟨-, hk'⟩
    · exact h.bound u j hj
    · exact h.bound u k hk'
  jobs := by
    intro u k hk
    rcases job_setWorker hk with ⟨rfl, he⟩ | ⟨hu, hk'⟩
    · rw [Option.some.injEq] at he
      subst he
      refine ⟨conn, by rw [hi]; exact hc, ?_⟩
      rw [workers_setWorker_self]
      exact hok
    · rw [workers_setWorker_of_ne s _ hu]
      exact h.jobs u k hk'
  single := by
    intro u u' k k' hk hk' hkr hkr' hkk
    -- in both places the new job stands for the old one
    have hold : ∀ x l, ((s.setWorker w { ctx := ctx, job := some i }).workers x).job = some l →
        ∃ l', (s.workers x).job = some l' ∧ l'.conn = l.conn ∧ l'.isRecv = l.isRecv := by
      intro x l hl
      rcases job_setWorker hl with ⟨rfl, he⟩ | ⟨-, he⟩
      · rw [Option.some.injEq] at he
        subst he
        exact ⟨j, hj, hi.symm, hr.symm⟩
      · exact ⟨l, he, rfl, rfl⟩
    obtain ⟨l, hl, hlc, hlr⟩ := hold u k hk
    obtain ⟨l', hl', hlc', hlr'⟩ := hold u' k' hk'
    exact h.single u u' l l' hl hl' (hlr.trans hkr) (hlr'.trans hkr') (by rw [hlc, hlc', hkk])
  waits := by
    intro u k hk hg r hreq hcb
    rcases job_setWorker hk with ⟨rfl, he⟩ | ⟨-, he⟩
    · rw [Option.some.injEq] at he
      subst he
      exact h.waits u j hj (hi ▸ hg) r hreq hcb
    · exact h.waits u k he hg r hreq hcb

/-- A worker becomes idle. -/
theorem idle (h : Wiring strict s) (ctx : Int) :
    Wiring strict (s.setWorker w { ctx := ctx, job := none }) where
  fresh := h.fresh
  named := h.named
  apart := h.apart
  bound := by
    intro u k hk
    rcases job_setWorker hk with ⟨-, he⟩ | ⟨-, hk'⟩
    · cases he
    · exact h.bound u k hk'
  jobs := by
    intro u k hk
    rcases job_setWorker hk with ⟨-, he⟩ | ⟨hu, hk'⟩
    · cases he
    · rw [workers_setWorker_of_ne s _ hu]
      exact h.jobs u k hk'
  single := by
    intro u u' k k' hk hk'
    rcases job_setWorker hk with ⟨-, he⟩ | ⟨-, he⟩
    · cases he
    rcases job_setWorker hk' with ⟨-, he'⟩ | ⟨-, he'⟩
    · cases he'
    exact h.single u u' k k' he he'
  waits := by
    intro u k hk
    rcases job_setWorker hk with ⟨-, he⟩ | ⟨-, he⟩
    · cases he
    · exact h.waits u k he

/-- A receive job ends: its worker is idle and its connection not busy any more. -/
theorem finish (h : Wiring strict s) (hj : (s.workers w).job = some j) (hr : j.isRecv = true)
    (hc : s.server.conns j.conn = some conn) (ctx : Int)
    (hv : v.conns = Function.update s.server.conns j.conn (some conn')) :
    Wiring strict (setWorker { s with server := v } w { ctx := ctx, job := none }) where
  fresh := by
    intro d hd
    have hne : d ≠ j.conn := by
      rintro rfl
      rw [h.fresh _ hd] at hc
      cases hc
    show v.conns d = none
    rw [hv, Function.update_of_ne hne]
    exact h.fresh d hd
  named := h.named
  apart := h.apart
  bound := (h.idle ctx).bound
  jobs := by
    intro u k hk
    obtain ⟨x, hx, hok⟩ := (h.idle (w := w) ctx).jobs u k hk
    rcases job_setWorker hk with ⟨-, he⟩ | ⟨hu, he⟩
    · cases he
    show ∃ conn, v.conns k.conn = some conn ∧ _
    rw [hv]
    by_cases hkc : k.conn = j.conn
    · -- another job on this connection is a send job
      refine ⟨conn', by rw [hkc, Function.update_self], ?_⟩
      cases k with
      | send c => trivial
      | posted c => exact absurd (h.single u w _ _ he hj rfl hr hkc) hu
      | recv c got => exact absurd (h.single u w _ _ he hj rfl hr hkc) hu
    · exact ⟨x, by rw [Function.update_of_ne hkc]; exact hx, hok⟩
  single := (h.idle ctx).single
  waits := (h.idle ctx).waits

/-- No job runs on a connection that is still to be accepted. -/
theorem conn_ne_accepted (h : Wiring strict s) (hj : (s.workers w).job = some j) :
    j.conn ≠ s.accepted := by
  intro heq
  obtain ⟨x, hx, -⟩ := h.jobs w j hj
  rw [heq, h.fresh _ (Nat.le_refl _)] at hx
  cases hx

/-- A receive job keeps its connection busy. -/
theorem busy (h : Wiring strict s) (hj : (s.workers w).job = some j) (hr : j.isRecv = true)
    (hc : s.server.conns j.conn = some conn) : conn.busy = true := by
  obtain ⟨x, hx, hok⟩ := h.jobs w j hj
  obtain rfl := Option.some.inj (hc.symm.trans hx)
  cases j with
  | posted d => exact hok
  | recv d got => exact hok.1
  | send d => cases hr

/-- A connection is accepted: the name is new. -/
theorem accept (h : Wiring strict s) (conn : Conn) (fds : List Int) :
    Wiring strict { s with
      server := { s.server with conns := Function.update s.server.conns s.accepted (some conn) }
      accepted := s.accepted + 1, resources := s.accepted :: s.resources, openFds := fds } where
  fresh := by
    intro c hc
    have hne : c ≠ s.accepted := Nat.ne_of_gt hc
    show Function.update s.server.conns s.accepted _ c = none
    rw [Function.update_of_ne hne]
    exact h.fresh c (Nat.le_of_succ_le hc)
  named := by
    rintro c (hc | hc | hc)
    · rcases List.mem_cons.mp hc with rfl | hc
      · exact Nat.lt_succ_self _
      · exact Nat.lt_succ_of_lt (h.named c (.inl hc))
    · exact Nat.lt_succ_of_lt (h.named c (.inr (.inl hc)))
    · exact Nat.lt_succ_of_lt (h.named c (.inr (.inr hc)))
  apart := by
    intro c hc
    rcases List.mem_cons.mp hc with rfl | hc
    · exact ⟨fun hg => Nat.lt_irrefl _ (h.named _ (.inr (.inl hg))),
        fun hg => Nat.lt_irrefl _ (h.named _ (.inr (.inr hg)))⟩
    · exact h.apart c hc
  bound := h.bound
  jobs := by
    intro u j hj
    obtain ⟨x, hx, hok⟩ := h.jobs u j hj
    exact ⟨x, (Function.update_of_ne (h.conn_ne_accepted hj) ..).trans hx, hok⟩
  single := h.single
  waits := h.waits

/-- `remove_resource`: from the registered connections to the garbage. -/
theorem remove (h : Wiring strict s) (hreg : c ∈ s.resources) :
    Wiring strict { s with
      resources := s.resources.filter (· ≠ c), garbage := s.garbage ++ [c] } where
  fresh := h.fresh
  named := by
    rintro d (hd | hd | hd)
    · exact h.named d (.inl (List.mem_of_mem_filter hd))
    · rcases List.mem_append.mp hd with hd | hd
      · exact h.named d (.inr (.inl hd))
      · rw [List.mem_singleton.mp hd]
        exact h.named c (.inl hreg)
    · exact h.named d (.inr (.inr hd))
  apart := by
    intro d hd
    obtain ⟨hd, hne⟩ := List.mem_filter.mp hd
    refine ⟨fun hm => ?_, (h.apart d hd).2⟩
    rcases List.mem_append.mp hm with hm | hm
    · exact (h.apart d hd).1 hm
    · exact absurd (List.mem_singleton.mp hm) (of_decide_eq_true hne)
  bound := h.bound
  jobs := h.jobs
  single := h.single
  waits := h.waits

/-- `fix_garbage`, before it asks the syncer: from the garbage to the copy. -/
theorem fixGarbage (h : Wiring strict s) (hnil : s.requests = []) :
    Wiring strict { s with garbageCopy := s.garbage, garbage := [] } where
  fresh := h.fresh
  named := by
    rintro d (hd | hd | hd)
    · exact h.named d (.inl hd)
    · cases hd
    · exact h.named d (.inr (.inl hd))
  apart := fun d hd => ⟨List.not_mem_nil, (h.apart d hd).1⟩
  bound := h.bound
  jobs := h.jobs
  single := h.single
  waits := by
    intro u j _ _ r hr
    have hr' : r ∈ s.requests := hr
    rw [hnil] at hr'
    cases hr'

end Wiring

/-- The invariant of the master, for every run. -/
structure Inv (strict : Prop) (s : Master) : Prop where
  agree : RecordsAgree s.server
  wiring : Wiring strict s
  pending : s.garbageCopy ≠ [] → ∃ r ∈ s.requests, r.callback = .reactorGc

/-! ### The syncer -/

/-- The destructors take the connections away. -/
theorem destroyAll_conns (cs : List Nat) : ∀ {v v' : Server}, destroyAll v cs = .ok v' →
    ∀ c, v'.conns c = if c ∈ cs then none else v.conns c := by
  induction cs with
  | nil => intro v v' h c; cases h; simp
  | cons d cs ih =>
    intro v v' h c
    cases hd : v.conns d with
    | none =>
      simp only [destroyAll, hd] at h
      rw [ih h c]
      by_cases hc : c = d
      · rw [hc, hd]; simp
      · simp [hc]
    | some conn =>
      simp only [destroyAll, hd, Server.destroy] at h
      cases hu : unlockLoop conn.fd true v.hash conn.locks with
      | error e => rw [hu] at h; cases h
      | ok m =>
        rw [hu] at h
        rw [ih h c]
        by_cases hc : c = d
        · rw [hc]; simp
        · simp [hc]

theorem destroyAll_ok (cs : List Nat) : ∀ {v : Server}, RecordsAgree v →
    ∃ v', destroyAll v cs = .ok v' ∧ RecordsAgree v' := by
  induction cs with
  | nil => intro v h; exact ⟨v, rfl, h⟩
  | cons d cs ih =>
    intro v h
    cases hd : v.conns d with
    | none => simp only [destroyAll, hd]; exact ih h
    | some conn =>
      obtain ⟨v1, hv1, hag1, -⟩ := h.destroy hd
      simp only [destroyAll, hd, hv1]
      exact ih hag1

/-- No job runs on what is about to be destroyed. -/
def Unused (s : Master) : Prop := ∀ w j, (s.workers w).job = some j → j.conn ∉ s.garbageCopy

/-- A callback is made: a new slave is confirmed, or the garbage is destroyed. -/
theorem fire_ok {strict : Prop} {s : Master} (hag : RecordsAgree s.server) (hw : Wiring strict s)
    (cb : Callback)
    (hu : cb = .reactorGc → s.Unused) :
    ∃ s', s.fire cb = .ok s' ∧ RecordsAgree s'.server ∧ Wiring strict s' ∧ s'.requests = s.requests ∧
      ((cb = .reactorGc ∧ s'.garbageCopy = []) ∨
        (cb ≠ .reactorGc ∧ s'.garbageCopy = s.garbageCopy ∧ s'.workers = s.workers)) := by
  cases cb with
  | newSlave x =>
    exact ⟨_, rfl, hag, { hw with }, rfl, .inr ⟨by simp, rfl, rfl⟩⟩
  | reactorGc =>
    obtain ⟨v, hv, hagv⟩ := destroyAll_ok s.garbageCopy hag
    have hconns := destroyAll_conns _ hv
    rw [fire, hv]
    refine ⟨_, rfl, hagv, ⟨?_, ?_, ?_, hw.bound, ?_, hw.single, ?_⟩, rfl, .inl ⟨rfl, rfl⟩⟩
    · intro c hc
      show v.conns c = none
      rw [hconns c, hw.fresh c hc, ite_self]
    · rintro c (hc | hc | hc)
      · exact hw.named c (.inl hc)
      · exact hw.named c (.inr (.inl hc))
      · cases hc
    · intro c hc
      exact ⟨(hw.apart c hc).1, by simp⟩
    · intro w j hj
      obtain ⟨conn, hc, hok⟩ := hw.jobs w j hj
      refine ⟨conn, ?_, hok⟩
      show v.conns j.conn = some conn
      rw [hconns, if_neg (hu rfl w j hj), hc]
    · intro w j _ hg
      cases hg

/-- The ready requests are fired one after the other. -/
theorem fireAll_ok {strict : Prop} (rs : List SyncRequest) : ∀ {s : Master}, RecordsAgree s.server →
    Wiring strict s →
    (s.garbageCopy ≠ [] → ∃ r ∈ s.requests ++ rs, r.callback = .reactorGc) →
    (∀ r ∈ rs, r.callback = .reactorGc → s.Unused) → ∃ s', fireAll s rs = .ok s' ∧ Inv strict s' := by
  induction rs with
  | nil =>
    intro s hag hw hp _
    rw [List.append_nil] at hp
    exact ⟨s, rfl, hag, hw, hp⟩
  | cons r rs ih =>
    intro s hag hw hp hu
    obtain ⟨s1, hs1, hag1, hw1, hreq, hcase⟩ := fire_ok hag hw r.callback (hu r List.mem_cons_self)
    rw [fireAll, hs1]
    refine ih hag1 hw1 ?_ ?_
    · intro hne
      rcases hcase with ⟨-, hnil⟩ | ⟨hcb, hgc, -⟩
      · exact absurd hnil hne
      · rw [hgc] at hne
        obtain ⟨x, hx, hxc⟩ := hp hne
        refine ⟨x, ?_, hxc⟩
        rw [hreq]
        rcases List.mem_append.mp hx with hx | hx
        · exact List.mem_append_left _ hx
        · rcases List.mem_cons.mp hx with rfl | hx
          · exact absurd hxc hcb
          · exact List.mem_append_right _ hx
    · intro x hx hxc
      rcases hcase with ⟨-, hnil⟩ | ⟨-, hgc, hwk⟩
      · intro w j _; rw [hnil]; exact List.not_mem_nil
      · intro w j hj
        rw [hwk] at hj
        rw [hgc]
        exact hu x (List.mem_cons_of_mem _ hx) hxc w j hj

theorem running_of_job {s : Master} {w : Nat} {j : Job} (h : (s.workers w).job = some j) :
    s.running w = true := by
  unfold running; rw [h]; rfl

/-- One look at the workers: a request that waits for a worker with a job goes on waiting. -/
theorem check_ok {strict : Prop} {s : Master} (h : Inv strict s) :
    ∃ s', s.check = .ok s' ∧ Inv strict s' := by
  unfold check
  have hobs : ∀ r ∈ s.requests.map s.observe, ∃ r0 ∈ s.requests, r = s.observe r0 := by
    intro r hr
    obtain ⟨r0, hr0, rfl⟩ := List.mem_map.mp hr
    exact ⟨r0, hr0, rfl⟩
  -- a worker with a job on garbage is still waited for
  have hwait : ∀ w j, (s.workers w).job = some j → j.conn ∈ s.garbageCopy →
      ∀ r ∈ s.requests.map s.observe, r.callback = .reactorGc → w ∈ r.waiting := by
    intro w j hj hg r hr hcb
    obtain ⟨r0, hr0, rfl⟩ := hobs r hr
    exact List.mem_filter.mpr ⟨h.wiring.waits w j hj hg r0 hr0 hcb, running_of_job hj⟩
  refine fireAll_ok _ h.agree { h.wiring with waits := ?_ } ?_ ?_
  · intro w j hj hg r hr
    exact hwait w j hj hg r (List.mem_of_mem_filter hr)
  · intro hne
    obtain ⟨r, hr, hcb⟩ := h.pending hne
    refine ⟨s.observe r, ?_, hcb⟩
    have hmem := List.mem_map_of_mem (f := s.observe) hr
    by_cases hnil : (s.observe r).waiting = []
    · exact List.mem_append_right _ (List.mem_filter.mpr ⟨hmem, by simpa using hnil⟩)
    · exact List.mem_append_left _ (List.mem_filter.mpr ⟨hmem, by simpa using hnil⟩)
  · intro r hr hcb w j hj hg
    have hin := hwait w j hj hg r (List.mem_of_mem_filter hr) hcb
    have hnil : r.waiting = [] := by simpa using (List.mem_filter.mp hr).2
    rw [hnil] at hin
    cases hin

/-- A request is put: it waits for the workers that run now. -/
theorem addRequest_ok {strict : Prop} {s : Master} (hag : RecordsAgree s.server) (hw : Wiring strict s)
    (cb : Callback)
    (hp : s.garbageCopy ≠ [] → cb = .reactorGc ∨ ∃ r ∈ s.requests, r.callback = .reactorGc) :
    ∃ s', s.addRequest cb = .ok s' ∧ Inv strict s' := by
  unfold addRequest
  by_cases hnil : (List.range s.nWorkers).filter s.running = []
  · -- nobody runs: the callback is made at once
    rw [if_pos hnil]
    have hunused : s.Unused := by
      intro w j hj
      have hin : w ∈ (List.range s.nWorkers).filter s.running :=
        List.mem_filter.mpr ⟨List.mem_range.mpr (hw.bound w j hj), running_of_job hj⟩
      rw [hnil] at hin
      cases hin
    obtain ⟨s', hs', hag', hw', hreq, hcase⟩ := fire_ok hag hw cb fun _ => hunused
    refine ⟨s', hs', hag', hw', fun hne => ?_⟩
    rcases hcase with ⟨-, hnil⟩ | ⟨hcb, hgc, -⟩
    · exact absurd hnil hne
    · rw [hreq]
      exact (hp (hgc ▸ hne)).resolve_left hcb
  · rw [if_neg hnil]
    refine ⟨_, rfl, hag, { hw with waits := ?_ }, ?_⟩
    · intro w j hj hg r hr hcb
      rcases List.mem_append.mp hr with hr | hr
      · exact hw.waits w j hj hg r hr hcb
      · rw [List.mem_singleton.mp hr]
        exact List.mem_filter.mpr ⟨List.mem_range.mpr (hw.bound w j hj), running_of_job hj⟩
    · intro hne
      rcases hp hne with rfl | ⟨r, hr, hcb⟩
      · exact ⟨_, List.mem_append_right _ List.mem_cons_self, rfl⟩
      · exact ⟨r, List.mem_append_left _ hr, hcb⟩

/-! ### Steps -/

/-- The two ways a step can fail. -/
inductive Fails (s : Master) : MasterEvent → Err → Prop
  | exec {w c : Nat} {conn : Conn} {r : Cmd} (hj : (s.workers w).job = some (.recv c true))
      (hc : s.server.conns c = some conn) (hsee : ¬ s.server.Sees conn) :
      Fails s (.exec w r) .removeLockBug
  | reset {w c : Nat} {got : Bool} {conn : Conn} (hj : (s.workers w).job = some (.recv c got))
      (hc : s.server.conns c = some conn) (hctx : (s.workers w).ctx ≠ conn.fd) (hl : conn.locks ≠ []) :
      Fails s (.receive w .RESET) .unlockBug

/-- A receive job is started while its connection is valid, or on a worker whose `g_context` is its
    descriptor already, or when it holds no lock. -/
def startInContext (s : Master) : MasterEvent → Bool
  | .start w =>
    match (s.workers w).job with
    | some (.posted c) => (s.server.conns c).all fun conn =>
      conn.valid || (s.workers w).ctx == conn.fd || conn.locks.isEmpty
    | _ => true
  | _ => true

theorem startInContext_start (s : Master) (w : Nat) :
    s.startInContext (.start w) = true ↔ ∀ c conn, (s.workers w).job = some (.posted c) →
      s.server.conns c = some conn →
      conn.valid = true ∨ (s.workers w).ctx = conn.fd ∨ conn.locks = [] := by
  rw [startInContext]
  split
  · rename_i c hj
    rw [hj, Option.all_eq_true]
    simp only [Option.some.injEq, Job.posted.injEq, Bool.or_eq_true, beq_iff_eq, List.isEmpty_iff, or_assoc]
    constructor
    · rintro h d conn rfl hc; exact h conn hc
    · intro h conn hc; exact h c conn rfl hc
  · rename_i hj
    exact ⟨fun _ c conn hp => absurd hp (hj c), fun _ => rfl⟩

/-- A step keeps the invariant or fails in one of these ways. -/
def Outcome (strict : Prop) (s : Master) (e : MasterEvent) : Except Err Master → Prop
  | .ok s' => Inv strict s'
  | .error x => Fails s e x

namespace Inv

variable {strict : Prop} {s : Master} {c w : Nat} {conn conn' : Conn}

/-- A step that concerns neither records nor wiring. -/
theorem setConn (h : Inv strict s) (hc : s.server.conns c = some conn) (conn' : Conn)
    (hk : Wiring.Keeps conn conn') :
    Inv strict (s.setConn c conn') :=
  ⟨h.agree.setConn hc hk.fd hk.locks, h.wiring.setServer hc rfl fun _ _ _ _ => hk.jobOk, h.pending⟩

/-- The connection of a job. -/
theorem conn_of_job (h : Inv strict s) {j : Job} (hj : (s.workers w).job = some j) :
    ∃ conn, s.server.conns j.conn = some conn ∧ JobOk strict (s.workers w).ctx conn j :=
  h.wiring.jobs w j hj

theorem finish (h : Inv strict s) {j : Job} (hj : (s.workers w).job = some j) (hr : j.isRecv = true)
    (hc : s.server.conns j.conn = some conn) : Inv strict (s.finish w j.conn conn) :=
  ⟨h.agree.setConn hc rfl rfl, h.wiring.finish hj hr hc _ rfl, h.pending⟩

/-- `unlock_all` and the end of the job, in the right context or without locks. -/
theorem reset (h : Inv strict s) {j : Job} (hj : (s.workers w).job = some j) (hr : j.isRecv = true)
    (hc : s.server.conns j.conn = some conn) (conn' : Conn) (hfd : conn'.fd = conn.fd)
    (hl : conn'.locks = conn.locks) (hctx : (s.workers w).ctx = conn.fd ∨ conn.locks = []) :
    ∃ s', s.reset w j.conn conn' = .ok s' ∧ Inv strict s' := by
  obtain ⟨m, hm, hag⟩ := h.agree.unlockAll hc hctx { conn' with locks := [], busy := false } hfd rfl
  rw [Master.reset, hl, hm]
  exact ⟨_, rfl, hag, h.wiring.finish hj hr hc _ rfl, h.pending⟩

/-- ... and in the wrong one. -/
theorem reset_error (h : Inv strict s) (hc : s.server.conns c = some conn) (conn' : Conn)
    (hl : conn'.locks = conn.locks)
    (hctx : (s.workers w).ctx ≠ conn.fd) (hne : conn.locks ≠ []) :
    s.reset w c conn' = .error .unlockBug := by
  rw [Master.reset, hl, h.agree.unlockAll_error hc hctx hne]

theorem receive (h : Inv strict s) {got : Bool} (hj : (s.workers w).job = some (.recv c got))
    (hc : s.server.conns c = some conn) (hok : JobOk strict (s.workers w).ctx conn (.recv c got))
    (res : RecvResult) : Outcome strict s (.receive w res) (s.receive w c conn res) := by
  cases res with
  | OK =>
    rw [Master.receive]
    by_cases hv : conn.valid = true
    · rw [if_pos hv]
      exact ⟨h.agree, h.wiring.advance hj rfl rfl hc ⟨hok.1, fun _ => hok.2.1 (.inr hv), hok.2.2⟩, h.pending⟩
    · rw [if_neg hv]; exact h
  | AGAIN =>
    rw [Master.receive]
    by_cases hv : conn.valid = true
    · rw [if_pos hv]; exact h.finish hj rfl hc
    · rw [if_neg hv]; exact h
  | RESET =>
    show Outcome strict s _ (s.reset w c { conn with valid := false })
    by_cases hctx : (s.workers w).ctx = conn.fd ∨ conn.locks = []
    · obtain ⟨s', hs', hinv⟩ := h.reset hj rfl hc { conn with valid := false } rfl rfl hctx
      rw [show (Job.recv c got).conn = c from rfl] at hs'
      rw [hs']
      exact hinv
    · obtain ⟨hne, hl⟩ := not_or.mp hctx
      rw [h.reset_error hc { conn with valid := false } rfl hne hl]
      exact .reset hj hc hne hl
  | NONE =>
    rw [Master.receive]
    by_cases hv : conn.valid = true
    · obtain ⟨s', hs', hinv⟩ := h.reset hj rfl hc conn rfl rfl (.inl (hok.2.1 (.inr hv)))
      rw [show (Job.recv c got).conn = c from rfl] at hs'
      rw [if_pos hv, hs']
      exact hinv
    · rw [if_neg hv]; exact h

theorem exec (h : Inv strict s) (hj : (s.workers w).job = some (.recv c true))
    (hc : s.server.conns c = some conn) (hctx : (s.workers w).ctx = conn.fd) (r : Cmd) :
    Outcome strict s (.exec w r)
      (match s.server.runCmd c conn (s.workers w).ctx conn.slaves r with
        | .ok v => .ok { s with server := v }
        | .error e => .error e) := by
  rw [hctx]
  cases hr : s.server.runCmd c conn conn.fd conn.slaves r with
  | error e =>
    obtain ⟨rfl, hsee⟩ := h.agree.runCmd_error hc hr
    exact .exec hj hc hsee
  | ok v =>
    refine ⟨h.agree.runCmd hc hr, ?_, h.pending⟩
    -- a command can make the connection invalid, not valid
    obtain ⟨x, hx, rfl⟩ := RecordsAgree.runCmd_eq_ok hr
    refine h.wiring.setServer hc rfl fun u j hju hjc hok => ?_
    cases j with
    | posted d => exact hok
    | send d => trivial
    | recv d got =>
      -- the only receive job on this connection is the one that executes the command
      have hu : u = w := h.wiring.single u w _ _ hju hj rfl rfl hjc
      rw [hu]
      exact ⟨hok.1, fun _ => hctx, fun _ => .inl hctx⟩

/-- `on_readable`: a receive job is posted, and the connection is busy from now on. -/
theorem readable (h : Inv strict s) (c w : Nat) :
    Outcome strict s (.readable c w) (s.step (.readable c w)) := by
  rw [Master.step]
  cases hc : s.server.conns c with
  | none => exact h
  | some conn =>
    dsimp only
    split_ifs with hg
    · obtain ⟨hres, hlt, hidle, hbusy⟩ := hg
      have hset := h.setConn hc { conn with busy := true, slaves := s.slaves }
        ⟨rfl, rfl, fun _ => rfl, id⟩
      refine ⟨hset.agree, ?_, hset.pending⟩
      have hself : (s.setConn c { conn with busy := true, slaves := s.slaves }).server.conns c
          = some { conn with busy := true, slaves := s.slaves } := Function.update_self ..
      refine hset.wiring.post hlt hself rfl hres ?_
      -- a receive job on this connection would have made it busy
      intro _ u i hi hir hic
      rw [h.wiring.busy hi hir (by rw [show i.conn = c from hic]; exact hc)] at hbusy
      cases hbusy
    · exact h

/-- `fix_garbage`: it is called only when the syncer has no request, so the garbage of the last call has
    been dealt with. -/
theorem fixGarbage (h : Inv strict s) : Outcome strict s .fixGarbage (s.step .fixGarbage) := by
  rw [Master.step]
  split_ifs with hready hcopy
  · exact h
  · -- unfinished garbage has its request in the syncer
    obtain ⟨r, hr, -⟩ := h.pending hcopy
    exact absurd (List.ne_nil_of_mem hr) fun hne => hready (.inr (.inl hne))
  · have hnil : s.requests = [] := by
      by_contra hne
      exact hready (.inr (.inl hne))
    obtain ⟨s', hs', hinv⟩ := addRequest_ok (s := { s with garbageCopy := s.garbage, garbage := [] })
      h.agree (h.wiring.fixGarbage hnil) .reactorGc fun _ => .inl rfl
    rw [hs']
    exact hinv

/-- A posted job starts: in the context of its connection, if that is valid. -/
theorem start (h : Inv strict s) (w : Nat) (hst : strict → s.startInContext (.start w) = true) :
    Outcome strict s (.start w) (s.step (.start w)) := by
  rw [Master.step]
  split
  · rename_i c hj
    obtain ⟨conn, hc, hok⟩ := h.conn_of_job hj
    rw [Master.onConn_of_conn (c := c) hc]
    refine ⟨h.agree, h.wiring.advance hj rfl rfl hc ⟨hok, ?_, ?_⟩, h.pending⟩
    · rintro (hg | hv)
      · cases hg
      · exact if_pos hv
    · intro hstrict
      by_cases hv : conn.valid = true
      · exact .inl (if_pos hv)
      · rw [if_neg hv]
        exact ((s.startInContext_start w).mp (hst hstrict) c conn hj hc).resolve_left hv
  · exact h

/-- **Step**: the invariant is kept, or the step fails in one of the two ways. -/
theorem step_outcome (h : Inv strict s) (e : MasterEvent) (hst : strict → s.startInContext e = true) :
    Outcome strict s e (s.step e) := by
  have hw := h.wiring
  cases e with
  | accept fd =>
    rw [Master.step]
    by_cases hfd : fd < 0 ∨ fd ∈ s.openFds
    · rw [if_pos hfd]; exact h
    · rw [if_neg hfd]
      exact ⟨h.agree.accept (hw.fresh _ (Nat.le_refl _)) rfl (Int.not_lt.mp (not_or.mp hfd).1),
        hw.accept _ _, h.pending⟩
  | join =>
    rw [Master.step]
    split_ifs
    · exact h
    · obtain ⟨s', hs', hinv⟩ := addRequest_ok
        (s := { s with slaves := s.slaves ++ [s.joined], joined := s.joined + 1 }) h.agree
        { hw with } (.newSlave s.joined) fun hne => .inr (h.pending hne)
      rw [hs']
      exact hinv
  | leave x =>
    exact ⟨h.agree, { hw with }, h.pending⟩
  | readable c w => exact h.readable c w
  | writable c w =>
    rw [Master.step]
    cases hc : s.server.conns c with
    | none => exact h
    | some conn =>
      dsimp only
      split_ifs with hg
      · exact ⟨h.agree, hw.post hg.2.1 hc trivial hg.1 (fun hr => absurd hr Bool.false_ne_true), h.pending⟩
      · exact h
  | invalidate c =>
    rw [Master.step]
    cases hc : s.server.conns c with
    | none => exact h
    | some conn => exact h.setConn hc _ ⟨rfl, rfl, id, fun hv => absurd hv Bool.false_ne_true⟩
  | remove c =>
    rw [Master.step]
    cases hc : s.server.conns c with
    | none => exact h
    | some conn =>
      dsimp only
      split_ifs with hg
      · exact ⟨h.agree, hw.remove hg.1, h.pending⟩
      · exact h
  | tryClose c =>
    rw [Master.step]
    cases hc : s.server.conns c with
    | none => exact h
    | some conn =>
      dsimp only
      split_ifs
      · have hset := h.setConn hc { conn with closed := true } ⟨rfl, rfl, id, id⟩
        have hw' := hset.wiring
        exact ⟨hset.agree, { hw' with }, hset.pending⟩
      · exact h
  | check =>
    obtain ⟨s', hs', hinv⟩ := check_ok h
    rw [Master.step, hs']
    exact hinv
  | gcStart wall =>
    rw [Master.step]
    cases s.server.gc with
    | some t => exact h
    | none =>
      exact ⟨h.agree.startGc _ _ _, { hw with }, h.pending⟩
  | fixGarbage => exact h.fixGarbage
  | tick now =>
    exact ⟨⟨h.agree.table, h.agree.fd_ne, h.agree.keys⟩, hw.sameConns rfl, h.pending⟩
  | start w => exact h.start w hst
  | receive w res =>
    rw [Master.step]
    split
    · rename_i c got hj
      obtain ⟨conn, hc, hok⟩ := h.conn_of_job hj
      rw [Master.onConn_of_conn (c := c) hc]
      exact h.receive hj hc hok res
    · exact h
  | exec w r =>
    rw [Master.step]
    split
    · rename_i c hj
      obtain ⟨conn, hc, hok⟩ := h.conn_of_job hj
      rw [Master.onConn_of_conn (c := c) hc]
      exact h.exec hj hc (hok.2.1 (.inl rfl)) r
    · exact h
  | tooLarge w =>
    rw [Master.step]
    split
    · rename_i c hj
      obtain ⟨conn, hc, hok⟩ := h.conn_of_job hj
      obtain ⟨s', hs', hinv⟩ := h.reset hj rfl hc { conn with valid := false } rfl rfl
        (.inl (hok.2.1 (.inl rfl)))
      rw [Master.onConn_of_conn (c := c) hc]
      rw [show (Job.recv c true).conn = c from rfl] at hs'
      rw [hs']
      exact hinv
    · exact h
  | sent w ok =>
    rw [Master.step]
    split
    · rename_i c hj
      obtain ⟨conn, hc, -⟩ := h.conn_of_job hj
      rw [Master.onConn_of_conn (c := c) hc]
      have hset := h.setConn hc { conn with valid := conn.valid && ok }
        ⟨rfl, rfl, id, fun hv => (Bool.and_eq_true_iff.mp hv).1⟩
      exact ⟨hset.agree, hset.wiring.idle _, hset.pending⟩
    · exact h
  | gcNext =>
    rw [Master.step]
    cases s.server.gc with
    | none => exact h
    | some t => exact ⟨h.agree.gcStep t, hw.sameConns (s.server.gcStep_conns t), h.pending⟩

end Inv

end Master

end Yrmcds.Memcache
