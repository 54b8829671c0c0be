/-
  Lock exclusion: what a lock protects its object from.

  The guard `locked_by_other()` is written out in every handler of both protocols, and GC has three
  conditions of its own under which it removes an object.  `Effects.lean` has taken the handlers apart
  already, so only the few steps of `Prim` remain: a store, an unlock or a removal needs the object
  unlocked or locked by the one who runs the command, and what is left (reading, touching) changes
  neither data nor flags nor the cas value.

  `UNLOCK ALL` and the end of a connection go through `m_locks`, not through the guard.  That they leave
  the locks of others alone is the lock table again: an object on a connection's list names that
  connection's descriptor.
-/
import Yrmcds.Memcache.LockTable

namespace Yrmcds.Memcache

open ChainTable Ownership Run

/-- The connection that takes the step. -/
def Event.actor : Event → Option Nat
  | .cmd c _ _ => some c
  | .close c => some c
  | _ => none

/-- What a lock protects: data, flags, cas value and the lock itself. -/
structure SameContents (o o' : Object) : Prop where
  data : o'.data = o.data
  flags : o'.flags = o.flags
  cas : o'.cas = o.cas
  lock : o'.lock = o.lock

namespace SameContents

@[refl] theorem refl (o : Object) : SameContents o o := ⟨rfl, rfl, rfl, rfl⟩

theorem trans {o o' o'' : Object} (h : SameContents o o') (h' : SameContents o' o'') :
    SameContents o o'' :=
  ⟨h'.data.trans h.data, h'.flags.trans h.flags, h'.cas.trans h.cas, h'.lock.trans h.lock⟩

theorem accessed (o : Object) : SameContents o o.accessed := ⟨rfl, rfl, rfl, rfl⟩
theorem touch (o : Object) (t : Int) : SameContents o (o.touch t) := ⟨rfl, rfl, rfl, rfl⟩

theorem gcKeeps (pass : GcPass) (o : Object) : SameContents o (gcKeeps pass o) :=
  ⟨gcKeeps_data pass o, gcKeeps_flags pass o, gcKeeps_cas pass o, gcKeeps_lock pass o⟩

end SameContents

/-- The object of `k` is still the item `p`, with the contents of `p`. -/
def Kept (k : Key) (p : Cell Key Object) (m : HashMap Object) : Prop :=
  ∃ p', m.find k = some p' ∧ p'.addr = p.addr ∧ SameContents p.val p'.val

section

variable {k : Key} {p : Cell Key Object} {m : HashMap Object}

theorem Kept.of_find (hp : m.find k = some p) : Kept k p m := ⟨p, hp, rfl, .refl _⟩

/-- A write somewhere: harmless elsewhere, and here if it keeps the contents. -/
theorem Kept.write (h : Kept k p m) {l : Key} {q : Cell Key Object} (hq : m.find l = some q) {o : Object}
    (ho : l = k → q.val.lock = p.val.lock → SameContents q.val o) : Kept k p (m.write q.addr o) := by
  obtain ⟨p', hp', haddr, hsame⟩ := h
  by_cases hlk : l = k
  · subst hlk
    rw [hp', Option.some.injEq] at hq
    subst hq
    exact ⟨p'.put o, m.find_write_self hp' o, haddr, hsame.trans (ho rfl hsame.lock)⟩
  · exact ⟨p', by rw [m.find_write_of_ne hq o (Ne.symm hlk)]; exact hp', haddr, hsame⟩

/-- `unlock_all` of somebody who does not hold `p`. -/
theorem Kept.unlockLoop (h : Kept k p m) {ctx : Int} {force : Bool} {l : List Nat} {m' : HashMap Object}
    (hu : unlockLoop ctx force m l = .ok m') (hl : p.addr ∉ l) : Kept k p m' := by
  obtain ⟨p', hp', haddr, hsame⟩ := h
  refine ⟨p', ?_, haddr, hsame⟩
  rw [unlockLoop_find hu, hp', Option.map_some, if_neg (by rw [haddr]; exact hl)]

/-- The item is not on the list of a connection with another descriptor. -/
theorem Kept.not_mem (h : Kept k p m) {held : Nat → Option (Int × List Nat)} {c : Nat} {w : Int}
    {l : List Nat} (ht : Consistent (owner m) held) (hc : held c = some (w, l)) (hw : p.val.lock ≠ w) :
    p.addr ∉ l := by
  intro hmem
  obtain ⟨p', hp', haddr, hsame⟩ := h
  have hown := ht.owned hc hmem
  rw [← haddr, owner_of_find hp'] at hown
  exact hw (hsame.lock.symm.trans (lockOf_eq_some.mp hown).1)

end

/-- **A step of a command leaves alone what is locked by another connection.** -/
theorem prim_kept {g : Env} {held : Nat → Option (Int × List Nat)} {c : Nat} {k : Key}
    {p : Cell Key Object} (hlock : p.val.lock ≠ -1) (hother : p.val.lock ≠ g.ctx) {d : Bool} {w w' : World}
    (hs : Prim g d w w') (ht : TableInv g held c w) (h : Kept k p w.1) : Kept k p w'.1 := by
  cases hs with
  | chat hc => exact h
  | flush t hc => exact h
  | @obj _ m σ σ' l q o' hq hstep =>
    refine h.write hq fun _ hql => ?_
    cases hstep with
    | chat hc => exact .refl _
    | access hc => exact .accessed _
    | touch t hc => exact .touch _ t
    | store hl hcas hk hc =>
      rcases (q.val.lockedByOther_eq_false g.ctx).mp hl with hun | hself
      · exact absurd (hql.symm.trans hun) hlock
      · exact absurd (hql.symm.trans hself) hother
    | lock hl hc => exact absurd (hql.symm.trans hl) hlock
    | unlock hl hr hc => exact absurd (hql.symm.trans hl) hother
  | @create m σ σ' l o hl hlen hfree hcas hc =>
    obtain ⟨p', hp', haddr, hsame⟩ := h
    have hkl : k ≠ l := by
      rintro rfl
      rw [show m.find k = some p' from hp'] at hl
      cases hl
    exact ⟨p', (m.find_push_of_ne o hl hkl).trans hp', haddr, hsame⟩
  | @remove m σ σ' l q ls hq hl hr hc =>
    obtain ⟨p', hp', haddr, hsame⟩ := h
    have hkl : k ≠ l := by
      rintro rfl
      rw [show m.find k = some p' from hp', Option.some.injEq] at hq
      subst hq
      rcases (p'.val.lockedByOther_eq_false g.ctx).mp hl with hun | hself
      · exact hlock (hsame.lock.symm.trans hun)
      · exact hother (hsame.lock.symm.trans hself)
    exact ⟨p', (m.find_erase_of_ne hq hkl).trans hp', haddr, hsame⟩
  | @unlockAll m m' σ σ' hu hc => exact h.unlockLoop hu (h.not_mem ht.table ht.self hother)

section

variable {s : Server} {A : Nat} {conn : Conn} {k : Key} {p : Cell Key Object}

/-- The same for a whole step: another connection's command or end, GC, the clock. -/
theorem LockInv.step_kept (h : LockInv s) (hA : s.conns A = some conn) (hp : s.hash.find k = some p)
    (hl : p.val.lock = conn.fd) {e : Event} {s' : Server} (he : e.actor ≠ some A)
    (hs : s.step e = .ok s') : Kept k p s'.hash := by
  have hlock : p.val.lock ≠ -1 := by rw [hl]; exact h.fd_ne' hA
  have hkept := Kept.of_find hp
  -- the descriptor of another connection is another one
  have hfd : ∀ c x, s.conns c = some x → c ≠ A → p.val.lock ≠ x.fd := by
    intro c x hc hne heq
    refine hne (h.fd_inj c A conn.fd ?_ (fds_of_conn hA))
    rw [fds_of_conn hc, ← heq, hl]
  cases Server.stepped_of_step hs with
  | idle | accept | tick | gcStart => exact hkept
  | @cmd c x slaves r w hc hw =>
    have hne : c ≠ A := fun hca => he (congrArg some hca)
    have heff := exec_effects (s.env x.fd) r s.hash (s.session x slaves)
    rw [hw] at heff
    have hctx : (s.env x.fd).ctx ≠ -1 := h.fd_ne' hc
    exact (heff.preserves (P := fun w => TableInv (s.env x.fd) s.held c w ∧ Kept k p w.1)
      (fun _ _ _ hpr hi => ⟨(prim_tableInv hctx hpr hi.1).1,
        prim_kept hlock (hfd c x hc hne) hpr hi.1 hi.2⟩) ⟨h.tableInv hc slaves, hkept⟩).2
  | @close c x m hc hu =>
    have hne : c ≠ A := fun hca => he (congrArg some hca)
    exact hkept.unlockLoop hu (hkept.not_mem h.table (held_of_conn hc) (hfd c x hc hne))
  | @gcNext t ht =>
    by_cases hn : t.next < s.hash.buckets.length
    · unfold Kept
      rw [s.gcStep_find t hn]
      split_ifs
      · -- none of GC's three conditions removes a locked object
        have hrem : gcRemoves t.pass s.now s.flushTime p.val = false := by
          rw [Bool.eq_false_iff]
          intro hr
          exact hlock (unlocked_of_gcRemoves _ _ _ hr)
        rw [hp, Option.bind_some, hrem]
        exact ⟨_, rfl, rfl, .gcKeeps t.pass p.val⟩
      · exact hkept
    · rw [s.gcStep_end t hn]
      exact hkept

end

/-! ## Reading -/

/-- Every connection that asks for `k`, by the text GET or the binary Get, is sent its data. -/
def Server.Readable (s : Server) (k : Key) (o : Object) : Prop :=
  ∀ d conn slaves, s.conns d = some conn →
    (∀ r : TextRequest, r.valid = true → r.command = .GET → r.keys = [k] →
      ∃ s' conn', s.step (.cmd d slaves (.text r)) = .ok s' ∧ s'.conns d = some conn' ∧
        conn'.out = conn.out ++ [.text (.VALUE k o.flags o.data none), .text .END]) ∧
    ∀ r : BinaryRequest, r.status = .OK → r.command = .Get → r.key = k → r.exptime = EXPTIME_NONE →
      ∃ s' conn', s.step (.cmd d slaves (.bin r)) = .ok s' ∧ s'.conns d = some conn' ∧
        conn'.out = conn.out ++ [.binary ⟨r.command.toByte, r.opaqueBytes, .get o.flags o.data o.cas none⟩]

/-- An object that has not expired is readable. -/
theorem readable_of_not_expired {s : Server} {k : Key} {p : Cell Key Object}
    (hp : s.hash.find k = some p) (he : p.val.expired s.now s.flushTime = false)
    (hk : k.length ≤ MAX_KEY_LENGTH) : s.Readable k p.val := by
  intro d conn slaves hd
  constructor
  · intro r hv hcmd hkeys
    have hget : Text.getHandler (s.env conn.fd) r (itemRef p) p.val (s.session conn slaves)
        = .ok (true, p.val.accessed,
            (s.session conn slaves).text (.VALUE k p.val.flags p.val.data none)) := by
      unfold Text.getHandler
      rw [if_neg (by rw [Bool.not_eq_true]; exact he), itemRef_key, s.hash.find_key hp,
        if_neg (Nat.not_lt.mpr hk), if_neg (by rw [hcmd]; decide)]
    have hexec : Cmd.exec (s.env conn.fd) (.text r) s.hash (s.session conn slaves)
        = .ok (s.hash.write p.addr p.val.accessed,
            ((s.session conn slaves).text (.VALUE k p.val.flags p.val.data none)).text .END) := by
      simp only [Cmd.exec, cmdText, hv, hcmd, hkeys, Text.getLoop, HashMap.apply_found hp, hget]
      rfl
    exact ⟨_, _, s.step_cmd hd slaves hexec, s.commit_conns_self d conn _, List.append_assoc ..⟩
  · intro r hst hcmd hkey hexp
    have hget : getHandler (s.env conn.fd) r (itemRef p) p.val (s.session conn slaves)
        = .ok (true, p.val.accessed,
            (s.session conn slaves).bin r (.get p.val.flags p.val.data p.val.cas none)) := by
      have hlag : r.command.isLaG = false := by rw [hcmd]; decide
      have hexp' : ¬ (r.exptime ≠ EXPTIME_NONE) := not_not.mpr hexp
      unfold getHandler getBody
      rw [if_neg (by rw [hlag]; exact Bool.false_ne_true), if_neg (by rw [Bool.not_eq_true]; exact he),
        if_neg hexp']
      unfold getReply
      rw [hcmd]
    have hexec : Cmd.exec (s.env conn.fd) (.bin r) s.hash (s.session conn slaves)
        = .ok (s.hash.write p.addr p.val.accessed,
            (s.session conn slaves).bin r (.get p.val.flags p.val.data p.val.cas none)) := by
      simp only [Cmd.exec, cmdBin, hst, hcmd, hkey, applyOr, HashMap.apply_found hp, hget]
      rfl
    exact ⟨_, _, s.step_cmd hd slaves hexec, s.commit_conns_self d conn _, rfl⟩

/-- **Lock exclusion.**  In every state the server reaches, an object locked by connection `A` survives
    every step that is not `A`'s own, with its data, flags, cas value and lock, and can be read by
    everybody afterwards. -/
theorem lock_exclusion {s₀ s : Server} (hboot : Boot s₀) {es : List Event}
    (hal : Along FreshFd Server.step s₀ es) (hrun : run Server.step s₀ es = .ok s) {A : Nat} {conn : Conn}
    (hA : s.conns A = some conn) {k : Key} {p : Cell Key Object} (hp : s.hash.find k = some p)
    (hl : p.val.lock = conn.fd) {e : Event} (hf : FreshFd s e) (he : e.actor ≠ some A) :
    ∃ s' p', s.step e = .ok s' ∧ s'.hash.find k = some p' ∧ p'.addr = p.addr ∧
      SameContents p.val p'.val ∧ s'.Readable k p'.val := by
  have hinv : LockInv s := by
    obtain ⟨t, ht, hinv⟩ := (LockInv.of_boot hboot).of_run es hal
    rw [hrun, Except.ok.injEq] at ht
    exact ht ▸ hinv
  obtain ⟨s', hs', hinv'⟩ := hinv.step e hf
  obtain ⟨p', hp', haddr, hsame⟩ := hinv.step_kept hA hp hl he hs'
  have hlock : p'.val.lock ≠ -1 := by rw [hsame.lock, hl]; exact hinv.fd_ne' hA
  exact ⟨s', p', hs', hp', haddr, hsame,
    readable_of_not_expired hp' (Object.not_expired_of_locked hlock _ _) (hinv'.keys k p' hp')⟩

/-- Client 0 stores "x" and locks it; client 1 tries to delete it. -/
theorem lock_exclusion_delete :
    ∃ s s' p', run Server.step Server.oneBucket
        [.accept 0 5, .accept 1 6,
          .cmd 0 [] (.bin { command := .Set, status := .OK, key := [120], data := [1] }),
          .cmd 0 [] (.bin { command := .Lock, status := .OK, key := [120] })] = .ok s ∧
      s.step (.cmd 1 [] (.bin { command := .Delete, status := .OK, key := [120] })) = .ok s' ∧
      s'.hash.find [120] = some p' ∧ p'.val.data = [1] ∧ p'.val.lock = 5 ∧ s'.Readable [120] p'.val := by
  obtain ⟨s', p', hs', hp', -, hsame, hread⟩ := lock_exclusion (A := 0) (k := [120])
    (e := .cmd 1 [] (.bin { command := .Delete, status := .OK, key := [120] }))
    (boot_init _ _ _ _ _ _ _) (along_two_clients
      [.cmd 0 [] (.bin { command := .Set, status := .OK, key := [120], data := [1] }),
        .cmd 0 [] (.bin { command := .Lock, status := .OK, key := [120] })] (by decide))
    rfl rfl rfl rfl trivial (by decide)
  exact ⟨_, s', p', rfl, hs', hp', hsame.data, hsame.lock, hread⟩

end Yrmcds.Memcache
