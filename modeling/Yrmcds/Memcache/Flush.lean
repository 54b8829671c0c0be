/-
  `flush_all` (Flush and FlushQ, FLUSH_ALL): what a flush removes.

  There is ONE flush time for the whole server, and an object does not know when it was stored.  From the
  flush time on every unlocked object counts as expired; a GC pass that starts then removes them all and,
  at its end, resets the flush time to zero.  Two things follow.

  * What is stored before that pass has ended is hidden like the rest, and removed if the pass has yet to
    come by.  `stored_stays`: an object that is stored when no flush is at work on its key (`Settled`)
    stays, and can be read, until the next flush request.

  * A flush that is requested while such a pass is running is forgotten with the reset, and the buckets
    the pass has visited are not visited again.  `flush_done`: a flush removes every object it should, if
    no pass that carries out an earlier one has been at the object's bucket (`Takes`).
-/
import Yrmcds.Memcache.Exclusion
import Yrmcds.Memcache.Cas

namespace Yrmcds.Memcache

open ChainTable Run

/-- Nobody who asks for `k`, by the text GET or the binary Get, is sent anything. -/
def Server.Hidden (s : Server) (k : Key) : Prop :=
  ∀ d conn slaves, s.conns d = some conn →
    (∀ r : TextRequest, r.valid = true → r.command = .GET → r.keys = [k] →
      ∃ s' conn', s.step (.cmd d slaves (.text r)) = .ok s' ∧ s'.conns d = some conn' ∧
        conn'.out = conn.out ++ [.text .END]) ∧
    ∀ r : BinaryRequest, r.status = .OK → r.command = .Get → r.key = k →
      ∃ s' conn', s.step (.cmd d slaves (.bin r)) = .ok s' ∧ s'.conns d = some conn' ∧
        conn'.out = conn.out ++ [.binary ⟨r.command.toByte, r.opaqueBytes, .error .NotFound⟩]

theorem hidden_of_find_none {s : Server} {k : Key} (h : s.hash.find k = none) : s.Hidden k := by
  intro d conn slaves hd
  constructor
  · intro r hv hcmd hkeys
    have hexec : Cmd.exec (s.env conn.fd) (.text r) s.hash (s.session conn slaves)
        = .ok (s.hash, (s.session conn slaves).text .END) := by
      simp only [Cmd.exec, cmdText, hv, hcmd, hkeys, Text.getLoop, HashMap.apply_absent h]
      rfl
    exact ⟨_, _, s.step_cmd hd slaves hexec, s.commit_conns_self d conn _, rfl⟩
  · intro r hst hcmd hkey
    have hmiss : getMiss r (s.session conn slaves) = (s.session conn slaves).bin r (.error .NotFound) := by
      unfold getMiss BinaryRequest.quiet
      rw [hcmd]
      rfl
    have hexec : Cmd.exec (s.env conn.fd) (.bin r) s.hash (s.session conn slaves)
        = .ok (s.hash, (s.session conn slaves).bin r (.error .NotFound)) := by
      simp only [Cmd.exec, cmdBin, hst, hcmd, hkey, applyOr, HashMap.apply_absent h, ← hmiss]
      rfl
    exact ⟨_, _, s.step_cmd hd slaves hexec, s.commit_conns_self d conn _, rfl⟩

theorem look_eq_none_iff {m : HashMap Object} {k : Key} : look k m = none ↔ m.find k = none :=
  Option.map_eq_none_iff

/-! ## What is stored when no flush is at work -/

/-- No flush is at work on `k`: none is due or announced, and no GC pass that carries one out has yet to
    visit the bucket of `k`. -/
def Server.Settled (k : Key) (s : Server) : Prop :=
  s.flushTime = 0 ∧ ∀ t ∈ s.gc, t.pass.flush = true → s.hash.index k < t.next

/-- The object of `k` has no expiration time, or one in the future. -/
def Server.Alive (k : Key) (s : Server) : Prop :=
  ∀ p ∈ s.hash.find k, p.val.exptime = 0 ∨ s.now < p.val.exptime

instance (k : Key) (s : Server) : Decidable (s.Settled k) :=
  inferInstanceAs (Decidable (_ ∧ ∀ t ∈ s.gc, _))

instance (k : Key) (s : Server) : Decidable (s.Alive k) :=
  inferInstanceAs (Decidable (∀ p ∈ s.hash.find k, _))

/-- The step is no flush request, and does not delete, overwrite or evict the object of `k`. -/
def Undisturbed (k : Key) (s : Server) : Event → Prop
  | .cmd c slaves r =>
    r.flushTo = none ∧ ∀ s' ∈ (s.step (.cmd c slaves r)).toOption, s'.look k = s.look k
  | .gcNext => ∀ t ∈ s.gc, s.hash.index k = t.next → ∀ p ∈ s.hash.find k, evicted t.pass p.val = false
  | _ => True

instance (k : Key) (s : Server) : ∀ e, Decidable (Undisturbed k s e)
  | .cmd c slaves r => inferInstanceAs (Decidable (_ ∧ ∀ s' ∈ (s.step (.cmd c slaves r)).toOption, _))
  | .gcNext => inferInstanceAs (Decidable (∀ t ∈ s.gc, _ → ∀ p ∈ s.hash.find k, _))
  | .accept .. | .close _ | .tick _ | .gcStart .. => .isTrue trivial

theorem not_expired_of_alive {s : Server} {k : Key} {p : Cell Key Object} (hf : s.flushTime = 0)
    (h : s.Alive k) (hp : s.hash.find k = some p) : p.val.expired s.now s.flushTime = false := by
  unfold Object.expired
  rw [hf]
  rcases h p hp with h0 | hlt
  · simp [h0]
  · have hle : ¬ p.val.exptime ≤ s.now := by omega
    simp [hle]

section

variable {k : Key} {s s' : Server}

/-- A visit of GC spares the object of `k`, if no flush, no eviction and no expiration is the reason to
    remove it. -/
theorem look_gcStep_of_settled {t : GcThread} (h : s.Settled k) (ha : s.Alive k)
    (he : Undisturbed k s .gcNext) (ht : s.gc = some t) : (s.gcStep t).look k = s.look k := by
  by_cases hn : t.next < s.hash.buckets.length
  · unfold Server.look look
    rw [s.gcStep_find t hn]
    split_ifs with hi
    · cases hp : s.hash.find k with
      | none => rfl
      | some p =>
        have hflush : t.pass.flush = false := by
          rw [Bool.eq_false_iff]
          intro hfl
          have := h.2 t ht hfl
          omega
        have hkeep : gcRemoves t.pass s.now s.flushTime p.val = false := by
          unfold gcRemoves flushed
          rw [hflush, he t ht hi p hp, not_expired_of_alive h.1 ha hp]
          rfl
        simp only [Option.bind_some, hkeep, Bool.false_eq_true, if_false, Option.map_some, Cell.put,
          gcKeeps_data, gcKeeps_flags, gcKeeps_cas]
    · rfl
  · rw [s.gcStep_end t hn]
    rfl

theorem settled_gcStep {t : GcThread} (h : s.Settled k) (ht : s.gc = some t) :
    (s.gcStep t).Settled k := by
  by_cases hn : t.next < s.hash.buckets.length
  · obtain ⟨t1, ht1, hpass, hnext⟩ := s.gcStep_gc t hn
    refine ⟨(s.gcStep_flushTime t hn).trans h.1, fun t' ht' hfl => ?_⟩
    obtain rfl : t1 = t' := Option.some.inj (ht1.symm.trans ht')
    rw [hpass] at hfl
    have hlt := h.2 t ht hfl
    rw [s.gcStep_index t]
    omega
  · rw [s.gcStep_end t hn]
    refine ⟨?_, fun t' ht' => by cases ht'⟩
    show (if t.pass.flush then 0 else s.flushTime) = 0
    rw [h.1, ite_self]

/-- **Step**: what is stored stays, and no flush gets at it. -/
theorem settled_step {x : (Bytes × UInt32) × UInt64} {e : Event} (h : s.Settled k ∧ s.look k = some x)
    (he : Undisturbed k s e ∧ s.Alive k) (hs : s.step e = .ok s') : s'.Settled k ∧ s'.look k = some x := by
  obtain ⟨⟨hft, hgc⟩, hx⟩ := h
  cases Server.stepped_of_step hs with
  | idle | accept | tick => exact ⟨⟨hft, hgc⟩, hx⟩
  | @cmd c conn slaves r w hc hw =>
    refine ⟨⟨?_, fun t ht hfl => ?_⟩, (he.1.2 _ (by rw [hs]; rfl)).trans hx⟩
    · have hcalm := exec_calm (s.env conn.fd) he.1.1 s.hash (s.session conn slaves)
      exact (hcalm.flushTime w hw).trans hft
    · show w.1.index k < t.next
      rw [exec_index hw]
      exact hgc t ht hfl
  | @close c conn m hc hu =>
    refine ⟨⟨hft, fun t ht hfl => ?_⟩, (look_unlockLoop hu).trans hx⟩
    show m.index k < t.next
    rw [unlockLoop_index hu]
    exact hgc t ht hfl
  | @gcStart slaves newSlaves wall ht =>
    refine ⟨⟨hft, fun t ht' hfl => ?_⟩, hx⟩
    -- a pass that starts now has no flush to carry out
    obtain rfl := Option.some.inj ht'
    have hfl' : (s.flushTime != 0 && decide (wall ≥ s.flushTime)) = true := hfl
    rw [hft] at hfl'
    simp at hfl'
  | @gcNext t ht =>
    exact ⟨settled_gcStep ⟨hft, hgc⟩ ht, (look_gcStep_of_settled ⟨hft, hgc⟩ he.2 he.1 ht).trans hx⟩

end

/-- The key a request names. -/
def Cmd.key : Cmd → Key
  | .bin r => r.key
  | .text r => r.key

/-- A client stores something under `k`, which then shows `x`: it is told so, or (if it asked not to be
    told) the key shows something new. -/
def Server.Stores (s : Server) (e : Event) (k : Key) (x : (Bytes × UInt32) × UInt64) (s' : Server) : Prop :=
  ∃ r new, s.Answers e r s' new ∧ r.key = k ∧ r.flushTo = none ∧ s'.look k = some x ∧
    ((∃ reply ∈ new, reply.isStored = true) ∨ s'.look k ≠ s.look k)

/-- A store leaves the flush as it is. -/
theorem Server.Stores.settled {s s' : Server} {e : Event} {k : Key} {x : (Bytes × UInt32) × UInt64}
    (h : s.Stores e k x s') (hs : s.Settled k) : s'.Settled k ∧ s'.look k = some x := by
  obtain ⟨r, new, ⟨c, slaves, conn, conn', rfl, hc, hstep, -, -⟩, -, hf, hx, -⟩ := h
  simp only [Server.step, hc] at hstep
  obtain ⟨w, hw, rfl⟩ := RecordsAgree.runCmd_eq_ok hstep
  refine ⟨⟨?_, fun t ht hfl => ?_⟩, hx⟩
  · have hcalm := exec_calm (s.env conn.fd) hf s.hash (s.session conn slaves)
    exact (hcalm.flushTime w hw).trans hs.1
  · show w.1.index k < t.next
    rw [exec_index hw]
    exact hs.2 t ht hfl

/-- In a run from the start stored keys are short enough for a reply. -/
theorem keys_of_run {s0 s : Server} (hboot : Boot s0) {es : List Event}
    (hfd : ∀ c fd, Event.accept c fd ∈ es → 0 ≤ fd) (hrun : run Server.step s0 es = .ok s) :
    RecordsAgree s := by
  refine run_preserves_of_mem (C := fun e => ∀ c fd, e = .accept c fd → 0 ≤ fd)
    (fun s e s' h he hs => h.step he hs) ?_ (LockInv.of_boot hboot).toRecordsAgree hrun
  intro e he c fd heq
  exact hfd c fd (heq ▸ he)

/-- **What is stored stays until the next flush request**, if no flush is at work on its key when it is
    stored: in every run from the start, an object that has no expiration time or one in the future, and
    is not deleted, overwritten or evicted, can be read by everybody. -/
theorem stored_stays {s s₀ s₁ s₂ : Server} (hboot : Boot s) {es₀ es : List Event} {e : Event} {k : Key}
    {d : Bytes} {f : UInt32} {u : UInt64} (hfd : ∀ c fd, Event.accept c fd ∈ es₀ ++ e :: es → 0 ≤ fd)
    (hrun₀ : run Server.step s es₀ = .ok s₀) (hstore : s₀.Stores e k ((d, f), u) s₁)
    (hset : s₀.Settled k) (hrun : run Server.step s₁ es = .ok s₂)
    (hal : Along (fun s e => Undisturbed k s e ∧ s.Alive k) Server.step s₁ es) (halive : s₂.Alive k) :
    ∃ p, s₂.hash.find k = some p ∧ p.val.data = d ∧ p.val.flags = f ∧ s₂.Readable k p.val := by
  obtain ⟨hset₂, hx⟩ := run_preserves_along (fun _ _ _ h he hs => settled_step h he hs)
    (hstore.settled hset) hal hrun
  have hagree : RecordsAgree s₂ := by
    have hstep : s₀.step e = .ok s₁ := by
      obtain ⟨r, new, ⟨c, slaves, conn, conn', -, -, hstep, -, -⟩, -⟩ := hstore
      exact hstep
    refine keys_of_run hboot hfd ?_
    rw [run_append_ok hrun₀, run_cons_ok hstep, hrun]
  cases hp : s₂.hash.find k with
  | none => exact absurd ((look_eq_none_iff.mpr hp).symm.trans hx) (Option.some_ne_none _).symm
  | some p =>
    have hx' := (look_of_find hp).symm.trans hx
    simp only [Option.some.injEq, Prod.mk.injEq] at hx'
    exact ⟨p, rfl, hx'.1.1, hx'.1.2,
      readable_of_not_expired hp (not_expired_of_alive hset₂.1 halive hp) (hagree.keys k p hp)⟩

namespace FlushRun

/-- FLUSH_ALL of connection 0, and its store of [1] under "x". -/
def flush (t : Int) : Event := .cmd 0 [] (.text { command := .FLUSH_ALL, valid := true, exptime := t })

/-- "x" is stored. -/
def setX : Event := .cmd 0 [] (.text { command := .SET, valid := true, key := [120], data := [1] })

/-- A whole GC pass over the one bucket. -/
def gcRun (wall : Int) : List Event := [.gcStart [] [] wall, .gcNext, .gcNext]

end FlushRun

open FlushRun in
/-- A store after a flush that GC has carried out. -/
theorem stored_stays_after_gc :
    ∃ s₀ s₁ s₂ p, run Server.step Server.oneBucket (.accept 0 5 :: flush 100 :: gcRun 100) = .ok s₀ ∧
      s₀.Stores setX [120] (([1], 0), 1) s₁ ∧ run Server.step s₁ (.tick 200 :: gcRun 200) = .ok s₂ ∧
      s₂.hash.find [120] = some p ∧ p.val.data = [1] ∧ s₂.Readable [120] p.val := by
  suffices h : ∃ s₀ s₁ s₂,
      run Server.step Server.oneBucket (.accept 0 5 :: flush 100 :: gcRun 100) = .ok s₀ ∧
      s₀.Stores setX [120] (([1], 0), 1) s₁ ∧ s₀.Settled [120] ∧
      run Server.step s₁ (.tick 200 :: gcRun 200) = .ok s₂ ∧
      Along (fun s e => Undisturbed [120] s e ∧ s.Alive [120]) Server.step s₁ (.tick 200 :: gcRun 200) ∧
      s₂.Alive [120] by
    obtain ⟨s₀, s₁, s₂, h₀, hstore, hset, hrun, hal, halive⟩ := h
    have hfd : ∀ c fd, Event.accept c fd ∈
        (.accept 0 5 :: flush 100 :: gcRun 100) ++ setX :: .tick 200 :: gcRun 200 → 0 ≤ fd := by
      intro c fd hmem
      simp [flush, setX, gcRun] at hmem
      omega
    obtain ⟨p, hp, hd, -, hread⟩ := stored_stays (boot_init _ _ _ _ _ _ _)
      hfd h₀ hstore hset hrun hal halive
    exact ⟨s₀, s₁, s₂, p, h₀, hstore, hrun, hp, hd, hread⟩
  exact ⟨_, _, _, rfl,
    ⟨_, _, ⟨0, [], _, _, rfl, rfl, rfl, rfl, rfl⟩, rfl, rfl, rfl, .inl ⟨_, List.mem_cons_self, rfl⟩⟩,
    by decide, rfl, by decide, by decide⟩

open FlushRun in
/-- **A flush removes what is stored after its time**: the flush time 100 has passed, the store of "x" is
    answered with STORED, and GC removes the object. -/
theorem flush_removes_later :
    ∃ s₀ s₁ s₂, run Server.step Server.oneBucket [.accept 0 5, flush 100, .tick 101] = .ok s₀ ∧
      s₀.now = 101 ∧ s₀.Stores setX [120] (([1], 0), 1) s₁ ∧ run Server.step s₁ (gcRun 101) = .ok s₂ ∧
      Along (fun s e => Undisturbed [120] s e ∧ s.Alive [120]) Server.step s₁ (gcRun 101) ∧
      s₂.Alive [120] ∧ s₁.hash.find [120] ≠ none ∧ s₂.Hidden [120] :=
  ⟨_, _, _, rfl, rfl,
    ⟨_, _, ⟨0, [], _, _, rfl, rfl, rfl, rfl, rfl⟩, rfl, rfl, rfl, .inl ⟨_, List.mem_cons_self, rfl⟩⟩, rfl,
    by decide, by decide, by decide, hidden_of_find_none rfl⟩

/-! ## No flush is lost -/

/-- The event is a flush request for time `T`, and is acknowledged. -/
def Server.Requests (s : Server) (e : Event) (T : Int) (s' : Server) : Prop :=
  ∃ c conn slaves r, e = .cmd c slaves r ∧ s.conns c = some conn ∧ r.flushTo = some T ∧ s.step e = .ok s'

/-- A request for time `T` will do its work on `k`: a GC pass that carries out a flush has yet to visit
    the bucket of `k`, or none is running (and `T` is not 0, which means no flush). -/
def Server.Takes (T : Int) (k : Key) (s : Server) : Prop :=
  (∃ t ∈ s.gc, t.pass.flush = true ∧ t.next ≤ s.hash.index k) ∨
    (T ≠ 0 ∧ ∀ t ∈ s.gc, t.pass.flush = false)

/-- The step is no flush request and does not store anything under `k`, and the object of `k` is not
    locked. -/
def Idle (k : Key) (s : Server) (e : Event) : Prop :=
  (∀ p ∈ s.hash.find k, p.val.lock = -1) ∧
    match e with
    | .cmd c slaves r => r.flushTo = none ∧
      ∀ s' ∈ (s.step (.cmd c slaves r)).toOption, s'.look k = s.look k ∨ s'.look k = none
    | _ => True

instance (k : Key) (s : Server) : ∀ e, Decidable (Idle k s e)
  | .cmd c slaves r =>
    inferInstanceAs (Decidable ((∀ p ∈ s.hash.find k, _) ∧ _ ∧
      ∀ s' ∈ (s.step (.cmd c slaves r)).toOption, _ ∨ _))
  | .accept .. | .close _ | .tick _ | .gcStart .. | .gcNext =>
    inferInstanceAs (Decidable ((∀ p ∈ s.hash.find k, _) ∧ True))

/-- A GC pass starts at `T` or later in the run of `es`, and ends. -/
def Passes (T : Int) (s : Server) (es : List Event) : Prop :=
  ∃ es1 slaves newSlaves wall es2 es3 a b t,
    es = es1 ++ .gcStart slaves newSlaves wall :: (es2 ++ .gcNext :: es3) ∧
    run Server.step s es1 = .ok a ∧ a.gc = none ∧ T ≤ wall ∧
    run Server.step a (.gcStart slaves newSlaves wall :: es2) = .ok b ∧
    b.gc = some t ∧ b.hash.buckets.length ≤ t.next

section

variable {T : Int} {k : Key} {s s' : Server} {e : Event}

/-- The object of `k` is gone, or a pass that removes it is on its way. -/
def Server.Going (k : Key) (s : Server) : Prop :=
  s.hash.find k = none ∨ ∃ t, s.gc = some t ∧ t.pass.flush = true ∧ t.next ≤ s.hash.index k

/-- The flush waits for a GC pass to start. -/
def Server.Armed (T : Int) (s : Server) : Prop :=
  T ≠ 0 ∧ s.flushTime = T ∧ ∀ t, s.gc = some t → t.pass.flush = false

/-- What is gone comes back by a store only. -/
theorem find_none_step (h : s.hash.find k = none) (he : Idle k s e) (hs : s.step e = .ok s') :
    s'.hash.find k = none := by
  cases Server.stepped_of_step hs with
  | idle | accept | tick | gcStart => exact h
  | cmd hc hw =>
    rcases he.2.2 _ (by rw [hs]; rfl) with hsame | hnone
    · exact look_eq_none_iff.mp (hsame.trans (look_eq_none_iff.mpr h))
    · exact look_eq_none_iff.mp hnone
  | close hc hu => exact look_eq_none_iff.mp ((look_unlockLoop hu).trans (look_eq_none_iff.mpr h))
  | @gcNext t ht =>
    rcases look_gcStep s t k with hnone | hsame
    · exact look_eq_none_iff.mp hnone
    · exact look_eq_none_iff.mp (hsame.trans (look_eq_none_iff.mpr h))

/-- A visit of a pass that carries out a flush. -/
theorem going_gcStep {t : GcThread} (hfl : t.pass.flush = true)
    (hn : t.next ≤ s.hash.index k) (hun : ∀ p ∈ s.hash.find k, p.val.lock = -1) :
    (s.gcStep t).Going k := by
  have hlt : t.next < s.hash.buckets.length := Nat.lt_of_le_of_lt hn (s.hash.index_lt k)
  by_cases hi : s.hash.index k = t.next
  · left
    rw [s.gcStep_find t hlt, if_pos hi]
    cases hp : s.hash.find k with
    | none => rfl
    | some p =>
      have hrem : gcRemoves t.pass s.now s.flushTime p.val = true := by
        unfold gcRemoves flushed Object.locked
        rw [hfl, hun p hp]
        rfl
      rw [Option.bind_some, hrem, if_pos rfl]
  · obtain ⟨t1, ht1, hpass, hnext⟩ := s.gcStep_gc t hlt
    refine .inr ⟨t1, ht1, by rw [hpass]; exact hfl, ?_⟩
    rw [s.gcStep_index t]
    omega

/-- **Step**: what is going goes. -/
theorem going_step (h : s.Going k) (he : Idle k s e) (hs : s.step e = .ok s') : s'.Going k := by
  rcases h with hnone | ⟨t, ht, hfl, hn⟩
  · exact .inl (find_none_step hnone he hs)
  · have hindex := Server.step_index hs
    cases Server.stepped_of_step hs with
    | idle | accept | tick => exact .inr ⟨t, ht, hfl, hn⟩
    | cmd hc hw => exact .inr ⟨t, ht, hfl, by rw [hindex]; exact hn⟩
    | close hc hu => exact .inr ⟨t, ht, hfl, by rw [hindex]; exact hn⟩
    | gcStart hgc => rw [hgc] at ht; cases ht
    | gcNext ht' =>
      obtain rfl := Option.some.inj (ht.symm.trans ht')
      exact going_gcStep hfl hn he.1

/-- **Step**: a flush that waits is not forgotten. -/
theorem armed_step (h : s.Going k ∨ s.Armed T) (he : Idle k s e) (hs : s.step e = .ok s') :
    s'.Going k ∨ s'.Armed T := by
  rcases h with hgo | ⟨hT, hft, hgc⟩
  · exact .inl (going_step hgo he hs)
  · cases Server.stepped_of_step hs with
    | idle | accept | tick => exact .inr ⟨hT, hft, hgc⟩
    | close hc hu => exact .inr ⟨hT, hft, hgc⟩
    | @cmd c conn slaves r w hc hw =>
      have hcalm := exec_calm (s.env conn.fd) he.2.1 s.hash (s.session conn slaves)
      exact .inr ⟨hT, (hcalm.flushTime w hw).trans hft, hgc⟩
    | @gcStart slaves newSlaves wall ht =>
      cases hfl : (GcPass.start s.gcConfig slaves newSlaves s.flushTime wall s.stats).flush with
      | true => exact .inl (.inr ⟨_, rfl, hfl, Nat.zero_le _⟩)
      | false =>
        refine .inr ⟨hT, hft, fun t ht' => ?_⟩
        obtain rfl := Option.some.inj ht'
        exact hfl
    | @gcNext t ht =>
      by_cases hn : t.next < s.hash.buckets.length
      · refine .inr ⟨hT, (s.gcStep_flushTime t hn).trans hft, fun t' ht' => ?_⟩
        rw [← s.gcStep_pass t ht']
        exact hgc t ht
      · rw [s.gcStep_end t hn]
        refine .inr ⟨hT, ?_, fun t' ht' => by cases ht'⟩
        show (if t.pass.flush then 0 else s.flushTime) = T
        rw [hgc t ht]
        exact hft

/-- A pass that starts at or after the flush time carries out the flush. -/
theorem going_gcStart {slaves newSlaves : List Nat} {wall : Int} (h : s.Going k ∨ s.Armed T)
    (hgc : s.gc = none) (hwall : T ≤ wall) (hs : s.step (.gcStart slaves newSlaves wall) = .ok s') :
    s'.Going k := by
  simp only [Server.step, hgc, Except.ok.injEq] at hs
  subst hs
  rcases h with (hnone | ⟨t, ht, -⟩) | ⟨hT, hft, -⟩
  · exact .inl hnone
  · rw [hgc] at ht
    cases ht
  · refine .inr ⟨_, rfl, ?_, Nat.zero_le _⟩
    show (s.flushTime != 0 && decide (wall ≥ s.flushTime)) = true
    rw [hft]
    simp [hT, hwall]

/-- **No flush is lost**, unless a GC pass that carries out an earlier one has been at the key's bucket
    already: if an object is not stored again after the latest flush request, and is not locked from
    then on, nobody can read it once a GC pass has ended that was started at the flush time or later. -/
theorem flush_done {s₁ s₂ : Server} {es : List Event} (hreq : s.Requests e T s₁) (htake : s.Takes T k)
    (hrun : run Server.step s₁ es = .ok s₂) (hal : Along (Idle k) Server.step s₁ es)
    (hpass : Passes T s₁ es) : s₂.Hidden k := by
  have hstart : s₁.Going k ∨ s₁.Armed T := by
    obtain ⟨c, conn, slaves, r, rfl, hc, hflush, hs⟩ := hreq
    obtain ⟨σ', hexec, hchat⟩ := exec_flush (s.env conn.fd) hflush s.hash (s.session conn slaves)
    simp only [Server.step, hc, Server.runCmd, hexec, Except.ok.injEq] at hs
    subst hs
    rcases htake with ⟨t, ht, hfl, hn⟩ | ⟨hT, hgc⟩
    · exact .inl (.inr ⟨t, ht, hfl, hn⟩)
    · exact .inr ⟨hT, hchat.flushTime, hgc⟩
  obtain ⟨es₁, slaves, newSlaves, wall, es₂, es₃, a, b, t, rfl, ha, hidle, hwall, hb, ht, hend⟩ := hpass
  obtain ⟨hal₁, hal₂⟩ := hal.append ha
  rw [run_append_ok ha] at hrun
  have harmed := run_preserves_along (fun _ _ _ h he hs => armed_step h he hs) hstart hal₁ ha
  -- the pass starts
  obtain ⟨a₁, ha₁, hb₁⟩ := run_cons_inv hb
  obtain ⟨-, hal₃⟩ := (along_cons_ok ha₁).mp hal₂
  rw [run_cons_ok ha₁, run_append_ok hb₁] at hrun
  obtain ⟨hal₄, hal₅⟩ := hal₃.append hb₁
  have hgoing := run_preserves_along (fun _ _ _ h he hs => going_step h he hs)
    (going_gcStart harmed hidle hwall ha₁) hal₄ hb₁
  -- at its end it has visited every bucket
  have hgone : b.hash.find k = none := by
    rcases hgoing with hnone | ⟨t', ht', -, hn⟩
    · exact hnone
    · obtain rfl := Option.some.inj (ht.symm.trans ht')
      have := b.hash.index_lt k
      omega
  exact hidden_of_find_none
    (run_preserves_along (I := fun s : Server => s.hash.find k = none)
      (fun _ _ _ h he hs => find_none_step h he hs) hgone hal₅ hrun)

end

open FlushRun in
/-- A store, a flush and a GC pass. -/
theorem flush_done_store :
    ∃ s s₁ s₂, run Server.step Server.oneBucket [.accept 0 5, setX] = .ok s ∧
      s.Requests (flush 100) 100 s₁ ∧ run Server.step s₁ (gcRun 100) = .ok s₂ ∧ s₂.Hidden [120] := by
  suffices h : ∃ s s₁ s₂, run Server.step Server.oneBucket [.accept 0 5, setX] = .ok s ∧
      s.Requests (flush 100) 100 s₁ ∧ s.Takes 100 [120] ∧ run Server.step s₁ (gcRun 100) = .ok s₂ ∧
      Along (Idle [120]) Server.step s₁ (gcRun 100) ∧ Passes 100 s₁ (gcRun 100) by
    obtain ⟨s, s₁, s₂, h₀, hreq, htake, hrun, hal, hpass⟩ := h
    exact ⟨s, s₁, s₂, h₀, hreq, hrun, flush_done hreq htake hrun hal hpass⟩
  exact ⟨_, _, _, rfl, ⟨0, _, [], _, rfl, rfl, rfl, rfl⟩, .inr ⟨by decide, fun t ht => by cases ht⟩, rfl,
    by decide, ⟨[], [], [], 100, [.gcNext], [], _, _, _, rfl, rfl, rfl, by decide, rfl, rfl, by decide⟩⟩

open FlushRun in
/-- **A flush that is requested during the GC pass of an earlier one is lost**: the pass has visited the
    bucket when "x" is stored and then flushed again; at its end it resets the flush time, and a pass
    that starts later removes nothing. -/
theorem flush_lost :
    ∃ s s₁ s₂ p, run Server.step Server.oneBucket
        [.accept 0 5, flush 100, .gcStart [] [] 100, .gcNext, setX] = .ok s ∧
      s.look [120] = some (([1], 0), 1) ∧ s.Requests (flush 100) 100 s₁ ∧
      run Server.step s₁ (.gcNext :: gcRun 101) = .ok s₂ ∧
      Along (Idle [120]) Server.step s₁ (.gcNext :: gcRun 101) ∧ Passes 100 s₁ (.gcNext :: gcRun 101) ∧
      s₂.hash.find [120] = some p ∧ s₂.Readable [120] p.val :=
  ⟨_, _, _, _, rfl, rfl, ⟨0, _, [], _, rfl, rfl, rfl, rfl⟩, rfl, by decide,
    ⟨[.gcNext], [], [], 101, [.gcNext], [], _, _, _, rfl, rfl, rfl, by decide, rfl, rfl, by decide⟩, rfl,
    readable_of_not_expired rfl rfl (by decide)⟩

end Yrmcds.Memcache
