/-
  Closing a socket with data still in its queue (cybozu/tcp.hpp, cybozu/tcp.cpp, cybozu/reactor.hpp).

  `send_close` queues its message like `send` and sets `m_shutdown`; the socket is to be invalidated by
  `write_pending_data` when the queue is empty.  Meanwhile `can_send` is true for everybody, and `_send`
  returns false.  But false is also what `_send` returns after a fatal error, and `with_fd` INVALIDATES
  the socket on it: `on_invalidate` frees the buffers, and what they had is never sent.

  `Watched` runs a socket together with the messages that `_send` and `_sendv` have accepted (returned true
  for), `send_close` included, whether or not the socket survives the call.

  `delivered_iff`: with a kernel that reports no fatal error, everything accepted has gone to the kernel when
  the socket is invalidated, if and only if nothing was sent on it while it was closing (`SendsLate`).
-/
import Yrmcds.Tcp

namespace Yrmcds.Tcp

open Run

/-! ## What a run accepts -/

namespace Event

/-- The answers of the kernel to a call. -/
def answers : Event → List Answer
  | .send _ ks => ks
  | .sendv _ ks => ks
  | .sendClose _ ks => ks
  | .sendvClose _ ks => ks
  | .writePendingData ks => ks
  | .invalidate => []

/-- A call of a member function to which the kernel does not answer with a fatal error. -/
def Calm (e : Event) : Prop := e ≠ .invalidate ∧ Answer.error ∉ e.answers

instance (e : Event) : Decidable e.Calm := inferInstanceAs (Decidable (_ ∧ _))

/-- The call of `_send` or `_sendv` in it, with its message. -/
def attempt (sock : Socket) : Event → Option (Bytes × Except Err Outcome)
  | .send data ks => some (data, sock.send_ data ks)
  | .sendClose data ks => some (data, sock.send_ data ks)
  | .sendv iov ks => if iov.length ≥ MAX_IOVCNT then none else some (iov.flatten, sock.sendv_ iov ks)
  | .sendvClose iov ks => if iov.length ≥ MAX_IOVCNT then none else some (iov.flatten, sock.sendv_ iov ks)
  | _ => none

end Event

namespace State

/-- The message of a call, if `_send` or `_sendv` returns true for it. -/
def accepts (s : State) (e : Event) : List Bytes :=
  match e.attempt s.sock with
  | some (msg, .ok r) => if s.valid && s.sock.canSend msg.length && r.ok then [msg] else []
  | _ => []

/-- A message is sent on a socket that is being closed. -/
def SendsLate (s : State) (e : Event) : Prop :=
  s.valid = true ∧ s.sock.shutdown = true ∧ (e.attempt s.sock).isSome = true

instance (s : State) (e : Event) : Decidable (s.SendsLate e) := inferInstanceAs (Decidable (_ ∧ _))

end State

/-- A socket, and the messages accepted so far. -/
structure Watched where
  state : State
  accepted : List Bytes := []
deriving DecidableEq, Repr

namespace Watched

/-- A new socket. -/
def init (bufcnt : Nat) : Watched := { state := State.init bufcnt }

/-- A call, and the messages it takes over. -/
def step (w : Watched) (e : Event) : Except Err Watched :=
  match w.state.step e with
  | .ok s => .ok ⟨s, w.accepted ++ w.state.accepts e⟩
  | .error x => .error x

/-- **Nothing is lost**: an invalid socket has passed on everything that was accepted. -/
def Delivered (w : Watched) : Prop := w.state.valid = false → w.state.wire = w.accepted.flatten

instance (w : Watched) : Decidable w.Delivered := inferInstanceAs (Decidable (_ → _))

end Watched

/-! ## The queue of a closing socket -/

namespace Socket

/-- A queue that is not empty has bytes in it. -/
def Busy (s : Socket) : Prop := s.queue = [] → s.empty = true

variable {bufcnt : Nat} {s : Socket} {data : Bytes} {ks : List Answer} {r : Outcome}

theorem queue_of_empty (h : s.empty = true) : s.queue = [] := by
  obtain ⟨hp, ht⟩ : s.pending = [] ∧ s.tmpbuf = [] := by simpa [empty] using h
  unfold queue
  rw [hp, ht]
  rfl

theorem Handled.busy (hcan : s.canSend data.length = true) (hb : s.Busy) (hh : s.Handled data ks r)
    (hok : r.ok = true) : r.sock.Busy := by
  cases hh with
  | late down => cases hok
  | failed up herr => cases hok
  | sent up hp => exact hb
  | tmpbuf up hbytes hbig =>
    intro hq
    have hrest := (List.append_eq_nil_iff.mp hq).1
    dsimp only at hrest
    rw [hrest] at hbig
    cases hbig
  | buffered up hbytes hacc hne hbuf =>
    -- pending bytes stay, and where there are none the rest is not empty
    obtain ⟨htmp, -⟩ := canSend_spec hcan up
    intro hq
    have hqueued := (List.append_eq_nil_iff.mp hq).2
    rw [hbuf.bytes, List.append_eq_nil_iff] at hqueued
    have hempty : s.empty = true := hb (by unfold queue; rw [htmp, hqueued.1]; rfl)
    have hp : s.pending = [] := by
      have : s.pending = [] ∧ s.tmpbuf = [] := by simpa [empty] using hempty
      exact this.1
    exact absurd hqueued.2 (hne hp)

/-- A message can fail only because the socket is being closed. -/
theorem Handled.ok (hh : s.Handled data ks r) (hup : s.shutdown = false) (hcalm : Answer.error ∉ ks) :
    r.ok = true ∧ r.sock.shutdown = false := by
  cases hh with
  | late down => rw [hup] at down; cases down
  | failed up herr => exact absurd herr hcalm
  | sent up hp => exact ⟨rfl, up⟩
  | tmpbuf up hbytes hbig => exact ⟨rfl, up⟩
  | buffered up hbytes hacc hne hb => exact ⟨rfl, up⟩

/-- ... and then it fails, with nothing passed to the kernel. -/
theorem Handled.refused (hh : s.Handled data ks r) (hsd : s.shutdown = true) :
    r.ok = false ∧ r.accepted = [] := by
  cases hh with
  | late down => exact ⟨rfl, rfl⟩
  | failed up herr => rw [hsd] at up; cases up
  | sent up hp => rw [hsd] at up; cases up
  | tmpbuf up hbytes hbig => rw [hsd] at up; cases up
  | buffered up hbytes hacc hne hb => rw [hsd] at up; cases up

/-- Without a fatal error the loop over the pending buffers does not fail, and leaves nothing or bytes. -/
theorem pendingLoop_calm {ks : List Answer} (hcalm : Answer.error ∉ ks) (free : List Nat)
    (pending : List Pending) :
    (pendingLoop free ks pending).2.2.2 = true ∧
      ((pendingLoop free ks pending).2.1 = [] ∨ queued (pendingLoop free ks pending).2.1 ≠ []) := by
  induction pending generalizing ks free with
  | nil => exact ⟨rfl, .inl rfl⟩
  | cons t ts ih =>
    have hbytes := sendLoop_spec ks t.unsent
    have hfail : (sendLoop ks t.unsent).ok = true := by
      by_contra hf
      exact hcalm (error_of_sendLoop (Bool.eq_false_iff.mpr hf))
    have hcalm' : Answer.error ∉ (sendLoop ks t.unsent).answers := fun h => hcalm (mem_of_sendLoop h)
    rw [pendingLoop]
    generalize sendLoop ks t.unsent = w at hbytes hfail hcalm' ⊢
    dsimp only
    rw [hfail, if_neg (by decide)]
    split_ifs with hsent
    · exact ih hcalm' (t.buf :: free)
    · refine ⟨rfl, .inr fun hq => hsent ?_⟩
      dsimp only [queued] at hq
      rw [List.flatMap_cons, Pending.unsent_sent hbytes] at hq
      rw [(List.append_eq_nil_iff.mp hq).1]
      rfl

/-- **`write_pending_data`** without a fatal error: it fails exactly when a closing socket has sent all. -/
theorem writePendingData_calm (h : s.Sound bufcnt) {ks : List Answer} (hcalm : Answer.error ∉ ks) :
    Takes bufcnt s [] (s.writePendingData ks) ∧ (s.writePendingData ks).sock.Busy ∧
      (s.writePendingData ks).sock.shutdown = s.shutdown ∧
      ((s.writePendingData ks).ok = false ↔ s.shutdown = true ∧ (s.writePendingData ks).sock.queue = []) := by
  have hbytes := sendLoop_spec ks s.tmpbuf
  have hempty : s.tmpbuf = [] → (sendLoop ks s.tmpbuf).rest = [] := sendLoop_rest_nil ks
  have hfail : (sendLoop ks s.tmpbuf).ok = true := by
    by_contra hf
    exact hcalm (error_of_sendLoop (Bool.eq_false_iff.mpr hf))
  have hcalm' : Answer.error ∉ (sendLoop ks s.tmpbuf).answers := fun h => hcalm (mem_of_sendLoop h)
  unfold writePendingData
  generalize sendLoop ks s.tmpbuf = w at hbytes hempty hfail hcalm' ⊢
  dsimp only
  rw [hfail, if_neg (by decide)]
  split_ifs with hrest
  · -- the temporary buffer is not empty yet
    have hne : w.rest ≠ [] := by simpa using hrest
    have hq : ∀ p, w.rest ++ queued p ≠ [] := fun p hq => hne (List.append_eq_nil_iff.mp hq).1
    refine ⟨⟨?_, h.one.imp_left fun htmp => hempty htmp, h.count, h.pending⟩,
      fun hnil => absurd hnil (hq _), rfl, ⟨fun hf => (by cases hf), fun hs => absurd hs.2 (hq _)⟩⟩
    show w.accepted ++ (w.rest ++ queued s.pending) = s.tmpbuf ++ queued s.pending ++ []
    rw [← List.append_assoc, hbytes, List.append_nil]
  · have hnil : w.rest = [] := by simpa using hrest
    rw [hnil, List.append_nil] at hbytes
    obtain ⟨hok, hleft⟩ := pendingLoop_calm hcalm' s.free s.pending
    obtain ⟨hb, hc, hs⟩ := pendingLoop_spec w.answers s.free h.pending
    specialize hb hok
    generalize pendingLoop s.free w.answers s.pending = r at hok hleft hb hc hs ⊢
    obtain ⟨free, pending, accepted, ok⟩ := r
    dsimp only at hok hleft hb hc hs ⊢
    refine ⟨⟨?_, .inl rfl, hc.trans h.count, hs⟩, ?_, rfl, ?_⟩
    · show w.accepted ++ accepted ++ ([] ++ queued pending) = s.tmpbuf ++ queued s.pending ++ []
      rw [List.nil_append, List.append_assoc, hb, hbytes, List.append_nil]
    · intro hq
      rcases hleft with rfl | hne
      · rfl
      · exact absurd hq hne
    · show (ok && (! pending.isEmpty || ! s.shutdown)) = false ↔ s.shutdown = true ∧ queued pending = []
      rw [hok, Bool.true_and]
      rcases hleft with rfl | hne
      · simp [queued]
      · have hp : pending ≠ [] := fun hp => hne (by rw [hp]; rfl)
        simp [hp, hne]

end Socket

/-! ## One step -/

/-- What an event is: a call of `_send` or `_sendv`, `write_pending_data`, or nothing at all. -/
theorem Event.cases {e : Event} (hcalm : e.Calm) (s : State) :
    (∃ msg f, e.attempt s.sock = some (msg, f) ∧
        (s.step e = s.call msg f ∨ s.step e = s.call msg (f.map State.closing)) ∧
        ∀ {bufcnt}, s.sock.Sound bufcnt → ∃ r, f = .ok r ∧ s.sock.Handled msg e.answers r) ∨
      (∃ ks, e = .writePendingData ks) ∨ (e.attempt s.sock = none ∧ s.step e = .ok s) := by
  cases e with
  | send data ks => exact .inl ⟨_, _, rfl, .inl rfl, fun h => Socket.send_handled h data ks⟩
  | sendClose data ks => exact .inl ⟨_, _, rfl, .inr rfl, fun h => Socket.send_handled h data ks⟩
  | sendv iov ks =>
    unfold State.step Event.attempt
    dsimp only
    by_cases hlen : iov.length ≥ MAX_IOVCNT
    · rw [if_pos hlen, if_pos hlen]
      exact .inr (.inr ⟨rfl, rfl⟩)
    · rw [if_neg hlen, if_neg hlen]
      exact .inl ⟨_, _, rfl, .inl rfl, fun h => Socket.sendv_handled h iov ks⟩
  | sendvClose iov ks =>
    unfold State.step Event.attempt
    dsimp only
    by_cases hlen : iov.length ≥ MAX_IOVCNT
    · rw [if_pos hlen, if_pos hlen]
      exact .inr (.inr ⟨rfl, rfl⟩)
    · rw [if_neg hlen, if_neg hlen]
      exact .inl ⟨_, _, rfl, .inr rfl, fun h => Socket.sendv_handled h iov ks⟩
  | writePendingData ks => exact .inr (.inl ⟨ks, rfl⟩)
  | invalidate => exact absurd rfl hcalm.1

namespace Watched

variable {bufcnt : Nat} {w w' : Watched} {e : Event}

/-- **What the steps keep**, as long as nothing is sent late.  A valid socket owes what is in its queue, and if it
    is being closed there is something in it. -/
structure Owes (bufcnt : Nat) (w : Watched) : Prop where
  queues : w.state.Queues bufcnt
  accepted : w.accepted = w.state.msgs
  busy : w.state.sock.Busy
  closing : w.state.sock.shutdown = true → w.state.sock.queue ≠ []

/-- A valid socket owes what it has accepted; an invalid one is as `Delivered` says. -/
def Kept (bufcnt : Nat) (w : Watched) : Prop := (w.state.valid = true → w.Owes bufcnt) ∧ w.Delivered

theorem kept_init (bufcnt : Nat) : Kept bufcnt (init bufcnt) :=
  ⟨fun hv => ⟨State.kept_init bufcnt hv, rfl, fun _ => rfl, fun hs => nomatch hs⟩, fun hv => nomatch hv⟩

variable {s : State} {r : Outcome} {msg : Bytes}

theorem step_ok (h : w.state.step e = .ok s) :
    w.step e = .ok ⟨s, w.accepted ++ w.state.accepts e⟩ := by
  unfold step
  rw [h]

/-- A call that waits, or comes too late for an invalid socket, is not accepted. -/
theorem accepts_waiting (h : s.valid = false ∨ ∀ msg f, e.attempt s.sock = some (msg, f) →
    s.sock.canSend msg.length = false) : s.accepts e = [] := by
  unfold State.accepts
  cases ha : e.attempt s.sock with
  | none => rfl
  | some x =>
    obtain ⟨msg, f⟩ := x
    cases f with
    | error x => rfl
    | ok r =>
      refine if_neg ?_
      rcases h with hv | hc
      · simp [hv]
      · simp [hc msg _ ha]

theorem accepts_none (h : e.attempt s.sock = none) : s.accepts e = [] :=
  accepts_waiting (.inr fun msg f hf => by rw [h] at hf; cases hf)

/-- Nothing happens to an invalid socket. -/
theorem step_invalid (hv : w.state.valid = false) (hcalm : e.Calm) : w.step e = .ok w := by
  have hstep : w.state.step e = .ok w.state := by
    rcases Event.cases hcalm w.state with ⟨msg, f, -, hs, -⟩ | ⟨ks, rfl⟩ | ⟨-, hs⟩
    · have hcall : ∀ f, w.state.call msg f = .ok w.state := fun f => by
        unfold State.call
        rw [hv]
        rfl
      rcases hs with hs | hs
      · rw [hs, hcall]
      · rw [hs, hcall]
    · unfold State.step
      dsimp only
      rw [hv]
      rfl
    · exact hs
  rw [step_ok hstep, accepts_waiting (.inl hv), List.append_nil]

/-- What was taken, on a socket that stays valid. -/
theorem Owes.finish (ho : w.Owes bufcnt) (hv : w.state.valid = true) {msgs : List Bytes}
    (hok : r.ok = true) (ht : w.state.sock.Takes bufcnt msgs.flatten r) (hb : r.sock.Busy)
    (hq : r.sock.shutdown = true → r.sock.queue ≠ []) :
    Kept bufcnt ⟨w.state.finish msgs r, w.accepted ++ msgs⟩ := by
  have hkept := State.kept_finish ho.queues fun _ => ht
  unfold State.finish at hkept ⊢
  rw [if_pos hok] at hkept ⊢
  refine ⟨fun hv' => ⟨hkept hv', ?_, hb, hq⟩, fun hv' => ?_⟩
  · exact congrArg (· ++ msgs) ho.accepted
  · rw [show w.state.valid = false from hv'] at hv
    cases hv

/-- What was taken and all sent, on a socket that is invalidated then. -/
theorem Owes.finish_closed (ho : w.Owes bufcnt) {msgs : List Bytes} (hok : r.ok = false)
    (ht : w.state.sock.Takes bufcnt msgs.flatten r) (hq : r.sock.queue = []) :
    Kept bufcnt ⟨w.state.finish msgs r, w.accepted ++ msgs⟩ := by
  have hbytes := ht.bytes
  rw [hq, List.append_nil] at hbytes
  unfold State.finish
  rw [if_neg (by rw [hok]; decide)]
  refine ⟨fun hv => (by cases hv), fun _ => ?_⟩
  show w.state.wire ++ r.accepted = (w.accepted ++ msgs).flatten
  rw [hbytes, ← List.append_assoc, ho.queues.bytes, List.flatten_append, ho.accepted]

theorem accepts_taken (ha : e.attempt s.sock = some (msg, .ok r))
    (hv : s.valid = true) (hc : s.sock.canSend msg.length = true) (hok : r.ok = true) :
    s.accepts e = [msg] := by
  unfold State.accepts
  rw [ha]
  simp [hv, hc, hok]

theorem call_ok (hv : s.valid = true)
    (hc : s.sock.canSend msg.length = true) : s.call msg (.ok r) = .ok (s.finish [msg] r) := by
  unfold State.call
  rw [hv, hc]
  rfl

/-- A message that `_send` or `_sendv` takes, by `send` or `sendv` and by `send_close` or `sendv_close`. -/
theorem Owes.message (ho : w.Owes bufcnt) (hv : w.state.valid = true) {ks : List Answer}
    (hc : w.state.sock.canSend msg.length = true) (hh : w.state.sock.Handled msg ks r)
    (hup : w.state.sock.shutdown = false) (hcalm : Answer.error ∉ ks) :
    Kept bufcnt ⟨w.state.finish [msg] r, w.accepted ++ [msg]⟩ ∧
      Kept bufcnt ⟨w.state.finish [msg] (State.closing r), w.accepted ++ [msg]⟩ := by
  obtain ⟨hok, hup'⟩ := hh.ok hup hcalm
  have hb := hh.busy hc ho.busy hok
  have ht : w.state.sock.Takes bufcnt [msg].flatten r := by
    rw [List.flatten_cons, List.flatten_nil, List.append_nil]
    exact hh.takes ho.queues.sound hc hok
  have hopen : r.sock.shutdown = true → r.sock.queue ≠ [] := fun hsd => by
    rw [hup'] at hsd
    cases hsd
  refine ⟨ho.finish hv hok ht hb hopen, ?_⟩
  have hclosing : (State.closing r).ok = ! r.sock.empty := by
    show (r.ok && ! r.sock.empty) = _
    rw [hok, Bool.true_and]
  have ht' : w.state.sock.Takes bufcnt [msg].flatten (State.closing r) :=
    ⟨ht.bytes, ht.sound.one, ht.sound.count, ht.sound.pending⟩
  by_cases hempty : r.sock.empty = true
  · -- all was sent: the socket is invalidated at once
    exact ho.finish_closed (by rw [hclosing, hempty]; rfl) ht' (Socket.queue_of_empty hempty)
  · refine ho.finish hv ?_ ht' hb fun _ hq => hempty (hb hq)
    rw [hclosing, Bool.eq_false_iff.mpr hempty]
    rfl

theorem Owes.writePendingData (ho : w.Owes bufcnt) (hv : w.state.valid = true) {ks : List Answer}
    (hcalm : Answer.error ∉ ks) :
    Kept bufcnt ⟨w.state.finish [] (w.state.sock.writePendingData ks), w.accepted ++ []⟩ := by
  obtain ⟨ht, hb, hsd, hend⟩ := Socket.writePendingData_calm ho.queues.sound hcalm
  cases hok : (w.state.sock.writePendingData ks).ok with
  | true =>
    refine ho.finish hv hok ht hb fun hs hq => ?_
    rw [hend.mpr ⟨hsd ▸ hs, hq⟩] at hok
    cases hok
  | false => exact ho.finish_closed hok ht (hend.mp hok).2

/-- A call that has to wait. -/
theorem step_waiting {f : Except Err Outcome} (ha : e.attempt w.state.sock = some (msg, f))
    (hs : w.state.step e = w.state.call msg f ∨ w.state.step e = w.state.call msg (f.map State.closing))
    (hc : w.state.sock.canSend msg.length = false) : w.step e = .ok w := by
  have hwait : ∀ f, w.state.call msg f = .ok w.state := fun f => by
    unfold State.call
    rw [hc, Bool.not_false, Bool.or_true]
    rfl
  have hstep : w.state.step e = .ok w.state := by
    rcases hs with hs | hs
    · rw [hs, hwait]
    · rw [hs, hwait]
  rw [step_ok hstep, accepts_waiting (.inr fun msg' f' hf' => ?_), List.append_nil]
  rw [ha, Option.some.injEq, Prod.mk.injEq] at hf'
  rw [← hf'.1]
  exact hc

/-- **One step**, with nothing sent late. -/
theorem kept_step (h : w.Kept bufcnt) (hcalm : e.Calm) (hl : ¬ w.state.SendsLate e) :
    ∃ w', w.step e = .ok w' ∧ w'.Kept bufcnt := by
  by_cases hv : w.state.valid = true
  swap
  · exact ⟨w, step_invalid (Bool.eq_false_iff.mpr hv) hcalm, h⟩
  have ho := h.1 hv
  rcases Event.cases hcalm w.state with ⟨msg, f, ha, hs, hf⟩ | ⟨ks, rfl⟩ | ⟨ha, hs⟩
  · have hup : w.state.sock.shutdown = false := by
      by_contra hsd
      exact hl ⟨hv, by simpa using hsd, by rw [ha]; rfl⟩
    obtain ⟨r, rfl, hh⟩ := hf ho.queues.sound
    by_cases hc : w.state.sock.canSend msg.length = true
    · obtain ⟨hkept, hclosing⟩ := ho.message hv hc hh hup hcalm.2
      have hacc := accepts_taken ha hv hc (hh.ok hup hcalm.2).1
      rcases hs with hs | hs
      · exact ⟨_, step_ok (hs.trans (call_ok hv hc)), hacc ▸ hkept⟩
      · exact ⟨_, step_ok (hs.trans (call_ok hv hc)), hacc ▸ hclosing⟩
    · exact ⟨w, step_waiting ha hs (Bool.eq_false_iff.mpr hc), h⟩
  · refine ⟨_, step_ok (if_pos hv), ?_⟩
    rw [accepts_none rfl]
    exact ho.writePendingData hv hcalm.2
  · exact ⟨w, by rw [step_ok hs, accepts_none ha, List.append_nil], h⟩

/-! ## A message that is sent late -/

/-- Something that was accepted is lost. -/
def Lost (w : Watched) : Prop := w.state.valid = false ∧ w.state.wire ≠ w.accepted.flatten

/-- **A message sent on a closing socket costs what is in its queue.** -/
theorem lost_of_late (h : w.Kept bufcnt) (hcalm : e.Calm) (hl : w.state.SendsLate e) :
    ∃ w', w.step e = .ok w' ∧ w'.Lost := by
  obtain ⟨hv, hsd, hsome⟩ := hl
  have ho := h.1 hv
  rcases Event.cases hcalm w.state with ⟨msg, f, ha, hs, hf⟩ | ⟨ks, rfl⟩ | ⟨ha, -⟩
  · obtain ⟨r, rfl, hh⟩ := hf ho.queues.sound
    have hc : w.state.sock.canSend msg.length = true := by
      unfold Socket.canSend
      rw [if_pos hsd]
    obtain ⟨hok, hnone⟩ := hh.refused hsd
    have hacc : w.state.accepts e = [] := by
      unfold State.accepts
      rw [ha]
      simp [hok]
    have hlost : ∀ r' : Outcome, r'.ok = false → r'.accepted = [] →
        Lost ⟨w.state.finish [msg] r', w.accepted ++ []⟩ := by
      intro r' hok' hnone'
      unfold State.finish
      rw [if_neg (by rw [hok']; decide)]
      refine ⟨rfl, fun hwire => ho.closing hsd ?_⟩
      rw [List.append_nil, ho.accepted, ← ho.queues.bytes] at hwire
      have hwire : w.state.wire ++ r'.accepted = w.state.wire ++ w.state.sock.queue := hwire
      rw [hnone', List.append_cancel_left_eq] at hwire
      exact hwire.symm
    rcases hs with hs | hs
    · exact ⟨_, step_ok (hs.trans (call_ok hv hc)), hacc ▸ hlost r hok hnone⟩
    · refine ⟨_, step_ok (hs.trans (call_ok hv hc)), hacc ▸ hlost (State.closing r) ?_ hnone⟩
      show (r.ok && _) = false
      rw [hok, Bool.false_and]
  · cases hsome
  · rw [ha] at hsome
    cases hsome

theorem Lost.run (hl : w.Lost) {es : List Event} (hcalm : ∀ e ∈ es, e.Calm) : Run.run step w es = .ok w := by
  induction es with
  | nil => rfl
  | cons e es ih =>
    rw [run_cons_ok (step_invalid hl.1 (hcalm e List.mem_cons_self))]
    exact ih fun f hf => hcalm f (List.mem_cons_of_mem _ hf)

/-- A run from any state that the steps keep. -/
theorem run_delivered (es : List Event) : ∀ {w : Watched}, w.Kept bufcnt → (∀ e ∈ es, e.Calm) →
    ∃ w', Run.run step w es = .ok w' ∧
      (w'.Delivered ↔ Along (fun w e => ¬ w.state.SendsLate e) step w es) := by
  induction es with
  | nil => intro w h _; exact ⟨w, rfl, fun _ => trivial, fun _ => h.2⟩
  | cons e es ih =>
    intro w h hcalm
    have he : e.Calm := hcalm e List.mem_cons_self
    have hes : ∀ f ∈ es, f.Calm := fun f hf => hcalm f (List.mem_cons_of_mem _ hf)
    by_cases hl : w.state.SendsLate e
    · obtain ⟨w1, hstep, hlost⟩ := lost_of_late h he hl
      refine ⟨w1, by rw [run_cons_ok hstep, hlost.run hes], fun hd => ?_, fun ha => absurd hl ha.1⟩
      exact absurd (hd hlost.1) hlost.2
    · obtain ⟨w1, hstep, hkept⟩ := kept_step h he hl
      obtain ⟨w', hrun, hiff⟩ := ih hkept hes
      refine ⟨w', by rw [run_cons_ok hstep, hrun], ?_⟩
      rw [along_cons_ok hstep, hiff]
      exact ⟨fun ha => ⟨hl, ha⟩, And.right⟩

end Watched

/-- **Closing does not drop what is queued, if and only if nothing is sent on the closing socket.**  For every
    sequence of calls and every behaviour of a kernel without fatal errors: when the socket is invalid, all that
    was accepted has been passed to the kernel, exactly if no message was sent while the socket was closing. -/
theorem delivered_iff (bufcnt : Nat) (es : List Event) (hcalm : ∀ e ∈ es, e.Calm) :
    ∃ w, run Watched.step (Watched.init bufcnt) es = .ok w ∧
      ((w.state.valid = false → w.state.wire = w.accepted.flatten) ↔
        Along (fun w e => ¬ w.state.SendsLate e) Watched.step (Watched.init bufcnt) es) :=
  Watched.run_delivered es (Watched.kept_init bufcnt) hcalm

/-- `send_close` of `ab` of which the kernel takes the first byte, and `write_pending_data` when it takes the rest:
    the socket is invalid, and all is sent. -/
theorem close_delivers :
    let es : List Event := [.sendClose [97, 98] [.sent 1, .EAGAIN], .writePendingData [.sent 1]]
    ∃ w, run Watched.step (Watched.init 1) es = .ok w ∧ w.state.valid = false ∧
      w.state.wire = [97, 98] ∧
      ((w.state.valid = false → w.state.wire = w.accepted.flatten) ↔
        Along (fun w e => ¬ w.state.SendsLate e) Watched.step (Watched.init 1) es) := by
  intro es
  obtain ⟨w, hrun, hiff⟩ := delivered_iff 1 es (by decide)
  refine ⟨w, hrun, ?_, ?_, hiff⟩
  · cases hrun; rfl
  · cases hrun; rfl

/-- **`send_close` loses data.**  The kernel takes the first byte of `ab`, the second waits, and the socket is being
    closed.  A later `send` of `c` fails, as it should, and with it the socket is invalidated: `b` was accepted and
    is never passed to the kernel. -/
theorem late_send_drops :
    let es : List Event := [.sendClose [97, 98] [.sent 1, .EAGAIN], .send [99] []]
    (∀ e ∈ es, e.Calm) ∧
      (run Watched.step (Watched.init 1) es).toOption.map (fun w => (w.state.valid, w.state.wire, w.accepted))
        = some (false, [97], [[97, 98]]) := by
  decide

end Yrmcds.Tcp
