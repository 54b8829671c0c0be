/-
  Waiting for room in the queue of a socket (cybozu/tcp.hpp, cybozu/tcp.cpp, `with_fd` and `invalidate` of
  cybozu/reactor.hpp).

  A sender whose message does not fit sleeps in `m_cond_write.wait`, and `Tcp.lean` takes its call as one that
  has not happened.  Here it is taken apart: the socket has its mutex, its condition variable and its threads.
  What a thread does with the mutex in its hands is one step; between giving it back and `notify_all`, and
  around the compare-exchange of `m_valid`, the other threads run.

  `sleeper_is_roused`: no wake-up is lost.  A sender sleeps only while its message does not fit into the queue
  of a valid socket that is not being closed, or some thread is about to call `notify_all`.
-/
import Yrmcds.Tcp

namespace Yrmcds.Tcp

open Run

/-! ## Room does not come from sending -/

theorem room_concat (free : List Nat) (pending : List Pending) (t : Pending) :
    room free (pending ++ [t]) = free.length * SENDBUF_SIZE + SENDBUF_SIZE - t.data.length := by
  unfold room
  rw [List.getLast?_concat]

variable {pending pending' : List Pending} {free : List Nat}

theorem le_room (free : List Nat) (h : ∀ t ∈ pending, t.Sound) :
    free.length * SENDBUF_SIZE ≤ room free pending := by
  unfold room
  rcases getLast_cases pending with ⟨rfl, hlast⟩ | ⟨l, t, rfl, hlast, -⟩
  · rw [hlast]
  · have := (h t (by simp)).small
    rw [hlast]
    dsimp only
    omega

/-- Buffering takes room. -/
structure Fuller (free free' : List Nat) (pending pending' : List Pending) : Prop where
  room : room free' pending' ≤ room free pending
  ne_nil : pending ≠ [] → pending' ≠ []

theorem Fuller.refl (free : List Nat) (pending : List Pending) : Fuller free free pending pending :=
  ⟨Nat.le_refl _, id⟩

theorem Fuller.trans {free1 free2 : List Nat} {pending1 pending2 : List Pending}
    (h : Fuller free free1 pending pending1) (h' : Fuller free1 free2 pending1 pending2) :
    Fuller free free2 pending pending2 := ⟨h'.room.trans h.room, h'.ne_nil ∘ h.ne_nil⟩

theorem Fuller.last {l : List Pending} {t t' : Pending}
    (h : t.data.length ≤ t'.data.length) : Fuller free free (l ++ [t]) (l ++ [t']) := by
  refine ⟨?_, fun _ => by simp⟩
  rw [room_concat, room_concat]
  omega

theorem Fuller.fresh {b : Nat} (h : ∀ t ∈ pending, t.Sound)
    (t : Pending) : Fuller (b :: free) free pending (pending ++ [t]) := by
  refine ⟨?_, fun _ => by simp⟩
  have hroom := le_room (b :: free) h
  rw [List.length_cons, Nat.succ_mul] at hroom
  rw [room_concat]
  omega

theorem fuller_fillLast {data rest : Bytes}
    (hf : fillLast pending data = .ok (pending', rest)) : Fuller free free pending pending' := by
  unfold fillLast at hf
  rcases getLast_cases pending with ⟨rfl, hlast⟩ | ⟨l, t, rfl, hlast, hinit⟩
  · rw [hlast] at hf
    cases hf
    exact .refl free []
  · rw [hlast, hinit] at hf
    dsimp only at hf
    split_ifs at hf
    cases hf
    exact .last (by simp)

theorem fuller_fillFresh {free' : List Nat} {data : Bytes}
    (h : ∀ t ∈ pending, t.Sound) (hf : fillFresh free pending data = .ok (free', pending')) :
    Fuller free free' pending pending' := by
  fun_induction fillFresh free pending data with
  | case1 free pending => cases hf; exact .refl _ _
  | case2 => cases hf
  | case3 b free pending data _ toWrite ih =>
    have hle : toWrite ≤ SENDBUF_SIZE := Nat.min_le_right ..
    have hsound : Pending.Sound { buf := b, data := data.take toWrite } :=
      ⟨(List.length_take_le ..).trans hle, Nat.zero_le _⟩
    exact (Fuller.fresh h _).trans (ih (sound_concat h hsound) hf)

theorem fuller_fillv {free' : List Nat} {v : List Bytes}
    (h : ∀ t ∈ pending, t.Sound) (hv : ∀ x ∈ v, x ≠ []) (hf : fillv free pending v = .ok (free', pending')) :
    Fuller free free' pending pending' := by
  have hfresh : ∀ {b : Nat} {v : List Bytes}, (∀ x ∈ v, x ≠ []) →
      Pending.Sound { buf := b, data := (fillBuf SENDBUF_SIZE [] v).1 } := by
    intro b v hv
    have hlen := (fillBuf_turn SENDBUF_SIZE [] hv).length
    rw [List.length_nil] at hlen
    exact ⟨by dsimp only; omega, Nat.zero_le _⟩
  fun_induction fillv free pending v with
  | case1 free pending => cases hf; exact .refl _ _
  | case2 => cases hf
  | case3 pending x v t hlast hfull b free r ih =>
    exact (Fuller.fresh h _).trans (ih (sound_concat h (hfresh hv)) (fillBuf_turn _ [] hv).ne_nil hf)
  | case4 free pending x v t hlast hfull hlt r ih =>
    obtain ⟨l, t, rfl, hlast', hinit⟩ := (getLast_cases pending).resolve_left fun hnil => by
      rw [hnil.2] at hlast
      cases hlast
    cases hlast.symm.trans hlast'
    rw [hinit] at ih hf
    have hturn := fillBuf_turn (SENDBUF_SIZE - t.data.length) t.data hv
    have hlen : r.1.length = _ := hturn.length
    have hsent := (h t (by simp)).sent
    have hsound : Pending.Sound { t with data := r.1 } := ⟨by dsimp only; omega, by dsimp only; omega⟩
    have hrest := ih (sound_concat (fun u hu => h u (List.mem_append_left _ hu)) hsound) hturn.ne_nil hf
    exact (Fuller.last (by dsimp only; omega)).trans hrest
  | case5 => cases hf
  | case6 => cases hf
  | case7 pending x v hlast b free r ih =>
    exact (Fuller.fresh h _).trans (ih (sound_concat h (hfresh hv)) (fillBuf_turn _ [] hv).ne_nil hf)

section Monotone

variable {s : Socket} {bufcnt n : Nat} {data : Bytes} {iov : List Bytes} {ks : List Answer} {r : Outcome}

/-- Nobody waits for a socket that is being closed. -/
theorem canSend_of_shutdown (h : s.shutdown = true) : s.canSend n = true := if_pos h

theorem canSend_of_empty (h : s.empty = true) : s.canSend n = true := by
  obtain ⟨hp, ht⟩ : s.pending = [] ∧ s.tmpbuf = [] := by simpa [Socket.empty] using h
  simp [Socket.canSend, hp, ht]

/-- A queue that is not being closed and has become fuller has room for no more than before. -/
theorem canSend_of_fuller (hup : s.shutdown = false)
    (htmp : s.tmpbuf = []) (hp : s.pending ≠ []) (hf : Fuller s.free free s.pending pending)
    (hn : Socket.canSend { s with free := free, pending := pending } n = true) : s.canSend n = true := by
  have hle : n ≤ room free pending :=
    ((Socket.canSend_spec hn hup).2).resolve_left (hf.ne_nil hp)
  unfold Socket.canSend
  rw [hup, htmp]
  simp only [Bool.false_eq_true, if_false, List.isEmpty_nil, Bool.not_true]
  split_ifs
  · rfl
  · exact decide_eq_true (hle.trans hf.room)

/-- Sending makes no room, if buffering does not. -/
theorem canSend_of_waiting {len : Nat} (hcan : s.canSend len = true)
    (h : s.shutdown = false → s.tmpbuf = [] → s.pending ≠ [] → len ≤ s.capacity → s.canSend n = true) :
    s.canSend n = true := by
  by_cases hsd : s.shutdown = true
  · exact canSend_of_shutdown hsd
  have hup := Bool.eq_false_iff.mpr hsd
  obtain ⟨htmp, hfits⟩ := Socket.canSend_spec hcan hup
  by_cases hp : s.pending = []
  · exact canSend_of_empty (by simp [Socket.empty, hp, htmp])
  · exact h hup htmp hp (hfits.resolve_left hp)

theorem canSend_of_send (h : s.Sound bufcnt) (hcan : s.canSend data.length = true)
    (hr : s.send_ data ks = .ok r) (hn : r.sock.canSend n = true) : s.canSend n = true := by
  refine canSend_of_waiting hcan fun hup htmp hp hfits => ?_
  have hpe : s.pending.isEmpty = false := by simpa using hp
  unfold Socket.send_ at hr
  rw [if_neg (Bool.eq_false_iff.mp hup), hpe] at hr
  simp only [Bool.false_eq_true, if_false, Bool.not_true, Bool.false_and, Nat.not_lt.mpr hfits] at hr
  obtain ⟨pending1, rest, h1, -, -, hsound, -⟩ := fillLast_spec h.pending hfits
  rw [h1] at hr
  dsimp only at hr
  rcases h2 : fillFresh s.free pending1 rest with x | ⟨free, pending⟩
  · rw [h2] at hr; cases hr
  rw [h2] at hr
  cases hr
  exact canSend_of_fuller hup htmp hp ((fuller_fillLast h1).trans (fuller_fillFresh hsound h2)) hn

theorem canSend_of_sendv (h : s.Sound bufcnt) (hcan : s.canSend iov.flatten.length = true)
    (hr : s.sendv_ iov ks = .ok r) (hn : r.sock.canSend n = true) : s.canSend n = true := by
  refine canSend_of_waiting hcan fun hup htmp hp hfits => ?_
  have hpe : s.pending.isEmpty = false := by simpa using hp
  rw [← Socket.flatten_filter_isEmpty] at hfits
  unfold Socket.sendv_ at hr
  rw [if_neg (Bool.eq_false_iff.mp hup), hpe] at hr
  simp only [Bool.false_eq_true, if_false, Bool.not_true, Bool.false_and, Nat.not_lt.mpr hfits] at hr
  rcases h1 : fillv s.free s.pending (iov.filter fun x => ! x.isEmpty) with x | ⟨free, pending⟩
  · rw [h1] at hr; cases hr
  rw [h1] at hr
  cases hr
  have hne : ∀ x ∈ iov.filter (fun x => ! x.isEmpty), x ≠ [] := by
    intro x hx
    simpa using (List.mem_filter.mp hx).2
  exact canSend_of_fuller hup htmp hp (fuller_fillv h.pending hne h1) hn

end Monotone

/-! ## Threads -/

namespace Wait

/-- Where a thread is: outside, before `lock_guard g(m_lock)`, in `m_cond_write.wait(g)`, before
    `m_cond_write.notify_all()`, before the compare-exchange of `m_valid`, before `free_buffers()`. -/
inductive Pc where
  | idle
  | enter (e : Event)
  | asleep (e : Event)
  | notify
  | failed
  | invalidating
deriving DecidableEq, Repr

/-- A thread that has `notify_all` before it, unless another has. -/
def Pc.rouses : Pc → Bool
  | .notify => true
  | .failed => true
  | .invalidating => true
  | _ => false

/-- A socket, and where its threads are. -/
structure Shared where
  sock : Socket
  valid : Bool := true                             -- `m_valid`
  pc : Nat → Pc := fun _ => .idle

/-- A thread calls a member function, or makes its next step; or it wakes up without a reason. -/
inductive Act where
  | call (u : Nat) (e : Event)
  | step (u : Nat)
  | spurious (u : Nat)
deriving DecidableEq, Repr

/-- `m_shutdown = true; if( empty() ) return false;`, after `_send` or `_sendv` has returned true. -/
def closes (r : Outcome) : Outcome := if r.ok then State.closing r else r

namespace Shared

variable (s : Shared)

/-- A thread is somewhere else. -/
def setPc (u : Nat) (pc : Pc) : Shared := { s with pc := Function.update s.pc u pc }

/-- The function has returned true, and the thread goes on at `pc`; or it has returned false. -/
def settle (u : Nat) (pc : Pc) (r : Outcome) : Shared :=
  { s with sock := r.sock, pc := Function.update s.pc u (if r.ok then pc else .failed) }

/-- `while( ! can_send(len) ) m_cond_write.wait(g);`, and then `f`. -/
def message (u : Nat) (e : Event) (len : Nat) (f : Except Err Outcome) (pc : Pc) :
    Except Err Shared :=
  if s.sock.canSend len then
    match f with
    | .ok r => .ok (s.settle u pc r)
    | .error x => .error x
  else .ok (s.setPc u (.asleep e))

/-- What a thread does with the mutex in its hands. -/
def perform (u : Nat) : Event → Except Err Shared
  | .send data ks => s.message u (.send data ks) data.length (s.sock.send_ data ks) .idle
  | .sendClose data ks =>
    s.message u (.sendClose data ks) data.length ((s.sock.send_ data ks).map closes) .notify
  | .sendv iov ks =>
    if iov.length ≥ MAX_IOVCNT then .ok (s.setPc u .idle)
    else s.message u (.sendv iov ks) iov.flatten.length (s.sock.sendv_ iov ks) .idle
  | .sendvClose iov ks =>
    if iov.length ≥ MAX_IOVCNT then .ok (s.setPc u .idle)
    else s.message u (.sendvClose iov ks) iov.flatten.length ((s.sock.sendv_ iov ks).map closes) .notify
  | .writePendingData ks =>
    -- with something left in `m_tmpbuf`, nobody is notified
    let r := s.sock.writePendingData ks
    .ok (s.settle u (if r.sock.tmpbuf.isEmpty then .notify else .idle) r)
  | .invalidate => .ok (s.setPc u .failed)

/-- `notify_all`. -/
def wake : Shared :=
  { s with pc := fun v =>
      match s.pc v with
      | .asleep e => .enter e
      | pc => pc }

/-- The next step of a thread. -/
def advance (u : Nat) : Pc → Except Err Shared
  | .idle => .ok s
  | .asleep _ => .ok s
  | .enter e => s.perform u e
  | .notify => .ok (s.wake.setPc u .idle)
  | .failed =>
    if s.valid then .ok { s.setPc u .invalidating with valid := false } else .ok (s.setPc u .idle)
  | .invalidating => .ok { s.setPc u .notify with sock := s.sock.freeBuffers }

/-- One step. -/
def step : Act → Except Err Shared
  | .call u e =>
    match s.pc u with
    -- `with_fd`
    | .idle => if s.valid then .ok (s.setPc u (.enter e)) else .ok s
    | _ => .ok s
  | .step u => s.advance u (s.pc u)
  | .spurious u =>
    match s.pc u with
    | .asleep e => .ok (s.setPc u (.enter e))
    | _ => .ok s

/-- A new socket, without threads in it. -/
def init (bufcnt : Nat) : Shared := { sock := { free := List.range bufcnt } }

end Shared

/-- The length that `can_send` is asked about. -/
def length : Event → Nat
  | .send data _ => data.length
  | .sendClose data _ => data.length
  | .sendv iov _ => iov.flatten.length
  | .sendvClose iov _ => iov.flatten.length
  | _ => 0

/-- Someone will call `notify_all`, or is about to. -/
def Shared.Roused (s : Shared) : Prop := ∃ v, (s.pc v).rouses = true

/-- What holds at every moment. -/
structure Inv (s : Shared) : Prop where
  sound : ∃ bufcnt, s.sock.Sound bufcnt
  /-- Whoever sleeps although its message would fit is going to be notified. -/
  asleep : ∀ u e, s.pc u = .asleep e → s.sock.canSend (length e) = true → s.Roused
  /-- Whoever has invalidated the socket has notified the sleepers, or is going to. -/
  gone : s.valid = false → (∃ v, s.pc v = .invalidating) ∨
    s.sock.shutdown = true ∧ ∀ u e, s.pc u = .asleep e → ∃ v, s.pc v = .notify

variable {e : Event} {sock : Socket}

section Steps

variable {s s' : Shared} {u : Nat}

/-- Nobody sleeps for good at a socket that has been invalidated. -/
theorem Inv.roused (h : Inv s) (hinv : s.valid = false) (hu : s.pc u = .asleep e) :
    ∃ v, s.pc v = .invalidating ∨ s.pc v = .notify := by
  rcases h.gone hinv with ⟨v, hv⟩ | ⟨-, hall⟩
  · exact ⟨v, .inl hv⟩
  · exact (hall u e hu).imp fun v => .inr

/-- Whoever sleeps after a thread has moved slept before. -/
theorem asleep_of_update {f : Nat → Pc} {pc : Pc} (hpc : ∀ e, pc ≠ .asleep e) {v : Nat}
    (hv : Function.update f u pc v = .asleep e) : f v = .asleep e := by
  by_cases hvu : v = u
  · rw [hvu, Function.update_self] at hv
    exact absurd hv (hpc e)
  · rwa [Function.update_of_ne hvu] at hv

/-- A thread that was not going to notify anyone moves; the others are where they were. -/
theorem pc_of_rouses (hu : (s.pc u).rouses = false) (pc : Pc) {v : Nat} {q : Pc} (hv : s.pc v = q)
    (hq : q.rouses = true) : Function.update s.pc u pc v = q := by
  rw [Function.update_of_ne, hv]
  rintro rfl
  rw [hv, hq] at hu
  cases hu

/-- A thread that was not going to notify anyone has moved, and the queue may have changed: there is no more
    room in it, or the thread is going to notify the others. -/
theorem Inv.move (h : Inv s) (hu : (s.pc u).rouses = false) {pc : Pc}
    (hsound : ∃ bufcnt, sock.Sound bufcnt) (hpc : ∀ e, pc ≠ .asleep e)
    (hroom : pc.rouses = true ∨ ∀ n, sock.canSend n = true → s.sock.canSend n = true)
    (hsd : s.sock.shutdown = true → sock.shutdown = true) :
    Inv { s with sock := sock, pc := Function.update s.pc u pc } := by
  refine ⟨hsound, fun v e hv hcan => ?_, fun hinv => ?_⟩
  · rcases hroom with hr | hmono
    · exact ⟨u, (congrArg Pc.rouses (Function.update_self ..)).trans hr⟩
    · obtain ⟨w, hw⟩ := h.asleep v e (asleep_of_update hpc hv) (hmono _ hcan)
      exact ⟨w, (congrArg Pc.rouses (pc_of_rouses hu _ rfl hw)).trans hw⟩
  · rcases h.gone hinv with ⟨v, hv⟩ | ⟨hdown, hall⟩
    · exact .inl ⟨v, pc_of_rouses hu _ hv rfl⟩
    · refine .inr ⟨hsd hdown, fun v e hv => ?_⟩
      obtain ⟨w, hw⟩ := hall v e (asleep_of_update hpc hv)
      exact ⟨w, pc_of_rouses hu _ hw rfl⟩

/-- A thread goes to sleep: there is no room for it. -/
theorem Inv.sleep (h : Inv s) (hu : (s.pc u).rouses = false)
    (hcan : ¬ s.sock.canSend (length e) = true) : Inv (s.setPc u (.asleep e)) := by
  refine ⟨h.sound, fun v e' hv hcan' => ?_, fun hinv => ?_⟩
  · by_cases hvu : v = u
    · subst hvu
      have hv : Function.update s.pc v (.asleep e) v = .asleep e' := hv
      rw [Function.update_self] at hv
      cases hv
      exact absurd hcan' hcan
    · have hv : Function.update s.pc u (.asleep e) v = .asleep e' := hv
      rw [Function.update_of_ne hvu] at hv
      obtain ⟨w, hw⟩ := h.asleep v e' hv hcan'
      exact ⟨w, (congrArg Pc.rouses (pc_of_rouses hu _ rfl hw)).trans hw⟩
  · rcases h.gone hinv with ⟨v, hv⟩ | ⟨hdown, -⟩
    · exact .inl ⟨v, pc_of_rouses hu _ hv rfl⟩
    · exact absurd (canSend_of_shutdown hdown) hcan

theorem shutdown_of_handled {data : Bytes} {ks : List Answer} {r : Outcome}
    (h : sock.Handled data ks r) : r.sock.shutdown = sock.shutdown := by
  cases h <;> rfl

/-- What `_send` and `_sendv` do to those who wait. -/
def Delivers (sock : Socket) (len : Nat) (f : Except Err Outcome) : Prop :=
  ∀ bufcnt, sock.Sound bufcnt → sock.canSend len = true → ∃ r, f = .ok r ∧
    r.sock.Sound bufcnt ∧ r.sock.shutdown = sock.shutdown ∧
    (r.ok = true → ∀ n, r.sock.canSend n = true → sock.canSend n = true)

theorem sound_of_handled {bufcnt : Nat} (h : sock.Sound bufcnt) {data : Bytes}
    (hcan : sock.canSend data.length = true) {ks : List Answer} {r : Outcome} (hh : sock.Handled data ks r) :
    r.sock.Sound bufcnt := by
  cases hr : r.ok with
  | true => exact (hh.takes h hcan hr).sound
  | false =>
    cases hh with
    | late _ => exact h
    | failed _ _ => exact h
    | sent _ _ => cases hr
    | tmpbuf _ _ _ => cases hr
    | buffered _ _ _ _ _ => cases hr

theorem delivers_send (sock : Socket) (data : Bytes) (ks : List Answer) :
    Delivers sock data.length (sock.send_ data ks) := by
  intro bufcnt h hcan
  obtain ⟨r, hr, hh⟩ := Socket.send_handled h data ks
  exact ⟨r, hr, sound_of_handled h hcan hh, shutdown_of_handled hh,
    fun _ n hn => canSend_of_send h hcan hr hn⟩

theorem delivers_sendv (sock : Socket) (iov : List Bytes) (ks : List Answer) :
    Delivers sock iov.flatten.length (sock.sendv_ iov ks) := by
  intro bufcnt h hcan
  obtain ⟨r, hr, hh⟩ := Socket.sendv_handled h iov ks
  exact ⟨r, hr, sound_of_handled h hcan hh, shutdown_of_handled hh,
    fun _ n hn => canSend_of_sendv h hcan hr hn⟩

/-- A message without `m_shutdown`. -/
theorem Inv.message (h : Inv s) (hu : (s.pc u).rouses = false) {f : Except Err Outcome}
    (hf : Delivers s.sock (length e) f) : ∃ s', s.message u e (length e) f .idle = .ok s' ∧ Inv s' := by
  unfold Shared.message
  split_ifs with hcan
  · obtain ⟨bufcnt, hsound⟩ := h.sound
    obtain ⟨r, rfl, hsound', hsd, hmono⟩ := hf bufcnt hsound hcan
    refine ⟨_, rfl, h.move hu ⟨bufcnt, hsound'⟩ ?_ ?_ fun hd => hsd.trans hd⟩
    · intro e
      split_ifs <;> exact fun he => by cases he
    · cases hok : r.ok with
      | true => exact .inr (hmono hok)
      | false => exact .inl rfl
  · exact ⟨_, rfl, h.sleep hu hcan⟩

/-- A message with `m_shutdown`. -/
theorem Inv.messageClose (h : Inv s) (hu : (s.pc u).rouses = false) {f : Except Err Outcome}
    (hf : Delivers s.sock (length e) f) :
    ∃ s', s.message u e (length e) (f.map closes) .notify = .ok s' ∧ Inv s' := by
  unfold Shared.message
  split_ifs with hcan
  · obtain ⟨bufcnt, hsound⟩ := h.sound
    obtain ⟨r, rfl, hsound', hsd, -⟩ := hf bufcnt hsound hcan
    refine ⟨_, rfl, h.move hu ⟨bufcnt, ?_⟩ ?_ (.inl ?_) ?_⟩
    · unfold closes
      split_ifs
      · exact ⟨hsound'.one, hsound'.count, hsound'.pending⟩
      · exact hsound'
    · intro e
      split_ifs <;> exact fun he => by cases he
    · split_ifs <;> rfl
    · intro hd
      unfold closes
      split_ifs
      · rfl
      · exact hsd.trans hd
  · exact ⟨_, rfl, h.sleep hu hcan⟩

theorem shutdown_writePendingData (sock : Socket) (ks : List Answer) :
    (sock.writePendingData ks).sock.shutdown = sock.shutdown := by
  unfold Socket.writePendingData
  dsimp only
  split_ifs <;> rfl

theorem Inv.writePendingData (h : Inv s) (hu : (s.pc u).rouses = false) (ks : List Answer) :
    Inv (s.settle u (if (s.sock.writePendingData ks).sock.tmpbuf.isEmpty then .notify else .idle)
      (s.sock.writePendingData ks)) := by
  obtain ⟨bufcnt, hsound⟩ := h.sound
  have hsd := shutdown_writePendingData s.sock ks
  refine h.move hu ⟨bufcnt, Socket.writePendingData_sound hsound ks⟩ ?_ ?_ fun hd => hsd.trans hd
  · intro e
    split_ifs <;> exact fun he => by cases he
  · split_ifs with hok htmp
    · exact .inl rfl
    · -- the temporary buffer is not empty: nothing fits, unless the socket is being closed
      refine .inr fun n hn => ?_
      unfold Socket.canSend at hn ⊢
      rw [hsd] at hn
      split_ifs at hn with hdown htmp'
      · rw [if_pos hdown]
      · exact absurd (by simpa using htmp) htmp'
      · exact absurd (by simpa using htmp) htmp'
    · exact .inl rfl

theorem Inv.perform (h : Inv s) (hu : (s.pc u).rouses = false) (e : Event) :
    ∃ s', s.perform u e = .ok s' ∧ Inv s' := by
  have hstay : ∀ pc : Pc, (∀ e, pc ≠ .asleep e) → Inv (s.setPc u pc) :=
    fun pc hpc => h.move hu h.sound hpc (.inr fun _ hn => hn) id
  cases e with
  | send data ks => exact h.message hu (e := .send data ks) (delivers_send s.sock data ks)
  | sendClose data ks => exact h.messageClose hu (e := .sendClose data ks) (delivers_send s.sock data ks)
  | sendv iov ks =>
    rw [Shared.perform]
    split_ifs
    · exact ⟨_, rfl, hstay .idle fun e he => by cases he⟩
    · exact h.message hu (e := .sendv iov ks) (delivers_sendv s.sock iov ks)
  | sendvClose iov ks =>
    rw [Shared.perform]
    split_ifs
    · exact ⟨_, rfl, hstay .idle fun e he => by cases he⟩
    · exact h.messageClose hu (e := .sendvClose iov ks) (delivers_sendv s.sock iov ks)
  | writePendingData ks => exact ⟨_, rfl, h.writePendingData hu ks⟩
  | invalidate => exact ⟨_, rfl, hstay .failed fun e he => by cases he⟩

/-- `notify_all`: nobody sleeps. -/
theorem Inv.notify (h : Inv s) (hu : s.pc u = .notify) : Inv (s.wake.setPc u .idle) := by
  have hnone : ∀ v e, (s.wake.setPc u .idle).pc v ≠ .asleep e := by
    intro v e hv
    have hv : s.wake.pc v = .asleep e := asleep_of_update (fun _ he => by cases he) hv
    unfold Shared.wake at hv
    dsimp only at hv
    cases hpc : s.pc v <;> rw [hpc] at hv <;> cases hv
  refine ⟨h.sound, fun v e hv => absurd hv (hnone v e), fun hinv => ?_⟩
  rcases h.gone hinv with ⟨v, hv⟩ | ⟨hdown, -⟩
  · refine .inl ⟨v, ?_⟩
    have hvu : v ≠ u := by
      rintro rfl
      rw [hu] at hv
      cases hv
    show Function.update s.wake.pc u .idle v = _
    rw [Function.update_of_ne hvu]
    unfold Shared.wake
    dsimp only
    rw [hv]
  · exact .inr ⟨hdown, fun v e hv => absurd hv (hnone v e)⟩

/-- The compare-exchange. -/
theorem Inv.failed (h : Inv s) (hu : s.pc u = .failed) :
    ∃ s', s.advance u .failed = .ok s' ∧ Inv s' := by
  rw [Shared.advance]
  split_ifs with hvalid
  · refine ⟨_, rfl, h.sound, fun v e _ _ => ⟨u, ?_⟩, fun _ => .inl ⟨u, Function.update_self ..⟩⟩
    show (Function.update s.pc u .invalidating u).rouses = true
    rw [Function.update_self]
    rfl
  · -- the winner notifies everybody
    have hother : ∀ {v : Nat} {q : Pc}, s.pc v = q → q ≠ .failed → (s.setPc u .idle).pc v = q := by
      intro v q hv hq
      refine (Function.update_of_ne ?_ ..).trans hv
      rintro rfl
      exact hq (hv.symm.trans hu)
    have hasleep : ∀ {v : Nat} {e : Event}, (s.setPc u .idle).pc v = .asleep e → s.pc v = .asleep e :=
      fun hv => asleep_of_update (fun _ he => by cases he) hv
    have hinv := Bool.eq_false_iff.mpr hvalid
    refine ⟨_, rfl, h.sound, fun v e hv _ => ?_, fun _ => ?_⟩
    · obtain ⟨w, hw | hw⟩ := h.roused hinv (hasleep hv)
      all_goals exact ⟨w, congrArg Pc.rouses (hother hw (fun he => by cases he))⟩
    · rcases h.gone hinv with ⟨w, hw⟩ | ⟨hdown, hall⟩
      · exact .inl ⟨w, hother hw fun he => by cases he⟩
      · refine .inr ⟨hdown, fun v e hv => ?_⟩
        obtain ⟨w, hw⟩ := hall v e (hasleep hv)
        exact ⟨w, hother hw fun he => by cases he⟩

/-- `free_buffers`. -/
theorem inv_freed (s : Shared) (u : Nat) :
    Inv { s.setPc u .notify with sock := s.sock.freeBuffers } := by
  have hu : Function.update s.pc u .notify u = .notify := Function.update_self ..
  refine ⟨⟨0, .inl rfl, rfl, fun t ht => by cases ht⟩, fun v e _ _ => ⟨u, ?_⟩,
    fun _ => .inr ⟨rfl, fun v e _ => ⟨u, hu⟩⟩⟩
  show (Function.update s.pc u .notify u).rouses = true
  rw [hu]
  rfl

/-- No step fails, and each keeps the invariant. -/
theorem inv_step (h : Inv s) (a : Act) : ∃ s', s.step a = .ok s' ∧ Inv s' := by
  have henter : ∀ {v : Nat}, (s.pc v).rouses = false → ∀ e, Inv (s.setPc v (.enter e)) :=
    fun hv e => h.move hv h.sound (fun e he => by cases he) (.inr fun _ hn => hn) id
  cases a with
  | call u e =>
    rw [Shared.step]
    cases hpc : s.pc u with
    | idle =>
      dsimp only
      split_ifs
      · exact ⟨_, rfl, henter (by rw [hpc]; rfl) e⟩
      · exact ⟨s, rfl, h⟩
    | _ => exact ⟨s, rfl, h⟩
  | step u =>
    rw [Shared.step]
    cases hpc : s.pc u with
    | idle => exact ⟨s, rfl, h⟩
    | asleep e => exact ⟨s, rfl, h⟩
    | enter e => exact h.perform (by rw [hpc]; rfl) e
    | notify => exact ⟨_, rfl, h.notify hpc⟩
    | failed => exact h.failed hpc
    | invalidating => exact ⟨_, rfl, inv_freed s u⟩
  | spurious u =>
    rw [Shared.step]
    cases hpc : s.pc u with
    | asleep e => exact ⟨_, rfl, henter (by rw [hpc]; rfl) e⟩
    | _ => exact ⟨s, rfl, h⟩

theorem inv_init (bufcnt : Nat) : Inv (.init bufcnt) :=
  ⟨⟨bufcnt, .inl rfl, by simp [Shared.init], fun t ht => (by cases ht)⟩, fun u e hu => (by cases hu),
    fun hv => (by cases hv)⟩

end Steps

/-- **No wake-up of a sender is lost.**  Whatever the threads send, however they interleave, whatever the kernel
    answers and however the socket is invalidated: no step fails, and a thread that sleeps in
    `m_cond_write.wait` is about to be notified, or its message does not fit behind what waits to be sent on a
    valid socket that is not being closed. -/
theorem sleeper_is_roused (bufcnt : Nat) (es : List Act) :
    ∃ s, run Shared.step (.init bufcnt) es = .ok s ∧
      ∀ u e, s.pc u = .asleep e → s.Roused ∨
        s.valid = true ∧ s.sock.shutdown = false ∧ s.sock.empty = false ∧ s.sock.canSend (length e) = false := by
  obtain ⟨s, hs, h⟩ := run_total (fun s a h => inv_step h a) es (inv_init bufcnt)
  refine ⟨s, hs, fun u e hu => ?_⟩
  by_cases hr : s.Roused
  · exact .inl hr
  have hcan : ¬ s.sock.canSend (length e) = true := fun hcan => hr (h.asleep u e hu hcan)
  refine .inr ⟨?_, ?_, ?_, Bool.eq_false_iff.mpr hcan⟩
  · by_contra hvalid
    obtain ⟨v, hv | hv⟩ := h.roused (Bool.eq_false_iff.mpr hvalid) hu
    all_goals exact hr ⟨v, congrArg Pc.rouses hv⟩
  · exact Bool.eq_false_iff.mpr fun hdown => hcan (canSend_of_shutdown hdown)
  · exact Bool.eq_false_iff.mpr fun hempty => hcan (canSend_of_empty hempty)

end Wait

end Yrmcds.Tcp
