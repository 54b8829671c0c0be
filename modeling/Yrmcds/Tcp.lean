/-
  The send queue of `cybozu::tcp_socket` (cybozu/tcp.hpp, cybozu/tcp.cpp).

  A message goes to the kernel at once, as far as the kernel takes it.  What is left waits: in a number
  of buffers of SENDBUF_SIZE bytes that were allocated with the socket (`m_pending`, taken from
  `m_free_buffers`), or, if they are too small for it, in ONE temporary buffer (`m_tmpbuf`).  Later
  messages queue up behind, and a sender for which there is no room waits (`can_send`).

  The KERNEL is a list of answers, one for each system call: some of the bytes are accepted (fewer than
  offered, perhaps none), EAGAIN, EINTR, or a fatal error; when the list is at its end the answer is
  EAGAIN.  So every list stands for one behaviour, and every loop around a system call ends.

  `_send` and `_sendv` do the same in different ways, so there is a specification lemma for each
  (`send_spec`, `sendv_spec`), and one for `write_pending_data`.  `integrity_of_run` puts them together:
  no byte is lost, repeated or out of order, and the code never takes a buffer that is not there.
-/
import Yrmcds.Util
import Yrmcds.Lib.Run
import Mathlib.Tactic.Common

namespace Yrmcds.Tcp

open Run

/-- The size of a buffer. -/
def SENDBUF_SIZE : Nat := 2 ^ 20

/-- The buffers of one `writev`. -/
def MAX_IOVCNT : Nat := 20

theorem SENDBUF_SIZE_pos : 0 < SENDBUF_SIZE := by decide

/-! ## The socket -/

/-- The kernel's answer to `send` or `writev`. -/
inductive Answer where
  | sent (n : Nat)
  | EAGAIN
  | EINTR
  | error
deriving DecidableEq, Repr

/-- An element of `m_pending`: the buffer, what was written to it, how much of it was sent. -/
structure Pending where
  buf : Nat
  data : Bytes
  sent : Nat := 0
deriving DecidableEq, Repr

/-- What is still to be sent. -/
def Pending.unsent (t : Pending) : Bytes := t.data.drop t.sent

/-- `tcp_socket`, as its methods see it. -/
structure Socket where
  free : List Nat                  -- `m_free_buffers`, its back first
  pending : List Pending := []     -- `m_pending`, its front first
  tmpbuf : Bytes := []
  shutdown : Bool := false
deriving DecidableEq, Repr

/-- What must not happen: `back()` of an empty vector, or a write past the end of a buffer. -/
inductive Err where
  | noFreeBuffer
  | overrun
deriving DecidableEq, Repr

/-- The outcome of a member function: what it returns, the socket, and what the kernel has accepted. -/
structure Outcome where
  ok : Bool
  sock : Socket
  accepted : Bytes
deriving DecidableEq, Repr

/-- The room in a list of free buffers and in the last pending one. -/
def room (free : List Nat) (pending : List Pending) : Nat :=
  match pending.getLast? with
  | none => free.length * SENDBUF_SIZE
  | some t => free.length * SENDBUF_SIZE + SENDBUF_SIZE - t.data.length

namespace Socket

/-- `capacity()`. -/
def capacity (s : Socket) : Nat := room s.free s.pending

/-- `can_send`. -/
def canSend (s : Socket) (len : Nat) : Bool :=
  if s.shutdown then true
  else if ! s.tmpbuf.isEmpty then false
  else if s.pending.isEmpty then true
  else s.capacity ≥ len

/-- `empty()`: nothing is waiting. -/
def empty (s : Socket) : Bool := s.pending.isEmpty && s.tmpbuf.isEmpty

/-- `free_buffers`. -/
def freeBuffers (_ : Socket) : Socket := { free := [], pending := [], tmpbuf := [], shutdown := true }

end Socket

/-! ## System calls -/

/-- What a loop around a system call leaves: the accepted bytes, the rest, the answers not yet given, and
    whether there was no fatal error. -/
structure Written (α : Type) where
  accepted : Bytes
  rest : α
  answers : List Answer
  ok : Bool

/-- `while( len > 0 ) { n = ::send(fd, p, len, 0); .. }`. -/
def sendLoop : List Answer → Bytes → Written Bytes
  | ks, [] => ⟨[], [], ks, true⟩
  | [], data => ⟨[], data, [], true⟩
  | .EAGAIN :: ks, data => ⟨[], data, ks, true⟩
  | .EINTR :: ks, data => sendLoop ks data
  | .error :: ks, data => ⟨[], data, ks, false⟩
  | .sent n :: ks, data =>
    let w := sendLoop ks (data.drop n)
    { w with accepted := data.take n ++ w.accepted }

/-- Skip `n` bytes of the pieces, after a partial `writev`. -/
def advance (n : Nat) : List Bytes → List Bytes
  | [] => []
  | x :: v =>
    if n = 0 then x :: v
    else if n < x.length then x.drop n :: v
    else advance (n - x.length) v

/-- `while( ind < v_size ) { n = ::writev(fd, &(v[ind]), v_size - ind); .. }`. -/
def writevLoop : List Answer → List Bytes → Written (List Bytes)
  | ks, [] => ⟨[], [], ks, true⟩
  | [], v => ⟨[], v, [], true⟩
  | .EAGAIN :: ks, v => ⟨[], v, ks, true⟩
  | .EINTR :: ks, v => writevLoop ks v
  | .error :: ks, v => ⟨[], v, ks, false⟩
  | .sent n :: ks, v =>
    let w := writevLoop ks (advance n v)
    { w with accepted := v.flatten.take n ++ w.accepted }

/-! ## Buffering -/

/-- The copy into the last pending buffer, in `_send`. -/
def fillLast (pending : List Pending) (data : Bytes) : Except Err (List Pending × Bytes) :=
  match pending.getLast? with
  | none => .ok (pending, data)
  | some t =>
    if t.data.length ≤ SENDBUF_SIZE then
      let toWrite := min (SENDBUF_SIZE - t.data.length) data.length
      .ok (pending.dropLast ++ [{ t with data := t.data ++ data.take toWrite }], data.drop toWrite)
    else .error .overrun

/-- The copy into fresh buffers, in `_send`. -/
def fillFresh : List Nat → List Pending → Bytes → Except Err (List Nat × List Pending)
  | free, pending, [] => .ok (free, pending)
  | [], _, _ => .error .noFreeBuffer
  | b :: free, pending, data =>
    let toWrite := min data.length SENDBUF_SIZE
    fillFresh free (pending ++ [{ buf := b, data := data.take toWrite }]) (data.drop toWrite)

/-- The inner loop of `_sendv`: fill one buffer, which has `room` left and contains `buf`. -/
def fillBuf (room : Nat) (buf : Bytes) : List Bytes → Bytes × List Bytes
  | [] => (buf, [])
  | x :: v =>
    if room = 0 then (buf, x :: v)
    else
      let toWrite := min room x.length
      if toWrite = x.length then fillBuf (room - toWrite) (buf ++ x.take toWrite) v
      -- otherwise there is no room left
      else (buf ++ x.take toWrite, x.drop toWrite :: v)

/-- A measure for the outer loop of `_sendv`: every turn finishes a piece or copies some bytes. -/
def weight : List Bytes → Nat
  | [] => 0
  | x :: v => x.length + 1 + weight v

theorem weight_fillBuf_le (room : Nat) (buf : Bytes) (v : List Bytes) :
    weight (fillBuf room buf v).2 ≤ weight v := by
  induction v generalizing room buf with
  | nil => exact Nat.le_refl _
  | cons x v ih =>
    rw [fillBuf]
    dsimp only
    split_ifs
    · exact Nat.le_refl _
    · have := ih (room - min room x.length) (buf ++ x.take (min room x.length))
      simp only [weight]
      omega
    · simp only [weight, List.length_drop]
      omega

variable {v : List Bytes} {t : Pending}

theorem weight_fillBuf_lt {room : Nat} (h : 0 < room) (buf : Bytes) (hv : v ≠ []) :
    weight (fillBuf room buf v).2 < weight v := by
  cases v with
  | nil => exact absurd rfl hv
  | cons x v =>
    rw [fillBuf, if_neg (by omega)]
    dsimp only
    split_ifs
    · have := weight_fillBuf_le (room - min room x.length) (buf ++ x.take (min room x.length)) v
      simp only [weight]
      omega
    · simp only [weight, List.length_drop]
      omega

/-- The outer loop of `_sendv`. -/
def fillv (free : List Nat) (pending : List Pending) : List Bytes → Except Err (List Nat × List Pending)
  | [] => .ok (free, pending)
  | x :: v =>
    match pending.getLast? with
    | some t =>
      if t.data.length = SENDBUF_SIZE then
        match free with
        | [] => .error .noFreeBuffer
        | b :: free =>
          let r := fillBuf SENDBUF_SIZE [] (x :: v)
          fillv free (pending ++ [{ buf := b, data := r.1 }]) r.2
      else if ht : t.data.length < SENDBUF_SIZE then
        let r := fillBuf (SENDBUF_SIZE - t.data.length) t.data (x :: v)
        fillv free (pending.dropLast ++ [{ t with data := r.1 }]) r.2
      else .error .overrun
    | none =>
      match free with
      | [] => .error .noFreeBuffer
      | b :: free =>
        let r := fillBuf SENDBUF_SIZE [] (x :: v)
        fillv free (pending ++ [{ buf := b, data := r.1 }]) r.2
termination_by v => weight v
decreasing_by
  · exact weight_fillBuf_lt SENDBUF_SIZE_pos _ (List.cons_ne_nil x v)
  · exact weight_fillBuf_lt (by omega) _ (List.cons_ne_nil x v)
  · exact weight_fillBuf_lt SENDBUF_SIZE_pos _ (List.cons_ne_nil x v)

/-! ## Member functions -/

namespace Socket

/-- `tcp_socket::_send`, once `can_send(len)` holds. -/
def send_ (s : Socket) (data : Bytes) (ks : List Answer) : Except Err Outcome :=
  if s.shutdown then .ok ⟨false, s, []⟩
  else
    -- with something pending, the kernel is not asked
    let w := if s.pending.isEmpty then sendLoop ks data else ⟨[], data, ks, true⟩
    if ! w.ok then .ok ⟨false, s, w.accepted⟩
    else if s.pending.isEmpty && w.rest.isEmpty then .ok ⟨true, s, w.accepted⟩
    else if s.capacity < w.rest.length then .ok ⟨true, { s with tmpbuf := w.rest }, w.accepted⟩
    else
      match fillLast s.pending w.rest with
      | .error e => .error e
      | .ok (pending, rest) =>
        match fillFresh s.free pending rest with
        | .error e => .error e
        | .ok (free, pending) => .ok ⟨true, { s with free := free, pending := pending }, w.accepted⟩

/-- `tcp_socket::_sendv`, once `can_send(total)` holds. -/
def sendv_ (s : Socket) (iov : List Bytes) (ks : List Answer) : Except Err Outcome :=
  if s.shutdown then .ok ⟨false, s, []⟩
  else
    let v := iov.filter fun x => ! x.isEmpty
    let w := if s.pending.isEmpty then writevLoop ks v else ⟨[], v, ks, true⟩
    if ! w.ok then .ok ⟨false, s, w.accepted⟩
    else if s.pending.isEmpty && w.rest.isEmpty then .ok ⟨true, s, w.accepted⟩
    else if s.capacity < w.rest.flatten.length then
      .ok ⟨true, { s with tmpbuf := w.rest.flatten }, w.accepted⟩
    else
      match fillv s.free s.pending w.rest with
      | .error e => .error e
      | .ok (free, pending) => .ok ⟨true, { s with free := free, pending := pending }, w.accepted⟩

/-- The loop of `write_pending_data` over `m_pending`: free buffers, pending ones, accepted bytes, and
    whether there was no fatal error. -/
def pendingLoop (free : List Nat) (ks : List Answer) : List Pending → List Nat × List Pending × Bytes × Bool
  | [] => (free, [], [], true)
  | t :: ts =>
    let w := sendLoop ks t.unsent
    -- after an error the count of sent bytes is not written back
    if ! w.ok then (free, t :: ts, w.accepted, false)
    else if w.rest.isEmpty then
      let (free', pending, accepted, ok) := pendingLoop (t.buf :: free) w.answers ts
      (free', pending, w.accepted ++ accepted, ok)
    else (free, { t with sent := t.sent + w.accepted.length } :: ts, w.accepted, true)

/-- `tcp_socket::write_pending_data`. -/
def writePendingData (s : Socket) (ks : List Answer) : Outcome :=
  let w := sendLoop ks s.tmpbuf
  if ! w.ok then ⟨false, { s with tmpbuf := w.rest }, w.accepted⟩
  else if ! w.rest.isEmpty then ⟨true, { s with tmpbuf := w.rest }, w.accepted⟩
  else
    let (free, pending, accepted, ok) := pendingLoop s.free w.answers s.pending
    -- a socket that was to be closed is closed when all is sent
    ⟨ok && (! pending.isEmpty || ! s.shutdown),
      { s with free := free, pending := pending, tmpbuf := [] }, w.accepted ++ accepted⟩

end Socket

/-! ## Runs -/

/-- A socket, whether it is still valid, what the kernel has accepted, and the messages of the calls that
    returned true. -/
structure State where
  sock : Socket
  valid : Bool := true
  wire : Bytes := []
  msgs : List Bytes := []
deriving DecidableEq, Repr

/-- The member functions, with the answers the kernel gives to them, and an invalidation for any other
    reason. -/
inductive Event where
  | send (data : Bytes) (ks : List Answer)
  | sendv (iov : List Bytes) (ks : List Answer)
  | sendClose (data : Bytes) (ks : List Answer)
  | sendvClose (iov : List Bytes) (ks : List Answer)
  | writePendingData (ks : List Answer)
  | invalidate
deriving DecidableEq, Repr

namespace State

/-- A new socket. -/
def init (bufcnt : Nat) : State := { sock := { free := List.range bufcnt } }

/-- `on_invalidate`. -/
def invalidate (s : State) : State := { s with sock := s.sock.freeBuffers, valid := false }

/-- What `with_fd` and `on_writable` do with the result of a member function. -/
def finish (s : State) (msgs : List Bytes) (r : Outcome) : State :=
  if r.ok then { s with sock := r.sock, wire := s.wire ++ r.accepted, msgs := s.msgs ++ msgs }
  else invalidate { s with sock := r.sock, wire := s.wire ++ r.accepted }

/-- The end of `send_close` and `sendv_close`. -/
def closing (r : Outcome) : Outcome :=
  { r with ok := r.ok && ! r.sock.empty, sock := { r.sock with shutdown := true } }

/-- A call of a sending function: it fails on an invalid socket, and waits while there is no room. -/
def call (s : State) (msg : Bytes) (f : Except Err Outcome) : Except Err State :=
  if ! s.valid || ! s.sock.canSend msg.length then .ok s
  else
    match f with
    | .ok r => .ok (s.finish [msg] r)
    | .error e => .error e

/-- One call, with the answers of the kernel. -/
def step (s : State) : Event → Except Err State
  | .send data ks => s.call data (s.sock.send_ data ks)
  | .sendClose data ks => s.call data ((s.sock.send_ data ks).map closing)
  | .sendv iov ks =>
    -- too many pieces are refused with an exception, before anything is done
    if iov.length ≥ MAX_IOVCNT then .ok s else s.call iov.flatten (s.sock.sendv_ iov ks)
  | .sendvClose iov ks =>
    if iov.length ≥ MAX_IOVCNT then .ok s
    else s.call iov.flatten ((s.sock.sendv_ iov ks).map closing)
  | .writePendingData ks => if s.valid then .ok (s.finish [] (s.sock.writePendingData ks)) else .ok s
  | .invalidate => .ok s.invalidate

end State

/-! ## What a system call leaves -/

theorem sendLoop_spec (ks : List Answer) (data : Bytes) :
    (sendLoop ks data).accepted ++ (sendLoop ks data).rest = data := by
  induction ks generalizing data with
  | nil => cases data <;> rfl
  | cons k ks ih =>
    cases data with
    | nil => rfl
    | cons x data =>
      cases k with
      | EAGAIN => rfl
      | error => rfl
      | EINTR => exact ih (x :: data)
      | sent n =>
        show (x :: data).take n ++ (sendLoop ks ((x :: data).drop n)).accepted
          ++ (sendLoop ks ((x :: data).drop n)).rest = x :: data
        rw [List.append_assoc, ih, List.take_append_drop]

theorem sendLoop_rest_nil (ks : List Answer) {data : Bytes} (h : data = []) : (sendLoop ks data).rest = [] := by
  have hbytes := sendLoop_spec ks data
  rw [h] at hbytes ⊢
  exact (List.append_eq_nil_iff.mp hbytes).2

/-- A loop fails only on a fatal error. -/
theorem error_of_sendLoop {ks : List Answer} {data : Bytes} (h : (sendLoop ks data).ok = false) :
    Answer.error ∈ ks := by
  induction ks generalizing data with
  | nil => cases data <;> cases h
  | cons k ks ih =>
    cases data with
    | nil => cases h
    | cons x data =>
      cases k with
      | EAGAIN => cases h
      | error => exact List.mem_cons_self
      | EINTR =>
        have hloop : (sendLoop ks (x :: data)).ok = false := h
        exact List.mem_cons_of_mem _ (ih hloop)
      | sent n =>
        have hloop : (sendLoop ks ((x :: data).drop n)).ok = false := h
        exact List.mem_cons_of_mem _ (ih hloop)

theorem mem_of_sendLoop {ks : List Answer} {data : Bytes} {k : Answer}
    (h : k ∈ (sendLoop ks data).answers) : k ∈ ks := by
  induction ks generalizing data with
  | nil => cases data <;> cases h
  | cons j ks ih =>
    cases data with
    | nil => exact h
    | cons x data =>
      cases j with
      | EAGAIN => exact List.mem_cons_of_mem _ h
      | error => exact List.mem_cons_of_mem _ h
      | EINTR =>
        have hloop : k ∈ (sendLoop ks (x :: data)).answers := h
        exact List.mem_cons_of_mem _ (ih hloop)
      | sent n =>
        have hloop : k ∈ (sendLoop ks ((x :: data).drop n)).answers := h
        exact List.mem_cons_of_mem _ (ih hloop)

theorem error_of_writevLoop {ks : List Answer} (h : (writevLoop ks v).ok = false) :
    Answer.error ∈ ks := by
  induction ks generalizing v with
  | nil => cases v <;> cases h
  | cons k ks ih =>
    cases v with
    | nil => cases h
    | cons x v =>
      cases k with
      | EAGAIN => cases h
      | error => exact List.mem_cons_self
      | EINTR => exact List.mem_cons_of_mem _ (ih (v := x :: v) h)
      | sent n => exact List.mem_cons_of_mem _ (ih (v := advance n (x :: v)) h)

theorem advance_flatten (n : Nat) (v : List Bytes) : (advance n v).flatten = v.flatten.drop n := by
  induction v generalizing n with
  | nil => simp [advance]
  | cons x v ih =>
    rw [advance, List.flatten_cons]
    split_ifs with h0 hlt
    · rw [h0, List.drop_zero, List.flatten_cons]
    · rw [List.flatten_cons, List.drop_append_of_le_length (by omega)]
    · have hx : x.drop n = [] := List.drop_eq_nil_of_le (by omega)
      rw [ih, List.drop_append, hx, List.nil_append]

theorem advance_ne_nil {n : Nat} (h : ∀ x ∈ v, x ≠ []) : ∀ x ∈ advance n v, x ≠ [] := by
  induction v generalizing n with
  | nil => exact h
  | cons y v ih =>
    have hv : ∀ x ∈ v, x ≠ [] := fun x hx => h x (List.mem_cons_of_mem _ hx)
    rw [advance]
    split_ifs with h0 hlt
    · exact h
    · intro x hx
      rcases List.mem_cons.mp hx with rfl | hx
      · intro hnil
        have := List.drop_eq_nil_iff.mp hnil
        omega
      · exact hv x hx
    · exact ih hv

theorem writevLoop_spec (ks : List Answer) (h : ∀ x ∈ v, x ≠ []) :
    (writevLoop ks v).accepted ++ (writevLoop ks v).rest.flatten = v.flatten ∧
      ∀ x ∈ (writevLoop ks v).rest, x ≠ [] := by
  induction ks generalizing v with
  | nil => cases v <;> exact ⟨rfl, h⟩
  | cons k ks ih =>
    cases v with
    | nil => exact ⟨rfl, h⟩
    | cons x v =>
      cases k with
      | EAGAIN => exact ⟨rfl, h⟩
      | error => exact ⟨rfl, h⟩
      | EINTR => exact ih h
      | sent n =>
        obtain ⟨hbytes, hne⟩ := ih (advance_ne_nil (n := n) h)
        refine ⟨?_, hne⟩
        show (x :: v).flatten.take n ++ (writevLoop ks (advance n (x :: v))).accepted
          ++ (writevLoop ks (advance n (x :: v))).rest.flatten = (x :: v).flatten
        rw [List.append_assoc, hbytes, advance_flatten, List.take_append_drop]

/-! ## What buffering does -/

/-- What waits in the pending buffers. -/
def queued (pending : List Pending) : Bytes := pending.flatMap Pending.unsent

theorem queued_concat (pending : List Pending) (t : Pending) :
    queued (pending ++ [t]) = queued pending ++ t.unsent := by
  simp [queued]

/-- A buffer that has not overflowed, and of which no more was sent than written. -/
structure Pending.Sound (t : Pending) : Prop where
  small : t.data.length ≤ SENDBUF_SIZE
  sent : t.sent ≤ t.data.length

theorem Pending.unsent_append (h : t.sent ≤ t.data.length) (d : Bytes) :
    Pending.unsent { t with data := t.data ++ d } = t.unsent ++ d :=
  List.drop_append_of_le_length h

/-- The count of sent bytes moves over the accepted ones. -/
theorem Pending.unsent_sent {accepted rest : Bytes} (h : accepted ++ rest = t.unsent) :
    Pending.unsent { t with sent := t.sent + accepted.length } = rest := by
  show t.data.drop (t.sent + accepted.length) = rest
  rw [← List.drop_drop, show t.data.drop t.sent = accepted ++ rest from h.symm]
  exact List.drop_left

/-- The last buffer, and the ones before it. -/
theorem getLast_cases (pending : List Pending) :
    (pending = [] ∧ pending.getLast? = none) ∨
      ∃ l t, pending = l ++ [t] ∧ pending.getLast? = some t ∧ pending.dropLast = l := by
  rcases List.eq_nil_or_concat pending with rfl | ⟨l, t, rfl⟩
  · exact .inl ⟨rfl, rfl⟩
  · exact .inr ⟨l, t, by simp, by simp, by simp⟩

/-- Buffering of `data`: nothing else in the queue changes, and no buffer is lost. -/
structure Buffered (free free' : List Nat) (pending pending' : List Pending) (data : Bytes) : Prop where
  bytes : queued pending' = queued pending ++ data
  count : free'.length + pending'.length = free.length + pending.length
  sound : ∀ t ∈ pending', t.Sound

section

variable {free : List Nat} {pending : List Pending} {data : Bytes}

theorem sound_concat {l : List Pending} (hl : ∀ u ∈ l, u.Sound) (ht : t.Sound) :
    ∀ u ∈ l ++ [t], u.Sound := by
  intro u hu
  rcases List.mem_append.mp hu with hu | hu
  · exact hl u hu
  · rw [List.mem_singleton.mp hu]
    exact ht

theorem fillLast_spec (h : ∀ t ∈ pending, t.Sound) (hroom : data.length ≤ room free pending) :
    ∃ pending' rest, fillLast pending data = .ok (pending', rest) ∧
      queued pending' ++ rest = queued pending ++ data ∧ pending'.length = pending.length ∧
      (∀ t ∈ pending', t.Sound) ∧ rest.length ≤ free.length * SENDBUF_SIZE := by
  unfold fillLast
  rcases getLast_cases pending with ⟨rfl, hlast⟩ | ⟨l, t, rfl, hlast, hinit⟩
  · rw [room, hlast] at hroom
    exact ⟨_, _, rfl, rfl, rfl, h, hroom⟩
  · have ht : t.Sound := h t (by simp)
    have hsmall := ht.small
    simp only [hlast, hinit, if_pos ht.small]
    simp only [room, hlast] at hroom
    refine ⟨_, _, rfl, ?_, by simp, ?_, ?_⟩
    · rw [queued_concat, queued_concat, Pending.unsent_append ht.sent, List.append_assoc,
        List.append_assoc, List.append_assoc, List.take_append_drop]
    · refine sound_concat (fun u hu => h u (List.mem_append_left _ hu)) ⟨?_, ?_⟩
      · simp only [List.length_append, List.length_take]
        omega
      · have := ht.sent
        simp only [List.length_append]
        omega
    · rw [List.length_drop]
      omega

theorem fillFresh_spec (h : ∀ t ∈ pending, t.Sound) (hlen : data.length ≤ free.length * SENDBUF_SIZE) :
    ∃ free' pending', fillFresh free pending data = .ok (free', pending') ∧
      Buffered free free' pending pending' data := by
  induction free generalizing pending data with
  | nil =>
    have hnil : data = [] := List.eq_nil_of_length_eq_zero (by simpa using hlen)
    subst hnil
    exact ⟨_, _, rfl, by simp, rfl, h⟩
  | cons b free ih =>
    cases data with
    | nil => exact ⟨_, _, rfl, by simp, rfl, h⟩
    | cons x data =>
      show ∃ free' pending', fillFresh free
          (pending ++ [{ buf := b, data := (x :: data).take (min (x :: data).length SENDBUF_SIZE) }])
          ((x :: data).drop (min (x :: data).length SENDBUF_SIZE)) = .ok (free', pending') ∧ _
      generalize hn : min (x :: data).length SENDBUF_SIZE = n
      have hsound : ∀ t ∈ pending ++ [{ buf := b, data := (x :: data).take n }], t.Sound := by
        refine sound_concat h ⟨?_, Nat.zero_le _⟩
        rw [List.length_take]
        omega
      have hlen' : ((x :: data).drop n).length ≤ free.length * SENDBUF_SIZE := by
        have hmul : (b :: free).length * SENDBUF_SIZE = free.length * SENDBUF_SIZE + SENDBUF_SIZE :=
          Nat.succ_mul ..
        rw [List.length_drop]
        omega
      obtain ⟨free', pending', heq, hb⟩ := ih hsound hlen'
      refine ⟨free', pending', heq, ?_, ?_, hb.sound⟩
      · rw [hb.bytes, queued_concat, List.append_assoc]
        show _ ++ ((x :: data).take n ++ (x :: data).drop n) = _
        rw [List.take_append_drop]
      · have := hb.count
        simp only [List.length_append, List.length_cons, List.length_nil] at this ⊢
        omega

/-- What the inner loop of `_sendv` leaves of a buffer `buf` with `room` left and of the pieces `v`: the
    buffer `r.1` and the pieces `r.2`. -/
structure Turn (room : Nat) (buf : Bytes) (v : List Bytes) (r : Bytes × List Bytes) : Prop where
  bytes : r.1 ++ r.2.flatten = buf ++ v.flatten
  grown : ∃ d, r.1 = buf ++ d
  length : r.1.length = buf.length + min room v.flatten.length
  ne_nil : ∀ x ∈ r.2, x ≠ []

theorem fillBuf_turn (room : Nat) (buf : Bytes) (hv : ∀ x ∈ v, x ≠ []) :
    Turn room buf v (fillBuf room buf v) := by
  induction v generalizing room buf with
  | nil => exact ⟨rfl, ⟨[], by simp [fillBuf]⟩, by simp [fillBuf], hv⟩
  | cons x v ih =>
    have hv' : ∀ y ∈ v, y ≠ [] := fun y hy => hv y (List.mem_cons_of_mem _ hy)
    rw [fillBuf]
    dsimp only
    split_ifs with h0 hx
    · exact ⟨rfl, ⟨[], by simp⟩, by simp [h0], hv⟩
    · have hturn := ih (room - min room x.length) (buf ++ x.take (min room x.length)) hv'
      rw [hx, List.take_length] at hturn ⊢
      obtain ⟨d, hd⟩ := hturn.grown
      refine ⟨?_, ⟨x ++ d, ?_⟩, ?_, hturn.ne_nil⟩
      · rw [hturn.bytes, List.flatten_cons, List.append_assoc]
      · rw [hd, List.append_assoc]
      · rw [hturn.length, List.flatten_cons, List.length_append, List.length_append]
        omega
    · refine ⟨?_, ⟨_, rfl⟩, ?_, ?_⟩
      · rw [List.flatten_cons, List.append_assoc, ← List.append_assoc (x.take _), List.take_append_drop,
          List.flatten_cons]
      · rw [List.length_append, List.length_take, List.flatten_cons, List.length_append]
        omega
      · intro y hy
        rcases List.mem_cons.mp hy with rfl | hy
        · intro hnil
          have := List.drop_eq_nil_iff.mp hnil
          omega
        · exact hv' y hy

/-- A turn that takes a fresh buffer. -/
theorem Turn.fresh {b : Nat} {r : Bytes × List Bytes} (hr : Turn SENDBUF_SIZE [] v r)
    (h : ∀ t ∈ pending, t.Sound) (hroom : v.flatten.length ≤ (b :: free).length * SENDBUF_SIZE) :
    (∀ t ∈ pending ++ [{ buf := b, data := r.1 }], t.Sound) ∧
      r.2.flatten.length ≤ room free (pending ++ [{ buf := b, data := r.1 }]) ∧
      ∀ free' pending', Buffered free free' (pending ++ [{ buf := b, data := r.1 }]) pending' r.2.flatten →
        Buffered (b :: free) free' pending pending' v.flatten := by
  have hlen := hr.length
  have hmul : (b :: free).length * SENDBUF_SIZE = free.length * SENDBUF_SIZE + SENDBUF_SIZE :=
    Nat.succ_mul ..
  have hsum := congrArg List.length hr.bytes
  rw [List.length_append, List.nil_append] at hsum
  rw [List.length_nil] at hlen
  refine ⟨sound_concat h ⟨?_, Nat.zero_le _⟩, ?_, fun free' pending' hB => ⟨?_, ?_, hB.sound⟩⟩
  · show r.1.length ≤ SENDBUF_SIZE
    omega
  · simp only [room, List.getLast?_concat]
    omega
  · rw [hB.bytes, queued_concat, List.append_assoc]
    exact congrArg (queued pending ++ ·) hr.bytes
  · have := hB.count
    simp only [List.length_append, List.length_cons, List.length_nil] at this ⊢
    omega

/-- A turn that goes on with the last buffer. -/
theorem Turn.last {l : List Pending} {r : Bytes × List Bytes}
    (hr : Turn (SENDBUF_SIZE - t.data.length) t.data v r) (h : ∀ u ∈ l ++ [t], u.Sound)
    (hroom : v.flatten.length ≤ room free (l ++ [t])) :
    (∀ u ∈ l ++ [{ t with data := r.1 }], u.Sound) ∧
      r.2.flatten.length ≤ room free (l ++ [{ t with data := r.1 }]) ∧
      ∀ free' pending', Buffered free free' (l ++ [{ t with data := r.1 }]) pending' r.2.flatten →
        Buffered free free' (l ++ [t]) pending' v.flatten := by
  have ht : t.Sound := h t (by simp)
  have hsmall := ht.small
  have hsent := ht.sent
  have hlen := hr.length
  have hsum := congrArg List.length hr.bytes
  simp only [List.length_append] at hsum
  simp only [room, List.getLast?_concat] at hroom ⊢
  refine ⟨sound_concat (fun u hu => h u (List.mem_append_left _ hu)) ⟨?_, ?_⟩, by omega,
    fun free' pending' hB => ⟨?_, ?_, hB.sound⟩⟩
  · show r.1.length ≤ SENDBUF_SIZE
    omega
  · show t.sent ≤ r.1.length
    omega
  · obtain ⟨d, hd⟩ := hr.grown
    have hbytes := hr.bytes
    rw [hd, List.append_assoc, List.append_cancel_left_eq] at hbytes
    rw [hB.bytes, queued_concat, queued_concat, hd, Pending.unsent_append ht.sent, List.append_assoc,
      List.append_assoc, List.append_assoc, hbytes]
  · have := hB.count
    simp only [List.length_append, List.length_cons, List.length_nil] at this ⊢
    omega

theorem fillv_spec (h : ∀ t ∈ pending, t.Sound) (hv : ∀ x ∈ v, x ≠ [])
    (hroom : v.flatten.length ≤ room free pending) :
    ∃ free' pending', fillv free pending v = .ok (free', pending') ∧
      Buffered free free' pending pending' v.flatten := by
  -- the loop's own induction: on the weight of what is left
  induction hw : weight v using Nat.strong_induction_on generalizing free pending v with
  | _ n ih =>
    cases v with
    | nil => exact ⟨free, pending, by rw [fillv], by simp, rfl, h⟩
    | cons x v =>
      -- a turn with a fresh buffer: there is one, since something is left
      have hfresh : (x :: v).flatten.length ≤ free.length * SENDBUF_SIZE → ∃ b free1, free = b :: free1 ∧
          ∃ free' pending', fillv free1
              (pending ++ [{ buf := b, data := (fillBuf SENDBUF_SIZE [] (x :: v)).1 }])
              (fillBuf SENDBUF_SIZE [] (x :: v)).2 = .ok (free', pending') ∧
            Buffered free free' pending pending' (x :: v).flatten := by
        intro hle
        cases free with
        | nil =>
          have hx := List.length_pos_iff.mpr (hv x List.mem_cons_self)
          rw [List.length_nil, Nat.zero_mul, List.flatten_cons, List.length_append] at hle
          omega
        | cons b free1 =>
          have hturn := fillBuf_turn SENDBUF_SIZE [] hv
          obtain ⟨hsound, hroom', hback⟩ := hturn.fresh h hle
          have hlt := weight_fillBuf_lt SENDBUF_SIZE_pos [] (List.cons_ne_nil x v)
          obtain ⟨free', pending', heq, hB⟩ := ih _ (hw ▸ hlt) hsound hturn.ne_nil hroom' rfl
          exact ⟨b, free1, rfl, free', pending', heq, hback _ _ hB⟩
      rw [fillv.eq_def]
      dsimp only
      rcases getLast_cases pending with ⟨rfl, hlast⟩ | ⟨l, t, rfl, hlast, hinit⟩
      · obtain ⟨b, free1, rfl, hex⟩ := hfresh (by simpa only [room, hlast] using hroom)
        rw [hlast]
        exact hex
      · have hsmall := (h t (by simp)).small
        rw [hlast, hinit]
        dsimp only
        by_cases hfull : t.data.length = SENDBUF_SIZE
        · obtain ⟨b, free1, rfl, hex⟩ := hfresh (by simp only [room, hlast] at hroom; omega)
          rw [if_pos hfull]
          exact hex
        · have hpos : 0 < SENDBUF_SIZE - t.data.length := by omega
          have hturn := fillBuf_turn (SENDBUF_SIZE - t.data.length) t.data hv
          obtain ⟨hsound, hroom', hback⟩ := hturn.last h hroom
          have hlt := weight_fillBuf_lt hpos t.data (List.cons_ne_nil x v)
          obtain ⟨free', pending', heq, hB⟩ := ih _ (hw ▸ hlt) hsound hturn.ne_nil hroom' rfl
          rw [if_neg hfull, dif_pos (by omega)]
          exact ⟨free', pending', heq, hback _ _ hB⟩

end

/-! ## What the member functions do -/

namespace Socket

/-- What waits to be sent. -/
def queue (s : Socket) : Bytes := s.tmpbuf ++ queued s.pending

/-- A socket with `bufcnt` buffers, as its member functions keep it. -/
structure Sound (bufcnt : Nat) (s : Socket) : Prop where
  one : s.tmpbuf = [] ∨ s.pending = []
  count : s.free.length + s.pending.length = bufcnt
  pending : ∀ t ∈ s.pending, t.Sound

/-- A member function that takes over the bytes `data`: if it returns true, they stand behind those
    that waited before. -/
structure Takes (bufcnt : Nat) (s : Socket) (data : Bytes) (r : Outcome) : Prop where
  bytes : r.accepted ++ r.sock.queue = s.queue ++ data
  sound : r.sock.Sound bufcnt

variable {bufcnt : Nat} {s : Socket}

/-- What `can_send` gives to a sender that does not fail. -/
theorem canSend_spec {len : Nat} (h : s.canSend len = true) (hs : s.shutdown = false) :
    s.tmpbuf = [] ∧ (s.pending = [] ∨ len ≤ s.capacity) := by
  unfold canSend at h
  rw [hs, if_neg Bool.false_ne_true] at h
  split_ifs at h with htmp hpend
  · exact ⟨by simpa using htmp, .inl (by simpa using hpend)⟩
  · exact ⟨by simpa using htmp, .inr (of_decide_eq_true h)⟩

/-- **What `_send` and `_sendv` can have done with `data`**: nothing, or the kernel has taken all of it, or the
    rest is in the temporary buffer, or it is in the pending ones. -/
inductive Handled (s : Socket) (data : Bytes) (ks : List Answer) : Outcome → Prop
  | late (down : s.shutdown = true) : Handled s data ks ⟨false, s, []⟩
  | failed {accepted : Bytes} (up : s.shutdown = false) (herr : Answer.error ∈ ks) :
      Handled s data ks ⟨false, s, accepted⟩
  | sent (up : s.shutdown = false) (hp : s.pending = []) : Handled s data ks ⟨true, s, data⟩
  | tmpbuf {accepted rest : Bytes} (up : s.shutdown = false) (hbytes : accepted ++ rest = data)
      (hbig : s.capacity < rest.length) : Handled s data ks ⟨true, { s with tmpbuf := rest }, accepted⟩
  | buffered {accepted rest : Bytes} {free : List Nat} {pending : List Pending} (up : s.shutdown = false)
      (hbytes : accepted ++ rest = data) (hacc : s.pending = [] ∨ accepted = [])
      (hne : s.pending = [] → rest ≠ []) (hb : Buffered s.free free s.pending pending rest) :
      Handled s data ks ⟨true, { s with free := free, pending := pending }, accepted⟩

theorem send_handled (h : s.Sound bufcnt) (data : Bytes) (ks : List Answer) :
    ∃ r, s.send_ data ks = .ok r ∧ s.Handled data ks r := by
  unfold send_
  by_cases hsd : s.shutdown = true
  · rw [if_pos hsd]
    exact ⟨_, rfl, .late hsd⟩
  · have hup := Bool.eq_false_iff.mpr hsd
    rw [if_neg hsd]
    -- what the kernel takes
    generalize hw : (if s.pending.isEmpty = true then sendLoop ks data else ⟨[], data, ks, true⟩) = w
    have hbytes : w.accepted ++ w.rest = data := by
      rw [← hw]
      split_ifs
      · exact sendLoop_spec ks data
      · rfl
    have hacc : s.pending = [] ∨ w.accepted = [] := by
      by_cases hp : s.pending = []
      · exact .inl hp
      · rw [if_neg (by simpa using hp)] at hw
        rw [← hw]
        exact .inr rfl
    dsimp only
    split_ifs with hfail hdone hbig
    · refine ⟨_, rfl, .failed hup ?_⟩
      rw [← hw] at hfail
      split_ifs at hfail
      · exact error_of_sendLoop (by simpa using hfail)
      · cases hfail
    · obtain ⟨hpend, hrest⟩ : s.pending = [] ∧ w.rest = [] := by simpa using hdone
      rw [hrest, List.append_nil] at hbytes
      exact ⟨_, rfl, hbytes ▸ .sent hup hpend⟩
    · exact ⟨_, rfl, .tmpbuf hup hbytes hbig⟩
    · obtain ⟨pending1, rest, h1, hq1, hn1, hs1, hlen1⟩ :=
        fillLast_spec h.pending (Nat.le_of_not_lt hbig)
      obtain ⟨free, pending, h2, hb⟩ := fillFresh_spec hs1 hlen1
      rw [h1]
      dsimp only
      rw [h2]
      refine ⟨_, rfl, .buffered hup hbytes hacc (fun hp hr => hdone (by simp [hp, hr])) ⟨?_, ?_, hb.sound⟩⟩
      · rw [hb.bytes, hq1]
      · rw [hb.count, hn1]

theorem flatten_filter_isEmpty (iov : List Bytes) :
    (iov.filter fun x => ! x.isEmpty).flatten = iov.flatten := by
  induction iov with
  | nil => rfl
  | cons x iov ih =>
    cases x with
    | nil => exact ih
    | cons a x => exact congrArg (a :: x ++ ·) ih

theorem sendv_handled (h : s.Sound bufcnt) (iov : List Bytes) (ks : List Answer) :
    ∃ r, s.sendv_ iov ks = .ok r ∧ s.Handled iov.flatten ks r := by
  unfold sendv_
  by_cases hsd : s.shutdown = true
  · rw [if_pos hsd]
    exact ⟨_, rfl, .late hsd⟩
  · have hup := Bool.eq_false_iff.mpr hsd
    rw [if_neg hsd]
    -- the pieces that are not empty
    rw [← flatten_filter_isEmpty iov]
    generalize hv : (iov.filter fun x => ! x.isEmpty) = v
    have hne : ∀ x ∈ v, x ≠ [] := by
      intro x hx
      rw [← hv] at hx
      simpa using (List.mem_filter.mp hx).2
    -- what the kernel takes
    dsimp only
    generalize hw : (if s.pending.isEmpty = true then writevLoop ks v else ⟨[], v, ks, true⟩) = w
    have hspec : w.accepted ++ w.rest.flatten = v.flatten ∧ ∀ x ∈ w.rest, x ≠ [] := by
      rw [← hw]
      split_ifs
      · exact writevLoop_spec ks hne
      · exact ⟨rfl, hne⟩
    obtain ⟨hbytes, hne'⟩ := hspec
    have hacc : s.pending = [] ∨ w.accepted = [] := by
      by_cases hp : s.pending = []
      · exact .inl hp
      · rw [if_neg (by simpa using hp)] at hw
        rw [← hw]
        exact .inr rfl
    split_ifs with hfail hdone hbig
    · refine ⟨_, rfl, .failed hup ?_⟩
      rw [← hw] at hfail
      split_ifs at hfail
      · exact error_of_writevLoop (by simpa using hfail)
      · cases hfail
    · obtain ⟨hpend, hrest⟩ : s.pending = [] ∧ w.rest = [] := by simpa using hdone
      rw [hrest, List.flatten_nil, List.append_nil] at hbytes
      exact ⟨_, rfl, hbytes ▸ .sent hup hpend⟩
    · exact ⟨_, rfl, .tmpbuf hup hbytes hbig⟩
    · obtain ⟨free, pending, heq, hb⟩ := fillv_spec h.pending hne' (Nat.le_of_not_lt hbig)
      rw [heq]
      refine ⟨_, rfl, .buffered hup hbytes hacc (fun hp hr => hdone ?_) hb⟩
      -- a piece that is left is not empty, so nothing is left
      have hnil : w.rest = [] := List.eq_nil_iff_forall_not_mem.mpr fun x hx =>
        hne' x hx (List.flatten_eq_nil_iff.mp hr x hx)
      simp [hp, hnil]

section

variable {data : Bytes} {ks : List Answer} {r : Outcome}

theorem takes_of_buffered (h : s.Sound bufcnt) (htmp : s.tmpbuf = []) {free : List Nat}
    {pending : List Pending} {rest accepted : Bytes} (hbytes : accepted ++ rest = data)
    (hacc : s.pending = [] ∨ accepted = []) (hb : Buffered s.free free s.pending pending rest) :
    Takes bufcnt s data ⟨true, { s with free := free, pending := pending }, accepted⟩ := by
  refine ⟨?_, .inl htmp, hb.count.trans h.count, hb.sound⟩
  show accepted ++ (s.tmpbuf ++ queued pending) = s.tmpbuf ++ queued s.pending ++ data
  rw [htmp, hb.bytes, ← hbytes, List.nil_append, List.nil_append]
  rcases hacc with hp | ha
  · rw [hp]
    rfl
  · rw [ha]
    rfl

/-- The temporary buffer is used only if nothing was pending. -/
theorem takes_of_tmpbuf (h : s.Sound bufcnt) (htmp : s.tmpbuf = []) {rest accepted : Bytes}
    (hcap : s.pending = [] ∨ data.length ≤ s.capacity) (hbytes : accepted ++ rest = data)
    (hbig : s.capacity < rest.length) :
    Takes bufcnt s data ⟨true, { s with tmpbuf := rest }, accepted⟩ := by
  have hp : s.pending = [] := by
    rcases hcap with hp | hle
    · exact hp
    · have hlen := congrArg List.length hbytes
      rw [List.length_append] at hlen
      omega
  refine ⟨?_, .inr hp, h.count, h.pending⟩
  show accepted ++ (rest ++ queued s.pending) = s.tmpbuf ++ queued s.pending ++ data
  rw [htmp, hp, ← hbytes]
  simp [queued]

theorem Handled.takes (h : s.Sound bufcnt) (hcan : s.canSend data.length = true) (hh : s.Handled data ks r)
    (hok : r.ok = true) : Takes bufcnt s data r := by
  cases hh with
  | late down => cases hok
  | failed up herr => cases hok
  | sent up hp =>
    obtain ⟨htmp, -⟩ := canSend_spec hcan up
    have hbytes : data ++ [] = data := List.append_nil data
    refine takes_of_buffered h htmp hbytes (.inl hp) ⟨?_, rfl, h.pending⟩
    rw [List.append_nil]
  | tmpbuf up hbytes hbig =>
    obtain ⟨htmp, hcap⟩ := canSend_spec hcan up
    exact takes_of_tmpbuf h htmp hcap hbytes hbig
  | buffered up hbytes hacc hne hb =>
    obtain ⟨htmp, -⟩ := canSend_spec hcan up
    exact takes_of_buffered h htmp hbytes hacc hb

theorem send_spec (h : s.Sound bufcnt) (hcan : s.canSend data.length = true) (ks : List Answer) :
    ∃ r, s.send_ data ks = .ok r ∧ (r.ok = true → Takes bufcnt s data r) := by
  obtain ⟨r, hr, hh⟩ := send_handled h data ks
  exact ⟨r, hr, hh.takes h hcan⟩

theorem sendv_spec (h : s.Sound bufcnt) {iov : List Bytes} (hcan : s.canSend iov.flatten.length = true)
    (ks : List Answer) :
    ∃ r, s.sendv_ iov ks = .ok r ∧ (r.ok = true → Takes bufcnt s iov.flatten r) := by
  obtain ⟨r, hr, hh⟩ := sendv_handled h iov ks
  exact ⟨r, hr, hh.takes h hcan⟩

end

/-- The loop over the pending buffers: a buffer that is sent is free again. -/
theorem pendingLoop_spec (ks : List Answer) (free : List Nat) {pending : List Pending}
    (h : ∀ t ∈ pending, t.Sound) :
    ((pendingLoop free ks pending).2.2.2 = true →
      (pendingLoop free ks pending).2.2.1 ++ queued (pendingLoop free ks pending).2.1 = queued pending) ∧
      (pendingLoop free ks pending).1.length + (pendingLoop free ks pending).2.1.length
        = free.length + pending.length ∧
      ∀ t ∈ (pendingLoop free ks pending).2.1, t.Sound := by
  induction pending generalizing ks free with
  | nil => exact ⟨fun _ => rfl, rfl, h⟩
  | cons t ts ih =>
    have ht : t.Sound := h t List.mem_cons_self
    have hts : ∀ u ∈ ts, u.Sound := fun u hu => h u (List.mem_cons_of_mem _ hu)
    have hq : queued (t :: ts) = t.unsent ++ queued ts := List.flatMap_cons
    have hbytes := sendLoop_spec ks t.unsent
    rw [pendingLoop]
    generalize sendLoop ks t.unsent = w at hbytes ⊢
    dsimp only
    split_ifs with hfail hsent
    · exact ⟨fun hok => (nomatch hok), rfl, h⟩
    · obtain ⟨hb, hc, hs⟩ := ih w.answers (t.buf :: free) hts
      have hrest : w.rest = [] := by simpa using hsent
      rw [hrest, List.append_nil] at hbytes
      refine ⟨fun hok => ?_, ?_, hs⟩
      · rw [List.append_assoc, hb hok, hbytes, hq]
      · rw [hc, List.length_cons, List.length_cons]
        omega
    · have hrest := Pending.unsent_sent hbytes
      have hle : t.sent + w.accepted.length ≤ t.data.length := by
        have hsent := ht.sent
        have hlen := congrArg List.length hbytes
        simp only [Pending.unsent, List.length_append, List.length_drop] at hlen
        omega
      refine ⟨fun _ => ?_, rfl, ?_⟩
      · show w.accepted ++ (Pending.unsent { t with sent := t.sent + w.accepted.length } ++ queued ts) = _
        rw [hrest, hq, ← hbytes, List.append_assoc]
      · intro u hu
        rcases List.mem_cons.mp hu with rfl | hu
        · exact ⟨ht.small, hle⟩
        · exact hts u hu

/-- `write_pending_data` keeps the buffers together, whatever the kernel answers. -/
theorem writePendingData_sound (h : s.Sound bufcnt) (ks : List Answer) :
    (s.writePendingData ks).sock.Sound bufcnt := by
  have hempty : s.tmpbuf = [] → (sendLoop ks s.tmpbuf).rest = [] := sendLoop_rest_nil ks
  unfold writePendingData
  dsimp only
  split_ifs
  · exact ⟨h.one.imp_left hempty, h.count, h.pending⟩
  · exact ⟨h.one.imp_left hempty, h.count, h.pending⟩
  · obtain ⟨-, hcount, hsound⟩ := pendingLoop_spec (sendLoop ks s.tmpbuf).answers s.free h.pending
    exact ⟨.inl rfl, hcount.trans h.count, hsound⟩

theorem writePendingData_spec (h : s.Sound bufcnt) (ks : List Answer) :
    (s.writePendingData ks).ok = true → Takes bufcnt s [] (s.writePendingData ks) := by
  refine fun hok => ⟨?_, writePendingData_sound h ks⟩
  have hbytes := sendLoop_spec ks s.tmpbuf
  revert hok
  unfold writePendingData
  generalize sendLoop ks s.tmpbuf = w at hbytes ⊢
  dsimp only
  split_ifs with hfail hrest
  · exact fun hok => nomatch hok
  · intro _
    show w.accepted ++ (w.rest ++ queued s.pending) = s.tmpbuf ++ queued s.pending ++ []
    rw [← List.append_assoc, hbytes, List.append_nil]
  · intro hok
    have hnil : w.rest = [] := by simpa using hrest
    rw [hnil, List.append_nil] at hbytes
    have hb := (pendingLoop_spec w.answers s.free h.pending).1 (Bool.and_eq_true_iff.mp hok).1
    show w.accepted ++ _ ++ ([] ++ queued _) = s.tmpbuf ++ queued s.pending ++ []
    rw [List.nil_append, List.append_assoc, hb, hbytes, List.append_nil]

end Socket

/-! ## The send queue over whole runs -/

namespace State

/-- **The send queue**: what the kernel has accepted, followed by what waits in the temporary buffer and in
    the pending ones, is what the calls that returned true were given, in their order. -/
structure Integrity (bufcnt : Nat) (s : State) : Prop where
  bytes : s.wire ++ s.sock.tmpbuf ++ queued s.sock.pending = s.msgs.flatten
  one : s.sock.tmpbuf = [] ∨ s.sock.pending = []
  count : s.sock.free.length + s.sock.pending.length = bufcnt
  small : ∀ t ∈ s.sock.pending, t.data.length ≤ SENDBUF_SIZE

/-- What the steps keep: the buffers are in order, and the queue is what is owed. -/
structure Queues (bufcnt : Nat) (s : State) : Prop where
  sound : s.sock.Sound bufcnt
  bytes : s.wire ++ s.sock.queue = s.msgs.flatten

variable {bufcnt : Nat} {s s' : State}

theorem Queues.integrity (h : Queues bufcnt s) : Integrity bufcnt s :=
  ⟨(List.append_assoc ..).trans h.bytes, h.sound.one, h.sound.count,
    fun t ht => (h.sound.pending t ht).small⟩

/-- A valid socket has its queue in order. -/
def Kept (bufcnt : Nat) (s : State) : Prop := s.valid = true → Queues bufcnt s

theorem kept_init (bufcnt : Nat) : Kept bufcnt (init bufcnt) :=
  fun _ => ⟨⟨.inl rfl, by simp [init], fun _ ht => nomatch ht⟩, rfl⟩

theorem kept_finish (h : Queues bufcnt s) {msgs : List Bytes} {r : Outcome}
    (hr : r.ok = true → s.sock.Takes bufcnt msgs.flatten r) : Kept bufcnt (s.finish msgs r) := by
  unfold finish
  split_ifs with hok
  · intro _
    refine ⟨(hr hok).sound, ?_⟩
    show s.wire ++ r.accepted ++ r.sock.queue = (s.msgs ++ msgs).flatten
    rw [List.append_assoc, (hr hok).bytes, ← List.append_assoc, h.bytes, List.flatten_append]
  · exact fun hv => nomatch hv

/-- Closing only asks the socket not to send more. -/
theorem takes_closing {sock : Socket} {data : Bytes} {r : Outcome}
    (hr : r.ok = true → sock.Takes bufcnt data r) :
    (closing r).ok = true → sock.Takes bufcnt data (closing r) := by
  intro hok
  have ht := hr (Bool.and_eq_true_iff.mp hok).1
  exact ⟨ht.bytes, ht.sound.one, ht.sound.count, ht.sound.pending⟩

/-- A call of a sending function that does what it has to when there is room. -/
theorem kept_call (h : Kept bufcnt s) {msg : Bytes} {f : Except Err Outcome}
    (hf : s.sock.Sound bufcnt → s.sock.canSend msg.length = true →
      ∃ r, f = .ok r ∧ (r.ok = true → s.sock.Takes bufcnt msg r)) :
    ∃ s', s.call msg f = .ok s' ∧ Kept bufcnt s' := by
  unfold call
  split_ifs with hwait
  · exact ⟨s, rfl, h⟩
  · have hgo : s.valid = true ∧ s.sock.canSend msg.length = true := by simpa using hwait
    obtain ⟨r, rfl, hr⟩ := hf (h hgo.1).sound hgo.2
    refine ⟨_, rfl, kept_finish (h hgo.1) ?_⟩
    rwa [List.flatten_cons, List.flatten_nil, List.append_nil]

theorem map_closing {sock : Socket} {data : Bytes} {f : Except Err Outcome}
    (hf : ∃ r, f = .ok r ∧ (r.ok = true → sock.Takes bufcnt data r)) :
    ∃ r, f.map closing = .ok r ∧ (r.ok = true → sock.Takes bufcnt data r) := by
  obtain ⟨r, rfl, hr⟩ := hf
  exact ⟨_, rfl, takes_closing hr⟩

/-- No step fails, and each keeps the queue of a valid socket. -/
theorem kept_step (h : Kept bufcnt s) (e : Event) : ∃ s', s.step e = .ok s' ∧ Kept bufcnt s' := by
  cases e with
  | send data ks => exact kept_call h fun hs hc => Socket.send_spec hs hc ks
  | sendClose data ks => exact kept_call h fun hs hc => map_closing (Socket.send_spec hs hc ks)
  | sendv iov ks =>
    show ∃ s', (if iov.length ≥ MAX_IOVCNT then _ else _) = _ ∧ _
    split_ifs
    · exact ⟨s, rfl, h⟩
    · exact kept_call h fun hs hc => Socket.sendv_spec hs hc ks
  | sendvClose iov ks =>
    show ∃ s', (if iov.length ≥ MAX_IOVCNT then _ else _) = _ ∧ _
    split_ifs
    · exact ⟨s, rfl, h⟩
    · exact kept_call h fun hs hc => map_closing (Socket.sendv_spec hs hc ks)
  | writePendingData ks =>
    show ∃ s', (if s.valid = true then _ else _) = _ ∧ _
    split_ifs with hv
    · exact ⟨_, rfl, kept_finish (h hv) (Socket.writePendingData_spec (h hv).sound ks)⟩
    · exact ⟨s, rfl, h⟩
  | invalidate => exact ⟨_, rfl, fun hv => nomatch hv⟩

end State

/-- **Send-queue integrity**: whatever is sent and whatever the kernel answers, no step takes a buffer from
    an empty list or writes beyond one, and while the socket is valid its queue is in order. -/
theorem integrity_of_run (bufcnt : Nat) (es : List Event) :
    ∃ s, run State.step (State.init bufcnt) es = .ok s ∧
      (s.valid = true → s.Integrity bufcnt) := by
  obtain ⟨s, hs, hk⟩ := run_total (fun s e h => State.kept_step h e) es (State.kept_init bufcnt)
  exact ⟨s, hs, fun hv => (hk hv).integrity⟩

end Yrmcds.Tcp
