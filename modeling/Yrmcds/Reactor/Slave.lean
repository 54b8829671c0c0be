/-
  Slave mode: the replication socket, the raw pointer to it, and the reactor that owns it
  (`server::serve_slave` in src/server.cpp, src/memcache/handler.cpp, `repl_client_socket`,
  cybozu/reactor.cpp).

  A slave has one thread, so a whole call is one step here.  A ROUND of `serve_slave` connects, runs the loop
  of the reactor, and ends with `on_slave_end`:

      between  --start-->  loop  --poll-->  polled  --callback, skip-->  loop  --finish-->  between

  `m_repl_client_socket` is never reset.  The reactor destroys the socket when it collects its garbage, in the
  callback; after that `on_slave_interval` and `on_slave_end` have a dangling pointer.  A socket that leaves
  the reactor in a round gets there in three ways:

  1. the master has closed the connection.  The handler calls `quit()`, but the callback may still run in the
     SAME turn of the loop;
  2. `on_writable` fails: nobody calls `quit()`, and the next callback collects;
  3. the heartbeat itself fails: the next `poll()` removes the socket, and the callback after it collects.

  `lifetime_iff`: nothing else can go wrong with that pointer.
-/
import Mathlib.Data.List.Dedup
import Yrmcds.Reactor.Model

namespace Yrmcds.Slave

open Run
open Reactor (Call Flags)

/-! ## The reactor -/

/-- A `repl_client_socket`. -/
structure Socket where
  fd : Nat
  valid : Bool := true
deriving DecidableEq, Repr

/-- Where `serve_slave` is. -/
inductive Phase where
  | between      -- not in `serve_slave`
  | loop         -- at `while( m_running )`
  | polled       -- after `poll()`
deriving DecidableEq, Repr

/-- What a slave can die of. -/
inductive Err where
  | dangling            -- a method of a destroyed socket is called
  | removeResource      -- "bug in remove_resource"
  | emptyEntry          -- `m_resources[fd]` makes an empty entry
  | recv                -- `recv` fails for another reason, and throws
deriving DecidableEq, Repr

/-- Sockets are named by the order of their creation.  Servers and the signal descriptor are left out of
    `m_resources`: nothing removes them. -/
structure State where
  sockets : Nat → Option Socket := fun _ => none     -- those not destroyed
  created : Nat := 0
  client : Option Nat := none                        -- `m_repl_client_socket`
  resources : List (Nat × Nat) := []                 -- `m_resources`: descriptor and socket
  readables : List Nat := []                         -- `m_readables`
  dropReq : List Nat := []                           -- `m_drop_req`
  garbage : List Nat := []                           -- `m_garbage`
  running : Bool := true                             -- `reactor::m_running`
  signaled : Bool := false                           -- `server::m_signaled`
  phase : Phase := .between

/-- `m_resources.find`. -/
def State.find (s : State) (fd : Nat) : Option Nat := (s.resources.find? (·.1 = fd)).map Prod.snd

/-- `resource::invalidate`. -/
def invalidate (s : State) (c : Nat) : Bool × State :=
  match s.sockets c with
  | some sock =>
    if sock.valid then
      (false, { s with sockets := Function.update s.sockets c (some { sock with valid := false }) })
    else (true, s)
  | none => (true, s)

/-- `reactor::remove_resource`; no other thread is there, so `try_close` closes. -/
def removeResource (s : State) (fd : Nat) : Except Err State :=
  match s.find fd with
  | none => .error .removeResource
  | some c => .ok { s with
      resources := s.resources.filter (·.1 ≠ fd)
      garbage := s.garbage ++ [c]
      readables := s.readables.filter (· ≠ fd) }

/-- What the loop of `recv` comes to: `EAGAIN`, too many turns, the end of the stream or a reset, or
    another error. -/
inductive Received where
  | drained | more | closed | failed
deriving DecidableEq, Repr

/-- What the system calls of the socket's handlers return. -/
structure Io where
  received : Received
  written : Bool          -- `write_pending_data`
deriving DecidableEq, Repr

/-- The handlers of `repl_client_socket`. -/
def handle (s : State) (c fd : Nat) (io : Io) : Call → Except Err (Bool × State)
  | .error | .hangup => .ok (invalidate { s with running := false } c)
  | .readable =>
    match io.received with
    | .drained => .ok (true, s)
    | .more => .ok (true, { s with readables := s.readables ++ [fd] })
    | .closed => .ok (invalidate { s with running := false } c)
    | .failed => .error .recv
  | .writable => .ok (if io.written then (true, s) else invalidate s c)

/-- The calls that `poll` makes for one descriptor: the first that returns false removes it. -/
def dispatch (s : State) (c fd : Nat) (io : Io) : List Call → Except Err State
  | [] => .ok s
  | k :: ks =>
    match handle s c fd io k with
    | .error e => .error e
    | .ok (true, s') => dispatch s' c fd io ks
    | .ok (false, s') => removeResource s' fd

/-- What happens in one `poll()`: what the calls for `m_readables` find, what `epoll_wait` reports, and whether
    there is a signal that ends the server. -/
structure Input where
  again : Io
  events : List (Nat × Flags × Io)
  signal : Bool

/-- `poll`, first part: the readable resources. -/
def pollReadables (s : State) (io : Io) : Except Err State :=
  s.readables.dedup.foldlM (fun s fd =>
    match s.find fd with
    | none => .error .emptyEntry
    | some c => dispatch s c fd io [.readable]) { s with readables := [] }

/-- `poll`, second part: the requests for removal. -/
def pollDrops (s : State) : Except Err State := s.dropReq.foldlM removeResource { s with dropReq := [] }

/-- The kernel reports descriptors that are registered. -/
def pollEvents (s : State) (events : List (Nat × Flags × Io)) : Except Err State :=
  events.foldlM (fun s ev =>
    match s.find ev.1 with
    | none => .ok s
    | some c => dispatch s c ev.1 ev.2.2 ev.2.1.calls) s

/-- The handler of the signals. -/
def pollSignal (s : State) (signal : Bool) : State :=
  if signal then { s with signaled := true, running := false } else s

/-- `reactor::poll`. -/
def poll (s : State) (i : Input) : Except Err State :=
  match pollReadables s i.again with
  | .error e => .error e
  | .ok s1 =>
    match pollDrops s1 with
    | .error e => .error e
    | .ok s2 =>
      match pollEvents s2 i.events with
      | .error e => .error e
      | .ok s3 => .ok (pollSignal s3 i.signal)

/-- `fix_garbage` and `gc`. -/
def gc (s : State) : State :=
  { s with sockets := fun c => if c ∈ s.garbage then none else s.sockets c, garbage := [] }

/-! ## The handler and the server -/

/-- `handler::on_slave_interval`: `sent` is the result of `_send`. -/
def onSlaveInterval (s : State) (sent : Bool) : Except Err State :=
  match s.client with
  | none => .error .dangling
  | some c =>
    match s.sockets c with
    | none => .error .dangling
    | some sock =>
      if sock.valid ∧ sent = false then .ok { (invalidate s c).2 with dropReq := s.dropReq ++ [sock.fd] }
      else .ok s

/-- `handler::on_slave_end`. -/
def onSlaveEnd (s : State) : Except Err State :=
  match s.client.bind s.sockets with
  | none => .error .dangling
  | some sock => if sock.valid then removeResource s sock.fd else .ok s

/-- What happens to a slave. -/
inductive Event where
  | start (fd : Option Nat) (i : Input)         -- `on_slave_start`; without a connection it polls once
  | poll (i : Input)
  | skip                                        -- less than a second has passed
  | callback (isMaster sent : Bool)
  | finish                                      -- the loop is over: `on_slave_end`

/-- The callback of `serve_slave`. -/
def callback (s : State) (isMaster sent : Bool) : Except Err State :=
  if isMaster then .ok { s with running := false }
  else (onSlaveInterval s sent).map gc

/-- `on_slave_start`, with the descriptor of the new connection. -/
def connect (s : State) (fd : Nat) : State :=
  { s with
    sockets := Function.update s.sockets s.created (some ⟨fd, true⟩)
    created := s.created + 1
    client := some s.created
    resources := (fd, s.created) :: s.resources
    running := true
    phase := .loop }

/-- One step of a slave.  The kernel gives a new connection a descriptor that is not in use; after a signal
    there is no other round. -/
def step (s : State) : Event → Except Err State
  | .start fd i =>
    if s.phase = .between ∧ s.signaled = false then
      match fd with
      | none => Slave.poll s i
      | some fd => .ok (if (s.find fd).isSome then s else connect s fd)
    else .ok s
  | .poll i =>
    if s.phase = .loop ∧ s.running then (Slave.poll s i).map fun s' => { s' with phase := .polled }
    else .ok s
  | .skip => .ok (if s.phase = .polled then { s with phase := .loop } else s)
  | .callback isMaster sent =>
    if s.phase = .polled then (Slave.callback s isMaster sent).map fun s' => { s' with phase := .loop }
    else .ok s
  | .finish =>
    if s.phase = .loop ∧ s.running = false then (onSlaveEnd s).map fun s' => { s' with phase := .between }
    else .ok s

/-- **The pointer can be used**: `on_slave_interval` and `on_slave_end`, wherever they may be called, find
    their socket, and `on_slave_end` finds it registered if it removes it. -/
def Sound (s : State) : Prop :=
  s.phase ≠ .between → (∀ sent, ∃ s', onSlaveInterval s sent = .ok s') ∧ ∃ s', onSlaveEnd s = .ok s'

/-- The callback of a slave collects the garbage, and the socket is in it. -/
def Collects (s : State) : Event → Prop
  | .callback isMaster _ => s.phase = .polled ∧ isMaster = false ∧ ∃ c ∈ s.client, c ∈ s.garbage
  | _ => False

instance (s : State) (e : Event) : Decidable (Collects s e) :=
  match e with
  | .callback _ _ => inferInstanceAs (Decidable (_ ∧ _ ∧ ∃ c ∈ s.client, c ∈ s.garbage))
  | .start _ _ | .poll _ | .skip | .finish => .isFalse id

/-! ## What a call leaves -/

/-- The call returns with `P`, or `recv` has thrown. -/
def Ends {α : Type} (P : α → Prop) : Except Err α → Prop
  | .ok a => P a
  | .error e => e = .recv

theorem Ends.mono {α : Type} {P Q : α → Prop} {r : Except Err α} (h : Ends P r) (hpq : ∀ a, P a → Q a) :
    Ends Q r := by
  cases r with
  | ok a => exact hpq a h
  | error e => exact h

theorem Ends.map {α β : Type} {P : β → Prop} {r : Except Err α} {f : α → β}
    (h : Ends (fun a => P (f a)) r) :
    Ends P (r.map f) := by
  cases r with
  | ok a => exact h
  | error e => exact h

/-- A loop that keeps `P`. -/
theorem Ends.foldlM {β : Type} {P : State → Prop} {f : State → β → Except Err State}
    (hf : ∀ s b, P s → Ends P (f s b)) (bs : List β) : ∀ {s : State}, P s → Ends P (bs.foldlM f s) := by
  induction bs with
  | nil => exact fun h => h
  | cons b bs ih =>
    intro s h
    rw [List.foldlM_cons]
    have hb := hf s b h
    cases hr : f s b with
    | ok s' => rw [hr] at hb; exact ih hb
    | error e => rw [hr] at hb; exact hb

/-- The socket `c` is registered, alone, with the drop requests `drops`. -/
structure Registered (c fd : Nat) (valid : Bool) (drops : List Nat) (s : State) : Prop where
  socket : s.sockets c = some ⟨fd, valid⟩
  resources : s.resources = [(fd, c)]
  readables : ∀ x ∈ s.readables, x = fd
  dropReq : s.dropReq = drops
  fresh : c ∉ s.garbage
  created : c < s.created ∧ ∀ d ∈ s.garbage, d < s.created
  client : s.client = some c

/-- ... in a loop that nobody has ended: only an invalid socket has called `quit()`. -/
structure Open (c fd : Nat) (valid : Bool) (drops : List Nat) (s : State) : Prop
    extends Registered c fd valid drops s where
  running : valid = true → s.running = true

/-- The socket has left the reactor, and is not destroyed yet. -/
structure Removed (c fd : Nat) (valid : Bool) (drops : List Nat) (s : State) : Prop where
  socket : s.sockets c = some ⟨fd, valid⟩
  resources : s.resources = []
  readables : s.readables = []
  dropReq : s.dropReq = drops
  garbage : c ∈ s.garbage
  created : ∀ d ∈ s.garbage, d < s.created
  client : s.client = some c

/-- Nothing is registered. -/
structure Idle (s : State) : Prop where
  resources : s.resources = []
  readables : s.readables = []
  dropReq : s.dropReq = []
  created : ∀ d ∈ s.garbage, d < s.created

section Calls

variable {c fd : Nat} {valid : Bool} {drops : List Nat} {s : State}

theorem Registered.find (h : Registered c fd valid drops s) : s.find fd = some c := by
  unfold State.find
  rw [h.resources]
  simp

theorem Registered.find_ne (h : Registered c fd valid drops s) {x : Nat} (hx : x ≠ fd) :
    s.find x = none := by
  unfold State.find
  rw [h.resources]
  simp [Ne.symm hx]

theorem find_nil (h : s.resources = []) (x : Nat) : s.find x = none := by
  unfold State.find
  rw [h]
  rfl

theorem Registered.removeResource (h : Registered c fd valid drops s) :
    ∃ s', removeResource s fd = .ok s' ∧ Removed c fd valid drops s' := by
  unfold Slave.removeResource
  rw [h.find]
  refine ⟨_, rfl, h.socket, ?_, ?_, h.dropReq, by simp, ?_, h.client⟩
  · simp [h.resources]
  · exact List.filter_eq_nil_iff.mpr fun x hx => by simp [h.readables x hx]
  · intro d hd
    rcases List.mem_append.mp hd with hd | hd
    · exact h.created.2 d hd
    · rw [List.mem_singleton.mp hd]
      exact h.created.1

/-- `invalidate` of a valid socket returns false; of another it returns true and does nothing. -/
theorem Registered.invalidate (h : Registered c fd valid drops s) :
    (invalidate s c).1 = !valid ∧ Registered c fd false drops (invalidate s c).2 := by
  unfold Slave.invalidate
  rw [h.socket]
  cases valid with
  | true => exact ⟨rfl, by simp, h.resources, h.readables, h.dropReq, h.fresh, h.created, h.client⟩
  | false => exact ⟨rfl, h⟩

/-- What a handler may leave: it returns true, and the socket is as valid as before; or it has invalidated
    it. -/
def Handled (c fd : Nat) (valid : Bool) (drops : List Nat) (r : Bool × State) : Prop :=
  if r.1 then Open c fd valid drops r.2 else Registered c fd false drops r.2 ∧ valid = true

theorem Registered.handled (h : Registered c fd valid drops s) :
    Handled c fd valid drops (Slave.invalidate s c) := by
  obtain ⟨hret, hs⟩ := h.invalidate
  unfold Handled
  rw [hret]
  cases valid with
  | true => exact ⟨hs, rfl⟩
  | false => exact ⟨hs, nofun⟩

theorem Registered.quit (h : Registered c fd valid drops s) :
    Registered c fd valid drops { s with running := false } :=
  ⟨h.socket, h.resources, h.readables, h.dropReq, h.fresh, h.created, h.client⟩

theorem Open.handle (h : Open c fd valid drops s) (io : Io) (k : Call) :
    Ends (Handled c fd valid drops) (handle s c fd io k) := by
  cases k with
  | error | hangup => exact h.quit.handled
  | readable =>
    unfold Slave.handle
    cases io.received with
    | drained => exact h
    | more =>
      refine ⟨⟨h.socket, h.resources, fun x hx => ?_, h.dropReq, h.fresh, h.created, h.client⟩, h.running⟩
      rcases List.mem_append.mp hx with hx | hx
      · exact h.readables x hx
      · exact List.mem_singleton.mp hx
    | closed => exact h.quit.handled
    | failed => rfl
  | writable =>
    unfold Slave.handle
    cases io.written with
    | true => exact h
    | false => exact h.handled

/-- What a part of `poll()` may leave: the socket is as before, or it has gone. -/
def Polled (c fd : Nat) (valid : Bool) (drops : List Nat) (s : State) : Prop :=
  Open c fd valid drops s ∨ Removed c fd false drops s ∧ valid = true

theorem Open.dispatch (io : Io) (ks : List Call) : ∀ {s : State}, Open c fd valid drops s →
    Ends (Polled c fd valid drops) (dispatch s c fd io ks) := by
  induction ks with
  | nil => exact fun h => .inl h
  | cons k ks ih =>
    intro s h
    have hk := h.handle io k
    rw [Slave.dispatch]
    cases hr : Slave.handle s c fd io k with
    | error e => rw [hr] at hk; exact hk
    | ok r =>
      obtain ⟨ret, s'⟩ := r
      rw [hr] at hk
      cases ret with
      | true => exact ih hk
      | false =>
        obtain ⟨hreg, hv⟩ : Registered c fd false drops s' ∧ valid = true := hk
        obtain ⟨s1, hs1, hrem⟩ := hreg.removeResource
        dsimp only
        rw [hs1]
        exact .inr ⟨hrem, hv⟩

theorem Open.pollReadables (h : Open c fd valid drops s) (io : Io) :
    Ends (Polled c fd valid drops) (pollReadables s io) := by
  have hclear : Open c fd valid drops { s with readables := [] } :=
    ⟨⟨h.socket, h.resources, nofun, h.dropReq, h.fresh, h.created, h.client⟩, h.running⟩
  unfold Slave.pollReadables
  -- There is at most one descriptor in the list.
  have hall : s.readables = List.replicate s.readables.length fd := List.eq_replicate_of_mem h.readables
  by_cases hn : s.readables.length = 0
  · rw [List.length_eq_zero_iff.mp hn]
    exact .inl hclear
  · rw [hall, List.replicate_dedup hn, List.foldlM_cons, hclear.find]
    dsimp only
    have hd := hclear.dispatch io [.readable]
    cases hr : Slave.dispatch { s with readables := [] } c fd io [.readable] with
    | error e => rw [hr] at hd; exact hd
    | ok s' => rw [hr] at hd; exact hd

theorem Open.pollEvents (h : Open c fd true drops s) (events : List (Nat × Flags × Io)) :
    Ends (Polled c fd true drops) (pollEvents s events) := by
  refine Ends.foldlM (fun s ev hs => ?_) events (.inl h)
  rcases hs with hs | ⟨hs, hv⟩
  · by_cases hfd : ev.1 = fd
    · rw [hfd, hs.find]
      exact hs.dispatch ev.2.2 ev.2.1.calls
    · rw [hs.find_ne hfd]
      exact .inl hs
  · rw [find_nil hs.resources]
    exact .inr ⟨hs, hv⟩

theorem pollEvents_nil (h : s.resources = []) (events : List (Nat × Flags × Io)) :
    pollEvents s events = .ok s := by
  unfold pollEvents
  induction events with
  | nil => rfl
  | cons ev events ih =>
    rw [List.foldlM_cons, find_nil h]
    exact ih

theorem pollReadables_nil (h : s.readables = []) (io : Io) : pollReadables s io = .ok s := by
  unfold pollReadables
  rw [h]
  show Except.ok { s with readables := [] } = _
  rw [← h]

theorem pollDrops_nil (h : s.dropReq = []) : pollDrops s = .ok s := by
  unfold pollDrops
  rw [h]
  show Except.ok { s with dropReq := [] } = _
  rw [← h]

/-- A requested drop is made. -/
theorem Registered.pollDrops (h : Registered c fd valid [fd] s) :
    ∃ s', pollDrops s = .ok s' ∧ Removed c fd valid [] s' := by
  have hclear : Registered c fd valid [] { s with dropReq := [] } :=
    ⟨h.socket, h.resources, h.readables, rfl, h.fresh, h.created, h.client⟩
  obtain ⟨s', hs', hrem⟩ := hclear.removeResource
  refine ⟨s', ?_, hrem⟩
  unfold Slave.pollDrops
  rw [h.dropReq, List.foldlM_cons, hs']
  rfl

end Calls

/-! ## `poll` -/

/-- Where the socket is after `poll()`: registered, and the loop goes on unless there was a signal; or in the
    garbage. -/
def Settled (c fd : Nat) (s : State) : Prop :=
  Registered c fd true [] s ∧ (s.running = true ∨ s.signaled = true) ∨ Removed c fd false [] s

section Poll

variable {c fd : Nat} {s : State}

theorem Settled.pollSignal (h : Polled c fd true [] s) (signal : Bool) :
    Settled c fd (pollSignal s signal) := by
  unfold Slave.pollSignal
  rcases h with h | ⟨h, -⟩
  · refine .inl ?_
    cases signal with
    | true => exact ⟨⟨h.socket, h.resources, h.readables, h.dropReq, h.fresh, h.created, h.client⟩, .inr rfl⟩
    | false => exact ⟨h.toRegistered, .inl (h.running rfl)⟩
  · refine .inr ?_
    cases signal with
    | true => exact ⟨h.socket, h.resources, h.readables, h.dropReq, h.garbage, h.created, h.client⟩
    | false => exact h

/-- Without anything registered or requested there is nothing to do. -/
theorem poll_quiet (hres : s.resources = []) (hread : s.readables = []) (hdrop : s.dropReq = [])
    (i : Input) :
    poll s i = .ok (pollSignal s i.signal) := by
  unfold poll
  rw [pollReadables_nil hread]
  dsimp only
  rw [pollDrops_nil hdrop]
  dsimp only
  rw [pollEvents_nil hres]

theorem Removed.poll (h : Removed c fd false [] s) (i : Input) : Ends (Settled c fd) (poll s i) := by
  rw [poll_quiet h.resources h.readables h.dropReq]
  exact Settled.pollSignal (.inr ⟨h, rfl⟩) i.signal

theorem Open.poll (h : Open c fd true [] s) (i : Input) : Ends (Settled c fd) (Slave.poll s i) := by
  unfold Slave.poll
  have hread := h.pollReadables i.again
  cases hr : Slave.pollReadables s i.again with
  | error e => rw [hr] at hread; exact hread
  | ok s1 =>
    rw [hr] at hread
    rcases hread with h1 | ⟨h1, -⟩
    · dsimp only
      rw [pollDrops_nil h1.dropReq]
      dsimp only
      have hev := h1.pollEvents i.events
      cases he : Slave.pollEvents s1 i.events with
      | error e => rw [he] at hev; exact hev
      | ok s2 => rw [he] at hev; exact .pollSignal hev i.signal
    · dsimp only
      rw [pollDrops_nil h1.dropReq]
      dsimp only
      rw [pollEvents_nil h1.resources]
      exact .pollSignal (.inr ⟨h1, rfl⟩) i.signal

/-- The `poll()` after a failed heartbeat removes the socket. -/
theorem Open.poll_drop (h : Open c fd false [fd] s) (i : Input) : Ends (Settled c fd) (Slave.poll s i) := by
  unfold Slave.poll
  have hread := h.pollReadables i.again
  cases hr : Slave.pollReadables s i.again with
  | error e => rw [hr] at hread; exact hread
  | ok s1 =>
    rw [hr] at hread
    rcases hread with h1 | ⟨-, hv⟩
    · obtain ⟨s2, hs2, h2⟩ := h1.pollDrops
      dsimp only
      rw [hs2]
      dsimp only
      rw [pollEvents_nil h2.resources]
      exact .pollSignal (.inr ⟨h2, rfl⟩) i.signal
    · cases hv

end Poll

/-! ## Steps and runs -/

/-- Where the socket may be in the loop: as after `poll()`, but the callback may have ended the loop; or the
    heartbeat has failed. -/
def Looping (c fd : Nat) (s : State) : Prop :=
  Registered c fd true [] s ∨ Removed c fd false [] s ∨
    Registered c fd false [fd] s ∧ (s.running = true ∨ s.signaled = true)

/-- What holds while the socket has not been collected. -/
inductive Inv (s : State) : Prop
  | between (hp : s.phase = .between) (h : s.signaled = false → Idle s)
  | loop {c fd : Nat} (hp : s.phase = .loop) (h : Looping c fd s)
  | polled {c fd : Nat} (hp : s.phase = .polled) (h : Settled c fd s)

theorem inv_init : Inv {} := .between rfl fun _ => ⟨rfl, rfl, rfl, nofun⟩

section Steps

variable {s : State} {c fd : Nat} {valid : Bool} {drops : List Nat}

/-! Only the phase and the flags of the loop change. -/

theorem Registered.congr (h : Registered c fd valid drops s) (running signaled : Bool) (phase : Phase) :
    Registered c fd valid drops { s with running := running, signaled := signaled, phase := phase } :=
  ⟨h.socket, h.resources, h.readables, h.dropReq, h.fresh, h.created, h.client⟩

theorem Removed.congr (h : Removed c fd valid drops s) (running signaled : Bool) (phase : Phase) :
    Removed c fd valid drops { s with running := running, signaled := signaled, phase := phase } :=
  ⟨h.socket, h.resources, h.readables, h.dropReq, h.garbage, h.created, h.client⟩

theorem Settled.setPhase (h : Settled c fd s) (phase : Phase) : Settled c fd { s with phase := phase } := by
  rcases h with ⟨h, hflag⟩ | h
  · exact .inl ⟨h.congr s.running s.signaled phase, hflag⟩
  · exact .inr (h.congr s.running s.signaled phase)

theorem Looping.setPhase (h : Looping c fd s) (phase : Phase) : Looping c fd { s with phase := phase } := by
  rcases h with h | h | ⟨h, hflag⟩
  · exact .inl (h.congr s.running s.signaled phase)
  · exact .inr (.inl (h.congr s.running s.signaled phase))
  · exact .inr (.inr ⟨h.congr s.running s.signaled phase, hflag⟩)

theorem Settled.looping (h : Settled c fd s) (running : Bool) :
    Looping c fd { s with running := running } := by
  rcases h with ⟨h, -⟩ | h
  · exact .inl (h.congr running s.signaled s.phase)
  · exact .inr (.inl (h.congr running s.signaled s.phase))

theorem Settled.client (h : Settled c fd s) : s.client = some c := by
  rcases h with ⟨h, -⟩ | h
  · exact h.client
  · exact h.client

/-- A round starts with a new socket. -/
theorem Idle.connect (h : Idle s) (fd : Nat) : Registered s.created fd true [] (connect s fd) where
  socket := Function.update_self ..
  resources := by rw [Slave.connect, h.resources]
  readables := by rw [Slave.connect, h.readables]; nofun
  dropReq := h.dropReq
  fresh := fun hg => Nat.lt_irrefl _ (h.created _ hg)
  created := ⟨Nat.lt_succ_self _, fun d hd => Nat.lt_succ_of_lt (h.created d hd)⟩
  client := rfl

theorem Looping.poll (h : Looping c fd s) (hr : s.running = true) (i : Input) :
    Ends (Settled c fd) (Slave.poll s i) := by
  rcases h with h | h | ⟨h, -⟩
  · exact Open.poll ⟨h, fun _ => hr⟩ i
  · exact h.poll i
  · exact Open.poll_drop ⟨h, nofun⟩ i

/-- `on_slave_interval` with a socket that has not been destroyed. -/
theorem onSlaveInterval_eq {sock : Socket} (hc : s.client = some c) (hs : s.sockets c = some sock)
    (sent : Bool) :
    onSlaveInterval s sent
      = .ok (if sock.valid ∧ sent = false then { (invalidate s c).2 with dropReq := s.dropReq ++ [sock.fd] }
          else s) := by
  unfold onSlaveInterval
  rw [hc]
  dsimp only
  rw [hs]
  dsimp only
  split_ifs <;> rfl

theorem onSlaveEnd_eq {sock : Socket} (hc : s.client = some c) (hs : s.sockets c = some sock) :
    onSlaveEnd s = if sock.valid then removeResource s sock.fd else .ok s := by
  unfold onSlaveEnd
  rw [hc, Option.bind_some, hs]

/-- ... and a round ends with no socket registered, unless there was a signal. -/
theorem Looping.onSlaveEnd (h : Looping c fd s) (hr : s.running = false) :
    Ends (fun s' : State => s'.signaled = false → Idle s') (onSlaveEnd s) := by
  rcases h with h | h | ⟨h, hflag⟩
  · rw [onSlaveEnd_eq h.client h.socket]
    obtain ⟨s', hs', hrem⟩ := h.removeResource
    dsimp only
    rw [if_pos rfl, hs']
    exact fun _ => ⟨hrem.resources, hrem.readables, hrem.dropReq, hrem.created⟩
  · rw [onSlaveEnd_eq h.client h.socket]
    exact fun _ => ⟨h.resources, h.readables, h.dropReq, h.created⟩
  · rw [onSlaveEnd_eq h.client h.socket]
    intro hsig
    rw [hr, show s.signaled = false from hsig] at hflag
    exact hflag.elim nofun nofun

theorem invalidate_flags (s : State) (c : Nat) :
    (invalidate s c).2.running = s.running ∧ (invalidate s c).2.signaled = s.signaled := by
  unfold invalidate
  cases s.sockets c with
  | none => exact ⟨rfl, rfl⟩
  | some sock =>
    dsimp only
    split_ifs <;> exact ⟨rfl, rfl⟩

theorem Registered.gc (h : Registered c fd valid drops s) : Registered c fd valid drops (gc s) where
  socket := (if_neg h.fresh).trans h.socket
  resources := h.resources
  readables := h.readables
  dropReq := h.dropReq
  fresh := nofun
  created := ⟨h.created.1, nofun⟩
  client := h.client

/-- The callback, if the socket is not in the garbage. -/
theorem Settled.callback (h : Settled c fd s) {isMaster : Bool} (hg : isMaster = false → c ∉ s.garbage)
    (sent : Bool) :
    Ends (Looping c fd) (callback s isMaster sent) := by
  cases isMaster with
  | true => exact h.looping false
  | false =>
    rcases h with ⟨h, hflag⟩ | h
    · show Ends _ ((onSlaveInterval s sent).map Slave.gc)
      rw [onSlaveInterval_eq h.client h.socket]
      cases sent with
      | true => exact .inl h.gc
      | false =>
        have hinv := h.invalidate.2
        refine .inr (.inr ⟨Registered.gc ?_, ?_⟩)
        · exact ⟨hinv.socket, hinv.resources, hinv.readables, by rw [h.dropReq]; rfl, hinv.fresh,
            hinv.created,
            hinv.client⟩
        · show (invalidate s c).2.running = true ∨ (invalidate s c).2.signaled = true
          rw [(invalidate_flags s c).1, (invalidate_flags s c).2]
          exact hflag
    · exact absurd h.garbage (hg rfl)

/-- **One step** keeps the invariant, unless it collects the socket; and it throws nothing but `recv`'s
    error. -/
theorem Inv.step (h : Inv s) {e : Event} (hc : ¬ Collects s e) : Ends Inv (step s e) := by
  cases e with
  | start conn i =>
    dsimp only [Slave.step]
    split_ifs with hg
    · cases h with
      | between hp hidle =>
        have hidle := hidle hg.2
        cases conn with
        | none =>
          dsimp only
          rw [poll_quiet hidle.resources hidle.readables hidle.dropReq]
          unfold pollSignal
          split_ifs
          · exact .between hp nofun
          · exact .between hp fun _ => hidle
        | some fd =>
          dsimp only
          rw [find_nil hidle.resources]
          exact .loop rfl (.inl (hidle.connect fd))
      | loop hp | polled hp => rw [hp] at hg; cases hg.1
    · exact h
  | poll i =>
    dsimp only [Slave.step]
    split_ifs with hg
    · cases h with
      | loop hp h => exact Ends.map ((h.poll hg.2 i).mono fun s' hs' => .polled rfl (hs'.setPhase .polled))
      | between hp | polled hp => rw [hp] at hg; cases hg.1
    · exact h
  | skip =>
    dsimp only [Slave.step]
    split_ifs with hg
    · cases h with
      | polled hp h => exact .loop rfl ((h.looping s.running).setPhase .loop)
      | between hp | loop hp => rw [hp] at hg; cases hg
    · exact h
  | callback isMaster sent =>
    dsimp only [Slave.step]
    split_ifs with hg
    · cases h with
      | polled hp h =>
        have hcall := h.callback (fun hm hmem => hc ⟨hp, hm, _, h.client, hmem⟩) sent
        exact Ends.map (hcall.mono fun s' hs' => .loop rfl (hs'.setPhase .loop))
      | between hp | loop hp => rw [hp] at hg; cases hg
    · exact h
  | finish =>
    dsimp only [Slave.step]
    split_ifs with hg
    · cases h with
      | loop hp h =>
        refine Ends.map ((h.onSlaveEnd hg.2).mono fun s' hs' => .between rfl fun hsig => ?_)
        have hidle := hs' hsig
        exact ⟨hidle.resources, hidle.readables, hidle.dropReq, hidle.created⟩
      | between hp | polled hp => rw [hp] at hg; cases hg.1
    · exact h

/-- Where the socket is in the loop, both calls find it. -/
theorem Looping.sound (h : Looping c fd s) : Sound s := by
  intro _
  rcases h with h | h | ⟨h, -⟩
  · refine ⟨fun sent => ⟨_, onSlaveInterval_eq h.client h.socket sent⟩, ?_⟩
    obtain ⟨s', hs', -⟩ := h.removeResource
    exact ⟨s', (onSlaveEnd_eq h.client h.socket).trans hs'⟩
  · exact ⟨fun sent => ⟨_, onSlaveInterval_eq h.client h.socket sent⟩, _, onSlaveEnd_eq h.client h.socket⟩
  · exact ⟨fun sent => ⟨_, onSlaveInterval_eq h.client h.socket sent⟩, _, onSlaveEnd_eq h.client h.socket⟩

theorem Inv.sound (h : Inv s) : Sound s := by
  cases h with
  | between hp => exact fun hne => absurd hp hne
  | loop hp h => exact h.sound
  | polled hp h => exact (h.looping s.running).sound

/-- **After the collection** the pointer dangles, in the middle of a round. -/
theorem Inv.collected (h : Inv s) {e : Event} (hc : Collects s e) :
    ∃ s', Slave.step s e = .ok s' ∧ ¬ Sound s' := by
  cases e with
  | callback isMaster sent =>
    obtain ⟨hp, rfl, d, hclient, hmem⟩ := hc
    cases h with
    | between hp' | loop hp' => rw [hp'] at hp; cases hp
    | @polled c fd _ h =>
      have hd : d = c := Option.some.inj (hclient.symm.trans h.client)
      subst hd
      rcases h with ⟨h, -⟩ | h
      · exact absurd hmem h.fresh
      · have hstep : Slave.step s (.callback false sent) = .ok { gc s with phase := .loop } := by
          show (if s.phase = .polled then ((onSlaveInterval s sent).map gc).map _ else _) = _
          rw [if_pos hp, onSlaveInterval_eq h.client h.socket]
          rfl
        refine ⟨_, hstep, fun hsound => ?_⟩
        -- The heartbeat of the next callback finds nothing.
        obtain ⟨s', hs'⟩ := (hsound nofun).1 true
        unfold onSlaveInterval at hs'
        rw [show State.client { gc s with phase := .loop } = some d from h.client] at hs'
        dsimp only [gc] at hs'
        rw [if_pos h.garbage] at hs'
        cases hs'
  | start _ _ | poll _ | skip | finish => exact hc.elim

end Steps

/-- **Lifetime of the replication socket.**  In every run of slave mode the pointer can be used wherever it may
    be, exactly if no callback collects the garbage with the socket in it. -/
theorem lifetime_iff (es : List Event) :
    Throughout Sound step {} es ↔ Along (fun s e => ¬ Collects s e) step {} es := by
  refine throughout_iff_along (I := Inv) (fun s h => h.sound) (fun s e h => ⟨?_, ?_⟩) ?_ es inv_init
  · intro hc s' hs
    have hi := h.step hc
    rw [hs] at hi
    exact hi.sound
  · intro hsound hc
    obtain ⟨s', hs, hnot⟩ := h.collected hc
    exact hnot (hsound s' hs)
  · intro s e s' h hs hsound
    have hc : ¬ Collects s e := by
      intro hc
      obtain ⟨t, ht, hnot⟩ := h.collected hc
      rw [hs] at ht
      cases ht
      exact hnot hsound
    have hi := h.step hc
    rw [hs] at hi
    exact hi

/-- ... and then a run ends in no other exception than that of `recv`. -/
theorem run_throws {es : List Event} {x : Err} (hc : Along (fun s e => ¬ Collects s e) step {} es)
    (h : run step {} es = .error x) : x = .recv := by
  refine run_error (I := Inv) (Q := (· = .recv)) ?_ ?_ es inv_init hc h
  · intro s e s' hi hc hs
    have := hi.step hc
    rw [hs] at this
    exact this
  · intro s e x hi hc hs
    have := hi.step hc
    rw [hs] at this
    exact this

/-- A quiet turn of the loop, and what the connection may report. -/
def quiet : Input := ⟨⟨.drained, true⟩, [], false⟩

/-- The connection is reported to have hung up. -/
def hangup (fd : Nat) : Input :=
  ⟨⟨.drained, true⟩, [(fd, ⟨false, true, false, false⟩, ⟨.drained, true⟩)], false⟩

/-- The master hangs up in the turn of the loop in which a second is over: `on_slave_end` finds the socket
    destroyed.  A heartbeat that fails is followed by two that find it removed, and destroyed. -/
theorem socket_destroyed :
    run step {}
      [.start (some 5) quiet, .poll (hangup 5), .callback false true, .finish] = .error .dangling ∧
    run step {}
      [.start (some 5) quiet, .poll quiet, .callback false false, .poll quiet, .callback false true,
      .poll quiet, .callback false true] = .error .dangling :=
  ⟨rfl, rfl⟩

end Yrmcds.Slave
