/-
  The master process around the hash map (cybozu/reactor.hpp, cybozu/reactor.cpp, cybozu/worker.hpp,
  src/sync.hpp, src/server.cpp, src/memcache/handler.cpp, and the jobs of src/memcache/sockets.cpp).

  Three kinds of threads take steps in any order:

  * The REACTOR accepts connections and slaves, posts a connection's receive or send job to an idle
    worker, invalidates connections, removes them (to `m_garbage`, closing the descriptor early),
    checks the `syncer`, starts GC passes and, once every worker has been seen idle, destroys what it
    had fixed as garbage.
  * A WORKER runs one job at a time.  The receive job sets the thread-local `g_context` — only if the
    connection is valid, because it does so through `with_fd` — and then receives and executes
    commands until `receive` says that nothing is left, or that the connection is gone, in which case
    it calls `unlock_all`.
  * The GC THREAD visits one bucket at a time.

  Connections and slaves are named by the order in which they were accepted, so a name is never used
  twice; DESCRIPTORS are the kernel's and are used again once closed (`openFds`).  What makes a
  connection invalid (an error event of the reactor, a failed send of any worker) is one event.
  `add_readable` only makes the reactor call `on_readable` again, so it is not modelled, and an event
  that is not enabled leaves the state alone.
-/
import Yrmcds.Memcache.Server

namespace Yrmcds.Memcache

open ChainTable

/-- `MAX_SLAVES` of src/constants.hpp. -/
def MAX_SLAVES : Nat := 5

/-- `recv_result`. -/
inductive RecvResult where
  | OK | AGAIN | RESET | NONE
deriving DecidableEq, Repr

/-- What a worker was given: the receive job of a connection, not started yet or in its loop (`got`:
    data has been received, so there may be commands to execute), or its send job. -/
inductive Job where
  | posted (c : Nat)
  | recv (c : Nat) (got : Bool)
  | send (c : Nat)
deriving DecidableEq, Repr

/-- The connection a job works on. -/
def Job.conn : Job → Nat
  | .posted c => c
  | .recv c _ => c
  | .send c => c

/-- It is `m_recvjob`. -/
def Job.isRecv : Job → Bool
  | .send _ => false
  | _ => true

/-- A worker thread: its `g_context`, and its job while `is_running()`. -/
structure Worker where
  ctx : Int := -1
  job : Option Job := none

/-- The callbacks the `syncer` is asked to make. -/
inductive Callback where
  | newSlave (x : Nat)        -- `m_new_slaves.push_back`
  | reactorGc                 -- `m_reactor.gc()`
deriving DecidableEq, Repr

/-- A `sync_request`, with the workers whose flag is not set. -/
structure SyncRequest where
  callback : Callback
  waiting : List Nat

/-- The server with its reactor, its workers and its slaves. -/
structure Master where
  server : Server
  accepted : Nat := 0                          -- connections accepted so far
  joined : Nat := 0                            -- slaves accepted so far
  openFds : List Int := []                     -- the descriptors the process has open
  resources : List Nat := []                   -- `m_resources`
  garbage : List Nat := []                     -- `m_garbage`
  garbageCopy : List Nat := []                 -- `m_garbage_copy`
  nWorkers : Nat
  workers : Nat → Worker := fun _ => {}
  slaves : List Nat := []                      -- `handler::m_slaves`
  newSlaves : List Nat := []                   -- `handler::m_new_slaves`
  requests : List SyncRequest := []            -- `syncer::m_requests`

/-- What the threads can do. -/
inductive MasterEvent where
  -- the reactor
  | accept (fd : Int)
  | join
  | leave (x : Nat)                            -- `on_master_interval` drops a slave
  | readable (c w : Nat)
  | writable (c w : Nat)
  | invalidate (c : Nat)                       -- of the reactor, or of any worker's `with_fd`
  | remove (c : Nat)
  | tryClose (c : Nat)
  | check
  | gcStart (wall : Int)
  | fixGarbage
  | tick (now : Int)
  -- the workers
  | start (w : Nat)
  | receive (w : Nat) (res : RecvResult)
  | exec (w : Nat) (r : Cmd)
  | tooLarge (w : Nat)
  | sent (w : Nat) (ok : Bool)
  -- the GC thread
  | gcNext

namespace Master

variable (s : Master)

/-- `is_running()`. -/
def running (w : Nat) : Bool := (s.workers w).job.isSome

/-- A connection changes. -/
def setConn (c : Nat) (conn : Conn) : Master :=
  { s with server := { s.server with conns := Function.update s.server.conns c (some conn) } }

/-- A worker changes. -/
def setWorker (w : Nat) (x : Worker) : Master :=
  { s with workers := Function.update s.workers w x }

@[simp] theorem workers_setWorker_self (w : Nat) (x : Worker) :
    (s.setWorker w x).workers w = x := Function.update_self ..

theorem workers_setWorker_of_ne {w u : Nat} (x : Worker) (h : u ≠ w) :
    (s.setWorker w x).workers u = s.workers u := Function.update_of_ne h ..

/-! ## The syncer and the garbage -/

/-- `m_garbage_copy.clear()`: the destructors. -/
def destroyAll : Server → List Nat → Except Err Server
  | v, [] => .ok v
  | v, c :: cs =>
    match v.conns c with
    | none => destroyAll v cs
    | some conn =>
      match v.destroy c conn with
      | .ok v' => destroyAll v' cs
      | .error e => .error e

/-- The descriptors that the destructors have to close. -/
def leftOpen (v : Server) (cs : List Nat) : List Int :=
  cs.filterMap fun c => (v.conns c).bind fun conn => if conn.closed then none else some conn.fd

/-- A callback of the syncer is made. -/
def fire : Callback → Except Err Master
  | .newSlave x => .ok { s with newSlaves := s.newSlaves ++ [x] }
  | .reactorGc =>
    match destroyAll s.server s.garbageCopy with
    | .ok v => .ok { s with
        server := v
        openFds := s.openFds.filter fun fd => fd ∉ leftOpen s.server s.garbageCopy
        garbageCopy := [] }
    | .error e => .error e

/-- All that are due, in order. -/
def fireAll : Master → List SyncRequest → Except Err Master
  | s, [] => .ok s
  | s, r :: rs =>
    match s.fire r.callback with
    | .ok s' => fireAll s' rs
    | .error e => .error e

/-- `syncer::add_request`. -/
def addRequest (callback : Callback) : Except Err Master :=
  let waiting := (List.range s.nWorkers).filter s.running
  if waiting = [] then s.fire callback
  else .ok { s with requests := s.requests ++ [⟨callback, waiting⟩] }

/-- The flags set by one look at the workers. -/
def observe (r : SyncRequest) : SyncRequest :=
  { r with waiting := r.waiting.filter s.running }

/-- `syncer::check`. -/
def check : Except Err Master :=
  let requests := s.requests.map s.observe
  fireAll { s with requests := requests.filter fun r => r.waiting ≠ [] }
    (requests.filter fun r => r.waiting = [])

/-! ## The jobs -/

/-- A receive job ends. -/
def finish (w c : Nat) (conn : Conn) : Master :=
  (s.setConn c { conn with busy := false }).setWorker w { s.workers w with job := none }

/-- `unlock_all()` at the end of a receive job. -/
def reset (w c : Nat) (conn : Conn) : Except Err Master :=
  match unlockLoop (s.workers w).ctx false s.server.hash conn.locks with
  | .ok m => .ok (finish { s with server := { s.server with hash := m } } w c { conn with locks := [] })
  | .error e => .error e

/-- `receive`: an invalid connection gives `RESET`; `ECONNRESET` makes a valid one invalid. -/
def receive (w c : Nat) (conn : Conn) : RecvResult → Except Err Master
  | .OK => .ok (if conn.valid then s.setWorker w { s.workers w with job := some (.recv c true) } else s)
  | .AGAIN => .ok (if conn.valid then s.finish w c conn else s)
  | .RESET => s.reset w c { conn with valid := false }
  | .NONE => if conn.valid then s.reset w c conn else .ok s

/-- The connection of a job; a job that runs on a destroyed one is a bug. -/
def onConn (c : Nat) (f : Conn → Except Err Master) : Except Err Master :=
  match s.server.conns c with
  | none => .error .danglingSocket
  | some conn => f conn

/-- One step of the master. -/
def step : MasterEvent → Except Err Master
  | .accept fd =>
    if fd < 0 ∨ fd ∈ s.openFds then .ok s
    else .ok { s.setConn s.accepted { fd := fd } with
      accepted := s.accepted + 1
      openFds := fd :: s.openFds
      resources := s.accepted :: s.resources }
  | .join =>
    if s.slaves.length = MAX_SLAVES then .ok s
    else addRequest { s with slaves := s.slaves ++ [s.joined], joined := s.joined + 1 }
      (.newSlave s.joined)
  | .leave x => .ok { s with slaves := s.slaves.filter (· ≠ x) }
  | .readable c w =>
    match s.server.conns c with
    | none => .ok s
    | some conn =>
      if c ∈ s.resources ∧ w < s.nWorkers ∧ s.running w = false ∧ conn.busy = false then
        .ok ((s.setConn c { conn with busy := true, slaves := s.slaves }).setWorker w
          { s.workers w with job := some (.posted c) })
      else .ok s
  | .writable c w =>
    match s.server.conns c with
    | none => .ok s
    | some _ =>
      if c ∈ s.resources ∧ w < s.nWorkers ∧ s.running w = false then
        .ok (s.setWorker w { s.workers w with job := some (.send c) })
      else .ok s
  | .invalidate c =>
    match s.server.conns c with
    | none => .ok s
    | some conn => .ok (s.setConn c { conn with valid := false })
  | .remove c =>
    match s.server.conns c with
    | none => .ok s
    | some conn =>
      if c ∈ s.resources ∧ conn.valid = false then
        .ok { s with resources := s.resources.filter (· ≠ c), garbage := s.garbage ++ [c] }
      else .ok s
  | .tryClose c =>
    match s.server.conns c with
    | none => .ok s
    | some conn =>
      if (c ∈ s.garbage ∨ c ∈ s.garbageCopy) ∧ conn.closed = false then
        .ok { s.setConn c { conn with closed := true } with openFds := s.openFds.filter (· ≠ conn.fd) }
      else .ok s
  | .check => s.check
  | .gcStart wall =>
    match s.server.gc with
    | some _ => .ok s
    | none => .ok { s with server := s.server.startGc s.slaves s.newSlaves wall, newSlaves := [] }
  | .fixGarbage =>
    -- `reactor_gc_ready` of the server and of the handler
    if s.garbage = [] ∨ s.requests ≠ [] ∨ s.server.gc.isSome ∨ s.newSlaves ≠ [] then .ok s
    else if s.garbageCopy ≠ [] then .error .fixGarbageBug
    else addRequest { s with garbageCopy := s.garbage, garbage := [] } .reactorGc
  | .tick now => .ok { s with server := { s.server with now := now } }
  | .start w =>
    match (s.workers w).job with
    | some (.posted c) => s.onConn c fun conn =>
      .ok (s.setWorker w
        { ctx := if conn.valid then conn.fd else (s.workers w).ctx, job := some (.recv c false) })
    | _ => .ok s
  | .receive w res =>
    match (s.workers w).job with
    | some (.recv c _) => s.onConn c fun conn => s.receive w c conn res
    | _ => .ok s
  | .exec w r =>
    match (s.workers w).job with
    | some (.recv c true) => s.onConn c fun conn =>
      match s.server.runCmd c conn (s.workers w).ctx conn.slaves r with
      | .ok v => .ok { s with server := v }
      | .error e => .error e
    | _ => .ok s
  | .tooLarge w =>
    match (s.workers w).job with
    | some (.recv c true) => s.onConn c fun conn => s.reset w c { conn with valid := false }
    | _ => .ok s
  | .sent w ok =>
    match (s.workers w).job with
    | some (.send c) => s.onConn c fun conn =>
      .ok ((s.setConn c { conn with valid := conn.valid && ok }).setWorker w
        { s.workers w with job := none })
    | _ => .ok s
  | .gcNext =>
    match s.server.gc with
    | none => .ok s
    | some t => .ok { s with server := s.server.gcStep t }

/-! ## What a step has done

  An event that finds its condition false does nothing; otherwise `step` has taken one of these branches,
  and knows what it has tested.  The invariants of the master are proved for `Moved`. -/

/-- What a step can do, with its guards. -/
inductive Moved (s : Master) : MasterEvent → Master → Prop
  | idle (e : MasterEvent) : Moved s e s
  | accept {fd : Int} (hfd : ¬ (fd < 0 ∨ fd ∈ s.openFds)) :
      Moved s (.accept fd) { s.setConn s.accepted { fd := fd } with
        accepted := s.accepted + 1
        openFds := fd :: s.openFds
        resources := s.accepted :: s.resources }
  | join {s' : Master}
      (hs : addRequest { s with slaves := s.slaves ++ [s.joined], joined := s.joined + 1 }
        (.newSlave s.joined) = .ok s') : Moved s .join s'
  | leave (x : Nat) : Moved s (.leave x) { s with slaves := s.slaves.filter (· ≠ x) }
  | readable {c w : Nat} {conn : Conn} (hc : s.server.conns c = some conn)
      (hg : c ∈ s.resources ∧ w < s.nWorkers ∧ s.running w = false ∧ conn.busy = false) :
      Moved s (.readable c w) ((s.setConn c { conn with busy := true, slaves := s.slaves }).setWorker w
        { s.workers w with job := some (.posted c) })
  | writable {c w : Nat} {conn : Conn} (hc : s.server.conns c = some conn)
      (hg : c ∈ s.resources ∧ w < s.nWorkers ∧ s.running w = false) :
      Moved s (.writable c w) (s.setWorker w { s.workers w with job := some (.send c) })
  | invalidate {c : Nat} {conn : Conn} (hc : s.server.conns c = some conn) :
      Moved s (.invalidate c) (s.setConn c { conn with valid := false })
  | remove {c : Nat} {conn : Conn} (hc : s.server.conns c = some conn)
      (hg : c ∈ s.resources ∧ conn.valid = false) :
      Moved s (.remove c)
        { s with resources := s.resources.filter (· ≠ c), garbage := s.garbage ++ [c] }
  | tryClose {c : Nat} {conn : Conn} (hc : s.server.conns c = some conn)
      (hg : (c ∈ s.garbage ∨ c ∈ s.garbageCopy) ∧ conn.closed = false) :
      Moved s (.tryClose c)
        { s.setConn c { conn with closed := true } with openFds := s.openFds.filter (· ≠ conn.fd) }
  | check {s' : Master} (hs : s.check = .ok s') : Moved s .check s'
  | gcStart {wall : Int} (hg : s.server.gc = none) :
      Moved s (.gcStart wall)
        { s with server := s.server.startGc s.slaves s.newSlaves wall, newSlaves := [] }
  | fixGarbage {s' : Master}
      (hready : ¬ (s.garbage = [] ∨ s.requests ≠ [] ∨ s.server.gc.isSome ∨ s.newSlaves ≠ []))
      (hcopy : s.garbageCopy = [])
      (hs : addRequest { s with garbageCopy := s.garbage, garbage := [] } .reactorGc = .ok s') :
      Moved s .fixGarbage s'
  | tick (now : Int) : Moved s (.tick now) { s with server := { s.server with now := now } }
  | start {w c : Nat} {conn : Conn} (hj : (s.workers w).job = some (.posted c))
      (hc : s.server.conns c = some conn) :
      Moved s (.start w) (s.setWorker w
        { ctx := if conn.valid then conn.fd else (s.workers w).ctx, job := some (.recv c false) })
  | received {w c : Nat} {got : Bool} {conn : Conn} (hj : (s.workers w).job = some (.recv c got))
      (hc : s.server.conns c = some conn) (hv : conn.valid = true) :
      Moved s (.receive w .OK) (s.setWorker w { s.workers w with job := some (.recv c true) })
  | again {w c : Nat} {got : Bool} {conn : Conn} (hj : (s.workers w).job = some (.recv c got))
      (hc : s.server.conns c = some conn) (hv : conn.valid = true) :
      Moved s (.receive w .AGAIN) (s.finish w c conn)
  | reset {res : RecvResult} {w c : Nat} {got : Bool} {conn : Conn} {v : Bool} {s' : Master}
      (hj : (s.workers w).job = some (.recv c got)) (hc : s.server.conns c = some conn)
      (hv : conn.valid = false → v = false) (hs : s.reset w c { conn with valid := v } = .ok s') :
      Moved s (.receive w res) s'
  | tooLarge {w c : Nat} {conn : Conn} {s' : Master} (hj : (s.workers w).job = some (.recv c true))
      (hc : s.server.conns c = some conn) (hs : s.reset w c { conn with valid := false } = .ok s') :
      Moved s (.tooLarge w) s'
  | exec {w c : Nat} {r : Cmd} {conn : Conn} {v : Server} (hj : (s.workers w).job = some (.recv c true))
      (hc : s.server.conns c = some conn)
      (hr : s.server.runCmd c conn (s.workers w).ctx conn.slaves r = .ok v) :
      Moved s (.exec w r) { s with server := v }
  | sent {w c : Nat} {ok : Bool} {conn : Conn} (hj : (s.workers w).job = some (.send c))
      (hc : s.server.conns c = some conn) :
      Moved s (.sent w ok) ((s.setConn c { conn with valid := conn.valid && ok }).setWorker w
        { s.workers w with job := none })
  | gcNext {t : GcThread} (hg : s.server.gc = some t) :
      Moved s .gcNext { s with server := s.server.gcStep t }

theorem onConn_of_conn {s : Master} {c : Nat} {conn : Conn} (hc : s.server.conns c = some conn)
    (f : Conn → Except Err Master) : s.onConn c f = f conn := by
  unfold onConn
  rw [hc]

theorem onConn_eq_ok {s s' : Master} {c : Nat} {f : Conn → Except Err Master}
    (h : s.onConn c f = .ok s') : ∃ conn, s.server.conns c = some conn ∧ f conn = .ok s' := by
  unfold onConn at h
  cases hc : s.server.conns c with
  | none => rw [hc] at h; cases h
  | some conn => rw [hc] at h; exact ⟨conn, rfl, h⟩

/-- `receive`, by its result. -/
theorem moved_of_receive {s s' : Master} {w c : Nat} {got : Bool} {conn : Conn} {res : RecvResult}
    (hj : (s.workers w).job = some (.recv c got)) (hc : s.server.conns c = some conn)
    (hs : s.receive w c conn res = .ok s') : Moved s (.receive w res) s' := by
  cases res with
  | OK =>
    have hs' : (if conn.valid then s.setWorker w { s.workers w with job := some (.recv c true) } else s)
        = s' :=
      Except.ok.inj hs
    split_ifs at hs' with hv
    · exact hs' ▸ .received hj hc hv
    · exact hs' ▸ .idle _
  | AGAIN =>
    have hs' : (if conn.valid then s.finish w c conn else s) = s' := Except.ok.inj hs
    split_ifs at hs' with hv
    · exact hs' ▸ .again hj hc hv
    · exact hs' ▸ .idle _
  | RESET => exact .reset hj hc (fun _ => rfl) hs
  | NONE =>
    have hs' : (if conn.valid then s.reset w c conn else .ok s) = .ok s' := hs
    split_ifs at hs'
    · exact .reset hj hc id hs'
    · exact Except.ok.inj hs' ▸ .idle _

/-- **Every step that succeeds is one of these.** -/
theorem moved_of_step {s s' : Master} {e : MasterEvent} (hs : s.step e = .ok s') : Moved s e s' := by
  cases e with
  | accept fd =>
    rw [step] at hs
    split_ifs at hs with hfd
    · exact Except.ok.inj hs ▸ .idle _
    · exact Except.ok.inj hs ▸ .accept hfd
  | join =>
    rw [step] at hs
    split_ifs at hs
    · exact Except.ok.inj hs ▸ .idle _
    · exact .join hs
  | leave x => exact Except.ok.inj hs ▸ .leave x
  | readable c w =>
    rw [step] at hs
    cases hc : s.server.conns c with
    | none => rw [hc] at hs; exact Except.ok.inj hs ▸ .idle _
    | some conn =>
      rw [hc] at hs
      dsimp only at hs
      split_ifs at hs with hg
      · exact Except.ok.inj hs ▸ .readable hc hg
      · exact Except.ok.inj hs ▸ .idle _
  | writable c w =>
    rw [step] at hs
    cases hc : s.server.conns c with
    | none => rw [hc] at hs; exact Except.ok.inj hs ▸ .idle _
    | some conn =>
      rw [hc] at hs
      dsimp only at hs
      split_ifs at hs with hg
      · exact Except.ok.inj hs ▸ .writable hc hg
      · exact Except.ok.inj hs ▸ .idle _
  | invalidate c =>
    rw [step] at hs
    cases hc : s.server.conns c with
    | none => rw [hc] at hs; exact Except.ok.inj hs ▸ .idle _
    | some conn => rw [hc] at hs; exact Except.ok.inj hs ▸ .invalidate hc
  | remove c =>
    rw [step] at hs
    cases hc : s.server.conns c with
    | none => rw [hc] at hs; exact Except.ok.inj hs ▸ .idle _
    | some conn =>
      rw [hc] at hs
      dsimp only at hs
      split_ifs at hs with hg
      · exact Except.ok.inj hs ▸ .remove hc hg
      · exact Except.ok.inj hs ▸ .idle _
  | tryClose c =>
    rw [step] at hs
    cases hc : s.server.conns c with
    | none => rw [hc] at hs; exact Except.ok.inj hs ▸ .idle _
    | some conn =>
      rw [hc] at hs
      dsimp only at hs
      split_ifs at hs with hg
      · exact Except.ok.inj hs ▸ .tryClose hc hg
      · exact Except.ok.inj hs ▸ .idle _
  | check => exact .check hs
  | gcStart wall =>
    rw [step] at hs
    cases hg : s.server.gc with
    | some t => rw [hg] at hs; exact Except.ok.inj hs ▸ .idle _
    | none => rw [hg] at hs; exact Except.ok.inj hs ▸ .gcStart hg
  | fixGarbage =>
    rw [step] at hs
    split_ifs at hs with hready hcopy
    · exact Except.ok.inj hs ▸ .idle _
    · exact .fixGarbage hready (not_not.mp hcopy) hs
  | tick now => exact Except.ok.inj hs ▸ .tick now
  | start w =>
    rw [step] at hs
    split at hs
    · rename_i c hj
      obtain ⟨conn, hc, hs'⟩ := onConn_eq_ok hs
      exact Except.ok.inj hs' ▸ .start hj hc
    · exact Except.ok.inj hs ▸ .idle _
  | receive w res =>
    rw [step] at hs
    split at hs
    · rename_i c got hj
      obtain ⟨conn, hc, hs'⟩ := onConn_eq_ok hs
      exact moved_of_receive hj hc hs'
    · exact Except.ok.inj hs ▸ .idle _
  | exec w r =>
    rw [step] at hs
    split at hs
    · rename_i c hj
      obtain ⟨conn, hc, hs'⟩ := onConn_eq_ok hs
      cases hr : s.server.runCmd c conn (s.workers w).ctx conn.slaves r with
      | error e => rw [hr] at hs'; cases hs'
      | ok v => rw [hr] at hs'; exact Except.ok.inj hs' ▸ .exec hj hc hr
    · exact Except.ok.inj hs ▸ .idle _
  | tooLarge w =>
    rw [step] at hs
    split at hs
    · rename_i c hj
      obtain ⟨conn, hc, hs'⟩ := onConn_eq_ok hs
      exact .tooLarge hj hc hs'
    · exact Except.ok.inj hs ▸ .idle _
  | sent w ok =>
    rw [step] at hs
    split at hs
    · rename_i c hj
      obtain ⟨conn, hc, hs'⟩ := onConn_eq_ok hs
      exact Except.ok.inj hs' ▸ .sent hj hc
    · exact Except.ok.inj hs ▸ .idle _
  | gcNext =>
    rw [step] at hs
    cases hg : s.server.gc with
    | none => rw [hg] at hs; exact Except.ok.inj hs ▸ .idle _
    | some t => rw [hg] at hs; exact Except.ok.inj hs ▸ .gcNext hg

end Master

end Yrmcds.Memcache
