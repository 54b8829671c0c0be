/-
  The reactor of a master and the threads around it, step by step (cybozu/reactor.hpp, cybozu/reactor.cpp,
  src/server.cpp, src/sync.hpp, src/memcache/handler.cpp, and the event handlers of the sockets).

  `Memcache/Master.lean` looks at the same process from the store: what is removed, closed or destroyed is
  an event there.  HERE the store is left out, and the question is how a socket comes to be removed, closed
  and destroyed, and what the raw pointers and descriptor numbers that are kept in between refer to:

  * `poll()` is taken apart.  It handles `m_readables`, then the drop requests, then what `epoll_wait`
    reports, and between any two of its actions the other threads run (`Phase`, `cur`, `removing`).
  * `with_fd` is taken apart as well: lock, look at `m_valid`, run, compare-exchange, `request_removal`,
    unlock (`Stage`).
  * The callback checks the syncer, prunes `m_slaves`, starts a GC thread, and fixes the garbage.

  OBJECTS are named by the order of their creation, so a name is never used twice; DESCRIPTORS are numbers
  that the kernel gives out again once they are closed.  An element of `m_readables` or `m_drop_req` is a
  number; the object that put it there is written beside it (`Entry.owner`), but no code reads that.
  `removed` and `closes` are histories.

  What is not modelled is left to the events: whether a handler finds an idle worker, whether a slave has
  timed out or a GC is due, whether an attempt to lock succeeds (it may fail without a reason, it may not
  succeed against one).  `syncer` looks at one worker after another, while none is given a job; so what it
  has seen is SOME set of workers that are idle when it is done (`seen`).
-/
import Yrmcds.Memcache.Master

namespace Yrmcds.Reactor

open Memcache (Callback SyncRequest MAX_SLAVES)

/-! ## Objects, threads, events -/

/-- The classes derived from `cybozu::resource`. -/
inductive Kind where
  | server         -- `tcp_server_socket`, `signal_reader`
  | memcache
  | counter
  | repl
deriving DecidableEq, Repr

/-- A `resource`, and what its methods read and write. -/
structure Resource where
  fd : Nat
  kind : Kind
  valid : Bool := true           -- `m_valid`
  closed : Bool := false         -- `m_closed`
  busy : Bool := false           -- `m_busy`
  slaves : List Nat := []        -- `memcache_socket::m_slaves`
deriving DecidableEq, Repr

/-- A descriptor, and the object it belonged to when it was written down. -/
structure Entry where
  fd : Nat
  owner : Nat
deriving DecidableEq, Repr

/-- The job of a worker: `m_recvjob`, the same after it has cleared `m_busy`, or `m_sendjob`. -/
inductive Job where
  | recv (c : Nat)
  | ending (c : Nat)
  | send (c : Nat)
deriving DecidableEq, Repr

/-- The threads besides the reactor. -/
inductive Thread where
  | worker (w : Nat)
  | gc
deriving DecidableEq, Repr

/-- The socket of a job, and its copy of the slaves. -/
def Job.refs (res : Nat → Option Resource) : Job → List Nat
  | .recv c => c :: ((res c).map Resource.slaves).getD []
  | .ending c => c :: ((res c).map Resource.slaves).getD []
  | .send c => [c]

/-- A job that still uses them. -/
def Job.active : Job → Bool
  | .ending _ => false
  | _ => true

/-- Where a thread is in `with_fd`: it has the lock, it has found the resource valid and runs `f`, it has
    won the compare-exchange and is to call `request_removal`. -/
inductive Stage where
  | locked
  | inside
  | removing
deriving DecidableEq, Repr

/-- `gc_thread`. -/
structure GcThread where
  slaves : List Nat
  newSlaves : List Nat
  done : Bool := false
deriving DecidableEq, Repr

/-- The virtual functions that the reactor calls. -/
inductive Call where
  | error | hangup | readable | writable
deriving DecidableEq, Repr

/-- `epoll_event::events`. -/
structure Flags where
  err : Bool
  hup : Bool
  inp : Bool
  out : Bool
deriving DecidableEq, Repr

/-- The calls that `poll` makes for an event, as long as they return true. -/
def Flags.calls (f : Flags) : List Call :=
  if f.err then [.error]
  else (if f.hup then [.hangup] else []) ++ (if f.inp then [.readable] else []) ++
    (if f.out then [.writable] else [])

/-- The calls still to be made for one descriptor. -/
structure Dispatch where
  fd : Nat
  res : Nat
  calls : List Call
deriving DecidableEq, Repr

/-- Where the reactor thread is: between `poll()` and the callback, in a loop of `poll()`, before
    `epoll_wait`, or in the callback. -/
inductive Phase where
  | idle
  | readables (todo : List Entry)        -- `m_readables_copy`
  | drops (todo : List Entry)            -- `m_drop_req_copy`
  | wait
  | events (todo : List (Nat × Flags))
  | check
  | prune (todo : List Nat)
  | gc
  | fix
deriving DecidableEq, Repr

/-- What must not happen. -/
inductive Err where
  | removeResource       -- "bug in remove_resource"
  | emptyEntry           -- `m_resources[fd]` makes an empty entry
  | notAdded             -- `m_resources.emplace` finds an entry
  | fixGarbage           -- "No gc() was called after fix_garbage()!"
  | dangling             -- an object is used after its destruction
deriving DecidableEq, Repr

/-- The reactor, its resources, the workers and the lists of the handler. -/
structure State where
  res : Nat → Option Resource := fun _ => none
  created : Nat := 0
  openFds : List Nat := []                                  -- the descriptors of the process
  resources : List Entry := []                              -- `m_resources`, registered with epoll
  readables : List Entry := []                              -- `m_readables`
  dropReq : List Entry := []                                -- `m_drop_req`
  garbage : List Nat := []                                  -- `m_garbage`
  garbageCopy : List Nat := []                              -- `m_garbage_copy`
  phase : Phase := .idle
  cur : Option Dispatch := none
  removing : Option Entry := none                           -- a handler has returned false
  nWorkers : Nat
  jobs : Nat → Option Job := fun _ => none
  inside : Thread → Option (Nat × Stage) := fun _ => none
  slaves : List Nat := []                                   -- `handler::m_slaves`
  newSlaves : List Nat := []                                -- `handler::m_new_slaves`
  gc : Option GcThread := none                              -- `handler::m_gc_thread`
  requests : List SyncRequest := []                         -- `syncer::m_requests`
  removed : List Nat := []
  closes : List Nat := []

/-- What a handler does, before it returns. -/
inductive Act where
  | done                                                    -- nothing, and returns true
  | later                                                   -- `add_readable`
  | invalidate                                              -- `return invalidate();`
  | post (w : Nat)
  | accept (fd : Nat) (kind : Kind) (seen : List Nat)       -- one turn of the loop of `accept`
deriving DecidableEq, Repr

/-- What the threads can do, and what the system calls return. -/
inductive Event where
  -- the reactor
  | listen (fd : Nat)                                       -- `on_start`, `on_master_start`
  | poll
  | next (locks : Bool)
  | epollWait (evs : List (Nat × Flags))
  | handle (a : Act)
  | remove (locks : Bool)
  | callback
  | check (seen : List Nat)
  | prune (timedOut : Bool)
  | gcReady (ready : Bool)
  | fixGarbage (seen locks : List Nat)
  -- the workers and the GC thread, in `with_fd`
  | lock (t : Thread) (c : Nat)
  | valid (t : Thread)
  | ret (t : Thread) (ok : Bool)
  | requestRemoval (t : Thread)
  -- ... and outside
  | free (w : Nat)                                          -- `m_busy.store(false)`
  | finish (w : Nat)
  | gcEnd
deriving DecidableEq, Repr

namespace State

variable (s : State)

/-- `m_resources.find`. -/
def find (fd : Nat) : Option Nat := (s.resources.find? (·.fd = fd)).map Entry.owner

/-- A resource changes. -/
def setRes (c : Nat) (r : Resource) : State :=
  { s with res := Function.update s.res c (some r) }

/-- A thread is somewhere else. -/
def setInside (t : Thread) (x : Option (Nat × Stage)) : State :=
  { s with inside := Function.update s.inside t x }

/-- A worker has another job. -/
def setJob (w : Nat) (j : Option Job) : State :=
  { s with jobs := Function.update s.jobs w j }

/-! ## Closing and destroying -/

/-- All threads but the reactor. -/
def threads : List Thread := .gc :: (List.range s.nWorkers).map .worker

/-- The lock of a resource is read-locked. -/
def held (c : Nat) : Bool := s.threads.any fun t => (s.inside t).any fun x => x.1 = c

/-- `::close(m_fd)`. -/
def closeFd (c : Nat) (r : Resource) : State :=
  { s.setRes c { r with closed := true } with
    openFds := s.openFds.filter (· ≠ r.fd)
    closes := c :: s.closes }

/-- `resource::try_close`. -/
def tryClose (c : Nat) (locks : Bool) : State :=
  match s.res c with
  | none => s
  | some r => if s.held c || ! locks || r.closed then s else s.closeFd c r

/-- `~resource`. -/
def destroy (c : Nat) : State :=
  match s.res c with
  | none => s
  | some r =>
    let s := if r.closed then s else s.closeFd c r
    { s with res := Function.update s.res c none }

/-- `reactor::gc`. -/
def gcNow : State := { s.garbageCopy.foldl destroy s with garbageCopy := [] }

/-! ## The syncer -/

/-- A callback of the syncer is made. -/
def fire : Callback → State
  | .newSlave x => { s with newSlaves := s.newSlaves ++ [x] }
  | .reactorGc => s.gcNow

/-- A worker whose flag is not set by a look at the workers. -/
def unseen (seen : List Nat) (w : Nat) : Bool := (s.jobs w).isSome || w ∉ seen

/-- `syncer::add_request`. -/
def addRequest (cb : Callback) (seen : List Nat) : State :=
  let waiting := (List.range s.nWorkers).filter (s.unseen seen)
  if waiting = [] then s.fire cb
  else { s with requests := s.requests ++ [⟨cb, waiting⟩] }

/-- The flags of a request after a look at the workers. -/
def observe (seen : List Nat) (r : SyncRequest) : SyncRequest :=
  { r with waiting := r.waiting.filter (s.unseen seen) }

/-- `syncer::check`. -/
def check (seen : List Nat) : State :=
  let requests := s.requests.map (s.observe seen)
  (requests.filter fun r => r.waiting = []).foldl (fun s r => s.fire r.callback)
    { s with requests := requests.filter fun r => r.waiting ≠ [] }

/-! ## Adding and removing -/

/-- The constructor of a resource. -/
def create (fd : Nat) (kind : Kind) : State :=
  { s with
    res := Function.update s.res s.created (some { fd := fd, kind := kind })
    created := s.created + 1
    openFds := fd :: s.openFds }

/-- `reactor::add_resource`. -/
def addResource (e : Entry) : Except Err State :=
  if (s.find e.fd).isSome then .error .notAdded
  else .ok { s with resources := e :: s.resources }

/-- `m_wrapper` and `add_resource`, in `tcp_server_socket::on_readable`. -/
def accept (fd : Nat) (kind : Kind) (seen : List Nat) : Except Err State :=
  if fd ∈ s.openFds then .ok s
  else if kind = .repl then
    -- `make_repl_socket`; a refused connection is closed at once
    if s.slaves.length = MAX_SLAVES then .ok s
    else
      addResource (addRequest { s.create fd kind with slaves := s.slaves ++ [s.created] }
        (.newSlave s.created) seen) ⟨fd, s.created⟩
  else addResource (s.create fd kind) ⟨fd, s.created⟩

/-- `reactor::remove_resource`. -/
def removeResource (fd : Nat) (locks : Bool) : Except Err State :=
  match s.find fd with
  | none => .error .removeResource
  | some c =>
    .ok (tryClose { s with
      resources := s.resources.filter (·.fd ≠ fd)
      garbage := s.garbage ++ [c]
      readables := s.readables.filter (·.fd ≠ fd)
      removed := c :: s.removed } c locks)

end State

/-! ## The handlers -/

/-- What the handlers of a resource can do. -/
def Act.fits (s : State) (r : Resource) : Call → Act → Bool
  | .error, .invalidate => true
  | .hangup, .invalidate => true
  | .readable, .done => r.kind = .server ∨ r.kind = .repl
  | .readable, .later => r.kind ≠ .repl
  | .readable, .invalidate => r.kind = .repl
  | .readable, .accept _ kind _ => r.kind = .server ∧ kind ≠ .server
  | .readable, .post w =>
    (r.kind = .memcache ∨ r.kind = .counter) ∧ r.busy = false ∧ w < s.nWorkers ∧ s.jobs w = none
  | .writable, .done => true
  | .writable, .invalidate => r.kind ≠ .server
  | .writable, .post w => r.kind ≠ .server ∧ w < s.nWorkers ∧ s.jobs w = none
  | _, _ => false

/-- A call has returned true. -/
def Dispatch.rest (d : Dispatch) (calls : List Call) : Option Dispatch :=
  if calls = [] then none else some { d with calls := calls }

namespace State

variable (s : State)

/-- A worker is given the receive job, with a copy of the slaves, or the send job. -/
def post (c : Nat) (r : Resource) (w : Nat) : Call → State
  | .readable =>
    (s.setRes c { r with busy := true, slaves := if r.kind = .memcache then s.slaves else [] }).setJob w
      (some (.recv c))
  | _ => s.setJob w (some (.send c))

/-- One action of the handler that is called. -/
def handle (a : Act) : Except Err State :=
  match s.cur with
  | none => .ok s
  | some ⟨_, _, []⟩ => .ok s
  | some ⟨fd, c, call :: calls⟩ =>
    match s.res c with
    | none => .error .dangling
    | some r =>
      if a.fits s r call then
        let rest := Dispatch.rest ⟨fd, c, []⟩ calls
        match a with
        | .done => .ok { s with cur := rest }
        | .later => .ok { s with cur := rest, readables := s.readables ++ [⟨r.fd, c⟩] }
        | .invalidate =>
          -- `poll` removes the resource only if it was this call that made it invalid
          if r.valid then
            .ok { s.setRes c { r with valid := false } with cur := none, removing := some ⟨fd, c⟩ }
          else .ok { s with cur := rest }
        | .post w => .ok { s.post c r w call with cur := rest }
        | .accept fd kind seen => s.accept fd kind seen
      else .ok s

/-! ## `poll` and the callback -/

/-- `std::unique_copy`, after an element with the descriptor `last`. -/
def uniqueFrom (last : Nat) : List Entry → List Entry
  | [] => []
  | e :: l => if e.fd = last then uniqueFrom last l else e :: uniqueFrom e.fd l

/-- `std::unique_copy`, after `std::sort`. -/
def uniqueCopy : List Entry → List Entry
  | [] => []
  | e :: l => e :: uniqueFrom e.fd l

/-- The beginning of `poll`. -/
def poll : State :=
  match s.phase with
  | .idle => { s with
      phase := .readables (uniqueCopy (s.readables.mergeSort fun a b => a.fd ≤ b.fd))
      readables := [] }
  | _ => s

/-- `resource& r = *(m_resources[fd])`. -/
def dispatch (fd : Nat) (calls : List Call) : Except Err State :=
  match s.find fd with
  | none => .error .emptyEntry
  | some c => .ok { s with cur := Dispatch.rest ⟨fd, c, []⟩ calls }

/-- The next element of a loop of `poll`, when the one at hand is done with. -/
def next (locks : Bool) : Except Err State :=
  if s.cur.isSome ∨ s.removing.isSome then .ok s
  else
    match s.phase with
    | .readables [] => .ok { s with phase := .drops s.dropReq, dropReq := [] }
    | .readables (e :: todo) => dispatch { s with phase := .readables todo } e.fd [.readable]
    | .drops [] => .ok { s with phase := .wait }
    | .drops (e :: todo) => removeResource { s with phase := .drops todo } e.fd locks
    | .events [] => .ok { s with phase := .idle }
    | .events (e :: todo) => dispatch { s with phase := .events todo } e.1 e.2.calls
    | _ => .ok s

/-- `epoll_wait` reports registered descriptors, each of them once. -/
def epollWait (evs : List (Nat × Flags)) : State :=
  match s.phase with
  | .wait =>
    if (evs.map Prod.fst).Nodup ∧ ∀ e ∈ evs, e.1 ∈ s.resources.map Entry.fd then
      { s with phase := .events evs }
    else s
  | _ => s

/-- The callback of `serve_master` begins. -/
def callback : State :=
  match s.phase with
  | .idle => { s with phase := .check }
  | _ => s

/-- `m_syncer.check()`, if there are requests. -/
def checkRequests (seen : List Nat) : State :=
  match s.phase with
  | .check => { s.check seen with phase := .prune s.slaves }
  | _ => s

/-- The loop of `on_master_interval` over `m_slaves`. -/
def prune (timedOut : Bool) : Except Err State :=
  if s.removing.isSome then .ok s
  else
    match s.phase with
    | .prune [] => .ok { s with phase := .gc }
    | .prune (x :: todo) =>
      match s.res x with
      | none => .error .dangling
      | some r =>
        if ! r.valid then .ok { s with slaves := s.slaves.filter (· ≠ x), phase := .prune todo }
        else if timedOut then
          .ok { s.setRes x { r with valid := false } with
            removing := some ⟨r.fd, x⟩
            slaves := s.slaves.filter (· ≠ x)
            phase := .prune todo }
        else .ok { s with phase := .prune todo }
    | _ => .ok s

/-- The constructor of `gc_thread`. -/
def startGc (slaves newSlaves : List Nat) : GcThread :=
  { slaves := slaves ++ newSlaves.filter (· ∉ slaves), newSlaves := newSlaves }

/-- The end of `on_master_interval`. -/
def gcReady (ready : Bool) : State :=
  match s.phase with
  | .gc =>
    if s.gc.any fun t => ! t.done then { s with phase := .fix }
    else if ready then
      { s with gc := some (startGc s.slaves s.newSlaves), newSlaves := [], phase := .fix }
    else { s with gc := none, phase := .fix }
  | _ => s

/-- `reactor_gc_ready`, of the server and of the handler; `fix_garbage`. -/
def fixGarbage (seen locks : List Nat) : Except Err State :=
  match s.phase with
  | .fix =>
    if s.garbage = [] ∨ s.requests ≠ [] ∨ s.gc.isSome ∨ s.newSlaves ≠ [] then .ok { s with phase := .idle }
    else if s.garbageCopy ≠ [] then .error .fixGarbage
    else
      .ok (addRequest
        (s.garbage.foldl (fun s c => s.tryClose c (c ∈ locks))
          { s with garbageCopy := s.garbage, garbage := [], phase := .idle })
        .reactorGc seen)
  | _ => .ok s

/-! ## The other threads -/

/-- A thread may call `with_fd` of a resource. -/
def mayUse (c : Nat) : Thread → Bool
  | .worker w => (s.jobs w).any fun j => j.active ∧ c ∈ j.refs s.res
  | .gc => s.gc.any fun t => t.done = false ∧ (c ∈ t.slaves ∨ c ∈ t.newSlaves)

/-- `with_fd`: a thread takes the read lock, of a resource that must be alive. -/
def lock (t : Thread) (c : Nat) : Except Err State :=
  if s.mayUse c t ∧ s.inside t = none then
    match s.res c with
    | none => .error .dangling
    | some _ => .ok (s.setInside t (some (c, .locked)))
  else .ok s

/-- `if( ! valid() ) return false;`. -/
def valid (t : Thread) : Except Err State :=
  match s.inside t with
  | some (c, .locked) =>
    match s.res c with
    | none => .error .dangling
    | some r => .ok (s.setInside t (if r.valid then some (c, .inside) else none))
  | _ => .ok s

/-- `f` has returned; if false, `invalidate_and_close_` up to `on_invalidate`. -/
def ret (t : Thread) (ok : Bool) : Except Err State :=
  match s.inside t with
  | some (c, .inside) =>
    if ok then .ok (s.setInside t none)
    else
      match s.res c with
      | none => .error .dangling
      | some r =>
        if r.valid then .ok ((s.setRes c { r with valid := false }).setInside t (some (c, .removing)))
        else .ok (s.setInside t none)
  | _ => .ok s

/-- `request_removal`, and the end of `with_fd`. -/
def requestRemoval (t : Thread) : Except Err State :=
  match s.inside t with
  | some (c, .removing) =>
    match s.res c with
    | none => .error .dangling
    | some r => .ok { s.setInside t none with dropReq := s.dropReq ++ [⟨r.fd, c⟩] }
  | _ => .ok s

/-- The job of a socket is done: `m_busy` is lowered. -/
def free (w : Nat) : Except Err State :=
  match s.jobs w with
  | some (.recv c) =>
    if s.inside (.worker w) = none then
      match s.res c with
      | none => .error .dangling
      | some r => .ok ((s.setRes c { r with busy := false }).setJob w (some (.ending c)))
    else .ok s
  | _ => .ok s

/-- The worker is idle again. -/
def finish (w : Nat) : State :=
  match s.jobs w with
  | some (.recv _) => s
  | _ => if s.inside (.worker w) = none then s.setJob w none else s

/-- The GC thread has gone over the map. -/
def gcEnd : State :=
  if s.inside .gc = none then { s with gc := s.gc.map fun t => { t with done := true } } else s

/-- One step. -/
def step : Event → Except Err State
  | .listen fd =>
    if s.phase = .idle ∧ fd ∉ s.openFds then addResource (s.create fd .server) ⟨fd, s.created⟩ else .ok s
  | .poll => .ok s.poll
  | .next locks => s.next locks
  | .epollWait evs => .ok (s.epollWait evs)
  | .handle a => s.handle a
  | .remove locks =>
    match s.removing with
    | none => .ok s
    | some e => removeResource { s with removing := none } e.fd locks
  | .callback => .ok s.callback
  | .check seen => .ok (s.checkRequests seen)
  | .prune timedOut => s.prune timedOut
  | .gcReady ready => .ok (s.gcReady ready)
  | .fixGarbage seen locks => s.fixGarbage seen locks
  | .lock t c => s.lock t c
  | .valid t => s.valid t
  | .ret t ok => s.ret t ok
  | .requestRemoval t => s.requestRemoval t
  | .free w => s.free w
  | .finish w => .ok (s.finish w)
  | .gcEnd => .ok s.gcEnd

/-- The reactor before anything is registered; the process may have other descriptors open. -/
def init (nWorkers : Nat) (openFds : List Nat) : State := { nWorkers := nWorkers, openFds := openFds }

end State

end Yrmcds.Reactor
