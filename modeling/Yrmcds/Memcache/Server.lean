/-
  The memcache server as a whole: the hash map, the connections, the clock, the flush time, the GC
  thread and the messages sent to slaves.

  A step of the server is one command of one connection, the accept or the end of a connection, a tick
  of the clock, the start of a GC pass or its visit of one bucket.  A command runs with the file
  descriptor of its connection as the lock context, and with the list of slaves the reactor copied
  for its job (a parameter of the event, like the lists a GC pass is started with).

  Events that are not enabled (a command of a connection that is not there, a second GC pass) leave
  the state alone.
-/
import Yrmcds.Memcache.Effects
import Yrmcds.Memcache.Gc
import Yrmcds.Lib.Run
import Mathlib.Logic.Function.Basic

namespace Yrmcds.Memcache

open ChainTable

/-- A `memcache_socket`: its file descriptor, `m_locks`, the replies that its commands have handed to
    `with_fd` and those that got through, the flags of the resource, and the list of slaves its job was posted
    with. -/
structure Conn where
  fd : Int
  locks : List Nat := []
  out : List Reply := []
  sent : List Reply := []
  valid : Bool := true            -- `m_valid`
  closed : Bool := false          -- `m_closed`
  busy : Bool := false            -- `m_busy`
  slaves : List Nat := []         -- `m_slaves`

/-- A running GC pass: its decisions, its figures and the number of the bucket it visits next. -/
structure GcThread where
  pass : GcPass
  counters : GcCounters := {}
  next : Nat := 0

/-- The server, as the commands see it. -/
structure Server where
  hash : HashMap Object
  conns : Nat → Option Conn
  config : Config
  gcConfig : GcConfig
  now : Int
  flushTime : Int := 0
  verbosity : Severity := .info
  log : Log := []
  gc : Option GcThread := none
  stats : GcCounters := {}

/-- What can happen, one at a time. -/
inductive Event where
  | accept (c : Nat) (fd : Int)
  | cmd (c : Nat) (slaves : List Nat) (r : Cmd)
  | close (c : Nat)                                        -- the destructor of the connection
  | tick (now : Int)
  | gcStart (slaves newSlaves : List Nat) (wall : Int)
  | gcNext                                                 -- GC visits its next bucket, or ends

/-- What gets through of the replies of a command: `with_fd` does nothing once the socket is invalid, and after
    `send_close` the socket sends nothing.  The loop of the receive job goes on all the same with the requests
    that are left in the buffer.  It is the state BEFORE the command that counts, since the command that closes
    the socket hands nothing over afterwards. -/
def Conn.delivered (conn : Conn) (w : World) : List Reply :=
  if conn.valid then w.2.out.drop conn.out.length else []

/-- A connection after a command. -/
def Conn.after (conn : Conn) (w : World) : Conn :=
  { conn with
    locks := w.2.locks
    out := w.2.out
    sent := conn.sent ++ conn.delivered w
    valid := ! w.2.closing }

namespace Server

/-- A server that has just started, with an empty hash map of `n` buckets and one more. -/
def init (hash : Key → Nat) (alloc : List Nat → Nat) (fresh : ∀ live, alloc live ∉ live) (n : Nat)
    (config : Config) (gcConfig : GcConfig) (now : Int) : Server where
  hash := Table.empty hash alloc fresh n
  conns := fun _ => none
  config := config
  gcConfig := gcConfig
  now := now

/-- A server with one bucket, 1000 bytes of data at most, and the clock at 100. -/
def oneBucket : Server :=
  init (fun _ => 0) Table.bump Table.bump_fresh 0 ⟨1000, 100⟩ ⟨1024, 10, 100, 32, 64⟩ 100

variable (s : Server)

/-- What a command of `conn` works on. -/
def session (conn : Conn) (slaves : List Nat) : Session :=
  { locks := conn.locks, slaves := slaves, out := conn.out, closing := ! conn.valid
    log := s.log, flushTime := s.flushTime, verbosity := s.verbosity }

/-- What a command reads, with `g_context` set to `ctx`. -/
def env (ctx : Int) : Env := { config := s.config, ctx := ctx, now := s.now }

/-- Put back what a command of connection `c` has done. -/
def commit (c : Nat) (conn : Conn) (w : World) : Server :=
  { s with
    hash := w.1
    conns := Function.update s.conns c (some (conn.after w))
    log := w.2.log
    flushTime := w.2.flushTime
    verbosity := w.2.verbosity }

/-- A command of connection `c`, with lock context `ctx`. -/
def runCmd (c : Nat) (conn : Conn) (ctx : Int) (slaves : List Nat) (r : Cmd) :
    Except Err Server :=
  match r.exec (s.env ctx) s.hash (s.session conn slaves) with
  | .ok w => .ok (s.commit c conn w)
  | .error e => .error e

/-- `~memcache_socket`. -/
def destroy (c : Nat) (conn : Conn) : Except Err Server :=
  match unlockLoop conn.fd true s.hash conn.locks with
  | .ok m => .ok { s with hash := m, conns := Function.update s.conns c none }
  | .error e => .error e

/-- A GC pass starts. -/
def startGc (slaves newSlaves : List Nat) (wall : Int) : Server :=
  { s with gc := some { pass := GcPass.start s.gcConfig slaves newSlaves s.flushTime wall s.stats } }

/-- The GC thread visits bucket `t.next`, or ends. -/
def gcStep (t : GcThread) : Server :=
  if t.next < s.hash.buckets.length then
    let res := HashMap.gc s.hash t.next (gcPred s.gcConfig t.pass s.now s.flushTime)
      ({ t.counters with objectsInBucket := 0 }, s.log)
    { s with
      hash := res.1
      log := res.2.2
      gc := some { t with counters := res.2.1, next := t.next + 1 } }
  else
    { s with
      flushTime := if t.pass.flush then 0 else s.flushTime
      stats := t.counters
      gc := none }

/-- One step of the server. -/
def step : Event → Except Err Server
  | .accept c fd =>
    .ok (if s.conns c = none then { s with conns := Function.update s.conns c (some { fd := fd }) } else s)
  | .cmd c slaves r =>
    match s.conns c with
    | none => .ok s
    | some conn => s.runCmd c conn conn.fd slaves r
  | .close c =>
    match s.conns c with
    | none => .ok s
    | some conn => s.destroy c conn
  | .tick now => .ok { s with now := now }
  | .gcStart slaves newSlaves wall =>
    match s.gc with
    | some _ => .ok s
    | none => .ok (s.startGc slaves newSlaves wall)
  | .gcNext =>
    match s.gc with
    | none => .ok s
    | some t => .ok (s.gcStep t)

/-- What a step that succeeds has done. -/
inductive Stepped (s : Server) : Event → Server → Prop
  | idle (e : Event) : Stepped s e s
  | accept {c : Nat} {fd : Int} (hc : s.conns c = none) :
      Stepped s (.accept c fd) { s with conns := Function.update s.conns c (some { fd := fd }) }
  | cmd {c : Nat} {conn : Conn} {slaves : List Nat} {r : Cmd} {w : World} (hc : s.conns c = some conn)
      (hw : r.exec (s.env conn.fd) s.hash (s.session conn slaves) = .ok w) :
      Stepped s (.cmd c slaves r) (s.commit c conn w)
  | close {c : Nat} {conn : Conn} {m : HashMap Object} (hc : s.conns c = some conn)
      (hu : unlockLoop conn.fd true s.hash conn.locks = .ok m) :
      Stepped s (.close c) { s with hash := m, conns := Function.update s.conns c none }
  | tick (now : Int) : Stepped s (.tick now) { s with now := now }
  | gcStart {slaves newSlaves : List Nat} {wall : Int} (ht : s.gc = none) :
      Stepped s (.gcStart slaves newSlaves wall) (s.startGc slaves newSlaves wall)
  | gcNext {t : GcThread} (ht : s.gc = some t) : Stepped s .gcNext (s.gcStep t)

theorem stepped_of_step {s s' : Server} {e : Event} (hs : s.step e = .ok s') : Stepped s e s' := by
  cases e with
  | accept c fd =>
    have hs' : (if s.conns c = none then { s with conns := Function.update s.conns c (some { fd := fd }) }
      else s) = s' := Except.ok.inj hs
    split_ifs at hs' with hc
    · exact hs' ▸ .accept hc
    · exact hs' ▸ .idle _
  | cmd c slaves r =>
    rw [step] at hs
    cases hc : s.conns c with
    | none => rw [hc] at hs; exact Except.ok.inj hs ▸ .idle _
    | some conn =>
      simp only [hc, runCmd] at hs
      cases hw : r.exec (s.env conn.fd) s.hash (s.session conn slaves) with
      | error e => rw [hw] at hs; cases hs
      | ok w => rw [hw] at hs; exact Except.ok.inj hs ▸ .cmd hc hw
  | close c =>
    rw [step] at hs
    cases hc : s.conns c with
    | none => rw [hc] at hs; exact Except.ok.inj hs ▸ .idle _
    | some conn =>
      simp only [hc, destroy] at hs
      cases hu : unlockLoop conn.fd true s.hash conn.locks with
      | error e => rw [hu] at hs; cases hs
      | ok m => rw [hu] at hs; exact Except.ok.inj hs ▸ .close hc hu
  | tick now => exact Except.ok.inj hs ▸ .tick now
  | gcStart slaves newSlaves wall =>
    rw [step] at hs
    cases ht : s.gc with
    | some t => rw [ht] at hs; exact Except.ok.inj hs ▸ .idle _
    | none => rw [ht] at hs; exact Except.ok.inj hs ▸ .gcStart ht
  | gcNext =>
    rw [step] at hs
    cases ht : s.gc with
    | none => rw [ht] at hs; exact Except.ok.inj hs ▸ .idle _
    | some t => rw [ht] at hs; exact Except.ok.inj hs ▸ .gcNext ht

theorem step_cmd {s : Server} {c : Nat} {conn : Conn} (hc : s.conns c = some conn) (slaves : List Nat)
    {r : Cmd} {w : World} (h : r.exec (s.env conn.fd) s.hash (s.session conn slaves) = .ok w) :
    s.step (.cmd c slaves r) = .ok (s.commit c conn w) := by
  simp only [step, hc, runCmd, h]

theorem commit_conns_self (c : Nat) (conn : Conn) (w : World) :
    (s.commit c conn w).conns c = some (conn.after w) :=
  Function.update_self ..

theorem commit_locks (c : Nat) (conn : Conn) (w : World) (d : Nat) :
    ((s.commit c conn w).conns d).map Conn.locks
      = if d = c then some w.2.locks else (s.conns d).map Conn.locks := by
  unfold commit
  dsimp only
  rw [Function.update_apply]
  split_ifs <;> rfl

/-- A visit of a bucket, as a sweep of the table. -/
theorem gcStep_hash (t : GcThread) (h : t.next < s.hash.buckets.length) :
    (s.gcStep t).hash = s.hash.sweep t.next fun c =>
      if gcRemoves t.pass s.now s.flushTime c.val then none else some (gcKeeps t.pass c.val) := by
  unfold gcStep
  rw [if_pos h]
  exact HashMap.gc_eq_sweep (gcPred_steady s.gcConfig t.pass s.now s.flushTime) s.hash t.next _

/-- What GC does to a lookup. -/
theorem gcStep_find (t : GcThread) (h : t.next < s.hash.buckets.length) (k : Key) :
    (s.gcStep t).hash.find k = if s.hash.index k = t.next then
      (s.hash.find k).bind fun c =>
        if gcRemoves t.pass s.now s.flushTime c.val then none else some (c.put (gcKeeps t.pass c.val))
      else s.hash.find k := by
  rw [s.gcStep_hash t h, Table.find_sweep]
  congr 1
  congr 1
  funext c
  split <;> rfl

/-- After the last bucket GC does not touch the map. -/
theorem gcStep_end (t : GcThread) (h : ¬ t.next < s.hash.buckets.length) :
    s.gcStep t = { s with
      flushTime := if t.pass.flush then 0 else s.flushTime, stats := t.counters, gc := none } := by
  unfold gcStep
  rw [if_neg h]

theorem gcStep_index (t : GcThread) : (s.gcStep t).hash.index = s.hash.index := by
  by_cases h : t.next < s.hash.buckets.length
  · rw [s.gcStep_hash t h, Table.index_sweep]
  · rw [s.gcStep_end t h]

/-- The flush time is reset at the end of a pass, not before. -/
theorem gcStep_flushTime (t : GcThread) (h : t.next < s.hash.buckets.length) :
    (s.gcStep t).flushTime = s.flushTime := by
  unfold gcStep
  rw [if_pos h]

theorem gcStep_conns (t : GcThread) : (s.gcStep t).conns = s.conns := by
  unfold gcStep
  split <;> rfl

/-- The pass goes on to the next bucket. -/
theorem gcStep_gc (t : GcThread) (h : t.next < s.hash.buckets.length) :
    ∃ t', (s.gcStep t).gc = some t' ∧ t'.pass = t.pass ∧ t'.next = t.next + 1 := by
  unfold gcStep
  rw [if_pos h]
  exact ⟨_, rfl, rfl, rfl⟩

/-- A pass keeps its decisions from visit to visit. -/
theorem gcStep_pass (t : GcThread) {t' : GcThread} (h : (s.gcStep t).gc = some t') :
    t.pass = t'.pass := by
  unfold gcStep at h
  split_ifs at h
  rw [← Option.some.inj h]

end Server

end Yrmcds.Memcache
