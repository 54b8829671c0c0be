/-
  Counter objects, counter connections and the counter GC
  (src/counter/object.hpp, src/counter/sockets.cpp, src/counter/gc.cpp).

  A counter object stores how much of its resource is consumed, in 32 bits.  A connection remembers
  what it has acquired in `m_acquired_resources`, a map from the ADDRESS of a counter's key to an
  amount, again in 32 bits; it gives everything back in `release_all` when it ends.

  `release_all` visits the recorded counters one after another, taking the lock of one bucket at a
  time, so other connections run in between.  The model keeps the entries it has still to visit in
  `releasing`; one visit is `releaseNext`, in any order (the map is unordered).

  The model stops a command where the source throws: `Err` names the three `std::logic_error`s, and
  `danglingKey`, the dereference of a recorded key whose item is gone.
-/
import Yrmcds.Counter.Protocol
import Mathlib.Data.List.AList

namespace Yrmcds.Counter

open ChainTable BigEndian

/-- What counter code reads outside its own objects: the clock `g_current_time`, the configured
    `stat_interval`, the figures of `g_stats` as text, and two `sizeof`s. -/
structure Env where
  now : Int
  statInterval : Nat
  stat : String → String
  sizeofHashKey : Nat
  sizeofObject : Nat

/-! ## The counter object -/

/-- `counter::object`. -/
structure Object where
  consumption : UInt32
  maxConsumption : UInt32
  lastUpdated : Int
deriving DecidableEq, Repr

namespace Object

/-- `object::object`. -/
def new (g : Env) (consumption : UInt32) : Object := ⟨consumption, consumption, g.now⟩

/-- `nearest_boundary`. -/
def nearestBoundary (g : Env) (t : Int) : Int := t.tdiv g.statInterval * g.statInterval

/-- `object::acquire`: the sum compared with `maximum` is a `uint32_t` sum. -/
def acquire (g : Env) (o : Object) (resources maximum : UInt32) : Bool × Object :=
  if o.consumption + resources > maximum then (false, o)
  else (true,
    { consumption := o.consumption + resources
      maxConsumption :=
        if o.lastUpdated < nearestBoundary g g.now then o.consumption + resources
        else max o.maxConsumption (o.consumption + resources)
      lastUpdated := g.now })

/-- `object::release`. -/
def release (g : Env) (o : Object) (resources : UInt32) : Bool × Object :=
  if resources > o.consumption then (false, o)
  else (true,
    { consumption := o.consumption - resources
      maxConsumption :=
        if o.lastUpdated < nearestBoundary g g.now then o.consumption else o.maxConsumption
      lastUpdated := g.now })

/-- `object::max_consumption`. -/
def reportedMax (g : Env) (o : Object) : UInt32 :=
  if o.lastUpdated < nearestBoundary g g.now then o.consumption else o.maxConsumption

/-- `object::deletable`. -/
def deletable (g : Env) (o : Object) : Bool :=
  o.consumption == 0 && o.lastUpdated < nearestBoundary g g.now

variable {g : Env} {o : Object} {r : UInt32}

/-- A refusal changes nothing. -/
theorem acquire_refused {m : UInt32} (h : (o.acquire g r m).1 = false) :
    (o.acquire g r m).2 = o := by
  unfold acquire at h ⊢
  split_ifs at h ⊢
  rfl

theorem acquire_granted {m : UInt32} (h : (o.acquire g r m).1 = true) :
    (o.acquire g r m).2.consumption = o.consumption + r ∧ o.consumption + r ≤ m := by
  unfold acquire at h ⊢
  by_cases hgt : o.consumption + r > m
  · rw [if_pos hgt] at h; cases h
  · rw [if_neg hgt]; exact ⟨rfl, UInt32.not_lt.mp hgt⟩

/-- A Release fails if it is for more than there is. -/
theorem release_failed (h : (o.release g r).1 = false) :
    o.consumption < r := by
  unfold release at h
  split_ifs at h with hgt
  exact hgt

theorem release_done (h : (o.release g r).1 = true) :
    (o.release g r).2.consumption = o.consumption - r ∧ r ≤ o.consumption := by
  unfold release at h ⊢
  by_cases hgt : r > o.consumption
  · rw [if_pos hgt] at h; cases h
  · rw [if_neg hgt]; exact ⟨rfl, UInt32.not_lt.mp hgt⟩

end Object

/-! ## The connection -/

/-- Where a command or `release_all` gives up. -/
inductive Err where
  | cmdRelease          -- "<counter_socket::cmd_release> bug"
  | releaseFailed       -- "<counter_socket::release_all> release failed"
  | releaseNotFound     -- "<counter_socket::release_all> not found"
  | danglingKey         -- a recorded key is read after its item was deleted
deriving DecidableEq, Repr

/-- `std::unordered_map<const hash_key*, uint32_t>`, by key address. -/
abbrev Recorded := AList fun _ : Nat => UInt32

/-- A `counter_socket`: `m_acquired_resources`, the entries a running `release_all` has still to
    visit, and the packets sent so far. -/
structure Socket where
  acquired : Recorded := ∅
  releasing : Option Recorded := none
  sent : List Packet := []

namespace Socket

/-- A response is sent. -/
def send (s : Socket) (p : Packet) : Socket := { s with sent := s.sent ++ [p] }

/-- `on_acquire`. -/
def onAcquire (s : Socket) (k : KeyRef) (resources : UInt32) : Socket :=
  match s.acquired.lookup k.addr with
  | some n => { s with acquired := s.acquired.insert k.addr (n + resources) }
  | none => { s with acquired := s.acquired.insert k.addr resources }

/-- `on_release`. -/
def onRelease (s : Socket) (k : KeyRef) (resources : UInt32) : Bool × Socket :=
  match s.acquired.lookup k.addr with
  | none => (false, s)
  | some n =>
    if n < resources then (false, s)
    else if n = resources then (true, { s with acquired := s.acquired.erase k.addr })
    else (true, { s with acquired := s.acquired.insert k.addr (n - resources) })

end Socket

/-! ## The commands -/

/-- The handler of `cmd_get`. -/
def getHandler (cmd : Request) : HashMap.Handler Object Socket Err :=
  fun _ obj s => .ok (true, obj, s.send (cmd.get obj.consumption))

/-- `cmd_get`. -/
def cmdGet (m : HashMap Object) (cmd : Request) (s : Socket) : Except Err (HashMap Object × Socket) :=
  match HashMap.apply m cmd.name (some (getHandler cmd)) none s with
  | .ok (true, m', s') => .ok (m', s')
  | .ok (false, m', s') => .ok (m', s'.send (cmd.error .NotFound))
  | .error e => .error e

/-- The handler of `cmd_acquire`. -/
def acquireHandler (g : Env) (cmd : Request) : HashMap.Handler Object Socket Err :=
  fun k obj s =>
    match obj.acquire g cmd.resources cmd.maximum with
    | (false, obj') => .ok (true, obj', s.send (cmd.error .ResourceNotAvailable))
    | (true, obj') => .ok (true, obj', (s.onAcquire k cmd.resources).send (cmd.get cmd.resources))

/-- The creator of `cmd_acquire`. -/
def acquireCreator (g : Env) (cmd : Request) : HashMap.Creator Object Socket :=
  fun k s => (Object.new g cmd.resources, (s.onAcquire k cmd.resources).send (cmd.get cmd.resources))

/-- `cmd_acquire`. -/
def cmdAcquire (g : Env) (m : HashMap Object) (cmd : Request) (s : Socket) :
    Except Err (HashMap Object × Socket) :=
  match HashMap.apply m cmd.name (some (acquireHandler g cmd)) (some (acquireCreator g cmd)) s with
  | .ok (_, m', s') => .ok (m', s')
  | .error e => .error e

/-- The handler of `cmd_release`. -/
def releaseHandler (g : Env) (cmd : Request) : HashMap.Handler Object Socket Err :=
  fun k obj s =>
    match s.onRelease k cmd.resources with
    | (false, s') => .ok (true, obj, s'.send (cmd.error .NotAcquired))
    | (true, s') =>
      match obj.release g cmd.resources with
      | (false, _) => .error .cmdRelease
      | (true, obj') => .ok (true, obj', s'.send cmd.success)

/-- `cmd_release`. -/
def cmdRelease (g : Env) (m : HashMap Object) (cmd : Request) (s : Socket) :
    Except Err (HashMap Object × Socket) :=
  match HashMap.apply m cmd.name (some (releaseHandler g cmd)) none s with
  | .ok (true, m', s') => .ok (m', s')
  | .ok (false, m', s') => .ok (m', s'.send (cmd.error .NotFound))
  | .error e => .error e

/-- `cmd_dump`.  `foreach` locks the buckets one by one; the dump only reads them and writes to its
    own connection, so taking them in one step loses no behaviour of the counters. -/
def cmdDump (g : Env) (m : HashMap Object) (cmd : Request) (s : Socket) : HashMap Object × Socket :=
  let s' := m.cells.foldl
    (fun s c => s.send (cmd.dump c.key c.val.consumption (c.val.reportedMax g))) s
  (m, s'.send cmd.success)

/-- `counter_socket::execute`. -/
def execute (g : Env) (m : HashMap Object) (cmd : Request) (s : Socket) :
    Except Err (HashMap Object × Socket) :=
  if cmd.status ≠ .OK then .ok (m, s.send (cmd.error cmd.status))
  else
    match cmd.command with
    | .Noop => .ok (m, s.send cmd.success)
    | .Get => cmdGet m cmd s
    | .Acquire => cmdAcquire g m cmd s
    | .Release => cmdRelease g m cmd s
    | .Stats => .ok (m, s.send (cmd.stats g.stat))
    | .Dump => .ok (cmdDump g m cmd s)
    | .Unknown | .raw _ => .ok (m, s.send (cmd.error .UnknownCommand))

/-- The handler of `release_all`. -/
def releaseAllHandler (g : Env) (count : UInt32) : HashMap.Handler Object Unit Err :=
  fun _ obj u =>
    match obj.release g count with
    | (false, _) => .error .releaseFailed
    | (true, obj') => .ok (true, obj', u)

/-- One iteration of the loop of `release_all`, for the recorded entry `(a, count)`. -/
def releaseOne (g : Env) (m : HashMap Object) (a : Nat) (count : UInt32) :
    Except Err (HashMap Object) :=
  match m.deref a with
  | none => .error .danglingKey
  | some key =>
    match HashMap.apply m key (some (releaseAllHandler g count)) none () with
    | .ok (true, m', _) => .ok m'
    | .ok (false, _, _) => .error .releaseNotFound
    | .error e => .error e

/-! ## The counter GC -/

/-- The members of `gc_thread` the predicate updates. -/
structure GcThread where
  objects : UInt32 := 0
  conflicts : UInt32 := 0
  usedMemory : UInt64 := 0
  objectsInBucket : Nat := 0

/-- The predicate of `gc_thread::gc`. -/
def gcPred (g : Env) (k : KeyRef) (obj : Object) (t : GcThread) : Bool × Object × GcThread :=
  if obj.deletable g then (true, obj, t)
  else (false, obj,
    { objects := t.objects + 1
      objectsInBucket := t.objectsInBucket + 1
      conflicts := if t.objectsInBucket + 1 = 2 then t.conflicts + 1 else t.conflicts
      usedMemory := t.usedMemory + UInt64.ofNat (g.sizeofHashKey + k.key.length + g.sizeofObject) })

theorem gcPred_steady (g : Env) :
    HashMap.Steady (gcPred g) fun _ o => if o.deletable g then none else some o := by
  intro r o st
  unfold gcPred
  by_cases hd : o.deletable g = true
  · simp only [if_pos hd, if_true]
  · simp only [if_neg hd, Bool.false_eq_true, if_false]

/-! ## What a command does to the counters

  `Outcome m cmd s res` lists every way `execute` can end, by what happens to the hash map and to
  `m_acquired_resources`.  All later reasoning about commands goes through it. -/

/-- The effect of the command `cmd` of the connection `s` on the map `m`. -/
inductive Outcome (m : HashMap Object) (cmd : Request) (s : Socket) :
    Except Err (HashMap Object × Socket) → Prop
  /-- Only a reply is sent. -/
  | reply {s' : Socket} (ha : s'.acquired = s.acquired) (hr : s'.releasing = s.releasing) :
      Outcome m cmd s (.ok (m, s'))
  /-- The counter is created, already acquired. -/
  | create {o : Object} {s' : Socket} (hk : m.find cmd.name = none) (hr0 : cmd.resources ≠ 0)
      (ho : o.consumption = cmd.resources)
      (ha : s'.acquired = (s.onAcquire ⟨m.newAddr, cmd.name⟩ cmd.resources).acquired)
      (hr : s'.releasing = s.releasing) : Outcome m cmd s (.ok (m.push cmd.name o, s'))
  /-- An existing counter grants the resources. -/
  | acquire {p : Cell Key Object} {o : Object} {s' : Socket}
      (hcmd : cmd.command = .Acquire) (hst : cmd.status = .OK)
      (hk : m.find cmd.name = some p) (hr0 : cmd.resources ≠ 0)
      (hle : p.val.consumption + cmd.resources ≤ cmd.maximum)
      (ho : o.consumption = p.val.consumption + cmd.resources)
      (ha : s'.acquired = (s.onAcquire (itemRef p) cmd.resources).acquired)
      (hr : s'.releasing = s.releasing) : Outcome m cmd s (.ok (m.write p.addr o, s'))
  /-- Recorded resources are given back. -/
  | release {p : Cell Key Object} {o : Object} {s' : Socket} (hk : m.find cmd.name = some p)
      (hrec : (s.onRelease (itemRef p) cmd.resources).1 = true)
      (hle : cmd.resources ≤ p.val.consumption)
      (ho : o.consumption = p.val.consumption - cmd.resources)
      (ha : s'.acquired = (s.onRelease (itemRef p) cmd.resources).2.acquired)
      (hr : s'.releasing = s.releasing) : Outcome m cmd s (.ok (m.write p.addr o, s'))
  /-- The connection's record covers the resources, the counter does not. -/
  | broken {p : Cell Key Object} (hk : m.find cmd.name = some p)
      (hrec : (s.onRelease (itemRef p) cmd.resources).1 = true)
      (hlt : p.val.consumption < cmd.resources) : Outcome m cmd s (.error .cmdRelease)

namespace Socket

theorem onAcquire_releasing (s : Socket) (k : KeyRef) (r : UInt32) :
    (s.onAcquire k r).releasing = s.releasing := by
  unfold onAcquire; split <;> rfl

theorem onRelease_releasing (s : Socket) (k : KeyRef) (r : UInt32) :
    (s.onRelease k r).2.releasing = s.releasing := by
  unfold onRelease
  split
  · rfl
  · split_ifs <;> rfl

theorem lookup_onAcquire (s : Socket) (k : KeyRef) (r : UInt32) (a : Nat) :
    (s.onAcquire k r).acquired.lookup a
      = if a = k.addr then some ((s.acquired.lookup a).getD 0 + r) else s.acquired.lookup a := by
  unfold onAcquire
  by_cases ha : a = k.addr
  · subst ha
    split <;> simp_all
  · split <;> simp [AList.lookup_insert_ne, ha]

/-- What `on_release` leaves in the record when it succeeds. -/
theorem lookup_onRelease {s : Socket} {k : KeyRef} {r : UInt32} (h : (s.onRelease k r).1 = true) :
    ∃ n, s.acquired.lookup k.addr = some n ∧ r ≤ n ∧
      ∀ a, (s.onRelease k r).2.acquired.lookup a
        = if a = k.addr then (if n = r then none else some (n - r)) else s.acquired.lookup a := by
  unfold onRelease at h ⊢
  cases hn : s.acquired.lookup k.addr with
  | none => rw [hn] at h; cases h
  | some n =>
    rw [hn] at h
    dsimp only at h ⊢
    by_cases hlt : n < r
    · rw [if_pos hlt] at h; cases h
    · refine ⟨n, rfl, UInt32.not_lt.mp hlt, fun a => ?_⟩
      rw [if_neg hlt]
      by_cases heq : n = r
      · simp only [if_pos heq]
        by_cases ha : a = k.addr
        · rw [if_pos ha, ha, AList.lookup_erase]
        · rw [if_neg ha, AList.lookup_erase_ne ha]
      · simp only [if_neg heq]
        by_cases ha : a = k.addr
        · rw [if_pos ha, ha, AList.lookup_insert]
        · rw [if_neg ha, AList.lookup_insert_ne ha]

/-- A refusal changes nothing. -/
theorem onRelease_refused {s : Socket} {k : KeyRef} {r : UInt32} (h : (s.onRelease k r).1 = false) :
    (s.onRelease k r).2 = s := by
  unfold onRelease at h ⊢
  split at h
  · rfl
  · split_ifs at h ⊢
    rfl

end Socket

theorem cmdGet_outcome (m : HashMap Object) (cmd : Request) (s : Socket) :
    Outcome m cmd s (cmdGet m cmd s) := by
  unfold cmdGet
  cases hk : m.find cmd.name with
  | none =>
    rw [HashMap.apply_absent hk]
    exact .reply rfl rfl
  | some p =>
    rw [HashMap.apply_found hk]
    simp only [getHandler]
    rw [m.write_val hk]
    exact .reply rfl rfl

/-- Acquire: granted, refused, or a new counter. -/
theorem cmdAcquire_outcome (g : Env) (m : HashMap Object) {cmd : Request} (s : Socket)
    (hcmd : cmd.command = .Acquire) (hst : cmd.status = .OK) (hr0 : cmd.resources ≠ 0) :
    Outcome m cmd s (cmdAcquire g m cmd s) := by
  unfold cmdAcquire
  cases hk : m.find cmd.name with
  | none =>
    rw [HashMap.apply_create hk]
    exact .create hk hr0 rfl rfl (s.onAcquire_releasing _ _)
  | some p =>
    rw [HashMap.apply_found hk]
    simp only [acquireHandler]
    cases ha : p.val.acquire g cmd.resources cmd.maximum with
    | mk granted o =>
      cases granted with
      | false =>
        have ho := Object.acquire_refused (congrArg Prod.fst ha)
        rw [ha] at ho
        dsimp only at ho ⊢
        rw [ho, m.write_val hk]
        exact .reply rfl rfl
      | true =>
        obtain ⟨ho, hle⟩ := Object.acquire_granted (congrArg Prod.fst ha)
        rw [ha] at ho
        exact .acquire hcmd hst hk hr0 hle ho rfl (s.onAcquire_releasing _ _)

/-- Release: done, refused, or an exception. -/
theorem cmdRelease_outcome (g : Env) (m : HashMap Object) (cmd : Request) (s : Socket) :
    Outcome m cmd s (cmdRelease g m cmd s) := by
  unfold cmdRelease
  cases hk : m.find cmd.name with
  | none =>
    rw [HashMap.apply_absent hk]
    exact .reply rfl rfl
  | some p =>
    rw [HashMap.apply_found hk]
    simp only [releaseHandler]
    cases hrec : s.onRelease (itemRef p) cmd.resources with
    | mk ok s' =>
      cases ok with
      | false =>
        have hs := Socket.onRelease_refused (congrArg Prod.fst hrec)
        rw [hrec] at hs
        dsimp only at hs ⊢
        rw [hs, m.write_val hk]
        exact .reply rfl rfl
      | true =>
        have hsnd : (s.onRelease (itemRef p) cmd.resources).2 = s' := congrArg Prod.snd hrec
        have hfst := congrArg Prod.fst hrec
        cases hrel : p.val.release g cmd.resources with
        | mk done o =>
          cases done with
          | false => exact .broken hk hfst (Object.release_failed (congrArg Prod.fst hrel))
          | true =>
            obtain ⟨ho, hle⟩ := Object.release_done (congrArg Prod.fst hrel)
            rw [hrel] at ho
            refine .release hk hfst hle ho (by rw [hsnd]; rfl) ?_
            rw [← s.onRelease_releasing (itemRef p) cmd.resources, hsnd]
            rfl

theorem cmdDump_outcome (g : Env) (m : HashMap Object) (cmd : Request) (s : Socket) :
    Outcome m cmd s (.ok (cmdDump g m cmd s)) := by
  have hfold : ∀ (cs : List (Cell Key Object)) (s : Socket),
      (cs.foldl (fun s c => s.send (cmd.dump c.key c.val.consumption (c.val.reportedMax g))) s).acquired
          = s.acquired ∧
        (cs.foldl (fun s c => s.send (cmd.dump c.key c.val.consumption (c.val.reportedMax g))) s).releasing
          = s.releasing := by
    intro cs
    induction cs with
    | nil => intro s; exact ⟨rfl, rfl⟩
    | cons c cs ih => intro s; exact ih _
  exact .reply (hfold m.cells s).1 (hfold m.cells s).2

/-- **Every command has one of the five outcomes.** -/
theorem execute_outcome (g : Env) (m : HashMap Object) (buf : Bytes) (s : Socket) :
    Outcome m (Request.parse buf) s (execute g m (Request.parse buf) s) := by
  unfold execute
  by_cases hst : (Request.parse buf).status = .OK
  · rw [if_neg (not_not.mpr hst)]
    cases hc : (Request.parse buf).command with
    | Acquire => exact cmdAcquire_outcome g m s hc hst (parse_acquire hc hst).1
    | Get => exact cmdGet_outcome m _ s
    | Release => exact cmdRelease_outcome g m _ s
    | Dump => exact cmdDump_outcome g m _ s
    | Noop => exact .reply rfl rfl
    | Stats => exact .reply rfl rfl
    | Unknown => exact .reply rfl rfl
    | raw b => exact .reply rfl rfl
  · rw [if_pos hst]
    exact .reply rfl rfl

end Yrmcds.Counter
