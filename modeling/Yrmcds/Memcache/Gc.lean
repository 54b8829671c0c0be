/-
  The garbage collector of the cache (src/memcache/gc.cpp).

  A GC pass reads `flush_time` and the memory figures once, at its start, and then visits the buckets
  one after another, each under its lock.  An object goes when an active flush, an eviction age or its
  own expiration says so, and never while it is locked by the first two tests or by `expired`, which
  is false for a locked object.  A surviving object ages, is counted, and is sent to the slaves that
  have just joined.

  Whether an object goes depends on the object and on what the pass read, not on the figures the
  thread gathers, so a visit of a bucket is a `sweep` (`gcPred_steady`); its messages are listed by
  `gcLoop_log`.
-/
import Yrmcds.Memcache.Sockets

namespace Yrmcds.Memcache

open ChainTable

/-- The figures a `gc_thread` gathers, and later stores into `g_stats`. -/
structure GcCounters where
  objects : UInt32 := 0
  objectsUnder1k : UInt32 := 0
  objectsUnder4k : UInt32 := 0
  objectsUnder16k : UInt32 := 0
  objectsUnder64k : UInt32 := 0
  objectsUnder256k : UInt32 := 0
  objectsUnder1m : UInt32 := 0
  objectsUnder4m : UInt32 := 0
  objectsHuge : UInt32 := 0
  usedMemory : UInt64 := 0
  conflicts : UInt32 := 0
  oldestAge : UInt32 := 0
  largestObjectSize : Nat := 0
  lastExpirations : UInt32 := 0
  lastEvictions : UInt32 := 0
  objectsInBucket : Nat := 0
deriving DecidableEq, Repr

/-- The members of `g_config` that GC reads, and two `sizeof`s. -/
structure GcConfig where
  memoryLimit : UInt64
  gcInterval : UInt32
  heapDataLimit : Nat
  sizeofHashKey : Nat
  sizeofObject : Nat

/-- What a pass has decided at its start: the slaves it serves, whether it flushes, and the age from
    which it evicts (0: it does not). -/
structure GcPass where
  slaves : List Nat
  newSlaves : List Nat
  flush : Bool
  evictAge : UInt32

/-- The `evict_age` of a pass, from the figures of the last one. -/
def computeEvictAge (cfg : GcConfig) (flush : Bool) (stats : GcCounters) : UInt32 :=
  if ! flush && stats.usedMemory > cfg.memoryLimit then
    let oneHour := 3600 / cfg.gcInterval + 1
    if stats.oldestAge < oneHour * 2 then max 1 (stats.oldestAge / 2)
    else stats.oldestAge - oneHour
  else 0

/-- The start of `gc_thread::gc`; `wall` is `std::time(nullptr)`.  The constructor has added the new
    slaves to the slaves. -/
def GcPass.start (cfg : GcConfig) (slaves newSlaves : List Nat) (flushTime wall : Int)
    (stats : GcCounters) : GcPass :=
  let flush := flushTime != 0 && wall ≥ flushTime
  { slaves := slaves ++ newSlaves.filter (· ∉ slaves)
    newSlaves := newSlaves
    flush := flush
    evictAge := computeEvictAge cfg flush stats }

/-- The figures after counting a surviving object. -/
def GcCounters.count (c : GcCounters) (cfg : GcConfig) (k : Key) (o : Object) : GcCounters :=
  let size := o.size
  { c with
    objectsInBucket := c.objectsInBucket + 1
    conflicts := if c.objectsInBucket + 1 = 2 then c.conflicts + 1 else c.conflicts
    objects := c.objects + 1
    objectsUnder1k := if size < 1024 then c.objectsUnder1k + 1 else c.objectsUnder1k
    objectsUnder4k := if 1024 ≤ size ∧ size < 4096 then c.objectsUnder4k + 1 else c.objectsUnder4k
    objectsUnder16k :=
      if 4096 ≤ size ∧ size < 16 * 1024 then c.objectsUnder16k + 1 else c.objectsUnder16k
    objectsUnder64k :=
      if 16 * 1024 ≤ size ∧ size < 64 * 1024 then c.objectsUnder64k + 1 else c.objectsUnder64k
    objectsUnder256k :=
      if 64 * 1024 ≤ size ∧ size < 256 * 1024 then c.objectsUnder256k + 1 else c.objectsUnder256k
    objectsUnder1m :=
      if 256 * 1024 ≤ size ∧ size < 2 ^ 20 then c.objectsUnder1m + 1 else c.objectsUnder1m
    objectsUnder4m :=
      if 2 ^ 20 ≤ size ∧ size < 4 * 2 ^ 20 then c.objectsUnder4m + 1 else c.objectsUnder4m
    objectsHuge := if 4 * 2 ^ 20 ≤ size then c.objectsHuge + 1 else c.objectsHuge
    usedMemory := c.usedMemory + UInt64.ofNat (cfg.sizeofHashKey + k.length + cfg.sizeofObject)
      + (if cfg.heapDataLimit ≥ size then UInt64.ofNat size else 0)
    oldestAge := max c.oldestAge o.gcOld
    largestObjectSize := max c.largestObjectSize size }

section

variable (cfg : GcConfig) (pass : GcPass) (now flushTime : Int)

/-- The tests of the predicate: flushed, evicted, expired. -/
def flushed (o : Object) : Bool := pass.flush && ! o.locked

/-- Old enough to be evicted, and not locked. -/
def evicted (o : Object) : Bool := pass.evictAge > 0 && o.gcOld ≥ pass.evictAge && ! o.locked

/-- Does the pass remove this object? -/
def gcRemoves (o : Object) : Bool := flushed pass o || evicted pass o || o.expired now flushTime

/-- A survivor: it has aged, unless it was read for a new slave. -/
def gcKeeps (o : Object) : Object :=
  if pass.newSlaves.isEmpty then o.survive else o.survive.accessed

/-- The message a pass sends about an object. -/
def gcMessage (k : Key) (o : Object) (log : Log) : Log :=
  if gcRemoves pass now flushTime o then sendTo pass.slaves (.delete k) log
  else sendTo pass.newSlaves (.set k o.data o.flags o.exptime) log

/-- The predicate of `gc_thread::gc`. -/
def gcPred (k : KeyRef) (o : Object) (st : GcCounters × Log) : Bool × Object × (GcCounters × Log) :=
  if flushed pass o then (true, o, (st.1, sendTo pass.slaves (.delete k.key) st.2))
  else if evicted pass o then
    (true, o, ({ st.1 with lastEvictions := st.1.lastEvictions + 1 },
      sendTo pass.slaves (.delete k.key) st.2))
  else if o.expired now flushTime then
    (true, o, ({ st.1 with lastExpirations := st.1.lastExpirations + 1 },
      sendTo pass.slaves (.delete k.key) st.2))
  else
    (false, if pass.newSlaves.isEmpty then o.survive else o.survive.accessed,
      (st.1.count cfg k.key o.survive, sendTo pass.newSlaves (.set k.key o.data o.flags o.exptime) st.2))

/-- What the predicate does, by its verdict. -/
theorem gcPred_eq (k : KeyRef) (o : Object) (st : GcCounters × Log) :
    (gcPred cfg pass now flushTime k o st).1 = gcRemoves pass now flushTime o ∧
      (gcRemoves pass now flushTime o = false →
        (gcPred cfg pass now flushTime k o st).2.1 = gcKeeps pass o) ∧
      (gcPred cfg pass now flushTime k o st).2.2.2 = gcMessage pass now flushTime k.key o st.2 := by
  unfold gcPred gcMessage gcRemoves gcKeeps
  cases flushed pass o <;> cases evicted pass o <;> cases o.expired now flushTime <;> simp

theorem gcPred_steady :
    HashMap.Steady (gcPred cfg pass now flushTime)
      fun _ o => if gcRemoves pass now flushTime o then none else some (gcKeeps pass o) := by
  intro k o st
  obtain ⟨hv, hk, -⟩ := gcPred_eq cfg pass now flushTime k o st
  rw [hv]
  cases hr : gcRemoves pass now flushTime o with
  | true => simp only [hr, if_true]
  | false => simp only [hr, hk hr, Bool.false_eq_true, if_false]

/-- The messages of a visit, in the order of the bucket's items. -/
theorem gcLoop_log (b : List (Cell Key Object)) (st : GcCounters × Log) :
    (HashMap.gcLoop (gcPred cfg pass now flushTime) b st).2.2
      = b.foldl (fun log c => gcMessage pass now flushTime c.key c.val log) st.2 := by
  induction b generalizing st with
  | nil => rfl
  | cons c b ih =>
    have hmsg := (gcPred_eq cfg pass now flushTime (itemRef c) c.val st).2.2
    rw [HashMap.gcLoop, List.foldl_cons]
    rw [itemRef_key] at hmsg
    split
    · rename_i heq
      rw [heq] at hmsg
      rw [ih, ← hmsg]
    · rename_i heq
      rw [heq] at hmsg
      rw [ih, ← hmsg]

/-- A pass removes unlocked objects only. -/
theorem unlocked_of_gcRemoves {o : Object} (h : gcRemoves pass now flushTime o = true) : o.lock = -1 := by
  unfold gcRemoves flushed evicted at h
  by_contra hl
  rw [o.locked_eq_true.mpr hl, Object.not_expired_of_locked hl] at h
  simp at h

@[simp] theorem gcKeeps_lock (o : Object) : (gcKeeps pass o).lock = o.lock := by
  unfold gcKeeps; split <;> rfl
@[simp] theorem gcKeeps_data (o : Object) : (gcKeeps pass o).data = o.data := by
  unfold gcKeeps; split <;> rfl
@[simp] theorem gcKeeps_flags (o : Object) : (gcKeeps pass o).flags = o.flags := by
  unfold gcKeeps; split <;> rfl
@[simp] theorem gcKeeps_exptime (o : Object) : (gcKeeps pass o).exptime = o.exptime := by
  unfold gcKeeps; split <;> rfl
@[simp] theorem gcKeeps_cas (o : Object) : (gcKeeps pass o).cas = o.cas := by
  unfold gcKeeps; split <;> rfl

end

end Yrmcds.Memcache
