/-
  The cache object (src/memcache/object.hpp, src/memcache/object.cpp).

  An object keeps its data in a heap buffer (`mdata`) or, above `heap_data_limit`, in a temporary file
  (`mfile`); `length` is the member `m_length`, which the code updates beside the two.  A temporary
  file is modelled by its contents, and its operations succeed.

  The lock is a connection's file descriptor, -1 when unlocked; "self" is whoever runs the command, the
  thread-local `g_context`, an explicit argument here.  Times are `time_t` values, as integers.
-/
import Yrmcds.Util

namespace Yrmcds.Memcache

/-- Where the server gives up: the `std::logic_error`s of the lock machinery, of the text responses and
    of the reactor, and the accesses to something that has been deleted. -/
inductive Err where
  | lockBug           -- "object::lock bug"
  | unlockBug         -- "object::unlock bug"
  | removeLockBug     -- "<memcache_socket::remove_lock> bug"
  | maxKeyLength      -- "MAX_KEY_LENGTH over bug"
  | danglingKey       -- a key reference of `m_locks` is read after its item was deleted
  | danglingSocket    -- a job runs on a connection after the reactor destroyed it
  | fixGarbageBug     -- "No gc() was called after fix_garbage()!"
deriving DecidableEq, Repr

/-- `memcache::object`; the defaults are the member initialisers. -/
structure Object where
  length : Nat
  mdata : Bytes
  mfile : Option Bytes
  flags : UInt32
  exptime : Int
  cas : UInt64 := 1
  gcOld : UInt32 := 0
  lock : Int := -1
deriving DecidableEq, Repr

/-- What `object::exptime` returns of a time: the low 32 bits. -/
def exptime32 (t : Int) : UInt32 := UInt32.ofInt t

namespace Object

variable (limit : Nat) (o : Object)

/-- `object::object(p, len, flags, exptime)`; `limit` is `heap_data_limit`. -/
def new (p : Bytes) (flags : UInt32) (exptime : Int) : Object where
  length := p.length
  mdata := if p.length > limit then [] else p
  mfile := if p.length > limit then some p else none
  flags := flags
  exptime := exptime

/-- `object::object(initial, exptime)`. -/
def ofInitial (initial : UInt64) (exptime : Int) : Object where
  length := (decimal initial.toNat).length
  mdata := decimal initial.toNat
  mfile := none
  flags := 0
  exptime := exptime

/-- What `object::data` returns. -/
def data : Bytes := o.mfile.getD o.mdata

/-- ... and what it does to the object: the age starts again. -/
def accessed : Object := { o with gcOld := 0 }

/-- `object::size`. -/
def size : Nat := o.data.length

/-- Every modification counts up `m_cas` and starts the age again. -/
def modified : Object := { o with cas := o.cas + 1, gcOld := 0 }

/-- `object::set`. -/
def set (o : Object) (p : Bytes) (flags : UInt32) (exptime : Int) : Object :=
  { o.modified with
    length := p.length
    mdata := if p.length > limit then [] else p
    mfile := if p.length > limit then some p else none
    flags := flags
    exptime := exptime }

/-- `object::append`. -/
def append (o : Object) (p : Bytes) : Object :=
  if p.length = 0 then o.modified
  else if o.length + p.length > limit then
    match o.mfile with
    | none => { o.modified with
        mfile := some (o.mdata.take o.length ++ p), mdata := [], length := o.length + p.length }
    | some f => { o.modified with mfile := some (f ++ p), length := o.length + p.length }
  else { o.modified with mdata := o.mdata ++ p, length := o.length + p.length }

/-- `object::prepend`. -/
def prepend (o : Object) (p : Bytes) : Object :=
  if p.length = 0 then o.modified
  else if o.length + p.length > limit then
    match o.mfile with
    | none => { o.modified with
        mfile := some (p ++ o.mdata.take o.length), mdata := [], length := o.length + p.length }
    | some f => { o.modified with
        mfile := some ((p ++ f).take (o.length + p.length)), length := o.length + p.length }
  else { o.modified with mdata := p ++ o.mdata.take o.length, length := o.length + p.length }

/-- The common body of `incr` and `decr`; `none` is `not_a_number`. -/
def renumber (f : UInt64 → UInt64) : Option (UInt64 × Object) :=
  match o.mfile, stoull (o.mdata.take o.length) with
  | none, some v => some (f v, { o.modified with
      mdata := decimal (f v).toNat, length := (decimal (f v).toNat).length })
  | _, _ => none

/-- `object::incr`. -/
def incr (n : UInt64) : Option (UInt64 × Object) := o.renumber fun v => v + n

/-- `object::decr`. -/
def decr (n : UInt64) : Option (UInt64 × Object) :=
  o.renumber fun v => if v < n then 0 else v - n

/-- `object::touch`. -/
def touch (exptime : Int) : Object := { o with exptime := exptime, gcOld := 0 }

/-- `object::survive`, without the page-cache flush it may order. -/
def survive : Object := { o with gcOld := o.gcOld + 1 }

/-- `object::locked`, `locked_by_self`, `locked_by_other`. -/
def locked : Bool := o.lock != -1

/-- `locked_by_self`: the lock has the descriptor of this connection. -/
def lockedBySelf (ctx : Int) : Bool := o.lock == ctx

/-- `locked_by_other`. -/
def lockedByOther (ctx : Int) : Bool := o.locked && ! o.lockedBySelf ctx

/-- `object::expired`, with `g_current_time` and `g_stats.flush_time`. -/
def expired (now flushTime : Int) : Bool :=
  if o.locked then false
  else if flushTime ≠ 0 ∧ flushTime ≤ now then true
  else if o.exptime = 0 then false
  else o.exptime ≤ now

/-- `object::lock`. -/
def lockIt (ctx : Int) : Except Err Object :=
  if o.locked then .error .lockBug else .ok { o with lock := ctx }

/-- `object::unlock`. -/
def unlock (ctx : Int) (force : Bool) : Except Err Object :=
  if ! force && ! o.lockedBySelf ctx then .error .unlockBug else .ok { o with lock := -1 }

/-! ## Fields after an operation -/

@[simp] theorem set_flags (o : Object) (p : Bytes) (f : UInt32) (t : Int) :
    (o.set limit p f t).flags = f := rfl
@[simp] theorem set_exptime (o : Object) (p : Bytes) (f : UInt32) (t : Int) :
    (o.set limit p f t).exptime = t := rfl

@[simp] theorem new_flags (p : Bytes) (f : UInt32) (t : Int) :
    (new limit p f t).flags = f := rfl
@[simp] theorem new_exptime (p : Bytes) (f : UInt32) (t : Int) :
    (new limit p f t).exptime = t := rfl

/-- Data comes back as it was stored, on the heap or in a file. -/
@[simp] theorem new_data (p : Bytes) (f : UInt32) (t : Int) : (new limit p f t).data = p := by
  unfold new data
  by_cases h : p.length > limit
  · simp only [if_pos h, Option.getD_some]
  · simp only [if_neg h, Option.getD_none]

@[simp] theorem set_data (o : Object) (p : Bytes) (f : UInt32) (t : Int) :
    (o.set limit p f t).data = p := by
  unfold set data
  by_cases h : p.length > limit
  · simp only [if_pos h, Option.getD_some]
  · simp only [if_neg h, Option.getD_none]

/-- A change counts up the cas value and keeps the lock. -/
theorem append_cas_lock (o : Object) (p : Bytes) :
    (o.append limit p).cas = o.cas + 1 ∧ (o.append limit p).lock = o.lock := by
  unfold append
  split_ifs
  · exact ⟨rfl, rfl⟩
  · split <;> exact ⟨rfl, rfl⟩
  · exact ⟨rfl, rfl⟩

theorem prepend_cas_lock (o : Object) (p : Bytes) :
    (o.prepend limit p).cas = o.cas + 1 ∧ (o.prepend limit p).lock = o.lock := by
  unfold prepend
  split_ifs
  · exact ⟨rfl, rfl⟩
  · split <;> exact ⟨rfl, rfl⟩
  · exact ⟨rfl, rfl⟩

theorem renumber_cas_lock {o o' : Object} {f : UInt64 → UInt64} {n : UInt64}
    (h : o.renumber f = some (n, o')) : o'.cas = o.cas + 1 ∧ o'.lock = o.lock := by
  unfold renumber at h
  split at h
  · rw [Option.some.injEq, Prod.mk.injEq] at h
    rw [← h.2]
    exact ⟨rfl, rfl⟩
  · cases h

/-! ## Locks -/

@[simp] theorem locked_eq_false : o.locked = false ↔ o.lock = -1 := by
  unfold locked; simp

@[simp] theorem locked_eq_true : o.locked = true ↔ o.lock ≠ -1 := by
  unfold locked; simp

@[simp] theorem lockedBySelf_eq_true (ctx : Int) :
    o.lockedBySelf ctx = true ↔ o.lock = ctx := by
  unfold lockedBySelf; simp

theorem lockedBySelf_eq_false (ctx : Int) :
    o.lockedBySelf ctx = false ↔ o.lock ≠ ctx := by
  rw [Bool.eq_false_iff, ne_eq, lockedBySelf_eq_true]

/-- Not locked by another: unlocked, or locked by the one who asks. -/
theorem lockedByOther_eq_false (ctx : Int) :
    o.lockedByOther ctx = false ↔ o.lock = -1 ∨ o.lock = ctx := by
  unfold lockedByOther locked lockedBySelf
  by_cases h1 : o.lock = -1 <;> by_cases h2 : o.lock = ctx <;> simp [h1, h2]

/-- A locked object never expires. -/
theorem not_expired_of_locked {o : Object} (h : o.lock ≠ -1) (now t : Int) : o.expired now t = false := by
  unfold expired
  rw [if_pos (o.locked_eq_true.mpr h)]

theorem unlocked_of_expired {o : Object} {now t : Int} (h : o.expired now t = true) : o.lock = -1 := by
  by_contra hl
  rw [not_expired_of_locked hl] at h
  cases h

end Object
end Yrmcds.Memcache
