/-
  Lock-and-get (src/memcache/sockets.cpp, `cmd_bin`).

  LaG and LaGK lock an object and get it, in one command.  They share the handler of Get and GaT: its
  first part takes the lock, the second is the get.  The Lock command takes the lock in a handler of its
  own, and there is ONE difference: Lock asks whether the object has expired and then locks it; the
  shared handler locks first and asks afterwards.  A locked object never counts as expired, so LaG finds
  what Lock does not, and returns it: an object that has expired and that GC has not removed.

  `lag_iff` says that nothing else separates LaG from Lock followed by Get: the same store, the same lock
  table and the same messages to the slaves, and the answer of the one that decided.
-/
import Yrmcds.Memcache.Expiry
import Yrmcds.Memcache.Replies

namespace Yrmcds.Memcache

open ChainTable Run

/-! ## The requests -/

/-- `lag` asks for what `lock` and `get` ask for together. -/
structure LockAndGet (lag lock get : BinaryRequest) : Prop where
  lag_status : lag.status = .OK
  lock_status : lock.status = .OK
  get_status : get.status = .OK
  command : lag.command = .LaG ∧ (get.command = .Get ∨ get.command = .GaT) ∨
    lag.command = .LaGK ∧ (get.command = .GetK ∨ get.command = .GaTK)
  lock_command : lock.command = .Lock
  lock_key : lock.key = lag.key
  get_key : get.key = lag.key
  exptime : get.exptime = lag.exptime

namespace LockAndGet

variable {lag lock get : BinaryRequest} (h : LockAndGet lag lock get)
include h

theorem lag_mem : lag.command ∈ BinaryCommand.gets := by
  rcases h.command with ⟨hc, -⟩ | ⟨hc, -⟩ <;> rw [hc] <;> decide

theorem get_mem : get.command ∈ BinaryCommand.gets := by
  rcases h.command with ⟨-, hc | hc⟩ | ⟨-, hc | hc⟩ <;> rw [hc] <;> decide

theorem isLaG : lag.command.isLaG = true ∧ get.command.isLaG = false := by
  rcases h.command with ⟨hc, hc' | hc'⟩ | ⟨hc, hc' | hc'⟩ <;> rw [hc, hc'] <;> decide

/-- None of the three is a quiet one. -/
theorem not_quiet : lag.quiet = false ∧ lock.quiet = false ∧ get.quiet = false := by
  unfold BinaryRequest.quiet
  rw [h.lock_command]
  rcases h.command with ⟨hc, hc' | hc'⟩ | ⟨hc, hc' | hc'⟩ <;> rw [hc, hc'] <;> decide

/-- The data packet is the same. -/
theorem getReply_eq (k : KeyRef) (o : Object) : getReply get k o = getReply lag k o := by
  unfold getReply
  rcases h.command with ⟨hc, hc' | hc'⟩ | ⟨hc, hc' | hc'⟩ <;> rw [hc, hc']

end LockAndGet

/-! ## The handlers, by what they find -/

/-- The object after the optional touch of a get, and what the slaves are told. -/
def renewed (exptime : Int) (o : Object) : Object := if exptime ≠ EXPTIME_NONE then o.touch exptime else o

/-- GaT tells the slaves of the new time. -/
def Session.renew (exptime : Int) (k : Key) (o : Object) (σ : Session) : Session :=
  if exptime ≠ EXPTIME_NONE then σ.replTouch k (o.touch exptime) else σ

/-- It changes the messages to the slaves only, and so it may come before a reply or after it. -/
theorem Session.renew_frame (exptime : Int) (k : Key) (o : Object) (σ : Session) :
    (σ.renew exptime k o).locks = σ.locks ∧ (σ.renew exptime k o).out = σ.out := by
  unfold Session.renew
  split_ifs <;> exact ⟨rfl, rfl⟩

theorem Session.renew_bin (exptime : Int) (k : Key) (o : Object) (σ : Session) (cmd : BinaryRequest)
    (body : BinaryBody) : (σ.bin cmd body).renew exptime k o = (σ.renew exptime k o).bin cmd body := by
  unfold Session.renew
  split_ifs <;> rfl

theorem getReply_get (cmd : BinaryRequest) (k : KeyRef) (o : Object) :
    ∃ key, getReply cmd k o = .get o.flags o.data o.cas key := by
  unfold getReply
  split <;> exact ⟨_, rfl⟩

theorem not_locked_of_expired {o : Object} {now flushTime : Int} (he : o.expired now flushTime = true) :
    o.locked = false := by
  cases hl : o.locked with
  | false => rfl
  | true =>
    unfold Object.expired at he
    rw [if_pos hl] at he
    cases he

section

variable {g : Env} {m : HashMap Object} {σ : Session} {p : Cell Key Object}

/-- A get that finds a live object. -/
theorem getBody_live {cmd : BinaryRequest} {k : KeyRef} {o : Object}
    (he : o.expired g.now σ.flushTime = false) :
    getBody g cmd k o σ = (true, (renewed cmd.exptime o).accessed,
      (σ.renew cmd.exptime k.key o).bin cmd (getReply cmd k (renewed cmd.exptime o))) := by
  unfold getBody renewed Session.renew
  rw [if_neg (by rw [he]; decide)]
  split_ifs <;> rfl

/-- A lock taken leaves a live object live. -/
theorem not_expired_lock {o : Object} {now flushTime : Int} (he : o.expired now flushTime = false) (ctx : Int)
    (hl : o.locked = false) : Object.expired { o with lock := ctx } now flushTime = false := by
  unfold Object.expired at he ⊢
  rw [if_neg (by rw [hl]; decide)] at he
  split_ifs at he ⊢ <;> first | rfl | exact he

theorem acquire_free {o : Object} (hl : o.locked = false) (k : KeyRef) :
    acquire g k o σ = .ok ({ o with lock := g.ctx }, σ.addLock k) := by
  unfold acquire Object.lockIt
  rw [if_neg (by rw [hl]; decide)]

theorem cmdBin_lock {lock : BinaryRequest} (hst : lock.status = .OK) (hc : lock.command = .Lock) :
    cmdBin g lock m σ = applyOr m lock.key (lockHandler g lock) none (notFound lock) σ := by
  simp only [cmdBin, hst, hc, ne_eq, not_true_eq_false, if_false]

section

variable {lag lock get : BinaryRequest} (h : LockAndGet lag lock get)
include h

theorem LockAndGet.lag_eq : cmdBin g lag m σ = applyOr m lag.key (getHandler g lag) none (getMiss lag) σ :=
  cmdBin_get h.lag_status h.lag_mem

theorem LockAndGet.lock_eq :
    cmdBin g lock m σ = applyOr m lag.key (lockHandler g lock) none (notFound lock) σ := by
  rw [cmdBin_lock h.lock_status h.lock_command, h.lock_key]

theorem LockAndGet.getMiss_eq : getMiss lag σ = σ.bin lag (.error .NotFound) := by
  unfold getMiss
  rw [if_pos (by rw [h.not_quiet.1]; rfl)]

/-- Nothing is stored under the key. -/
theorem LockAndGet.absent (hp : m.find lag.key = none) :
    cmdBin g lag m σ = .ok (m, σ.bin lag (.error .NotFound)) ∧
      cmdBin g lock m σ = .ok (m, σ.bin lock (.error .NotFound)) := by
  rw [h.lag_eq, h.lock_eq, applyOr_of_absent hp, applyOr_of_absent hp]
  refine ⟨?_, rfl⟩
  rw [← h.getMiss_eq]
  rfl

variable (hp : m.find lag.key = some p)
include hp

/-- The object is locked. -/
theorem LockAndGet.locked (hl : p.val.locked = true) :
    cmdBin g lag m σ = .ok (m, σ.bin lag (.error .Locked)) ∧
      cmdBin g lock m σ = .ok (m, σ.bin lock (.error .Locked)) := by
  have he : p.val.expired g.now σ.flushTime = false := by
    unfold Object.expired
    rw [if_pos hl]
  rw [h.lag_eq, h.lock_eq, applyOr_of_found hp, applyOr_of_found hp]
  unfold getHandler lockHandler
  rw [if_pos h.isLaG.1, if_pos hl, if_neg (by rw [he]; decide), if_pos hl]
  dsimp only [finish, Except.map]
  rw [m.write_val hp]
  exact ⟨rfl, rfl⟩

/-- The object is free and live: Lock succeeds, the get after it finds the object, and LaG does both. -/
theorem LockAndGet.free (hl : p.val.locked = false) (he : p.val.expired g.now σ.flushTime = false)
    {o : Object} (ho : o = { p.val with lock := g.ctx }) {τ : Session} (hτ : τ = σ.addLock (itemRef p)) :
    cmdBin g lag m σ = .ok (m.write p.addr (renewed lag.exptime o).accessed,
        (τ.renew lag.exptime p.key o).bin lag (getReply lag (itemRef p) (renewed lag.exptime o))) ∧
      cmdBin g lock m σ = .ok (m.write p.addr o, τ.bin lock .success) ∧
      cmdBin g get (m.write p.addr o) (τ.bin lock .success)
        = .ok (m.write p.addr (renewed lag.exptime o).accessed,
          ((τ.bin lock .success).renew lag.exptime p.key o).bin get
            (getReply lag (itemRef p) (renewed lag.exptime o))) := by
  have he' : o.expired g.now σ.flushTime = false := ho ▸ not_expired_lock he g.ctx hl
  have hlag : getBody g lag (itemRef p) o τ = (true, (renewed lag.exptime o).accessed,
      (τ.renew lag.exptime p.key o).bin lag (getReply lag (itemRef p) (renewed lag.exptime o))) :=
    getBody_live (by rw [hτ]; exact he')
  have hget : getBody g get (itemRef (p.put o)) o (τ.bin lock .success)
      = (true, (renewed lag.exptime o).accessed, ((τ.bin lock .success).renew lag.exptime p.key o).bin get
          (getReply lag (itemRef p) (renewed lag.exptime o))) := by
    rw [getBody_live (by rw [hτ]; exact he'), h.getReply_eq, h.exptime]
    rfl
  have hacq : acquire g (itemRef p) p.val σ = .ok (o, τ) := by rw [ho, hτ]; exact acquire_free hl _
  refine ⟨?_, ?_, ?_⟩
  · rw [h.lag_eq, applyOr_of_found hp]
    unfold getHandler
    rw [if_pos h.isLaG.1, if_neg (by rw [hl]; decide), hacq]
    dsimp only
    rw [hlag]
    rfl
  · rw [h.lock_eq, applyOr_of_found hp]
    unfold lockHandler
    rw [if_neg (by rw [he]; decide), if_neg (by rw [hl]; decide), hacq]
    dsimp only [Session.binUnlessQuiet]
    rw [if_neg (by rw [h.not_quiet.2.1]; decide)]
    rfl
  · have hfind : (m.write p.addr o).find get.key = some (p.put o) := by
      rw [h.get_key]
      exact m.find_write_self hp o
    rw [cmdBin_get h.get_status h.get_mem, applyOr_of_found hfind]
    unfold getHandler
    rw [if_neg (by rw [h.isLaG.2]; decide)]
    show Except.map _ (finish _ (.ok (getBody g get (itemRef (p.put o)) o (τ.bin lock .success)))) = _
    rw [hget]
    exact congrArg (fun x => Except.ok (x, _)) (m.write_write p.addr o _)

/-- The object has expired: LaG locks it, and Lock does not find it. -/
theorem LockAndGet.expired (hl : p.val.locked = false) (he : p.val.expired g.now σ.flushTime = true) :
    (∃ m' σ', cmdBin g lag m σ = .ok (m', σ') ∧ σ'.locks = σ.locks ++ [p.addr]) ∧
      cmdBin g lock m σ = .ok (m, σ.bin lock (.error .NotFound)) := by
  rw [h.lag_eq, h.lock_eq, applyOr_of_found hp, applyOr_of_found hp]
  unfold getHandler lockHandler
  rw [if_pos h.isLaG.1, if_neg (by rw [hl]; decide), acquire_free hl, if_pos he]
  dsimp only [finish, Except.map]
  rw [m.write_val hp]
  refine ⟨?_, rfl⟩
  unfold getBody
  split_ifs
  · refine ⟨_, _, rfl, ?_⟩
    rw [h.getMiss_eq]
    rfl
  · exact ⟨_, _, rfl, rfl⟩
  · exact ⟨_, _, rfl, rfl⟩

end

end

/-! ## The server -/

/-- The packet that answers a request. -/
def BinaryRequest.reply (cmd : BinaryRequest) (body : BinaryBody) : Reply :=
  .binary ⟨cmd.command.toByte, cmd.opaqueBytes, body⟩

namespace Server

/-- What a connection was sent last. -/
def lastReply (s : Server) (c : Nat) : Option Reply := (s.conns c).bind fun conn => conn.out.getLast?

/-- Lock and then, only if it succeeded, the get. -/
def lockThenGet (s : Server) (c : Nat) (slaves : List Nat) (lock get : BinaryRequest) : Except Err Server :=
  match s.step (.cmd c slaves (.bin lock)) with
  | .error e => .error e
  | .ok t =>
    if t.lastReply c = some (lock.reply .success) then t.step (.cmd c slaves (.bin get)) else .ok t

/-- `lag` does what `lock` and `get` do: the same store, lock table and messages to the slaves.  It
    answers with the data packet of the get, if Lock succeeded, and with the error of Lock otherwise. -/
def LagEquals (s : Server) (c : Nat) (conn : Conn) (slaves : List Nat) (lag lock get : BinaryRequest) :
    Prop :=
  ∃ t u : Server, s.step (.cmd c slaves (.bin lag)) = .ok t ∧ s.lockThenGet c slaves lock get = .ok u ∧
    t.hash = u.hash ∧ (∀ d, (t.conns d).map Conn.locks = (u.conns d).map Conn.locks) ∧ t.log = u.log ∧
    ((∃ flags data cas key,
        (t.conns c).map Conn.out = some (conn.out ++ [lag.reply (.get flags data cas key)]) ∧
        (u.conns c).map Conn.out
          = some (conn.out ++ [lock.reply .success, get.reply (.get flags data cas key)])) ∨
      ∃ status, (status = .Locked ∨ status = .NotFound) ∧
        (t.conns c).map Conn.out = some (conn.out ++ [lag.reply (.error status)]) ∧
        (u.conns c).map Conn.out = some (conn.out ++ [lock.reply (.error status)]))

theorem lastReply_commit (s : Server) (c : Nat) (conn : Conn) (m : HashMap Object) (τ : Session)
    (cmd : BinaryRequest) (body : BinaryBody) :
    (s.commit c conn (m, τ.bin cmd body)).lastReply c = some (cmd.reply body) := by
  unfold lastReply
  rw [commit_conns_self]
  exact List.getLast?_concat

/-- The next command of a connection goes on where the last one ended. -/
theorem session_commit (s : Server) (c : Nat) (conn : Conn) (w : World) :
    (s.commit c conn w).session (conn.after w) w.2.slaves = w.2 := by
  obtain ⟨m, σ⟩ := w
  unfold session commit Conn.after
  simp

variable {s : Server} {c : Nat} {conn : Conn} (hc : s.conns c = some conn) (slaves : List Nat)
  {lag lock get : BinaryRequest}
include hc

/-- A Lock that fails ends the sequence. -/
theorem lockThenGet_refused {m : HashMap Object} {status : BinaryStatus}
    (hlock : cmdBin (s.env conn.fd) lock s.hash (s.session conn slaves)
      = .ok (m, (s.session conn slaves).bin lock (.error status))) :
    s.lockThenGet c slaves lock get
      = .ok (s.commit c conn (m, (s.session conn slaves).bin lock (.error status))) := by
  have hstep := step_cmd hc slaves (r := .bin lock) hlock
  unfold lockThenGet
  rw [hstep]
  dsimp only
  rw [lastReply_commit, if_neg]
  intro h
  cases h

/-- A Lock that succeeds is followed by the get. -/
theorem lockThenGet_taken {m m' : HashMap Object} {τ σ' : Session} (hτ : τ.slaves = slaves)
    (hlock : cmdBin (s.env conn.fd) lock s.hash (s.session conn slaves) = .ok (m, τ.bin lock .success))
    (hget : cmdBin (s.env conn.fd) get m (τ.bin lock .success) = .ok (m', σ')) :
    ∃ conn', s.lockThenGet c slaves lock get
      = .ok ((s.commit c conn (m, τ.bin lock .success)).commit c conn' (m', σ')) := by
  have hstep := step_cmd hc slaves (r := .bin lock) hlock
  have hsession := session_commit s c conn (m, τ.bin lock .success)
  unfold lockThenGet
  rw [hstep]
  dsimp only
  rw [lastReply_commit, if_pos rfl]
  refine ⟨_, step_cmd (commit_conns_self ..) slaves ?_⟩
  rw [← hτ]
  show cmdBin _ get m (session _ _ (τ.bin lock .success).slaves) = _
  rw [hsession]
  exact hget

/-- Both are refused, with one status. -/
theorem lagEquals_refused {status : BinaryStatus} (hstatus : status = .Locked ∨ status = .NotFound)
    (hlag : cmdBin (s.env conn.fd) lag s.hash (s.session conn slaves)
      = .ok (s.hash, (s.session conn slaves).bin lag (.error status)))
    (hlock : cmdBin (s.env conn.fd) lock s.hash (s.session conn slaves)
      = .ok (s.hash, (s.session conn slaves).bin lock (.error status))) :
    s.LagEquals c conn slaves lag lock get := by
  refine ⟨_, _, step_cmd hc slaves (r := .bin lag) hlag, lockThenGet_refused hc slaves hlock, rfl,
    fun d => ?_, rfl, .inr ⟨status, hstatus, ?_, ?_⟩⟩
  · rw [commit_locks, commit_locks]
    rfl
  · rw [commit_conns_self]
    rfl
  · rw [commit_conns_self]
    rfl

/-- Both find the object. -/
theorem lagEquals_taken (h : LockAndGet lag lock get) {p : Cell Key Object}
    (hp : s.hash.find lag.key = some p) (hl : p.val.locked = false)
    (he : p.val.expired s.now s.flushTime = false) : s.LagEquals c conn slaves lag lock get := by
  obtain ⟨o, ho⟩ : ∃ o : Object, o = { p.val with lock := conn.fd } := ⟨_, rfl⟩
  obtain ⟨τ, hτ⟩ : ∃ τ, τ = (s.session conn slaves).addLock (itemRef p) := ⟨_, rfl⟩
  obtain ⟨hlag, hlock, hget⟩ :=
    h.free (g := s.env conn.fd) (σ := s.session conn slaves) hp hl he ho hτ
  obtain ⟨conn', hu⟩ := lockThenGet_taken hc slaves (by rw [hτ]; rfl) hlock hget
  obtain ⟨key, hkey⟩ := getReply_get lag (itemRef p) (renewed lag.exptime o)
  obtain ⟨hlocks, hout⟩ := τ.renew_frame lag.exptime p.key o
  have hτout : τ.out = conn.out := by rw [hτ]; rfl
  rw [Session.renew_bin, hkey] at hu
  rw [hkey] at hlag
  refine ⟨_, _, step_cmd hc slaves (r := .bin lag) hlag, hu, rfl, fun d => ?_, rfl, .inl
    ⟨(renewed lag.exptime o).flags, (renewed lag.exptime o).data, (renewed lag.exptime o).cas, key, ?_, ?_⟩⟩
  · rw [commit_locks, commit_locks, commit_locks]
    split_ifs <;> rfl
  · rw [commit_conns_self, ← hτout, ← hout]
    rfl
  · rw [commit_conns_self, ← hτout, ← hout]
    exact congrArg some (List.append_assoc _ _ _)

/-- **LaG is Lock followed by the get, unless the object has expired.** -/
theorem lag_iff (h : LockAndGet lag lock get) :
    s.LagEquals c conn slaves lag lock get
      ↔ ¬ ∃ p, s.hash.find lag.key = some p ∧ p.val.expired s.now s.flushTime = true := by
  constructor
  · rintro ⟨t, u, ht, hu, -, hlocks, -⟩ ⟨p, hp, he⟩
    obtain ⟨⟨m', σ', hlag, hσ'⟩, hlock⟩ := h.expired (g := s.env conn.fd) (σ := s.session conn slaves) hp
      (not_locked_of_expired he) he
    rw [step_cmd hc slaves (r := .bin lag) hlag] at ht
    rw [lockThenGet_refused hc slaves hlock] at hu
    cases ht
    cases hu
    have hd := hlocks c
    rw [commit_locks, commit_locks, if_pos rfl, if_pos rfl, Option.some.injEq, hσ'] at hd
    exact List.cons_ne_nil _ _ (List.append_right_eq_self.mp hd)
  · intro hno
    cases hp : s.hash.find lag.key with
    | none =>
      obtain ⟨hlag, hlock⟩ := h.absent (g := s.env conn.fd) (σ := s.session conn slaves) hp
      exact lagEquals_refused hc slaves (.inr rfl) hlag hlock
    | some p =>
      have he : p.val.expired s.now s.flushTime = false := by
        by_contra hne
        exact hno ⟨p, hp, Bool.eq_true_of_not_eq_false hne⟩
      cases hl : p.val.locked with
      | true =>
        obtain ⟨hlag, hlock⟩ := h.locked (g := s.env conn.fd) (σ := s.session conn slaves) hp hl
        exact lagEquals_refused hc slaves (.inl rfl) hlag hlock
      | false => exact lagEquals_taken hc slaves h hp hl he

end Server

/-- LaG, Lock and Get for "x". -/
def lagX : BinaryRequest :=
  { command := .LaG, status := .OK, key := [120], key_le := x_le, exptime := EXPTIME_NONE }

/-- Lock of "x". -/
def lockX : BinaryRequest := { command := .Lock, status := .OK, key := [120], key_le := x_le }

/-- Get of "x". -/
def getX : BinaryRequest :=
  { command := .Get, status := .OK, key := [120], key_le := x_le, exptime := EXPTIME_NONE }

theorem lockAndGet_x : LockAndGet lagX lockX getX :=
  ⟨rfl, rfl, rfl, .inl ⟨rfl, .inl rfl⟩, rfl, rfl, rfl, rfl⟩

/-- As long as "x" has not expired. -/
theorem lag_live : ∃ s conn, run Server.step Server.oneBucket (expiredRun.take 2) = .ok s ∧
    s.conns 0 = some conn ∧ s.LagEquals 0 conn [7] lagX lockX getX := by
  obtain ⟨s, conn, p, hs, hc, hp, he⟩ : ∃ s conn p,
      run Server.step Server.oneBucket (expiredRun.take 2) = .ok s ∧ s.conns 0 = some conn ∧
      s.hash.find [120] = some p ∧ p.val.expired s.now s.flushTime = false := ⟨_, _, _, rfl, rfl, rfl, rfl⟩
  refine ⟨s, conn, hs, hc, (Server.lag_iff hc [7] lockAndGet_x).mpr ?_⟩
  rintro ⟨p', hp', he'⟩
  rw [show lagX.key = [120] from rfl, hp] at hp'
  cases hp'
  rw [he] at he'
  cases he'

/-- Once it has, LaG returns it and holds the lock; Lock does not find it. -/
theorem lag_locks_expired : ∃ s conn t u, run Server.step Server.oneBucket expiredRun = .ok s ∧
    s.conns 0 = some conn ∧ ¬ s.LagEquals 0 conn [] lagX lockX getX ∧
    s.step (.cmd 0 [] (.bin lagX)) = .ok t ∧ s.lockThenGet 0 [] lockX getX = .ok u ∧
    t.lastReply 0 = some (lagX.reply (.get 0 [1] 1 none)) ∧ (t.conns 0).map Conn.locks = some [0] ∧
    u.lastReply 0 = some (lockX.reply (.error .NotFound)) ∧ (u.conns 0).map Conn.locks = some [] := by
  obtain ⟨s, conn, t, u, hs, hc, ht, hu, htr, htl, hur, hul⟩ : ∃ s conn t u,
      run Server.step Server.oneBucket expiredRun = .ok s ∧ s.conns 0 = some conn ∧
      s.step (.cmd 0 [] (.bin lagX)) = .ok t ∧ s.lockThenGet 0 [] lockX getX = .ok u ∧
      t.lastReply 0 = some (lagX.reply (.get 0 [1] 1 none)) ∧ (t.conns 0).map Conn.locks = some [0] ∧
      u.lastReply 0 = some (lockX.reply (.error .NotFound)) ∧ (u.conns 0).map Conn.locks = some [] :=
    ⟨_, _, _, _, rfl, rfl, rfl, rfl, rfl, rfl, rfl, rfl⟩
  refine ⟨s, conn, t, u, hs, hc, ?_, ht, hu, htr, htl, hur, hul⟩
  rintro ⟨t', u', ht', hu', -, hlocks, -⟩
  rw [ht] at ht'
  rw [hu] at hu'
  cases ht'
  cases hu'
  have hd := hlocks 0
  rw [htl, hul] at hd
  cases hd

end Yrmcds.Memcache
