/-
  What commands can do, said once.

  There are some sixty commands, but they change the store in few ways.  `HStep` lists what a handler
  can do to the object it is given, `Prim` what a command can do to the map: read an object, touch it,
  store new contents, lock it, unlock it, create it, remove it, give up all locks, set the flush time.
  `Effects g w res` says that `res` is reached from the world `w` by such steps, or by one of the ways
  to fail (`PrimFail`) after some of them.

  `exec_effects` is the one place where the commands are taken apart.  An invariant of the server is
  then proved for the steps of `Prim`, not for the commands: `Effects.preserves` (whatever the command
  answers, it keeps the invariant) and `Effects.total` (if the invariant also excludes the failures,
  the command succeeds).
-/
import Yrmcds.Memcache.Sockets

namespace Yrmcds.Memcache

open ChainTable

/-! ## Talking

  Replies, the request to close and the log threshold: nothing that another command reads. -/

/-- `σ'` differs from `σ` in what it tells the client only. -/
structure Chat (σ σ' : Session) : Prop where
  locks : σ'.locks = σ.locks
  slaves : σ'.slaves = σ.slaves
  log : σ'.log = σ.log
  flushTime : σ'.flushTime = σ.flushTime
  closing : σ.closing = true → σ'.closing = true

namespace Chat

@[refl] theorem refl (σ : Session) : Chat σ σ := ⟨rfl, rfl, rfl, rfl, id⟩

theorem trans {σ1 σ2 σ3 : Session} (h : Chat σ1 σ2) (h' : Chat σ2 σ3) : Chat σ1 σ3 :=
  ⟨h'.locks.trans h.locks, h'.slaves.trans h.slaves, h'.log.trans h.log, h'.flushTime.trans h.flushTime,
    h'.closing ∘ h.closing⟩

theorem bin (σ : Session) (cmd : BinaryRequest) (b : BinaryBody) : Chat σ (σ.bin cmd b) :=
  ⟨rfl, rfl, rfl, rfl, id⟩

theorem text (σ : Session) (r : TextReply) : Chat σ (σ.text r) := ⟨rfl, rfl, rfl, rfl, id⟩

theorem binUnlessQuiet (σ : Session) (cmd : BinaryRequest) (b : BinaryBody) :
    Chat σ (σ.binUnlessQuiet cmd b) := by
  unfold Session.binUnlessQuiet
  split
  · exact refl σ
  · exact bin σ cmd b

theorem textUnlessNoReply (σ : Session) (cmd : TextRequest) (r : TextReply) :
    Chat σ (σ.textUnlessNoReply cmd r) := by
  unfold Session.textUnlessNoReply
  split
  · exact refl σ
  · exact text σ r

/-- Sending a message after talking is talking after sending it. -/
theorem repl {σ σ' : Session} (h : Chat σ σ') (msg : ReplMsg) : Chat (σ.repl msg) (σ'.repl msg) := by
  refine ⟨h.locks, h.slaves, ?_, h.flushTime, h.closing⟩
  unfold Session.repl
  rw [h.slaves, h.log]

end Chat

/-! ## What a handler does to its object -/

/-- One change a handler makes to the object of key `k` and to the session.  The step is LOUD if it
    changes the contents of the object, and so counts up `m_cas`. -/
inductive HStep (g : Env) (deref : Nat → Option Key) (k : KeyRef) :
    Bool → Object × Session → Object × Session → Prop
  | chat {o : Object} {σ σ' : Session} (hc : Chat σ σ') : HStep g deref k false (o, σ) (o, σ')
  | access {o : Object} {σ σ' : Session} (hc : Chat σ σ') :
      HStep g deref k false (o, σ) (o.accessed, σ')
  | touch {o : Object} {σ σ' : Session} (t : Int) (hc : Chat (σ.repl (.touch k.key t)) σ') :
      HStep g deref k false (o, σ) (o.touch t, σ')
  | store {o o' : Object} {σ σ' : Session} (hl : o.lockedByOther g.ctx = false)
      (hcas : o'.cas = o.cas + 1) (hlock : o'.lock = o.lock)
      (hc : Chat (σ.repl (.set k.key o'.data o'.flags o'.exptime)) σ') :
      HStep g deref k true (o, σ) (o', σ')
  | lock {o : Object} {σ σ' : Session} (hl : o.lock = -1) (hc : Chat (σ.addLock k) σ') :
      HStep g deref k false (o, σ) ({ o with lock := g.ctx }, σ')
  | unlock {o : Object} {σ σ' : Session} {l : List Nat} (hl : o.lock = g.ctx)
      (hr : removeLock deref k.key σ.locks = .ok l) (hc : Chat { σ with locks := l } σ') :
      HStep g deref k false (o, σ) ({ o with lock := -1 }, σ')

theorem HStep.flushTime {g : Env} {deref : Nat → Option Key} {k : KeyRef} {l : Bool}
    {x x' : Object × Session} (h : HStep g deref k l x x') : x'.2.flushTime = x.2.flushTime := by
  cases h with
  | chat hc => exact hc.flushTime
  | access hc => exact hc.flushTime
  | touch t hc => exact hc.flushTime
  | store hl hcas hlock hc => exact hc.flushTime
  | lock hl hc => exact hc.flushTime
  | unlock hl hr hc => exact hc.flushTime

/-- The ways a handler can throw. -/
inductive HFail (g : Env) (deref : Nat → Option Key) (k : KeyRef) : Object × Session → Err → Prop
  | removeLock {o : Object} {σ : Session} {e : Err} (hl : o.lock = g.ctx)
      (hr : removeLock deref k.key σ.locks = .error e) : HFail g deref k (o, σ) e
  | keyLength {o : Object} {σ : Session} (hk : k.key.length > MAX_KEY_LENGTH) :
      HFail g deref k (o, σ) .maxKeyLength

/-- A handler's whole work: steps, then its answer, or a failure.  If `n` is false no step is loud,
    otherwise one at most. -/
inductive HRun (g : Env) (deref : Nat → Option Key) (k : KeyRef) :
    Bool → Object × Session → Except Err (Bool × Object × Session) → Prop
  | done {n : Bool} (b : Bool) {o : Object} {σ : Session} : HRun g deref k n (o, σ) (.ok (b, o, σ))
  | quiet {n : Bool} {o o' : Object} {σ σ' : Session} {r : Except Err (Bool × Object × Session)}
      (hs : HStep g deref k false (o, σ) (o', σ')) (hr : HRun g deref k n (o', σ') r) :
      HRun g deref k n (o, σ) r
  | loud {o o' : Object} {σ σ' : Session} {r : Except Err (Bool × Object × Session)}
      (hs : HStep g deref k true (o, σ) (o', σ')) (hr : HRun g deref k false (o', σ') r) :
      HRun g deref k true (o, σ) r
  | fail {n : Bool} {o : Object} {σ : Session} {e : Err} (hf : HFail g deref k (o, σ) e) :
      HRun g deref k n (o, σ) (.error e)

/-- Every call of the handler is such a run. -/
def Lawful (g : Env) (deref : Nat → Option Key) (n : Bool) (h : Handler) : Prop :=
  ∀ k o σ, HRun g deref k n (o, σ) (h k o σ)

namespace HRun

variable {g : Env} {deref : Nat → Option Key} {k : KeyRef} {n : Bool} {o o' : Object} {σ σ' : Session}

/-- A run of one quiet step. -/
theorem one (b : Bool) (hs : HStep g deref k false (o, σ) (o', σ')) :
    HRun g deref k n (o, σ) (.ok (b, o', σ')) := .quiet hs (.done b)

/-- Only talk. -/
theorem chat (b : Bool) (hc : Chat σ σ') : HRun g deref k n (o, σ) (.ok (b, o, σ')) := .one b (.chat hc)

/-- A store followed by a reply and a message, the common end of the modifying handlers. -/
theorem store (b : Bool) (hl : o.lockedByOther g.ctx = false)
    (h : o'.cas = o.cas + 1 ∧ o'.lock = o.lock) (hc : Chat σ σ') :
    HRun g deref k true (o, σ) (.ok (b, o', σ'.replObject k.key o')) :=
  .loud (.store hl h.1 h.2 (hc.repl _)) (.done b)

/-- A handler does not set the flush time. -/
theorem flushTime {b : Bool} (h : HRun g deref k n (o, σ) (.ok (b, o', σ'))) :
    σ'.flushTime = σ.flushTime := by
  generalize hx : (o, σ) = x at h
  generalize hy : Except.ok (b, o', σ') = y at h
  induction h generalizing o σ with
  | done => cases hx; cases hy; rfl
  | quiet hs _ ih => cases hx; exact (ih rfl hy).trans hs.flushTime
  | loud hs _ ih => cases hx; exact (ih rfl hy).trans hs.flushTime
  | fail => cases hy

end HRun

section Handlers

variable (g : Env) (deref : Nat → Option Key) {n : Bool}

theorem release_run (k : KeyRef) {o : Object} (σ : Session) (hl : o.lock = g.ctx)
    {post : Object → Session → Session} (hpost : ∀ o σ, Chat σ (post o σ)) :
    HRun g deref k n (o, σ)
      (match release g deref k.key o σ with
        | .ok (o', σ') => .ok (true, o', post o' σ')
        | .error e => .error e) := by
  have hun : o.unlock g.ctx false = .ok { o with lock := -1 } := by
    unfold Object.unlock
    rw [(o.lockedBySelf_eq_true g.ctx).mpr hl]
    rfl
  unfold release
  rw [hun]
  cases hr : removeLock deref k.key σ.locks with
  | error e => exact .fail (.removeLock hl hr)
  | ok l => exact .one true (.unlock hl hr (hpost _ _))

theorem acquire_ok (k : KeyRef) {o : Object} (σ : Session) (hl : o.lock = -1) :
    acquire g k o σ = .ok ({ o with lock := g.ctx }, σ.addLock k) := by
  unfold acquire Object.lockIt
  rw [if_neg (by rw [o.locked_eq_true]; exact not_not.mpr hl)]

section

variable (cmd : BinaryRequest)

theorem getBody_run (k : KeyRef) (o : Object) (σ : Session) :
    HRun g deref k n (o, σ) (.ok (getBody g cmd k o σ)) := by
  unfold getBody
  split_ifs
  · exact .done false
  · exact .quiet (.touch cmd.exptime (.refl _)) (.one true (.access (.bin _ cmd _)))
  · exact .one true (.access (.bin σ cmd _))

theorem getHandler_lawful : Lawful g deref n (getHandler g cmd) := by
  intro k o σ
  unfold getHandler
  by_cases hlag : cmd.command.isLaG = true
  · rw [if_pos hlag]
    cases hl : o.locked with
    | true => exact .chat true (.bin σ cmd _)
    | false =>
      have hun := o.locked_eq_false.mp hl
      rw [acquire_ok g k σ hun]
      exact .quiet (.lock hun (.refl _)) (getBody_run g deref cmd k _ _)
  · rw [if_neg hlag]
    exact getBody_run g deref cmd k o σ

/-- The cas check in front of a body that stores. -/
theorem casCheck_run {body : KeyRef → Object → Session → Bool × Object × Session} (k : KeyRef)
    (o : Object) (σ : Session) (hbody : HRun g deref k n (o, σ) (.ok (body k o σ))) :
    HRun g deref k n (o, σ) (.ok (casCheck cmd body k o σ)) := by
  unfold casCheck
  split_ifs
  · exact .chat true (.bin σ cmd _)
  · exact hbody

theorem setStore_run (k : KeyRef) {o : Object} (σ : Session) (hl : o.lockedByOther g.ctx = false) :
    HRun g deref k true (o, σ) (.ok (setStore g cmd k o σ)) :=
  .store true hl ⟨rfl, rfl⟩ (.binUnlessQuiet σ cmd _)

theorem setHandler_lawful : Lawful g deref true (setHandler g cmd) := by
  intro k o σ
  unfold setHandler
  cases hl : o.lockedByOther g.ctx with
  | true => exact .chat true (.bin σ cmd _)
  | false =>
    have hstore := casCheck_run g deref cmd k o σ (setStore_run g deref cmd k σ hl)
    rw [if_neg Bool.false_ne_true]
    split_ifs
    · exact .chat true (.bin σ cmd _)
    · exact hstore
    · exact .chat true (.bin σ cmd _)
    · exact hstore

theorem rauHandler_lawful : Lawful g deref true (rauHandler g cmd deref) := by
  intro k o σ
  unfold rauHandler
  cases hs : o.lockedBySelf g.ctx with
  | false => exact .chat true (.bin σ cmd _)
  | true =>
    have hl := (o.lockedBySelf_eq_true g.ctx).mp hs
    rw [if_neg (by decide)]
    split_ifs
    · exact .chat true (.bin σ cmd _)
    · -- the set comes first, then the unlock; the message is sent at the end, with the same contents
      generalize ho : o.set g.config.heapDataLimit cmd.data cmd.flags cmd.exptime = o'
      have hother : o.lockedByOther g.ctx = false := (o.lockedByOther_eq_false g.ctx).mpr (.inr hl)
      have hcas : o'.cas = o.cas + 1 := by rw [← ho]; rfl
      have hlock : o'.lock = o.lock := by rw [← ho]; rfl
      refine .loud (.store hother hcas hlock (.refl _)) ?_
      unfold release
      rw [show o'.unlock g.ctx false = .ok { o' with lock := -1 } by
        unfold Object.unlock
        rw [(o'.lockedBySelf_eq_true g.ctx).mpr (hlock.trans hl)]
        rfl]
      cases hr : removeLock deref k.key σ.locks with
      | error e => exact .fail (.removeLock (hlock.trans hl) hr)
      | ok l =>
        exact .one true (.unlock (hlock.trans hl) hr
          ((Chat.binUnlessQuiet { σ with locks := l } cmd (.set o'.cas)).repl _))

theorem modifyHandler_lawful {body : KeyRef → Object → Session → Bool × Object × Session}
    (hbody : ∀ k o σ, o.lockedByOther g.ctx = false → HRun g deref k true (o, σ) (.ok (body k o σ))) :
    Lawful g deref true (modifyHandler g cmd body) := by
  intro k o σ
  unfold modifyHandler
  cases hl : o.lockedByOther g.ctx with
  | true => exact .chat true (.bin σ cmd _)
  | false =>
    rw [if_neg Bool.false_ne_true]
    split_ifs
    · exact .done false
    · exact casCheck_run g deref cmd k o σ (hbody k o σ hl)

theorem concatHandler_lawful {op : Nat → Object → Bytes → Object}
    (hop : ∀ n o p, (op n o p).cas = o.cas + 1 ∧ (op n o p).lock = o.lock) :
    Lawful g deref true (concatHandler g cmd op) :=
  modifyHandler_lawful g deref cmd fun _ _ σ hl => .store true hl (hop _ _ _) (.binUnlessQuiet σ cmd _)

theorem incdecHandler_lawful {op : Object → UInt64 → Option (UInt64 × Object)}
    (hop : ∀ o n v o', op o n = some (v, o') → o'.cas = o.cas + 1 ∧ o'.lock = o.lock) :
    Lawful g deref true (incdecHandler g cmd op) := by
  refine modifyHandler_lawful g deref cmd fun k o σ hl => ?_
  cases hn : op o cmd.value with
  | none => exact .chat true (.bin σ cmd _)
  | some v => exact .store true hl (hop _ _ _ _ hn) (.binUnlessQuiet σ cmd _)

theorem touchHandler_lawful : Lawful g deref n (touchHandler g cmd) := by
  intro k o σ
  unfold touchHandler
  split_ifs
  · exact .done false
  · exact .one true (.touch cmd.exptime (.bin _ cmd _))

theorem lockHandler_lawful : Lawful g deref n (lockHandler g cmd) := by
  intro k o σ
  unfold lockHandler
  split_ifs with he hl
  · exact .done false
  · exact .chat true (.bin σ cmd _)
  · have hun := o.locked_eq_false.mp (Bool.eq_false_iff.mpr hl)
    rw [acquire_ok g k σ hun]
    exact .one true (.lock hun (.binUnlessQuiet _ cmd _))

theorem unlockOneHandler_lawful : Lawful g deref n (unlockOneHandler g cmd deref) := by
  intro k o σ
  unfold unlockOneHandler
  cases hs : o.lockedBySelf g.ctx with
  | false => exact .chat true (.bin σ cmd _)
  | true =>
    exact release_run g deref k σ ((o.lockedBySelf_eq_true g.ctx).mp hs)
      fun _ σ => .binUnlessQuiet σ cmd _

end

section

variable (cmd : TextRequest)

namespace Text

theorem store_run (k : KeyRef) {o : Object} (σ : Session) (hl : o.lockedByOther g.ctx = false) :
    HRun g deref k true (o, σ) (.ok (store g cmd k o σ)) :=
  .store true hl ⟨rfl, rfl⟩ (.textUnlessNoReply σ cmd _)

theorem setHandler_lawful : Lawful g deref true (Text.setHandler g cmd) := by
  intro k o σ
  unfold Text.setHandler
  cases hl : o.lockedByOther g.ctx with
  | true => exact .chat true (.textUnlessNoReply σ cmd _)
  | false =>
    rw [if_neg Bool.false_ne_true]
    split_ifs
    · exact .done false
    · exact store_run g deref cmd k σ hl
    · exact .done false
    · exact store_run g deref cmd k σ hl

theorem modifyHandler_lawful {body : KeyRef → Object → Session → Bool × Object × Session}
    (hbody : ∀ k o σ, o.lockedByOther g.ctx = false → HRun g deref k true (o, σ) (.ok (body k o σ))) :
    Lawful g deref true (Text.modifyHandler g cmd body) := by
  intro k o σ
  unfold Text.modifyHandler
  cases hl : o.lockedByOther g.ctx with
  | true => exact .chat true (.textUnlessNoReply σ cmd _)
  | false =>
    rw [if_neg Bool.false_ne_true]
    split_ifs
    · exact .done false
    · exact hbody k o σ hl

theorem concatHandler_lawful {op : Nat → Object → Bytes → Object}
    (hop : ∀ n o p, (op n o p).cas = o.cas + 1 ∧ (op n o p).lock = o.lock) :
    Lawful g deref true (Text.concatHandler g cmd op) :=
  modifyHandler_lawful g deref cmd fun _ _ σ hl => .store true hl (hop _ _ _) (.textUnlessNoReply σ cmd _)

theorem casHandler_lawful : Lawful g deref true (casHandler g cmd) := by
  refine modifyHandler_lawful g deref cmd fun k o σ hl => ?_
  split_ifs
  · exact .chat true (.textUnlessNoReply σ cmd _)
  · exact store_run g deref cmd k σ hl

theorem incdecHandler_lawful {op : Object → UInt64 → Option (UInt64 × Object)}
    (hop : ∀ o n v o', op o n = some (v, o') → o'.cas = o.cas + 1 ∧ o'.lock = o.lock) :
    Lawful g deref true (Text.incdecHandler g cmd op) := by
  refine modifyHandler_lawful g deref cmd fun k o σ hl => ?_
  cases hn : op o cmd.value with
  | none => exact .chat true (.textUnlessNoReply σ cmd _)
  | some v => exact .store true hl (hop _ _ _ _ hn) (.textUnlessNoReply σ cmd _)

theorem touchHandler_lawful : Lawful g deref n (Text.touchHandler g cmd) := by
  intro k o σ
  unfold Text.touchHandler
  split_ifs
  · exact .done false
  · exact .one true (.touch cmd.exptime (.textUnlessNoReply _ cmd _))

theorem lockHandler_lawful : Lawful g deref n (Text.lockHandler g) := by
  intro k o σ
  unfold Text.lockHandler
  split_ifs with he hl
  · exact .done false
  · exact .chat true (.text σ _)
  · have hun := o.locked_eq_false.mp (Bool.eq_false_iff.mpr hl)
    rw [acquire_ok g k σ hun]
    exact .one true (.lock hun (.text _ _))

theorem unlockOneHandler_lawful : Lawful g deref n (Text.unlockOneHandler g deref) := by
  intro k o σ
  unfold Text.unlockOneHandler
  cases hs : o.lockedBySelf g.ctx with
  | false => exact .done false
  | true =>
    exact release_run g deref k σ ((o.lockedBySelf_eq_true g.ctx).mp hs) fun _ σ => .text σ _

theorem getHandler_lawful : Lawful g deref n (Text.getHandler g cmd) := by
  intro k o σ
  unfold Text.getHandler
  split_ifs with he hk
  · exact .done false
  · exact .fail (.keyLength hk)
  · exact .one true (.access (.text σ _))
  · exact .one true (.access (.text σ _))

end Text

end

end Handlers

/-! ## What a command does to the map -/

/-- The hash map and the session a command works on. -/
abbrev World := HashMap Object × Session

/-- One change of the world by a command; loud, if it changes what is stored under a key. -/
inductive Prim (g : Env) : Bool → World → World → Prop
  | chat {m : HashMap Object} {σ σ' : Session} (hc : Chat σ σ') : Prim g false (m, σ) (m, σ')
  | obj {l : Bool} {m : HashMap Object} {σ σ' : Session} {k : Key} {p : Cell Key Object} {o' : Object}
      (hp : m.find k = some p) (hs : HStep g m.deref (itemRef p) l (p.val, σ) (o', σ')) :
      Prim g l (m, σ) (m.write p.addr o', σ')
  | create {m : HashMap Object} {σ σ' : Session} {k : Key} {o : Object} (hk : m.find k = none)
      (hlen : k.length ≤ MAX_KEY_LENGTH) (hlock : o.lock = -1) (hcas : o.cas = 1)
      (hc : Chat (σ.repl (.set k o.data o.flags o.exptime)) σ') : Prim g true (m, σ) (m.push k o, σ')
  | remove {m : HashMap Object} {σ σ' : Session} {k : Key} {p : Cell Key Object} {l : List Nat}
      (hp : m.find k = some p) (hl : p.val.lockedByOther g.ctx = false)
      (hr : (p.val.lock = g.ctx ∧ removeLock m.deref k σ.locks = .ok l) ∨
        (p.val.lock ≠ g.ctx ∧ l = σ.locks))
      (hc : Chat (Session.repl { σ with locks := l } (.delete k)) σ') :
      Prim g true (m, σ) (m.erase p.addr, σ')
  | unlockAll {m m' : HashMap Object} {σ σ' : Session} (hu : unlockLoop g.ctx false m σ.locks = .ok m')
      (hc : Chat { σ with locks := [] } σ') : Prim g false (m, σ) (m', σ')
  | flush {m : HashMap Object} {σ σ' : Session} (t : Int) (hc : Chat { σ with flushTime := t } σ') :
      Prim g false (m, σ) (m, σ')

/-- The ways a command can throw. -/
inductive PrimFail (g : Env) : World → Err → Prop
  | removeLock {m : HashMap Object} {σ : Session} {k : Key} {p : Cell Key Object} {e : Err}
      (hp : m.find k = some p) (hl : p.val.lock = g.ctx)
      (hr : removeLock m.deref k σ.locks = .error e) : PrimFail g (m, σ) e
  | keyLength {m : HashMap Object} {σ : Session} {k : Key} {p : Cell Key Object}
      (hp : m.find k = some p) (hk : k.length > MAX_KEY_LENGTH) : PrimFail g (m, σ) .maxKeyLength
  | unlockAll {m : HashMap Object} {σ : Session} {e : Err}
      (hu : unlockLoop g.ctx false m σ.locks = .error e) : PrimFail g (m, σ) e

/-- A command's whole work: steps, of which at most one is loud (none, if `n` is false), or a failure
    after some of them. -/
inductive Effects (g : Env) : Bool → World → Except Err World → Prop
  | done {n : Bool} {w : World} : Effects g n w (.ok w)
  | quiet {n : Bool} {w w' : World} {r : Except Err World} (hs : Prim g false w w')
      (hr : Effects g n w' r) : Effects g n w r
  | loud {w w' : World} {r : Except Err World} (hs : Prim g true w w') (hr : Effects g false w' r) :
      Effects g true w r
  | fail {n : Bool} {w : World} {e : Err} (hf : PrimFail g w e) : Effects g n w (.error e)

namespace Effects

variable {g : Env} {n : Bool}

variable {w w' : World} {r : Except Err World}

theorem one (hs : Prim g false w w') : Effects g n w (.ok w') := .quiet hs .done

theorem chat {m : HashMap Object} {σ σ' : Session} (hc : Chat σ σ') :
    Effects g n (m, σ) (.ok (m, σ')) := .one (.chat hc)

theorem mono (h : Effects g false w r) : Effects g n w r := by
  generalize hx : false = x at h
  induction h with
  | done => exact .done
  | quiet hs _ ih => exact .quiet hs (ih hx)
  | loud => cases hx
  | fail hf => exact .fail hf

theorem trans (h : Effects g n w (.ok w')) (h' : Effects g false w' r) : Effects g n w r := by
  generalize hx : Except.ok w' = x at h
  induction h with
  | done => cases hx; exact h'.mono
  | quiet hs _ ih => exact .quiet hs (ih hx)
  | loud hs _ ih => exact .loud hs (ih hx)
  | fail _ => cases hx

/-- **Preservation**: what every step keeps, a command that succeeds keeps. -/
theorem preserves {P : World → Prop} (hprim : ∀ l w w', Prim g l w w' → P w → P w')
    (h : Effects g n w (.ok w')) (hw : P w) : P w' := by
  generalize hx : Except.ok w' = x at h
  induction h with
  | done => cases hx; exact hw
  | quiet hs _ ih => exact ih (hprim _ _ _ hs hw) hx
  | loud hs _ ih => exact ih (hprim _ _ _ hs hw) hx
  | fail _ => cases hx

/-- How a command fails, if the ways to fail are limited where `P` holds. -/
theorem error_of {P : World → Prop} {Q : Err → Prop} (hprim : ∀ l w w', Prim g l w w' → P w → P w')
    (hfail : ∀ w e, PrimFail g w e → P w → Q e) {e : Err} (h : Effects g n w (.error e)) (hw : P w) : Q e := by
  generalize hx : Except.error e = x at h
  induction h with
  | done => cases hx
  | quiet hs _ ih => exact ih (hprim _ _ _ hs hw) hx
  | loud hs _ ih => exact ih (hprim _ _ _ hs hw) hx
  | fail hf => cases hx; exact hfail _ _ hf hw

/-- **Totality**: if moreover no failure is possible where `P` holds, the command succeeds. -/
theorem total {P : World → Prop} (hprim : ∀ l w w', Prim g l w w' → P w → P w')
    (hfail : ∀ w e, PrimFail g w e → ¬ P w) (h : Effects g n w r) (hw : P w) : ∃ w', r = .ok w' ∧ P w' := by
  induction h with
  | done => exact ⟨_, rfl, hw⟩
  | quiet hs _ ih => exact ih (hprim _ _ _ hs hw)
  | loud hs _ ih => exact ih (hprim _ _ _ hs hw)
  | fail hf => exact absurd hw (hfail _ _ hf)

end Effects

/-- Effects that leave the flush time alone. -/
structure Calm (g : Env) (n : Bool) (w : World) (r : Except Err World) : Prop where
  effects : Effects g n w r
  flushTime : ∀ w', r = .ok w' → w'.2.flushTime = w.2.flushTime

namespace Calm

variable {g : Env} {n : Bool}

theorem chat {m : HashMap Object} {σ σ' : Session} (hc : Chat σ σ') : Calm g n (m, σ) (.ok (m, σ')) where
  effects := .chat hc
  flushTime := by
    rintro w' ⟨⟩
    exact hc.flushTime

variable {w : World} {r : Except Err World}

theorem fail {e : Err} (hf : PrimFail g w e) : Calm g n w (.error e) where
  effects := .fail hf
  flushTime := by
    intro w' h
    cases h

theorem mono (h : Calm g false w r) : Calm g n w r :=
  ⟨h.effects.mono, h.flushTime⟩

theorem trans {w' : World} (h : Calm g n w (.ok w')) (h' : Calm g false w' r) :
    Calm g n w r where
  effects := h.effects.trans h'.effects
  flushTime := fun w'' hr => (h'.flushTime w'' hr).trans (h.flushTime w' rfl)

/-- Talk, and then the rest. -/
theorem chat_trans {m : HashMap Object} {σ σ' : Session} (hc : Chat σ σ')
    (h : Calm g n (m, σ') r) : Calm g n (m, σ) r where
  effects := .quiet (.chat hc) h.effects
  flushTime := fun w hr => (h.flushTime w hr).trans hc.flushTime

end Calm

variable {m : HashMap Object} {key : Key} {h : Handler} {miss : Session → Session} {t : Int}

section Commands

variable (g : Env)

/-- `apply` writes back what the handler leaves of the object. -/
def writeBack (m : HashMap Object) (a : Nat) : Except Err (Bool × Object × Session) → Except Err World
  | .ok (_, o, σ) => .ok (m.write a o, σ)
  | .error e => .error e

/-- A lawful handler, run by `apply` on the object of `k`. -/
theorem hrun_effects {k : Key} {p : Cell Key Object} (hp : m.find k = some p)
    {o : Object} {σ : Session} {r : Except Err (Bool × Object × Session)}
    {n : Bool} (h : HRun g m.deref (itemRef p) n (o, σ) r) :
    Effects g n (m.write p.addr o, σ) (writeBack m p.addr r) := by
  -- a step of the handler, on the object as the step finds it
  have hobj : ∀ {l : Bool} {o1 o2 : Object} {σ1 σ2 : Session},
      HStep g m.deref (itemRef p) l (o1, σ1) (o2, σ2) →
      Prim g l (m.write p.addr o1, σ1) (m.write p.addr o2, σ2) := by
    intro l o1 o2 σ1 σ2 hs
    have hprim : Prim g l (m.write p.addr o1, σ1) ((m.write p.addr o1).write (p.put o1).addr o2, σ2) :=
      .obj (m.find_write_self hp o1) (by rw [Table.deref_write]; exact hs)
    rwa [Cell.put_addr, Table.write_write] at hprim
  generalize hx : (o, σ) = x at h
  induction h generalizing o σ with
  | done b => cases hx; exact .done
  | quiet hs _ ih => cases hx; exact .quiet (hobj hs) (ih rfl)
  | loud hs _ ih => cases hx; exact .loud (hobj hs) (ih rfl)
  | @fail _ o1 σ1 e hf =>
    cases hx
    have hfind := m.find_write_self hp o1
    have hkey : (itemRef p).key = k := m.find_key hp
    cases hf with
    | removeLock hl hr =>
      rw [hkey] at hr
      exact .fail (.removeLock hfind hl (by rw [Table.deref_write]; exact hr))
    | keyLength hk =>
      rw [hkey] at hk
      exact .fail (.keyLength hfind hk)

/-- What a creator must do: an unlocked new object, announced to the slaves. -/
def CreatorLawful (key : Key) (c : Creator) : Prop :=
  key.length ≤ MAX_KEY_LENGTH ∧ ∀ a σ, (c ⟨a, key⟩ σ).1.lock = -1 ∧ (c ⟨a, key⟩ σ).1.cas = 1 ∧
    Chat (σ.repl (.set key (c ⟨a, key⟩ σ).1.data (c ⟨a, key⟩ σ).1.flags (c ⟨a, key⟩ σ).1.exptime))
      (c ⟨a, key⟩ σ).2

theorem applyOr_found_calm {p : Cell Key Object} {n : Bool} (σ : Session) (hp : m.find key = some p)
    (hh : Lawful g m.deref n h) (c : Option Creator) (hmiss : ∀ σ, Chat σ (miss σ)) :
    Calm g n (m, σ) (applyOr m key h c miss σ) := by
  unfold applyOr
  rw [HashMap.apply_found hp]
  have hrun := hh (itemRef p) p.val σ
  have heff := hrun_effects g hp hrun
  rw [m.write_val hp] at heff
  cases hr : h (itemRef p) p.val σ with
  | error e =>
    rw [hr] at heff
    refine ⟨heff, fun w' h => ?_⟩
    cases h
  | ok res =>
    obtain ⟨b, o', σ'⟩ := res
    rw [hr] at heff hrun
    have hcalm : Calm g n (m, σ) (.ok (m.write p.addr o', σ')) := by
      refine ⟨heff, ?_⟩
      rintro w' ⟨⟩
      exact hrun.flushTime
    cases b with
    | true => exact hcalm
    | false => exact hcalm.trans (.chat (hmiss σ'))

/-- `apply`, and what is sent if it returns false. -/
theorem applyOr_calm {c : Option Creator} (σ : Session) (hh : Lawful g m.deref true h)
    (hc : ∀ c' ∈ c, CreatorLawful key c') (hmiss : ∀ σ, Chat σ (miss σ)) :
    Calm g true (m, σ) (applyOr m key h c miss σ) := by
  cases hp : m.find key with
  | some p => exact applyOr_found_calm g σ hp hh c hmiss
  | none =>
    unfold applyOr
    cases hcc : c with
    | none =>
      rw [HashMap.apply_absent hp]
      exact .chat (hmiss σ)
    | some c' =>
      rw [HashMap.apply_create hp]
      obtain ⟨hlen, hnew⟩ := hc c' (by rw [hcc]; rfl)
      obtain ⟨hlock, hcas, hchat⟩ := hnew m.newAddr σ
      refine ⟨.loud (.create hp hlen hlock hcas hchat) .done, ?_⟩
      rintro w' ⟨⟩
      exact hchat.flushTime

/-- `applyOr` without a creator. -/
theorem applyOr_calm' {n : Bool} (σ : Session) (hh : Lawful g m.deref n h)
    (hmiss : ∀ σ, Chat σ (miss σ)) : Calm g n (m, σ) (applyOr m key h none miss σ) := by
  cases hp : m.find key with
  | some p => exact applyOr_found_calm g σ hp hh none hmiss
  | none =>
    unfold applyOr
    rw [HashMap.apply_absent hp]
    exact .chat (hmiss σ)

/-- What the predicate of Delete must do. -/
inductive RemoveRun (g : Env) (deref : Nat → Option Key) (k : Key) (o : Object) (σ : Session) :
    Except Err (Bool × Object × Session) → Prop
  | refuse {σ' : Session} (hc : Chat σ σ') : RemoveRun g deref k o σ (.ok (false, o, σ'))
  | remove {σ' : Session} {o' : Object} {l : List Nat} (hl : o.lockedByOther g.ctx = false)
      (hr : (o.lock = g.ctx ∧ removeLock deref k σ.locks = .ok l) ∨ (o.lock ≠ g.ctx ∧ l = σ.locks))
      (hc : Chat (Session.repl { σ with locks := l } (.delete k)) σ') :
      RemoveRun g deref k o σ (.ok (true, o', σ'))
  | fail {e : Err} (hl : o.lock = g.ctx) (hr : removeLock deref k σ.locks = .error e) :
      RemoveRun g deref k o σ (.error e)

/-- `remove_if`, and what is sent if it returns false. -/
theorem removeOr_calm {pred : Key → Object → Session → Except Err (Bool × Object × Session)}
    (σ : Session) (hpred : ∀ o, RemoveRun g m.deref key o σ (pred key o σ))
    (hmiss : ∀ σ, Chat σ (miss σ)) : Calm g true (m, σ) (removeOr m key pred miss σ) := by
  unfold removeOr HashMap.removeIf
  cases hp : m.find key with
  | none => exact .chat (hmiss σ)
  | some p =>
    have hr := hpred p.val
    generalize hres : pred key p.val σ = res at hr
    cases hr with
    | refuse hc =>
      simp only [hres, m.write_val hp]
      exact .chat hc
    | remove hl hr hc =>
      simp only [hres]
      refine ⟨.loud (.remove hp hl hr hc) .done, ?_⟩
      rintro w' ⟨⟩
      exact hc.flushTime
    | fail hl hr =>
      simp only [hres]
      exact .fail (.removeLock hp hl hr)

theorem unlockAll_calm (m : HashMap Object) (σ : Session) (post : Session → Session)
    (hpost : ∀ σ, Chat σ (post σ)) :
    Calm g true (m, σ)
      (match unlockAll g m σ with
        | .ok (m', σ') => .ok (m', post σ')
        | .error e => .error e) := by
  unfold unlockAll
  cases hu : unlockLoop g.ctx false m σ.locks with
  | error e => exact .fail (.unlockAll hu)
  | ok m' =>
    refine ⟨.one (.unlockAll hu (hpost _)), ?_⟩
    rintro w' ⟨⟩
    exact (hpost { σ with locks := [] }).flushTime

/-- A `foreach` that only talks, and fails on a stored key that is too long at most. -/
theorem foreach_calm (m : HashMap Object) {pred : KeyRef → Object → Session → Except Err Session}
    (hpred : ∀ k o σ, (∃ σ', pred k o σ = .ok σ' ∧ Chat σ σ') ∨
      (pred k o σ = .error .maxKeyLength ∧ k.key.length > MAX_KEY_LENGTH))
    {post : Session → Session} (hpost : ∀ σ, Chat σ (post σ)) (σ : Session) :
    Calm g true (m, σ)
      (match HashMap.foreach m pred σ with
        | .ok σ' => .ok (m, post σ')
        | .error e => .error e) := by
  have hfold : ∀ (cs : List (Cell Key Object)), (∀ c ∈ cs, c ∈ m.cells) → ∀ σ,
      Calm g true (m, σ) (match (cs.foldlM (fun st c => pred (itemRef c) c.val st) σ) with
        | .ok σ' => .ok (m, post σ')
        | .error e => .error e) := by
    intro cs
    induction cs with
    | nil => intro _ σ; exact .chat (hpost σ)
    | cons c cs ih =>
      intro hmem σ
      rw [List.foldlM_cons]
      rcases hpred (itemRef c) c.val σ with ⟨σ', hok, hc⟩ | ⟨herr, hlen⟩
      · rw [hok]
        exact .chat_trans hc (ih (fun d hd => hmem d (List.mem_cons_of_mem _ hd)) σ')
      · rw [herr]
        exact .fail (.keyLength (m.mem_cells_iff.mp (hmem c List.mem_cons_self)) hlen)
  exact hfold m.cells (fun _ hc => hc) σ

section

variable (cmd : BinaryRequest)

theorem notFound_chat (σ : Session) : Chat σ (notFound cmd σ) := .bin σ cmd _

theorem getMiss_chat (σ : Session) : Chat σ (getMiss cmd σ) := by
  unfold getMiss
  split
  · exact .bin σ cmd _
  · exact .refl σ

theorem setCreator_lawful : CreatorLawful cmd.key (setCreator g cmd) :=
  ⟨cmd.key_le, fun _ σ => ⟨rfl, rfl, (Chat.binUnlessQuiet σ cmd _).repl _⟩⟩

theorem initialCreator_lawful : CreatorLawful cmd.key (initialCreator cmd) :=
  ⟨cmd.key_le, fun _ σ => ⟨rfl, rfl, (Chat.binUnlessQuiet σ cmd _).repl _⟩⟩

theorem sizeChecked_calm {σ : Session} {r : Except Err World}
    (h : Calm g true (m, σ) r) : Calm g true (m, σ) (sizeChecked g cmd m σ r) := by
  unfold sizeChecked
  split_ifs
  · exact .chat (.bin σ cmd _)
  · exact .chat (.bin σ cmd _)
  · exact h

theorem deletePred_run (deref : Nat → Option Key) (o : Object) (σ : Session) :
    RemoveRun g deref cmd.key o σ (deletePred g cmd deref cmd.key o σ) := by
  unfold deletePred
  cases hl : o.lockedByOther g.ctx with
  | true => exact .refuse (.bin σ cmd _)
  | false =>
    rw [if_neg Bool.false_ne_true]
    split_ifs with hcas hs
    · exact .refuse (.bin σ cmd _)
    · have hlock := (o.lockedBySelf_eq_true g.ctx).mp hs
      cases hr : removeLock deref cmd.key σ.locks with
      | ok l => exact .remove hl (.inl ⟨hlock, hr⟩) ((Chat.binUnlessQuiet _ cmd _).repl _)
      | error e => exact .fail hlock hr
    · have hlock : o.lock ≠ g.ctx := fun h => hs ((o.lockedBySelf_eq_true g.ctx).mpr h)
      exact .remove hl (.inr ⟨hlock, rfl⟩) ((Chat.binUnlessQuiet _ cmd _).repl _)

theorem keysPred_chat (k : KeyRef) (o : Object) (σ : Session) :
    ∃ σ', keysPred g cmd k o σ = .ok σ' ∧ Chat σ σ' := by
  unfold keysPred
  split_ifs
  · exact ⟨σ, rfl, .refl σ⟩
  · exact ⟨_, rfl, .bin σ cmd _⟩
  · exact ⟨σ, rfl, .refl σ⟩

/-- The time a binary request asks to flush at. -/
def BinaryRequest.flushTo : Option Int :=
  if cmd.status = .OK ∧ (cmd.command = .Flush ∨ cmd.command = .FlushQ) then some cmd.exptime else none

/-- **Every binary command but the flushes is made of the steps above**, and leaves the flush time. -/
theorem cmdBin_calm (m : HashMap Object) (σ : Session) (hf : cmd.flushTo = none) :
    Calm g true (m, σ) (cmdBin g cmd m σ) := by
  unfold cmdBin
  by_cases hst : cmd.status = .OK
  case neg => rw [if_pos hst]; exact .chat (.bin σ cmd _)
  rw [if_neg (not_not.mpr hst)]
  have hset : ∀ c, c = none ∨ c = some (setCreator g cmd) →
      Calm g true (m, σ) (applyOr m cmd.key (setHandler g cmd) c (notFound cmd) σ) := by
    rintro c (rfl | rfl)
    · exact applyOr_calm' g σ (setHandler_lawful g _ cmd) (notFound_chat cmd)
    · refine applyOr_calm g σ (setHandler_lawful g _ cmd) ?_ (notFound_chat cmd)
      rintro c ⟨⟩
      exact setCreator_lawful g cmd
  have hincdec : ∀ op, (∀ o n v o', op o n = some (v, o') → o'.cas = o.cas + 1 ∧ o'.lock = o.lock) →
      Calm g true (m, σ) (applyOr m cmd.key (incdecHandler g cmd op)
        (if cmd.exptime ≠ EXPTIME_NONE then some (initialCreator cmd) else none) (notFound cmd) σ) := by
    intro op hop
    refine applyOr_calm g σ (incdecHandler_lawful g _ cmd hop) ?_ (notFound_chat cmd)
    intro c hc
    split_ifs at hc
    · cases hc
      exact initialCreator_lawful cmd
    · cases hc
  cases hcmd : cmd.command with
  | Get | GetQ | GetK | GetKQ | GaT | GaTQ | GaTK | GaTKQ | LaG | LaGQ | LaGK | LaGKQ =>
    exact applyOr_calm' g σ (getHandler_lawful g _ cmd) (getMiss_chat cmd)
  | Set | SetQ | Add | AddQ =>
    refine sizeChecked_calm g cmd (hset _ ?_)
    split_ifs
    · exact .inr rfl
    · exact .inl rfl
  | Replace | ReplaceQ => exact sizeChecked_calm g cmd (hset _ (.inl rfl))
  | RaU | RaUQ =>
    exact sizeChecked_calm g cmd (applyOr_calm' g σ (rauHandler_lawful g _ cmd) (notFound_chat cmd))
  | Append | AppendQ =>
    exact applyOr_calm' g σ (concatHandler_lawful g _ cmd Object.append_cas_lock) (notFound_chat cmd)
  | Prepend | PrependQ =>
    exact applyOr_calm' g σ (concatHandler_lawful g _ cmd Object.prepend_cas_lock) (notFound_chat cmd)
  | Delete | DeleteQ =>
    exact removeOr_calm g σ (fun o => deletePred_run g cmd _ o σ) fun σ => .binUnlessQuiet σ cmd _
  | Increment | IncrementQ => exact hincdec _ fun _ _ _ _ => Object.renumber_cas_lock
  | Decrement | DecrementQ => exact hincdec _ fun _ _ _ _ => Object.renumber_cas_lock
  | Touch => exact applyOr_calm' g σ (touchHandler_lawful g _ cmd) (notFound_chat cmd)
  | Lock | LockQ => exact applyOr_calm' g σ (lockHandler_lawful g _ cmd) (notFound_chat cmd)
  | Unlock | UnlockQ => exact applyOr_calm' g σ (unlockOneHandler_lawful g _ cmd) (notFound_chat cmd)
  | UnlockAll | UnlockAllQ => exact unlockAll_calm g m σ _ fun σ => .binUnlessQuiet σ cmd _
  | Quit | QuitQ =>
    refine unlockAll_calm g m σ (fun σ => { σ.binUnlessQuiet cmd .quit with closing := true }) ?_
    exact fun σ => (Chat.binUnlessQuiet σ cmd _).trans ⟨rfl, rfl, rfl, rfl, fun _ => rfl⟩
  | Flush | FlushQ =>
    unfold BinaryRequest.flushTo at hf
    simp [hst, hcmd] at hf
  | Noop | Version | Stat | Unknown | raw _ => exact .chat (.bin σ cmd _)
  | Keys =>
    exact foreach_calm g m (fun k o σ => .inl (keysPred_chat g cmd k o σ)) (fun σ => .bin σ cmd _) σ

/-- A flush request sets the flush time, and does nothing else. -/
theorem cmdBin_flush (m : HashMap Object) (σ : Session) (hf : cmd.flushTo = some t) :
    cmdBin g cmd m σ = .ok (m, Session.binUnlessQuiet { σ with flushTime := t } cmd .success) := by
  unfold BinaryRequest.flushTo at hf
  split_ifs at hf with h
  obtain ⟨hst, hcmd⟩ := h
  rw [Option.some.injEq] at hf
  unfold cmdBin
  rw [if_neg (not_not.mpr hst), ← hf]
  rcases hcmd with hc | hc <;> rw [hc]

end

section

variable (cmd : TextRequest)

namespace Text

theorem setCreator_lawful (hk : cmd.key.length ≤ MAX_KEY_LENGTH) :
    CreatorLawful cmd.key (Text.setCreator g cmd) :=
  ⟨hk, fun _ σ => ⟨rfl, rfl, (Chat.textUnlessNoReply σ cmd _).repl _⟩⟩

theorem deletePred_run (deref : Nat → Option Key) (o : Object) (σ : Session) :
    RemoveRun g deref cmd.key o σ (Text.deletePred g cmd deref cmd.key o σ) := by
  unfold Text.deletePred
  cases hl : o.lockedByOther g.ctx with
  | true => exact .refuse (.textUnlessNoReply σ cmd _)
  | false =>
    rw [if_neg Bool.false_ne_true]
    split_ifs with hs
    · have hlock := (o.lockedBySelf_eq_true g.ctx).mp hs
      cases hr : removeLock deref cmd.key σ.locks with
      | ok l => exact .remove hl (.inl ⟨hlock, hr⟩) ((Chat.textUnlessNoReply _ cmd _).repl _)
      | error e => exact .fail hlock hr
    · have hlock : o.lock ≠ g.ctx := fun h => hs ((o.lockedBySelf_eq_true g.ctx).mpr h)
      exact .remove hl (.inr ⟨hlock, rfl⟩) ((Chat.textUnlessNoReply _ cmd _).repl _)

theorem keysPred_chat (k : KeyRef) (o : Object) (σ : Session) :
    (∃ σ', Text.keysPred g cmd k o σ = .ok σ' ∧ Chat σ σ') ∨
      (Text.keysPred g cmd k o σ = .error .maxKeyLength ∧ k.key.length > MAX_KEY_LENGTH) := by
  unfold Text.keysPred
  split_ifs with he hp hk
  · exact .inl ⟨σ, rfl, .refl σ⟩
  · exact .inr ⟨rfl, hk⟩
  · exact .inl ⟨_, rfl, .text σ _⟩
  · exact .inl ⟨σ, rfl, .refl σ⟩

/-- The loop of a multi-key get: one handler after another, by induction on the keys. -/
theorem getLoop_calm {post : Session → Session} (hpost : ∀ σ, Chat σ (post σ)) (ks : List Key) :
    ∀ (m : HashMap Object) (σ : Session),
      Calm g false (m, σ) (match getLoop g cmd ks m σ with
        | .ok (m', σ') => .ok (m', post σ')
        | .error e => .error e) := by
  induction ks with
  | nil => intro m σ; exact .chat (hpost σ)
  | cons k ks ih =>
    intro m σ
    have hone : Calm g false (m, σ) (applyOr m k (Text.getHandler g cmd) none id σ) :=
      applyOr_calm' g σ (Text.getHandler_lawful g _ cmd) fun σ => .refl σ
    unfold applyOr at hone
    rw [getLoop]
    cases ha : HashMap.apply m k (some (Text.getHandler g cmd)) none σ with
    | error e => rw [ha] at hone; exact hone
    | ok res =>
      obtain ⟨b, m', σ'⟩ := res
      rw [ha] at hone
      cases b with
      | true => exact hone.trans (ih m' σ')
      | false => exact hone.trans (ih m' σ')

end Text

/-- The time a text request asks to flush at. -/
def TextRequest.flushTo : Option Int :=
  if cmd.valid = true ∧ cmd.command = .FLUSH_ALL then some cmd.exptime else none

/-- **Every text command but the flush is made of the steps above**, and leaves the flush time. -/
theorem cmdText_calm (m : HashMap Object) (σ : Session) (hf : cmd.flushTo = none) :
    Calm g true (m, σ) (cmdText g cmd m σ) := by
  have hquiet : ∀ r (σ : Session), Chat σ (σ.textUnlessNoReply cmd r) :=
    fun r σ => .textUnlessNoReply σ cmd r
  unfold cmdText
  cases hv : cmd.valid with
  | false => exact .chat (.text σ _)
  | true =>
    rw [if_neg (by decide)]
    have hset : Calm g true (m, σ) (if cmd.key.length > MAX_KEY_LENGTH then .ok (m, σ.text .ERROR)
        else if cmd.data.length > g.config.maxDataSize then .ok (m, σ.text .ERROR)
        else applyOr m cmd.key (Text.setHandler g cmd)
          (if cmd.command ≠ .REPLACE then some (Text.setCreator g cmd) else none)
          (fun σ => σ.textUnlessNoReply cmd .NOT_STORED) σ) := by
      split_ifs with hk hd hr
      · exact .chat (.text σ _)
      · exact .chat (.text σ _)
      · refine applyOr_calm g σ (Text.setHandler_lawful g _ cmd) ?_ (hquiet _)
        rintro c ⟨⟩
        exact Text.setCreator_lawful g cmd (Nat.not_lt.mp hk)
      · exact applyOr_calm' g σ (Text.setHandler_lawful g _ cmd) (hquiet _)
    cases hcmd : cmd.command with
    | SET | ADD | REPLACE => rw [hcmd] at hset; exact hset
    | APPEND =>
      exact applyOr_calm' g σ (Text.concatHandler_lawful g _ cmd Object.append_cas_lock) (hquiet _)
    | PREPEND =>
      exact applyOr_calm' g σ (Text.concatHandler_lawful g _ cmd Object.prepend_cas_lock) (hquiet _)
    | CAS => exact applyOr_calm' g σ (Text.casHandler_lawful g _ cmd) (hquiet _)
    | INCR | DECR =>
      exact applyOr_calm' g σ
        (Text.incdecHandler_lawful g _ cmd fun _ _ _ _ => Object.renumber_cas_lock) (hquiet _)
    | TOUCH => exact applyOr_calm' g σ (Text.touchHandler_lawful g _ cmd) (hquiet _)
    | DELETE => exact removeOr_calm g σ (fun o => Text.deletePred_run g cmd _ o σ) (hquiet _)
    | LOCK => exact applyOr_calm' g σ (Text.lockHandler_lawful g _) fun σ => .text σ _
    | UNLOCK => exact applyOr_calm' g σ (Text.unlockOneHandler_lawful g _) fun σ => .text σ _
    | UNLOCK_ALL => exact unlockAll_calm g m σ _ fun σ => .text σ _
    | GET | GETS => exact (Text.getLoop_calm g cmd (fun σ => .text σ _) cmd.keys m σ).mono
    | KEYS => exact foreach_calm g m (Text.keysPred_chat g cmd) (fun σ => .text σ _) σ
    | SLABS | VERSION | UNKNOWN => exact .chat (.text σ _)
    | STATS => exact .chat ((Chat.text σ _).trans (.text _ _))
    | FLUSH_ALL =>
      unfold TextRequest.flushTo at hf
      rw [if_pos ⟨hv, hcmd⟩] at hf
      cases hf
    | VERBOSITY =>
      have hverb : Chat σ { σ with verbosity := cmd.verbosity } := ⟨rfl, rfl, rfl, rfl, id⟩
      exact .chat (hverb.trans (.textUnlessNoReply _ cmd _))
    | QUIT =>
      exact unlockAll_calm g m σ (fun σ => { σ with closing := true })
        fun _ => ⟨rfl, rfl, rfl, rfl, fun _ => rfl⟩

/-- FLUSH_ALL sets the flush time, and does nothing else. -/
theorem cmdText_flush (m : HashMap Object) (σ : Session) (hf : cmd.flushTo = some t) :
    cmdText g cmd m σ = .ok (m, Session.textUnlessNoReply { σ with flushTime := t } cmd .OK) := by
  unfold TextRequest.flushTo at hf
  split_ifs at hf with h
  obtain ⟨hv, hc⟩ := h
  rw [Option.some.injEq] at hf
  unfold cmdText
  rw [if_neg (by rw [hv]; decide), ← hf, hc]

end

/-- The time a request asks to flush at, if it does. -/
def Cmd.flushTo : Cmd → Option Int
  | .bin r => r.flushTo
  | .text r => r.flushTo

/-- **Every request but a flush** takes primitive steps only. -/
theorem exec_calm {c : Cmd} (hf : c.flushTo = none) (m : HashMap Object) (σ : Session) :
    Calm g true (m, σ) (c.exec g m σ) := by
  cases c with
  | bin r => exact cmdBin_calm g r m σ hf
  | text r => exact cmdText_calm g r m σ hf

/-- **A flush** sets the flush time, and talks. -/
theorem exec_flush {c : Cmd} (hf : c.flushTo = some t) (m : HashMap Object) (σ : Session) :
    ∃ σ', c.exec g m σ = .ok (m, σ') ∧ Chat { σ with flushTime := t } σ' := by
  cases c with
  | bin r => exact ⟨_, cmdBin_flush g r m σ hf, .binUnlessQuiet _ r _⟩
  | text r => exact ⟨_, cmdText_flush g r m σ hf, .textUnlessNoReply _ r _⟩

/-- **Every command is made of the steps of `Prim`.** -/
theorem exec_effects (c : Cmd) (m : HashMap Object) (σ : Session) :
    Effects g true (m, σ) (c.exec g m σ) := by
  cases hf : c.flushTo with
  | none => exact (exec_calm g hf m σ).effects
  | some t =>
    obtain ⟨σ', heq, hchat⟩ := exec_flush g hf m σ
    rw [heq]
    exact .one (.flush t hchat)

end Commands

end Yrmcds.Memcache
