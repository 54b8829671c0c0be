/-
  Memcache connections: the commands of the binary and of the text protocol
  (src/memcache/sockets.hpp, src/memcache/sockets.cpp), and the replication messages they send
  (src/memcache/replication.cpp).

  A command works on the hash map and on a `Session`: what the connection and the globals look like
  while it runs.  `m_locks` is the list of the ADDRESSES of the locked items (`reference_wrapper`s to
  their keys), so `remove_lock`, which compares keys by value, reads through them (`deref`).

  Handlers, creators and predicates have the shape `hash_map` calls them with; each is written in the
  order of tests the source has, and the members of a family share one definition.  `m_slaves` is the
  connection's own copy of the list of slaves; a message goes to the slaves on it, once, and only if
  there are any.
-/
import Yrmcds.Memcache.Object
import Yrmcds.Memcache.Protocol

namespace Yrmcds.Memcache

open ChainTable

/-- The members of `g_config` that commands read. -/
structure Config where
  maxDataSize : Nat
  heapDataLimit : Nat

/-- What a command reads besides its session: the configuration, the lock context `g_context` and the
    clock `g_current_time`. -/
structure Env where
  config : Config
  ctx : Int
  now : Int

/-- A replication message: `repl_object`, `repl_touch`, `repl_delete`. -/
inductive ReplMsg where
  | set (key : Key) (data : Bytes) (flags : UInt32) (exptime : Int)
  | touch (key : Key) (exptime : Int)
  | delete (key : Key)
deriving DecidableEq, Repr

/-- The messages sent so far, each with the slaves it went to. -/
abbrev Log := List (List Nat × ReplMsg)

/-- `if( ! slaves.empty() ) repl_ ...(slaves, ...)` -/
def sendTo (slaves : List Nat) (msg : ReplMsg) (log : Log) : Log :=
  if slaves.isEmpty then log else log ++ [(slaves, msg)]

/-- What a command changes besides the hash map: of the connection, its locks, the replies handed to the
    socket and whether the socket is closed; of the globals, the messages sent to slaves, `flush_time` and
    the log threshold.  What becomes of the replies is said by `Conn.delivered`. -/
structure Session where
  locks : List Nat := []
  slaves : List Nat := []
  out : List Reply := []
  closing : Bool := false
  log : Log := []
  flushTime : Int := 0
  verbosity : Severity := .info

/-- A handler that `cmd_bin` or `cmd_text` passes to `apply`. -/
abbrev Handler := HashMap.Handler Object Session Err

/-- ... and a creator. -/
abbrev Creator := HashMap.Creator Object Session

namespace Session

/-- A call of `tcp_socket::send` or `sendv`. -/
def send (σ : Session) (r : Reply) : Session := { σ with out := σ.out ++ [r] }

/-- A packet of `binary_response`. -/
def bin (σ : Session) (cmd : BinaryRequest) (body : BinaryBody) : Session :=
  σ.send (.binary ⟨cmd.command.toByte, cmd.opaqueBytes, body⟩)

/-- `if( ! cmd.quiet() ) r. ...` -/
def binUnlessQuiet (σ : Session) (cmd : BinaryRequest) (body : BinaryBody) : Session :=
  if cmd.quiet then σ else σ.bin cmd body

/-- A line of `text_response`. -/
def text (σ : Session) (r : TextReply) : Session := σ.send (.text r)

/-- `if( ! cmd.no_reply() ) r. ...` -/
def textUnlessNoReply (σ : Session) (cmd : TextRequest) (r : TextReply) : Session :=
  if cmd.noReply then σ else σ.text r

/-- Send a message to `m_slaves`. -/
def repl (σ : Session) (msg : ReplMsg) : Session := { σ with log := sendTo σ.slaves msg σ.log }

/-- `repl_object`. -/
def replObject (σ : Session) (k : Key) (o : Object) : Session := σ.repl (.set k o.data o.flags o.exptime)

/-- `repl_touch`. -/
def replTouch (σ : Session) (k : Key) (o : Object) : Session := σ.repl (.touch k o.exptime)

/-- `repl_delete`. -/
def replDelete (σ : Session) (k : Key) : Session := σ.repl (.delete k)

/-- `add_lock`. -/
def addLock (σ : Session) (k : KeyRef) : Session := { σ with locks := σ.locks ++ [k.addr] }

end Session

/-- The loop of `remove_lock`. -/
def removeLock (deref : Nat → Option Key) (k : Key) : List Nat → Except Err (List Nat)
  | [] => .error .removeLockBug
  | a :: l =>
    match deref a with
    | none => .error .danglingKey
    | some k' =>
      if k' = k then .ok l
      else
        match removeLock deref k l with
        | .ok l' => .ok (a :: l')
        | .error e => .error e

/-- The handler of `unlock_all` (`force` is false) and of the destructor (`force` is true). -/
def unlockHandler (ctx : Int) (force : Bool) : HashMap.Handler Object Unit Err := fun _ obj u =>
  match obj.unlock ctx force with
  | .ok obj' => .ok (true, obj', u)
  | .error e => .error e

/-- The loop of `unlock_all` and of the destructor. -/
def unlockLoop (ctx : Int) (force : Bool) : HashMap Object → List Nat → Except Err (HashMap Object)
  | m, [] => .ok m
  | m, a :: l =>
    match m.deref a with
    | none => .error .danglingKey
    | some key =>
      match HashMap.apply m key (some (unlockHandler ctx force)) none () with
      | .ok (_, m', _) => unlockLoop ctx force m' l
      | .error e => .error e

/-- `unlock_all`. -/
def unlockAll (g : Env) (m : HashMap Object) (σ : Session) : Except Err (HashMap Object × Session) :=
  match unlockLoop g.ctx false m σ.locks with
  | .ok m' => .ok (m', { σ with locks := [] })
  | .error e => .error e

/-- `m_hash.apply(key, h, c)`, and `miss` when it returns false. -/
def applyOr (m : HashMap Object) (key : Key) (h : Handler) (c : Option Creator) (miss : Session → Session)
    (σ : Session) : Except Err (HashMap Object × Session) :=
  match HashMap.apply m key (some h) c σ with
  | .ok (true, m', σ') => .ok (m', σ')
  | .ok (false, m', σ') => .ok (m', miss σ')
  | .error e => .error e

/-- `m_hash.remove_if(key, pred)`, and `miss` when it returns false. -/
def removeOr (m : HashMap Object) (key : Key)
    (pred : Key → Object → Session → Except Err (Bool × Object × Session)) (miss : Session → Session)
    (σ : Session) : Except Err (HashMap Object × Session) :=
  match HashMap.removeIf m key pred σ with
  | .ok (true, m', σ') => .ok (m', σ')
  | .ok (false, m', σ') => .ok (m', miss σ')
  | .error e => .error e

/-- `obj.unlock(); remove_lock(k);` -/
def release (g : Env) (deref : Nat → Option Key) (k : Key) (obj : Object) (σ : Session) :
    Except Err (Object × Session) :=
  match obj.unlock g.ctx false with
  | .error e => .error e
  | .ok obj' =>
    match removeLock deref k σ.locks with
    | .error e => .error e
    | .ok l => .ok (obj', { σ with locks := l })

/-- `obj.lock(); add_lock(k);` -/
def acquire (g : Env) (k : KeyRef) (obj : Object) (σ : Session) : Except Err (Object × Session) :=
  match obj.lockIt g.ctx with
  | .error e => .error e
  | .ok obj' => .ok (obj', σ.addLock k)

/-! ## Binary commands -/

section Binary

variable (g : Env) (cmd : BinaryRequest)

/-- `k` is sent back by the commands with a K in their name. -/
def getReply (k : KeyRef) (obj : Object) : BinaryBody :=
  match cmd.command with
  | .Get | .GetQ | .GaT | .GaTQ | .LaG | .LaGQ => .get obj.flags obj.data obj.cas none
  | _ => .get obj.flags obj.data obj.cas (some k.key)

/-- The handler of the get family, after the locking of the LaG commands. -/
def getBody (k : KeyRef) (obj : Object) (σ : Session) : Bool × Object × Session :=
  if obj.expired g.now σ.flushTime then (false, obj, σ)
  else if cmd.exptime ≠ EXPTIME_NONE then
    let obj' := obj.touch cmd.exptime
    (true, obj'.accessed, (σ.replTouch k.key obj').bin cmd (getReply cmd k obj'))
  else (true, obj.accessed, σ.bin cmd (getReply cmd k obj))

/-- Get, GaT and LaG, with their K and Q variants. -/
def getHandler : Handler := fun k obj σ =>
  if cmd.command.isLaG then
    if obj.locked then .ok (true, obj, σ.bin cmd (.error .Locked))
    else
      match acquire g k obj σ with
      | .ok (obj', σ') => .ok (getBody g cmd k obj' σ')
      | .error e => .error e
  else .ok (getBody g cmd k obj σ)

/-- The reply of the get family to `apply` returning false. -/
def getMiss (σ : Session) : Session :=
  if ! cmd.quiet || cmd.command == .LaGQ then σ.bin cmd (.error .NotFound) else σ

/-- Store the request's data in an existing object, and say so. -/
def setStore (k : KeyRef) (obj : Object) (σ : Session) : Bool × Object × Session :=
  let obj' := obj.set g.config.heapDataLimit cmd.data cmd.flags cmd.exptime
  (true, obj', (σ.binUnlessQuiet cmd (.set obj'.cas)).replObject k.key obj')

/-- The cas check of the binary commands, then `body`. -/
def casCheck (body : KeyRef → Object → Session → Bool × Object × Session) (k : KeyRef) (obj : Object)
    (σ : Session) : Bool × Object × Session :=
  if cmd.casUnique ≠ 0 ∧ cmd.casUnique ≠ obj.cas then (true, obj, σ.bin cmd (.error .Exists))
  else body k obj σ

/-- Set, Add, Replace. -/
def setHandler : Handler := fun k obj σ =>
  if obj.lockedByOther g.ctx then .ok (true, obj, σ.bin cmd (.error .Locked))
  else if obj.expired g.now σ.flushTime then
    if cmd.casUnique ≠ 0 ∨ cmd.command = .Replace ∨ cmd.command = .ReplaceQ then
      .ok (true, obj, σ.bin cmd (.error .NotFound))
    else .ok (casCheck cmd (setStore g cmd) k obj σ)
  else if cmd.command = .Add ∨ cmd.command = .AddQ then .ok (true, obj, σ.bin cmd (.error .Exists))
  else .ok (casCheck cmd (setStore g cmd) k obj σ)

/-- Set and Add of a key that is not there. -/
def setCreator : Creator := fun k σ =>
  let o := Object.new g.config.heapDataLimit cmd.data cmd.flags cmd.exptime
  (o, (σ.binUnlessQuiet cmd (.set o.cas)).replObject k.key o)

/-- RaU (replace and unlock). -/
def rauHandler (deref : Nat → Option Key) : Handler := fun k obj σ =>
  if ! obj.lockedBySelf g.ctx then .ok (true, obj, σ.bin cmd (.error .NotLocked))
  else if cmd.casUnique ≠ 0 ∧ cmd.casUnique ≠ obj.cas then .ok (true, obj, σ.bin cmd (.error .Exists))
  else
    match release g deref k.key (obj.set g.config.heapDataLimit cmd.data cmd.flags cmd.exptime) σ with
    | .ok (obj', σ') => .ok (true, obj', (σ'.binUnlessQuiet cmd (.set obj'.cas)).replObject k.key obj')
    | .error e => .error e

/-- Append, Prepend, Increment and Decrement test the lock, the expiration and the cas value, in this
    order. -/
def modifyHandler (body : KeyRef → Object → Session → Bool × Object × Session) : Handler :=
  fun k obj σ =>
    if obj.lockedByOther g.ctx then .ok (true, obj, σ.bin cmd (.error .Locked))
    else if obj.expired g.now σ.flushTime then .ok (false, obj, σ)
    else .ok (casCheck cmd body k obj σ)

/-- Append and Prepend, by the operation. -/
def concatHandler (op : Nat → Object → Bytes → Object) : Handler :=
  modifyHandler g cmd fun k obj σ =>
    let obj' := op g.config.heapDataLimit obj cmd.data
    (true, obj', (σ.binUnlessQuiet cmd (.set obj'.cas)).replObject k.key obj')

/-- Append. -/
def appendHandler : Handler := concatHandler g cmd Object.append

/-- Prepend. -/
def prependHandler : Handler := concatHandler g cmd Object.prepend

/-- Increment and Decrement, by the operation. -/
def incdecHandler (op : Object → UInt64 → Option (UInt64 × Object)) : Handler :=
  modifyHandler g cmd fun k obj σ =>
    match op obj cmd.value with
    | some (n, obj') => (true, obj', (σ.binUnlessQuiet cmd (.incdec n obj'.cas)).replObject k.key obj')
    | none => (true, obj, σ.bin cmd (.error .NonNumeric))

/-- Increment. -/
def incrementHandler : Handler := incdecHandler g cmd Object.incr

/-- Decrement. -/
def decrementHandler : Handler := incdecHandler g cmd Object.decr

/-- The creator of Increment and Decrement. -/
def initialCreator : Creator := fun k σ =>
  let o := Object.ofInitial cmd.initial cmd.exptime
  (o, (σ.binUnlessQuiet cmd (.incdec cmd.initial o.cas)).replObject k.key o)

/-- Delete.  It does not ask whether the object has expired. -/
def deletePred (deref : Nat → Option Key) (k : Key) (obj : Object) (σ : Session) :
    Except Err (Bool × Object × Session) :=
  if obj.lockedByOther g.ctx then .ok (false, obj, σ.bin cmd (.error .Locked))
  else if cmd.casUnique ≠ 0 ∧ cmd.casUnique ≠ obj.cas then .ok (false, obj, σ.bin cmd (.error .Exists))
  else if obj.lockedBySelf g.ctx then
    match removeLock deref k σ.locks with
    | .ok l => .ok (true, obj, (Session.binUnlessQuiet { σ with locks := l } cmd .success).replDelete k)
    | .error e => .error e
  else .ok (true, obj, (σ.binUnlessQuiet cmd .success).replDelete k)

/-- Touch.  It does not ask whether the object is locked. -/
def touchHandler : Handler := fun k obj σ =>
  if obj.expired g.now σ.flushTime then .ok (false, obj, σ)
  else
    let obj' := obj.touch cmd.exptime
    .ok (true, obj', (σ.replTouch k.key obj').bin cmd (.set obj'.cas))

/-- Lock.  An object that has expired is not there. -/
def lockHandler : Handler := fun k obj σ =>
  if obj.expired g.now σ.flushTime then .ok (false, obj, σ)
  else if obj.locked then .ok (true, obj, σ.bin cmd (.error .Locked))
  else
    match acquire g k obj σ with
    | .ok (obj', σ') => .ok (true, obj', σ'.binUnlessQuiet cmd .success)
    | .error e => .error e

/-- Unlock. -/
def unlockOneHandler (deref : Nat → Option Key) : Handler := fun k obj σ =>
  if ! obj.lockedBySelf g.ctx then .ok (true, obj, σ.bin cmd (.error .NotLocked))
  else
    match release g deref k.key obj σ with
    | .ok (obj', σ') => .ok (true, obj', σ'.binUnlessQuiet cmd .success)
    | .error e => .error e

/-- The predicate of Keys; `len == 0` is the empty prefix. -/
def keysPred (k : KeyRef) (obj : Object) (σ : Session) : Except Err Session :=
  if obj.expired g.now σ.flushTime then .ok σ
  else if cmd.key.isPrefixOf k.key then .ok (σ.bin cmd (.key k.key))
  else .ok σ

/-- `r.error( binary_status::NotFound )`. -/
def notFound (σ : Session) : Session := σ.bin cmd (.error .NotFound)

/-- The length checks of the commands that store the request's data. -/
def sizeChecked (m : HashMap Object) (σ : Session) (k : Except Err (HashMap Object × Session)) :
    Except Err (HashMap Object × Session) :=
  if cmd.key.length > MAX_KEY_LENGTH then .ok (m, σ.bin cmd (.error .Invalid))
  else if cmd.data.length > g.config.maxDataSize then .ok (m, σ.bin cmd (.error .TooLargeValue))
  else k

/-- `memcache_socket::cmd_bin`. -/
def cmdBin (m : HashMap Object) (σ : Session) : Except Err (HashMap Object × Session) :=
  if cmd.status ≠ .OK then .ok (m, σ.bin cmd (.error cmd.status))
  else
    match cmd.command with
    | .Get | .GetQ | .GetK | .GetKQ | .GaT | .GaTQ | .GaTK | .GaTKQ | .LaG | .LaGQ | .LaGK | .LaGKQ =>
      applyOr m cmd.key (getHandler g cmd) none (getMiss cmd) σ
    | .Set | .SetQ | .Add | .AddQ =>
      sizeChecked g cmd m σ (applyOr m cmd.key (setHandler g cmd)
        (if cmd.casUnique = 0 then some (setCreator g cmd) else none) (notFound cmd) σ)
    | .Replace | .ReplaceQ =>
      sizeChecked g cmd m σ (applyOr m cmd.key (setHandler g cmd) none (notFound cmd) σ)
    | .RaU | .RaUQ =>
      sizeChecked g cmd m σ (applyOr m cmd.key (rauHandler g cmd m.deref) none (notFound cmd) σ)
    | .Append | .AppendQ => applyOr m cmd.key (appendHandler g cmd) none (notFound cmd) σ
    | .Prepend | .PrependQ => applyOr m cmd.key (prependHandler g cmd) none (notFound cmd) σ
    | .Delete | .DeleteQ =>
      removeOr m cmd.key (deletePred g cmd m.deref)
        (fun σ => σ.binUnlessQuiet cmd (.error .NotFound)) σ
    | .Increment | .IncrementQ =>
      applyOr m cmd.key (incrementHandler g cmd)
        (if cmd.exptime ≠ EXPTIME_NONE then some (initialCreator cmd) else none) (notFound cmd) σ
    | .Decrement | .DecrementQ =>
      applyOr m cmd.key (decrementHandler g cmd)
        (if cmd.exptime ≠ EXPTIME_NONE then some (initialCreator cmd) else none) (notFound cmd) σ
    | .Touch => applyOr m cmd.key (touchHandler g cmd) none (notFound cmd) σ
    | .Lock | .LockQ => applyOr m cmd.key (lockHandler g cmd) none (notFound cmd) σ
    | .Unlock | .UnlockQ => applyOr m cmd.key (unlockOneHandler g cmd m.deref) none (notFound cmd) σ
    | .UnlockAll | .UnlockAllQ =>
      match unlockAll g m σ with
      | .ok (m', σ') => .ok (m', σ'.binUnlessQuiet cmd .success)
      | .error e => .error e
    | .Quit | .QuitQ =>
      match unlockAll g m σ with
      | .ok (m', σ') => .ok (m', { σ'.binUnlessQuiet cmd .quit with closing := true })
      | .error e => .error e
    | .Flush | .FlushQ => .ok (m, Session.binUnlessQuiet { σ with flushTime := cmd.exptime } cmd .success)
    | .Noop => .ok (m, σ.bin cmd .success)
    | .Version => .ok (m, σ.bin cmd .version)
    | .Stat => .ok (m, σ.bin cmd (.stats cmd.stats σ.slaves.length))
    | .Keys =>
      match HashMap.foreach m (keysPred g cmd) σ with
      | .ok σ' => .ok (m, σ'.bin cmd .success)
      | .error e => .error e
    | .Unknown | .raw _ => .ok (m, σ.bin cmd (.error .UnknownCommand))

end Binary

/-! ## Text commands -/

section Text

variable (g : Env) (cmd : TextRequest)

namespace Text

/-- Store the request's data in an existing object, and say so. -/
def store (k : KeyRef) (obj : Object) (σ : Session) : Bool × Object × Session :=
  let obj' := obj.set g.config.heapDataLimit cmd.data cmd.flags cmd.exptime
  (true, obj', (σ.textUnlessNoReply cmd .STORED).replObject k.key obj')

/-- SET, ADD, REPLACE. -/
def setHandler : Handler := fun k obj σ =>
  if obj.lockedByOther g.ctx then .ok (true, obj, σ.textUnlessNoReply cmd .LOCKED)
  else if obj.expired g.now σ.flushTime then
    if cmd.command = .REPLACE then .ok (false, obj, σ) else .ok (store g cmd k obj σ)
  else if cmd.command = .ADD then .ok (false, obj, σ)
  else .ok (store g cmd k obj σ)

/-- SET and ADD of a key that is not there. -/
def setCreator : Creator := fun k σ =>
  let o := Object.new g.config.heapDataLimit cmd.data cmd.flags cmd.exptime
  (o, (σ.textUnlessNoReply cmd .STORED).replObject k.key o)

/-- APPEND, PREPEND, CAS, INCR and DECR test the lock and the expiration, in this order. -/
def modifyHandler (body : KeyRef → Object → Session → Bool × Object × Session) : Handler :=
  fun k obj σ =>
    if obj.lockedByOther g.ctx then .ok (true, obj, σ.textUnlessNoReply cmd .LOCKED)
    else if obj.expired g.now σ.flushTime then .ok (false, obj, σ)
    else .ok (body k obj σ)

/-- APPEND and PREPEND, by the operation. -/
def concatHandler (op : Nat → Object → Bytes → Object) : Handler :=
  modifyHandler g cmd fun k obj σ =>
    let obj' := op g.config.heapDataLimit obj cmd.data
    (true, obj', (σ.textUnlessNoReply cmd .STORED).replObject k.key obj')

/-- APPEND. -/
def appendHandler : Handler := concatHandler g cmd Object.append

/-- PREPEND. -/
def prependHandler : Handler := concatHandler g cmd Object.prepend

/-- CAS: nobody has changed the object since the client read it. -/
def casHandler : Handler :=
  modifyHandler g cmd fun k obj σ =>
    if obj.cas ≠ cmd.casUnique then (true, obj, σ.textUnlessNoReply cmd .EXISTS)
    else store g cmd k obj σ

/-- INCR and DECR, by the operation. -/
def incdecHandler (op : Object → UInt64 → Option (UInt64 × Object)) : Handler :=
  modifyHandler g cmd fun k obj σ =>
    match op obj cmd.value with
    | some (n, obj') => (true, obj', (σ.textUnlessNoReply cmd (.NUMBER n)).replObject k.key obj')
    | none => (true, obj, σ.textUnlessNoReply cmd .NON_NUMERIC)

/-- INCR. -/
def incrHandler : Handler := incdecHandler g cmd Object.incr

/-- DECR. -/
def decrHandler : Handler := incdecHandler g cmd Object.decr

/-- TOUCH replies after `apply`; the reply is sent here, under the same condition. -/
def touchHandler : Handler := fun k obj σ =>
  if obj.expired g.now σ.flushTime then .ok (false, obj, σ)
  else
    let obj' := obj.touch cmd.exptime
    .ok (true, obj', (σ.replTouch k.key obj').textUnlessNoReply cmd .TOUCHED)

/-- DELETE. -/
def deletePred (deref : Nat → Option Key) (k : Key) (obj : Object) (σ : Session) :
    Except Err (Bool × Object × Session) :=
  if obj.lockedByOther g.ctx then .ok (false, obj, σ.textUnlessNoReply cmd .LOCKED)
  else if obj.lockedBySelf g.ctx then
    match removeLock deref k σ.locks with
    | .ok l => .ok (true, obj, (Session.textUnlessNoReply { σ with locks := l } cmd .DELETED).replDelete k)
    | .error e => .error e
  else .ok (true, obj, (σ.textUnlessNoReply cmd .DELETED).replDelete k)

/-- LOCK. -/
def lockHandler : Handler := fun k obj σ =>
  if obj.expired g.now σ.flushTime then .ok (false, obj, σ)
  else if obj.locked then .ok (true, obj, σ.text .LOCKED)
  else
    match acquire g k obj σ with
    | .ok (obj', σ') => .ok (true, obj', σ'.text .OK)
    | .error e => .error e

/-- UNLOCK.  Without the lock it is as if the key were not there. -/
def unlockOneHandler (deref : Nat → Option Key) : Handler := fun k obj σ =>
  if ! obj.lockedBySelf g.ctx then .ok (false, obj, σ)
  else
    match release g deref k.key obj σ with
    | .ok (obj', σ') => .ok (true, obj', σ'.text .OK)
    | .error e => .error e

/-- GET and GETS, for one key. -/
def getHandler : Handler := fun k obj σ =>
  if obj.expired g.now σ.flushTime then .ok (false, obj, σ)
  else if k.key.length > MAX_KEY_LENGTH then .error .maxKeyLength
  else .ok (true, obj.accessed, σ.text
    (.VALUE k.key obj.flags obj.data (if cmd.command = .GETS then some obj.cas else none)))

/-- The loop over the keys of GET and GETS. -/
def getLoop : List Key → HashMap Object → Session → Except Err (HashMap Object × Session)
  | [], m, σ => .ok (m, σ)
  | k :: ks, m, σ =>
    match HashMap.apply m k (some (getHandler g cmd)) none σ with
    | .ok (_, m', σ') => getLoop ks m' σ'
    | .error e => .error e

/-- The predicate of KEYS. -/
def keysPred (k : KeyRef) (obj : Object) (σ : Session) : Except Err Session :=
  if obj.expired g.now σ.flushTime then .ok σ
  else if cmd.key.isPrefixOf k.key then
    if k.key.length > MAX_KEY_LENGTH then .error .maxKeyLength else .ok (σ.text (.KEY k.key))
  else .ok σ

end Text

/-- `memcache_socket::cmd_text`. -/
def cmdText (m : HashMap Object) (σ : Session) : Except Err (HashMap Object × Session) :=
  if ! cmd.valid then .ok (m, σ.text .ERROR)
  else
    match cmd.command with
    | .SET | .ADD | .REPLACE =>
      if cmd.key.length > MAX_KEY_LENGTH then .ok (m, σ.text .ERROR)
      else if cmd.data.length > g.config.maxDataSize then .ok (m, σ.text .ERROR)
      else applyOr m cmd.key (Text.setHandler g cmd)
        (if cmd.command ≠ .REPLACE then some (Text.setCreator g cmd) else none)
        (fun σ => σ.textUnlessNoReply cmd .NOT_STORED) σ
    | .APPEND => applyOr m cmd.key (Text.appendHandler g cmd) none
        (fun σ => σ.textUnlessNoReply cmd .NOT_STORED) σ
    | .PREPEND => applyOr m cmd.key (Text.prependHandler g cmd) none
        (fun σ => σ.textUnlessNoReply cmd .NOT_STORED) σ
    | .CAS => applyOr m cmd.key (Text.casHandler g cmd) none
        (fun σ => σ.textUnlessNoReply cmd .NOT_FOUND) σ
    | .INCR => applyOr m cmd.key (Text.incrHandler g cmd) none
        (fun σ => σ.textUnlessNoReply cmd .NOT_FOUND) σ
    | .DECR => applyOr m cmd.key (Text.decrHandler g cmd) none
        (fun σ => σ.textUnlessNoReply cmd .NOT_FOUND) σ
    | .TOUCH => applyOr m cmd.key (Text.touchHandler g cmd) none
        (fun σ => σ.textUnlessNoReply cmd .NOT_FOUND) σ
    | .DELETE => removeOr m cmd.key (Text.deletePred g cmd m.deref)
        (fun σ => σ.textUnlessNoReply cmd .NOT_FOUND) σ
    | .LOCK => applyOr m cmd.key (Text.lockHandler g) none (fun σ => σ.text .NOT_FOUND) σ
    | .UNLOCK => applyOr m cmd.key (Text.unlockOneHandler g m.deref) none
        (fun σ => σ.text .NOT_LOCKED) σ
    | .UNLOCK_ALL =>
      match unlockAll g m σ with
      | .ok (m', σ') => .ok (m', σ'.text .OK)
      | .error e => .error e
    | .GET | .GETS =>
      match Text.getLoop g cmd cmd.keys m σ with
      | .ok (m', σ') => .ok (m', σ'.text .END)
      | .error e => .error e
    | .KEYS =>
      match HashMap.foreach m (Text.keysPred g cmd) σ with
      | .ok σ' => .ok (m, σ'.text .END)
      | .error e => .error e
    | .SLABS => .ok (m, σ.text .OK)
    | .STATS => .ok (m, (σ.text (.STATS cmd.stats σ.slaves.length)).text .END)
    | .FLUSH_ALL => .ok (m, Session.textUnlessNoReply { σ with flushTime := cmd.exptime } cmd .OK)
    | .VERSION => .ok (m, σ.text .VERSION)
    | .VERBOSITY => .ok (m, Session.textUnlessNoReply { σ with verbosity := cmd.verbosity } cmd .OK)
    | .QUIT =>
      match unlockAll g m σ with
      | .ok (m', σ') => .ok (m', { σ' with closing := true })
      | .error e => .error e
    | .UNKNOWN => .ok (m, σ.text .ERROR)

end Text

/-- A request of either protocol. -/
inductive Cmd where
  | bin (r : BinaryRequest)
  | text (r : TextRequest)

/-- Execute a request. -/
def Cmd.exec (g : Env) : Cmd → HashMap Object → Session → Except Err (HashMap Object × Session)
  | .bin r => cmdBin g r
  | .text r => cmdText g r

end Yrmcds.Memcache
