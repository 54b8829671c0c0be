/-
  Failover: a slave takes over from its master (`server::serve` and `serve_slave` of src/server.cpp,
  src/memcache/handler.cpp, `repl_client_socket::on_readable`, src/memcache/replication.cpp).

  A node that is not eligible to be the master connects to it, clears its map and stores what it is told.  When
  the connection ends it asks `is_master()` for some seconds, and either takes over with the map it has or
  connects again.  A connection that cannot be made leaves the map alone, so a node that loses its master and
  does not find another keeps the last copy it had.

  Three layers are joined here:

  * the STREAM: messages that the parser reads as they were meant (`ReplMsg.Exact`) are carried out one after
    another, however the stream is cut up (`receive_exact`);
  * the NODE: its map is what the pieces of its last connection make of an empty one, and the socket of that
    connection is in the reactor only while the node follows a master (`Copy`);
  * the MASTER: from the pass on that serves the new slave, it is told of every change (`mirrors_of_served`).

  A slave has every key of its master then.  It may have MORE.  Between the acceptance of the slave and the
  callback of the syncer, some jobs have the new list of slaves and some the old one.  A job with the new list
  stores a key and the slave is told; a job with the old list deletes it and the slave is not.  Nothing tells
  the slave later, so the key is back when it takes over.  `takeover_iff`: these keys, and no others, are wrong.

  Clients never see a copy in the making (`served_copy_final`).  `make_memcache_socket` refuses them while
  `m_is_slave` is set.  It is cleared in `on_master_start`, and the socket that writes to the map has left the
  reactor by then: every way out of `serve_slave` takes it out.
-/
import Yrmcds.Memcache.Join
import Yrmcds.Memcache.Keys

namespace Yrmcds.Memcache

open ChainTable BigEndian Run Replica

/-! ## The stream -/

/-- At the time `now` a slave reads the message as it was meant. -/
structure ReplMsg.Exact (now : Int) (msg : ReplMsg) : Prop where
  readable : msg.Readable
  same : msg.received now = msg

variable {msgs : List ReplMsg}

section Stream

variable {now : Int}

theorem nextMessage_exact {msg : ReplMsg} (h : msg.Exact now) (rest : Bytes) :
    ∃ r, nextMessage now (msg.wire ++ rest) = some (msg.wire.length, r) ∧
      ∀ limit m, replExec limit m r = replApply limit m msg := by
  have hne : msg.wire ++ rest ≠ [] :=
    List.append_ne_nil_of_left_ne_nil (List.ne_nil_of_length_pos (length_wire_pos msg)) _
  have hexec : ∀ limit m, Executes now limit m rest msg := fun limit m =>
    executes_of_readable now limit m rest h.readable
  have hlen := (hexec 0 Server.oneBucket.hash).1
  refine ⟨BinaryRequest.parse now (msg.wire ++ rest), ?_, fun limit m => ?_⟩
  · rw [nextMessage_of_magic hne (head_wire ..)]
    unfold nextBinary
    have hpos := length_wire_pos msg
    dsimp only
    rw [hlen]
    exact if_neg (by omega)
  · rw [(hexec limit m).2, h.same]

/-- What is left of a stream of messages begins with the magic byte. -/
theorem refused_part {p y : Bytes} (h : p ++ y = msgs.flatMap ReplMsg.wire) :
    refused p = false := by
  unfold refused
  cases p with
  | nil => rfl
  | cons b p =>
    cases msgs with
    | nil => cases h
    | cons msg msgs =>
      have hb : b = 0x80 := by
        have hhead := head_wire msg (msgs.flatMap ReplMsg.wire)
        rw [List.flatMap_cons] at h
        simp only [← h, List.cons_append, List.head_cons] at hhead
        exact hhead (List.cons_ne_nil _ _)
      rw [hb]
      rfl

/-- **What a slave makes of a part `q` of the stream**: it carries out the messages that are complete, and keeps
    less than one message. -/
theorem readMessages_exact (hmsgs : ∀ msg ∈ msgs, msg.Exact now) {q y : Bytes}
    (h : q ++ y = msgs.flatMap ReplMsg.wire) :
    ∃ done later, msgs = done ++ later ∧ (readMessages now q).2 ++ y = later.flatMap ReplMsg.wire ∧
      (∀ limit m, (readMessages now q).1.foldl (replExec limit) m = done.foldl (replApply limit) m) ∧
      ∀ msg rest, later = msg :: rest → (readMessages now q).2.length < msg.wire.length := by
  induction msgs generalizing q with
  | nil =>
    obtain ⟨rfl, rfl⟩ := List.append_eq_nil_iff.mp h
    rw [readMessages_none rfl]
    exact ⟨[], [], rfl, rfl, fun _ _ => rfl, fun _ _ hl => by cases hl⟩
  | cons msg msgs ih =>
    rw [List.flatMap_cons] at h
    obtain ⟨r, hnext, hexec⟩ := nextMessage_exact (hmsgs msg List.mem_cons_self) (msgs.flatMap ReplMsg.wire)
    have hpart := nextMessage_part now q y
    rw [h, hnext, Option.filter_some] at hpart
    by_cases hfull : msg.wire.length ≤ q.length
    · -- complete: the rest of `q` is the beginning of the other messages
      rw [if_pos (decide_eq_true hfull)] at hpart
      have hrest : q.drop msg.wire.length ++ y = msgs.flatMap ReplMsg.wire := by
        have := congrArg (List.drop msg.wire.length) h
        rwa [List.drop_append_of_le_length hfull, List.drop_left] at this
      obtain ⟨done, later, hsplit, hleft, hdone, hshort⟩ :=
        ih (fun m hm => hmsgs m (List.mem_cons_of_mem _ hm)) hrest
      rw [readMessages_some hpart]
      refine ⟨msg :: done, later, by rw [hsplit, List.cons_append], hleft, fun limit m => ?_, hshort⟩
      rw [List.foldl_cons, List.foldl_cons, hexec, hdone]
    · rw [if_neg (by simpa using hfull)] at hpart
      rw [readMessages_none hpart]
      refine ⟨[], msg :: msgs, rfl, by rw [List.flatMap_cons, h], fun _ _ => rfl, fun msg' rest hl => ?_⟩
      cases hl
      exact Nat.lt_of_not_le hfull

/-- **A connection**: the slave has carried out the messages that have come in. -/
theorem ReplClient.receive_exact (limit : Nat) (pieces : List (Int × Bytes)) :
    ∀ {c : ReplClient} {msgs : List ReplMsg} {y : Bytes}, c.failed = false →
    (∀ p ∈ pieces, ∀ msg ∈ msgs, ReplMsg.Exact p.1 msg) →
    c.recvbuf ++ (pieces.flatMap Prod.snd ++ y) = msgs.flatMap ReplMsg.wire →
    (∀ msg rest, msgs = msg :: rest → c.recvbuf.length < msg.wire.length) →
    ∃ done later, msgs = done ++ later ∧ (c.receive limit pieces).failed = false ∧
      (c.receive limit pieces).hash = done.foldl (replApply limit) c.hash ∧
      (c.receive limit pieces).recvbuf ++ y = later.flatMap ReplMsg.wire ∧
      ∀ msg rest, later = msg :: rest → (c.receive limit pieces).recvbuf.length < msg.wire.length := by
  induction pieces with
  | nil => exact fun hf _ hbytes hshort => ⟨[], _, rfl, hf, rfl, hbytes, hshort⟩
  | cons p pieces ih =>
    intro c msgs y hf hmsgs hbytes _
    rw [List.flatMap_cons, List.append_assoc, ← List.append_assoc] at hbytes
    obtain ⟨done, later, hsplit, hleft, hdone, hshort⟩ :=
      readMessages_exact (hmsgs p List.mem_cons_self) hbytes
    have hstep : c.onReadable p.1 limit p.2 = _ := if_neg (by rw [hf]; exact Bool.false_ne_true)
    have hlater : ∀ q ∈ pieces, ∀ msg ∈ later, ReplMsg.Exact q.1 msg := fun q hq msg hm =>
      hmsgs q (List.mem_cons_of_mem _ hq) msg (hsplit ▸ List.mem_append_right _ hm)
    obtain ⟨done', later', hsplit', hf', hhash', hleft', hshort'⟩ :=
      ih (c := c.onReadable p.1 limit p.2) (by rw [hstep]; exact refused_part hleft) hlater
        (by rw [hstep]; exact hleft) (by rw [hstep]; exact hshort)
    refine ⟨done ++ done', later', by rw [hsplit, hsplit', List.append_assoc], hf', ?_, hleft', hshort'⟩
    rw [List.foldl_append, ← hdone]
    refine hhash'.trans ?_
    rw [hstep]

/-- Everything has arrived. -/
theorem ReplClient.receive_all (limit : Nat) {pieces : List (Int × Bytes)}
    (hmsgs : ∀ p ∈ pieces, ∀ msg ∈ msgs, ReplMsg.Exact p.1 msg)
    (hbytes : pieces.flatMap Prod.snd = msgs.flatMap ReplMsg.wire) (m : HashMap Object) :
    (ReplClient.receive limit { hash := m } pieces).failed = false ∧
      (ReplClient.receive limit { hash := m } pieces).hash = msgs.foldl (replApply limit) m := by
  obtain ⟨done, later, hsplit, hf, hhash, hleft, hshort⟩ :=
    ReplClient.receive_exact limit pieces (c := { hash := m }) (y := []) rfl hmsgs
      (by rw [List.append_nil]; exact hbytes) (fun msg rest _ => length_wire_pos msg)
  rw [List.append_nil] at hleft
  have hnil : later = [] := by
    cases later with
    | nil => rfl
    | cons msg rest =>
      have hlen := hshort msg rest rfl
      rw [hleft, List.flatMap_cons, List.length_append] at hlen
      omega
  rw [hnil, List.append_nil] at hsplit
  exact ⟨hf, by rw [hsplit]; exact hhash⟩

end Stream

/-! ## The master -/

/-- Only a touch leaves open what is under its key. -/
def ReplMsg.isTouch : ReplMsg → Bool
  | .touch _ _ => true
  | _ => false

/-- What is under a key after a Set or a Delete does not depend on what was there. -/
theorem effs_of_not_touch (h : ∃ msg ∈ msgs, msg.isTouch = false) (a b : Option Item) :
    effs ReplMsg.eff msgs a = effs ReplMsg.eff msgs b := by
  induction msgs generalizing a b with
  | nil => simp at h
  | cons msg msgs ih =>
    show effs _ msgs (msg.eff a) = effs _ msgs (msg.eff b)
    cases msg with
    | set k d f t => rfl
    | delete k => rfl
    | touch k t =>
      refine ih ?_ _ _
      obtain ⟨msg, hmem, htouch⟩ := h
      rcases List.mem_cons.mp hmem with rfl | hmem
      · cases htouch
      · exact ⟨msg, hmem, htouch⟩

/-- Touches neither add nor remove. -/
theorem effs_of_touch (h : ∀ msg ∈ msgs, msg.isTouch = true) (a : Option Item) :
    effs ReplMsg.eff msgs a = none ↔ a = none := by
  induction msgs generalizing a with
  | nil => exact Iff.rfl
  | cons msg msgs ih =>
    show effs _ msgs (msg.eff a) = none ↔ _
    rw [ih fun m hm => h m (List.mem_cons_of_mem _ hm)]
    cases msg with
    | set k d f t => cases h _ List.mem_cons_self
    | delete k => cases h _ List.mem_cons_self
    | touch k t => exact Option.map_eq_none_iff

namespace Master

section

variable {x : Nat} {s s' t : Master}

/-- **Step**: a slave that is on all lists is told of every change. -/
theorem Served.mirrors {e : MasterEvent} (h : Served x s) (hi : Inv False s) (he : e ≠ .leave x)
    (hs : s.step e = .ok s') : MirrorsTo x s.server.hash s.server.log s'.server.hash s'.server.log := by
  by_cases hgc : (∀ wall, e ≠ .gcStart wall) ∧ e ≠ .gcNext
  · obtain ⟨-, -, htold⟩ := step_told hi h.listed h.jobs he hgc hs
    exact htold.mirrors
  · cases moved_of_step hs with
    | idle => exact .same rfl rfl
    | @gcNext t hg => exact gcStep_mirrors s.server t (h.pass t hg)
    | gcStart hg => exact .same rfl rfl
    | _ => exact absurd ⟨fun _ => MasterEvent.noConfusion, MasterEvent.noConfusion⟩ hgc

/-- **Run.** -/
theorem mirrors_of_served {es : List MasterEvent} (hi : Inv False s) (h : Served x s)
    (hstay : ∀ e ∈ es, e ≠ .leave x) (hr : run step s es = .ok t) :
    MirrorsTo x s.server.hash s.server.log t.server.hash t.server.log := by
  refine (run_preserves_of_mem (I := fun t => (Inv False t ∧ Served x t) ∧
    MirrorsTo x s.server.hash s.server.log t.server.hash t.server.log) ?_ hstay
    ⟨⟨hi, h⟩, .same rfl rfl⟩ hr).2
  rintro s1 e s2 ⟨⟨hi1, h1⟩, hm⟩ he hs
  exact ⟨⟨hi1.step_ok (fun hf => hf.elim) hs, h1.step hi1 he hs⟩, hm.trans (h1.mirrors hi1 he hs)⟩

/-- A complete copy that is told of every change stays complete. -/
theorem Complete.mirrors {r : Key → Option Item} (hall : Complete x r s)
    (h : MirrorsTo x s.server.hash s.server.log t.server.hash t.server.log) : Complete x r t := by
  obtain ⟨new, hlog, hview⟩ := h
  intro k
  unfold copy
  rw [hlog, hview, replay_append]
  exact replay_covers ReplMsg.key ReplMsg.eff_covers new (hall k)

end

/-- Slave `x` joins and stays: it is confirmed when the pass begins that `s1` starts, the pass ends, and `t` is
    any state after that. -/
def Joins (x : Nat) (s1 t : Master) : Prop :=
  ∃ (s0 s2 : Master) (es1 es2 es3 : List MasterEvent) (wall : Int), Unjoined s0 ∧
    run step s0 es1 = .ok s1 ∧ x ∈ s1.newSlaves ∧ s1.server.gc = none ∧
    run step s1 (.gcStart wall :: es2) = .ok s2 ∧ s2.server.gc = none ∧ run step s2 es3 = .ok t ∧
    ∀ e ∈ es1 ++ es2 ++ es3, e ≠ .leave x

/-- It is told of every change since the pass began, and has every key of the master. -/
theorem Joins.told {x : Nat} {s1 t : Master} (h : Joins x s1 t) (r : Key → Option Item) :
    MirrorsTo x s1.server.hash s1.server.log t.server.hash t.server.log ∧ Complete x r t := by
  obtain ⟨s0, s2, es1, es2, es3, wall, h0, h1, hx, hstart, h2, hend, h3, hstay⟩ := h
  obtain ⟨s, hs, hr, hserved, hpass, hall⟩ := served_by_pass h0 h1 hx hstart h2 hend
    (fun e he => hstay e (List.mem_append_left _ he)) r
  have hbegin : MirrorsTo x s1.server.hash s1.server.log s.server.hash s.server.log := by
    rw [Master.step, hstart] at hs
    obtain rfl := Except.ok.inj hs
    exact .same rfl rfl
  have hduring := mirrors_of_served hserved.1 hserved.2
    (fun e he => hstay e (List.mem_append_left _ (List.mem_append_right _ he))) hr
  have hafter := mirrors_of_served hpass.1 hpass.2 (fun e he => hstay e (List.mem_append_right _ he)) h3
  exact ⟨(hbegin.trans hduring).trans hafter, hall.mirrors hafter⟩

/-- When the pass began, the slave had a key that the master had no longer, and since then neither Set nor
    Delete was sent about it. -/
structure Orphan (x : Nat) (s t : Server) (k : Key) : Prop where
  gone : view s.hash k = none
  had : copy x (fun _ => none) s k ≠ none
  untold : ∀ msg ∈ (messagesTo x t.log).drop (messagesTo x s.log).length, msg.key = k → msg.isTouch = true

/-- **The copy of a slave that began with nothing is right, but for orphans.** -/
theorem Joins.copy_iff {x : Nat} {s1 t : Master} (h : Joins x s1 t) (k : Key) :
    copy x (fun _ => none) t.server k = view t.server.hash k ↔ ¬ Orphan x s1.server t.server k := by
  obtain ⟨⟨new, hlog, hview⟩, hall⟩ := h.told fun _ => none
  have hnew : (messagesTo x t.server.log).drop (messagesTo x s1.server.log).length = new := by
    rw [hlog, List.drop_left]
  -- both sides, seen from the beginning of the pass
  have hcopy : copy x (fun _ => none) t.server k
      = effs ReplMsg.eff (new.filter (ReplMsg.key · = k)) (copy x (fun _ => none) s1.server k) := by
    unfold copy
    rw [hlog, replay_append, replay_apply]
  have hmaster : view t.server.hash k
      = effs ReplMsg.eff (new.filter (ReplMsg.key · = k)) (view s1.server.hash k) := by
    rw [hview, replay_apply]
  by_cases htouch : ∀ msg ∈ new, msg.key = k → msg.isTouch = true
  · have hall_touch : ∀ msg ∈ new.filter (ReplMsg.key · = k), msg.isTouch = true := fun msg hm => by
      obtain ⟨hm, hk⟩ := List.mem_filter.mp hm
      exact htouch msg hm (of_decide_eq_true hk)
    cases hgone : view s1.server.hash k with
    | none =>
      have hnone : view t.server.hash k = none := by
        rw [hmaster, effs_of_touch hall_touch, hgone]
      rw [hnone, hcopy, effs_of_touch hall_touch]
      constructor
      · exact fun hnot ho => ho.had hnot
      · intro ho
        by_contra hhad
        exact ho ⟨hgone, hhad, by rw [hnew]; exact htouch⟩
    | some i =>
      -- the master has the key, so the pass has sent it
      refine ⟨fun _ ho => absurd (hgone.symm.trans ho.gone) (Option.some_ne_none i), fun _ => ?_⟩
      have hsome : view t.server.hash k ≠ none := by
        rw [hmaster, Ne, effs_of_touch hall_touch, hgone]
        exact Option.some_ne_none i
      obtain ⟨j, hj⟩ := Option.ne_none_iff_exists'.mp hsome
      rw [hj]
      exact hall k j hj
  · refine ⟨fun _ ho => htouch (hnew ▸ ho.untold), fun _ => ?_⟩
    push Not at htouch
    obtain ⟨msg, hm, hk, ht⟩ := htouch
    rw [hcopy, hmaster]
    exact effs_of_not_touch ⟨msg, List.mem_filter.mpr ⟨hm, decide_eq_true hk⟩, by simpa using ht⟩ _ _

end Master

/-! ## The node -/

namespace Failover

/-- `MASTER_CHECKS` of src/constants.hpp. -/
def MASTER_CHECKS : Nat := 50

/-- Where `server::serve` is. -/
inductive Mode where
  | boot                     -- before the first `is_master()`
  | starting                 -- at `on_slave_start`
  | following                -- in the loop of the reactor, in `serve_slave`
  | probing (left : Nat)     -- in the loop that asks `is_master()`
  | master                   -- in `serve_master`
  | stopped                  -- after a signal or an exception
deriving DecidableEq, Repr

/-- `pieces` is what `recv` has returned on the last connection that was made. -/
structure Node where
  client : ReplClient                  -- `m_hash`, and `m_recvbuf` of the socket
  mode : Mode := .boot
  isSlave : Bool := true               -- `m_is_slave`
  registered : Bool := false           -- the socket of the replication is in `m_resources` of the reactor
  clients : Nat := 0                   -- sockets that `make_memcache_socket` has made
  pieces : List (Int × Bytes) := []

/-- What can happen to a node. -/
inductive NodeEvent where
  | isMaster (b : Bool)                   -- `is_master()` is asked
  | connect                               -- `tcp_connect` succeeds
  | refused (signal : Bool)               -- it fails; `run_once` may find a signal
  | readable (now : Int) (piece : Bytes)  -- `recv` returns `piece` on the replication socket
  | closed                                -- it finds that the connection to the master has ended
  | broken                                -- a heartbeat cannot be written
  | signal
  | accept                                -- a client
deriving DecidableEq, Repr

/-- `handler::clear`. -/
def clear (m : HashMap Object) : HashMap Object := m.rewrite fun _ _ => none

namespace Node

/-- A process that starts. -/
def init (hash : HashMap Object) : Node := { client := { hash := hash } }

/-- `on_master_start`: from now on clients are accepted. -/
def promote (n : Node) : Node := { n with mode := .master, isSlave := false }

/-- The end of `serve_slave`: `on_slave_end` takes the socket out of the reactor, if that is not done yet. -/
def leave (n : Node) (mode : Mode) : Node := { n with mode := mode, registered := false }

/-- The end of `serve_slave`, without a signal. -/
def disconnected (n : Node) : Node := n.leave (.probing MASTER_CHECKS)

/-- One event.  The reactor calls `on_readable` of the sockets it has, whatever `server::serve` is doing. -/
def step (limit : Nat) (n : Node) : NodeEvent → Node
  | .isMaster b =>
    match n.mode with
    | .boot => if b then n.promote else { n with mode := .starting }
    | .following => if b then n.disconnected else n
    | .probing left =>
      if b then n.promote
      else if left ≤ 1 then { n with mode := .starting }
      else { n with mode := .probing (left - 1) }
    | _ => n
  | .connect =>
    if n.mode = .starting then
      -- `clear`, then `add_resource`
      { n with
        mode := .following
        registered := true
        client := { hash := clear n.client.hash }
        pieces := [] }
    else n
  | .refused signal =>
    if n.mode = .starting then
      if signal then n.leave .stopped else n.disconnected
    else n
  | .readable now piece =>
    if n.registered then
      let c := n.client.onReadable now limit piece
      let n' := { n with client := c, pieces := n.pieces ++ [(now, piece)] }
      -- the exception of `repl_recv` ends the process
      if c.failed then n'.leave .stopped else n'
    else n
  | .closed => if n.registered then n.disconnected else n
  -- the reactor drops the socket, but nothing makes it leave its loop
  | .broken => { n with registered := false }
  | .signal => if n.mode = .following ∨ n.mode = .master then n.leave .stopped else n
  | .accept => if n.isSlave then n else { n with clients := n.clients + 1 }

/-- What `clear` leaves. -/
theorem find_clear (m : HashMap Object) (k : Key) : (clear m).find k = none := by
  unfold clear
  rw [Table.find_rewrite]
  cases m.find k <;> rfl

/-- The map is what the pieces of the last connection make of an empty one; the socket of that connection is in
    the reactor only while `serve_slave` runs; and clients are served by a master only. -/
structure Copy (limit : Nat) (n : Node) : Prop where
  client : ∃ m : HashMap Object, (∀ k, m.find k = none) ∧
    n.client = ReplClient.receive limit { hash := m } n.pieces
  inReactor : n.registered = true → n.mode = .following
  opens : n.mode = .master → n.isSlave = false
  stays : n.isSlave = false → n.mode = .master ∨ n.mode = .stopped
  refuses : n.isSlave = true → n.clients = 0

section

variable {limit : Nat} {n : Node}

/-- Another mode of a slave. -/
theorem Copy.setMode (h : Copy limit n) {mode : Mode} {registered : Bool} (hmode : mode ≠ .master)
    (hin : registered = true → mode = .following)
    (hslave : n.mode ≠ .master ∧ n.mode ≠ .stopped ∨ mode = .stopped) :
    Copy limit { n with mode := mode, registered := registered } where
  client := h.client
  inReactor := hin
  opens hm := absurd hm hmode
  stays hs := hslave.elim (fun hne => ((h.stays hs).elim hne.1 hne.2).elim) .inr
  refuses := h.refuses

/-- `serve_slave` ends. -/
theorem Copy.leave (h : Copy limit n) {mode : Mode} (hmode : mode ≠ .master)
    (hslave : n.mode ≠ .master ∧ n.mode ≠ .stopped ∨ mode = .stopped) : Copy limit (n.leave mode) :=
  h.setMode hmode Bool.noConfusion hslave

/-- Only a node that follows a master has the socket in its reactor. -/
theorem Copy.out (h : Copy limit n) {mode : Mode} (hm : n.mode = mode) (hne : mode ≠ .following) :
    n.registered ≠ true :=
  fun hreg => hne (hm.symm.trans (h.inReactor hreg))

/-- The way to the master is from a mode in which the socket has left the reactor. -/
theorem Copy.promote (h : Copy limit n) (hout : n.registered ≠ true) : Copy limit n.promote where
  client := h.client
  inReactor hreg := absurd hreg hout
  opens _ := rfl
  stays _ := .inl rfl
  refuses hs := by cases hs

/-- A piece of the stream arrives. -/
theorem Copy.receive (h : Copy limit n) (now : Int) (piece : Bytes) :
    Copy limit { n with client := n.client.onReadable now limit piece, pieces := n.pieces ++ [(now, piece)] } := by
  obtain ⟨m, hm, hc⟩ := h.client
  refine ⟨⟨m, hm, ?_⟩, h.inReactor, h.opens, h.stays, h.refuses⟩
  show n.client.onReadable now limit piece = _
  rw [hc]
  unfold ReplClient.receive
  rw [List.foldl_append]
  rfl

/-- **Step.** -/
theorem Copy.step (h : Copy limit n) (e : NodeEvent) : Copy limit (n.step limit e) := by
  cases e with
  | isMaster b =>
    rw [Node.step]
    cases hm : n.mode with
    | boot =>
      have hout := h.out hm (by decide)
      dsimp only
      split_ifs
      · exact h.promote hout
      · exact h.setMode (by decide) (fun hreg => absurd hreg hout) (.inl (by rw [hm]; decide))
    | following =>
      dsimp only
      split_ifs
      · exact h.leave (by decide) (.inl (by rw [hm]; decide))
      · exact h
    | probing left =>
      have hout := h.out hm Mode.noConfusion
      have hslave : n.mode ≠ .master ∧ n.mode ≠ .stopped := by
        rw [hm]
        exact ⟨Mode.noConfusion, Mode.noConfusion⟩
      dsimp only
      split_ifs
      · exact h.promote hout
      · exact h.setMode (by decide) (fun hreg => absurd hreg hout) (.inl hslave)
      · exact h.setMode Mode.noConfusion (fun hreg => absurd hreg hout) (.inl hslave)
    | _ => exact h
  | connect =>
    rw [Node.step]
    split_ifs with hm
    · have hnext := h.leave (show Mode.following ≠ .master by decide) (.inl (by rw [hm]; decide))
      exact ⟨⟨_, find_clear n.client.hash, rfl⟩, fun _ => rfl, hnext.opens, hnext.stays, h.refuses⟩
    · exact h
  | refused signal =>
    rw [Node.step]
    split_ifs with hm
    · exact h.leave (by decide) (.inr rfl)
    · exact h.leave (by decide) (.inl (by rw [hm]; decide))
    · exact h
  | readable now piece =>
    rw [Node.step]
    dsimp only
    split_ifs
    · exact (h.receive now piece).leave (by decide) (.inr rfl)
    · exact h.receive now piece
    · exact h
  | closed =>
    rw [Node.step]
    split_ifs with hreg
    · exact h.leave (by decide) (.inl (by rw [h.inReactor hreg]; decide))
    · exact h
  | broken => exact ⟨h.client, Bool.noConfusion, h.opens, h.stays, h.refuses⟩
  | signal =>
    rw [Node.step]
    split_ifs
    · exact h.leave (by decide) (.inr rfl)
    · exact h
  | accept =>
    rw [Node.step]
    split_ifs with hs
    · exact h
    · exact ⟨h.client, h.inReactor, h.opens, h.stays, fun hs' => absurd hs' hs⟩

/-- **Run.** -/
theorem copy_of_run (limit : Nat) {hash : HashMap Object} (hempty : ∀ k, hash.find k = none)
    (es : List NodeEvent) : Copy limit (es.foldl (Node.step limit) (Node.init hash)) := by
  refine List.foldlRecOn es _ ?_ fun n hn e _ => hn.step e
  exact ⟨⟨hash, hempty, rfl⟩, Bool.noConfusion, Mode.noConfusion, Bool.noConfusion, fun _ => rfl⟩

end

end Node

/-- **What a node takes over.**  A node that has become the master, and that has received on its last connection
    everything it was sent, is open to clients and has under every key what the old master has, but for
    orphans. -/
theorem takeover_iff {x : Nat} {s₁ t : Master} (h : Master.Joins x s₁ t) {limit : Nat} {hash : HashMap Object}
    (hempty : ∀ k, hash.find k = none) {es : List NodeEvent} {n : Node}
    (hn : n = es.foldl (Node.step limit) (Node.init hash)) (hmaster : n.mode = .master)
    (hexact : ∀ p ∈ n.pieces, ∀ msg ∈ messagesTo x t.server.log, ReplMsg.Exact p.1 msg)
    (hbytes : n.pieces.flatMap Prod.snd = (messagesTo x t.server.log).flatMap ReplMsg.wire)
    (config : Config) (gcConfig : GcConfig) (now : Int) :
    n.isSlave = false ∧ ∀ k, view (Server.starting n.client.hash config gcConfig now).hash k
      = view t.server.hash k ↔ ¬ Master.Orphan x s₁.server t.server k := by
  have hcopy := Node.copy_of_run limit hempty es
  rw [← hn] at hcopy
  refine ⟨hcopy.opens hmaster, fun k => ?_⟩
  obtain ⟨m, hm, hclient⟩ := hcopy.client
  have hview : view m = fun _ => none := funext fun k => view_of_absent (hm k)
  have hhash := (ReplClient.receive_all limit hexact hbytes m).2
  rw [← h.copy_iff k, Server.starting]
  show view n.client.hash k = _ ↔ _
  rw [hclient, hhash, view_replay, hview]
  rfl

/-- The job of connection 0 begins before slave 0 joins, that of connection 1 after it.  The second stores "y",
    and the first deletes it. -/
def orphanRun : List MasterEvent :=
  [.accept 5, .accept 6, .readable 0 0, .start 0, .receive 0 .OK, .join, .readable 1 1, .start 1, .receive 1 .OK,
    .exec 1 (.bin { command := .Set, status := .OK, key := [121], key_le := y_le, data := [2] }),
    .exec 0 (.bin { command := .Delete, status := .OK, key := [121], key_le := y_le }),
    .receive 0 .AGAIN, .receive 1 .AGAIN, .check]

/-- What the slave has been sent. -/
def orphanMsg : ReplMsg := .set [121] [2] 0 0

/-- It connects, receives half of the message and then the rest, and takes over when the master is gone. -/
def takeoverRun : List NodeEvent :=
  [.isMaster false, .connect, .readable 100 (orphanMsg.wire.take 20), .readable 101 (orphanMsg.wire.drop 20),
    .closed, .isMaster false, .isMaster true]

theorem exact_orphanMsg (now : Int) : orphanMsg.Exact now :=
  ⟨⟨by decide, by decide, by decide⟩, by
    rw [orphanMsg, ReplMsg.received, if_neg (by decide), (timeReceived_eq_self_iff now 0).mpr (.inl rfl)]⟩

/-- The node has "y", which the master had deleted. -/
theorem takeover_orphanRun : ∃ (s₁ t : Master) (n : Node), Master.Joins 0 s₁ t ∧ n.mode = .master ∧
    view t.server.hash [121] = none ∧
    view (Server.starting n.client.hash t.server.config t.server.gcConfig 102).hash [121] ≠ none := by
  obtain ⟨s₁, s₂, h₁, hx, hgc, h₂, hgc₂, hnone, hnone₂, hhad, hlog, hlog₁⟩ : ∃ s₁ s₂ : Master,
      run Master.step Master.twoWorkers orphanRun = .ok s₁ ∧ 0 ∈ s₁.newSlaves ∧ s₁.server.gc = none ∧
      run Master.step s₁ [.gcStart 100, .gcNext, .gcNext] = .ok s₂ ∧ s₂.server.gc = none ∧
      view s₁.server.hash [121] = none ∧ view s₂.server.hash [121] = none ∧
      Master.copy 0 (fun _ => none) s₁.server [121] ≠ none ∧
      messagesTo 0 s₂.server.log = [orphanMsg] ∧ messagesTo 0 s₁.server.log = [orphanMsg] :=
    ⟨_, _, rfl, List.mem_cons_self, rfl, rfl, rfl, rfl, rfl, by decide, rfl, rfl⟩
  have hjoins : Master.Joins 0 s₁ s₂ := by
    refine ⟨_, s₂, orphanRun, [.gcNext, .gcNext], [], 100, Master.unjoined_twoWorkers, h₁, hx, hgc, h₂, hgc₂, rfl, ?_⟩
    simp [orphanRun]
  have horphan : Master.Orphan 0 s₁.server s₂.server [121] :=
    ⟨hnone, hhad, by rw [hlog, hlog₁]; intro msg hm; cases hm⟩
  obtain ⟨n, hn, hmode, hpieces⟩ : ∃ n, n = takeoverRun.foldl (Node.step 100) (Node.init Server.oneBucket.hash) ∧
      n.mode = .master ∧
      n.pieces = [(100, orphanMsg.wire.take 20), (101, orphanMsg.wire.drop 20)] := ⟨_, rfl, by decide, rfl⟩
  have htakeover := takeover_iff hjoins (fun k => Table.find_empty ..) hn hmode
    (by
      rw [hlog]
      intro p _ msg hm
      rw [List.mem_singleton.mp hm]
      exact exact_orphanMsg p.1)
    (by rw [hpieces, hlog]; decide) s₂.server.config s₂.server.gcConfig 102
  refine ⟨s₁, s₂, n, hjoins, hmode, hnone₂, fun hview => ?_⟩
  exact (htakeover.2 [121]).mp (hview.trans hnone₂.symm) horphan

end Failover

end Yrmcds.Memcache
