/-
  How many packets a binary request is answered with (src/memcache/sockets.cpp, `cmd_bin`;
  `binary_response` of src/memcache/memcache.cpp).

  Replies are sent from inside the handlers, and once more after `apply` or `remove_if` when they return
  false.  A client that sends requests ahead counts packets, so what matters is their NUMBER: one for a
  request that is not quiet; for a quiet one, one on failure (and on a hit, for the get family), and none
  otherwise.  Stat and Keys answer with a table that ends with a packet without a key.

  A command that stores or locks has one of two `Outcome`s: it is REFUSED — nothing has changed, one error
  packet — or DONE — something has changed, and success is reported unless the request is quiet.  "Fails"
  is thus said without a look at the reply: store and lock list are what they were.

  What a command hands over and what the client GETS differ once the socket is closed.  A client may send a
  request behind its Quit, and if both are in the buffer the second is carried out too: its packets stop at
  `with_fd` (`Conn.delivered`).

  One command is out of order: LaGKQ on a missing key is not answered at all, while LaGQ is
  (`! cmd.quiet() || cmd.command() == LaGQ`).  And a command that throws is not answered, see `Throws`.
-/
import Yrmcds.Memcache.Flush
import Yrmcds.Memcache.Named
import Yrmcds.Memcache.Throws

namespace Yrmcds.Memcache

open ChainTable Run

/-! ## Packets -/

/-- The names of the figures of the `stats_...` functions, in the order they are sent. -/
def statNames : StatsKind → List String
  | .SETTINGS => ["maxbytes", "tcpport", "replport", "virtual_ip", "evictions", "cas_enabled", "locking",
      "secure_erase", "lock_memory", "tmp_dir", "buckets", "item_size_max", "num_threads", "gc_interval"]
  | .ITEMS => ["items:1:number", "items:1:age", "items:1:evicted", "items:1:conflicts", "items:1:largest"]
  | .SIZES => ["1024", "4096", "16384", "65536", "262144", "1048576", "4194304", "huge"]
  | .OPS =>
    ["text:set", "text:add", "text:replace", "text:append", "text:prepend", "text:cas", "text:get",
      "text:gets", "text:delete", "text:incr", "text:decr", "text:touch", "text:lock", "text:unlock",
      "text:unlock_all", "text:slabs", "text:stats", "text:flush_all", "text:version", "text:verbosity",
      "text:quit", "text:keys",
      "binary:Get", "binary:Set", "binary:Add", "binary:Replace", "binary:Delete", "binary:Increment",
      "binary:Decrement", "binary:Quit", "binary:Flush", "binary:GetQ", "binary:Noop", "binary:Version",
      "binary:GetK", "binary:GetKQ", "binary:Append", "binary:Prepend", "binary:Stat", "binary:SetQ",
      "binary:AddQ", "binary:ReplaceQ", "binary:DeleteQ", "binary:IncrementQ", "binary:DecrementQ",
      "binary:QuitQ", "binary:FlushQ", "binary:AppendQ", "binary:PrependQ", "binary:Touch", "binary:GaT",
      "binary:GaTQ", "binary:GaTK", "binary:GaTKQ", "binary:Lock", "binary:LockQ", "binary:Unlock",
      "binary:UnlockQ", "binary:UnlockAll", "binary:UnlockAllQ", "binary:LaG", "binary:LaGQ",
      "binary:LaGK", "binary:LaGKQ", "binary:RaU", "binary:RaUQ", "binary:Keys"]
  | .GENERAL => ["pid", "time", "version", "pointer_size", "rusage_user", "rusage_system",
      "curr_connections", "total_connections", "curr_items", "total_items", "get_hits", "get_misses",
      "cas_hits", "cas_misses", "cas_badval", "bytes", "limit_maxbytes", "threads", "gc_count", "slaves",
      "last_expirations", "last_evictions", "evictions", "last_gc_elapsed", "total_gc_elapsed"]

/-- What the header of a response packet says of status and key. -/
structure Packet where
  status : BinaryStatus
  key : Bytes
deriving DecidableEq, Repr

/-- The packets a reply is sent in. -/
def BinaryBody.packets : BinaryBody → List Packet
  | .error st => [⟨st, []⟩]
  | .get _ _ _ k => [⟨.OK, k.getD []⟩]
  | .key k => [⟨.OK, k⟩]
  | .stats kind _ => (statNames kind).map (fun n => ⟨.OK, ascii n⟩) ++ [⟨.OK, []⟩]
  | .success | .set _ | .incdec _ _ | .quit | .version => [⟨.OK, []⟩]

/-- The packets of a reply; text has none. -/
def Reply.packets : Reply → List Packet
  | .binary r => r.body.packets
  | .text _ => []

/-- The packets handed over between two states of a session. -/
def answer (σ σ' : Session) : List Packet := (σ'.out.drop σ.out.length).flatMap Reply.packets

theorem ascii_ne_nil {n : String} (h : n ≠ "") : ascii n ≠ [] := by
  unfold ascii
  rw [ne_eq, List.map_eq_nil_iff]
  exact fun hn => h (String.toList_eq_nil_iff.mp hn)

/-- Every figure has a name. -/
theorem statNames_ne_nil (kind : StatsKind) : ∀ n ∈ statNames kind, ascii n ≠ [] := by
  have hne : ∀ n ∈ statNames kind, n ≠ "" := by cases kind <;> decide
  exact fun n hn => ascii_ne_nil (hne n hn)

/-! ## What is sent -/

/-- From `σ` to `σ'` the replies `bs` were sent to the request. -/
def Sent (cmd : BinaryRequest) (σ σ' : Session) (bs : List BinaryBody) : Prop :=
  σ'.out = σ.out ++ bs.map fun b => .binary ⟨cmd.command.toByte, cmd.opaqueBytes, b⟩

namespace Sent

variable {cmd : BinaryRequest} {σ σ' σ1 : Session} {bs : List BinaryBody}

theorem bin (σ : Session) (cmd : BinaryRequest) (b : BinaryBody) : Sent cmd σ (σ.bin cmd b) [b] := rfl

theorem binUnlessQuiet (σ : Session) (cmd : BinaryRequest) (b : BinaryBody) :
    Sent cmd σ (σ.binUnlessQuiet cmd b) (if cmd.quiet then [] else [b]) := by
  unfold Session.binUnlessQuiet
  split_ifs
  · exact (List.append_nil _).symm
  · rfl

/-- Only the output counts. -/
theorem congr {τ : Session} (h : Sent cmd σ σ' bs) (hσ : τ.out = σ.out) : Sent cmd τ σ' bs := by
  unfold Sent at h ⊢
  rw [h, hσ]

theorem trans {σ2 : Session} {cs : List BinaryBody} (h : Sent cmd σ σ1 bs) (h' : Sent cmd σ1 σ2 cs) :
    Sent cmd σ σ2 (bs ++ cs) := by
  unfold Sent at h h' ⊢
  rw [h', h, List.map_append, List.append_assoc]

theorem answer_eq (h : Sent cmd σ σ' bs) : answer σ σ' = bs.flatMap BinaryBody.packets := by
  unfold answer
  rw [h, List.drop_left, List.flatMap_map]
  rfl

end Sent

/-- A body of one packet. -/
def BinaryBody.Single (b : BinaryBody) : Prop := b.packets.length = 1

theorem single_error (st : BinaryStatus) : (BinaryBody.error st).Single := rfl

variable {b : BinaryBody} {miss : Session → Session} {deref : Nat → Option Key}

/-- One reply of one packet. -/
theorem Sent.length_single {cmd : BinaryRequest} {σ σ' : Session} (h : Sent cmd σ σ' [b])
    (hb : b.Single) : (answer σ σ').length = 1 := by
  rw [h.answer_eq, List.flatMap_singleton]
  exact hb

/-- One reply of one packet, unless the request is quiet. -/
theorem Sent.length_unlessQuiet {cmd : BinaryRequest} {σ σ' : Session}
    (h : Sent cmd σ σ' (if cmd.quiet then [] else [b])) (hb : b.Single) :
    (answer σ σ').length = if cmd.quiet then 0 else 1 := by
  split_ifs at h ⊢
  · rw [h.answer_eq]; rfl
  · exact h.length_single hb

/-! ## Refused, or done -/

/-- How a command that stores or locks ends, given what it works on (an object, the place of one, or the
    map) and the session. -/
inductive Outcome {α : Type} (cmd : BinaryRequest) (a : α) (σ : Session) : α × Session → Prop
  | refused {σ' : Session} (st : BinaryStatus) (hs : Sent cmd σ σ' [.error st])
      (hl : σ'.locks = σ.locks) : Outcome cmd a σ (a, σ')
  | done {a' : α} {σ' : Session} (b : BinaryBody) (hb : b.Single)
      (hs : Sent cmd σ σ' (if cmd.quiet then [] else [b])) (hne : a' ≠ a ∨ σ'.locks ≠ σ.locks) :
      Outcome cmd a σ (a', σ')

namespace Outcome

variable {α β : Type} {cmd : BinaryRequest} {a : α} {σ : Session} {x : α × Session}

theorem error (a : α) (σ : Session) (st : BinaryStatus) :
    Outcome cmd a σ (a, σ.bin cmd (.error st)) := .refused st (.bin σ cmd _) rfl

/-- A change, reported unless quiet, and sent to the slaves. -/
theorem stored {a' : α} (hne : a' ≠ a) {b : BinaryBody} (hb : b.Single) (msg : ReplMsg) :
    Outcome cmd a σ (a', (σ.binUnlessQuiet cmd b).repl msg) :=
  .done b hb (Sent.binUnlessQuiet σ cmd b) (.inl hne)

theorem map (h : Outcome cmd a σ x) {f : α → β} {b : β} (hb : f a = b) (hf : ∀ a', a' ≠ a → f a' ≠ b) :
    Outcome cmd b σ (f x.1, x.2) := by
  cases h with
  | refused st hs hl => exact hb ▸ .refused st hs hl
  | done body hbody hs hne => exact .done body hbody hs (hne.imp_left (hf _))

end Outcome

section Carry

variable {cmd : BinaryRequest} {m : HashMap Object} {key : Key} {σ : Session} {w : World}

end Carry

/-! ## The handlers that store or lock -/

section Handlers

variable {g : Env} {cmd : BinaryRequest} {k : KeyRef} {o : Object} {σ : Session} {r : Object × Session}

/-- The loop of `remove_lock` takes one reference out. -/
theorem length_removeLock {key : Key} {ls l : List Nat}
    (h : removeLock deref key ls = .ok l) : l.length + 1 = ls.length := by
  induction ls generalizing l with
  | nil => cases h
  | cons a ls ih =>
    rw [removeLock] at h
    cases hd : deref a with
    | none => rw [hd] at h; cases h
    | some key' =>
      simp only [hd] at h
      split_ifs at h
      · cases h; rfl
      · cases hr : removeLock deref key ls with
        | error e => rw [hr] at h; cases h
        | ok l' => rw [hr] at h; cases h; exact congrArg (· + 1) (ih hr)

/-- `release` takes a reference out of the list of locks, and sends nothing. -/
theorem release_session {key : Key} {x : Object × Session}
    (h : release g deref key o σ = .ok x) : x.2.out = σ.out ∧ x.2.locks ≠ σ.locks := by
  unfold release at h
  cases hu : o.unlock g.ctx false with
  | error e => rw [hu] at h; cases h
  | ok o' =>
    simp only [hu] at h
    cases hr : removeLock deref key σ.locks with
    | error e => rw [hr] at h; cases h
    | ok l =>
      rw [hr] at h
      cases h
      refine ⟨rfl, fun heq => ?_⟩
      have hlen := length_removeLock hr
      rw [show l = σ.locks from heq] at hlen
      omega

end Handlers

/-! ## The commands that store or lock -/

/-- The commands that store or lock, on success. -/
def BinaryCommand.changes : BinaryCommand → Bool
  | .Set | .SetQ | .Add | .AddQ | .Replace | .ReplaceQ | .RaU | .RaUQ | .Append | .AppendQ | .Prepend
  | .PrependQ | .Increment | .IncrementQ | .Decrement | .DecrementQ | .Lock | .LockQ | .Unlock
  | .UnlockQ => true
  | _ => false

section Commands

variable {g : Env} {cmd : BinaryRequest} {m : HashMap Object} {σ : Session} {w : World}

/-- The predicate of Keys sends the key of the object it is given, or nothing. -/
theorem keysPred_sent (g : Env) (cmd : BinaryRequest) (σ : Session) (c : Cell Key Object) :
    ∃ σ' bs, keysPred g cmd (itemRef c) c.val σ = .ok σ' ∧ Sent cmd σ σ' bs ∧
      ∀ b ∈ bs, b = BinaryBody.key c.key := by
  have hnone : Sent cmd σ σ [] := (List.append_nil _).symm
  unfold keysPred
  split_ifs
  · exact ⟨σ, [], rfl, hnone, by simp⟩
  · exact ⟨_, [.key c.key], rfl, Sent.bin σ cmd _, by simp⟩
  · exact ⟨σ, [], rfl, hnone, by simp⟩

/-- Keys sends keys of objects only. -/
theorem keys_sent (cells : List (Cell Key Object)) {σ' : Session}
    (h : cells.foldlM (fun st c => keysPred g cmd (itemRef c) c.val st) σ = .ok σ') :
    ∃ bs, Sent cmd σ σ' bs ∧ ∀ b ∈ bs, ∃ c ∈ cells, b = .key c.key := by
  induction cells generalizing σ with
  | nil =>
    cases h
    exact ⟨[], (List.append_nil _).symm, by simp⟩
  | cons c cells ih =>
    obtain ⟨σ1, bs, hpred, hs, hbs⟩ := keysPred_sent g cmd σ c
    rw [List.foldlM_cons, hpred] at h
    obtain ⟨bs', hs', hbs'⟩ := ih h
    refine ⟨bs ++ bs', hs.trans hs', fun b hb => ?_⟩
    rcases List.mem_append.mp hb with hb | hb
    · exact ⟨c, List.mem_cons_self, hbs b hb⟩
    · obtain ⟨d, hd, hbd⟩ := hbs' b hb
      exact ⟨d, List.mem_cons_of_mem _ hd, hbd⟩

/-- Packets with a key, and one without. -/
def Tabular (ps : List Packet) : Prop :=
  ∃ rows last, ps = rows ++ [last] ∧ (∀ p ∈ rows, p.key ≠ []) ∧ last.key = []

theorem keys_answer (hkeys : ∀ k p, m.find k = some p → k ≠ []) {σ' : Session}
    (h : HashMap.foreach m (keysPred g cmd) σ = .ok σ') : Tabular (answer σ (σ'.bin cmd .success)) := by
  obtain ⟨bs, hs, hbs⟩ := keys_sent m.cells h
  rw [(hs.trans (Sent.bin σ' cmd .success)).answer_eq, List.flatMap_append, List.flatMap_singleton]
  refine ⟨bs.flatMap BinaryBody.packets, ⟨.OK, []⟩, rfl, fun p hp => ?_, rfl⟩
  obtain ⟨b, hb, hp⟩ := List.mem_flatMap.mp hp
  obtain ⟨c, hc, rfl⟩ := hbs b hb
  rw [List.mem_singleton.mp hp]
  exact hkeys c.key c (m.mem_cells_iff.mp hc)

theorem stats_answer (kind : StatsKind) (n : Nat) : Tabular (answer σ (σ.bin cmd (.stats kind n))) := by
  rw [(Sent.bin σ cmd _).answer_eq, List.flatMap_singleton]
  refine ⟨_, ⟨.OK, []⟩, rfl, fun p hp => ?_, rfl⟩
  obtain ⟨name, hname, rfl⟩ := List.mem_map.mp hp
  exact statNames_ne_nil kind name hname

/-- A command that stores or locks has failed: the store and the connection's locks are what they were. -/
def Fails (m : HashMap Object) (σ : Session) (w : World) : Prop := w.1 = m ∧ w.2.locks = σ.locks

theorem Outcome.answer (h : Outcome cmd m σ w) :
    (Fails m σ w → (answer σ w.2).length = 1) ∧
      (¬ Fails m σ w → (Memcache.answer σ w.2).length = if cmd.quiet then 0 else 1) := by
  cases h with
  | refused st hs hl =>
    exact ⟨fun _ => hs.length_single (single_error st), fun hf => absurd ⟨rfl, hl⟩ hf⟩
  | done b hb hs hne =>
    refine ⟨fun hf => ?_, fun _ => hs.length_unlessQuiet hb⟩
    rcases hne with hne | hne
    · exact absurd hf.1 hne
    · exact absurd hf.2 hne

/-- The get family. -/
def BinaryCommand.gets : List BinaryCommand :=
  [.Get, .GetQ, .GetK, .GetKQ, .GaT, .GaTQ, .GaTK, .GaTKQ, .LaG, .LaGQ, .LaGK, .LaGKQ]

theorem cmdBin_get (hst : cmd.status = .OK) (hcmd : cmd.command ∈ BinaryCommand.gets) :
    cmdBin g cmd m σ = applyOr m cmd.key (getHandler g cmd) none (getMiss cmd) σ := by
  unfold cmdBin
  rw [if_neg (not_not.mpr hst)]
  simp only [BinaryCommand.gets, List.mem_cons, List.not_mem_nil, or_false] at hcmd
  rcases hcmd with h | h | h | h | h | h | h | h | h | h | h | h <;> rw [h]

theorem table_answer (hnamed : Every (fun k _ => k ≠ []) m) (hst : cmd.status = .OK)
    (hcmd : cmd.command ∈ [.Stat, .Keys]) (hw : cmdBin g cmd m σ = .ok w) : Tabular (answer σ w.2) := by
  unfold cmdBin at hw
  rw [if_neg (not_not.mpr hst)] at hw
  simp only [List.mem_cons, List.not_mem_nil, or_false] at hcmd
  rcases hcmd with hcmd | hcmd
  · rw [hcmd] at hw
    cases hw
    exact stats_answer _ _
  · simp only [hcmd] at hw
    cases hf : HashMap.foreach m (keysPred g cmd) σ with
    | error e => rw [hf] at hw; cases hw
    | ok σ' =>
      rw [hf] at hw
      cases hw
      exact keys_answer hnamed hf

end Commands

/-! ## Runs -/

/-- The request has no packet to send, if it is carried out. -/
def Server.Silent (s : Server) (conn : Conn) (slaves : List Nat) (cmd : BinaryRequest) : Prop :=
  ∀ w, (Cmd.bin cmd).exec (s.env conn.fd) s.hash (s.session conn slaves) = .ok w →
    answer (s.session conn slaves) w.2 = []

/-- A Set of "a" under "x", as it arrives: the header, 8 bytes of extras, the key and the data. -/
def setXBytes : Bytes :=
  [0x80, 0x01, 0, 1, 8, 0, 0, 0, 0, 0, 0, 10] ++ List.replicate 20 0 ++ [120, 97]

end Yrmcds.Memcache
