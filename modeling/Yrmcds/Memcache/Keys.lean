/-
  Stored keys are 1 to 250 bytes long, on masters and on the slaves that follow them
  (src/memcache/memcache.cpp, src/memcache/replication.cpp).

  The hash map takes keys of any length.  On a master the PARSERS keep the empty key out (Named.lean) and
  the command handlers the long ones.  A slave has no such checks: `repl_recv` stores under whatever key
  the parser reports, even for a message that the parser rejects, and an empty key would get in there.  So
  the bound on a slave's keys is a property of the STREAM:

  * `exec_tells`: a command sends messages about keys that are in the map before it or after it, and so
    does a visit of the garbage collector; hence every message names a key that was legal (`Legal.step`);
  * `readMessages_wire`: a stream of such messages, cut off anywhere and cut up in any way, is read as the
    messages it was made of, with their keys, as long as each length fits its field.

  A slave that is promoted goes on as a master with the map it has, and may have slaves of its own:
  `Reached` is closed under both.
-/
import Yrmcds.Memcache.Replies
import Yrmcds.Loops

namespace Yrmcds.Memcache

open ChainTable BigEndian Run

/-- A key as it may be stored. -/
def LegalKey (k : Key) : Prop := 1 ≤ k.length ∧ k.length ≤ MAX_KEY_LENGTH

/-- Every stored key is legal. -/
def LegalKeys (m : HashMap Object) : Prop := ∀ k p, m.find k = some p → LegalKey k

/-! ## The keys of a map -/

/-- The keys under which something is stored. -/
def stored (m : HashMap Object) : Set Key := {k | view m k ≠ none}

section

variable {m m' : HashMap Object} {k : Key} {p : Cell Key Object}

theorem mem_stored_iff : k ∈ stored m ↔ ∃ p, m.find k = some p := by
  show (m.find k).map (fun p => p.val.item) ≠ none ↔ _
  rw [ne_eq, Option.map_eq_none_iff, ← ne_eq, ← Option.isSome_iff_ne_none, Option.isSome_iff_exists]

theorem mem_stored_of_find (hp : m.find k = some p) : k ∈ stored m := mem_stored_iff.mpr ⟨p, hp⟩

theorem legalKeys_iff : LegalKeys m ↔ ∀ k ∈ stored m, LegalKey k := by
  unfold LegalKeys
  simp only [mem_stored_iff, forall_exists_index]

/-- A change under one key. -/
theorem stored_of_update {i : Option Item} (h : view m' = Function.update (view m) k i) :
    stored m' ⊆ insert k (stored m) := by
  intro l hl
  by_cases hlk : l = k
  · exact .inl hlk
  · refine .inr ?_
    show view m l ≠ none
    rw [← Function.update_of_ne hlk i (view m), ← h]
    exact hl

theorem stored_write (hp : m.find k = some p) (o : Object) : stored (m.write p.addr o) = stored m := by
  ext l
  show view (m.write p.addr o) l ≠ none ↔ view m l ≠ none
  rw [view_write hp]
  by_cases hlk : l = k
  · subst hlk
    rw [Function.update_self, view_of_find hp]
    exact iff_of_true (Option.some_ne_none _) (Option.some_ne_none _)
  · rw [Function.update_of_ne hlk]

end

/-! ## What a command sends -/

/-- Every message that is new is about a key of the map, before or after. -/
def Tells (w w' : World) : Prop :=
  ∀ x, ∀ msg ∈ messagesTo x w'.2.log,
    msg ∈ messagesTo x w.2.log ∨ msg.key ∈ stored w.1 ∨ msg.key ∈ stored w'.1

section

variable {g : Env} {n l : Bool} {w w' : World}

theorem tells_of_chat {m m' : HashMap Object} {σ s σ' : Session} (hc : Chat s σ')
    (hlog : s.log = σ.log) : Tells (m, σ) (m', σ') := by
  intro x msg hmsg
  refine .inl ?_
  show msg ∈ messagesTo x σ.log
  rw [← hlog, ← hc.log]
  exact hmsg

theorem tells_of_repl {m m' : HashMap Object} {σ s σ' : Session} {msg : ReplMsg} (hc : Chat (s.repl msg) σ')
    (hlog : s.log = σ.log) (hkey : msg.key ∈ stored m ∨ msg.key ∈ stored m') : Tells (m, σ) (m', σ') := by
  intro x msg' hmsg
  have hsent : messagesTo x σ'.log = messagesTo x σ.log ++ if x ∈ s.slaves then [msg] else [] := by
    rw [hc.log, ← hlog]
    exact messagesTo_sendTo x s.slaves msg s.log
  rw [show messagesTo x (m', σ').2.log = _ from hsent] at hmsg
  rcases List.mem_append.mp hmsg with hold | hnew
  · exact .inl hold
  · split_ifs at hnew
    · rw [List.mem_singleton.mp hnew]
      exact .inr hkey
    · cases hnew

theorem prim_tells (hs : Prim g l w w') : Tells w w' := by
  cases hs with
  | chat hc => exact tells_of_chat hc rfl
  | flush t hc => exact tells_of_chat hc rfl
  | unlockAll hu hc => exact tells_of_chat hc rfl
  | @obj _ m σ σ' k p o' hp hstep =>
    have hkey : (itemRef p).key ∈ stored m := by
      rw [itemRef_key, m.find_key hp]
      exact mem_stored_of_find hp
    cases hstep with
    | chat hc | access hc | lock _ hc | unlock _ _ hc => exact tells_of_chat hc rfl
    | touch t hc => exact tells_of_repl hc rfl (.inl hkey)
    | store _ _ _ hc => exact tells_of_repl hc rfl (.inl hkey)
  | @create m σ σ' k o hk hlen hlock hcas hc =>
    exact tells_of_repl hc rfl (.inr (mem_stored_of_find (m.find_push_self o hk)))
  | remove hp hl hr hc => exact tells_of_repl hc rfl (.inl (mem_stored_of_find hp))

/-- Only loud steps change the set of keys. -/
theorem prim_quiet_stored (hs : Prim g false w w') : stored w'.1 = stored w.1 := by
  cases hs with
  | chat hc => rfl
  | flush t hc => rfl
  | obj hp hstep => exact stored_write hp _
  | unlockAll hu hc =>
    unfold stored
    rw [view_unlockLoop hu]

/-- By induction on the steps.  A created key could be removed again and be in neither map; but a command
    has ONE loud step, and after it the keys are those of the final map. -/
theorem effects_tells (h : Effects g n w (.ok w')) :
    Tells w w' ∧ (n = false → stored w'.1 = stored w.1) := by
  generalize hx : Except.ok w' = x at h
  induction h with
  | done =>
    cases hx
    exact ⟨fun x msg hmsg => .inl hmsg, fun _ => rfl⟩
  | quiet hs hr ih =>
    obtain ⟨htells, hsame⟩ := ih hx
    have hquiet := prim_quiet_stored hs
    refine ⟨fun x msg hmsg => ?_, fun hn => (hsame hn).trans hquiet⟩
    rcases htells x msg hmsg with hold | hkey | hkey
    · rcases prim_tells hs x msg hold with hold | hkey | hkey
      · exact .inl hold
      · exact .inr (.inl hkey)
      · exact .inr (.inl (hquiet ▸ hkey))
    · exact .inr (.inl (hquiet ▸ hkey))
    · exact .inr (.inr hkey)
  | loud hs hr ih =>
    obtain ⟨htells, hsame⟩ := ih hx
    have hrest := hsame rfl
    refine ⟨fun x msg hmsg => ?_, fun hn => nomatch hn⟩
    rcases htells x msg hmsg with hold | hkey | hkey
    · rcases prim_tells hs x msg hold with hold | hkey | hkey
      · exact .inl hold
      · exact .inr (.inl hkey)
      · exact .inr (.inr (hrest ▸ hkey))
    · exact .inr (.inr (hrest ▸ hkey))
    · exact .inr (.inr hkey)
  | fail _ => cases hx

/-- **A command tells its slaves about keys of the map only.** -/
theorem exec_tells {r : Cmd} {m : HashMap Object} {σ : Session} (h : r.exec g m σ = .ok w') :
    Tells (m, σ) w' := by
  have heff := exec_effects g r m σ
  rw [h] at heff
  exact (effects_tells heff).1

/-! ## Long keys -/

/-- No key is longer than `MAX_KEY_LENGTH`. -/
abbrev Short (m : HashMap Object) : Prop := Every (fun k _ => k.length ≤ MAX_KEY_LENGTH) m

theorem short_stable : Stable fun k (_ : Object) => k.length ≤ MAX_KEY_LENGTH :=
  ⟨fun _ h => h, fun _ h => h, fun h => h, fun h => h⟩

theorem removeLock_error {deref : Nat → Option Key} {k : Key} {ls : List Nat} {e : Err}
    (h : removeLock deref k ls = .error e) : e ≠ .maxKeyLength := by
  induction ls with
  | nil => cases h; decide
  | cons a ls ih =>
    rw [removeLock] at h
    cases hd : deref a with
    | none =>
      rw [hd] at h
      cases h
      decide
    | some k' =>
      simp only [hd] at h
      split_ifs at h
      cases hr : removeLock deref k ls with
      | ok l => rw [hr] at h; cases h
      | error e' =>
        rw [hr] at h
        cases h
        exact ih hr

theorem unlockLoop_error {ctx : Int} {force : Bool} {ls : List Nat} {e : Err} :
    ∀ {m : HashMap Object}, unlockLoop ctx force m ls = .error e → e ≠ .maxKeyLength := by
  induction ls with
  | nil => intro m h; cases h
  | cons a ls ih =>
    intro m h
    rw [unlockLoop] at h
    cases hd : m.deref a with
    | none =>
      rw [hd] at h
      cases h
      decide
    | some key =>
      simp only [hd] at h
      cases hp : m.find key with
      | none =>
        rw [HashMap.apply_absent hp] at h
        exact ih h
      | some p =>
        rw [HashMap.apply_found hp] at h
        unfold unlockHandler Object.unlock at h
        split_ifs at h
        · cases h
          decide
        · exact ih h

/-- **The throw of `text_response::value` is not reached** where no long key is stored. -/
theorem exec_ne_maxKeyLength {m : HashMap Object} (h : Short m) (r : Cmd) (σ : Session) :
    r.exec g m σ ≠ .error .maxKeyLength := by
  intro hx
  have heff := exec_effects g r m σ
  rw [hx] at heff
  refine heff.error_of (P := fun w => Short w.1) (Q := (· ≠ .maxKeyLength)) ?_ ?_ h rfl
  · exact fun l w w' hs hw => prim_keys hs hw
  · intro w e hf hw
    cases hf with
    | removeLock hp hl hr => exact removeLock_error hr
    | keyLength hp hk => exact absurd (hw _ _ hp) (Nat.not_le.mpr hk)
    | unlockAll hu => exact unlockLoop_error hu

end

/-! ## The master -/

/-- Stored keys are legal, and so is every key a slave was ever told. -/
structure Server.Legal (s : Server) : Prop where
  named : s.Named
  short : Short s.hash
  told : ∀ x, ∀ msg ∈ messagesTo x s.log, LegalKey msg.key

namespace Server.Legal

variable {s s' : Server} {e : Event}

theorem keys (h : s.Legal) : LegalKeys s.hash :=
  fun k p hp => ⟨List.length_pos_of_ne_nil (h.named k p hp), h.short k p hp⟩

theorem short_step (h : s.Legal) (hs : s.step e = .ok s') : Short s'.hash := by
  cases e with
  | cmd c slaves r =>
    cases stepped_of_step hs with
    | idle => exact h.short
    | @cmd _ conn _ _ w hc hw =>
      have heff := exec_effects (s.env conn.fd) r s.hash (s.session conn slaves)
      rw [hw] at heff
      exact heff.preserves (P := fun w => Short w.1) (fun l w w' hs hw => prim_keys hs hw) h.short
  | _ =>
    refine Server.step_every short_stable h.short ?_ hs
    intro c slaves r he
    cases he

/-- The messages, from the keys of the two maps. -/
theorem told_step (h : s.Legal) (hkeys : LegalKeys s'.hash) (hs : s.step e = .ok s') :
    ∀ x, ∀ msg ∈ messagesTo x s'.log, LegalKey msg.key := by
  intro x msg hmsg
  cases stepped_of_step hs with
  | idle | accept | tick | gcStart | close => exact h.told x msg hmsg
  | cmd hc hw =>
    rcases exec_tells hw x msg hmsg with hold | hkey | hkey
    · exact h.told x msg hold
    · exact legalKeys_iff.mp h.keys _ hkey
    · exact legalKeys_iff.mp hkeys _ hkey
  | @gcNext t ht =>
    by_cases hnext : t.next < s.hash.buckets.length
    · rw [gcStep_log s t hnext] at hmsg
      rcases List.mem_append.mp hmsg with hold | hnew
      · exact h.told x msg hold
      · -- the visit sends keys of the bucket
        obtain ⟨c, hc, hsent⟩ := List.mem_flatMap.mp hnew
        rw [gcSent_key x t.pass s.now s.flushTime c msg hsent]
        exact h.keys c.key c (s.hash.mem_bucket_iff.mp hc).1
    · unfold Server.gcStep at hmsg
      rw [if_neg hnext] at hmsg
      exact h.told x msg hmsg

/-- **Step.** -/
theorem step (h : s.Legal) (he : ∀ c slaves r, e = .cmd c slaves r → r.Received)
    (hs : s.step e = .ok s') : s'.Legal := by
  have hnamed : s'.Named := h.named.step he hs
  have hshort := h.short_step hs
  have hkeys : LegalKeys s'.hash :=
    fun k p hp => ⟨List.length_pos_of_ne_nil (hnamed k p hp), hshort k p hp⟩
  exact ⟨hnamed, hshort, h.told_step hkeys hs⟩

end Server.Legal

/-- A master that starts with the map `m`: no connections, nothing sent. -/
def Server.starting (m : HashMap Object) (config : Config) (gcConfig : GcConfig) (now : Int) : Server where
  hash := m
  conns := fun _ => none
  config := config
  gcConfig := gcConfig
  now := now

theorem legal_starting {m : HashMap Object} (h : LegalKeys m) (config : Config) (gcConfig : GcConfig)
    (now : Int) : (Server.starting m config gcConfig now).Legal where
  named := fun k p hp => List.ne_nil_of_length_pos (h k p hp).1
  short := fun k p hp => (h k p hp).2
  told := by
    intro x msg hmsg
    cases hmsg

/-! ## The slave -/

/-- The length that follows the header fits its field. -/
def ReplMsg.Announced (msg : ReplMsg) : Prop := msg.wire.length - BINARY_HEADER_SIZE < 2 ^ 32

/-- Every message is one frame. -/
theorem ReplMsg.wire_eq (msg : ReplMsg) : ∃ (extras data : Bytes) (cmd : BinaryCommand),
    extras.length < 256 ∧ msg.wire = fillHeader msg.key.length extras.length data.length cmd ++
      (extras ++ (msg.key ++ data)) := by
  cases msg with
  | set k d f t =>
    refine ⟨encode 4 f.toNat ++ encode 4 (exptime32 t).toNat, d, .SetQ, by simp, ?_⟩
    rw [ReplMsg.wire, List.length_append, length_encode, length_encode, List.append_assoc]
    rfl
  | touch k t =>
    refine ⟨encode 4 (exptime32 t).toNat, [], .Touch, by simp, ?_⟩
    rw [ReplMsg.wire, length_encode, List.append_nil]
    rfl
  | delete k =>
    refine ⟨[], [], .DeleteQ, by simp, ?_⟩
    rw [ReplMsg.wire, List.append_nil]
    rfl

section

variable (now : Int) {limit : Nat}

/-- A slave that has a message complete reads it, with its key. -/
theorem nextMessage_wire {msg : ReplMsg} (hk : msg.key.length ≤ MAX_KEY_LENGTH) (hlen : msg.Announced)
    (rest : Bytes) :
    ∃ r, nextMessage now (msg.wire ++ rest) = some (msg.wire.length, r) ∧ r.key = msg.key := by
  obtain ⟨extras, data, cmd, hX, hwire⟩ := msg.wire_eq
  have hsize : msg.wire.length = BINARY_HEADER_SIZE + (msg.key.length + extras.length + data.length) := by
    rw [hwire]
    simp only [List.length_append, length_fillHeader]
    omega
  have hT : msg.key.length + extras.length + data.length < 2 ^ 32 := by
    unfold ReplMsg.Announced at hlen
    omega
  have hp : msg.wire ++ rest = fillHeader msg.key.length extras.length data.length cmd ++
      (extras ++ (msg.key ++ (data ++ rest))) := by
    rw [hwire]
    simp only [List.append_assoc]
  obtain ⟨hl, hkey⟩ := parse_frame_key now rest extras msg.key data cmd hX hk hT hp
  have hne : msg.wire ++ rest ≠ [] := by
    rw [hp]
    exact List.cons_ne_nil _ _
  have hmagic : (msg.wire ++ rest).head hne = 0x80 := by
    simp only [hp]
    rfl
  refine ⟨BinaryRequest.parse now (msg.wire ++ rest), ?_, hkey⟩
  have hpos : (BinaryRequest.parse now (msg.wire ++ rest)).length ≠ 0 := by
    rw [hl]
    simp [BINARY_HEADER_SIZE]
  rw [hsize, ← hl]
  exact (nextMessage_of_magic hne hmagic now).trans (if_neg hpos)

/-- **What a slave reads of a stream of legal messages has legal keys**, whatever part `q` of the stream it
    has, and what it keeps for later is the beginning of messages that are still to come.  By induction on
    the messages: the first is complete, or the slave waits. -/
theorem readMessages_wire {msgs : List ReplMsg}
    (hmsgs : ∀ msg ∈ msgs, LegalKey msg.key ∧ msg.Announced) {q y : Bytes}
    (h : q ++ y <+: msgs.flatMap ReplMsg.wire) :
    (∀ r ∈ (readMessages now q).1, LegalKey r.key) ∧
      ∃ later ⊆ msgs, (readMessages now q).2 ++ y <+: later.flatMap ReplMsg.wire := by
  induction msgs generalizing q with
  | nil =>
    have hnil : q ++ y = [] := List.prefix_nil.mp h
    obtain ⟨rfl, rfl⟩ := List.append_eq_nil_iff.mp hnil
    rw [readMessages_none rfl]
    exact ⟨by simp, [], List.Subset.refl _, List.prefix_rfl⟩
  | cons msg msgs ih =>
    obtain ⟨hlegal, hlen⟩ := hmsgs msg List.mem_cons_self
    obtain ⟨z, hz⟩ := h
    rw [List.flatMap_cons, List.append_assoc] at hz
    obtain ⟨r, hnext, hkey⟩ := nextMessage_wire now hlegal.2 hlen (msgs.flatMap ReplMsg.wire)
    have hpart := nextMessage_part now q (y ++ z)
    rw [hz, hnext, Option.filter_some] at hpart
    by_cases hfull : msg.wire.length ≤ q.length
    · -- complete: the rest of `q` is the beginning of the other messages
      rw [if_pos (decide_eq_true hfull)] at hpart
      have hq : q = msg.wire ++ q.drop msg.wire.length := by
        have htake : q.take msg.wire.length = msg.wire := by
          have := congrArg (List.take msg.wire.length) hz
          rwa [List.take_append_of_le_length hfull, List.take_left] at this
        rw [← htake, List.length_take, Nat.min_eq_left hfull, List.take_append_drop]
      have hrest : q.drop msg.wire.length ++ y <+: msgs.flatMap ReplMsg.wire := by
        refine ⟨z, ?_⟩
        rw [hq, List.append_assoc] at hz
        rw [List.append_assoc]
        exact List.append_cancel_left hz
      obtain ⟨hkeys, later, hsub, hlater⟩ := ih (fun m hm => hmsgs m (List.mem_cons_of_mem _ hm)) hrest
      rw [readMessages_some hpart]
      refine ⟨fun r' hr' => ?_, later, fun m hm => List.mem_cons_of_mem _ (hsub hm), hlater⟩
      rcases List.mem_cons.mp hr' with rfl | hr'
      · rw [hkey]
        exact hlegal
      · exact hkeys r' hr'
    · rw [if_neg (by simpa using hfull)] at hpart
      rw [readMessages_none hpart]
      refine ⟨by simp, msg :: msgs, List.Subset.refl _, z, ?_⟩
      rw [List.flatMap_cons, List.append_assoc]
      exact hz

/-- `repl_recv` stores under the key of the request. -/
theorem stored_replExec (m : HashMap Object) (r : BinaryRequest) :
    stored (replExec limit m r) ⊆ insert r.key (stored m) := by
  unfold replExec
  split
  · exact stored_of_update (view_replSet ..)
  · exact stored_of_update (view_replTouch ..)
  · exact stored_of_update (view_replRemove ..)
  · exact Set.subset_insert _ _

theorem legalKeys_foldl {rs : List BinaryRequest} (hrs : ∀ r ∈ rs, LegalKey r.key) :
    ∀ {m : HashMap Object}, LegalKeys m → LegalKeys (rs.foldl (replExec limit) m) := by
  induction rs with
  | nil => exact fun h => h
  | cons r rs ih =>
    intro m h
    refine ih (fun r' hr' => hrs r' (List.mem_cons_of_mem _ hr')) (legalKeys_iff.mpr fun k hk => ?_)
    rcases stored_replExec m r hk with rfl | hk
    · exact hrs r List.mem_cons_self
    · exact legalKeys_iff.mp h k hk

end

namespace ReplClient

/-- `on_readable` again and again: pieces of the stream, each with the slave's clock. -/
def receive (limit : Nat) (c : ReplClient) (pieces : List (Int × Bytes)) : ReplClient :=
  pieces.foldl (fun c p => c.onReadable p.1 limit p.2) c

/-- **Run.**  What the slave has kept, followed by what it has yet to receive, is the beginning of legal
    messages. -/
theorem legalKeys_receive {limit : Nat} (pieces : List (Int × Bytes)) :
    ∀ {c : ReplClient} {msgs : List ReplMsg}, (∀ msg ∈ msgs, LegalKey msg.key ∧ msg.Announced) →
      (c.failed = false → c.recvbuf ++ pieces.flatMap Prod.snd <+: msgs.flatMap ReplMsg.wire) →
      LegalKeys c.hash → LegalKeys (c.receive limit pieces).hash := by
  induction pieces with
  | nil => exact fun _ _ h => h
  | cons p pieces ih =>
    intro c msgs hmsgs hstream h
    show LegalKeys (receive limit (c.onReadable p.1 limit p.2) pieces).hash
    unfold onReadable
    cases hf : c.failed with
    | true =>
      rw [if_pos rfl]
      exact ih hmsgs (fun hf' => absurd (hf.symm.trans hf') (by decide)) h
    | false =>
      rw [if_neg Bool.false_ne_true]
      have hpre := hstream hf
      rw [List.flatMap_cons, ← List.append_assoc] at hpre
      obtain ⟨hkeys, later, hsub, hlater⟩ := readMessages_wire p.1 hmsgs hpre
      exact ih (fun msg hm => hmsgs msg (hsub hm)) (fun _ => hlater) (legalKeys_foldl hkeys h)

/-- The client of a slave that `s` knows as `x`: it began with an empty map (`clear`), and has received
    some of what was sent to it, in some pieces. -/
def Follows (c : ReplClient) (x : Nat) (s : Server) : Prop :=
  ∃ (m : HashMap Object) (limit : Nat) (pieces : List (Int × Bytes)), (∀ k, m.find k = none) ∧
    pieces.flatMap Prod.snd <+: (messagesTo x s.log).flatMap ReplMsg.wire ∧
    c = receive limit { hash := m } pieces

theorem Follows.legalKeys {c : ReplClient} {x : Nat} {s : Server} (hf : c.Follows x s) (h : s.Legal)
    (hlen : ∀ msg ∈ messagesTo x s.log, msg.Announced) : LegalKeys c.hash := by
  obtain ⟨m, limit, pieces, hempty, hpre, rfl⟩ := hf
  refine legalKeys_receive pieces (fun msg hmsg => ⟨h.told x msg hmsg, hlen msg hmsg⟩) (fun _ => hpre) ?_
  intro k p hp
  rw [show m.find k = none from hempty k] at hp
  cases hp

end ReplClient

/-! ## Masters, slaves, and slaves that become masters -/

/-- The masters there can be: one that boots, one that goes on with commands from its clients, and a slave
    of such a master that is promoted, no message to it having been too long for its header. -/
inductive Reached : Server → Prop
  | boot (hash : Key → Nat) (alloc : List Nat → Nat) (fresh : ∀ live, alloc live ∉ live) (n : Nat)
      (config : Config) (gcConfig : GcConfig) (now : Int) :
      Reached (Server.init hash alloc fresh n config gcConfig now)
  | step {s s' : Server} {e : Event} (h : Reached s)
      (he : ∀ c slaves r, e = .cmd c slaves r → r.Received) (hs : s.step e = .ok s') : Reached s'
  | promote {s : Server} {x : Nat} {client : ReplClient} (h : Reached s) (hf : client.Follows x s)
      (hlen : ∀ msg ∈ messagesTo x s.log, msg.Announced) (config : Config) (gcConfig : GcConfig)
      (now : Int) : Reached (Server.starting client.hash config gcConfig now)

theorem Reached.legal {s : Server} (h : Reached s) : s.Legal := by
  induction h with
  | boot hash alloc fresh n config gcConfig now =>
    refine legal_starting (m := Table.empty hash alloc fresh n) ?_ config gcConfig now
    intro k p hp
    rw [Table.find_empty] at hp
    cases hp
  | step _ he hs ih => exact ih.step he hs
  | promote _ hf hlen config gcConfig now ih =>
    exact legal_starting (hf.legalKeys ih hlen) config gcConfig now

/-- Keys is always answered. -/
theorem keys_ok {g : Env} {cmd : BinaryRequest} (hst : cmd.status = .OK) (hcmd : cmd.command = .Keys)
    (m : HashMap Object) (σ : Session) : ∃ w, (Cmd.bin cmd).exec g m σ = .ok w := by
  obtain ⟨σ', hσ⟩ := foreach_ok (m := m)
    (fun _ p σ _ => (keysPred_chat g cmd (itemRef p) p.val σ).imp fun _ h => h.1) σ
  show ∃ w, cmdBin g cmd m σ = .ok w
  unfold cmdBin
  rw [if_neg (not_not.mpr hst), hcmd]
  dsimp only
  rw [hσ]
  exact ⟨_, rfl⟩

/-- **Stored keys are 1 to 250 bytes long**, on every master and on every slave that follows it.  So no
    command runs into the throw of `text_response::value`, and in the answer to Keys the packet with the
    empty key is the last one and no other. -/
theorem stored_keys {s : Server} (h : Reached s) :
    (∀ k p, s.hash.find k = some p → 1 ≤ k.length ∧ k.length ≤ MAX_KEY_LENGTH) ∧
    (∀ (x : Nat) (client : ReplClient), (∀ msg ∈ messagesTo x s.log, msg.Announced) →
      client.Follows x s → ∀ k p, client.hash.find k = some p → 1 ≤ k.length ∧ k.length ≤ MAX_KEY_LENGTH) ∧
    ∀ (c : Nat) (conn : Conn) (slaves : List Nat), s.conns c = some conn →
      (∀ r : Cmd, r.exec (s.env conn.fd) s.hash (s.session conn slaves) ≠ .error .maxKeyLength) ∧
      ∀ cmd : BinaryRequest, cmd.status = .OK → cmd.command = .Keys →
        ∃ w, (Cmd.bin cmd).exec (s.env conn.fd) s.hash (s.session conn slaves) = .ok w ∧
          Tabular (answer (s.session conn slaves) w.2) := by
  have hlegal := h.legal
  refine ⟨hlegal.keys, fun x client hlen hf => hf.legalKeys hlegal hlen, fun c conn slaves hc => ⟨?_, ?_⟩⟩
  · exact fun r => exec_ne_maxKeyLength hlegal.short r _
  · intro cmd hst hcmd
    obtain ⟨w, hw⟩ := keys_ok (g := s.env conn.fd) hst hcmd s.hash (s.session conn slaves)
    exact ⟨w, hw, table_answer hlegal.named hst (by rw [hcmd]; decide) hw⟩

/-- What a slave is told of "a" under "x". -/
def tellX : ReplMsg := .set [120] [97] 0 0

/-- A client stores "x" at a master with one slave, which has received half of the message, and then the
    rest, when it is promoted: it has "x", and keys of 1 to 250 bytes only. -/
theorem stored_keys_promoted : ∃ s : Server, Reached s ∧ s.hash.find [120] ≠ none ∧
    ∀ k p, s.hash.find k = some p → 1 ≤ k.length ∧ k.length ≤ MAX_KEY_LENGTH := by
  have hboot : Reached smallServer := .boot ..
  have hrec : (Cmd.bin (BinaryRequest.parse 100 setXBytes)).Received :=
    ⟨100, Memory.clean, setXBytes, 34, rfl⟩
  obtain ⟨s, hs, hlog⟩ : ∃ s, Reached s ∧ messagesTo 7 s.log = [tellX] := by
    have haccept : Reached _ := hboot.step (e := .accept 1 5) (by intro c slaves r he; cases he) rfl
    refine ⟨_, haccept.step (e := .cmd 1 [7] (.bin (BinaryRequest.parse 100 setXBytes))) ?_ rfl, by decide⟩
    intro c slaves r he
    cases he
    exact hrec
  have hwire : tellX.wire.length = 34 := by decide
  have hreach : Reached (Server.starting (ReplClient.receive 100 { hash := smallServer.hash }
      [(100, tellX.wire.take 20), (101, tellX.wire.drop 20)]).hash
      smallServer.config smallServer.gcConfig 102) := by
    refine hs.promote (x := 7) ⟨_, 100, _, fun k => ?_, ?_, rfl⟩ ?_ _ _ _
    · exact Table.find_empty ..
    · rw [hlog]
      decide
    · intro msg hmsg
      rw [hlog, List.mem_singleton] at hmsg
      subst hmsg
      unfold ReplMsg.Announced
      rw [hwire]
      decide
  exact ⟨_, hreach, by decide, (stored_keys hreach).1⟩

end Yrmcds.Memcache
