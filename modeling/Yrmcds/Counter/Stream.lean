/-
  The stream of replies of a counter connection (docs/counter.md, "Response header"; src/counter/counter.cpp,
  `response`).

  `Packet.bytes` is what the response functions send.  `Frame.render` is the documented format.  `Answered` says what the answer to a request should be: frames with the opcode and the opaque bytes of the
  request — one frame, or for a Dump one for each counter, with its name, and one with an empty body.

  Requests are raw bytes, and two of them are answered otherwise:

  1. a request with the right magic and an opcode that is none of the six.  `request::parse` stores
     `command::Unknown`, which is 0x12, in `m_command`, and `fill_header` copies THAT into the reply;
  2. a `Release` where the connection has recorded more than the counter has given out (after a sum
     that wrapped around): the `logic_error` stops the server before there is a reply.

  `stream_iff`: in every run, all requests are answered as they should exactly if none is one of the two.
-/
import Yrmcds.Counter.Documented

namespace Yrmcds.Counter

open ChainTable BigEndian Run

/-! ## The format -/

/-- A response as documented: `Magic` and `Reserved` are constants, `Body length` is the length. -/
structure Frame where
  opcode : UInt8
  status : UInt8
  opaqueBytes : Bytes
  body : Bytes
deriving DecidableEq, Repr

namespace Frame

/-- 12 bytes of header, and the body. -/
def render (f : Frame) : Bytes :=
  [0x91, f.opcode, f.status, 0x00] ++ (encode 4 f.body.length ++ (f.opaqueBytes ++ f.body))

/-- `Opaque` has four bytes, and the length has room in its field. -/
def Fits (f : Frame) : Prop := f.opaqueBytes.length = 4 ∧ f.body.length < 2 ^ 32

/-- The body of a Dump reply, read by a client: consumption, maximum, length of the name, name. -/
def Carries (f : Frame) (name : Key) : Prop :=
  f.body ≠ [] ∧ slice 10 (decode (slice 8 2 f.body)) f.body = name

end Frame

/-- **The answer to a request**, as it should be.  `m` has the counters at that moment. -/
def Answered (m : HashMap Object) (buf : Bytes) (bytes : Bytes) : Prop :=
  ∃ fs : List Frame, bytes = fs.flatMap Frame.render ∧
    (∀ f ∈ fs, f.Fits ∧ f.opcode = buf.getD 1 0 ∧ f.opaqueBytes = slice 8 4 buf) ∧
    if buf.getD 0 0 = REQUEST_MAGIC ∧ buf.getD 1 0 = 0x11 then
      ∃ ds last, fs = ds ++ [last] ∧ List.Forall₂ (fun c f => f.Carries c.key) m.cells ds ∧ last.body = []
    else fs.length = 1

/-! ## What is sent -/

/-- The first byte of a response. -/
def RESPONSE_MAGIC : UInt8 := 0x91

/-- `fill_header` and the body. -/
def Packet.bytes (p : Packet) : Bytes :=
  [RESPONSE_MAGIC, p.opcode, p.status.toByte, 0]
    ++ (encode 4 (UInt32.ofNat p.body.length).toNat ++ (p.opaqueBytes ++ p.body))

/-- Everything a connection has sent. -/
def Socket.stream (s : Socket) : Bytes := s.sent.flatMap Packet.bytes

/-- What the header of a response is to say. -/
def Packet.frame (p : Packet) : Frame := ⟨p.opcode, p.status.toByte, p.opaqueBytes, p.body⟩

theorem Packet.bytes_eq {p : Packet} (h : p.body.length < 2 ^ 32) : p.bytes = p.frame.render := by
  unfold Packet.bytes Frame.render
  rw [UInt32.toNat_ofNat_of_lt' h]
  rfl

theorem Socket.stream_append {s s' : Socket} {ps : List Packet} (h : s'.sent = s.sent ++ ps) :
    s'.stream = s.stream ++ ps.flatMap Packet.bytes := by
  unfold Socket.stream
  rw [h, List.flatMap_append]

/-! ## The run

  `g_stats` changes all the time; a Stats reply has its figures in it, so they may change between any two
  events here. -/

/-- The figures as `std::to_string` writes them. -/
def Env.withFigures (g : Env) (f : String → UInt64) : Env :=
  { g with stat := fun name => Nat.repr (f name).toNat }

/-- Between two events the statistics may have any values. -/
inductive Happening where
  | figures (f : String → UInt64)
  | event (e : Event)

/-- ... and do not change anything else. -/
def State.happen (s : State) : Happening → Except Err State
  | .figures f => .ok { s with env := s.env.withFigures f }
  | .event e => step s e

/-- **What the stream of every connection owes to one event**: an executed request appends its answer to the
    stream of its connection; nothing else appends anything anywhere. -/
def Replies (s : State) : Happening → Prop
  | .event (.request c buf) =>
    ∀ sock ∈ s.conns[c]?, sock.releasing = none → (Request.parse buf).length ≠ 0 →
      ∃ m sock' bytes, step s (.request c buf) = .ok { s with hash := m, conns := s.conns.set c sock' } ∧
        sock'.stream = sock.stream ++ bytes ∧ Answered s.hash buf bytes
  | h => ∀ s', s.happen h = .ok s' → ∀ (c : Nat) (sock : Socket), s.conns[c]? = some sock →
      ∃ sock' : Socket, s'.conns[c]? = some sock' ∧ sock'.stream = sock.stream

/-- The record covers the units, the counter does not. -/
def Breaks (m : HashMap Object) (cmd : Request) (sock : Socket) : Prop :=
  cmd.status = .OK ∧ cmd.command = .Release ∧
    ∃ p ∈ m.find cmd.name, (sock.onRelease (itemRef p) cmd.resources).1 = true ∧
      p.val.consumption < cmd.resources

/-- The two kinds of requests that are not answered as they should. -/
def Mangles (s : State) : Happening → Prop
  | .event (.request c buf) =>
    ∃ sock ∈ s.conns[c]?, sock.releasing = none ∧ (Request.parse buf).length ≠ 0 ∧
      ((buf.getD 0 0 = REQUEST_MAGIC ∧ Command.ofByte (buf.getD 1 0) = .raw (buf.getD 1 0)) ∨
        Breaks s.hash (Request.parse buf) sock)
  | _ => False

instance (m : HashMap Object) (cmd : Request) (sock : Socket) : Decidable (Breaks m cmd sock) :=
  inferInstanceAs (Decidable (_ ∧ _ ∧ ∃ p ∈ m.find cmd.name, _))

instance (s : State) (h : Happening) : Decidable (Mangles s h) :=
  match h with
  | .event (.request c _) => inferInstanceAs (Decidable (∃ sock ∈ s.conns[c]?, _))
  | .figures _ | .event .accept | .event (.releaseAll _) | .event (.releaseNext _ _) | .event (.releaseDone _)
  | .event (.tick _) | .event .gcStart | .event .gcNext => .isFalse id

/-! ## Requests -/

theorem Command.toByte_ofByte (b : UInt8) : (Command.ofByte b).toByte = b := by
  unfold Command.ofByte
  split_ifs <;> first | rfl | (symm; assumption)

namespace Request

theorem opaque_parseBody (r : Request) (p : Bytes) : (r.parseBody p).opaqueBytes = r.opaqueBytes := by
  unfold parseBody
  dsimp only
  split <;> (try split_ifs) <;> rfl

/-- A command that the enum names is kept. -/
theorem command_parseBody {r : Request} (h : ∀ b, r.command ≠ .raw b) (p : Bytes) :
    (r.parseBody p).command = r.command := by
  unfold parseBody
  dsimp only
  cases hc : r.command with
  | raw b => exact absurd hc (h b)
  | Noop | Stats | Dump | Unknown => rfl
  | Get | Acquire | Release =>
    dsimp only
    split_ifs <;> first | rfl | exact hc

theorem parseBody_raw {r : Request} {b : UInt8} (h : r.command = .raw b) (p : Bytes) :
    r.parseBody p = { r with command := .Unknown, status := .UnknownCommand } := by
  unfold parseBody
  rw [h]

theorem parseBody_dump {r : Request} (h : r.command = .Dump) (p : Bytes) :
    (r.parseBody p).status = .OK := by
  unfold parseBody
  rw [h]

theorem length_name_parseBody {r : Request} (h : r.name.length < 2 ^ 16) (p : Bytes) :
    (r.parseBody p).name.length < 2 ^ 16 := by
  have hname : ∀ i j, (slice i (ntoh16 p j) p).length < 2 ^ 16 := by
    intro i j
    exact Nat.lt_of_le_of_lt (length_slice_le _ _ _) (ntoh16_lt p j)
  unfold parseBody
  dsimp only
  split <;> (try split_ifs) <;> first | exact h | exact hname _ _

variable {p : Bytes}

/-- What `parse` makes of a complete request. -/
theorem parse_complete (h : (parse p).length ≠ 0) :
    parse p = if p.getD 0 0 ≠ REQUEST_MAGIC then ofHeader p else (ofHeader p).parseBody p := by
  obtain ⟨h1, h2⟩ := (complete_iff p).mp h
  unfold parse
  rw [if_neg (Nat.not_lt.mpr h1), if_neg (Nat.not_lt.mpr h2)]

theorem opaque_parse (h : (parse p).length ≠ 0) : (parse p).opaqueBytes = slice 8 4 p := by
  rw [parse_complete h]
  split_ifs
  · rfl
  · rw [opaque_parseBody]
    rfl

theorem length_opaque (h : (parse p).length ≠ 0) : (slice 8 4 p).length = 4 := by
  obtain ⟨h1, -⟩ := (complete_iff p).mp h
  have h12 : HEADER_SIZE = 12 := rfl
  unfold slice
  rw [List.length_take, List.length_drop]
  omega

/-- The opcode byte is kept, unless it is one that the enum does not name. -/
theorem opcode_parse (h : (parse p).length ≠ 0)
    (hraw : ¬ (p.getD 0 0 = REQUEST_MAGIC ∧ Command.ofByte (p.getD 1 0) = .raw (p.getD 1 0))) :
    (parse p).command.toByte = p.getD 1 0 := by
  rw [parse_complete h]
  split_ifs with hmagic
  · exact Command.toByte_ofByte _
  · have hne : ∀ b, (ofHeader p).command ≠ .raw b := by
      intro b hb
      have hbyte : p.getD 1 0 = b := by
        rw [← Command.toByte_ofByte (p.getD 1 0)]
        exact congrArg Command.toByte hb
      exact hraw ⟨not_not.mp hmagic, hb.trans (congrArg Command.raw hbyte.symm)⟩
    rw [command_parseBody hne]
    exact Command.toByte_ofByte _

theorem length_name_parse (p : Bytes) : (parse p).name.length < 2 ^ 16 := by
  unfold parse
  split_ifs
  · exact Nat.two_pow_pos 16
  · exact Nat.two_pow_pos 16
  · exact Nat.two_pow_pos 16
  · exact length_name_parseBody (r := ofHeader p) (Nat.two_pow_pos 16) p

/-- A Dump, by its bytes. -/
theorem dump_iff (h : (parse p).length ≠ 0) :
    (parse p).status = .OK ∧ (parse p).command = .Dump ↔ p.getD 0 0 = REQUEST_MAGIC ∧ p.getD 1 0 = 0x11 := by
  rw [parse_complete h]
  by_cases hmagic : p.getD 0 0 = REQUEST_MAGIC
  · rw [if_neg (not_not.mpr hmagic)]
    constructor
    · rintro ⟨-, hcmd⟩
      have hraw : ∀ b, (ofHeader p).command ≠ .raw b := by
        intro b hb
        rw [parseBody_raw hb] at hcmd
        cases hcmd
      rw [command_parseBody hraw] at hcmd
      refine ⟨hmagic, ?_⟩
      rw [← Command.toByte_ofByte (p.getD 1 0)]
      exact congrArg Command.toByte hcmd
    · rintro ⟨-, hbyte⟩
      have hcmd : (ofHeader p).command = .Dump := by
        show Command.ofByte (p.getD 1 0) = .Dump
        rw [hbyte]
        rfl
      refine ⟨parseBody_dump hcmd p, ?_⟩
      rw [command_parseBody (by rw [hcmd]; exact nofun), hcmd]
  · rw [if_pos hmagic]
    exact iff_of_false (fun h => nomatch h.1) fun h => hmagic h.1

end Request

/-! ## Packets -/

/-- A packet that answers `cmd`. -/
structure Packet.For (cmd : Request) (p : Packet) : Prop where
  opcode : p.opcode = cmd.command.toByte
  opaqueBytes : p.opaqueBytes = cmd.opaqueBytes
  fits : p.body.length < 2 ^ 32

namespace Request

variable (cmd : Request)

theorem success_for : cmd.success.For cmd := ⟨rfl, rfl, Nat.two_pow_pos 32⟩

theorem error_for (st : Status) : (cmd.error st).For cmd :=
  ⟨rfl, rfl, by show (ascii st.message).length < 2 ^ 32; cases st <;> decide⟩

theorem get_for (n : UInt32) : (cmd.get n).For cmd := by
  refine ⟨rfl, rfl, ?_⟩
  show (encode 4 n.toNat).length < 2 ^ 32
  rw [length_encode]
  decide

theorem length_dump (name : Key) (n m : UInt32) : (cmd.dump name n m).body.length = 10 + name.length := by
  simp only [dump, List.length_append, length_encode]

theorem dump_for {name : Key} (h : name.length < 2 ^ 16) (n m : UInt32) : (cmd.dump name n m).For cmd := by
  refine ⟨rfl, rfl, ?_⟩
  rw [length_dump]
  omega

/-- The body of a Dump packet tells the name. -/
theorem dump_carries {name : Key} (h : name.length < 2 ^ 16) (n m : UInt32) :
    (cmd.dump name n m).frame.Carries name := by
  have hbody : (cmd.dump name n m).frame.body
      = (encode 4 n.toNat ++ encode 4 m.toNat) ++ (encode 2 name.length ++ (name ++ [])) := by
    simp only [Packet.frame, dump, List.append_assoc, List.append_nil]
  have hlen : decode (slice 8 2 (cmd.dump name n m).frame.body) = name.length := by
    rw [hbody, slice_append_mid (by simp) (length_encode _ _)]
    exact decode_encode_of_lt (Nat.lt_of_lt_of_eq h (by decide))
  refine ⟨fun hnil => ?_, ?_⟩
  · have := cmd.length_dump name n m
    rw [show (cmd.dump name n m).body = [] from hnil, List.length_nil] at this
    omega
  · rw [hlen, hbody, ← List.append_assoc]
    exact slice_append_mid (by simp) rfl

theorem length_addStat (body : Bytes) (name value : String) : (addStat body name value).length
    = body.length + 4 + (ascii name).length + (ascii value).length := by
  simp only [addStat, List.length_append, length_encode]

theorem length_foldl_addStat {value : String → String} (hv : ∀ n, (ascii (value n)).length ≤ 20)
    {names : List String} (hn : ∀ n ∈ names, (ascii n).length ≤ 20) (body : Bytes) :
    (names.foldl (fun body n => addStat body n (value n)) body).length ≤ body.length + 44 * names.length := by
  induction names generalizing body with
  | nil => exact Nat.le_refl _
  | cons n names ih =>
    have hrest := ih (fun m hm => hn m (List.mem_cons_of_mem _ hm)) (addStat body n (value n))
    rw [length_addStat] at hrest
    have h1 := hn n List.mem_cons_self
    have h2 := hv n
    rw [List.foldl_cons, List.length_cons]
    omega

theorem stats_for {value : String → String} (hv : ∀ n, (ascii (value n)).length ≤ 20) :
    (cmd.stats value).For cmd := by
  refine ⟨rfl, rfl, ?_⟩
  have hle := length_foldl_addStat hv (show ∀ n ∈ STAT_NAMES, (ascii n).length ≤ 20 by decide) []
  exact Nat.lt_of_le_of_lt hle (by decide)

end Request

/-! ## Commands -/

/-- One packet is the answer. -/
def Sends (cmd : Request) (s : Socket) (res : Except Err (HashMap Object × Socket)) : Prop :=
  ∃ m' s' p, res = .ok (m', s') ∧ s'.sent = s.sent ++ [p] ∧ p.For cmd

section Commands

variable {g : Env} {m : HashMap Object} {cmd : Request} {s : Socket}

theorem sends_reply {m' : HashMap Object} {s1 : Socket} {p : Packet} (h : s1.sent = s.sent)
    (hp : p.For cmd) :
    Sends cmd s (.ok (m', s1.send p)) :=
  ⟨m', s1.send p, p, rfl, by rw [Socket.send, h], hp⟩

theorem cmdGet_sends : Sends cmd s (cmdGet m cmd s) := by
  unfold cmdGet
  cases hk : m.find cmd.name with
  | none =>
    rw [HashMap.apply_absent hk]
    exact sends_reply rfl (cmd.error_for _)
  | some p =>
    rw [HashMap.apply_found hk]
    exact sends_reply rfl (cmd.get_for _)

theorem cmdAcquire_sends : Sends cmd s (cmdAcquire g m cmd s) := by
  unfold cmdAcquire
  cases hk : m.find cmd.name with
  | none =>
    rw [HashMap.apply_create hk]
    exact sends_reply (onAcquire_sent s _ _) (cmd.get_for _)
  | some p =>
    rw [HashMap.apply_found hk]
    simp only [acquireHandler]
    rcases p.val.acquire g cmd.resources cmd.maximum with ⟨granted, o⟩
    cases granted with
    | false => exact sends_reply rfl (cmd.error_for _)
    | true => exact sends_reply (onAcquire_sent s _ _) (cmd.get_for _)

/-- A `Release` is answered unless the record covers what the counter does not. -/
theorem cmdRelease_sends (h : ∀ p ∈ m.find cmd.name, (s.onRelease (itemRef p) cmd.resources).1 = true →
      cmd.resources ≤ p.val.consumption) : Sends cmd s (cmdRelease g m cmd s) := by
  unfold cmdRelease
  cases hk : m.find cmd.name with
  | none =>
    rw [HashMap.apply_absent hk]
    exact sends_reply rfl (cmd.error_for _)
  | some p =>
    rw [HashMap.apply_found hk]
    simp only [releaseHandler]
    have hsent := onRelease_sent s (itemRef p) cmd.resources
    have hle := h p hk
    generalize s.onRelease (itemRef p) cmd.resources = released at hsent hle ⊢
    obtain ⟨recorded, s'⟩ := released
    cases recorded with
    | false => exact sends_reply hsent (cmd.error_for _)
    | true =>
      have hdone : (p.val.release g cmd.resources).1 = true := by
        by_contra hno
        have hlt := Object.release_failed (Bool.not_eq_true _ ▸ hno)
        exact UInt32.not_lt.mpr (hle rfl) hlt
      generalize p.val.release g cmd.resources = result at hdone ⊢
      obtain ⟨done, o⟩ := result
      cases hdone
      exact sends_reply hsent cmd.success_for

/-- ... and then it is not. -/
theorem cmdRelease_breaks {p : Cell Key Object} (hk : m.find cmd.name = some p)
    (hrec : (s.onRelease (itemRef p) cmd.resources).1 = true) (hlt : p.val.consumption < cmd.resources) :
    cmdRelease g m cmd s = .error .cmdRelease := by
  unfold cmdRelease
  rw [HashMap.apply_found hk]
  simp only [releaseHandler]
  generalize s.onRelease (itemRef p) cmd.resources = released at hrec ⊢
  obtain ⟨recorded, s'⟩ := released
  cases hrec
  unfold Object.release
  rw [if_pos hlt]

/-- The packets of a Dump. -/
def dumpPackets (g : Env) (m : HashMap Object) (cmd : Request) : List Packet :=
  m.cells.map (fun c => cmd.dump c.key c.val.consumption (c.val.reportedMax g)) ++ [cmd.success]

theorem cmdDump_sent : (cmdDump g m cmd s).2.sent = s.sent ++ dumpPackets g m cmd := by
  have hfold : ∀ (cs : List (Cell Key Object)) (s : Socket),
      (cs.foldl (fun s c => s.send (cmd.dump c.key c.val.consumption (c.val.reportedMax g))) s).sent
        = s.sent ++ cs.map fun c => cmd.dump c.key c.val.consumption (c.val.reportedMax g) := by
    intro cs
    induction cs with
    | nil => intro s; exact (List.append_nil _).symm
    | cons c cs ih =>
      intro s
      rw [List.foldl_cons, ih, Socket.send, List.map_cons, List.append_assoc]
      rfl
  show _ ++ [cmd.success] = _
  rw [hfold, List.append_assoc]
  rfl

/-- **Every request but a Dump sends one packet**, unless it breaks. -/
theorem execute_sends (hfig : ∀ n, (ascii (g.stat n)).length ≤ 20) (hb : ¬ Breaks m cmd s)
    (hd : ¬ (cmd.status = .OK ∧ cmd.command = .Dump)) : Sends cmd s (execute g m cmd s) := by
  unfold execute
  by_cases hst : cmd.status = .OK
  · rw [if_neg (not_not.mpr hst)]
    cases hc : cmd.command with
    | Noop => exact sends_reply rfl cmd.success_for
    | Get => exact cmdGet_sends
    | Acquire => exact cmdAcquire_sends
    | Release =>
      refine cmdRelease_sends fun p hp hrec => ?_
      by_contra hlt
      exact hb ⟨hst, hc, p, hp, hrec, UInt32.not_le.mp hlt⟩
    | Stats => exact sends_reply rfl (cmd.stats_for hfig)
    | Dump => exact absurd ⟨hst, hc⟩ hd
    | Unknown | raw b => exact sends_reply rfl (cmd.error_for _)
  · rw [if_pos hst]
    exact sends_reply rfl (cmd.error_for _)

theorem execute_dump (hst : cmd.status = .OK) (hc : cmd.command = .Dump) :
    execute g m cmd s = .ok (cmdDump g m cmd s) := by
  unfold execute
  rw [if_neg (not_not.mpr hst), hc]

theorem execute_breaks (h : Breaks m cmd s) : execute g m cmd s = .error .cmdRelease := by
  obtain ⟨hst, hc, p, hk, hrec, hlt⟩ := h
  unfold execute
  rw [if_neg (not_not.mpr hst), hc]
  exact cmdRelease_breaks hk hrec hlt

end Commands

/-! ## What keeps the lengths within their fields -/

/-- The name of a counter was announced in two bytes. -/
def NamesFit (m : HashMap Object) : Prop := ∀ k p, m.find k = some p → k.length < 2 ^ 16

/-- ... and no figure has more than 20 digits. -/
structure Sized (s : State) : Prop where
  names : NamesFit s.hash
  figures : ∀ n, (ascii (s.env.stat n)).length ≤ 20

theorem NamesFit.write {m : HashMap Object} (h : NamesFit m) (a : Nat) (o : Object) :
    NamesFit (m.write a o) := by
  intro k p hp
  rw [Table.find_write] at hp
  obtain ⟨q, hq, -⟩ := Option.map_eq_some_iff.mp hp
  exact h k q hq

theorem NamesFit.push {m : HashMap Object} (h : NamesFit m) {name : Key} (hk : m.find name = none)
    (hn : name.length < 2 ^ 16) (o : Object) : NamesFit (m.push name o) := by
  intro k p hp
  by_cases heq : k = name
  · rw [heq]
    exact hn
  · rw [m.find_push_of_ne o hk heq] at hp
    exact h k p hp

theorem NamesFit.gc {m : HashMap Object} (h : NamesFit m) (g : Env) (i : Nat) (t : GcThread) :
    NamesFit (HashMap.gc m i (gcPred g) t).1 := by
  rw [HashMap.gc_eq_sweep (gcPred_steady g)]
  intro k p hp
  rw [Table.find_sweep] at hp
  split_ifs at hp
  · obtain ⟨q, hq, -⟩ := Option.bind_eq_some_iff.mp hp
    exact h k q hq
  · exact h k p hp

theorem NamesFit.execute {m m' : HashMap Object} {g : Env} {buf : Bytes} {s s' : Socket} (h : NamesFit m)
    (hex : execute g m (Request.parse buf) s = .ok (m', s')) : NamesFit m' := by
  have hout := execute_outcome g m buf s
  rw [hex] at hout
  cases hout with
  | reply => exact h
  | create hk => exact h.push hk (Request.length_name_parse buf) _
  | acquire | release => exact h.write _ _

theorem NamesFit.releaseOne {m m' : HashMap Object} {g : Env} {a : Nat} {n : UInt32} (h : NamesFit m)
    (hone : releaseOne g m a n = .ok m') : NamesFit m' := by
  unfold Counter.releaseOne at hone
  cases hd : m.deref a with
  | none => rw [hd] at hone; cases hone
  | some key =>
    rw [hd] at hone
    dsimp only at hone
    cases hk : m.find key with
    | none => rw [HashMap.apply_absent hk] at hone; cases hone
    | some p =>
      rw [HashMap.apply_found hk] at hone
      simp only [releaseAllHandler] at hone
      generalize p.val.release g n = released at hone
      obtain ⟨done, o⟩ := released
      cases done with
      | false => cases hone
      | true => cases hone; exact h.write _ _

/-! ## Steps -/

/-- What every event but an executed request does to the names, the figures and the streams: nothing. -/
structure Quiet (s s' : State) : Prop where
  names : NamesFit s.hash → NamesFit s'.hash
  figures : s'.env.stat = s.env.stat
  sent : ∀ (c : Nat) (sock : Socket), s.conns[c]? = some sock →
    ∃ sock' : Socket, s'.conns[c]? = some sock' ∧ sock'.sent = sock.sent

theorem Quiet.refl (s : State) : Quiet s s := ⟨id, rfl, fun _ sock hc => ⟨sock, hc, rfl⟩⟩

/-- A connection is changed, but not what it has sent. -/
theorem quiet_set {s : State} {c : Nat} {sock sock' : Socket} {m : HashMap Object}
    (hc : s.conns[c]? = some sock)
    (hm : NamesFit s.hash → NamesFit m) (hs : sock'.sent = sock.sent) :
    Quiet s { s with hash := m, conns := s.conns.set c sock' } := by
  refine ⟨hm, rfl, fun d other hd => ?_⟩
  dsimp only
  rw [List.getElem?_set]
  split_ifs with heq hlt
  · subst heq
    rw [hd] at hc
    cases hc
    exact ⟨sock', rfl, hs⟩
  · subst heq
    exact absurd (List.getElem?_eq_some_iff.mp hd).1 hlt
  · exact ⟨other, hd, rfl⟩

theorem quiet_withConn {s s' : State} {c : Nat} {f : Socket → Except Err State}
    (h : s.withConn c f = .ok s')
    (hf : ∀ sock, s.conns[c]? = some sock → f sock = .ok s' → Quiet s s') : Quiet s s' := by
  unfold State.withConn at h
  cases hc : s.conns[c]? with
  | none =>
    rw [hc] at h
    cases h
    exact .refl s
  | some sock =>
    rw [hc] at h
    exact hf sock hc h

theorem quiet_releaseStep {s s' : State} {c a : Nat} {sock : Socket} (hc : s.conns[c]? = some sock)
    (h : releaseStep s c a sock = .ok s') : Quiet s s' := by
  unfold releaseStep at h
  generalize (sock.releasing.bind fun rest => (rest.lookup a).map (rest, ·)) = entry at h
  cases entry with
  | none => cases h; exact .refl s
  | some entry =>
    obtain ⟨rest, count⟩ := entry
    dsimp only at h
    cases hone : releaseOne s.env s.hash a count with
    | error e => rw [hone] at h; cases h
    | ok m =>
      rw [hone] at h
      cases h
      exact quiet_set hc (fun hn => hn.releaseOne hone) rfl

theorem quiet_gcStep (s : State) : Quiet s (gcStep s) := by
  unfold gcStep
  cases s.gc with
  | none => exact .refl s
  | some visit =>
    dsimp only
    split_ifs
    · exact ⟨fun hn => hn.gc _ _ _, rfl, fun _ sock hc => ⟨sock, hc, rfl⟩⟩
    · exact ⟨id, rfl, fun _ sock hc => ⟨sock, hc, rfl⟩⟩

theorem quiet_step {s s' : State} {e : Event} (h : s.happen (.event e) = .ok s')
    (he : ∀ c buf, e ≠ .request c buf) : Quiet s s' := by
  cases e with
  | request c buf => exact absurd rfl (he c buf)
  | accept =>
    cases h
    refine ⟨id, rfl, fun c sock hc => ⟨sock, ?_, rfl⟩⟩
    exact (List.getElem?_append_left (List.getElem?_eq_some_iff.mp hc).1).trans hc
  | tick t | gcStart =>
    cases h
    exact ⟨id, rfl, fun _ sock hc => ⟨sock, hc, rfl⟩⟩
  | releaseAll c =>
    refine quiet_withConn h fun sock hc hs => ?_
    split_ifs at hs <;> cases hs
    · exact .refl s
    · exact quiet_set hc id rfl
  | releaseNext c a => exact quiet_withConn h fun sock hc hs => quiet_releaseStep hc hs
  | releaseDone c =>
    refine quiet_withConn h fun sock hc hs => ?_
    split_ifs at hs <;> cases hs
    · exact quiet_set hc id rfl
    · exact .refl s
  | gcNext => cases h; exact quiet_gcStep s

/-- The lengths stay within their fields. -/
theorem Sized.happen {s s' : State} {h : Happening} (hs : Sized s) (hstep : s.happen h = .ok s') :
    Sized s' := by
  cases h with
  | figures f =>
    cases hstep
    refine ⟨hs.names, fun n => ?_⟩
    show (ascii (Nat.repr (f n).toNat)).length ≤ 20
    rw [ascii_repr]
    exact length_decimal_le (f n)
  | event e =>
    by_cases he : ∀ c buf, e ≠ .request c buf
    · have hq := quiet_step hstep he
      exact ⟨hq.names hs.names, hq.figures ▸ hs.figures⟩
    · push Not at he
      obtain ⟨c, buf, rfl⟩ := he
      change s.withConn c (requestStep s c buf) = .ok s' at hstep
      unfold State.withConn at hstep
      cases hc : s.conns[c]? with
      | none => rw [hc] at hstep; cases hstep; exact hs
      | some sock =>
        rw [hc] at hstep
        dsimp only [requestStep] at hstep
        split_ifs at hstep
        · cases hstep
          exact hs
        · cases hex : execute s.env s.hash (Request.parse buf) sock with
          | error x => rw [hex] at hstep; cases hstep
          | ok res =>
            rw [hex] at hstep
            cases hstep
            exact ⟨hs.names.execute hex, hs.figures⟩

/-! ## The answers -/

section Answers

variable {s : State} {c : Nat} {buf : Bytes} {sock : Socket}

theorem Packet.For.frame_fits {p : Packet} (hp : p.For (Request.parse buf))
    (hlen : (Request.parse buf).length ≠ 0) :
    p.frame.Fits := by
  refine ⟨?_, hp.fits⟩
  show p.opaqueBytes.length = 4
  rw [hp.opaqueBytes, Request.opaque_parse hlen, Request.length_opaque hlen]

/-- Packets for a request, with its opcode, are frames for it. -/
theorem frames_of_packets {ps : List Packet} (hlen : (Request.parse buf).length ≠ 0)
    (hcode : (Request.parse buf).command.toByte = buf.getD 1 0)
    (hps : ∀ p ∈ ps, p.For (Request.parse buf)) :
    ps.flatMap Packet.bytes = (ps.map Packet.frame).flatMap Frame.render ∧
      ∀ f ∈ ps.map Packet.frame, f.Fits ∧ f.opcode = buf.getD 1 0 ∧ f.opaqueBytes = slice 8 4 buf := by
  constructor
  · rw [List.flatMap_map]
    exact List.flatMap_congr fun p hp => Packet.bytes_eq (hps p hp).fits
  · intro f hf
    obtain ⟨p, hp, rfl⟩ := List.mem_map.mp hf
    have hfor := hps p hp
    exact ⟨hfor.frame_fits hlen, hfor.opcode.trans hcode,
      hfor.opaqueBytes.trans (Request.opaque_parse hlen)⟩

/-- What a Dump sends is its answer. -/
theorem answered_dump {m : HashMap Object} (hn : NamesFit m) (g : Env)
    (hlen : (Request.parse buf).length ≠ 0)
    (hdump : (Request.parse buf).status = .OK ∧ (Request.parse buf).command = .Dump)
    (hcode : (Request.parse buf).command.toByte = buf.getD 1 0) :
    Answered m buf ((dumpPackets g m (Request.parse buf)).flatMap Packet.bytes) := by
  have hnames : ∀ c ∈ m.cells, c.key.length < 2 ^ 16 := fun c hc => hn c.key c (m.mem_cells_iff.mp hc)
  have hfor : ∀ p ∈ dumpPackets g m (Request.parse buf), p.For (Request.parse buf) := by
    intro p hp
    rcases List.mem_append.mp hp with hp | hp
    · obtain ⟨c, hc, rfl⟩ := List.mem_map.mp hp
      exact (Request.parse buf).dump_for (hnames c hc) _ _
    · rw [List.mem_singleton.mp hp]
      exact (Request.parse buf).success_for
  obtain ⟨hbytes, hframes⟩ := frames_of_packets hlen hcode hfor
  refine ⟨_, hbytes, hframes, ?_⟩
  rw [if_pos ((Request.dump_iff hlen).mp hdump)]
  refine ⟨_, (Request.parse buf).success.frame, List.map_append, ?_, rfl⟩
  rw [List.map_map, List.forall₂_map_right_iff]
  exact List.forall₂_same.mpr fun c hc => (Request.parse buf).dump_carries (hnames c hc) _ _

/-- What any other request sends is its answer. -/
theorem answered_one (m : HashMap Object) {p : Packet} (hlen : (Request.parse buf).length ≠ 0)
    (hdump : ¬ ((Request.parse buf).status = .OK ∧ (Request.parse buf).command = .Dump))
    (hcode : (Request.parse buf).command.toByte = buf.getD 1 0) (hfor : p.For (Request.parse buf)) :
    Answered m buf ([p].flatMap Packet.bytes) := by
  have hall : ∀ q ∈ [p], q.For (Request.parse buf) := by
    intro q hq
    rw [List.mem_singleton.mp hq]
    exact hfor
  obtain ⟨hbytes, hframes⟩ := frames_of_packets hlen hcode hall
  refine ⟨_, hbytes, hframes, ?_⟩
  rw [if_neg (fun h => hdump ((Request.dump_iff hlen).mpr h))]
  rfl

/-- **A request that is not mangled is answered.** -/
theorem Sized.replies (hs : Sized s) {h : Happening} (hm : ¬ Mangles s h) : Replies s h := by
  cases h with
  | figures f =>
    intro s' hok c sock hc
    cases hok
    exact ⟨sock, hc, rfl⟩
  | event e =>
    cases e with
    | request c buf =>
      intro sock hc hrel hlen
      have hcode := Request.opcode_parse hlen fun hraw => hm ⟨sock, hc, hrel, hlen, .inl hraw⟩
      have hstep := step_request hc hrel hlen
      by_cases hdump : (Request.parse buf).status = .OK ∧ (Request.parse buf).command = .Dump
      · rw [execute_dump hdump.1 hdump.2] at hstep
        exact ⟨_, _, _, hstep, Socket.stream_append cmdDump_sent, answered_dump hs.names _ hlen hdump hcode⟩
      · have hb : ¬ Breaks s.hash (Request.parse buf) sock := fun h => hm ⟨sock, hc, hrel, hlen, .inr h⟩
        obtain ⟨m', sock', p, hex, hsent, hfor⟩ := execute_sends hs.figures hb hdump
        rw [hex] at hstep
        exact ⟨m', sock', _, hstep, Socket.stream_append hsent, answered_one _ hlen hdump hcode hfor⟩
    | accept | releaseAll _ | releaseNext _ _ | releaseDone _ | tick _ | gcStart | gcNext =>
      intro s' hok c sock hc
      have hq := quiet_step hok (by intro _ _ he; cases he)
      obtain ⟨sock', hc', hsent⟩ := hq.sent c sock hc
      exact ⟨sock', hc', by rw [Socket.stream, hsent]; rfl⟩

/-- An opcode that the enum does not name is answered with 0x12. -/
theorem execute_raw (hlen : (Request.parse buf).length ≠ 0) (hmagic : buf.getD 0 0 = REQUEST_MAGIC)
    (hraw : Command.ofByte (buf.getD 1 0) = .raw (buf.getD 1 0)) (g : Env) (m : HashMap Object)
    (sock : Socket) :
    ∃ p : Packet, execute g m (Request.parse buf) sock = .ok (m, sock.send p) ∧ p.opcode = 0x12 := by
  have hparse : Request.parse buf
      = { Request.ofHeader buf with command := .Unknown, status := .UnknownCommand } := by
    rw [Request.parse_complete hlen, if_neg (not_not.mpr hmagic)]
    exact Request.parseBody_raw hraw buf
  refine ⟨(Request.parse buf).error .UnknownCommand, ?_, by rw [hparse]; rfl⟩
  unfold execute
  rw [hparse]
  rfl

/-- **A request that is mangled is not.** -/
theorem not_replies_of_mangles {h : Happening} (hm : Mangles s h) : ¬ Replies s h := by
  cases h with
  | figures f => exact hm.elim
  | event e =>
    cases e with
    | request c buf =>
      obtain ⟨sock, hc, hrel, hlen, hcase⟩ := hm
      intro hreplies
      obtain ⟨m', sock', bytes, hok, hstream, hans⟩ := hreplies sock hc hrel hlen
      have hstep := step_request hc hrel hlen
      rw [hok] at hstep
      rcases hcase with ⟨hmagic, hraw⟩ | hb
      · obtain ⟨p, hex, hcode⟩ := execute_raw hlen hmagic hraw s.env s.hash sock
        rw [hex] at hstep
        rw [conn_unique hc hstep,
          Socket.stream_append (show (sock.send p).sent = sock.sent ++ [p] from rfl)] at hstream
        have hbytes := List.append_cancel_left hstream
        -- One frame is due, and its second byte is the opcode of the request.
        obtain ⟨fs, hfs, hall, hcount⟩ := hans
        have hother : ¬ (buf.getD 0 0 = REQUEST_MAGIC ∧ buf.getD 1 0 = 0x11) := by
          rintro ⟨-, h11⟩
          rw [h11] at hraw
          exact absurd hraw (by decide)
        rw [if_neg hother] at hcount
        obtain ⟨f, rfl⟩ := List.length_eq_one_iff.mp hcount
        have hopcode : p.opcode = f.opcode := by
          have := congrArg (fun b : Bytes => b.getD 1 0) (hbytes.trans hfs)
          exact this
        have h12 : buf.getD 1 0 = 0x12 := by
          rw [← (hall f (List.mem_singleton_self f)).2.1, ← hopcode, hcode]
        rw [h12] at hraw
        exact absurd hraw (by decide)
      · rw [execute_breaks hb] at hstep
        cases hstep
    | accept | releaseAll _ | releaseNext _ _ | releaseDone _ | tick _ | gcStart | gcNext => exact hm.elim

end Answers

/-! ## Runs -/

theorem sized_init (hash : Key → Nat) (alloc : List Nat → Nat) (fresh : ∀ live, alloc live ∉ live) (n : Nat)
    (env : Env) (f : String → UInt64) : Sized (State.init hash alloc fresh n (env.withFigures f)) := by
  refine ⟨fun k p hp => ?_, fun name => ?_⟩
  · rw [show (State.init hash alloc fresh n (env.withFigures f)).hash
        = Table.empty hash alloc fresh n from rfl,
      Table.find_empty] at hp
    cases hp
  · show (ascii (Nat.repr (f name).toNat)).length ≤ 20
    rw [ascii_repr]
    exact length_decimal_le (f name)

/-- **The reply stream.**  In every run every executed request appends its documented answer to the stream
    of its connection, and nothing else appends anything, exactly if no request has the right magic and an
    opcode that is not in the list, and none releases what the record covers and the counter does not. -/
theorem stream_iff (hash : Key → Nat) (alloc : List Nat → Nat) (fresh : ∀ live, alloc live ∉ live) (n : Nat)
    (env : Env) (f : String → UInt64) (hs : List Happening) :
    Along Replies State.happen (State.init hash alloc fresh n (env.withFigures f)) hs
      ↔ Along (fun s h => ¬ Mangles s h) State.happen
        (State.init hash alloc fresh n (env.withFigures f)) hs := by
  refine along_iff_along (I := Sized) (fun s h hi => ?_) (fun s h s' hi _ hok => hi.happen hok) hs
    (sized_init hash alloc fresh n env f)
  exact ⟨fun hr hm => not_replies_of_mangles hm hr, fun hm => hi.replies hm⟩

/-- A request without a body. -/
def plainPacket (opcode : UInt8) : Bytes := [0x90, opcode, 0, 0] ++ encode 4 0 ++ [1, 2, 3, 4]

/-- A server with one bucket, and all figures 0. -/
def idleServer : State :=
  State.init (fun _ => 0) Table.bump Table.bump_fresh 0
    (Env.withFigures ⟨1000, 10, fun _ => "", 16, 16⟩ fun _ => 0)

/-- Two connections acquire; then one of them asks for a Dump, for figures, and with a wrong magic. -/
theorem stream_two_clients :
    Along Replies State.happen idleServer
      [.event .accept, .event .accept, .event (.request 0 (acquirePacket 3 10)),
        .event (.request 1 (acquirePacket 7 10)), .event (.request 0 (plainPacket 0x11)),
        .figures fun _ => 2 ^ 64 - 1, .event (.request 0 (plainPacket 0x10)),
        .event (.request 0 (0x80 :: (plainPacket 0x20).tail)), .event (.request 1 (releasePacket 7))] :=
  (stream_iff _ _ _ _ _ _ _).mpr (by decide)

/-- The opcode 0x20 is answered with a packet that has the opcode 0x12; and the `Release` that follows a sum
    that wrapped around has no answer. -/
theorem requests_mangled :
    (∃ s, run State.happen idleServer [.event .accept] = .ok s ∧
      ¬ Replies s (.event (.request 0 (plainPacket 0x20))) ∧
      ∃ s' sock, step s (.request 0 (plainPacket 0x20)) = .ok s' ∧ s'.conns[0]? = some sock ∧
        sock.stream.getD 1 0 = 0x12) ∧
    ∃ s, run State.happen idleServer (wrapRun.map .event) = .ok s ∧
      ¬ Replies s (.event (.request 1 (releasePacket 2))) :=
  ⟨⟨_, rfl, not_replies_of_mangles (by decide), _, _, rfl, rfl, by decide⟩,
    ⟨_, rfl, not_replies_of_mangles (by decide)⟩⟩

end Yrmcds.Counter
