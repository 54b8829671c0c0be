/-
  The other two receive loops: counter connections (src/counter/sockets.cpp, `m_recvjob`) and the
  connection of a slave to its master (src/memcache/sockets.cpp, `repl_client_socket::on_readable`, which
  calls `repl_recv`).

  Both read requests with a binary header that says how long the request is, so a parser never looks
  behind the request, and neither has a command that ends the connection: here the pieces do not matter,
  for ANY stream (`loops_segmentation`).  The receive job of a counter connection is, but for the
  parser, that of a memcache connection.

  `repl_recv` throws if a message does not begin with the magic byte.  The messages before it, in the same
  call, HAVE been applied; the model of the call in `Wire`, `replRecv`, keeps nothing of a call that
  throws, so the loop is written here with what it leaves (`onReadable`), and `replRecv_eq` connects the
  two.
-/
import Yrmcds.Memcache.Receive
import Yrmcds.Counter.Sockets

namespace Yrmcds

open BigEndian Segments

/-! ## Counter connections -/

namespace Counter

namespace Request

section

variable {q : Bytes} (y : Bytes)

/-- The name lies in the body. -/
theorem name_append {i n l : Nat} (hl : HEADER_SIZE + l ≤ q.length) (h : ¬ (n = 0 ∨ i + n > l)) :
    slice (HEADER_SIZE + i) n (q ++ y) = slice (HEADER_SIZE + i) n q :=
  slice_append_left (by omega)

/-- So do the other fields. -/
theorem parseBody_append {r : Request} (hq : HEADER_SIZE + r.bodyLength.toNat ≤ q.length) :
    r.parseBody (q ++ y) = r.parseBody q := by
  unfold parseBody
  generalize r.bodyLength.toNat = l at hq
  dsimp only
  cases r.command with
  | Noop | Stats | Dump | Unknown | raw => rfl
  | Get =>
    dsimp only
    by_cases hl : l < 2
    · rw [if_pos hl, if_pos hl]
    · rw [if_neg hl, if_neg hl, ntoh16_append y (show HEADER_SIZE + 2 ≤ q.length by omega)]
      split_ifs with hn
      · rfl
      · rw [name_append y hq hn]
  | Acquire =>
    dsimp only
    by_cases hl : l < 10
    · rw [if_pos hl, if_pos hl]
    · rw [if_neg hl, if_neg hl, ntoh32_append y (show HEADER_SIZE + 4 ≤ q.length by omega),
        ntoh32_append y (show HEADER_SIZE + 4 + 4 ≤ q.length by omega),
        ntoh16_append y (show HEADER_SIZE + 8 + 2 ≤ q.length by omega)]
      split_ifs with _ _ hn
      · rfl
      · rfl
      · rfl
      · rw [name_append y hq hn]
  | Release =>
    dsimp only
    by_cases hl : l < 6
    · rw [if_pos hl, if_pos hl]
    · rw [if_neg hl, if_neg hl, ntoh32_append y (show HEADER_SIZE + 4 ≤ q.length by omega),
        ntoh16_append y (show HEADER_SIZE + 4 + 2 ≤ q.length by omega)]
      split_ifs with hn
      · rfl
      · rw [name_append y hq hn]

/-- **A complete request does not change when more arrives.** -/
theorem parse_append (h : (parse q).length ≠ 0) : parse (q ++ y) = parse q := by
  obtain ⟨hhdr, hlen⟩ := (complete_iff q).mp h
  have h12 : HEADER_SIZE = 12 := rfl
  have hlen' : (q ++ y).length = q.length + y.length := List.length_append
  have hbody : ntoh32 (q ++ y) 4 = ntoh32 q 4 := ntoh32_append y (by omega)
  have hheader : ofHeader (q ++ y) = ofHeader q := by
    unfold ofHeader
    rw [hbody, getD_append y (show 1 < q.length by omega), getD_append y (show 2 < q.length by omega),
      slice_append_left (show 8 + 4 ≤ q.length by omega)]
  unfold parse
  rw [hbody, hheader, getD_append y (show 0 < q.length by omega), parseBody_append y hlen]
  rw [if_neg (show ¬ (q ++ y).length < HEADER_SIZE by omega), if_neg (Nat.not_lt.mpr hhdr),
    if_neg (show ¬ (q ++ y).length < HEADER_SIZE + (ntoh32 q 4).toNat by omega),
    if_neg (Nat.not_lt.mpr hlen)]

end

end Request

/-- One round of the inner loop: the request at the head of the buffer, with its length; `none` if it is
    incomplete. -/
def nextRequest (head : Bytes) : Option (Nat × Request) :=
  let parser := Request.parse head
  if parser.length = 0 then none else some (parser.length, parser)

theorem nextRequest_some {p : Bytes} {n : Nat} {r : Request} (h : nextRequest p = some (n, r)) :
    0 < n ∧ n ≤ p.length := by
  unfold nextRequest at h
  dsimp only at h
  split_ifs at h with h0
  cases h
  refine ⟨Nat.pos_of_ne_zero h0, ?_⟩
  obtain ⟨hhdr, hlen⟩ := (Request.complete_iff p).mp h0
  rw [Request.length_parse, if_neg (by omega)]
  exact hlen

/-- Part of a request shows nothing; a whole one shows itself, whatever follows. -/
theorem nextRequest_part (q y : Bytes) :
    nextRequest q = (nextRequest (q ++ y)).filter fun x => x.1 ≤ q.length := by
  refine view_of_parse (fun p hp => (nextRequest_some (if_neg hp)).2)
    (fun q y hq => Request.parse_append y hq) (fun q y hy hle => ?_) q y
  obtain ⟨hhdr, hlen⟩ := (Request.complete_iff (q ++ y)).mp hy
  have h12 : HEADER_SIZE = 12 := rfl
  rw [Request.length_parse, if_neg (by omega)] at hle
  rw [ntoh32_append (q := q) (i := 4) y (by omega)] at hle
  exact (Request.complete_iff q).mpr ⟨by omega, hle⟩

/-- The requests of a counter connection.  No request ends the connection, and nothing around the buffer
    is looked at. -/
def reader : Reader Unit UInt8 Request where
  next := fun _ => nextRequest
  stop := fun _ => false
  pos := fun h => (nextRequest_some h).1
  le := fun h => (nextRequest_some h).2
  view := fun _ q y => ⟨(), nextRequest_part q y⟩

/-- `m_recvjob` of a counter connection: `done` are the requests executed, `buf` is `m_pending`. -/
def recvJob : Segments.State UInt8 Request → List (Piece Unit UInt8) → Segments.State UInt8 Request :=
  reader.job Memcache.MAX_REQUEST_LENGTH

/-- The requests that jobs, one after another, execute for a new connection. -/
def executed (jobs : List (List (Piece Unit UInt8))) : List Request := (jobs.foldl recvJob {}).done

/-- What executing requests makes of the counters and of the connection. -/
def serve (g : Env) : List Request → HashMap Object × Socket → Except Err (HashMap Object × Socket)
  | [], w => .ok w
  | r :: rs, w =>
    match execute g w.1 r w.2 with
    | .ok w' => serve g rs w'
    | .error e => .error e

/-- The jobs receive `b`, in pieces of at most `MAX_RECVSIZE` bytes. -/
def Delivers (b : Bytes) (jobs : List (List (Piece Unit UInt8))) : Prop :=
  Reader.Cuts Memcache.MAX_RECVSIZE b jobs.flatten

/-- No request of the stream is longer than `MAX_REQUEST_LENGTH`. -/
def Bounded (b : Bytes) : Prop := reader.Bounded () Memcache.MAX_REQUEST_LENGTH b

/-- **The pieces do not matter** for a counter connection. -/
theorem executed_eq {b : Bytes} (hb : Bounded b) {jobs jobs' : List (List (Piece Unit UInt8))}
    (h : Delivers b jobs) (h' : Delivers b jobs') : executed jobs = executed jobs' := by
  have hrun : ∀ jobs, executed jobs = (reader.run Memcache.MAX_REQUEST_LENGTH {} jobs.flatten).done :=
    fun jobs => congrArg Segments.State.done (Reader.foldl_job jobs {} fun h => (nomatch h))
  obtain ⟨xs, hxs⟩ : ∃ xs, reader.Reads Memcache.MAX_RECVSIZE b xs :=
    Reader.reads_of_blind (fun _ _ _ _ _ => rfl) (fun _ => rfl) () b
  rw [hrun, hrun]
  exact hxs.uniform hb b ( List.prefix_refl b) _ _ h h'

end Counter

/-! ## The connection of a slave -/

namespace Memcache

/-- One round of the loop of `repl_recv`: the message at `p`, with its length; `none` if it is incomplete
    or does not begin with the magic byte. -/
def nextMessage (now : Int) (p : Bytes) : Option (Nat × BinaryRequest) :=
  if isBinaryRequest p then nextBinary now p else none

/-- A message is refused: `throw std::runtime_error("Invalid replication data")`. -/
def refused (p : Bytes) : Bool := ! p.isEmpty && ! isBinaryRequest p

theorem nextMessage_some {now : Int} {p : Bytes} {n : Nat} {r : BinaryRequest}
    (h : nextMessage now p = some (n, r)) : 0 < n ∧ n ≤ p.length := by
  unfold nextMessage at h
  split_ifs at h
  exact nextBinary_some h

theorem nextMessage_part (now : Int) (q y : Bytes) :
    nextMessage now q = (nextMessage now (q ++ y)).filter fun x => x.1 ≤ q.length := by
  cases q with
  | nil =>
    symm
    show Option.filter _ _ = none
    rw [Option.filter_eq_none_iff]
    rintro ⟨n, r⟩ hx
    have hpos := (nextMessage_some hx).1
    simp only [List.length_nil, decide_eq_true_eq]
    omega
  | cons b q =>
    unfold nextMessage
    rw [show isBinaryRequest (b :: q ++ y) = isBinaryRequest (b :: q) from rfl]
    split_ifs
    · exact nextBinary_part now (b :: q) y
    · rfl

/-- The messages of a master. -/
def messages (now : Int) : Reader Unit UInt8 BinaryRequest where
  next := fun _ => nextMessage now
  stop := fun _ => false
  pos := fun h => (nextMessage_some h).1
  le := fun h => (nextMessage_some h).2
  view := fun _ q y => ⟨(), nextMessage_part now q y⟩

/-- All complete messages of `p`, and the rest. -/
def readMessages (now : Int) (p : Bytes) : List BinaryRequest × Bytes := drain (nextMessage now) p

section

variable {now : Int} {p : Bytes}

theorem readMessages_none (h : nextMessage now p = none) : readMessages now p = ([], p) :=
  Reader.drain_of_none (R := messages now) (e := ()) h

theorem readMessages_some {n : Nat} {r : BinaryRequest} (h : nextMessage now p = some (n, r)) :
    readMessages now p = (r :: (readMessages now (p.drop n)).1, (readMessages now (p.drop n)).2) :=
  Reader.drain_of_some (R := messages now) (e := ()) h

theorem readMessages_append (b c : Bytes) : readMessages now (b ++ c) =
    ((readMessages now b).1 ++ (readMessages now ((readMessages now b).2 ++ c)).1,
      (readMessages now ((readMessages now b).2 ++ c)).2) :=
  Reader.drain_append (R := messages now) (fun _ _ _ _ _ => rfl) () b c

theorem readMessages_rest (now : Int) (p : Bytes) : nextMessage now (readMessages now p).2 = none ∧
    (readMessages now p).2.length ≤ p.length :=
  Reader.next_drain (R := messages now) () p

/-- A refused message stays refused, whatever follows. -/
theorem readMessages_refused (now : Int) (h : refused p = true) (y : Bytes) :
    readMessages now (p ++ y) = ([], p ++ y) ∧ refused (p ++ y) = true := by
  cases p with
  | nil => cases h
  | cons b p =>
    have hb : isBinaryRequest (b :: p ++ y) = false := by
      show isBinaryRequest (b :: p) = false
      simpa [refused] using h
    have hnone : nextMessage now (b :: p ++ y) = none := by
      unfold nextMessage
      rw [hb, if_neg Bool.false_ne_true]
    refine ⟨readMessages_none hnone, ?_⟩
    unfold refused
    rw [hb]
    rfl

end

theorem isBinaryRequest_iff {p : Bytes} (hp : p ≠ []) : isBinaryRequest p = true ↔ p.head hp = 0x80 := by
  cases p with
  | nil => exact absurd rfl hp
  | cons b p => exact beq_iff_eq

/-- At the head of a buffer that starts with the magic byte stands a message, if it is complete. -/
theorem nextMessage_of_magic {p : Bytes} (hp : p ≠ []) (hhead : p.head hp = 0x80) (now : Int) :
    nextMessage now p = nextBinary now p := by
  unfold nextMessage
  rw [if_pos ((isBinaryRequest_iff hp).mpr hhead)]

/-- **A call of `repl_recv`** applies all complete messages, and throws if what is left is refused. -/
theorem replRecv_eq (now : Int) (limit : Nat) (p : Bytes) (m : HashMap Object) :
    replRecv now limit p m =
      if refused (readMessages now p).2 then .error .invalidData
      else .ok (p.length - (readMessages now p).2.length,
        (readMessages now p).1.foldl (replExec limit) m) := by
  fun_induction replRecv now limit p m with
  | case1 m => rw [readMessages_none rfl]; rfl
  | case2 p m hp hhead =>
    have hb : isBinaryRequest p = false :=
      Bool.eq_false_iff.mpr fun h => hhead ((isBinaryRequest_iff hp).mp h)
    rw [readMessages_none (by unfold nextMessage; rw [hb]; rfl)]
    exact (if_pos (by simp [refused, hp, hb])).symm
  | case3 p m hp hhead parser hn =>
    have hb := (isBinaryRequest_iff hp).mpr (not_not.mp hhead)
    have hnone : nextMessage now p = none :=
      (nextMessage_of_magic hp (not_not.mp hhead) now).trans (if_pos hn)
    rw [readMessages_none hnone, if_neg (by simp [refused, hb]), Nat.sub_self]
    rfl
  | case4 p m hp hhead parser hn n m' heq ih =>
    have hsome : nextMessage now p = some (parser.length, parser) :=
      (nextMessage_of_magic hp (not_not.mp hhead) now).trans (if_neg hn)
    have hle := (nextMessage_some hsome).2
    have hshort := (readMessages_rest now (p.drop parser.length)).2
    rw [List.length_drop] at ih hshort
    rw [ih] at heq
    rw [readMessages_some hsome]
    dsimp only
    split_ifs at heq ⊢
    cases heq
    rw [List.foldl_cons, show p.length - (readMessages now (p.drop parser.length)).2.length
      = parser.length + (p.length - parser.length
        - (readMessages now (p.drop parser.length)).2.length) by omega]
  | case5 p m hp hhead parser hn e heq ih =>
    have hsome : nextMessage now p = some (parser.length, parser) :=
      (nextMessage_of_magic hp (not_not.mp hhead) now).trans (if_neg hn)
    rw [ih] at heq
    rw [readMessages_some hsome]
    dsimp only
    split_ifs at heq ⊢
    cases heq
    rfl

/-- A `repl_client_socket`: `m_recvbuf`, the map, how many bytes of the stream have been consumed, and
    whether a message was refused (which ends the process). -/
structure ReplClient where
  recvbuf : Bytes := []
  hash : HashMap Object
  position : Nat := 0
  failed : Bool := false

namespace ReplClient

variable (now : Int) (limit : Nat)

/-- `on_readable`, for one piece. -/
def onReadable (s : ReplClient) (piece : Bytes) : ReplClient :=
  if s.failed then s
  else
    let r := readMessages now (s.recvbuf ++ piece)
    { recvbuf := r.2
      hash := r.1.foldl (replExec limit) s.hash
      position := s.position + ((s.recvbuf ++ piece).length - r.2.length)
      failed := refused r.2 }

/-- What a slave has after the stream `b`, with `r` the result of reading it in one piece. -/
structure Has (s : ReplClient) (b : Bytes) (r : List BinaryRequest × Bytes) (t : ReplClient) : Prop where
  hash : t.hash = r.1.foldl (replExec limit) s.hash
  position : t.position = s.position + (b.length - r.2.length)
  failed : t.failed = refused r.2
  recvbuf : t.failed = false → t.recvbuf = r.2

theorem foldl_failed {s : ReplClient} (hs : s.failed = true) (cs : List Bytes) :
    cs.foldl (onReadable now limit) s = s := by
  induction cs with
  | nil => rfl
  | cons c cs ih =>
    have hstep : onReadable now limit s c = s := by
      unfold onReadable
      rw [if_pos hs]
    rw [List.foldl_cons, hstep, ih]

/-- **Reading in pieces is reading at once.** -/
theorem has_foldl (cs : List Bytes) : ∀ s : ReplClient, s.failed = false →
    nextMessage now s.recvbuf = none → refused s.recvbuf = false →
    Has limit s (s.recvbuf ++ cs.flatten) (readMessages now (s.recvbuf ++ cs.flatten))
      (cs.foldl (onReadable now limit) s) := by
  induction cs with
  | nil =>
    intro s hs hnone hok
    rw [List.flatten_nil, List.append_nil, readMessages_none hnone]
    exact ⟨rfl, by rw [Nat.sub_self]; rfl, hs.trans hok.symm, fun _ => rfl⟩
  | cons c cs ih =>
    intro s hs hnone hok
    obtain ⟨hdone, hshort⟩ := readMessages_rest now (s.recvbuf ++ c)
    have hstep : onReadable now limit s c = _ := if_neg (by rw [hs]; exact Bool.false_ne_true)
    rw [List.foldl_cons, hstep, List.flatten_cons, ← List.append_assoc, readMessages_append]
    generalize readMessages now (s.recvbuf ++ c) = r at hdone hshort ⊢
    cases href : refused r.2 with
    | true =>
      -- the rest of the stream is never received
      obtain ⟨hrest, href'⟩ := readMessages_refused now href cs.flatten
      rw [foldl_failed now limit href, hrest]
      refine ⟨by rw [List.append_nil], ?_, href.trans href'.symm,
        fun h => absurd (href.symm.trans h) (by decide)⟩
      simp only [List.length_append] at hshort ⊢
      omega
    | false =>
      have h := ih ⟨r.2, r.1.foldl (replExec limit) s.hash,
        s.position + ((s.recvbuf ++ c).length - r.2.length), refused r.2⟩ href hdone href
      have hshort' := (readMessages_rest now (r.2 ++ cs.flatten)).2
      refine ⟨h.hash.trans (by rw [List.foldl_append]), h.position.trans ?_, h.failed, h.recvbuf⟩
      simp only [List.length_append] at hshort hshort' ⊢
      omega

end ReplClient

/-- What a slave with the map `m` has after receiving pieces. -/
def replicate (now : Int) (limit : Nat) (m : HashMap Object) (pieces : List Bytes) : ReplClient :=
  pieces.foldl (ReplClient.onReadable now limit) { hash := m }

theorem has_replicate (now : Int) (limit : Nat) (m : HashMap Object) (pieces : List Bytes) :
    ReplClient.Has limit { hash := m } pieces.flatten (readMessages now pieces.flatten)
      (replicate now limit m pieces) :=
  ReplClient.has_foldl now limit pieces { hash := m } rfl rfl rfl

end Memcache

/-! ## Both loops -/

/-- **Segmentation.**  For any stream `b`: if no request is too long, a counter connection executes the
    same requests, with the same effect, however `b` is cut; and a slave ends with the same map, after the
    same number of bytes, either with the same rest or refusing a message. -/
theorem loops_segmentation (now : Int) (limit : Nat) (m : HashMap Memcache.Object) (b : Bytes) :
    (Counter.Bounded b → ∀ jobs jobs', Counter.Delivers b jobs → Counter.Delivers b jobs' →
      Counter.executed jobs = Counter.executed jobs' ∧
      ∀ g w, Counter.serve g (Counter.executed jobs) w = Counter.serve g (Counter.executed jobs') w) ∧
    ∀ pieces pieces', pieces.flatten = b → pieces'.flatten = b →
      (Memcache.replicate now limit m pieces).hash = (Memcache.replicate now limit m pieces').hash ∧
      (Memcache.replicate now limit m pieces).position
        = (Memcache.replicate now limit m pieces').position ∧
      (Memcache.replicate now limit m pieces).failed = (Memcache.replicate now limit m pieces').failed ∧
      ((Memcache.replicate now limit m pieces).failed = false →
        (Memcache.replicate now limit m pieces).recvbuf
          = (Memcache.replicate now limit m pieces').recvbuf) := by
  constructor
  · intro hb jobs jobs' h h'
    have hsame := Counter.executed_eq hb h h'
    exact ⟨hsame, fun g w => by rw [hsame]⟩
  · rintro pieces pieces' rfl hp'
    have h := Memcache.has_replicate now limit m pieces
    have h' := Memcache.has_replicate now limit m pieces'
    rw [hp'] at h'
    have hfailed := h.failed.trans h'.failed.symm
    exact ⟨h.hash.trans h'.hash.symm, h.position.trans h'.position.symm, hfailed,
      fun hf => (h.recvbuf hf).trans (h'.recvbuf (hfailed.symm.trans hf)).symm⟩

/-- A Noop request. -/
def Counter.noop : Bytes := [0x90, 0, 0, 0, 0, 0, 0, 0, 0, 0, 0, 0]

theorem Counter.bounded_noop : Counter.Bounded Counter.noop := by
  have hnext : Counter.nextRequest Counter.noop
      = some (12, { length := 12, command := .Noop, opaqueBytes := [0, 0, 0, 0], status := .OK }) := by rfl
  exact .item hnext (by decide) fun _ => .wait rfl (by decide)

/-- In one piece, or cut in its header between two jobs. -/
theorem loops_noop : Counter.Bounded Counter.noop ∧
    Counter.executed [[⟨Counter.noop, ()⟩]]
      = Counter.executed [[⟨Counter.noop.take 5, ()⟩], [⟨Counter.noop.drop 5, ()⟩]] := by
  have hone : ∀ d : Bytes, d ≠ [] → d.length ≤ Memcache.MAX_RECVSIZE →
      Reader.Cuts Memcache.MAX_RECVSIZE d [⟨d, ()⟩] := fun _ hne hle => .singleton _ hne hle
  have h : Counter.Delivers Counter.noop [[⟨Counter.noop, ()⟩]] := hone Counter.noop (by decide) (by decide)
  have h' : Counter.Delivers Counter.noop [[⟨Counter.noop.take 5, ()⟩], [⟨Counter.noop.drop 5, ()⟩]] :=
    (hone (Counter.noop.take 5) (by decide) (by decide)).append
      (hone (Counter.noop.drop 5) (by decide) (by decide))
  exact ⟨Counter.bounded_noop, ((loops_segmentation 0 0 Memcache.Server.oneBucket.hash Counter.noop).1
    Counter.bounded_noop _ _ h h').1⟩

end Yrmcds
