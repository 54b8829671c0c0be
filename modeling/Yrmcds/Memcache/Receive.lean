/-
  Receiving from a memcache client (src/memcache/sockets.cpp, `m_recvjob`).

  A job takes what an earlier job has left in `m_pending`, and then calls `receive` until it says AGAIN;
  each call brings at most `MAX_RECVSIZE` bytes.  After each call all requests that are complete are
  executed, of either protocol: the first byte tells which.  What is left over stays in the buffer, and
  goes to `m_pending` when the job ends.

  Executing a request can end the connection (QUIT, Quit, QuitQ).  The loop does not look: it goes on
  with the requests that are ALREADY IN THE BUFFER, while requests that arrive later find the descriptor
  closed (RESET).  So what follows a QUIT is executed or not, depending on how the network has cut the
  stream.  Numbers that are read from behind their line (see `TextRequest`) are the other reason why the
  pieces matter.  `segmentation_iff` says that there is no third: the pieces do not matter exactly if
  every line is steady and no request comes soon after a QUIT.
-/
import Yrmcds.Lib.Segments
import Yrmcds.Memcache.TextRequest
import Yrmcds.Memcache.Wire

namespace Yrmcds.Memcache

open BigEndian Segments

/-- `MAX_RECVSIZE` of src/constants.hpp. -/
def MAX_RECVSIZE : Nat := 2 * 2 ^ 20

/-! ## The receive job -/

/-- The commands that end the connection: they call `invalidate_and_close`, or `send_close`, which does
    the same when the output has been sent. -/
def Cmd.closes : Cmd → Bool
  | .bin r => r.status == .OK && (r.command == .Quit || r.command == .QuitQ)
  | .text r => r.valid && r.command == .QUIT

/-- What the parsers can see besides the bytes received: the memory behind them in the buffer, and
    whether `errno` is `ERANGE` (by the number of bytes still to be parsed). -/
structure Memory where
  stale : Bytes
  erange : Nat → Bool

/-- Nothing behind the buffer, and `errno` clear. -/
def Memory.clean : Memory := ⟨[], fun _ => false⟩

/-- A request at the head of the buffer, with its length; `none` if it is incomplete. -/
def nextBinary (now : Int) (head : Bytes) : Option (Nat × BinaryRequest) :=
  let parser := BinaryRequest.parse now head
  if parser.length = 0 then none else some (parser.length, parser)

/-- A text request at the head of the buffer. -/
def nextText (now : Int) (u : Around) (head : Bytes) : Option (Nat × Cmd) :=
  let parser := TextRequest.parse now u head
  if parser.1 = 0 then none else some (parser.1, .text parser.2)

/-- `is_binary_request`. -/
def isBinaryRequest (head : Bytes) : Bool := head.headD 0 == 0x80

/-- One round of the inner loop. -/
def nextRequest (now : Int) (e : Memory) (head : Bytes) : Option (Nat × Cmd) :=
  if head = [] then none
  else if isBinaryRequest head then (nextBinary now head).map (Prod.map id Cmd.bin)
  else nextText now ⟨e.stale, e.erange head.length⟩ head

/-! ## Binary requests -/

namespace BinaryRequest

variable (now : Int)

/-- A request is complete when its header says so. -/
theorem length_parse (p : Bytes) : (parse now p).length =
    if p.length < BINARY_HEADER_SIZE ∨ p.length < BINARY_HEADER_SIZE + (ntoh32 p 8).toNat then 0
    else BINARY_HEADER_SIZE + (ntoh32 p 8).toNat := by
  unfold parse
  by_cases h1 : p.length < BINARY_HEADER_SIZE
  · rw [if_pos h1, if_pos (.inl h1)]
  by_cases h2 : p.length < BINARY_HEADER_SIZE + (ntoh32 p 8).toNat
  · simp only [if_neg h1, if_pos h2, if_pos (Or.inr h2 : _ ∨ _)]
  · rw [if_neg (not_or.mpr ⟨h1, h2⟩)]
    simp only [if_neg h1, if_neg h2]
    split_ifs
    · rfl
    · rfl
    · rfl
    · exact (parseExtras_frame ..).1

theorem complete_iff (p : Bytes) : (parse now p).length ≠ 0 ↔
    BINARY_HEADER_SIZE ≤ p.length ∧ BINARY_HEADER_SIZE + (ntoh32 p 8).toNat ≤ p.length := by
  rw [length_parse]
  split_ifs with h
  · exact iff_of_false (fun hne => hne rfl) (by omega)
  · refine iff_of_true ?_ (by omega)
    have : 0 < BINARY_HEADER_SIZE := by decide
    omega

section

variable {q : Bytes} (y : Bytes) {i : Nat}

theorem binaryExptime_append (h : i + 4 ≤ q.length) :
    binaryExptime now (q ++ y) i = binaryExptime now q i := by
  unfold binaryExptime
  rw [ntoh32_append y h]

/-- The extras lie in the request. -/
theorem parseExtras_append {X : Nat} (hX : BINARY_HEADER_SIZE + X ≤ q.length) (K D : Nat)
    (r : BinaryRequest) : parseExtras now (q ++ y) K X D r = parseExtras now q K X D r := by
  -- the fields, where they are read
  have htime : X = 4 → binaryExptime now (q ++ y) BINARY_HEADER_SIZE
      = binaryExptime now q BINARY_HEADER_SIZE := fun h => binaryExptime_append now y (by omega)
  have hset : X = 8 → ntoh32 (q ++ y) BINARY_HEADER_SIZE = ntoh32 q BINARY_HEADER_SIZE ∧
      binaryExptime now (q ++ y) (BINARY_HEADER_SIZE + 4)
        = binaryExptime now q (BINARY_HEADER_SIZE + 4) := fun h =>
    ⟨ntoh32_append y (by omega), binaryExptime_append now y (by omega)⟩
  have hincdec : X = 20 → ntoh64 (q ++ y) BINARY_HEADER_SIZE = ntoh64 q BINARY_HEADER_SIZE ∧
      ntoh64 (q ++ y) (BINARY_HEADER_SIZE + 8) = ntoh64 q (BINARY_HEADER_SIZE + 8) ∧
      binaryExptime now (q ++ y) (BINARY_HEADER_SIZE + 16)
        = binaryExptime now q (BINARY_HEADER_SIZE + 16) := fun h =>
    ⟨ntoh64_append y (by omega), ntoh64_append y (by omega), binaryExptime_append now y (by omega)⟩
  unfold parseExtras
  cases r.command <;> dsimp only <;> split_ifs <;>
    first
    | rfl
    | rw [htime (by omega)]
    | rw [(hset (by omega)).1, (hset (by omega)).2]
    | rw [(hincdec (by omega)).1, (hincdec (by omega)).2.1, (hincdec (by omega)).2.2]

/-- **A complete request does not change when more arrives.** -/
theorem parse_append (h : (parse now q).length ≠ 0) : parse now (q ++ y) = parse now q := by
  obtain ⟨hhdr, hlen⟩ := (complete_iff now q).mp h
  have h24 : BINARY_HEADER_SIZE = 24 := rfl
  have hlen' : (q ++ y).length = q.length + y.length := List.length_append
  have htotal : ntoh32 (q ++ y) 8 = ntoh32 q 8 := ntoh32_append y (by omega)
  have hkey : ntoh16 (q ++ y) 2 = ntoh16 q 2 := ntoh16_append y (by omega)
  have hop : (q ++ y).getD 1 0 = q.getD 1 0 := getD_append y (by omega)
  have hextras : (q ++ y).getD 4 0 = q.getD 4 0 := getD_append y (by omega)
  have hopaque : slice 12 4 (q ++ y) = slice 12 4 q := slice_append_left (by omega)
  have hcas : ntoh64 (q ++ y) 16 = ntoh64 q 16 := ntoh64_append y (by omega)
  unfold parse
  simp only [htotal, hkey, hop, hextras, hopaque, hcas]
  rw [if_neg (by omega), if_neg (by omega), if_neg (by omega), if_neg (by omega)]
  split_ifs with h3 h4 h5
  · rfl
  · rfl
  · have hK : BINARY_HEADER_SIZE + (q.getD 4 0).toNat + ntoh16 q 2 ≤ q.length := by omega
    simp only [slice_append_left (b := y) hK]
  · have hK : BINARY_HEADER_SIZE + (q.getD 4 0).toNat + ntoh16 q 2 ≤ q.length := by omega
    have hD : BINARY_HEADER_SIZE + (q.getD 4 0).toNat + ntoh16 q 2
        + ((ntoh32 q 8).toNat - ntoh16 q 2 - (q.getD 4 0).toNat) ≤ q.length := by omega
    rw [parseExtras_append now y (by omega)]
    simp only [slice_append_left (b := y) hK, slice_append_left (b := y) hD]

end

end BinaryRequest

/-! ## The reader -/

variable {line rest : Bytes}

section

variable {now : Int} {e : Memory} {u : Around} {p : Bytes} {n : Nat} {c : Cmd}

theorem nextBinary_some {r : BinaryRequest} (h : nextBinary now p = some (n, r)) :
    0 < n ∧ n ≤ p.length := by
  unfold nextBinary at h
  dsimp only at h
  split_ifs at h with h0
  cases h
  exact ⟨Nat.pos_of_ne_zero h0, (BinaryRequest.parse_fits now p h0).2⟩

/-- The request that begins with a line, by what the line is. -/
def ofHeader (line rest : Bytes) : TextRequest.Header → Option (Nat × Cmd)
  | .done r => some (line.length, .text r)
  | .data r nbytes =>
    if rest.length < nbytes + 2 then none
    else some (line.length + nbytes + 2, .text (r.checkData nbytes rest))

theorem nextText_of_line (h : TextRequest.splitLine p = some (line, rest)) :
    nextText now u p = ofHeader line rest (TextRequest.parseLine now ⟨rest ++ u.after, u.erange⟩ line) := by
  have hpos : line.length ≠ 0 := by simpa using (TextRequest.splitLine_eq h).2
  unfold nextText TextRequest.parse
  rw [h]
  dsimp only
  cases TextRequest.parseLine now ⟨rest ++ u.after, u.erange⟩ line with
  | done r => exact if_neg hpos
  | data r n =>
    dsimp only [ofHeader]
    by_cases hn : rest.length < n + 2
    · simp only [if_pos hn, if_true]
    · simp only [if_neg hn]
      rw [if_neg (by omega)]

theorem nextText_of_no_line (h : TextRequest.splitLine p = none) : nextText now u p = none := by
  unfold nextText TextRequest.parse
  rw [h]
  rfl

theorem ofHeader_some {x : TextRequest.Header} (h : ofHeader line rest x = some (n, c)) :
    line.length ≤ n ∧ n ≤ line.length + rest.length := by
  cases x with
  | done r => cases h; omega
  | data r k =>
    simp only [ofHeader] at h
    split_ifs at h
    cases h
    omega

theorem nextText_some (h : nextText now u p = some (n, c)) : 0 < n ∧ n ≤ p.length := by
  cases hs : TextRequest.splitLine p with
  | none => rw [nextText_of_no_line hs] at h; cases h
  | some x =>
    obtain ⟨line, rest⟩ := x
    rw [nextText_of_line hs] at h
    obtain ⟨hp, hne⟩ := TextRequest.splitLine_eq hs
    have hpos : 0 < line.length := List.length_pos_iff.mpr hne
    have hbound := ofHeader_some h
    rw [hp, List.length_append]
    omega

theorem nextRequest_some (h : nextRequest now e p = some (n, c)) : 0 < n ∧ n ≤ p.length := by
  unfold nextRequest at h
  split_ifs at h
  · obtain ⟨⟨n', r⟩, hr, hx⟩ := Option.map_eq_some_iff.mp h
    cases hx
    exact nextBinary_some hr
  · exact nextText_some h

/-- Part of a binary request shows nothing; a whole one shows itself, whatever follows. -/
theorem nextBinary_part (now : Int) (q y : Bytes) :
    nextBinary now q = (nextBinary now (q ++ y)).filter fun x => x.1 ≤ q.length := by
  refine view_of_parse (fun p hp => (BinaryRequest.parse_fits now p hp).2)
    (fun q y hq => BinaryRequest.parse_append now y hq) (fun q y hy hle => ?_) q y
  -- the header has arrived, and it is the header that says how long the request is
  obtain ⟨hhdr, hlen⟩ := (BinaryRequest.complete_iff now (q ++ y)).mp hy
  have h24 : BINARY_HEADER_SIZE = 24 := rfl
  rw [BinaryRequest.length_parse, if_neg (by omega)] at hle
  rw [ntoh32_append (q := q) (i := 8) y (by omega)] at hle
  exact (BinaryRequest.complete_iff now q).mpr ⟨by omega, hle⟩

/-- What follows the data of a request is not looked at. -/
theorem ofHeader_part (line rest y : Bytes) (x : TextRequest.Header) :
    ofHeader line rest x
      = (ofHeader line (rest ++ y) x).filter fun x => x.1 ≤ line.length + rest.length := by
  cases x with
  | done r => exact (if_pos (by simp)).symm
  | data r n =>
    simp only [ofHeader, List.length_append]
    by_cases hn : rest.length < n + 2
    · rw [if_pos hn]
      split_ifs
      · rfl
      · rw [Option.filter_some, if_neg (by simp; omega)]
    · rw [if_neg hn, if_neg (by omega), Option.filter_some, if_pos (by simp; omega)]
      unfold TextRequest.checkData
      rw [List.take_append_of_le_length (by omega), List.drop_append_of_le_length (by omega),
        List.take_append_of_le_length (by rw [List.length_drop]; omega)]

/-- Part of a text request shows nothing; a whole one is read as if what follows stood BEHIND the
    buffer. -/
theorem nextText_part (now : Int) (u : Around) (q y : Bytes) :
    nextText now ⟨y ++ u.after, u.erange⟩ q
      = (nextText now u (q ++ y)).filter fun x => x.1 ≤ q.length := by
  cases hs : TextRequest.splitLine q with
  | some x =>
    obtain ⟨line, rest⟩ := x
    rw [nextText_of_line hs, nextText_of_line (TextRequest.splitLine_append hs y),
      (TextRequest.splitLine_eq hs).1, List.length_append, List.append_assoc]
    exact ofHeader_part ..
  | none =>
    rw [nextText_of_no_line hs]
    cases hs' : TextRequest.splitLine (q ++ y) with
    | none => rw [nextText_of_no_line hs']; rfl
    | some x =>
      -- the line alone is longer than the part
      obtain ⟨line, rest⟩ := x
      have hlt := TextRequest.length_lt_of_splitLine hs hs'
      rw [nextText_of_line hs']
      symm
      rw [Option.filter_eq_none_iff]
      rintro ⟨n, c⟩ hx
      have hle := (ofHeader_some hx).1
      simp only [decide_eq_true_eq]
      omega

/-- What has arrived behind a point can pass for memory behind the buffer. -/
theorem nextRequest_view (now : Int) (e : Memory) (q y : Bytes) :
    ∃ e', nextRequest now e' q = (nextRequest now e (q ++ y)).filter fun x => x.1 ≤ q.length := by
  refine ⟨⟨y ++ e.stale, fun _ => e.erange (q ++ y).length⟩, ?_⟩
  cases q with
  | nil =>
    show none = _
    symm
    rw [Option.filter_eq_none_iff]
    rintro ⟨n, c⟩ hx
    have hpos := (nextRequest_some hx).1
    simp only [List.length_nil, decide_eq_true_eq]
    omega
  | cons b q =>
    have hhead : isBinaryRequest (b :: q ++ y) = isBinaryRequest (b :: q) := rfl
    unfold nextRequest
    rw [if_neg (List.cons_ne_nil b q), if_neg (show b :: q ++ y ≠ [] from List.cons_ne_nil b (q ++ y)),
      hhead]
    cases isBinaryRequest (b :: q) with
    | true =>
      rw [if_pos rfl, if_pos rfl, nextBinary_part now (b :: q) y, Option.filter_map]
      rfl
    | false => exact nextText_part now ⟨e.stale, _⟩ (b :: q) y

end

/-- The requests of either protocol, as the receive job reads them. -/
def reader (now : Int) : Reader Memory UInt8 Cmd where
  next := nextRequest now
  stop := Cmd.closes
  pos := fun h => (nextRequest_some h).1
  le := fun h => (nextRequest_some h).2
  view := nextRequest_view now

/-- `m_recvjob`: `done` are the commands executed, `buf` is `m_pending`. -/
def recvJob (now : Int) : State UInt8 Cmd → List (Piece Memory UInt8) → State UInt8 Cmd :=
  (reader now).job MAX_REQUEST_LENGTH

/-- The commands that jobs, one after another, execute for a new connection. -/
def executed (now : Int) (jobs : List (List (Piece Memory UInt8))) : List Cmd :=
  (jobs.foldl (recvJob now) {}).done

/-! ## When the pieces do not matter -/

/-- The jobs receive `b`, in pieces of at most `MAX_RECVSIZE` bytes. -/
def Delivers (b : Bytes) (jobs : List (List (Piece Memory UInt8))) : Prop :=
  Reader.Cuts MAX_RECVSIZE b jobs.flatten

/-- No request of the stream is longer than `MAX_REQUEST_LENGTH`. -/
def Bounded (now : Int) (b : Bytes) : Prop := (reader now).Bounded .clean MAX_REQUEST_LENGTH b

/-- A text request at the head of `p` begins with a steady line. -/
def SteadyHead (now : Int) (p : Bytes) : Prop :=
  isBinaryRequest p = true ∨
    ∀ line rest, TextRequest.splitLine p = some (line, rest) → TextRequest.Steady now line

/-- No request can be read from fewer than `MAX_RECVSIZE` bytes of `p`. -/
def Silent (now : Int) (p : Bytes) : Prop :=
  ∀ e q, q <+: p → q.length < MAX_RECVSIZE → nextRequest now e q = none

/-- **The streams whose pieces do not matter**: request by request, lines are steady; and if a request
    ends the connection, no other comes so soon after it that both can arrive in one piece. -/
inductive CalmStream (now : Int) : Bytes → Prop
  | wait {p : Bytes} : nextRequest now .clean p = none → SteadyHead now p → CalmStream now p
  | request {p : Bytes} {n : Nat} {c : Cmd} : nextRequest now .clean p = some (n, c) → SteadyHead now p →
      c.closes = false → CalmStream now (p.drop n) → CalmStream now p
  | quit {p : Bytes} {n : Nat} {c : Cmd} : nextRequest now .clean p = some (n, c) → SteadyHead now p →
      c.closes = true → Silent now (p.drop n) → CalmStream now p

section

variable {now : Int} {p q : Bytes}

theorem isBinaryRequest_part (hne : q ≠ []) (hq : q <+: p) : isBinaryRequest q = isBinaryRequest p := by
  obtain ⟨y, rfl⟩ := hq
  cases q with
  | nil => exact absurd rfl hne
  | cons b q => rfl

/-- A line that has arrived is the line of the stream. -/
theorem splitLine_part (hq : q <+: p) (h : TextRequest.splitLine q = some (line, rest)) :
    ∃ rest', TextRequest.splitLine p = some (line, rest') := by
  obtain ⟨y, rfl⟩ := hq
  exact ⟨_, TextRequest.splitLine_append h y⟩

/-- After a steady line the memory around makes no difference. -/
theorem SteadyHead.blind (h : SteadyHead now p) : (reader now).Blind p := by
  intro q hq e e'
  show nextRequest now e q = nextRequest now e' q
  unfold nextRequest
  by_cases hne : q = []
  · rw [if_pos hne, if_pos hne]
  rw [if_neg hne, if_neg hne, isBinaryRequest_part hne hq]
  rcases h with hb | hline
  · rw [if_pos hb, if_pos hb]
  · split_ifs
    · rfl
    · cases hs : TextRequest.splitLine q with
      | none => rw [nextText_of_no_line hs, nextText_of_no_line hs]
      | some x =>
        obtain ⟨line, rest⟩ := x
        obtain ⟨rest', hs'⟩ := splitLine_part hq hs
        have hsteady := hline line rest' hs'
        rw [nextText_of_line hs, nextText_of_line hs]
        exact congrArg (ofHeader line rest) ((hsteady _).trans (hsteady _).symm)

/-- A line alone is a request, or the header of one. -/
theorem nextRequest_line (hb : isBinaryRequest p = false)
    (hs : TextRequest.splitLine p = some (line, rest)) (e : Memory) :
    nextRequest now e line
      = ofHeader line [] (TextRequest.parseLine now ⟨e.stale, e.erange line.length⟩ line) := by
  obtain ⟨hp, hne⟩ := TextRequest.splitLine_eq hs
  have hline : isBinaryRequest line = false := (isBinaryRequest_part hne ⟨rest, hp.symm⟩).trans hb
  unfold nextRequest
  rw [if_neg hne, hline, if_neg Bool.false_ne_true, nextText_of_line (TextRequest.splitLine_self hs)]
  rfl

/-- A line on which all memories agree is steady. -/
theorem steady_of_line {x : Option (Nat × Cmd)}
    (h : ∀ u, ofHeader line [] (TextRequest.parseLine now u line) = x) : TextRequest.Steady now line := by
  -- with nothing around, the line is the header of a storage request, or a request
  cases hd : TextRequest.parseLine now ⟨[], true⟩ line with
  | data r n => exact TextRequest.steady_of_data hd
  | done r =>
    intro u
    have hu := (h u).trans (h ⟨[], true⟩).symm
    rw [hd] at hu ⊢
    cases hx : TextRequest.parseLine now u line with
    | done r' => rw [hx] at hu; cases hu; rfl
    | data r' n =>
      rw [hx] at hu
      simp only [ofHeader, List.length_nil] at hu
      rw [if_pos (by omega)] at hu
      cases hu

/-- If the reader settles, or waits, it does so on the first line alone. -/
theorem steadyHead_of_line (h : ∀ line, line <+: p → ∃ x, ∀ e, nextRequest now e line = x) :
    SteadyHead now p := by
  cases hb : isBinaryRequest p with
  | true => exact .inl hb
  | false =>
    refine .inr fun line rest hs => ?_
    obtain ⟨x, hx⟩ := h line ⟨rest, (TextRequest.splitLine_eq hs).1.symm⟩
    refine steady_of_line (x := x) fun u => ?_
    rw [← hx ⟨u.after, fun _ => u.erange⟩, nextRequest_line hb hs]

theorem steadyHead_of_waits (h : (reader now).Waits p) : SteadyHead now p :=
  steadyHead_of_line fun line hline => ⟨none, fun e => h e line hline⟩

theorem steadyHead_of_settles {n : Nat} {c : Cmd} (h : (reader now).Settles p n c) : SteadyHead now p := by
  refine steadyHead_of_line fun line hline => ?_
  rcases Nat.lt_or_ge line.length n with hlt | hge
  · exact ⟨none, fun e => h.part e line hline hlt⟩
  · exact ⟨some (n, c), fun e => h.whole e line hline hge⟩

/-- The calm streams are those the library asks for. -/
theorem calmStream_iff : CalmStream now p ↔ ∃ xs, (reader now).Reads MAX_RECVSIZE p xs := by
  constructor
  · intro h
    induction h with
    | wait hn hs => exact ⟨[], .wait (hs.blind.waits hn)⟩
    | request hn hs hc _ ih =>
      obtain ⟨xs, hxs⟩ := ih
      exact ⟨_, .item (hs.blind.settles hn) hc hxs⟩
    | quit hn hs hc hsil => exact ⟨_, .last (hs.blind.settles hn) hc hsil⟩
  · rintro ⟨xs, h⟩
    induction h with
    | wait hw => exact .wait (hw .clean _ ( List.prefix_refl _)) (steadyHead_of_waits hw)
    | item hs hc _ ih =>
      exact .request (hs.whole .clean _ ( List.prefix_refl _) hs.le) (steadyHead_of_settles hs) hc ih
    | last hs hc hq =>
      exact .quit (hs.whole .clean _ ( List.prefix_refl _) hs.le) (steadyHead_of_settles hs) hc hq

end

/-- **Segmentation.**  The commands executed for a stream, and for every first part of it, do not depend
    on the pieces and the jobs exactly if the stream is calm. -/
theorem segmentation_iff (now : Int) (b : Bytes) (hb : Bounded now b) :
    (∀ b', b' <+: b → ∀ jobs jobs', Delivers b' jobs → Delivers b' jobs' →
      executed now jobs = executed now jobs') ↔ CalmStream now b := by
  have hM : 0 < MAX_RECVSIZE := by decide
  rw [calmStream_iff, ← Reader.uniform_iff hM hb]
  have hrun : ∀ jobs, executed now jobs = ((reader now).run MAX_REQUEST_LENGTH {} jobs.flatten).done := by
    intro jobs
    exact congrArg State.done (Reader.foldl_job jobs {} fun h => (nomatch h))
  constructor
  · intro h b' hb' cs cs' hcs hcs'
    have := h b' hb' [cs] [cs'] (by unfold Delivers; simpa using hcs) (by unfold Delivers; simpa using hcs')
    rw [hrun, hrun] at this
    simpa using this
  · intro h b' hb' jobs jobs' hj hj'
    rw [hrun, hrun]
    exact h b' hb' _ _ hj hj'

/-- A stream of one GET. -/
def getStream : Bytes := ascii "get x\r\n"

theorem nextRequest_getStream : nextRequest 0 .clean getStream
    = some (7, .text { command := .GET, valid := true, key := [120], keys := [[120]] }) := by rfl

theorem bounded_getStream : Bounded 0 getStream :=
  .item nextRequest_getStream (by decide) fun _ => .wait rfl (by decide)

theorem calmStream_getStream : CalmStream 0 getStream := by
  have hsteady : SteadyHead 0 getStream := by
    refine .inr fun line rest hs => ?_
    cases hs
    exact fun u => rfl
  exact .request nextRequest_getStream hsteady rfl (.wait rfl (.inr fun _ _ hs => nomatch hs))

theorem segmentation_get : Bounded 0 getStream ∧ ∀ b', b' <+: getStream → ∀ jobs jobs',
    Delivers b' jobs → Delivers b' jobs' → executed 0 jobs = executed 0 jobs' :=
  ⟨bounded_getStream, (segmentation_iff 0 getStream bounded_getStream).mpr calmStream_getStream⟩

/-- A QUIT, and a SET behind it. -/
def quitLine : Bytes := ascii "quit\r\n"

/-- A set, as it arrives. -/
def setRequest : Bytes := ascii "set x 0 0 1\r\na\r\n"

theorem bounded_quit_set : Bounded 0 (quitLine ++ setRequest) := by
  have hnext : nextRequest 0 .clean (quitLine ++ setRequest)
      = some (6, .text { command := .QUIT, valid := true }) := by rfl
  exact .item hnext (by decide) fun h => (nomatch h)

/-- **The SET is executed if it arrives with the QUIT**, and not if it arrives after it. -/
theorem quit_pieces_matter : Bounded 0 (quitLine ++ setRequest) ∧ ∃ jobs jobs',
    Delivers (quitLine ++ setRequest) jobs ∧ Delivers (quitLine ++ setRequest) jobs' ∧
    (executed 0 jobs).length = 2 ∧ (executed 0 jobs').length = 1 := by
  have hone : ∀ d : Bytes, d ≠ [] → d.length ≤ MAX_RECVSIZE →
      Reader.Cuts MAX_RECVSIZE d [⟨d, Memory.clean⟩] := fun _ hne hle => .singleton _ hne hle
  refine ⟨bounded_quit_set, [[⟨quitLine ++ setRequest, .clean⟩]],
    [[⟨quitLine, .clean⟩, ⟨setRequest, .clean⟩]], ?_, ?_, by decide +kernel, by decide +kernel⟩
  · exact hone _ (by decide) (by decide)
  · exact (hone quitLine (by decide) (by decide)).append (hone setRequest (by decide) (by decide))

end Yrmcds.Memcache
