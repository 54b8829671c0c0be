/-
  Replication on the wire (src/memcache/replication.cpp).

  The master sends its messages as requests of the binary protocol (`ReplMsg.wire`), and the slave reads
  them with the parser that is meant for clients, `binary_request` (`replRecv`).  The two do not agree on
  everything a master can store:

  * A time goes out as its low 32 bits, and comes in as a client's expiration time: small values are
    taken relative to the SLAVE's clock, and 2^32 - 1 is the special `EXPTIME_NONE`.
  * The parser rejects a SetQ without data and one with more than `MAX_REQUEST_LENGTH` bytes, before it
    has read flags, time or data.  `repl_recv` does not look at the status, and stores what the parser
    has: no data, flags 0, time 0.
  * From 2^32 bytes on, the length in the header wraps around, and what follows is read as new requests.

  `arrives_iff` says exactly which objects arrive as they are.  For a length that wraps around the point
  is that nothing in the rest of the message can make up for it: a request that stores data of length L
  under a key of length K takes 24 + K + L bytes at least (`Fits`), and fewer are left.
-/
import Yrmcds.Memcache.Replication

namespace Yrmcds.Memcache

open ChainTable BigEndian Run

/-! ## Sending -/

/-- `fill_header`; the bytes it leaves 0 are the data type, the status, the opaque field and the cas
    value. -/
def fillHeader (keyLen extrasLen dataLen : Nat) (cmd : BinaryCommand) : Bytes :=
  [0x80, cmd.toByte] ++ (encode 2 keyLen ++ ([UInt8.ofNat extrasLen, 0, 0, 0] ++
    (encode 4 (keyLen + extrasLen + dataLen) ++ List.replicate 12 0)))

/-- The bytes `repl_object`, `repl_touch` and `repl_delete` send. -/
def ReplMsg.wire : ReplMsg → Bytes
  | .set k d f t => fillHeader k.length 8 d.length .SetQ ++
      (encode 4 f.toNat ++ (encode 4 (exptime32 t).toNat ++ (k ++ d)))
  | .touch k t => fillHeader k.length 4 0 .Touch ++ (encode 4 (exptime32 t).toNat ++ k)
  | .delete k => fillHeader k.length 0 0 .DeleteQ ++ k

/-! ## Receiving -/

/-- What `repl_recv` throws. -/
inductive ReplError where
  | invalidData               -- "Invalid replication data"
deriving DecidableEq, Repr

/-- The `switch` of `repl_recv`. -/
def replExec (limit : Nat) (m : HashMap Object) (parser : BinaryRequest) : HashMap Object :=
  match parser.command with
  | .SetQ => replSet limit m parser.key parser.data parser.flags parser.exptime
  | .Touch => replTouch m parser.key parser.exptime
  | .DeleteQ => replRemove m parser.key
  | _ => m

/-- `repl_recv`: how many bytes were consumed, and the hash map. -/
def replRecv (now : Int) (limit : Nat) (p : Bytes) (m : HashMap Object) :
    Except ReplError (Nat × HashMap Object) :=
  if hp : p = [] then .ok (0, m)
  else if p.head hp ≠ 0x80 then .error .invalidData
  else
    let parser := BinaryRequest.parse now p
    if parser.length = 0 then .ok (0, m)
    else
      match replRecv now limit (p.drop parser.length) (replExec limit m parser) with
      | .ok (n, m') => .ok (parser.length + n, m')
      | .error e => .error e
termination_by p.length
decreasing_by
  rename_i hn
  have hpos := List.length_pos_of_ne_nil hp
  have hn' : (BinaryRequest.parse now p).length ≠ 0 := hn
  rw [List.length_drop]
  omega

/-! ## What the parser finds -/

namespace BinaryRequest

/-- The fields of the header, as the parser reads them. -/
structure HeaderIs (p : Bytes) (keyLen extrasLen totalLen : Nat) (cmd : BinaryCommand) : Prop where
  length : BINARY_HEADER_SIZE ≤ p.length
  magic : ∀ hp : p ≠ [], p.head hp = 0x80
  opcode : p.getD 1 0 = cmd.toByte
  keyLen : ntoh16 p 2 = keyLen
  extrasLen : (p.getD 4 0).toNat = extrasLen
  totalLen : (ntoh32 p 8).toNat = totalLen

/-- ... of a header written field by field; the opaque field and the cas value are among what follows. -/
theorem headerIs_fields {K X D : Nat} (cmd : BinaryCommand) (hK : K < 2 ^ 16) (hX : X < 256) {tail : Bytes}
    (htail : 12 ≤ tail.length) :
    HeaderIs ([0x80, cmd.toByte] ++ (encode 2 K ++ ([UInt8.ofNat X, 0, 0, 0] ++
      (encode 4 (K + X + D) ++ tail)))) K X ((K + X + D) % 2 ^ 32) cmd := by
  refine ⟨?_, fun _ => rfl, rfl, ?_, ?_, ?_⟩
  · simp [BINARY_HEADER_SIZE]
    omega
  · unfold ntoh16
    rw [slice_append_mid (by rfl) (length_encode 2 K), decode_encode_of_lt (by omega)]
  · have hlen : (encode 2 K).length = 2 := length_encode 2 K
    have hget : ([0x80, cmd.toByte] ++ (encode 2 K ++ ([UInt8.ofNat X, 0, 0, 0] ++
        (encode 4 (K + X + D) ++ tail)))).getD 4 0 = UInt8.ofNat X := by
      rw [← List.append_assoc, List.getD_eq_getElem?_getD, List.getElem?_append_right (by simp [hlen])]
      simp [hlen]
    rw [hget, UInt8.toNat_ofNat']
    exact Nat.mod_eq_of_lt hX
  · unfold ntoh32
    rw [← List.append_assoc, ← List.append_assoc, slice_append_mid (by simp) (length_encode 4 _),
      decode_encode, UInt32.toNat_ofNat']
    simp

/-- ... of a request with a header by `fill_header`. -/
theorem headerIs_fillHeader {K X D : Nat} (cmd : BinaryCommand) (hK : K < 2 ^ 16) (hX : X < 256)
    (body : Bytes) : HeaderIs (fillHeader K X D cmd ++ body) K X ((K + X + D) % 2 ^ 32) cmd := by
  unfold fillHeader
  simp only [List.append_assoc]
  exact headerIs_fields cmd hK hX (by simp)

/-- The extras are read into other fields than these. -/
theorem parseExtras_frame (now : Int) (p : Bytes) (K X D : Nat) (r : BinaryRequest) :
    (parseExtras now p K X D r).length = r.length ∧ (parseExtras now p K X D r).key = r.key ∧
      (parseExtras now p K X D r).data = r.data := by
  unfold parseExtras
  split <;> (try split_ifs) <;> exact ⟨rfl, rfl, rfl⟩

/-- **What a request stores fits into it**: header, key and data. -/
theorem parse_fits (now : Int) (p : Bytes) (hn : (parse now p).length ≠ 0) :
    BINARY_HEADER_SIZE + (parse now p).key.length + (parse now p).data.length ≤ (parse now p).length ∧
      (parse now p).length ≤ p.length := by
  unfold parse at hn ⊢
  by_cases h1 : p.length < BINARY_HEADER_SIZE
  · rw [if_pos h1] at hn
    exact absurd rfl hn
  by_cases h2 : p.length < BINARY_HEADER_SIZE + (ntoh32 p 8).toNat
  · simp only [if_neg h1, if_pos h2] at hn
    exact absurd rfl hn
  simp only [if_neg h1, if_neg h2]
  have hle : BINARY_HEADER_SIZE + (ntoh32 p 8).toNat ≤ p.length := Nat.le_of_not_lt h2
  have hkey := length_slice_le (BINARY_HEADER_SIZE + (p.getD 4 0).toNat) (ntoh16 p 2) p
  have hdata := length_slice_le (BINARY_HEADER_SIZE + (p.getD 4 0).toNat + ntoh16 p 2)
    ((ntoh32 p 8).toNat - ntoh16 p 2 - (p.getD 4 0).toNat) p
  split_ifs with h3 h4 h5
  · exact ⟨Nat.le_add_right _ _, hle⟩
  · exact ⟨Nat.le_add_right _ _, hle⟩
  · refine ⟨?_, hle⟩
    show BINARY_HEADER_SIZE + (slice _ _ p).length + 0 ≤ BINARY_HEADER_SIZE + (ntoh32 p 8).toNat
    omega
  · rw [(parseExtras_frame ..).1, (parseExtras_frame ..).2.1, (parseExtras_frame ..).2.2]
    refine ⟨?_, hle⟩
    show BINARY_HEADER_SIZE + (slice _ _ p).length + (slice _ _ p).length
      ≤ BINARY_HEADER_SIZE + (ntoh32 p 8).toNat
    omega

section

variable {p : Bytes} {K X T : Nat} {cmd : BinaryCommand} (now : Int)

/-- A request whose data is not too large gets to its extras. -/
theorem parse_record (h : HeaderIs p K X T cmd) (hlen : BINARY_HEADER_SIZE + T ≤ p.length)
    (hK : K ≤ MAX_KEY_LENGTH) (hT : K + X ≤ T) (hD : T - K - X ≤ MAX_REQUEST_LENGTH) :
    parse now p = parseExtras now p K X (T - K - X)
      { length := BINARY_HEADER_SIZE + T
        command := BinaryCommand.ofByte cmd.toByte
        opaqueBytes := slice 12 4 p
        key := slice (BINARY_HEADER_SIZE + X) K p
        casUnique := ntoh64 p 16
        key_le := (length_slice_le _ _ _).trans hK
        data := slice (BINARY_HEADER_SIZE + X + K) (T - K - X) p } := by
  unfold parse
  rw [if_neg (Nat.not_lt.mpr h.length)]
  simp only [h.totalLen, h.keyLen, h.extrasLen, h.opcode]
  rw [if_neg (by omega), dif_neg (by omega), if_neg (by omega), if_neg (by omega)]

/-- ... what the extras find, of the fields a slave uses. -/
theorem parse_ok (h : HeaderIs p K X T cmd) (hlen : BINARY_HEADER_SIZE + T ≤ p.length)
    (hK : K ≤ MAX_KEY_LENGTH) (hT : K + X ≤ T) (hD : T - K - X ≤ MAX_REQUEST_LENGTH) :
    ∃ r : BinaryRequest, parse now p = parseExtras now p K X (T - K - X) r ∧
      r.length = BINARY_HEADER_SIZE + T ∧ r.command = BinaryCommand.ofByte cmd.toByte ∧
      r.key = slice (BINARY_HEADER_SIZE + X) K p ∧
      r.data = slice (BINARY_HEADER_SIZE + X + K) (T - K - X) p ∧ r.flags = 0 ∧ r.exptime = 0 :=
  ⟨_, parse_record now h hlen hK hT hD, rfl, rfl, rfl, rfl, rfl, rfl⟩

/-- What is known of a request whatever its length. -/
theorem parse_bounds (h : HeaderIs p K X T cmd) (hlen : BINARY_HEADER_SIZE + T ≤ p.length) :
    (parse now p).length = BINARY_HEADER_SIZE + T ∧ (parse now p).key.length ≤ K ∧
      ((parse now p).data = [] ∨
        ((parse now p).data.length ≤ T - K - X ∧ T - K - X ≤ MAX_REQUEST_LENGTH)) := by
  unfold parse
  rw [if_neg (Nat.not_lt.mpr h.length)]
  simp only [h.totalLen, h.keyLen, h.extrasLen, h.opcode]
  rw [if_neg (by omega)]
  split_ifs with h3 h4 h5
  · exact ⟨rfl, Nat.zero_le _, .inl rfl⟩
  · exact ⟨rfl, Nat.zero_le _, .inl rfl⟩
  · exact ⟨rfl, length_slice_le .., .inl rfl⟩
  · rw [(parseExtras_frame ..).1, (parseExtras_frame ..).2.1, (parseExtras_frame ..).2.2]
    exact ⟨rfl, length_slice_le .., .inr ⟨length_slice_le .., Nat.le_of_not_lt h5⟩⟩

end

end BinaryRequest

/-! ## Messages, as a slave reads them -/

/-- The time of a message. -/
def timeReceived (now t : Int) : Int := BinaryRequest.binaryExptime now (encode 4 (exptime32 t).toNat) 0

theorem ntoh32_exptime32 (t : Int) : ntoh32 (encode 4 (exptime32 t).toNat) 0 = exptime32 t := by
  have h := ntoh32_encode (exptime32 t) (a := []) (c := []) rfl
  rwa [List.nil_append, List.append_nil] at h

/-- It is read alike wherever it stands. -/
theorem binaryExptime_wire (now t : Int) {a c : Bytes} {i : Nat} (ha : a.length = i) :
    BinaryRequest.binaryExptime now (a ++ (encode 4 (exptime32 t).toNat ++ c)) i = timeReceived now t := by
  unfold timeReceived BinaryRequest.binaryExptime
  rw [ntoh32_encode (exptime32 t) ha, ntoh32_exptime32]

/-- A message. -/
def ReplMsg.received (now : Int) : ReplMsg → ReplMsg
  | .set k d f t => if d = [] then .set k [] 0 0 else .set k d f (timeReceived now t)
  | .touch k t => .touch k (timeReceived now t)
  | .delete k => .delete k

/-- The data of a message. -/
def ReplMsg.data : ReplMsg → Bytes
  | .set _ d _ _ => d
  | .touch _ _ => []
  | .delete _ => []

/-- The messages whose lengths the parser accepts: a key as clients can send it, and no more data than
    ONE request of a client can have. -/
structure ReplMsg.Readable (msg : ReplMsg) : Prop where
  key_pos : 0 < msg.key.length
  key_le : msg.key.length ≤ MAX_KEY_LENGTH
  data_le : msg.data.length ≤ MAX_REQUEST_LENGTH

@[simp] theorem length_fillHeader (K X D : Nat) (cmd : BinaryCommand) :
    (fillHeader K X D cmd).length = BINARY_HEADER_SIZE := by
  unfold fillHeader
  simp [BINARY_HEADER_SIZE]

section

open BinaryRequest

variable (now : Int) (limit : Nat) (m : HashMap Object) (rest : Bytes)

/-- The key of a frame. -/
theorem slice_frame_key (extras key tail : Bytes) (D : Nat) (cmd : BinaryCommand) :
    slice (BINARY_HEADER_SIZE + extras.length) key.length
      (fillHeader key.length extras.length D cmd ++ (extras ++ (key ++ tail))) = key := by
  rw [← List.append_assoc (fillHeader ..)]
  exact slice_append_mid (by simp) rfl

/-- **A frame whose length fits its field is read as one frame, with its key**, however much data it has:
    the parser has set both when it rejects the data. -/
theorem parse_frame_key (extras key data : Bytes) (cmd : BinaryCommand) (hX : extras.length < 256)
    (hK : key.length ≤ MAX_KEY_LENGTH) (hT : key.length + extras.length + data.length < 2 ^ 32) {p : Bytes}
    (hp : p = fillHeader key.length extras.length data.length cmd ++ (extras ++ (key ++ (data ++ rest)))) :
    (parse now p).length = BINARY_HEADER_SIZE + (key.length + extras.length + data.length) ∧
      (parse now p).key = key := by
  have hK' : key.length ≤ 250 := hK
  have hh := headerIs_fillHeader (D := data.length) cmd (show key.length < 2 ^ 16 by omega) hX
    (extras ++ (key ++ (data ++ rest)))
  rw [← hp, Nat.mod_eq_of_lt hT] at hh
  have hlen : BINARY_HEADER_SIZE + (key.length + extras.length + data.length) ≤ p.length := by
    rw [hp]
    simp only [List.length_append, length_fillHeader]
    omega
  have hkey : slice (BINARY_HEADER_SIZE + extras.length) key.length p = key := by
    rw [hp]
    exact slice_frame_key ..
  refine ⟨(parse_bounds now hh hlen).1, ?_⟩
  unfold parse
  rw [if_neg (Nat.not_lt.mpr hh.length)]
  simp only [hh.totalLen, hh.keyLen, hh.extrasLen]
  rw [if_neg (by omega), dif_neg (by omega), if_neg (by omega)]
  split_ifs
  · exact hkey
  · rw [(parseExtras_frame ..).2.1]
    exact hkey

/-- A frame whose data is not too large gets to its extras, with key and data in place. -/
theorem parse_frame (extras key data : Bytes) (cmd : BinaryCommand) (hX : extras.length < 256)
    (hK : key.length ≤ MAX_KEY_LENGTH) (hD : data.length ≤ MAX_REQUEST_LENGTH) {p : Bytes}
    (hp : p = fillHeader key.length extras.length data.length cmd ++ (extras ++ (key ++ (data ++ rest)))) :
    ∃ r : BinaryRequest,
      parse now p = parseExtras now p key.length extras.length data.length r ∧
      r.length = BINARY_HEADER_SIZE + (key.length + extras.length + data.length) ∧
      r.command = BinaryCommand.ofByte cmd.toByte ∧
      r.key = key ∧ r.data = data ∧ r.flags = 0 ∧ r.exptime = 0 := by
  have hK' : key.length ≤ 250 := hK
  have hD' : data.length ≤ 31457280 := hD
  have hh := headerIs_fillHeader (D := data.length) cmd (show key.length < 2 ^ 16 by omega) hX
    (extras ++ (key ++ (data ++ rest)))
  rw [← hp, Nat.mod_eq_of_lt (by omega)] at hh
  have hlen : BINARY_HEADER_SIZE + (key.length + extras.length + data.length) ≤ p.length := by
    rw [hp]
    simp only [List.length_append, length_fillHeader]
    omega
  have hsub : key.length + extras.length + data.length - key.length - extras.length = data.length := by
    omega
  have hkey : slice (BINARY_HEADER_SIZE + extras.length) key.length p = key := by
    rw [hp]
    exact slice_frame_key ..
  have hdata : slice (BINARY_HEADER_SIZE + extras.length + key.length) data.length p = data := by
    rw [hp, ← List.append_assoc (fillHeader ..), ← List.append_assoc (_ ++ extras)]
    exact slice_append_mid (by simp [Nat.add_assoc]) rfl
  obtain ⟨r, hr, hrl, hrc, hrk, hrd, hrf, hrt⟩ :=
    parse_ok now hh hlen hK (by omega) (by rw [hsub]; exact hD)
  rw [hsub] at hr hrd
  exact ⟨r, hr, hrl, hrc, hrk.trans hkey, hrd.trans hdata, hrf, hrt⟩

/-- A slave consumes the message and does what it reads. -/
def Executes (msg : ReplMsg) : Prop :=
  (parse now (msg.wire ++ rest)).length = msg.wire.length ∧
    replExec limit m (parse now (msg.wire ++ rest)) = replApply limit m (msg.received now)

theorem executes_set {k d : Bytes} {f : UInt32} {t : Int} (h : (ReplMsg.set k d f t).Readable) :
    Executes now limit m rest (.set k d f t) := by
  have hpos : 0 < k.length := h.key_pos
  obtain ⟨p, hp⟩ : ∃ p, p = (ReplMsg.set k d f t).wire ++ rest := ⟨_, rfl⟩
  have hp1 : p = fillHeader k.length 8 d.length .SetQ ++
      (encode 4 f.toNat ++ (encode 4 (exptime32 t).toNat ++ (k ++ (d ++ rest)))) := by
    rw [hp, ReplMsg.wire]
    simp only [List.append_assoc]
  have hX : (encode 4 f.toNat ++ encode 4 (exptime32 t).toNat).length = 8 := by simp
  obtain ⟨r, hr, hrl, hrc, hrk, hrd, hrf, hrt⟩ :=
    parse_frame now rest (encode 4 f.toNat ++ encode 4 (exptime32 t).toNat) k d .SetQ
      (by rw [hX]; decide) h.key_le h.data_le (p := p) (by rw [hX, hp1, List.append_assoc])
  have hc : r.command = .SetQ := hrc
  rw [hX] at hr hrl
  unfold Executes
  rw [← hp, hr]
  have hwire : (ReplMsg.set k d f t).wire.length = r.length := by
    rw [hrl, ReplMsg.wire]
    simp only [List.length_append, length_fillHeader, length_encode]
    omega
  refine ⟨by rw [(parseExtras_frame ..).1, hwire], ?_⟩
  unfold parseExtras replExec ReplMsg.received
  by_cases hd : d = []
  · simp only [hc, hd, List.length_nil, ne_eq, not_true_eq_false, or_true, if_true, hrk, hrd, hrf, hrt]
    rfl
  · have hd' : d.length ≠ 0 := fun h0 => hd (List.length_eq_zero_iff.mp h0)
    have hflags : ntoh32 p BINARY_HEADER_SIZE = f := by
      rw [hp1]
      exact ntoh32_encode f (length_fillHeader ..)
    have htime : binaryExptime now p (BINARY_HEADER_SIZE + 4) = timeReceived now t := by
      rw [hp1, ← List.append_assoc]
      exact binaryExptime_wire now t (by simp)
    simp only [hc, hd, hd', Nat.ne_of_gt hpos, ne_eq, not_true_eq_false, or_self, if_false, hrk, hrd, hflags,
      htime]
    rfl

theorem executes_touch {k : Bytes} {t : Int} (h : (ReplMsg.touch k t).Readable) :
    Executes now limit m rest (.touch k t) := by
  have hpos : 0 < k.length := h.key_pos
  obtain ⟨p, hp⟩ : ∃ p, p = (ReplMsg.touch k t).wire ++ rest := ⟨_, rfl⟩
  have hp1 : p = fillHeader k.length 4 0 .Touch ++ (encode 4 (exptime32 t).toNat ++ (k ++ rest)) := by
    rw [hp, ReplMsg.wire]
    simp only [List.append_assoc]
  have hX : (encode 4 (exptime32 t).toNat).length = 4 := length_encode 4 _
  obtain ⟨r, hr, hrl, hrc, hrk, hrd, hrf, hrt⟩ :=
    parse_frame now rest (encode 4 (exptime32 t).toNat) k [] .Touch
      (by rw [hX]; decide) h.key_le h.data_le (p := p) (by rw [hX, hp1]; rfl)
  have hc : r.command = .Touch := hrc
  rw [hX] at hr hrl
  unfold Executes
  rw [← hp, hr]
  have hwire : (ReplMsg.touch k t).wire.length = r.length := by
    rw [hrl, ReplMsg.wire]
    simp only [List.length_append, length_fillHeader, length_encode, List.length_nil]
    omega
  refine ⟨by rw [(parseExtras_frame ..).1, hwire], ?_⟩
  have htime : binaryExptime now p BINARY_HEADER_SIZE = timeReceived now t := by
    rw [hp1]
    exact binaryExptime_wire now t (length_fillHeader ..)
  unfold parseExtras replExec ReplMsg.received
  simp only [hc, Nat.ne_of_gt hpos, List.length_nil, ne_eq, not_true_eq_false, or_self, if_false, hrk, htime]
  rfl

theorem executes_delete {k : Bytes} (h : (ReplMsg.delete k).Readable) :
    Executes now limit m rest (.delete k) := by
  obtain ⟨p, hp⟩ : ∃ p, p = (ReplMsg.delete k).wire ++ rest := ⟨_, rfl⟩
  obtain ⟨r, hr, hrl, hrc, hrk, -⟩ :=
    parse_frame now rest [] k [] .DeleteQ (by decide) h.key_le h.data_le
      (p := p) (by rw [hp, ReplMsg.wire, List.append_assoc]; rfl)
  have hc : r.command = .DeleteQ := hrc
  unfold Executes
  rw [← hp, hr]
  have hwire : (ReplMsg.delete k).wire.length = r.length := by
    rw [hrl, ReplMsg.wire]
    simp only [List.length_append, length_fillHeader, List.length_nil]
    omega
  refine ⟨by rw [(parseExtras_frame ..).1, hwire], ?_⟩
  unfold parseExtras replExec ReplMsg.received
  simp only [hc]
  split_ifs <;> simp only [hc, hrk] <;> rfl

variable {msg : ReplMsg}

theorem executes_of_readable (h : msg.Readable) : Executes now limit m rest msg := by
  cases msg with
  | set k d f t => exact executes_set now limit m rest h
  | touch k t => exact executes_touch now limit m rest h
  | delete k => exact executes_delete now limit m rest h

end

/-! ## Whole streams -/

section

open BinaryRequest

variable {now : Int} {limit : Nat} {p : Bytes}

theorem replRecv_nil (m : HashMap Object) : replRecv now limit [] m = .ok (0, m) := by
  rw [replRecv, dif_pos rfl]

/-- One round of the loop. -/
theorem replRecv_next (hp : p ≠ []) (hm : p.head hp = 0x80) (hn : (parse now p).length ≠ 0)
    (m : HashMap Object) :
    replRecv now limit p m
      = match replRecv now limit (p.drop (parse now p).length) (replExec limit m (parse now p)) with
        | .ok (n, m') => .ok ((parse now p).length + n, m')
        | .error e => .error e := by
  rw [replRecv, dif_neg hp, if_neg (not_not.mpr hm)]
  exact if_neg hn

theorem head_wire (msg : ReplMsg) (rest : Bytes) (hp : msg.wire ++ rest ≠ []) :
    (msg.wire ++ rest).head hp = 0x80 := by
  cases msg <;> rfl

theorem length_wire_pos (msg : ReplMsg) : 0 < msg.wire.length := by
  cases msg <;> (unfold ReplMsg.wire; simp [BINARY_HEADER_SIZE])

/-- **A slave applies, in order, the messages as it reads them.** -/
theorem replRecv_flatMap_wire {msgs : List ReplMsg} (hr : ∀ msg ∈ msgs, msg.Readable) :
    ∀ m : HashMap Object, replRecv now limit (msgs.flatMap ReplMsg.wire) m
      = .ok ((msgs.flatMap ReplMsg.wire).length,
          (msgs.map (ReplMsg.received now)).foldl (replApply limit) m) := by
  induction msgs with
  | nil => exact replRecv_nil
  | cons msg msgs ih =>
    intro m
    obtain ⟨hlen, hexec⟩ :=
      executes_of_readable now limit m (msgs.flatMap ReplMsg.wire) (hr msg List.mem_cons_self)
    have hpos := length_wire_pos msg
    have hne : msg.wire ++ msgs.flatMap ReplMsg.wire ≠ [] :=
      List.append_ne_nil_of_left_ne_nil (List.ne_nil_of_length_pos hpos) _
    rw [List.flatMap_cons, replRecv_next hne (head_wire ..) (by omega), hlen, hexec, List.drop_left,
      ih fun msg' hmsg' => hr msg' (List.mem_cons_of_mem _ hmsg')]
    rw [List.length_append, List.map_cons, List.foldl_cons]

/-- One message. -/
theorem replRecv_wire {msg : ReplMsg} (hr : msg.Readable) (m : HashMap Object) :
    replRecv now limit msg.wire m = .ok (msg.wire.length, replApply limit m (msg.received now)) := by
  have hrs : ∀ msg' ∈ [msg], ReplMsg.Readable msg' := by
    intro msg' hmsg'
    exact List.mem_singleton.mp hmsg' ▸ hr
  have h : replRecv now limit ([msg].flatMap ReplMsg.wire) m = _ := replRecv_flatMap_wire hrs m
  rw [List.flatMap_singleton] at h
  exact h

/-- Every item takes `n` bytes at most, with its key and a header. -/
def Fits (n : Nat) (m : HashMap Object) : Prop :=
  ∀ k i, view m k = some i → BINARY_HEADER_SIZE + k.length + i.data.length ≤ n

/-- One key has changed, to something that fits. -/
theorem Fits.update {n : Nat} {m m' : HashMap Object} {key : Key} {x : Option Item} (hm : Fits n m)
    (hv : view m' = Function.update (view m) key x)
    (hx : ∀ i, x = some i → BINARY_HEADER_SIZE + key.length + i.data.length ≤ n) : Fits n m' := by
  intro k i hi
  rw [hv] at hi
  by_cases hk : k = key
  · rw [hk, Function.update_self] at hi
    exact hk ▸ hx i hi
  · rw [Function.update_of_ne hk] at hi
    exact hm k i hi

theorem replExec_fits {n : Nat} {m : HashMap Object} {r : BinaryRequest} (hm : Fits n m)
    (hr : BINARY_HEADER_SIZE + r.key.length + r.data.length ≤ n) : Fits n (replExec limit m r) := by
  unfold replExec
  split
  · refine hm.update (view_replSet ..) fun i hi => ?_
    obtain rfl := Option.some.inj hi
    exact hr
  · refine hm.update (view_replTouch ..) fun i hi => ?_
    obtain ⟨j, hj, rfl⟩ := Option.map_eq_some_iff.mp hi
    exact hm r.key j hj
  · exact hm.update (view_replRemove ..) fun i hi => by cases hi
  · exact hm

/-- **What a slave stores fits into what it received.** -/
theorem replRecv_fits {n : Nat} (p : Bytes) (m : HashMap Object) :
    p.length ≤ n → Fits n m → ∀ c m', replRecv now limit p m = .ok (c, m') → Fits n m' := by
  fun_induction replRecv now limit p m with
  | case1 m =>
    intro _ hm c m' h
    cases h
    exact hm
  | case2 => intro _ _ c m' h; cases h
  | case3 =>
    intro _ hm c m' h
    cases h
    exact hm
  | case4 p m hp hhead parser hn c' m'' heq ih =>
    intro hlen hm c m' h
    cases h
    obtain ⟨hfit, hle⟩ := parse_fits now p hn
    have hdrop : (p.drop parser.length).length ≤ n := by
      rw [List.length_drop]
      omega
    exact ih hdrop (replExec_fits hm (hfit.trans (hle.trans hlen))) c' m'' heq
  | case5 => intro _ _ c m' h; cases h

end

/-! ## Which objects arrive -/

/-- The times that arrive: 0, the special time of `binary_exptime`, those it takes as absolute — and,
    in a second in which the low 32 bits of the slave's clock are 0, those it takes as relative. -/
def ExptimeFits (now t : Int) : Prop :=
  t = 0 ∨ t = EXPTIME_NONE ∨ (EXPTIME_THRESHOLD < t ∧ t < 2 ^ 32 - 1) ∨
    (now % 2 ^ 32 = 0 ∧ now < t ∧ t ≤ now + EXPTIME_THRESHOLD)

instance (now t : Int) : Decidable (ExptimeFits now t) := by
  unfold ExptimeFits
  infer_instance

theorem timeReceived_eq (now t : Int) :
    timeReceived now t
      = if t % 2 ^ 32 = 0 then 0 else if t % 2 ^ 32 = 2 ^ 32 - 1 then -1
        else if 2592000 < t % 2 ^ 32 then t % 2 ^ 32 else now + t % 2 ^ 32 := by
  have he : ((exptime32 t).toNat : Int) = t % 2 ^ 32 := by
    unfold exptime32 UInt32.ofInt
    rw [UInt32.toNat_ofNat']
    omega
  unfold timeReceived BinaryRequest.binaryExptime EXPTIME_NONE EXPTIME_THRESHOLD
  rw [ntoh32_exptime32]
  dsimp only
  split_ifs <;> omega

theorem timeReceived_eq_self_iff (now t : Int) : timeReceived now t = t ↔ ExptimeFits now t := by
  rw [timeReceived_eq]
  unfold ExptimeFits EXPTIME_NONE EXPTIME_THRESHOLD
  split_ifs <;> omega

section

variable {now : Int} {key : Key}

/-- The object of `key` arrives: any slave that receives what `repl_object` sends has its data, flags and
    expiration time. -/
def Arrives (now : Int) (key : Key) (o : Object) : Prop :=
  ∀ (limit : Nat) (m : HashMap Object), ∃ n m',
    replRecv now limit (ReplMsg.set key o.data o.flags o.exptime).wire m = .ok (n, m') ∧
      view m' key = some o.item

/-- ... and what `repl_touch` sends gives the slave's object of `key` the expiration time. -/
def TouchArrives (now : Int) (key : Key) (t : Int) : Prop :=
  ∀ (limit : Nat) (m : HashMap Object) (i : Item), view m key = some i → ∃ n m',
    replRecv now limit (ReplMsg.touch key t).wire m = .ok (n, m') ∧
      view m' key = some { i with exptime := t }

/-- What the slave has of an object. -/
def itemReceived (now : Int) (o : Object) : Item :=
  if o.data = [] then ⟨[], 0, 0⟩ else ⟨o.data, o.flags, timeReceived now o.exptime⟩

theorem arrives_iff_received {o : Object} (hr : (ReplMsg.set key o.data o.flags o.exptime).Readable) :
    Arrives now key o ↔ itemReceived now o = o.item := by
  have hview : ∀ limit m, view (replApply limit m
      ((ReplMsg.set key o.data o.flags o.exptime).received now)) key = some (itemReceived now o) := by
    intro limit m
    unfold itemReceived
    by_cases hd : o.data = []
    · simp only [ReplMsg.received, hd, if_true, replApply, view_replSet, Function.update_self]
    · simp only [ReplMsg.received, hd, if_false, replApply, view_replSet, Function.update_self]
  constructor
  · intro h
    obtain ⟨n, m', hrecv, hm'⟩ := h 0 Server.oneBucket.hash
    rw [replRecv_wire hr] at hrecv
    cases hrecv
    rw [hview] at hm'
    exact Option.some.inj hm'
  · intro h limit m
    exact ⟨_, _, replRecv_wire hr m, by rw [hview, h]⟩

/-- An object that is too large for ONE request of a client does not arrive, however its bytes are
    read. -/
theorem not_arrives_of_large {o : Object} (hk : key.length ≤ MAX_KEY_LENGTH)
    (hd : MAX_REQUEST_LENGTH < o.data.length) : ¬ Arrives now key o := by
  intro h
  obtain ⟨n, m', hrecv, hm'⟩ := h 0 Server.oneBucket.hash
  have hk' : key.length ≤ 250 := hk
  have hd' : 31457280 < o.data.length := hd
  obtain ⟨p, hp⟩ : ∃ p, p = (ReplMsg.set key o.data o.flags o.exptime).wire := ⟨_, rfl⟩
  rw [← hp] at hrecv
  have hlen : p.length = BINARY_HEADER_SIZE + (key.length + 8 + o.data.length) := by
    rw [hp, ReplMsg.wire]
    simp only [List.length_append, length_fillHeader, length_encode]
    omega
  have hh : BinaryRequest.HeaderIs p key.length 8 ((key.length + 8 + o.data.length) % 2 ^ 32) .SetQ := by
    rw [hp]
    exact BinaryRequest.headerIs_fillHeader .SetQ (by omega) (by omega) _
  have hmod := Nat.mod_le (key.length + 8 + o.data.length) (2 ^ 32)
  obtain ⟨hpl, hpk, hpd⟩ := BinaryRequest.parse_bounds now hh (by omega)
  have hne : p ≠ [] := List.ne_nil_of_length_pos (by rw [hlen]; unfold BINARY_HEADER_SIZE; omega)
  rw [replRecv_next hne (hh.magic hne) (by rw [hpl]; unfold BINARY_HEADER_SIZE; omega)] at hrecv
  -- the first request stores less than `o.data`, and what is left is too short for it
  have hfirst : Fits (8 + key.length + o.data.length)
      (replExec 0 Server.oneBucket.hash (BinaryRequest.parse now p)) := by
    refine replExec_fits (fun k i hi => ?_) ?_
    · have hnone : view Server.oneBucket.hash k = none := view_of_absent (Table.find_empty ..)
      rw [hnone] at hi
      cases hi
    · have hsmall : (BinaryRequest.parse now p).data.length + 16 ≤ o.data.length := by
        rcases hpd with hnil | ⟨hle, hmax⟩
        · rw [hnil, List.length_nil]
          omega
        · have hmax' : (key.length + 8 + o.data.length) % 2 ^ 32 - key.length - 8 ≤ 31457280 := hmax
          omega
      unfold BINARY_HEADER_SIZE
      omega
  cases hrest : replRecv now 0 (p.drop (BinaryRequest.parse now p).length)
      (replExec 0 Server.oneBucket.hash (BinaryRequest.parse now p)) with
  | error e => rw [hrest] at hrecv; cases hrecv
  | ok nm =>
    rw [hrest] at hrecv
    cases hrecv
    have hfits := replRecv_fits _ _ (by rw [List.length_drop, hpl, hlen]; omega) hfirst _ _ hrest key _ hm'
    have hitem : BINARY_HEADER_SIZE + key.length + o.data.length ≤ 8 + key.length + o.data.length := hfits
    unfold BINARY_HEADER_SIZE at hitem
    omega

/-- **Exactly these objects, and exactly these times, arrive at a slave as they are.** -/
theorem arrives_iff (hk : 0 < key.length) (hk' : key.length ≤ MAX_KEY_LENGTH) :
    (∀ o : Object, Arrives now key o ↔
      o.data.length ≤ MAX_REQUEST_LENGTH ∧
        if o.data = [] then o.flags = 0 ∧ o.exptime = 0 else ExptimeFits now o.exptime) ∧
    (∀ t : Int, TouchArrives now key t ↔ ExptimeFits now t) := by
  refine ⟨fun o => ?_, fun t => ?_⟩
  · by_cases hd : o.data.length ≤ MAX_REQUEST_LENGTH
    · rw [arrives_iff_received ⟨hk, hk', hd⟩]
      unfold itemReceived Object.item
      by_cases hnil : o.data = []
      · simp only [hnil, if_true, Item.mk.injEq, true_and, List.length_nil, Nat.zero_le]
        rw [eq_comm (a := (0 : UInt32)), eq_comm (a := (0 : Int))]
      · simp only [hnil, if_false, Item.mk.injEq, true_and, hd, timeReceived_eq_self_iff]
    · constructor
      · exact fun h => absurd h (not_arrives_of_large hk' (Nat.lt_of_not_le hd))
      · exact fun h => absurd h.1 hd
  · have hr : (ReplMsg.touch key t).Readable := ⟨hk, hk', Nat.zero_le _⟩
    rw [← timeReceived_eq_self_iff]
    constructor
    · intro h
      obtain ⟨n, m', hrecv, hm'⟩ := h 0 (replSet 0 Server.oneBucket.hash key [] 0 0) ⟨[], 0, 0⟩
        (by rw [view_replSet, Function.update_self])
      rw [replRecv_wire hr] at hrecv
      cases hrecv
      rw [ReplMsg.received, replApply, view_replTouch, Function.update_self, view_replSet,
        Function.update_self, Option.map_some, Option.some.injEq, Item.mk.injEq] at hm'
      exact hm'.2.2
    · intro ht limit m i hi
      refine ⟨_, _, replRecv_wire hr m, ?_⟩
      rw [ReplMsg.received, replApply, view_replTouch, Function.update_self, hi, Option.map_some, ht]

end

/-- A small object with flags and no expiration time arrives. -/
theorem arrives_small : Arrives 1700000000 [107] (Object.new 100 [1] 5 0) :=
  ((arrives_iff (by decide) (by decide)).1 (Object.new 100 [1] 5 0)).mpr (by decide)

/-- A client stores an EMPTY value with flags 5 ("set k 5 0 0"). -/
def storeEmpty : List Event :=
  [.accept 0 5, .tick 1700000000,
    .cmd 0 [7] (.text { command := .SET, valid := true, key := [107], data := [], flags := 5 })]

/-- The master has the flags, and sends them; the slave has none. -/
theorem flags_lost_on_wire : ∃ t, run Server.step Server.oneBucket storeEmpty = .ok t ∧
    view t.hash [107] = some ⟨[], 5, 0⟩ ∧ messagesTo 7 t.log = [.set [107] [] 5 0] ∧
    ∃ n m', replRecv t.now 100 ((messagesTo 7 t.log).flatMap ReplMsg.wire) Server.oneBucket.hash
        = .ok (n, m') ∧
      view m' [107] = some ⟨[], 0, 0⟩ := by
  have hr : ∀ msg ∈ [ReplMsg.set [107] [] 5 0], msg.Readable := by
    intro msg hmsg
    obtain rfl := List.mem_singleton.mp hmsg
    exact ⟨by decide, by decide, by decide⟩
  have hrecv : replRecv 1700000000 100 ([ReplMsg.set [107] [] 5 0].flatMap ReplMsg.wire)
    Server.oneBucket.hash = _ := replRecv_flatMap_wire hr _
  exact ⟨_, rfl, rfl, rfl, _, _, hrecv, rfl⟩

end Yrmcds.Memcache
