/-
  Binary requests as frames (src/memcache/memcache.cpp, `binary_request::parse`).

  A frame is a header of 24 bytes, extras, a key and data; the header says how long each part is, in
  fields of 8, 16 and 32 bits, and the length of the data is what is left of the total.  Two directions:

  * Whatever the bytes are, a request is as long as its header says, its parts lie side by side in it and
    fill it (`Cut`), and what follows it is not looked at.  The subtraction cannot wrap around, because
    the total has been compared with the other two lengths before.
  * A frame that keeps the rules of its command (`Shape`) is read back field by field (`parse_encode`).
    The rules are the parser's own `switch`, stated on what a client WANTS to send: `Extras` are the
    fields themselves, not bytes of some length.
-/
import Yrmcds.Memcache.Receive

namespace Yrmcds.Memcache

open BigEndian

namespace BinaryRequest

/-! ## What a client sends -/

/-- What the extras of a request carry. -/
inductive Extras where
  | none
  | time (t : UInt32)
  | store (flags t : UInt32)
  | count (value initial : UInt64) (t : UInt32)
  | other (b : Bytes)           -- of the commands whose body is not validated
deriving DecidableEq, Repr

namespace Extras

/-- The extras as they are sent. -/
@[simp] def bytes : Extras → Bytes
  | none => []
  | time t => encode 4 t.toNat
  | store f t => encode 4 f.toNat ++ encode 4 t.toNat
  | count v i t => encode 8 v.toNat ++ (encode 8 i.toNat ++ encode 4 t.toNat)
  | other b => b

/-- The flags they carry. -/
@[simp] def flags : Extras → UInt32
  | store f _ => f
  | _ => 0

/-- The amount they carry. -/
@[simp] def value : Extras → UInt64
  | count v _ _ => v
  | _ => 0

/-- The initial value they carry. -/
@[simp] def initial : Extras → UInt64
  | count _ i _ => i
  | _ => 0

end Extras

variable (now : Int)

/-- The time a client means with the 32 bits `t`. -/
def exptimeOf (t : UInt32) : Int :=
  if t.toNat = 0 then 0
  else if t.toNat = 0xffffffff then EXPTIME_NONE
  else if t.toNat > EXPTIME_THRESHOLD then t.toNat
  else now + t.toNat

/-- The commands that may have a time, and what its absence means to them: `Get` and its kin do not
    touch the object, `Flush` is for now. -/
def exptimeAbsent : BinaryCommand → Int
  | .Get | .GetQ | .GetK | .GetKQ | .GaT | .GaTQ | .GaTK | .GaTKQ | .LaG | .LaGQ | .LaGK | .LaGKQ =>
    EXPTIME_NONE
  | .Flush | .FlushQ => now
  | _ => 0

/-- The time they carry, as the server reads it. -/
def Extras.exptime (c : BinaryCommand) : Extras → Int
  | none => exptimeAbsent now c
  | time t => exptimeOf now t
  | store _ t => exptimeOf now t
  | count _ _ t => exptimeOf now t
  | other _ => 0

/-- The rules of the `switch`: extras, key and data, by command. -/
def Shape (c : BinaryCommand) (e : Extras) (key data : Bytes) : Prop :=
  match c with
  | .Get | .GetQ | .GetK | .GetKQ | .GaT | .GaTQ | .GaTK | .GaTKQ | .LaG | .LaGQ | .LaGK | .LaGKQ =>
    (e = .none ∨ ∃ t, e = .time t) ∧ key ≠ [] ∧ data = []
  | .Set | .SetQ | .Add | .AddQ | .Replace | .ReplaceQ | .RaU | .RaUQ =>
    (∃ f t, e = .store f t) ∧ key ≠ [] ∧ data ≠ []
  | .Delete | .DeleteQ => e = .none ∧ key ≠ [] ∧ data = []
  | .Increment | .IncrementQ | .Decrement | .DecrementQ =>
    (∃ v i t, e = .count v i t) ∧ key ≠ [] ∧ data = []
  | .Touch => (∃ t, e = .time t) ∧ key ≠ [] ∧ data = []
  | .Flush | .FlushQ => (e = .none ∨ ∃ t, e = .time t) ∧ key = [] ∧ data = []
  | .Append | .AppendQ | .Prepend | .PrependQ => e = .none ∧ key ≠ [] ∧ data ≠ []
  | .Lock | .LockQ | .Unlock | .UnlockQ => e = .none ∧ key ≠ [] ∧ data = []
  | .Stat | .Keys => e = .none ∧ data = []
  -- no validation
  | .Quit | .QuitQ | .Version | .Noop | .UnlockAll | .UnlockAllQ => ∃ b, e = .other b
  | .Unknown | .raw _ => False

/-- A request as a client builds it.  The widths of the header's fields bound the extras; the limits on
    key and data are the server's. -/
structure Frame where
  command : BinaryCommand
  extras : Extras
  key : Key
  data : Bytes
  opaqueBytes : Bytes
  cas : UInt64
  extras_lt : extras.bytes.length < 256
  key_le : key.length ≤ MAX_KEY_LENGTH
  data_le : data.length ≤ MAX_REQUEST_LENGTH
  opaque_length : opaqueBytes.length = 4
  shape : Shape command extras key data

namespace Frame

variable (f : Frame)

/-- The length of the body. -/
def total : Nat := f.key.length + f.extras.bytes.length + f.data.length

/-- The header; the bytes left 0 are the data type and a field requests do not use. -/
def header : Bytes :=
  [0x80, f.command.toByte] ++ (BigEndian.encode 2 f.key.length ++
    ([UInt8.ofNat f.extras.bytes.length, 0, 0, 0] ++ (BigEndian.encode 4 f.total ++
      (f.opaqueBytes ++ BigEndian.encode 8 f.cas.toNat))))

/-- The request as it is sent. -/
def encode : Bytes := f.header ++ (f.extras.bytes ++ (f.key ++ f.data))

/-- The fields, as the server should have them. -/
def request (now : Int) : BinaryRequest :=
  { length := BINARY_HEADER_SIZE + f.total
    status := .OK
    command := f.command
    key := f.key
    casUnique := f.cas
    flags := f.extras.flags
    exptime := f.extras.exptime now f.command
    data := f.data
    value := f.extras.value
    initial := f.extras.initial
    stats := if f.command = .Stat then statsOfKey f.key else .GENERAL
    opaqueBytes := f.opaqueBytes
    key_le := f.key_le }

end Frame

/-! ## Reading a frame back -/

theorem binaryExptime_encode (t : UInt32) {a c : Bytes} {i : Nat} (ha : a.length = i) :
    binaryExptime now (a ++ (encode 4 t.toNat ++ c)) i = exptimeOf now t := by
  unfold binaryExptime
  rw [ntoh32_encode t ha]
  rfl

/-- A named opcode is read as its command. -/
theorem ofByte_of_shape {c : BinaryCommand} {e : Extras} {key data : Bytes} (h : Shape c e key data) :
    BinaryCommand.ofByte c.toByte = c := by
  cases c
  case raw b => exact h.elim
  all_goals rfl

/-- **The extras of a frame, by its command.**  `hd` is the header, `tail` all behind the extras. -/
theorem parseExtras_shape {c : BinaryCommand} {e : Extras} {key data : Bytes}
    (h : Shape c e key data) {r : BinaryRequest} (hc : r.command = c) (hk : r.key = key)
    (hf : r.flags = 0) (ht : r.exptime = 0) (hv : r.value = 0) (hi : r.initial = 0)
    (hs : r.stats = .GENERAL) {p hd tail : Bytes} (hp : p = hd ++ (e.bytes ++ tail))
    (hhd : hd.length = BINARY_HEADER_SIZE) :
    parseExtras now p key.length e.bytes.length data.length r =
      { r with
        status := .OK, flags := e.flags, exptime := e.exptime now c, value := e.value
        initial := e.initial, stats := if c = .Stat then statsOfKey key else .GENERAL } := by
  obtain ⟨_, _, cmd, k, _, _, _, d, _, _, _, _, _⟩ := r
  dsimp only at hc hk hf ht hv hi hs
  subst hc hk hf ht hv hi hs hp
  cases cmd
  case Get | GetQ | GetK | GetKQ | GaT | GaTQ | GaTK | GaTKQ | LaG | LaGQ | LaGK | LaGKQ =>
    obtain ⟨rfl | ⟨t, rfl⟩, hkey, rfl⟩ := h
    · simp [parseExtras, hkey, Extras.exptime, exptimeAbsent]
    · simp [parseExtras, hkey, Extras.exptime, binaryExptime_encode now t hhd]
  case Set | SetQ | Add | AddQ | Replace | ReplaceQ | RaU | RaUQ =>
    obtain ⟨⟨f, t, rfl⟩, hkey, hdata⟩ := h
    have ht : (hd ++ encode 4 f.toNat).length = BINARY_HEADER_SIZE + 4 := by simp [hhd]
    have htime := binaryExptime_encode now t (c := tail) ht
    rw [List.append_assoc] at htime
    simp [parseExtras, hkey, hdata, Extras.exptime, ntoh32_encode f hhd, htime]
  case Increment | IncrementQ | Decrement | DecrementQ =>
    obtain ⟨⟨v, i, t, rfl⟩, hkey, rfl⟩ := h
    have hi : (hd ++ encode 8 v.toNat).length = BINARY_HEADER_SIZE + 8 := by simp [hhd]
    have ht : (hd ++ encode 8 v.toNat ++ encode 8 i.toNat).length = BINARY_HEADER_SIZE + 16 := by simp [hhd]
    have hinitial := ntoh64_encode i (c := encode 4 t.toNat ++ tail) hi
    have htime := binaryExptime_encode now t (c := tail) ht
    simp only [List.append_assoc] at hinitial htime
    simp [parseExtras, hkey, Extras.exptime, ntoh64_encode v hhd, hinitial, htime]
  case Touch =>
    obtain ⟨⟨t, rfl⟩, hkey, rfl⟩ := h
    simp [parseExtras, hkey, Extras.exptime, binaryExptime_encode now t hhd]
  case Flush | FlushQ =>
    obtain ⟨rfl | ⟨t, rfl⟩, rfl, rfl⟩ := h
    · simp [parseExtras, Extras.exptime, exptimeAbsent]
    · simp [parseExtras, Extras.exptime, binaryExptime_encode now t hhd]
  case Delete | DeleteQ | Lock | LockQ | Unlock | UnlockQ =>
    obtain ⟨rfl, hkey, rfl⟩ := h
    simp [parseExtras, hkey, Extras.exptime, exptimeAbsent]
  case Append | AppendQ | Prepend | PrependQ =>
    obtain ⟨rfl, hkey, hdata⟩ := h
    simp [parseExtras, hkey, hdata, Extras.exptime, exptimeAbsent]
  case Stat | Keys =>
    obtain ⟨rfl, rfl⟩ := h
    simp [parseExtras, Extras.exptime, exptimeAbsent]
  case Quit | QuitQ | Version | Noop | UnlockAll | UnlockAllQ =>
    obtain ⟨b, rfl⟩ := h
    simp [parseExtras, Extras.exptime]
  case Unknown | raw => exact h.elim

namespace Frame

variable (f : Frame)

theorem length_header : f.header.length = BINARY_HEADER_SIZE := by
  unfold header
  simp [f.opaque_length, BINARY_HEADER_SIZE]

theorem length_encode : f.encode.length = BINARY_HEADER_SIZE + f.total := by
  rw [encode, List.length_append, length_header]
  simp only [List.length_append, total]
  omega

variable (rest : Bytes)

theorem headerIs_encode :
    HeaderIs (f.encode ++ rest) f.key.length f.extras.bytes.length f.total f.command := by
  have hK : f.key.length ≤ 250 := f.key_le
  have hX := f.extras_lt
  have hD : f.data.length ≤ 31457280 := f.data_le
  have htail : 12 ≤ (f.opaqueBytes ++ (BigEndian.encode 8 f.cas.toNat ++
      (f.extras.bytes ++ (f.key ++ (f.data ++ rest))))).length := by
    simp [f.opaque_length]
    omega
  have h := headerIs_fields (D := f.data.length) f.command (show f.key.length < 2 ^ 16 by omega) hX htail
  rw [Nat.mod_eq_of_lt (by omega)] at h
  unfold encode header total
  simp only [List.append_assoc]
  exact h

/-- The parts of a frame, where the parser looks for them. -/
theorem slice_opaque : slice 12 4 (f.encode ++ rest) = f.opaqueBytes := by
  unfold encode header
  simp only [List.append_assoc]
  rw [← List.append_assoc, ← List.append_assoc, ← List.append_assoc]
  exact slice_append_mid (by simp) f.opaque_length

theorem ntoh64_cas : ntoh64 (f.encode ++ rest) 16 = f.cas := by
  unfold encode header
  simp only [List.append_assoc]
  rw [← List.append_assoc, ← List.append_assoc, ← List.append_assoc, ← List.append_assoc]
  exact ntoh64_encode f.cas (by simp [f.opaque_length])

theorem slice_key :
    slice (BINARY_HEADER_SIZE + f.extras.bytes.length) f.key.length (f.encode ++ rest) = f.key := by
  unfold encode
  simp only [List.append_assoc]
  rw [← List.append_assoc]
  exact slice_append_mid (by rw [List.length_append, length_header]) rfl

theorem slice_data :
    slice (BINARY_HEADER_SIZE + f.extras.bytes.length + f.key.length) f.data.length (f.encode ++ rest)
      = f.data := by
  unfold encode
  simp only [List.append_assoc]
  rw [← List.append_assoc, ← List.append_assoc]
  exact slice_append_mid (by rw [List.length_append, List.length_append, length_header]) rfl

/-- **A frame is read back, field by field.** -/
theorem parse_encode (now : Int) (rest : Bytes) : parse now (f.encode ++ rest) = f.request now := by
  have hD : f.total - f.key.length - f.extras.bytes.length = f.data.length := by
    unfold total
    omega
  have h := parse_record now (f.headerIs_encode rest)
    (by rw [List.length_append, length_encode]; omega) f.key_le
    (by unfold total; omega) (by rw [hD]; exact f.data_le)
  simp only [hD, slice_opaque, ntoh64_cas, slice_key, slice_data, ofByte_of_shape f.shape] at h
  have hp : f.encode ++ rest = f.header ++ (f.extras.bytes ++ (f.key ++ (f.data ++ rest))) := by
    unfold encode
    simp only [List.append_assoc]
  rw [h]
  exact parseExtras_shape now f.shape rfl rfl rfl rfl rfl rfl rfl hp f.length_header

end Frame

/-! ## Any bytes -/

/-- The parts of the request at the head of `p`: side by side, inside the bytes, and nothing but header
    and parts. -/
structure Cut (p : Bytes) (r : BinaryRequest) (X K D : Nat) : Prop where
  key : r.key = slice (BINARY_HEADER_SIZE + X) K p
  data : r.data = slice (BINARY_HEADER_SIZE + X + K) D p
  length : BINARY_HEADER_SIZE + X + K + D = r.length
  inside : r.length ≤ p.length
  key_le : K ≤ MAX_KEY_LENGTH
  data_le : D ≤ MAX_REQUEST_LENGTH

/-- No part is cut short by the end of the bytes, and together they are the request. -/
theorem Cut.whole {p : Bytes} {r : BinaryRequest} {X K D : Nat} (h : Cut p r X K D) :
    r.key.length = K ∧ r.data.length = D ∧
      p.take r.length = p.take BINARY_HEADER_SIZE ++ (slice BINARY_HEADER_SIZE X p ++ (r.key ++ r.data)) := by
  have hlen := h.length
  have hin := h.inside
  refine ⟨?_, ?_, ?_⟩
  · rw [h.key]
    exact length_slice (by omega)
  · rw [h.data]
    exact length_slice (by omega)
  · have hsplit := slice_add 0 BINARY_HEADER_SIZE (X + (K + D)) p
    rw [Nat.zero_add] at hsplit
    rw [← hlen, h.key, h.data, ← slice_add, ← slice_add, Nat.add_assoc, Nat.add_assoc]
    exact hsplit

/-- A status of OK comes from the extras, and these are looked at last. -/
theorem cut_of_ok (p : Bytes) (h : (parse now p).status = .OK) :
    Cut p (parse now p) (p.getD 4 0).toNat (ntoh16 p 2)
      ((ntoh32 p 8).toNat - ntoh16 p 2 - (p.getD 4 0).toNat) := by
  unfold parse at h ⊢
  by_cases h1 : p.length < BINARY_HEADER_SIZE
  · rw [if_pos h1] at h
    cases h
  by_cases h2 : p.length < BINARY_HEADER_SIZE + (ntoh32 p 8).toNat
  · simp only [if_neg h1, if_pos h2] at h
    cases h
  simp only [if_neg h1, if_neg h2] at h ⊢
  split_ifs at h ⊢ with h3 h4 h5
  have hframe := parseExtras_frame now p (ntoh16 p 2) (p.getD 4 0).toNat
    ((ntoh32 p 8).toNat - ntoh16 p 2 - (p.getD 4 0).toNat)
  refine ⟨(hframe _).2.1, (hframe _).2.2, ?_, ?_, Nat.le_of_not_lt h3, Nat.le_of_not_lt h5⟩
  · rw [(hframe _).1]
    dsimp only
    omega
  · rw [(hframe _).1]
    exact Nat.le_of_not_lt h2

/-- What follows a request is not looked at. -/
theorem parse_take {p : Bytes} (hp : (parse now p).length ≠ 0) :
    parse now (p.take (parse now p).length) = parse now p := by
  obtain ⟨hhdr, hlen⟩ := (complete_iff now p).mp hp
  have hn : (parse now p).length = BINARY_HEADER_SIZE + (ntoh32 p 8).toNat := by
    rw [length_parse, if_neg (by omega)]
  have h24 : BINARY_HEADER_SIZE = 24 := rfl
  have hsplit := List.take_append_drop (parse now p).length p
  have hlen' : (p.take (parse now p).length).length = (parse now p).length := by
    rw [List.length_take]
    omega
  have htotal : ntoh32 (p.take (parse now p).length) 8 = ntoh32 p 8 := by
    rw [← ntoh32_append (p.drop (parse now p).length) (by omega), hsplit]
  have hcomplete : (parse now (p.take (parse now p).length)).length ≠ 0 :=
    (complete_iff now _).mpr ⟨by omega, by rw [htotal]; omega⟩
  rw [← parse_append now (p.drop (parse now p).length) hcomplete, hsplit]

theorem parse_of_take {p q : Bytes} (hp : (parse now p).length ≠ 0)
    (hq : q.take (parse now p).length = p.take (parse now p).length) : parse now q = parse now p := by
  have hcut := parse_take now hp
  calc parse now q
      = parse now (q.take (parse now p).length ++ q.drop (parse now p).length) := by
        rw [List.take_append_drop]
    _ = parse now (p.take (parse now p).length ++ q.drop (parse now p).length) := by rw [hq]
    _ = parse now (p.take (parse now p).length) := parse_append now _ (by rw [hcut]; exact hp)
    _ = parse now p := hcut

/-- **Framing is exact.** -/
theorem framing_exact (now : Int) :
    (∀ p : Bytes,
      (parse now p).length =
        (if p.length < BINARY_HEADER_SIZE ∨ p.length < BINARY_HEADER_SIZE + (ntoh32 p 8).toNat then 0
        else BINARY_HEADER_SIZE + (ntoh32 p 8).toNat)) ∧
    (∀ p : Bytes, (parse now p).status = .OK →
      ∃ X K D, X = (p.getD 4 0).toNat ∧ K = ntoh16 p 2 ∧ Cut p (parse now p) X K D ∧
        (parse now p).key.length = K ∧ (parse now p).data.length = D ∧
        p.take (parse now p).length =
          p.take BINARY_HEADER_SIZE ++
            (slice BINARY_HEADER_SIZE X p ++ ((parse now p).key ++ (parse now p).data))) ∧
    (∀ p q : Bytes, (parse now p).length ≠ 0 →
      q.take (parse now p).length = p.take (parse now p).length → parse now q = parse now p) ∧
    ∀ (f : Frame) (rest : Bytes), parse now (f.encode ++ rest) = f.request now :=
  ⟨length_parse now, fun p h => ⟨_, _, _, rfl, rfl, cut_of_ok now p h, (cut_of_ok now p h).whole⟩,
    fun _ _ hp hq => parse_of_take now hp hq, fun f rest => f.parse_encode now rest⟩

end BinaryRequest

end Yrmcds.Memcache
