/-
  The counter protocol (src/counter/counter.hpp, src/counter/counter.cpp).

  `Request.parse` is `counter::request::parse`: a 12-byte header (magic, opcode, flags, a reserved
  byte, body length, opaque) and a body whose shape depends on the opcode.  A request that is not yet
  complete has length 0; a complete one has a status, `Invalid` unless every check passes.

  The enum `counter::command` has an underlying byte, and `parse` casts the opcode byte into it before
  any check, so a request with a bad magic can carry ANY byte as its command: that is `raw`.
-/
import Yrmcds.HashMap

namespace Yrmcds.Counter

open BigEndian

/-- `counter::command`, with the values the enum does not name. -/
inductive Command where
  | Noop | Get | Acquire | Release | Stats | Dump | Unknown
  | raw (b : UInt8)
deriving DecidableEq, Repr

/-- The `switch` over the opcode; what has no case is `Unknown`. -/
def Command.ofByte (b : UInt8) : Command :=
  if b = 0x00 then .Noop
  else if b = 0x01 then .Get
  else if b = 0x02 then .Acquire
  else if b = 0x03 then .Release
  else if b = 0x10 then .Stats
  else if b = 0x11 then .Dump
  else if b = 0x12 then .Unknown
  else .raw b

/-- The opcode in a response. -/
def Command.toByte : Command → UInt8
  | .Noop => 0x00
  | .Get => 0x01
  | .Acquire => 0x02
  | .Release => 0x03
  | .Stats => 0x10
  | .Dump => 0x11
  | .Unknown => 0x12
  | .raw b => b

/-- `counter::status`. -/
inductive Status where
  | OK | NotFound | Invalid | ResourceNotAvailable | NotAcquired | UnknownCommand | OutOfMemory
deriving DecidableEq, Repr

/-- The status byte of a response header. -/
def Status.toByte : Status → UInt8
  | .OK => 0x00
  | .NotFound => 0x01
  | .Invalid => 0x04
  | .ResourceNotAvailable => 0x21
  | .NotAcquired => 0x22
  | .UnknownCommand => 0x81
  | .OutOfMemory => 0x82

/-- The message `response::error` sends with a status (`OK` is a `logic_error` there). -/
def Status.message : Status → String
  | .OK => ""
  | .NotFound => "Not found"
  | .Invalid => "Invalid arguments"
  | .ResourceNotAvailable => "Resource not available"
  | .NotAcquired => "Not acquired"
  | .UnknownCommand => "Unknown command"
  | .OutOfMemory => "OutOfMemory"

/-- `HEADER_SIZE`, for requests and responses. -/
def HEADER_SIZE : Nat := 12

/-- The first byte of a request. -/
def REQUEST_MAGIC : UInt8 := 0x90

/-- `counter::request`; the defaults are the member initialisers. -/
structure Request where
  length : Nat := 0
  command : Command := .Unknown
  flags : UInt8 := 0
  bodyLength : UInt32 := 0
  opaqueBytes : Bytes := []
  resources : UInt32 := 0
  maximum : UInt32 := 0
  name : Bytes := []
  status : Status := .Invalid
deriving DecidableEq, Repr

/-- The shape checks of the body, by command.  `r` holds the header fields already. -/
def Request.parseBody (r : Request) (p : Bytes) : Request :=
  let bodyLength := r.bodyLength.toNat
  match r.command with
  | .Noop | .Stats | .Dump => { r with status := .OK }
  | .Get =>
    if bodyLength < 2 then r
    else
      let nameLen := ntoh16 p HEADER_SIZE
      if nameLen = 0 ∨ 2 + nameLen > bodyLength then r
      else { r with name := slice (HEADER_SIZE + 2) nameLen p, status := .OK }
  | .Acquire =>
    if bodyLength < 10 then r
    else
      let resources := ntoh32 p HEADER_SIZE
      if resources = 0 then { r with resources := resources }
      else
        let maximum := ntoh32 p (HEADER_SIZE + 4)
        if maximum < resources then { r with resources := resources, maximum := maximum }
        else
          let nameLen := ntoh16 p (HEADER_SIZE + 8)
          if nameLen = 0 ∨ 10 + nameLen > bodyLength then
            { r with resources := resources, maximum := maximum }
          else { r with
            resources := resources, maximum := maximum
            name := slice (HEADER_SIZE + 10) nameLen p, status := .OK }
  | .Release =>
    if bodyLength < 6 then r
    else
      let resources := ntoh32 p HEADER_SIZE
      let nameLen := ntoh16 p (HEADER_SIZE + 4)
      if nameLen = 0 ∨ 6 + nameLen > bodyLength then { r with resources := resources }
      else { r with
        resources := resources
        name := slice (HEADER_SIZE + 6) nameLen p, status := .OK }
  | .Unknown | .raw _ => { r with command := .Unknown, status := .UnknownCommand }

/-- The header fields of a complete request; nothing has been checked yet. -/
def Request.ofHeader (p : Bytes) : Request where
  length := HEADER_SIZE + (ntoh32 p 4).toNat
  command := Command.ofByte (p.getD 1 0)
  flags := p.getD 2 0
  bodyLength := ntoh32 p 4
  opaqueBytes := slice 8 4 p

/-- `counter::request::parse`. -/
def Request.parse (p : Bytes) : Request :=
  if p.length < HEADER_SIZE then {}
  else if p.length < HEADER_SIZE + (ntoh32 p 4).toNat then {}
  else if p.getD 0 0 ≠ REQUEST_MAGIC then Request.ofHeader p
  else (Request.ofHeader p).parseBody p

/-- A response packet: `response::fill_header` plus the body sent with it. -/
structure Packet where
  opcode : UInt8
  status : Status
  opaqueBytes : Bytes
  body : Bytes
deriving DecidableEq, Repr

/-- `response::success`. -/
def Request.success (cmd : Request) : Packet := ⟨cmd.command.toByte, .OK, cmd.opaqueBytes, []⟩

/-- `response::error`. -/
def Request.error (cmd : Request) (s : Status) : Packet :=
  ⟨cmd.command.toByte, s, cmd.opaqueBytes, ascii s.message⟩

/-- `response::get`; `response::acquire` is the same packet. -/
def Request.get (cmd : Request) (n : UInt32) : Packet :=
  ⟨cmd.command.toByte, .OK, cmd.opaqueBytes, encode 4 n.toNat⟩

/-- `response::dump`. -/
def Request.dump (cmd : Request) (name : Bytes) (consumption maxConsumption : UInt32) : Packet :=
  ⟨cmd.command.toByte, .OK, cmd.opaqueBytes,
    encode 4 consumption.toNat ++ encode 4 maxConsumption.toNat ++ encode 2 name.length ++ name⟩

/-- The entries of `response::stats`, in the order they are added. -/
def STAT_NAMES : List String :=
  ["objects", "total_objects", "used_memory", "conflicts", "gc_count", "last_gc_elapsed",
    "total_gc_elapsed", "curr_connections", "total_connections", "command:noop", "command:get",
    "command:acquire", "command:release", "command:stats", "command:dump"]

/-- `add_stat`. -/
def addStat (body : Bytes) (name value : String) : Bytes :=
  body ++ encode 2 (ascii name).length ++ encode 2 (ascii value).length ++ ascii name ++ ascii value

/-- `response::stats`; `value` is the decimal text of the figure `g_stats` holds under a name. -/
def Request.stats (cmd : Request) (value : String → String) : Packet :=
  ⟨cmd.command.toByte, .OK, cmd.opaqueBytes,
    STAT_NAMES.foldl (fun body name => addStat body name (value name)) []⟩

theorem parseBody_command (r : Request) (p : Bytes) :
    (r.parseBody p).command = r.command ∨ (r.parseBody p).command = .Unknown := by
  unfold Request.parseBody
  dsimp only
  split
  all_goals (try split_ifs)
  all_goals (first | exact Or.inl rfl | exact Or.inr rfl)

theorem parseBody_acquire {r : Request} {p : Bytes} (hc : (r.parseBody p).command = .Acquire)
    (hr : r.status ≠ .OK) (hs : (r.parseBody p).status = .OK) :
    (r.parseBody p).resources ≠ 0 ∧ (r.parseBody p).resources ≤ (r.parseBody p).maximum := by
  have hcmd : r.command = .Acquire := by
    rcases parseBody_command r p with h | h
    · exact h.symm.trans hc
    · rw [h] at hc; cases hc
  unfold Request.parseBody at hs ⊢
  simp only [hcmd] at hs ⊢
  -- every early `return` leaves the status as it was
  split_ifs at hs ⊢ with h1 h2 h3 h4
  · exact absurd hs hr
  · exact absurd hs hr
  · exact absurd hs hr
  · exact absurd hs hr
  · exact ⟨h2, UInt32.not_lt.mp h3⟩

/-- What `parse` promises of a valid `Acquire`: some resources, and no more than the maximum. -/
theorem parse_acquire {p : Bytes} (hc : (Request.parse p).command = .Acquire)
    (hs : (Request.parse p).status = .OK) :
    (Request.parse p).resources ≠ 0 ∧ (Request.parse p).resources ≤ (Request.parse p).maximum := by
  unfold Request.parse at hc hs ⊢
  -- an incomplete request and one with a wrong magic are `Invalid`
  split_ifs at hc hs ⊢
  all_goals first | exact parseBody_acquire hc nofun hs | cases hs

namespace Request

theorem length_parseBody (r : Request) (p : Bytes) : (r.parseBody p).length = r.length := by
  unfold parseBody
  dsimp only
  split <;> (try split_ifs) <;> rfl

theorem length_parse (p : Bytes) : (parse p).length =
    if p.length < HEADER_SIZE ∨ p.length < HEADER_SIZE + (ntoh32 p 4).toNat then 0
    else HEADER_SIZE + (ntoh32 p 4).toNat := by
  unfold parse
  by_cases h1 : p.length < HEADER_SIZE
  · rw [if_pos h1, if_pos (.inl h1)]
  by_cases h2 : p.length < HEADER_SIZE + (ntoh32 p 4).toNat
  · rw [if_neg h1, if_pos h2, if_pos (.inr h2)]
  rw [if_neg h1, if_neg h2, if_neg (not_or.mpr ⟨h1, h2⟩)]
  split_ifs
  · rfl
  · rw [length_parseBody]
    rfl

theorem complete_iff (p : Bytes) : (parse p).length ≠ 0 ↔
    HEADER_SIZE ≤ p.length ∧ HEADER_SIZE + (ntoh32 p 4).toNat ≤ p.length := by
  rw [length_parse]
  split_ifs with h
  · exact iff_of_false (fun hne => hne rfl) (by omega)
  · refine iff_of_true ?_ (by omega)
    have : 0 < HEADER_SIZE := by decide
    omega

/-- A valid request is complete. -/
theorem complete_of_status {p : Bytes} (h : (parse p).status = .OK) : (parse p).length ≠ 0 := by
  rw [complete_iff]
  unfold parse at h
  by_cases h1 : p.length < HEADER_SIZE
  · rw [if_pos h1] at h
    cases h
  by_cases h2 : p.length < HEADER_SIZE + (ntoh32 p 4).toNat
  · rw [if_neg h1, if_pos h2] at h
    cases h
  exact ⟨Nat.not_lt.mp h1, Nat.not_lt.mp h2⟩

end Request

end Yrmcds.Counter
