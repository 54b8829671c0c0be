/-
  The memcache protocols (src/memcache/memcache.hpp, src/memcache/memcache.cpp): commands, requests and
  replies of the binary and of the text protocol.

  `BinaryRequest.parse` is `binary_request::parse`.  It fills the request field by field and may stop
  at any point, so a request with a bad status still carries what was read before — the receiver of
  replication data never looks at the status, so this matters.  A key is at most 250 bytes in every
  binary request; the record carries the proof.

  A text request is taken as the record its parser fills (any values, a superset of what the parser can
  produce); `keys` is what `first_key`/`next_key` iterate over.

  Replies are structured: the status or data that goes into the packet or the line, not its bytes.
  The numbers of a statistics reply are not modelled, only which table is sent.
-/
import Yrmcds.HashMap
import Mathlib.Tactic.Common

namespace Yrmcds.Memcache

open BigEndian

/-- `MAX_KEY_LENGTH` and `MAX_REQUEST_LENGTH` of src/constants.hpp. -/
def MAX_KEY_LENGTH : Nat := 250

/-- 30 MiB. -/
def MAX_REQUEST_LENGTH : Nat := 30 * 2 ^ 20

/-- `EXPTIME_THRESHOLD`: 30 days. -/
def EXPTIME_THRESHOLD : Nat := 60 * 60 * 24 * 30

/-- `binary_request::EXPTIME_NONE`. -/
def EXPTIME_NONE : Int := -1

/-- The header of a request. -/
def BINARY_HEADER_SIZE : Nat := 24

/-- `stats_t`. -/
inductive StatsKind where
  | GENERAL | SETTINGS | ITEMS | SIZES | OPS
deriving DecidableEq, Repr

/-- `cybozu::severity`. -/
inductive Severity where
  | error | warning | info | debug
deriving DecidableEq, Repr

/-! ## The binary protocol -/

/-- `binary_command`, with the bytes the enum does not name. -/
inductive BinaryCommand where
  | Get | Set | Add | Replace | Delete | Increment | Decrement | Quit | Flush | GetQ | Noop | Version
  | GetK | GetKQ | Append | Prepend | Stat | SetQ | AddQ | ReplaceQ | DeleteQ | IncrementQ
  | DecrementQ | QuitQ | FlushQ | AppendQ | PrependQ | Touch | GaT | GaTQ | GaTK | GaTKQ
  | Lock | LockQ | Unlock | UnlockQ | UnlockAll | UnlockAllQ | LaG | LaGQ | LaGK | LaGKQ | RaU | RaUQ
  | Keys | Unknown
  | raw (b : UInt8)
deriving DecidableEq, Repr

namespace BinaryCommand

/-- The opcodes. -/
def toByte : BinaryCommand → UInt8
  | Get => 0x00 | Set => 0x01 | Add => 0x02 | Replace => 0x03 | Delete => 0x04 | Increment => 0x05
  | Decrement => 0x06 | Quit => 0x07 | Flush => 0x08 | GetQ => 0x09 | Noop => 0x0a | Version => 0x0b
  | GetK => 0x0c | GetKQ => 0x0d | Append => 0x0e | Prepend => 0x0f | Stat => 0x10 | SetQ => 0x11
  | AddQ => 0x12 | ReplaceQ => 0x13 | DeleteQ => 0x14 | IncrementQ => 0x15 | DecrementQ => 0x16
  | QuitQ => 0x17 | FlushQ => 0x18 | AppendQ => 0x19 | PrependQ => 0x1a | Touch => 0x1c | GaT => 0x1d
  | GaTQ => 0x1e | GaTK => 0x23 | GaTKQ => 0x24 | Lock => 0x40 | LockQ => 0x41 | Unlock => 0x42
  | UnlockQ => 0x43 | UnlockAll => 0x44 | UnlockAllQ => 0x45 | LaG => 0x46 | LaGQ => 0x47
  | LaGK => 0x48 | LaGKQ => 0x49 | RaU => 0x4a | RaUQ => 0x4b | Keys => 0x50 | Unknown => 0x51
  | raw b => b

/-- The commands the enum names, in the order of their bytes. -/
def named : List BinaryCommand :=
  [Get, Set, Add, Replace, Delete, Increment, Decrement, Quit, Flush, GetQ, Noop, Version, GetK, GetKQ,
    Append, Prepend, Stat, SetQ, AddQ, ReplaceQ, DeleteQ, IncrementQ, DecrementQ, QuitQ, FlushQ, AppendQ,
    PrependQ, Touch, GaT, GaTQ, GaTK, GaTKQ, Lock, LockQ, Unlock, UnlockQ, UnlockAll, UnlockAllQ, LaG,
    LaGQ, LaGK, LaGKQ, RaU, RaUQ, Keys, Unknown]

/-- The cast of the opcode byte. -/
def ofByte (b : UInt8) : BinaryCommand := (named.find? fun c => c.toByte = b).getD (raw b)

/-- `m_quiet`, as `parse` computes it from the opcode. -/
def quiet (c : BinaryCommand) : Bool :=
  c == GetQ || c == GetKQ || (SetQ.toByte ≤ c.toByte && c.toByte ≤ PrependQ.toByte) ||
    c == GaTQ || c == GaTKQ ||
    (LockQ.toByte ≤ c.toByte && c.toByte ≤ RaUQ.toByte && c.toByte &&& 1 == 1)

/-- The range test `LaG <= command && command <= LaGKQ` of the get handler. -/
def isLaG (c : BinaryCommand) : Bool := LaG.toByte ≤ c.toByte && c.toByte ≤ LaGKQ.toByte

end BinaryCommand

/-- `binary_status`. -/
inductive BinaryStatus where
  | OK | NotFound | Exists | TooLargeValue | Invalid | NotStored | NonNumeric | Locked | NotLocked
  | UnknownCommand | OutOfMemory
deriving DecidableEq, Repr

/-- `binary_request`; the defaults are the member initialisers (`m_cas_unique` has none: it is read
    only when the status is `OK`, and then it has been set). -/
structure BinaryRequest where
  length : Nat := 0
  status : BinaryStatus := .Invalid
  command : BinaryCommand := .Unknown
  key : Key := []
  casUnique : UInt64 := 0
  flags : UInt32 := 0
  exptime : Int := 0
  data : Bytes := []
  value : UInt64 := 0
  initial : UInt64 := 0
  stats : StatsKind := .GENERAL
  opaqueBytes : Bytes := []
  key_le : key.length ≤ MAX_KEY_LENGTH := by decide

theorem nil_le : ([] : Key).length ≤ MAX_KEY_LENGTH := Nat.zero_le _

/-- The keys of the runs shown in later files: "x" and "y". -/
theorem x_le : ([120] : Key).length ≤ MAX_KEY_LENGTH := by decide

theorem y_le : ([121] : Key).length ≤ MAX_KEY_LENGTH := by decide

namespace BinaryRequest

/-- `binary_request::quiet`. -/
def quiet (r : BinaryRequest) : Bool := r.command.quiet

/-- `binary_exptime` at offset `off`. -/
def binaryExptime (now : Int) (p : Bytes) (off : Nat) : Int :=
  let t := (ntoh32 p off).toNat
  if t = 0 then 0
  else if t = 0xffffffff then EXPTIME_NONE
  else if t > EXPTIME_THRESHOLD then t
  else now + t

/-- The category of a `Stat` request, by its key. -/
def statsOfKey (key : Bytes) : StatsKind :=
  if key = ascii "settings" then .SETTINGS
  else if key = ascii "items" then .ITEMS
  else if key = ascii "sizes" then .SIZES
  else if key = ascii "ops" then .OPS
  else .GENERAL

/-- The `switch` of `binary_request::parse`: the extras, by command.  `return` without a status leaves
    the status as it was. -/
def parseExtras (now : Int) (p : Bytes) (keyLen extrasLen dataLen : Nat) (r : BinaryRequest) :
    BinaryRequest :=
  let extra := BINARY_HEADER_SIZE
  match r.command with
  | .Get | .GetQ | .GetK | .GetKQ | .GaT | .GaTQ | .GaTK | .GaTKQ | .LaG | .LaGQ | .LaGK | .LaGKQ =>
    if extrasLen ≠ 0 ∧ extrasLen ≠ 4 then r
    else if keyLen = 0 ∨ dataLen > 0 then r
    else { r with
      exptime := if extrasLen = 4 then binaryExptime now p extra else EXPTIME_NONE
      status := .OK }
  | .Set | .SetQ | .Add | .AddQ | .Replace | .ReplaceQ | .RaU | .RaUQ =>
    if extrasLen ≠ 8 ∨ keyLen = 0 ∨ dataLen = 0 then r
    else { r with
      flags := ntoh32 p extra, exptime := binaryExptime now p (extra + 4), status := .OK }
  | .Delete | .DeleteQ =>
    if extrasLen ≠ 0 ∨ keyLen = 0 ∨ dataLen > 0 then r else { r with status := .OK }
  | .Increment | .IncrementQ | .Decrement | .DecrementQ =>
    if extrasLen ≠ 20 ∨ keyLen = 0 ∨ dataLen > 0 then r
    else { r with
      value := ntoh64 p extra, initial := ntoh64 p (extra + 8)
      exptime := binaryExptime now p (extra + 16), status := .OK }
  | .Touch =>
    if keyLen = 0 ∨ extrasLen ≠ 4 ∨ dataLen ≠ 0 then r
    else { r with exptime := binaryExptime now p extra, status := .OK }
  | .Flush | .FlushQ =>
    if extrasLen ≠ 0 ∧ extrasLen ≠ 4 then r
    else if keyLen ≠ 0 ∨ dataLen > 0 then r
    else { r with
      exptime := if extrasLen = 4 then binaryExptime now p extra else now
      status := .OK }
  | .Append | .AppendQ | .Prepend | .PrependQ =>
    if extrasLen ≠ 0 ∨ keyLen = 0 ∨ dataLen = 0 then r else { r with status := .OK }
  | .Lock | .LockQ | .Unlock | .UnlockQ =>
    if extrasLen ≠ 0 ∨ keyLen = 0 ∨ dataLen > 0 then r else { r with status := .OK }
  | .Stat =>
    if extrasLen ≠ 0 ∨ dataLen ≠ 0 then r
    else { r with stats := statsOfKey r.key, status := .OK }
  | .Keys => if extrasLen ≠ 0 ∨ dataLen > 0 then r else { r with status := .OK }
  | .Quit | .QuitQ | .Version | .Noop | .UnlockAll | .UnlockAllQ => { r with status := .OK }
  | .Unknown | .raw _ => { r with command := .Unknown, status := .UnknownCommand }

/-- `binary_request::parse`. -/
def parse (now : Int) (p : Bytes) : BinaryRequest :=
  if p.length < BINARY_HEADER_SIZE then {}
  else
    let totalLen := (ntoh32 p 8).toNat
    if p.length < BINARY_HEADER_SIZE + totalLen then {}
    else
      let r : BinaryRequest :=
        { length := BINARY_HEADER_SIZE + totalLen
          command := BinaryCommand.ofByte (p.getD 1 0)
          opaqueBytes := slice 12 4 p }
      let keyLen := ntoh16 p 2
      if hk : keyLen > MAX_KEY_LENGTH then r
      else
        let extrasLen := (p.getD 4 0).toNat
        if totalLen < keyLen + extrasLen then r
        else
          let r : BinaryRequest :=
            { r with
              key := slice (BINARY_HEADER_SIZE + extrasLen) keyLen p
              casUnique := ntoh64 p 16
              key_le := (length_slice_le _ _ _).trans (Nat.not_lt.mp hk) }
          let dataLen := totalLen - keyLen - extrasLen
          if dataLen > MAX_REQUEST_LENGTH then { r with status := .TooLargeValue }
          else
            parseExtras now p keyLen extrasLen dataLen
              { r with data := slice (BINARY_HEADER_SIZE + extrasLen + keyLen) dataLen p }

end BinaryRequest

/-- What `binary_response` sends after the header. -/
inductive BinaryBody where
  | error (status : BinaryStatus)
  | success
  | get (flags : UInt32) (data : Bytes) (cas : UInt64) (key : Option Key)
  | key (k : Key)
  | set (cas : UInt64)
  | incdec (value cas : UInt64)
  | quit
  | stats (kind : StatsKind) (slaves : Nat)
  | version
deriving DecidableEq, Repr

/-- A response packet: the opcode and the opaque field are the request's. -/
structure BinaryReply where
  opcode : UInt8
  opaqueBytes : Bytes
  body : BinaryBody
deriving DecidableEq, Repr

/-! ## The text protocol -/

/-- `text_command`. -/
inductive TextCommand where
  | UNKNOWN | SET | ADD | REPLACE | APPEND | PREPEND | CAS | GET | GETS | DELETE | INCR | DECR | TOUCH
  | LOCK | UNLOCK | UNLOCK_ALL | SLABS | STATS | FLUSH_ALL | VERSION | VERBOSITY | QUIT | KEYS
deriving DecidableEq, Repr

/-- `text_request`, as its parser leaves it. -/
structure TextRequest where
  command : TextCommand := .UNKNOWN
  valid : Bool := false
  noReply : Bool := false
  key : Key := []
  keys : List Key := []
  flags : UInt32 := 0
  exptime : Int := 0
  casUnique : UInt64 := 0
  data : Bytes := []
  value : UInt64 := 0
  verbosity : Severity := .info
  stats : StatsKind := .GENERAL

/-- The lines `text_response` sends. -/
inductive TextReply where
  | ERROR | OK | STORED | NOT_STORED | EXISTS | NOT_FOUND | TOUCHED | DELETED | END | LOCKED
  | VALUE (key : Key) (flags : UInt32) (data : Bytes) (cas : Option UInt64)
  | KEY (key : Key)
  | NUMBER (n : UInt64)
  | NON_NUMERIC
  | NOT_LOCKED
  | STATS (kind : StatsKind) (slaves : Nat)
  | VERSION
deriving DecidableEq, Repr

/-- What a connection sends. -/
inductive Reply where
  | binary (r : BinaryReply)
  | text (r : TextReply)
deriving DecidableEq, Repr

end Yrmcds.Memcache
