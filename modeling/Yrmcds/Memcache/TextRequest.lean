/-
  The parser of the text protocol (src/memcache/memcache.cpp, `text_request::parse`).

  A request is a line, ended by LF; a storage request is followed by its data.  The parser works with
  pointers: `b` is where it stands, `e` is the CR at the end of the line.  Here the bytes from `b` to `e`
  are a list, and `b == e` says that it is empty.

  Numbers are read by `to_uint`, which calls `strtoull` on the pointer.  `strtoull` does not know where
  the line ends: it skips white space, and CR and LF ARE white space.  So a number field that is blank
  up to the end of the line (a TAB, say) is read from whatever stands BEHIND the line in memory: the
  next request, if it has arrived, or what an earlier use of the buffer has left.  And the test for
  overflow looks at `errno`, which nobody has cleared.  Both are in the model: `Around` is what the
  parser sees besides the line.

  A line is STEADY if this makes no difference.  A line that leads to data whatever is around it is steady
  (`steady_of_data`): only the numbers in front of the data could depend on it, and they have been read.
-/
import Yrmcds.Memcache.Protocol

namespace Yrmcds.Memcache

/-- `\r`. -/
def CR : UInt8 := 13

/-- `\n`. -/
def LF : UInt8 := 10

/-- A blank. -/
def SP : UInt8 := 32

/-! ## Numbers -/

/-- The bytes from the first digit on, after white space and a sign. -/
def fromDigits (s : Bytes) : Bytes := (splitSign (s.dropWhile isSpace)).2

/-- `strtoull` in base 10: `none` if there is no digit, otherwise the number, whether it is out of range
    (`errno` is then set to `ERANGE`), and what follows. -/
def strtoull (s : Bytes) : Option (Nat × Bool × Bytes) :=
  let ds := (fromDigits s).takeWhile isDigit
  let rest := (fromDigits s).dropWhile isDigit
  if ds.isEmpty then none
  else if digitsValue ds ≥ 2 ^ 64 then some (2 ^ 64 - 1, true, rest)
  else
    let negative := (splitSign (s.dropWhile isSpace)).1
    some (if negative then (2 ^ 64 - digitsValue ds) % 2 ^ 64 else digitsValue ds, false, rest)

/-- What the parser sees besides the line: the memory behind it, and whether `errno` is `ERANGE`. -/
structure Around where
  after : Bytes
  erange : Bool

/-- The checks of `to_uint` on what `strtoull` returned.  At the end of the known memory stands a byte
    that ends no number. -/
def accept (max : Nat) (erange : Bool) (i : Nat) (overflow : Bool) (rest : Bytes) : Option Nat :=
  if i = 2 ^ 64 - 1 ∧ (overflow || erange) = true then none
  else
    let c := rest.headD 0
    if c ≠ CR ∧ c ≠ LF ∧ c ≠ SP then none
    else if i > max then none
    else some i

/-- `to_uint<UInt>(b)`, for a type with the largest value `max`; `b` is the rest of the line.  `none` is
    `result == false`. -/
def toUint (max : Nat) (u : Around) (b : Bytes) : Option Nat :=
  match strtoull (b ++ CR :: LF :: u.after) with
  | none => none
  | some (i, overflow, rest) => accept max u.erange i overflow rest

/-- The largest values of `uint32_t`, `uint64_t` and `time_t`. -/
def UINT32_MAX : Nat := 2 ^ 32 - 1

/-- `UINT64_MAX`. -/
def UINT64_MAX : Nat := 2 ^ 64 - 1

/-- The largest `std::time_t`. -/
def TIME_MAX : Nat := 2 ^ 63 - 1

namespace TextRequest

/-! ## Words -/

/-- `while( *b == SP ) ++b;` -/
def skip (b : Bytes) : Bytes := b.dropWhile (· == SP)

/-- The bytes up to the next SP, or to the end of the line. -/
def word (b : Bytes) : Bytes := b.takeWhile (· != SP)

/-- What follows the word; empty if no SP was found. -/
def afterWord (b : Bytes) : Bytes := b.dropWhile (· != SP)

/-! ## Commands -/

/-- The end of most commands: an optional `noreply`, and nothing else.  The second component says
    whether that was all. -/
def parseNoReply (r : TextRequest) (b : Bytes) : TextRequest × Bool :=
  let b := skip b
  if b = [] then (r, true)
  else if word b ≠ ascii "noreply" then (r, false)
  else ({ r with noReply := true }, (skip (afterWord b)).isEmpty)

/-- `noreply`, and the request is valid. -/
def finish (r : TextRequest) (b : Bytes) : TextRequest :=
  let (r, ok) := parseNoReply r b
  if ok then { r with valid := true } else r

/-- `(t > EXPTIME_THRESHOLD) ? t : (g_current_time + t)`. -/
def expireAt (now : Int) (t : Nat) : Int := if t > EXPTIME_THRESHOLD then t else now + t

/-- The command a word names: it is compared by length and contents. -/
def commandOf (cmd : Bytes) : TextCommand :=
  if cmd = ascii "unlock_all" then .UNLOCK_ALL
  else if cmd = ascii "flush_all" then .FLUSH_ALL
  else if cmd = ascii "verbosity" then .VERBOSITY
  else if cmd = ascii "version" then .VERSION
  else if cmd = ascii "prepend" then .PREPEND
  else if cmd = ascii "replace" then .REPLACE
  else if cmd = ascii "append" then .APPEND
  else if cmd = ascii "delete" then .DELETE
  else if cmd = ascii "unlock" then .UNLOCK
  else if cmd = ascii "touch" then .TOUCH
  else if cmd = ascii "slabs" then .SLABS
  else if cmd = ascii "stats" then .STATS
  else if cmd = ascii "gets" then .GETS
  else if cmd = ascii "incr" then .INCR
  else if cmd = ascii "decr" then .DECR
  else if cmd = ascii "lock" then .LOCK
  else if cmd = ascii "quit" then .QUIT
  else if cmd = ascii "keys" then .KEYS
  else if cmd = ascii "set" then .SET
  else if cmd = ascii "add" then .ADD
  else if cmd = ascii "get" then .GET
  else if cmd = ascii "cas" then .CAS
  else .UNKNOWN

section

variable (now : Int) (u : Around)

/-- `parse_flushall`: without a number the time is now. -/
def parseFlushall (r : TextRequest) (b : Bytes) : TextRequest :=
  let r := { r with exptime := now }
  let b := skip b
  if b = [] then { r with valid := true }
  else if isDigit (b.headD 0) then
    match toUint TIME_MAX u b with
    | none => r
    | some t => finish { r with exptime := expireAt now t } (afterWord b)
  else finish r b

/-- The severity a word names; other words leave it at `info`. -/
def severityOf (w : Bytes) : Severity :=
  if w = ascii "error" then .error
  else if w = ascii "debug" then .debug
  else if w = ascii "warning" then .warning
  else .info

/-- `parse_verbosity`. -/
def parseVerbosity (r : TextRequest) (b : Bytes) : TextRequest :=
  let b := skip b
  if b = [] then r else finish { r with verbosity := severityOf (word b) } (afterWord b)

/-- What a line is: a whole request, or the header of a storage request with `nbytes` of data. -/
inductive Header where
  | done (r : TextRequest)
  | data (r : TextRequest) (nbytes : Nat)

/-- The last fields of a storage request: the cas value, for `cas` only, and `noreply`. -/
def parseStorageEnd (isCas : Bool) (nbytes : Nat) (r : TextRequest) (b : Bytes) : Header :=
  let ending (r : TextRequest) (b : Bytes) : Header :=
    match parseNoReply r b with
    | (r, true) => .data r nbytes
    | (r, false) => .done r
  if isCas then
    let b := skip b
    if b = [] then .done r
    else
      match toUint UINT64_MAX u b with
      | none => .done r
      | some c => ending { r with casUnique := UInt64.ofNat c } (afterWord b)
  else ending r b

/-- The time and the number of bytes. -/
def parseStorageSize (isCas : Bool) (r : TextRequest) (b : Bytes) : Header :=
  let b := skip b
  if b = [] ∨ afterWord b = [] then .done r
  else
    match toUint TIME_MAX u b with
    | none => .done r
    | some t =>
      let r := if t ≠ 0 then { r with exptime := expireAt now t } else r
      let b := skip (afterWord b)
      if b = [] then .done r
      else
        match toUint UINT32_MAX u b with
        | none => .done r
        | some nbytes => parseStorageEnd u isCas nbytes r (afterWord b)

/-- `parse_storage`, up to the check of the data. -/
def parseStorage (isCas : Bool) (r : TextRequest) (b : Bytes) : Header :=
  let b := skip b
  if b = [] ∨ afterWord b = [] then .done r
  else
    let r := { r with key := word b }
    let b := skip (afterWord b)
    if b = [] ∨ afterWord b = [] then .done r
    else
      match toUint UINT32_MAX u b with
      | none => .done r
      | some f => parseStorageSize now u isCas { r with flags := UInt32.ofNat f } (afterWord b)

/-- `parse_delete`. -/
def parseDelete (r : TextRequest) (b : Bytes) : TextRequest :=
  let b := skip b
  if b = [] then r else finish { r with key := word b } (afterWord b)

/-- `parse_touch`. -/
def parseTouch (r : TextRequest) (b : Bytes) : TextRequest :=
  let b := skip b
  if b = [] ∨ afterWord b = [] then r
  else
    let r := { r with key := word b }
    let b := skip (afterWord b)
    if b = [] then r
    else
      match toUint TIME_MAX u b with
      | none => r
      | some t => finish (if t ≠ 0 then { r with exptime := expireAt now t } else r) (afterWord b)

/-- `parse_lock` and `parse_unlock`. -/
def parseLock (r : TextRequest) (b : Bytes) : TextRequest :=
  let b := skip b
  if b = [] then r
  else { r with key := word b, valid := (skip (afterWord b)).isEmpty }

/-- `parse_stats`. -/
def parseStats (r : TextRequest) (b : Bytes) : TextRequest :=
  let b := skip b
  if b = [] then { r with valid := true }
  else if word b = ascii "ops" then { r with stats := .OPS, valid := true }
  else if word b = ascii "items" then { r with stats := .ITEMS, valid := true }
  else if word b = ascii "sizes" then { r with stats := .SIZES, valid := true }
  else if word b = ascii "settings" then { r with stats := .SETTINGS, valid := true }
  else r

/-- `parse_incdec`. -/
def parseIncdec (r : TextRequest) (b : Bytes) : TextRequest :=
  let b := skip b
  if b = [] ∨ afterWord b = [] then r
  else
    let r := { r with key := word b }
    let b := skip (afterWord b)
    if b = [] then r
    else
      match toUint UINT64_MAX u b with
      | none => r
      | some v => finish { r with value := UInt64.ofNat v } (afterWord b)

/-- The keys `next_key` finds in what follows the first key: it stops at the first CR, which a key may
    contain.  `n` bounds the number of keys. -/
def nextKeys : Nat → Bytes → List Key
  | 0, _ => []
  | n + 1, b =>
    let b := skip b
    let key := word (b.takeWhile (· != CR))
    if b.takeWhile (· != CR) = [] then [] else key :: nextKeys n (b.drop key.length)

/-- `parse_get`; the other keys are found by `next_key`. -/
def parseGet (r : TextRequest) (b : Bytes) : TextRequest :=
  let b := skip b
  if b = [] then r
  else { r with key := word b, keys := word b :: nextKeys b.length (afterWord b), valid := true }

/-- `parse_keys`: without a word it asks for all keys. -/
def parseKeys (r : TextRequest) (b : Bytes) : TextRequest :=
  let b := skip b
  if b = [] then { r with valid := true } else { r with key := word b, valid := true }

/-- The fields of a command, from the rest of the line. -/
def parseCommand (c : TextCommand) (b : Bytes) : Header :=
  match c with
  | .UNLOCK_ALL | .VERSION | .SLABS | .QUIT => .done { command := c, valid := true }
  | .FLUSH_ALL => .done (parseFlushall now u { command := c } b)
  | .VERBOSITY => .done (parseVerbosity { command := c } b)
  | .PREPEND | .REPLACE | .APPEND | .SET | .ADD => parseStorage now u false { command := c } b
  | .CAS => parseStorage now u true { command := c } b
  | .DELETE => .done (parseDelete { command := c } b)
  | .LOCK | .UNLOCK => .done (parseLock { command := c } b)
  | .TOUCH => .done (parseTouch now u { command := c } b)
  | .STATS => .done (parseStats { command := c } b)
  | .GET | .GETS => .done (parseGet { command := c } b)
  | .INCR | .DECR => .done (parseIncdec u { command := c } b)
  | .KEYS => .done (parseKeys { command := c } b)
  | .UNKNOWN => .done {}

/-- A line, LF included. -/
def parseLine (line : Bytes) : Header :=
  if line.length = 1 ∨ line.getD (line.length - 2) 0 ≠ CR then .done {}
  else
    let b := skip (line.take (line.length - 2))
    parseCommand now u (commandOf (word b)) (afterWord b)

end

/-- The first line of `p`, LF included, and what follows it. -/
def splitLine : Bytes → Option (Bytes × Bytes)
  | [] => none
  | c :: p =>
    if c = LF then some ([c], p)
    else
      match splitLine p with
      | none => none
      | some (line, rest) => some (c :: line, rest)

/-- The end of `parse_storage`: the data, and the CR LF after it. -/
def checkData (r : TextRequest) (nbytes : Nat) (rest : Bytes) : TextRequest :=
  if (rest.drop nbytes).take 2 ≠ [CR, LF] then r else { r with data := rest.take nbytes, valid := true }

/-- `text_request::parse` on the bytes `p`; `u` is what stands behind THEM.  The first component is the
    length of the request, 0 if it is incomplete. -/
def parse (now : Int) (u : Around) (p : Bytes) : Nat × TextRequest :=
  match splitLine p with
  | none => (0, {})
  | some (line, rest) =>
    match parseLine now ⟨rest ++ u.after, u.erange⟩ line with
    | .done r => (line.length, r)
    | .data r nbytes =>
      if rest.length < nbytes + 2 then (0, r)
      else (line.length + nbytes + 2, checkData r nbytes rest)

/-! ## Lines -/

variable {p s line rest : Bytes} {i n : Nat} {r' : TextRequest}

theorem splitLine_cons {c : UInt8} :
    splitLine (c :: p) = some (line, rest) ↔ (c = LF ∧ line = [c] ∧ rest = p) ∨
      (c ≠ LF ∧ ∃ l, line = c :: l ∧ splitLine p = some (l, rest)) := by
  rw [splitLine]
  by_cases hc : c = LF
  · rw [if_pos hc, Option.some.injEq, Prod.mk.injEq]
    refine ⟨fun h => .inl ⟨hc, h.1.symm, h.2.symm⟩, ?_⟩
    rintro (⟨_, rfl, rfl⟩ | ⟨hne, _⟩)
    · exact ⟨rfl, rfl⟩
    · exact absurd hc hne
  · rw [if_neg hc]
    constructor
    · intro h
      cases hp : splitLine p with
      | none => rw [hp] at h; cases h
      | some x => rw [hp] at h; cases h; exact .inr ⟨hc, x.1, rfl, rfl⟩
    · rintro (⟨heq, _⟩ | ⟨_, l, rfl, hp⟩)
      · exact absurd heq hc
      · rw [hp]

theorem splitLine_eq (h : splitLine p = some (line, rest)) :
    p = line ++ rest ∧ line ≠ [] := by
  induction p generalizing line with
  | nil => cases h
  | cons c p ih =>
    rcases splitLine_cons.mp h with ⟨_, rfl, rfl⟩ | ⟨_, l, rfl, hl⟩
    · exact ⟨rfl, List.cons_ne_nil _ _⟩
    · exact ⟨congrArg (c :: ·) (ih hl).1, List.cons_ne_nil _ _⟩

theorem splitLine_append (h : splitLine p = some (line, rest)) (y : Bytes) :
    splitLine (p ++ y) = some (line, rest ++ y) := by
  induction p generalizing line with
  | nil => cases h
  | cons c p ih =>
    rcases splitLine_cons.mp h with ⟨hc, rfl, rfl⟩ | ⟨hc, l, rfl, hl⟩
    · exact splitLine_cons.mpr (.inl ⟨hc, rfl, rfl⟩)
    · exact splitLine_cons.mpr (.inr ⟨hc, l, rfl, ih hl⟩)

/-- The line alone is a line. -/
theorem splitLine_self (h : splitLine p = some (line, rest)) :
    splitLine line = some (line, []) := by
  induction p generalizing line with
  | nil => cases h
  | cons c p ih =>
    rcases splitLine_cons.mp h with ⟨hc, rfl, rfl⟩ | ⟨hc, l, rfl, hl⟩
    · exact splitLine_cons.mpr (.inl ⟨hc, rfl, rfl⟩)
    · exact splitLine_cons.mpr (.inr ⟨hc, l, rfl, ih hl⟩)

/-- If no line is there yet, what is there is shorter than the line to come. -/
theorem length_lt_of_splitLine {q y : Bytes} (hq : splitLine q = none)
    (h : splitLine (q ++ y) = some (line, rest)) : q.length < line.length := by
  induction q generalizing line with
  | nil => exact List.length_pos_iff.mpr (splitLine_eq h).2
  | cons c q ih =>
    rcases splitLine_cons.mp h with ⟨hc, rfl, _⟩ | ⟨hc, l, rfl, hl⟩
    · rw [splitLine, if_pos hc] at hq
      cases hq
    · refine Nat.succ_lt_succ (ih ?_ hl)
      cases hp : splitLine q with
      | none => rfl
      | some x => rw [splitLine, if_neg hc, hp] at hq; cases hq

/-! ## What the parts of the parser leave alone -/

theorem headD_skip {b : Bytes} (h : skip b ≠ []) : (skip b).headD 0 ≠ SP := by
  unfold skip at h ⊢
  cases hs : b.dropWhile (· == SP) with
  | nil => exact absurd hs h
  | cons c s =>
    have := List.head_dropWhile_not (· == SP) (l := b) (by rw [hs]; exact List.cons_ne_nil c s)
    simp only [hs, List.head_cons] at this
    simpa using this

theorem word_ne_nil {b : Bytes} (hne : b ≠ []) (hhead : b.headD 0 ≠ SP) : word b ≠ [] := by
  obtain ⟨c, b, rfl⟩ := List.exists_cons_of_ne_nil hne
  unfold word
  rw [List.takeWhile_cons_of_pos (by simpa using hhead)]
  exact List.cons_ne_nil _ _

theorem word_skip_ne_nil {b : Bytes} (h : skip b ≠ []) : word (skip b) ≠ [] :=
  word_ne_nil h (headD_skip h)

/-- The request of a line that has been read, with or without its data. -/
def Header.request : Header → TextRequest
  | .done r => r
  | .data r _ => r

/-- What the fields that follow the key leave alone. -/
structure Keeps (r r' : TextRequest) : Prop where
  command : r'.command = r.command
  key : r'.key = r.key
  valid : r'.valid = r.valid

theorem Keeps.refl (r : TextRequest) : Keeps r r := ⟨rfl, rfl, rfl⟩

theorem Keeps.trans {r1 r2 r3 : TextRequest} (h : Keeps r1 r2) (h' : Keeps r2 r3) : Keeps r1 r3 :=
  ⟨h'.command.trans h.command, h'.key.trans h.key, h'.valid.trans h.valid⟩

section

variable {now : Int} {u : Around} {isCas : Bool} {r : TextRequest} {b : Bytes}

theorem parseNoReply_keeps (r : TextRequest) (b : Bytes) : Keeps r (parseNoReply r b).1 := by
  unfold parseNoReply
  dsimp only
  split_ifs <;> exact ⟨rfl, rfl, rfl⟩

theorem finish_command (r : TextRequest) (b : Bytes) : (finish r b).command = r.command := by
  unfold finish
  dsimp only
  split_ifs
  · exact (parseNoReply_keeps r b).command
  · exact (parseNoReply_keeps r b).command

/-- The end of the line of a storage request. -/
theorem ending_keeps (n : Nat) (r : TextRequest) (b : Bytes) :
    Keeps r (Header.request (match parseNoReply r b with
      | (r, true) => .data r n
      | (r, false) => .done r)) := by
  have hkeeps := parseNoReply_keeps r b
  generalize parseNoReply r b = x at hkeeps ⊢
  obtain ⟨r', _ | _⟩ := x
  · exact hkeeps
  · exact hkeeps

theorem parseStorageEnd_keeps : Keeps r (parseStorageEnd u isCas n r b).request := by
  unfold parseStorageEnd
  dsimp only
  split_ifs
  · exact .refl r
  · split
    · exact .refl r
    · refine Keeps.trans ?_ (ending_keeps n _ _)
      exact ⟨rfl, rfl, rfl⟩
  · exact ending_keeps n r b

/-- The number of bytes, and what follows it. -/
theorem size_keeps (r : TextRequest) (b : Bytes) :
    Keeps r (Header.request (if b = [] then .done r
      else
        match toUint UINT32_MAX u b with
        | none => .done r
        | some nbytes => parseStorageEnd u isCas nbytes r (afterWord b))) := by
  split_ifs
  · exact .refl r
  · split
    · exact .refl r
    · exact parseStorageEnd_keeps

theorem parseStorageSize_keeps : Keeps r (parseStorageSize now u isCas r b).request := by
  unfold parseStorageSize
  dsimp only
  by_cases h : skip b = [] ∨ afterWord (skip b) = []
  · rw [if_pos h]
    exact .refl r
  rw [if_neg h]
  cases toUint TIME_MAX u (skip b) with
  | none => exact .refl r
  | some t =>
    refine Keeps.trans ?_ (size_keeps _ _)
    split_ifs
    · exact ⟨rfl, rfl, rfl⟩
    · exact .refl r

theorem parseStorage_frame : (parseStorage now u isCas r b).request.command = r.command ∧
    (parseStorage now u isCas r b).request.valid = r.valid := by
  unfold parseStorage
  dsimp only
  split_ifs
  · exact ⟨rfl, rfl⟩
  · exact ⟨rfl, rfl⟩
  · split
    · exact ⟨rfl, rfl⟩
    · exact ⟨parseStorageSize_keeps.command, parseStorageSize_keeps.valid⟩

/-- Before its data has been checked a storage request is not valid. -/
theorem parseStorage_invalid {x : Header} (h : parseStorage now u isCas r b = x) (hr : r.valid = false) :
    x.request.valid = false := by
  rw [← h, parseStorage_frame.2, hr]

theorem parseFlushall_command : (parseFlushall now u r b).command = r.command := by
  unfold parseFlushall
  dsimp only
  split_ifs
  · rfl
  · split
    · rfl
    · exact finish_command _ _
  · exact finish_command _ _

theorem parseVerbosity_command : (parseVerbosity r b).command = r.command := by
  unfold parseVerbosity
  dsimp only
  split_ifs
  · rfl
  · exact finish_command _ _

theorem parseDelete_command : (parseDelete r b).command = r.command := by
  unfold parseDelete
  dsimp only
  split_ifs
  · rfl
  · exact finish_command _ _

theorem parseTouch_command : (parseTouch now u r b).command = r.command := by
  unfold parseTouch
  dsimp only
  split_ifs
  · rfl
  · rfl
  · split
    · rfl
    · rw [finish_command]
      split_ifs <;> rfl

theorem parseLock_command : (parseLock r b).command = r.command := by
  unfold parseLock
  dsimp only
  split_ifs <;> rfl

theorem parseStats_command : (parseStats r b).command = r.command := by
  unfold parseStats
  dsimp only
  split_ifs <;> rfl

theorem parseIncdec_command : (parseIncdec u r b).command = r.command := by
  unfold parseIncdec
  dsimp only
  split_ifs
  · rfl
  · rfl
  · split
    · rfl
    · exact finish_command _ _

theorem parseGet_command : (parseGet r b).command = r.command := by
  unfold parseGet
  dsimp only
  split_ifs <;> rfl

theorem parseKeys_command : (parseKeys r b).command = r.command := by
  unfold parseKeys
  dsimp only
  split_ifs <;> rfl

theorem parseCommand_command (now : Int) (u : Around) (c : TextCommand) (b : Bytes) :
    (parseCommand now u c b).request.command = c := by
  cases c with
  | PREPEND | REPLACE | APPEND | SET | ADD | CAS => exact parseStorage_frame.1
  | UNLOCK_ALL | VERSION | SLABS | QUIT | UNKNOWN => rfl
  | FLUSH_ALL => exact parseFlushall_command
  | VERBOSITY => exact parseVerbosity_command
  | DELETE => exact parseDelete_command
  | LOCK | UNLOCK => exact parseLock_command
  | TOUCH => exact parseTouch_command
  | STATS => exact parseStats_command
  | GET | GETS => exact parseGet_command
  | INCR | DECR => exact parseIncdec_command
  | KEYS => exact parseKeys_command

/-- Only the storage commands have data. -/
theorem parseCommand_data {c : TextCommand} (h : parseCommand now u c b = .data r n) :
    r.valid = false := by
  cases c with
  | PREPEND | REPLACE | APPEND | SET | ADD | CAS => exact parseStorage_invalid h rfl
  | UNLOCK_ALL | VERSION | SLABS | QUIT | UNKNOWN | FLUSH_ALL | VERBOSITY | DELETE | LOCK | UNLOCK | TOUCH
    | STATS | GET | GETS | INCR | DECR | KEYS => cases h

end

/-! ## How far a number reaches -/

theorem splitSign_append {x : Bytes} (hx : x ≠ []) (t : Bytes) :
    splitSign (x ++ t) = ((splitSign x).1, (splitSign x).2 ++ t) := by
  cases x with
  | nil => exact absurd rfl hx
  | cons c x =>
    simp only [List.cons_append, splitSign]
    split_ifs <;> rfl

/-- **A number ends where its digits end**: what comes after a byte that is not a digit is not read. -/
theorem strtoull_append (hs : (fromDigits s).dropWhile isDigit ≠ []) (t : Bytes) :
    strtoull (s ++ t) = (strtoull s).map fun x => (x.1, x.2.1, x.2.2 ++ t) := by
  have hx : s.dropWhile isSpace ≠ [] := by
    intro h
    apply hs
    unfold fromDigits
    rw [h]
    rfl
  have hspace : (s ++ t).dropWhile isSpace = s.dropWhile isSpace ++ t := by
    rw [List.dropWhile_append, if_neg (by simpa using hx)]
  have hfrom : fromDigits (s ++ t) = fromDigits s ++ t := by
    unfold fromDigits
    rw [hspace, splitSign_append hx]
  have hdrop : (fromDigits s ++ t).dropWhile isDigit = (fromDigits s).dropWhile isDigit ++ t := by
    rw [List.dropWhile_append, if_neg (by simpa using hs)]
  have htake : (fromDigits s ++ t).takeWhile isDigit = (fromDigits s).takeWhile isDigit := by
    rw [List.takeWhile_append, if_neg ?_]
    intro hlen
    have hsplit := congrArg List.length (List.takeWhile_append_dropWhile (p := isDigit) (l := fromDigits s))
    rw [List.length_append, hlen] at hsplit
    exact hs (List.eq_nil_of_length_eq_zero (by omega))
  unfold strtoull
  rw [hfrom, hdrop, htake, hspace, splitSign_append hx]
  dsimp only
  split_ifs <;> rfl

theorem strtoull_rest {overflow : Bool}
    (h : strtoull s = some (i, overflow, rest)) : rest = (fromDigits s).dropWhile isDigit := by
  unfold strtoull at h
  dsimp only at h
  split_ifs at h <;> (cases h; rfl)

theorem headD_append (h : rest ≠ []) (t : Bytes) : (rest ++ t).headD 0 = rest.headD 0 := by
  cases rest with
  | nil => exact absurd rfl h
  | cons c rest => rfl

theorem accept_append (h : rest ≠ []) (max : Nat) (erange : Bool) (i : Nat) (overflow : Bool) (t : Bytes) :
    accept max erange i overflow (rest ++ t) = accept max erange i overflow rest := by
  unfold accept
  rw [headD_append h]

/-- What is accepted is followed by something, and is accepted whatever `errno` is. -/
theorem accept_some {max : Nat} {overflow : Bool} {j : Nat} (h : accept max true i overflow rest = some j) :
    rest ≠ [] ∧ ∀ erange, accept max erange i overflow rest = some j := by
  unfold accept at h ⊢
  rw [Bool.or_true] at h
  by_cases hi : i = 2 ^ 64 - 1
  · rw [if_pos ⟨hi, rfl⟩] at h
    cases h
  · rw [if_neg fun hn => hi hn.1] at h
    refine ⟨?_, fun erange => by rw [if_neg fun hn => hi hn.1]; exact h⟩
    rintro rfl
    cases h

/-- A number that is accepted with nothing behind the line, and with `errno` at its worst, is accepted
    in any case. -/
theorem toUint_of_strict {max : Nat} {b : Bytes} (h : toUint max ⟨[], true⟩ b = some i)
    (u : Around) : toUint max u b = some i := by
  unfold toUint at h ⊢
  cases hs : strtoull (b ++ [CR, LF]) with
  | none => rw [hs] at h; cases h
  | some x =>
    obtain ⟨n, overflow, rest⟩ := x
    rw [hs] at h
    obtain ⟨hrest, haccept⟩ := accept_some h
    have hsplit : b ++ CR :: LF :: u.after = (b ++ [CR, LF]) ++ u.after := by rw [List.append_assoc]; rfl
    rw [hsplit, strtoull_append (strtoull_rest hs ▸ hrest), hs]
    exact (accept_append hrest ..).trans (haccept u.erange)

/-- **The header of a storage request** that needs nothing behind the line is read alike in any case. -/
theorem parseStorageEnd_of_strict {isCas : Bool} {nbytes : Nat} {r : TextRequest} {b : Bytes}
    (h : parseStorageEnd ⟨[], true⟩ isCas nbytes r b = .data r' n) (u : Around) :
    parseStorageEnd u isCas nbytes r b = .data r' n := by
  unfold parseStorageEnd at h ⊢
  cases isCas with
  | false => exact h
  | true =>
    simp only [if_true] at h ⊢
    by_cases hb : skip b = []
    · rw [if_pos hb] at h
      cases h
    · rw [if_neg hb] at h ⊢
      cases hc : toUint UINT64_MAX ⟨[], true⟩ (skip b) with
      | none => rw [hc] at h; cases h
      | some c =>
        rw [hc] at h
        rw [toUint_of_strict hc]
        exact h

theorem parseStorageSize_of_strict {now : Int} {isCas : Bool} {r : TextRequest} {b : Bytes}
    (h : parseStorageSize now ⟨[], true⟩ isCas r b = .data r' n) (u : Around) :
    parseStorageSize now u isCas r b = .data r' n := by
  unfold parseStorageSize at h ⊢
  dsimp only at h ⊢
  by_cases hb : skip b = [] ∨ afterWord (skip b) = []
  · rw [if_pos hb] at h
    cases h
  rw [if_neg hb] at h ⊢
  cases ht : toUint TIME_MAX ⟨[], true⟩ (skip b) with
  | none => rw [ht] at h; cases h
  | some t =>
    rw [ht] at h
    rw [toUint_of_strict ht]
    dsimp only at h ⊢
    by_cases hb' : skip (afterWord (skip b)) = []
    · rw [if_pos hb'] at h
      cases h
    · rw [if_neg hb'] at h ⊢
      cases hn : toUint UINT32_MAX ⟨[], true⟩ (skip (afterWord (skip b))) with
      | none => rw [hn] at h; cases h
      | some nbytes =>
        rw [hn] at h
        rw [toUint_of_strict hn]
        exact parseStorageEnd_of_strict h u

theorem parseStorage_of_strict {now : Int} {isCas : Bool} {r : TextRequest} {b : Bytes}
    (h : parseStorage now ⟨[], true⟩ isCas r b = .data r' n) (u : Around) :
    parseStorage now u isCas r b = .data r' n := by
  unfold parseStorage at h ⊢
  dsimp only at h ⊢
  split_ifs at h ⊢ with hb hb'
  cases hf : toUint UINT32_MAX ⟨[], true⟩ (skip (afterWord (skip b))) with
  | none => rw [hf] at h; cases h
  | some f =>
    rw [hf] at h
    rw [toUint_of_strict hf]
    exact parseStorageSize_of_strict h u

theorem parseLine_of_strict {now : Int} {r : TextRequest}
    (h : parseLine now ⟨[], true⟩ line = .data r n) (u : Around) : parseLine now u line = .data r n := by
  unfold parseLine at h ⊢
  split_ifs at h ⊢
  dsimp only at h ⊢
  -- only the storage commands have data
  cases hc : commandOf (word (skip (line.take (line.length - 2)))) <;> rw [hc] at h <;>
    first
    | exact parseStorage_of_strict h u
    | cases h

/-! ## Steady lines -/

/-- What the parser makes of the line does not depend on what is around it. -/
def Steady (now : Int) (line : Bytes) : Prop :=
  ∀ u, parseLine now u line = parseLine now ⟨[], true⟩ line

/-- A line that leads to data whatever is around it is steady. -/
theorem steady_of_data {now : Int} {r : TextRequest}
    (h : parseLine now ⟨[], true⟩ line = .data r n) : Steady now line :=
  fun u => (parseLine_of_strict h u).trans h.symm

/-- A number that starts on the line ends on the line. -/
theorem fromDigits_stops {c : UInt8} (hc : isSpace c = false) :
    (fromDigits (c :: s ++ [CR, LF])).dropWhile isDigit ≠ [] := by
  -- the CR at the end of the line is still there behind the sign, and is no digit
  have hmem : CR ∈ fromDigits (c :: s ++ [CR, LF]) := by
    unfold fromDigits
    rw [List.cons_append, List.dropWhile_cons_of_neg (by rw [hc]; decide)]
    unfold splitSign
    dsimp only
    split_ifs <;> simp
  intro hnil
  have hdigit : isDigit CR = true := List.dropWhile_eq_nil_iff.mp hnil CR hmem
  cases hdigit

/-- A blank number is read from the next line. -/
example (now : Int) : ¬ Steady now (ascii "incr x \t\r\n") := by
  intro h
  injection h ⟨ascii "5\r\n", false⟩ with hr
  have hvalid := congrArg valid hr
  revert hvalid
  decide

end TextRequest

end Yrmcds.Memcache
