/-
  The numbers of a text request (src/memcache/memcache.cpp), as the parser asks for them.

  All the parser takes from outside its line are the values `to_uint` returns: the number fields, read
  one after the other, until one cannot be read.  So the parser of a line is a `Script` whose queries are
  the fields with the bytes they are read at (`lineScript`), and `run_lineScript` says that it is
  `parseLine`, with `to_uint` giving the answers.

  `lineScript_nodes` is what the later files need to know about the queries: a field that cannot be read
  leaves the request without it, and a field that has been read stays in the request to the end.  The
  number of data bytes is not in the request, so for this field the rest of the script is given.
-/
import Yrmcds.Lib.Script
import Yrmcds.Memcache.Words

namespace Yrmcds.Memcache

namespace TextRequest

open Script

/-- A number field, with the bytes from there to the end of the line. -/
abbrev Query := Field × Bytes

/-- `to_uint`, as it is called for the field. -/
def answer (u : Around) (q : Query) : Option Nat := toUint q.1.max u q.2

/-! ## The parser as a script -/

section

variable (now : Int)

/-- The end of a storage request: `noreply` and nothing else, or it is no request. -/
def storageEnding (nbytes : Nat) (r : TextRequest) (b : Bytes) : Header :=
  match parseNoReply r b with
  | (r, true) => .data r nbytes
  | (r, false) => .done r

/-- `parse_storage` behind the number of bytes. -/
def storageEndScript (isCas : Bool) (nbytes : Nat) (r : TextRequest) (b : Bytes) : Script Query Nat Header :=
  if isCas then
    let b := skip b
    if b = [] then .ret (.done r)
    else .read (.casUnique, b) (.done r) fun c =>
      .ret (storageEnding nbytes { r with casUnique := UInt64.ofNat c } (afterWord b))
  else .ret (storageEnding nbytes r b)

/-- ... from the time on. -/
def storageSizeScript (isCas : Bool) (r : TextRequest) (b : Bytes) : Script Query Nat Header :=
  let b := skip b
  if b = [] ∨ afterWord b = [] then .ret (.done r)
  else .read (.exptime, b) (.done r) fun t =>
    let r := if t ≠ 0 then { r with exptime := expireAt now t } else r
    let b := skip (afterWord b)
    if b = [] then .ret (.done r)
    else .read (.bytes, b) (.done r) fun nbytes => storageEndScript isCas nbytes r (afterWord b)

/-- `parse_storage`: which numbers it reads, in which order. -/
def storageScript (isCas : Bool) (r : TextRequest) (b : Bytes) : Script Query Nat Header :=
  let b := skip b
  if b = [] ∨ afterWord b = [] then .ret (.done r)
  else
    let r := { r with key := word b }
    let b := skip (afterWord b)
    if b = [] ∨ afterWord b = [] then .ret (.done r)
    else .read (.flags, b) (.done r) fun f =>
      storageSizeScript now isCas { r with flags := UInt32.ofNat f } (afterWord b)

/-- `parse_touch`. -/
def touchScript (r : TextRequest) (b : Bytes) : Script Query Nat Header :=
  let b := skip b
  if b = [] ∨ afterWord b = [] then .ret (.done r)
  else
    let r := { r with key := word b }
    let b := skip (afterWord b)
    if b = [] then .ret (.done r)
    else .read (.exptime, b) (.done r) fun t =>
      .ret (.done (finish (if t ≠ 0 then { r with exptime := expireAt now t } else r) (afterWord b)))

/-- `parse_incdec`. -/
def incdecScript (r : TextRequest) (b : Bytes) : Script Query Nat Header :=
  let b := skip b
  if b = [] ∨ afterWord b = [] then .ret (.done r)
  else
    let r := { r with key := word b }
    let b := skip (afterWord b)
    if b = [] then .ret (.done r)
    else .read (.delta, b) (.done r) fun v =>
      .ret (.done (finish { r with value := UInt64.ofNat v } (afterWord b)))

/-- `parse_flushall`. -/
def flushallScript (r : TextRequest) (b : Bytes) : Script Query Nat Header :=
  let r := { r with exptime := now }
  let b := skip b
  if b = [] then .ret (.done { r with valid := true })
  else if isDigit (b.headD 0) then
    .read (.delay, b) (.done r) fun t =>
      .ret (.done (finish { r with exptime := expireAt now t } (afterWord b)))
  else .ret (.done (finish r b))

/-- The commands without a number are parsed as they are. -/
def commandScript (c : TextCommand) (b : Bytes) : Script Query Nat Header :=
  match c with
  | .PREPEND | .REPLACE | .APPEND | .SET | .ADD => storageScript now false { command := c } b
  | .CAS => storageScript now true { command := c } b
  | .TOUCH => touchScript now { command := c } b
  | .INCR | .DECR => incdecScript { command := c } b
  | .FLUSH_ALL => flushallScript now { command := c } b
  | c => .ret (parseCommand now ⟨[], false⟩ c b)

/-- The command of a line. -/
def lineCommand (line : Bytes) : TextCommand := commandOf (word (skip (line.take (line.length - 2))))

/-- A whole line. -/
def lineScript (line : Bytes) : Script Query Nat Header :=
  if line.length = 1 ∨ line.getD (line.length - 2) 0 ≠ CR then .ret (.done {})
  else commandScript now (lineCommand line) (afterWord (skip (line.take (line.length - 2))))

end

/-! ## It is the parser -/

section

variable (now : Int) (u : Around)

/-- The answers, by field. -/
theorem answer_flags (b : Bytes) : answer u (.flags, b) = toUint UINT32_MAX u b := rfl
theorem answer_exptime (b : Bytes) : answer u (.exptime, b) = toUint TIME_MAX u b := rfl
theorem answer_bytes (b : Bytes) : answer u (.bytes, b) = toUint UINT32_MAX u b := rfl
theorem answer_casUnique (b : Bytes) : answer u (.casUnique, b) = toUint UINT64_MAX u b := rfl
theorem answer_delta (b : Bytes) : answer u (.delta, b) = toUint UINT64_MAX u b := rfl
theorem answer_delay (b : Bytes) : answer u (.delay, b) = toUint TIME_MAX u b := rfl

/-- Answered by `to_uint`, the scripts are the functions of the parser.  The last part of `parse_storage`: -/
theorem run_storageEnd (isCas : Bool) (nbytes : Nat) (r : TextRequest) (b : Bytes) :
    (storageEndScript isCas nbytes r b).run (answer u) = parseStorageEnd u isCas nbytes r b := by
  unfold storageEndScript parseStorageEnd
  cases isCas with
  | false => rfl
  | true =>
    rw [if_pos rfl, if_pos rfl]
    by_cases hb : skip b = []
    · rw [if_pos hb, if_pos hb, run]
    · rw [if_neg hb, if_neg hb, run, answer_casUnique]
      cases toUint UINT64_MAX u (skip b) <;> rfl

/-- ... from the time on: -/
theorem run_storageSize (isCas : Bool) (r : TextRequest) (b : Bytes) :
    (storageSizeScript now isCas r b).run (answer u) = parseStorageSize now u isCas r b := by
  unfold storageSizeScript parseStorageSize
  dsimp only
  split_ifs with hb hb'
  · rfl
  · rw [run, answer_exptime]
    cases toUint TIME_MAX u (skip b) <;> rfl
  · rw [run, answer_exptime]
    cases toUint TIME_MAX u (skip b) with
    | none => rfl
    | some t =>
      dsimp only
      rw [run, answer_bytes]
      cases toUint UINT32_MAX u (skip (afterWord (skip b))) with
      | none => rfl
      | some nbytes => exact run_storageEnd u isCas nbytes _ _

/-- ... and all of it. -/
theorem run_storage (isCas : Bool) (r : TextRequest) (b : Bytes) :
    (storageScript now isCas r b).run (answer u) = parseStorage now u isCas r b := by
  unfold storageScript parseStorage
  dsimp only
  split_ifs with hb hb'
  · rfl
  · rfl
  · rw [run, answer_flags]
    cases toUint UINT32_MAX u (skip (afterWord (skip b))) with
    | none => rfl
    | some f => exact run_storageSize now u isCas _ _

/-- `parse_touch`. -/
theorem run_touch (r : TextRequest) (b : Bytes) :
    (touchScript now r b).run (answer u) = .done (parseTouch now u r b) := by
  unfold touchScript parseTouch
  dsimp only
  split_ifs with hb hb'
  · rfl
  · rfl
  · rw [run, answer_exptime]
    cases toUint TIME_MAX u (skip (afterWord (skip b))) <;> rfl

/-- `parse_incdec`. -/
theorem run_incdec (r : TextRequest) (b : Bytes) :
    (incdecScript r b).run (answer u) = .done (parseIncdec u r b) := by
  unfold incdecScript parseIncdec
  dsimp only
  split_ifs with hb hb'
  · rfl
  · rfl
  · rw [run, answer_delta]
    cases toUint UINT64_MAX u (skip (afterWord (skip b))) <;> rfl

/-- `parse_flushall`. -/
theorem run_flushall (r : TextRequest) (b : Bytes) :
    (flushallScript now r b).run (answer u) = .done (parseFlushall now u r b) := by
  unfold flushallScript parseFlushall
  dsimp only
  split_ifs with hb hd
  · rfl
  · rw [run, answer_delay]
    cases toUint TIME_MAX u (skip b) <;> rfl
  · rfl

/-- Every command. -/
theorem run_command (c : TextCommand) (b : Bytes) :
    (commandScript now c b).run (answer u) = parseCommand now u c b := by
  cases c
  case PREPEND | REPLACE | APPEND | SET | ADD => exact run_storage now u false _ b
  case CAS => exact run_storage now u true _ b
  case TOUCH => exact run_touch now u _ b
  case INCR | DECR => exact run_incdec u _ b
  case FLUSH_ALL => exact run_flushall now u _ b
  all_goals rfl

/-- **The script is the parser.** -/
theorem run_lineScript (line : Bytes) : (lineScript now line).run (answer u) = parseLine now u line := by
  unfold lineScript parseLine
  split_ifs
  · rfl
  · exact run_command now u _ _

end

/-- The end of `parse`: the request of a line that has been read, and its length. -/
def ofLine (line rest : Bytes) : Header → Nat × TextRequest
  | .done r => (line.length, r)
  | .data r nbytes =>
    if rest.length < nbytes + 2 then (0, r) else (line.length + nbytes + 2, checkData r nbytes rest)

/-- **The parser** runs the script of the first line, on the memory behind the line. -/
theorem parse_eq_ofLine (now : Int) (u : Around) {p line rest : Bytes} (h : splitLine p = some (line, rest)) :
    parse now u p = ofLine line rest ((lineScript now line).run (answer ⟨rest ++ u.after, u.erange⟩)) := by
  rw [run_lineScript]
  unfold parse
  rw [h]
  dsimp only
  cases parseLine now ⟨rest ++ u.after, u.erange⟩ line <;> rfl

/-- A condition on the line and what follows it. -/
theorem exists_line_iff {p line rest : Bytes} (hp : splitLine p = some (line, rest))
    {P : Bytes → Bytes → Prop} :
    (∃ line' rest', splitLine p = some (line', rest') ∧ P line' rest') ↔ P line rest := by
  refine ⟨?_, fun h => ⟨line, rest, hp, h⟩⟩
  rintro ⟨line', rest', hp', h⟩
  rw [hp] at hp'
  cases hp'
  exact h

/-! ## What the queries lead to -/

/-- The request carries the value `v` in this field.  The number of data bytes is not in the request. -/
def Field.Carries (now : Int) (r : TextRequest) (v : Nat) : Field → Prop
  | .flags => r.flags = UInt32.ofNat v
  | .exptime => r.exptime = if v ≠ 0 then expireAt now v else 0
  | .bytes => True
  | .casUnique => r.casUnique = UInt64.ofNat v
  | .delta => r.value = UInt64.ofNat v
  | .delay => r.exptime = expireAt now v

/-- The fields of two requests are the same. -/
structure SameNumbers (r r' : TextRequest) : Prop where
  flags : r'.flags = r.flags
  exptime : r'.exptime = r.exptime
  casUnique : r'.casUnique = r.casUnique
  value : r'.value = r.value

/-- A field that carries a number still does. -/
theorem SameNumbers.carries {now : Int} {r r' : TextRequest} (h : SameNumbers r r') {v : Nat} {f : Field}
    (hf : f.Carries now r v) : f.Carries now r' v := by
  cases f with
  | flags => exact h.flags.trans hf
  | exptime => exact h.exptime.trans hf
  | bytes => trivial
  | casUnique => exact h.casUnique.trans hf
  | delta => exact h.value.trans hf
  | delay => exact h.exptime.trans hf

/-- `noreply` is no number. -/
theorem parseNoReply_same (r : TextRequest) (b : Bytes) : SameNumbers r (parseNoReply r b).1 := by
  unfold parseNoReply
  dsimp only
  split_ifs <;> exact ⟨rfl, rfl, rfl, rfl⟩

/-- The end of a line changes no number. -/
theorem finish_same (r : TextRequest) (b : Bytes) : SameNumbers r (finish r b) := by
  have h := parseNoReply_same r b
  unfold finish
  dsimp only
  split_ifs
  · exact ⟨h.flags, h.exptime, h.casUnique, h.value⟩
  · exact h

/-- The data changes no number. -/
theorem checkData_same (r : TextRequest) (n : Nat) (rest : Bytes) : SameNumbers r (checkData r n rest) := by
  unfold checkData
  split_ifs <;> exact ⟨rfl, rfl, rfl, rfl⟩

/-- What is done with a header changes no number of it. -/
theorem ofLine_same (line rest : Bytes) (h : Header) : SameNumbers h.request (ofLine line rest h).2 := by
  cases h with
  | done r => exact ⟨rfl, rfl, rfl, rfl⟩
  | data r n =>
    unfold ofLine
    dsimp only
    split_ifs
    · exact ⟨rfl, rfl, rfl, rfl⟩
    · exact checkData_same r n rest

/-- Neither does the end of a storage line. -/
theorem storageEnding_same (n : Nat) (r : TextRequest) (b : Bytes) :
    SameNumbers r (storageEnding n r b).request := by
  have h := parseNoReply_same r b
  unfold storageEnding
  split <;> (next heq => rw [heq] at h; exact h)

/-- A query with what it leads to.  A field that cannot be read is not in the request; one that has been
    read stays there.  `flush_all` reads a time only where a digit stands. -/
structure Node (now : Int) (isCas : Bool) (q : Query) (fail : Header) (k : Nat → Script Query Nat Header) :
    Prop where
  fails : ∃ r, fail = .done r ∧ q.1.Carries now r 0
  carries : ∀ v, (k v).Every fun h => q.1.Carries now h.request v
  bytes : q.1 = .bytes → ∃ r, fail = .done r ∧ r.casUnique = 0 ∧
    ∀ v, k v = storageEndScript isCas v r (afterWord q.2)
  delay : q.1 = .delay → isDigit (q.2.headD 0) = true

/-- ... of a field that goes into the request. -/
theorem Node.of_carried {now : Int} {isCas : Bool} {f : Field} {b : Bytes} {r : TextRequest}
    {k : Nat → Script Query Nat Header} (hf : f ≠ .bytes ∧ f ≠ .delay) (hr : f.Carries now r 0)
    (hk : ∀ v, (k v).Every fun h => f.Carries now h.request v) : Node now isCas (f, b) (.done r) k :=
  ⟨⟨r, rfl, hr⟩, hk, fun h => absurd h hf.1, fun h => absurd h hf.2⟩

section

variable {now : Int} {isCas : Bool} {r : TextRequest} {b : Bytes}

/-- Behind the number of bytes, flags and time stay. -/
theorem storageEnd_every (n : Nat) : (storageEndScript isCas n r b).Every fun h =>
    h.request.flags = r.flags ∧ h.request.exptime = r.exptime := by
  unfold storageEndScript
  dsimp only
  split_ifs
  · exact ⟨rfl, rfl⟩
  · refine ⟨⟨rfl, rfl⟩, fun c => ?_⟩
    have h := storageEnding_same n { r with casUnique := UInt64.ofNat c } (afterWord (skip b))
    exact ⟨h.flags, h.exptime⟩
  · have h := storageEnding_same n r b
    exact ⟨h.flags, h.exptime⟩

/-- Behind the flags, they stay. -/
theorem storageSize_every : (storageSizeScript now isCas r b).Every fun h =>
    h.request.flags = r.flags := by
  have hflags : ∀ t, (if t ≠ 0 then { r with exptime := expireAt now t } else r).flags = r.flags := by
    intro t
    split_ifs <;> rfl
  unfold storageSizeScript
  dsimp only
  split_ifs
  · rfl
  · exact ⟨rfl, fun t => hflags t⟩
  · exact ⟨rfl, fun t => ⟨hflags t, fun n => (storageEnd_every n).imp fun _ h => h.1.trans (hflags t)⟩⟩

/-- The number that `cas` reads is put into its field, and none where it fails. -/
theorem storageEnd_nodes (n : Nat) (hr : r.casUnique = 0) :
    (storageEndScript isCas n r b).Nodes (Node now isCas) := by
  unfold storageEndScript
  dsimp only
  split_ifs
  · trivial
  · refine ⟨.of_carried (by decide) hr fun v => ?_, fun _ => trivial⟩
    exact (storageEnding_same n { r with casUnique := UInt64.ofNat v } (afterWord (skip b))).casUnique
  · trivial

/-- The time, and the numbers behind it. -/
theorem storageSize_nodes (hr : r.casUnique = 0) (ht : r.exptime = 0) :
    (storageSizeScript now isCas r b).Nodes (Node now isCas) := by
  have hcas : ∀ t, (if t ≠ 0 then { r with exptime := expireAt now t } else r).casUnique = 0 := by
    intro t
    split_ifs <;> exact hr
  have hexp : ∀ t, (if t ≠ 0 then { r with exptime := expireAt now t } else r).exptime
      = if t ≠ 0 then expireAt now t else 0 := by
    intro t
    split_ifs
    · rfl
    · exact ht
  unfold storageSizeScript
  dsimp only
  split_ifs
  · trivial
  · exact ⟨.of_carried (by decide) ht hexp, fun _ => trivial⟩
  · refine ⟨.of_carried (by decide) ht fun t => ⟨hexp t, fun n => ?_⟩, fun t => ⟨⟨⟨_, rfl, trivial⟩,
      fun v => ?_, fun _ => ⟨_, rfl, hcas t, fun _ => rfl⟩, ?_⟩, fun n => storageEnd_nodes n (hcas t)⟩⟩
    · exact (storageEnd_every n).imp fun _ h => h.2.trans (hexp t)
    · exact (storageEnd_every v).imp fun _ _ => trivial
    · intro h
      cases h

/-- The flags, and the numbers behind them. -/
theorem storage_nodes (hf : r.flags = 0) (hr : r.casUnique = 0) (ht : r.exptime = 0) :
    (storageScript now isCas r b).Nodes (Node now isCas) := by
  unfold storageScript
  dsimp only
  split_ifs
  · trivial
  · trivial
  · refine ⟨.of_carried (by decide) hf fun v => ?_, fun _ => storageSize_nodes hr ht⟩
    refine Every.imp (fun _ h => ?_) storageSize_every
    exact h

/-- The time of a touch. -/
theorem touch_nodes (ht : r.exptime = 0) : (touchScript now r b).Nodes (Node now isCas) := by
  unfold touchScript
  dsimp only
  split_ifs
  · trivial
  · trivial
  · refine ⟨.of_carried (by decide) ht fun v => ?_, fun _ => trivial⟩
    refine (finish_same _ _).exptime.trans ?_
    split_ifs
    · rfl
    · exact ht

/-- The amount of incr and decr. -/
theorem incdec_nodes (hv : r.value = 0) : (incdecScript r b).Nodes (Node now isCas) := by
  unfold incdecScript
  dsimp only
  split_ifs
  · trivial
  · trivial
  · exact ⟨.of_carried (by decide) hv fun _ => (finish_same _ _).value, fun _ => trivial⟩

/-- The time of `flush_all`. -/
theorem flushall_nodes : (flushallScript now r b).Nodes (Node now isCas) := by
  unfold flushallScript
  dsimp only
  split_ifs with hb hd
  · trivial
  · refine ⟨⟨⟨_, rfl, (Int.add_zero now).symm⟩, fun _ => (finish_same _ _).exptime, ?_, fun _ => hd⟩,
      fun _ => trivial⟩
    intro h
    cases h
  · trivial

end

/-- **Every number a command reads** is put into its field. -/
theorem command_nodes (now : Int) (c : TextCommand) (b : Bytes) :
    (commandScript now c b).Nodes (Node now (c = .CAS)) := by
  cases c
  case PREPEND | REPLACE | APPEND | SET | ADD => exact storage_nodes rfl rfl rfl
  case CAS => exact storage_nodes rfl rfl rfl
  case TOUCH => exact touch_nodes rfl
  case INCR | DECR => exact incdec_nodes rfl
  case FLUSH_ALL => exact flushall_nodes
  all_goals trivial

/-- **What the queries of a line lead to.** -/
theorem lineScript_nodes (now : Int) (line : Bytes) :
    (lineScript now line).Nodes (Node now (lineCommand line = .CAS)) := by
  unfold lineScript
  split_ifs
  · trivial
  · exact command_nodes now _ _

end TextRequest

end Yrmcds.Memcache
