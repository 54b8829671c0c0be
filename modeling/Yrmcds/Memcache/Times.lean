/-
  Times in the two protocols (src/memcache/memcache.cpp).

  A client sends a time as a decimal number or as 32 bits: small numbers count from now, large ones are
  dates.  Four functions decode it — `parse_storage`, `parse_touch`, `parse_flushall` and
  `binary_exptime` — and each has its own idea of 0.  For an object 0 is "never", in both protocols.  For
  a flush the text protocol takes 0 as "now", and the binary one stores 0, which is "no flush": a Flush
  with the time 0 is answered with success and does nothing.  `times_agree_iff` says that this is the
  only difference.

  The requests are taken from the bytes to the store: a text request as a client writes it (with any
  spaces), a binary one as a `Frame`, both parsed and executed on one map and one session.
-/
import Yrmcds.Memcache.Framing
import Yrmcds.Memcache.RoundTrip
import Yrmcds.Memcache.Pairs

namespace Yrmcds.Memcache

open TextRequest

/-! ## Requests with a time -/

namespace TextRequest

theorem finish_ending (r : TextRequest) (hr : r.noReply = false) (noReply : Bool) (g g' : Nat) :
    finish r (ending noReply g g') = { r with noReply := noReply, valid := true } := by
  unfold finish
  rw [parseNoReply_ending r hr]
  rfl

/-- A line that is a whole request. -/
theorem parse_crlf {now : Int} {u : Around} {l : Bytes} {r : TextRequest} (hlf : LF ∉ l)
    (h : ∀ u, parseLine now u (l ++ [CR, LF]) = .done r) (rest : Bytes) :
    parse now u (l ++ [CR, LF] ++ rest) = ((l ++ [CR, LF]).length, r) := by
  unfold parse
  rw [splitLine_crlf hlf]
  dsimp only
  rw [h]

end TextRequest

/-- `touch`, as a client writes it. -/
structure TouchRequest where
  key : Key
  time : Nat
  noReply : Bool
  gap : Nat → Nat
  key_ne : key ≠ []
  key_bytes : SP ∉ key ∧ CR ∉ key ∧ LF ∉ key
  time_lt : time < 2 ^ 63

namespace TouchRequest

variable (q : TouchRequest)

/-- The line, without CR LF. -/
def line : Bytes :=
  sp (q.gap 0) ++ (ascii "touch" ++ (sp (q.gap 1 + 1) ++ (q.key ++ (sp (q.gap 2 + 1) ++
    (decimal q.time ++ ending q.noReply (q.gap 3) (q.gap 4))))))

/-- The bytes of the request. -/
def render : Bytes := q.line ++ [CR, LF]

/-- What the parser is to make of it. -/
def request (now : Int) : TextRequest where
  command := .TOUCH
  valid := true
  noReply := q.noReply
  key := q.key
  exptime := if q.time ≠ 0 then expireAt now q.time else 0

theorem lf_not_mem_line : LF ∉ q.line := by
  unfold line
  simp only [List.mem_append, not_or]
  exact ⟨lf_not_mem_sp _, by decide, lf_not_mem_sp _, q.key_bytes.2.2, lf_not_mem_sp _,
    lf_not_mem_decimal _, lf_not_mem_ending _ _ _⟩

theorem parseLine_line (now : Int) (u : Around) :
    parseLine now u (q.line ++ [CR, LF]) = .done (q.request now) := by
  obtain ⟨hskip, -, hword, hafter⟩ := field_append (w := ascii "touch")
    (t := sp (q.gap 1 + 1) ++ (q.key ++ (sp (q.gap 2 + 1) ++
      (decimal q.time ++ ending q.noReply (q.gap 3) (q.gap 4))))) (by decide) (by decide) rfl (q.gap 0)
  obtain ⟨hskip1, hne1, hword1, hafter1⟩ := field_append (t := sp (q.gap 2 + 1) ++
      (decimal q.time ++ ending q.noReply (q.gap 3) (q.gap 4))) q.key_ne q.key_bytes.1 rfl (q.gap 1 + 1)
  obtain ⟨hskip2, hne2, htime, hafter2⟩ := number_append TIME_MAX (Nat.le_sub_one_of_lt q.time_lt)
    (q.time_lt.trans (by decide)) u (q.gap 2 + 1) (headD_ending q.noReply (q.gap 3) (q.gap 4))
  have hgap : sp (q.gap 2 + 1) ++ (decimal q.time ++ ending q.noReply (q.gap 3) (q.gap 4)) ≠ [] :=
    List.cons_ne_nil _ _
  rw [parseLine_crlf, line, hskip, hword, hafter, show commandOf (ascii "touch") = .TOUCH by decide]
  unfold parseCommand parseTouch
  simp only [hskip1, hne1, hword1, hafter1, hgap, or_self, if_false, hskip2, hne2, htime, hafter2]
  rw [finish_ending _ (by split_ifs <;> rfl)]
  unfold request
  by_cases h0 : q.time ≠ 0
  · rw [if_pos h0, if_pos h0]
  · rw [if_neg h0, if_neg h0]

theorem parse_render (now : Int) (u : Around) (rest : Bytes) :
    parse now u (q.render ++ rest) = (q.render.length, q.request now) :=
  parse_crlf q.lf_not_mem_line (q.parseLine_line now) rest

end TouchRequest

/-- `flush_all` with a time. -/
structure FlushRequest where
  time : Nat
  noReply : Bool
  gap : Nat → Nat
  time_lt : time < 2 ^ 63

namespace FlushRequest

variable (q : FlushRequest)

/-- The line, without CR LF. -/
def line : Bytes :=
  sp (q.gap 0) ++ (ascii "flush_all" ++ (sp (q.gap 1 + 1) ++
    (decimal q.time ++ ending q.noReply (q.gap 2) (q.gap 3))))

/-- The bytes of the request. -/
def render : Bytes := q.line ++ [CR, LF]

/-- What the parser is to make of it: 0 is "now". -/
def request (now : Int) : TextRequest where
  command := .FLUSH_ALL
  valid := true
  noReply := q.noReply
  exptime := expireAt now q.time

theorem lf_not_mem_line : LF ∉ q.line := by
  unfold line
  simp only [List.mem_append, not_or]
  exact ⟨lf_not_mem_sp _, by decide, lf_not_mem_sp _, lf_not_mem_decimal _, lf_not_mem_ending _ _ _⟩

theorem parseLine_line (now : Int) (u : Around) :
    parseLine now u (q.line ++ [CR, LF]) = .done (q.request now) := by
  obtain ⟨hskip, -, hword, hafter⟩ := field_append (w := ascii "flush_all")
    (t := sp (q.gap 1 + 1) ++ (decimal q.time ++ ending q.noReply (q.gap 2) (q.gap 3))) (by decide)
    (by decide) rfl (q.gap 0)
  obtain ⟨hskip1, hne1, htime, hafter1⟩ := number_append TIME_MAX (Nat.le_sub_one_of_lt q.time_lt)
    (q.time_lt.trans (by decide)) u (q.gap 1 + 1) (headD_ending q.noReply (q.gap 2) (q.gap 3))
  have hdigit : isDigit ((decimal q.time ++ ending q.noReply (q.gap 2) (q.gap 3)).headD 0) = true := by
    obtain ⟨d, w, hd⟩ := List.exists_cons_of_ne_nil (decimal_ne_nil q.time)
    rw [hd]
    exact isDigit_of_mem_decimal (hd ▸ List.mem_cons_self)
  rw [parseLine_crlf, line, hskip, hword, hafter,
    show commandOf (ascii "flush_all") = .FLUSH_ALL by decide]
  unfold parseCommand parseFlushall
  simp only [hskip1, hne1, hdigit, if_false, if_true, htime, hafter1]
  rw [finish_ending _ rfl]
  rfl

theorem parse_render (now : Int) (u : Around) (rest : Bytes) :
    parse now u (q.render ++ rest) = (q.render.length, q.request now) :=
  parse_crlf q.lf_not_mem_line (q.parseLine_line now) rest

end FlushRequest

/-! ## One time, decoded twice -/

variable {f : Frame}

section

open BinaryRequest (Frame exptimeOf)

/-- The commands with a time that store data, and their binary forms. -/
def StorageCommand.timed : StorageCommand → Option BinaryCommand
  | set => some .Set
  | add => some .Add
  | replace => some .Replace
  | _ => none

theorem StorageCommand.binary_of_timed {c : StorageCommand} {b : BinaryCommand} (h : c.timed = some b) :
    c.command.binary = some b ∧ c.command ≠ .CAS ∧ c.command ≠ .INCR ∧ c.command ≠ .DECR := by
  cases c <;> cases h <;> exact ⟨rfl, by decide, by decide, by decide⟩

/-- A client's bytes, parsed and executed. -/
def runText (g : Env) (u : Around) (p : Bytes) (m : HashMap Object) (σ : Session) :
    Except Err (HashMap Object × Session) :=
  cmdText g (TextRequest.parse g.now u p).2 m σ

/-- The same for a binary request. -/
def runBinary (g : Env) (p : Bytes) (m : HashMap Object) (σ : Session) :
    Except Err (HashMap Object × Session) :=
  cmdBin g (BinaryRequest.parse g.now p) m σ

/-- An object's time: 0 is "never" in both protocols. -/
theorem exptimeOf_eq (now : Int) {t : UInt32} (ht : t.toNat < 2 ^ 32 - 1) :
    exptimeOf now t = if t.toNat ≠ 0 then expireAt now t.toNat else 0 := by
  unfold exptimeOf expireAt
  by_cases h0 : t.toNat = 0
  · rw [if_pos h0, if_neg (not_not.mpr h0)]
  · rw [if_neg h0, if_pos h0, if_neg (by omega)]

/-- A flush time: 0 is "now" in one of them. -/
theorem expireAt_eq_iff (now : Int) {t : UInt32} (ht : t.toNat < 2 ^ 32 - 1) :
    expireAt now t.toNat = exptimeOf now t ↔ t ≠ 0 ∨ now = 0 := by
  have hzero : t.toNat = 0 ↔ t = 0 := ⟨fun h => UInt32.toNat_inj.mp h, fun h => by rw [h]; rfl⟩
  rw [exptimeOf_eq now ht]
  by_cases h0 : t.toNat = 0
  · have hnow : expireAt now t.toNat = now := by
      rw [h0]
      exact Int.add_zero now
    rw [hnow, if_neg (not_not.mpr h0)]
    exact ⟨.inr, fun h => h.resolve_left (not_not.mpr (hzero.mp h0))⟩
  · rw [if_pos h0]
    exact iff_of_true rfl (.inl (mt hzero.mpr h0))

variable (g : Env) (t : UInt32)

/-- A text storage request and the frame that asks for the same, with the time `t`. -/
structure StoreTwins (q : StorageRequest) (f : Frame) : Prop where
  command : q.command.timed = some f.command
  time : q.time = t.toNat
  extras : f.extras = .store (UInt32.ofNat q.flags) t
  key : f.key = q.key
  data : f.data = q.data
  cas : f.cas = 0

/-- A text touch and its frame. -/
structure TouchTwins (q : TouchRequest) (f : Frame) : Prop where
  command : f.command = .Touch
  time : q.time = t.toNat
  extras : f.extras = .time t
  key : f.key = q.key
  cas : f.cas = 0

/-- `flush_all` and its frame. -/
structure FlushTwins (q : FlushRequest) (f : Frame) : Prop where
  command : f.command = .Flush ∨ f.command = .FlushQ
  time : q.time = t.toNat
  extras : f.extras = .time t

/-- The time `t` means the same in both protocols: to the requests that carry it, whatever else is in
    them; to the store, where all else is the same; and to the flush time. -/
structure TimesAgree : Prop where
  storeTime : ∀ (q : StorageRequest) (f : Frame) (fl : UInt32) (u : Around) (x y : Bytes),
    q.command.timed.isSome → f.command ∈ [.Set, .Add, .Replace] → q.time = t.toNat →
    f.extras = .store fl t → (TextRequest.parse g.now u (q.render ++ x)).2.exptime
      = (BinaryRequest.parse g.now (f.encode ++ y)).exptime
  touchTime : ∀ (q : TouchRequest) (f : Frame) (u : Around) (x y : Bytes), q.time = t.toNat →
    f.command = .Touch → f.extras = .time t → (TextRequest.parse g.now u (q.render ++ x)).2.exptime
      = (BinaryRequest.parse g.now (f.encode ++ y)).exptime
  store : ∀ (q : StorageRequest) (f : Frame), StoreTwins t q f → ∀ (u : Around) (x y : Bytes) m σ,
    Same q.noReply σ (runText g u (q.render ++ x) m σ) (runBinary g (f.encode ++ y) m σ)
  touch : ∀ (q : TouchRequest) (f : Frame), TouchTwins t q f → ∀ (u : Around) (x y : Bytes) m σ,
    Same q.noReply σ (runText g u (q.render ++ x) m σ) (runBinary g (f.encode ++ y) m σ)
  flush : ∀ (q : FlushRequest) (f : Frame), FlushTwins t q f → ∀ (u : Around) (x y : Bytes) m σ,
    ∃ σ1 σ2, runText g u (q.render ++ x) m σ = .ok (m, σ1) ∧
      runBinary g (f.encode ++ y) m σ = .ok (m, σ2) ∧ σ1.flushTime = σ2.flushTime

variable {g t}

/-- What the extras of a frame with a time are read as. -/
theorem exptime_store (now : Int) {fl : UInt32} (h : f.extras = .store fl t) :
    (f.request now).exptime = exptimeOf now t := by
  show f.extras.exptime now f.command = _
  rw [h]
  rfl

theorem exptime_time (now : Int) (h : f.extras = .time t) :
    (f.request now).exptime = exptimeOf now t := by
  show f.extras.exptime now f.command = _
  rw [h]
  rfl

section

variable (ht : t.toNat < 2 ^ 32 - 1)
include ht

/-- The times of a storage request and of a touch, on both sides. -/
theorem storeTime_eq (now : Int) {q : StorageRequest} {fl : UInt32} (hq : q.time = t.toNat)
    (hf : f.extras = .store fl t) : (q.request now).exptime = (f.request now).exptime := by
  rw [exptime_store now hf, exptimeOf_eq now ht, ← hq]
  rfl

theorem touchTime_eq (now : Int) {q : TouchRequest} (hq : q.time = t.toNat)
    (hf : f.extras = .time t) : (q.request now).exptime = (f.request now).exptime := by
  rw [exptime_time now hf, exptimeOf_eq now ht, ← hq]
  rfl

/-- A storage request and its frame are a pair. -/
theorem StoreTwins.pair (now : Int) {q : StorageRequest} (h : StoreTwins t q f) :
    Pair (q.request now) (f.request now) := by
  obtain ⟨hb, hcas, hi, hd⟩ := StorageCommand.binary_of_timed h.command
  have hflags : f.extras.flags = UInt32.ofNat q.flags := by rw [h.extras]; rfl
  have hvalue : f.extras.value = 0 := by rw [h.extras]; rfl
  exact {
    valid := rfl
    status := rfl
    command := hb
    key := h.key
    flags := hflags
    data := h.data
    value := hvalue
    exptime := (storeTime_eq ht now h.time h.extras).symm.trans (if_neg (not_or.mpr ⟨hi, hd⟩)).symm
    cas := h.cas.trans (if_neg hcas).symm
    cas_ne := fun h => absurd h hcas }

theorem TouchTwins.pair (now : Int) {q : TouchRequest} (h : TouchTwins t q f) :
    Pair (q.request now) (f.request now) := by
  have hdata : f.data = [] := by
    have hshape := f.shape
    rw [h.command] at hshape
    exact hshape.2.2
  have hflags : f.extras.flags = 0 := by rw [h.extras]; rfl
  have hvalue : f.extras.value = 0 := by rw [h.extras]; rfl
  exact {
    valid := rfl
    status := rfl
    command := congrArg some h.command.symm
    key := h.key
    flags := hflags
    data := hdata
    value := hvalue
    exptime := (touchTime_eq ht now h.time h.extras).symm
    cas := h.cas
    cas_ne := by
      intro hc
      cases hc }

end

/-- What the flush requests do. -/
theorem runText_flush (q : FlushRequest) (u : Around) (x : Bytes) (m : HashMap Object) (σ : Session) :
    ∃ σ', runText g u (q.render ++ x) m σ = .ok (m, σ') ∧ σ'.flushTime = expireAt g.now q.time := by
  have hto : (q.request g.now).flushTo = some (expireAt g.now q.time) := if_pos ⟨rfl, rfl⟩
  have hrun := cmdText_flush g (q.request g.now) m σ hto
  unfold runText
  rw [q.parse_render]
  exact ⟨_, hrun, (Chat.textUnlessNoReply _ (q.request g.now) .OK).flushTime⟩

theorem runBinary_flush (hc : f.command = .Flush ∨ f.command = .FlushQ) (he : f.extras = .time t)
    (y : Bytes) (m : HashMap Object) (σ : Session) :
    ∃ σ', runBinary g (f.encode ++ y) m σ = .ok (m, σ') ∧ σ'.flushTime = exptimeOf g.now t := by
  have hto : (f.request g.now).flushTo = some (exptimeOf g.now t) := by
    rw [← exptime_time g.now he]
    exact if_pos ⟨rfl, hc⟩
  have hrun := cmdBin_flush g (f.request g.now) m σ hto
  unfold runBinary
  rw [f.parse_encode]
  exact ⟨_, hrun, (Chat.binUnlessQuiet _ (f.request g.now) .success).flushTime⟩

/-- The plainest requests to flush at `t`. -/
def flushAll (t : UInt32) : FlushRequest where
  time := t.toNat
  noReply := false
  gap _ := 0
  time_lt := t.toNat_lt.trans (by decide)

/-- ... and the frame that asks for the same. -/
def flushFrame (t : UInt32) : Frame where
  command := .Flush
  extras := .time t
  key := []
  data := []
  opaqueBytes := [0, 0, 0, 0]
  cas := 0
  extras_lt := by simp
  key_le := nil_le
  data_le := Nat.zero_le _
  opaque_length := rfl
  shape := ⟨.inr ⟨t, rfl⟩, rfl, rfl⟩

theorem flushTwins (t : UInt32) : FlushTwins t (flushAll t) (flushFrame t) := ⟨.inl rfl, rfl, rfl⟩

/-- A touch of "x", and its frame. -/
def touchX (t : UInt32) : TouchRequest where
  time := t.toNat
  key := [120]
  noReply := false
  gap _ := 0
  key_ne := by decide
  key_bytes := by decide
  time_lt := t.toNat_lt.trans (by decide)

@[inherit_doc touchX]
def touchFrame (t : UInt32) : Frame where
  __ := flushFrame t
  command := .Touch
  key := [120]
  key_le := x_le
  shape := ⟨⟨t, rfl⟩, List.cons_ne_nil _ _, rfl⟩

/-- "x" is stored until `t`, by each protocol. -/
def setX (t : UInt32) : StorageRequest where
  __ := touchX t
  command := .set
  flags := 0
  data := [97]
  casUnique := 0
  flags_lt := by decide
  data_lt := by decide
  cas_lt := by decide

@[inherit_doc setX]
def setFrame (t : UInt32) : Frame where
  __ := touchFrame t
  command := .Set
  extras := .store 0 t
  data := [97]
  extras_lt := by simp
  data_le := by decide
  shape := ⟨⟨0, t, rfl⟩, List.cons_ne_nil _ _, List.cons_ne_nil _ _⟩

/-- At every time there are requests of the three kinds, so that no clause of `TimesAgree` is empty. -/
theorem twins (t : UInt32) : StoreTwins t (setX t) (setFrame t) ∧ TouchTwins t (touchX t) (touchFrame t) ∧
    FlushTwins t (flushAll t) (flushFrame t) :=
  ⟨⟨rfl, rfl, rfl, rfl, rfl, rfl⟩, ⟨rfl, rfl, rfl, rfl, rfl⟩, flushTwins t⟩

/-- Requests that agree set the same flush time. -/
theorem TimesAgree.expireAt_eq (h : TimesAgree g t) : expireAt g.now t.toNat = exptimeOf g.now t := by
  obtain ⟨σ1, σ2, h1, h2, heq⟩ := h.flush _ _ (flushTwins t) ⟨[], false⟩ [] [] Server.oneBucket.hash {}
  obtain ⟨σ1', h1', ht1⟩ := runText_flush (g := g) (flushAll t) ⟨[], false⟩ [] Server.oneBucket.hash {}
  obtain ⟨σ2', h2', ht2⟩ := runBinary_flush (g := g) (f := flushFrame t) (.inl rfl) rfl []
    Server.oneBucket.hash {}
  rw [h1'] at h1
  rw [h2'] at h2
  cases h1
  cases h2
  exact ht1.symm.trans (heq.trans ht2)

/-- **Both protocols mean the same with a time, but for a flush at 0.** -/
theorem times_agree_iff (g : Env) (t : UInt32) (ht : t.toNat < 2 ^ 32 - 1) :
    TimesAgree g t ↔ t ≠ 0 ∨ g.now = 0 := by
  rw [← expireAt_eq_iff g.now ht]
  constructor
  · exact TimesAgree.expireAt_eq
  · intro hflush
    refine ⟨?_, ?_, ?_, ?_, ?_⟩
    · intro q f fl u x y _ _ hq hf
      rw [q.parse_render, f.parse_encode]
      exact storeTime_eq ht g.now hq hf
    · intro q f u x y hq _ hf
      rw [q.parse_render, f.parse_encode]
      exact touchTime_eq ht g.now hq hf
    · intro q f h u x y m σ
      unfold runText runBinary
      rw [q.parse_render, f.parse_encode]
      exact exec_same g m σ (h.pair ht g.now) (StorageCommand.binary_of_timed h.command).2.1
    · intro q f h u x y m σ
      unfold runText runBinary
      rw [q.parse_render, f.parse_encode]
      refine exec_same g m σ (h.pair ht g.now) ?_
      show TextCommand.TOUCH ≠ .CAS
      decide
    · intro q f h u x y m σ
      obtain ⟨σ₁, h₁, ht₁⟩ := runText_flush (g := g) q u x m σ
      obtain ⟨σ₂, h₂, ht₂⟩ := runBinary_flush (g := g) h.command h.extras y m σ
      refine ⟨σ₁, σ₂, h₁, h₂, ?_⟩
      rw [ht₁, ht₂, h.time]
      exact hflush

theorem times_agree_minute : TimesAgree ⟨⟨100, 100⟩, 5, 1000⟩ 60 :=
  (times_agree_iff ⟨⟨100, 100⟩, 5, 1000⟩ 60 (by decide)).mpr (.inl (by decide))

/-- At the time 1000 `flush_all 0` flushes; Flush with the time 0 is answered with success and does not. -/
theorem flush_zero_differs :
    ¬ TimesAgree ⟨⟨100, 100⟩, 5, 1000⟩ 0 ∧
    ((runText ⟨⟨100, 100⟩, 5, 1000⟩ ⟨[], false⟩ (ascii "flush_all 0\r\n") Server.oneBucket.hash {}).map
      fun r => r.2.flushTime) = .ok 1000 ∧
    ((runBinary ⟨⟨100, 100⟩, 5, 1000⟩ (flushFrame 0).encode Server.oneBucket.hash {}).map
      fun r => (r.2.flushTime, r.2.out)) = .ok (0, [.binary ⟨0x08, [0, 0, 0, 0], .success⟩]) := by
  refine ⟨fun h => ?_, by rfl, by rfl⟩
  exact absurd h.expireAt_eq (by decide)

end

end Yrmcds.Memcache
