/-
  `errno` and the text parser (src/memcache/memcache.cpp, `to_uint`).

  `strtoull` reports overflow in `errno`, and does not clear it otherwise.  `to_uint` does not clear it
  either before the call, so its test for overflow,

      i == ULLONG_MAX && errno == ERANGE,

  is about ANY number this thread has ever read.  Here `errno` is a state that is handed from read to
  read and from request to request (`parseErrno`, `errnoAfter`).  A read that overflows fails and ends the
  request, so within a request the state does not change before the end, and `parseErrno` is `parse` with
  the `errno` the request has found (`parseErrno_fst`).

  `history_iff` says who notices: a request with the number 2^64 - 1 in a 64-bit field, after any request
  with a number that is out of range.
-/
import Yrmcds.Memcache.Numbers

namespace Yrmcds.Memcache

namespace TextRequest

open Script

/-! ## The state -/

/-- `to_uint` with the `errno` it finds and leaves; `true` is `ERANGE`. -/
def toUintErrno (max : Nat) (after : Bytes) (b : Bytes) (errno : Bool) : Option Nat × Bool :=
  match strtoull (b ++ CR :: LF :: after) with
  | none => (none, errno)
  | some (i, overflow, rest) => (accept max (errno || overflow) i overflow rest, errno || overflow)

/-- `text_request::parse` with the `errno` it finds and leaves. -/
def parseErrno (now : Int) (after p : Bytes) (errno : Bool) : (Nat × TextRequest) × Bool :=
  match splitLine p with
  | none => ((0, {}), errno)
  | some (line, rest) =>
    let x := (lineScript now line).runState
      (fun errno q => toUintErrno q.1.max (rest ++ after) q.2 errno) errno
    (ofLine line rest x.1, x.2)

/-- A call of the parser: the time, the bytes, and the memory behind them. -/
structure ParseCall where
  now : Int
  bytes : Bytes
  after : Bytes

/-- The `errno` of a thread that has made these calls, the first of them with `errno` 0. -/
def errnoAfter (history : List ParseCall) : Bool :=
  history.foldl (fun errno c => (parseErrno c.now c.after c.bytes errno).2) false

/-! ## Within a request -/

/-- The field is out of range. -/
def overflows (after : Bytes) (q : Query) : Bool :=
  match strtoull (q.2 ++ CR :: LF :: after) with
  | none => false
  | some (_, overflow, _) => overflow

theorem toUintErrno_eq (after : Bytes) (errno : Bool) (q : Query) :
    toUintErrno q.1.max after q.2 errno = (answer ⟨after, errno⟩ q, errno || overflows after q) := by
  unfold toUintErrno answer toUint overflows
  cases strtoull (q.2 ++ CR :: LF :: after) with
  | none => rw [Bool.or_false]
  | some x =>
    obtain ⟨i, overflow, rest⟩ := x
    cases overflow <;> cases errno <;> rfl

/-- What is out of range is not read. -/
theorem answer_of_overflows {after : Bytes} {q : Query} (h : overflows after q = true) (errno : Bool) :
    answer ⟨after, errno⟩ q = none := by
  unfold overflows at h
  unfold answer toUint
  cases hs : strtoull (q.2 ++ CR :: LF :: after) with
  | none => rfl
  | some x =>
    obtain ⟨i, overflow, rest⟩ := x
    rw [hs] at h
    dsimp only at h ⊢
    rw [h] at hs ⊢
    rcases strtoull_some hs with ⟨-, hi⟩ | ⟨hno, -⟩
    · exact if_pos ⟨hi, rfl⟩
    · cases hno

/-- **Within a request `errno` does not matter.** -/
theorem parseErrno_fst (now : Int) (after p : Bytes) (errno : Bool) :
    (parseErrno now after p errno).1 = parse now ⟨after, errno⟩ p := by
  unfold parseErrno
  cases hp : splitLine p with
  | none =>
    unfold parse
    rw [hp]
  | some x =>
    obtain ⟨line, rest⟩ := x
    rw [parse_eq_ofLine now _ hp]
    dsimp only
    rw [runState_fst]
    · congr 2
      funext q
      rw [toUintErrno_eq]
    · intro e q v hv
      rw [toUintErrno_eq] at hv ⊢
      cases ho : overflows (rest ++ after) q with
      | false => exact Bool.or_false e
      | true =>
        rw [answer_of_overflows ho] at hv
        cases hv

/-- A number of the request is out of range, among those the parser gets to. -/
def ParseCall.Overflows (c : ParseCall) : Prop :=
  ∃ line rest, splitLine c.bytes = some (line, rest) ∧
    ∃ q ∈ (lineScript c.now line).asked (answer ⟨rest ++ c.after, false⟩),
      overflows (rest ++ c.after) q = true

theorem parseErrno_snd (c : ParseCall) (errno : Bool) :
    (parseErrno c.now c.after c.bytes errno).2 = true ↔ errno = true ∨ c.Overflows := by
  cases hp : splitLine c.bytes with
  | none =>
    unfold parseErrno ParseCall.Overflows
    rw [hp]
    refine ⟨.inl, ?_⟩
    rintro (h | ⟨_, _, h, _⟩)
    · exact h
    · cases h
  | some x =>
    obtain ⟨line, rest⟩ := x
    have hread : (fun errno (q : Query) => toUintErrno q.1.max (rest ++ c.after) q.2 errno)
        = fun errno q => (answer ⟨rest ++ c.after, errno⟩ q, errno || overflows (rest ++ c.after) q) :=
      funext fun e => funext fun q => toUintErrno_eq (rest ++ c.after) e q
    unfold ParseCall.Overflows
    rw [exists_line_iff hp]
    unfold parseErrno
    rw [hp]
    dsimp only
    rw [hread, runState_flag fun e q h => answer_of_overflows h e, ← List.any_eq_true]
    cases errno with
    | true => exact iff_of_true rfl (.inl rfl)
    | false => exact ⟨.inr, fun h => h.resolve_left (by decide)⟩

/-- `errno` remembers. -/
theorem errnoAfter_iff (history : List ParseCall) :
    errnoAfter history = true ↔ ∃ c ∈ history, c.Overflows := by
  have hfold : ∀ errno, history.foldl (fun errno c => (parseErrno c.now c.after c.bytes errno).2) errno = true
      ↔ errno = true ∨ ∃ c ∈ history, c.Overflows := by
    induction history with
    | nil => simp
    | cons c history ih =>
      intro errno
      rw [List.foldl_cons, ih, parseErrno_snd, List.exists_mem_cons_iff, or_assoc]
  unfold errnoAfter
  rw [hfold]
  exact ⟨fun h => h.resolve_left (by decide), .inr⟩

/-! ## Across requests -/

/-- One of the numbers of the request is the largest one of 64 bits. -/
def ReadsLargest (now : Int) (after p : Bytes) : Prop :=
  ∃ line rest, splitLine p = some (line, rest) ∧
    ∃ q ∈ (lineScript now line).asked (answer ⟨rest ++ after, false⟩),
      answer ⟨rest ++ after, false⟩ q = some UINT64_MAX

theorem accept_value {max i j : Nat} {erange overflow : Bool} {rest : Bytes}
    (h : accept max erange i overflow rest = some j) : j = i := by
  unfold accept at h
  dsimp only at h
  split_ifs at h
  exact (Option.some.inj h).symm

theorem accept_erange (max i : Nat) (overflow : Bool) (rest : Bytes) :
    accept max true i overflow rest
      = if accept max false i overflow rest = some UINT64_MAX then none
        else accept max false i overflow rest := by
  by_cases hi : i = 2 ^ 64 - 1
  · have htrue : accept max true i overflow rest = none := if_pos ⟨hi, Bool.or_true _⟩
    rw [htrue]
    cases hf : accept max false i overflow rest with
    | none => rfl
    | some j => rw [if_pos (by rw [accept_value hf, hi]; rfl)]
  · have hno : ∀ erange, ¬ (i = 2 ^ 64 - 1 ∧ (overflow || erange) = true) := fun _ h => hi h.1
    have hsame : accept max true i overflow rest = accept max false i overflow rest := by
      unfold accept
      rw [if_neg (hno true), if_neg (hno false)]
    have hne : ¬ accept max false i overflow rest = some UINT64_MAX := fun h => hi (accept_value h).symm
    rw [hsame, if_neg hne]

/-- With `ERANGE` in `errno` all is read as before, but this number. -/
theorem answer_erange (after : Bytes) (q : Query) :
    answer ⟨after, true⟩ q
      = if answer ⟨after, false⟩ q = some UINT64_MAX then none else answer ⟨after, false⟩ q := by
  unfold answer toUint
  cases strtoull (q.2 ++ CR :: LF :: after) with
  | none => rfl
  | some x => exact accept_erange _ _ _ _

/-- Only two fields are as large. -/
theorem field_of_largest {u : Around} {q : Query} (h : answer u q = some UINT64_MAX) :
    q.1 = .casUnique ∨ q.1 = .delta := by
  obtain ⟨-, -, hle, -⟩ := toUint_some h
  obtain ⟨f, b⟩ := q
  cases f with
  | casUnique => exact .inl rfl
  | delta => exact .inr rfl
  | flags | bytes | exptime | delay => exact absurd hle (by dsimp only [Field.max]; decide)

/-- The number is in the request, or it is not. -/
theorem not_carries_both {now : Int} {f : Field} (hf : f = .casUnique ∨ f = .delta) {r : TextRequest}
    (h0 : f.Carries now r 0) : ¬ f.Carries now r UINT64_MAX := by
  intro h
  rcases hf with rfl | rfl
  · exact absurd (Eq.trans (Eq.symm h0) h : UInt64.ofNat 0 = UInt64.ofNat UINT64_MAX) (by decide)
  · exact absurd (Eq.trans (Eq.symm h0) h : UInt64.ofNat 0 = UInt64.ofNat UINT64_MAX) (by decide)

theorem parse_erange_iff (now : Int) (after p : Bytes) :
    parse now ⟨after, true⟩ p = parse now ⟨after, false⟩ p ↔ ¬ ReadsLargest now after p := by
  cases hp : splitLine p with
  | none =>
    unfold parse ReadsLargest
    rw [hp]
    refine iff_of_true rfl ?_
    rintro ⟨_, _, h, _⟩
    cases h
  | some x =>
    obtain ⟨line, rest⟩ := x
    unfold ReadsLargest
    rw [exists_line_iff hp, parse_eq_ofLine now _ hp, parse_eq_ofLine now _ hp]
    dsimp only
    generalize rest ++ after = a
    -- up to the first such number the two runs are one
    obtain ⟨stop, hstop⟩ : ∃ stop : Query → Bool,
      stop = fun q => decide (answer ⟨a, false⟩ q = some UINT64_MAX) := ⟨_, rfl⟩
    have hagree : ∀ q, stop q = false → answer ⟨a, true⟩ q = answer ⟨a, false⟩ q := by
      intro q hq
      rw [hstop, decide_eq_false_iff_not] at hq
      rw [answer_erange, if_neg hq]
    have hsame : ∀ q, stop q = false → answer ⟨a, false⟩ q = answer ⟨a, false⟩ q := fun _ _ => rfl
    rw [← run_resume hagree, ← run_resume hsame]
    cases hres : (lineScript now line).resume (answer ⟨a, false⟩) stop with
    | ret h =>
      refine iff_of_true rfl ?_
      rintro ⟨q, hq, hlargest⟩
      have hno := resume_ret hres q hq
      rw [hstop, decide_eq_false_iff_not] at hno
      exact hno hlargest
    | read q fail k =>
      obtain ⟨hq, hmem, hnode⟩ := resume_read (lineScript_nodes now line) hres
      rw [hstop, decide_eq_true_eq] at hq
      refine iff_of_false ?_ (not_not.mpr ⟨q, hmem, hq⟩)
      obtain ⟨r, rfl, h0⟩ := hnode.fails
      have hmax := run_every (hnode.carries UINT64_MAX) (answer ⟨a, false⟩)
      rw [run, run, answer_erange, if_pos hq, hq]
      intro heq
      have hsame := ofLine_same line rest ((k UINT64_MAX).run (answer ⟨a, false⟩))
      rw [← congrArg Prod.snd heq] at hsame
      exact not_carries_both (field_of_largest hq) h0 (hsame.carries hmax)

/-- **A text request does not depend on the requests before it**, unless it has the number 2^64 - 1 and one
    of them a number out of range. -/
theorem history_iff (history : List ParseCall) (now : Int) (after p : Bytes) :
    (parseErrno now after p (errnoAfter history)).1 = (parseErrno now after p false).1
      ↔ ¬ ((∃ c ∈ history, c.Overflows) ∧ ReadsLargest now after p) := by
  rw [parseErrno_fst, parseErrno_fst, ← errnoAfter_iff]
  cases errnoAfter history with
  | false => exact iff_of_true rfl fun h => absurd h.1 (by decide)
  | true =>
    rw [parse_erange_iff]
    exact not_congr ⟨fun h => ⟨rfl, h⟩, fun h => h.2⟩

/-- A request with flags out of range, from any client; it is refused. -/
def flagsOutOfRange : ParseCall := ⟨100, ascii "set x 99999999999999999999 0 1\r\n", []⟩

/-- After it an increment by 2^64 - 1 is refused as well. -/
theorem largest_refused_after_overflow :
    errnoAfter [flagsOutOfRange] = true ∧
    ((parseErrno 100 [] (ascii "incr x 18446744073709551615\r\n") (errnoAfter [flagsOutOfRange])).1.1,
      (parseErrno 100 [] (ascii "incr x 18446744073709551615\r\n") (errnoAfter [flagsOutOfRange])).1.2.valid)
      = (29, false) ∧
    ((parseErrno 100 [] (ascii "incr x 18446744073709551615\r\n") false).1.1,
      (parseErrno 100 [] (ascii "incr x 18446744073709551615\r\n") false).1.2.valid,
      (parseErrno 100 [] (ascii "incr x 18446744073709551615\r\n") false).1.2.value)
      = (29, true, 18446744073709551615) := by
  decide +kernel

end TextRequest

end Yrmcds.Memcache
