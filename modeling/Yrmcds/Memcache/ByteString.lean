/-
  What an object is for: a byte string with flags, an expiration time and a version.

  Every mutator of `memcache::object` has up to four cases — the data is on the heap or in a temporary
  file, before and after — with `m_length` kept beside the data in each of them.  `Value` is the same object
  without any of that: `Call.bytes` says what a call makes of the byte string, `Call.flags`, `Call.exptime`
  and `Call.counts` what it makes of the rest.

  `Is` says where the byte string has to be: in the file if it is longer than `heap_data_limit`, in the
  buffer otherwise.  The list model of the object keeps it (`Is.set` and so on), and `Stored`, the object
  with its blocks, is that model seen through `view`; so `byte_string_run` holds down to the blocks.

  The limit has to have room for a number: `incr` and `decr` store their result on the heap without a look
  at the limit.
-/
import Yrmcds.Memcache.Stored

namespace Yrmcds.Memcache

open Block

/-- The abstract object. -/
structure Value where
  bytes : Bytes
  flags : UInt32
  exptime : Int
  cas : UInt64
deriving DecidableEq, Repr

/-- The two constructors. -/
inductive Ctor where
  | data (p : Bytes) (flags : UInt32) (exptime : Int)
  | initial (n : UInt64) (exptime : Int)
deriving DecidableEq, Repr

/-- The member functions; `data` brings a buffer of the caller. -/
inductive Call where
  | set (p : Bytes) (flags : UInt32) (exptime : Int)
  | append (p : Bytes)
  | prepend (p : Bytes)
  | incr (n : UInt64)
  | decr (n : UInt64)
  | touch (exptime : Int)
  | data (buf : { d : Dynbuf // d.WF })

/-- What a call returns. -/
inductive Answer where
  | nothing
  | number (n : UInt64)
  | notANumber
  | bytes (p : Bytes)
deriving DecidableEq, Repr

/-! ## The abstract object -/

/-- The number a byte string stands for; one that is in a file is not looked at. -/
def numberOf (limit : Nat) (b : Bytes) : Option UInt64 := if b.length ≤ limit then stoull b else none

namespace Call

/-- `set` replaces, `append` and `prepend` concatenate, `incr` and `decr` count. -/
def bytes (limit : Nat) (b : Bytes) : Call → Bytes
  | .set p _ _ => p
  | .append p => b ++ p
  | .prepend p => p ++ b
  | .incr n => ((numberOf limit b).map fun v => decimal (v + n).toNat).getD b
  | .decr n => ((numberOf limit b).map fun v => decimal (if v < n then 0 else v - n).toNat).getD b
  | .touch _ => b
  | .data _ => b

/-- The flags after a call. -/
def flags (f : UInt32) : Call → UInt32
  | .set _ f' _ => f'
  | _ => f

/-- The expiration time after a call. -/
def exptime (t : Int) : Call → Int
  | .set _ _ t' => t'
  | .touch t' => t'
  | _ => t

/-- The calls that count up the version: every modification that succeeds. -/
def counts (limit : Nat) (b : Bytes) : Call → Bool
  | .set _ _ _ | .append _ | .prepend _ => true
  | .incr _ | .decr _ => (numberOf limit b).isSome
  | .touch _ | .data _ => false

/-- What a call returns. -/
def answer (limit : Nat) (b : Bytes) : Call → Answer
  | .incr n => ((numberOf limit b).map fun v => Answer.number (v + n)).getD .notANumber
  | .decr n => ((numberOf limit b).map fun v => Answer.number (if v < n then 0 else v - n)).getD .notANumber
  | .data _ => .bytes b
  | _ => .nothing

end Call

namespace Value

/-- The value a constructor makes. -/
def start : Ctor → Value
  | .data p f t => ⟨p, f, t, 1⟩
  | .initial n t => ⟨decimal n.toNat, 0, t, 1⟩

/-- A call, on the value. -/
def step (limit : Nat) (v : Value) (c : Call) : Value :=
  ⟨c.bytes limit v.bytes, c.flags v.flags, c.exptime v.exptime,
    if c.counts limit v.bytes then v.cas + 1 else v.cas⟩

/-- The answers to a sequence of calls. -/
def answers (limit : Nat) : Value → List Call → List Answer
  | _, [] => []
  | v, c :: cs => c.answer limit v.bytes :: answers limit (v.step limit c) cs

end Value

/-! ## Where the byte string is -/

/-- The object is the value: its data is in the file above the limit, and on the heap otherwise. -/
structure Object.Is (limit : Nat) (o : Object) (v : Value) : Prop where
  length : o.length = v.bytes.length
  place : if limit < v.bytes.length then o.mfile = some v.bytes ∧ o.mdata = []
    else o.mfile = none ∧ o.mdata = v.bytes
  flags : o.flags = v.flags
  exptime : o.exptime = v.exptime
  cas : o.cas = v.cas

namespace Object.Is

variable {limit : Nat} {o : Object} {v : Value}

theorem file (h : o.Is limit v) (hl : limit < v.bytes.length) : o.mfile = some v.bytes ∧ o.mdata = [] := by
  have := h.place
  rwa [if_pos hl] at this

theorem heap (h : o.Is limit v) (hl : ¬ limit < v.bytes.length) : o.mfile = none ∧ o.mdata = v.bytes := by
  have := h.place
  rwa [if_neg hl] at this

theorem data_eq (h : o.Is limit v) : o.data = v.bytes := by
  unfold Object.data
  by_cases hl : limit < v.bytes.length
  · rw [(h.file hl).1]
    rfl
  · rw [(h.heap hl).1, (h.heap hl).2]
    rfl

theorem new (limit : Nat) (p : Bytes) (f : UInt32) (t : Int) :
    (Object.new limit p f t).Is limit (.start (.data p f t)) := by
  refine ⟨rfl, ?_, rfl, rfl, rfl⟩
  show if limit < p.length then _ else _
  unfold Object.new
  split_ifs with hl <;> exact ⟨rfl, rfl⟩

theorem ofInitial (hl : 24 ≤ limit) (n : UInt64) (t : Int) :
    (Object.ofInitial n t).Is limit (.start (.initial n t)) := by
  have hlen := length_decimal_le n
  refine ⟨rfl, ?_, rfl, rfl, rfl⟩
  show if limit < (decimal n.toNat).length then _ else _
  rw [if_neg (by omega)]
  exact ⟨rfl, rfl⟩

theorem set (h : o.Is limit v) (p : Bytes) (f : UInt32) (t : Int) :
    (o.set limit p f t).Is limit (v.step limit (.set p f t)) := by
  refine ⟨rfl, ?_, rfl, rfl, congrArg (· + 1) h.cas⟩
  show if limit < p.length then _ else _
  unfold Object.set
  split_ifs with hl <;> exact ⟨rfl, rfl⟩

/-- Other data with the same attributes, as a modification leaves it. -/
theorem modify (h : o.Is limit v) {b : Bytes} {o' : Object} (hlen : o'.length = b.length)
    (hflags : o'.flags = o.flags) (hexptime : o'.exptime = o.exptime) (hcas : o'.cas = o.cas + 1)
    (hplace : if limit < b.length then o'.mfile = some b ∧ o'.mdata = []
      else o'.mfile = none ∧ o'.mdata = b) :
    o'.Is limit ⟨b, v.flags, v.exptime, v.cas + 1⟩ :=
  ⟨hlen, hplace, hflags.trans h.flags, hexptime.trans h.exptime, by rw [hcas, h.cas]⟩

/-- On the heap, the first `m_length` bytes are all there are. -/
theorem take_mdata (h : o.Is limit v) (hl : ¬ limit < v.bytes.length) :
    o.mdata.take o.length = v.bytes := by
  rw [(h.heap hl).2, h.length, List.take_length]

theorem append (h : o.Is limit v) (p : Bytes) : (o.append limit p).Is limit (v.step limit (.append p)) := by
  show (o.append limit p).Is limit ⟨v.bytes ++ p, v.flags, v.exptime, v.cas + 1⟩
  have hlen : o.length + p.length = (v.bytes ++ p).length := by rw [h.length, List.length_append]
  unfold Object.append
  by_cases hp : p.length = 0
  · rw [if_pos hp, List.length_eq_zero_iff.mp hp, List.append_nil]
    exact h.modify h.length rfl rfl rfl h.place
  rw [if_neg hp]
  by_cases hnew : o.length + p.length > limit
  · rw [if_pos hnew]
    have hover : limit < (v.bytes ++ p).length := hlen ▸ hnew
    by_cases hl : limit < v.bytes.length
    · -- File stays file.
      rw [(h.file hl).1]
      refine h.modify hlen rfl rfl rfl ?_
      rw [if_pos hover]
      exact ⟨rfl, (h.file hl).2⟩
    · -- Heap to file.
      rw [(h.heap hl).1, h.take_mdata hl]
      refine h.modify hlen rfl rfl rfl ?_
      rw [if_pos hover]
      exact ⟨rfl, rfl⟩
  · -- Heap stays heap.
    rw [if_neg hnew]
    have hunder : ¬ limit < (v.bytes ++ p).length := hlen ▸ hnew
    have hl : ¬ limit < v.bytes.length := by
      rw [List.length_append] at hunder
      omega
    refine h.modify hlen rfl rfl rfl ?_
    rw [if_neg hunder]
    exact ⟨(h.heap hl).1, congrArg (· ++ p) (h.heap hl).2⟩

theorem prepend (h : o.Is limit v) (p : Bytes) :
    (o.prepend limit p).Is limit (v.step limit (.prepend p)) := by
  show (o.prepend limit p).Is limit ⟨p ++ v.bytes, v.flags, v.exptime, v.cas + 1⟩
  have hlen : o.length + p.length = (p ++ v.bytes).length := by
    rw [h.length, List.length_append, Nat.add_comm]
  unfold Object.prepend
  by_cases hp : p.length = 0
  · rw [if_pos hp, List.length_eq_zero_iff.mp hp, List.nil_append]
    exact h.modify h.length rfl rfl rfl h.place
  rw [if_neg hp]
  by_cases hnew : o.length + p.length > limit
  · rw [if_pos hnew]
    have hover : limit < (p ++ v.bytes).length := hlen ▸ hnew
    by_cases hl : limit < v.bytes.length
    · rw [(h.file hl).1]
      refine h.modify hlen rfl rfl rfl ?_
      rw [if_pos hover]
      refine ⟨?_, (h.file hl).2⟩
      dsimp only
      rw [hlen, List.take_length]
    · rw [(h.heap hl).1, h.take_mdata hl]
      refine h.modify hlen rfl rfl rfl ?_
      rw [if_pos hover]
      exact ⟨rfl, rfl⟩
  · rw [if_neg hnew]
    have hunder : ¬ limit < (p ++ v.bytes).length := hlen ▸ hnew
    have hl : ¬ limit < v.bytes.length := by
      rw [List.length_append] at hunder
      omega
    rw [h.take_mdata hl]
    refine h.modify hlen rfl rfl rfl ?_
    rw [if_neg hunder]
    exact ⟨(h.heap hl).1, rfl⟩

/-- `incr` and `decr`: only a number on the heap counts, and the result is stored on the heap. -/
theorem renumber (h : o.Is limit v) (hl : 24 ≤ limit) (f : UInt64 → UInt64) :
    match numberOf limit v.bytes with
    | none => o.renumber f = none
    | some n => ∃ o', o.renumber f = some (f n, o') ∧
        o'.Is limit ⟨decimal (f n).toNat, v.flags, v.exptime, v.cas + 1⟩ := by
  unfold numberOf Object.renumber
  by_cases hover : limit < v.bytes.length
  · rw [if_neg (by omega), (h.file hover).1]
  · rw [if_pos (by omega), (h.heap hover).1, h.take_mdata hover]
    cases hs : stoull v.bytes with
    | none => rfl
    | some n =>
      have hlen := length_decimal_le (f n)
      refine ⟨_, rfl, h.modify rfl rfl rfl rfl ?_⟩
      rw [if_neg (by omega)]
      exact ⟨(h.heap hover).1, rfl⟩

theorem touch (h : o.Is limit v) (t : Int) : (o.touch t).Is limit (v.step limit (.touch t)) :=
  ⟨h.length, h.place, h.flags, rfl, h.cas⟩

end Object.Is

/-! ## The object with its blocks -/

/-- An object in use: the object, the heap it lives on, and the answers so far. -/
structure Life where
  obj : Stored
  heap : Heap
  answers : List Answer

namespace Life

variable {limit : Nat}

/-- A constructor. -/
def start (limit : Nat) (secure : Bool) (h : Heap) : Ctor → Life
  | .data p f t => ⟨(Stored.new limit secure h p f t).1, (Stored.new limit secure h p f t).2, []⟩
  | .initial n t => ⟨(Stored.ofInitial secure h n t).1, (Stored.ofInitial secure h n t).2, []⟩

/-- The result of an `incr` or `decr`. -/
def counted (s : Life) : Option (UInt64 × Stored × Heap) → Life
  | some (n, o, h) => ⟨o, h, s.answers ++ [.number n]⟩
  | none => { s with answers := s.answers ++ [.notANumber] }

/-- A call, on the object in memory. -/
def step (limit : Nat) (s : Life) : Call → Life
  | .set p f t =>
    ⟨(s.obj.set limit s.heap p f t).1, (s.obj.set limit s.heap p f t).2, s.answers ++ [.nothing]⟩
  | .append p => ⟨(s.obj.append limit s.heap p).1, (s.obj.append limit s.heap p).2, s.answers ++ [.nothing]⟩
  | .prepend p =>
    ⟨(s.obj.prepend limit s.heap p).1, (s.obj.prepend limit s.heap p).2, s.answers ++ [.nothing]⟩
  | .incr n => s.counted (s.obj.incr s.heap n)
  | .decr n => s.counted (s.obj.decr s.heap n)
  | .touch t => ⟨s.obj.touch t, s.heap, s.answers ++ [.nothing]⟩
  | .data buf =>
    ⟨s.obj.accessed, (s.obj.data buf s.heap).2, s.answers ++ [.bytes (s.obj.data buf s.heap).1]⟩

/-- Well formed, and the value. -/
structure Is (limit : Nat) (s : Life) (v : Value) : Prop where
  wf : s.obj.WF limit
  view : s.obj.view.Is limit v

variable {s : Life} {v : Value}

theorem start_is (hl : 24 ≤ limit) (secure : Bool) (h : Heap) (c : Ctor) :
    (start limit secure h c).Is limit (.start c) := by
  cases c with
  | data p f t =>
    obtain ⟨hw, hv, -, -⟩ := Stored.new_spec limit secure h p f t
    exact ⟨hw, hv ▸ .new limit p f t⟩
  | initial n t =>
    obtain ⟨hw, hv, -, -⟩ := Stored.ofInitial_spec limit secure h n t
    exact ⟨hw, hv ▸ .ofInitial hl n t⟩

/-- A number that is counted, or not. -/
theorem counted_is (h : s.Is limit v) (hl : 24 ≤ limit) (f : UInt64 → UInt64) :
    (s.counted (s.obj.renumber s.heap f)).Is limit
      (((numberOf limit v.bytes).map fun n =>
        (⟨decimal (f n).toNat, v.flags, v.exptime, v.cas + 1⟩ : Value)).getD v) ∧
    (s.counted (s.obj.renumber s.heap f)).answers
      = s.answers ++ [((numberOf limit v.bytes).map fun n => Answer.number (f n)).getD .notANumber] := by
  have hspec := Stored.renumber_spec h.wf s.heap f
  have habs := h.view.renumber hl f
  cases hn : numberOf limit v.bytes with
  | none =>
    rw [hn] at habs
    rcases hr : s.obj.renumber s.heap f with _ | ⟨n, r⟩
    · exact ⟨⟨h.wf, h.view⟩, rfl⟩
    · rw [hr] at hspec
      obtain ⟨o, ho, -⟩ := hspec
      rw [habs] at ho
      cases ho
  | some n =>
    rw [hn] at habs
    obtain ⟨o, ho, ho'⟩ := habs
    rcases hr : s.obj.renumber s.heap f with _ | ⟨m, r⟩
    · rw [hr, ho] at hspec
      cases hspec
    · rw [hr] at hspec
      obtain ⟨o1, ho1, hd⟩ := hspec
      rw [ho] at ho1
      cases ho1
      exact ⟨⟨hd.wf, hd.view.symm ▸ ho'⟩, rfl⟩

/-- **One call**: the object is the value the call leaves, and answers as it does. -/
theorem step_is (h : s.Is limit v) (hl : 24 ≤ limit) (c : Call) :
    (s.step limit c).Is limit (v.step limit c) ∧
      (s.step limit c).answers = s.answers ++ [c.answer limit v.bytes] := by
  cases c with
  | set p f t =>
    have hd := Stored.set_spec h.wf s.heap p f t
    exact ⟨⟨hd.wf, hd.view.symm ▸ h.view.set p f t⟩, rfl⟩
  | append p =>
    have hd := Stored.append_spec h.wf s.heap p
    exact ⟨⟨hd.wf, hd.view.symm ▸ h.view.append p⟩, rfl⟩
  | prepend p =>
    have hd := Stored.prepend_shows h.wf s.heap p
    exact ⟨⟨hd.wf, hd.view.symm ▸ h.view.prepend p⟩, rfl⟩
  | incr n =>
    obtain ⟨his, hans⟩ := counted_is h hl fun m => m + n
    refine ⟨?_, hans⟩
    show (s.counted (s.obj.renumber s.heap fun m => m + n)).Is limit _
    unfold Value.step Call.bytes Call.counts
    cases hn : numberOf limit v.bytes with
    | none => rw [hn] at his; exact his
    | some m => rw [hn] at his; exact his
  | decr n =>
    obtain ⟨his, hans⟩ := counted_is h hl fun m => if m < n then 0 else m - n
    refine ⟨?_, hans⟩
    show (s.counted (s.obj.renumber s.heap fun m => if m < n then 0 else m - n)).Is limit _
    unfold Value.step Call.bytes Call.counts
    cases hn : numberOf limit v.bytes with
    | none => rw [hn] at his; exact his
    | some m => rw [hn] at his; exact his
  | touch t =>
    have hd := Stored.touch_does h.wf s.heap t
    exact ⟨⟨hd.wf, h.view.touch t⟩, rfl⟩
  | data buf =>
    have hd := Stored.accessed_does h.wf s.heap
    refine ⟨⟨hd.wf, ⟨h.view.length, h.view.place, h.view.flags, h.view.exptime, h.view.cas⟩⟩, ?_⟩
    show s.answers ++ [Answer.bytes (s.obj.data buf s.heap).1] = _
    rw [Stored.data_eq s.obj buf.property, h.view.data_eq]
    rfl

/-- Any number of calls. -/
theorem run_is (hl : 24 ≤ limit) (cs : List Call) : ∀ {s : Life} {v : Value}, s.Is limit v →
    (cs.foldl (step limit) s).Is limit (cs.foldl (Value.step limit) v) ∧
      (cs.foldl (step limit) s).answers = s.answers ++ v.answers limit cs := by
  induction cs with
  | nil => intro s v h; exact ⟨h, (List.append_nil _).symm⟩
  | cons c cs ih =>
    intro s v h
    obtain ⟨h1, hans⟩ := step_is h hl c
    obtain ⟨his, hans'⟩ := ih h1
    refine ⟨his, ?_⟩
    rw [List.foldl_cons, hans', hans, List.append_assoc]
    rfl

/-- **Object storage is a byte string.**  For every limit with room for a number, every heap, both
    constructors and every sequence of calls: the answers are those of the abstract value; `data` returns
    its bytes, whatever buffer the caller brings; `size` and `m_length` are its length; the data is in the
    file, with an empty buffer, exactly above the limit; and flags, expiration time and version are the
    value's. -/
theorem byte_string_run (limit : Nat) (hl : 24 ≤ limit) (secure : Bool) (h : Heap) (c : Ctor)
    (cs : List Call) :
    let s := cs.foldl (step limit) (start limit secure h c)
    let v := cs.foldl (Value.step limit) (.start c)
    s.answers = (Value.start c).answers limit cs ∧
    (∀ (buf : Dynbuf) (h' : Heap), buf.WF → (s.obj.data buf h').1 = v.bytes) ∧
    s.obj.size = v.bytes.length ∧ s.obj.length = v.bytes.length ∧
    (s.obj.mfile = some v.bytes ∧ s.obj.mdata.used = 0 ∧ s.obj.mdata.contents = [] ↔ limit < v.bytes.length) ∧
    (s.obj.mfile = none ∧ s.obj.mdata.contents = v.bytes ↔ v.bytes.length ≤ limit) ∧
    s.obj.flags = v.flags ∧ s.obj.exptime = v.exptime ∧ s.obj.cas = v.cas := by
  intro s v
  obtain ⟨his, hans⟩ := run_is hl cs (start_is hl secure h c)
  have hstart : (start limit secure h c).answers = [] := by cases c <;> rfl
  rw [hstart, List.nil_append] at hans
  have hlen : s.obj.length = v.bytes.length := his.view.length
  refine ⟨hans, fun buf h' wb => ?_, his.wf.size_eq.trans hlen, hlen, ⟨fun hf => ?_, fun hlt => ?_⟩,
    ⟨fun hf => ?_, fun hle => ?_⟩, his.view.flags, his.view.exptime, his.view.cas⟩
  · rw [Stored.data_eq s.obj wb, his.view.data_eq]
  · exact hlen ▸ (his.wf.file _ hf.1).2.2
  · obtain ⟨hfile, hempty⟩ := his.view.file hlt
    exact ⟨hfile, (his.wf.file _ hfile).2.1, hempty⟩
  · by_contra hlt
    have hfile := (his.view.file (Nat.lt_of_not_le hlt)).1
    rw [show s.obj.view.mfile = none from hf.1] at hfile
    cases hfile
  · exact his.view.heap (Nat.not_lt.mpr hle)

/-- A buffer of a caller. -/
def emptyBuf : { d : Dynbuf // d.WF } :=
  ⟨⟨none, 0, 0, false, 0⟩, ⟨rfl, Nat.le_refl _, Dynbuf.held_zero rfl, fun _ => Block.clean_nil⟩⟩

/-- Over the limit and back, from a number. -/
def crossing : List Call :=
  [.incr 5, .append (List.replicate 30 48), .prepend [49], .data emptyBuf, .incr 1, .set [55] 9 3, .decr 10,
    .touch 4, .data emptyBuf]

theorem byte_string_crossing :
    let s := crossing.foldl (step 24)
      (start 24 true ⟨fun _ _ => 170, fun _ => true, 0, []⟩ (.initial 18446744073709551615 0))
    s.answers = (Value.start (.initial 18446744073709551615 0)).answers 24 crossing ∧
      s.answers = [.number 4, .nothing, .nothing, .bytes (49 :: 52 :: List.replicate 30 48), .notANumber,
        .nothing,
        .number 0, .nothing, .bytes [48]] ∧
      s.obj.cas = 6 ∧ s.obj.flags = 9 ∧ s.obj.exptime = 4 := by
  intro s
  have hmain := byte_string_run 24 (by decide) true ⟨fun _ _ => 170, fun _ => true, 0, []⟩
    (.initial 18446744073709551615 0) crossing
  have hans := hmain.1
  refine ⟨hans, hans.trans (by decide +kernel), ?_⟩
  obtain ⟨-, -, -, -, -, -, hflags, hexptime, hcas⟩ := hmain
  exact ⟨hcas.trans (by decide +kernel), hflags.trans (by decide +kernel),
    hexptime.trans (by decide +kernel)⟩

end Life

end Yrmcds.Memcache
