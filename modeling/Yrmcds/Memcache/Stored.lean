/-
  `memcache::object` with its buffer (src/memcache/object.cpp, src/tempfile.cpp).

  `Object` has the bytes of `m_data` as a list.  A `Stored` object has the `dynbuf` itself, so it is also
  known WHICH block each byte is in and what becomes of the block.  `view` forgets that, and `*_spec` says
  for each member function:

  1. it keeps `WF`: without a file the buffer has `m_length` bytes, and with one it is empty;
  2. seen through `view` it is the function of `Object`;
  3. if the buffer has the erase flag, every block it gives back is clean.

  `prepend` is the exception to the third: it builds the new contents in a local buffer WITHOUT the flag
  (`cybozu::dynbuf buf(new_size)`).  On the heap it swaps that buffer with `m_data`, and the local buffer
  gives the old block back as it is; with a file, the local buffer itself had the data.

  A temporary file is its contents; `write` appends to it, `clear` truncates it, and both succeed.
-/
import Yrmcds.Dynbuf
import Yrmcds.Memcache.Object

namespace Yrmcds.Memcache

open Block

/-- `memcache::object`. -/
structure Stored where
  length : Nat
  mdata : Dynbuf
  mfile : Option Bytes
  flags : UInt32
  exptime : Int
  cas : UInt64 := 1
  gcOld : UInt32 := 0
  lock : Int := -1
deriving DecidableEq, Repr

namespace Stored

/-- `object::object(p, len, flags, exptime)`; `secure` is `secure_erase`. -/
def new (limit : Nat) (secure : Bool) (h : Heap) (p : Bytes) (flags : UInt32) (exptime : Int) :
    Stored × Heap :=
  let d := Dynbuf.new h 0 secure
  if p.length > limit then (⟨p.length, d.1, some p, flags, exptime, 1, 0, -1⟩, d.2)
  else if p.length > 0 then
    let a := d.1.append d.2 p
    (⟨p.length, a.1, none, flags, exptime, 1, 0, -1⟩, a.2)
  else (⟨p.length, d.1, none, flags, exptime, 1, 0, -1⟩, d.2)

/-- `object::object(initial, exptime)`. -/
def ofInitial (secure : Bool) (h : Heap) (initial : UInt64) (exptime : Int) : Stored × Heap :=
  let d := Dynbuf.new h 24 secure
  let a := d.1.append d.2 (decimal initial.toNat)
  (⟨(decimal initial.toNat).length, a.1, none, 0, exptime, 1, 0, -1⟩, a.2)

/-- `object::object(object&& rhs)`, and the end of `rhs`; age and lock are those of a new object. -/
def move (rhs : Stored) (h : Heap) : Stored × Heap :=
  ({ rhs with mdata := rhs.mdata.move.1, gcOld := 0, lock := -1 }, rhs.mdata.move.2.destroy h)

/-- `object::~object()`. -/
def destroy (o : Stored) (h : Heap) : Heap := o.mdata.destroy h

/-- What every change does. -/
def modified (o : Stored) : Stored := { o with cas := o.cas + 1, gcOld := 0 }

/-- The first `m_length` bytes at `m_data.data()`. -/
def bytes (o : Stored) : Bytes := vals (o.mdata.block.take o.length)

/-- `object::set`. -/
def set (limit : Nat) (o : Stored) (h : Heap) (p : Bytes) (flags : UInt32) (exptime : Int) :
    Stored × Heap :=
  let d := o.mdata.reset h
  let o' := { o.modified with flags := flags, exptime := exptime, length := p.length }
  if p.length > limit then ({ o' with mdata := d.1, mfile := some p }, d.2)
  else if p.length > 0 then
    let a := d.1.append d.2 p
    ({ o' with mdata := a.1, mfile := none }, a.2)
  else ({ o' with mdata := d.1, mfile := none }, d.2)

/-- `object::append`. -/
def append (limit : Nat) (o : Stored) (h : Heap) (p : Bytes) : Stored × Heap :=
  if p.length = 0 then (o.modified, h)
  else if o.length + p.length > limit then
    match o.mfile with
    | none =>
      let d := o.mdata.reset h
      ({ o.modified with mfile := some (o.bytes ++ p), mdata := d.1, length := o.length + p.length }, d.2)
    | some f => ({ o.modified with mfile := some (f ++ p), length := o.length + p.length }, h)
  else
    let a := o.mdata.append h p
    ({ o.modified with mdata := a.1, length := o.length + p.length }, a.2)

/-- The local `buf` of `prepend`: of the new size, and without the erase flag. -/
def prependBuf (h : Heap) (size : Nat) (p rest : Bytes) : Dynbuf × Heap :=
  let b := Dynbuf.new h size false
  let b1 := b.1.append b.2 p
  b1.1.append b1.2 rest

/-- `object::prepend`. -/
def prepend (limit : Nat) (o : Stored) (h : Heap) (p : Bytes) : Stored × Heap :=
  if p.length = 0 then (o.modified, h)
  else if o.length + p.length > limit then
    match o.mfile with
    | none =>
      let d := o.mdata.reset h
      ({ o.modified with mfile := some (p ++ o.bytes), mdata := d.1, length := o.length + p.length }, d.2)
    | some f =>
      let buf := prependBuf h (o.length + p.length) p f
      ({ o.modified with
          mfile := some (vals (buf.1.block.take (o.length + p.length))), length := o.length + p.length },
        buf.1.destroy buf.2)
  else
    let buf := prependBuf h (o.length + p.length) p o.bytes
    let s := o.mdata.swap buf.1
    ({ o.modified with mdata := s.1, length := o.length + p.length }, s.2.destroy buf.2)

/-- The common body of `incr` and `decr`; `none` is `not_a_number`. -/
def renumber (o : Stored) (h : Heap) (f : UInt64 → UInt64) : Option (UInt64 × Stored × Heap) :=
  match o.mfile, stoull o.bytes with
  | none, some v =>
    let d := o.mdata.reset h
    let a := d.1.append d.2 (decimal (f v).toNat)
    some (f v, { o.modified with mdata := a.1, length := (decimal (f v).toNat).length }, a.2)
  | _, _ => none

/-- `object::incr`. -/
def incr (o : Stored) (h : Heap) (n : UInt64) : Option (UInt64 × Stored × Heap) :=
  o.renumber h fun v => v + n

/-- `object::decr`. -/
def decr (o : Stored) (h : Heap) (n : UInt64) : Option (UInt64 × Stored × Heap) :=
  o.renumber h fun v => if v < n then 0 else v - n

/-- `object::touch`. -/
def touch (o : Stored) (exptime : Int) : Stored := { o with exptime := exptime, gcOld := 0 }

/-- What `object::data` returns: `m_data`, or the caller's `buf` after the file was read into it. -/
def data (o : Stored) (buf : Dynbuf) (h : Heap) : Bytes × Heap :=
  match o.mfile with
  | none => (o.mdata.contents, h)
  | some f =>
    let d := buf.reset h
    let a := d.1.append d.2 f
    (a.1.contents, a.2)

/-- ... and what it does to the object. -/
def accessed (o : Stored) : Stored := { o with gcOld := 0 }

/-- `object::size`. -/
def size (o : Stored) : Nat :=
  match o.mfile with
  | none => o.mdata.used
  | some f => f.length

/-- The object without its memory. -/
def view (o : Stored) : Object :=
  ⟨o.length, o.mdata.contents, o.mfile, o.flags, o.exptime, o.cas, o.gcOld, o.lock⟩

/-! ## What every member function keeps -/

/-- The buffer is sound, and `m_length` is the length of what it has. -/
structure WF (limit : Nat) (o : Stored) : Prop where
  data : o.mdata.WF
  heap : o.mfile = none → o.mdata.used = o.length
  file : ∀ f, o.mfile = some f → f.length = o.length ∧ o.mdata.used = 0 ∧ limit < o.length

variable {limit : Nat} {o : Stored} {h : Heap}

theorem WF.bytes (w : o.WF limit) (hf : o.mfile = none) : o.bytes = o.mdata.contents := by
  unfold Stored.bytes Dynbuf.contents
  rw [w.heap hf]

theorem WF.length_bytes (w : o.WF limit) (hf : o.mfile = none) : o.bytes.length = o.length := by
  rw [w.bytes hf, w.data.shaped.length_contents, w.heap hf]

/-- The list model reads `m_length` bytes of its list: all of them. -/
theorem WF.take_contents (w : o.WF limit) (hf : o.mfile = none) :
    o.mdata.contents.take o.length = o.mdata.contents := by
  rw [← w.heap hf, ← w.data.shaped.length_contents, List.take_length]

/-- There is no file below the limit. -/
theorem WF.mfile_eq_none (w : o.WF limit) {n : Nat} (hl : ¬ o.length + n > limit) : o.mfile = none := by
  cases hf : o.mfile with
  | none => rfl
  | some f =>
    have := (w.file f hf).2.2
    omega

/-- What a member function that leaves the view `v` owes. -/
structure Does (limit : Nat) (o : Stored) (h : Heap) (v : Object) (r : Stored × Heap) : Prop where
  wf : r.1.WF limit
  view : r.1.view = v
  merase : r.1.mdata.merase = o.mdata.merase
  tidied : o.mdata.merase = true → Heap.Tidied h r.2

/-- Everything but the blocks: what is left of `Does` for `prepend`. -/
structure Shows (limit : Nat) (o : Stored) (v : Object) (r : Stored × Heap) : Prop where
  wf : r.1.WF limit
  view : r.1.view = v
  merase : r.1.mdata.merase = o.mdata.merase

theorem modified_does (w : o.WF limit) (h : Heap) : Does limit o h o.view.modified (o.modified, h) :=
  ⟨⟨w.data, w.heap, w.file⟩, rfl, rfl, fun _ => Heap.Tidied.refl h⟩

/-! ## Each function -/

theorem new_spec (limit : Nat) (secure : Bool) (h : Heap) (p : Bytes) (f : UInt32) (t : Int) :
    (new limit secure h p f t).1.WF limit ∧ (new limit secure h p f t).1.view = .new limit p f t ∧
      (new limit secure h p f t).1.mdata.merase = secure ∧
      (secure = true → Heap.Tidied h (new limit secure h p f t).2) := by
  obtain ⟨wd, hu, he, -, ht⟩ := Dynbuf.new_spec h 0 secure
  unfold new Object.new
  by_cases hl : p.length > limit
  · simp only [if_pos hl]
    refine ⟨⟨wd, nofun, fun f hf => ?_⟩, ?_, he, fun _ => ht⟩
    · cases hf
      exact ⟨rfl, hu, hl⟩
    · unfold view
      dsimp only
      rw [Dynbuf.contents_eq_nil hu]
  · simp only [if_neg hl]
    by_cases hp : p.length > 0
    · simp only [if_pos hp]
      obtain ⟨wa, hc, hu', he', ht'⟩ := Dynbuf.append_spec wd (Dynbuf.new h 0 secure).2 p
      rw [Dynbuf.contents_eq_nil hu, List.nil_append] at hc
      rw [hu, Nat.zero_add] at hu'
      refine ⟨⟨wa, fun _ => hu', nofun⟩, ?_, he'.trans he, fun hs => ht.trans (ht' (he.trans hs))⟩
      unfold view
      dsimp only
      rw [hc]
    · simp only [if_neg hp]
      have hnil : p = [] := List.length_eq_zero_iff.mp (Nat.eq_zero_of_not_pos hp)
      refine ⟨⟨wd, fun _ => hu.trans (Nat.eq_zero_of_not_pos hp).symm, nofun⟩, ?_, he, fun _ => ht⟩
      unfold view
      dsimp only
      rw [Dynbuf.contents_eq_nil hu, hnil]

theorem ofInitial_spec (limit : Nat) (secure : Bool) (h : Heap) (n : UInt64) (t : Int) :
    (ofInitial secure h n t).1.WF limit ∧ (ofInitial secure h n t).1.view = .ofInitial n t ∧
      (ofInitial secure h n t).1.mdata.merase = secure ∧
      (secure = true → Heap.Tidied h (ofInitial secure h n t).2) := by
  obtain ⟨wd, hu, he, -, ht⟩ := Dynbuf.new_spec h 24 secure
  obtain ⟨wa, hc, hu', he', ht'⟩ := Dynbuf.append_spec wd (Dynbuf.new h 24 secure).2 (decimal n.toNat)
  rw [Dynbuf.contents_eq_nil hu, List.nil_append] at hc
  rw [hu, Nat.zero_add] at hu'
  refine ⟨⟨wa, fun _ => hu', nofun⟩, ?_, he'.trans he, fun hs => ht.trans (ht' (he.trans hs))⟩
  unfold ofInitial view Object.ofInitial
  dsimp only
  rw [hc]

/-- `reset` and then `append`: how `set`, `incr` and `decr` store new data on the heap, and how `data` reads
    a file. -/
theorem refill_spec {buf : Dynbuf} (w : buf.WF) (h : Heap) (p : Bytes) :
    let d := buf.reset h
    let a := d.1.append d.2 p
    a.1.WF ∧ a.1.contents = p ∧ a.1.used = p.length ∧ a.1.merase = buf.merase ∧
      (buf.merase = true → Heap.Tidied h a.2) := by
  intro d a
  obtain ⟨wd, hu, he, ht⟩ := Dynbuf.reset_spec w h
  obtain ⟨wa, hc, hu', he', ht'⟩ := Dynbuf.append_spec wd d.2 p
  rw [Dynbuf.contents_eq_nil hu, List.nil_append] at hc
  rw [hu, Nat.zero_add] at hu'
  exact ⟨wa, hc, hu', he'.trans he, fun hs => (ht hs).trans (ht' (he.trans hs))⟩

theorem set_spec (w : o.WF limit) (h : Heap) (p : Bytes) (f : UInt32) (t : Int) :
    Does limit o h (o.view.set limit p f t) (o.set limit h p f t) := by
  obtain ⟨wd, hu, he, ht⟩ := Dynbuf.reset_spec w.data h
  unfold set Object.set
  by_cases hl : p.length > limit
  · simp only [if_pos hl]
    refine ⟨⟨wd, nofun, fun f hf => ?_⟩, ?_, he, ht⟩
    · cases hf
      exact ⟨rfl, hu, hl⟩
    · unfold view modified Object.modified
      dsimp only
      rw [Dynbuf.contents_eq_nil hu]
  · simp only [if_neg hl]
    by_cases hp : p.length > 0
    · simp only [if_pos hp]
      obtain ⟨wa, hc, hu', he', ht'⟩ := refill_spec w.data h p
      refine ⟨⟨wa, fun _ => hu', nofun⟩, ?_, he', ht'⟩
      unfold view modified Object.modified
      dsimp only
      rw [hc]
    · simp only [if_neg hp]
      have hnil : p = [] := List.length_eq_zero_iff.mp (Nat.eq_zero_of_not_pos hp)
      refine ⟨⟨wd, fun _ => hu.trans (Nat.eq_zero_of_not_pos hp).symm, nofun⟩, ?_, he, ht⟩
      unfold view modified Object.modified
      dsimp only
      rw [Dynbuf.contents_eq_nil hu, hnil]

/-- From the heap to a file: what `append` and `prepend` have in common there. -/
theorem spill_spec (w : o.WF limit) (h : Heap) {p f : Bytes} (hlen : f.length = o.length + p.length)
    (hl : o.length + p.length > limit) :
    Does limit o h { o.view.modified with mfile := some f, mdata := [], length := o.length + p.length }
      ({ o.modified with mfile := some f, mdata := (o.mdata.reset h).1, length := o.length + p.length },
        (o.mdata.reset h).2) := by
  obtain ⟨wd, hu, he, ht⟩ := Dynbuf.reset_spec w.data h
  refine ⟨⟨wd, nofun, fun g hg => ?_⟩, ?_, he, ht⟩
  · cases hg
    exact ⟨hlen, hu, hl⟩
  · unfold view modified Object.modified
    dsimp only
    rw [Dynbuf.contents_eq_nil hu]

theorem append_spec (w : o.WF limit) (h : Heap) (p : Bytes) :
    Does limit o h (o.view.append limit p) (o.append limit h p) := by
  unfold append Object.append
  by_cases hp : p.length = 0
  · simp only [if_pos hp]
    exact modified_does w h
  simp only [if_neg hp]
  by_cases hl : o.length + p.length > limit
  · rw [if_pos hl, if_pos (show o.view.length + p.length > limit from hl)]
    cases hf : o.mfile with
    | none =>
      rw [show o.view.mfile = none from hf]
      have hdoes := spill_spec w h (f := o.bytes ++ p) (by rw [List.length_append, w.length_bytes hf]) hl
      rw [w.bytes hf] at hdoes ⊢
      rw [← w.take_contents hf] at hdoes
      rw [← w.take_contents hf]
      exact hdoes
    | some f =>
      rw [show o.view.mfile = some f from hf]
      obtain ⟨hlen, hu, hlim⟩ := w.file f hf
      refine ⟨⟨w.data, fun hnone => ?_, fun g hg => ?_⟩, rfl, rfl, fun _ => Heap.Tidied.refl h⟩
      · cases hnone
      · cases hg
        exact ⟨by rw [List.length_append, hlen], hu, hl⟩
  · rw [if_neg hl, if_neg (show ¬ o.view.length + p.length > limit from hl)]
    have hf := w.mfile_eq_none hl
    obtain ⟨wa, hc, hu, he, ht⟩ := Dynbuf.append_spec w.data h p
    refine ⟨⟨wa, fun _ => ?_, fun f hfs => ?_⟩, ?_, he, ht⟩
    · rw [hu, w.heap hf]
    · exact (Option.some_ne_none f (hfs.symm.trans hf)).elim
    · unfold view modified Object.modified
      dsimp only
      rw [hc]

/-- The local buffer of `prepend`, filled: its block is used to the end, and is the only one there was. -/
theorem prependBuf_spec (h : Heap) {n : Nat} (p rest : Bytes) (hn : n = rest.length + p.length) :
    let r := prependBuf h n p rest
    r.1.WF ∧ r.1.contents = p ++ rest ∧ r.1.used = n ∧ r.1.capacity = n ∧ r.1.merase = false ∧
      r.2.freed = h.freed := by
  intro r
  obtain ⟨wd, hu, he, hcap, -⟩ := Dynbuf.new_spec h n false
  have hfreed : (Dynbuf.new h n false).2.freed = h.freed := by
    unfold Dynbuf.new
    split_ifs <;> rfl
  have hfit : (Dynbuf.new h n false).1.used + p.length ≤ (Dynbuf.new h n false).1.capacity := by
    rw [hu, hcap]
    omega
  have happ := Dynbuf.append_of_room hfit (Dynbuf.new h n false).2
  obtain ⟨wa, hc, hu', he', -⟩ := Dynbuf.append_spec wd (Dynbuf.new h n false).2 p
  rw [Dynbuf.contents_eq_nil hu, List.nil_append] at hc
  rw [hu, Nat.zero_add] at hu'
  rw [happ] at wa hc hu' he'
  have hfit' :
    ((Dynbuf.new h n false).1.put p).used + rest.length ≤ ((Dynbuf.new h n false).1.put p).capacity := by
    rw [hu']
    show p.length + rest.length ≤ (Dynbuf.new h n false).1.capacity
    rw [hcap]
    omega
  have happ' := Dynbuf.append_of_room hfit' (Dynbuf.new h n false).2
  obtain ⟨wb, hc', hu'', he'', -⟩ := Dynbuf.append_spec wa (Dynbuf.new h n false).2 rest
  rw [happ'] at wb hc' hu'' he''
  have hr : r = (((Dynbuf.new h n false).1.put p).put rest, (Dynbuf.new h n false).2) := by
    show ((Dynbuf.new h n false).1.append (Dynbuf.new h n false).2 p).1.append _ rest = _
    rw [happ]
    exact happ'
  rw [hr]
  refine ⟨wb, hc'.trans (by rw [hc]), ?_, hcap, he''.trans (he'.trans he), hfreed⟩
  rw [hu'', hu', hn, Nat.add_comm]

/-- What `prepend` shows, on the heap and in a file. -/
theorem prepend_shows (w : o.WF limit) (h : Heap) (p : Bytes) :
    Shows limit o (o.view.prepend limit p) (o.prepend limit h p) := by
  unfold prepend Object.prepend
  by_cases hp : p.length = 0
  · simp only [if_pos hp]
    have hdoes := modified_does w h
    exact ⟨hdoes.wf, hdoes.view, hdoes.merase⟩
  simp only [if_neg hp]
  by_cases hl : o.length + p.length > limit
  · rw [if_pos hl, if_pos (show o.view.length + p.length > limit from hl)]
    cases hf : o.mfile with
    | none =>
      rw [show o.view.mfile = none from hf]
      have hlen : (p ++ o.bytes).length = o.length + p.length := by
        rw [List.length_append, w.length_bytes hf, Nat.add_comm]
      have hdoes := spill_spec w h hlen hl
      rw [w.bytes hf] at hdoes ⊢
      rw [← w.take_contents hf] at hdoes
      rw [← w.take_contents hf]
      exact ⟨hdoes.wf, hdoes.view, hdoes.merase⟩
    | some f =>
      rw [show o.view.mfile = some f from hf]
      obtain ⟨hlen, hu, hlim⟩ := w.file f hf
      obtain ⟨wb, hc, hu', -, -, -⟩ := prependBuf_spec h (n := o.length + p.length) p f (by rw [hlen])
      have htaken :
        vals ((prependBuf h (o.length + p.length) p f).1.block.take (o.length + p.length)) = p ++ f := by
        rw [← hc]
        unfold Dynbuf.contents
        rw [hu']
      refine ⟨⟨w.data, fun hnone => ?_, fun g hg => ?_⟩, ?_, rfl⟩
      · cases hnone
      · cases hg
        refine ⟨?_, hu, hl⟩
        rw [htaken, List.length_append, hlen, Nat.add_comm]
      · unfold view modified Object.modified
        dsimp only
        rw [htaken, List.take_of_length_le (by rw [List.length_append, hlen, Nat.add_comm])]
  · rw [if_neg hl, if_neg (show ¬ o.view.length + p.length > limit from hl)]
    have hf := w.mfile_eq_none hl
    have hn : o.length + p.length = o.bytes.length + p.length := by rw [w.length_bytes hf]
    obtain ⟨wb, hc, hu, hcap, -, -⟩ := prependBuf_spec h p o.bytes hn
    refine ⟨⟨⟨wb.length, wb.used_le, wb.held, fun _ => ?_⟩, fun _ => hu,
        fun f hfs => (Option.some_ne_none f (hfs.symm.trans hf)).elim⟩,
      ?_, rfl⟩
    · -- The new block is full, so nothing of it is unused.
      have hnil : (prependBuf h (o.length + p.length) p o.bytes).1.block.drop
          (prependBuf h (o.length + p.length) p o.bytes).1.used = [] := by
        rw [List.drop_eq_nil_iff, wb.length, hu, hcap]
      exact hnil ▸ clean_nil
    · unfold view modified Object.modified
      dsimp only
      rw [show (o.mdata.swap (prependBuf h (o.length + p.length) p o.bytes).1).1.contents
        = (prependBuf h (o.length + p.length) p o.bytes).1.contents from rfl, hc, w.bytes hf,
          w.take_contents hf]

/-- The two ways in which `prepend` gives back a block with data in it. -/
def PrependLeaks (limit : Nat) (o : Stored) (p : Bytes) : Prop :=
  p ≠ [] ∧ (if o.length + p.length > limit then o.mfile ≠ none else 0 < o.length)

instance (limit : Nat) (o : Stored) (p : Bytes) : Decidable (PrependLeaks limit o p) :=
  inferInstanceAs (Decidable (_ ∧ _))

/-- What the local buffer of `prepend` gives back: the block it has at the end, as it is. -/
theorem destroy_of_not_merase {d : Dynbuf} (he : d.merase = false) (h : Heap) :
    d.destroy h = Dynbuf.release h d.p := by
  have hwiped : d.wiped = id := by
    funext b
    unfold Dynbuf.wiped
    rw [he]
    rfl
  unfold Dynbuf.destroy
  rw [hwiped, Option.map_id]
  rfl

/-- A block of a buffer that is not empty, given back as it is. -/
theorem unclean_of_release {d : Dynbuf} (wd : d.WF) (hu : 0 < d.used) (h : Heap) :
    ∃ b ∈ (Dynbuf.release h d.p).freed, ¬ Clean b := by
  obtain ⟨b, hp, hblock, -⟩ := wd.shaped.exists_block hu
  rw [hp]
  exact ⟨b, List.mem_append_right _ List.mem_cons_self, hblock ▸ wd.not_clean hu⟩

theorem tidied_of_freed {h h' : Heap} (hf : h'.freed = h.freed) : Heap.Tidied h h' :=
  ⟨[], by rw [hf, List.append_nil], fun _ hb => nomatch hb⟩

/-- **`prepend` is tidy exactly when it does not leak.** -/
theorem prepend_leaks (w : o.WF limit) (he : o.mdata.merase = true) (h : Heap) (p : Bytes) :
    (¬ PrependLeaks limit o p → Heap.Tidied h (o.prepend limit h p).2) ∧
    (PrependLeaks limit o p → ∃ b ∈ (o.prepend limit h p).2.freed, ¬ Clean b) := by
  unfold PrependLeaks prepend
  by_cases hp : p.length = 0
  · rw [if_pos hp]
    refine ⟨fun _ => Heap.Tidied.refl h, fun hleak => ?_⟩
    exact absurd (List.length_eq_zero_iff.mp hp) hleak.1
  have hne : p ≠ [] := fun hnil => hp (by rw [hnil]; rfl)
  rw [if_neg hp]
  by_cases hl : o.length + p.length > limit
  · rw [if_pos hl, if_pos hl]
    cases hf : o.mfile with
    | none =>
      refine ⟨fun _ => (Dynbuf.reset_spec w.data h).2.2.2 he, fun hleak => ?_⟩
      exact absurd rfl hleak.2
    | some f =>
      have hlen := (w.file f hf).1
      obtain ⟨wb, -, hu, -, hb, -⟩ := prependBuf_spec h (n := o.length + p.length) p f (by rw [hlen])
      refine ⟨fun hno => absurd ⟨hne, by simp⟩ hno, fun _ => ?_⟩
      dsimp only
      rw [destroy_of_not_merase hb]
      refine unclean_of_release wb ?_ _
      rw [hu]
      omega
  · rw [if_neg hl, if_neg hl]
    have hf := w.mfile_eq_none hl
    have hn : o.length + p.length = o.bytes.length + p.length := by rw [w.length_bytes hf]
    obtain ⟨-, -, -, -, hb, hfreed⟩ := prependBuf_spec h p o.bytes hn
    dsimp only
    -- After the swap the local buffer has the old block, and still no flag.
    have hswap : (o.mdata.swap (prependBuf h (o.length + p.length) p o.bytes).1).2.merase = false := hb
    rw [destroy_of_not_merase hswap]
    show (_ → Heap.Tidied h (Dynbuf.release _ o.mdata.p)) ∧
      (_ → ∃ b ∈ (Dynbuf.release _ o.mdata.p).freed, _)
    refine ⟨fun hno => ?_, fun hleak => unclean_of_release w.data (by rw [w.heap hf]; exact hleak.2) _⟩
    have hzero : o.mdata.used = 0 := by
      rw [w.heap hf]
      exact Nat.eq_zero_of_not_pos fun hpos => hno ⟨hne, hpos⟩
    have hclean := w.data.clean_block he hzero
    refine (tidied_of_freed hfreed).trans ?_
    unfold Dynbuf.block at hclean
    cases hd : o.mdata.p with
    | none => exact Heap.Tidied.refl _
    | some b =>
      rw [hd] at hclean
      exact Heap.tidied_free _ hclean

theorem renumber_spec (w : o.WF limit) (h : Heap) (f : UInt64 → UInt64) :
    match o.renumber h f with
    | none => o.view.renumber f = none
    | some (n, r) => ∃ v, o.view.renumber f = some (n, v) ∧ Does limit o h v r := by
  unfold renumber Object.renumber
  cases hf : o.mfile with
  | some g =>
    rw [show o.view.mfile = some g from hf]
  | none =>
    rw [show o.view.mfile = none from hf, w.bytes hf,
      show o.view.mdata.take o.view.length = o.mdata.contents from w.take_contents hf]
    cases hs : stoull o.mdata.contents with
    | none => rfl
    | some v =>
      obtain ⟨wa, hc, hu, he, ht⟩ := refill_spec w.data h (decimal (f v).toNat)
      refine ⟨_, rfl, ⟨⟨wa, fun _ => hu, fun g hg => nomatch hf.symm.trans hg⟩, ?_, he, ht⟩⟩
      unfold view modified Object.modified
      dsimp only
      rw [hc]

theorem move_does (w : o.WF limit) (h : Heap) :
    Does limit o h { o.view with gcOld := 0, lock := -1 } (o.move h) :=
  ⟨⟨w.data, w.heap, w.file⟩, rfl, rfl, fun _ => Heap.Tidied.refl h⟩

theorem touch_does (w : o.WF limit) (h : Heap) (t : Int) : Does limit o h (o.view.touch t) (o.touch t, h) :=
  ⟨⟨w.data, w.heap, w.file⟩, rfl, rfl, fun _ => Heap.Tidied.refl h⟩

theorem accessed_does (w : o.WF limit) (h : Heap) : Does limit o h o.view.accessed (o.accessed, h) :=
  ⟨⟨w.data, w.heap, w.file⟩, rfl, rfl, fun _ => Heap.Tidied.refl h⟩

theorem data_eq (o : Stored) {buf : Dynbuf} (wb : buf.WF) (h : Heap) : (o.data buf h).1 = o.view.data := by
  unfold data Object.data
  cases hf : o.mfile with
  | none =>
    rw [show o.view.mfile = none from hf]
    rfl
  | some f =>
    rw [show o.view.mfile = some f from hf]
    exact (refill_spec wb h f).2.1

theorem WF.size_eq (w : o.WF limit) : o.size = o.length := by
  unfold size
  cases hf : o.mfile with
  | none => exact w.heap hf
  | some f => exact (w.file f hf).1

theorem WF.tidied_destroy (w : o.WF limit) (he : o.mdata.merase = true) (h : Heap) :
    Heap.Tidied h (o.destroy h) := w.data.tidied_destroy he h

end Stored

end Yrmcds.Memcache
