/-
  `cybozu::dynbuf` (cybozu/dynbuf.hpp): the growing byte buffer, and the one place where object data is kept
  on the heap.

  The buffer owns ONE block of memory, `p`, of `capacity` bytes, of which the first `used` are its contents.
  With the flag `merase` it overwrites what it had in a block before it gives the block back.  The flag is a
  constant of the BUFFER: `swap` exchanges blocks, capacities and lengths, but not the flags — so a block
  that was filled under one flag can be given back under another.

  `WF` is what every member function but `swap` keeps.  Its last part is why it is enough to clear `used`
  bytes: in a buffer with the flag, nothing beyond them has data.  `Shaped` is `WF` without that part; it is
  all that the CONTENTS depend on, and `swap` keeps it too.
-/
import Yrmcds.Util
import Yrmcds.Lib.Block

namespace Yrmcds

open Block

/-- `cybozu::dynbuf`. -/
structure Dynbuf where
  p : Option (List Byte)
  defaultCapacity : Nat
  capacity : Nat
  merase : Bool
  used : Nat := 0
deriving DecidableEq, Repr

namespace Dynbuf

/-- `dynbuf(default_capacity, erase)`. -/
def new (h : Heap) (defaultCapacity : Nat) (erase : Bool) : Dynbuf × Heap :=
  if defaultCapacity = 0 then (⟨none, defaultCapacity, defaultCapacity, erase, 0⟩, h)
  else
    let x := h.malloc defaultCapacity
    (⟨some x.1, defaultCapacity, defaultCapacity, erase, 0⟩, x.2)

/-- `clear_memory(m_p, m_used)`, where the flag asks for it. -/
def wiped (d : Dynbuf) (b : List Byte) : List Byte := if d.merase then zero b d.used else b

/-- `_free(m_p)`; a null pointer is not freed. -/
def release (h : Heap) (p : Option (List Byte)) : Heap :=
  match p with
  | none => h
  | some b => h.free b

/-- `~dynbuf()`. -/
def destroy (d : Dynbuf) (h : Heap) : Heap := release h (d.p.map d.wiped)

/-- `dynbuf(dynbuf&& rhs)`: the new buffer, and what is left of `rhs`. -/
def move (rhs : Dynbuf) : Dynbuf × Dynbuf := (rhs, { rhs with p := none })

/-- `swap`: the flag and the default capacity stay. -/
def swap (d other : Dynbuf) : Dynbuf × Dynbuf :=
  ({ d with p := other.p, capacity := other.capacity, used := other.used },
   { other with p := d.p, capacity := d.capacity, used := d.used })

/-- `reset`. -/
def reset (d : Dynbuf) (h : Heap) : Dynbuf × Heap :=
  let p := d.p.map d.wiped
  if d.defaultCapacity = d.capacity then ({ d with p := p, used := 0 }, h)
  else
    let x := new h d.defaultCapacity d.merase
    ({ d with p := x.1.p, used := 0, capacity := d.defaultCapacity }, release x.2 p)

/-- `freebytes`. -/
def freebytes (d : Dynbuf) : Nat := d.capacity - d.used

/-- `enlarge`. -/
def enlarge (d : Dynbuf) (h : Heap) (additional : Nat) : Dynbuf × Heap :=
  if additional = 0 then (d, h)
  else
    let newCapacity := d.capacity + additional
    if d.merase then
      let x := h.malloc newCapacity
      match d.p with
      | none => ({ d with p := some x.1, capacity := newCapacity }, x.2)
      | some b =>
        ({ d with p := some (copy x.1 b d.used), capacity := newCapacity }, x.2.free (zero b d.used))
    else
      let x := h.realloc d.p newCapacity
      ({ d with p := some x.1, capacity := newCapacity }, x.2)

/-- `prepare`, without the pointer it returns. -/
def prepare (d : Dynbuf) (h : Heap) (len : Nat) : Dynbuf × Heap :=
  if d.freebytes < len then d.enlarge h len else (d, h)

/-- `memcpy(m_p+m_used, p, len);  m_used += len;` -/
def put (d : Dynbuf) (bs : Bytes) : Dynbuf :=
  { d with p := d.p.map fun b => write b d.used bs, used := d.used + bs.length }

/-- `append`. -/
def append (d : Dynbuf) (h : Heap) (bs : Bytes) : Dynbuf × Heap :=
  ((d.prepare h bs.length).1.put bs, (d.prepare h bs.length).2)

/-- The part of `erase` that goes back to a block of the default capacity. -/
def shrink (d : Dynbuf) (h : Heap) (len : Nat) : Dynbuf × Heap :=
  let x := h.malloc d.defaultCapacity
  ({ d with
      p := d.p.map fun b => copy x.1 (b.drop len) (d.used - len)
      capacity := d.defaultCapacity, used := d.used - len },
    release x.2 (d.p.map d.wiped))

/-- The part of `erase` that moves the rest to the head of the block. -/
def shift (d : Dynbuf) (len : Nat) : Dynbuf :=
  { d with
    p := d.p.map fun b =>
      if d.merase then clear (copy b (b.drop len) (d.used - len)) (d.used - len) len
      else copy b (b.drop len) (d.used - len)
    used := d.used - len }

/-- `erase`: drop the first `len` bytes; `none` is `std::invalid_argument`. -/
def erase (d : Dynbuf) (h : Heap) (len : Nat) : Option (Dynbuf × Heap) :=
  if d.used < len then none
  else if len = 0 then some (d, h)
  else if d.used - len = 0 then some (d.reset h)
  else if d.used - len ≤ d.defaultCapacity ∧ d.capacity ≠ d.defaultCapacity then some (d.shrink h len)
  else some (d.shift len, h)

/-! ## What is in the buffer -/

/-- The block; a null pointer has no bytes. -/
def block (d : Dynbuf) : List Byte := d.p.getD []

/-- `data()`, of `size()` bytes. -/
def contents (d : Dynbuf) : Bytes := vals (d.block.take d.used)

/-- **What every member function but `swap` keeps.** -/
structure WF (d : Dynbuf) : Prop where
  length : d.block.length = d.capacity
  used_le : d.used ≤ d.capacity
  /-- What is in use was written there. -/
  held : ∀ x ∈ d.block.take d.used, x.isData = true
  /-- Under the flag, what is not in use has no data. -/
  tidy : d.merase = true → Clean (d.block.drop d.used)

/-- What `swap` keeps as well: a block that has as many bytes as the capacity says, with what is in use
    written to it. -/
structure Shaped (d : Dynbuf) : Prop where
  length : d.block.length = d.capacity
  used_le : d.used ≤ d.capacity
  held : ∀ x ∈ d.block.take d.used, x.isData = true

variable {d : Dynbuf} {h : Heap}

theorem WF.shaped (w : d.WF) : d.Shaped := ⟨w.length, w.used_le, w.held⟩

theorem Shaped.wf (s : d.Shaped) (ht : d.merase = true → Clean (d.block.drop d.used)) : d.WF :=
  ⟨s.length, s.used_le, s.held, ht⟩

theorem block_of_some {b : List Byte} (hp : d.p = some b) : d.block = b := by
  unfold block
  rw [hp, Option.getD_some]

theorem block_of_none (hp : d.p = none) : d.block = [] := by
  unfold block
  rw [hp, Option.getD_none]

theorem Shaped.used_le_length (s : d.Shaped) : d.used ≤ d.block.length := s.length.symm ▸ s.used_le

/-- Without a block nothing is in use. -/
theorem Shaped.used_of_none (s : d.Shaped) (hp : d.p = none) : d.used = 0 := by
  have hused := s.used_le_length
  rw [block_of_none hp] at hused
  exact Nat.le_zero.mp hused

theorem Shaped.length_contents (s : d.Shaped) : d.contents.length = d.used := by
  unfold contents vals
  rw [List.length_map, List.length_take, s.length]
  exact Nat.min_eq_left s.used_le

/-- A buffer that is not empty has data in its block. -/
theorem WF.not_clean (w : d.WF) (hu : 0 < d.used) : ¬ Clean d.block := by
  intro hc
  have hlen : 0 < (d.block.take d.used).length := by
    rw [List.length_take, w.length]
    have := w.used_le
    omega
  obtain ⟨x, hx⟩ := List.exists_mem_of_length_pos hlen
  have hdata := w.held x hx
  rw [hc x (List.mem_of_mem_take hx)] at hdata
  cases hdata

theorem held_zero {d : Dynbuf} (hu : d.used = 0) : ∀ x ∈ d.block.take d.used, x.isData = true := by
  intro x hx
  rw [hu] at hx
  cases hx

theorem contents_eq_nil (hu : d.used = 0) : d.contents = [] := by
  unfold contents
  rw [hu]
  rfl

/-- An empty buffer with the flag has no data at all. -/
theorem WF.clean_block (w : d.WF) (he : d.merase = true) (hu : d.used = 0) : Clean d.block := by
  have := w.tidy he
  rwa [hu, List.drop_zero] at this

/-- What is given back under the flag is clean. -/
theorem WF.clean_wiped (w : d.WF) (he : d.merase = true) {b : List Byte} (hb : d.p = some b) :
    Clean (d.wiped b) := by
  unfold wiped
  rw [if_pos he]
  exact clean_zero (block_of_some hb ▸ w.tidy he)

theorem WF.tidied_release (w : d.WF) (he : d.merase = true) (h : Heap) :
    Heap.Tidied h (release h (d.p.map d.wiped)) := by
  cases hb : d.p with
  | none => exact Heap.Tidied.refl h
  | some b => exact Heap.tidied_free h (w.clean_wiped he hb)

theorem WF.tidied_destroy (w : d.WF) (he : d.merase = true) (h : Heap) : Heap.Tidied h (d.destroy h) :=
  w.tidied_release he h

/-! ## Each function keeps it

  For each function, first what it does to the contents, which is the same for every buffer that is
  `Shaped`; then that it keeps `WF`, and under the flag gives back only clean blocks. -/

theorem new_spec (h : Heap) (n : Nat) (erase : Bool) :
    (new h n erase).1.WF ∧ (new h n erase).1.used = 0 ∧ (new h n erase).1.merase = erase ∧
      (new h n erase).1.capacity = n ∧ Heap.Tidied h (new h n erase).2 := by
  unfold new
  by_cases hn : n = 0
  · rw [if_pos hn, hn]
    exact ⟨⟨rfl, Nat.le_refl _, held_zero rfl, fun _ => clean_nil⟩, rfl, rfl, rfl, Heap.Tidied.refl h⟩
  · rw [if_neg hn]
    refine ⟨⟨h.length_malloc n, Nat.zero_le _, held_zero rfl, fun _ => ?_⟩, rfl, rfl, rfl, h.tidied_malloc n⟩
    exact (h.clean_malloc n).drop 0

theorem length_wiped (d : Dynbuf) : ((d.p.map d.wiped).getD []).length = d.block.length := by
  unfold block wiped
  cases d.p with
  | none => rfl
  | some b =>
    dsimp only [Option.map_some, Option.getD_some]
    split_ifs
    · exact length_zero
    · rfl

theorem reset_shaped (s : d.Shaped) (h : Heap) :
    (d.reset h).1.Shaped ∧ (d.reset h).1.used = 0 ∧ (d.reset h).1.merase = d.merase := by
  unfold reset
  by_cases hc : d.defaultCapacity = d.capacity
  · rw [if_pos hc]
    exact ⟨⟨(length_wiped d).trans s.length, Nat.zero_le _, held_zero rfl⟩, rfl, rfl⟩
  · rw [if_neg hc]
    obtain ⟨wn, -, -, hcap, -⟩ := new_spec h d.defaultCapacity d.merase
    exact ⟨⟨wn.length.trans hcap, Nat.zero_le _, held_zero rfl⟩, rfl, rfl⟩

/-- `reset` leaves an empty buffer; under the flag it gives back only clean blocks. -/
theorem reset_spec (w : d.WF) (h : Heap) :
    (d.reset h).1.WF ∧ (d.reset h).1.used = 0 ∧ (d.reset h).1.merase = d.merase ∧
      (d.merase = true → Heap.Tidied h (d.reset h).2) := by
  obtain ⟨s', hu, he'⟩ := reset_shaped w.shaped h
  suffices htidy : d.merase = true → Clean (d.reset h).1.block ∧ Heap.Tidied h (d.reset h).2 by
    refine ⟨s'.wf fun he => ?_, hu, he', fun he => (htidy he).2⟩
    rw [hu, List.drop_zero]
    exact (htidy (he' ▸ he)).1
  intro he
  unfold reset
  by_cases hc : d.defaultCapacity = d.capacity
  · rw [if_pos hc]
    refine ⟨?_, Heap.Tidied.refl h⟩
    show Clean ((d.p.map d.wiped).getD [])
    cases hb : d.p with
    | none => exact clean_nil
    | some b => exact w.clean_wiped he hb
  · rw [if_neg hc]
    obtain ⟨wn, hun, hen, -, htidy⟩ := new_spec h d.defaultCapacity d.merase
    exact ⟨wn.clean_block (hen.trans he) hun, htidy.trans (w.tidied_release he _)⟩

/-- What `d'` has when `d` has made room: the same contents, in a block that is large enough. -/
structure Grown (d : Dynbuf) (n : Nat) (d' : Dynbuf) : Prop where
  shaped : d'.Shaped
  used : d'.used = d.used
  merase : d'.merase = d.merase
  taken : d'.block.take d.used = d.block.take d.used
  room : d.used + n ≤ d'.capacity

theorem Grown.of_taken (s : d.Shaped) {n : Nat} {d' : Dynbuf} (hlen : d'.block.length = d'.capacity)
    (hcap : d'.capacity = d.capacity + n) (hused : d'.used = d.used) (he : d'.merase = d.merase)
    (htaken : d'.block.take d.used = d.block.take d.used) : Grown d n d' := by
  have hle := s.used_le
  refine ⟨⟨hlen, ?_, ?_⟩, hused, he, htaken, ?_⟩
  · rw [hused, hcap]
    omega
  · rw [hused, htaken]
    exact s.held
  · rw [hcap]
    omega

theorem enlarge_grown (s : d.Shaped) (h : Heap) (n : Nat) : Grown d n (d.enlarge h n).1 := by
  have hused := s.used_le_length
  unfold enlarge
  by_cases hn : n = 0
  · rw [if_pos hn, hn]
    exact ⟨s, rfl, rfl, rfl, s.used_le⟩
  rw [if_neg hn]
  have hlen := h.length_malloc (d.capacity + n)
  have hcap : d.used ≤ (h.malloc (d.capacity + n)).1.length := by
    rw [hlen]
    exact Nat.le_trans s.used_le (Nat.le_add_right _ _)
  dsimp only
  by_cases he : d.merase = true
  · rw [if_pos he]
    cases hb : d.p with
    | none =>
      refine .of_taken s hlen rfl rfl rfl ?_
      rw [s.used_of_none hb]
      rfl
    | some b =>
      rw [block_of_some hb] at hused
      refine .of_taken s ((length_copy hused hcap).trans hlen) rfl rfl rfl ?_
      rw [block_of_some hb]
      exact take_copy hused
  · rw [if_neg he]
    unfold Heap.realloc
    cases hb : d.p with
    | none =>
      refine .of_taken s hlen rfl rfl rfl ?_
      rw [s.used_of_none hb]
      rfl
    | some b =>
      have hlength := s.length
      rw [block_of_some hb] at hlength hused
      have hle : b.length ≤ (h.malloc (d.capacity + n)).1.length := by
        rw [hlen, hlength]
        exact Nat.le_add_right _ _
      refine .of_taken s ((length_copy (Nat.le_refl _) hle).trans hlen) rfl rfl rfl ?_
      rw [block_of_some hb]
      show (copy _ b b.length).take d.used = b.take d.used
      unfold copy
      rw [List.take_length, List.take_append_of_le_length hused]

/-- `enlarge` copies what is in use and nothing else, and clears it where it was. -/
theorem enlarge_tidy (w : d.WF) (h : Heap) (n : Nat) (he : d.merase = true) :
    Clean ((d.enlarge h n).1.block.drop d.used) ∧ Heap.Tidied h (d.enlarge h n).2 := by
  have hused := w.shaped.used_le_length
  unfold enlarge
  by_cases hn : n = 0
  · rw [if_pos hn]
    exact ⟨w.tidy he, Heap.Tidied.refl h⟩
  rw [if_neg hn, if_pos he]
  cases hb : d.p with
  | none => exact ⟨(h.clean_malloc _).drop _, h.tidied_malloc (d.capacity + n)⟩
  | some b =>
    rw [block_of_some hb] at hused
    refine ⟨?_, (h.tidied_malloc _).trans (Heap.tidied_free _ (clean_zero ?_))⟩
    · show Clean ((copy _ b d.used).drop d.used)
      rw [drop_copy hused]
      exact (h.clean_malloc _).drop _
    · exact block_of_some hb ▸ w.tidy he

theorem prepare_grown (s : d.Shaped) (h : Heap) (n : Nat) : Grown d n (d.prepare h n).1 := by
  unfold prepare
  by_cases hf : d.freebytes < n
  · rw [if_pos hf]
    exact enlarge_grown s h n
  · rw [if_neg hf]
    refine ⟨s, rfl, rfl, rfl, ?_⟩
    have hle := s.used_le
    unfold freebytes at hf
    show d.used + n ≤ d.capacity
    omega

/-- What a buffer promises when it makes room: the same contents, in a block that is large enough. -/
structure Roomy (d : Dynbuf) (h : Heap) (n : Nat) (r : Dynbuf × Heap) : Prop where
  wf : r.1.WF
  used : r.1.used = d.used
  merase : r.1.merase = d.merase
  taken : r.1.block.take d.used = d.block.take d.used
  room : d.used + n ≤ r.1.capacity
  tidied : d.merase = true → Heap.Tidied h r.2

theorem prepare_spec (w : d.WF) (h : Heap) (n : Nat) : Roomy d h n (d.prepare h n) := by
  obtain ⟨s', hused, herase, htaken, hroom⟩ := prepare_grown w.shaped h n
  suffices htidy : d.merase = true →
      Clean ((d.prepare h n).1.block.drop d.used) ∧ Heap.Tidied h (d.prepare h n).2 by
    refine ⟨s'.wf fun he => ?_, hused, herase, htaken, hroom, fun he => (htidy he).2⟩
    rw [hused]
    exact (htidy (herase ▸ he)).1
  intro he
  unfold prepare
  by_cases hf : d.freebytes < n
  · rw [if_pos hf]
    exact enlarge_tidy w h n he
  · rw [if_neg hf]
    exact ⟨w.tidy he, Heap.Tidied.refl h⟩

/-- On a null pointer nothing is written: there is no room, so `bs` is empty. -/
theorem block_put {bs : Bytes} (hfit : d.used + bs.length ≤ d.block.length) :
    (d.put bs).block = write d.block d.used bs := by
  unfold put block
  cases hp : d.p with
  | some b => rfl
  | none =>
    rw [block_of_none hp] at hfit
    have hbs : bs = [] :=
      List.length_eq_zero_iff.mp (Nat.le_zero.mp (Nat.le_trans (Nat.le_add_left _ _) hfit))
    simp [write, hbs]

/-- What is written where there is room comes behind the contents. -/
theorem put_shaped (s : d.Shaped) {bs : Bytes} (hfit : d.used + bs.length ≤ d.capacity) :
    (d.put bs).Shaped ∧ (d.put bs).contents = d.contents ++ bs := by
  have hle := s.used_le_length
  have hlen : d.used + bs.length ≤ d.block.length := s.length.symm ▸ hfit
  refine ⟨⟨?_, hfit, ?_⟩, ?_⟩
  · rw [block_put hlen, length_write hlen]
    exact s.length
  · show ∀ x ∈ (d.put bs).block.take (d.used + bs.length), x.isData = true
    rw [block_put hlen, take_write hle]
    refine List.forall_mem_append.mpr ⟨s.held, fun x hx => ?_⟩
    obtain ⟨v, -, rfl⟩ := List.mem_map.mp hx
    rfl
  · show vals ((d.put bs).block.take (d.used + bs.length)) = _
    rw [block_put hlen, take_write hle, vals_append, vals_data]
    rfl

theorem Grown.contents {n : Nat} {d' : Dynbuf} (g : Grown d n d') : d'.contents = d.contents := by
  unfold Dynbuf.contents
  rw [g.used, g.taken]

/-- **`append`** appends; under the flag it gives back only clean blocks. -/
theorem append_spec (w : d.WF) (h : Heap) (bs : Bytes) :
    (d.append h bs).1.WF ∧ (d.append h bs).1.contents = d.contents ++ bs ∧
      (d.append h bs).1.used = d.used + bs.length ∧ (d.append h bs).1.merase = d.merase ∧
      (d.merase = true → Heap.Tidied h (d.append h bs).2) := by
  have hgrown := prepare_grown w.shaped h bs.length
  obtain ⟨w', hused, herase, -, hroom, htidied⟩ := prepare_spec w h bs.length
  unfold append
  generalize d.prepare h bs.length = r at hgrown w' hused herase hroom htidied
  obtain ⟨d', h'⟩ := r
  dsimp only at hgrown w' hused herase hroom htidied ⊢
  have hfit : d'.used + bs.length ≤ d'.capacity := hused.symm ▸ hroom
  obtain ⟨s, hcontents⟩ := put_shaped w'.shaped hfit
  refine ⟨s.wf fun he => ?_, ?_, congrArg (· + bs.length) hused, herase, htidied⟩
  · show Clean ((d'.put bs).block.drop (d'.used + bs.length))
    rw [block_put (w'.length.symm ▸ hfit), drop_write w'.shaped.used_le_length, ← List.drop_drop]
    exact (w'.tidy he).drop _
  · rw [hcontents, hgrown.contents]

/-- Where there is room, no other block is needed. -/
theorem append_of_room {bs : Bytes} (hfit : d.used + bs.length ≤ d.capacity) (h : Heap) :
    d.append h bs = (d.put bs, h) := by
  have hf : ¬ d.freebytes < bs.length := by
    unfold freebytes
    omega
  unfold append prepare
  rw [if_neg hf]

section Erase

variable {b : List Byte} {len : Nat}

/-- A buffer that is not empty has a block. -/
theorem Shaped.exists_block (s : d.Shaped) (hu : 0 < d.used) :
    ∃ b, d.p = some b ∧ d.block = b ∧ b.length = d.capacity := by
  cases hp : d.p with
  | some b => exact ⟨b, rfl, block_of_some hp, block_of_some hp ▸ s.length⟩
  | none => exact absurd (s.used_of_none hp) (Nat.ne_of_gt hu)

theorem drop_contents (hb : d.block = b) (len : Nat) :
    d.contents.drop len = vals ((b.drop len).take (d.used - len)) := by
  unfold contents vals
  rw [hb, ← List.map_drop, List.drop_take]

/-- What is left after the first `len` bytes was written there. -/
theorem Shaped.held_drop (s : d.Shaped) (hb : d.block = b) (len : Nat) :
    ∀ x ∈ (b.drop len).take (d.used - len), x.isData = true := by
  intro x hx
  rw [← List.drop_take, ← hb] at hx
  exact s.held x (List.mem_of_mem_drop hx)

/-- The block that `shrink` leaves, and that both copies stay within their blocks. -/
theorem Shaped.block_shrink (s : d.Shaped) (h : Heap) (hlen : len < d.used)
    (hfit : d.used - len ≤ d.defaultCapacity) :
    ∃ b, d.block = b ∧ d.used - len ≤ (b.drop len).length ∧
      d.used - len ≤ (h.malloc d.defaultCapacity).1.length ∧
      (d.shrink h len).1.block = copy (h.malloc d.defaultCapacity).1 (b.drop len) (d.used - len) := by
  obtain ⟨b, hp, hblock, hcap⟩ := s.exists_block (Nat.lt_of_le_of_lt (Nat.zero_le _) hlen)
  have hle := s.used_le
  refine ⟨b, hblock, ?_, ?_, ?_⟩
  · rw [List.length_drop]
    omega
  · rw [h.length_malloc]
    exact hfit
  · unfold shrink block
    rw [hp]
    rfl

theorem shrink_shaped (s : d.Shaped) (h : Heap) (hlen : len < d.used)
    (hfit : d.used - len ≤ d.defaultCapacity) :
    (d.shrink h len).1.Shaped ∧ (d.shrink h len).1.contents = d.contents.drop len := by
  obtain ⟨b, hblock, hrest, hnew, hb⟩ := s.block_shrink h hlen hfit
  refine ⟨⟨?_, hfit, ?_⟩, ?_⟩
  · rw [hb, length_copy hrest hnew, h.length_malloc]
    rfl
  · show ∀ x ∈ (d.shrink h len).1.block.take (d.used - len), x.isData = true
    rw [hb, take_copy hrest]
    exact s.held_drop hblock len
  · rw [drop_contents hblock]
    show vals ((d.shrink h len).1.block.take (d.used - len)) = _
    rw [hb, take_copy hrest]

theorem shrink_spec (w : d.WF) (h : Heap) (hlen : len < d.used) (hfit : d.used - len ≤ d.defaultCapacity) :
    (d.shrink h len).1.WF ∧ (d.shrink h len).1.contents = d.contents.drop len ∧
      (d.merase = true → Heap.Tidied h (d.shrink h len).2) := by
  obtain ⟨s, hcontents⟩ := shrink_shaped w.shaped h hlen hfit
  obtain ⟨b, -, hrest, -, hb⟩ := w.shaped.block_shrink h hlen hfit
  refine ⟨s.wf fun _ => ?_, hcontents, fun he => (h.tidied_malloc _).trans (w.tidied_release he _)⟩
  show Clean ((d.shrink h len).1.block.drop (d.used - len))
  rw [hb, drop_copy hrest]
  exact (h.clean_malloc _).drop _

/-- The block that `shift` leaves: what stays is moved, and stays within the block. -/
theorem Shaped.block_shift (s : d.Shaped) (hlen : len < d.used) :
    ∃ b, d.block = b ∧ b.length = d.capacity ∧ d.used - len ≤ (b.drop len).length ∧
      d.used - len ≤ (copy b (b.drop len) (d.used - len)).length ∧
      (copy b (b.drop len) (d.used - len)).length = b.length ∧
      (d.shift len).block =
        if d.merase then clear (copy b (b.drop len) (d.used - len)) (d.used - len) len
        else copy b (b.drop len) (d.used - len) := by
  obtain ⟨b, hp, hblock, hcap⟩ := s.exists_block (Nat.lt_of_le_of_lt (Nat.zero_le _) hlen)
  have hle := s.used_le
  have hrest : d.used - len ≤ (b.drop len).length := by rw [List.length_drop]; omega
  have hfit : d.used - len ≤ b.length := by omega
  have hmoved : (copy b (b.drop len) (d.used - len)).length = b.length := length_copy hrest hfit
  refine ⟨b, hblock, hcap, hrest, hmoved.symm ▸ hfit, hmoved, ?_⟩
  unfold shift block
  rw [hp]
  rfl

theorem shift_shaped (s : d.Shaped) (hlen : len < d.used) :
    (d.shift len).Shaped ∧ (d.shift len).contents = d.contents.drop len := by
  obtain ⟨b, hblock, hcap, hrest, hfit, hmoved, hb⟩ := s.block_shift hlen
  have htaken : (d.shift len).block.take (d.used - len) = (b.drop len).take (d.used - len) := by
    rw [hb]
    split_ifs
    · rw [take_clear hfit, take_copy hrest]
    · rw [take_copy hrest]
  refine ⟨⟨?_, ?_, ?_⟩, ?_⟩
  · rw [hb]
    show _ = d.capacity
    split_ifs
    · rw [length_clear hfit, hmoved, hcap]
    · rw [hmoved, hcap]
  · exact Nat.le_trans (Nat.sub_le _ _) s.used_le
  · show ∀ x ∈ (d.shift len).block.take (d.used - len), x.isData = true
    rw [htaken]
    exact s.held_drop hblock len
  · rw [drop_contents hblock]
    show vals ((d.shift len).block.take (d.used - len)) = _
    rw [htaken]

theorem shift_spec (w : d.WF) (hlen : len < d.used) :
    (d.shift len).WF ∧ (d.shift len).contents = d.contents.drop len := by
  obtain ⟨s, hcontents⟩ := shift_shaped w.shaped hlen
  obtain ⟨b, hblock, -, hrest, hfit, -, hb⟩ := w.shaped.block_shift hlen
  refine ⟨s.wf fun he => ?_, hcontents⟩
  -- What was moved away from is cleared; what lies behind it had no data.
  show Clean ((d.shift len).block.drop (d.used - len))
  rw [hb, if_pos (show d.merase = true from he), drop_clear hfit, drop_copy hrest]
  refine clean_zero ?_
  rw [List.drop_drop, Nat.sub_add_cancel (Nat.le_of_lt hlen), ← hblock]
  exact w.tidy he

/-- `erase` drops what it is asked to drop. -/
theorem erase_shaped (s : d.Shaped) {h : Heap} {r : Dynbuf × Heap} (hr : d.erase h len = some r) :
    r.1.Shaped ∧ r.1.contents = d.contents.drop len := by
  unfold erase at hr
  split_ifs at hr with hshort hzero hall hshrink
  · cases hr
    exact ⟨s, by rw [hzero, List.drop_zero]⟩
  · cases hr
    obtain ⟨s', hu, -⟩ := reset_shaped s h
    refine ⟨s', ?_⟩
    rw [contents_eq_nil hu, List.drop_eq_nil_of_le]
    rw [s.length_contents]
    omega
  · cases hr
    exact shrink_shaped s h (by omega) hshrink.1
  · cases hr
    exact shift_shaped s (by omega)

/-- **`erase`** leaves, under the flag, no copy of what it drops. -/
theorem erase_spec (w : d.WF) {h : Heap} {r : Dynbuf × Heap} (hr : d.erase h len = some r) :
    r.1.WF ∧ r.1.contents = d.contents.drop len ∧ (d.merase = true → Heap.Tidied h r.2) := by
  suffices hwf : r.1.WF ∧ (d.merase = true → Heap.Tidied h r.2) from
    ⟨hwf.1, (erase_shaped w.shaped hr).2, hwf.2⟩
  unfold erase at hr
  split_ifs at hr with hshort hzero hall hshrink
  · cases hr
    exact ⟨w, fun _ => Heap.Tidied.refl h⟩
  · cases hr
    obtain ⟨w', -, -, ht⟩ := reset_spec w h
    exact ⟨w', ht⟩
  · cases hr
    obtain ⟨w', -, ht⟩ := shrink_spec w h (show len < d.used by omega) hshrink.1
    exact ⟨w', ht⟩
  · cases hr
    exact ⟨(shift_spec w (show len < d.used by omega)).1, fun _ => Heap.Tidied.refl h⟩

end Erase

/-- `swap` exchanges the contents; what it does NOT keep is `WF`, where the flags differ. -/
theorem swap_shaped {other : Dynbuf} (s : d.Shaped) (so : other.Shaped) :
    (d.swap other).1.Shaped ∧ (d.swap other).2.Shaped ∧
      (d.swap other).1.contents = other.contents ∧ (d.swap other).2.contents = d.contents :=
  ⟨⟨so.length, so.used_le, so.held⟩, ⟨s.length, s.used_le, s.held⟩, rfl, rfl⟩

end Dynbuf

end Yrmcds
