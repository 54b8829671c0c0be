/-
  Runs of `cybozu::dynbuf` (cybozu/dynbuf.hpp), with the sizes the machine has.

  `Yrmcds.Dynbuf` computes capacities as natural numbers.  The source computes them as `size_t`, and
  `enlarge` adds what it was asked for to the capacity WITHOUT a test: `m_capacity + additional` is taken
  modulo 2^64.  `Dynbuf.Machine` has the functions that depend on this (`freebytes`, `enlarge`, `prepare`,
  `append`, `consume`), with what the wrapped sum leads to: `realloc` cuts the block, `memcpy` writes behind
  it (`overrun`), `realloc(p, 0)` gives the block back while `m_p` still points to it (`dangling`).
  As long as the sum does not wrap they are the functions of `Yrmcds.Dynbuf` (`Machine.fill_eq`).

  A `Pool` is any number of buffers, each with its own default capacity and flag.  What a pool IS FOR is a
  list of byte lists: `Pool.Op.model` says what each call does to it.  `Right` is all that a call promises.

  `buffers_refine`: a run keeps all its promises if and only if no call of it makes a capacity wrap.
-/
import Yrmcds.Dynbuf
import Yrmcds.Lib.Run

namespace Yrmcds

open Block

/-- `SIZE_MAX + 1`. -/
def SIZE : Nat := 2 ^ 64

namespace Dynbuf

/-- What goes wrong in memory. -/
inductive Fault where
  | overrun       -- `memcpy` writes behind the block
  | dangling      -- `realloc(p, 0)` has given the block back, and `m_p` is left as it was
deriving DecidableEq, Repr

namespace Machine

/-- `freebytes`: a difference of two `size_t`. -/
def freebytes (d : Dynbuf) : Nat :=
  if d.used ≤ d.capacity then d.capacity - d.used else SIZE - (d.used - d.capacity)

/-- `enlarge`. -/
def enlarge (d : Dynbuf) (h : Heap) (additional : Nat) : Except Fault (Dynbuf × Heap) :=
  if additional = 0 then .ok (d, h)
  else
    let newCapacity := (d.capacity + additional) % SIZE
    if d.merase then
      let x := h.malloc newCapacity
      match d.p with
      | none => .ok ({ d with p := some x.1, capacity := newCapacity }, x.2)
      | some b =>
        if newCapacity < d.used then .error .overrun
        else .ok ({ d with p := some (copy x.1 b d.used), capacity := newCapacity },
          x.2.free (zero b d.used))
    else if d.p.isSome ∧ newCapacity = 0 then .error .dangling
    else
      let x := h.resize d.p newCapacity
      .ok ({ d with p := some x.1, capacity := newCapacity }, x.2)

/-- `prepare`, without the pointer it returns. -/
def prepare (d : Dynbuf) (h : Heap) (len : Nat) : Except Fault (Dynbuf × Heap) :=
  if freebytes d < len then enlarge d h len else .ok (d, h)

/-- Writing `bs` to `m_p + m_used`, and `consume(bs.size())`. -/
def put (d : Dynbuf) (bs : Bytes) : Except Fault Dynbuf :=
  if bs = [] ∨ d.used + bs.length ≤ d.block.length then
    .ok { d.put bs with used := (d.used + bs.length) % SIZE }
  else .error .overrun

/-- `prepare(len)`, writing `bs` to the pointer it returns, and `consume(bs.size())`. -/
def fill (d : Dynbuf) (h : Heap) (len : Nat) (bs : Bytes) : Except Fault (Dynbuf × Heap) :=
  match prepare d h len with
  | .error x => .error x
  | .ok r =>
    match put r.1 bs with
    | .error x => .error x
    | .ok d' => .ok (d', r.2)

/-- `append`: the same steps, where all of the space asked for is used. -/
def append (d : Dynbuf) (h : Heap) (bs : Bytes) : Except Fault (Dynbuf × Heap) := fill d h bs.length bs

end Machine

/-! ## Where nothing wraps -/

/-- A buffer as its member functions leave it, on a machine with 64-bit sizes. -/
structure Sized (d : Dynbuf) : Prop extends Shaped d where
  capacity_lt : d.capacity < SIZE
  default_lt : d.defaultCapacity < SIZE

section Ideal

variable {d : Dynbuf} {h : Heap} {n : Nat} {bs : Bytes}

theorem Machine.freebytes_eq (s : d.Sized) : Machine.freebytes d = d.freebytes := by
  unfold Machine.freebytes Dynbuf.freebytes
  rw [if_pos s.used_le]

theorem Machine.enlarge_eq (s : d.Sized) (h : Heap) (hfit : d.capacity + n < SIZE) :
    Machine.enlarge d h n = .ok (d.enlarge h n) := by
  unfold Machine.enlarge Dynbuf.enlarge
  by_cases hn : n = 0
  · rw [if_pos hn, if_pos hn]
  · rw [if_neg hn, if_neg hn, Nat.mod_eq_of_lt hfit]
    have hused := s.used_le
    dsimp only
    by_cases he : d.merase = true
    · rw [if_pos he, if_pos he]
      cases hp : d.p with
      | none => rfl
      | some b =>
        dsimp only
        rw [if_neg (by omega)]
    · rw [if_neg he, if_neg he, if_neg (by omega), Heap.resize_eq_realloc]
      intro b hb
      rw [← block_of_some hb, s.length]
      exact Nat.le_add_right _ _

theorem Machine.prepare_eq (s : d.Sized) (h : Heap)
    (hfit : d.freebytes < n → d.capacity + n < SIZE) : Machine.prepare d h n = .ok (d.prepare h n) := by
  unfold Machine.prepare Dynbuf.prepare
  rw [Machine.freebytes_eq s]
  by_cases hf : d.freebytes < n
  · rw [if_pos hf, if_pos hf]
    exact Machine.enlarge_eq s h (hfit hf)
  · rw [if_neg hf, if_neg hf]

theorem capacity_prepare_lt (s : d.Sized) (h : Heap) (hfit : d.freebytes < n → d.capacity + n < SIZE) :
    (d.prepare h n).1.capacity < SIZE := by
  unfold prepare
  split_ifs with hf
  · unfold enlarge
    split_ifs
    · exact s.capacity_lt
    · cases d.p <;> exact hfit hf
    · exact hfit hf
  · exact s.capacity_lt

theorem defaultCapacity_prepare (d : Dynbuf) (h : Heap) (n : Nat) :
    (d.prepare h n).1.defaultCapacity = d.defaultCapacity := by
  unfold prepare
  split_ifs
  · unfold enlarge
    split_ifs
    · rfl
    · cases d.p <;> rfl
    · rfl
  · rfl

theorem Machine.put_eq (s : d.Shaped) (hfit : d.used + bs.length ≤ d.capacity) (hcap : d.capacity < SIZE) :
    Machine.put d bs = .ok (d.put bs) := by
  have hmod : (d.used + bs.length) % SIZE = d.used + bs.length :=
    Nat.mod_eq_of_lt (Nat.lt_of_le_of_lt hfit hcap)
  unfold Machine.put
  rw [s.length, if_pos (.inr hfit), hmod]
  rfl

/-- **Where the capacity does not wrap, a buffer does what it is for**: it has the space, and appends. -/
theorem Machine.fill_eq (s : d.Sized) (h : Heap) (hfit : d.freebytes < n → d.capacity + n < SIZE)
    (hbs : bs.length ≤ n) :
    ∃ r, Machine.fill d h n bs = .ok r ∧ r.1.Sized ∧ r.1.contents = d.contents ++ bs := by
  have hgrown := prepare_grown s.toShaped h n
  have hcap := capacity_prepare_lt s h hfit
  have hdef := defaultCapacity_prepare d h n
  unfold Machine.fill
  rw [Machine.prepare_eq s h hfit]
  generalize d.prepare h n = r at hgrown hcap hdef
  obtain ⟨d', h'⟩ := r
  dsimp only at hgrown hcap hdef ⊢
  have hput : d'.used + bs.length ≤ d'.capacity := by
    have hroom := hgrown.room
    rw [hgrown.used]
    omega
  obtain ⟨s', hcontents⟩ := put_shaped hgrown.shaped hput
  rw [Machine.put_eq hgrown.shaped hput hcap]
  refine ⟨(d'.put bs, h'), rfl, ⟨s', hcap, ?_⟩, by rw [hcontents, hgrown.contents]⟩
  show d'.defaultCapacity < SIZE
  rw [hdef]
  exact s.default_lt

/-- A capacity that wraps: what `enlarge` leaves, if it ends at all. -/
theorem Machine.enlarge_ok (s : d.Sized) (hn : n ≠ 0) {r : Dynbuf × Heap}
    (hr : Machine.enlarge d h n = .ok r) :
    r.1.used = d.used ∧ r.1.capacity = (d.capacity + n) % SIZE ∧ r.1.block.length = r.1.capacity := by
  unfold Machine.enlarge at hr
  rw [if_neg hn] at hr
  dsimp only at hr
  by_cases he : d.merase = true
  · rw [if_pos he] at hr
    cases hp : d.p with
    | none =>
      rw [hp] at hr
      cases hr
      exact ⟨rfl, rfl, h.length_malloc _⟩
    | some b =>
      rw [hp] at hr
      dsimp only at hr
      split_ifs at hr with hlt
      cases hr
      have hused := s.used_le_length
      rw [block_of_some hp] at hused
      have hlen := h.length_malloc ((d.capacity + n) % SIZE)
      exact ⟨rfl, rfl, (length_copy hused (hlen.symm ▸ Nat.le_of_not_lt hlt)).trans hlen⟩
  · rw [if_neg he] at hr
    split_ifs at hr
    cases hr
    exact ⟨rfl, rfl, h.length_resize _ _⟩

/-- **A capacity that wraps is too small** for what was asked for. -/
theorem Machine.prepare_wrapped (s : d.Sized) (hf : d.freebytes < n) (hwrap : SIZE ≤ d.capacity + n)
    (hn : n < SIZE) {r : Dynbuf × Heap} (hr : Machine.prepare d h n = .ok r) :
    r.1.capacity < r.1.used + n ∧ r.1.block.length = r.1.capacity := by
  have hcap := s.capacity_lt
  have hsum : (d.capacity + n) % SIZE < n := by
    rw [Nat.mod_eq_sub_mod hwrap, Nat.mod_eq_of_lt (by omega)]
    omega
  unfold Machine.prepare at hr
  rw [Machine.freebytes_eq s, if_pos hf] at hr
  obtain ⟨-, hnew, hlen⟩ := Machine.enlarge_ok s (by omega) hr
  exact ⟨by omega, hlen⟩

/-- ... and `append` writes behind the block. -/
theorem Machine.append_wrapped (s : d.Sized) (hf : d.freebytes < bs.length)
    (hwrap : SIZE ≤ d.capacity + bs.length) (hn : bs.length < SIZE) (r : Dynbuf × Heap) :
    Machine.append d h bs ≠ .ok r := by
  intro hr
  unfold Machine.append Machine.fill at hr
  cases hp : Machine.prepare d h bs.length with
  | error x =>
    rw [hp] at hr
    cases hr
  | ok a =>
    obtain ⟨hlt, hlen⟩ := Machine.prepare_wrapped s hf hwrap hn hp
    rw [hp] at hr
    dsimp only at hr
    have hbs : bs ≠ [] := fun hnil => by
      rw [hnil] at hf
      cases hf
    unfold Machine.put at hr
    rw [if_neg (not_or.mpr ⟨hbs, by omega⟩)] at hr
    cases hr

theorem new_sized (h : Heap) {c : Nat} (hc : c < SIZE) (erase : Bool) :
    (new h c erase).1.Sized ∧ (new h c erase).1.contents = [] := by
  obtain ⟨w, hu, -, hcap, -⟩ := new_spec h c erase
  refine ⟨⟨w.shaped, by rw [hcap]; exact hc, ?_⟩, contents_eq_nil hu⟩
  unfold new
  split_ifs <;> exact hc

theorem reset_sized (s : d.Sized) (h : Heap) : (d.reset h).1.Sized ∧ (d.reset h).1.contents = [] := by
  obtain ⟨s', hu, -⟩ := reset_shaped s.toShaped h
  refine ⟨⟨s', ?_, ?_⟩, contents_eq_nil hu⟩
  · unfold reset
    split_ifs
    · exact s.capacity_lt
    · exact s.default_lt
  · unfold reset
    split_ifs <;> exact s.default_lt

theorem erase_sized (s : d.Sized) {r : Dynbuf × Heap} (hr : d.erase h n = some r) :
    r.1.Sized ∧ r.1.contents = d.contents.drop n := by
  obtain ⟨s', hc⟩ := erase_shaped s.toShaped hr
  suffices hlt : r.1.capacity < SIZE ∧ r.1.defaultCapacity < SIZE from ⟨⟨s', hlt.1, hlt.2⟩, hc⟩
  have hreset := (reset_sized s h).1
  unfold erase at hr
  split_ifs at hr
  · cases hr; exact ⟨s.capacity_lt, s.default_lt⟩
  · cases hr; exact ⟨hreset.capacity_lt, hreset.default_lt⟩
  · cases hr; exact ⟨s.default_lt, s.default_lt⟩
  · cases hr; exact ⟨s.capacity_lt, s.default_lt⟩

theorem swap_sized {other : Dynbuf} (s : d.Sized) (so : other.Sized) :
    (d.swap other).1.Sized ∧ (d.swap other).2.Sized := by
  obtain ⟨sd, sother, -, -⟩ := swap_shaped s.toShaped so.toShaped
  exact ⟨⟨sd, so.capacity_lt, s.default_lt⟩, ⟨sother, s.capacity_lt, so.default_lt⟩⟩

/-- `erase` fails exactly if there is less than it is asked to drop. -/
theorem erase_eq_none_iff (s : d.Sized) (h : Heap) (len : Nat) :
    d.erase h len = none ↔ d.contents.length < len := by
  rw [s.length_contents]
  unfold erase
  split_ifs with hlt
  · exact ⟨fun _ => hlt, fun _ => rfl⟩
  all_goals exact ⟨fun hn => (by cases hn), fun hl => absurd hl hlt⟩

end Ideal

end Dynbuf

/-! ## Pools of buffers -/

open Dynbuf

/-- Several buffers on one heap. -/
structure Pool where
  bufs : List Dynbuf
  heap : Heap
  threw : Bool := false          -- the last call has thrown `std::invalid_argument`

/-- The calls.  Lengths are of type `size_t`; a caller of `prepare` writes at most what it has asked for. -/
inductive Pool.Op where
  | append (i : Nat) (bs : Bytes) (lt : bs.length < SIZE)
  | fill (i : Nat) (len : UInt64) (bs : Bytes) (le : bs.length ≤ len.toNat)
  | erase (i : Nat) (len : UInt64)
  | reset (i : Nat)
  | swap (i j : Nat)

namespace Pool

/-- The constructors, one after the other. -/
def create : Heap → List (UInt64 × Bool) → Pool
  | h, [] => { bufs := [], heap := h }
  | h, c :: cs =>
    let x := Dynbuf.new h c.1.toNat c.2
    let s := create x.2 cs
    { s with bufs := x.1 :: s.bufs }

/-- A call of buffer `i`; there is no call of a buffer that does not exist. -/
def on (s : Pool) (i : Nat) (f : Dynbuf → Except Fault (Dynbuf × Heap)) : Except Fault Pool :=
  match s.bufs[i]? with
  | none => .ok { s with threw := false }
  | some d =>
    match f d with
    | .error x => .error x
    | .ok r => .ok { bufs := s.bufs.set i r.1, heap := r.2 }

/-- One call, on the buffer it names. -/
def step (s : Pool) : Op → Except Fault Pool
  | .append i bs _ => s.on i fun d => Machine.append d s.heap bs
  | .fill i len bs _ => s.on i fun d => Machine.fill d s.heap len.toNat bs
  | .erase i len =>
    match s.bufs[i]? with
    | none => .ok { s with threw := false }
    | some d =>
      match d.erase s.heap len.toNat with
      | none => .ok { s with threw := true }
      | some r => .ok { bufs := s.bufs.set i r.1, heap := r.2 }
  | .reset i => s.on i fun d => .ok (d.reset s.heap)
  | .swap i j =>
    match s.bufs[i]?, s.bufs[j]? with
    | some d, some other =>
      .ok { s with bufs := (s.bufs.set i (d.swap other).1).set j (d.swap other).2, threw := false }
    | _, _ => .ok { s with threw := false }

/-- What the buffers have in them. -/
def contents (s : Pool) : List Bytes := s.bufs.map Dynbuf.contents

/-- **What the calls are for**, on lists of bytes. -/
def Op.model (m : List Bytes) : Op → List Bytes
  | .append i bs _ => m.modify i (· ++ bs)
  | .fill i _ bs _ => m.modify i (· ++ bs)
  | .erase i len => m.modify i fun bs => if bs.length < len.toNat then bs else bs.drop len.toNat
  | .reset i => m.modify i fun _ => []
  | .swap i j =>
    match m[i]?, m[j]? with
    | some a, some b => (m.set i b).set j a
    | _, _ => m

/-- Which calls fail. -/
def Op.fails (m : List Bytes) : Op → Bool
  | .erase i len => m[i]?.any fun bs => bs.length < len.toNat
  | _ => false

/-- The space that `prepare` leaves. -/
def Room (s : Pool) : Op → Prop
  | .fill i len _ _ => ∀ d, s.bufs[i]? = some d →
      ∃ r, Machine.prepare d s.heap len.toNat = .ok r ∧ r.1.used + len.toNat ≤ r.1.capacity
  | _ => True

/-- **All that a call promises**: it ends without a fault, the contents are those of the model, `size()` is
    their length and not more than the capacity, it throws exactly if it is to fail, and `prepare` has left
    the space it was asked for. -/
structure Right (s : Pool) (op : Op) : Prop where
  done : ∃ s', s.step op = .ok s' ∧ s'.contents = op.model s.contents ∧
    (∀ d ∈ s'.bufs, d.used = d.contents.length ∧ d.used ≤ d.capacity) ∧ s'.threw = op.fails s.contents
  room : s.Room op

/-- Buffer `i`, if it has no `n` free bytes, can be enlarged by `n` without going beyond `SIZE_MAX`. -/
def Holds (s : Pool) (i n : Nat) : Prop :=
  ∀ d, s.bufs[i]? = some d → d.capacity - d.used < n → d.capacity + n < SIZE

/-- The call does not make a capacity wrap. -/
def Fits (s : Pool) : Op → Prop
  | .append i bs _ => s.Holds i bs.length
  | .fill i len _ _ => s.Holds i len.toNat
  | _ => True

/-- What every call that fits keeps. -/
def Ordered (s : Pool) : Prop := ∀ d ∈ s.bufs, d.Sized

variable {s s' : Pool} {i j : Nat}

theorem Ordered.of_get (hs : s.Ordered) {d : Dynbuf} (hd : s.bufs[i]? = some d) : d.Sized :=
  hs d (List.mem_of_getElem? hd)

theorem create_ordered (h : Heap) (cs : List (UInt64 × Bool)) :
    (create h cs).Ordered ∧ (create h cs).contents = cs.map fun _ => [] := by
  induction cs generalizing h with
  | nil => exact ⟨fun _ => (by cases ·), rfl⟩
  | cons c cs ih =>
    obtain ⟨hnew, hempty⟩ := new_sized h c.1.toNat_lt c.2
    obtain ⟨ih1, ih2⟩ := ih (Dynbuf.new h c.1.toNat c.2).2
    refine ⟨fun d hd => ?_, ?_⟩
    · rcases List.mem_cons.mp hd with rfl | hd
      · exact hnew
      · exact ih1 d hd
    · exact congrArg₂ List.cons hempty ih2

theorem contents_get (s : Pool) (i : Nat) : s.contents[i]? = s.bufs[i]?.map Dynbuf.contents :=
  List.getElem?_map

/-- One buffer is replaced. -/
theorem contents_set {d d' : Dynbuf} (hd : s.bufs[i]? = some d) {f : Bytes → Bytes}
    (hf : d'.contents = f d.contents) (h : Heap) (t : Bool) :
    (Pool.mk (s.bufs.set i d') h t).contents = s.contents.modify i f := by
  show (s.bufs.set i d').map Dynbuf.contents = _
  rw [List.map_set, List.modify_eq_set_getElem?, contents_get, hd, hf]
  rfl

theorem ordered_set (hs : s.Ordered) {d' : Dynbuf} (hd' : d'.Sized) (h : Heap) (t : Bool) :
    (Pool.mk (s.bufs.set i d') h t).Ordered := by
  intro d hd
  rcases List.mem_or_eq_of_mem_set hd with hd | rfl
  · exact hs d hd
  · exact hd'

/-- Nothing is done where there is no buffer. -/
theorem contents_modify_none (hi : s.bufs[i]? = none) (f : Bytes → Bytes) :
    s.contents.modify i f = s.contents := by
  rw [List.modify_eq_set_getElem?, contents_get, hi]
  rfl

/-- A call of one buffer that does `f` to its contents. -/
theorem on_spec (hs : s.Ordered) {g : Dynbuf → Except Fault (Dynbuf × Heap)} {f : Bytes → Bytes}
    (hg : ∀ d, s.bufs[i]? = some d → ∃ r, g d = .ok r ∧ r.1.Sized ∧ r.1.contents = f d.contents) :
    ∃ s', s.on i g = .ok s' ∧ s'.Ordered ∧ s'.contents = s.contents.modify i f ∧ s'.threw = false := by
  unfold on
  cases hi : s.bufs[i]? with
  | none => exact ⟨_, rfl, hs, (contents_modify_none hi f).symm, rfl⟩
  | some d =>
    obtain ⟨r, hr, hsized, hcontents⟩ := hg d hi
    dsimp only
    rw [hr]
    exact ⟨_, rfl, ordered_set hs hsized _ _, contents_set hi hcontents _ _, rfl⟩

/-- A call that ends has ended in its buffer. -/
theorem exists_of_on {g : Dynbuf → Except Fault (Dynbuf × Heap)} {d : Dynbuf} (hd : s.bufs[i]? = some d)
    (h : s.on i g = .ok s') : ∃ r, g d = .ok r := by
  unfold on at h
  rw [hd] at h
  dsimp only at h
  cases hg : g d with
  | ok r => exact ⟨r, rfl⟩
  | error x =>
    rw [hg] at h
    cases h

/-- **One call that fits.** -/
theorem step_spec (hs : s.Ordered) {op : Op} (hf : s.Fits op) :
    ∃ s', s.step op = .ok s' ∧ s'.Ordered ∧ s'.contents = op.model s.contents ∧
      s'.threw = op.fails s.contents := by
  cases op with
  | append i bs lt =>
    exact on_spec hs fun d hd => Machine.fill_eq (hs.of_get hd) s.heap (hf d hd) (Nat.le_refl _)
  | fill i len bs le =>
    exact on_spec hs fun d hd => Machine.fill_eq (hs.of_get hd) s.heap (hf d hd) le
  | reset i => exact on_spec hs fun d hd => ⟨_, rfl, reset_sized (hs.of_get hd) s.heap⟩
  | erase i len =>
    dsimp only [step, Op.model, Op.fails]
    rw [contents_get]
    cases hi : s.bufs[i]? with
    | none => exact ⟨_, rfl, hs, (contents_modify_none hi _).symm, rfl⟩
    | some d =>
      have hd := hs.of_get hi
      have hfails := erase_eq_none_iff hd s.heap len.toNat
      dsimp only [Option.map_some, Option.any_some]
      cases hr : d.erase s.heap len.toNat with
      | none =>
        have hlt := hfails.mp hr
        refine ⟨_, rfl, hs, ?_, (decide_eq_true hlt).symm⟩
        have hsame : s.bufs.set i d = s.bufs := by
          obtain ⟨hlen, hget⟩ := List.getElem?_eq_some_iff.mp hi
          rw [← hget, List.set_getElem_self hlen]
        have := contents_set (f := fun bs => if bs.length < len.toNat then bs else bs.drop len.toNat) hi
          (if_pos hlt).symm s.heap true
        rwa [hsame] at this
      | some r =>
        have hge : ¬ d.contents.length < len.toNat := fun hlt => by
          rw [hfails.mpr hlt] at hr
          cases hr
        obtain ⟨hsized, hcontents⟩ := erase_sized hd hr
        refine ⟨_, rfl, ordered_set hs hsized _ _, contents_set hi ?_ _ _, (decide_eq_false hge).symm⟩
        rw [if_neg hge, hcontents]
  | swap i j =>
    dsimp only [step, Op.model, Op.fails]
    rw [contents_get, contents_get]
    cases hi : s.bufs[i]? with
    | none => exact ⟨_, rfl, hs, rfl, rfl⟩
    | some d =>
      cases hj : s.bufs[j]? with
      | none => exact ⟨_, rfl, hs, rfl, rfl⟩
      | some other =>
        obtain ⟨h1, h2⟩ := swap_sized (hs.of_get hi) (hs.of_get hj)
        refine ⟨_, rfl, fun e he => ?_, ?_, rfl⟩
        · rcases List.mem_or_eq_of_mem_set he with he | rfl
          · exact ordered_set hs h1 s.heap false e he
          · exact h2
        · show ((s.bufs.set i _).set j _).map Dynbuf.contents = _
          rw [List.map_set, List.map_set]
          rfl

theorem right_of_fits (hs : s.Ordered) {op : Op} (hf : s.Fits op) : s.Right op := by
  obtain ⟨s', hstep, hs', hcontents, hthrew⟩ := step_spec hs hf
  refine ⟨⟨s', hstep, hcontents, fun d hd => ?_, hthrew⟩, ?_⟩
  · exact ⟨(hs' d hd).length_contents.symm, (hs' d hd).used_le⟩
  · cases op with
    | fill i len bs le =>
      intro d hd
      have hsized := hs.of_get hd
      refine ⟨_, Machine.prepare_eq hsized s.heap (hf d hd), ?_⟩
      have hgrown := prepare_grown hsized.toShaped s.heap len.toNat
      rw [hgrown.used]
      exact hgrown.room
    | _ => trivial

/-- **A call that makes a capacity wrap breaks a promise**: `prepare` leaves too little space, and `append`
    writes behind the block. -/
theorem fits_of_right (hs : s.Ordered) {op : Op} (hr : s.Right op) : s.Fits op := by
  cases op with
  | append i bs lt =>
    intro d hd hfree
    by_contra hwrap
    obtain ⟨s', hstep, -⟩ := hr.done
    obtain ⟨r, ha⟩ := exists_of_on hd hstep
    exact Machine.append_wrapped (hs.of_get hd) hfree (Nat.le_of_not_lt hwrap) lt r ha
  | fill i len bs le =>
    intro d hd hfree
    by_contra hwrap
    obtain ⟨r, hprepare, hroom⟩ := hr.room d hd
    obtain ⟨hlt, -⟩ :=
      Machine.prepare_wrapped (hs.of_get hd) hfree (Nat.le_of_not_lt hwrap) len.toNat_lt hprepare
    omega
  | _ => trivial

/-- A run of calls that fit. -/
theorem run_model : ∀ (ops : List Op) {s : Pool}, s.Ordered → Run.Along Fits step s ops →
    ∃ s', Run.run step s ops = .ok s' ∧ s'.contents = ops.foldl Op.model s.contents := by
  intro ops
  induction ops with
  | nil => intro s _ _; exact ⟨s, rfl, rfl⟩
  | cons op ops ih =>
    intro s hs hal
    obtain ⟨s1, hstep, hs1, hcontents, -⟩ := step_spec hs hal.1
    obtain ⟨s', hrun, hend⟩ := ih hs1 (hal.2 s1 hstep)
    refine ⟨s', by rw [Run.run_cons_ok hstep, hrun], ?_⟩
    rw [hend, hcontents]
    rfl

theorem Ordered.step (hs : s.Ordered) {op : Op} (hf : s.Fits op) (h : s.step op = .ok s') : s'.Ordered := by
  obtain ⟨s1, hstep, hs1, -⟩ := step_spec hs hf
  rw [h, Except.ok.injEq] at hstep
  exact hstep ▸ hs1

end Pool

/-- **A run of calls keeps all its promises if and only if no call of it makes a capacity wrap**, and then the
    buffers have in them what the list model says. -/
theorem buffers_refine (h : Heap) (cs : List (UInt64 × Bool)) (ops : List Pool.Op) :
    (Run.Along Pool.Right Pool.step (Pool.create h cs) ops ∧
      ∃ s, Run.run Pool.step (Pool.create h cs) ops = .ok s ∧
        s.contents = ops.foldl Pool.Op.model (cs.map fun _ => [])) ↔
      Run.Along Pool.Fits Pool.step (Pool.create h cs) ops := by
  obtain ⟨hs, hempty⟩ := Pool.create_ordered h cs
  have hiff : Run.Along Pool.Right Pool.step (Pool.create h cs) ops ↔
      Run.Along Pool.Fits Pool.step (Pool.create h cs) ops :=
    Run.along_iff_along (fun _ _ hi => ⟨Pool.fits_of_right hi, Pool.right_of_fits hi⟩)
      (fun _ _ _ hi hf hstep => hi.step hf hstep) ops hs
  refine ⟨fun hr => hiff.mp hr.1, fun hf => ⟨hiff.mpr hf, ?_⟩⟩
  rw [← hempty]
  exact Pool.run_model ops hs hf

/-- **A capacity that wraps**: a buffer of 5 bytes has `abcde` in it, and `prepare` is asked for 2^64 - 3 more.
    The new capacity is 2: the block is cut to `ab`, five bytes are said to be in use, and there is no free
    space at all. -/
theorem prepare_wraps :
    let h : Heap := { fill := fun _ _ => 0, moves := fun _ => false, count := 0, freed := [] }
    let abcde : Pool.Op := .append 0 [97, 98, 99, 100, 101] (by decide +kernel)
    let huge : Pool.Op := .fill 0 0xfffffffffffffffd [] (Nat.zero_le _)
    let seen := fun ops => (Run.run Pool.step (Pool.create h [(5, false)]) ops).toOption.map fun s =>
      s.bufs.map fun d => (d.used, d.capacity, d.contents)
    seen [abcde] = some [(5, 5, [97, 98, 99, 100, 101])] ∧ seen [abcde, huge] = some [(5, 2, [97, 98])] := by
  decide +kernel

end Yrmcds
