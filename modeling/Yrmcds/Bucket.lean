/-
  `cybozu::hash_map` down to its pointers (cybozu/hash_map.hpp, `hash_map::bucket`).

  An `ItemMap` is the map as it is in memory: a vector of `m_objects` pointers and the heap of items.  The
  loops of a bucket are the one loop of `Yrmcds.Lib.Linked`: `item** p` is a `Slot`, a block that does not
  have the key is passed over, and the visitor of each function says what its loop body does with one that
  has — hand it to the callback and return (`apply_nolock`), unlink it and return (`remove_nolock`), ask the
  predicate first (`remove_if`), or, on every block, ask the predicate and go on (`gc`, `foreach`).

  `Holds` ties it to the address-carrying table of `Yrmcds.HashMap`, the model every other part of this
  development works with.  `applyNolock_refines` and its companions say that each member function does in
  memory what the table's function does, at the address that `new` has handed out, and that it never reads
  a freed item and never goes round for ever.
-/
import Yrmcds.HashMap
import Yrmcds.Lib.Linked

namespace Yrmcds

open ChainTable Linked

/-- `hash_map` in memory: `hash_key::hash`, the allocator (any that does not hand out an address which is
    in use), and the memory. -/
structure ItemMap (α : Type) where
  hash : Key → Nat
  alloc : List Nat → Nat
  fresh : ∀ live, alloc live ∉ live
  mem : Memory Key α

namespace ItemMap

variable {α σ ε : Type}

/-- `hash_map(buckets)`, with `m_size` = `n + 1`: no bucket has an item. -/
def init (hash : Key → Nat) (alloc : List Nat → Nat) (fresh : ∀ live, alloc live ∉ live) (n : Nat) :
    ItemMap α := ⟨hash, alloc, fresh, ⟨List.replicate (n + 1) none, ∅⟩⟩

variable (m : ItemMap α)

/-- `bucket_count`. -/
def bucketCount : Nat := m.mem.roots.length

/-- `get_bucket`, by its number. -/
def getBucket (key : Key) : Nat := m.hash key % m.bucketCount

/-- A loop over a list that takes more rounds than there are items never ends. -/
def rounds : Nat := m.mem.blocks.keys.length + 1

/-- The loop over bucket `i`. -/
def loop (i : Nat) (test : Key → Bool) (visit : Visitor Key α σ ε) (st : σ) :
    Except (Fault ε) (Bool × ItemMap α × σ) :=
  match traverse test visit m.rounds (.root i) m.mem st with
  | .ok (r, mem, st') => .ok (r, { m with mem := mem }, st')
  | .error x => .error x

/-- `if( ! h ) return false;  return h(p->key, p->object);` -/
def handle (h : Option (HashMap.Handler α σ ε)) : Visitor Key α (Bool × σ) ε := fun a k o x =>
  match h with
  | none => .ok (.halt, o, false, x.2)
  | some h =>
    match h ⟨a, k⟩ o x.2 with
    | .ok (r, o', st') => .ok (.halt, o', r, st')
    | .error e => .error e

/-- `m_objects = new item(key, c, m_objects);`, the new item being at `a`. -/
def pushFront (i : Nat) (key : Key) (a : Nat) (o : α) : ItemMap α :=
  { m with mem := (m.mem.new a ⟨key, o, (m.mem.roots[i]?).getD none⟩).store (.root i) (some a) }

/-- `apply_nolock`; `apply` is the same under the lock of the bucket. -/
def applyNolock (key : Key) (h : Option (HashMap.Handler α σ ε))
    (c : Option (HashMap.Creator α σ)) (st : σ) : Except (Fault ε) (Bool × ItemMap α × σ) :=
  match m.loop (m.getBucket key) (fun k => decide (k = key)) (handle h) (false, st) with
  | .error x => .error x
  | .ok (true, m', r, st') => .ok (r, m', st')
  | .ok (false, m', _, st') =>
    match c with
    | none => .ok (false, m', st')
    | some c =>
      let a := m'.alloc m'.mem.blocks.keys
      let x := c ⟨a, key⟩ st'
      .ok (true, m'.pushFront (m.getBucket key) key a x.1, x.2)

/-- `*p = (*p)->next;  delete to_delete;  if( callback ) callback(key);  return true;` -/
def drop (key : Key) (callback : Option (Key → σ → σ)) : Visitor Key α σ ε := fun _ _ o st =>
  match callback with
  | none => .ok (.cutHalt, o, st)
  | some f => .ok (.cutHalt, o, f key st)

/-- `remove_nolock`. -/
def removeNolock (key : Key) (callback : Option (Key → σ → σ)) (st : σ) :
    Except (Fault ε) (Bool × ItemMap α × σ) :=
  m.loop (m.getBucket key) (fun k => decide (k = key)) (drop key callback) st

/-- `if( pred(key, (*p)->object) ) { .. delete to_delete; }  return true;` -/
def dropIf (key : Key) (pred : Key → α → σ → Except ε (Bool × α × σ)) : Visitor Key α σ ε := fun _ _ o st =>
  match pred key o st with
  | .ok (true, o', st') => .ok (.cutHalt, o', st')
  | .ok (false, o', st') => .ok (.halt, o', st')
  | .error e => .error e

/-- `remove_if`. -/
def removeIf (key : Key) (pred : Key → α → σ → Except ε (Bool × α × σ)) (st : σ) :
    Except (Fault ε) (Bool × ItemMap α × σ) :=
  m.loop (m.getBucket key) (fun k => decide (k = key)) (dropIf key pred) st

/-- The loop body of `gc`. -/
def collect (pred : KeyRef → α → σ → Except ε (Bool × α × σ)) : Visitor Key α σ ε := fun a k o st =>
  match pred ⟨a, k⟩ o st with
  | .ok (true, o', st') => .ok (.cut, o', st')
  | .ok (false, o', st') => .ok (.pass, o', st')
  | .error e => .error e

/-- `bucket::gc` on bucket `i`. -/
def gc (i : Nat) (pred : KeyRef → α → σ → Except ε (Bool × α × σ)) (st : σ) :
    Except (Fault ε) (ItemMap α × σ) :=
  match m.loop i (fun _ => true) (collect pred) st with
  | .ok (_, m', st') => .ok (m', st')
  | .error x => .error x

/-- A predicate that collects nothing. -/
def keep (pred : KeyRef → α → σ → Except ε (α × σ)) : KeyRef → α → σ → Except ε (Bool × α × σ) :=
  fun k o st =>
    match pred k o st with
    | .ok (o', st') => .ok (false, o', st')
    | .error e => .error e

/-- `bucket::foreach` on bucket `i`: its loop is that of a `gc` which collects nothing. -/
def foreachBucket (i : Nat) (pred : KeyRef → α → σ → Except ε (α × σ)) (st : σ) :
    Except (Fault ε) (ItemMap α × σ) := m.gc i (keep pred) st

/-- `hash_map::foreach`: bucket after bucket. -/
def foreach (pred : KeyRef → α → σ → Except ε (α × σ)) (st : σ) :
    Except (Fault ε) (ItemMap α × σ) :=
  (List.range m.bucketCount).foldlM (fun x i => x.1.foreachBucket i pred x.2) (m, st)

/-! ## What can be seen of it -/

/-- The items of bucket `i`, in list order. -/
def items (i : Nat) : List (Cell Key α) :=
  walk m.mem m.rounds ((m.mem.roots[i]?).getD none)

/-- All keys, bucket after bucket. -/
def keys : List Key := (List.range m.bucketCount).flatMap fun i => (m.items i).map Cell.key

/-- What a search for the key finds in its bucket: where the item is, and its object. -/
def lookup (key : Key) : Option (Nat × α) :=
  ((m.items (m.getBucket key)).find? fun c => c.key = key).map fun c => (c.addr, c.val)

end ItemMap

/-! ## The table it holds -/

/-- The same table, whose next new block is `a`. -/
def steer {α : Type} (t : HashMap α) (a : Nat) : HashMap α :=
  { t with
    alloc := fun live => if a ∈ live then t.alloc live else a
    fresh := by
      intro live
      by_cases h : a ∈ live
      · rw [if_pos h]; exact t.fresh live
      · rw [if_neg h]; exact h }

theorem newAddr_steer {α : Type} (t : HashMap α) {a : Nat} (ha : a ∉ t.addrs) : (steer t a).newAddr = a :=
  if_neg ha

namespace ItemMap

variable {α σ ε : Type} {m : ItemMap α} {t : HashMap α}

/-- The map in memory holds the table `t`. -/
structure Holds (m : ItemMap α) (t : HashMap α) : Prop where
  hash : m.hash = t.hash
  mem : Represents m.mem t

theorem holds_init (hash : Key → Nat) (alloc : List Nat → Nat) (fresh : ∀ live, alloc live ∉ live)
    (n : Nat) :
    (init hash alloc fresh n : ItemMap α).Holds (Table.empty hash alloc fresh n) :=
  ⟨rfl, represents_empty hash alloc fresh n⟩

namespace Holds

theorem bucketCount (h : m.Holds t) : m.bucketCount = t.buckets.length := h.mem.length

theorem getBucket (h : m.Holds t) (key : Key) : m.getBucket key = t.index key := by
  unfold ItemMap.getBucket Table.index
  rw [h.hash, h.bucketCount]

/-- Which block comes next does not matter. -/
theorem congr {t' : HashMap α} (h : m.Holds t) (hh : t'.hash = t.hash) (hb : t'.buckets = t.buckets) :
    m.Holds t' := by
  refine ⟨h.hash.trans hh.symm, ?_, ?_, fun a => ?_⟩
  · rw [h.mem.length, hb]
  · rw [hb]
    exact h.mem.hangs
  · rw [h.mem.live a]
    unfold Table.addrs Table.cells
    rw [hb]

theorem steer (h : m.Holds t) (a : Nat) : m.Holds (steer t a) := h.congr rfl rfl

theorem bucket (_ : m.Holds t) (key : Key) : t.buckets[t.index key]? = some (t.chain key) := by
  unfold Table.chain
  rw [List.getElem?_eq_getElem (t.index_lt key)]
  rfl

/-- A loop over one bucket. -/
theorem loop (h : m.Holds t) {i : Nat} {b : List (Cell Key α)} (hb : t.buckets[i]? = some b)
    (test : Key → Bool) (visit : Visitor Key α σ ε) (st : σ) :
    match edit test visit b st with
    | .error e => m.loop i test visit st = .error (.thrown e)
    | .ok (r, cs, st') => ∃ m', m.loop i test visit st = .ok (r, m', st') ∧ m'.hash = m.hash ∧
        ∀ t' : HashMap α, t'.hash = t.hash → t'.buckets = t.buckets.set i cs → m'.Holds t' := by
  have hn : b.length < m.rounds := Nat.lt_succ_of_le (h.mem.length_le hb)
  have hspec := h.mem.traverse hb hn test visit st
  unfold ItemMap.loop
  rcases he : edit test visit b st with e | ⟨r, cs, st'⟩
  · rw [he] at hspec
    dsimp only at hspec ⊢
    rw [hspec]
  · rw [he] at hspec
    obtain ⟨mem, hmem, hrep⟩ := hspec
    refine ⟨{ m with mem := mem }, by rw [hmem], rfl, fun t' hh ht => ⟨?_, hrep t' ht⟩⟩
    exact h.hash.trans hh.symm

/-- A loop for one key: nothing is found, or the visitor decides. -/
theorem loop_absent (h : m.Holds t) {key : Key} (hk : t.find key = none) (visit : Visitor Key α σ ε)
    (st : σ) :
    ∃ m', m.loop (m.getBucket key) (fun k => decide (k = key)) visit st = .ok (false, m', st) ∧
      m'.hash = m.hash ∧ m'.Holds t := by
  have hb := h.bucket key
  have hspec := h.loop hb (fun k => decide (k = key)) visit st
  have habs : ∀ d ∈ t.chain key, d.key ≠ key := by
    intro d hd hdk
    exact t.find_eq_none_iff.mp hk d ((t.mem_chain_iff hdk).mp hd) hdk
  rw [edit_of_absent habs] at hspec
  obtain ⟨m', hm', hhash, hrep⟩ := hspec
  rw [h.getBucket]
  refine ⟨m', hm', hhash, hrep t rfl ?_⟩
  obtain ⟨hi, hget⟩ := List.getElem?_eq_some_iff.mp hb
  rw [← hget, List.set_getElem_self]

section Found

variable {key : Key} {p : Cell Key α} {visit : Visitor Key α σ ε} {st st' : σ} {v : α}

theorem mem_chain (_ : m.Holds t) (hp : t.find key = some p) : p ∈ t.chain key :=
  (t.mem_chain_iff (t.find_key hp)).mpr (t.find_mem hp)

theorem nodup_chain (h : m.Holds t) (key : Key) :
    ((t.chain key).map Cell.key).Nodup ∧ ((t.chain key).map Cell.addr).Nodup := by
  refine ⟨?_, nodup_addr_bucket t (h.bucket key)⟩
  exact t.nodup_bucket (t.index key)

theorem loop_error (h : m.Holds t) (hp : t.find key = some p) {e : ε}
    (hv : visit p.addr p.key p.val st = .error e) :
    m.loop (m.getBucket key) (fun k => decide (k = key)) visit st = .error (.thrown e) := by
  have hspec := h.loop (h.bucket key) (fun k => decide (k = key)) visit st
  rw [edit_of_error (h.mem_chain hp) (t.find_key hp) (h.nodup_chain key).1 hv] at hspec
  rw [h.getBucket]
  exact hspec

theorem loop_halt (h : m.Holds t) (hp : t.find key = some p)
    (hv : visit p.addr p.key p.val st = .ok (.halt, v, st')) :
    ∃ m', m.loop (m.getBucket key) (fun k => decide (k = key)) visit st = .ok (true, m', st') ∧
      m'.Holds (t.write p.addr v) := by
  have hspec := h.loop (h.bucket key) (fun k => decide (k = key)) visit st
  obtain ⟨hkeys, haddrs⟩ := h.nodup_chain key
  rw [edit_of_halt (h.mem_chain hp) (t.find_key hp) hkeys haddrs hv] at hspec
  obtain ⟨m', hm', -, hrep⟩ := hspec
  rw [h.getBucket]
  exact ⟨m', hm', hrep _ rfl (buckets_write t (h.bucket key) (h.mem_chain hp) v)⟩

theorem loop_cutHalt (h : m.Holds t) (hp : t.find key = some p)
    (hv : visit p.addr p.key p.val st = .ok (.cutHalt, v, st')) :
    ∃ m', m.loop (m.getBucket key) (fun k => decide (k = key)) visit st = .ok (true, m', st') ∧
      m'.Holds (t.erase p.addr) := by
  have hspec := h.loop (h.bucket key) (fun k => decide (k = key)) visit st
  obtain ⟨hkeys, haddrs⟩ := h.nodup_chain key
  rw [edit_of_cutHalt (h.mem_chain hp) (t.find_key hp) hkeys haddrs hv] at hspec
  obtain ⟨m', hm', -, hrep⟩ := hspec
  rw [h.getBucket]
  exact ⟨m', hm', hrep _ rfl (buckets_erase t (h.bucket key) (h.mem_chain hp))⟩

end Found

/-- A new item, at an address that is not in use. -/
theorem pushFront (h : m.Holds t) {key : Key} (hk : t.find key = none) {a : Nat} (ha : a ∉ t.addrs)
    (o : α) :
    (m.pushFront (m.getBucket key) key a o).Holds ((Yrmcds.steer t a).push key o) := by
  have hi : t.index key < m.mem.roots.length := by rw [h.mem.length]; exact t.index_lt key
  have hp : m.mem.roots[t.index key]? = some (m.mem.roots[t.index key]?.getD none) := by
    rw [List.getElem?_eq_getElem hi]
    rfl
  have hpush := (h.steer a).mem.push (show (Yrmcds.steer t a).find key = none from hk) hp o
  rw [newAddr_steer t ha] at hpush
  rw [h.getBucket]
  refine ⟨?_, hpush⟩
  unfold Table.push
  split_ifs <;> exact h.hash

end Holds

/-! ## Each function refines the table's -/

/-- A result in memory and the result on the table: the same value and state, and the memory holds the
    table; or the callback has thrown. -/
inductive Refines : Except (Fault ε) (Bool × ItemMap α × σ) → Except ε (Bool × HashMap α × σ) → Prop
  | ok {m : ItemMap α} {t : HashMap α} (r : Bool) (h : m.Holds t) (st : σ) :
      Refines (.ok (r, m, st)) (.ok (r, t, st))
  | thrown (e : ε) : Refines (.error (.thrown e)) (.error e)

/-- **`apply_nolock`** does what `HashMap.apply` does, whatever address `new` returns. -/
theorem applyNolock_refines (h : m.Holds t) (key : Key) (hd : Option (HashMap.Handler α σ ε))
    (c : Option (HashMap.Creator α σ)) (st : σ) :
    ∃ a, a ∉ t.addrs ∧ Refines (m.applyNolock key hd c st) (HashMap.apply (steer t a) key hd c st) := by
  unfold applyNolock HashMap.apply
  cases hp : t.find key with
  | none =>
    obtain ⟨m', hm', hhash, hm⟩ := h.loop_absent hp (handle hd) (false, st)
    have hbucket : m.getBucket key = m'.getBucket key := by rw [h.getBucket, hm.getBucket]
    have hfree : m'.alloc m'.mem.blocks.keys ∉ t.addrs := hm.mem.not_mem_addrs (m'.fresh _)
    refine ⟨m'.alloc m'.mem.blocks.keys, hfree, ?_⟩
    rw [hm', show (steer t _).find key = none from hp]
    cases c with
    | none => exact .ok false (hm.steer _) st
    | some c =>
      dsimp only
      rw [hbucket, newAddr_steer t hfree]
      exact .ok true (hm.pushFront hp hfree _) _
  | some p =>
    refine ⟨m.alloc m.mem.blocks.keys, h.mem.not_mem_addrs (m.fresh _), ?_⟩
    rw [show (steer t _).find key = some p from hp]
    cases hd with
    | none =>
      obtain ⟨m', hm', hm⟩ := h.loop_halt hp
        (show handle (none : Option (HashMap.Handler α σ ε)) p.addr p.key p.val (false, st)
          = .ok (.halt, p.val, false, st) from rfl)
      rw [hm']
      rw [t.write_val hp] at hm
      exact .ok false (hm.steer _) st
    | some hd =>
      dsimp only
      rcases hr : hd (itemRef p) p.val st with e | ⟨r, o, st'⟩
      · have hv : handle (some hd) p.addr p.key p.val (false, st) = .error e := by
          unfold handle
          dsimp only
          rw [show hd ⟨p.addr, p.key⟩ p.val st = _ from hr]
        rw [h.loop_error hp hv]
        exact .thrown e
      · have hv : handle (some hd) p.addr p.key p.val (false, st) = .ok (.halt, o, r, st') := by
          unfold handle
          dsimp only
          rw [show hd ⟨p.addr, p.key⟩ p.val st = _ from hr]
        obtain ⟨m', hm', hm⟩ := h.loop_halt hp hv
        rw [hm']
        exact .ok r (t := (steer t _).write p.addr o) (hm.congr rfl rfl) st'

/-- **`remove_nolock`** does what `HashMap.removeNolock` does, and calls the callback if it removed. -/
theorem removeNolock_refines (h : m.Holds t) (key : Key) (callback : Option (Key → σ → σ)) (st : σ) :
    Refines (m.removeNolock key callback st : Except (Fault ε) _)
      (.ok ((HashMap.removeNolock t key).1, (HashMap.removeNolock t key).2,
        match t.find key, callback with
        | some _, some f => f key st
        | _, _ => st)) := by
  unfold removeNolock HashMap.removeNolock
  cases hp : t.find key with
  | none =>
    obtain ⟨m', hm', -, hm⟩ := h.loop_absent (ε := ε) hp (drop key callback) st
    rw [hm']
    exact .ok false hm st
  | some p =>
    cases callback with
    | none =>
      have hv : drop key none p.addr p.key p.val st = (.ok (.cutHalt, p.val, st) : Except ε _) := rfl
      obtain ⟨m', hm', hm⟩ := h.loop_cutHalt hp hv
      rw [hm']
      exact .ok true hm st
    | some f =>
      have hv : drop key (some f) p.addr p.key p.val st =
        (.ok (.cutHalt, p.val, f key st) : Except ε _) := rfl
      obtain ⟨m', hm', hm⟩ := h.loop_cutHalt hp hv
      rw [hm']
      exact .ok true hm (f key st)

/-- **`remove_if`** does what `HashMap.removeIf` does. -/
theorem removeIf_refines (h : m.Holds t) (key : Key) (pred : Key → α → σ → Except ε (Bool × α × σ))
    (st : σ) :
    Refines (m.removeIf key pred st) (HashMap.removeIf t key pred st) := by
  unfold removeIf HashMap.removeIf
  cases hp : t.find key with
  | none =>
    obtain ⟨m', hm', -, hm⟩ := h.loop_absent hp (dropIf key pred) st
    rw [hm']
    exact .ok false hm st
  | some p =>
    dsimp only
    rcases hr : pred key p.val st with e | ⟨_ | _, o, st'⟩
    · have hv : dropIf key pred p.addr p.key p.val st = .error e := by unfold dropIf; rw [hr]
      rw [h.loop_error hp hv]
      exact .thrown e
    · have hv : dropIf key pred p.addr p.key p.val st = .ok (.halt, o, st') := by unfold dropIf; rw [hr]
      obtain ⟨m', hm', hm⟩ := h.loop_halt hp hv
      rw [hm']
      exact .ok true hm st'
    · have hv : dropIf key pred p.addr p.key p.val st = .ok (.cutHalt, o, st') := by unfold dropIf; rw [hr]
      obtain ⟨m', hm', hm⟩ := h.loop_cutHalt hp hv
      rw [hm']
      exact .ok true hm st'

/-! ## Scans -/

/-- The table after a scan of bucket `i`. -/
def swept (t : HashMap α) (i : Nat) (pred : KeyRef → α → σ → Except ε (Bool × α × σ)) (st : σ) :
    HashMap α :=
  t.relink (fun j b =>
    if j = i then
      match edit (fun _ => true) (collect pred) b st with
      | .ok (_, b', _) => b'
      | .error _ => b
    else b) (by
      intro j b
      split_ifs
      · split
        · exact edit_sublist ‹_›
        · exact List.Sublist.refl _
      · exact List.Sublist.refl _)

variable {i : Nat} {b : List (Cell Key α)}

theorem buckets_swept {cs : List (Cell Key α)} (hb : t.buckets[i]? = some b)
    {pred : KeyRef → α → σ → Except ε (Bool × α × σ)} {r : Bool} {st st' : σ}
    (he : edit (fun _ => true) (collect pred) b st = .ok (r, cs, st')) :
    (swept t i pred st).buckets = t.buckets.set i cs := by
  refine List.ext_getElem? fun j => ?_
  show (t.buckets.mapIdx _)[j]? = _
  rw [List.getElem?_mapIdx]
  by_cases hj : j = i
  · have hi : i < t.buckets.length := (List.getElem?_eq_some_iff.mp hb).1
    rw [hj, List.getElem?_set_self hi, hb, Option.map_some, if_pos rfl, he]
  · rw [List.getElem?_set_ne (Ne.symm hj)]
    cases t.buckets[j]? with
    | none => rfl
    | some b' => rw [Option.map_some, if_neg hj]

/-- **`bucket::gc`** visits the items of its bucket in list order, and leaves the edited list. -/
theorem gc_refines (h : m.Holds t) (hb : t.buckets[i]? = some b)
    (pred : KeyRef → α → σ → Except ε (Bool × α × σ)) (st : σ) :
    match edit (fun _ => true) (collect pred) b st with
    | .error e => m.gc i pred st = .error (.thrown e)
    | .ok (_, _, st') => ∃ m', m.gc i pred st = .ok (m', st') ∧ m'.Holds (swept t i pred st) := by
  have hspec := h.loop hb (fun _ => true) (collect pred) st
  unfold gc
  rcases he : edit (fun _ => true) (collect pred) b st with e | ⟨r, cs, st'⟩
  · rw [he] at hspec
    dsimp only at hspec ⊢
    rw [hspec]
  · rw [he] at hspec
    obtain ⟨m', hm', -, hrep⟩ := hspec
    exact ⟨m', by rw [hm'], hrep _ rfl (buckets_swept hb he)⟩

theorem collect_pure (pred : KeyRef → α → σ → Bool × α × σ) (c : Cell Key α) (st : σ) :
    collect (fun k o st => .ok (pred k o st)) c.addr c.key c.val st
      = (match pred (itemRef c) c.val st with
        | (true, o', st') => .ok (.cut, o', st')
        | (false, o', st') => .ok (.pass, o', st') : Except ε (Move × α × σ)) := by
  unfold collect
  dsimp only [itemRef]
  rcases pred ⟨c.addr, c.key⟩ c.val st with ⟨_ | _, o', st'⟩ <;> rfl

/-- A predicate that does not throw: the loop of the table's `gc`. -/
theorem edit_collect_pure (pred : KeyRef → α → σ → Bool × α × σ) (b : List (Cell Key α)) (st : σ) :
    edit (fun _ => true) (collect (ε := ε) fun k o st => .ok (pred k o st)) b st
      = .ok (false, (HashMap.gcLoop pred b st).1, (HashMap.gcLoop pred b st).2) := by
  induction b generalizing st with
  | nil => rfl
  | cons c b ih =>
    rw [edit, if_pos rfl, HashMap.gcLoop, collect_pure]
    rcases pred (itemRef c) c.val st with ⟨_ | _, o', st'⟩
    · dsimp only
      rw [ih st']
    · exact ih st'

/-- ... so the table it leaves is the table's `gc`. -/
theorem gc_refines_pure (h : m.Holds t) (hi : i < t.buckets.length)
    (pred : KeyRef → α → σ → Bool × α × σ) (st : σ) :
    ∃ m', m.gc i (fun k o st => .ok (pred k o st)) st
        = (.ok (m', (HashMap.gc t i pred st).2) : Except (Fault ε) _) ∧
      m'.Holds (HashMap.gc t i pred st).1 := by
  have hb := List.getElem?_eq_getElem hi
  have hspec := gc_refines (ε := ε) h hb (fun k o st => .ok (pred k o st)) st
  rw [edit_collect_pure] at hspec
  obtain ⟨m', hm', hm⟩ := hspec
  refine ⟨m', ?_, hm.congr rfl ?_⟩
  · rw [hm']
    unfold HashMap.gc
    rw [hb]
    rfl
  · rw [buckets_swept hb (edit_collect_pure pred _ st)]
    refine List.ext_getElem? fun j => ?_
    show (t.buckets.mapIdx (HashMap.gcBucket pred i st))[j]? = _
    rw [List.getElem?_mapIdx]
    by_cases hj : j = i
    · rw [hj, List.getElem?_set_self hi, hb]
      exact congrArg some (if_pos rfl)
    · rw [List.getElem?_set_ne (Ne.symm hj)]
      cases t.buckets[j]? with
      | none => rfl
      | some b' => exact congrArg some (if_neg hj)

/-- Going through the bucket numbers is going through the buckets. -/
theorem flatMap_range (t : HashMap α) {β : Type} (g : List (Cell Key α) → List β) :
    ((List.range t.buckets.length).flatMap fun i => g ((t.buckets[i]?).getD [])) = t.buckets.flatMap g := by
  have hmap : (List.range t.buckets.length).map (fun i => (t.buckets[i]?).getD []) = t.buckets := by
    refine List.ext_getElem (by simp) fun i hi hi' => ?_
    rw [List.getElem_map, List.getElem_range, List.getElem?_eq_getElem hi']
    rfl
  calc ((List.range t.buckets.length).flatMap fun i => g ((t.buckets[i]?).getD []))
      = ((List.range t.buckets.length).map fun i => (t.buckets[i]?).getD []).flatMap g := by
        rw [List.flatMap_map]
    _ = t.buckets.flatMap g := by rw [hmap]

/-- A callback of `foreach` that only reads the object. -/
def reading (pred : KeyRef → α → σ → Except ε σ) : KeyRef → α → σ → Except ε (α × σ) := fun k o st =>
  match pred k o st with
  | .ok st' => .ok (o, st')
  | .error e => .error e

theorem edit_reading (pred : KeyRef → α → σ → Except ε σ) (b : List (Cell Key α)) (st : σ) :
    edit (fun _ => true) (collect (keep (reading pred))) b st
      = match b.foldlM (fun st c => pred (itemRef c) c.val st) st with
        | .ok st' => .ok (false, b, st')
        | .error e => .error e := by
  induction b generalizing st with
  | nil => rfl
  | cons c b ih =>
    have hcollect : collect (keep (reading pred)) c.addr c.key c.val st
        = match pred (itemRef c) c.val st with
          | .ok st' => .ok (.pass, c.val, st')
          | .error e => .error e := by
      unfold collect keep reading
      rw [show pred ⟨c.addr, c.key⟩ c.val st = pred (itemRef c) c.val st from rfl]
      rcases pred (itemRef c) c.val st with e | st' <;> rfl
    rw [edit, if_pos rfl, hcollect, List.foldlM_cons]
    rcases pred (itemRef c) c.val st with e | st'
    · rfl
    · dsimp only
      rw [ih st']
      show _ = match b.foldlM (fun st c => pred (itemRef c) c.val st) st' with
        | .ok st' => Except.ok (false, c :: b, st')
        | .error e => .error e
      rcases b.foldlM (fun st c => pred (itemRef c) c.val st) st' with e | st'' <;> rfl

theorem foreachBucket_refines (h : m.Holds t) (hb : t.buckets[i]? = some b)
    (pred : KeyRef → α → σ → Except ε σ) (st : σ) :
    match b.foldlM (fun st c => pred (itemRef c) c.val st) st with
    | .error e => m.foreachBucket i (reading pred) st = .error (.thrown e)
    | .ok st' => ∃ m', m.foreachBucket i (reading pred) st = .ok (m', st') ∧ m'.Holds t := by
  have hspec := gc_refines h hb (keep (reading pred)) st
  have he := edit_reading pred b st
  rcases hfold : b.foldlM (fun st c => pred (itemRef c) c.val st) st with e | st'
  · rw [hfold] at he
    rw [he] at hspec
    exact hspec
  · rw [hfold] at he
    rw [he] at hspec
    obtain ⟨m', hm', h'⟩ := hspec
    refine ⟨m', hm', h'.congr rfl ?_⟩
    obtain ⟨hi, hget⟩ := List.getElem?_eq_some_iff.mp hb
    rw [buckets_swept hb he, ← hget, List.set_getElem_self]

theorem foldlM_foreachBucket (pred : KeyRef → α → σ → Except ε σ) (is : List Nat) :
    ∀ {m : ItemMap α} (st : σ), m.Holds t → (∀ i ∈ is, i < t.buckets.length) →
      match (is.flatMap fun i => (t.buckets[i]?).getD []).foldlM
        (fun st c => pred (itemRef c) c.val st) st with
      | .error e =>
        is.foldlM (fun x i => x.1.foreachBucket i (reading pred) x.2) (m, st) = .error (.thrown e)
      | .ok st' => ∃ m', is.foldlM (fun x i => x.1.foreachBucket i (reading pred) x.2) (m, st)
          = .ok (m', st') ∧ m'.Holds t := by
  induction is with
  | nil => intro m st h _; exact ⟨m, rfl, h⟩
  | cons i is ih =>
    intro m st h hlt
    obtain ⟨b, hb⟩ : ∃ b, t.buckets[i]? = some b :=
      ⟨_, List.getElem?_eq_getElem (hlt i List.mem_cons_self)⟩
    have hspec := foreachBucket_refines h hb pred st
    rw [List.flatMap_cons, List.foldlM_append, List.foldlM_cons, hb, Option.getD_some]
    rcases hfold : b.foldlM (fun st c => pred (itemRef c) c.val st) st with e | st1
    · rw [hfold] at hspec
      dsimp only at hspec ⊢
      rw [hspec]
      rfl
    · rw [hfold] at hspec
      obtain ⟨m1, hm1, h1⟩ := hspec
      dsimp only
      rw [hm1]
      exact ih st1 h1 fun j hj => hlt j (List.mem_cons_of_mem _ hj)

/-- **`foreach`** with such a callback does what `HashMap.foreach` does. -/
theorem foreach_refines (h : m.Holds t) (pred : KeyRef → α → σ → Except ε σ) (st : σ) :
    match HashMap.foreach t pred st with
    | .error e => m.foreach (reading pred) st = .error (.thrown e)
    | .ok st' => ∃ m', m.foreach (reading pred) st = .ok (m', st') ∧ m'.Holds t := by
  have hall := foldlM_foreachBucket pred (List.range t.buckets.length) st h fun i hi => List.mem_range.mp hi
  have hcells : ((List.range t.buckets.length).flatMap fun i => (t.buckets[i]?).getD []) = t.cells := by
    rw [flatMap_range t fun b => b, List.flatMap_id']
    rfl
  unfold foreach HashMap.foreach
  rw [h.bucketCount]
  rw [hcells] at hall
  exact hall

/-! ## What is seen of a map that holds a table -/

theorem Holds.items (h : m.Holds t) (hb : t.buckets[i]? = some b) :
    m.items i = b := by
  obtain ⟨p, hp, hpath⟩ := h.mem.hangs i b hb
  unfold ItemMap.items
  rw [show m.mem.roots[i]? = some p from hp]
  exact walk_of_path hpath (Nat.lt_succ_of_le (h.mem.length_le hb))

theorem Holds.keys (h : m.Holds t) : m.keys = t.cells.map Cell.key := by
  have hitems : ∀ i ∈ List.range t.buckets.length,
      (m.items i).map Cell.key = ((t.buckets[i]?).getD []).map Cell.key := by
    intro i hi
    have hb := List.getElem?_eq_getElem (List.mem_range.mp hi)
    rw [h.items hb, hb]
    rfl
  unfold ItemMap.keys Table.cells
  rw [h.bucketCount, List.flatMap_congr hitems, flatMap_range t (List.map Cell.key), List.map_flatten,
    List.flatMap_def]

/-- **No key occurs twice** in the map in memory. -/
theorem Holds.nodup_keys (h : m.Holds t) : m.keys.Nodup := by
  rw [h.keys]
  exact t.idents.1

theorem Holds.lookup (h : m.Holds t) (key : Key) :
    m.lookup key = (t.find key).map fun c => (c.addr, c.val) := by
  unfold ItemMap.lookup
  rw [h.getBucket, h.items (h.bucket key)]
  rfl

end ItemMap

end Yrmcds
