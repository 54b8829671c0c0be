/-
  `cybozu::hash_map` (cybozu/hash_map.hpp).

  The map is a vector of buckets, each a singly linked list of heap-allocated items; an item holds its
  `hash_key` and the object.  Two parts of the server keep POINTERS to the keys inside items — the
  `m_locks` list of a memcache connection and the `m_acquired_resources` table of a counter
  connection — so the model is the address-carrying table of `Yrmcds.Lib.ChainTable`, and a
  `const hash_key&` handed to a callback is a `KeyRef`: the bytes of the key and the item it lives in.

  Callbacks (`handler`, `creator`, the predicates of `remove_if`, `gc` and `foreach`) mutate the
  object and, through what they capture, the connection that runs the command.  They are modelled as
  functions that thread a state `σ`; a handler may also throw (`Except`).  Each member function below
  runs under the lock of ONE bucket, so each is one atomic step of the server.
-/
import Yrmcds.Lib.ChainTable
import Yrmcds.Util

namespace Yrmcds

open ChainTable

/-- A `hash_key`, by its bytes (`operator==` compares lengths and bytes). -/
abbrev Key := Bytes

/-- `cybozu::hash_map`. -/
abbrev HashMap (α : Type) := Table Key α

/-- A `const hash_key&`: the key's bytes and the address of the item that contains it. -/
structure KeyRef where
  addr : Nat
  key : Key
deriving DecidableEq, Repr

/-- The reference a callback receives for the key of a stored item. -/
def itemRef {α : Type} (c : Cell Key α) : KeyRef := ⟨c.addr, c.key⟩

@[simp] theorem itemRef_key {α : Type} (c : Cell Key α) : (itemRef c).key = c.key := rfl

namespace HashMap

variable {α σ ε : Type}

/-- `std::function<bool(const hash_key&, T&)>`. -/
abbrev Handler (α σ ε : Type) := KeyRef → α → σ → Except ε (Bool × α × σ)

/-- `std::function<T(const hash_key&)>`; it sees the key of the item under construction. -/
abbrev Creator (α σ : Type) := KeyRef → σ → α × σ

/-- `hash_map::apply` / `apply_nolock`: handle the object of `key`, or create one. -/
def apply (m : HashMap α) (key : Key) (h : Option (Handler α σ ε)) (c : Option (Creator α σ))
    (st : σ) : Except ε (Bool × HashMap α × σ) :=
  match m.find key with
  | some p =>
    match h with
    | none => .ok (false, m, st)
    | some h =>
      match h (itemRef p) p.val st with
      | .ok (r, o, st') => .ok (r, m.write p.addr o, st')
      | .error e => .error e
  | none =>
    match c with
    | none => .ok (false, m, st)
    | some c =>
      let (o, st') := c ⟨m.newAddr, key⟩ st
      .ok (true, m.push key o, st')

/-- `hash_map::remove_nolock` without a callback. -/
def removeNolock (m : HashMap α) (key : Key) : Bool × HashMap α :=
  match m.find key with
  | some p => (true, m.erase p.addr)
  | none => (false, m)

/-- `hash_map::remove_if`: the predicate decides, and sees the CALLER's key, not the item's; the
    result says whether the object existed. -/
def removeIf (m : HashMap α) (key : Key) (pred : Key → α → σ → Except ε (Bool × α × σ)) (st : σ) :
    Except ε (Bool × HashMap α × σ) :=
  match m.find key with
  | some p =>
    match pred key p.val st with
    | .ok (true, _, st') => .ok (true, m.erase p.addr, st')
    | .ok (false, o, st') => .ok (true, m.write p.addr o, st')
    | .error e => .error e
  | none => .ok (false, m, st)

/-- The loop of `bucket::gc`: visit the items in list order, unlink those the predicate accepts. -/
def gcLoop (pred : KeyRef → α → σ → Bool × α × σ) : List (Cell Key α) → σ → List (Cell Key α) × σ
  | [], st => ([], st)
  | c :: b, st =>
    match pred (itemRef c) c.val st with
    | (true, _, st') => gcLoop pred b st'
    | (false, o, st') => (c.put o :: (gcLoop pred b st').1, (gcLoop pred b st').2)

theorem gcLoop_sublist (pred : KeyRef → α → σ → Bool × α × σ) (b : List (Cell Key α)) (st : σ) :
    ((gcLoop pred b st).1.map Cell.ident).Sublist (b.map Cell.ident) := by
  induction b generalizing st with
  | nil => exact List.Sublist.slnil
  | cons c b ih =>
    rw [gcLoop]
    split
    · exact (ih _).cons _
    · exact (ih _).cons_cons c.ident

/-- The buckets after a pass over bucket `i`. -/
def gcBucket (pred : KeyRef → α → σ → Bool × α × σ) (i : Nat) (st : σ) (j : Nat)
    (b : List (Cell Key α)) : List (Cell Key α) :=
  if j = i then (gcLoop pred b st).1 else b

theorem gcBucket_sublist (pred : KeyRef → α → σ → Bool × α × σ) (i : Nat) (st : σ) (j : Nat)
    (b : List (Cell Key α)) : ((gcBucket pred i st j b).map Cell.ident).Sublist (b.map Cell.ident) := by
  unfold gcBucket
  split
  · exact gcLoop_sublist pred b st
  · exact List.Sublist.refl _

/-- `bucket::gc` on bucket `i`. -/
def gc (m : HashMap α) (i : Nat) (pred : KeyRef → α → σ → Bool × α × σ) (st : σ) : HashMap α × σ :=
  (m.relink (gcBucket pred i st) (gcBucket_sublist pred i st),
    (gcLoop pred ((m.buckets[i]?).getD []) st).2)

/-- `hash_map::foreach`: bucket after bucket, each in list order.  The predicates the server passes
    only read the object. -/
def foreach (m : HashMap α) (pred : KeyRef → α → σ → Except ε σ) (st : σ) : Except ε σ :=
  m.cells.foldlM (fun st c => pred (itemRef c) c.val st) st

/-- `bucket::foreach` on bucket `i`. -/
def foreachBucket (m : HashMap α) (i : Nat) (pred : KeyRef → α → σ → Except ε σ) (st : σ) : Except ε σ :=
  ((m.buckets[i]?).getD []).foldlM (fun st c => pred (itemRef c) c.val st) st

/-- `foreach` is `bucket::foreach` on one bucket after the other. -/
theorem foreach_eq_buckets (m : HashMap α) (pred : KeyRef → α → σ → Except ε σ) (st : σ) :
    foreach m pred st = (List.range m.buckets.length).foldlM (fun st i => foreachBucket m i pred st) st := by
  have hflat : ∀ (bs : List (List (Cell Key α))) (st : σ),
      bs.flatten.foldlM (fun st c => pred (itemRef c) c.val st) st
        = bs.foldlM (fun st b => b.foldlM (fun st c => pred (itemRef c) c.val st) st) st := by
    intro bs
    induction bs with
    | nil => intro st; rfl
    | cons b bs ih =>
      intro st
      rw [List.flatten_cons, List.foldlM_append, List.foldlM_cons]
      exact congrArg _ (funext ih)
  have hrange : m.buckets = (List.range m.buckets.length).map fun i => (m.buckets[i]?).getD [] := by
    refine List.ext_getElem (by simp) fun i h1 h2 => ?_
    simp [h1]
  unfold foreach Table.cells foreachBucket
  rw [hflat]
  conv_lhs => rw [hrange]
  rw [List.foldlM_map]

/-! ## What `apply` and `remove_if` can do -/

theorem apply_found {m : HashMap α} {key : Key} {p : Cell Key α} (hp : m.find key = some p)
    (h : Handler α σ ε) (c : Option (Creator α σ)) (st : σ) :
    apply m key (some h) c st
      = match h (itemRef p) p.val st with
        | .ok (r, o, st') => .ok (r, m.write p.addr o, st')
        | .error e => .error e := by
  unfold apply; rw [hp]

theorem apply_absent {m : HashMap α} {key : Key} (hp : m.find key = none)
    (h : Option (Handler α σ ε)) (st : σ) : apply m key h none st = .ok (false, m, st) := by
  unfold apply; rw [hp]

theorem apply_create {m : HashMap α} {key : Key} (hp : m.find key = none)
    (h : Option (Handler α σ ε)) (c : Creator α σ) (st : σ) :
    apply m key h (some c) st
      = .ok (true, m.push key (c ⟨m.newAddr, key⟩ st).1, (c ⟨m.newAddr, key⟩ st).2) := by
  unfold apply; rw [hp]

/-! ## A sweep whose verdicts do not depend on the threaded state -/

/-- `Steady pred f` — whatever the state, `pred` removes an object exactly when `f` says `none`, and
    otherwise leaves it as `f` says. -/
def Steady (pred : KeyRef → α → σ → Bool × α × σ) (f : KeyRef → α → Option α) : Prop :=
  ∀ r o st, (if (pred r o st).1 then none else some (pred r o st).2.1) = f r o

theorem gcLoop_steady {pred : KeyRef → α → σ → Bool × α × σ} {f : KeyRef → α → Option α}
    (hs : Steady pred f) (b : List (Cell Key α)) (st : σ) :
    (gcLoop pred b st).1 = b.filterMap fun c => (f (itemRef c) c.val).map c.put := by
  induction b generalizing st with
  | nil => rfl
  | cons c b ih =>
    have hv := hs (itemRef c) c.val st
    rw [gcLoop, List.filterMap_cons, ← hv]
    split
    · rename_i heq; rw [heq]; simp only [if_true, Option.map_none]; exact ih _
    · rename_i heq; rw [heq]; simp only [Bool.false_eq_true, if_false, Option.map_some]; rw [ih]

/-- A steady `gc` of bucket `i` is the table's `sweep`. -/
theorem gc_eq_sweep {pred : KeyRef → α → σ → Bool × α × σ} {f : KeyRef → α → Option α}
    (hs : Steady pred f) (m : HashMap α) (i : Nat) (st : σ) :
    (gc m i pred st).1 = m.sweep i fun c => f (itemRef c) c.val := by
  refine m.relink_congr (gcBucket_sublist pred i st) (Table.keepMap_sublist _) ?_
  funext j b
  unfold gcBucket
  by_cases hj : j = i
  · simp only [hj, if_true, gcLoop_steady hs, Table.keepMap]
  · simp only [hj, if_false, Table.keepMap, Option.map_some]
    rw [show (fun c : Cell Key α => some (c.put c.val)) = some from rfl, List.filterMap_some]

end HashMap
end Yrmcds
