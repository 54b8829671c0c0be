/-
  Singly linked lists in memory, changed in place.

  A `Memory` has a vector of root pointers and a heap of blocks; a block holds a key, a value and a
  pointer to the next block.  A `Slot` is a place where a pointer is kept — a root, or the `next` field of
  a block — so a pointer to a pointer is a `Slot`, and a block is unlinked by storing its `next` in the
  slot that led to it.

  `traverse` is the one loop of such lists: from a slot it goes from block to block, and at each block that
  passes the test a visitor says how to go on.  Nothing in memory keeps a list from being a CYCLE or from
  leading to a freed block, so the loop has fuel, and its two faults are values: `endless` and `dangling`.

  `edit` is the same loop on a plain list of cells.  `traverse_spec` says that on a slot from which a list
  hangs (`Hangs`) the loop in memory does what `edit` does, whatever the visitor unlinks on the way, and
  that it leaves alone every block that is not on that list (`Within`).  `Represents` is a chained table in
  memory: one list for each root, and no block besides.
-/
import Yrmcds.Lib.ChainTable
import Mathlib.Data.List.AList

namespace Linked

open ChainTable

variable {κ α σ ε : Type}

/-- A heap block. -/
structure Node (κ α : Type) where
  key : κ
  val : α
  next : Option Nat

/-- Where a pointer is kept. -/
inductive Slot where
  | root (i : Nat)
  | next (a : Nat)
deriving DecidableEq, Repr

/-- The heads of the lists, and the blocks. -/
structure Memory (κ α : Type) where
  roots : List (Option Nat)
  blocks : AList fun _ : Nat => Node κ α

namespace Memory

variable (m : Memory κ α)

/-- The block at an address; `none` if nothing is allocated there. -/
def node (a : Nat) : Option (Node κ α) := m.blocks.lookup a

/-- Read the pointer in a slot; `some none` is the null pointer. -/
def load : Slot → Option (Option Nat)
  | .root i => m.roots[i]?
  | .next a => (m.node a).map Node.next

/-- Change the block at an address, if there is one. -/
def modify (a : Nat) (f : Node κ α → Node κ α) : Memory κ α :=
  match m.node a with
  | some x => { m with blocks := m.blocks.insert a (f x) }
  | none => m

/-- Store a pointer in a slot. -/
def store (s : Slot) (p : Option Nat) : Memory κ α :=
  match s with
  | .root i => { m with roots := m.roots.set i p }
  | .next a => m.modify a fun x => { x with next := p }

/-- Store a value in a block. -/
def write (a : Nat) (v : α) : Memory κ α := m.modify a fun x => { x with val := v }

/-- Allocate the block at `a`. -/
def new (a : Nat) (x : Node κ α) : Memory κ α :=
  { m with blocks := m.blocks.insert a x }

/-- The block is given back. -/
def free (a : Nat) : Memory κ α := { m with blocks := m.blocks.erase a }

/-- Take the block at `a` out of the list and free it; `s` is the slot that leads to it. -/
def unlink (s : Slot) (a : Nat) (next : Option Nat) : Memory κ α :=
  (m.store s next).free a

theorem node_modify (a b : Nat) (f : Node κ α → Node κ α) :
    (m.modify a f).node b = if b = a then (m.node b).map f else m.node b := by
  unfold modify
  cases hx : m.node a with
  | none =>
    by_cases hb : b = a
    · rw [if_pos hb, hb, hx]; rfl
    · rw [if_neg hb]
  | some x =>
    by_cases hb : b = a
    · rw [if_pos hb, hb, hx]
      exact AList.lookup_insert m.blocks
    · rw [if_neg hb]
      exact AList.lookup_insert_ne hb

@[simp] theorem roots_modify (a : Nat) (f : Node κ α → Node κ α) :
    (m.modify a f).roots = m.roots := by
  unfold modify
  split <;> rfl

@[simp] theorem roots_write (a : Nat) (v : α) : (m.write a v).roots = m.roots :=
  m.roots_modify a _

theorem node_free (a b : Nat) :
    (m.free a).node b = if b = a then none else m.node b := by
  by_cases hb : b = a
  · rw [if_pos hb, hb]
    exact AList.lookup_erase a m.blocks
  · rw [if_neg hb]
    exact AList.lookup_erase_ne hb

theorem node_new (a b : Nat) (x : Node κ α) :
    (m.new a x).node b = if b = a then some x else m.node b := by
  by_cases hb : b = a
  · rw [if_pos hb, hb]
    exact AList.lookup_insert m.blocks
  · rw [if_neg hb]
    exact AList.lookup_insert_ne hb

/-- A block is not changed by a store elsewhere. -/
theorem node_store_of_ne {s : Slot} {a : Nat} (h : s ≠ .next a) (p : Option Nat) :
    (m.store s p).node a = m.node a := by
  cases s with
  | root i => rfl
  | next b =>
    have hne : a ≠ b := fun hab => h (by rw [hab])
    exact (m.node_modify b a _).trans (if_neg hne)

theorem node_write_of_ne {a b : Nat} (h : b ≠ a) (v : α) :
    (m.write a v).node b = m.node b := (m.node_modify a b _).trans (if_neg h)

end Memory

/-! ## Lists in memory -/

/-- The pointer `p` leads through the blocks `cs`, in this order, to the null pointer. -/
def Path (m : Memory κ α) : Option Nat → List (Cell κ α) → Prop
  | p, [] => p = none
  | p, c :: cs => p = some c.addr ∧ ∃ q, m.node c.addr = some ⟨c.key, c.val, q⟩ ∧ Path m q cs

theorem Path.frame {m m' : Memory κ α} {cs : List (Cell κ α)}
    (h : ∀ c ∈ cs, m'.node c.addr = m.node c.addr) {p : Option Nat} (hp : Path m p cs) : Path m' p cs := by
  induction cs generalizing p with
  | nil => exact hp
  | cons c cs ih =>
    obtain ⟨hc, q, hq, hcs⟩ := hp
    refine ⟨hc, q, ?_, ih (fun d hd => h d (List.mem_cons_of_mem _ hd)) hcs⟩
    rw [h c List.mem_cons_self, hq]

/-- The list `cs` hangs from the slot `s`. -/
def Hangs (m : Memory κ α) (s : Slot) (cs : List (Cell κ α)) : Prop :=
  ∃ p, m.load s = some p ∧ Path m p cs

/-- Between `m` and `m'` only the slot `s` and the blocks at `as` have changed. -/
structure Within (s : Slot) (as : List Nat) (m m' : Memory κ α) : Prop where
  length : m'.roots.length = m.roots.length
  roots : ∀ i, s ≠ .root i → m'.roots[i]? = m.roots[i]?
  nodes : ∀ a, a ∉ as → s ≠ .next a → m'.node a = m.node a
  /-- Of the block that contains the slot, the key and the value stay. -/
  slot : ∀ a, a ∉ as → s = .next a →
    (m'.node a).map (fun x => (x.key, x.val)) = (m.node a).map fun x => (x.key, x.val)

namespace Within

variable {s : Slot} {as : List Nat} {m m1 m2 : Memory κ α}

theorem refl (s : Slot) (as : List Nat) (m : Memory κ α) : Within s as m m :=
  ⟨rfl, fun _ _ => rfl, fun _ _ _ => rfl, fun _ _ _ => rfl⟩

theorem trans (h : Within s as m m1) (h' : Within s as m1 m2) : Within s as m m2 where
  length := h'.length.trans h.length
  roots i hi := (h'.roots i hi).trans (h.roots i hi)
  nodes a ha hs := (h'.nodes a ha hs).trans (h.nodes a ha hs)
  slot a ha hs := (h'.slot a ha hs).trans (h.slot a ha hs)

theorem mono {bs : List Nat} (h : Within s as m m1) (hsub : ∀ a ∈ as, a ∈ bs) : Within s bs m m1 where
  length := h.length
  roots := h.roots
  nodes a ha := h.nodes a fun hm => ha (hsub a hm)
  slot a ha := h.slot a fun hm => ha (hsub a hm)

/-- What happens behind a block happens within the list from that block on. -/
theorem behind {a : Nat} (h : Within (.next a) as m m1) (s : Slot) : Within s (a :: as) m m1 where
  length := h.length
  roots i _ := h.roots i nofun
  nodes b hb _ := by
    rw [List.mem_cons, not_or] at hb
    exact h.nodes b hb.2 fun hn => hb.1 (Slot.next.inj hn).symm
  slot b hb _ := by
    rw [List.mem_cons, not_or] at hb
    rw [h.nodes b hb.2 fun hn => hb.1 (Slot.next.inj hn).symm]

theorem write (s : Slot) (m : Memory κ α) (a : Nat) (v : α) : Within s [a] m (m.write a v) where
  length := by rw [m.roots_write]
  roots i _ := by rw [m.roots_write]
  nodes b hb _ := m.node_write_of_ne (by simpa using hb) v
  slot b hb _ := by rw [m.node_write_of_ne (by simpa using hb) v]

theorem unlink (s : Slot) (m : Memory κ α) (a : Nat) (p : Option Nat) :
    Within s [a] m (m.unlink s a p) := by
  have hnode : ∀ b, b ∉ [a] → (m.unlink s a p).node b = (m.store s p).node b := by
    intro b hb
    exact (Memory.node_free _ a b).trans (if_neg (by simpa using hb))
  refine ⟨?_, fun i hi => ?_, fun b hb hs => ?_, fun b hb hs => ?_⟩
  · cases s with
    | root j => exact List.length_set
    | next b => exact congrArg List.length (m.roots_modify b _)
  · cases s with
    | root j =>
      have hne : j ≠ i := fun h => hi (by rw [h])
      exact List.getElem?_set_ne hne
    | next b => exact congrArg (fun l : List (Option Nat) => l[i]?) (m.roots_modify b _)
  · rw [hnode b hb, m.node_store_of_ne hs]
  · rw [hnode b hb, hs]
    show Option.map _ ((m.modify b _).node b) = _
    rw [m.node_modify, if_pos rfl, Option.map_map]
    rfl

end Within

/-! ## The loop -/

/-- How a visitor goes on: leave the block in the list or take it out, and go to the next block or stop
    here. -/
inductive Move where
  | pass | cut | halt | cutHalt
deriving DecidableEq, Repr

/-- What a visitor makes of a block, given its address, key and value: the move, and the value it leaves
    in the block. -/
abbrev Visitor (κ α σ ε : Type) := Nat → κ → α → σ → Except ε (Move × α × σ)

/-- How a loop fails: it reads where nothing is allocated, it does not end, or the visitor throws. -/
inductive Fault (ε : Type) where
  | dangling
  | endless
  | thrown (e : ε)
deriving DecidableEq, Repr

/-- The loop from a slot; blocks that fail the test are passed over.  The result says whether the visitor
    halted. -/
def traverse (test : κ → Bool) (visit : Visitor κ α σ ε) :
    Nat → Slot → Memory κ α → σ → Except (Fault ε) (Bool × Memory κ α × σ)
  | 0, _, _, _ => .error .endless
  | n + 1, s, m, st =>
    match m.load s with
    | none => .error .dangling
    | some none => .ok (false, m, st)
    | some (some a) =>
      match m.node a with
      | none => .error .dangling
      | some x =>
        if test x.key then
          match visit a x.key x.val st with
          | .error e => .error (.thrown e)
          | .ok (.pass, v, st') => traverse test visit n (.next a) (m.write a v) st'
          | .ok (.cut, _, st') => traverse test visit n s (m.unlink s a x.next) st'
          | .ok (.halt, v, st') => .ok (true, m.write a v, st')
          | .ok (.cutHalt, _, st') => .ok (true, m.unlink s a x.next, st')
        else traverse test visit n (.next a) m st

/-- The loop on a list of cells. -/
def edit (test : κ → Bool) (visit : Visitor κ α σ ε) :
    List (Cell κ α) → σ → Except ε (Bool × List (Cell κ α) × σ)
  | [], st => .ok (false, [], st)
  | c :: cs, st =>
    if test c.key then
      match visit c.addr c.key c.val st with
      | .error e => .error e
      | .ok (.pass, v, st') =>
        match edit test visit cs st' with
        | .error e => .error e
        | .ok (r, cs', st'') => .ok (r, c.put v :: cs', st'')
      | .ok (.cut, _, st') => edit test visit cs st'
      | .ok (.halt, v, st') => .ok (true, c.put v :: cs, st')
      | .ok (.cutHalt, _, st') => .ok (true, cs, st')
    else
      match edit test visit cs st with
      | .error e => .error e
      | .ok (r, cs', st') => .ok (r, c :: cs', st')

/-- The blocks that are left were there, in this order. -/
theorem edit_sublist {test : κ → Bool} {visit : Visitor κ α σ ε} {cs cs' : List (Cell κ α)} {st st' : σ}
    {r : Bool} (h : edit test visit cs st = .ok (r, cs', st')) :
    (cs'.map Cell.ident).Sublist (cs.map Cell.ident) := by
  induction cs generalizing st r cs' with
  | nil => cases h; exact List.Sublist.refl _
  | cons c cs ih =>
    rw [edit] at h
    by_cases ht : test c.key = true
    · rw [if_pos ht] at h
      rcases hv : visit c.addr c.key c.val st with e | ⟨mv, v, st1⟩
      · rw [hv] at h; cases h
      rw [hv] at h
      cases mv with
      | pass =>
        dsimp only at h
        rcases he : edit test visit cs st1 with e | ⟨r', cs1, st2⟩
        · rw [he] at h; cases h
        · rw [he] at h; cases h; exact (ih he).cons_cons c.ident
      | cut => exact (ih h).cons _
      | halt => cases h; exact List.Sublist.refl _
      | cutHalt => cases h; exact List.sublist_cons_self _ _
    · rw [if_neg ht] at h
      rcases he : edit test visit cs st with e | ⟨r', cs1, st2⟩
      · rw [he] at h; cases h
      · rw [he] at h; cases h; exact (ih he).cons_cons c.ident

/-- A loop fails only where the visitor does. -/
theorem edit_error {test : κ → Bool} {visit : Visitor κ α σ ε} {cs : List (Cell κ α)} {st : σ} {e : ε}
    (h : edit test visit cs st = .error e) : ∃ a k v st', visit a k v st' = .error e := by
  induction cs generalizing st with
  | nil => cases h
  | cons c cs ih =>
    rw [edit] at h
    by_cases ht : test c.key = true
    · rw [if_pos ht] at h
      rcases hv : visit c.addr c.key c.val st with e' | ⟨mv, v, st1⟩
      · rw [hv] at h; cases h; exact ⟨_, _, _, _, hv⟩
      rw [hv] at h
      cases mv with
      | pass =>
        dsimp only at h
        rcases he : edit test visit cs st1 with e' | ⟨r, cs1, st2⟩
        · rw [he] at h; cases h; exact ih he
        · rw [he] at h; cases h
      | cut => exact ih h
      | halt => cases h
      | cutHalt => cases h
    · rw [if_neg ht] at h
      rcases he : edit test visit cs st with e' | ⟨r, cs1, st2⟩
      · rw [he] at h; cases h; exact ih he
      · rw [he] at h; cases h

section Keyed

variable [DecidableEq κ] {visit : Visitor κ α σ ε} {k : κ} {cs : List (Cell κ α)} {c : Cell κ α}
  {st st' : σ}
  {v : α}

/-- A loop that looks for a key passes over every other block. -/
theorem edit_cons_of_ne (h : c.key ≠ k) : edit (fun l => decide (l = k)) visit (c :: cs) st
    = match edit (fun l => decide (l = k)) visit cs st with
      | .error e => .error e
      | .ok (r, cs', st') => .ok (r, c :: cs', st') := by
  rw [edit, if_neg (by simpa using h)]

/-- ... to the end, if the key is not there. -/
theorem edit_of_absent (h : ∀ d ∈ cs, d.key ≠ k) :
    edit (fun l => decide (l = k)) visit cs st = .ok (false, cs, st) := by
  induction cs with
  | nil => rfl
  | cons d cs ih =>
    rw [edit_cons_of_ne (h d List.mem_cons_self), ih fun x hx => h x (List.mem_cons_of_mem _ hx)]

/-- ... and calls the visitor once, if it is. -/
theorem edit_of_error (hc : c ∈ cs) (hk : c.key = k) (hnd : (cs.map Cell.key).Nodup) {e : ε}
    (hv : visit c.addr c.key c.val st = .error e) :
    edit (fun l => decide (l = k)) visit cs st = .error e := by
  induction cs with
  | nil => cases hc
  | cons d cs ih =>
    rw [List.map_cons, List.nodup_cons] at hnd
    rcases List.mem_cons.mp hc with rfl | hc
    · rw [edit, if_pos (by simpa using hk), hv]
    · have hne : d.key ≠ k := fun hd => hnd.1 (by rw [hd, ← hk]; exact List.mem_map_of_mem hc)
      rw [edit_cons_of_ne hne, ih hc hnd.2]

theorem edit_of_halt (hc : c ∈ cs) (hk : c.key = k) (hnd : (cs.map Cell.key).Nodup)
    (haddr : (cs.map Cell.addr).Nodup) (hv : visit c.addr c.key c.val st = .ok (.halt, v, st')) :
    edit (fun l => decide (l = k)) visit cs st
      = .ok (true, cs.map fun d => if d.addr = c.addr then d.put v else d, st') := by
  induction cs with
  | nil => cases hc
  | cons d cs ih =>
    rw [List.map_cons, List.nodup_cons] at hnd haddr
    rcases List.mem_cons.mp hc with rfl | hc
    · have hrest : ∀ d ∈ cs, (if d.addr = c.addr then d.put v else d) = d := by
        intro d hd
        rw [if_neg fun heq => haddr.1 (by rw [← heq]; exact List.mem_map_of_mem hd)]
      rw [edit, if_pos (by simpa using hk), hv, List.map_cons, if_pos rfl, List.map_congr_left hrest,
        List.map_id']
    · have hne : d.key ≠ k := fun hd => hnd.1 (by rw [hd, ← hk]; exact List.mem_map_of_mem hc)
      have hne' : d.addr ≠ c.addr := fun hd => haddr.1 (by rw [hd]; exact List.mem_map_of_mem hc)
      rw [edit_cons_of_ne hne, ih hc hnd.2 haddr.2, List.map_cons, if_neg hne']

theorem edit_of_cutHalt (hc : c ∈ cs) (hk : c.key = k) (hnd : (cs.map Cell.key).Nodup)
    (haddr : (cs.map Cell.addr).Nodup) (hv : visit c.addr c.key c.val st = .ok (.cutHalt, v, st')) :
    edit (fun l => decide (l = k)) visit cs st = .ok (true, cs.filter fun d => d.addr ≠ c.addr, st') := by
  induction cs with
  | nil => cases hc
  | cons d cs ih =>
    rw [List.map_cons, List.nodup_cons] at hnd haddr
    rcases List.mem_cons.mp hc with rfl | hc
    · have hrest : ∀ d ∈ cs, decide (d.addr ≠ c.addr) = true := by
        intro d hd
        have hne : d.addr ≠ c.addr := fun heq => haddr.1 (by rw [← heq]; exact List.mem_map_of_mem hd)
        simpa using hne
      rw [edit, if_pos (by simpa using hk), hv, List.filter_cons_of_neg (by simp),
        List.filter_eq_self.mpr hrest]
    · have hne : d.key ≠ k := fun hd => hnd.1 (by rw [hd, ← hk]; exact List.mem_map_of_mem hc)
      have hne' : d.addr ≠ c.addr := fun hd => haddr.1 (by rw [hd]; exact List.mem_map_of_mem hc)
      rw [edit_cons_of_ne hne, ih hc hnd.2 haddr.2, List.filter_cons_of_pos (by simpa using hne')]

end Keyed

/-- What the loop in memory owes to the loop on the list `cs`: the same verdict, the edited list at the
    same slot, nothing changed elsewhere, and of the blocks of `cs` exactly the edited list's are left. -/
structure Edited (s : Slot) (cs cs' : List (Cell κ α)) (m m' : Memory κ α) : Prop where
  hangs : Hangs m' s cs'
  within : Within s (cs.map Cell.addr) m m'
  live : ∀ a ∈ cs.map Cell.addr, m'.node a ≠ none ↔ a ∈ cs'.map Cell.addr

section Spec

variable {test : κ → Bool} {visit : Visitor κ α σ ε} {s : Slot} {m m1 m' : Memory κ α} {c : Cell κ α}
  {cs cs' : List (Cell κ α)}

/-- The first block of a list. -/
theorem Hangs.head (h : Hangs m s (c :: cs)) :
    ∃ q, m.load s = some (some c.addr) ∧ m.node c.addr = some ⟨c.key, c.val, q⟩ ∧ Path m q cs := by
  obtain ⟨p, hp, hpath⟩ := h
  obtain ⟨rfl, q, hq, hcs⟩ := hpath
  exact ⟨q, hp, hq, hcs⟩

/-- A slot outside the blocks that change keeps its pointer. -/
theorem Within.load {as : List Nat} {t : Slot} (h : Within t as m m') (hne : s ≠ t)
    (ht : ∀ a, s = .next a → a ∉ as) : m'.load s = m.load s := by
  cases s with
  | root i => exact h.roots i hne.symm
  | next a => exact congrArg (Option.map Node.next) (h.nodes a (ht a rfl) hne.symm)

/-- The block that was passed over, put back before what became of the rest. -/
theorem Edited.cons (hhead : m.load s = some (some c.addr))
    (hs : ∀ a, s = .next a → a ∉ (c :: cs).map Cell.addr)
    (hnd : c.addr ∉ cs.map Cell.addr) {v : α} (hv : ∃ q, m1.node c.addr = some ⟨c.key, v, q⟩)
    (hw : Within s [c.addr] m m1) (hload : m1.load s = m.load s) (h : Edited (.next c.addr) cs cs' m1 m') :
    Edited s (c :: cs) (c.put v :: cs') m m' := by
  obtain ⟨q, hq⟩ := hv
  have hne : s ≠ .next c.addr := fun h => hs c.addr h (by simp)
  have hslot := h.within.slot c.addr hnd rfl
  rw [hq] at hslot
  obtain ⟨x, hx, hxy⟩ := Option.map_eq_some_iff.mp hslot
  obtain ⟨p, hp, hpath⟩ := h.hangs
  have hxp : x.next = p := by
    have hl : (m'.node c.addr).map Node.next = some p := hp
    rw [hx] at hl
    exact Option.some.inj hl
  refine ⟨⟨some c.addr, ?_, rfl, p, ?_, hpath⟩, ?_, ?_⟩
  · rw [h.within.load hne fun a ha hmem => hs a ha (List.mem_cons_of_mem _ hmem), hload, hhead]
  · rw [show (c.put v).addr = c.addr from rfl, hx]
    obtain ⟨hk, hval⟩ := Prod.mk.inj hxy
    rw [← hxp]
    cases x
    cases hk
    cases hval
    rfl
  · exact (hw.mono (by simp)).trans (h.within.behind s)
  · intro a ha
    rw [List.map_cons, List.mem_cons] at ha ⊢
    rcases ha with rfl | ha
    · exact iff_of_true (by rw [hx]; simp) (.inl rfl)
    · rw [h.live a ha]
      refine ⟨.inr, fun h => h.resolve_left ?_⟩
      rintro rfl
      exact hnd ha

theorem Hangs.write (h : Hangs m s (c :: cs)) (hnd : c.addr ∉ cs.map Cell.addr) (v : α) :
    (∃ q, (m.write c.addr v).node c.addr = some ⟨c.key, v, q⟩) ∧
    Hangs (m.write c.addr v) (.next c.addr) cs := by
  obtain ⟨q, -, hq, hpath⟩ := h.head
  have hnode : (m.write c.addr v).node c.addr = some ⟨c.key, v, q⟩ := by
    unfold Memory.write
    rw [m.node_modify, if_pos rfl, hq]
    rfl
  refine ⟨⟨q, hnode⟩, q, congrArg (Option.map Node.next) hnode, hpath.frame fun d hd => ?_⟩
  have hmem : d.addr ∈ cs.map Cell.addr := List.mem_map_of_mem hd
  have hne : d.addr ≠ c.addr := fun heq => hnd (heq ▸ hmem)
  exact m.node_write_of_ne hne v

theorem Hangs.unlink (h : Hangs m s (c :: cs)) (hnd : c.addr ∉ cs.map Cell.addr)
    (hs : ∀ a, s = .next a → a ∉ (c :: cs).map Cell.addr) {q : Option Nat}
    (hq : m.node c.addr = some ⟨c.key, c.val, q⟩) :
    Hangs (m.unlink s c.addr q) s cs ∧ (m.unlink s c.addr q).node c.addr = none := by
  obtain ⟨q', hload, hq', hpath⟩ := h.head
  rw [hq] at hq'
  cases hq'
  have hframe : ∀ d ∈ cs, (m.unlink s c.addr q).node d.addr = m.node d.addr := by
    intro d hd
    have hmem : d.addr ∈ cs.map Cell.addr := List.mem_map_of_mem hd
    have hne : d.addr ≠ c.addr := fun heq => hnd (heq ▸ hmem)
    have hsd : s ≠ .next d.addr := fun heq => hs _ heq (List.mem_cons_of_mem _ hmem)
    exact (Memory.node_free _ _ _).trans ((if_neg hne).trans (m.node_store_of_ne hsd q))
  refine ⟨⟨q, ?_, hpath.frame hframe⟩, (Memory.node_free _ _ _).trans (if_pos rfl)⟩
  cases s with
  | root i =>
    have hi : i < m.roots.length := (List.getElem?_eq_some_iff.mp hload).1
    exact List.getElem?_set_self hi
  | next a =>
    have hne : a ≠ c.addr := fun heq => hs a rfl (by simp [heq])
    have hnode : (m.unlink (.next a) c.addr q).node a = (m.node a).map fun x => { x with next := q } := by
      refine (Memory.node_free _ _ _).trans ((if_neg hne).trans ?_)
      exact (m.node_modify a a _).trans (if_pos rfl)
    show Option.map Node.next ((m.unlink (.next a) c.addr q).node a) = some q
    rw [hnode, Option.map_map]
    cases hx : m.node a with
    | none =>
      have hl : (m.node a).map Node.next = some (some c.addr) := hload
      rw [hx] at hl
      cases hl
    | some x => rfl

theorem Edited.refl (h : Hangs m s cs) (hcs : ∀ c ∈ cs, m.node c.addr ≠ none) : Edited s cs cs m m where
  hangs := h
  within := .refl _ _ _
  live a ha := by
    obtain ⟨c, hc, rfl⟩ := List.mem_map.mp ha
    exact iff_of_true (hcs c hc) ha

/-- The blocks of a list are allocated. -/
theorem Path.live {p : Option Nat} (h : Path m p cs) : ∀ c ∈ cs, m.node c.addr ≠ none := by
  induction cs generalizing p with
  | nil => intro c hc; cases hc
  | cons d cs ih =>
    obtain ⟨-, q, hq, hcs⟩ := h
    intro c hc
    rcases List.mem_cons.mp hc with rfl | hc
    · rw [hq]; simp
    · exact ih hcs c hc

theorem Hangs.live (h : Hangs m s cs) : ∀ c ∈ cs, m.node c.addr ≠ none :=
  h.choose_spec.2.live

/-- The rest of a list after its first block has been taken out. -/
theorem Edited.cut (hdead : m1.node c.addr = none) (hw : Within s [c.addr] m m1)
    (hnd : c.addr ∉ cs.map Cell.addr) (hsc : s ≠ .next c.addr) (h : Edited s cs cs' m1 m')
    (hsub : ∀ a ∈ cs'.map Cell.addr, a ∈ cs.map Cell.addr) : Edited s (c :: cs) cs' m m' where
  hangs := h.hangs
  within := (hw.mono (by simp)).trans (h.within.mono fun a ha => List.mem_cons_of_mem _ ha)
  live a ha := by
    rw [List.map_cons, List.mem_cons] at ha
    rcases ha with rfl | ha
    · rw [h.within.nodes _ hnd hsc, hdead]
      exact iff_of_false (fun hn => hn rfl) fun hmem => hnd (hsub _ hmem)
    · exact h.live a ha

theorem addr_subset (h : (cs'.map Cell.ident).Sublist (cs.map Cell.ident)) :
    ∀ a ∈ cs'.map Cell.addr, a ∈ cs.map Cell.addr := fun _ ha => (Table.ident_sublist_addr h).subset ha

/-- **The loop in memory is the loop on the list**, by induction on the list; `s` is the slot it hangs
    from, which lies in none of its blocks. -/
theorem traverse_spec (test : κ → Bool) (visit : Visitor κ α σ ε) (cs : List (Cell κ α)) :
    ∀ (n : Nat) (s : Slot) (m : Memory κ α) (st : σ), cs.length < n → Hangs m s cs →
      (cs.map Cell.addr).Nodup → (∀ a, s = .next a → a ∉ cs.map Cell.addr) →
      match edit test visit cs st with
      | .error e => traverse test visit n s m st = .error (.thrown e)
      | .ok (r, cs', st') => ∃ m', traverse test visit n s m st = .ok (r, m', st') ∧
        Edited s cs cs' m m' := by
  induction cs with
  | nil =>
    intro n s m st hn hh _ _
    obtain ⟨n, rfl⟩ : ∃ k, n = k + 1 := ⟨n - 1, by omega⟩
    obtain ⟨p, hp, rfl⟩ := id hh
    rw [edit, traverse, hp]
    exact ⟨m, rfl, .refl hh nofun⟩
  | cons c cs ih =>
    intro n s m st hn hh hnd hs
    obtain ⟨n, rfl⟩ : ∃ k, n = k + 1 := ⟨n - 1, by rw [List.length_cons] at hn; omega⟩
    rw [List.length_cons, Nat.add_lt_add_iff_right] at hn
    rw [List.map_cons, List.nodup_cons] at hnd
    obtain ⟨hca, hnd⟩ := hnd
    obtain ⟨q, hload, hq, hpath⟩ := hh.head
    have hsc : s ≠ .next c.addr := fun h => hs c.addr h (by simp)
    have hnext : ∀ a, Slot.next c.addr = .next a → a ∉ cs.map Cell.addr := by
      rintro a ⟨⟩
      exact hca
    have hs' : ∀ a, s = .next a → a ∉ cs.map Cell.addr := fun a ha hm => hs a ha (List.mem_cons_of_mem _ hm)
    -- the three ways on: keep the value, write one and go on, unlink and go on
    have hskip := ih n (.next c.addr) m st hn ⟨q, congrArg (Option.map Node.next) hq, hpath⟩ hnd hnext
    have hwrite := fun (v : α) (st : σ) =>
      ih n (.next c.addr) (m.write c.addr v) st hn (hh.write hca v).2 hnd hnext
    have hcut := fun (st : σ) => ih n s (m.unlink s c.addr q) st hn (hh.unlink hca hs hq).1 hnd hs'
    have hloadw : ∀ v, (m.write c.addr v).load s = m.load s := fun v =>
      (Within.write (.next c.addr) m c.addr v).load hsc fun a ha hm => by
        rw [List.mem_singleton] at hm
        exact hsc (hm ▸ ha)
    rw [edit, traverse, hload]
    simp only [hq]
    by_cases ht : test c.key = true
    · rw [if_pos ht, if_pos ht]
      rcases hv : visit c.addr c.key c.val st with e | ⟨mv, v, st1⟩
      · rfl
      cases mv with
      | pass =>
        specialize hwrite v st1
        dsimp only
        rcases he : edit test visit cs st1 with e | ⟨r, cs', st2⟩
        · rw [he] at hwrite
          exact hwrite
        · rw [he] at hwrite
          obtain ⟨m', hm', hed⟩ := hwrite
          exact ⟨m', hm', Edited.cons hload hs hca (hh.write hca v).1 (.write s m c.addr v) (hloadw v) hed⟩
      | cut =>
        specialize hcut st1
        dsimp only
        rcases he : edit test visit cs st1 with e | ⟨r, cs', st2⟩
        · rw [he] at hcut
          exact hcut
        · rw [he] at hcut
          obtain ⟨m', hm', hed⟩ := hcut
          exact ⟨m', hm', Edited.cut (hh.unlink hca hs hq).2 (.unlink s m c.addr q) hca hsc hed
            (addr_subset (edit_sublist he))⟩
      | halt =>
        refine ⟨_, rfl, Edited.cons hload hs hca (hh.write hca v).1 (.write s m c.addr v) (hloadw v) ?_⟩
        exact .refl (hh.write hca v).2 (hh.write hca v).2.live
      | cutHalt =>
        refine ⟨_, rfl, Edited.cut (hh.unlink hca hs hq).2 (.unlink s m c.addr q) hca hsc ?_ fun a ha => ha⟩
        exact .refl (hh.unlink hca hs hq).1 (hh.unlink hca hs hq).1.live
    · rw [if_neg ht, if_neg ht]
      rcases he : edit test visit cs st with e | ⟨r, cs', st2⟩
      · rw [he] at hskip
        exact hskip
      · rw [he] at hskip
        obtain ⟨m', hm', hed⟩ := hskip
        have hput : c.put c.val = c := rfl
        exact ⟨m', hm', hput ▸ Edited.cons hload hs hca ⟨q, hq⟩ (.refl _ _ _) rfl hed⟩

end Spec

/-! ## Tables in memory -/

/-- The memory holds the table `t`: a list for each root, and no other block. -/
structure Represents (m : Memory κ α) (t : Table κ α) : Prop where
  length : m.roots.length = t.buckets.length
  hangs : ∀ i b, t.buckets[i]? = some b → Hangs m (.root i) b
  live : ∀ a, m.node a ≠ none ↔ a ∈ t.addrs

theorem nodup_addr_bucket (t : Table κ α) {i : Nat} {b : List (Cell κ α)} (hb : t.buckets[i]? = some b) :
    (b.map Cell.addr).Nodup :=
  t.idents.2.sublist ((List.sublist_flatten_of_mem (List.mem_of_getElem? hb)).map _)

/-- Two buckets share no block. -/
theorem addr_ne_of_ne (t : Table κ α) {i j : Nat} {b b' : List (Cell κ α)} (hb : t.buckets[i]? = some b)
    (hb' : t.buckets[j]? = some b') (hij : j ≠ i) {c : Cell κ α} (hc : c ∈ b') :
    c.addr ∉ b.map Cell.addr := by
  intro hmem
  obtain ⟨d, hd, ha⟩ := List.mem_map.mp hmem
  have hcell : ∀ {i : Nat} {b : List (Cell κ α)} {c : Cell κ α}, t.buckets[i]? = some b → c ∈ b →
      c ∈ t.cells := fun hb hc => List.mem_flatten.mpr ⟨_, List.mem_of_getElem? hb, hc⟩
  have hdc : d = c := t.addr_inj (hcell hb hd) (hcell hb' hc) ha
  exact hij ((t.placed j b' hb' c hc).symm.trans (hdc ▸ t.placed i b hb d hd))

theorem mem_addrs_bucket (t : Table κ α) {a : Nat} :
    a ∈ t.addrs ↔ ∃ i : Nat, ∃ b : List (Cell κ α), t.buckets[i]? = some b ∧ a ∈ b.map Cell.addr := by
  unfold Table.addrs Table.cells
  constructor
  · intro h
    obtain ⟨c, hc, rfl⟩ := List.mem_map.mp h
    obtain ⟨b, hb, hcb⟩ := List.mem_flatten.mp hc
    obtain ⟨i, hi⟩ := List.mem_iff_getElem?.mp hb
    exact ⟨i, b, hi, List.mem_map_of_mem hcb⟩
  · rintro ⟨i, b, hb, ha⟩
    obtain ⟨c, hc, rfl⟩ := List.mem_map.mp ha
    exact List.mem_map_of_mem (List.mem_flatten.mpr ⟨b, List.mem_of_getElem? hb, hc⟩)

/-- A rewrite that concerns bucket `i` only. -/
theorem buckets_rewrite (t : Table κ α) {i : Nat} {b : List (Cell κ α)} (hb : t.buckets[i]? = some b)
    {sel : Nat → Cell κ α → Option α}
    (hother : ∀ j b', t.buckets[j]? = some b' → j ≠ i → ∀ d ∈ b', sel j d = some d.val) :
    (t.rewrite sel).buckets = t.buckets.set i (Table.keepMap sel i b) := by
  refine List.ext_getElem? fun j => ?_
  show (t.buckets.mapIdx (Table.keepMap sel))[j]? = _
  rw [List.getElem?_mapIdx]
  by_cases hj : j = i
  · have hi : i < t.buckets.length := (List.getElem?_eq_some_iff.mp hb).1
    rw [hj, List.getElem?_set_self hi, hb]
    rfl
  · rw [List.getElem?_set_ne (Ne.symm hj)]
    cases hb' : t.buckets[j]? with
    | none => rfl
    | some b' =>
      have hsame : ∀ d ∈ b', (sel j d).map d.put = some d := by
        intro d hd
        rw [hother j b' hb' hj d hd]
        rfl
      rw [Option.map_some, Table.keepMap, List.filterMap_congr hsame, List.filterMap_some]

theorem buckets_write (t : Table κ α) {i : Nat} {b : List (Cell κ α)} (hb : t.buckets[i]? = some b)
    {c : Cell κ α} (hc : c ∈ b) (v : α) :
    (t.write c.addr v).buckets
      = t.buckets.set i (b.map fun d => if d.addr = c.addr then d.put v else d) := by
  have hkeep : Table.keepMap (fun _ d => some (if d.addr = c.addr then v else d.val)) i b
      = b.map fun d => if d.addr = c.addr then d.put v else d := by
    unfold Table.keepMap
    rw [← List.filterMap_eq_map]
    refine List.filterMap_congr fun d _ => ?_
    by_cases hd : d.addr = c.addr
    · simp [hd]
    · simp [hd, Cell.put]
  rw [← hkeep]
  refine buckets_rewrite t hb fun j b' hb' hj d hd => ?_
  have hne : d.addr ≠ c.addr := fun heq => addr_ne_of_ne t hb hb' hj hd (heq ▸ List.mem_map_of_mem hc)
  rw [if_neg hne]

theorem buckets_erase (t : Table κ α) {i : Nat} {b : List (Cell κ α)} (hb : t.buckets[i]? = some b)
    {c : Cell κ α} (hc : c ∈ b) :
    (t.erase c.addr).buckets = t.buckets.set i (b.filter fun d => d.addr ≠ c.addr) := by
  have hkeep : Table.keepMap (fun _ d => if d.addr = c.addr then none else some d.val) i b
      = b.filter fun d => d.addr ≠ c.addr := by
    unfold Table.keepMap
    rw [← List.filterMap_eq_filter]
    refine List.filterMap_congr fun d _ => ?_
    by_cases hd : d.addr = c.addr
    · simp [hd, Option.guard]
    · simp [hd, Option.guard, Cell.put]
  rw [← hkeep]
  refine buckets_rewrite t hb fun j b' hb' hj d hd => ?_
  have hne : d.addr ≠ c.addr := fun heq => addr_ne_of_ne t hb hb' hj hd (heq ▸ List.mem_map_of_mem hc)
  rw [if_neg hne]

namespace Represents

variable {m m' : Memory κ α} {t t' : Table κ α} {i : Nat} {b cs : List (Cell κ α)}

/-- The bucket that was edited. -/
theorem edited (h : Represents m t) (hb : t.buckets[i]? = some b) (he : Edited (.root i) b cs m m')
    (ht : t'.buckets = t.buckets.set i cs) (hsub : ∀ a ∈ cs.map Cell.addr, a ∈ b.map Cell.addr) :
    Represents m' t' where
  length := by rw [he.within.length, h.length, ht, List.length_set]
  hangs j b' hb' := by
    have hi : i < t.buckets.length := (List.getElem?_eq_some_iff.mp hb).1
    rw [ht] at hb'
    by_cases hj : j = i
    · subst hj
      rw [List.getElem?_set_self hi] at hb'
      cases hb'
      exact he.hangs
    · rw [List.getElem?_set_ne (Ne.symm hj)] at hb'
      obtain ⟨p, hp, hpath⟩ := h.hangs j b' hb'
      refine ⟨p, (he.within.roots j ?_).trans hp, hpath.frame fun c hc => ?_⟩
      · exact fun hn => hj (Slot.root.inj hn).symm
      · exact he.within.nodes _ (addr_ne_of_ne t hb hb' hj hc) nofun
  live a := by
    have hi : i < t.buckets.length := (List.getElem?_eq_some_iff.mp hb).1
    rw [mem_addrs_bucket, ht]
    by_cases ha : a ∈ b.map Cell.addr
    · rw [he.live a ha]
      refine ⟨fun hc => ⟨i, cs, List.getElem?_set_self hi, hc⟩, ?_⟩
      rintro ⟨j, b', hb', hab⟩
      by_cases hj : j = i
      · subst hj
        rw [List.getElem?_set_self hi] at hb'
        cases hb'
        exact hab
      · rw [List.getElem?_set_ne (Ne.symm hj)] at hb'
        obtain ⟨c, hc, rfl⟩ := List.mem_map.mp hab
        exact absurd ha (addr_ne_of_ne t hb hb' hj hc)
    · rw [he.within.nodes a ha nofun, h.live a, mem_addrs_bucket]
      refine exists_congr fun j => ?_
      by_cases hj : j = i
      · subst hj
        rw [List.getElem?_set_self hi, hb]
        refine iff_of_false ?_ ?_
        · rintro ⟨b', ⟨⟩, hab⟩
          exact ha hab
        · rintro ⟨b', ⟨⟩, hab⟩
          exact ha (hsub a hab)
      · rw [List.getElem?_set_ne (Ne.symm hj)]

/-- **A loop over one bucket**, in memory and on the list. -/
theorem traverse (h : Represents m t) (hb : t.buckets[i]? = some b) {n : Nat} (hn : b.length < n)
    (test : κ → Bool) (visit : Visitor κ α σ ε) (st : σ) :
    match edit test visit b st with
    | .error e => Linked.traverse test visit n (.root i) m st = .error (.thrown e)
    | .ok (r, cs, st') => ∃ m', Linked.traverse test visit n (.root i) m st = .ok (r, m', st') ∧
        ∀ t' : Table κ α, t'.buckets = t.buckets.set i cs → Represents m' t' := by
  have hspec :=
    traverse_spec test visit b n (.root i) m st hn (h.hangs i b hb) (nodup_addr_bucket t hb) nofun
  rcases he : edit test visit b st with e | ⟨r, cs, st'⟩
  · rw [he] at hspec
    exact hspec
  · rw [he] at hspec
    obtain ⟨m', hm', hed⟩ := hspec
    exact ⟨m', hm', fun t' ht => h.edited hb hed ht (addr_subset (edit_sublist he))⟩

variable [DecidableEq κ]

/-- A new block at the front of its bucket. -/
theorem push (h : Represents m t) {k : κ} (hk : t.find k = none) {p : Option Nat}
    (hp : m.roots[t.index k]? = some p) (v : α) :
    Represents ((m.new t.newAddr ⟨k, v, p⟩).store (.root (t.index k)) (some t.newAddr)) (t.push k v) := by
  have hbuckets : (t.push k v).buckets = t.buckets.modify (t.index k) (⟨t.newAddr, k, v⟩ :: ·) := by
    unfold Table.push
    rw [dif_pos hk]
  have hfresh : ∀ {i : Nat} {b : List (Cell κ α)} {c : Cell κ α}, t.buckets[i]? = some b → c ∈ b →
      c.addr ≠ t.newAddr := by
    intro i b c hb hc ha
    refine t.fresh t.addrs ?_
    rw [show t.alloc t.addrs = t.newAddr from rfl, ← ha, mem_addrs_bucket]
    exact ⟨i, b, hb, List.mem_map_of_mem hc⟩
  have hnode : ∀ a, ((m.new t.newAddr ⟨k, v, p⟩).store (.root (t.index k)) (some t.newAddr)).node a
      = if a = t.newAddr then some ⟨k, v, p⟩ else m.node a := fun a => m.node_new _ _ _
  have hframe : ∀ {i : Nat} {b : List (Cell κ α)} {q}, t.buckets[i]? = some b → Path m q b →
      Path ((m.new t.newAddr ⟨k, v, p⟩).store (.root (t.index k)) (some t.newAddr)) q b := by
    intro i b q hb hpath
    exact hpath.frame fun c hc => (hnode c.addr).trans (if_neg (hfresh hb hc))
  refine ⟨?_, fun i b hb => ?_, fun a => ?_⟩
  · rw [hbuckets, List.length_modify, ← h.length]
    exact List.length_set
  · rw [hbuckets, List.getElem?_modify] at hb
    obtain ⟨b0, hb0, rfl⟩ := Option.map_eq_some_iff.mp hb
    obtain ⟨q, hq, hpath⟩ := h.hangs i b0 hb0
    by_cases hi : t.index k = i
    · subst hi
      have hlt : t.index k < m.roots.length := (List.getElem?_eq_some_iff.mp hp).1
      have hqp : q = p := Option.some.inj (hq.symm.trans hp)
      rw [if_pos rfl]
      refine ⟨some t.newAddr, List.getElem?_set_self hlt, rfl, p, (hnode _).trans (if_pos rfl), ?_⟩
      exact hframe hb0 (hqp ▸ hpath)
    · rw [if_neg hi]
      exact ⟨q, (List.getElem?_set_ne hi).trans hq, hframe hb0 hpath⟩
  · rw [t.mem_addrs_push v hk, hnode]
    by_cases ha : a = t.newAddr
    · rw [if_pos ha]
      exact iff_of_true (by simp) (.inl ha)
    · rw [if_neg ha, h.live a]
      exact ⟨.inr, fun h => h.resolve_left ha⟩

omit [DecidableEq κ] in
/-- There are at least as many blocks as a bucket is long. -/
theorem length_le (h : Represents m t) (hb : t.buckets[i]? = some b) : b.length ≤ m.blocks.keys.length := by
  have hsub : b.map Cell.addr ⊆ m.blocks.keys := by
    intro a ha
    have hlive := (h.live a).mpr ((mem_addrs_bucket t).mpr ⟨i, b, hb, ha⟩)
    exact AList.mem_keys.mp (not_not.mp (mt AList.lookup_eq_none.mpr hlive))
  have hle := (List.subperm_of_subset (nodup_addr_bucket t hb) hsub).length_le
  rwa [List.length_map] at hle

omit [DecidableEq κ] in
/-- An address that is not allocated is not in the table. -/
theorem not_mem_addrs (h : Represents m t) {a : Nat} (ha : a ∉ m.blocks.keys) : a ∉ t.addrs := by
  rw [← h.live a, not_not]
  exact AList.lookup_eq_none.mpr fun hm => ha (AList.mem_keys.mp hm)

end Represents

/-! ## Reading a list -/

/-- The blocks met on the way from a pointer. -/
def walk (m : Memory κ α) : Nat → Option Nat → List (Cell κ α)
  | 0, _ => []
  | _ + 1, none => []
  | n + 1, some a =>
    match m.node a with
    | none => []
    | some x => ⟨a, x.key, x.val⟩ :: walk m n x.next

theorem walk_of_path {m : Memory κ α} {cs : List (Cell κ α)} :
    ∀ {n : Nat} {p : Option Nat}, Path m p cs → cs.length < n → walk m n p = cs := by
  induction cs with
  | nil =>
    rintro (_ | n) p rfl hn
    · omega
    · rfl
  | cons c cs ih =>
    rintro (_ | n) p ⟨rfl, q, hq, hcs⟩ hn
    · omega
    · rw [walk, hq]
      dsimp only
      rw [ih hcs (by rw [List.length_cons] at hn; omega)]

/-- Empty lists represent the empty table. -/
theorem represents_empty (hash : κ → Nat) (alloc : List Nat → Nat) (fresh : ∀ live, alloc live ∉ live)
    (n : Nat) : Represents (α := α) ⟨List.replicate (n + 1) none, ∅⟩ (Table.empty hash alloc fresh n) where
  length := by simp [Table.empty]
  hangs i b hb := by
    have hmem := List.mem_of_getElem? hb
    have hi : i < n + 1 := by
      have := (List.getElem?_eq_some_iff.mp hb).1
      simpa [Table.empty] using this
    rw [List.eq_of_mem_replicate hmem]
    exact ⟨none, by simp [Memory.load, hi], rfl⟩
  live a := by simp [Memory.node, Table.addrs, Table.cells, Table.empty]

end Linked
