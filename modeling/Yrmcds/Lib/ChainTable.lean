/-
  A chained hash table whose cells have ADDRESSES.

  A `Table κ α` is a vector of buckets, each a list of cells; a cell is a heap block holding a key
  and a value.  Other parts of a program keep pointers to cells (to their keys), so a cell carries the
  address of its block, and an address is unique among the LIVE cells only: `alloc` stands for the
  memory allocator, which may hand out an address again once its block has been freed.  All that is
  known of it is that a new block never overlaps a live one (`fresh`).

  The structure carries its own well-formedness: every cell sits in the bucket its key hashes to
  (`placed`), no key and no address occurs twice (`idents`).  Values change in place by ADDRESS
  (`write`), cells are unlinked by address (`erase`), a new cell goes to the front of its bucket
  (`push`), and a whole bucket can be swept in one pass (`sweep`).

  A client reasons with `find` alone: `find_write`, `find_erase`, `find_push_self`, `find_sweep` say what
  each operation does to it, `mem_cells_iff` links it to the cells, `deref_eq_some_iff` to pointers.
-/
import Mathlib.Data.List.Nodup
import Mathlib.Data.List.Flatten

namespace ChainTable

/-- A heap block of the table: its address, the key and the value stored in it. -/
structure Cell (κ α : Type) where
  addr : Nat
  key : κ
  val : α
deriving DecidableEq, Repr

namespace Cell

variable {κ α : Type}

variable (c : Cell κ α)

/-- What identifies a block: where it is and which key it holds. -/
def ident : Nat × κ := (c.addr, c.key)

/-- The same block with another value in it. -/
def put (v : α) : Cell κ α := { c with val := v }

@[simp] theorem put_addr (v : α) : (c.put v).addr = c.addr := rfl
@[simp] theorem put_val (v : α) : (c.put v).val = v := rfl

end Cell

/-- A chained table together with the allocator its blocks come from. -/
structure Table (κ α : Type) where
  hash : κ → Nat
  alloc : List Nat → Nat
  buckets : List (List (Cell κ α))
  pos : 0 < buckets.length
  /-- A new block does not overlap a live one. -/
  fresh : ∀ live, alloc live ∉ live
  /-- Every cell sits in the bucket its key hashes to. -/
  placed : ∀ i b, buckets[i]? = some b → ∀ c ∈ b, hash c.key % buckets.length = i
  idents : (buckets.flatten.map Cell.key).Nodup ∧ (buckets.flatten.map Cell.addr).Nodup

namespace Table

variable {κ α : Type}

variable (t : Table κ α)

/-- All cells, bucket after bucket. -/
def cells : List (Cell κ α) := t.buckets.flatten

/-- The addresses of the live blocks. -/
def addrs : List Nat := t.cells.map Cell.addr

/-- The bucket number of a key. -/
def index (k : κ) : Nat := t.hash k % t.buckets.length

/-- The chain a key belongs to. -/
def chain (k : κ) : List (Cell κ α) := (t.buckets[t.index k]?).getD []

/-- The cell of a key: linear search through its chain. -/
def find [DecidableEq κ] (t : Table κ α) (k : κ) : Option (Cell κ α) :=
  (t.chain k).find? (fun c => c.key = k)

/-- The live cell at an address. -/
def cellAt (a : Nat) : Option (Cell κ α) := t.cells.find? (fun c => c.addr = a)

/-- Follow a pointer to the key stored in the block at `a`; `none` when no live block is there. -/
def deref (a : Nat) : Option κ := (t.cellAt a).map Cell.key

/-- An allocator: one above the highest live address. -/
def bump (live : List Nat) : Nat := live.foldr (fun a n => max (a + 1) n) 0

theorem bump_fresh (live : List Nat) : bump live ∉ live := by
  have hlt : ∀ a ∈ live, a < bump live := by
    induction live with
    | nil => intro a ha; cases ha
    | cons b live ih =>
      intro a ha
      simp only [bump, List.foldr_cons]
      rcases List.mem_cons.mp ha with rfl | ha
      · omega
      · have := ih a ha
        unfold bump at this
        omega
  exact fun h => Nat.lt_irrefl _ (hlt _ h)

/-- The empty table over `n + 1` buckets. -/
def empty (hash : κ → Nat) (alloc : List Nat → Nat) (fresh : ∀ live, alloc live ∉ live) (n : Nat) :
    Table κ α where
  hash := hash
  alloc := alloc
  buckets := List.replicate (n + 1) []
  pos := by simp
  fresh := fresh
  placed := by
    intro i b hb c hc
    have hmem := List.mem_of_getElem? hb
    rw [List.eq_of_mem_replicate hmem] at hc
    cases hc
  idents := by simp

/-! ## Membership and lookup -/

theorem index_lt (k : κ) : t.index k < t.buckets.length := Nat.mod_lt _ t.pos

variable {k l : κ} {c d : Cell κ α} {a i : Nat} {b b' : List (Cell κ α)}
    {g : Nat → List (Cell κ α) → List (Cell κ α)}

theorem mem_chain_iff (hk : c.key = k) :
    c ∈ t.chain k ↔ c ∈ t.cells := by
  constructor
  · intro hc
    unfold chain at hc
    rw [List.getElem?_eq_getElem (t.index_lt k), Option.getD_some] at hc
    exact List.mem_flatten.mpr ⟨_, List.getElem_mem _, hc⟩
  · intro hc
    obtain ⟨b, hb, hcb⟩ := List.mem_flatten.mp hc
    obtain ⟨i, hi⟩ := List.mem_iff_getElem?.mp hb
    have hpl := t.placed i b hi c hcb
    unfold chain index
    rw [← hk, hpl, hi, Option.getD_some]
    exact hcb

theorem key_inj (hc : c ∈ t.cells) (hd : d ∈ t.cells) (h : c.key = d.key) : c = d :=
  List.inj_on_of_nodup_map t.idents.1 hc hd h

theorem addr_inj (hc : c ∈ t.cells) (hd : d ∈ t.cells) (h : c.addr = d.addr) : c = d :=
  List.inj_on_of_nodup_map t.idents.2 hc hd h

variable [DecidableEq κ]

/-- **Lookup is membership**: `find` returns exactly the cell that holds the key. -/
theorem find_eq_some_iff :
    t.find k = some c ↔ c ∈ t.cells ∧ c.key = k := by
  constructor
  · intro h
    have hk : c.key = k := by simpa using List.find?_some h
    exact ⟨(t.mem_chain_iff hk).mp (List.mem_of_find?_eq_some h), hk⟩
  · rintro ⟨hc, hk⟩
    cases hf : t.find k with
    | none =>
      have hno := List.find?_eq_none.mp hf c ((t.mem_chain_iff hk).mpr hc)
      exact absurd hk (by simpa using hno)
    | some d =>
      have hdk : d.key = k := by simpa using List.find?_some hf
      have hd := (t.mem_chain_iff hdk).mp (List.mem_of_find?_eq_some hf)
      rw [t.key_inj hd hc (hdk.trans hk.symm)]

theorem find_eq_none_iff :
    t.find k = none ↔ ∀ c ∈ t.cells, c.key ≠ k := by
  constructor
  · intro h c hc hk
    rw [t.find_eq_some_iff.mpr ⟨hc, hk⟩] at h
    cases h
  · intro h
    cases hf : t.find k with
    | none => rfl
    | some c =>
      obtain ⟨hc, hk⟩ := t.find_eq_some_iff.mp hf
      exact absurd hk (h c hc)

@[simp] theorem find_empty (hash : κ → Nat) (alloc : List Nat → Nat) (fresh : ∀ live, alloc live ∉ live)
    (n : Nat) (k : κ) : (empty hash alloc fresh n : Table κ α).find k = none := by
  refine (find_eq_none_iff _).mpr fun c hc => ?_
  simp [cells, empty] at hc

/-- The cells are what can be found. -/
theorem mem_cells_iff : c ∈ t.cells ↔ t.find c.key = some c :=
  ⟨fun h => t.find_eq_some_iff.mpr ⟨h, rfl⟩, fun h => (t.find_eq_some_iff.mp h).1⟩

theorem find_key (h : t.find k = some c) : c.key = k :=
  (t.find_eq_some_iff.mp h).2

theorem find_mem (h : t.find k = some c) : c ∈ t.cells :=
  (t.find_eq_some_iff.mp h).1

/-- Two lookups that end in one block are lookups of one key. -/
theorem find_addr_inj (hc : t.find k = some c)
    (hd : t.find l = some d) (h : c.addr = d.addr) : k = l ∧ c = d := by
  have hcd := t.addr_inj (t.find_mem hc) (t.find_mem hd) h
  exact ⟨by rw [← t.find_key hc, ← t.find_key hd, hcd], hcd⟩

/-- Looking up an address finds the cell a key lookup finds. -/
theorem cellAt_eq_some_iff :
    t.cellAt a = some c ↔ t.find c.key = some c ∧ c.addr = a := by
  unfold cellAt
  constructor
  · intro h
    exact ⟨t.mem_cells_iff.mp (List.mem_of_find?_eq_some h), by simpa using List.find?_some h⟩
  · rintro ⟨hc, ha⟩
    have hmem := t.mem_cells_iff.mpr hc
    cases hf : t.cells.find? (fun c => c.addr = a) with
    | none => exact absurd ha (by simpa using List.find?_eq_none.mp hf c hmem)
    | some d =>
      have hda : d.addr = a := by simpa using List.find?_some hf
      rw [t.addr_inj (List.mem_of_find?_eq_some hf) hmem (hda.trans ha.symm)]

theorem cellAt_of_find (h : t.find k = some c) :
    t.cellAt c.addr = some c :=
  t.cellAt_eq_some_iff.mpr ⟨by rw [t.find_key h]; exact h, rfl⟩

/-- Following a pointer succeeds exactly when a live block is there, and yields its key. -/
theorem deref_eq_some_iff :
    t.deref a = some k ↔ ∃ c, t.find k = some c ∧ c.addr = a := by
  unfold deref
  rw [Option.map_eq_some_iff]
  constructor
  · rintro ⟨c, hc, rfl⟩
    exact ⟨c, t.cellAt_eq_some_iff.mp hc⟩
  · rintro ⟨c, hc, rfl⟩
    exact ⟨c, t.cellAt_of_find hc, t.find_key hc⟩

theorem mem_addrs_iff :
    a ∈ t.addrs ↔ ∃ k c, t.find k = some c ∧ c.addr = a := by
  constructor
  · intro h
    obtain ⟨c, hc, ha⟩ := List.mem_map.mp h
    exact ⟨c.key, c, t.mem_cells_iff.mp hc, ha⟩
  · rintro ⟨k, c, hc, ha⟩
    exact List.mem_map.mpr ⟨c, t.find_mem hc, ha⟩

/-! ## Changing cells without moving them: `write`, `erase`, `sweep`

  All three replace each bucket by a list whose blocks are among the old ones, in the old order
  (`relink`), so well-formedness is proved once. -/

omit [DecidableEq κ] in
theorem ident_sublist_key (h : (b'.map Cell.ident).Sublist (b.map Cell.ident)) :
    (b'.map Cell.key).Sublist (b.map Cell.key) := by
  have := h.map Prod.snd
  rwa [List.map_map, List.map_map] at this

omit [DecidableEq κ] in
theorem ident_sublist_addr (h : (b'.map Cell.ident).Sublist (b.map Cell.ident)) :
    (b'.map Cell.addr).Sublist (b.map Cell.addr) := by
  have := h.map Prod.fst
  rwa [List.map_map, List.map_map] at this

omit [DecidableEq κ] in
theorem flatten_ident_sublist
    (hg : ∀ i b, ((g i b).map Cell.ident).Sublist (b.map Cell.ident)) (bs : List (List (Cell κ α))) :
    ∀ f : Nat → Nat, (((bs.mapIdx fun i b => g (f i) b).flatten).map Cell.ident).Sublist
      (bs.flatten.map Cell.ident) := by
  induction bs with
  | nil => intro f; simp
  | cons b bs ih =>
    intro f
    rw [List.mapIdx_cons, List.flatten_cons, List.flatten_cons, List.map_append, List.map_append]
    exact (hg _ b).append (ih fun i => f (i + 1))

omit [DecidableEq κ] in
theorem exists_ident_mem (h : (b'.map Cell.ident).Sublist (b.map Cell.ident))
    (hc : c ∈ b') : ∃ d ∈ b, d.ident = c.ident := by
  have := h.subset (List.mem_map.mpr ⟨c, hc, rfl⟩)
  obtain ⟨d, hd, he⟩ := List.mem_map.mp this
  exact ⟨d, hd, he⟩

/-- Replace bucket `i` by `g i` of it, for every `i`; `g` may drop blocks and change values, but not
    add, move or re-key a block. -/
def relink (g : Nat → List (Cell κ α) → List (Cell κ α))
    (hg : ∀ i b, ((g i b).map Cell.ident).Sublist (b.map Cell.ident)) : Table κ α :=
  { t with
    buckets := t.buckets.mapIdx g
    pos := by rw [List.length_mapIdx]; exact t.pos
    placed := by
      intro i b hb c hc
      rw [List.getElem?_mapIdx] at hb
      obtain ⟨b0, hb0, rfl⟩ := Option.map_eq_some_iff.mp hb
      obtain ⟨d, hd, he⟩ := exists_ident_mem (hg i b0) hc
      have hk : d.key = c.key := congrArg Prod.snd he
      rw [List.length_mapIdx, ← hk]
      exact t.placed i b0 hb0 d hd
    idents := by
      have hsub := flatten_ident_sublist hg t.buckets id
      exact ⟨t.idents.1.sublist (ident_sublist_key hsub), t.idents.2.sublist (ident_sublist_addr hsub)⟩ }

omit [DecidableEq κ] in
theorem relink_congr {g' : Nat → List (Cell κ α) → List (Cell κ α)}
    (hg : ∀ i b, ((g i b).map Cell.ident).Sublist (b.map Cell.ident))
    (hg' : ∀ i b, ((g' i b).map Cell.ident).Sublist (b.map Cell.ident)) (h : g = g') :
    t.relink g hg = t.relink g' hg' := by
  subst h; rfl

omit [DecidableEq κ] in
theorem mem_relink {hg : ∀ i b, ((g i b).map Cell.ident).Sublist (b.map Cell.ident)} :
    c ∈ (t.relink g hg).cells ↔ ∃ i b, t.buckets[i]? = some b ∧ c ∈ g i b := by
  unfold cells relink
  rw [List.mem_flatten]
  constructor
  · rintro ⟨b, hb, hc⟩
    obtain ⟨i, hi⟩ := List.mem_iff_getElem?.mp hb
    rw [List.getElem?_mapIdx] at hi
    obtain ⟨b0, hb0, rfl⟩ := Option.map_eq_some_iff.mp hi
    exact ⟨i, b0, hb0, hc⟩
  · rintro ⟨i, b, hb, hc⟩
    refine ⟨g i b, List.mem_iff_getElem?.mpr ⟨i, ?_⟩, hc⟩
    rw [List.getElem?_mapIdx, hb, Option.map_some]

omit [DecidableEq κ] in
theorem mem_cells_bucket :
    c ∈ t.cells ↔ ∃ b, t.buckets[t.index c.key]? = some b ∧ c ∈ b := by
  constructor
  · intro hc
    obtain ⟨b, hb, hcb⟩ := List.mem_flatten.mp hc
    obtain ⟨i, hi⟩ := List.mem_iff_getElem?.mp hb
    have hpl := t.placed i b hi c hcb
    exact ⟨b, by rw [show t.index c.key = i from hpl]; exact hi, hcb⟩
  · rintro ⟨b, hb, hcb⟩
    exact List.mem_flatten.mpr ⟨b, List.mem_of_getElem? hb, hcb⟩

/-- The cells of bucket `i`: those whose key belongs there. -/
theorem mem_bucket_iff :
    c ∈ (t.buckets[i]?).getD [] ↔ t.find c.key = some c ∧ t.index c.key = i := by
  rw [← t.mem_cells_iff, t.mem_cells_bucket]
  constructor
  · intro hc
    cases hb : t.buckets[i]? with
    | none => rw [hb] at hc; cases hc
    | some b =>
      rw [hb, Option.getD_some] at hc
      have hpl : t.index c.key = i := t.placed i b hb c hc
      exact ⟨⟨b, by rw [hpl]; exact hb, hc⟩, hpl⟩
  · rintro ⟨⟨b, hb, hc⟩, rfl⟩
    rw [hb, Option.getD_some]
    exact hc

/-- What is found under a key is in the key's bucket. -/
theorem mem_bucket_of_find (h : t.find k = some c) (hi : t.index k = i) : c ∈ (t.buckets[i]?).getD [] := by
  obtain rfl := t.find_key h
  exact t.mem_bucket_iff.mpr ⟨h, hi⟩

omit [DecidableEq κ] in
/-- Keys from different buckets are different. -/
theorem nodup_flatMap_of_index {β : Type*} (index : κ → Nat) {l : List β} {keys : β → List κ}
    {bucket : β → Nat} (hl : (l.map bucket).Nodup) (hkeys : ∀ x ∈ l, (keys x).Nodup)
    (hindex : ∀ x ∈ l, ∀ k ∈ keys x, index k = bucket x) : (l.flatMap keys).Nodup := by
  refine List.nodup_flatMap.mpr ⟨hkeys, List.Pairwise.imp_of_mem ?_ (List.pairwise_map.mp hl)⟩
  intro x y hx hy hne k hkx hky
  exact hne ((hindex x hx k hkx).symm.trans (hindex y hy k hky))

omit [DecidableEq κ] in
theorem nodup_bucket (i : Nat) : (((t.buckets[i]?).getD []).map Cell.key).Nodup := by
  cases hb : t.buckets[i]? with
  | none => exact List.nodup_nil
  | some b =>
    rw [Option.getD_some]
    exact t.idents.1.sublist ((List.sublist_flatten_of_mem (List.mem_of_getElem? hb)).map _)

/-- `sel i c` is the new value of the cell `c` of bucket `i`, `none` when the cell is unlinked. -/
def keepMap (sel : Nat → Cell κ α → Option α) (i : Nat) (b : List (Cell κ α)) : List (Cell κ α) :=
  b.filterMap fun c => (sel i c).map c.put

omit [DecidableEq κ] in
theorem keepMap_sublist (sel : Nat → Cell κ α → Option α) (i : Nat) (b : List (Cell κ α)) :
    ((keepMap sel i b).map Cell.ident).Sublist (b.map Cell.ident) := by
  induction b with
  | nil => exact List.Sublist.slnil
  | cons c b ih =>
    unfold keepMap at ih ⊢
    rw [List.filterMap_cons, List.map_cons]
    cases hs : sel i c with
    | none => exact ih.cons _
    | some v =>
      rw [Option.map_some]
      exact ih.cons_cons c.ident

omit [DecidableEq κ] in
theorem mem_keepMap {sel : Nat → Cell κ α → Option α}
    : c ∈ keepMap sel i b ↔ ∃ d ∈ b, ∃ v, sel i d = some v ∧ d.put v = c := by
  unfold keepMap
  rw [List.mem_filterMap]
  constructor
  · rintro ⟨d, hd, he⟩
    obtain ⟨v, hv, rfl⟩ := Option.map_eq_some_iff.mp he
    exact ⟨d, hd, v, hv, rfl⟩
  · rintro ⟨d, hd, v, hv, rfl⟩
    exact ⟨d, hd, by rw [hv, Option.map_some]⟩

/-- Rewrite or unlink every cell in place. -/
def rewrite (sel : Nat → Cell κ α → Option α) : Table κ α :=
  t.relink (keepMap sel) (keepMap_sublist sel)

omit [DecidableEq κ] in
@[simp] theorem rewrite_index (sel : Nat → Cell κ α → Option α) (k : κ) :
    (t.rewrite sel).index k = t.index k := by
  unfold rewrite relink index
  rw [List.length_mapIdx]

/-- What `rewrite` does to a lookup. -/
theorem find_rewrite (sel : Nat → Cell κ α → Option α) (k : κ) :
    (t.rewrite sel).find k = (t.find k).bind fun c => (sel (t.index k) c).map c.put := by
  cases hf : t.find k with
  | none =>
    rw [Option.bind_none, find_eq_none_iff]
    intro c hc hk
    obtain ⟨i, b, hb, hcb⟩ := t.mem_relink.mp hc
    obtain ⟨d, hd, v, _, rfl⟩ := mem_keepMap.mp hcb
    have hmem : d ∈ t.cells := List.mem_flatten.mpr ⟨b, List.mem_of_getElem? hb, hd⟩
    exact t.find_eq_none_iff.mp hf d hmem hk
  | some c =>
    obtain ⟨hc, hk⟩ := t.find_eq_some_iff.mp hf
    obtain ⟨b, hb, hcb⟩ := t.mem_cells_bucket.mp hc
    rw [hk] at hb
    rw [Option.bind_some]
    cases hs : sel (t.index k) c with
    | some v =>
      rw [Option.map_some, find_eq_some_iff]
      exact ⟨t.mem_relink.mpr ⟨_, b, hb, mem_keepMap.mpr ⟨c, hcb, v, hs, rfl⟩⟩, hk⟩
    | none =>
      rw [Option.map_none, find_eq_none_iff]
      intro e he hek
      obtain ⟨i, b', hb', heb⟩ := t.mem_relink.mp he
      obtain ⟨d, hd, v, hv, rfl⟩ := mem_keepMap.mp heb
      have hmem : d ∈ t.cells := List.mem_flatten.mpr ⟨b', List.mem_of_getElem? hb', hd⟩
      have hdc : d = c := t.key_inj hmem hc (by rw [hk]; exact hek)
      have hi : t.index k = i := by rw [← hk, ← hdc]; exact t.placed i b' hb' d hd
      rw [hdc, ← hi, hs] at hv
      cases hv

omit [DecidableEq κ] in
/-- The cells, in order, when the bucket does not matter. -/
theorem cells_rewrite (f : Cell κ α → Option α) :
    (t.rewrite fun _ => f).cells = t.cells.filterMap fun c => (f c).map c.put := by
  have hmap : t.buckets.mapIdx (keepMap fun _ => f)
      = t.buckets.map (List.filterMap fun c => (f c).map c.put) := by
    refine List.ext_getElem? fun i => ?_
    rw [List.getElem?_mapIdx, List.getElem?_map]
    rfl
  show (t.buckets.mapIdx (keepMap fun _ => f)).flatten = t.buckets.flatten.filterMap _
  rw [hmap, List.filterMap_flatten]

/-- The same at an address. -/
theorem cellAt_rewrite (sel : Nat → Cell κ α → Option α) (a : Nat) :
    (t.rewrite sel).cellAt a
      = (t.cellAt a).bind fun c => (sel (t.index c.key) c).map c.put := by
  refine Option.ext fun d => ?_
  rw [cellAt_eq_some_iff, find_rewrite]
  simp only [Option.bind_eq_some_iff, Option.map_eq_some_iff]
  constructor
  · rintro ⟨⟨c, hc, v, hv, rfl⟩, rfl⟩
    have hk : c.key = (c.put v).key := rfl
    exact ⟨c, t.cellAt_of_find hc, v, by rw [hk]; exact hv, rfl⟩
  · rintro ⟨c, hc, v, hv, rfl⟩
    obtain ⟨hf, ha⟩ := t.cellAt_eq_some_iff.mp hc
    exact ⟨⟨c, hf, v, hv, rfl⟩, ha⟩

/-- Store a value into the block at `a`. -/
def write (a : Nat) (v : α) : Table κ α :=
  t.rewrite fun _ c => some (if c.addr = a then v else c.val)

/-- Unlink and free the block at `a`. -/
def erase (a : Nat) : Table κ α :=
  t.rewrite fun _ c => if c.addr = a then none else some c.val

/-- One pass over bucket `i`: `f` gives a cell's new value, or `none` to unlink it. -/
def sweep (i : Nat) (f : Cell κ α → Option α) : Table κ α :=
  t.rewrite fun j c => if j = i then f c else some c.val

omit [DecidableEq κ] in
@[simp] theorem index_write (a : Nat) (v : α) : (t.write a v).index = t.index :=
  funext fun k => rewrite_index t _ k

omit [DecidableEq κ] in
@[simp] theorem index_erase (a : Nat) : (t.erase a).index = t.index :=
  funext fun k => rewrite_index t _ k

omit [DecidableEq κ] in
@[simp] theorem index_sweep (i : Nat) (f : Cell κ α → Option α) :
    (t.sweep i f).index = t.index := funext fun k => rewrite_index t _ k

/-- A write is seen where its block is ... -/
theorem find_write (a : Nat) (v : α) (k : κ) :
    (t.write a v).find k = (t.find k).map fun c => if c.addr = a then c.put v else c := by
  unfold write
  rw [find_rewrite]
  cases t.find k with
  | none => rfl
  | some c =>
    simp only [Option.bind_some, Option.map_some]
    split <;> rfl

/-- ... a block that is unlinked is not found ... -/
theorem find_erase (a : Nat) (k : κ) :
    (t.erase a).find k = (t.find k).filter fun c => c.addr ≠ a := by
  unfold erase
  rw [find_rewrite]
  cases t.find k with
  | none => rfl
  | some c =>
    by_cases h : c.addr = a
    · simp [h, Option.filter]
    · simp only [Option.bind_some, Option.filter, ne_eq, h, not_false_eq_true, decide_true, if_true]
      rfl

/-- ... and a sweep changes one bucket. -/
theorem find_sweep (i : Nat) (f : Cell κ α → Option α) (k : κ) :
    (t.sweep i f).find k
      = if t.index k = i then (t.find k).bind fun c => (f c).map c.put else t.find k := by
  unfold sweep
  rw [find_rewrite]
  by_cases h : t.index k = i
  · rw [if_pos h]; simp only [if_pos h]
  · rw [if_neg h]
    simp only [if_neg h, Option.map_some]
    cases t.find k with
    | none => rfl
    | some c => rfl

theorem cellAt_write (a : Nat) (v : α) (b : Nat) :
    (t.write a v).cellAt b = (t.cellAt b).map fun c => if c.addr = a then c.put v else c := by
  unfold write
  rw [cellAt_rewrite]
  cases t.cellAt b with
  | none => rfl
  | some c =>
    simp only [Option.bind_some, Option.map_some]
    split <;> rfl

theorem cellAt_erase (a : Nat) (b : Nat) :
    (t.erase a).cellAt b = (t.cellAt b).filter fun c => c.addr ≠ a := by
  unfold erase
  rw [cellAt_rewrite]
  cases t.cellAt b with
  | none => rfl
  | some c =>
    by_cases h : c.addr = a
    · simp [h, Option.filter]
    · simp only [Option.bind_some, Option.filter, ne_eq, h, not_false_eq_true, decide_true, if_true]
      rfl

theorem cellAt_sweep (i : Nat) (f : Cell κ α → Option α) (a : Nat) :
    (t.sweep i f).cellAt a
      = (t.cellAt a).bind fun c => if t.index c.key = i then (f c).map c.put else some c := by
  unfold sweep
  rw [cellAt_rewrite]
  congr 1
  funext c
  split <;> rfl

/-- Writing a block does not move keys. -/
@[simp] theorem deref_write (a : Nat) (v : α) : (t.write a v).deref = t.deref := by
  funext b
  unfold deref
  rw [cellAt_write, Option.map_map]
  congr 1
  funext c
  show (if c.addr = a then c.put v else c).key = c.key
  split <;> rfl

omit [DecidableEq κ] in
/-- A later write to a block hides an earlier one. -/
theorem write_write (a : Nat) (v w : α) : (t.write a v).write a w = t.write a w := by
  have hb : ((t.buckets.mapIdx (keepMap fun _ d => some (if d.addr = a then v else d.val))).mapIdx
      (keepMap fun _ d => some (if d.addr = a then w else d.val)))
      = t.buckets.mapIdx (keepMap fun _ d => some (if d.addr = a then w else d.val)) := by
    refine List.ext_getElem? fun i => ?_
    rw [List.getElem?_mapIdx, List.getElem?_mapIdx, List.getElem?_mapIdx, Option.map_map]
    congr 1
    funext b
    simp only [Function.comp, keepMap, List.filterMap_filterMap]
    refine List.filterMap_congr fun d _ => ?_
    by_cases hd : d.addr = a <;> simp [hd, Cell.put]
  unfold write rewrite relink
  simp only [hb]

/-- The write at the address just looked up, seen through that key. -/
theorem find_write_self (hc : t.find k = some c) (v : α) :
    (t.write c.addr v).find k = some (c.put v) := by
  rw [find_write, hc, Option.map_some, if_pos rfl]

/-- ... and through any other key: nothing happened. -/
theorem find_write_of_ne (hc : t.find k = some c) (v : α)
    (hl : l ≠ k) : (t.write c.addr v).find l = t.find l := by
  rw [find_write]
  cases hd : t.find l with
  | none => rfl
  | some d =>
    have hne : d.addr ≠ c.addr := fun h => hl (t.find_addr_inj hd hc h).1
    rw [Option.map_some, if_neg hne]

/-- Writing back what the block holds changes nothing. -/
theorem write_val (hc : t.find k = some c) :
    t.write c.addr c.val = t := by
  have hb : t.buckets.mapIdx (keepMap fun _ d => some (if d.addr = c.addr then c.val else d.val))
      = t.buckets := by
    refine List.ext_getElem? fun i => ?_
    rw [List.getElem?_mapIdx]
    cases hi : t.buckets[i]? with
    | none => rfl
    | some b =>
      rw [Option.map_some]
      refine congrArg some ?_
      unfold keepMap
      rw [List.filterMap_congr (g := some), List.filterMap_some]
      intro d hd
      have hmem : d ∈ t.cells := List.mem_flatten.mpr ⟨b, List.mem_of_getElem? hi, hd⟩
      by_cases ha : d.addr = c.addr
      · rw [t.addr_inj hmem (t.find_mem hc) ha]; simp [Cell.put]
      · simp [ha, Cell.put]
  unfold write rewrite relink
  cases t
  simpa using hb

@[simp] theorem mem_addrs_write (a : Nat) (v : α) {b : Nat} :
    b ∈ (t.write a v).addrs ↔ b ∈ t.addrs := by
  simp only [mem_addrs_iff, find_write, Option.map_eq_some_iff]
  constructor
  · rintro ⟨k, _, ⟨c, hc, rfl⟩, hb⟩
    refine ⟨k, c, hc, ?_⟩
    split at hb <;> exact hb
  · rintro ⟨k, c, hc, hb⟩
    refine ⟨k, _, ⟨c, hc, rfl⟩, ?_⟩
    split <;> exact hb

theorem find_erase_self (hc : t.find k = some c) :
    (t.erase c.addr).find k = none := by
  rw [find_erase, hc]
  simp [Option.filter]

/-- The other keys keep their cells. -/
theorem find_erase_of_ne (hc : t.find k = some c) (hl : l ≠ k) : (t.erase c.addr).find l = t.find l := by
  rw [find_erase]
  cases hd : t.find l with
  | none => rfl
  | some d =>
    have hne : d.addr ≠ c.addr := fun h => hl (t.find_addr_inj hd hc h).1
    simp [Option.filter, hne]

/-! ## A new cell -/

/-- The block a new cell gets. -/
def newAddr : Nat := t.alloc t.addrs

theorem newAddr_ne (h : t.find k = some c) :
    c.addr ≠ t.newAddr := by
  intro ha
  exact t.fresh t.addrs (t.mem_addrs_iff.mpr ⟨k, c, h, ha⟩)

omit [DecidableEq κ] in
theorem flatten_modify_cons_perm (bs : List (List (Cell κ α))) (i : Nat) (h : i < bs.length)
    (c : Cell κ α) : (bs.modify i (c :: ·)).flatten.Perm (c :: bs.flatten) := by
  induction bs generalizing i with
  | nil => simp at h
  | cons b bs ih =>
    cases i with
    | zero => simp
    | succ i =>
      have hi : i < bs.length := by simpa using h
      rw [List.modify_succ_cons, List.flatten_cons, List.flatten_cons]
      exact ((ih i hi).append_left b).trans List.perm_middle

/-- Link a new cell at the front of the chain of `k`; nothing happens when `k` has a cell already. -/
def push (k : κ) (v : α) : Table κ α :=
  if hk : t.find k = none then
    { t with
      buckets := t.buckets.modify (t.index k) (⟨t.newAddr, k, v⟩ :: ·)
      pos := by rw [List.length_modify]; exact t.pos
      placed := by
        intro i b hb c hc
        rw [List.length_modify]
        rw [List.getElem?_modify] at hb
        obtain ⟨b0, hb0, he⟩ := Option.map_eq_some_iff.mp hb
        split at he
        · rename_i hi
          subst he
          rcases List.mem_cons.mp hc with rfl | hc
          · exact hi
          · exact t.placed i b0 hb0 c hc
        · subst he
          exact t.placed i b0 hb0 c hc
      idents := by
        have hp := flatten_modify_cons_perm t.buckets (t.index k) (t.index_lt k) ⟨t.newAddr, k, v⟩
        constructor
        · rw [(hp.map Cell.key).nodup_iff, List.map_cons, List.nodup_cons]
          refine ⟨fun hmem => ?_, t.idents.1⟩
          obtain ⟨c, hc, hck⟩ := List.mem_map.mp hmem
          exact t.find_eq_none_iff.mp hk c hc hck
        · rw [(hp.map Cell.addr).nodup_iff, List.map_cons, List.nodup_cons]
          exact ⟨t.fresh t.addrs, t.idents.2⟩ }
  else t

@[simp] theorem index_push (k : κ) (v : α) : (t.push k v).index = t.index := by
  funext l
  unfold push
  split_ifs
  · simp only [index, List.length_modify]
  · rfl

theorem mem_push (v : α) (hk : t.find k = none) :
    c ∈ (t.push k v).cells ↔ c = ⟨t.newAddr, k, v⟩ ∨ c ∈ t.cells := by
  unfold push
  rw [dif_pos hk]
  have hp := flatten_modify_cons_perm t.buckets (t.index k) (t.index_lt k) ⟨t.newAddr, k, v⟩
  exact hp.mem_iff.trans List.mem_cons

/-- A new cell is found ... -/
theorem find_push_self (v : α) (hk : t.find k = none) :
    (t.push k v).find k = some ⟨t.newAddr, k, v⟩ := by
  rw [find_eq_some_iff, t.mem_push v hk]
  exact ⟨Or.inl rfl, rfl⟩

/-- ... and the others still are. -/
theorem find_push_of_ne (v : α) (hk : t.find k = none) (hl : l ≠ k) :
    (t.push k v).find l = t.find l := by
  cases hd : t.find l with
  | none =>
    rw [find_eq_none_iff]
    intro c hc hcl
    rcases (t.mem_push v hk).mp hc with rfl | hc
    · exact hl hcl.symm
    · exact t.find_eq_none_iff.mp hd c hc hcl
  | some d =>
    obtain ⟨hd', hdl⟩ := t.find_eq_some_iff.mp hd
    rw [find_eq_some_iff, t.mem_push v hk]
    exact ⟨Or.inr hd', hdl⟩

theorem cellAt_newAddr : t.cellAt t.newAddr = none := by
  cases hc : t.cellAt t.newAddr with
  | none => rfl
  | some c =>
    obtain ⟨hf, ha⟩ := t.cellAt_eq_some_iff.mp hc
    exact absurd ha (t.newAddr_ne hf)

theorem cellAt_push (v : α) (hk : t.find k = none) (a : Nat) :
    (t.push k v).cellAt a = if a = t.newAddr then some ⟨t.newAddr, k, v⟩ else t.cellAt a := by
  by_cases ha : a = t.newAddr
  · subst ha
    rw [if_pos rfl, cellAt_eq_some_iff]
    exact ⟨t.find_push_self v hk, rfl⟩
  · rw [if_neg ha]
    refine Option.ext fun d => ?_
    rw [cellAt_eq_some_iff, cellAt_eq_some_iff]
    refine and_congr_left fun hd => ?_
    rw [← mem_cells_iff, ← mem_cells_iff, t.mem_push v hk]
    refine or_iff_right fun he => ?_
    subst he
    exact ha hd.symm

theorem mem_addrs_push (v : α) (hk : t.find k = none) :
    a ∈ (t.push k v).addrs ↔ a = t.newAddr ∨ a ∈ t.addrs := by
  unfold addrs
  simp only [List.mem_map, t.mem_push v hk]
  constructor
  · rintro ⟨c, rfl | hc, rfl⟩
    · exact Or.inl rfl
    · exact Or.inr ⟨c, hc, rfl⟩
  · rintro (rfl | ⟨c, hc, rfl⟩)
    · exact ⟨_, Or.inl rfl, rfl⟩
    · exact ⟨c, Or.inr hc, rfl⟩

end Table
end ChainTable
