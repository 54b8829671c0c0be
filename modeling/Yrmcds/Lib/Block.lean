/-
  Heap blocks that remember what was written to them.

  A byte of a block is `junk` as long as nothing has been written there (`malloc` hands out whatever the
  memory had before), `data` once data has been stored in it, and `zeroed` after it has been overwritten
  with zero.  So a block from which no data can be read any more is a block without a `data` byte:
  `Clean`, whatever the VALUES of its bytes are.

  `Heap` is the allocator: the contents of new blocks and whether a `realloc` moves its block are anything
  at all, and the blocks that were given back are kept in the order of their release, as they were then.
  `Tidied h h'` says that between `h` and `h'` only clean blocks were given back.
-/
import Mathlib.Data.List.Basic

namespace Block

/-- A byte of memory. -/
inductive Byte where
  | junk (v : UInt8)
  | data (v : UInt8)
  | zeroed
deriving DecidableEq, Repr

namespace Byte

/-- What is read from the byte. -/
def val : Byte → UInt8
  | junk v => v
  | data v => v
  | zeroed => 0

/-- Has it been written to? -/
def isData : Byte → Bool
  | data _ => true
  | _ => false

end Byte

/-- The values of the bytes. -/
def vals (b : List Byte) : List UInt8 := b.map Byte.val

/-- No byte has data. -/
def Clean (b : List Byte) : Prop := ∀ x ∈ b, x.isData = false

instance (b : List Byte) : Decidable (Clean b) := inferInstanceAs (Decidable (∀ x ∈ b, x.isData = false))

/-- `memcpy` of data to offset `i`. -/
def write (b : List Byte) (i : Nat) (bs : List UInt8) : List Byte :=
  b.take i ++ (bs.map Byte.data ++ b.drop (i + bs.length))

/-- Overwrite the first `n` bytes with zero. -/
def zero (b : List Byte) (n : Nat) : List Byte := (b.take n).map (fun _ => Byte.zeroed) ++ b.drop n

/-- Overwrite `n` bytes from offset `i` on with zero. -/
def clear (b : List Byte) (i n : Nat) : List Byte := b.take i ++ zero (b.drop i) n

/-- `memcpy` of the first `n` bytes of `src` to the start of `dst`. -/
def copy (dst src : List Byte) (n : Nat) : List Byte := src.take n ++ dst.drop n

/-! ## Which bytes are clean -/

/-- No byte, no data. -/
theorem clean_nil : Clean [] := fun _ h => nomatch h

theorem clean_append {a b : List Byte} : Clean (a ++ b) ↔ Clean a ∧ Clean b := List.forall_mem_append

theorem Clean.drop {b : List Byte} (h : Clean b) (n : Nat) : Clean (b.drop n) :=
  fun x hx => h x (List.mem_of_mem_drop hx)

/-- Zeros hold no data. -/
theorem clean_zeroed (b : List Byte) : Clean (b.map fun _ => Byte.zeroed) := by
  intro x hx
  obtain ⟨_, -, rfl⟩ := List.mem_map.mp hx
  rfl

/-- **Clearing what is in use cleans the block**, if what is not in use is clean. -/
theorem clean_zero {b : List Byte} {n : Nat} (h : Clean (b.drop n)) : Clean (zero b n) :=
  clean_append.mpr ⟨clean_zeroed _, h⟩

/-! ## Lengths and parts -/

section Parts

variable {b : List Byte} {i n : Nat} {bs : List UInt8}

/-- A write within the block. -/
theorem length_write (h : i + bs.length ≤ b.length) : (write b i bs).length = b.length := by
  simp only [write, List.length_append, List.length_take, List.length_map, List.length_drop]
  omega

/-- What is written, behind what was before it. -/
theorem take_write (h : i ≤ b.length) :
    (write b i bs).take (i + bs.length) = b.take i ++ bs.map Byte.data := by
  have hlen : (b.take i ++ bs.map Byte.data).length = i + bs.length := by
    rw [List.length_append, List.length_take, List.length_map]
    omega
  unfold write
  rw [← List.append_assoc, ← hlen, List.take_left]

/-- What is behind it stays. -/
theorem drop_write (h : i ≤ b.length) : (write b i bs).drop (i + bs.length) = b.drop (i + bs.length) := by
  have hlen : (b.take i ++ bs.map Byte.data).length = i + bs.length := by
    rw [List.length_append, List.length_take, List.length_map]
    omega
  unfold write
  rw [← List.append_assoc]
  nth_rewrite 1 [← hlen]
  rw [List.drop_left]

/-- Zeroing keeps the length. -/
theorem length_zero : (zero b n).length = b.length := by
  simp only [zero, List.length_append, List.length_map, List.length_take, List.length_drop]
  omega

/-- `memcpy` within the block. -/
theorem length_copy {dst src : List Byte} (h : n ≤ src.length) (h' : n ≤ dst.length) :
    (copy dst src n).length = dst.length := by
  simp only [copy, List.length_append, List.length_take, List.length_drop]
  omega

/-- What is copied ... -/
theorem take_copy {dst src : List Byte} (h : n ≤ src.length) : (copy dst src n).take n = src.take n := by
  have hlen : (src.take n).length = n := List.length_take_of_le h
  unfold copy
  nth_rewrite 1 [← hlen]
  rw [List.take_left]

/-- ... and what stays. -/
theorem drop_copy {dst src : List Byte} (h : n ≤ src.length) : (copy dst src n).drop n = dst.drop n := by
  have hlen : (src.take n).length = n := List.length_take_of_le h
  unfold copy
  nth_rewrite 1 [← hlen]
  rw [List.drop_left]

theorem length_clear (h : i ≤ b.length) : (clear b i n).length = b.length := by
  unfold clear
  rw [List.length_append, length_zero, List.length_take, List.length_drop]
  omega

/-- What is before the cleared part stays ... -/
theorem take_clear (h : i ≤ b.length) : (clear b i n).take i = b.take i := by
  have hlen : (b.take i).length = i := List.length_take_of_le h
  unfold clear
  nth_rewrite 1 [← hlen]
  rw [List.take_left]

/-- ... and the part is zero. -/
theorem drop_clear (h : i ≤ b.length) : (clear b i n).drop i = zero (b.drop i) n := by
  have hlen : (b.take i).length = i := List.length_take_of_le h
  unfold clear
  nth_rewrite 1 [← hlen]
  rw [List.drop_left]

theorem vals_append {a c : List Byte} : vals (a ++ c) = vals a ++ vals c := List.map_append

/-- What was written is read back. -/
@[simp] theorem vals_data : vals (bs.map Byte.data) = bs := by
  unfold vals
  rw [List.map_map]
  exact List.map_id _

end Parts

/-! ## The allocator -/

/-- An allocator, and the blocks that were given back. -/
structure Heap where
  /-- What byte `i` of the `n`-th new block has in it. -/
  fill : Nat → Nat → UInt8
  /-- Whether the `n`-th allocation, if it is a `realloc`, moves the block. -/
  moves : Nat → Bool
  count : Nat
  freed : List (List Byte)

namespace Heap

variable (h : Heap)

/-- A new block has anything in it. -/
def malloc (n : Nat) : List Byte × Heap :=
  ((List.range n).map fun i => Byte.junk (h.fill h.count i), { h with count := h.count + 1 })

/-- `free`: the block is given back as it is. -/
def free (b : List Byte) : Heap := { h with freed := h.freed ++ [b] }

/-- `realloc`: a block that moves is given back as it is. -/
def realloc (p : Option (List Byte)) (n : Nat) : List Byte × Heap :=
  let x := h.malloc n
  match p with
  | none => x
  | some b => (copy x.1 b b.length, if h.moves h.count then x.2.free b else x.2)

/-- `realloc` to a size that may also be smaller: the block is cut. -/
def resize (p : Option (List Byte)) (n : Nat) : List Byte × Heap :=
  let x := h.malloc n
  match p with
  | none => x
  | some b => (copy x.1 b (min b.length n), if h.moves h.count then x.2.free b else x.2)

/-- A block that grows is `realloc`ated. -/
theorem resize_eq_realloc {p : Option (List Byte)} {n : Nat} (hn : ∀ b, p = some b → b.length ≤ n) :
    h.resize p n = h.realloc p n := by
  unfold resize realloc
  cases p with
  | none => rfl
  | some b =>
    dsimp only
    rw [Nat.min_eq_left (hn b rfl)]

/-- A new block has the size that was asked for. -/
theorem length_malloc (n : Nat) : (h.malloc n).1.length = n := by
  simp [malloc]

theorem length_resize (p : Option (List Byte)) (n : Nat) : (h.resize p n).1.length = n := by
  have hlen := h.length_malloc n
  unfold resize
  cases p with
  | none => exact hlen
  | some b => exact (length_copy (Nat.min_le_left _ _) (by rw [hlen]; exact Nat.min_le_right _ _)).trans hlen

/-- A new block holds nobody's data. -/
theorem clean_malloc (n : Nat) : Clean (h.malloc n).1 := by
  intro x hx
  obtain ⟨i, -, rfl⟩ := List.mem_map.mp hx
  rfl

/-- Only clean blocks were given back between the two. -/
def Tidied (h h' : Heap) : Prop := ∃ bs, h'.freed = h.freed ++ bs ∧ ∀ b ∈ bs, Clean b

theorem Tidied.refl : Tidied h h := ⟨[], (List.append_nil _).symm, fun _ hb => nomatch hb⟩

theorem Tidied.trans {h h1 h2 : Heap} (a : Tidied h h1) (c : Tidied h1 h2) : Tidied h h2 := by
  obtain ⟨bs, hbs, hclean⟩ := a
  obtain ⟨cs, hcs, hclean'⟩ := c
  refine ⟨bs ++ cs, by rw [hcs, hbs, List.append_assoc], fun b hb => ?_⟩
  exact (List.mem_append.mp hb).elim (hclean b) (hclean' b)

/-- `malloc` gives nothing back. -/
theorem tidied_malloc (n : Nat) : Tidied h (h.malloc n).2 :=
  ⟨[], (List.append_nil _).symm, fun _ hb => nomatch hb⟩

/-- A clean block may be given back. -/
theorem tidied_free {b : List Byte} (hb : Clean b) : Tidied h (h.free b) := by
  refine ⟨[b], rfl, fun c hc => ?_⟩
  rw [List.mem_singleton.mp hc]
  exact hb

/-- Everything that was given back is clean, if it was so before. -/
theorem Tidied.clean {h h' : Heap} (a : Tidied h h') (hc : ∀ b ∈ h.freed, Clean b) :
    ∀ b ∈ h'.freed, Clean b := by
  obtain ⟨bs, hbs, hclean⟩ := a
  intro b hb
  rw [hbs] at hb
  exact (List.mem_append.mp hb).elim (hc b) (hclean b)

end Heap

end Block
