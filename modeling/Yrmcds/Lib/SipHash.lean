/-
  SipHash-c-d, a keyed hash of byte strings.

  The message is cut into words of 8 bytes, the lowest first; the last word is filled up with zeros and has the
  length, modulo 256, as its highest byte.  Each word goes through `c` rounds, and `d` rounds finish the hash.
-/
import Mathlib.Data.List.Basic
import Mathlib.Logic.Function.Iterate

namespace SipHash

/-- Four words. -/
structure State where
  v0 : UInt64
  v1 : UInt64
  v2 : UInt64
  v3 : UInt64

/-- Rotation to the left. -/
def rotl (x b : UInt64) : UInt64 := x <<< b ||| x >>> (64 - b)

/-- One round, as two interleaved halves on (v0, v1) and (v2, v3), and then on (v0, v3) and (v2, v1). -/
def round (s : State) : State :=
  let a := s.v0 + s.v1
  let b := rotl s.v1 13 ^^^ a
  let c := s.v2 + s.v3
  let d := rotl s.v3 16 ^^^ c
  let e := rotl a 32 + d
  let f := c + b
  ⟨e, rotl b 17 ^^^ f, rotl f 32, rotl d 21 ^^^ e⟩

/-- Bytes as a number, the lowest first; the first one is byte `i` of it. -/
def wordFrom : Nat → List UInt8 → UInt64
  | _, [] => 0
  | i, b :: bs => b.toUInt64 <<< UInt64.ofNat (8 * i) ||| wordFrom (i + 1) bs

/-- A little-endian word. -/
def word (bs : List UInt8) : UInt64 := wordFrom 0 bs

/-- What is left of a message of length `len`, filled up. -/
def pad (len : Nat) (m : List UInt8) : List UInt8 :=
  m ++ (List.replicate (7 - m.length % 8) 0 ++ [UInt8.ofNat len])

/-- The words of a message; the last one has its length. -/
def words (len : Nat) (m : List UInt8) : List UInt64 :=
  (List.range (m.length / 8 + 1)).map fun i => word (((pad len m).drop (8 * i)).take 8)

/-- A word goes in, with `c` rounds. -/
def compress (c : Nat) (s : State) (w : UInt64) : State :=
  let t := round^[c] { s with v3 := s.v3 ^^^ w }
  { t with v0 := t.v0 ^^^ w }

/-- The result, after `d` more rounds. -/
def finish (d : Nat) (s : State) : UInt64 :=
  let t := round^[d] { s with v2 := s.v2 ^^^ 0xff }
  t.v0 ^^^ t.v1 ^^^ t.v2 ^^^ t.v3

/-- The key, with the constants of the paper. -/
def init (k0 k1 : UInt64) : State :=
  ⟨k0 ^^^ 0x736f6d6570736575, k1 ^^^ 0x646f72616e646f6d, k0 ^^^ 0x6c7967656e657261, k1 ^^^ 0x7465646279746573⟩

/-- **SipHash-c-d.** -/
def hash (c d : Nat) (k0 k1 : UInt64) (m : List UInt8) : UInt64 :=
  finish d ((words m.length m).foldl (compress c) (init k0 k1))

theorem wordFrom_append (i : Nat) (m r : List UInt8) :
    wordFrom i (m ++ r) = wordFrom i m ||| wordFrom (i + m.length) r := by
  induction m generalizing i with
  | nil => simp [wordFrom]
  | cons b m ih => simp only [List.cons_append, wordFrom, ih, List.length_cons, UInt64.or_assoc, Nat.succ_add_eq_add_succ]

theorem wordFrom_replicate (i n : Nat) : wordFrom i (List.replicate n 0) = 0 := by
  induction n generalizing i with
  | zero => rfl
  | succ n ih => simp [List.replicate_succ, wordFrom, ih]

/-- The last word: the bytes that are left, and the length. -/
theorem word_pad {m : List UInt8} (h : m.length < 8) (len : Nat) :
    word (pad len m) = wordFrom 0 m ||| UInt64.ofNat len <<< 56 := by
  have hzeros : 7 - m.length % 8 = 7 - m.length := by omega
  have hlast : 0 + m.length + (7 - m.length) = 7 := by omega
  -- the highest byte holds the length modulo 256, and the shift drops the rest of it
  have hbyte : (UInt8.ofNat len).toUInt64 <<< UInt64.ofNat (8 * 7) = UInt64.ofNat len <<< 56 := by
    refine UInt64.toNat_inj.mp ?_
    simp only [UInt64.toNat_shiftLeft, UInt8.toNat_toUInt64, UInt8.toNat_ofNat', UInt64.toNat_ofNat', Nat.shiftLeft_eq]
    show len % 2 ^ 8 * 2 ^ 56 % 2 ^ 64 = len % 2 ^ 64 * 2 ^ 56 % 2 ^ 64
    omega
  rw [word, pad, wordFrom_append, wordFrom_append, wordFrom_replicate, List.length_replicate, hzeros, hlast,
    UInt64.zero_or, wordFrom, wordFrom, UInt64.or_zero, hbyte]

/-- The words of a message that has a whole one. -/
theorem words_of_le {m : List UInt8} (h : 8 ≤ m.length) (len : Nat) :
    words len m = word (m.take 8) :: words len (m.drop 8) := by
  have hpad : (pad len m).drop 8 = pad len (m.drop 8) := by
    rw [pad, List.drop_append_of_le_length h, pad, List.length_drop, ← Nat.mod_eq_sub_mod h]
  have hlen : m.length / 8 = (m.drop 8).length / 8 + 1 := by
    rw [List.length_drop]
    omega
  unfold words
  rw [hlen, List.range_succ_eq_map, List.map_cons, List.map_map, List.cons.injEq]
  refine ⟨?_, List.map_congr_left fun i _ => ?_⟩
  · rw [Nat.mul_zero, List.drop_zero, pad, List.take_append_of_le_length h]
  · rw [Function.comp_apply, ← hpad, List.drop_drop, Nat.mul_succ, Nat.add_comm]

/-- ... and of one that has not. -/
theorem words_of_lt {m : List UInt8} (h : m.length < 8) (len : Nat) : words len m = [word (pad len m)] := by
  have hlen : (pad len m).length ≤ 8 := by
    simp only [pad, List.length_append, List.length_replicate, List.length_singleton]
    omega
  unfold words
  rw [Nat.div_eq_of_lt h]
  show [word (((pad len m).drop (8 * 0)).take 8)] = _
  rw [Nat.mul_zero, List.drop_zero, List.take_of_length_le hlen]

end SipHash
