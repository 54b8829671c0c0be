/-
  Fixed-width big-endian integers in byte strings.

  `encode w n` is the `w`-byte big-endian form of `n`, reduced modulo `256 ^ w`; `decode` reads any
  byte string as a big-endian number.  `slice off len b` is the `len` bytes of `b` from offset `off`
  (fewer when `b` ends before).  Decoders of length-prefixed formats read fields as
  `decode (slice off w b)`; the lemmas below read such a field back out of an encoder's output.
-/
import Mathlib.Data.List.Induction
import Mathlib.Tactic.Ring

namespace BigEndian

/-- The `w` big-endian bytes of `n`. -/
def encode : Nat → Nat → List UInt8
  | 0, _ => []
  | w + 1, n => encode w (n / 256) ++ [UInt8.ofNat n]

/-- The number a byte string spells in base 256, most significant byte first. -/
def decode (b : List UInt8) : Nat := b.foldl (fun acc x => acc * 256 + x.toNat) 0

/-- `len` bytes from offset `off`. -/
def slice (off len : Nat) (b : List UInt8) : List UInt8 := (b.drop off).take len

@[simp] theorem length_encode (w n : Nat) : (encode w n).length = w := by
  induction w generalizing n with
  | zero => rfl
  | succ w ih => rw [encode, List.length_append, ih]; rfl

theorem decode_snoc (b : List UInt8) (x : UInt8) : decode (b ++ [x]) = decode b * 256 + x.toNat := by
  unfold decode; rw [List.foldl_append]; rfl

/-- Reading back what was written, up to the width. -/
theorem decode_encode (w n : Nat) : decode (encode w n) = n % 256 ^ w := by
  induction w generalizing n with
  | zero => rw [encode, pow_zero, Nat.mod_one]; rfl
  | succ w ih =>
    rw [encode, decode_snoc, ih, pow_succ', Nat.mod_mul, UInt8.toNat_ofNat']
    ring

theorem decode_encode_of_lt {w n : Nat} (h : n < 256 ^ w) : decode (encode w n) = n := by
  rw [decode_encode, Nat.mod_eq_of_lt h]

theorem decode_lt (b : List UInt8) : decode b < 256 ^ b.length := by
  induction b using List.reverseRecOn with
  | nil => decide
  | append_singleton b x ih =>
    have hx := x.toNat_lt
    rw [decode_snoc, List.length_append, List.length_singleton, pow_succ]
    omega

theorem length_slice_le (off len : Nat) (b : List UInt8) : (slice off len b).length ≤ len := by
  unfold slice; rw [List.length_take]; exact Nat.min_le_left _ _

variable {len off : Nat} {a b : List UInt8}

theorem length_slice (h : off + len ≤ b.length) :
    (slice off len b).length = len := by
  unfold slice
  rw [List.length_take, List.length_drop]
  omega

/-- Neighbouring slices are one slice. -/
theorem slice_add (off m n : Nat) (b : List UInt8) :
    slice off (m + n) b = slice off m b ++ slice (off + m) n b := by
  unfold slice
  rw [List.take_add, List.drop_drop]

/-- A slice that starts after a first part of known length is a slice of the second part. -/
theorem slice_append_right (h : a.length ≤ off) :
    slice off len (a ++ b) = slice (off - a.length) len b := by
  unfold slice
  rw [List.drop_append, List.drop_eq_nil_of_le h, List.nil_append]

/-- A slice that lies in the first part. -/
theorem slice_append_left (h : off + len ≤ a.length) :
    slice off len (a ++ b) = slice off len a := by
  unfold slice
  rw [List.drop_append_of_le_length (by omega),
    List.take_append_of_le_length (by rw [List.length_drop]; omega)]

/-- The slice that is the middle part. -/
theorem slice_append_mid {c : List UInt8} (ha : a.length = off) (hb : b.length = len) :
    slice off len (a ++ (b ++ c)) = b := by
  rw [slice_append_right (Nat.le_of_eq ha), ha, Nat.sub_self, slice, List.drop_zero, ← hb, List.take_left]

end BigEndian
