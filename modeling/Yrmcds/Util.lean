/-
  Bytes and numbers as the protocols write them (cybozu/util.hpp, and the `snprintf` and `std::stoull`
  calls of the server).
-/
import Mathlib.Data.List.TakeWhile
import Mathlib.Data.Nat.Digits.Defs
import Yrmcds.Lib.BigEndian

namespace Yrmcds

open BigEndian

/-- `const char*` with a length. -/
abbrev Bytes := List UInt8

/-- `cybozu::ntoh` on a 16-, a 32- and a 64-bit field. -/
def ntoh16 (p : Bytes) (off : Nat) : Nat := decode (slice off 2 p)

/-- ... on 32 bits. -/
def ntoh32 (p : Bytes) (off : Nat) : UInt32 := UInt32.ofNat (decode (slice off 4 p))

/-- ... on 64 bits. -/
def ntoh64 (p : Bytes) (off : Nat) : UInt64 := UInt64.ofNat (decode (slice off 8 p))

theorem ntoh16_lt (p : Bytes) (off : Nat) : ntoh16 p off < 2 ^ 16 := by
  calc ntoh16 p off < 256 ^ (slice off 2 p).length := decode_lt _
    _ ≤ 256 ^ 2 := Nat.pow_le_pow_right (by decide) (length_slice_le _ _ _)

/-- A field is read as it was written, between any bytes. -/
theorem ntoh32_encode (v : UInt32) {a c : Bytes} {i : Nat} (ha : a.length = i) :
    ntoh32 (a ++ (encode 4 v.toNat ++ c)) i = v := by
  unfold ntoh32
  rw [slice_append_mid ha (length_encode 4 _), decode_encode_of_lt v.toNat_lt, UInt32.ofNat_toNat]

theorem ntoh64_encode (v : UInt64) {a c : Bytes} {i : Nat} (ha : a.length = i) :
    ntoh64 (a ++ (encode 8 v.toNat ++ c)) i = v := by
  unfold ntoh64
  rw [slice_append_mid ha (length_encode 8 _), decode_encode_of_lt v.toNat_lt, UInt64.ofNat_toNat]

section

variable {q : Bytes} (y : Bytes) {i : Nat}

/-- Fields that have arrived do not change when more arrives. -/
theorem ntoh16_append (h : i + 2 ≤ q.length) : ntoh16 (q ++ y) i = ntoh16 q i := by
  unfold ntoh16
  rw [slice_append_left h]

theorem ntoh32_append (h : i + 4 ≤ q.length) : ntoh32 (q ++ y) i = ntoh32 q i := by
  unfold ntoh32
  rw [slice_append_left h]

theorem ntoh64_append (h : i + 8 ≤ q.length) : ntoh64 (q ++ y) i = ntoh64 q i := by
  unfold ntoh64
  rw [slice_append_left h]

theorem getD_append (h : i < q.length) : (q ++ y).getD i 0 = q.getD i 0 := by
  rw [List.getD_eq_getElem?_getD, List.getD_eq_getElem?_getD, List.getElem?_append_left h]

end

/-- The bytes of a text (all messages of the protocols are ASCII). -/
def ascii (s : String) : Bytes := s.toList.map fun c => UInt8.ofNat c.toNat

/-- `snprintf("%llu")`. -/
def decimal (n : Nat) : Bytes := (Nat.toDigits 10 n).map fun c => UInt8.ofNat c.toNat

/-- A number has 20 digits at most. -/
theorem length_decimal_le (n : UInt64) : (decimal n.toNat).length ≤ 20 := by
  unfold decimal
  rw [List.length_map]
  exact Nat.toDigits_length 10 n.toNat 20 (by decide) (n.toNat_lt.trans (by decide))

/-- `std::to_string`. -/
theorem ascii_repr (n : Nat) : ascii (Nat.repr n) = decimal n := by
  unfold ascii decimal Nat.repr
  rw [String.toList_ofList]

/-- `isspace`, in the C locale. -/
def isSpace (b : UInt8) : Bool := b == 32 || (9 ≤ b && b ≤ 13)

/-- `isdigit`. -/
def isDigit (b : UInt8) : Bool := 48 ≤ b && b ≤ 57

/-- The value of a string of decimal digits. -/
def digitsValue (ds : Bytes) : Nat := ds.foldl (fun n d => n * 10 + (d.toNat - 48)) 0

/-- An optional sign: whether it is a minus, and what follows. -/
def splitSign : Bytes → Bool × Bytes
  | [] => (false, [])
  | b :: s => if b = 43 then (false, s) else if b = 45 then (true, s) else (false, b :: s)

/-- `std::stoull`: white space, a sign, the longest run of digits, and anything after it.  `none` is an
    exception: `invalid_argument` without a digit, `out_of_range` from 2^64 on. -/
def stoull (s : Bytes) : Option UInt64 :=
  let (negative, s) := splitSign (s.dropWhile isSpace)
  let ds := s.takeWhile isDigit
  if ds.isEmpty ∨ digitsValue ds ≥ 2 ^ 64 then none
  else
    let n := UInt64.ofNat (digitsValue ds)
    some (if negative then 0 - n else n)

/-! ## Decimal texts -/

/-- The character of a digit, as a byte. -/
theorem toNat_digit {c : Char} (h : c.isDigit = true) :
    (UInt8.ofNat c.toNat).toNat = c.toNat ∧ 48 ≤ c.toNat ∧ c.toNat ≤ 57 := by
  rw [Char.isDigit, Bool.and_eq_true, decide_eq_true_eq, decide_eq_true_eq] at h
  have hlo : 48 ≤ c.toNat := UInt32.le_iff_toNat_le.mp h.1
  have hhi : c.toNat ≤ 57 := UInt32.le_iff_toNat_le.mp h.2
  rw [UInt8.toNat_ofNat']
  exact ⟨Nat.mod_eq_of_lt (by omega), hlo, hhi⟩

theorem isDigit_of_mem_decimal {n : Nat} {b : UInt8} (h : b ∈ decimal n) : isDigit b = true := by
  obtain ⟨c, hc, rfl⟩ := List.mem_map.mp h
  obtain ⟨hb, hlo, hhi⟩ := toNat_digit (Nat.isDigit_of_mem_toDigits (by decide) (by decide) hc)
  unfold isDigit
  rw [Bool.and_eq_true, decide_eq_true_eq, decide_eq_true_eq, UInt8.le_iff_toNat_le,
    UInt8.le_iff_toNat_le, hb]
  exact ⟨hlo, hhi⟩

theorem decimal_ne_nil (n : Nat) : decimal n ≠ [] := by
  unfold decimal
  rw [ne_eq, List.map_eq_nil_iff]
  exact Nat.toDigits_ne_nil

/-- The value of digits is the library's, whether they are bytes or characters. -/
theorem foldl_digits {cs : List Char} (h : ∀ c ∈ cs, c.isDigit = true) (v : Nat) :
    (cs.map fun c => UInt8.ofNat c.toNat).foldl (fun n d => n * 10 + (d.toNat - 48)) v
      = Nat.ofDigitChars 10 cs v := by
  induction cs generalizing v with
  | nil => rfl
  | cons c cs ih =>
    rw [List.map_cons, List.foldl_cons, ih fun d hd => h d (List.mem_cons_of_mem c hd),
      (toNat_digit (h c List.mem_cons_self)).1, Nat.mul_comm v 10]
    rfl

/-- **The text of a number has the value of the number.** -/
theorem digitsValue_decimal (n : Nat) : digitsValue (decimal n) = n := by
  unfold digitsValue decimal
  rw [foldl_digits fun c hc => Nat.isDigit_of_mem_toDigits (by decide) (by decide) hc]
  exact Nat.ofDigitChars_ten_toDigits

/-- A digit is neither white space nor a sign. -/
theorem clean_of_digit {d : UInt8} (h : isDigit d = true) : isSpace d = false ∧ d ≠ 43 ∧ d ≠ 45 := by
  have hd : 48 ≤ d.toNat ∧ d.toNat ≤ 57 := by
    rw [isDigit, Bool.and_eq_true, decide_eq_true_eq, decide_eq_true_eq] at h
    exact ⟨UInt8.le_iff_toNat_le.mp h.1, UInt8.le_iff_toNat_le.mp h.2⟩
  have hne : ∀ b : UInt8, b.toNat < 48 → d ≠ b := by
    rintro b hb rfl
    omega
  refine ⟨?_, hne 43 (by decide), hne 45 (by decide)⟩
  rw [isSpace, Bool.or_eq_false_iff, Bool.and_eq_false_iff]
  refine ⟨beq_false_of_ne (hne 32 (by decide)), .inr (decide_eq_false fun hle => ?_)⟩
  have hle' : d.toNat ≤ 13 := UInt8.le_iff_toNat_le.mp hle
  omega

/-- What starts with neither starts with the number itself. -/
theorem splitSign_of_clean {d : UInt8} (h : isSpace d = false ∧ d ≠ 43 ∧ d ≠ 45) (s : Bytes) :
    splitSign ((d :: s).dropWhile isSpace) = (false, d :: s) := by
  rw [List.dropWhile_cons_of_neg (by rw [h.1]; decide), splitSign, if_neg h.2.1, if_neg h.2.2]

/-- `std::stoull` reads back what `snprintf` has printed. -/
theorem stoull_decimal (n : UInt64) : stoull (decimal n.toNat) = some n := by
  obtain ⟨d, s, hds⟩ := List.exists_cons_of_ne_nil (decimal_ne_nil n.toNat)
  have hdigits : ∀ b ∈ d :: s, isDigit b = true := fun b hb => isDigit_of_mem_decimal (hds ▸ hb)
  have hsign := splitSign_of_clean (clean_of_digit (hdigits d List.mem_cons_self)) s
  have hvalue : digitsValue (d :: s) = n.toNat := hds ▸ digitsValue_decimal n.toNat
  have hlt := n.toNat_lt
  unfold stoull
  rw [hds, hsign]
  dsimp only
  rw [List.takeWhile_eq_self_iff.mpr hdigits, if_neg (by rw [hvalue]; simp; omega), hvalue,
    UInt64.ofNat_toNat]
  rfl

end Yrmcds
