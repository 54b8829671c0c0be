/-
  The buckets of a map: how many there are (`nearest_prime` of cybozu/hash_map.cpp), and which one a key goes to
  (`siphash24` of cybozu/siphash.cpp).

  The constructor of `hash_map` asks for the least prime that is not below the number of buckets in the
  configuration.  The search goes through the odd numbers from there, and tries the odd divisors up to the
  ROUNDED square root, which a `double` computes.

  * A number that passes is a prime: a composite odd number has an odd divisor up to its root (`passes_iff`), and
    rounding up only adds one divisor to the trial.
  * The search ends.  Nothing stops `i += 2` from passing 2³², where it begins again at 1, and 1 passes.  For every
    number below 2³¹ there is a prime before that (Bertrand).

  `make_buckets_least`: a map has the least prime number of buckets, and at most twice as many as asked for.

  The bucket of a key is its hash modulo that number.  `siphash24_eq_hash`: the hash is SipHash-2-4; the unrolled
  rounds, the loop over whole words and the `switch` that falls through do what the function is defined to do.
-/
import Mathlib.NumberTheory.Bertrand
import Mathlib.Data.Nat.Sqrt
import Yrmcds.HashMap
import Yrmcds.Lib.SipHash

namespace Yrmcds

/-- `(unsigned int)std::rint( std::sqrt((double)i) )`.  A `double` has every `i` below 2³² exactly, and the roots of
    these are at least 2⁻¹⁹ away from a half, so that the rounding of the root itself does not matter. -/
def rintSqrt (i : Nat) : Nat := if i ≤ i.sqrt * (i.sqrt + 1) then i.sqrt else i.sqrt + 1

/-- The inner loop of `nearest_prime`: whether none of `j`, `j + 2`, ... up to `r` divides `i`. -/
def passesFrom (i r j : Nat) : Bool :=
  if j ≤ r then if i % j = 0 then false else passesFrom i r (j + 2) else true
termination_by r + 1 - j

/-- The variable `prime` at the end of that loop. -/
def passes (i : Nat) : Bool := passesFrom i (rintSqrt i) 3

/-- The numbers at which the search arrives behind 2³² are not put to any trial. -/
theorem passes_of_lt {i : Nat} (h : i < 3) : passes i = true := by
  have hroot : i.sqrt < 2 := Nat.sqrt_lt.mpr (by omega)
  have hrint : rintSqrt i < 3 := by
    unfold rintSqrt
    split_ifs <;> omega
  rw [passes, passesFrom, if_neg (by omega)]

/-- The outer loop of `nearest_prime`; `i += 2` wraps around. -/
def nearestPrimeFrom (i : UInt32) : UInt32 := if passes i.toNat then i else nearestPrimeFrom (i + 2)
termination_by if i.toNat < 3 then 0 else 2 ^ 32 - i.toNat
decreasing_by
  rename_i h
  have hi : 3 ≤ i.toNat := by
    by_contra hlt
    exact h (passes_of_lt (by omega))
  have hadd : (i + 2).toNat = (i.toNat + 2) % 2 ^ 32 := UInt32.toNat_add i 2
  have hlt := i.toNat_lt
  split_ifs <;> omega

/-- `nearest_prime`. -/
def nearestPrime (n : UInt32) : UInt32 := if n = 2 then 2 else nearestPrimeFrom (n ||| 1)

/-! ## The trial -/

theorem passesFrom_iff (i r j : Nat) (hj : j % 2 = 1) :
    passesFrom i r j = true ↔ ∀ d, d % 2 = 1 → j ≤ d → d ≤ r → ¬ d ∣ i := by
  -- the divisors still to be tried are `j` and those from `j + 2` on
  fun_induction passesFrom i r j with
  | case1 j hle hdvd =>
    refine iff_of_false (by decide) fun h => h j hj (Nat.le_refl j) hle (Nat.dvd_of_mod_eq_zero hdvd)
  | case2 j hle hdvd ih =>
    rw [ih (by omega)]
    constructor
    · intro h d hd hjd hdr
      by_cases heq : d = j
      · rw [heq]
        exact fun hdiv => hdvd (Nat.mod_eq_zero_of_dvd hdiv)
      · exact h d hd (by omega) hdr
    · intro h d hd hjd hdr
      exact h d hd (by omega) hdr
  | case3 j hgt => exact iff_of_true rfl fun d _ hjd hdr => by omega

theorem sqrt_le_rintSqrt (i : Nat) : i.sqrt ≤ rintSqrt i := by
  unfold rintSqrt
  split_ifs <;> omega

theorem rintSqrt_lt {i : Nat} (h : 3 ≤ i) : rintSqrt i < i := by
  have hsq := Nat.sqrt_le i
  have hpos : 1 ≤ i.sqrt := Nat.sqrt_pos.mpr (by omega)
  unfold rintSqrt
  split_ifs with hle
  · nlinarith
  · have hlt : i.sqrt * (i.sqrt + 1) + 1 ≤ i := by omega
    nlinarith

/-- **An odd number from 3 on passes if it is a prime.** -/
theorem passes_iff {i : Nat} (hodd : i % 2 = 1) (h3 : 3 ≤ i) : passes i = true ↔ i.Prime := by
  rw [passes, passesFrom_iff i _ 3 (by decide)]
  constructor
  · intro h
    by_contra hcomp
    -- the least factor is odd and not above the root
    have hfac := Nat.minFac_prime (show i ≠ 1 by omega)
    have hdvd := Nat.minFac_dvd i
    have hfodd : i.minFac % 2 = 1 := by
      rcases Nat.mod_two_eq_zero_or_one i.minFac with heven | hodd'
      · have : 2 ∣ i := (Nat.dvd_of_mod_eq_zero heven).trans hdvd
        omega
      · exact hodd'
    have hroot : i.minFac ≤ i.sqrt := Nat.le_sqrt.mpr (by
      have := Nat.minFac_sq_le_self (by omega) hcomp
      rwa [pow_two] at this)
    have htwo := hfac.two_le
    exact h i.minFac hfodd (by omega) (hroot.trans (sqrt_le_rintSqrt i)) hdvd
  · intro hp d _ h3d hdr hdvd
    rcases (Nat.dvd_prime hp).mp hdvd with rfl | rfl
    · omega
    · have := rintSqrt_lt h3
      omega

/-! ## The search -/

/-- The search stops at the first prime, if one comes before the numbers wrap around. -/
theorem nearestPrimeFrom_least (i : UInt32) (hodd : i.toNat % 2 = 1) (h3 : 3 ≤ i.toNat) {p : Nat} (hp : p.Prime)
    (hip : i.toNat ≤ p) (hlt : p < 2 ^ 32) :
    IsLeast { q | q.Prime ∧ i.toNat ≤ q } (nearestPrimeFrom i).toNat := by
  fun_induction nearestPrimeFrom i with
  | case1 i hpass =>
    exact ⟨⟨(passes_iff hodd h3).mp hpass, Nat.le_refl _⟩, fun q hq => hq.2⟩
  | case2 i hfail ih =>
    have hcomp : ¬ i.toNat.Prime := fun hprime => hfail ((passes_iff hodd h3).mpr hprime)
    have hpodd := hp.eq_two_or_odd
    have hne : i.toNat ≠ p := fun heq => hcomp (heq ▸ hp)
    have hnext : (i + 2).toNat = i.toNat + 2 := by
      have hadd : (i + 2).toNat = (i.toNat + 2) % 2 ^ 32 := UInt32.toNat_add i 2
      omega
    obtain ⟨⟨hprime, hle⟩, hleast⟩ := ih (by omega) (by omega) (by omega)
    rw [hnext] at hle hleast
    refine ⟨⟨hprime, by omega⟩, fun q hq => hleast ⟨hq.1, ?_⟩⟩
    -- a prime from `i` on is neither `i` nor the even number behind it
    have hqodd := hq.1.eq_two_or_odd
    have hqi : q ≠ i.toNat := fun heq => hcomp (heq ▸ hq.1)
    have := hq.2
    omega

/-- From every number between 2 and 2³¹ the search arrives at the least prime, which is at most twice as large. -/
theorem nearestPrime_least (n : UInt32) (h2 : 2 ≤ n.toNat) (h31 : n.toNat < 2 ^ 31) :
    IsLeast { p | p.Prime ∧ n.toNat ≤ p } (nearestPrime n).toNat ∧ (nearestPrime n).toNat ≤ 2 * n.toNat := by
  obtain ⟨p, hp, hnp, hp2⟩ := Nat.exists_prime_lt_and_le_two_mul n.toNat (by omega)
  unfold nearestPrime
  by_cases htwo : n = 2
  · rw [if_pos htwo, htwo]
    exact ⟨⟨⟨Nat.prime_two, Nat.le_refl 2⟩, fun q hq => hq.2⟩, by decide⟩
  · rw [if_neg htwo]
    have hne : n.toNat ≠ 2 := fun heq => htwo (UInt32.toNat_inj.mp heq)
    have hval : (n ||| 1).toNat = n.toNat + (1 - n.toNat % 2) := by
      have hor : (n ||| 1).toNat = n.toNat ||| 1 := UInt32.toNat_or n 1
      have hhalf : (n.toNat ||| 1) / 2 = n.toNat / 2 ||| 1 / 2 := Nat.or_div_two
      have hlast : (n.toNat ||| 1) % 2 = 1 := Nat.or_mod_two_eq_one.mpr (.inr rfl)
      rw [show 1 / 2 = 0 from rfl, Nat.or_zero] at hhalf
      omega
    have hpodd := hp.eq_two_or_odd
    have hfirst := nearestPrimeFrom_least (n ||| 1) (by omega) (by omega) hp (by omega) (by omega)
    have hleast : IsLeast { p | p.Prime ∧ n.toNat ≤ p } (nearestPrimeFrom (n ||| 1)).toNat := by
      refine ⟨⟨hfirst.1.1, le_trans (by omega) hfirst.1.2⟩, fun q hq => hfirst.2 ⟨hq.1, ?_⟩⟩
      have hqodd := hq.1.eq_two_or_odd
      have := hq.2
      omega
    exact ⟨hleast, (hleast.2 ⟨hp, by omega⟩).trans hp2⟩

/-! ## The hash of a key -/

open SipHash (State rotl wordFrom word)

/-- `HALF_ROUND`. -/
def halfRound (a b c d s t : UInt64) : UInt64 × UInt64 × UInt64 × UInt64 :=
  let a := a + b
  let c := c + d
  (rotl a 32, rotl b s ^^^ a, c, rotl d t ^^^ c)

/-- `DOUBLE_ROUND`. -/
def doubleRound (v : State) : State :=
  let (v0, v1, v2, v3) := halfRound v.v0 v.v1 v.v2 v.v3 13 16
  let (v2, v1, v0, v3) := halfRound v2 v1 v0 v3 17 21
  let (v0, v1, v2, v3) := halfRound v0 v1 v2 v3 13 16
  let (v2, v1, v0, v3) := halfRound v2 v1 v0 v3 17 21
  ⟨v0, v1, v2, v3⟩

/-- What the loop of `siphash24` does with a word, and once more with the last one. -/
def absorb (v : State) (w : UInt64) : State :=
  let v := doubleRound { v with v3 := v.v3 ^^^ w }
  { v with v0 := v.v0 ^^^ w }

/-- The `switch`: a case falls through to the ones below it, so that the last byte is taken first. -/
def lastWord (b : UInt64) (m : Bytes) (i : Nat) : UInt64 :=
  (m.zipIdx i).foldr (fun x b => b ||| x.1.toUInt64 <<< UInt64.ofNat (8 * x.2)) b

/-- `siphash24` from the loop on. -/
def siphash24From (v : State) (b : UInt64) (m : Bytes) : UInt64 :=
  if 8 ≤ m.length then siphash24From (absorb v (word (m.take 8))) b (m.drop 8)
  else
    let v := absorb v (lastWord b m 0)
    let v := doubleRound (doubleRound { v with v2 := v.v2 ^^^ 0xff })
    (v.v0 ^^^ v.v1) ^^^ (v.v2 ^^^ v.v3)
termination_by m.length
decreasing_by
  rw [List.length_drop]
  omega

/-- `siphash24_seed`. -/
def siphash24Seed (key : Bytes) : UInt64 × UInt64 := (word (key.take 8), word ((key.drop 8).take 8))

/-- `siphash24`, with the key that `siphash24_seed` has set. -/
def siphash24 (k0 k1 : UInt64) (src : Bytes) : UInt64 :=
  siphash24From ⟨k0 ^^^ 0x736f6d6570736575, k1 ^^^ 0x646f72616e646f6d, k0 ^^^ 0x6c7967656e657261,
    k1 ^^^ 0x7465646279746573⟩ (UInt64.ofNat src.length <<< 56) src

theorem absorb_eq (v : State) (w : UInt64) : absorb v w = SipHash.compress 2 v w := rfl

theorem lastWord_eq (b : UInt64) (m : Bytes) (i : Nat) : lastWord b m i = wordFrom i m ||| b := by
  induction m generalizing i with
  | nil => exact UInt64.zero_or.symm
  | cons x m ih =>
    show lastWord b m (i + 1) ||| x.toUInt64 <<< UInt64.ofNat (8 * i) = _
    rw [ih, UInt64.or_comm, ← UInt64.or_assoc]
    rfl

theorem siphash24From_eq (v : State) (len : Nat) (m : Bytes) : siphash24From v (UInt64.ofNat len <<< 56) m
    = SipHash.finish 4 ((SipHash.words len m).foldl (SipHash.compress 2) v) := by
  induction hn : m.length using Nat.strong_induction_on generalizing v m with
  | _ n ih =>
    subst hn
    unfold siphash24From
    split_ifs with h
    · rw [ih _ (by rw [List.length_drop]; omega) _ _ rfl, SipHash.words_of_le h, List.foldl_cons, absorb_eq]
    · have hlt : m.length < 8 := by omega
      rw [SipHash.words_of_lt hlt, SipHash.word_pad hlt, lastWord_eq, absorb_eq]
      exact (UInt64.xor_assoc _ _ _).symm

/-- **The hash is SipHash-2-4**, for every key and every message. -/
theorem siphash24_eq_hash (k₀ k₁ : UInt64) (src : Bytes) : siphash24 k₀ k₁ src = SipHash.hash 2 4 k₀ k₁ src :=
  siphash24From_eq _ _ _

/-- The vector of 15 bytes of test/siphash.cpp. -/
example : (fun k => SipHash.hash 2 4 k.1 k.2 ((List.range 15).map UInt8.ofNat))
    (siphash24Seed ((List.range 16).map UInt8.ofNat)) = 0xa129ca6149be45e5 := by decide +kernel

/-! ## The map -/

/-- The constructor of `hash_map`. -/
def HashMap.make {α : Type} (k0 k1 : UInt64) (alloc : List Nat → Nat) (fresh : ∀ live, alloc live ∉ live)
    (buckets : UInt32) : HashMap α :=
  .empty (fun key => (siphash24 k0 k1 key).toNat) alloc fresh ((nearestPrime buckets).toNat - 1)

/-- **The number of buckets of a map.** -/
theorem make_buckets_least {α : Type} (k₀ k₁ : UInt64) {alloc : List Nat → Nat} (fresh : ∀ live, alloc live ∉ live)
    (n : UInt32) (h2 : 2 ≤ n.toNat) (h31 : n.toNat < 2 ^ 31) :
    IsLeast { p | p.Prime ∧ n.toNat ≤ p } (HashMap.make (α := α) k₀ k₁ alloc fresh n).buckets.length ∧
      (HashMap.make (α := α) k₀ k₁ alloc fresh n).buckets.length ≤ 2 * n.toNat := by
  have hleast := nearestPrime_least n h2 h31
  have hlen : (HashMap.make (α := α) k₀ k₁ alloc fresh n).buckets.length = (nearestPrime n).toNat :=
    List.length_replicate.trans (Nat.sub_add_cancel hleast.1.1.1.pos)
  rwa [hlen]

/-- The default configuration. -/
theorem make_buckets_default :
    (HashMap.make (α := Nat) 0 0 ChainTable.Table.bump ChainTable.Table.bump_fresh 1000000).buckets.length.Prime :=
  (make_buckets_least 0 0 _ 1000000 (by decide) (by decide)).1.1.1

end Yrmcds
