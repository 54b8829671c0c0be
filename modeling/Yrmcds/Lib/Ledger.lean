/-
  A ledger: a list of holders, each holding some amount of every account.

  `total amount hs a` adds up what all holders have in account `a`.  A step of a program changes ONE
  holder, so the rule that carries a conservation proof is `total_set`: replacing a holder moves the
  total by exactly what the holder's own amount moved.  It is stated without subtraction, so that
  `omega` can use it as it stands.
-/
import Mathlib

namespace Ledger

variable {H κ : Type}

/-- What all holders together have in account `a`. -/
def total (amount : H → κ → Nat) (hs : List H) (a : κ) : Nat := (hs.map fun h => amount h a).sum

/-- **Replacing one holder** moves the total by what that holder's amount moved. -/
theorem total_set (amount : H → κ → Nat) {hs : List H} {i : Nat} {h : H} (hi : hs[i]? = some h)
    (h' : H) (a : κ) :
    total amount (hs.set i h') a + amount h a = total amount hs a + amount h' a := by
  induction hs generalizing i with
  | nil => cases hi
  | cons x hs ih =>
    cases i with
    | zero =>
      have hx : x = h := by simpa using hi
      subst hx
      simp only [total, List.set_cons_zero, List.map_cons, List.sum_cons]
      omega
    | succ i =>
      have hrec := ih (i := i) (by simpa using hi)
      simp only [total, List.set_cons_succ, List.map_cons, List.sum_cons] at hrec ⊢
      omega

variable {amount : H → κ → Nat}

theorem amount_le_total {hs : List H} {h : H} (hh : h ∈ hs) (a : κ) :
    amount h a ≤ total amount hs a :=
  List.single_le_sum (fun _ _ => Nat.zero_le _) _ (List.mem_map.mpr ⟨h, hh, rfl⟩)

theorem total_eq_zero {hs : List H} {a : κ} (h0 : ∀ h ∈ hs, amount h a = 0) :
    total amount hs a = 0 := by
  refine List.sum_eq_zero ?_
  intro x hx
  obtain ⟨h, hh, rfl⟩ := List.mem_map.mp hx
  exact h0 h hh

@[simp] theorem total_append (hs hs' : List H) (a : κ) :
    total amount (hs ++ hs') a = total amount hs a + total amount hs' a := by
  unfold total
  rw [List.map_append, List.sum_append]

@[simp] theorem total_singleton (h : H) (a : κ) : total amount [h] a = amount h a := by
  unfold total
  rw [List.map_singleton, List.sum_singleton]

end Ledger
