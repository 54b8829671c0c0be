/-
  When a command throws (src/memcache/sockets.cpp, `cmd_bin`, `cmd_text` and `remove_lock`).

  `remove_lock` throws when the connection does not have the lock on its list.  The handlers ask the
  OBJECT before they call it, and the object knows its owner by the descriptor only.  So a command throws
  in one situation: the object names the descriptor of the connection, and the lock is not the
  connection's.  Three commands of the binary protocol get that far, and two of the text protocol, and
  they get there after their other checks.  The text protocol throws for a key that is too long as well,
  but no such key is stored (`TableInv.keys`).
-/
import Yrmcds.Memcache.LockTable
import Yrmcds.Memcache.Pairs

namespace Yrmcds.Memcache

open ChainTable

section Handlers

variable {g : Env} {cmd : BinaryRequest} {k : KeyRef} {o : Object} {σ : Session}

end Handlers

section Release

variable {g : Env} {held : Nat → Option (Int × List Nat)} {c : Nat} {m : HashMap Object} {σ : Session}
  {cmd : BinaryRequest} {p : Cell Key Object}

end Release

/-! ## Commands -/

section Commands

variable {g : Env} {held : Nat → Option (Int × List Nat)} {c : Nat} {m : HashMap Object} {σ : Session}
  {cmd : BinaryRequest}

/-- A `foreach` whose predicate does not throw on any stored object. -/
theorem foreach_ok {pred : KeyRef → Object → Session → Except Err Session}
    (hpred : ∀ k p σ, m.find k = some p → ∃ σ', pred (itemRef p) p.val σ = .ok σ') (σ : Session) :
    ∃ σ', HashMap.foreach m pred σ = .ok σ' := by
  have hfold : ∀ (cs : List (Cell Key Object)), (∀ d ∈ cs, d ∈ m.cells) → ∀ σ : Session,
      ∃ σ', cs.foldlM (fun st d => pred (itemRef d) d.val st) σ = .ok σ' := by
    intro cs
    induction cs with
    | nil => intro _ σ; exact ⟨σ, rfl⟩
    | cons d cs ih =>
      intro hmem σ
      obtain ⟨σ1, h1⟩ := hpred d.key d σ (m.mem_cells_iff.mp (hmem d List.mem_cons_self))
      rw [List.foldlM_cons, h1]
      exact ih (fun x hx => hmem x (List.mem_cons_of_mem _ hx)) σ1
  exact hfold m.cells (fun _ hd => hd) σ

end Commands

/-! ## Text commands -/

namespace Text

section Handlers

variable {g : Env} {cmd : TextRequest} {k : KeyRef} {o : Object} {σ : Session}

theorem keysPred_ok (hk : k.key.length ≤ MAX_KEY_LENGTH) : ∃ σ', Text.keysPred g cmd k o σ = .ok σ' := by
  unfold Text.keysPred
  rw [if_neg (Nat.not_lt.mpr hk)]
  split_ifs <;> exact ⟨_, rfl⟩

end Handlers

section Commands

variable {g : Env} {held : Nat → Option (Int × List Nat)} {c : Nat} {m : HashMap Object} {σ : Session}
  {cmd : TextRequest} {p : Cell Key Object}

end Commands

end Text

end Yrmcds.Memcache
