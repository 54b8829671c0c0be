/-
  The lock table: who holds which lock is recorded in the object (`m_lock`, the owner's file
  descriptor) and in the owner's `m_locks` (references to the keys of the locked items).

  The two records are an ownership table in the sense of `Yrmcds.Lib.Ownership`: the things are the
  addresses of items, the names are file descriptors, the holders are connections.  This file shows
  what each step of a command does to it, and concludes for every run of the server that the records
  agree, that no reference in an `m_locks` dangles, and that the `logic_error`s of `object::lock`,
  `object::unlock` and `remove_lock` are never thrown.

  1. `owner` and how the operations of the hash map change it.
  2. `removeLock_eq`, `unlockLoop_ok`: what the two loops over `m_locks` do when every reference is
     live.
  3. `prim_tableInv`, `primFail_tableInv`: steps and failures of a command (`Effects.lean`).
  4. `RecordsAgree`: the table of a server whose descriptors may be shared by an old connection and a
     new one; `LockInv`, when they are not: the step lemma and the run theorem.
-/
import Yrmcds.Memcache.Server
import Yrmcds.Lib.Ownership

namespace Yrmcds.Memcache

open ChainTable Ownership Run

/-! ## The record in the objects -/

/-- The owner an object names. -/
def lockOf (o : Object) : Option Int := if o.lock = -1 then none else some o.lock

/-- The owner of the item at an address. -/
def owner (m : HashMap Object) (a : Nat) : Option Int := (m.cellAt a).bind fun c => lockOf c.val

variable {o : Object} {w w' : World} {a : Nat} {l : List Nat} {ctx : Int} {force : Bool} {m' : HashMap Object}
    {σ' : Session}

theorem lockOf_eq_some {w : Int} : lockOf o = some w ↔ o.lock = w ∧ w ≠ -1 := by
  unfold lockOf
  split_ifs with h
  · constructor
    · intro hs; cases hs
    · rintro ⟨hw, hne⟩; exact absurd (hw.symm.trans h) hne
  · rw [Option.some.injEq]
    constructor
    · intro hw; exact ⟨hw, hw ▸ h⟩
    · exact And.left

theorem lockOf_eq_none : lockOf o = none ↔ o.lock = -1 := by
  unfold lockOf
  split_ifs with h
  · exact ⟨fun _ => h, fun _ => rfl⟩
  · exact ⟨fun hs => (by cases hs), fun hl => absurd hl h⟩

theorem lockOf_congr {o' : Object} (h : o'.lock = o.lock) : lockOf o' = lockOf o := by
  unfold lockOf; rw [h]

section

variable {m : HashMap Object} {k : Key} {p : Cell Key Object}

theorem owner_of_find (hp : m.find k = some p) : owner m p.addr = lockOf p.val := by
  unfold owner
  rw [m.cellAt_of_find hp, Option.bind_some]

/-- An owned address belongs to a live item. -/
theorem exists_find_of_owner {w : Int} (h : owner m a = some w) :
    ∃ k p, m.find k = some p ∧ p.addr = a ∧ p.val.lock = w ∧ w ≠ -1 := by
  obtain ⟨c, hc, hl⟩ := Option.bind_eq_some_iff.mp h
  obtain ⟨hf, ha⟩ := m.cellAt_eq_some_iff.mp hc
  exact ⟨c.key, c, hf, ha, lockOf_eq_some.mp hl⟩

theorem owner_write (hp : m.find k = some p) (o : Object) :
    owner (m.write p.addr o) = Function.update (owner m) p.addr (lockOf o) := by
  funext a
  unfold owner
  rw [Table.cellAt_write]
  by_cases ha : a = p.addr
  · rw [ha, Function.update_self, m.cellAt_of_find hp]
    simp
  · rw [Function.update_of_ne ha]
    cases hc : m.cellAt a with
    | none => rfl
    | some c =>
      have hca : c.addr ≠ p.addr := by
        rw [(m.cellAt_eq_some_iff.mp hc).2]; exact ha
      simp [hca]

/-- A write that leaves the lock alone leaves every owner alone. -/
theorem owner_write_same (hp : m.find k = some p) (h : o.lock = p.val.lock) :
    owner (m.write p.addr o) = owner m := by
  rw [owner_write hp, lockOf_congr h, ← owner_of_find hp, Function.update_eq_self]

theorem owner_push (hk : m.find k = none) (h : o.lock = -1) :
    owner (m.push k o) = owner m := by
  funext a
  unfold owner
  rw [m.cellAt_push o hk]
  split_ifs with ha
  · rw [ha, m.cellAt_newAddr, Option.bind_some, Option.bind_none]
    exact lockOf_eq_none.mpr h
  · rfl

theorem owner_erase (hp : m.find k = some p) :
    owner (m.erase p.addr) = Function.update (owner m) p.addr none := by
  funext a
  unfold owner
  rw [Table.cellAt_erase]
  by_cases ha : a = p.addr
  · rw [ha, Function.update_self, m.cellAt_of_find hp]
    simp [Option.filter]
  · rw [Function.update_of_ne ha]
    cases hc : m.cellAt a with
    | none => rfl
    | some c =>
      have hca : c.addr ≠ p.addr := by
        rw [(m.cellAt_eq_some_iff.mp hc).2]; exact ha
      simp [Option.filter, hca]

/-- A sweep that removes unlocked objects only, and keeps the locks of the others. -/
theorem owner_sweep (m : HashMap Object) (i : Nat) {f : Cell Key Object → Option Object}
    (hdrop : ∀ c, f c = none → c.val.lock = -1) (hkeep : ∀ c o, f c = some o → o.lock = c.val.lock) :
    owner (m.sweep i f) = owner m := by
  funext a
  unfold owner
  rw [Table.cellAt_sweep]
  cases m.cellAt a with
  | none => rfl
  | some c =>
    simp only [Option.bind_some]
    split_ifs
    · cases hf : f c with
      | none => exact (lockOf_eq_none.mpr (hdrop c hf)).symm
      | some o => exact lockOf_congr (hkeep c o hf)
    · rfl

/-! ## The loops over `m_locks` -/

/-- If every reference is live, `remove_lock` takes out the reference to the key's own item, and throws
    when there is none. -/
theorem removeLock_eq (hp : m.find k = some p) (hlive : ∀ a ∈ l, ∃ k', m.deref a = some k') :
    removeLock m.deref k l = if p.addr ∈ l then .ok (l.erase p.addr) else .error .removeLockBug := by
  induction l with
  | nil => rfl
  | cons a l ih =>
    obtain ⟨k', hk'⟩ := hlive a List.mem_cons_self
    obtain ⟨c, hc, hca⟩ := m.deref_eq_some_iff.mp hk'
    rw [removeLock, hk']
    dsimp only
    by_cases hkk : k' = k
    · -- the key compared is this item's, so the address is this item's
      subst hkk
      rw [hp, Option.some.injEq] at hc
      rw [if_pos rfl, ← hca, ← hc, if_pos List.mem_cons_self, List.erase_cons_head]
    · have hne : a ≠ p.addr := by
        intro ha
        exact hkk (m.find_addr_inj hc hp (hca.trans ha)).1
      rw [if_neg hkk, ih fun b hb => hlive b (List.mem_cons_of_mem _ hb),
        List.erase_cons_tail (by simpa using hne)]
      by_cases hmem : p.addr ∈ l
      · rw [if_pos hmem, if_pos (List.mem_cons_of_mem _ hmem)]
      · have hmem' : p.addr ∉ a :: l := fun h => hmem ((List.mem_cons.mp h).resolve_left hne.symm)
        rw [if_neg hmem, if_neg hmem']

/-- One round of `unlock_all` that succeeds. -/
theorem unlockLoop_cons_inv {m : HashMap Object} (h : unlockLoop ctx force m (a :: l) = .ok m') :
    ∃ k c, m.find k = some c ∧ c.addr = a ∧
      unlockLoop ctx force (m.write c.addr { c.val with lock := -1 }) l = .ok m' := by
  rw [unlockLoop] at h
  cases hd : m.deref a with
  | none => rw [hd] at h; cases h
  | some key =>
    obtain ⟨c, hc, rfl⟩ := m.deref_eq_some_iff.mp hd
    rw [hd] at h
    simp only [HashMap.apply_found hc, unlockHandler] at h
    cases hu : c.val.unlock ctx force with
    | error e => rw [hu] at h; cases h
    | ok o =>
      have ho : o = { c.val with lock := -1 } := by
        unfold Object.unlock at hu
        split_ifs at hu
        · exact (Except.ok.inj hu).symm
      rw [hu, ho] at h
      exact ⟨key, c, hc, rfl, h⟩

/-- What `unlock_all` does to the map when it succeeds: the listed objects are unlocked. -/
theorem unlockLoop_find {m : HashMap Object} (h : unlockLoop ctx force m l = .ok m') (k : Key) :
    m'.find k = (m.find k).map fun c => if c.addr ∈ l then c.put { c.val with lock := -1 } else c := by
  induction l generalizing m with
  | nil =>
    cases h
    simp
  | cons a l ih =>
    obtain ⟨key, c, hc, rfl, hr⟩ := unlockLoop_cons_inv h
    rw [ih hr, Table.find_write, Option.map_map]
    cases hf : m.find k with
    | none => rfl
    | some d =>
      simp only [Option.map_some, Function.comp]
      by_cases hda : d.addr = c.addr
      · have hdc := (m.find_addr_inj hf hc hda).2
        subst hdc
        simp only [if_true, Cell.put_addr, Cell.put_val, List.mem_cons, true_or]
        split_ifs <;> rfl
      · simp [hda]

/-- Unlocking moves nothing. -/
theorem unlockLoop_index {m : HashMap Object} (h : unlockLoop ctx force m l = .ok m') : m'.index = m.index := by
  induction l generalizing m with
  | nil => cases h; rfl
  | cons a l ih =>
    obtain ⟨key, c, hc, rfl, hr⟩ := unlockLoop_cons_inv h
    exact (ih hr).trans (m.index_write c.addr _)

/-- Nor does any other step of a command. -/
theorem prim_index {g : Env} {l : Bool} (hs : Prim g l w w') : w'.1.index = w.1.index := by
  cases hs with
  | chat hc => rfl
  | flush t hc => rfl
  | obj hp hs => exact Table.index_write ..
  | create hk hlen hlock hcas hc => exact Table.index_push ..
  | remove hp hl hr hc => exact Table.index_erase ..
  | unlockAll hu hc => exact unlockLoop_index hu

theorem exec_index {g : Env} {r : Cmd} {m : HashMap Object} {σ : Session}
    (h : r.exec g m σ = .ok w) : w.1.index = m.index := by
  have heff := exec_effects g r m σ
  rw [h] at heff
  exact heff.preserves (P := fun w => w.1.index = m.index) (fun _ _ _ hs hi => (prim_index hs).trans hi) rfl

/-- The bucket of a key is always the same. -/
theorem Server.step_index {s s' : Server} {e : Event} (hs : s.step e = .ok s') :
    s'.hash.index = s.hash.index := by
  cases stepped_of_step hs with
  | idle | accept | tick | gcStart => rfl
  | cmd hc hw => exact exec_index hw
  | close hc hu => exact unlockLoop_index hu
  | @gcNext t ht => exact s.gcStep_index t

/-- `unlock_all` succeeds when every reference is live, listed once, and names an object the caller may
    unlock. -/
theorem unlockLoop_ok {w : Int} (hw : force = true ∨ w = ctx) :
    ∀ {m : HashMap Object}, l.Nodup → (∀ a ∈ l, owner m a = some w) →
      ∃ m', unlockLoop ctx force m l = .ok m' ∧
        owner m' = fun a => if a ∈ l then none else owner m a := by
  induction l with
  | nil => intro m _ _; exact ⟨m, rfl, by simp⟩
  | cons a l ih =>
    intro m hnd hown
    obtain ⟨key, c, hc, rfl, hlock, _⟩ := exists_find_of_owner (hown a List.mem_cons_self)
    have hu : c.val.unlock ctx force = .ok { c.val with lock := -1 } := by
      unfold Object.unlock
      rw [if_neg]
      rcases hw with hf | hwc
      · simp [hf]
      · simp [Object.lockedBySelf, hlock, hwc]
    have hown' := owner_write hc { c.val with lock := -1 }
    rw [lockOf_eq_none.mpr rfl] at hown'
    obtain ⟨hal, hnd'⟩ := List.nodup_cons.mp hnd
    obtain ⟨m', hm', hom'⟩ := ih (m := m.write c.addr { c.val with lock := -1 }) hnd' (by
      intro b hb
      have hne : b ≠ c.addr := fun hbc => hal (hbc ▸ hb)
      rw [hown', Function.update_of_ne hne]
      exact hown b (List.mem_cons_of_mem _ hb))
    refine ⟨m', ?_, ?_⟩
    · rw [unlockLoop, m.deref_eq_some_iff.mpr ⟨c, hc, rfl⟩]
      simp only [HashMap.apply_found hc, unlockHandler, hu]
      exact hm'
    · rw [hom', hown']
      funext b
      by_cases hb : b = c.addr
      · simp [hb]
      · simp [hb]

end

/-! ## What a command does to the table -/

/-- The state of the table while connection `c` runs a command: the records agree and stored keys are
    short. -/
structure TableInv (g : Env) (held : Nat → Option (Int × List Nat)) (c : Nat) (w : World) : Prop where
  table : Consistent (owner w.1) (Function.update held c (some (g.ctx, w.2.locks)))
  keys : ∀ k p, w.1.find k = some p → k.length ≤ MAX_KEY_LENGTH

/-- The connection that runs the command has every object that names its descriptor on its list. -/
def View (g : Env) (w : World) : Prop := ∀ a, owner w.1 a = some g.ctx → a ∈ w.2.locks

section

variable {g : Env} {held : Nat → Option (Int × List Nat)} {c : Nat} {m : HashMap Object} {σ : Session}

theorem TableInv.self (_ : TableInv g held c (m, σ)) :
    Function.update held c (some (g.ctx, σ.locks)) c = some (g.ctx, σ.locks) := Function.update_self ..

/-- `remove_lock` on a consistent table. -/
theorem TableInv.removeLock_eq (h : TableInv g held c (m, σ)) {k : Key} {p : Cell Key Object}
    (hp : m.find k = some p) :
    removeLock m.deref k σ.locks
      = if p.addr ∈ σ.locks then .ok (σ.locks.erase p.addr) else .error .removeLockBug := by
  refine Memcache.removeLock_eq hp fun a ha => ?_
  obtain ⟨k', q, hq, hqa, -⟩ := exists_find_of_owner (h.table.owned h.self ha)
  exact ⟨k', m.deref_eq_some_iff.mpr ⟨q, hq, hqa⟩⟩

theorem TableInv.of_removeLock (h : TableInv g held c (m, σ)) {k : Key} {p : Cell Key Object}
    (hp : m.find k = some p) (hr : removeLock m.deref k σ.locks = .ok l) :
    p.addr ∈ σ.locks ∧ l = σ.locks.erase p.addr := by
  rw [h.removeLock_eq hp] at hr
  split_ifs at hr with hmem
  exact ⟨hmem, (Except.ok.inj hr).symm⟩

/-- `unlock_all` on a consistent table. -/
theorem TableInv.unlockLoop_ok (h : TableInv g held c (m, σ)) :
    ∃ m', unlockLoop g.ctx false m σ.locks = .ok m' ∧
      owner m' = fun a => if a ∈ σ.locks then none else owner m a :=
  Memcache.unlockLoop_ok (.inr rfl) (h.table.nodup h.self) fun _ ha => h.table.owned h.self ha

/-- Nothing the table records has changed. -/
theorem TableInv.of_same (h : TableInv g held c (m, σ))
    (hown : owner m' = owner m) (hlocks : σ'.locks = σ.locks)
    (hkeys : ∀ k p, m'.find k = some p → k.length ≤ MAX_KEY_LENGTH) : TableInv g held c (m', σ') where
  table := by rw [hown, hlocks]; exact h.table
  keys := hkeys

/-- The object at `a` is given up, in the map and on the list. -/
theorem TableInv.of_drop (h : TableInv g held c (m, σ))
    (ha : a ∈ σ.locks) (hown : owner m' = Function.update (owner m) a none)
    (hlocks : σ'.locks = σ.locks.erase a)
    (hkeys : ∀ k p, m'.find k = some p → k.length ≤ MAX_KEY_LENGTH) : TableInv g held c (m', σ') where
  table := by
    have hdrop := h.table.drop a h.self ha
    rw [Function.update_idem] at hdrop
    rw [hown, hlocks]
    exact hdrop
  keys := hkeys

theorem View.of_same (h : View g (m, σ))
    (hown : owner m' = owner m) (hlocks : σ'.locks = σ.locks) : View g (m', σ') := by
  intro a ha
  rw [hown] at ha
  rw [hlocks]
  exact h a ha

theorem View.of_drop (h : View g (m, σ))
    (hown : owner m' = Function.update (owner m) a none) (hlocks : σ'.locks = σ.locks.erase a) :
    View g (m', σ') := by
  intro b hb
  rw [hown] at hb
  by_cases hba : b = a
  · rw [hba, Function.update_self] at hb; cases hb
  · rw [Function.update_of_ne hba] at hb
    rw [hlocks]
    exact (List.mem_erase_of_ne hba).mpr (h b hb)

theorem keys_write {m : HashMap Object} (hkeys : ∀ k p, m.find k = some p → k.length ≤ MAX_KEY_LENGTH)
    (a : Nat) (o : Object) : ∀ k p, (m.write a o).find k = some p → k.length ≤ MAX_KEY_LENGTH := by
  intro k p hp
  rw [Table.find_write] at hp
  obtain ⟨q, hq, -⟩ := Option.map_eq_some_iff.mp hp
  exact hkeys k q hq

theorem keys_unlockLoop {m : HashMap Object}
    (hkeys : ∀ k p, m.find k = some p → k.length ≤ MAX_KEY_LENGTH) {ls : List Nat}
    (hu : unlockLoop ctx force m ls = .ok m') :
    ∀ k p, m'.find k = some p → k.length ≤ MAX_KEY_LENGTH := by
  intro k p hp
  rw [unlockLoop_find hu] at hp
  obtain ⟨q, hq, -⟩ := Option.map_eq_some_iff.mp hp
  exact hkeys k q hq

/-- **A step of a command stores no long key.** -/
theorem prim_keys {l : Bool} (hs : Prim g l w w')
    (hkeys : ∀ k p, w.1.find k = some p → k.length ≤ MAX_KEY_LENGTH) :
    ∀ k p, w'.1.find k = some p → k.length ≤ MAX_KEY_LENGTH := by
  cases hs with
  | chat hc => exact hkeys
  | flush t hc => exact hkeys
  | @obj _ m σ σ' k p o' hp hstep => exact keys_write hkeys p.addr o'
  | @create m σ σ' k o hk hlen hlock hcas hc =>
    intro l p hp
    by_cases hlk : l = k
    · rw [hlk]
      exact hlen
    · rw [m.find_push_of_ne o hk hlk] at hp
      exact hkeys l p hp
  | @remove m σ σ' k p l hp hl hr hc =>
    intro k' q hq
    rw [Table.find_erase] at hq
    exact hkeys k' q (Option.filter_eq_some_iff.mp hq).1
  | unlockAll hu hc => exact keys_unlockLoop hkeys hu

/-- **A step of a command keeps the table**, and the view of the connection that runs it. -/
theorem prim_tableInv (hctx : g.ctx ≠ -1) {l : Bool} (hs : Prim g l w w')
    (h : TableInv g held c w) : TableInv g held c w' ∧ (View g w → View g w') := by
  have hkeys := prim_keys hs h.keys
  cases hs with
  | chat hc => exact ⟨h.of_same rfl hc.locks hkeys, fun hv => hv.of_same rfl hc.locks⟩
  | flush t hc => exact ⟨h.of_same rfl hc.locks hkeys, fun hv => hv.of_same rfl hc.locks⟩
  | @obj _ m σ σ' k p o' hp hstep =>
    cases hstep with
    | chat hc | access hc | touch t hc =>
      exact ⟨h.of_same (owner_write_same hp rfl) hc.locks hkeys,
        fun hv => hv.of_same (owner_write_same hp rfl) hc.locks⟩
    | store hl hcas hlock hc =>
      have hown := owner_write_same hp hlock
      exact ⟨h.of_same hown hc.locks hkeys, fun hv => hv.of_same hown hc.locks⟩
    | lock hl hc =>
      have hnone : owner m p.addr = none := by rw [owner_of_find hp]; exact lockOf_eq_none.mpr hl
      have hlocks : σ'.locks = σ.locks ++ [p.addr] := hc.locks
      have hown := owner_write hp { p.val with lock := g.ctx }
      rw [lockOf_eq_some.mpr ⟨rfl, hctx⟩] at hown
      refine ⟨⟨?_, hkeys⟩, ?_⟩
      · have htake := h.table.take h.self hnone
        rw [Function.update_idem] at htake
        show Consistent (owner (m.write p.addr _)) (Function.update held c (some (g.ctx, σ'.locks)))
        rw [hown, hlocks]
        exact htake
      · intro hv a ha
        show a ∈ σ'.locks
        rw [hlocks]
        by_cases hap : a = p.addr
        · rw [hap]; simp
        · rw [hown, Function.update_of_ne hap] at ha
          exact List.mem_append_left _ (hv a ha)
    | @unlock _ _ _ l hl hr hc =>
      rw [show (itemRef p).key = k from m.find_key hp] at hr
      obtain ⟨hmem, rfl⟩ := h.of_removeLock hp hr
      have hown := owner_write hp { p.val with lock := -1 }
      rw [lockOf_eq_none.mpr rfl] at hown
      exact ⟨h.of_drop hmem hown hc.locks hkeys, fun hv => hv.of_drop hown hc.locks⟩
  | @create m σ σ' k o hk hlen hlock hcas hc =>
    have hown := owner_push hk hlock
    exact ⟨h.of_same hown hc.locks hkeys, fun hv => hv.of_same hown hc.locks⟩
  | @remove m σ σ' k p l hp hl hr hc =>
    rcases hr with ⟨hself, hr⟩ | ⟨hne, rfl⟩
    · obtain ⟨hmem, rfl⟩ := h.of_removeLock hp hr
      exact ⟨h.of_drop hmem (owner_erase hp) hc.locks hkeys,
        fun hv => hv.of_drop (owner_erase hp) hc.locks⟩
    · -- not locked by another and not by the caller: not locked
      have hun : p.val.lock = -1 :=
        ((p.val.lockedByOther_eq_false g.ctx).mp hl).resolve_right hne
      have hown : owner (m.erase p.addr) = owner m := by
        rw [owner_erase hp]
        have hnone : owner m p.addr = none := by rw [owner_of_find hp]; exact lockOf_eq_none.mpr hun
        rw [← hnone, Function.update_eq_self]
      exact ⟨h.of_same hown hc.locks hkeys, fun hv => hv.of_same hown hc.locks⟩
  | @unlockAll m m' σ σ' hu hc =>
    obtain ⟨m1, hm1, hown⟩ := h.unlockLoop_ok
    rw [hm1, Except.ok.injEq] at hu
    subst hu
    refine ⟨⟨?_, hkeys⟩, ?_⟩
    · have hdrop := h.table.dropAll h.self
      rw [Function.update_idem] at hdrop
      show Consistent (owner m1) (Function.update held c (some (g.ctx, σ'.locks)))
      rw [hown, hc.locks]
      exact hdrop
    · intro hv a ha
      rw [hown] at ha
      dsimp only at ha
      split_ifs at ha with hmem
      exact absurd (hv a ha) hmem

/-- **The one way to fail on a consistent table**: `remove_lock`, when an object names the descriptor
    of the connection but is not on its list. -/
theorem primFail_tableInv (hctx : g.ctx ≠ -1) {e : Err} (hf : PrimFail g w e)
    (h : TableInv g held c w) : e = .removeLockBug ∧ ¬ View g w := by
  cases hf with
  | @removeLock m σ k p _ hp hl hr =>
    rw [h.removeLock_eq hp] at hr
    split_ifs at hr with hmem
    refine ⟨(Except.error.inj hr).symm, fun hv => hmem (hv p.addr ?_)⟩
    rw [owner_of_find hp]
    exact lockOf_eq_some.mpr ⟨hl, hctx⟩
  | keyLength hp hk => exact absurd (h.keys _ _ hp) (Nat.not_le.mpr hk)
  | unlockAll hu =>
    obtain ⟨m1, hm1, -⟩ := h.unlockLoop_ok
    rw [hm1] at hu
    cases hu

/-- A command on a consistent table. -/
theorem exec_tableInv (hctx : g.ctx ≠ -1) (r : Cmd) (h : TableInv g held c (m, σ)) :
    (∀ w, r.exec g m σ = .ok w → TableInv g held c w) ∧
      ∀ e, r.exec g m σ = .error e → e = .removeLockBug ∧ ¬ View g (m, σ) := by
  have heff := exec_effects g r m σ
  constructor
  · intro w hw
    rw [hw] at heff
    exact heff.preserves (fun _ _ _ hs hi => (prim_tableInv hctx hs hi).1) h
  · intro e he
    rw [he] at heff
    refine ⟨heff.error_of (fun _ _ _ hs hi => (prim_tableInv hctx hs hi).1)
      (fun _ _ hf hi => (primFail_tableInv hctx hf hi).1) h, fun hv => ?_⟩
    -- a connection that has its view keeps it, and never meets the failure
    obtain ⟨w, hw, -⟩ := heff.total (P := fun w => TableInv g held c w ∧ View g w)
      (fun _ _ _ hs hi => ⟨(prim_tableInv hctx hs hi.1).1, (prim_tableInv hctx hs hi.1).2 hi.2⟩)
      (fun _ _ hf hi => (primFail_tableInv hctx hf hi.1).2 hi.2) ⟨h, hv⟩
    cases hw

end

/-! ## The server -/

/-- What the connections hold. -/
def Server.held (s : Server) (c : Nat) : Option (Int × List Nat) :=
  (s.conns c).map fun conn => (conn.fd, conn.locks)

/-- The descriptors of the connections. -/
def Server.fds (s : Server) (c : Nat) : Option Int := (s.conns c).map Conn.fd

/-- Both records of who holds which lock agree (two connections may have the same descriptor). -/
structure RecordsAgree (s : Server) : Prop where
  table : Consistent (owner s.hash) s.held
  fd_ne : ∀ c, s.fds c ≠ some (-1)
  keys : ∀ k p, s.hash.find k = some p → k.length ≤ MAX_KEY_LENGTH

/-- Connection `conn` has every object that names its descriptor on its list. -/
def Server.Sees (s : Server) (conn : Conn) : Prop := ∀ a, owner s.hash a = some conn.fd → a ∈ conn.locks

theorem held_eq_some {s : Server} {c : Nat} {w : Int} :
    s.held c = some (w, l) ↔ ∃ conn, s.conns c = some conn ∧ conn.fd = w ∧ conn.locks = l := by
  unfold Server.held
  rw [Option.map_eq_some_iff]
  simp only [Prod.mk.injEq]

theorem held_of_conn {s : Server} {c : Nat} {conn : Conn} (h : s.conns c = some conn) :
    s.held c = some (conn.fd, conn.locks) := held_eq_some.mpr ⟨conn, h, rfl, rfl⟩

theorem fds_of_conn {s : Server} {c : Nat} {conn : Conn} (h : s.conns c = some conn) :
    s.fds c = some conn.fd := by
  unfold Server.fds; rw [h, Option.map_some]

/-- Replacing a connection replaces its entries. -/
theorem held_update (s : Server) (c : Nat) (x : Option Conn) (m : HashMap Object) :
    Server.held { s with hash := m, conns := Function.update s.conns c x }
      = Function.update s.held c (x.map fun conn => (conn.fd, conn.locks)) := by
  funext d
  unfold Server.held
  by_cases hd : d = c
  · rw [hd]; simp
  · simp [Function.update_of_ne hd]

theorem fds_update (s : Server) (c : Nat) (x : Option Conn) (m : HashMap Object) :
    Server.fds { s with hash := m, conns := Function.update s.conns c x }
      = Function.update s.fds c (x.map Conn.fd) := by
  funext d
  unfold Server.fds
  by_cases hd : d = c
  · rw [hd]; simp
  · simp [Function.update_of_ne hd]

namespace RecordsAgree

variable {s : Server} {c : Nat} {conn : Conn}

theorem fd_ne' (h : RecordsAgree s) (hc : s.conns c = some conn) : conn.fd ≠ -1 := by
  intro hfd
  refine h.fd_ne c ?_
  rw [fds_of_conn hc, hfd]

/-- A command starts with the table of the server. -/
theorem tableInv (h : RecordsAgree s) (hc : s.conns c = some conn) (slaves : List Nat) :
    TableInv (s.env conn.fd) s.held c (s.hash, s.session conn slaves) := by
  refine ⟨?_, h.keys⟩
  show Consistent (owner s.hash) (Function.update s.held c (some (conn.fd, conn.locks)))
  rw [← held_of_conn hc, Function.update_eq_self]
  exact h.table

/-- A command leaves the descriptors alone. -/
theorem commit_fds (s : Server) (hc : s.conns c = some conn) (w : World) :
    (s.commit c conn w).fds = s.fds := by
  have hfds : (s.commit c conn w).fds = Function.update s.fds c (some conn.fd) := fds_update s c _ w.1
  rw [hfds, ← fds_of_conn hc, Function.update_eq_self]

variable {slaves : List Nat} {r : Cmd} {s' : Server}

theorem runCmd_eq_ok {ctx : Int} (h : s.runCmd c conn ctx slaves r = .ok s') :
    ∃ w, r.exec (s.env ctx) s.hash (s.session conn slaves) = .ok w ∧ s' = s.commit c conn w := by
  unfold Server.runCmd at h
  cases hr : r.exec (s.env ctx) s.hash (s.session conn slaves) with
  | ok w => rw [hr] at h; exact ⟨w, rfl, (Except.ok.inj h).symm⟩
  | error e => rw [hr] at h; cases h

theorem runCmd (h : RecordsAgree s) (hc : s.conns c = some conn)
    (hr : s.runCmd c conn conn.fd slaves r = .ok s') : RecordsAgree s' := by
  obtain ⟨w, hw, rfl⟩ := runCmd_eq_ok hr
  have hinv := (exec_tableInv (h.fd_ne' hc) r (h.tableInv hc slaves)).1 w hw
  refine ⟨?_, by rw [commit_fds s hc]; exact h.fd_ne, hinv.keys⟩
  have hheld : (s.commit c conn w).held = Function.update s.held c (some (conn.fd, w.2.locks)) :=
    held_update s c _ w.1
  rw [hheld]
  exact hinv.table

theorem runCmd_error (h : RecordsAgree s) (hc : s.conns c = some conn)
    {e : Err} (hr : s.runCmd c conn conn.fd slaves r = .error e) :
    e = .removeLockBug ∧ ¬ s.Sees conn := by
  unfold Server.runCmd at hr
  cases hx : r.exec (s.env conn.fd) s.hash (s.session conn slaves) with
  | ok w => rw [hx] at hr; cases hr
  | error x =>
    rw [hx, Except.error.injEq] at hr
    subst hr
    exact (exec_tableInv (h.fd_ne' hc) r (h.tableInv hc slaves)).2 x hx

/-- Giving up all locks: the loops of `unlock_all` and of the destructor. -/
theorem unlockLoop_ok (h : RecordsAgree s) (hc : s.conns c = some conn) (ctx : Int) (force : Bool)
    (hw : force = true ∨ conn.fd = ctx) :
    ∃ m, unlockLoop ctx force s.hash conn.locks = .ok m ∧
      (owner m = fun a => if a ∈ conn.locks then none else owner s.hash a) ∧
      ∀ k p, m.find k = some p → k.length ≤ MAX_KEY_LENGTH := by
  have hself := held_of_conn hc
  obtain ⟨m, hm, hown⟩ := Memcache.unlockLoop_ok hw (h.table.nodup hself)
    fun a ha => h.table.owned hself ha
  exact ⟨m, hm, hown, keys_unlockLoop h.keys hm⟩

/-- The end of a connection gives up its locks. -/
theorem destroy (h : RecordsAgree s) (hc : s.conns c = some conn) :
    ∃ s', s.destroy c conn = .ok s' ∧ RecordsAgree s' ∧ s'.conns = Function.update s.conns c none := by
  obtain ⟨m, hm, hown, hkeys⟩ := h.unlockLoop_ok hc conn.fd true (.inl rfl)
  unfold Server.destroy
  rw [hm]
  refine ⟨_, rfl, ⟨?_, ?_, hkeys⟩, rfl⟩
  · rw [held_update s c none m]
    have hleave := (h.table.dropAll (held_of_conn hc)).leave (Function.update_self c _ s.held)
    rw [Function.update_idem] at hleave
    show Consistent (owner m) _
    rw [hown]
    exact hleave
  · intro d
    rw [fds_update s c none m]
    by_cases hd : d = c
    · rw [hd, Function.update_self]; exact Option.some_ne_none _ ∘ Eq.symm
    · rw [Function.update_of_ne hd]; exact h.fd_ne d

/-- GC removes unlocked objects only. -/
theorem gcStep (h : RecordsAgree s) (t : GcThread) : RecordsAgree (s.gcStep t) := by
  have hconns := s.gcStep_conns t
  have hheld : (s.gcStep t).held = s.held := by unfold Server.held; rw [hconns]
  have hfds : (s.gcStep t).fds = s.fds := by unfold Server.fds; rw [hconns]
  by_cases hn : t.next < s.hash.buckets.length
  · refine ⟨?_, by rw [hfds]; exact h.fd_ne, ?_⟩
    · rw [hheld, s.gcStep_hash t hn, owner_sweep]
      · exact h.table
      · intro c hc
        split_ifs at hc with hr
        exact unlocked_of_gcRemoves _ _ _ hr
      · intro c o ho
        split_ifs at ho
        rw [← Option.some.inj ho, gcKeeps_lock]
    · intro k p hp
      rw [s.gcStep_find t hn] at hp
      split_ifs at hp
      · obtain ⟨q, hq, -⟩ := Option.bind_eq_some_iff.mp hp
        exact h.keys k q hq
      · exact h.keys k p hp
  · rw [s.gcStep_end t hn]
    exact ⟨h.table, h.fd_ne, h.keys⟩

/-- A connection enters with no locks. -/
theorem accept (h : RecordsAgree s) (hc : s.conns c = none) (hl : conn.locks = []) (hfd : 0 ≤ conn.fd) :
    RecordsAgree { s with conns := Function.update s.conns c (some conn) } := by
  refine ⟨?_, ?_, h.keys⟩
  · rw [held_update s c _ s.hash, Option.map_some, hl]
    exact h.table.enter conn.fd (by unfold Server.held; rw [hc]; rfl)
  · intro d
    rw [fds_update s c _ s.hash]
    by_cases hd : d = c
    · rw [hd, Function.update_self, Option.map_some]
      intro he
      have := Option.some.inj he
      omega
    · rw [Function.update_of_ne hd]; exact h.fd_ne d

/-- **Step**: an event that does not fail keeps the records in agreement, whatever the descriptors. -/
theorem step {e : Event} (h : RecordsAgree s) (hfd : ∀ c fd, e = .accept c fd → 0 ≤ fd)
    (hs : s.step e = .ok s') : RecordsAgree s' := by
  cases Server.stepped_of_step hs with
  | idle => exact h
  | accept hc => exact h.accept hc rfl (hfd _ _ rfl)
  | @cmd c conn slaves r w hc hw =>
    simp only [Server.step, hc] at hs
    exact h.runCmd hc hs
  | @close c conn m hc hu =>
    simp only [Server.step, hc] at hs
    obtain ⟨s1, hs1, hagree, -⟩ := h.destroy hc
    rw [hs1, Except.ok.injEq] at hs
    exact hs ▸ hagree
  | tick now => exact ⟨h.table, h.fd_ne, h.keys⟩
  | gcStart ht => exact ⟨h.table, h.fd_ne, h.keys⟩
  | @gcNext t ht => exact h.gcStep t

end RecordsAgree

/-- The invariant of a server whose connections have distinct descriptors. -/
structure LockInv (s : Server) : Prop extends RecordsAgree s where
  fd_inj : ∀ c d fd, s.fds c = some fd → s.fds d = some fd → c = d

/-- A connection with a descriptor of its own has its view. -/
theorem LockInv.sees {s : Server} (h : LockInv s) {c : Nat} {conn : Conn} (hc : s.conns c = some conn) :
    s.Sees conn := by
  intro a ha
  refine (h.table.mem_iff (held_of_conn hc) (fun d l hd => ?_) a).mp ha
  obtain ⟨y, hy, hfd, -⟩ := held_eq_some.mp hd
  exact h.fd_inj d c conn.fd (by rw [fds_of_conn hy, hfd]) (fds_of_conn hc)

/-- A command succeeds and keeps the invariant. -/
theorem LockInv.runCmd {s : Server} (h : LockInv s) {c : Nat} {conn : Conn} (hc : s.conns c = some conn)
    (slaves : List Nat) (r : Cmd) : ∃ s', s.runCmd c conn conn.fd slaves r = .ok s' ∧ LockInv s' := by
  cases hr : s.runCmd c conn conn.fd slaves r with
  | error e => exact absurd (h.sees hc) (h.toRecordsAgree.runCmd_error hc hr).2
  | ok s' =>
    refine ⟨s', rfl, h.toRecordsAgree.runCmd hc hr, ?_⟩
    obtain ⟨w, -, rfl⟩ := RecordsAgree.runCmd_eq_ok hr
    rw [RecordsAgree.commit_fds s hc]
    exact h.fd_inj

/-- The event gives a connection a descriptor. -/
def Event.isAccept : Event → Bool
  | .accept _ _ => true
  | _ => false

/-- The condition on a run: an accepted connection gets a descriptor no live connection has. -/
def FreshFd (s : Server) : Event → Prop
  | .accept _ fd => 0 ≤ fd ∧ ∀ d conn, s.conns d = some conn → conn.fd ≠ fd
  | _ => True

/-- Only an accept is restricted. -/
theorem along_of_no_accept (s : Server) (es : List Event) (h : ∀ e ∈ es, e.isAccept = false) :
    Along FreshFd Server.step s es := by
  induction es generalizing s with
  | nil => trivial
  | cons e es ih =>
    refine ⟨?_, fun s' _ => ih s' fun x hx => h x (List.mem_cons_of_mem _ hx)⟩
    cases e with
    | accept c fd => exact nomatch (show true = false from h _ List.mem_cons_self)
    | _ => trivial

/-- **Step**: no event fails, and the table stays consistent. -/
theorem LockInv.step {s : Server} (e : Event) (h : LockInv s) (hf : FreshFd s e) :
    ∃ s', s.step e = .ok s' ∧ LockInv s' := by
  cases e with
  | accept c fd =>
    by_cases hc : s.conns c = none
    · refine ⟨_, congrArg Except.ok (if_pos hc), h.toRecordsAgree.accept hc rfl hf.1, ?_⟩
      intro d e w hd he
      rw [fds_update s c _ s.hash] at hd he
      -- an old connection does not have the new descriptor
      have hold : ∀ x, Function.update s.fds c (some fd) x = some fd → x = c := by
        intro x hx
        by_contra hxc
        rw [Function.update_of_ne hxc] at hx
        obtain ⟨y, hy, hyf⟩ := Option.map_eq_some_iff.mp hx
        exact hf.2 x y hy hyf
      by_cases hw : w = fd
      · subst hw
        rw [hold d hd, hold e he]
      · have hne : ∀ x, Function.update s.fds c (some fd) x = some w → x ≠ c := by
          rintro x hx rfl
          rw [Function.update_self, Option.some.injEq] at hx
          exact hw hx.symm
        have hd' := hd
        have he' := he
        rw [Option.map_some, Function.update_of_ne (hne d hd')] at hd
        rw [Option.map_some, Function.update_of_ne (hne e he')] at he
        exact h.fd_inj d e w hd he
    · exact ⟨s, congrArg Except.ok (if_neg hc), h⟩
  | cmd c slaves r =>
    cases hc : s.conns c with
    | none => exact ⟨s, by simp only [Server.step, hc], h⟩
    | some conn =>
      simp only [Server.step, hc]
      exact h.runCmd hc slaves r
  | close c =>
    cases hc : s.conns c with
    | none => exact ⟨s, by simp only [Server.step, hc], h⟩
    | some conn =>
      simp only [Server.step, hc]
      obtain ⟨s', hs', hagree, hconns⟩ := h.toRecordsAgree.destroy hc
      refine ⟨s', hs', hagree, ?_⟩
      have hof : ∀ d fd, s'.fds d = some fd → s.fds d = some fd := by
        intro d fd hd
        unfold Server.fds at hd
        rw [hconns] at hd
        by_cases hdc : d = c
        · rw [hdc, Function.update_self] at hd; cases hd
        · rw [Function.update_of_ne hdc] at hd; exact hd
      intro d e fd hd he
      exact h.fd_inj d e fd (hof d fd hd) (hof e fd he)
  | tick now => exact ⟨_, rfl, ⟨h.table, h.fd_ne, h.keys⟩, h.fd_inj⟩
  | gcStart slaves newSlaves wall =>
    cases ht : s.gc with
    | some t => exact ⟨s, by simp only [Server.step, ht], h⟩
    | none =>
      simp only [Server.step, ht]
      exact ⟨_, rfl, ⟨h.table, h.fd_ne, h.keys⟩, h.fd_inj⟩
  | gcNext =>
    cases ht : s.gc with
    | none => exact ⟨s, by simp only [Server.step, ht], h⟩
    | some t =>
      simp only [Server.step, ht]
      refine ⟨_, rfl, h.toRecordsAgree.gcStep t, ?_⟩
      rw [show (s.gcStep t).fds = s.fds by unfold Server.fds; rw [s.gcStep_conns t]]
      exact h.fd_inj

/-- A server that has just started: no connections, and a store without locks (an empty one, or the
    store of a slave that became the master). -/
structure Boot (s : Server) : Prop where
  conns : ∀ c, s.conns c = none
  unlocked : ∀ k p, s.hash.find k = some p → p.val.lock = -1
  keys : ∀ k p, s.hash.find k = some p → k.length ≤ MAX_KEY_LENGTH

theorem LockInv.of_boot {s : Server} (h : Boot s) : LockInv s := by
  have hheld : ∀ c, s.held c = none := by
    intro c; unfold Server.held; rw [h.conns c]; rfl
  have hown : ∀ a, owner s.hash a = none := by
    intro a
    cases ho : owner s.hash a with
    | none => rfl
    | some w =>
      obtain ⟨k, p, hp, -, hl, hne⟩ := exists_find_of_owner ho
      exact absurd (hl.symm.trans (h.unlocked k p hp)) hne
  have hfds : ∀ c, s.fds c = none := by
    intro c; unfold Server.fds; rw [h.conns c]; rfl
  refine ⟨⟨⟨?_, ?_, ?_, ?_⟩, ?_, h.keys⟩, ?_⟩
  · intro i w l a hi; rw [hheld] at hi; cases hi
  · intro i w l hi; rw [hheld] at hi; cases hi
  · intro i j w v l l' a hi; rw [hheld] at hi; cases hi
  · intro a w ha; rw [hown] at ha; cases ha
  · intro c hc; rw [hfds] at hc; cases hc
  · intro c d fd hc; rw [hfds] at hc; cases hc

/-- The empty server. -/
theorem boot_init (hash : Key → Nat) (alloc : List Nat → Nat) (fresh : ∀ live, alloc live ∉ live)
    (n : Nat) (config : Config) (gcConfig : GcConfig) (now : Int) :
    Boot (Server.init hash alloc fresh n config gcConfig now) := by
  refine ⟨fun _ => rfl, ?_, ?_⟩ <;>
  · intro k p hp
    rw [Server.init, Table.find_empty] at hp
    cases hp

/-- The keys that a connection's `m_locks` refers to. -/
def Server.lockedKeys (s : Server) (conn : Conn) : List Key := conn.locks.filterMap s.hash.deref

/-- What the lock table promises: an object carries a connection's descriptor exactly when its key is
    among the connection's locked keys, where it then stands once; and no reference dangles. -/
structure LockTable (s : Server) : Prop where
  lock_iff : ∀ c conn k p, s.conns c = some conn → s.hash.find k = some p →
    (p.val.lock = conn.fd ↔ k ∈ s.lockedKeys conn)
  once : ∀ c conn k, s.conns c = some conn → k ∈ s.lockedKeys conn → (s.lockedKeys conn).count k = 1
  live : ∀ c conn a, s.conns c = some conn → a ∈ conn.locks → ∃ k p, s.hash.find k = some p ∧ p.addr = a

theorem mem_lockedKeys {s : Server} {conn : Conn} {k : Key} {p : Cell Key Object}
    (hp : s.hash.find k = some p) : k ∈ s.lockedKeys conn ↔ p.addr ∈ conn.locks := by
  unfold Server.lockedKeys
  rw [List.mem_filterMap]
  constructor
  · rintro ⟨a, ha, hk⟩
    obtain ⟨c, hc, rfl⟩ := s.hash.deref_eq_some_iff.mp hk
    rw [hp, Option.some.injEq] at hc
    exact hc ▸ ha
  · intro ha
    exact ⟨p.addr, ha, s.hash.deref_eq_some_iff.mpr ⟨p, hp, rfl⟩⟩

theorem LockInv.lockTable {s : Server} (h : LockInv s) : LockTable s where
  lock_iff := by
    intro c conn k p hc hp
    rw [mem_lockedKeys hp]
    constructor
    · intro hl
      refine h.sees hc p.addr ?_
      rw [owner_of_find hp]
      exact lockOf_eq_some.mpr ⟨hl, h.fd_ne' hc⟩
    · intro hmem
      have ho := h.table.owned (held_of_conn hc) hmem
      rw [owner_of_find hp] at ho
      exact (lockOf_eq_some.mp ho).1
  once := by
    intro c conn k hc hk
    refine List.count_eq_one_of_mem ?_ hk
    refine (h.table.nodup (held_of_conn hc)).filterMap ?_
    intro a b l ha hb
    obtain ⟨x, hx, rfl⟩ := s.hash.deref_eq_some_iff.mp ha
    obtain ⟨y, hy, rfl⟩ := s.hash.deref_eq_some_iff.mp hb
    rw [hx, Option.some.injEq] at hy
    rw [hy]
  live := by
    intro c conn a hc ha
    obtain ⟨k, p, hp, hpa, -⟩ := exists_find_of_owner (h.table.owned (held_of_conn hc) ha)
    exact ⟨k, p, hp, hpa⟩

/-- The invariant holds after every run whose descriptors are distinct. -/
theorem LockInv.of_run {s : Server} (h : LockInv s) (es : List Event)
    (hal : Along FreshFd Server.step s es) : ∃ t, run Server.step s es = .ok t ∧ LockInv t :=
  run_invariant (fun _ e h hf => LockInv.step e h hf) es s h hal

/-- **The lock table.**  Every run of the server, in which live connections have distinct descriptors,
    succeeds — no `logic_error` is thrown, no dangling reference is read — and both records of its
    last state agree. -/
theorem lockTable_of_run {s : Server} (h : Boot s) (es : List Event)
    (hal : Along FreshFd Server.step s es) : ∃ t, run Server.step s es = .ok t ∧ LockTable t := by
  obtain ⟨t, hrun, hinv⟩ := (LockInv.of_boot h).of_run es hal
  exact ⟨t, hrun, hinv.lockTable⟩

/-- Two clients, with descriptors 5 and 6, and no further accepts. -/
theorem along_two_clients (es : List Event) (h : ∀ e ∈ es, e.isAccept = false) :
    Along FreshFd Server.step Server.oneBucket (.accept 0 5 :: .accept 1 6 :: es) := by
  refine ⟨⟨by decide, fun d conn hd => nomatch hd⟩, fun s1 h1 => ?_⟩
  obtain rfl := Except.ok.inj h1
  refine ⟨⟨by decide, fun d conn hd => ?_⟩, fun s2 _ => along_of_no_accept s2 es h⟩
  -- the only other connection is number 0
  have hd' : Function.update (fun _ => none) 0 (some ({ fd := 5 } : Conn)) d = some conn := hd
  rw [Function.update_apply] at hd'
  split_ifs at hd'
  rw [← Option.some.inj hd']
  decide

/-- A lock that is taken, refused to the other client and given back, and a GC pass. -/
theorem lockTable_two_clients :
    ∃ t, run Server.step Server.oneBucket
      [.accept 0 5, .accept 1 6,
        .cmd 0 [] (.bin { command := .Set, status := .OK, key := [120], data := [1] }),
        .cmd 0 [] (.bin { command := .Lock, status := .OK, key := [120] }),
        .cmd 1 [] (.text { command := .LOCK, valid := true, key := [120] }),
        .gcStart [] [] 0, .gcNext, .gcNext,
        .cmd 0 [] (.bin { command := .Unlock, status := .OK, key := [120] })] = .ok t ∧ LockTable t :=
  lockTable_of_run (boot_init _ _ _ _ _ _ _) _ (along_two_clients _ (by decide))

end Yrmcds.Memcache
