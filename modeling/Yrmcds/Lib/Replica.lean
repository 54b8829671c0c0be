/-
  Keeping a copy of a keyed store up to date by messages.

  A store is a function from keys to optional values.  A message is about ONE key: `key m` says which,
  `eff m` what it does to the value there.  `replay` lets a list of messages act on a store, in order.

  `Mirrors v l v' l'` — while the original store went from `v` to `v'`, the messages sent went from `l`
  to `l'`, and those that came in between do to `v` what happened to it.  Mirroring composes, so what
  holds of every step of a system holds of its runs (`mirrors_of_run`), and a copy that starts equal
  and replays the messages stays equal.

  Replaying is LOCAL: what ends up under a key depends on what was there and on the messages about that
  key (`replay_apply`).  Hence a copy that knows only some of the keys is kept right on those
  (`replay_covers`), and a sweep that sends messages about distinct keys can be read off key by key
  (`replay_sweep`).
-/
import Yrmcds.Lib.Run
import Mathlib.Logic.Function.Basic

namespace Replica

open Run

variable {κ α μ : Type} [DecidableEq κ] (key : μ → κ) (eff : μ → Option α → Option α)

/-- One message acts on a store. -/
def act (v : κ → Option α) (m : μ) : κ → Option α := Function.update v (key m) (eff m (v (key m)))

/-- Messages act one after another. -/
def replay (v : κ → Option α) (ms : List μ) : κ → Option α := ms.foldl (act key eff) v

/-- What messages about one key do to the value there. -/
def effs (ms : List μ) (a : Option α) : Option α := ms.foldl (fun a m => eff m a) a

@[simp] theorem replay_cons (v : κ → Option α) (m : μ) (ms : List μ) :
    replay key eff v (m :: ms) = replay key eff (act key eff v m) ms := rfl

theorem replay_append (v : κ → Option α) (l l' : List μ) :
    replay key eff v (l ++ l') = replay key eff (replay key eff v l) l' := List.foldl_append ..

/-- **Locality**: only the messages about a key matter to it. -/
theorem replay_apply (v : κ → Option α) (ms : List μ) (k : κ) :
    replay key eff v ms k = effs eff (ms.filter (key · = k)) (v k) := by
  induction ms generalizing v with
  | nil => rfl
  | cons m ms ih =>
    rw [replay_cons, ih]
    by_cases hk : key m = k
    · rw [List.filter_cons_of_pos (by simpa using hk), act, ← hk, Function.update_self]
      rfl
    · rw [List.filter_cons_of_neg (by simpa using hk), act, Function.update_of_ne (Ne.symm hk)]

/-! ## Partial copies -/

/-- What is in the original is in the copy. -/
def Covers (a b : Option α) : Prop := ∀ x, a = some x → b = some x

theorem Covers.refl (a : Option α) : Covers a a := fun _ => id

variable {eff}

/-- A copy that is right about a key stays right about it. -/
theorem replay_covers (hmono : ∀ m a b, Covers a b → Covers (eff m a) (eff m b)) {v r : κ → Option α}
    {k : κ} (ms : List μ) (h : Covers (v k) (r k)) :
    Covers (replay key eff v ms k) (replay key eff r ms k) := by
  rw [replay_apply, replay_apply]
  generalize v k = a at h ⊢
  generalize r k = b at h ⊢
  induction ms.filter (key · = k) generalizing a b with
  | nil => exact h
  | cons m ms ih => exact ih _ _ (hmono m a b h)

/-! ## A sweep over items with distinct keys -/

section

variable {β : Type} {name : β → κ} {msgs : β → List μ}

/-- The messages of a sweep about the key of an item are the item's own. -/
theorem filter_sweep {b : List β} (hnd : (b.map name).Nodup)
    (hkey : ∀ c ∈ b, ∀ m ∈ msgs c, key m = name c) {c : β} (hc : c ∈ b) :
    (b.flatMap msgs).filter (key · = name c) = msgs c := by
  induction b with
  | nil => cases hc
  | cons d b ih =>
    rw [List.map_cons, List.nodup_cons] at hnd
    rw [List.flatMap_cons, List.filter_append]
    have hrest := ih hnd.2 fun e he => hkey e (List.mem_cons_of_mem _ he)
    rcases List.mem_cons.mp hc with rfl | hcb
    · have hself : (msgs c).filter (key · = name c) = msgs c :=
        List.filter_eq_self.mpr fun m hm => by simpa using hkey c (List.mem_cons_self ..) m hm
      have hnone : (b.flatMap msgs).filter (key · = name c) = [] := by
        refine List.filter_eq_nil_iff.mpr fun m hm => ?_
        obtain ⟨e, he, hme⟩ := List.mem_flatMap.mp hm
        rw [decide_eq_true_eq, hkey e (List.mem_cons_of_mem _ he) m hme]
        exact fun hname => hnd.1 (hname ▸ List.mem_map_of_mem he)
      rw [hself, hnone, List.append_nil]
    · have hnone : (msgs d).filter (key · = name c) = [] := by
        refine List.filter_eq_nil_iff.mpr fun m hm => ?_
        rw [decide_eq_true_eq, hkey d (List.mem_cons_self ..) m hm]
        exact fun hname => hnd.1 (hname ▸ List.mem_map_of_mem hcb)
      rw [hnone, List.nil_append, hrest hcb]

/-- What a sweep does under the key of an item. -/
theorem replay_sweep {b : List β} (hnd : (b.map name).Nodup)
    (hkey : ∀ c ∈ b, ∀ m ∈ msgs c, key m = name c) (v : κ → Option α) {c : β} (hc : c ∈ b) :
    replay key eff v (b.flatMap msgs) (name c) = effs eff (msgs c) (v (name c)) := by
  rw [replay_apply, filter_sweep key hnd hkey hc]

/-- ... and under other keys: nothing. -/
theorem replay_sweep_of_ne {b : List β} (hkey : ∀ c ∈ b, ∀ m ∈ msgs c, key m = name c)
    (v : κ → Option α) {k : κ} (hk : ∀ c ∈ b, name c ≠ k) :
    replay key eff v (b.flatMap msgs) k = v k := by
  have hnone : (b.flatMap msgs).filter (key · = k) = [] := by
    refine List.filter_eq_nil_iff.mpr fun m hm => ?_
    obtain ⟨e, he, hme⟩ := List.mem_flatMap.mp hm
    rw [decide_eq_true_eq, hkey e he m hme]
    exact hk e he
  rw [replay_apply, hnone]
  rfl

end

/-! ## Mirroring -/

variable (eff)

/-- The messages sent in between do to the store what happened to it. -/
def Mirrors (v : κ → Option α) (l : List μ) (v' : κ → Option α) (l' : List μ) : Prop :=
  ∃ new, l' = l ++ new ∧ v' = replay key eff v new

variable {key eff}

namespace Mirrors

variable {v v1 v2 : κ → Option α} {l l1 l2 : List μ}

/-- Nothing happened. -/
theorem same (hv : v1 = v) (hl : l1 = l) : Mirrors key eff v l v1 l1 :=
  ⟨[], by rw [hl, List.append_nil], hv⟩

/-- One message was sent. -/
theorem one {m : μ} (hv : v1 = act key eff v m) (hl : l1 = l ++ [m]) : Mirrors key eff v l v1 l1 :=
  ⟨[m], hl, hv⟩

theorem trans (h : Mirrors key eff v l v1 l1) (h' : Mirrors key eff v1 l1 v2 l2) :
    Mirrors key eff v l v2 l2 := by
  obtain ⟨new, hl, hv⟩ := h
  obtain ⟨new', hl', hv'⟩ := h'
  exact ⟨new ++ new', by rw [hl', hl, List.append_assoc], by rw [hv', hv, replay_append]⟩

end Mirrors

/-- **Run**: if every step mirrors, so does every run. -/
theorem mirrors_of_run {σ ε δ : Type} {step : σ → ε → Except δ σ} {V : σ → κ → Option α}
    {L : σ → List μ} {I : σ → Prop} {C : σ → ε → Prop}
    (hstep : ∀ s e s', I s → C s e → step s e = .ok s' →
      I s' ∧ Mirrors key eff (V s) (L s) (V s') (L s')) {es : List ε} :
    ∀ {s t : σ}, I s → Along C step s es → run step s es = .ok t →
      I t ∧ Mirrors key eff (V s) (L s) (V t) (L t) := by
  induction es with
  | nil =>
    intro s t hs _ hr
    cases hr
    exact ⟨hs, .same rfl rfl⟩
  | cons e es ih =>
    intro s t hs hc hr
    obtain ⟨s1, h1, hr1⟩ := run_cons_inv hr
    obtain ⟨hs1, hm1⟩ := hstep s e s1 hs hc.1 h1
    obtain ⟨ht, hm⟩ := ih hs1 (hc.2 s1 h1) hr1
    exact ⟨ht, hm1.trans hm⟩

end Replica
