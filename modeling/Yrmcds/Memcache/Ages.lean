/-
  The age of an object, `m_gc_old` (src/memcache/object.hpp, src/memcache/gc.cpp).

  GC counts the age of a survivor up, every client that reads, touches or modifies the object sets it back, and
  memory eviction removes the oldest objects.  So the age should be the number of passes the object has survived
  since a client last accessed it.

  `Aging` puts beside the server, for every key, the passes that have visited its bucket since then, `true` for a
  pass that has sent the object to a new slave.  The age is the number of passes AFTER the last such one
  (`Aging.Right`): `repl_object` reads the object with `object::data`, which sets the age back as it does for a
  client.  An object thus looks as if it had just been accessed whenever a slave joins.
-/
import Yrmcds.Memcache.Accesses

namespace Yrmcds.Memcache

open ChainTable Run

/-! ## Ages along a run -/

/-- The server, and for every key the GC passes that have visited its bucket since a command last accessed
    it, the latest first: has the pass sent the object to a new slave? -/
structure Aging where
  server : Server
  passes : Key → List Bool

namespace Aging

/-- What a step adds to the passes of a key, or that they start again. -/
def record (a : Aging) (e : Event) (k : Key) : List Bool :=
  match e with
  | .cmd c slaves r =>
    match a.server.conns c with
    | some conn =>
      if (r.accessed (a.server.env conn.fd) a.server.hash (a.server.session conn slaves)).any (· = k) then []
      else a.passes k
    | none => a.passes k
  | .gcNext =>
    match a.server.gc with
    | some t =>
      if t.next < a.server.hash.buckets.length ∧ a.server.hash.index k = t.next then
        (! t.pass.newSlaves.isEmpty) :: a.passes k
      else a.passes k
    | none => a.passes k
  | _ => a.passes k

/-- A step of the server, and what it means to the ages. -/
def step (a : Aging) (e : Event) : Except Err Aging :=
  match a.server.step e with
  | .ok s => .ok ⟨s, a.record e⟩
  | .error x => .error x

/-- Nothing has been recorded. -/
def start (s : Server) : Aging := ⟨s, fun _ => []⟩

/-- The age counts the passes since the last access or initial replication. -/
def Right (a : Aging) : Prop :=
  ∀ k u, ageOf a.server.hash k = some u → u = UInt32.ofNat ((a.passes k).takeWhile (! ·)).length

theorem Right.start (hash : Key → Nat) (alloc : List Nat → Nat) (fresh : ∀ live, alloc live ∉ live) (n : Nat)
    (config : Config) (gcConfig : GcConfig) (now : Int) :
    (Aging.start (Server.init hash alloc fresh n config gcConfig now)).Right := by
  intro k u hu
  unfold ageOf Aging.start Server.init at hu
  rw [Table.find_empty] at hu
  cases hu

section

variable {a : Aging} (h : a.Right)
include h

/-- A step that changes neither ages nor passes. -/
theorem Right.keep {s : Server} (hage : AgedBy [] a.server.hash s.hash) {ps : Key → List Bool}
    (hps : ∀ k, ps k = a.passes k) : Right ⟨s, ps⟩ := by
  intro k u hu
  dsimp only
  rw [hps]
  rcases hage k u hu with ⟨hk, -⟩ | ⟨-, hu'⟩
  · cases hk
  · exact h k u hu'

/-- A command: the passes of what it accesses start again. -/
theorem Right.cmd {c : Nat} {conn : Conn} {slaves : List Nat} {r : Cmd} {w : World}
    (hc : a.server.conns c = some conn)
    (hw : r.exec (a.server.env conn.fd) a.server.hash (a.server.session conn slaves) = .ok w) :
    Right ⟨a.server.commit c conn w, a.record (.cmd c slaves r)⟩ := by
  intro k u hu
  simp only [record, hc, List.any_eq_true, decide_eq_true_eq, exists_eq_right]
  rcases exec_ages hw k u hu with ⟨hk, hz⟩ | ⟨hk, hu'⟩
  · rw [if_pos hk]
    exact hz
  · rw [if_neg hk]
    exact h k u hu'

/-- **A visit of GC**: a survivor is one pass older, unless it is sent to a new slave. -/
theorem Right.visit {t : GcThread} (ht : a.server.gc = some t)
    (hnext : t.next < a.server.hash.buckets.length) :
    Right ⟨a.server.gcStep t, a.record .gcNext⟩ := by
  intro k u hu
  simp only [record, ht, hnext, true_and]
  unfold ageOf at hu
  dsimp only at hu
  rw [a.server.gcStep_find t hnext] at hu
  split_ifs at hu ⊢ with hidx
  · obtain ⟨p, hp, rfl⟩ := Option.map_eq_some_iff.mp hu
    obtain ⟨q, hq, hp⟩ := Option.bind_eq_some_iff.mp hp
    have hold := h k q.val.gcOld (by unfold ageOf; rw [hq]; rfl)
    split_ifs at hp
    cases hp
    rw [Cell.put_val]
    unfold gcKeeps
    cases hnew : t.pass.newSlaves.isEmpty with
    | true =>
      rw [if_pos rfl, Bool.not_true, List.takeWhile_cons_of_pos rfl, List.length_cons, UInt32.ofNat_add,
        ← hold]
      rfl
    | false =>
      rw [if_neg Bool.false_ne_true, Bool.not_false, List.takeWhile_cons_of_neg (by decide)]
      rfl
  · exact h k u hu

/-- **Step.** -/
theorem Right.step {a' : Aging} {e : Event} (hs : a.step e = .ok a') : a'.Right := by
  unfold Aging.step at hs
  cases hv : a.server.step e with
  | error x => rw [hv] at hs; cases hs
  | ok s =>
    rw [hv] at hs
    cases hs
    cases e with
    | cmd c slaves r =>
      cases hc : a.server.conns c with
      | none =>
        have hsame : a.server = s := by
          rw [Server.step, hc] at hv
          exact Except.ok.inj hv
        rw [← hsame]
        exact h.keep (.refl _) fun k => by simp only [record, hc]
      | some conn =>
        simp only [Server.step, hc, Server.runCmd] at hv
        cases hw : r.exec (a.server.env conn.fd) a.server.hash (a.server.session conn slaves) with
        | error x => rw [hw] at hv; cases hv
        | ok w =>
          rw [hw] at hv
          cases hv
          exact h.cmd hc hw
    | gcNext =>
      cases ht : a.server.gc with
      | none =>
        have hsame : a.server = s := by
          rw [Server.step, ht] at hv
          exact Except.ok.inj hv
        rw [← hsame]
        exact h.keep (.refl _) fun k => by simp only [record, ht]
      | some t =>
        have hsame : a.server.gcStep t = s := by
          rw [Server.step, ht] at hv
          exact Except.ok.inj hv
        rw [← hsame]
        by_cases hnext : t.next < a.server.hash.buckets.length
        · exact h.visit ht hnext
        · refine h.keep ?_ fun k => by simp only [record, ht, hnext, false_and, if_false]
          rw [a.server.gcStep_end t hnext]
          exact .refl _
    | accept | tick | gcStart =>
      refine h.keep ?_ fun _ => rfl
      cases Server.stepped_of_step hv <;> exact .refl _
    | close c =>
      refine h.keep ?_ fun _ => rfl
      cases Server.stepped_of_step hv with
      | idle => exact .refl _
      | close hc hu => exact .unlockLoop hu

end

end Aging

/-- The passes are counted in full exactly if none has set the age back and they do not overflow. -/
theorem toNat_takeWhile_iff (l : List Bool) :
    (UInt32.ofNat (l.takeWhile (! ·)).length).toNat = l.length ↔ true ∉ l ∧ l.length < 2 ^ 32 := by
  rw [UInt32.toNat_ofNat']
  have hle : (l.takeWhile (! ·)).length ≤ l.length := (List.takeWhile_sublist _).length_le
  constructor
  · intro heq
    have hmod := Nat.mod_le (l.takeWhile (! ·)).length (2 ^ 32)
    have hlen : (l.takeWhile (! ·)).length = l.length := by omega
    refine ⟨fun hmem => ?_, by rw [← heq]; exact Nat.mod_lt _ (by decide)⟩
    have hall := List.takeWhile_eq_self_iff.mp ((List.takeWhile_prefix _).eq_of_length hlen)
    exact absurd (hall true hmem) (by decide)
  · rintro ⟨hmem, hlt⟩
    have hself : l.takeWhile (! ·) = l := by
      refine List.takeWhile_eq_self_iff.mpr fun b hb => ?_
      cases b with
      | true => exact absurd hb hmem
      | false => rfl
    rw [hself]
    exact Nat.mod_eq_of_lt hlt

/-- A pass that evicts has a threshold of 1 at least. -/
theorem computeEvictAge_pos (cfg : GcConfig) {flush : Bool} {stats : GcCounters} (hf : flush = false)
    (hm : stats.usedMemory > cfg.memoryLimit) : 1 ≤ computeEvictAge cfg flush stats := by
  unfold computeEvictAge
  rw [if_pos (by rw [hf]; simpa using hm)]
  dsimp only
  have hhour : (3600 / cfg.gcInterval).toNat ≤ 3600 := by
    rw [UInt32.toNat_div]
    exact Nat.div_le_self _ _
  have hone : (3600 / cfg.gcInterval + 1).toNat = (3600 / cfg.gcInterval).toNat + 1 := by
    rw [UInt32.toNat_add]
    exact Nat.mod_eq_of_lt (by change _ + 1 < 2 ^ 32; omega)
  have htwo : ((3600 / cfg.gcInterval + 1) * 2).toNat = ((3600 / cfg.gcInterval).toNat + 1) * 2 := by
    rw [UInt32.toNat_mul, hone]
    exact Nat.mod_eq_of_lt (by change _ * 2 < 2 ^ 32; omega)
  rw [UInt32.le_iff_toNat_le]
  split_ifs with hlt
  · rw [show ((max 1 (stats.oldestAge / 2) : UInt32)) = if 1 ≤ stats.oldestAge / 2 then stats.oldestAge / 2 else 1
      from rfl]
    split_ifs with hle
    · exact UInt32.le_iff_toNat_le.mp hle
    · exact Nat.le_refl _
  · rw [UInt32.lt_iff_toNat_lt, htwo] at hlt
    rw [UInt32.toNat_sub_of_le _ _ (by rw [UInt32.le_iff_toNat_le, hone]; omega), hone]
    change 1 ≤ _
    omega

/-- **The age of an object, and what it really counts.**  In every state of every run of commands, GC passes
    and joins of slaves: the age of an object is the number of passes it has survived since it was last
    accessed exactly if none of them has sent it to a new slave (and they are fewer than `2 ^ 32`).  Eviction is
    right in any case: its threshold is 1 or more, and an object that was accessed since the last visit to its
    bucket is not evicted. -/
theorem age_counts_passes_iff (hash : Key → Nat) (alloc : List Nat → Nat) (fresh : ∀ live, alloc live ∉ live)
    (n : Nat) (config : Config) (gcConfig : GcConfig) (now : Int) {es : List Event} {a : Aging}
    (hrun : run Aging.step (Aging.start (Server.init hash alloc fresh n config gcConfig now)) es = .ok a) :
    (∀ k p, a.server.hash.find k = some p →
      (p.val.gcOld.toNat = (a.passes k).length ↔ true ∉ a.passes k ∧ (a.passes k).length < 2 ^ 32)) ∧
    (∀ flush stats, flush = false → stats.usedMemory > gcConfig.memoryLimit →
      1 ≤ computeEvictAge gcConfig flush stats) ∧
    (∀ k p, a.server.hash.find k = some p → a.passes k = [] → ∀ pass, evicted pass p.val = false) := by
  have hright : a.Right :=
    run_preserves (fun _ _ _ h hs => Aging.Right.step h hs) (.start hash alloc fresh n config gcConfig now) hrun
  have hage : ∀ k p, a.server.hash.find k = some p →
      p.val.gcOld = UInt32.ofNat ((a.passes k).takeWhile (! ·)).length := by
    intro k p hp
    exact hright k p.val.gcOld (by unfold ageOf; rw [hp]; rfl)
  refine ⟨fun k p hp => ?_, fun flush stats => computeEvictAge_pos gcConfig, fun k p hp hnil pass => ?_⟩
  · rw [hage k p hp]
    exact toNat_takeWhile_iff (a.passes k)
  · have hzero := hage k p hp
    rw [hnil] at hzero
    unfold evicted
    rw [hzero]
    cases hpos : decide (pass.evictAge > 0) with
    | false => rfl
    | true =>
      have hlt : ¬ (UInt32.ofNat 0 ≥ pass.evictAge) := by
        have := UInt32.lt_iff_toNat_lt.mp (of_decide_eq_true hpos)
        rw [ge_iff_le, UInt32.le_iff_toNat_le]
        exact Nat.not_le.mpr this
      rw [show ([] : List Bool).takeWhile (! ·) = [] from rfl, List.length_nil, decide_eq_false hlt]
      rfl

/-- A client stores "x", and a pass runs, with these new slaves. -/
def storeAndPass (newSlaves : List Nat) : List Event :=
  [.accept 0 5, .cmd 0 [] (.text { command := .SET, valid := true, key := [120], data := [1] }),
    .gcStart [] newSlaves 100, .gcNext, .gcNext]

/-- Without new slaves the age is right. -/
theorem age_counts_passes_one :
    ∃ a p, run Aging.step (Aging.start Server.oneBucket) (storeAndPass []) = .ok a ∧
      a.server.hash.find [120] = some p ∧ a.passes [120] = [false] ∧ p.val.gcOld.toNat = 1 := by
  obtain ⟨a, p, ha, hp, hpasses⟩ : ∃ a p,
      run Aging.step (Aging.start Server.oneBucket) (storeAndPass []) = .ok a ∧
      a.server.hash.find [120] = some p ∧ a.passes [120] = [false] := ⟨_, _, rfl, rfl, rfl⟩
  have hiff := (age_counts_passes_iff _ _ _ _ _ _ _ ha).1 [120] p hp
  rw [hpasses] at hiff
  exact ⟨a, p, ha, hp, hpasses, hiff.mpr (by decide)⟩

/-- With a new slave it is not: "x" has survived one pass since it was stored, as before, but its age is 0. -/
theorem initial_replication_resets_age :
    ∃ a p, run Aging.step (Aging.start Server.oneBucket) (storeAndPass [1]) = .ok a ∧ a.server.gc = none ∧
      a.server.hash.find [120] = some p ∧ (a.passes [120]).length = 1 ∧ p.val.gcOld.toNat = 0 :=
  ⟨_, _, rfl, rfl, rfl, rfl, rfl⟩

end Yrmcds.Memcache
