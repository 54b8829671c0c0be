/-
  What a GC pass removes, sends and counts (src/memcache/gc.cpp).

  A pass visits the buckets one after the other, each under its lock; commands of clients, clock ticks and
  flushes happen in between.  So there is no ONE store a pass is about: each object is taken as it is when its
  bucket is visited.  `visits` lists, for a run of the server, the states in which GC visited a bucket, and
  everything that is said of the pass is said of the objects found there.

  * A visit removes what it should and tells the slaves, object by object (`Visit.find_after`,
    `Visit.messagesTo_after`).
  * The figures are `Tallied` over the survivors of the buckets visited so far.  One object is one
    `GcCounters.count` (`Counting.count`), one bucket a loop of them (`gcLoop_counting`), one pass a run
    (`Accounted.run`).
  * The memory figure adds `obj.size()` if that is within `heap_data_limit`, without a look at where the data
    is.  It is right because an object is PLACED by its size: on the heap up to the limit, in a file with an
    empty `m_data` above it.  Numbers are always on the heap, 20 bytes at most, hence a limit of 20 or more.
-/
import Yrmcds.Memcache.Limit
import Yrmcds.Memcache.Replication

namespace Yrmcds.Memcache

open ChainTable Run

/-! ## Where the data is -/

namespace Object

/-- Data is on the heap up to `heap_data_limit`, in a temporary file above it. -/
structure Placed (limit : Nat) (o : Object) : Prop extends o.Sound limit where
  heap : o.mfile = none → o.length ≤ limit
  empty : ∀ f, o.mfile = some f → o.mdata = []

section

variable {limit : Nat} {o : Object} {p : Bytes}

/-- Data just stored. -/
theorem Placed.of_stored (hl : o.length = p.length) (hf : o.mfile = if p.length > limit then some p else none)
    (hd : o.mdata = if p.length > limit then [] else p) : o.Placed limit := by
  have hdata : o.data = p := by
    rw [data, hf, hd]
    split_ifs <;> rfl
  refine ⟨(Sized.of_stored (B := fun _ => True) hl hdata hf trivial).toSound, fun ho => ?_, fun f ho => ?_⟩
  · by_contra hlt
    rw [hf, if_pos (by omega)] at ho
    cases ho
  · split_ifs at hf hd with hlim
    · exact hd
    · rw [hf] at ho
      cases ho

/-- A number. -/
theorem Placed.of_number (h20 : 20 ≤ limit) (n : UInt64) (hl : o.length = (decimal n.toNat).length)
    (hd : o.mdata = decimal n.toNat) (hf : o.mfile = none) : o.Placed limit := by
  refine ⟨(Sized.of_number (B := fun _ => True) n hl hd hf fun _ _ => trivial).toSound, fun _ => ?_,
    fun f ho => ?_⟩
  · rw [hl]
    exact (length_decimal_le n).trans h20
  · rw [hf] at ho
    cases ho

theorem Placed.renumber (h20 : 20 ≤ limit) {o' : Object} {f : UInt64 → UInt64} {n : UInt64}
    (h : o.renumber f = some (n, o')) : o'.Placed limit := by
  unfold Object.renumber at h
  split at h
  · next hf _ =>
    rw [Option.some.injEq, Prod.mk.injEq] at h
    rw [← h.2]
    exact .of_number h20 _ rfl rfl hf
  · cases h

/-- A longer object: what stays on the heap is within the limit, what is in a file has nothing else. -/
theorem Placed.grown {op : Nat → Object → Bytes → Object} (hop : Grows op) (h : o.Placed limit)
    (hheap : (op limit o p).mfile = none → o.length + p.length ≤ limit)
    (hfile : ∀ f, (op limit o p).mfile = some f → (op limit o p).mdata = []) :
    (op limit o p).Placed limit := by
  refine ⟨(hop.sized (B := fun _ => True) h.toSound trivial).toSound, fun hf => ?_, hfile⟩
  rw [(hop.shape limit o p).1]
  exact hheap hf

theorem Placed.append (h : o.Placed limit) (p : Bytes) : (o.append limit p).Placed limit := by
  refine h.grown grows_append (fun hf => ?_) fun f hf => ?_
  · unfold Object.append at hf
    split_ifs at hf with hp hlim
    · have := h.heap hf
      omega
    · split at hf <;> cases hf
    · omega
  · unfold Object.append at hf ⊢
    split_ifs at hf ⊢ with hp hlim
    · exact h.empty f hf
    · cases ho : o.mfile with
      | none => rfl
      | some f0 => exact h.empty f0 ho
    · have := h.file f hf
      omega

theorem Placed.prepend (h : o.Placed limit) (p : Bytes) : (o.prepend limit p).Placed limit := by
  refine h.grown grows_prepend (fun hf => ?_) fun f hf => ?_
  · unfold Object.prepend at hf
    split_ifs at hf with hp hlim
    · have := h.heap hf
      omega
    · split at hf <;> cases hf
    · omega
  · unfold Object.prepend at hf ⊢
    split_ifs at hf ⊢ with hp hlim
    · exact h.empty f hf
    · cases ho : o.mfile with
      | none => rfl
      | some f0 => exact h.empty f0 ho
    · have := h.file f hf
      omega

/-- **The memory figure is right**: what GC adds for the data is what `m_data` holds. -/
theorem Placed.length_mdata (h : o.Placed limit) :
    (if limit ≥ o.size then o.size else 0) = o.mdata.length := by
  have hlen := h.length_eq
  cases hf : o.mfile with
  | none =>
    have hle := h.heap hf
    rw [if_pos (by omega), Object.size, data, hf, Option.getD_none]
  | some f =>
    have hlt := h.file f hf
    rw [if_neg (by omega), h.empty f hf]
    rfl

end

end Object

theorem stable_placed (limit : Nat) : Stable fun _ => Object.Placed limit where
  lock _ h := ⟨⟨h.length_eq, h.file⟩, h.heap, h.empty⟩
  touch _ h := ⟨⟨h.length_eq, h.file⟩, h.heap, h.empty⟩
  accessed h := ⟨⟨h.length_eq, h.file⟩, h.heap, h.empty⟩
  survive h := ⟨⟨h.length_eq, h.file⟩, h.heap, h.empty⟩

/-- What the concatenating commands leave. -/
theorem Object.Placed.concat {limit : Nat} {o : Object} (ho : o.Placed limit)
    {op : Nat → Object → Bytes → Object} (h : op = Object.append ∨ op = Object.prepend) (p : Bytes) :
    (op limit o p).Placed limit := by
  rcases h with rfl | rfl
  · exact ho.append p
  · exact ho.prepend p

/-- What a command puts is placed by its size. -/
theorem Puts.placed {g : Env} {m : HashMap Object} {t : Int} (h20 : 20 ≤ g.config.heapDataLimit) {c : Cmd}
    (hm : Every (fun _ => Object.Placed g.config.heapDataLimit) m) {k : Key} {o : Object}
    (h : Puts g m t c k o) : o.Placed g.config.heapDataLimit := by
  cases h with
  | binSet | binNew | textSet | textNew | textCas => exact .of_stored rfl rfl rfl
  | number hp ho => exact .renumber h20 ho
  | initial hc => exact .of_number h20 _ rfl rfl rfl
  | binConcat hst hop hp hb => exact (hm _ _ hp).concat (BinaryRequest.concatOp_cases hop) _
  | textConcat hv hop hp hb => exact (hm _ _ hp).concat (TextRequest.concatOp_cases hop) _

namespace Server

/-- Every object is placed by its size, and GC uses the limit that commands use. -/
structure AllPlaced (cfg : GcConfig) (s : Server) : Prop where
  config_eq : s.gcConfig = cfg
  limit : cfg.heapDataLimit = s.config.heapDataLimit
  twenty : 20 ≤ s.config.heapDataLimit
  placed : Every (fun _ => Object.Placed s.config.heapDataLimit) s.hash

theorem step_gcConfig {s s' : Server} {e : Event} (h : s.step e = .ok s') : s'.gcConfig = s.gcConfig := by
  cases stepped_of_step h with
  | gcNext => unfold gcStep; split <;> rfl
  | _ => rfl

theorem step_allPlaced {cfg : GcConfig} {s s' : Server} {e : Event} (hs : s.AllPlaced cfg)
    (h : s.step e = .ok s') : s'.AllPlaced cfg := by
  have hcfg := step_config h
  refine ⟨(step_gcConfig h).trans hs.config_eq, by rw [hcfg, hs.limit], by rw [hcfg]; exact hs.twenty, ?_⟩
  rw [hcfg]
  refine step_every (stable_placed _) hs.placed ?_ h
  intro c slaves r _ conn _ k o hput
  exact hput.placed (g := s.env conn.fd) hs.twenty hs.placed

end Server

/-! ## The figures -/

/-- The counters of the eight size classes. -/
def GcCounters.classes (c : GcCounters) : List UInt32 :=
  [c.objectsUnder1k, c.objectsUnder4k, c.objectsUnder16k, c.objectsUnder64k, c.objectsUnder256k,
    c.objectsUnder1m, c.objectsUnder4m, c.objectsHuge]

/-- The memory an object really takes: key, object and the bytes in `m_data`. -/
def GcConfig.held (cfg : GcConfig) (c : Cell Key Object) : Nat :=
  cfg.sizeofHashKey + c.key.length + cfg.sizeofObject + c.val.mdata.length

/-- The figures are those of the survivors `bs`, listed bucket by bucket. -/
structure Tallied (cfg : GcConfig) (bs : List (List (Cell Key Object))) (c : GcCounters) : Prop where
  objects : c.objects.toNat = bs.flatten.length
  classes : (c.classes.map UInt32.toNat).sum = bs.flatten.length
  conflicts : c.conflicts.toNat = (bs.filter fun b => 2 ≤ b.length).length
  largest : c.largestObjectSize = (bs.flatten.map fun p => p.val.size).foldl max 0
  memory : c.usedMemory.toNat = (bs.flatten.map cfg.held).sum % 2 ^ 64

/-- In the middle of a bucket, of which the survivors `b` have been counted. -/
structure Counting (cfg : GcConfig) (bs : List (List (Cell Key Object))) (b : List (Cell Key Object))
    (c : GcCounters) : Prop where
  tallied : Tallied cfg (bs ++ [b]) c
  inBucket : c.objectsInBucket = b.length

section

variable {cfg : GcConfig} {bs : List (List (Cell Key Object))} {b : List (Cell Key Object)} {c : GcCounters}

theorem Tallied.init (cfg : GcConfig) : Tallied cfg [] {} := ⟨rfl, rfl, rfl, rfl, rfl⟩

/-- GC comes to the next bucket. -/
theorem Tallied.counting (h : Tallied cfg bs c) : Counting cfg bs [] { c with objectsInBucket := 0 } where
  tallied := by
    have hflat : (bs ++ [[]]).flatten = bs.flatten := by simp
    refine ⟨?_, ?_, ?_, ?_, ?_⟩
    · rw [hflat]; exact h.objects
    · rw [hflat]; exact h.classes
    · rw [List.filter_append, List.length_append]; exact h.conflicts
    · rw [hflat]; exact h.largest
    · rw [hflat]; exact h.memory
  inBucket := rfl

/-- The counters of removed objects are none of these figures. -/
theorem Counting.congr {c' : GcCounters} (h : Counting cfg bs b c)
    (hc : c' = { c with lastEvictions := c'.lastEvictions, lastExpirations := c'.lastExpirations }) :
    Counting cfg bs b c' := by
  rw [hc]
  exact ⟨⟨h.tallied.objects, h.tallied.classes, h.tallied.conflicts, h.tallied.largest, h.tallied.memory⟩,
    h.inBucket⟩

theorem toNat_succ {x : UInt32} (h : x.toNat + 1 < 2 ^ 32) : (x + 1).toNat = x.toNat + 1 := by
  rw [UInt32.toNat_add]
  exact Nat.mod_eq_of_lt h

/-- A counter that is counted up on a condition. -/
theorem toNat_ite_succ {x : UInt32} (P : Prop) [Decidable P] (h : x.toNat + 1 < 2 ^ 32) :
    (if P then x + 1 else x).toNat = x.toNat + if P then 1 else 0 := by
  split_ifs
  · exact toNat_succ h
  · rfl

/-- Every size is in exactly one class. -/
theorem classes_partition (size : Nat) :
    (if size < 1024 then 1 else 0) + ((if 1024 ≤ size ∧ size < 4096 then 1 else 0)
      + ((if 4096 ≤ size ∧ size < 16 * 1024 then 1 else 0)
      + ((if 16 * 1024 ≤ size ∧ size < 64 * 1024 then 1 else 0)
      + ((if 64 * 1024 ≤ size ∧ size < 256 * 1024 then 1 else 0)
      + ((if 256 * 1024 ≤ size ∧ size < 2 ^ 20 then 1 else 0)
      + ((if 2 ^ 20 ≤ size ∧ size < 4 * 2 ^ 20 then 1 else 0)
      + if 4 * 2 ^ 20 ≤ size then 1 else 0)))))) = 1 := by
  grind

/-- One object more in one class. -/
theorem sum_classes_count (cfg : GcConfig) (k : Key) (o : Object)
    (h : (c.classes.map UInt32.toNat).sum + 1 < 2 ^ 32) :
    ((c.count cfg k o).classes.map UInt32.toNat).sum = (c.classes.map UInt32.toNat).sum + 1 := by
  have hpart := classes_partition o.size
  simp only [GcCounters.classes, List.map_cons, List.map_nil, List.sum_cons, List.sum_nil] at h ⊢
  unfold GcCounters.count
  dsimp only
  rw [toNat_ite_succ _ (by omega), toNat_ite_succ _ (by omega), toNat_ite_succ _ (by omega),
    toNat_ite_succ _ (by omega), toNat_ite_succ _ (by omega), toNat_ite_succ _ (by omega),
    toNat_ite_succ _ (by omega), toNat_ite_succ _ (by omega)]
  omega

/-- The second object of a bucket is a conflict. -/
theorem length_conflicts (bs : List (List (Cell Key Object))) (b : List (Cell Key Object))
    (p : Cell Key Object) :
    ((bs ++ [b ++ [p]]).filter fun b => 2 ≤ b.length).length
      = ((bs ++ [b]).filter fun b => 2 ≤ b.length).length + if b.length + 1 = 2 then 1 else 0 := by
  simp only [List.filter_append, List.length_append, List.filter_cons, List.filter_nil, List.length_singleton,
    decide_eq_true_eq]
  split_ifs <;> simp_all
  omega

theorem length_conflicts_le (bs : List (List (Cell Key Object))) :
    (bs.filter fun b => 2 ≤ b.length).length ≤ bs.flatten.length := by
  induction bs with
  | nil => exact Nat.le_refl 0
  | cons b bs ih =>
    rw [List.filter_cons, List.flatten_cons, List.length_append]
    split_ifs with hb
    · rw [List.length_cons]
      have : 2 ≤ b.length := by simpa using hb
      omega
    · omega

/-- The memory of one object more. -/
theorem toNat_usedMemory {u : UInt64} {n a d : Nat} (h : u.toNat = n % 2 ^ 64) :
    (u + UInt64.ofNat a + UInt64.ofNat d).toNat = (n + (a + d)) % 2 ^ 64 := by
  rw [UInt64.toNat_add, UInt64.toNat_add, UInt64.toNat_ofNat', UInt64.toNat_ofNat', h]
  omega

/-- **One object.** -/
theorem Counting.count (h : Counting cfg bs b c) {p : Cell Key Object}
    (hp : p.val.Placed cfg.heapDataLimit) (hlt : (bs ++ [b ++ [p]]).flatten.length < 2 ^ 32) :
    Counting cfg bs (b ++ [p]) (c.count cfg p.key p.val.survive) where
  tallied := by
    have hflat : (bs ++ [b ++ [p]]).flatten = (bs ++ [b]).flatten ++ [p] := by simp
    rw [hflat, List.length_append, List.length_singleton] at hlt
    have ht := h.tallied
    have hconf := length_conflicts_le (bs ++ [b])
    refine ⟨?_, ?_, ?_, ?_, ?_⟩
    · rw [hflat, List.length_append, List.length_singleton, ← ht.objects]
      exact toNat_succ (by rw [ht.objects]; exact hlt)
    · rw [hflat, List.length_append, List.length_singleton, ← ht.classes]
      exact sum_classes_count cfg p.key p.val.survive (by rw [ht.classes]; exact hlt)
    · rw [length_conflicts, ← ht.conflicts, ← h.inBucket]
      exact toNat_ite_succ _ (by rw [ht.conflicts]; omega)
    · rw [hflat, List.map_append, List.foldl_append, ← ht.largest]
      rfl
    · have hadd : (if cfg.heapDataLimit ≥ p.val.size then UInt64.ofNat p.val.size else 0)
          = UInt64.ofNat p.val.mdata.length := by
        rw [← hp.length_mdata]
        split_ifs <;> rfl
      rw [hflat, List.map_append, List.sum_append, List.map_singleton, List.sum_singleton]
      show (c.usedMemory + UInt64.ofNat (cfg.sizeofHashKey + p.key.length + cfg.sizeofObject)
        + if cfg.heapDataLimit ≥ p.val.size then UInt64.ofNat p.val.size else 0).toNat = _
      rw [hadd, toNat_usedMemory ht.memory]
      rfl
  inBucket := by
    rw [List.length_append, List.length_singleton, ← h.inBucket]
    rfl

variable {pass : GcPass} {now flushTime : Int}

/-- The objects that stay. -/
def gcSurvivors (pass : GcPass) (now flushTime : Int) (cells : List (Cell Key Object)) :
    List (Cell Key Object) :=
  cells.filter fun p => ! gcRemoves pass now flushTime p.val

/-- The figures after an object that goes: only the counters of removed objects change. -/
theorem gcPred_removed (cfg : GcConfig) (k : KeyRef) {o : Object} (st : GcCounters × Log)
    (h : gcRemoves pass now flushTime o = true) :
    ∃ ev ex log, gcPred cfg pass now flushTime k o st
      = (true, o, ({ st.1 with lastEvictions := ev, lastExpirations := ex }, log)) := by
  unfold gcRemoves at h
  unfold gcPred
  cases hf : flushed pass o with
  | true => exact ⟨_, _, _, rfl⟩
  | false =>
    cases he : evicted pass o with
    | true => exact ⟨_, _, _, rfl⟩
    | false =>
      have hx : o.expired now flushTime = true := by simpa [hf, he] using h
      rw [hx]
      exact ⟨_, _, _, rfl⟩

/-- ... and after one that stays. -/
theorem gcPred_kept (cfg : GcConfig) (k : KeyRef) {o : Object} (st : GcCounters × Log)
    (h : gcRemoves pass now flushTime o = false) :
    ∃ o' log, gcPred cfg pass now flushTime k o st = (false, o', (st.1.count cfg k.key o.survive, log)) := by
  unfold gcRemoves at h
  simp only [Bool.or_eq_false_iff] at h
  unfold gcPred
  rw [h.1.1, h.1.2, h.2]
  exact ⟨_, _, rfl⟩

theorem gcSurvivors_cons (p : Cell Key Object) (cells : List (Cell Key Object)) :
    gcSurvivors pass now flushTime (p :: cells) = if gcRemoves pass now flushTime p.val then
      gcSurvivors pass now flushTime cells else [p] ++ gcSurvivors pass now flushTime cells := by
  unfold gcSurvivors
  rw [List.filter_cons]
  cases gcRemoves pass now flushTime p.val <;> rfl

/-- **One bucket.** -/
theorem gcLoop_counting (cells : List (Cell Key Object)) :
    ∀ {b : List (Cell Key Object)} {st : GcCounters × Log}, Counting cfg bs b st.1 →
      (∀ p ∈ cells, p.val.Placed cfg.heapDataLimit) →
      (bs ++ [b ++ gcSurvivors pass now flushTime cells]).flatten.length < 2 ^ 32 →
      Counting cfg bs (b ++ gcSurvivors pass now flushTime cells)
        (HashMap.gcLoop (gcPred cfg pass now flushTime) cells st).2.1 := by
  induction cells with
  | nil =>
    intro b st h _ _
    rw [show gcSurvivors pass now flushTime [] = [] from rfl, List.append_nil]
    exact h
  | cons p cells ih =>
    intro b st h hp hlt
    have hps := List.forall_mem_cons.mp hp
    rw [gcSurvivors_cons] at hlt ⊢
    rw [HashMap.gcLoop]
    cases hr : gcRemoves pass now flushTime p.val with
    | true =>
      obtain ⟨ev, ex, log, heq⟩ := gcPred_removed cfg (itemRef p) st hr
      rw [hr, if_pos rfl] at hlt
      rw [if_pos rfl, heq]
      exact ih (h.congr rfl) hps.2 hlt
    | false =>
      obtain ⟨o', log, heq⟩ := gcPred_kept cfg (itemRef p) st hr
      rw [hr, if_neg Bool.false_ne_true, ← List.append_assoc] at hlt
      rw [if_neg Bool.false_ne_true, ← List.append_assoc, heq]
      have hle : (bs ++ [b ++ [p]]).flatten.length < 2 ^ 32 := by
        simp only [List.flatten_append, List.flatten_singleton, List.length_append] at hlt ⊢
        omega
      exact ih (h.count hps.1 hle) hps.2 hlt

end

/-! ## A visit -/

/-- What a pass removes: an unlocked object that is flushed, too old, or expired. -/
theorem gcRemoves_iff {pass : GcPass} {now flushTime : Int} {o : Object} :
    gcRemoves pass now flushTime o = true ↔ o.lock = -1 ∧ (pass.flush = true ∨
      (0 < pass.evictAge ∧ pass.evictAge ≤ o.gcOld) ∨ o.expired now flushTime = true) := by
  constructor
  · intro h
    refine ⟨unlocked_of_gcRemoves pass now flushTime h, ?_⟩
    unfold gcRemoves flushed evicted at h
    simp only [Bool.or_eq_true, Bool.and_eq_true, decide_eq_true_eq] at h
    rcases h with (h | h) | h
    · exact .inl h.1
    · exact .inr (.inl h.1)
    · exact .inr (.inr h)
  · rintro ⟨hl, h⟩
    have hlocked : o.locked = false := by unfold Object.locked; rw [hl]; rfl
    unfold gcRemoves flushed evicted
    rw [hlocked]
    simp only [Bool.or_eq_true, Bool.and_eq_true, decide_eq_true_eq, Bool.not_false, and_true]
    rcases h with h | h | h
    · exact .inl (.inl h)
    · exact .inl (.inr h)
    · exact .inr h

/-- GC visits a bucket: the server and the thread before it. -/
structure Visit where
  server : Server
  thread : GcThread

namespace Visit

/-- The objects of the bucket. -/
def cells (v : Visit) : List (Cell Key Object) := v.server.visited v.thread

/-- The server after the visit. -/
def after (v : Visit) : Server := v.server.gcStep v.thread

/-- The objects of the bucket that are still there after the visit. -/
def survivors (v : Visit) : List (Cell Key Object) :=
  v.cells.filter fun p => (v.after.hash.find p.key).isSome

section

variable {v : Visit} (h : v.thread.next < v.server.hash.buckets.length)
include h

theorem find_after {p : Cell Key Object} (hp : p ∈ v.cells) :
    v.after.hash.find p.key = if gcRemoves v.thread.pass v.server.now v.server.flushTime p.val then none
      else some (p.put (gcKeeps v.thread.pass p.val)) := gcStep_find_mem v.server v.thread h hp

theorem find_after_isSome {p : Cell Key Object} (hp : p ∈ v.cells) :
    (v.after.hash.find p.key).isSome = ! gcRemoves v.thread.pass v.server.now v.server.flushTime p.val := by
  rw [find_after h hp]
  cases gcRemoves v.thread.pass v.server.now v.server.flushTime p.val <;> rfl

theorem survivors_eq :
    v.survivors = gcSurvivors v.thread.pass v.server.now v.server.flushTime v.cells :=
  List.filter_congr fun _ hp => find_after_isSome h hp

/-- What slave `x` is sent. -/
theorem messagesTo_after (x : Nat) :
    messagesTo x v.after.log = messagesTo x v.server.log ++ v.cells.flatMap fun p =>
      if (v.after.hash.find p.key).isSome then
        if x ∈ v.thread.pass.newSlaves then [.set p.key p.val.data p.val.flags p.val.exptime] else []
      else if x ∈ v.thread.pass.slaves then [.delete p.key] else [] := by
  rw [after, gcStep_log _ _ h]
  refine congrArg _ (List.flatMap_congr fun p hp => ?_)
  rw [show (v.server.gcStep v.thread).hash.find p.key = v.after.hash.find p.key from rfl,
    find_after_isSome h hp]
  unfold gcSent
  cases gcRemoves v.thread.pass v.server.now v.server.flushTime p.val <;> rfl

end

end Visit

/-! ## A pass -/

/-- What GC visits in a step. -/
def Server.visit (s : Server) : Event → List Visit
  | .gcNext =>
    match s.gc with
    | some t => if t.next < s.hash.buckets.length then [⟨s, t⟩] else []
    | none => []
  | _ => []

/-- The visits of a run. -/
def visits (s : Server) : List Event → List Visit
  | [] => []
  | e :: es =>
    s.visit e ++ match s.step e with
      | .ok s' => visits s' es
      | .error _ => []

theorem visits_cons {s s' : Server} {e : Event} (h : s.step e = .ok s') (es : List Event) :
    visits s (e :: es) = s.visit e ++ visits s' es := by
  rw [visits, h]

/-- A pass starts. -/
def Event.startsGc : Event → Bool
  | .gcStart .. => true
  | _ => false

/-- A pass that has visited `vs`: the buckets in order, the decisions of its start, and the figures of the
    survivors. -/
structure Accounted (cfg : GcConfig) (pass : GcPass) (index : Key → Nat) (vs : List Visit) (s : Server) :
    Prop where
  placed : s.AllPlaced cfg
  index_eq : s.hash.index = index
  visited : ∀ v ∈ vs, v.thread.pass = pass ∧ v.server.hash.index = index ∧
    v.thread.next < v.server.hash.buckets.length
  nexts : vs.map (fun v => v.thread.next) = List.range vs.length
  running : ∀ t, s.gc = some t → t.pass = pass ∧ t.next = vs.length ∧
    ((vs.flatMap Visit.survivors).length < 2 ^ 32 → Tallied cfg (vs.map Visit.survivors) t.counters)

namespace Accounted

variable {cfg : GcConfig} {pass : GcPass} {index : Key → Nat} {vs : List Visit} {s s' : Server}

/-- A step that is none of GC's. -/
theorem other {e : Event} (h : Accounted cfg pass index vs s) (hs : s.step e = .ok s') (hgc : s'.gc = s.gc) :
    Accounted cfg pass index vs s' where
  placed := Server.step_allPlaced h.placed hs
  index_eq := (Server.step_index hs).trans h.index_eq
  visited := h.visited
  nexts := h.nexts
  running := by
    rw [hgc]
    exact h.running

/-- The figures after a visit. -/
theorem tallied_visit {t : GcThread} (hplaced : s.AllPlaced cfg) (hnext : t.next < s.hash.buckets.length)
    (ht : Tallied cfg (vs.map Visit.survivors) t.counters)
    (hlt : ((vs ++ [Visit.mk s t]).flatMap Visit.survivors).length < 2 ^ 32) {t' : GcThread}
    (ht' : (s.gcStep t).gc = some t') :
    Tallied cfg ((vs ++ [Visit.mk s t]).map Visit.survivors) t'.counters := by
  rw [List.map_append, List.map_singleton, Visit.survivors_eq (v := ⟨s, t⟩) hnext]
  rw [List.flatMap_append, List.length_append, List.flatMap_singleton,
    Visit.survivors_eq (v := ⟨s, t⟩) hnext] at hlt
  have hcells : ∀ p ∈ s.visited t, p.val.Placed cfg.heapDataLimit := by
    intro p hp
    rw [hplaced.limit]
    exact hplaced.placed p.key p (s.hash.mem_bucket_iff.mp hp).1
  have hbound : (vs.map Visit.survivors ++
      [[] ++ gcSurvivors t.pass s.now s.flushTime (s.visited t)]).flatten.length < 2 ^ 32 := by
    rw [List.flatten_append, List.length_append, ← List.flatMap_def, List.flatten_singleton, List.nil_append]
    exact hlt
  have hcount : Counting cfg (vs.map Visit.survivors) []
      (({ t.counters with objectsInBucket := 0 }, s.log) : GcCounters × Log).1 := ht.counting
  have hloop := (gcLoop_counting (s.visited t) hcount hcells hbound).tallied
  unfold Server.gcStep at ht'
  rw [if_pos hnext, hplaced.config_eq] at ht'
  rw [← Option.some.inj ht']
  exact hloop

/-- **One visit.** -/
theorem visit {t : GcThread} (h : Accounted cfg pass index vs s) (ht : s.gc = some t)
    (hnext : t.next < s.hash.buckets.length) : Accounted cfg pass index (vs ++ [⟨s, t⟩]) (s.gcStep t) := by
  have hstep : s.step .gcNext = .ok (s.gcStep t) := by rw [Server.step, ht]
  obtain ⟨hpass, hlen, htally⟩ := h.running t ht
  refine ⟨Server.step_allPlaced h.placed hstep, (Server.step_index hstep).trans h.index_eq, ?_, ?_, ?_⟩
  · intro v hv
    rcases List.mem_append.mp hv with hv | hv
    · exact h.visited v hv
    · rw [List.mem_singleton.mp hv]
      exact ⟨hpass, h.index_eq, hnext⟩
  · rw [List.map_append, h.nexts, List.length_append, List.length_singleton, List.range_succ, ← hlen]
    rfl
  · intro t' ht'
    obtain ⟨t1, ht1, hpass1, hnext1⟩ := s.gcStep_gc t hnext
    rw [ht'] at ht1
    obtain rfl := Option.some.inj ht1
    refine ⟨hpass1.trans hpass, by rw [hnext1, hlen, List.length_append, List.length_singleton], fun hlt => ?_⟩
    have hlt' : (vs.flatMap Visit.survivors).length < 2 ^ 32 := by
      rw [List.flatMap_append, List.length_append] at hlt
      omega
    exact tallied_visit h.placed hnext (htally hlt') hlt ht'

/-- The pass ends. -/
theorem finish {t : GcThread} (h : Accounted cfg pass index vs s) (ht : s.gc = some t)
    (hnext : ¬ t.next < s.hash.buckets.length) : Accounted cfg pass index vs (s.gcStep t) := by
  have hstep : s.step .gcNext = .ok (s.gcStep t) := by rw [Server.step, ht]
  refine ⟨Server.step_allPlaced h.placed hstep, (Server.step_index hstep).trans h.index_eq, h.visited,
    h.nexts, fun t' ht' => ?_⟩
  rw [s.gcStep_end t hnext] at ht'
  cases ht'

/-- **Step.** -/
theorem step {e : Event} (h : Accounted cfg pass index vs s) (he : e.startsGc = false)
    (hs : s.step e = .ok s') : Accounted cfg pass index (vs ++ s.visit e) s' := by
  cases e with
  | gcStart => cases he
  | gcNext =>
    unfold Server.visit
    cases ht : s.gc with
    | none =>
      rw [List.append_nil]
      exact h.other hs (by rw [Server.step, ht] at hs; cases hs; rfl)
    | some t =>
      have hstep : s.gcStep t = s' := by
        rw [Server.step, ht] at hs
        exact Except.ok.inj hs
      dsimp only
      rw [← hstep]
      split_ifs with hnext
      · exact h.visit ht hnext
      · rw [List.append_nil]
        exact h.finish ht hnext
  | accept | cmd | close | tick =>
    refine (List.append_nil vs).symm ▸ h.other hs ?_
    cases Server.stepped_of_step hs <;> rfl

/-- **Run.** -/
theorem run {es : List Event} : ∀ {vs : List Visit} {s s' : Server}, Accounted cfg pass index vs s →
    (∀ e ∈ es, e.startsGc = false) → Run.run Server.step s es = .ok s' →
      Accounted cfg pass index (vs ++ visits s es) s' := by
  induction es with
  | nil =>
    intro vs s s' h _ hrun
    cases hrun
    exact (List.append_nil vs).symm ▸ h
  | cons e es ih =>
    intro vs s s' h hes hrun
    obtain ⟨s1, hs, hr⟩ := run_cons_inv hrun
    obtain ⟨he, hes⟩ := List.forall_mem_cons.mp hes
    rw [visits_cons hs, ← List.append_assoc]
    exact ih (h.step he hs) hes hr

/-- A pass that has come to the last bucket has visited the bucket of every key. -/
theorem exists_visit (h : Accounted cfg pass index vs s) (hlen : s.hash.buckets.length ≤ vs.length) (k : Key) :
    ∃ v ∈ vs, ∀ p, p.key = k → (p ∈ v.cells ↔ v.server.hash.find k = some p) := by
  have hlt := (s.hash.index_lt k).trans_le hlen
  rw [h.index_eq] at hlt
  have hmem : index k ∈ vs.map fun v => v.thread.next := by
    rw [h.nexts]
    exact List.mem_range.mpr hlt
  obtain ⟨v, hv, hnext⟩ := List.mem_map.mp hmem
  refine ⟨v, hv, fun p hk => ?_⟩
  have hidx : v.server.hash.index k = v.thread.next := by rw [(h.visited v hv).2.1, hnext]
  rw [← hk] at hidx ⊢
  exact v.server.hash.mem_bucket_iff.trans (and_iff_left hidx)

/-- No key is seen twice. -/
theorem nodup (h : Accounted cfg pass index vs s) : ((vs.flatMap Visit.cells).map Cell.key).Nodup := by
  have hnexts : (vs.map fun v => v.thread.next).Nodup := by
    rw [h.nexts]
    exact List.nodup_range
  rw [List.map_flatMap]
  refine Table.nodup_flatMap_of_index index hnexts (fun v _ => v.server.hash.nodup_bucket v.thread.next) ?_
  intro v hv k hk
  obtain ⟨p, hp, rfl⟩ := List.mem_map.mp hk
  rw [← (h.visited v hv).2.1]
  exact (v.server.hash.mem_bucket_iff.mp hp).2

end Accounted

/-- A pass with these decisions.  The constructor of `gc_thread` has added the new slaves to the slaves. -/
def GcPass.of (slaves newSlaves : List Nat) (flush : Bool) (evictAge : UInt32) : GcPass :=
  { slaves := slaves ++ newSlaves.filter (· ∉ slaves), newSlaves := newSlaves, flush := flush
    evictAge := evictAge }

/-- A pass begins. -/
def Server.beginPass (s : Server) (pass : GcPass) : Server := { s with gc := some { pass := pass } }

/-- `startGc` computes two of the decisions. -/
theorem Server.startGc_eq (s : Server) (slaves newSlaves : List Nat) (wall : Int) :
    s.startGc slaves newSlaves wall = s.beginPass (.of slaves newSlaves (s.flushTime != 0 && wall ≥ s.flushTime)
      (computeEvictAge s.gcConfig (s.flushTime != 0 && wall ≥ s.flushTime) s.stats)) := rfl

/-- **The account of a pass**: what it has removed and sent at its visits `vs`, and the figures it has left. -/
structure PassAccount (cfg : GcConfig) (slaves newSlaves : List Nat) (flush : Bool) (evictAge : UInt32)
    (vs : List Visit) (stats : GcCounters) : Prop where
  /-- Every key is looked up once, in the state in which its bucket is visited. -/
  scanned : ∀ k, ∃ v ∈ vs, ∀ p, p.key = k → (p ∈ v.cells ↔ v.server.hash.find k = some p)
  once : ((vs.flatMap Visit.cells).map Cell.key).Nodup
  removed : ∀ v ∈ vs, ∀ p ∈ v.cells, v.after.hash.find p.key = none ↔ p.val.lock = -1 ∧ (flush = true ∨
    (0 < evictAge ∧ evictAge ≤ p.val.gcOld) ∨ p.val.expired v.server.now v.server.flushTime = true)
  untouched : ∀ v ∈ vs, ∀ k, (∀ p ∈ v.cells, p.key ≠ k) → v.after.hash.find k = v.server.hash.find k
  /-- A deletion for what is removed, the whole object for what stays. -/
  sent : ∀ v ∈ vs, ∀ x, messagesTo x v.after.log = messagesTo x v.server.log ++ v.cells.flatMap fun p =>
    if (v.after.hash.find p.key).isSome then
      if x ∈ newSlaves then [.set p.key p.val.data p.val.flags p.val.exptime] else []
    else if x ∈ slaves ∨ x ∈ newSlaves then [.delete p.key] else []
  /-- ... and to nobody twice. -/
  sockets : ∀ v ∈ vs, v.thread.pass.newSlaves = newSlaves ∧
    (slaves.Nodup → newSlaves.Nodup → v.thread.pass.slaves.Nodup)
  objects : stats.objects.toNat = (vs.flatMap Visit.survivors).length
  classes : (stats.classes.map UInt32.toNat).sum = (vs.flatMap Visit.survivors).length
  conflicts : stats.conflicts.toNat = (vs.filter fun v => 2 ≤ v.survivors.length).length
  largest : stats.largestObjectSize = ((vs.flatMap Visit.survivors).map fun p => p.val.size).foldl max 0
  memory : stats.usedMemory.toNat = ((vs.flatMap Visit.survivors).map cfg.held).sum % 2 ^ 64

theorem GcPass.mem_of {x : Nat} {slaves newSlaves : List Nat} (flush : Bool) (evictAge : UInt32) :
    x ∈ (GcPass.of slaves newSlaves flush evictAge).slaves ↔ x ∈ slaves ∨ x ∈ newSlaves := by
  show x ∈ slaves ++ newSlaves.filter (· ∉ slaves) ↔ _
  rw [List.mem_append, List.mem_filter, decide_eq_true_eq]
  tauto

theorem GcPass.nodup_of {slaves newSlaves : List Nat} (flush : Bool) (evictAge : UInt32)
    (hs : slaves.Nodup) (hn : newSlaves.Nodup) : (GcPass.of slaves newSlaves flush evictAge).slaves.Nodup := by
  refine hs.append (hn.filter _) ?_
  intro x hx hx'
  exact absurd hx (by simpa using (List.mem_filter.mp hx').2)

theorem length_survivors_le (vs : List Visit) :
    (vs.flatMap Visit.survivors).length ≤ (vs.flatMap Visit.cells).length := by
  induction vs with
  | nil => exact Nat.le_refl _
  | cons v vs ih =>
    rw [List.flatMap_cons, List.flatMap_cons, List.length_append, List.length_append]
    exact Nat.add_le_add (List.length_filter_le ..) ih

/-- **A GC pass accounts exactly for every object.**  From every reachable state, with every combination of
    decisions, and with anything happening between two buckets: when the pass is over, it has removed, sent
    and counted what it should. -/
theorem gc_pass_accounted (hash : Key → Nat) (alloc : List Nat → Nat) (fresh : ∀ live, alloc live ∉ live)
    (n : Nat) (config : Config) (gcConfig : GcConfig) (now : Int)
    (hlimit : gcConfig.heapDataLimit = config.heapDataLimit) (h24 : 24 ≤ config.heapDataLimit)
    {es₀ : List Event} {s : Server}
    (hreach : run Server.step (Server.init hash alloc fresh n config gcConfig now) es₀ = .ok s)
    (slaves newSlaves : List Nat) (flush : Bool) (evictAge : UInt32) {es : List Event} {s₁ s₂ : Server}
    (hes : ∀ e ∈ es, e.startsGc = false)
    (hrun : run Server.step (s.beginPass (.of slaves newSlaves flush evictAge)) es = .ok s₁)
    (hgoing : s₁.gc ≠ none) (hlast : s₁.step .gcNext = .ok s₂) (hover : s₂.gc = none)
    (hfew : ((visits (s.beginPass (.of slaves newSlaves flush evictAge)) es).flatMap Visit.cells).length
      < 2 ^ 32) :
    PassAccount gcConfig slaves newSlaves flush evictAge
      (visits (s.beginPass (.of slaves newSlaves flush evictAge)) es) s₂.stats := by
  have hinit : (Server.init hash alloc fresh n config gcConfig now).AllPlaced gcConfig := by
    refine ⟨rfl, hlimit, Nat.le_trans (by decide) h24, fun k p hp => ?_⟩
    rw [Server.init, Table.find_empty] at hp
    cases hp
  have hplaced := run_preserves (fun _ _ _ => Server.step_allPlaced) hinit hreach
  generalize hpass : GcPass.of slaves newSlaves flush evictAge = pass at hrun hfew ⊢
  have hstart : Accounted gcConfig pass s.hash.index [] (s.beginPass pass) := by
    refine ⟨⟨hplaced.config_eq, hplaced.limit, hplaced.twenty, hplaced.placed⟩, rfl, by simp, rfl,
      fun t ht => ?_⟩
    obtain rfl := Option.some.inj ht
    exact ⟨rfl, rfl, fun _ => .init _⟩
  have hacc := hstart.run hes hrun
  rw [List.nil_append] at hacc
  generalize visits (s.beginPass pass) es = vs at hacc hfew ⊢
  obtain ⟨t, ht⟩ := Option.ne_none_iff_exists'.mp hgoing
  obtain ⟨-, hlen, htally⟩ := hacc.running t ht
  -- the last step of the pass finds no bucket left, and stores the figures
  have hs₂ : s₁.gcStep t = s₂ := by
    rw [Server.step, ht] at hlast
    exact Except.ok.inj hlast
  have hend : ¬ t.next < s₁.hash.buckets.length := by
    intro hlt
    obtain ⟨t', ht', -⟩ := s₁.gcStep_gc t hlt
    rw [hs₂, hover] at ht'
    cases ht'
  have hstats : s₂.stats = t.counters := by rw [← hs₂, s₁.gcStep_end t hend]
  have htally := hstats ▸ htally (Nat.lt_of_le_of_lt (length_survivors_le vs) hfew)
  refine ⟨fun k => ?_, hacc.nodup, fun v hv p hp => ?_, fun v hv k hk => ?_, fun v hv x => ?_,
    fun v hv => ?_, ?_, ?_, ?_, ?_, ?_⟩
  · exact hacc.exists_visit (by omega) k
  · obtain ⟨hvp, -, hnext⟩ := hacc.visited v hv
    have hsome := Visit.find_after_isSome hnext hp
    rw [hvp] at hsome
    rw [← Option.isNone_iff_eq_none, ← Option.not_isSome, hsome, Bool.not_not, gcRemoves_iff, ← hpass]
    rfl
  · exact gcStep_find_of_ne v.server v.thread (hacc.visited v hv).2.2 hk
  · obtain ⟨hvp, -, hnext⟩ := hacc.visited v hv
    rw [Visit.messagesTo_after hnext x, hvp]
    simp only [← hpass, GcPass.mem_of]
    rfl
  · rw [(hacc.visited v hv).1, ← hpass]
    exact ⟨rfl, GcPass.nodup_of flush evictAge⟩
  · rw [htally.objects, List.flatMap_def]
  · rw [htally.classes, List.flatMap_def]
  · rw [htally.conflicts, List.filter_map, List.length_map]
    rfl
  · rw [htally.largest, List.flatMap_def]
  · rw [htally.memory, List.flatMap_def]

/-- "x" with three bytes, locked, and "y" with more than the heap may hold. -/
def lockedAndLarge : List Event :=
  [.accept 0 5, .cmd 0 [] (.text { command := .SET, valid := true, key := [120], data := [1, 2, 3] }),
    .cmd 0 [] (.text { command := .SET, valid := true, key := [121], data := List.replicate 101 7 }),
    .cmd 0 [] (.text { command := .LOCK, valid := true, key := [120] })]

/-- A flush leaves the locked object and its 3 + 97 bytes; slave 1, who is new, is sent the deletion and the
    object. -/
theorem gc_pass_accounted_flush :
    ∃ s s₁ s₂, run Server.step Server.oneBucket lockedAndLarge = .ok s ∧
      run Server.step (s.beginPass (.of [0] [1] true 0)) [.gcNext] = .ok s₁ ∧ s₁.step .gcNext = .ok s₂ ∧
      s₂.stats.usedMemory = 100 ∧ messagesTo 0 s₂.log = [.delete [121]] ∧
      messagesTo 1 s₂.log = [.delete [121], .set [120] [1, 2, 3] 0 0] ∧
      PassAccount ⟨1024, 10, 100, 32, 64⟩ [0] [1] true 0
        (visits (s.beginPass (.of [0] [1] true 0)) [.gcNext]) s₂.stats := by
  obtain ⟨s, s₁, s₂, hs, h₁, h₂, hgoing, hover, hfew, hmem, hlog₀, hlog₁⟩ : ∃ s s₁ s₂,
      run Server.step Server.oneBucket lockedAndLarge = .ok s ∧
      run Server.step (s.beginPass (.of [0] [1] true 0)) [.gcNext] = .ok s₁ ∧ s₁.step .gcNext = .ok s₂ ∧
      s₁.gc ≠ none ∧ s₂.gc = none ∧
      ((visits (s.beginPass (.of [0] [1] true 0)) [.gcNext]).flatMap Visit.cells).length < 2 ^ 32 ∧
      s₂.stats.usedMemory = 100 ∧ messagesTo 0 s₂.log = [.delete [121]] ∧
      messagesTo 1 s₂.log = [.delete [121], .set [120] [1, 2, 3] 0 0] :=
    ⟨_, _, _, rfl, rfl, rfl, Option.some_ne_none _, rfl, by decide, rfl, rfl, rfl⟩
  exact ⟨s, s₁, s₂, hs, h₁, h₂, hmem, hlog₀, hlog₁, gc_pass_accounted _ _ _ _ _ _ _ rfl (by decide) hs
    [0] [1] true 0 (by decide) h₁ hgoing h₂ hover hfew⟩

end Yrmcds.Memcache
