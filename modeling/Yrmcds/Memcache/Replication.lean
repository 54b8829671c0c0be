/-
  Replication: the messages a master sends, and what a slave does with them
  (src/memcache/replication.cpp).

  The abstract store of this file maps a key to an `Item`, what slaves are told of an object: data,
  flags and expiration time, but not the cas value, the lock or the age.  `view` reads it off a hash map.
  A message acts on it as `ReplMsg.eff` says, and `view_replApply` shows that the bodies of
  `repl_recv`, run on a slave's hash map, do just that.

  On the master, every step of a command (`Prim`) that changes the view sends the message that describes
  the change, after the change and under the same bucket lock, and every other step sends nothing
  (`prim_mirrors`).  GC says Delete of what it removes; what it sends to new slaves about the survivors
  tells the others nothing, and changes nothing on a slave that is up to date (`gcStep_mirrors`).  So a
  slave that is served by every job and every GC pass, and starts with the master's view, keeps it
  (`replica_of_run`).
-/
import Yrmcds.Memcache.LockTable
import Yrmcds.Lib.Replica

namespace Yrmcds.Memcache

open ChainTable Run Replica

/-! ## The abstract store -/

/-- What slaves are told of an object. -/
@[ext] structure Item where
  data : Bytes
  flags : UInt32
  exptime : Int
deriving DecidableEq, Repr

/-- What a slave is told of an object. -/
def Object.item (o : Object) : Item := ⟨o.data, o.flags, o.exptime⟩

@[simp] theorem Object.item_new (limit : Nat) (d : Bytes) (f : UInt32) (t : Int) :
    (Object.new limit d f t).item = ⟨d, f, t⟩ := by
  rw [Object.item, Object.new_data, Object.new_flags, Object.new_exptime]

@[simp] theorem Object.item_set (limit : Nat) (o : Object) (d : Bytes) (f : UInt32) (t : Int) :
    (o.set limit d f t).item = ⟨d, f, t⟩ := by
  rw [Object.item, Object.set_data, Object.set_flags, Object.set_exptime]

/-- A hash map, as slaves know it. -/
def view (m : HashMap Object) (k : Key) : Option Item := (m.find k).map fun p => p.val.item

/-- The key a message is about. -/
def ReplMsg.key : ReplMsg → Key
  | .set k _ _ _ => k
  | .touch k _ => k
  | .delete k => k

/-- What a message means for the item of its key. -/
def ReplMsg.eff : ReplMsg → Option Item → Option Item
  | .set _ d f t, _ => some ⟨d, f, t⟩
  | .touch _ t, i => i.map fun i => { i with exptime := t }
  | .delete _, _ => none

/-- Whatever is right about a key remains so. -/
theorem ReplMsg.eff_covers (msg : ReplMsg) (a b : Option Item) (h : Covers a b) :
    Covers (msg.eff a) (msg.eff b) := by
  cases msg with
  | set k d f t => exact .refl _
  | delete k => exact .refl _
  | touch k t =>
    intro i hi
    obtain ⟨j, hj, rfl⟩ := Option.map_eq_some_iff.mp hi
    show b.map _ = _
    rw [h j hj, Option.map_some]

section

variable {m : HashMap Object} {k : Key} {p : Cell Key Object}

theorem view_of_find (hp : m.find k = some p) : view m k = some p.val.item := by
  unfold view
  rw [hp, Option.map_some]

theorem view_of_absent (hk : m.find k = none) : view m k = none := by
  unfold view
  rw [hk, Option.map_none]

/-- Two maps with the same lookups, up to what slaves are not told, have one view. -/
theorem view_congr {m' : HashMap Object}
    (h : ∀ l, (m'.find l).map (·.val.item) = (m.find l).map (·.val.item)) :
    view m' = view m := funext h

theorem view_write (hp : m.find k = some p) (o : Object) :
    view (m.write p.addr o) = Function.update (view m) k (some o.item) := by
  funext l
  by_cases hl : l = k
  · subst hl
    rw [Function.update_self, view_of_find (m.find_write_self hp o), Cell.put_val]
  · rw [Function.update_of_ne hl, view, m.find_write_of_ne hp o hl, view]

/-- A change slaves need not be told of. -/
theorem view_write_item (hp : m.find k = some p) {o : Object} (ho : o.item = p.val.item) :
    view (m.write p.addr o) = view m := by
  rw [view_write hp, ho, ← view_of_find hp, Function.update_eq_self]

theorem view_push (hk : m.find k = none) (o : Object) :
    view (m.push k o) = Function.update (view m) k (some o.item) := by
  funext l
  by_cases hl : l = k
  · subst hl
    rw [Function.update_self, view_of_find (m.find_push_self o hk)]
  · rw [Function.update_of_ne hl, view, m.find_push_of_ne o hk hl, view]

theorem view_erase (hp : m.find k = some p) : view (m.erase p.addr) = Function.update (view m) k none := by
  funext l
  by_cases hl : l = k
  · subst hl
    rw [Function.update_self, view_of_absent (m.find_erase_self hp)]
  · rw [Function.update_of_ne hl, view, m.find_erase_of_ne hp hl, view]

theorem view_unlockLoop {ctx : Int} {force : Bool} {ls : List Nat} {m' : HashMap Object}
    (hu : unlockLoop ctx force m ls = .ok m') : view m' = view m := by
  refine view_congr fun l => ?_
  rw [unlockLoop_find hu, Option.map_map]
  congr 1
  funext q
  rw [Function.comp_apply]
  split_ifs <;> rfl

end

/-! ## The slave -/

section

variable (limit : Nat) (m : HashMap Object)

/-- The callbacks of `repl_recv`; they cannot throw. -/
def replSetHandler (data : Bytes) (flags : UInt32) (exptime : Int) : HashMap.Handler Object Unit Empty :=
  fun _ obj u => .ok (true, obj.set limit data flags exptime, u)

/-- `repl_recv` stores a new object. -/
def replSetCreator (data : Bytes) (flags : UInt32) (exptime : Int) : HashMap.Creator Object Unit :=
  fun _ u => (Object.new limit data flags exptime, u)

/-- `repl_recv` sets the time of an object. -/
def replTouchHandler (exptime : Int) : HashMap.Handler Object Unit Empty :=
  fun _ obj u => .ok (true, obj.touch exptime, u)

/-- The case of SetQ in `repl_recv`. -/
def replSet (key : Key) (data : Bytes) (flags : UInt32) (exptime : Int) : HashMap Object :=
  match HashMap.apply m key (some (replSetHandler limit data flags exptime))
    (some (replSetCreator limit data flags exptime)) () with
  | .ok (_, m', _) => m'

/-- The case of Touch. -/
def replTouch (key : Key) (exptime : Int) : HashMap Object :=
  match HashMap.apply m key (some (replTouchHandler exptime)) none () with
  | .ok (_, m', _) => m'

/-- The case of DeleteQ. -/
def replRemove (key : Key) : HashMap Object := (HashMap.removeNolock m key).2

/-- A slave receives a message. -/
def replApply : ReplMsg → HashMap Object
  | .set k d f t => replSet limit m k d f t
  | .touch k t => replTouch m k t
  | .delete k => replRemove m k

variable {limit m}

theorem view_replSet (k : Key) (d : Bytes) (f : UInt32) (t : Int) :
    view (replSet limit m k d f t) = Function.update (view m) k (some ⟨d, f, t⟩) := by
  unfold replSet
  cases hk : m.find k with
  | some p =>
    rw [HashMap.apply_found hk]
    exact (view_write hk _).trans (by rw [Object.item_set])
  | none =>
    rw [HashMap.apply_create hk]
    exact (view_push hk (Object.new limit d f t)).trans (by rw [Object.item_new])

theorem view_replTouch (k : Key) (t : Int) :
    view (replTouch m k t)
      = Function.update (view m) k ((view m k).map fun i => { i with exptime := t }) := by
  unfold replTouch
  cases hk : m.find k with
  | some p =>
    rw [HashMap.apply_found hk, view_of_find hk]
    exact view_write hk _
  | none =>
    rw [HashMap.apply_absent hk, view_of_absent hk, Option.map_none, ← view_of_absent hk,
      Function.update_eq_self]

theorem view_replRemove (k : Key) : view (replRemove m k) = Function.update (view m) k none := by
  unfold replRemove HashMap.removeNolock
  cases hk : m.find k with
  | some p => exact view_erase hk
  | none =>
    dsimp only
    rw [← view_of_absent hk, Function.update_eq_self]

/-- **The slave's hash map refines the abstract store.** -/
theorem view_replApply (msg : ReplMsg) :
    view (replApply limit m msg) = act ReplMsg.key ReplMsg.eff (view m) msg := by
  cases msg with
  | set k d f t => exact view_replSet k d f t
  | touch k t => exact view_replTouch k t
  | delete k => exact view_replRemove k

theorem view_replay (msgs : List ReplMsg) :
    ∀ m : HashMap Object, view (msgs.foldl (replApply limit) m)
      = replay ReplMsg.key ReplMsg.eff (view m) msgs := by
  induction msgs with
  | nil => intro m; rfl
  | cons msg msgs ih =>
    intro m
    rw [List.foldl_cons, ih, view_replApply, replay_cons]

end

/-! ## What is sent to one slave -/

/-- The messages of a log that went to slave `x`. -/
def messagesTo (x : Nat) (log : Log) : List ReplMsg := (log.filter fun e => x ∈ e.1).map Prod.snd

theorem messagesTo_sendTo (x : Nat) (slaves : List Nat) (msg : ReplMsg) (log : Log) :
    messagesTo x (sendTo slaves msg log)
      = messagesTo x log ++ if x ∈ slaves then [msg] else [] := by
  unfold sendTo messagesTo
  cases slaves with
  | nil => simp
  | cons y ys =>
    by_cases hx : x ∈ y :: ys
    · simp [List.filter_append, hx]
    · simp [List.filter_append, hx]

theorem messagesTo_repl {x : Nat} {σ : Session} (hx : x ∈ σ.slaves) (msg : ReplMsg) :
    messagesTo x (σ.repl msg).log = messagesTo x σ.log ++ [msg] := by
  unfold Session.repl
  rw [messagesTo_sendTo, if_pos hx]

/-- The store and what was sent to `x`, before and after. -/
abbrev MirrorsTo (x : Nat) (m : HashMap Object) (log : Log) (m' : HashMap Object) (log' : Log) : Prop :=
  Mirrors ReplMsg.key ReplMsg.eff (view m) (messagesTo x log) (view m') (messagesTo x log')

/-! ## Commands -/

section

variable {g : Env} {x : Nat}

/-- A change that is not told, and a message that is not needed. -/
theorem mirrorsTo_of_chat {m m' : HashMap Object} {σ s σ' : Session} (hc : Chat s σ')
    (hlog : s.log = σ.log) (hv : view m' = view m) : MirrorsTo x m σ.log m' σ'.log :=
  .same hv (by rw [hc.log, hlog])

/-- A change and its message. -/
theorem mirrorsTo_of_repl {m m' : HashMap Object} {σ s σ' : Session} {msg : ReplMsg} (hx : x ∈ s.slaves)
    (hlog : s.log = σ.log) (hc : Chat (s.repl msg) σ')
    (hv : view m' = act ReplMsg.key ReplMsg.eff (view m) msg) : MirrorsTo x m σ.log m' σ'.log :=
  .one hv (by rw [hc.log, messagesTo_repl hx, hlog])

/-- **A step of a command sends exactly the message that describes it.** -/
theorem prim_mirrors {l : Bool} {w w' : World} (hs : Prim g l w w') (hx : x ∈ w.2.slaves) :
    x ∈ w'.2.slaves ∧ MirrorsTo x w.1 w.2.log w'.1 w'.2.log := by
  cases hs with
  | chat hc => exact ⟨hc.slaves ▸ hx, mirrorsTo_of_chat hc rfl rfl⟩
  | flush t hc => exact ⟨hc.slaves ▸ hx, mirrorsTo_of_chat hc rfl rfl⟩
  | unlockAll hu hc => exact ⟨hc.slaves ▸ hx, mirrorsTo_of_chat hc rfl (view_unlockLoop hu)⟩
  | @create m σ σ' k o hk hlen hlock hcas hc =>
    exact ⟨hc.slaves ▸ hx, mirrorsTo_of_repl hx rfl hc (view_push hk o)⟩
  | @remove m σ σ' k p ls hp hl hr hc =>
    exact ⟨hc.slaves ▸ hx, mirrorsTo_of_repl (s := { σ with locks := ls }) hx rfl hc (view_erase hp)⟩
  | @obj l m σ σ' k p o hp hs =>
    have hkey : (itemRef p).key = k := m.find_key hp
    cases hs with
    | chat hc => exact ⟨hc.slaves ▸ hx, mirrorsTo_of_chat hc rfl (view_write_item hp rfl)⟩
    | access hc => exact ⟨hc.slaves ▸ hx, mirrorsTo_of_chat hc rfl (view_write_item hp rfl)⟩
    | lock hl hc => exact ⟨hc.slaves ▸ hx, mirrorsTo_of_chat hc rfl (view_write_item hp rfl)⟩
    | unlock hl hr hc => exact ⟨hc.slaves ▸ hx, mirrorsTo_of_chat hc rfl (view_write_item hp rfl)⟩
    | touch t hc =>
      refine ⟨hc.slaves ▸ hx, mirrorsTo_of_repl hx rfl hc ?_⟩
      rw [hkey, view_write hp, act, ReplMsg.key, ReplMsg.eff, view_of_find hp]
      rfl
    | store hl hcas hlock hc =>
      refine ⟨hc.slaves ▸ hx, mirrorsTo_of_repl hx rfl hc ?_⟩
      rw [hkey, view_write hp]
      rfl

/-- A whole command. -/
theorem exec_mirrors {r : Cmd} {m m' : HashMap Object} {σ σ' : Session} (hx : x ∈ σ.slaves)
    (h : r.exec g m σ = .ok (m', σ')) : MirrorsTo x m σ.log m' σ'.log := by
  have heff := exec_effects g r m σ
  rw [h] at heff
  refine (heff.preserves (P := fun w => x ∈ w.2.slaves ∧ MirrorsTo x m σ.log w.1 w.2.log) ?_
    ⟨hx, .same rfl rfl⟩).2
  rintro l w w' hs ⟨hxw, hm⟩
  obtain ⟨hxw', hm'⟩ := prim_mirrors hs hxw
  exact ⟨hxw', hm.trans hm'⟩

end

/-! ## Garbage collection -/

section

variable (x : Nat) (pass : GcPass) (now flushTime : Int)

/-- What a pass tells slave `x` about an item. -/
def gcSent (c : Cell Key Object) : List ReplMsg :=
  if gcRemoves pass now flushTime c.val then if x ∈ pass.slaves then [.delete c.key] else []
  else if x ∈ pass.newSlaves then [.set c.key c.val.data c.val.flags c.val.exptime] else []

theorem gcSent_key (c : Cell Key Object) : ∀ msg ∈ gcSent x pass now flushTime c, msg.key = c.key := by
  unfold gcSent
  split_ifs <;> simp [ReplMsg.key]

theorem messagesTo_gcMessage (c : Cell Key Object) (log : Log) :
    messagesTo x (gcMessage pass now flushTime c.key c.val log)
      = messagesTo x log ++ gcSent x pass now flushTime c := by
  unfold gcMessage gcSent
  split_ifs <;> rw [messagesTo_sendTo] <;> simp_all

/-- The messages of a visit to slave `x`. -/
theorem messagesTo_visit (b : List (Cell Key Object)) (log : Log) :
    messagesTo x (b.foldl (fun log c => gcMessage pass now flushTime c.key c.val log) log)
      = messagesTo x log ++ b.flatMap (gcSent x pass now flushTime) := by
  induction b generalizing log with
  | nil => exact (List.append_nil _).symm
  | cons c b ih =>
    rw [List.foldl_cons, ih, messagesTo_gcMessage, List.flatMap_cons, List.append_assoc]

end

section

variable {x : Nat} (s : Server) (t : GcThread)

/-- The bucket a pass visits next. -/
abbrev Server.visited : List (Cell Key Object) := (s.hash.buckets[t.next]?).getD []

/-- The messages to `x` of the visit. -/
abbrev Server.visitSent (x : Nat) : List ReplMsg :=
  (s.visited t).flatMap (gcSent x t.pass s.now s.flushTime)

theorem gcStep_log (h : t.next < s.hash.buckets.length) :
    messagesTo x (s.gcStep t).log = messagesTo x s.log ++ s.visitSent t x := by
  unfold Server.gcStep
  rw [if_pos h]
  dsimp only [HashMap.gc]
  rw [gcLoop_log, messagesTo_visit]

/-- What a visit does to an item of the bucket ... -/
theorem gcStep_find_mem (h : t.next < s.hash.buckets.length) {c : Cell Key Object} (hc : c ∈ s.visited t) :
    (s.gcStep t).hash.find c.key = if gcRemoves t.pass s.now s.flushTime c.val then none
      else some (c.put (gcKeeps t.pass c.val)) := by
  obtain ⟨hfind, hidx⟩ := s.hash.mem_bucket_iff.mp hc
  rw [s.gcStep_find t h, if_pos hidx, hfind, Option.bind_some]

/-- ... and to any other key. -/
theorem gcStep_find_of_ne (h : t.next < s.hash.buckets.length) {k : Key}
    (hk : ∀ c ∈ s.visited t, c.key ≠ k) : (s.gcStep t).hash.find k = s.hash.find k := by
  rw [s.gcStep_find t h]
  split_ifs with hidx
  · cases hfind : s.hash.find k with
    | none => rfl
    | some c => exact absurd (s.hash.find_key hfind) (hk c (s.hash.mem_bucket_of_find hfind hidx))
  · rfl

/-- The view after a visit, under the key of an item of the bucket. -/
theorem view_gcStep_mem (h : t.next < s.hash.buckets.length) {c : Cell Key Object} (hc : c ∈ s.visited t) :
    view (s.gcStep t).hash c.key
      = if gcRemoves t.pass s.now s.flushTime c.val then none else some c.val.item := by
  unfold view
  rw [gcStep_find_mem s t h hc]
  split_ifs
  · rfl
  · simp only [Option.map_some, Cell.put_val, Object.item, gcKeeps_data, gcKeeps_flags, gcKeeps_exptime]

/-- ... and under any other key. -/
theorem view_gcStep_of_ne (h : t.next < s.hash.buckets.length) {k : Key}
    (hk : ∀ c ∈ s.visited t, c.key ≠ k) : view (s.gcStep t).hash k = view s.hash k := by
  unfold view
  rw [gcStep_find_of_ne s t h hk]

/-- **A visit of GC** tells slave `x` what it does to the bucket. -/
theorem gcStep_mirrors (hx : x ∈ t.pass.slaves) :
    MirrorsTo x s.hash s.log (s.gcStep t).hash (s.gcStep t).log := by
  by_cases h : t.next < s.hash.buckets.length
  · refine ⟨s.visitSent t x, gcStep_log s t h, funext fun k => ?_⟩
    have hkeys : ∀ c ∈ s.visited t, ∀ msg ∈ gcSent x t.pass s.now s.flushTime c, msg.key = c.key :=
      fun c _ => gcSent_key x t.pass s.now s.flushTime c
    by_cases hk : ∃ c ∈ s.visited t, c.key = k
    · obtain ⟨c, hc, rfl⟩ := hk
      rw [view_gcStep_mem s t h hc, replay_sweep _ (s.hash.nodup_bucket t.next) hkeys _ hc]
      -- Delete for what goes; Set, to a new slave, or nothing for what stays
      unfold gcSent
      rw [if_pos hx, view_of_find (s.hash.mem_bucket_iff.mp hc).1]
      split_ifs <;> rfl
    · have hne : ∀ c ∈ s.visited t, c.key ≠ k := fun c hc hck => hk ⟨c, hc, hck⟩
      rw [view_gcStep_of_ne s t h hne, replay_sweep_of_ne _ hkeys _ hne]
  · rw [s.gcStep_end t h]
    exact .same rfl rfl

end

/-! ## Runs -/

/-- The slave is on the list of this job or GC pass. -/
def Event.serves (x : Nat) : Event → Bool
  | .cmd _ slaves _ => x ∈ slaves
  | .gcStart slaves newSlaves _ => x ∈ slaves ∨ x ∈ newSlaves
  | _ => true

/-- The slave is on the list of the GC pass that runs, if one does. -/
def Server.GcServes (x : Nat) (s : Server) : Prop := ∀ t, s.gc = some t → x ∈ t.pass.slaves

theorem GcPass.mem_start {x : Nat} {slaves newSlaves : List Nat} (hx : x ∈ slaves ∨ x ∈ newSlaves)
    (cfg : GcConfig) (flushTime wall : Int) (stats : GcCounters) :
    x ∈ (GcPass.start cfg slaves newSlaves flushTime wall stats).slaves := by
  show x ∈ slaves ++ newSlaves.filter (· ∉ slaves)
  rw [List.mem_append, List.mem_filter, decide_eq_true_eq]
  by_cases hs : x ∈ slaves
  · exact .inl hs
  · exact .inr ⟨hx.resolve_left hs, hs⟩

/-- **Step**: whatever a step does, slave `x` is told. -/
theorem step_mirrors {x : Nat} {s s' : Server} {e : Event} (hgc : s.GcServes x) (he : e.serves x = true)
    (hs : s.step e = .ok s') : s'.GcServes x ∧ MirrorsTo x s.hash s.log s'.hash s'.log := by
  cases Server.stepped_of_step hs with
  | idle | accept | tick => exact ⟨hgc, .same rfl rfl⟩
  | gcStart ht =>
    refine ⟨fun t ht => ?_, .same rfl rfl⟩
    obtain rfl := Option.some.inj ht
    exact GcPass.mem_start (of_decide_eq_true he) _ _ _ _
  | @cmd c conn slaves r w hc hw =>
    have hx : x ∈ (s.session conn slaves).slaves := of_decide_eq_true he
    exact ⟨hgc, exec_mirrors hx hw⟩
  | close hc hu => exact ⟨hgc, .same (view_unlockLoop hu) rfl⟩
  | @gcNext t ht =>
    refine ⟨fun t' ht' => ?_, gcStep_mirrors s t (hgc t ht)⟩
    rw [← s.gcStep_pass t ht']
    exact hgc t ht

/-- **A slave mirrors its master.**  In every run whose jobs and GC passes all serve slave `x`: the slave
    that starts with the keys, data, flags and expiration times of the master, and replays the messages
    it is sent, ends with those of the master. -/
theorem replica_of_run {x : Nat} {s t : Server} {es : List Event} (hgc : s.GcServes x)
    (he : Along (fun _ e => e.serves x = true) Server.step s es) (h : run Server.step s es = .ok t)
    (limit : Nat) (slave : HashMap Object) (hslave : view slave = view s.hash) :
    ∃ msgs, messagesTo x t.log = messagesTo x s.log ++ msgs ∧
      view (msgs.foldl (replApply limit) slave) = view t.hash := by
  obtain ⟨-, msgs, hlog, hview⟩ := mirrors_of_run (V := fun s : Server => view s.hash)
    (L := fun s => messagesTo x s.log) (I := Server.GcServes x)
    (fun s e s' hgc he hs => step_mirrors hgc he hs) hgc he h
  exact ⟨msgs, hlog, by rw [view_replay, hslave]; exact hview.symm⟩

/-- A client stores "x" and "y", touches "x", deletes "y"; GC runs; slave 7 is on all lists. -/
def mirrorRun : List Event :=
  [.accept 0 5,
    .cmd 0 [7] (.text { command := .SET, valid := true, key := [120], data := [1], flags := 3 }),
    .cmd 0 [3, 7] (.bin { command := .Set, status := .OK, key := [121], key_le := y_le, data := [2] }),
    .cmd 0 [7] (.text { command := .TOUCH, valid := true, key := [120], exptime := 500 }),
    .gcStart [7] [] 100,
    .cmd 0 [7] (.bin { command := .Delete, status := .OK, key := [121], key_le := y_le }),
    .gcNext, .gcNext]

/-- The slave of this run ends with "x", its data, flags and new expiration time. -/
theorem replica_of_mirrorRun : ∃ t, run Server.step Server.oneBucket mirrorRun = .ok t ∧
    view t.hash [120] = some ⟨[1], 3, 500⟩ ∧
    ∃ msgs, messagesTo 7 t.log = messagesTo 7 Server.oneBucket.log ++ msgs ∧
      view (msgs.foldl (replApply 100) Server.oneBucket.hash) = view t.hash := by
  have hgc : Server.oneBucket.GcServes 7 := by intro t ht; cases ht
  have he : Along (fun _ e => Event.serves 7 e = true) Server.step Server.oneBucket mirrorRun := by decide
  exact ⟨_, rfl, rfl, replica_of_run hgc he rfl 100 _ rfl⟩

end Yrmcds.Memcache
