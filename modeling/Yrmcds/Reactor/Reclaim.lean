/-
  No socket is destroyed while someone has a pointer to it, and no descriptor is closed while a thread uses
  it.

  Raw pointers to sockets are kept in the jobs of the workers (the socket and its copy of the slaves), in
  `m_slaves`, in `m_new_slaves`, in the requests that will put a slave there, and in the GC thread.  `Grace`
  is the epoch argument: an object in `m_garbage_copy` is in none of the lists, and a job that uses it runs
  on a worker that the request for `reactor::gc` STILL WAITS FOR.  It holds when the garbage is fixed —

  * the slaves have been pruned in the same callback, and a removed slave is invalid (`Control`, `Bin`);
  * there is no GC thread, no new slave and no request (`reactor_gc_ready`);
  * every worker that is running is waited for —

  and later references are copies of the lists, or are to registered sockets.
-/
import Yrmcds.Reactor.Table

namespace Yrmcds.Reactor

open Memcache (Callback SyncRequest MAX_SLAVES)
open Run

/-! ## References -/

/-- A worker's job has a pointer to the object. -/
def Uses (res : Nat → Option Resource) (jobs : Nat → Option Job) (w c : Nat) : Prop :=
  ∃ j, jobs w = some j ∧ c ∈ j.refs res

/-- The handler, the GC thread or a request has a pointer to the object. -/
def Listed (slaves newSlaves : List Nat) (gc : Option GcThread) (requests : List SyncRequest) (c : Nat) :
    Prop :=
  c ∈ slaves ∨ c ∈ newSlaves ∨ (∃ t, gc = some t ∧ (c ∈ t.slaves ∨ c ∈ t.newSlaves)) ∨
    ∃ r ∈ requests, r.callback = .newSlave c

/-- **Grace**: nothing that is in the hands of the syncer is used by a job it does not wait for. -/
structure Grace (res : Nat → Option Resource) (garbageCopy : List Nat) (listed : Nat → Prop)
    (uses : Nat → Nat → Prop) (requests : List SyncRequest) : Prop where
  usesAlive : ∀ {w c}, uses w c → ∃ r, res c = some r
  listedAlive : ∀ {c}, listed c → ∃ r, res c = some r
  notListed : ∀ c ∈ garbageCopy, ¬ listed c
  waited : ∀ c ∈ garbageCopy, ∀ w, uses w c → ∀ r ∈ requests, r.callback = .reactorGc → w ∈ r.waiting
  asked : garbageCopy ≠ [] → ∃ r ∈ requests, r.callback = .reactorGc

/-- The garbage has been removed, and what has been removed is invalid. -/
structure Bin (res : Nat → Option Resource) (garbage garbageCopy removed : List Nat) : Prop where
  invalid : ∀ c ∈ removed, ∀ r, res c = some r → r.valid = false
  garbage_sub : ∀ c ∈ garbage, c ∈ removed
  copy_sub : ∀ c ∈ garbageCopy, c ∈ removed

/-- A thread has a pointer that it may use. -/
def May (res : Nat → Option Resource) (jobs : Nat → Option Job) (gc : Option GcThread) (c : Nat) :
    Thread → Prop
  | .worker w => ∃ j, jobs w = some j ∧ j.active = true ∧ c ∈ j.refs res
  | .gc => ∃ t, gc = some t ∧ t.done = false ∧ (c ∈ t.slaves ∨ c ∈ t.newSlaves)

/-- The workers and their sockets. -/
structure Working (res : Nat → Option Resource) (nWorkers : Nat) (jobs : Nat → Option Job)
    (inside : Thread → Option (Nat × Stage)) (gc : Option GcThread) : Prop where
  lt : ∀ {w j}, jobs w = some j → w < nWorkers
  busy : ∀ {w c r}, jobs w = some (.recv c) → res c = some r → r.busy = true
  one : ∀ {w v c}, jobs w = some (.recv c) → jobs v = some (.recv c) → w = v
  may : ∀ {t c st}, inside t = some (c, st) → May res jobs gc c t

/-- What a step does not change of the objects, apart from flags. -/
def SameSlaves (res res' : Nat → Option Resource) : Prop :=
  ∀ d, (res' d).map Resource.slaves = (res d).map Resource.slaves

theorem SameSlaves.alive {res res' : Nat → Option Resource} (h : SameSlaves res res') {c : Nat}
    {r : Resource} (hr : res c = some r) : ∃ r', res' c = some r' := by
  have hd := h c
  rw [hr] at hd
  cases hr' : res' c with
  | none => rw [hr'] at hd; cases hd
  | some r' => exact ⟨r', rfl⟩

theorem SameSlaves.refs {res res' : Nat → Option Resource} (h : SameSlaves res res') (j : Job) :
    j.refs res' = j.refs res := by
  cases j with
  | recv c => simp only [Job.refs, h c]
  | ending c => simp only [Job.refs, h c]
  | send c => rfl

theorem SameSlaves.uses {res res' : Nat → Option Resource} (h : SameSlaves res res')
    (jobs : Nat → Option Job) : Uses res' jobs = Uses res jobs := by
  funext w c
  simp only [Uses, h.refs]

theorem SameSlaves.may {res res' : Nat → Option Resource} (h : SameSlaves res res')
    (jobs : Nat → Option Job) (gc : Option GcThread) (c : Nat) (t : Thread) :
    May res' jobs gc c t ↔ May res jobs gc c t := by
  cases t with
  | worker w => simp only [May, h.refs]
  | gc => exact Iff.rfl

theorem SameSlaves.update {res : Nat → Option Resource} {c : Nat} {r q : Resource} (hr : res c = some r)
    (hs : q.slaves = r.slaves) : SameSlaves res (Function.update res c (some q)) := by
  intro d
  by_cases hd : d = c
  · rw [hd, Function.update_self, hr, Option.map_some, Option.map_some, hs]
  · rw [Function.update_of_ne hd]

namespace Grace

variable {res res' : Nat → Option Resource} {copy : List Nat} {listed listed' : Nat → Prop}
  {uses uses' : Nat → Nat → Prop} {requests requests' : List SyncRequest}

/-- **A new reference is a copy of a listed one, or is to an object that is not in the garbage.** -/
theorem step (h : Grace res copy listed uses requests)
    (halive : ∀ {c r}, res c = some r → ∃ r', res' c = some r')
    (hu : ∀ {w c}, uses' w c → uses w c ∨ listed c ∨ ((∃ r, res' c = some r) ∧ c ∉ copy))
    (hl : ∀ {c}, listed' c → listed c ∨ ((∃ r, res' c = some r) ∧ c ∉ copy)) :
    Grace res' copy listed' uses' requests := by
  refine ⟨?_, ?_, ?_, ?_, h.asked⟩
  · intro w c hc
    rcases hu hc with hc | hc | ⟨hr, -⟩
    · obtain ⟨r, hr⟩ := h.usesAlive hc
      exact halive hr
    · obtain ⟨r, hr⟩ := h.listedAlive hc
      exact halive hr
    · exact hr
  · intro c hc
    rcases hl hc with hc | ⟨hr, -⟩
    · obtain ⟨r, hr⟩ := h.listedAlive hc
      exact halive hr
    · exact hr
  · intro c hcopy hc
    rcases hl hc with hc | ⟨-, hn⟩
    · exact h.notListed c hcopy hc
    · exact hn hcopy
  · intro c hcopy w hc
    rcases hu hc with hc | hc | ⟨-, hn⟩
    · exact h.waited c hcopy w hc
    · exact absurd hc (h.notListed c hcopy)
    · exact absurd hcopy hn

/-- The requests matter only as a set. -/
theorem requests_iff (h : Grace res copy listed uses requests) (hiff : ∀ r, r ∈ requests' ↔ r ∈ requests) :
    Grace res copy listed uses requests' := by
  refine { h with waited := ?_, asked := ?_ }
  · exact fun c hc w hw r hr => h.waited c hc w hw r ((hiff r).mp hr)
  · intro hne
    obtain ⟨r, hr, hcb⟩ := h.asked hne
    exact ⟨r, (hiff r).mpr hr, hcb⟩

/-- A look at the workers keeps those that run a job. -/
theorem observe (h : Grace res copy listed uses requests) {p : Nat → Bool}
    (hp : ∀ {w c}, uses w c → p w = true) :
    Grace res copy listed uses (requests.map fun r => { r with waiting := r.waiting.filter p }) := by
  refine { h with waited := ?_, asked := ?_ }
  · intro c hc w hw r hr hcb
    obtain ⟨r0, hr0, rfl⟩ := List.mem_map.mp hr
    exact List.mem_filter.mpr ⟨h.waited c hc w hw r0 hr0 hcb, hp hw⟩
  · intro hne
    obtain ⟨r, hr, hcb⟩ := h.asked hne
    exact ⟨_, List.mem_map_of_mem hr, hcb⟩

/-- **When the request is done, no one has a pointer to the garbage.** -/
theorem unused (h : Grace res copy listed uses requests) {r : SyncRequest} (hr : r ∈ requests)
    (hcb : r.callback = .reactorGc) (hw : r.waiting = []) {c : Nat} (hc : c ∈ copy) :
    ¬ listed c ∧ ∀ w, ¬ uses w c := by
  refine ⟨h.notListed c hc, fun w hu => ?_⟩
  have hmem := h.waited c hc w hu r hr hcb
  rw [hw] at hmem
  cases hmem

end Grace

/-! ## The invariant -/

/-- What holds of every reachable state; `pending` are requests whose callback is being made. -/
structure Inv (pending : List SyncRequest) (s : State) : Prop where
  table : Table s.res s.created s.openFds s.resources s.removed s.closes
  tokens : Tokens s.res s.resources (s.phase.dropped ++ s.dropReq) s.removing s.inside
  control : Control s.resources s.readables s.cur s.removing s.slaves s.garbage s.phase
  grace : Grace s.res s.garbageCopy (Listed s.slaves s.newSlaves s.gc (pending ++ s.requests))
    (Uses s.res s.jobs) (pending ++ s.requests)
  bin : Bin s.res s.garbage s.garbageCopy s.removed
  working : Working s.res s.nWorkers s.jobs s.inside s.gc

/-- No job, list or GC thread has a pointer to the object. -/
structure Unused (s : State) (c : Nat) : Prop where
  jobs : ∀ w j, s.jobs w = some j → c ∉ j.refs s.res
  slaves : c ∉ s.slaves
  newSlaves : c ∉ s.newSlaves
  gc : ∀ t, s.gc = some t → c ∉ t.slaves ∧ c ∉ t.newSlaves

theorem unused_of_not_listed {s : State} {q : List SyncRequest} {c : Nat}
    (hl : ¬ Listed s.slaves s.newSlaves s.gc q c) (hu : ∀ w, ¬ Uses s.res s.jobs w c) : Unused s c where
  jobs w j hj hc := hu w ⟨j, hj, hc⟩
  slaves hc := hl (.inl hc)
  newSlaves hc := hl (.inr (.inl hc))
  gc t ht := ⟨fun hc => hl (.inr (.inr (.inl ⟨t, ht, .inl hc⟩))),
    fun hc => hl (.inr (.inr (.inl ⟨t, ht, .inr hc⟩)))⟩

/-- The pointers are the same. -/
theorem Unused.congr {s s' : State} {c : Nat} (h : Unused s c) (hsame : SameSlaves s.res s'.res)
    (hjobs : s'.jobs = s.jobs) (hslaves : s'.slaves = s.slaves) (hnew : s'.newSlaves = s.newSlaves)
    (hgc : s'.gc = s.gc) : Unused s' c where
  jobs w j hj := by
    rw [hsame.refs]
    exact h.jobs w j (hjobs ▸ hj)
  slaves := hslaves ▸ h.slaves
  newSlaves := hnew ▸ h.newSlaves
  gc := hgc ▸ h.gc

/-- What a step destroys, no one has a pointer to; of what it closes, no thread is in `with_fd`. -/
structure Gentle (s s' : State) : Prop where
  destroyed : ∀ c r, s.res c = some r → s'.res c = none → Unused s c ∧ Unused s' c
  closed : ∀ c ∈ s'.closes, c ∉ s.closes → ∀ t st, s.inside t ≠ some (c, st)

theorem Gentle.same {s s' : State} (hres : ∀ {c r}, s.res c = some r → ∃ r', s'.res c = some r')
    (hcl : s'.closes = s.closes) : Gentle s s' := by
  refine ⟨?_, ?_⟩
  · intro c r hr hnone
    obtain ⟨r', hr'⟩ := hres hr
    rw [hr'] at hnone
    cases hnone
  · intro c hc hn
    rw [hcl] at hc
    exact absurd hc hn

theorem Gentle.refl (s : State) : Gentle s s := .same (fun hr => ⟨_, hr⟩) rfl

/-- A step that succeeds and keeps the invariant. -/
def Good (s : State) (x : Except Err State) : Prop := ∃ s', x = .ok s' ∧ Inv [] s' ∧ Gentle s s'

theorem Good.idle {s : State} (h : Inv [] s) : Good s (.ok s) := ⟨s, rfl, h, .refl s⟩

/-! ## Closing -/

variable {s : State} {rs : List SyncRequest} {c : Nat} {r r' : Resource} {e : Entry}

theorem Inv.not_registered (h : Inv rs s) (hc : c ∈ s.removed) : ¬ Registered s.resources c :=
  fun hreg => (h.table.parted c (h.table.removed_lt c hc)).mp hreg hc

/-- A resource whose lock can be taken is not used by a thread. -/
theorem Inv.not_inside_of_not_held (h : Inv rs s) (hheld : s.held c = false) (t : Thread) (st : Stage) :
    s.inside t ≠ some (c, st) := by
  intro ht
  have hmem : t ∈ s.threads := by
    cases t with
    | gc => exact List.mem_cons_self
    | worker w =>
      obtain ⟨j, hj, -⟩ := h.working.may ht
      exact List.mem_cons_of_mem _ (List.mem_map_of_mem (List.mem_range.mpr (h.working.lt hj)))
  have hany : s.held c = true := List.any_eq_true.mpr ⟨t, hmem, by rw [ht]; simp⟩
  rw [hheld] at hany
  cases hany

/-- Flags of an object that the other invariants do not look at. -/
theorem Working.setRes {res : Nat → Option Resource} {nWorkers : Nat} {jobs : Nat → Option Job}
    {inside : Thread → Option (Nat × Stage)} {gc : Option GcThread}
    (h : Working res nWorkers jobs inside gc) (hr : res c = some r) (hs : r'.slaves = r.slaves)
    (hb : r'.busy = r.busy) : Working (Function.update res c (some r')) nWorkers jobs inside gc := by
  refine { h with busy := ?_, may := ?_ }
  · intro w d q hj hq
    rcases update_eq_some hq with ⟨rfl, rfl⟩ | ⟨-, hq⟩
    · exact hb.trans (h.busy hj hr)
    · exact h.busy hj hq
  · exact fun ht => ((SameSlaves.update hr hs).may _ _ _ _).mpr (h.may ht)

theorem Bin.setRes {res : Nat → Option Resource} {garbage copy removed : List Nat}
    (h : Bin res garbage copy removed) (hr : res c = some r) (hv : r.valid = false → r'.valid = false) :
    Bin (Function.update res c (some r')) garbage copy removed := by
  refine { h with invalid := ?_ }
  intro d hd q hq
  rcases update_eq_some hq with ⟨rfl, rfl⟩ | ⟨-, hq⟩
  · exact hv (h.invalid _ hd r hr)
  · exact h.invalid d hd q hq

theorem Grace.setRes {res : Nat → Option Resource} {copy : List Nat} {listed : Nat → Prop}
    {jobs : Nat → Option Job} {requests : List SyncRequest} {q : Resource}
    (h : Grace res copy listed (Uses res jobs) requests) (hr : res c = some r) (hs : q.slaves = r.slaves) :
    Grace (Function.update res c (some q)) copy listed (Uses (Function.update res c (some q)) jobs)
      requests := by
  have hsame := SameSlaves.update hr hs
  rw [hsame.uses]
  exact h.step hsame.alive .inl .inl

theorem Tokens.flag {res : Nat → Option Resource} {resources drop : List Entry} {removing : Option Entry}
    {inside : Thread → Option (Nat × Stage)} (h : Tokens res resources drop removing inside)
    (hr : res c = some r) (hv : r'.valid = r.valid) :
    Tokens (Function.update res c (some r')) resources drop removing inside := by
  refine h.setRes fun d q' hq' _ => ?_
  rcases update_eq_some hq' with ⟨rfl, rfl⟩ | ⟨-, hq'⟩
  · exact ⟨r, hr, hv.symm⟩
  · exact ⟨q', hq', rfl⟩

/-- The descriptor of a removed object is closed. -/
theorem Inv.closeFd (h : Inv rs s) (hr : s.res c = some r) (hcl : r.closed = false) (hc : c ∈ s.removed) :
    Inv rs (s.closeFd c r) where
  table := h.table.close hr hcl (h.not_registered hc)
  tokens := h.tokens.flag hr rfl
  control := h.control
  grace := h.grace.setRes hr rfl
  bin := h.bin.setRes hr id
  working := h.working.setRes hr rfl rfl

/-- What `try_close` changes. -/
theorem tryClose_cases (s : State) (c : Nat) (locks : Bool) :
    s.tryClose c locks = s ∨
      ∃ r, s.res c = some r ∧ r.closed = false ∧ s.held c = false ∧ s.tryClose c locks = s.closeFd c r := by
  unfold State.tryClose
  cases hr : s.res c with
  | none => exact .inl rfl
  | some r =>
    dsimp only
    split_ifs with hcond
    · exact .inl rfl
    · simp only [Bool.or_eq_true, not_or, Bool.not_eq_true] at hcond
      exact .inr ⟨r, rfl, hcond.2, hcond.1.1, rfl⟩

/-- Nothing but the objects and the descriptors has changed. -/
def OnlyObjects (s s' : State) : Prop :=
  s' = { s with res := s'.res, openFds := s'.openFds, closes := s'.closes }

theorem OnlyObjects.trans {s s1 s2 : State} (h : OnlyObjects s s1) (h' : OnlyObjects s1 s2) :
    OnlyObjects s s2 := by
  unfold OnlyObjects at *
  rw [h', h]

/-- A step that only closes descriptors, of resources that no thread uses. -/
structure Closes (s s' : State) : Prop where
  eq : OnlyObjects s s'
  same : SameSlaves s.res s'.res
  closed : ∀ c ∈ s'.closes, c ∉ s.closes → ∀ t st, s.inside t ≠ some (c, st)

theorem Closes.refl (s : State) : Closes s s := ⟨rfl, fun _ => rfl, fun _ hc hn => absurd hc hn⟩

theorem Closes.trans {s s1 s2 : State} (h : Closes s s1) (h' : Closes s1 s2) : Closes s s2 := by
  have hinside : s1.inside = s.inside := by rw [h.eq]
  refine ⟨h.eq.trans h'.eq, fun d => (h'.same d).trans (h.same d), ?_⟩
  intro c hc hn t st
  by_cases hc1 : c ∈ s1.closes
  · exact h.closed c hc1 hn t st
  · rw [← hinside]
    exact h'.closed c hc hc1 t st

theorem Inv.tryClose (h : Inv rs s) (hc : c ∈ s.removed) (locks : Bool) :
    Inv rs (s.tryClose c locks) ∧ Closes s (s.tryClose c locks) := by
  rcases tryClose_cases s c locks with heq | ⟨r, hr, hcl, hheld, heq⟩
  · rw [heq]
    exact ⟨h, .refl s⟩
  · rw [heq]
    have hsame : SameSlaves s.res (s.closeFd c r).res := SameSlaves.update hr rfl
    refine ⟨h.closeFd hr hcl hc, rfl, hsame, ?_⟩
    intro d hd hn t st
    rcases List.mem_cons.mp hd with rfl | hd
    · exact h.not_inside_of_not_held hheld t st
    · exact absurd hd hn

/-- The loop of `fix_garbage`. -/
theorem Inv.tryCloseAll (cs : List Nat) (locks : List Nat) :
    ∀ {s : State}, Inv rs s → (∀ c ∈ cs, c ∈ s.removed) →
    Inv rs (cs.foldl (fun s c => s.tryClose c (c ∈ locks)) s) ∧
      Closes s (cs.foldl (fun s c => s.tryClose c (c ∈ locks)) s) := by
  induction cs with
  | nil => exact fun h _ => ⟨h, .refl _⟩
  | cons c cs ih =>
    intro s h hcs
    obtain ⟨h1, hc1⟩ := h.tryClose (hcs c List.mem_cons_self) (c ∈ locks)
    have hrem : (s.tryClose c (c ∈ locks)).removed = s.removed := by rw [hc1.eq]
    obtain ⟨h2, hc2⟩ := ih h1 fun d hd => hrem ▸ hcs d (List.mem_cons_of_mem _ hd)
    exact ⟨h2, hc1.trans hc2⟩

/-! ## Destroying -/

/-- What the destructors leave. -/
structure Destroys (cs : List Nat) (s s' : State) : Prop where
  eq : OnlyObjects s s'
  table : Table s'.res s'.created s'.openFds s'.resources s'.removed s'.closes
  other : ∀ d, d ∉ cs → s'.res d = s.res d
  gone : ∀ d ∈ cs, s'.res d = none
  closes : ∀ d ∈ s'.closes, d ∈ s.closes ∨ d ∈ cs

theorem destroy_destroys (h : Table s.res s.created s.openFds s.resources s.removed s.closes)
    (hreg : ¬ Registered s.resources c) : Destroys [c] s (s.destroy c) := by
  unfold State.destroy
  have hmem : ∀ d, d ∉ [c] → d ≠ c := fun d hd heq => hd (heq ▸ List.mem_singleton.mpr rfl)
  cases hr : s.res c with
  | none => exact ⟨rfl, h, fun _ _ => rfl, fun d hd => List.mem_singleton.mp hd ▸ hr, fun _ hd => .inl hd⟩
  | some r =>
    dsimp only
    split_ifs with hcl
    · refine ⟨rfl, h.destroy hr hcl hreg, ?_, ?_, fun _ hd => .inl hd⟩
      · exact fun d hd => Function.update_of_ne (hmem d hd) ..
      · exact fun d hd => List.mem_singleton.mp hd ▸ Function.update_self ..
    · have h1 := h.close hr (Bool.eq_false_iff.mpr hcl) hreg
      refine ⟨rfl, h1.destroy (Function.update_self ..) rfl hreg, ?_, ?_, ?_⟩
      · intro d hd
        show Function.update (Function.update s.res c _) c none d = s.res d
        rw [Function.update_of_ne (hmem d hd), Function.update_of_ne (hmem d hd)]
      · exact fun d hd => List.mem_singleton.mp hd ▸ Function.update_self ..
      · intro d hd
        rcases List.mem_cons.mp hd with rfl | hd
        · exact .inr (List.mem_singleton.mpr rfl)
        · exact .inl hd

theorem destroyAll_destroys (cs : List Nat) : ∀ {s : State},
    Table s.res s.created s.openFds s.resources s.removed s.closes →
    (∀ c ∈ cs, ¬ Registered s.resources c) → Destroys cs s (cs.foldl State.destroy s) := by
  induction cs with
  | nil =>
    exact fun h _ => ⟨rfl, h, fun _ _ => rfl, fun _ hd => (nomatch hd), fun _ hd => .inl hd⟩
  | cons c cs ih =>
    intro s h hreg
    have h1 := destroy_destroys h (hreg c List.mem_cons_self)
    have hres : (s.destroy c).resources = s.resources := by rw [h1.eq]
    have h2 := ih h1.table fun d hd => hres ▸ hreg d (List.mem_cons_of_mem _ hd)
    refine ⟨h1.eq.trans h2.eq, h2.table, ?_, ?_, ?_⟩
    · intro d hd
      rw [List.mem_cons, not_or] at hd
      show (cs.foldl State.destroy (s.destroy c)).res d = s.res d
      rw [h2.other d hd.2, h1.other d (by simpa using hd.1)]
    · intro d hd
      show (cs.foldl State.destroy (s.destroy c)).res d = none
      by_cases hcs : d ∈ cs
      · exact h2.gone d hcs
      · rw [h2.other d hcs]
        exact h1.gone d (by simpa [hcs] using hd)
    · intro d hd
      rcases h2.closes d hd with hd | hd
      · rcases h1.closes d hd with hd | hd
        · exact .inl hd
        · exact .inr (List.mem_singleton.mp hd ▸ List.mem_cons_self)
      · exact .inr (List.mem_cons_of_mem _ hd)

/-! ## The syncer -/

/-- Callbacks have been made: pointers may have moved from the requests to `m_new_slaves`, and what was
    destroyed or closed had none. -/
structure Fires (rs rs' : List SyncRequest) (s s' : State) : Prop where
  listed : ∀ c, Listed s'.slaves s'.newSlaves s'.gc (rs' ++ s'.requests) c ↔
    Listed s.slaves s.newSlaves s.gc (rs ++ s.requests) c
  uses : Uses s'.res s'.jobs = Uses s.res s.jobs
  inside : s'.inside = s.inside
  slaves : s'.slaves = s.slaves
  phase : s'.phase = s.phase
  destroyed : ∀ c r, s.res c = some r → s'.res c = none →
    ¬ Listed s.slaves s.newSlaves s.gc (rs ++ s.requests) c ∧ ∀ w, ¬ Uses s.res s.jobs w c
  closed : ∀ c ∈ s'.closes, c ∉ s.closes → ∀ t st, s.inside t ≠ some (c, st)

theorem Fires.refl (rs : List SyncRequest) (s : State) : Fires rs rs s s where
  listed _ := Iff.rfl
  uses := rfl
  inside := rfl
  slaves := rfl
  phase := rfl
  destroyed _ _ hr hnone := nomatch hr.symm.trans hnone
  closed _ hc hn := absurd hc hn

theorem Fires.trans {rs rs1 rs2 : List SyncRequest} {s s1 s2 : State} (h : Fires rs rs1 s s1)
    (h' : Fires rs1 rs2 s1 s2) : Fires rs rs2 s s2 where
  listed c := (h'.listed c).trans (h.listed c)
  uses := h'.uses.trans h.uses
  inside := h'.inside.trans h.inside
  slaves := h'.slaves.trans h.slaves
  phase := h'.phase.trans h.phase
  destroyed c r hr hnone := by
    cases hr1 : s1.res c with
    | none => exact h.destroyed c r hr hr1
    | some r1 =>
      obtain ⟨hl, hu⟩ := h'.destroyed c r1 hr1 hnone
      exact ⟨fun hc => hl ((h.listed c).mpr hc), h.uses ▸ hu⟩
  closed c hc hn t st := by
    by_cases hc1 : c ∈ s1.closes
    · exact h.closed c hc1 hn t st
    · rw [← h.inside]
      exact h'.closed c hc hc1 t st

theorem Fires.gentle {rs rs' : List SyncRequest} {s s' : State} (h : Fires rs rs' s s') : Gentle s s' := by
  refine ⟨?_, h.closed⟩
  intro c r hr hnone
  obtain ⟨hl, hu⟩ := h.destroyed c r hr hnone
  exact ⟨unused_of_not_listed hl hu, unused_of_not_listed (fun hc => hl ((h.listed c).mp hc)) (h.uses ▸ hu)⟩

/-- `m_new_slaves.push_back`. -/
theorem Inv.fireNewSlave {x : Nat} {ws : List Nat} (h : Inv (⟨.newSlave x, ws⟩ :: rs) s) :
    Inv rs (s.fire (.newSlave x)) ∧ Fires (⟨.newSlave x, ws⟩ :: rs) rs s (s.fire (.newSlave x)) := by
  have hlisted : ∀ c, Listed s.slaves (s.newSlaves ++ [x]) s.gc (rs ++ s.requests) c ↔
      Listed s.slaves s.newSlaves s.gc (⟨.newSlave x, ws⟩ :: rs ++ s.requests) c := by
    intro c
    simp only [Listed, List.mem_append, List.cons_append, List.mem_cons, List.not_mem_nil, or_false,
      or_and_right, exists_or, exists_eq_left, Callback.newSlave.injEq]
    constructor
    · rintro (hc | (hc | rfl) | hc | hc)
      · exact .inl hc
      · exact .inr (.inl hc)
      · exact .inr (.inr (.inr (.inl rfl)))
      · exact .inr (.inr (.inl hc))
      · exact .inr (.inr (.inr (.inr hc)))
    · rintro (hc | hc | hc | rfl | hc)
      · exact .inl hc
      · exact .inr (.inl (.inl hc))
      · exact .inr (.inr (.inl hc))
      · exact .inr (.inl (.inr rfl))
      · exact .inr (.inr (.inr hc))
  have hgrace : Grace s.res s.garbageCopy (Listed s.slaves (s.newSlaves ++ [x]) s.gc (rs ++ s.requests))
      (Uses s.res s.jobs) (rs ++ s.requests) := by
    refine ⟨h.grace.usesAlive, fun hc => h.grace.listedAlive ((hlisted _).mp hc),
      fun c hc hl => h.grace.notListed c hc ((hlisted c).mp hl), ?_, ?_⟩
    · exact fun c hc w hw r hr => h.grace.waited c hc w hw r (List.mem_cons_of_mem _ hr)
    · intro hne
      obtain ⟨r, hr, hcb⟩ := h.grace.asked hne
      rcases List.mem_cons.mp hr with rfl | hr
      · cases hcb
      · exact ⟨r, hr, hcb⟩
  refine ⟨⟨h.table, h.tokens, h.control, hgrace, h.bin, h.working⟩, ?_⟩
  exact { Fires.refl rs s with
    listed := hlisted
    destroyed := fun _ _ hr hnone => nomatch hr.symm.trans hnone }

/-- **`reactor::gc`.** -/
theorem Inv.fireGc {r : SyncRequest} (hr : r.callback = .reactorGc) (hw : r.waiting = [])
    (h : Inv (r :: rs) s) : Inv rs s.gcNow ∧ Fires (r :: rs) rs s s.gcNow := by
  have hunused : ∀ c ∈ s.garbageCopy, ¬ Listed s.slaves s.newSlaves s.gc (r :: rs ++ s.requests) c ∧
      ∀ w, ¬ Uses s.res s.jobs w c := fun c hc => h.grace.unused List.mem_cons_self hr hw hc
  have hd := destroyAll_destroys s.garbageCopy h.table fun c hc => h.not_registered (h.bin.copy_sub c hc)
  unfold State.gcNow
  generalize s.garbageCopy.foldl State.destroy s = s' at hd ⊢
  obtain ⟨heq, htable, hother, hgone, hcloses⟩ := hd
  unfold OnlyObjects at heq
  generalize s'.res = res at heq htable hother hgone
  generalize s'.openFds = openFds at heq htable
  generalize s'.closes = closes at heq htable hcloses
  subst heq
  -- the socket of a job, and so its copy of the slaves, is still there
  have hrefs : ∀ {w j}, s.jobs w = some j → j.refs res = j.refs s.res := by
    intro w j hj
    have hsock : ∀ d, d ∈ j.refs s.res → res d = s.res d :=
      fun d hd => hother d fun hc => (hunused d hc).2 w ⟨j, hj, hd⟩
    cases j with
    | recv d => simp only [Job.refs, hsock d List.mem_cons_self]
    | ending d => simp only [Job.refs, hsock d List.mem_cons_self]
    | send d => rfl
  have huses : Uses res s.jobs = Uses s.res s.jobs := by
    funext w c
    exact propext ⟨fun ⟨j, hj, hc⟩ => ⟨j, hj, hrefs hj ▸ hc⟩,
      fun ⟨j, hj, hc⟩ => ⟨j, hj, (hrefs hj).symm ▸ hc⟩⟩
  have hlisted : ∀ c, Listed s.slaves s.newSlaves s.gc (rs ++ s.requests) c ↔
      Listed s.slaves s.newSlaves s.gc (r :: rs ++ s.requests) c := by
    intro c
    simp only [Listed, List.cons_append, List.mem_cons, or_and_right, exists_or, exists_eq_left, hr,
      reduceCtorEq, false_or]
  have hkept : ∀ {c q}, s.res c = some q → (Listed s.slaves s.newSlaves s.gc (r :: rs ++ s.requests) c ∨
      ∃ w, Uses s.res s.jobs w c) → ∃ q', res c = some q' := by
    intro c q hq href
    refine ⟨q, (hother c fun hc => ?_).trans hq⟩
    rcases href with hl | ⟨w, hu⟩
    · exact (hunused c hc).1 hl
    · exact (hunused c hc).2 w hu
  have hres : ∀ {c q}, res c = some q → s.res c = some q := by
    intro c q hq
    rw [← hother c fun hc => ?_, hq]
    rw [hgone c hc] at hq
    cases hq
  refine ⟨⟨htable, ?_, h.control, ⟨?_, ?_, ?_, ?_, ?_⟩, ?_, ?_⟩, ⟨hlisted, huses, rfl, rfl, rfl, ?_, ?_⟩⟩
  · exact h.tokens.setRes fun d q' hq' _ => ⟨q', hres hq', rfl⟩
  · intro w c hc
    rw [huses] at hc
    obtain ⟨q, hq⟩ := h.grace.usesAlive hc
    exact hkept hq (.inr ⟨w, hc⟩)
  · intro c hc
    obtain ⟨q, hq⟩ := h.grace.listedAlive ((hlisted c).mp hc)
    exact hkept hq (.inl ((hlisted c).mp hc))
  · exact fun c hc => nomatch hc
  · exact fun c hc => nomatch hc
  · exact fun hne => absurd rfl hne
  · exact ⟨fun c hc q hq => h.bin.invalid c hc q (hres hq), h.bin.garbage_sub, fun c hc => nomatch hc⟩
  · refine ⟨h.working.lt, fun hj hq => h.working.busy hj (hres hq), h.working.one, ?_⟩
    intro t c st ht
    have hm := h.working.may ht
    cases t with
    | worker w =>
      obtain ⟨j, hj, ha, hc⟩ := hm
      exact ⟨j, hj, ha, (hrefs hj).symm ▸ hc⟩
    | gc => exact hm
  · intro c q hq hnone
    refine hunused c ?_
    by_contra hc
    have hsome : res c = some q := (hother c hc).trans hq
    rw [show res c = none from hnone] at hsome
    cases hsome
  · intro c hc hn t st ht
    have hcopy : c ∈ s.garbageCopy := (hcloses c hc).resolve_left hn
    obtain ⟨hl, hu⟩ := hunused c hcopy
    have hm := h.working.may ht
    cases t with
    | worker w =>
      obtain ⟨j, hj, -, hc⟩ := hm
      exact hu w ⟨j, hj, hc⟩
    | gc =>
      obtain ⟨th, hth, -, hc⟩ := hm
      exact hl (.inr (.inr (.inl ⟨th, hth, hc⟩)))

theorem Inv.fire {r : SyncRequest} (hw : r.waiting = []) (h : Inv (r :: rs) s) :
    Inv rs (s.fire r.callback) ∧ Fires (r :: rs) rs s (s.fire r.callback) := by
  obtain ⟨cb, ws⟩ := r
  cases cb with
  | newSlave x => exact h.fireNewSlave
  | reactorGc => exact h.fireGc rfl hw

theorem Inv.fireAll (rs : List SyncRequest) : ∀ {s : State}, (∀ r ∈ rs, r.waiting = []) → Inv rs s →
    Inv [] (rs.foldl (fun s r => s.fire r.callback) s) ∧
      Fires rs [] s (rs.foldl (fun s r => s.fire r.callback) s) := by
  induction rs with
  | nil => exact fun _ h => ⟨h, .refl [] _⟩
  | cons r rs ih =>
    intro s hw h
    obtain ⟨h1, hf1⟩ := h.fire (hw r List.mem_cons_self)
    obtain ⟨h2, hf2⟩ := ih (fun r' hr' => hw r' (List.mem_cons_of_mem _ hr')) h1
    exact ⟨h2, hf1.trans hf2⟩

/-- Requests that are the same as a set. -/
theorem Inv.reorder {p q : List SyncRequest} (h : Inv rs s)
    (hiff : ∀ r, r ∈ p ++ q ↔ r ∈ rs ++ s.requests) : Inv p { s with requests := q } := by
  have hl : Listed s.slaves s.newSlaves s.gc (p ++ q)
      = Listed s.slaves s.newSlaves s.gc (rs ++ s.requests) := by
    funext c
    simp only [Listed, hiff]
  refine ⟨h.table, h.tokens, h.control, ?_, h.bin, h.working⟩
  show Grace s.res s.garbageCopy (Listed s.slaves s.newSlaves s.gc (p ++ q)) _ (p ++ q)
  rw [hl]
  exact h.grace.requests_iff hiff

theorem unseen_of_uses {seen : List Nat} {w : Nat} (h : Uses s.res s.jobs w c) :
    s.unseen seen w = true := by
  obtain ⟨j, hj, -⟩ := h
  simp [State.unseen, hj]

/-- `syncer::check`. -/
theorem Inv.check (h : Inv [] s) (seen : List Nat) :
    Inv [] (s.check seen) ∧ Gentle s (s.check seen) ∧ (s.check seen).slaves = s.slaves ∧
      (s.check seen).phase = s.phase := by
  have hlisted : Listed s.slaves s.newSlaves s.gc (s.requests.map (s.observe seen))
      = Listed s.slaves s.newSlaves s.gc s.requests := by
    funext c
    simp [Listed, State.observe]
  have h1 : Inv [] { s with requests := s.requests.map (s.observe seen) } := by
    refine ⟨h.table, h.tokens, h.control, ?_, h.bin, h.working⟩
    show Grace _ _ (Listed s.slaves s.newSlaves s.gc (s.requests.map (s.observe seen))) _ _
    rw [hlisted]
    exact h.grace.observe unseen_of_uses
  have h2 := h1.reorder
    (p := (s.requests.map (s.observe seen)).filter fun r => r.waiting = [])
    (q := (s.requests.map (s.observe seen)).filter fun r => r.waiting ≠ []) (by
      intro r
      simp only [List.mem_append, List.mem_filter, decide_eq_true_iff, ← and_or_left, em, and_true,
        ne_eq, List.nil_append])
  obtain ⟨h3, hf⟩ := Inv.fireAll _ (fun r hr => of_decide_eq_true (List.mem_filter.mp hr).2) h2
  have hl2 : ∀ c, Listed s.slaves s.newSlaves s.gc
      (((s.requests.map (s.observe seen)).filter fun r => r.waiting = []) ++
        (s.requests.map (s.observe seen)).filter fun r => r.waiting ≠ []) c ↔
      Listed s.slaves s.newSlaves s.gc s.requests c := by
    intro c
    rw [← hlisted]
    simp only [Listed, List.mem_append, List.mem_filter, decide_eq_true_iff, ← and_or_left, em, and_true,
      ne_eq]
  refine ⟨h3, ⟨?_, hf.closed⟩, hf.slaves, hf.phase⟩
  intro c r hr hnone
  obtain ⟨hl, hu⟩ := hf.destroyed c r hr hnone
  refine ⟨unused_of_not_listed (fun hc => hl ((hl2 c).mpr hc)) hu, ?_⟩
  exact unused_of_not_listed (q := [] ++ (s.check seen).requests) (fun hc => hl ((hf.listed c).mp hc))
    (hf.uses ▸ hu)

/-- `syncer::add_request`. -/
theorem Inv.addRequest {cb : Callback} {seen ws : List Nat} (h : Inv [⟨cb, ws⟩] s)
    (hws : ws = (List.range s.nWorkers).filter (s.unseen seen)) :
    Inv [] (s.addRequest cb seen) ∧ Gentle s (s.addRequest cb seen) ∧
      (s.addRequest cb seen).slaves = s.slaves ∧ (s.addRequest cb seen).phase = s.phase := by
  subst hws
  unfold State.addRequest
  dsimp only
  split_ifs with hw
  · obtain ⟨h1, hf⟩ := h.fire hw
    exact ⟨h1, hf.gentle, hf.slaves, hf.phase⟩
  · refine ⟨h.reorder fun r => ?_, .same (fun hr => ⟨_, hr⟩) rfl, rfl, rfl⟩
    simp only [List.nil_append, List.mem_append, List.singleton_append, List.mem_cons, List.not_mem_nil,
      or_false]
    exact or_comm

end Yrmcds.Reactor
